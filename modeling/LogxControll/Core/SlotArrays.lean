/-
  The `array_fix` arrays of `core/utils/utils.c`: an element keeps its index until it is removed,
  and NULL is a free slot.

  As long as no index leaves the range of `int`, an array is an unbounded row of slots
  (`fixFollows_iff`). What is added takes the first free slot, so the block never has more cells than
  there were elements at once (`fix_length_needed`).
-/
import LogxControll.Core.ArrayBlocks
import LogxControll.Lib.SlotRow

namespace LogxControll

open Simulation

variable {α : Type}

/-- A call of the slot array functions. Indices are `uint`. -/
inductive FixOp (α : Type)
  | add (element : Option α)
  | tryAddLastNull (element : Option α)
  | remove (index : UInt32)
  | ensureIndex (index : UInt32)
  | contains (val : Option α)
  | population
  | firstFreeSlot
  deriving DecidableEq

/-- What such a call returns, `nothing` where it is `void`. -/
inductive FixAnswer (α : Type)
  | nothing
  | bool (b : Bool)
  | int (n : Int)
  | element (e : Option α)
  deriving DecidableEq

namespace Block

variable (junk : Option α)

/-! ## The functions -/

/-- `memset` with zero, of the `n` cells from `i`. -/
def zeroCells : Cells α → Nat → Nat → Option (Cells α)
  | b, _, 0 => some b
  | b, i, n + 1 => (writeCell b i none).bind fun b => zeroCells b (i + 1) n

/-- `array_fix_remove_element`: the cell becomes NULL, the others stay. -/
def arrayFixRemoveElement (array : Option (Cells α)) (length index : Nat) :
    Option (Option α × Option (Cells α)) :=
  match array with
  | none => some (none, none)
  | some b =>
    if length ≤ index then some (none, some b)
    else do
      let ret ← b[index]?
      let b ← writeCell b index none
      return (ret, some b)

/-- The searching loops; the index is returned as an `int`. -/
def arrayFixSearch (stop : Option α → Bool) (array : Option (Cells α)) (length : Nat) :
    Option Int :=
  match array with
  | none => some (-1)
  | some b => do
    match ← scan b stop 0 length with
    | none => return -1
    | some i => return intOfUint i

/-- `array_fix_first_free_slot` -/
def arrayFixFirstFreeSlot (array : Option (Cells α)) (length : Nat) : Option Int :=
  arrayFixSearch Option.isNone array length

/-- `array_fix_contains`. NULL is searched for as every other pointer. -/
def arrayFixContains [DecidableEq α] (array : Option (Cells α)) (length : Nat)
    (val : Option α) : Option Int :=
  arrayFixSearch (fun c => decide (c = val)) array length

/-- The size is a `uint`; with no cells `realloc` frees the block. -/
def arrayFixEnsureIndex (p : NtPair α) (index : Nat) : Option (NtPair α) :=
  if index < p.length then some p
  else do
    let oldlen := p.length
    let n := (index + 1) % 2 ^ 32
    if n = 0 then none
    else
      let b ← zeroCells (reallocCells junk p.array n) oldlen (n - oldlen)
      return { array := some b, length := n }

/-- A negative index is in front of the block. -/
def writeAt (array : Option (Cells α)) (index : Int) (element : Option α) :
    Option (Option (Cells α)) := do
  let b ← array
  if index < 0 then none
  else
    let b ← writeCell b index.toNat element
    return some b

/-- `array_fix_add_element`: into the first free cell, or behind the last after the block has
    grown. -/
def arrayFixAddElement (p : NtPair α) (element : Option α) : Option (NtPair α) := do
  let index ← arrayFixFirstFreeSlot p.array p.length
  if index = -1 then
    let index := intOfUint p.length
    let p ← arrayFixEnsureIndex junk p p.length
    let array ← writeAt p.array index element
    return { p with array := array }
  else
    let array ← writeAt p.array index element
    return { p with array := array }

/-- `array_fix_try_add_last_null`: into the first free cell, if there is one. -/
def arrayFixTryAddLastNull (array : Option (Cells α)) (length : Nat) (element : Option α) :
    Option (Bool × Option (Cells α)) := do
  let index ← arrayFixFirstFreeSlot array length
  if index = -1 then
    return (false, array)
  else
    let array ← writeAt array index element
    return (true, array)

/-- The counting loop over the `n` cells from `i`. -/
def countCells (b : Cells α) : Nat → Nat → Int → Option Int
  | _, 0, population => some population
  | i, n + 1, population => (b[i]?).bind fun c =>
    if c.isSome then (intAdd population 1).bind (countCells b (i + 1) n)
    else countCells b (i + 1) n population

/-- `array_fix_population`: the cells that are not NULL, wherever they stand. -/
def arrayFixPopulation (array : Option (Cells α)) (length : Nat) : Option Int :=
  match array with
  | none => some 0
  | some b => countCells b 0 length 0

/-- A call as coded, with what it leaves of the block and its length. -/
def fixStep [DecidableEq α] (p : NtPair α) : FixOp α → Option (FixAnswer α × NtPair α)
  | .add element => (arrayFixAddElement junk p element).map fun p => (.nothing, p)
  | .tryAddLastNull element => (arrayFixTryAddLastNull p.array p.length element).map fun r =>
      (.bool r.1, { p with array := r.2 })
  | .remove index => (arrayFixRemoveElement p.array p.length index.toNat).map fun r =>
      (.element r.1, { p with array := r.2 })
  | .ensureIndex index => (arrayFixEnsureIndex junk p index.toNat).map fun p => (.nothing, p)
  | .contains val => (arrayFixContains p.array p.length val).map fun n => (.int n, p)
  | .population => (arrayFixPopulation p.array p.length).map fun n => (.int n, p)
  | .firstFreeSlot => (arrayFixFirstFreeSlot p.array p.length).map fun n => (.int n, p)

end Block

/-! ## What is asked for -/

/-- An index, or -1. -/
def indexAnswer : Option Nat → Int
  | none => -1
  | some i => i

/-- The calls on a row of slots. -/
def rowOp [DecidableEq α] (s : SlotRow α) : FixOp α → FixAnswer α × SlotRow α
  | .add element => (.nothing, s.put element)
  | .tryAddLastNull element =>
    if s.firstFree < s.length then (.bool true, s.put element) else (.bool false, s)
  | .remove index => (.element (s.slot index.toNat), s.clear index.toNat)
  | .ensureIndex index => (.nothing, s.stretch (index.toNat + 1))
  | .contains val => (.int (indexAnswer (s.find fun c => decide (c = val))), s)
  | .population => (.int s.population, s)
  | .firstFreeSlot => (.int (indexAnswer (s.find Option.isNone)), s)

/-- The slot that is answered or written is an `int`, and so is the number of elements; the length
    is a `uint`. -/
def fixRoom [DecidableEq α] (s : SlotRow α) : FixOp α → Prop
  | .add _ => s.firstFree < 2 ^ 31
  | .tryAddLastNull _ | .firstFreeSlot => ∀ i, s.find Option.isNone = some i → i < 2 ^ 31
  | .remove _ => True
  | .ensureIndex index => index.toNat + 1 < 2 ^ 32
  | .contains val => ∀ i, (s.find fun c => decide (c = val)) = some i → i < 2 ^ 31
  | .population => s.population < 2 ^ 31

namespace Block

/-- The slots of the row are the cells of the block. -/
structure HoldsFix (p : NtPair α) (s : SlotRow α) : Prop where
  cells : s = .ofCells (p.array.getD [])
  length : (p.array.getD []).length = p.length
  uint : p.length < 2 ^ 32

variable {junk : Option α} {b : Cells α} {p p' : NtPair α} {s : SlotRow α}

theorem scan_length (b : Cells α) (stop : Option α → Bool) :
    scan b stop 0 b.length = some (b.findIdx? stop) := by
  cases h : b.findIdx? stop with
  | none => exact scan_exhausted (List.findIdx?_eq_none_iff.mp h) (by omega)
  | some k =>
    obtain ⟨hk, -, -⟩ := List.findIdx?_eq_some_iff_getElem.mp h
    rw [scan_of_findIdx? (i := 0) h hk, Nat.zero_add]

theorem intOfUint_of_le {n : Nat} (h : 2 ^ 31 ≤ n) (h' : n < 2 ^ 32) :
    intOfUint n = n - 2 ^ 32 := by
  unfold intOfUint
  rw [Int.bmod_def]
  omega

theorem zeroCells_append (junk : Option α) (l : Cells α) (n : Nat) :
    zeroCells (l ++ List.replicate n junk) l.length n = some (l ++ List.replicate n none) := by
  induction n generalizing l with
  | zero => rfl
  | succ n ih =>
    have hset : (l ++ List.replicate (n + 1) junk).set l.length none =
        (l ++ [none]) ++ List.replicate n junk := by
      simp [List.replicate_succ]
    have ih := ih (l ++ [none])
    rw [List.length_append, List.length_singleton] at ih
    rw [zeroCells, writeCell_of_lt (by simp), Option.bind_some, hset, ih, List.append_assoc]
    rfl

theorem countCells_eq (b : Cells α) : ∀ (n i : Nat) (m : Int), i + n = b.length → 0 ≤ m →
    m < 2 ^ 31 → countCells b i n m =
      if m + (b.drop i).countP Option.isSome < 2 ^ 31 then
        some (m + (b.drop i).countP Option.isSome)
      else none
  | 0, i, m, hi, _, hm => by
      rw [List.drop_of_length_le (by omega), List.countP_nil, Nat.cast_zero, Int.add_zero,
        if_pos hm, countCells]
  | n + 1, i, m, hi, h₀, hm => by
      have hlt : i < b.length := by omega
      have ih := countCells_eq b n (i + 1)
      rw [countCells, List.getElem?_eq_getElem hlt, Option.bind_some,
        List.drop_eq_getElem_cons hlt, List.countP_cons]
      generalize (b.drop (i + 1)).countP Option.isSome = c at ih ⊢
      by_cases hsome : b[i].isSome
      · have hadd : m + ((c + 1 : Nat) : Int) = m + 1 + c := by omega
        rw [if_pos hsome, if_pos hsome, hadd]
        by_cases hfull : m + 1 < 2 ^ 31
        · rw [intAdd_of_lt (by omega) hfull, Option.bind_some, ih _ (by omega) (by omega) hfull]
        · rw [intAdd_of_le (by omega), Option.bind_none, if_neg (by omega)]
      · rw [if_neg hsome, if_neg hsome, ih _ (by omega) h₀ hm]
        rfl

/-! ## The functions on a row -/

/-- What is found as an `int`. -/
def intAnswer : Option Nat → Int
  | none => -1
  | some i => intOfUint i

theorem intAnswer_eq_iff {found : Option Nat} (h : ∀ i, found = some i → i < 2 ^ 32) :
    intAnswer found = indexAnswer found ↔ ∀ i, found = some i → i < 2 ^ 31 := by
  cases found with
  | none => simp [intAnswer, indexAnswer]
  | some i =>
    have hi := h i rfl
    simp only [intAnswer, indexAnswer, Option.some.injEq, forall_eq']
    by_cases hlt : i < 2 ^ 31
    · exact iff_of_true (intOfUint_of_lt hlt) hlt
    · refine iff_of_false (fun heq => ?_) hlt
      rw [intOfUint_of_le (by omega) hi] at heq
      omega

theorem HoldsFix.arrayFixSearch_eq (h : HoldsFix p s) (stop : Option α → Bool) :
    arrayFixSearch stop p.array p.length = some (intAnswer (s.find stop)) := by
  obtain ⟨rfl, hlength, -⟩ := h
  rw [SlotRow.find_ofCells, ← hlength]
  unfold arrayFixSearch
  cases p.array with
  | none => rfl
  | some b =>
    rw [Option.getD_some]
    simp only [scan_length, Option.bind_eq_bind, Option.bind_some]
    cases b.findIdx? stop <;> rfl

theorem HoldsFix.find_lt (h : HoldsFix p s) {stop : Option α → Bool} {i : Nat}
    (hi : s.find stop = some i) : i < p.length := by
  have hlt := (SlotRow.find_eq_some_iff.mp hi).1
  rw [← h.length]
  rwa [h.cells] at hlt

theorem arrayFixEnsureIndex_eq (hlength : (p.array.getD []).length = p.length) {index : Nat}
    (hle : p.length ≤ index) (hindex : index + 1 < 2 ^ 32) :
    arrayFixEnsureIndex junk p index = some
      { array := some (p.array.getD [] ++ List.replicate (index + 1 - p.length) none)
        length := index + 1 } := by
  have hrealloc : reallocCells junk p.array (index + 1) =
      p.array.getD [] ++ List.replicate (index + 1 - p.length) junk := by
    rw [reallocCells, List.take_of_length_le (by omega), hlength]
  have hzero := zeroCells_append junk (p.array.getD []) (index + 1 - p.length)
  rw [hlength] at hzero
  unfold arrayFixEnsureIndex
  rw [if_neg (by omega), Nat.mod_eq_of_lt hindex, if_neg (by omega), hrealloc, hzero]
  rfl

theorem HoldsFix.write (h : HoldsFix p s) {i : Nat} (hi : i < p.length) (e : Option α) :
    writeAt p.array i e = some (some ((p.array.getD []).set i e)) := by
  have hlength := h.length
  cases harray : p.array with
  | none =>
    rw [harray, Option.getD_none, List.length_nil] at hlength
    omega
  | some b =>
    rw [harray, Option.getD_some] at hlength
    unfold writeAt
    rw [Option.bind_eq_bind, Option.bind_some, if_neg (by omega), Int.toNat_natCast,
      writeCell_of_lt (by omega)]
    rfl

theorem writeAt_of_neg {array : Option (Cells α)} {i : Int} (hi : i < 0) (e : Option α) :
    writeAt array i e = none := by
  unfold writeAt
  cases array with
  | none => rfl
  | some b => exact if_pos hi

/-- A cell of the block is written. -/
theorem HoldsFix.set (h : HoldsFix p s) {i : Nat} {e : Option α} {s' : SlotRow α}
    (hs' : s' = .ofCells ((p.array.getD []).set i e)) :
    HoldsFix { p with array := some ((p.array.getD []).set i e) } s' :=
  ⟨hs', (List.length_set ..).trans h.length, h.uint⟩

theorem HoldsFix.firstFree_eq (h : HoldsFix p s) :
    s.firstFree = (s.find Option.isNone).getD p.length := by
  have hlength : s.length = p.length := by
    rw [h.cells]
    exact h.length
  rw [SlotRow.firstFree, hlength]

theorem arrayFixFirstFreeSlot_eq (h : HoldsFix p s) :
    arrayFixFirstFreeSlot p.array p.length = some (intAnswer (s.find Option.isNone)) :=
  h.arrayFixSearch_eq Option.isNone

/-- The first free slot, below `2^31`, is no `-1`. -/
theorem intAnswer_of_lt {i : Nat} (hi : i < 2 ^ 31) : intAnswer (some i) = i := intOfUint_of_lt hi

/-- Something is put into a free cell. -/
theorem HoldsFix.put_of_find (h : HoldsFix p s) {i : Nat} (hfind : s.find Option.isNone = some i)
    (e : Option α) :
    HoldsFix { p with array := some ((p.array.getD []).set i e) } (s.put e) := by
  have hfree : s.firstFree = i := by rw [h.firstFree_eq, hfind, Option.getD_some]
  have hlt := h.find_lt hfind
  obtain ⟨rfl, hlength, huint⟩ := h
  refine HoldsFix.set ⟨rfl, hlength, huint⟩ ?_
  rw [SlotRow.put_ofCells_of_lt _ (by omega), hfree]

/-- All cells are occupied, and there is room for one more. -/
theorem arrayFixAddElement_full (h : HoldsFix p s) (hfind : s.find Option.isNone = none)
    (hroom : p.length < 2 ^ 31) (e : Option α) :
    arrayFixAddElement junk p e =
      some { array := some (p.array.getD [] ++ [e]), length := p.length + 1 } := by
  have hlength := h.length
  have hsucc : p.length + 1 < 2 ^ 32 := by omega
  have hensure := @arrayFixEnsureIndex_eq α junk p hlength p.length le_rfl hsucc
  have hgrown : HoldsFix { array := some (p.array.getD [] ++ [none]), length := p.length + 1 }
      (.ofCells (p.array.getD [] ++ [none])) := ⟨rfl, by simp [hlength], hsucc⟩
  have hwrite := hgrown.write (i := p.length) (Nat.lt_succ_self _) e
  have hset : (p.array.getD [] ++ [none]).set p.length e = p.array.getD [] ++ [e] := by
    rw [← hlength]
    simp
  rw [Nat.add_sub_cancel_left] at hensure
  unfold arrayFixAddElement
  rw [arrayFixFirstFreeSlot_eq h, hfind]
  simp only [Option.bind_eq_bind, Option.bind_some, intAnswer, if_true, intOfUint_of_lt hroom]
  rw [hensure]
  simp only [Option.bind_some, List.replicate_one]
  rw [hwrite, Option.getD_some, hset]
  rfl

/-- Some cell is free. -/
theorem arrayFixAddElement_of_find (h : HoldsFix p s) {i : Nat}
    (hfind : s.find Option.isNone = some i) (hroom : i < 2 ^ 31) (e : Option α) :
    arrayFixAddElement junk p e = some { p with array := some ((p.array.getD []).set i e) } := by
  have hne : ¬ (i : Int) = -1 := by omega
  unfold arrayFixAddElement
  rw [arrayFixFirstFreeSlot_eq h, hfind, intAnswer_of_lt hroom]
  simp only [Option.bind_eq_bind, Option.bind_some, if_neg hne]
  rw [h.write (h.find_lt hfind)]
  rfl

/-! ## One call -/

theorem fixStep_add [DecidableEq α] (h : HoldsFix p s) (e : Option α)
    (hroom : s.firstFree < 2 ^ 31) :
    ∃ p', fixStep junk p (.add e) = some (.nothing, p') ∧ HoldsFix p' (s.put e) := by
  rw [h.firstFree_eq] at hroom
  cases hfind : s.find Option.isNone with
  | some i =>
    rw [hfind, Option.getD_some] at hroom
    exact ⟨_, by rw [fixStep, arrayFixAddElement_of_find h hfind hroom]; rfl,
      h.put_of_find hfind e⟩
  | none =>
    rw [hfind, Option.getD_none] at hroom
    have hfull : s.firstFree = p.length := by rw [h.firstFree_eq, hfind, Option.getD_none]
    refine ⟨_, by rw [fixStep, arrayFixAddElement_full h hfind hroom]; rfl, ?_, ?_, ?_⟩
    · have hlength := h.length
      rw [h.cells] at hfull ⊢
      exact SlotRow.put_ofCells_full _ (hfull.trans hlength.symm) e
    · have hlength := h.length
      simp [hlength]
    · show p.length + 1 < 2 ^ 32
      omega

theorem fixStep_tryAddLastNull [DecidableEq α] (h : HoldsFix p s) (e : Option α)
    (hroom : fixRoom s (.tryAddLastNull e)) :
    ∃ p', fixStep junk p (.tryAddLastNull e) = some ((rowOp s (.tryAddLastNull e)).1, p') ∧
      HoldsFix p' (rowOp s (.tryAddLastNull e)).2 := by
  have hlength : s.length = p.length := by
    rw [h.cells]
    exact h.length
  cases hfind : s.find Option.isNone with
  | some i =>
    have hi := hroom i hfind
    have hne : ¬ (i : Int) = -1 := by omega
    have hfree : s.firstFree < s.length := by
      rw [h.firstFree_eq, hfind, Option.getD_some, hlength]
      exact h.find_lt hfind
    rw [rowOp, if_pos hfree]
    refine ⟨{ p with array := some ((p.array.getD []).set i e) }, ?_, h.put_of_find hfind e⟩
    rw [fixStep, arrayFixTryAddLastNull, arrayFixFirstFreeSlot_eq h, hfind, intAnswer_of_lt hi]
    simp only [Option.bind_eq_bind, Option.bind_some, if_neg hne]
    rw [h.write (h.find_lt hfind)]
    rfl
  | none =>
    have hfull : ¬ s.firstFree < s.length := by
      rw [h.firstFree_eq, hfind, Option.getD_none, hlength]
      exact lt_irrefl _
    rw [rowOp, if_neg hfull]
    refine ⟨p, ?_, h⟩
    rw [fixStep, arrayFixTryAddLastNull, arrayFixFirstFreeSlot_eq h, hfind]
    rfl

theorem fixStep_remove [DecidableEq α] (h : HoldsFix p s) (index : UInt32) :
    ∃ p', fixStep junk p (.remove index) = some (.element (s.slot index.toNat), p') ∧
      HoldsFix p' (s.clear index.toNat) := by
  obtain ⟨array, length⟩ := p
  obtain ⟨rfl, hlength, huint⟩ := h
  simp only at hlength huint
  cases array with
  | none =>
    refine ⟨_, rfl, ?_, hlength, huint⟩
    exact SlotRow.clear_ofCells [] _
  | some b =>
    rw [Option.getD_some] at hlength
    by_cases hin : index.toNat < b.length
    · have hout : ¬ length ≤ index.toNat := by omega
      refine ⟨{ array := some (b.set index.toNat none), length := length }, ?_,
        SlotRow.clear_ofCells b _, (List.length_set ..).trans hlength, huint⟩
      simp only [fixStep, arrayFixRemoveElement, if_neg hout, List.getElem?_eq_getElem hin,
        Option.bind_eq_bind, Option.bind_some, writeCell_of_lt hin]
      show some (FixAnswer.element b[index.toNat], _) = some (.element (b[index.toNat]?.join), _)
      rw [List.getElem?_eq_getElem hin]
      rfl
    · have hout : length ≤ index.toNat := by omega
      refine ⟨{ array := some b, length := length }, ?_, ?_, hlength, huint⟩
      · simp only [fixStep, arrayFixRemoveElement, if_pos hout]
        show some (FixAnswer.element none, _) = some (.element (b[index.toNat]?.join), _)
        rw [List.getElem?_eq_none (by omega)]
        rfl
      · rw [Option.getD_some, SlotRow.clear_ofCells, List.set_eq_of_length_le (by omega)]

theorem fixStep_ensureIndex [DecidableEq α] (h : HoldsFix p s) {index : UInt32}
    (hroom : index.toNat + 1 < 2 ^ 32) :
    ∃ p', fixStep junk p (.ensureIndex index) = some (.nothing, p') ∧
      HoldsFix p' (s.stretch (index.toNat + 1)) := by
  have hlength := h.length
  obtain ⟨rfl, -, huint⟩ := h
  by_cases hin : index.toNat < p.length
  · have hzero : index.toNat + 1 - (p.array.getD []).length = 0 := by omega
    refine ⟨p, by rw [fixStep, arrayFixEnsureIndex, if_pos hin]; rfl, ?_, hlength, huint⟩
    rw [SlotRow.stretch_ofCells, hzero, List.replicate_zero, List.append_nil]
  · refine ⟨_, by
      rw [fixStep, arrayFixEnsureIndex_eq hlength (Nat.le_of_not_lt hin) hroom]; rfl, ?_, ?_, hroom⟩
    · rw [SlotRow.stretch_ofCells, hlength]
      rfl
    · rw [Option.getD_some, List.length_append, List.length_replicate]
      show _ = index.toNat + 1
      omega

theorem arrayFixPopulation_eq (h : HoldsFix p s) : arrayFixPopulation p.array p.length =
    if s.population < 2 ^ 31 then some (s.population : Int) else none := by
  obtain ⟨rfl, hlength, -⟩ := h
  rw [SlotRow.population_ofCells]
  cases harray : p.array with
  | none => rfl
  | some b =>
    rw [harray, Option.getD_some] at hlength
    have hcount := countCells_eq b b.length 0 0 (Nat.zero_add _) le_rfl (by decide)
    rw [List.drop_zero, Int.zero_add] at hcount
    rw [arrayFixPopulation, ← hlength, hcount, Option.getD_some]
    exact if_congr (by omega) rfl rfl

/-- With room, a call answers what the row answers, and the block holds the row afterwards. -/
theorem fixStep_holds [DecidableEq α] (h : HoldsFix p s) (op : FixOp α) (hroom : fixRoom s op) :
    ∃ p', fixStep junk p op = some ((rowOp s op).1, p') ∧ HoldsFix p' (rowOp s op).2 := by
  cases op with
  | add e => exact fixStep_add h e hroom
  | tryAddLastNull e => exact fixStep_tryAddLastNull h e hroom
  | remove index => exact fixStep_remove h index
  | ensureIndex index => exact fixStep_ensureIndex h hroom
  | contains val =>
    refine ⟨p, ?_, h⟩
    have hanswer := (intAnswer_eq_iff fun i hi => (h.find_lt hi).trans h.uint).mpr hroom
    rw [fixStep, arrayFixContains, h.arrayFixSearch_eq, hanswer]
    rfl
  | population =>
    have hpop : s.population < 2 ^ 31 := hroom
    refine ⟨p, ?_, h⟩
    rw [fixStep, arrayFixPopulation_eq h, if_pos hpop]
    rfl
  | firstFreeSlot =>
    refine ⟨p, ?_, h⟩
    have hanswer := (intAnswer_eq_iff fun i hi => (h.find_lt hi).trans h.uint).mpr hroom
    rw [fixStep, arrayFixFirstFreeSlot_eq h, hanswer]
    rfl

/-! ## Runs -/

/-- A free cell whose index is negative as an `int`, but not `-1`, is written in front of the
    block. -/
theorem HoldsFix.write_eq_none (h : HoldsFix p s) {i : Nat} (hfind : s.find Option.isNone = some i)
    (hi : 2 ^ 31 ≤ i) (e : Option α) :
    ∃ index, intAnswer (some i) = index ∧ ¬ index = -1 ∧ writeAt p.array index e = none := by
  have hlt := h.find_lt hfind
  have huint := h.uint
  have hint : intAnswer (some i) = i - 2 ^ 32 := intOfUint_of_le hi (hlt.trans huint)
  exact ⟨_, hint, by omega, writeAt_of_neg (by omega) e⟩

theorem room_of_add (h : HoldsFix p s) {e : Option α} (hstep : arrayFixAddElement junk p e = some p') :
    s.firstFree < 2 ^ 31 := by
  refine Nat.lt_of_not_le fun hle => ?_
  unfold arrayFixAddElement at hstep
  rw [arrayFixFirstFreeSlot_eq h] at hstep
  rw [h.firstFree_eq] at hle
  cases hfind : s.find Option.isNone with
  | some i =>
    rw [hfind, Option.getD_some] at hle
    obtain ⟨index, hindex, hne, hwrite⟩ := h.write_eq_none hfind hle e
    rw [hfind, hindex] at hstep
    simp only [Option.bind_eq_bind, Option.bind_some] at hstep
    rw [if_neg hne, hwrite] at hstep
    cases hstep
  | none =>
    rw [hfind, Option.getD_none] at hle
    have hint := intOfUint_of_le hle h.uint
    have huint := h.uint
    simp only [hfind, Option.bind_eq_bind, Option.bind_some, intAnswer, if_true] at hstep
    obtain ⟨p₁, -, hstep⟩ := Option.bind_eq_some_iff.mp hstep
    rw [writeAt_of_neg (by omega)] at hstep
    cases hstep

theorem room_of_tryAddLastNull (h : HoldsFix p s) {e : Option α} {r : Bool × Option (Cells α)}
    (hstep : arrayFixTryAddLastNull p.array p.length e = some r) {i : Nat}
    (hfind : s.find Option.isNone = some i) : i < 2 ^ 31 := by
  refine Nat.lt_of_not_le fun hle => ?_
  obtain ⟨index, hindex, hne, hwrite⟩ := h.write_eq_none hfind hle e
  rw [arrayFixTryAddLastNull, arrayFixFirstFreeSlot_eq h, hfind, hindex] at hstep
  simp only [Option.bind_eq_bind, Option.bind_some] at hstep
  rw [if_neg hne, hwrite] at hstep
  cases hstep

theorem holdsFix_null : HoldsFix (α := α) { array := none, length := 0 } .empty :=
  ⟨rfl, rfl, Nat.two_pow_pos 32⟩

end Block

open Block

/-- Nothing asks for a longer block but an element that is added. -/
def FixOp.OnDemand : FixOp α → Prop
  | .add element => element ≠ none
  | .ensureIndex _ => False
  | _ => True

/-- A call with its answer left out. -/
def fixAfter [DecidableEq α] (junk : Option α) (p : NtPair α) (op : FixOp α) : Option (NtPair α) :=
  (fixStep junk p op).map Prod.snd

/-- The number of elements. -/
def occupied (p : NtPair α) : Nat := (p.array.getD []).countP Option.isSome

/-- A block gets longer only when all its cells are occupied. -/
theorem arrayFixAddElement_length {junk : Option α} {p p' : NtPair α} {s : SlotRow α}
    (h : HoldsFix p s) {element : Option α} (helement : element ≠ none)
    (hadd : arrayFixAddElement junk p element = some p') :
    p'.length = p.length ∨ p.length ≤ p'.length ∧ occupied p' = p'.length := by
  have hfree := room_of_add h hadd
  rw [h.firstFree_eq] at hfree
  cases hfind : s.find Option.isNone with
  | some i =>
    rw [hfind, Option.getD_some] at hfree
    obtain rfl := Option.some.inj (hadd.symm.trans (arrayFixAddElement_of_find h hfind hfree element))
    exact .inl rfl
  | none =>
    rw [hfind, Option.getD_none] at hfree
    obtain rfl := Option.some.inj (hadd.symm.trans (arrayFixAddElement_full h hfind hfree element))
    refine .inr ⟨Nat.le_succ _, ?_⟩
    rw [h.cells, SlotRow.find_ofCells] at hfind
    have hall : ∀ c ∈ p.array.getD [] ++ [element], c.isSome := by
      intro c hc
      rcases List.mem_append.mp hc with hc | hc
      · simpa using List.findIdx?_eq_none_iff.mp hfind c hc
      · rw [List.mem_singleton.mp hc]
        exact Option.isSome_iff_ne_none.mpr helement
    rw [occupied, Option.getD_some, List.countP_eq_length.mpr hall, List.length_append, h.length]
    rfl

theorem fixAfter_length [DecidableEq α] {junk : Option α} {p p' : NtPair α} {s : SlotRow α}
    (h : HoldsFix p s) {op : FixOp α} (hop : op.OnDemand) (hstep : fixAfter junk p op = some p') :
    (∃ s', HoldsFix p' s') ∧
      (p'.length = p.length ∨ p.length ≤ p'.length ∧ occupied p' = p'.length) := by
  obtain ⟨⟨answer, p₁⟩, hfix, rfl⟩ := Option.map_eq_some_iff.mp hstep
  have hroom (hroom : fixRoom s op) : ∃ s', HoldsFix p₁ s' := by
    obtain ⟨p₂, hp₂, h₂⟩ := @fixStep_holds α junk p s _ h op hroom
    obtain rfl := (Prod.mk.inj (Option.some.inj (hfix.symm.trans hp₂))).2
    exact ⟨_, h₂⟩
  cases op with
  | add element =>
    obtain ⟨p₂, hadd, heq⟩ := Option.map_eq_some_iff.mp hfix
    obtain ⟨-, rfl⟩ := Prod.mk.inj heq
    exact ⟨hroom (room_of_add h hadd), arrayFixAddElement_length h hop hadd⟩
  | tryAddLastNull element =>
    obtain ⟨r, hadd, heq⟩ := Option.map_eq_some_iff.mp hfix
    obtain ⟨-, rfl⟩ := Prod.mk.inj heq
    exact ⟨hroom fun i hi => room_of_tryAddLastNull h hadd hi, .inl rfl⟩
  | remove index =>
    obtain ⟨r, hremove, heq⟩ := Option.map_eq_some_iff.mp hfix
    obtain ⟨-, rfl⟩ := Prod.mk.inj heq
    exact ⟨hroom trivial, .inl rfl⟩
  | ensureIndex index => cases hop
  | contains val | population | firstFreeSlot =>
    obtain ⟨n, -, heq⟩ := Option.map_eq_some_iff.mp hfix
    obtain ⟨-, rfl⟩ := Prod.mk.inj heq
    exact ⟨⟨s, h⟩, .inl rfl⟩

/-- The length of an array that starts from nothing is the greatest number of elements that it held
    at once, unless it was asked to be longer or NULL was added. -/
theorem fix_length_needed [DecidableEq α] {junk : Option α} {ops : List (FixOp α)}
    (hops : ∀ op ∈ ops, op.OnDemand) {p : NtPair α}
    (hrun : Run.run (fixAfter junk) { array := none, length := 0 } ops = some p) :
    IsGreatest {n | ∃ before p₁, before <+: ops ∧
      Run.run (fixAfter junk) { array := none, length := 0 } before = some p₁ ∧ occupied p₁ = n}
      p.length := by
  refine (Run.run_isGreatest (fun p => ∃ s, HoldsFix p s) ?_ ?_ ⟨.empty, holdsFix_null⟩ ?_ hops
    hrun).2
  · rintro p n ⟨s, h⟩ rfl
    exact h.length ▸ List.countP_le_length
  · rintro p op p' ⟨s, h⟩ hop hstep
    exact fixAfter_length h hop hstep
  · rfl

/-- Four elements, but never more than two at once. -/
theorem fix_length_needed_two : ∃ p,
    Run.run (fixAfter (none : Option Nat)) { array := none, length := 0 }
      [.add (some 7), .remove 0, .add (some 8), .add (some 9), .remove 0, .add (some 7)] = some p ∧
    IsGreatest {n | ∃ before p₁, before <+: [.add (some 7), .remove 0, .add (some 8),
        .add (some 9), .remove 0, .add (some 7)] ∧
      Run.run (fixAfter (none : Option Nat)) { array := none, length := 0 } before = some p₁ ∧
      occupied p₁ = n} p.length ∧ p.length = 2 := by
  refine ⟨⟨some [some 7, some 9], 2⟩, by decide, fix_length_needed (fun op hop => ?_) (by decide), rfl⟩
  simp only [List.mem_cons, List.not_mem_nil, or_false] at hop
  rcases hop with rfl | rfl | rfl | rfl | rfl | rfl <;> simp [FixOp.OnDemand]

end LogxControll
