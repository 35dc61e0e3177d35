/-
  `core/utils/utils.c`: the two null-terminated array families on their blocks, with the machine
  integers of the source. A cell outside the block cannot be read or written and signed overflow
  is undefined: both have no result. `malloc` and `realloc` succeed, and leave `junk` in new cells.

  Below `2^31` cells the functions compute what the list functions of `Core/Utils` compute, which
  the rest of the development builds on.
-/
import Mathlib.Data.List.GetD
import LogxControll.Core.Utils
import LogxControll.Lib.Refinement

namespace LogxControll

variable {α : Type}

namespace Block

/-- The cells of a block. -/
abbrev Cells (α : Type) := List (Option α)

/-- `int` addition. -/
def intAdd (a b : Int) : Option Int :=
  if -(2 ^ 31) ≤ a + b ∧ a + b < 2 ^ 31 then some (a + b) else none

theorem intAdd_of_lt {a b : Int} (h₀ : 0 ≤ a + b) (h : a + b < 2 ^ 31) :
    intAdd a b = some (a + b) := if_pos ⟨by omega, h⟩

theorem intAdd_of_le {a b : Int} (h : 2 ^ 31 ≤ a + b) : intAdd a b = none := if_neg (by omega)

/-- A write to a cell; beyond the block there is none. -/
def writeCell (b : Cells α) (i : Nat) (c : Option α) : Option (Cells α) :=
  if i < b.length then some (b.set i c) else none

/-- `realloc(array, sizeof(void*) * n)` -/
def reallocCells (junk : Option α) (array : Option (Cells α)) (n : Nat) : Cells α :=
  (array.getD []).take n ++ List.replicate (n - (array.getD []).length) junk

/-- The loops looking for a cell: the first one of the `n` cells from `i` that ends the loop. -/
def scan (b : Cells α) (stop : Option α → Bool) : Nat → Nat → Option (Option Nat)
  | _, 0 => some none
  | i, n + 1 => (b[i]?).bind fun c => if stop c then some (some i) else scan b stop (i + 1) n

/-- The shifting loops: the `n` cells from `i` take the value of their right neighbour. -/
def moveDown (b : Cells α) : Nat → Nat → Option (Cells α)
  | _, 0 => some b
  | i, n + 1 => (b[i + 1]?).bind fun c => (writeCell b i c).bind fun b => moveDown b (i + 1) n

/-! ## array_nt -/

section Nt

variable (junk : Option α)

/-- The block and its length. -/
structure NtPair (α : Type) where
  array : Option (Cells α)
  length : Nat
  deriving DecidableEq

/-- `array_nt_init`. -/
def arrayNtInit : NtPair α := { array := some [none, none], length := 2 }

/-- `array_nt_pop_element`. The length is passed by value, so the caller keeps the old one. -/
def arrayNtPopElement (array : Option (Cells α)) (len index : Nat) :
    Option (Option α × Option (Cells α)) :=
  match array with
  | none => some (none, none)
  | some b =>
    if len ≤ index then some (none, some b)
    else do
      let ret ← b[index]?
      -- `--len` precedes the loop
      let b ← moveDown b index (len - 1 - index)
      let b ← writeCell b (len - 1) none
      return (ret, some b)

/-- `array_nt_append_element`: the first NULL within the length is filled, and where there is none
    the block grows by one cell. -/
def arrayNtAppendElement (p : NtPair α) (element : Option α) : Option (Int × NtPair α) :=
  match element, p.array with
  | none, _ => some (-1, p)
  | some e, none => do
    let b ← writeCell (reallocCells junk none 1) 0 (some e)
    return (0, { array := some b, length := 1 })
  | some e, some b => do
    let len := intOfUint p.length
    match ← scan b Option.isNone 0 len.toNat with
    | none =>
      let n ← intAdd len 1
      -- a negative `int` is no size
      if n < 0 then none
      else
        let b ← writeCell (reallocCells junk (some b) n.toNat) len.toNat (some e)
        return (len, { array := some b, length := n.toNat })
    | some ep =>
      let b ← writeCell b ep (some e)
      let b ← if (ep : Int) + 1 < len then writeCell b (ep + 1) none else some b
      return ((ep : Int), { array := some b, length := p.length })

/-- Both ends of the loops of the `contains` functions: a NULL cell, and the address. -/
def found [DecidableEq α] (addr c : Option α) : Bool := c.isNone || decide (addr = c)

/-- `array_nt_contains`. -/
def arrayNtContains [DecidableEq α] (array : Option (Cells α)) (length : Nat)
    (addr : Option α) : Option Int :=
  match array with
  | none => some (-1)
  | some b => do
    match ← scan b (found addr) 0 length with
    | none => return -1
    | some i => return if (b.getD i none).isNone then -1 else intOfUint i

/-- `array_nt_population`: the cells in front of the first NULL. -/
def arrayNtPopulation (array : Option (Cells α)) (length : Nat) : Option Int :=
  match array with
  | none => some 0
  | some b => do
    match ← scan b Option.isNone 0 length with
    | none => return intOfUint length
    | some i => return intOfUint i

end Nt

/-! ## array_pnt -/

section Pnt

variable (junk : Option α)

/-- The second loop has no bound: it ends in the block or leaves it. -/
def arrayPntLastIndex (array : Option (Cells α)) : Option Int :=
  match array with
  | none => some (-1)
  | some b => do
    match ← b[0]? with
    | none => return -1
    | some _ =>
      match ← scan b Option.isNone 1 b.length with
      | none => none
      | some i => return intOfUint (i - 1)

/-- `array_pnt_pop_element`. Nothing is popped beyond the last element. -/
def arrayPntPopElement (array : Option (Cells α)) (index : Nat) :
    Option (Option α × Option (Cells α)) := do
  let lst ← arrayPntLastIndex array
  if lst < intOfUint index then
    return (none, array)
  else
    let b ← array
    let ret ← b[index]?
    let i := intOfUint index
    -- cells in front of the block
    if i < 0 ∧ i < lst then
      none
    else
      let b ← moveDown b i.toNat (lst - i).toNat
      let n ← intAdd lst 2
      return (ret, some (reallocCells junk (some b) n.toNat))

/-- `array_pnt_append_element`: the block is reallocated to hold one element more and the NULL
    behind it. -/
def arrayPntAppendElement (array : Option (Cells α)) (element : Option α) :
    Option (Int × Option (Cells α)) :=
  match element with
  | none => some (-1, array)
  | some e => do
    let lst ← arrayPntLastIndex array
    let lst ← (if lst < 0 then some 0 else intAdd lst 1 : Option Int)
    let n ← intAdd lst 2
    let b ← writeCell (reallocCells junk array n.toNat) lst.toNat (some e)
    let b ← writeCell b (lst.toNat + 1) none
    return (lst, some b)

/-- `array_pnt_contains`. The scan stops at the NULL, wherever the block ends. -/
def arrayPntContains [DecidableEq α] (array : Option (Cells α)) (addr : Option α) : Option Int :=
  match array with
  | none => some (-1)
  | some b => do
    match ← scan b (found addr) 0 (b.length + 1) with
    | none => none
    | some i =>
      -- the loop counts in an `int`
      let i ← intAdd i 0
      return if (b.getD i.toNat none).isNone then -1 else i

/-- `array_pnt_population`. -/
def arrayPntPopulation (array : Option (Cells α)) : Option Int :=
  (arrayPntLastIndex array).bind fun lst => intAdd lst 1

end Pnt

/-! ## The loops -/

variable {b : Cells α} {stop : Option α → Bool} {i k n : Nat}

theorem scan_of_findIdx? (h : (b.drop i).findIdx? stop = some k) (hk : k < n) :
    scan b stop i n = some (some (i + k)) := by
  induction n generalizing i k with
  | zero => omega
  | succ n ih =>
    unfold scan
    cases hb : b.drop i with
    | nil =>
      rw [hb] at h
      cases h
    | cons c rest =>
      have hc : b[i]? = some c := by
        rw [← Nat.add_zero i, ← List.getElem?_drop, hb]
        rfl
      have hrest : b.drop (i + 1) = rest := by
        rw [← List.drop_drop, hb]
        rfl
      rw [hb, List.findIdx?_cons] at h
      rw [hc, Option.bind_some]
      by_cases hstop : stop c
      · rw [if_pos hstop] at h ⊢
        obtain rfl : 0 = k := Option.some.inj h
        rfl
      · rw [if_neg hstop, Option.map_eq_some_iff] at h
        obtain ⟨k, h, rfl⟩ := h
        rw [if_neg hstop, ih (hrest ▸ h) (by omega)]
        congr 2
        omega

theorem scan_exhausted (h : ∀ c ∈ b, stop c = false) (hn : i + n ≤ b.length) :
    scan b stop i n = some none := by
  induction n generalizing i with
  | zero => rfl
  | succ n ih =>
    unfold scan
    rw [List.getElem?_eq_getElem (show i < b.length by omega), Option.bind_some,
      if_neg (by simp [h _ (List.getElem_mem _)]), ih (by omega)]

theorem writeCell_of_lt {c : Option α} (h : i < b.length) : writeCell b i c = some (b.set i c) :=
  if_pos h

theorem moveDown_eq : ∀ {n : Nat} {b : Cells α} {i : Nat}, i + n < b.length →
    moveDown b i n = some (shiftDown b i n)
  | 0, _, _, _ => rfl
  | n + 1, b, i, h => by
      unfold moveDown shiftDown
      rw [List.getElem?_eq_getElem (show i + 1 < b.length by omega), Option.bind_some,
        writeCell_of_lt (by omega), Option.bind_some,
        moveDown_eq (by rw [List.length_set]; omega), List.getD_eq_getElem]

theorem length_shiftDown (b : Cells α) (i n : Nat) : (shiftDown b i n).length = b.length := by
  induction n generalizing b i with
  | zero => rfl
  | succ n ih => exact (ih _ _).trans (List.length_set ..)

theorem findIdx?_found_map [DecidableEq α] (l : List α) (addr : Option α) :
    (l.map some).findIdx? (found addr) = (l.map some).findIdx? fun c => decide (addr = c) := by
  induction l with
  | nil => rfl
  | cons x l ih =>
    simp only [List.map_cons, List.findIdx?_cons, ih]
    rfl

theorem findIdx?_found [DecidableEq α] (l : List α) (r : Cells α) (addr : Option α) :
    (l.map some ++ none :: r).findIdx? (found addr) =
      some (((l.map some).findIdx? fun c => decide (addr = c)).getD l.length) := by
  rw [List.findIdx?_append, findIdx?_found_map]
  cases (l.map some).findIdx? fun c => decide (addr = c) with
  | none => simp [List.findIdx?_cons, found]
  | some i => rfl

/-! ## Below the limit of `int` -/

/-- The pair of a list of cells. -/
def ntPair : NtArray α → NtPair α
  | [] => { array := none, length := 0 }
  | c :: b => { array := some (c :: b), length := b.length + 1 }

@[simp] theorem ntPair_length (array : NtArray α) : (ntPair array).length = array.length := by
  cases array <;> rfl

theorem ntPair_of_ne {array : NtArray α} (h : array ≠ []) :
    ntPair array = { array := some array, length := array.length } := by
  cases array with
  | nil => exact absurd rfl h
  | cons c b => rfl

theorem arrayNtPopElement_eq (array : NtArray α) (index : Nat) :
    arrayNtPopElement (ntPair array).array array.length index =
      some ((LogxControll.arrayNtPopElement array index).1,
        (ntPair (LogxControll.arrayNtPopElement array index).2).array) := by
  by_cases hne : array = []
  · subst hne
    rfl
  rw [ntPair_of_ne hne]
  unfold arrayNtPopElement LogxControll.arrayNtPopElement
  by_cases hle : array.length ≤ index
  · simp only [if_pos hle, ntPair_of_ne hne]
  · have hlt : index < array.length := by omega
    have hmove : moveDown array index (array.length - 1 - index) =
        some (shiftDown array index (array.length - 1 - index)) := moveDown_eq (by omega)
    have hset : (shiftDown array index (array.length - 1 - index)).set (array.length - 1) none =
        array.eraseIdx index ++ [none] := by
      apply List.ext_getElem?
      intro j
      rw [List.getElem?_set, getElem?_shiftDown _ _ _ _ (by omega), length_shiftDown]
      grind
    have hpop : array.eraseIdx index ++ [none] ≠ [] := by simp
    simp only [if_neg hle, ntPair_of_ne hpop, hmove, List.getElem?_eq_getElem hlt,
      Option.bind_eq_bind, Option.bind_some, writeCell, length_shiftDown,
      if_pos (show array.length - 1 < array.length by omega), hset]
    rw [List.getD_eq_getElem _ _ hlt]
    rfl

theorem arrayNtAppendElement_eq {array : NtArray α} {element : Option α} (junk : Option α)
    (hint : array.length < 2 ^ 31)
    (hroom : element = none ∨ none ∈ array ∨ array.length + 1 < 2 ^ 31) :
    arrayNtAppendElement junk (ntPair array) element =
      some ((LogxControll.arrayNtAppendElement array element).1,
        ntPair (LogxControll.arrayNtAppendElement array element).2) := by
  cases element with
  | none => rfl
  | some e =>
    by_cases hne : array = []
    · subst hne
      rfl
    rw [ntPair_of_ne hne]
    unfold arrayNtAppendElement LogxControll.arrayNtAppendElement
    simp only [intOfUint_of_lt hint, Int.toNat_natCast]
    cases hidx : array.findIdx? Option.isNone with
    | none =>
      have hfull : ∀ c ∈ array, Option.isNone c = false := List.findIdx?_eq_none_iff.mp hidx
      have hroom : array.length + 1 < 2 ^ 31 := by
        rcases hroom with h | h | h
        · cases h
        · cases hfull none h
        · exact h
      have happ : array ++ [some e] ≠ [] := by simp
      have hnat : ((array.length : Int) + 1).toNat = array.length + 1 := by omega
      have hset : (array ++ [junk]).set array.length (some e) = array ++ [some e] := by
        simp
      simp only [scan_exhausted hfull (show 0 + array.length ≤ array.length by omega),
        Option.bind_eq_bind, Option.bind_some, intAdd_of_lt (a := (array.length : Int)) (b := 1)
          (by omega) (by omega), if_neg (show ¬ (array.length : Int) + 1 < 0 by omega), hnat,
        reallocCells, Option.getD_some, ntPair_of_ne happ]
      rw [List.take_of_length_le (by omega), show array.length + 1 - array.length = 1 by omega,
        List.replicate_one, writeCell_of_lt (by simp), hset]
      simp
    | some ep =>
      obtain ⟨hep, -, -⟩ := List.findIdx?_eq_some_iff_getElem.mp hidx
      have hscan : scan array Option.isNone 0 array.length = some (some ep) := by
        rw [scan_of_findIdx? (i := 0) hidx hep, Nat.zero_add]
      simp only [hscan, Option.bind_eq_bind, Option.bind_some, writeCell_of_lt hep]
      by_cases hlast : ep + 1 < array.length
      · have hnil : (array.set ep (some e)).set (ep + 1) none ≠ [] := by
          simpa using hne
        rw [if_pos hlast, if_pos (by omega), writeCell_of_lt (by simpa using hlast),
          ntPair_of_ne hnil]
        simp
      · have hnil : array.set ep (some e) ≠ [] := by simpa using hne
        rw [if_neg hlast, if_neg (by omega), ntPair_of_ne hnil]
        simp

/-- A full block of `2^31 - 1` cells cannot grow. -/
theorem arrayNtAppendElement_full {array : NtArray α} (junk : Option α) (e : α)
    (hfull : none ∉ array) (hlen : array.length + 1 = 2 ^ 31) :
    arrayNtAppendElement junk (ntPair array) (some e) = none := by
  have hne : array ≠ [] := by
    rintro rfl
    simp at hlen
  have hcells : ∀ c ∈ array, Option.isNone c = false := by
    intro c hc
    cases c with
    | none => exact absurd hc hfull
    | some x => rfl
  rw [ntPair_of_ne hne]
  unfold arrayNtAppendElement
  simp only [intOfUint_of_lt (show array.length < 2 ^ 31 by omega), Int.toNat_natCast,
    scan_exhausted hcells (show 0 + array.length ≤ array.length by omega), Option.bind_eq_bind,
    Option.bind_some, intAdd_of_le (a := (array.length : Int)) (b := 1) (by omega),
    Option.bind_none]

theorem arrayPntLastIndex_packed {array : PntArray α} {l : List α} (h : Packed array l)
    (hint : l.length ≤ 2 ^ 31) : arrayPntLastIndex array = some ((l.length : Int) - 1) := by
  rcases h with ⟨rfl, rfl⟩ | rfl
  · rfl
  unfold arrayPntLastIndex
  cases l with
  | nil => rfl
  | cons x l =>
    have hscan : scan (some x :: (l.map some ++ [none])) Option.isNone 1
        ((l.map some ++ [none]).length + 1) = some (some (1 + l.length)) :=
      scan_of_findIdx? (findIdx?_isNone_append l []) (by simp)
    have hsub : 1 + l.length - 1 = l.length := by omega
    simp only [List.length_cons] at hint
    simp only [List.map_cons, List.cons_append, List.length_cons, hscan, hsub,
      intOfUint_of_lt (show l.length < 2 ^ 31 by omega), List.getElem?_cons_zero,
      Option.bind_eq_bind, Option.bind_some]
    exact congrArg some (by omega)

theorem arrayPntPopElement_eq {array : PntArray α} {l : List α} (junk : Option α)
    (h : Packed array l) (hint : l.length + 1 < 2 ^ 31) (index : Nat) :
    arrayPntPopElement junk array index = LogxControll.arrayPntPopElement array index := by
  unfold arrayPntPopElement LogxControll.arrayPntPopElement
  rw [arrayPntLastIndex_packed h (by omega), arrayPntLastIndex_of_packed h, Option.bind_eq_bind,
    Option.bind_some, Option.bind_eq_bind, Option.bind_some]
  by_cases hlst : (l.length : Int) - 1 < intOfUint index
  · rw [if_pos hlst, if_pos hlst]
  rw [if_neg hlst, if_neg hlst]
  rcases h with ⟨rfl, rfl⟩ | rfl
  · rw [Option.bind_eq_bind, Option.bind_none, Option.bind_none]
  refine Option.bind_congr fun b hb => Option.bind_congr fun ret _ => ?_
  obtain rfl : l.map some ++ [none] = b := Option.some.inj hb
  by_cases hneg : intOfUint index < 0 ∧ intOfUint index < (l.length : Int) - 1
  · rw [if_pos hneg, if_pos hneg]
  rw [if_neg hneg, if_neg hneg]
  have hlen : (l.map some ++ [none]).length = l.length + 1 := by simp
  have hnat : ((l.length : Int) - 1 + 2).toNat = l.length + 1 := by omega
  rw [moveDown_eq (by rw [hlen]; omega), Option.bind_some,
    intAdd_of_lt (by omega) (by omega), Option.bind_some, hnat, reallocCells, Option.getD_some,
    length_shiftDown, hlen, Nat.sub_self, List.replicate_zero, List.append_nil]

theorem arrayPntAppendElement_eq {array : PntArray α} {l : List α} (junk : Option α)
    (h : Packed array l) (hint : l.length + 2 < 2 ^ 31) (element : Option α) :
    arrayPntAppendElement junk array element =
      LogxControll.arrayPntAppendElement array element := by
  cases element with
  | none => rfl
  | some e =>
    have hlst : (if (l.length : Int) - 1 < 0 then some 0 else intAdd ((l.length : Int) - 1) 1) =
        some (l.length : Int) := by
      rw [intAdd_of_lt (by omega) (by omega)]
      split
      · exact congrArg some (by omega)
      · exact congrArg some (by omega)
    have hnat : ((l.length : Int) + 2).toNat = l.length + 2 := by omega
    rw [arrayPntAppendElement_of_packed h]
    simp only [arrayPntAppendElement, arrayPntLastIndex_packed h (show l.length ≤ 2 ^ 31 by omega),
      Option.bind_eq_bind]
    rw [Option.bind_some, hlst, Option.bind_some, intAdd_of_lt (by omega) (by omega),
      Option.bind_some, hnat, Int.toNat_natCast]
    rcases h with ⟨rfl, rfl⟩ | rfl
    · rfl
    · have hcells : reallocCells junk (some (l.map some ++ [none])) (l.length + 2) =
          l.map some ++ [none, junk] := by
        rw [reallocCells, Option.getD_some, List.take_of_length_le (by simp)]
        simp
      rw [hcells, writeCell_of_lt (by simp), Option.bind_some, writeCell_of_lt (by simp)]
      simp [List.set_append_right]

/-- The size of the block does not fit in an `int`. -/
theorem arrayPntAppendElement_full {array : PntArray α} {l : List α} (junk : Option α)
    (h : Packed array l) (hlen : l.length + 2 = 2 ^ 31) (e : α) :
    arrayPntAppendElement junk array (some e) = none := by
  unfold arrayPntAppendElement
  simp only [arrayPntLastIndex_packed h (by omega), Option.bind_eq_bind, Option.bind_some,
    if_neg (show ¬ (l.length : Int) - 1 < 0 by omega),
    intAdd_of_lt (a := (l.length : Int) - 1) (b := 1) (by omega) (by omega),
    intAdd_of_le (a := (l.length : Int) - 1 + 1) (b := 2) (by omega), Option.bind_none]

end Block

end LogxControll
