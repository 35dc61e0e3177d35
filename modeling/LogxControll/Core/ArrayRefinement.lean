/-
  The two array families of `core/utils/utils.c` as lists, over whole sequences of calls.

  `listOp` is what a call answers and does to the list of elements. An `array_nt` pair follows it
  until a full block of `2^31 - 1` cells would have to grow (`ntFollows_iff`). An `array_pnt` array
  follows it exactly as long as nothing is removed: its removal moves the later elements down and
  leaves the last one where it was, so that the list keeps its length (`pntFollows_iff`).
-/
import LogxControll.Core.ArrayBlocks

namespace LogxControll

open Simulation

variable {α : Type}

/-- The calls on an array. -/
inductive ArrayOp (α : Type)
  | append (element : Option α)
  | pop (index : UInt32)
  | contains (addr : Option α)
  | population
  deriving DecidableEq

/-- What a call of the array functions returns. -/
inductive ArrayAnswer (α : Type)
  | int (n : Int)
  | element (e : Option α)
  deriving DecidableEq

/-- The place of an element in a list, -1 where it is not in it. -/
def firstIndex [DecidableEq α] (l : List α) (addr : Option α) : Int :=
  match (l.map some).findIdx? fun c => decide (addr = c) with
  | none => -1
  | some i => i

/-- What each call does to a list. -/
def listOp [DecidableEq α] (l : List α) : ArrayOp α → ArrayAnswer α × List α
  | .append none => (.int (-1), l)
  | .append (some e) => (.int l.length, l ++ [e])
  | .pop index =>
    if h : index.toNat < l.length then (.element l[index.toNat], l.eraseIdx index.toNat)
    else (.element none, l)
  | .contains addr => (.int (firstIndex l addr), l)
  | .population => (.int l.length, l)

/-! ## The lists of cells -/

theorem IsNt.length_le {array : NtArray α} {l : List α} (h : IsNt array l) :
    l.length ≤ array.length := by
  obtain ⟨k, rfl⟩ := h
  simp

theorem IsNt.length_eq {array : NtArray α} {l : List α} (h : IsNt array l)
    (hfull : none ∉ array) : array.length = l.length := by
  obtain ⟨k, rfl⟩ := h
  cases k with
  | zero => simp
  | succ k => exact absurd (by simp [List.replicate_succ]) hfull

theorem length_arrayNtAppendElement (array : NtArray α) (e : α) :
    none ∈ array ∧ (arrayNtAppendElement array (some e)).2.length = array.length ∨
      none ∉ array ∧ (arrayNtAppendElement array (some e)).2.length = array.length + 1 := by
  unfold arrayNtAppendElement
  cases hidx : array.findIdx? Option.isNone with
  | none =>
    have hnot : none ∉ array := fun hmem => by
      cases List.findIdx?_eq_none_iff.mp hidx none hmem
    refine .inr ⟨hnot, ?_⟩
    simp
  | some ep =>
    obtain ⟨hlt, hnull, -⟩ := List.findIdx?_eq_some_iff_getElem.mp hidx
    have hmem : none ∈ array := by
      rw [← Option.isNone_iff_eq_none.mp hnull]
      exact List.getElem_mem hlt
    refine .inl ⟨hmem, ?_⟩
    dsimp only
    split
    · rw [List.length_set, List.length_set]
    · rw [List.length_set]

theorem length_arrayNtPopElement (array : NtArray α) (index : Nat) :
    (arrayNtPopElement array index).2.length = array.length := by
  unfold arrayNtPopElement
  split
  · rfl
  · rw [List.length_append, List.length_eraseIdx, if_pos (by omega)]
    simp only [List.length_singleton]
    omega

/-- Behind the elements there is nothing to pop. -/
theorem arrayNtPopElement_of_le {array : NtArray α} {l : List α} (h : IsNt array l) {i : Nat}
    (hi : l.length ≤ i) : arrayNtPopElement array i = (none, array) := by
  unfold arrayNtPopElement
  by_cases hle : array.length ≤ i
  · rw [if_pos hle]
  · have hcell : array.getD i none = none := by
      have := h.join_getElem? i
      rw [List.getElem?_eq_none hi, List.getElem?_eq_getElem (by omega)] at this
      rw [List.getD_eq_getElem _ _ (by omega)]
      exact this
    obtain ⟨k, rfl⟩ := h
    obtain ⟨j, rfl⟩ := Nat.exists_eq_add_of_le hi
    have hlen : (l.map (some : α → Option α)).length ≤ l.length + j := by simp
    have hj : j < k := by simpa using hle
    rw [if_neg hle, hcell, List.eraseIdx_append_of_length_le hlen, List.length_map,
      Nat.add_sub_cancel_left, List.eraseIdx_replicate, if_pos hj, List.append_assoc,
      ← List.replicate_succ', Nat.sub_add_cancel (by omega)]

namespace Block

/-! ## Reading the array -/

theorem arrayNtPopulation_of_isNt {array : NtArray α} {l : List α} (h : IsNt array l)
    (hint : array.length < 2 ^ 31) :
    arrayNtPopulation (ntPair array).array array.length = some (l.length : Int) := by
  obtain ⟨k, rfl⟩ := h
  by_cases hne : l.map some ++ List.replicate k none = []
  · obtain ⟨hl, -⟩ := List.append_eq_nil_iff.mp hne
    obtain rfl := List.map_eq_nil_iff.mp hl
    rw [hne]
    rfl
  rw [ntPair_of_ne hne]
  cases k with
  | zero =>
    have hscan : scan (l.map some) Option.isNone 0 (l.map some).length = some none :=
      scan_exhausted (List.findIdx?_eq_none_iff.mp (findIdx?_isNone_map_some l)) (by omega)
    rw [List.replicate_zero, List.append_nil] at hint ⊢
    simp only [arrayNtPopulation, hscan, Option.bind_eq_bind]
    rw [Option.bind_some]
    dsimp only
    rw [intOfUint_of_lt hint, List.length_map]
    rfl
  | succ k =>
    rw [List.replicate_succ] at hint ⊢
    have hlen : l.length < (l.map some ++ none :: List.replicate k none).length := by
      simp
    have hscan := scan_of_findIdx? (i := 0)
      (findIdx?_isNone_append l (List.replicate k none)) hlen
    rw [Nat.zero_add] at hscan
    simp only [arrayNtPopulation, hscan, Option.bind_eq_bind]
    rw [Option.bind_some]
    dsimp only
    rw [intOfUint_of_lt (by omega)]
    rfl

theorem arrayPntPopulation_packed {array : PntArray α} {l : List α} (h : Packed array l)
    (hint : l.length < 2 ^ 31) : arrayPntPopulation array = some (l.length : Int) := by
  rw [arrayPntPopulation, arrayPntLastIndex_packed h (by omega), Option.bind_some,
    intAdd_of_lt (by omega) (by omega)]
  exact congrArg some (by omega)

section Contains

variable [DecidableEq α]

/-- The cell where the search ends, when there is a NULL cell to end it. -/
theorem answer_of_found (l : List α) (r : Cells α) (addr : Option α) :
    let i := ((l.map some).findIdx? fun c => decide (addr = c)).getD l.length
    i ≤ l.length ∧ (if ((l.map some ++ none :: r).getD i none).isNone then -1 else (i : Int)) =
      firstIndex l addr := by
  unfold firstIndex
  cases hidx : (l.map some).findIdx? fun c => decide (addr = c) with
  | none => simp
  | some i =>
    obtain ⟨hi, -, -⟩ := List.findIdx?_eq_some_iff_getElem.mp hidx
    rw [List.length_map] at hi
    simp [List.getElem?_append_left, hi, Nat.le_of_lt hi]

theorem arrayPntContains_packed {array : PntArray α} {l : List α} (h : Packed array l)
    (hint : l.length < 2 ^ 31) (addr : Option α) :
    arrayPntContains array addr = some (firstIndex l addr) := by
  rcases h with ⟨rfl, rfl⟩ | rfl
  · rfl
  obtain ⟨hle, hanswer⟩ := answer_of_found l [] addr
  have hlen : l.length < (l.map some ++ [none]).length + 1 := by simp
  have hscan := scan_of_findIdx? (i := 0) (findIdx?_found l [] addr)
    (Nat.lt_of_le_of_lt hle hlen)
  rw [Nat.zero_add] at hscan
  generalize ((l.map some).findIdx? fun c => decide (addr = c)).getD l.length = i at *
  simp only [arrayPntContains, hscan, Option.bind_eq_bind]
  rw [Option.bind_some]
  dsimp only
  rw [intAdd_of_lt (by omega) (by omega), Option.bind_some, Int.add_zero, Int.toNat_natCast,
    hanswer]
  rfl

theorem arrayNtContains_of_isNt {array : NtArray α} {l : List α} (h : IsNt array l)
    (hint : array.length < 2 ^ 31) (addr : Option α) :
    arrayNtContains (ntPair array).array array.length addr = some (firstIndex l addr) := by
  obtain ⟨k, rfl⟩ := h
  by_cases hne : l.map some ++ List.replicate k none = []
  · obtain ⟨hl, -⟩ := List.append_eq_nil_iff.mp hne
    obtain rfl := List.map_eq_nil_iff.mp hl
    rw [hne]
    rfl
  rw [ntPair_of_ne hne]
  cases k with
  | succ k =>
    obtain ⟨hle, hanswer⟩ := answer_of_found l (List.replicate k none) addr
    have hlen : l.length < (l.map some ++ none :: List.replicate k none).length := by
      simp
    have hscan := scan_of_findIdx? (i := 0) (findIdx?_found l (List.replicate k none) addr)
      (Nat.lt_of_le_of_lt hle hlen)
    rw [Nat.zero_add] at hscan
    rw [List.replicate_succ] at hint ⊢
    generalize ((l.map some).findIdx? fun c => decide (addr = c)).getD l.length = i at *
    simp only [arrayNtContains, hscan, Option.bind_eq_bind]
    rw [Option.bind_some]
    dsimp only
    rw [intOfUint_of_lt (by omega), hanswer]
    rfl
  | zero =>
    rw [List.replicate_zero, List.append_nil] at hint ⊢
    cases hidx : (l.map some).findIdx? fun c => decide (addr = c) with
    | none =>
      have hscan : scan (l.map some) (found addr) 0 (l.map some).length = some none :=
        scan_exhausted (List.findIdx?_eq_none_iff.mp ((findIdx?_found_map l addr).trans hidx))
          (by omega)
      simp only [arrayNtContains, hscan, firstIndex, hidx]
      rfl
    | some i =>
      obtain ⟨hi, -, -⟩ := List.findIdx?_eq_some_iff_getElem.mp hidx
      have hscan := scan_of_findIdx? (i := 0) ((findIdx?_found_map l addr).trans hidx) hi
      rw [Nat.zero_add] at hscan
      have hcell : ((l.map some).getD i none).isNone = false := by
        rw [List.getD_eq_getElem _ _ hi]
        simp
      simp only [arrayNtContains, hscan, firstIndex, hidx, Option.bind_eq_bind]
      rw [Option.bind_some]
      dsimp only
      rw [intOfUint_of_lt (by omega), hcell]
      rfl

end Contains

/-! ## array_nt -/

/-- The cells are the list, which has no NULL, and then only NULL. -/
structure HoldsNt (p : NtPair α) (l : List α) : Prop where
  cells : IsNt (p.array.getD []) l
  length : (p.array.getD []).length = p.length
  population : l.length ≤ p.length

/-- The pair of a list of cells that still fits in an `int`. -/
def NtInv (p : NtPair α) (l : List α) : Prop :=
  ∃ array : NtArray α, p = ntPair array ∧ IsNt array l ∧ array.length < 2 ^ 31

theorem getD_ntPair (array : NtArray α) : (ntPair array).array.getD [] = array := by
  cases array <;> rfl

theorem NtInv.holds {p : NtPair α} {l : List α} (h : NtInv p l) : HoldsNt p l := by
  obtain ⟨array, rfl, hl, -⟩ := h
  constructor
  · rwa [getD_ntPair]
  · rw [getD_ntPair, ntPair_length]
  · rw [ntPair_length]
    exact hl.length_le

theorem ntInv_init : NtInv (arrayNtInit : NtPair α) [] :=
  ⟨[none, none], rfl, ⟨2, rfl⟩, by simp⟩

theorem ntInv_null : NtInv ({ array := none, length := 0 } : NtPair α) [] :=
  ⟨[], rfl, isNt_nil, by simp⟩

section Nt

variable [DecidableEq α] (junk : Option α)

/-- A call of an `array_nt_*` function. -/
def ntStep (p : NtPair α) : ArrayOp α → Option (ArrayAnswer α × NtPair α)
  | .append element => (arrayNtAppendElement junk p element).map fun r => (.int r.1, r.2)
  | .pop index => (arrayNtPopElement p.array p.length index.toNat).map fun r =>
      (.element r.1, { p with array := r.2 })
  | .contains addr => (arrayNtContains p.array p.length addr).map fun n => (.int n, p)
  | .population => (arrayNtPopulation p.array p.length).map fun n => (.int n, p)

/-- What leaves the list alone leaves the cells alone, and only an append to a block without NULL
    makes it longer, by one cell. -/
def NtGuarantee (p : NtPair α) (l : List α) (op : ArrayOp α) (p' : NtPair α) : Prop :=
  ((listOp l op).2 = l → p' = p) ∧
    (p'.length = p.length ∨
      p'.length = p.length + 1 ∧ none ∉ p.array.getD [] ∧ ∃ e, op = .append (some e))

/-- An element is not appended to `2^31 - 1` others. -/
def ntRoom (l : List α) : ArrayOp α → Prop
  | .append (some _) => l.length + 1 < 2 ^ 31
  | _ => True

instance ntRoom.decidable (l : List α) : ∀ op : ArrayOp α, Decidable (ntRoom l op)
  | .append (some _) => inferInstanceAs (Decidable (l.length + 1 < 2 ^ 31))
  | .append none => .isTrue trivial
  | .pop _ => .isTrue trivial
  | .contains _ => .isTrue trivial
  | .population => .isTrue trivial

theorem ntStep_append {p : NtPair α} {l : List α} (h : NtInv p l) (e : α)
    (hroom : l.length + 1 < 2 ^ 31) :
    ∃ p', ntStep junk p (.append (some e)) = some (.int l.length, p') ∧
      NtGuarantee p l (.append (some e)) p' ∧ NtInv p' (l ++ [e]) := by
  obtain ⟨array, rfl, hl, hint⟩ := h
  have hgrow : some e = none ∨ none ∈ array ∨ array.length + 1 < 2 ^ 31 := by
    by_cases hmem : none ∈ array
    · exact .inr (.inl hmem)
    · rw [hl.length_eq hmem]
      exact .inr (.inr hroom)
  obtain ⟨array', happ, hl'⟩ := arrayNtAppendElement_of_isNt hl e
  have hlen := length_arrayNtAppendElement array e
  rw [happ] at hlen
  have heq := arrayNtAppendElement_eq junk hint hgrow
  rw [happ] at heq
  refine ⟨ntPair array', ?_, ⟨fun hsame => ?_, ?_⟩, array', rfl, hl', ?_⟩
  · rw [ntStep, heq]
    rfl
  · have := congrArg List.length hsame
    simp [listOp] at this
  · rw [ntPair_length, ntPair_length, getD_ntPair]
    rcases hlen with ⟨-, hlen⟩ | ⟨hnot, hlen⟩
    · exact .inl hlen
    · exact .inr ⟨hlen, hnot, e, rfl⟩
  · rcases hlen with ⟨-, hlen⟩ | ⟨hnot, hlen⟩
    · exact hlen ▸ hint
    · have := hl.length_eq hnot
      simp only at hlen
      omega

theorem ntStep_pop {p : NtPair α} {l : List α} (h : NtInv p l) (index : UInt32) :
    ∃ p', ntStep junk p (.pop index) = some ((listOp l (.pop index)).1, p') ∧
      NtGuarantee p l (.pop index) p' ∧ NtInv p' (listOp l (.pop index)).2 := by
  obtain ⟨array, rfl, hl, hint⟩ := h
  have hpop := arrayNtPopElement_eq array index.toNat
  have hlen := length_arrayNtPopElement array index.toNat
  rw [ntStep, ntPair_length, hpop, Option.map_some]
  by_cases hi : index.toNat < l.length
  · obtain ⟨array', hres, hl'⟩ := arrayNtPopElement_of_isNt hl hi
    rw [hres] at hlen
    have hpair : { array := (ntPair array').array, length := array.length } = ntPair array' := by
      rw [← hlen, ← ntPair_length]
    simp only [listOp, dif_pos hi, hres, hpair]
    refine ⟨ntPair array', rfl, ⟨fun hsame => ?_, .inl ?_⟩, array', rfl, hl', hlen ▸ hint⟩
    · have := congrArg List.length hsame
      simp only [listOp, dif_pos hi, List.length_eraseIdx, if_pos hi] at this
      omega
    · rw [ntPair_length, ntPair_length, hlen]
  · have hpair : { array := (ntPair array).array, length := array.length } = ntPair array := by
      rw [← ntPair_length]
    simp only [listOp, dif_neg hi, hpair, arrayNtPopElement_of_le hl (Nat.le_of_not_lt hi)]
    exact ⟨ntPair array, rfl, ⟨fun _ => rfl, .inl rfl⟩, array, rfl, hl, hint⟩

theorem ntStep_spec (p : NtPair α) (l : List α) (op : ArrayOp α) (h : NtInv p l)
    (hroom : ntRoom l op) :
    ∃ p', ntStep junk p op = some ((listOp l op).1, p') ∧ NtGuarantee p l op p' ∧
      NtInv p' (listOp l op).2 := by
  cases op with
  | append element =>
    cases element with
    | some e => exact ntStep_append junk h e hroom
    | none => exact ⟨p, rfl, ⟨fun _ => rfl, .inl rfl⟩, h⟩
  | pop index => exact ntStep_pop junk h index
  | contains addr =>
    refine ⟨p, ?_, ⟨fun _ => rfl, .inl rfl⟩, h⟩
    obtain ⟨array, rfl, hl, hint⟩ := h
    rw [ntStep, ntPair_length, arrayNtContains_of_isNt hl hint]
    rfl
  | population =>
    refine ⟨p, ?_, ⟨fun _ => rfl, .inl rfl⟩, h⟩
    obtain ⟨array, rfl, hl, hint⟩ := h
    rw [ntStep, ntPair_length, arrayNtPopulation_of_isNt hl hint]
    rfl

/-- An answer needs room. -/
theorem ntRoom_of_step {p : NtPair α} {l : List α} {op : ArrayOp α} (h : NtInv p l)
    {r : ArrayAnswer α × NtPair α} (hstep : ntStep junk p op = some r) : ntRoom l op := by
  cases op with
  | append element =>
    cases element with
    | none => trivial
    | some e =>
      obtain ⟨array, rfl, hl, hint⟩ := h
      refine Nat.lt_of_not_le fun hle => ?_
      have hlen := hl.length_le
      have hnot : none ∉ array := by
        obtain ⟨k, rfl⟩ := hl
        obtain rfl : k = 0 := by
          simp only [List.length_append, List.length_map, List.length_replicate] at hint
          omega
        simp
      rw [ntStep, arrayNtAppendElement_full junk e hnot (by omega), Option.map_none] at hstep
      cases hstep
  | pop index => trivial
  | contains addr => trivial
  | population => trivial

theorem ntMeets_of_follows {p : NtPair α} {ops : List (ArrayOp α)} (hinv : NtInv p [])
    (h : Follows (ntStep junk) listOp HoldsNt NtGuarantee p [] ops) :
    Run.Meets (after listOp) ntRoom [] ops := by
  have hneed : ∀ p l op p', NtInv p l → ntStep junk p op = some ((listOp l op).1, p') →
      HoldsNt p' (listOp l op).2 → ntRoom l op :=
    fun p l op p' hp hstep _ => ntRoom_of_step junk hp hstep
  exact h.meets NtInv (ntStep_spec junk) hneed hinv

/-- Appending so many elements runs out of room. -/
theorem ntRoom_appends {e : α} : ∀ {n : Nat} {l : List α}, l.length < 2 ^ 31 →
    Run.Meets (after listOp) ntRoom l (List.replicate n (.append (some e))) →
      l.length + n < 2 ^ 31
  | 0, _, hl, _ => hl
  | n + 1, l, _, h => by
      have hroom : l.length + 1 < 2 ^ 31 := h.1
      have := ntRoom_appends (l := l ++ [e]) (by simpa using hroom) (h.2 _ rfl)
      simp only [List.length_append, List.length_singleton] at this
      omega

/-- An `array_nt` pair is the list exactly as long as no element is appended to `2^31 - 1`
    others. -/
theorem ntFollows_iff (p : NtPair α) (hp : p = { array := none, length := 0 } ∨ p = arrayNtInit)
    (ops : List (ArrayOp α)) :
    Follows (ntStep junk) listOp HoldsNt NtGuarantee p [] ops ↔
      Run.Meets (after listOp) ntRoom [] ops := by
  have hinv : NtInv p [] := by
    rcases hp with rfl | rfl
    · exact ntInv_null
    · exact ntInv_init
  exact ⟨ntMeets_of_follows junk hinv, .of_meets NtInv (fun _ _ => NtInv.holds) (ntStep_spec junk) hinv⟩

theorem ntFollows_three :
    Follows (ntStep (none : Option Nat)) listOp HoldsNt NtGuarantee arrayNtInit []
      [.append (some 7), .append (some 8), .append (some 9), .pop 0, .contains (some 9)] :=
  (ntFollows_iff none arrayNtInit (.inr rfl) _).mpr (by decide)

/-- The last of `2^31` elements has no place. -/
theorem nt_append_without_room :
    ¬ Follows (ntStep (none : Option Nat)) listOp HoldsNt NtGuarantee
      { array := none, length := 0 } [] (List.replicate (2 ^ 31) (.append (some 0))) := by
  intro h
  have := ntRoom_appends (by decide) (ntMeets_of_follows none ntInv_null h)
  simp at this

end Nt

/-! ## array_pnt -/

/-- A NULL-terminated block that holds a list, whose length and terminator an `int` still counts. -/
def PntInv (array : PntArray α) (l : List α) : Prop := Packed array l ∧ l.length + 1 < 2 ^ 31

theorem pntInv_null : PntInv (none : PntArray α) [] := ⟨.inl ⟨rfl, rfl⟩, by simp⟩

theorem pntInv_init : PntInv (arrayPntInit (none : PntArray α)) [] := ⟨.inr rfl, by simp⟩

section Pop

variable (junk : Option α)

/-- Behind the elements there is nothing to pop. -/
theorem arrayPntPopElement_of_le {array : PntArray α} {l : List α} (h : PntInv array l) {i : Nat}
    (hi : l.length ≤ i) (hint : i < 2 ^ 31) :
    arrayPntPopElement junk array i = some (none, array) := by
  rw [arrayPntPopElement_eq junk h.1 h.2, LogxControll.arrayPntPopElement,
    arrayPntLastIndex_of_packed h.1, Option.bind_eq_bind, Option.bind_some, intOfUint_of_lt hint,
    if_pos (by omega)]
  rfl

/-- Popping an element leaves the array as long as it was. -/
theorem arrayPntPopElement_of_lt {array : PntArray α} {l : List α} (h : PntInv array l) {i : Nat}
    (hi : i < l.length) {r : Option α × PntArray α}
    (hpop : arrayPntPopElement junk array i = some r) :
    ¬ Packed r.2 (l.eraseIdx i) := by
  obtain ⟨hpacked, hint⟩ := h
  rw [arrayPntPopElement_eq junk hpacked hint] at hpop
  rcases hpacked with ⟨-, rfl⟩ | rfl
  · cases hi
  rw [arrayPntPopElement_packed hi (by omega)] at hpop
  obtain rfl := Option.some.inj hpop
  intro hpacked
  have := congrArg List.length ((packed_block _).unique hpacked)
  simp at this

/-- An index that is no `int` is in front of the block. -/
theorem arrayPntPopElement_of_neg {array : PntArray α} {l : List α} (h : PntInv array l)
    {index : UInt32} (hindex : 2 ^ 31 ≤ index.toNat) :
    arrayPntPopElement junk array index.toNat = none := by
  obtain ⟨hpacked, hint⟩ := h
  have hlt : index.toNat < 2 ^ 32 := index.toNat_lt
  have hneg : intOfUint index.toNat < 0 := by
    unfold intOfUint
    rw [Int.bmod_def]
    omega
  rw [arrayPntPopElement_eq junk hpacked hint, LogxControll.arrayPntPopElement,
    arrayPntLastIndex_of_packed hpacked, Option.bind_eq_bind, Option.bind_some,
    if_neg (by omega)]
  rcases hpacked with ⟨rfl, rfl⟩ | rfl
  · rfl
  · rw [Option.bind_eq_bind, Option.bind_some, List.getElem?_eq_none (by simp; omega)]
    rfl

end Pop

section Pnt

variable [DecidableEq α] (junk : Option α)

/-- A call of an `array_pnt_*` function. -/
def pntStep (array : PntArray α) : ArrayOp α → Option (ArrayAnswer α × PntArray α)
  | .append element => (arrayPntAppendElement junk array element).map fun r => (.int r.1, r.2)
  | .pop index => (arrayPntPopElement junk array index.toNat).map fun r => (.element r.1, r.2)
  | .contains addr => (arrayPntContains array addr).map fun n => (.int n, array)
  | .population => (arrayPntPopulation array).map fun n => (.int n, array)

/-- What leaves the list alone leaves the array alone. -/
def PntGuarantee (array : PntArray α) (l : List α) (op : ArrayOp α) (array' : PntArray α) : Prop :=
  (listOp l op).2 = l → array' = array

/-- Nothing is removed, an index that is no `int` is not asked for, and an element is not appended
    where the size of the block is no `int`. -/
def pntKept (l : List α) : ArrayOp α → Prop
  | .append (some _) => l.length + 2 < 2 ^ 31
  | .pop index => l.length ≤ index.toNat ∧ index.toNat < 2 ^ 31
  | _ => True

instance pntKept.decidable (l : List α) : ∀ op : ArrayOp α, Decidable (pntKept l op)
  | .append (some _) => inferInstanceAs (Decidable (l.length + 2 < 2 ^ 31))
  | .append none => .isTrue trivial
  | .pop index => inferInstanceAs (Decidable (l.length ≤ index.toNat ∧ index.toNat < 2 ^ 31))
  | .contains _ => .isTrue trivial
  | .population => .isTrue trivial

theorem pntStep_spec (array : PntArray α) (l : List α) (op : ArrayOp α) (h : PntInv array l)
    (hkept : pntKept l op) :
    ∃ array', pntStep junk array op = some ((listOp l op).1, array') ∧
      PntGuarantee array l op array' ∧ PntInv array' (listOp l op).2 := by
  cases op with
  | append element =>
    cases element with
    | none => exact ⟨array, rfl, fun _ => rfl, h⟩
    | some e =>
      have hroom : l.length + 2 < 2 ^ 31 := hkept
      refine ⟨some ((l ++ [e]).map some ++ [none]), ?_, fun hsame => ?_, packed_block _, ?_⟩
      · rw [pntStep, arrayPntAppendElement_eq junk h.1 hroom, arrayPntAppendElement_of_packed h.1]
        rfl
      · have := congrArg List.length hsame
        simp [listOp] at this
      · show (l ++ [e]).length + 1 < 2 ^ 31
        rw [List.length_append, List.length_singleton]
        exact hroom
  | pop index =>
    have hlist : listOp l (.pop index) = (.element none, l) := dif_neg (Nat.not_lt.mpr hkept.1)
    refine ⟨array, ?_, fun _ => rfl, ?_⟩
    · rw [pntStep, arrayPntPopElement_of_le junk h hkept.1 hkept.2, hlist]
      rfl
    · rw [hlist]
      exact h
  | contains addr =>
    refine ⟨array, ?_, fun _ => rfl, h⟩
    rw [pntStep, arrayPntContains_packed h.1 (by have := h.2; omega)]
    rfl
  | population =>
    refine ⟨array, ?_, fun _ => rfl, h⟩
    rw [pntStep, arrayPntPopulation_packed h.1 (by have := h.2; omega)]
    rfl

theorem pntKept_of_step (array : PntArray α) (l : List α) (op : ArrayOp α) (array' : PntArray α)
    (h : PntInv array l) (hstep : pntStep junk array op = some ((listOp l op).1, array'))
    (hpacked : Packed array' (listOp l op).2) : pntKept l op := by
  cases op with
  | append element =>
    cases element with
    | none => trivial
    | some e =>
      refine Nat.lt_of_not_le fun hle => ?_
      have hint := h.2
      rw [pntStep, arrayPntAppendElement_full junk h.1 (by omega), Option.map_none] at hstep
      cases hstep
  | pop index =>
    rw [pntStep, Option.map_eq_some_iff] at hstep
    obtain ⟨r, hpop, hr⟩ := hstep
    obtain rfl : r.2 = array' := (Prod.mk.inj hr).2
    constructor
    · refine Nat.le_of_not_lt fun hlt => arrayPntPopElement_of_lt junk h hlt hpop ?_
      simpa only [listOp, dif_pos hlt] using hpacked
    · refine Nat.lt_of_not_le fun hle => ?_
      rw [arrayPntPopElement_of_neg junk h hle] at hpop
      cases hpop
  | contains addr => trivial
  | population => trivial

/-- An `array_pnt` array is the list exactly as long as nothing is removed from it. -/
theorem pntFollows_iff (array : PntArray α) (harray : array = none ∨ array = arrayPntInit none)
    (ops : List (ArrayOp α)) :
    Follows (pntStep junk) listOp Packed PntGuarantee array [] ops ↔
      Run.Meets (after listOp) pntKept [] ops := by
  have hinv : PntInv array [] := by
    rcases harray with rfl | rfl
    · exact pntInv_null
    · exact pntInv_init
  exact ⟨fun h => h.meets PntInv (pntStep_spec junk) (pntKept_of_step junk) hinv,
    .of_meets PntInv (fun _ _ => And.left) (pntStep_spec junk) hinv⟩

theorem pntFollows_two :
    Follows (pntStep (none : Option Nat)) listOp Packed PntGuarantee none []
      [.append (some 7), .append (some 8), .pop 2, .contains (some 8), .population] :=
  (pntFollows_iff none none (.inl rfl) _).mpr (by decide)

/-- Removing the only element leaves it where it was. -/
theorem pnt_pop_keeps_last :
    ¬ Follows (pntStep (none : Option Nat)) listOp Packed PntGuarantee none []
      [.append (some 7), .pop 0] := by
  intro h
  have := h.meets PntInv (pntStep_spec none) (pntKept_of_step none) pntInv_null
  revert this
  decide

end Pnt

end Block

end LogxControll
