/-
  `core/utils/utils.c`: the two null-terminated array families, and filling the slots of an array of
  fixed length.

  A block of pointers is the list of its cells, a cell `none` being NULL.
  * `array_nt_*` arrays are a (block, length) pair; the block is NULL exactly while the length
    is 0, so the list of cells is the whole pair.
  * `array_pnt_*` arrays have no length: the terminator is searched for. `none` is the NULL
    block. Reading or writing outside a block has no result.
-/
import Mathlib.Data.List.Basic
import Mathlib.Tactic

namespace LogxControll

variable {α : Type}

/-- The cells of an `array_nt_*` block. -/
abbrev NtArray (α : Type) := List (Option α)

/-- A pointer to an `array_pnt_*` block. -/
abbrev PntArray (α : Type) := Option (List (Option α))

/-- C conversion of an `unsigned int` to `int`. -/
def intOfUint (n : Nat) : Int := Int.bmod n (2 ^ 32)

theorem intOfUint_of_lt {n : Nat} (h : n < 2 ^ 31) : intOfUint n = n := by
  unfold intOfUint
  rw [Int.bmod_def]
  omega

theorem intOfUint_toNat_of_nonneg {n : Nat} (h : 0 ≤ intOfUint n) :
    (intOfUint n).toNat < 2 ^ 31 ∧ intOfUint n = ((intOfUint n).toNat : Int) := by
  have : intOfUint n < 2 ^ 31 := by
    unfold intOfUint
    rw [Int.bmod_def]
    omega
  omega

theorem toNat_intOfUint_le (n : Nat) : (intOfUint n).toNat ≤ n := by
  unfold intOfUint
  rw [Int.bmod_def]
  omega

/-! ## array_nt: null terminated, length tracked -/

/-- Remove the element at `index`, shift the later cells down and clear the last one. -/
def arrayNtPopElement (array : NtArray α) (index : Nat) : Option α × NtArray α :=
  if array.length ≤ index then (none, array)
  else (array.getD index none, array.eraseIdx index ++ [none])

/-- Put the element into the first NULL cell, growing the block by one cell when there is
    none; the cell after it, if any, becomes the terminator. -/
def arrayNtAppendElement (array : NtArray α) (element : Option α) :
    Int × NtArray α :=
  match element with
  | none => (-1, array)
  | some e =>
    match array.findIdx? Option.isNone with
    | none => (array.length, array ++ [some e])
    | some ep =>
      (ep, if ep + 1 < array.length then (array.set ep (some e)).set (ep + 1) none
        else array.set ep (some e))

/-- `array_nt_contains`: the index of a pointer, or -1. -/
def arrayNtContains [DecidableEq α] : NtArray α → α → Int
  | [], _ => -1
  | none :: _, _ => -1
  | some x :: rest, addr =>
    if addr = x then 0
    else
      let i := arrayNtContains rest addr
      if i < 0 then -1 else i + 1

/-- The array holds exactly `l`: the elements first, then only NULL cells. -/
def IsNt (array : NtArray α) (l : List α) : Prop :=
  ∃ k, array = l.map some ++ List.replicate k none

/-- The non-NULL cells of a block, in order. -/
def entries (array : NtArray α) : List α := array.filterMap id

theorem IsNt.entries_eq {array : NtArray α} {l : List α} (h : IsNt array l) :
    entries array = l := by
  obtain ⟨k, rfl⟩ := h
  simp [entries, List.filterMap_append, List.filterMap_map]

theorem IsNt.join_getElem? {array : NtArray α} {l : List α} (h : IsNt array l) (i : Nat) :
    (array[i]?).join = l[i]? := by
  obtain ⟨k, rfl⟩ := h
  by_cases hi : i < l.length
  · rw [List.getElem?_append_left (by simpa using hi), List.getElem?_map]
    simp [List.getElem?_eq_getElem hi]
  · rw [List.getElem?_append_right (by simpa using hi), List.getElem?_replicate,
      List.getElem?_eq_none (by omega)]
    split <;> rfl

theorem isNt_nil : IsNt ([] : NtArray α) [] := ⟨0, rfl⟩

theorem findIdx?_isNone_map_some (l : List α) : (l.map some).findIdx? Option.isNone = none := by
  simp [List.findIdx?_eq_none_iff]

theorem findIdx?_isNone_append (l : List α) (r : List (Option α)) :
    (l.map some ++ none :: r).findIdx? Option.isNone = some l.length := by
  rw [List.findIdx?_append, findIdx?_isNone_map_some]
  simp [List.findIdx?_cons]

theorem arrayNtAppendElement_of_isNt {array : NtArray α} {l : List α} (h : IsNt array l)
    (e : α) : ∃ array', arrayNtAppendElement array (some e) = ((l.length : Int), array') ∧
      IsNt array' (l ++ [e]) := by
  obtain ⟨k, rfl⟩ := h
  cases k with
  | zero =>
    simp only [arrayNtAppendElement, List.replicate_zero, List.append_nil,
      findIdx?_isNone_map_some, List.length_map]
    exact ⟨_, rfl, 0, by simp⟩
  | succ k =>
    simp only [arrayNtAppendElement, List.replicate_succ, findIdx?_isNone_append]
    refine ⟨_, rfl, k, ?_⟩
    cases k with
    | zero => simp
    | succ k => simp [List.replicate_succ]

theorem arrayNtPopElement_of_isNt {array : NtArray α} {l : List α} (h : IsNt array l)
    {i : Nat} (hi : i < l.length) :
    ∃ array', arrayNtPopElement array i = (some l[i], array') ∧ IsNt array' (l.eraseIdx i) := by
  obtain ⟨k, rfl⟩ := h
  have hlen : ¬ (l.map some ++ List.replicate k (none : Option α)).length ≤ i := by
    simp only [List.length_append, List.length_map]; omega
  have hget : (l.map some ++ List.replicate k (none : Option α)).getD i none = some l[i] := by
    simp [List.getD_eq_getElem?_getD, List.getElem?_append_left, hi]
  have hi' : i < (l.map (some : α → Option α)).length := by simpa using hi
  refine ⟨_, by rw [arrayNtPopElement, if_neg hlen, hget], k + 1, ?_⟩
  rw [List.eraseIdx_append_of_lt_length hi', List.append_assoc, ← List.replicate_succ',
    List.eraseIdx_map]

/-! ## array_pnt: packed, null terminated -/

/-- Walk a null-terminated block for the first element satisfying `p`: `some none` when the
    terminator comes first, no result when the walk leaves the block. -/
def scanUntilNull (p : α → Bool) : List (Option α) → Option (Option Nat)
  | [] => none
  | none :: _ => some none
  | some x :: rest =>
    if p x then some (some 0) else (scanUntilNull p rest).map (Option.map (· + 1))

/-- `array_pnt_init`. An array that exists stays. -/
def arrayPntInit (array : PntArray α) : PntArray α :=
  match array with
  | some b => some b
  | none => some [none]

/-- Index of the last element, -1 for a NULL or an empty array. -/
def arrayPntLastIndex : PntArray α → Option Int
  | none => some (-1)
  | some b => (b.findIdx? Option.isNone).map fun k => (k : Int) - 1

/-- `array_pnt_population` -/
def arrayPntPopulation (array : PntArray α) : Option Int :=
  (arrayPntLastIndex array).map (· + 1)

/-- The shifting loop of `array_pnt_pop_element`: cells `i, …, i + n - 1` each take the value
    of their right neighbour. -/
def shiftDown (b : List (Option α)) : Nat → Nat → List (Option α)
  | _, 0 => b
  | i, n + 1 => shiftDown (b.set i (b.getD (i + 1) none)) (i + 1) n

/-- The index is compared, and the loop counted, as `int`; the element is read as `uint`. -/
def arrayPntPopElement (array : PntArray α) (index : Nat) :
    Option (Option α × PntArray α) := do
  let lst ← arrayPntLastIndex array
  let i := intOfUint index
  if lst < i then
    return (none, array)
  else
    let b ← array
    let ret ← b[index]?
    if i < 0 ∧ i < lst then
      none
    else
      return (ret, some ((shiftDown b i.toNat (lst - i).toNat).take (lst + 2).toNat))

/-- `array_pnt_append_element`: the new last element, and the NULL behind it. -/
def arrayPntAppendElement (array : PntArray α) (element : Option α) :
    Option (Int × PntArray α) :=
  match element with
  | none => some (-1, array)
  | some e => do
    let lst ← arrayPntLastIndex array
    let lst : Nat := if lst < 0 then 0 else (lst + 1).toNat
    return ((lst : Int), some ((array.getD []).take lst ++ [some e, none]))

/-- The array holds exactly `l`: NULL and no element, or the elements and the terminator. -/
def Packed (array : PntArray α) (l : List α) : Prop :=
  array = none ∧ l = [] ∨ array = some (l.map some ++ [none])

theorem packed_block (l : List α) : Packed (some (l.map some ++ [none])) l := .inr rfl

/-- The array determines what it holds. -/
theorem Packed.unique {array : PntArray α} {l l' : List α} (h : Packed array l)
    (h' : Packed array l') : l = l' := by
  rcases h with ⟨rfl, rfl⟩ | rfl <;> rcases h' with ⟨h₂, rfl⟩ | h₂
  · rfl
  · cases h₂
  · cases h₂
  · have := congrArg entries (Option.some.inj h₂)
    simpa [entries, List.filterMap_append, List.filterMap_map] using this

theorem scanUntilNull_packed (p : α → Bool) (l : List α) :
    scanUntilNull p (l.map some ++ [none]) = some (l.findIdx? p) := by
  induction l with
  | nil => rfl
  | cons x l ih =>
    simp only [List.map_cons, List.cons_append, scanUntilNull, List.findIdx?_cons]
    by_cases hp : p x
    · simp [hp]
    · simp [hp, ih]

theorem arrayPntLastIndex_of_packed {array : PntArray α} {l : List α}
    (h : Packed array l) : arrayPntLastIndex array = some ((l.length : Int) - 1) := by
  rcases h with ⟨rfl, rfl⟩ | rfl
  · rfl
  · simp only [arrayPntLastIndex]
    rw [findIdx?_isNone_append]
    rfl

theorem arrayPntPopulation_of_packed {array : PntArray α} {l : List α}
    (h : Packed array l) : arrayPntPopulation array = some (l.length : Int) := by
  simp [arrayPntPopulation, arrayPntLastIndex_of_packed h]

theorem arrayPntAppendElement_of_packed {array : PntArray α} {l : List α}
    (h : Packed array l) (e : α) :
    arrayPntAppendElement array (some e) =
      some ((l.length : Int), some ((l ++ [e]).map some ++ [none])) := by
  simp only [arrayPntAppendElement, arrayPntLastIndex_of_packed h]
  rcases h with ⟨rfl, rfl⟩ | rfl
  · simp
  · have hlst : (if (l.length : Int) - 1 < 0 then 0 else ((l.length : Int) - 1 + 1).toNat) =
        l.length := by
      split <;> omega
    simp only [Option.bind_eq_bind, Option.bind_some, hlst, Option.getD_some]
    simp

/-! ### Popping an element -/

/-- The loop moves the cells after `i` down by one. -/
theorem getElem?_shiftDown (n : Nat) : ∀ (b : List (Option α)) (i j : Nat), i + n < b.length →
    (shiftDown b i n)[j]? = if i ≤ j ∧ j < i + n then b[j + 1]? else b[j]? := by
  induction n with
  | zero =>
    intro b i j _
    rw [if_neg (by omega)]
    rfl
  | succ n ih =>
    intro b i j hlt
    rw [shiftDown, ih _ (i + 1) j (by rw [List.length_set]; omega)]
    have hnext : b.getD (i + 1) none = b[i + 1] := by
      simp [List.getD_eq_getElem?_getD, List.getElem?_eq_getElem (show i + 1 < b.length by omega)]
    by_cases hij : i = j
    · subst hij
      rw [if_neg (by omega), if_pos (by omega), List.getElem?_set_self (by omega), hnext,
        List.getElem?_eq_getElem (by omega)]
    · by_cases hj : i + 1 ≤ j ∧ j < i + 1 + n
      · rw [if_pos hj, if_pos (by omega), List.getElem?_set_ne (by omega)]
      · rw [if_neg hj, if_neg (by omega), List.getElem?_set_ne hij]

/-- `z` is the first NULL: popping at `z` or behind it changes nothing, popping before it moves
    the words up to the NULL down. -/
theorem arrayPntPopElement_words {index : Nat} (hi : index < 2 ^ 31) (ws : List (Option α)) :
    (arrayPntPopElement (some ws) index).map Prod.snd =
      match ws.findIdx? Option.isNone with
      | none => none
      | some z => some (some (if z ≤ index then ws
          else (shiftDown ws index (z - 1 - index)).take (z + 1))) := by
  unfold arrayPntPopElement
  simp only [arrayPntLastIndex, intOfUint_of_lt hi]
  cases hz : ws.findIdx? Option.isNone with
  | none => rfl
  | some z =>
    obtain ⟨hlt, -, -⟩ := List.findIdx?_eq_some_iff_getElem.mp hz
    show Option.map Prod.snd (if (z : Int) - 1 < index then some (none, some ws) else _) = _
    by_cases hle : z ≤ index
    · simp only [if_pos hle, if_pos (show (z : Int) - 1 < index by omega), Option.map_some]
    · have hindex : ws[index]? = some ws[index] := List.getElem?_eq_getElem (by omega)
      have hcount : ((z : Int) - 1 - index).toNat = z - 1 - index := by omega
      have htake : ((z : Int) - 1 + 2).toNat = z + 1 := by omega
      simp only [if_neg hle, if_neg (show ¬ (z : Int) - 1 < index by omega), hindex, hcount, htake,
        if_neg (show ¬ ((index : Int) < 0 ∧ (index : Int) < z - 1) by omega),
        Option.bind_eq_bind, Option.bind_some, Int.toNat_natCast]
      rfl

/-- The words after popping before the first NULL. -/
theorem getElem?_popped {ws : List (Option α)} {index z j : Nat} (hlt : z < ws.length)
    (hindex : index < z) (hj : j ≤ z) :
    ((shiftDown ws index (z - 1 - index)).take (z + 1))[j]? =
      if index ≤ j ∧ j + 1 < z then ws[j + 1]? else ws[j]? := by
  rw [List.getElem?_take, if_pos (by omega), getElem?_shiftDown _ _ _ _ (by omega)]
  by_cases hcond : index ≤ j ∧ j + 1 < z
  · rw [if_pos hcond, if_pos (by omega)]
  · rw [if_neg hcond, if_neg (by omega)]

/-- Popping the element at `i` returns it and moves the later ones down; the last one stays in
    its old cell as well, so there are as many elements as before. -/
theorem arrayPntPopElement_packed {l : List α} {i : Nat} (hi : i < l.length) (hint : i < 2 ^ 31) :
    arrayPntPopElement (some (l.map some ++ [none])) i =
      some (some l[i], some ((l.eraseIdx i ++ [l[l.length - 1]]).map some ++ [none])) := by
  have hget : (l.map some ++ [none] : List (Option α))[i]? = some (some l[i]) := by
    simp [List.getElem?_append_left, hi]
  have hcount : ((l.length : Int) - 1 - i).toNat = l.length - 1 - i := by omega
  have htake : ((l.length : Int) - 1 + 2).toNat = l.length + 1 := by omega
  have hblock : (shiftDown (l.map some ++ [none]) i (l.length - 1 - i)).take (l.length + 1) =
      (l.eraseIdx i ++ [l[l.length - 1]]).map some ++ [none] := by
    apply List.ext_getElem?
    intro j
    by_cases hj : j ≤ l.length
    · rw [getElem?_popped (by simp) hi hj]
      grind
    · rw [List.getElem?_eq_none (by rw [List.length_take]; omega),
        List.getElem?_eq_none (by simp [List.length_eraseIdx, hi]; omega)]
  rw [arrayPntPopElement, arrayPntLastIndex_of_packed (packed_block l), intOfUint_of_lt hint]
  simp only [if_neg (show ¬ (l.length : Int) - 1 < i by omega), hget, hcount, htake, hblock,
    if_neg (show ¬ ((i : Int) < 0 ∧ (i : Int) < l.length - 1) by omega),
    Option.bind_eq_bind, Option.bind_some, Int.toNat_natCast]
  rfl

/-! ## array_fix: fixed length -/

/-- At most `length` cells are read. -/
def arrayFixFirstFreeSlot : List (Option α) → Nat → Option (Option Nat)
  | _, 0 => some none
  | [], _ + 1 => none
  | none :: _, _ + 1 => some (some 0)
  | some _ :: rest, length + 1 =>
    (arrayFixFirstFreeSlot rest length).map (Option.map (· + 1))

/-- `array_fix_try_add_last_null`, which takes the first free cell. -/
def arrayFixTryAddLastNull (array : Option (List (Option α))) (length : Nat) (element : Option α) :
    Option (Bool × Option (List (Option α))) :=
  match array with
  | none => some (false, none)
  | some block => do
    match ← arrayFixFirstFreeSlot block length with
    | none => return (false, some block)
    | some index => return (true, some (block.set index element))

theorem arrayFixFirstFreeSlot_eq (block : List (Option α)) :
    ∀ {length : Nat}, length ≤ block.length →
      arrayFixFirstFreeSlot block length = some ((block.take length).findIdx? Option.isNone) := by
  induction block with
  | nil =>
    intro length hle
    obtain rfl : length = 0 := by simpa using hle
    rfl
  | cons cell block ih =>
    intro length hle
    cases length with
    | zero => rfl
    | succ length =>
      rw [List.take_succ_cons, List.findIdx?_cons]
      cases cell with
      | none => rfl
      | some x =>
        rw [arrayFixFirstFreeSlot, ih (Nat.le_of_succ_le_succ hle)]
        rfl

end LogxControll
