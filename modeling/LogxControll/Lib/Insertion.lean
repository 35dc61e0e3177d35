/-
  Insertion sort by rows of comparators.

  A row takes one value in at its left end. Each of its comparators has a value from above, lets
  the smaller of the two go down and passes the larger one on to the right; the last value goes
  down at the right end. On a sorted row this is ordered insertion
  (`insertRow_eq_orderedInsert`). `Triangle.row` is about the triangle of such rows, where a
  wire carries nothing until it is driven.
-/
import Mathlib.Data.List.Sort
import Mathlib.Tactic

namespace Insertion

variable {α κ : Type*} [LinearOrder κ] (key : α → κ)

/-- What a comparator lets go down, and what it passes to the right. -/
def comparator (up left : α) : α × α :=
  if key up < key left then (up, left) else (left, up)

/-- The row below `us`, when `c` goes in at its left end. -/
def insertRow : α → List α → List α
  | c, [] => [c]
  | c, u :: us => (comparator key u c).1 :: insertRow (comparator key u c).2 us

/-- The last of the rows that take in the values one after the other. -/
def sortRows (values : List α) : List α := values.foldl (fun row c => insertRow key c row) []

/-- The order of the keys. -/
abbrev KeyLE (a b : α) : Prop := key a ≤ key b

/-! ## A row inserts its value -/

@[simp] theorem insertRow_length (c : α) (us : List α) :
    (insertRow key c us).length = us.length + 1 := by
  induction us generalizing c with
  | nil => rfl
  | cons u us ih => simp [insertRow, ih]

variable {key}

theorem comparator_of_lt {u c : α} (h : key u < key c) : comparator key u c = (u, c) := if_pos h

theorem comparator_of_le {u c : α} (h : key c ≤ key u) : comparator key u c = (c, u) :=
  if_neg (not_lt.mpr h)

/-- A value that is in order already pushes every value one place on. -/
theorem insertRow_of_le {u : α} {us : List α} (h : (u :: us).Pairwise (KeyLE key)) :
    insertRow key u us = u :: us := by
  induction us generalizing u with
  | nil => rfl
  | cons u' us ih =>
    have hle : key u ≤ key u' := (List.pairwise_cons.mp h).1 u' List.mem_cons_self
    unfold insertRow
    rw [comparator_of_le hle, ih (List.pairwise_cons.mp h).2]

theorem insertRow_eq_orderedInsert {c : α} {us : List α} (h : us.Pairwise (KeyLE key)) :
    insertRow key c us = us.orderedInsert (KeyLE key) c := by
  induction us with
  | nil => rfl
  | cons u us ih =>
    unfold insertRow
    by_cases hlt : key u < key c
    · have hnot : ¬ KeyLE key c u := not_le.mpr hlt
      rw [comparator_of_lt hlt, ih (List.pairwise_cons.mp h).2,
        List.orderedInsert_of_not_le _ us hnot]
    · have hle : KeyLE key c u := not_lt.mp hlt
      rw [comparator_of_le hle, insertRow_of_le h, List.orderedInsert_cons_of_le _ us hle]

instance : Std.Total (KeyLE key) := ⟨fun a b => le_total (key a) (key b)⟩

instance : IsTrans α (KeyLE key) := ⟨fun _ _ _ => le_trans⟩

/-! ## The rows sort -/

theorem sortRows_concat (values : List α) (c : α) :
    sortRows key (values ++ [c]) = insertRow key c (sortRows key values) := by
  simp [sortRows]

/-- The rows are the insertion sort of the values in the opposite order. -/
theorem sortRows_eq_insertionSort (values : List α) :
    sortRows key values = values.reverse.insertionSort (KeyLE key) := by
  induction values using List.reverseRecOn with
  | nil => rfl
  | append_singleton values c ih =>
    rw [sortRows_concat, ih, List.reverse_append, List.reverse_singleton, List.singleton_append,
      List.insertionSort_cons]
    exact insertRow_eq_orderedInsert (List.pairwise_insertionSort _ _)

theorem sortRows_pairwise (values : List α) : (sortRows key values).Pairwise (KeyLE key) := by
  rw [sortRows_eq_insertionSort]
  exact List.pairwise_insertionSort _ _

theorem sortRows_perm (values : List α) : (sortRows key values).Perm values := by
  rw [sortRows_eq_insertionSort]
  exact (List.perm_insertionSort _ _).trans (List.reverse_perm values)

/-! ## The triangle -/

variable (key) in
/-- `n` rows: `down i j` goes down from place `j` of row `i`, and `left i j` comes in there from
    the left. -/
structure Triangle (n : Nat) (down left : Nat → Nat → Option α) : Prop where
  inner : ∀ i j u c, i + 1 < n → j ≤ i → down i j = some u → left (i + 1) j = some c →
    down (i + 1) j = some (comparator key u c).1 ∧
      left (i + 1) (j + 1) = some (comparator key u c).2
  diagonal : ∀ i c, i < n → left i i = some c → down i i = some c

namespace Triangle

variable {n : Nat} {down left : Nat → Nat → Option α}

/-- From place `j` of a row on, what goes down is the rest of the row above with the value that
    comes in from the left. -/
theorem insert (h : Triangle key n down left) {i : Nat} (hi : i + 1 < n) :
    ∀ (us : List α) (j : Nat) (c : α), j + us.length = i + 1 →
      (∀ t, t < us.length → down i (j + t) = us[t]?) → left (i + 1) j = some c →
      ∀ t, t ≤ us.length → down (i + 1) (j + t) = (insertRow key c us)[t]? := by
  intro us
  induction us with
  | nil =>
    intro j c hj _ hc t ht
    obtain rfl : j = i + 1 := hj
    obtain rfl : t = 0 := Nat.le_zero.mp ht
    exact h.diagonal (i + 1) c hi hc
  | cons u us ih =>
    intro j c hj hup hc t ht
    have hu : down i j = some u := hup 0 (Nat.succ_pos _)
    have hj' : j + us.length = i := by
      rw [List.length_cons] at hj
      omega
    obtain ⟨hdown, hright⟩ := h.inner i j u c hi (by omega) hu hc
    cases t with
    | zero => exact hdown
    | succ t =>
      have hrest := ih (j + 1) _ (by omega) (fun t ht => ?_) hright t (Nat.le_of_succ_le_succ ht)
      · rw [show j + (t + 1) = j + 1 + t by omega, hrest]
        rfl
      · rw [show j + 1 + t = j + (t + 1) by omega]
        exact hup (t + 1) (Nat.succ_lt_succ ht)

/-- Row `i` has the first `i + 1` values, in order. -/
theorem row (h : Triangle key n down left) {values : List α} (hlen : values.length = n)
    (hin : ∀ i, i < n → left i 0 = values[i]?) :
    ∀ i, i < n → ∀ j, j ≤ i → down i j = (sortRows key (values.take (i + 1)))[j]? := by
  intro i
  induction i with
  | zero =>
    intro hi j hj
    obtain rfl : j = 0 := Nat.le_zero.mp hj
    have h0 : values[0]? = some values[0] := List.getElem?_eq_getElem (by omega)
    rw [h.diagonal 0 values[0] hi (by rw [hin 0 hi, h0]), List.take_add_one, h0]
    rfl
  | succ i ih =>
    intro hi j hj
    have hv : values[i + 1]? = some values[i + 1] := List.getElem?_eq_getElem (by omega)
    have hrow : (sortRows key (values.take (i + 1))).length = i + 1 := by
      rw [(sortRows_perm _).length_eq, List.length_take]
      omega
    rw [List.take_add_one, hv, Option.toList_some, sortRows_concat]
    have hinsert := h.insert hi (sortRows key (values.take (i + 1))) 0 values[i + 1] (by omega)
      (fun t ht => ?_) (by rw [hin (i + 1) hi, hv]) j (by omega)
    · rwa [Nat.zero_add] at hinsert
    · rw [Nat.zero_add]
      exact ih (by omega) t (by omega)

/-- The last row has all values, in order. -/
theorem last (h : Triangle key n down left) {values : List α} (hlen : values.length = n)
    (hin : ∀ i, i < n → left i 0 = values[i]?) {j : Nat} (hj : j < n) :
    down (n - 1) j = (sortRows key values)[j]? := by
  have hrow := h.row hlen hin (n - 1) (by omega) j (by omega)
  rwa [show n - 1 + 1 = values.length by omega, List.take_length] at hrow

end Triangle

end Insertion
