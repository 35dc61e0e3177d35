/-
  Consecutive stores to a memory: `storeAll arr start xs` is `arr` after the elements of `xs` were
  stored one after another from cell `start` on. What is stored in pieces is stored as a whole
  (`storeAll_append`), every element is in its cell (`storeAll_get`), and the other cells are as
  they were (`storeAll_of_lt`, `storeAll_of_le`).

  `Obeys` is the contract of a function that fills an array of the caller with a list of items.
-/
import Mathlib.Data.List.Basic

namespace Stores

universe u

variable {α : Type u}

/-- A memory, cell by cell from the address an array begins at. -/
abbrev Cells (α : Type u) := Nat → α

/-- A list is written from an address on. -/
def storeAll (arr : Cells α) (start : Nat) : List α → Cells α
  | [] => arr
  | x :: xs => storeAll (Function.update arr start x) (start + 1) xs

theorem storeAll_append (xs ys : List α) : ∀ (arr : Cells α) (start : Nat),
    storeAll arr start (xs ++ ys) = storeAll (storeAll arr start xs) (start + xs.length) ys := by
  induction xs with
  | nil => exact fun _ _ => rfl
  | cons x xs ih =>
    intro arr start
    rw [List.cons_append, storeAll, ih, storeAll, List.length_cons, Nat.add_right_comm start,
      Nat.add_assoc start]

theorem storeAll_of_lt (xs : List α) : ∀ (arr : Cells α) {start i : Nat}, i < start →
    storeAll arr start xs i = arr i := by
  induction xs with
  | nil => exact fun _ _ _ _ => rfl
  | cons x xs ih =>
    intro arr start i hi
    rw [storeAll, ih _ (Nat.lt_succ_of_lt hi), Function.update_of_ne (Nat.ne_of_lt hi)]

theorem storeAll_of_le (xs : List α) : ∀ (arr : Cells α) {start i : Nat}, start + xs.length ≤ i →
    storeAll arr start xs i = arr i := by
  induction xs with
  | nil => exact fun _ _ _ _ => rfl
  | cons x xs ih =>
    intro arr start i hi
    rw [List.length_cons] at hi
    rw [storeAll, ih _ (by omega), Function.update_of_ne (by omega)]

theorem storeAll_get (xs : List α) : ∀ (arr : Cells α) (start : Nat) {i : Nat} (hi : i < xs.length),
    storeAll arr start xs (start + i) = xs[i] := by
  induction xs with
  | nil => exact fun _ _ _ hi => absurd hi (Nat.not_lt_zero _)
  | cons x xs ih =>
    intro arr start i hi
    cases i with
    | zero =>
      rw [Nat.add_zero, storeAll, storeAll_of_lt _ _ (Nat.lt_succ_self start), Function.update_self]
      rfl
    | succ i =>
      rw [storeAll, ← Nat.add_assoc, Nat.add_right_comm start i 1]
      exact ih _ _ (Nat.lt_of_succ_lt_succ hi)

/-! ## Destination arrays -/

/-- `f` copies the items to an array with room for `m`: when there is too little room it returns
    the negated number of items and writes nothing; otherwise it returns the number and writes the
    items, with a terminator behind them if there is room; it never writes at `m` or behind. -/
def Obeys (m : Int) (items : List α)
    (f : Cells (Option α) → Option (Int × Cells (Option α))) : Prop :=
  ∀ arr, ∃ ret arr', f arr = some (ret, arr') ∧
    (m < items.length → ret = -items.length ∧ arr' = arr) ∧
    ((items.length : Int) ≤ m → ret = items.length ∧ ∀ i < items.length, arr' i = items[i]?) ∧
    (items.length < m → arr' items.length = none) ∧
    ∀ i : Nat, m ≤ i → arr' i = arr i

section Obeys

variable {m : Int} {items : List α} {f : Cells (Option α) → Option (Int × Cells (Option α))}

/-- Refusing what does not fit is right as long as it does not. -/
theorem obeys_of_refuse (hf : ∀ arr, f arr = some (-(items.length : Int), arr))
    (hm : m < items.length ∨ m = 0 ∧ items = []) : Obeys m items f := by
  intro arr
  refine ⟨_, _, hf arr, fun _ => ⟨rfl, rfl⟩, fun hle => ?_, fun hlt => ?_, fun _ _ => rfl⟩
  · rcases hm with hlt | ⟨-, rfl⟩
    · omega
    · exact ⟨rfl, fun i hi => absurd hi (Nat.not_lt_zero i)⟩
  · rcases hm with hlt' | ⟨rfl, rfl⟩
    · omega
    · exact absurd hlt (Int.lt_irrefl 0)

/-- Refusing what just fits is wrong. -/
theorem not_obeys_of_refuse (hf : ∀ arr, f arr = some (-(items.length : Int), arr))
    (hm : m = items.length) (hne : items ≠ []) (arr : Cells (Option α)) : ¬ Obeys m items f := by
  intro h
  obtain ⟨ret, arr', hres, -, hfits, -⟩ := h arr
  rw [hf, Option.some.injEq, Prod.mk.injEq] at hres
  have hret := (hfits (Int.le_of_eq hm.symm)).1
  have hpos := List.length_pos_of_ne_nil hne
  omega

/-- A copy without a terminator is right when just the items fit. -/
theorem obeys_of_copy
    (hf : ∀ arr, f arr = some ((items.length : Int), storeAll arr 0 (items.map some)))
    (hm : m = items.length) : Obeys m items f := by
  intro arr
  refine ⟨_, _, hf arr, fun hlt => ?_, fun _ => ⟨rfl, fun i hi => ?_⟩, fun hlt => ?_, fun i hi => ?_⟩
  · omega
  · have := storeAll_get (items.map some) arr 0 (by simpa using hi)
    rw [Nat.zero_add] at this
    rw [this, List.getElem_map, List.getElem?_eq_getElem hi]
  · omega
  · exact storeAll_of_le _ _ (by rw [List.length_map]; omega)

/-- Without a terminator the cell behind the items is as it was. -/
theorem not_obeys_of_copy
    (hf : ∀ arr, f arr = some ((items.length : Int), storeAll arr 0 (items.map some)))
    (hm : items.length < m) (x : α) : ¬ Obeys m items f := by
  intro h
  obtain ⟨ret, arr', hres, -, -, hend, -⟩ := h fun _ => some x
  rw [hf, Option.some.injEq, Prod.mk.injEq] at hres
  have hcell := hend hm
  rw [← hres.2, storeAll_of_le _ _ (by rw [List.length_map]; omega)] at hcell
  cases hcell

end Obeys

end Stores
