/-
  An unbounded row of slots, of which only the first `length` may be occupied: what is put takes the
  first free slot and stays there until its slot is cleared.

  `ofCells` is the row of a list of cells. Every operation on such a row is one on the list.
-/
import Mathlib.Data.List.Range
import Mathlib.Logic.Function.Basic
import Mathlib.Order.Bounds.Defs

universe u

/-- A slot outside of the length is free. -/
@[ext] structure SlotRow (α : Type u) where
  slot : Nat → Option α
  length : Nat
  outside : ∀ i, length ≤ i → slot i = none

namespace SlotRow

variable {α : Type u}

/-- No slot at all. -/
def empty : SlotRow α := ⟨fun _ => none, 0, fun _ _ => rfl⟩

/-- The first slot within the length that satisfies `p`. -/
def find (s : SlotRow α) (p : Option α → Bool) : Option Nat :=
  (List.range s.length).find? fun i => p (s.slot i)

/-- Where the next element goes, maybe behind the length. -/
def firstFree (s : SlotRow α) : Nat := (s.find Option.isNone).getD s.length

/-- The slots that are occupied. -/
def population (s : SlotRow α) : Nat := (List.range s.length).countP fun i => (s.slot i).isSome

/-- An element, or nothing, is put into the first free slot. -/
def put (s : SlotRow α) (e : Option α) : SlotRow α where
  slot := Function.update s.slot s.firstFree e
  length := max s.length (s.firstFree + 1)
  outside := fun i hi => by
    rw [Function.update_of_ne (by omega)]
    exact s.outside i (by omega)

/-- A slot becomes free; the length stays. -/
def clear (s : SlotRow α) (i : Nat) : SlotRow α where
  slot := Function.update s.slot i none
  length := s.length
  outside := fun j hj => by
    by_cases hji : j = i
    · rw [hji, Function.update_self]
    · rw [Function.update_of_ne hji]
      exact s.outside j hj

/-- The length is at least `n`. -/
def stretch (s : SlotRow α) (n : Nat) : SlotRow α where
  slot := s.slot
  length := max s.length n
  outside := fun i hi => s.outside i (by omega)

variable {s : SlotRow α} {p : Option α → Bool} {i : Nat}

theorem find_eq_some_iff :
    s.find p = some i ↔ i < s.length ∧ p (s.slot i) ∧ ∀ j < i, ¬ p (s.slot j) := by
  unfold find
  rw [List.find?_range_eq_some]
  simp only [List.mem_range, Bool.not_eq_eq_eq_not, Bool.not_true, Bool.not_eq_true]
  exact ⟨fun ⟨hp, hi, hfirst⟩ => ⟨hi, hp, hfirst⟩, fun ⟨hi, hp, hfirst⟩ => ⟨hp, hi, hfirst⟩⟩

/-- The row whose slots are the cells. -/
def ofCells (cells : List (Option α)) : SlotRow α where
  slot := fun i => cells[i]?.join
  length := cells.length
  outside := fun i hi => by rw [List.getElem?_eq_none hi]; rfl

variable (cells : List (Option α))

theorem find_ofCells (p : Option α → Bool) : (ofCells cells).find p = cells.findIdx? p := by
  refine Option.ext fun i => ?_
  rw [find_eq_some_iff, List.findIdx?_eq_some_iff_getElem]
  have hslot {j : Nat} (hj : j < cells.length) : (ofCells cells).slot j = cells[j] := by
    show cells[j]?.join = cells[j]
    rw [List.getElem?_eq_getElem hj]
    rfl
  constructor
  · rintro ⟨hi, hp, hfirst⟩
    exact ⟨hi, hslot hi ▸ hp, fun j hj => hslot (hj.trans hi) ▸ hfirst j hj⟩
  · rintro ⟨hi, hp, hfirst⟩
    exact ⟨hi, (hslot hi).symm ▸ hp, fun j hj => (hslot (hj.trans hi)).symm ▸ hfirst j hj⟩

theorem population_ofCells : (ofCells cells).population = cells.countP Option.isSome := by
  have hcells : (List.range cells.length).map (fun i => cells[i]?.join) = cells := by
    refine List.ext_getElem (by simp) fun i _ hi => ?_
    simp [List.getElem?_eq_getElem hi]
  conv_rhs => rw [← hcells, List.countP_map]
  rfl

/-- Writing to a cell; outside of the list nothing can be cleared. -/
theorem update_ofCells {i : Nat} {e : Option α} (h : i < cells.length ∨ e = none) :
    Function.update (ofCells cells).slot i e = (ofCells (cells.set i e)).slot := by
  funext j
  show Function.update (ofCells cells).slot i e j = (cells.set i e)[j]?.join
  by_cases hj : j = i
  · subst hj
    rw [Function.update_self, List.getElem?_set_self']
    rcases h with h | rfl
    · rw [List.getElem?_eq_getElem h]
      rfl
    · cases cells[j]? <;> rfl
  · rw [Function.update_of_ne hj, List.getElem?_set_ne (Ne.symm hj)]
    rfl

/-- The first free slot is one of the cells. -/
theorem put_ofCells_of_lt (h : (ofCells cells).firstFree < cells.length) (e : Option α) :
    (ofCells cells).put e = ofCells (cells.set (ofCells cells).firstFree e) := by
  refine SlotRow.ext (update_ofCells cells (.inl h)) ?_
  show max cells.length _ = (cells.set _ e).length
  rw [List.length_set]
  exact max_eq_left h

/-- All cells are occupied. -/
theorem put_ofCells_full (h : (ofCells cells).firstFree = cells.length) (e : Option α) :
    (ofCells cells).put e = ofCells (cells ++ [e]) := by
  refine SlotRow.ext (funext fun i => ?_) ?_
  · show Function.update (ofCells cells).slot (ofCells cells).firstFree e i =
      (cells ++ [e])[i]?.join
    rw [h]
    rcases Nat.lt_trichotomy i cells.length with hi | rfl | hi
    · rw [Function.update_of_ne hi.ne, List.getElem?_append_left hi]
      rfl
    · simp
    · rw [Function.update_of_ne hi.ne', List.getElem?_eq_none (by rw [List.length_append]; exact hi)]
      exact (ofCells cells).outside i hi.le
  · show max cells.length _ = (cells ++ [e]).length
    rw [h, List.length_append]
    exact max_eq_right (Nat.le_succ _)

theorem clear_ofCells (i : Nat) : (ofCells cells).clear i = ofCells (cells.set i none) :=
  SlotRow.ext (update_ofCells cells (.inr rfl)) (List.length_set ..).symm

theorem stretch_ofCells (n : Nat) : (ofCells cells).stretch n =
    ofCells (cells ++ List.replicate (n - cells.length) none) := by
  ext1
  · funext i
    show cells[i]?.join = (cells ++ List.replicate (n - cells.length) none)[i]?.join
    by_cases hi : i < cells.length
    · rw [List.getElem?_append_left hi]
    · rw [List.getElem?_append_right (by omega), List.getElem?_eq_none (by omega),
        List.getElem?_replicate]
      split <;> rfl
  · simp only [stretch, ofCells, List.length_append, List.length_replicate]
    omega

end SlotRow
