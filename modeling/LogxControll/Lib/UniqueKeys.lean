/-
  Accepting elements one after another, each unless one with its key was accepted before.

  What is accepted has one element for every key that was offered (`mem_map_accepted`,
  `nodup_accepted`), the first one that had it, so looking a key up finds it
  (`find?_eq_some_iff`).

  `newOnes` and `clashes` divide what is offered to elements accepted before, for any notion of what
  is refused.
-/
import Mathlib.Data.Finset.Card
import Mathlib.Data.List.Nodup

namespace UniqueKeys

universe u v

variable {α : Type u} {κ : Type v} [DecidableEq κ] (key : α → κ)

/-- An element joins the list unless its key is there. -/
def accept (l : List α) (x : α) : List α := if key x ∈ l.map key then l else l ++ [x]

/-- What is left of all that was offered. -/
def accepted (xs : List α) : List α := xs.foldl (accept key) []

@[simp] theorem accepted_nil : accepted key [] = [] := rfl

theorem accepted_concat (xs : List α) (x : α) :
    accepted key (xs ++ [x]) = accept key (accepted key xs) x := by
  unfold accepted
  rw [List.foldl_append]
  rfl

variable {key}

theorem accept_of_mem {l : List α} {x : α} (h : key x ∈ l.map key) : accept key l x = l := if_pos h

theorem accept_of_notMem {l : List α} {x : α} (h : key x ∉ l.map key) :
    accept key l x = l ++ [x] := if_neg h

theorem nodup_accept {l : List α} (h : (l.map key).Nodup) (x : α) :
    ((accept key l x).map key).Nodup := by
  by_cases hx : key x ∈ l.map key
  · rw [accept_of_mem hx]
    exact h
  · rw [accept_of_notMem hx, List.map_append, List.map_singleton]
    exact List.nodup_append.mpr ⟨h, List.nodup_singleton _, by
      rintro k hk _ hx' rfl
      exact hx (List.mem_singleton.mp hx' ▸ hk)⟩

theorem mem_map_accept {l : List α} {x : α} {k : κ} :
    k ∈ (accept key l x).map key ↔ k ∈ l.map key ∨ k = key x := by
  by_cases hx : key x ∈ l.map key
  · rw [accept_of_mem hx]
    refine ⟨Or.inl, ?_⟩
    rintro (hk | rfl)
    · exact hk
    · exact hx
  · rw [accept_of_notMem hx]
    simp

/-- What was accepted stays. -/
theorem accepted_subset (xs ys : List α) : accepted key xs ⊆ accepted key (xs ++ ys) := by
  induction ys using List.reverseRecOn with
  | nil => simp
  | append_singleton ys y ih =>
    rw [← List.append_assoc, accepted_concat]
    refine fun x hx => ?_
    by_cases hy : key y ∈ (accepted key (xs ++ ys)).map key
    · rw [accept_of_mem hy]
      exact ih hx
    · rw [accept_of_notMem hy]
      exact List.mem_append_left _ (ih hx)

theorem nodup_accepted (xs : List α) : ((accepted key xs).map key).Nodup := by
  induction xs using List.reverseRecOn with
  | nil => exact List.nodup_nil
  | append_singleton xs x ih =>
    rw [accepted_concat]
    exact nodup_accept ih x

theorem mem_map_accepted (xs : List α) (k : κ) :
    k ∈ (accepted key xs).map key ↔ k ∈ xs.map key := by
  induction xs using List.reverseRecOn with
  | nil => rfl
  | append_singleton xs x ih =>
    rw [accepted_concat, mem_map_accept, ih]
    simp

/-- As many elements as different keys. -/
theorem length_accepted (xs : List α) :
    (accepted key xs).length = (xs.map key).toFinset.card := by
  rw [← List.length_map key, ← List.toFinset_card_of_nodup (nodup_accepted xs)]
  congr 1
  ext k
  rw [List.mem_toFinset, List.mem_toFinset, mem_map_accepted]

/-- Looking a key up finds the element that has it. -/
theorem find?_eq_some_iff {l : List α} (h : (l.map key).Nodup) {k : κ} {x : α} :
    l.find? (fun x => k = key x) = some x ↔ x ∈ l ∧ key x = k := by
  constructor
  · intro hfind
    have hk : k = key x := by simpa using List.find?_some hfind
    exact ⟨List.mem_of_find?_eq_some hfind, hk.symm⟩
  · rintro ⟨hx, rfl⟩
    cases hfind : l.find? fun y => key x = key y with
    | none => exact absurd (List.find?_eq_none.mp hfind x hx) (by simp)
    | some y =>
      have hy : key x = key y := by simpa using List.find?_some hfind
      rw [List.inj_on_of_nodup_map h hx (List.mem_of_find?_eq_some hfind) hy]

theorem find?_eq_none_iff {l : List α} {k : κ} :
    l.find? (fun x => k = key x) = none ↔ k ∉ l.map key := by
  rw [List.find?_eq_none]
  simp [eq_comm]

/-- The element accepted for a key is the first one that was offered. -/
theorem find?_accepted (xs : List α) (k : κ) :
    (accepted key xs).find? (fun x => k = key x) = xs.find? fun x => k = key x := by
  induction xs using List.reverseRecOn with
  | nil => rfl
  | append_singleton xs x ih =>
    rw [accepted_concat, List.find?_append, ← ih]
    by_cases hx : key x ∈ (accepted key xs).map key
    · rw [accept_of_mem hx]
      cases hfind : (accepted key xs).find? fun x => k = key x with
      | some y => rfl
      | none =>
        have hk : k ≠ key x := by
          rintro rfl
          exact find?_eq_none_iff.mp hfind hx
        rw [List.find?_cons_of_neg (by simpa using hk)]
        rfl
    · rw [accept_of_notMem hx, List.find?_append]

/-! ## Dividing what is offered -/

section Offered

variable (refused : List α → α → Prop) [∀ l x, Decidable (refused l x)]

/-- The elements of a list that are accepted one after another, after those of `l`. -/
def newOnes (l : List α) : List α → List α
  | [] => []
  | x :: xs => if refused l x then newOnes l xs else x :: newOnes (l ++ [x]) xs

/-- The elements of a list that are refused. -/
def clashes (l : List α) : List α → List α
  | [] => []
  | x :: xs => if refused l x then x :: clashes l xs else clashes (l ++ [x]) xs

variable {refused}

theorem newOnes_of_refused {l xs : List α} {x : α} (h : refused l x) :
    newOnes refused l (x :: xs) = newOnes refused l xs := if_pos h

theorem newOnes_of_new {l xs : List α} {x : α} (h : ¬ refused l x) :
    newOnes refused l (x :: xs) = x :: newOnes refused (l ++ [x]) xs := if_neg h

theorem clashes_of_refused {l xs : List α} {x : α} (h : refused l x) :
    clashes refused l (x :: xs) = x :: clashes refused l xs := if_pos h

theorem clashes_of_new {l xs : List α} {x : α} (h : ¬ refused l x) :
    clashes refused l (x :: xs) = clashes refused (l ++ [x]) xs := if_neg h

theorem newOnes_sublist (xs : List α) : ∀ {l : List α}, (newOnes refused l xs).Sublist xs := by
  induction xs with
  | nil => exact fun {l} => List.Sublist.refl _
  | cons x xs ih =>
    intro l
    by_cases hx : refused l x
    · rw [newOnes_of_refused hx]
      exact ih.cons x
    · rw [newOnes_of_new hx]
      exact ih.cons_cons x

/-- Nothing is refused when everything is new. -/
theorem clashes_eq_nil_iff (xs : List α) :
    ∀ {l : List α}, clashes refused l xs = [] ↔ newOnes refused l xs = xs := by
  induction xs with
  | nil => exact fun {l} => iff_of_true rfl rfl
  | cons x xs ih =>
    intro l
    by_cases hx : refused l x
    · rw [clashes_of_refused hx, newOnes_of_refused hx]
      refine iff_of_false (List.cons_ne_nil _ _) fun he => ?_
      have hlen := congrArg List.length he
      have hle : (newOnes refused l xs).length ≤ xs.length := (newOnes_sublist xs).length_le
      rw [List.length_cons] at hlen
      omega
    · rw [clashes_of_new hx, newOnes_of_new hx, ih, List.cons.injEq, and_iff_right rfl]

end Offered

end UniqueKeys
