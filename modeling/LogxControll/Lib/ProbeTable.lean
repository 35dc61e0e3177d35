/-
  Open addressing: tables in which a key may lie only in the slots of its path, which is searched
  from the front.

  A key is stored in the first slot of its path that is free or has it already (`slotFor`), and
  looked up in the first one that has it (`slotOf`). Storing a key changes the look-up of that key
  alone, whatever happened to the table before (`lookup_store`).

  Taking a key out leaves a gap. `Found` tables, where no key is stored twice, and `Compact` ones,
  where in addition no gap precedes a key on its path, are kept by storing and by taking out as far as
  `Found.store`, `Compact.store` and `Found.remove` say. Storing a key behind a gap stores it a second
  time: taking it out then brings the first value back (`lookup_store_remove`).
-/
import Mathlib.Data.List.Find
import Mathlib.Data.List.Nodup
import Mathlib.Data.List.Perm.Subperm
import Mathlib.Logic.Function.Basic

namespace ProbeTable

universe u v w

variable {ι : Type u} {κ : Type v} {α : Type w}

/-- What lies in the slots. -/
abbrev Slots (ι : Type u) (κ : Type v) (α : Type w) := ι → Option (κ × α)

/-- Nothing is stored at an index. -/
def Free (t : Slots ι κ α) (i : ι) : Prop := t i = none

/-- An index has the key. -/
def Has (t : Slots ι κ α) (k : κ) (i : ι) : Prop := ∃ a, t i = some (k, a)

instance (t : Slots ι κ α) (i : ι) : Decidable (Free t i) :=
  decidable_of_iff ((t i).isNone = true) Option.isNone_iff_eq_none

instance [DecidableEq κ] (t : Slots ι κ α) (k : κ) (i : ι) : Decidable (Has t k i) :=
  match h : t i with
  | none => .isFalse fun ⟨a, ha⟩ => by rw [h] at ha; cases ha
  | some (k', a) =>
    decidable_of_iff (k' = k)
      ⟨fun he => ⟨a, by rw [h, he]⟩, fun ⟨b, hb⟩ => by
        rw [h, Option.some.injEq, Prod.mk.injEq] at hb
        exact hb.1⟩

variable {t : Slots ι κ α} {i j : ι} {k k' : κ} {a b : α}

theorem Has.not_free (h : Has t k i) : ¬ Free t i := by
  obtain ⟨a, ha⟩ := h
  rw [Free, ha]
  exact Option.some_ne_none _

theorem Has.unique (h : Has t k i) (h' : Has t k' i) : k = k' := by
  obtain ⟨a, ha⟩ := h
  obtain ⟨b, hb⟩ := h'
  rw [ha, Option.some.injEq, Prod.mk.injEq] at hb
  exact hb.1

section Update

variable [DecidableEq ι]

/-- The table after a pair was stored. -/
def store (t : Slots ι κ α) (i : ι) (k : κ) (a : α) : Slots ι κ α :=
  Function.update t i (some (k, a))

/-- The table after an index was cleared. -/
def remove (t : Slots ι κ α) (i : ι) : Slots ι κ α := Function.update t i none

@[simp] theorem store_self : store t i k a i = some (k, a) := Function.update_self ..

theorem store_ne (h : j ≠ i) : store t i k a j = t j := Function.update_of_ne h ..

@[simp] theorem remove_self : remove t i i = none := Function.update_self ..

theorem remove_ne (h : j ≠ i) : remove t i j = t j := Function.update_of_ne h ..

theorem has_store_self : Has (store t i k a) k' i ↔ k' = k := by
  unfold Has
  rw [store_self]
  constructor
  · rintro ⟨b, hb⟩
    rw [Option.some.injEq, Prod.mk.injEq] at hb
    exact hb.1.symm
  · rintro rfl
    exact ⟨a, rfl⟩

theorem has_store_ne (h : j ≠ i) : Has (store t i k a) k' j ↔ Has t k' j := by
  unfold Has
  rw [store_ne h]

theorem free_store_ne (h : j ≠ i) : Free (store t i k a) j ↔ Free t j := by
  unfold Free
  rw [store_ne h]

theorem not_has_remove_self : ¬ Has (remove t i) k i := by
  rintro ⟨b, hb⟩
  rw [remove_self] at hb
  cases hb

theorem has_remove_ne (h : j ≠ i) : Has (remove t i) k j ↔ Has t k j := by
  unfold Has
  rw [remove_ne h]

end Update

/-! ## The first slot on a path -/

variable [DecidableEq κ] (path : κ → List ι)

/-- Where a key is to be stored: the first index of its path that is free or has it. -/
def slotFor (t : Slots ι κ α) (k : κ) : Option ι :=
  (path k).find? fun i => decide (Free t i ∨ Has t k i)

/-- Where a key is: the first index of its path that has it. -/
def slotOf (t : Slots ι κ α) (k : κ) : Option ι := (path k).find? fun i => decide (Has t k i)

/-- What is stored with a key. -/
def lookup (t : Slots ι κ α) (k : κ) : Option α :=
  (slotOf path t k).bind fun i => (t i).map Prod.snd

/-- Every key that is stored is found where it is stored. -/
def Found (t : Slots ι κ α) : Prop := ∀ i k, Has t k i → slotOf path t k = some i

/-- No gap precedes a key either. -/
def Compact (t : Slots ι κ α) : Prop := ∀ i k, Has t k i → slotFor path t k = some i

variable {path}

theorem slotOf_eq_some_iff : slotOf path t k = some i ↔
    Has t k i ∧ ∃ before after, path k = before ++ i :: after ∧ ∀ j ∈ before, ¬ Has t k j := by
  unfold slotOf
  rw [List.find?_eq_some_iff_append]
  simp

theorem slotFor_eq_some_iff : slotFor path t k = some i ↔ (Free t i ∨ Has t k i) ∧
    ∃ before after, path k = before ++ i :: after ∧ ∀ j ∈ before, ¬ Free t j ∧ ¬ Has t k j := by
  unfold slotFor
  rw [List.find?_eq_some_iff_append]
  simp

theorem slotOf_eq_none_iff : slotOf path t k = none ↔ ∀ i ∈ path k, ¬ Has t k i := by
  simp [slotOf]

theorem mem_of_slotOf (h : slotOf path t k = some i) : i ∈ path k := List.mem_of_find?_eq_some h

theorem mem_of_slotFor (h : slotFor path t k = some i) : i ∈ path k := List.mem_of_find?_eq_some h

theorem has_of_slotOf (h : slotOf path t k = some i) : Has t k i := (slotOf_eq_some_iff.mp h).1

/-- Where a key is stored when its slot has it already. -/
theorem slotOf_of_slotFor (h : slotFor path t k = some i) (hhas : Has t k i) :
    slotOf path t k = some i := by
  obtain ⟨-, before, after, hpath, hbefore⟩ := slotFor_eq_some_iff.mp h
  exact slotOf_eq_some_iff.mpr ⟨hhas, before, after, hpath, fun j hj => (hbefore j hj).2⟩

theorem Compact.found (h : Compact path t) : Found path t := fun i k hhas =>
  slotOf_of_slotFor (h i k hhas) hhas

theorem compact_empty : Compact path (fun _ => none : Slots ι κ α) := by
  rintro i k ⟨a, ha⟩
  cases ha

theorem lookup_eq_none_iff : lookup path t k = none ↔ ∀ i ∈ path k, ¬ Has t k i := by
  rw [← slotOf_eq_none_iff, lookup]
  cases h : slotOf path t k with
  | none => simp
  | some i =>
    obtain ⟨a, ha⟩ := has_of_slotOf h
    simp [ha]

theorem lookup_of_slotOf (h : slotOf path t k = some i) (ha : t i = some (k, a)) :
    lookup path t k = some a := by
  rw [lookup, h, Option.bind_some, ha, Option.map_some]

theorem Found.lookup_eq_some_iff (h : Found path t) :
    lookup path t k = some a ↔ ∃ i, t i = some (k, a) := by
  constructor
  · intro hl
    obtain ⟨i, hi, hl⟩ := Option.bind_eq_some_iff.mp hl
    obtain ⟨b, hb⟩ := has_of_slotOf hi
    rw [hb, Option.map_some, Option.some.injEq] at hl
    exact ⟨i, hl ▸ hb⟩
  · rintro ⟨i, hi⟩
    exact lookup_of_slotOf (h i k ⟨a, hi⟩) hi

theorem Found.slot_unique (h : Found path t) (hi : Has t k i) (hj : Has t k j) : i = j :=
  Option.some.inj ((h i k hi).symm.trans (h j k hj))

/-- The look-up of a key depends on the slots of its path alone, and there on where the key is. -/
theorem lookup_congr {t' : Slots ι κ α} (h : ∀ i ∈ path k, ∀ a, t' i = some (k, a) ↔ t i = some (k, a)) :
    lookup path t' k = lookup path t k := by
  have hslot : slotOf path t' k = slotOf path t k := by
    unfold slotOf
    refine List.find?_congr fun i hi => ?_
    exact decide_eq_decide.mpr (exists_congr (h i hi))
  unfold lookup
  rw [hslot]
  refine Option.bind_congr fun i hi => ?_
  obtain ⟨a, ha⟩ := has_of_slotOf hi
  rw [ha, (h i (mem_of_slotOf hi) a).mpr ha]

/-! ## Storing -/

section Storing

variable [DecidableEq ι]

theorem slotFor_store (h : slotFor path t k = some i) : slotFor path (store t i k a) k = some i := by
  obtain ⟨-, before, after, hpath, hbefore⟩ := slotFor_eq_some_iff.mp h
  refine slotFor_eq_some_iff.mpr ⟨.inr (has_store_self.mpr rfl), before, after, hpath, ?_⟩
  intro j hj
  by_cases he : j = i
  · subst he
    rcases (slotFor_eq_some_iff.mp h).1 with hf | hh
    · exact absurd hf (hbefore j hj).1
    · exact absurd hh (hbefore j hj).2
  · rw [free_store_ne he, has_store_ne he]
    exact hbefore j hj

/-- Storing a key changes the look-up of that key alone. -/
theorem lookup_store (h : slotFor path t k = some i) :
    lookup path (store t i k a) = Function.update (lookup path t) k (some a) := by
  funext k'
  by_cases he : k' = k
  · subst he
    rw [Function.update_self]
    exact lookup_of_slotOf (slotOf_of_slotFor (slotFor_store h) (has_store_self.mpr rfl)) store_self
  · rw [Function.update_of_ne he]
    refine lookup_congr fun j _ b => ?_
    by_cases hj : j = i
    · subst hj
      rw [store_self]
      refine iff_of_false (fun hb => he (Prod.mk.inj (Option.some.inj hb)).1.symm) fun hb => ?_
      rcases (slotFor_eq_some_iff.mp h).1 with hf | hh
      · rw [hf] at hb
        cases hb
      · exact he (Has.unique ⟨b, hb⟩ hh)
    · rw [store_ne hj]

theorem Compact.store (ht : Compact path t) (h : slotFor path t k = some i) :
    Compact path (store t i k a) := by
  intro j k' hhas
  by_cases hj : j = i
  · subst hj
    obtain rfl := has_store_self.mp hhas
    exact slotFor_store h
  · rw [has_store_ne hj] at hhas
    have hslot := ht j k' hhas
    obtain ⟨-, before, after, hpath, hbefore⟩ := slotFor_eq_some_iff.mp hslot
    refine slotFor_eq_some_iff.mpr
      ⟨.inr ((has_store_ne hj).mpr hhas), before, after, hpath, fun l hl => ?_⟩
    by_cases hli : l = i
    · subst hli
      -- the slot was in use, so by the stored key, which is another one than the key found at `j`
      refine ⟨(has_store_self.mpr rfl).not_free, fun hk => ?_⟩
      obtain rfl := has_store_self.mp hk
      exact hj (Option.some.inj (hslot.symm.trans h))
    · rw [free_store_ne hli, has_store_ne hli]
      exact hbefore l hl

/-- A key that is not there, or that is stored where it is. -/
theorem Found.store (ht : Found path t) (h : slotFor path t k = some i)
    (hk : ∀ j, Has t k j → j = i) : Found path (store t i k a) := by
  intro j k' hhas
  by_cases hj : j = i
  · subst hj
    obtain rfl := has_store_self.mp hhas
    exact slotOf_of_slotFor (slotFor_store h) hhas
  · rw [has_store_ne hj] at hhas
    obtain ⟨-, before, after, hpath, hbefore⟩ := slotOf_eq_some_iff.mp (ht j k' hhas)
    refine slotOf_eq_some_iff.mpr ⟨(has_store_ne hj).mpr hhas, before, after, hpath, fun l hl => ?_⟩
    by_cases hli : l = i
    · subst hli
      intro hk'
      obtain rfl := has_store_self.mp hk'
      exact hj (hk j hhas)
    · rw [has_store_ne hli]
      exact hbefore l hl

/-! ## Taking out -/

theorem Found.remove (ht : Found path t) : Found path (remove t i) := by
  intro j k hhas
  have hj : j ≠ i := by
    rintro rfl
    exact not_has_remove_self hhas
  rw [has_remove_ne hj] at hhas
  obtain ⟨-, before, after, hpath, hbefore⟩ := slotOf_eq_some_iff.mp (ht j k hhas)
  refine slotOf_eq_some_iff.mpr ⟨(has_remove_ne hj).mpr hhas, before, after, hpath, fun l hl => ?_⟩
  by_cases hli : l = i
  · subst hli
    exact not_has_remove_self
  · rw [has_remove_ne hli]
    exact hbefore l hl

theorem lookup_remove_of_ne (h : slotOf path t k = some i) (he : k' ≠ k) :
    lookup path (remove t i) k' = lookup path t k' := by
  refine lookup_congr fun j _ b => ?_
  by_cases hj : j = i
  · subst hj
    rw [remove_self]
    refine iff_of_false (fun hb => by cases hb) fun hb => he ?_
    exact Has.unique ⟨b, hb⟩ (has_of_slotOf h)
  · rw [remove_ne hj]

theorem Found.lookup_remove (ht : Found path t) (h : slotOf path t k = some i) :
    lookup path (ProbeTable.remove t i) = Function.update (lookup path t) k none := by
  funext k'
  by_cases he : k' = k
  · subst he
    rw [Function.update_self, lookup_eq_none_iff]
    intro j _ hhas
    have hj : j ≠ i := by
      rintro rfl
      exact not_has_remove_self hhas
    exact hj (ht.slot_unique ((has_remove_ne hj).mp hhas) (has_of_slotOf h))
  · rw [Function.update_of_ne he, lookup_remove_of_ne h he]

/-- A key that is stored in a gap before its slot and taken out again has its first value. -/
theorem lookup_store_remove (h : slotFor path t k = some i) (hfree : Free t i) :
    slotOf path (store t i k a) k = some i ∧ remove (store t i k a) i = t := by
  refine ⟨slotOf_of_slotFor (slotFor_store h) (has_store_self.mpr rfl), ?_⟩
  funext j
  by_cases hj : j = i
  · subst hj
    rw [remove_self, hfree]
  · rw [remove_ne hj, store_ne hj]

end Storing

/-! ## How many keys a path holds -/

/-- Keys with one path are not more than its slots. -/
theorem Found.length_le (ht : Found path t) {ks : List κ} (hnodup : ks.Nodup) {p : List ι}
    (hks : ∀ k ∈ ks, path k = p ∧ ∃ i, Has t k i) : ks.length ≤ p.length := by
  have hslot : ∀ k ∈ ks, ∃ i, slotOf path t k = some i ∧ i ∈ p := by
    intro k hk
    obtain ⟨hpath, i, hi⟩ := hks k hk
    exact ⟨i, ht i k hi, hpath ▸ mem_of_slotOf (ht i k hi)⟩
  have hinj : (ks.map (slotOf path t)).Nodup := by
    refine hnodup.map_on fun k hk k' hk' he => ?_
    obtain ⟨i, hi, -⟩ := hslot k hk
    exact (has_of_slotOf hi).unique (has_of_slotOf (he ▸ hi))
  have hsub : ks.map (slotOf path t) ⊆ p.map some := by
    intro o ho
    obtain ⟨k, hk, rfl⟩ := List.mem_map.mp ho
    obtain ⟨i, hi, hmem⟩ := hslot k hk
    rw [hi]
    exact List.mem_map_of_mem hmem
  have hle := (List.subperm_of_subset hinj hsub).length_le
  rwa [List.length_map, List.length_map] at hle

/-! ## Linear probing -/

/-- `n` slots one after another, from `start` on, in a table of `size` slots. -/
def linearPath (size : ℕ) : ℕ → ℕ → List ℕ
  | 0, _ => []
  | n + 1, start => start :: linearPath size n ((start + 1) % size)

@[simp] theorem length_linearPath (size n start : ℕ) : (linearPath size n start).length = n := by
  induction n generalizing start with
  | zero => rfl
  | succ n ih => rw [linearPath, List.length_cons, ih]

theorem lt_of_mem_linearPath {size n start s : ℕ} (hstart : start < size)
    (h : s ∈ linearPath size n start) : s < size := by
  induction n generalizing start with
  | zero => cases h
  | succ n ih =>
    rcases List.mem_cons.mp h with rfl | h
    · exact hstart
    · exact ih (Nat.mod_lt _ (Nat.zero_lt_of_lt hstart)) h

/-! ## Storing one key after another -/

/-- What is looked up after some keys were stored. -/
def stored (f : κ → Option α) (es : List (κ × α)) : κ → Option α :=
  es.foldl (fun f e => Function.update f e.1 (some e.2)) f

theorem stored_cons (f : κ → Option α) (e : κ × α) (es : List (κ × α)) :
    stored f (e :: es) = stored (Function.update f e.1 (some e.2)) es := rfl

theorem stored_eq_some_iff {es : List (κ × α)} (hnodup : (es.map Prod.fst).Nodup) :
    stored (fun _ => none) es k = some a ↔ (k, a) ∈ es := by
  suffices hgen : ∀ f : κ → Option α, (∀ k ∈ es.map Prod.fst, f k = none) →
      (stored f es k = some a ↔ f k = some a ∨ (k, a) ∈ es) by
    rw [hgen _ fun _ _ => rfl]
    simp
  intro f hf
  induction es generalizing f with
  | nil => simp [stored]
  | cons e es ih =>
    rw [List.map_cons, List.nodup_cons] at hnodup
    have hf' : ∀ k ∈ es.map Prod.fst, Function.update f e.1 (some e.2) k = none := by
      intro k hk
      have hne : k ≠ e.1 := by
        rintro rfl
        exact hnodup.1 hk
      rw [Function.update_of_ne hne]
      exact hf k (List.mem_cons_of_mem _ hk)
    rw [stored_cons, ih hnodup.2 _ hf', List.mem_cons]
    by_cases he : k = e.1
    · subst he
      have hnone : f e.1 = none := hf e.1 List.mem_cons_self
      simp [hnone, Prod.ext_iff, eq_comm]
    · rw [Function.update_of_ne he]
      simp [Prod.ext_iff, he]

end ProbeTable
