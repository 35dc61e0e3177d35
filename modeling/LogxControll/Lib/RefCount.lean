/-
  Objects with reference counts kept in a machine integer.

  `Store.Counted s holders`: every counted object of the store is held by somebody and its count
  is the number of its holders, a freed one is held by nobody, and none is freed twice. Adding a
  holder with a count of one more, and taking one away with a count of one less, keeps this
  (`Counted.acquire`, `Counted.release`), as long as the count does not leave its integer range.
-/
import Mathlib.Data.List.Nodup
import Mathlib.Logic.Function.Basic
import Mathlib.Tactic

namespace RefCount

variable {V : Type*}

/-- A constant object has no count. -/
structure Object where
  count : Int
  constant : Bool
  deriving DecidableEq, Repr

/-- `freed` lists the calls of `free`, in order. -/
structure Store (V : Type*) where
  objects : V → Option Object
  freed : List V

section Store

variable [DecidableEq V]

/-- Add `n` to the count, which has `modulus` values around zero; the object is freed when the
    count is not positive any more. A freed object has no count to change. -/
def Store.adjust (modulus : Nat) (v : V) (n : Int) (s : Store V) : Option (Store V) :=
  match s.objects v with
  | none => none
  | some obj =>
    if obj.constant then some s
    else
      let count := Int.bmod (obj.count + n) modulus
      if count ≤ 0 then
        some { objects := Function.update s.objects v none, freed := s.freed ++ [v] }
      else
        some { s with objects := Function.update s.objects v (some { obj with count := count }) }

/-- A new object is held by its creator. -/
def Store.create (v : V) (s : Store V) : Store V :=
  { s with objects := Function.update s.objects v (some { count := 1, constant := false }) }

end Store

/-- An object without a count. -/
def Store.IsConstant (s : Store V) (v : V) : Prop :=
  ∃ obj, s.objects v = some obj ∧ obj.constant = true

theorem not_isConstant {s : Store V} {v : V} {obj : Object} (hobj : s.objects v = some obj)
    (hc : ¬ obj.constant = true) : ¬ s.IsConstant v := by
  rintro ⟨obj', hobj', hc'⟩
  obtain rfl := Option.some.inj (hobj.symm.trans hobj')
  exact hc hc'

/-- The holders a pointer to `v` adds: one of `v`, nobody for NULL. -/
def one [DecidableEq V] (v : Option V) (u : V) : Nat := if v = some u then 1 else 0

section One

variable [DecidableEq V]

@[simp] theorem one_none : one (none : Option V) = 0 := by
  funext u
  simp [one]

@[simp] theorem one_some_self (v : V) : one (some v) v = 1 := if_pos rfl

theorem one_some_of_ne {u v : V} (h : u ≠ v) : one (some v) u = 0 :=
  if_neg fun he => h (Option.some.inj he).symm

/-- How many of the pointers are pointers to `v`. -/
def pointers (l : List (Option V)) (v : V) : Nat := l.count (some v)

@[simp] theorem pointers_nil : pointers ([] : List (Option V)) = 0 := rfl

@[simp] theorem pointers_cons (o : Option V) (l : List (Option V)) :
    pointers (o :: l) = pointers l + one o := by
  funext v
  by_cases h : o = some v
  · simp [pointers, one, h]
  · simp [pointers, one, h]

@[simp] theorem pointers_append (l l' : List (Option V)) :
    pointers (l ++ l') = pointers l + pointers l' := by
  funext v
  exact List.count_append

theorem pointers_le_length (l : List (Option V)) (v : V) : pointers l v ≤ l.length :=
  List.count_le_length

theorem pointers_set {l : List (Option V)} {i : Nat} {o : Option V} (h : l[i]? = some o)
    (o' : Option V) : pointers (l.set i o') + one o = pointers l + one o' := by
  induction l generalizing i with
  | nil => cases h
  | cons x l ih =>
    cases i with
    | zero =>
      obtain rfl := Option.some.inj h
      simp only [List.set_cons_zero, pointers_cons]
      abel
    | succ i =>
      have := ih h
      simp only [List.set_cons_succ, pointers_cons]
      rw [add_right_comm, this]
      abel

theorem pointers_eraseIdx {l : List (Option V)} {i : Nat} {o : Option V} (h : l[i]? = some o) :
    pointers (l.eraseIdx i) + one o = pointers l := by
  induction l generalizing i with
  | nil => cases h
  | cons x l ih =>
    cases i with
    | zero =>
      obtain rfl := Option.some.inj h
      simp only [List.eraseIdx_cons_zero, pointers_cons]
    | succ i =>
      have := ih h
      simp only [List.eraseIdx_cons_succ, pointers_cons]
      rw [add_right_comm, this]

theorem one_le_one (o : Option V) (v : V) : one o v ≤ 1 := by
  unfold one
  split
  · exact Nat.le_refl 1
  · exact Nat.zero_le 1

end One

/-- Every object that is counted has one count for each holder, and at least one; what has no object
    has no holder, and nothing was freed twice. -/
structure Store.Counted (s : Store V) (holders : V → Nat) : Prop where
  counted : ∀ v obj, s.objects v = some obj → obj.constant = false →
    obj.count = holders v ∧ 0 < holders v
  gone : ∀ v, s.objects v = none → holders v = 0
  once : s.freed.Nodup
  freed : ∀ v ∈ s.freed, s.objects v = none

/-- What time does to a store: objects are only freed, and constants stay. -/
structure Store.Ages (s s' : Store V) : Prop where
  constant : ∀ v obj, s.objects v = some obj → obj.constant = true → s'.objects v = some obj
  kind : ∀ v obj', s'.objects v = some obj' →
    ∃ obj, s.objects v = some obj ∧ obj.constant = obj'.constant
  lost : ∀ v, s'.objects v = none → s.objects v = none ∨ v ∈ s'.freed
  freed : ∀ v ∈ s.freed, v ∈ s'.freed
  fresh : ∀ v ∈ s'.freed, v ∈ s.freed ∨ ((s.objects v).isSome ∧ s'.objects v = none)

theorem Store.Ages.refl (s : Store V) : s.Ages s where
  constant := fun _ _ h _ => h
  kind := fun _ obj h => ⟨obj, h, rfl⟩
  lost := fun _ h => .inl h
  freed := fun _ h => h
  fresh := fun _ h => .inl h

theorem Store.Ages.gone {s s' : Store V} (h : s.Ages s') {v : V} (hv : s.objects v = none) :
    s'.objects v = none := by
  cases hobj : s'.objects v with
  | none => rfl
  | some obj =>
    obtain ⟨obj', hobj', -⟩ := h.kind v obj hobj
    rw [hv] at hobj'
    cases hobj'

theorem Store.Ages.isConstant_iff {s s' : Store V} (h : s.Ages s') (v : V) :
    s'.IsConstant v ↔ s.IsConstant v := by
  constructor
  · rintro ⟨obj', hobj', hc⟩
    obtain ⟨obj, hobj, he⟩ := h.kind v obj' hobj'
    exact ⟨obj, hobj, he.trans hc⟩
  · rintro ⟨obj, hobj, hc⟩
    exact ⟨obj, h.constant v obj hobj hc, hc⟩

theorem Store.Ages.trans {s s' s'' : Store V} (h : s.Ages s') (h' : s'.Ages s'') : s.Ages s'' where
  constant := fun v obj hobj hc => h'.constant v obj (h.constant v obj hobj hc) hc
  kind := by
    intro v obj'' hobj''
    obtain ⟨obj', hobj', he'⟩ := h'.kind v obj'' hobj''
    obtain ⟨obj, hobj, he⟩ := h.kind v obj' hobj'
    exact ⟨obj, hobj, he.trans he'⟩
  lost := by
    intro v hv
    rcases h'.lost v hv with hv | hv
    · exact (h.lost v hv).imp_right fun hv => h'.freed v hv
    · exact .inr hv
  freed := fun v hv => h'.freed v (h.freed v hv)
  fresh := by
    intro v hv
    rcases h'.fresh v hv with hv | ⟨hsome, hnone⟩
    · exact (h.fresh v hv).imp_right fun hv => ⟨hv.1, h'.gone hv.2⟩
    · refine .inr ⟨?_, hnone⟩
      obtain ⟨obj', hobj'⟩ := Option.isSome_iff_exists.mp hsome
      obtain ⟨obj, hobj, -⟩ := h.kind v obj' hobj'
      rw [hobj]
      rfl

/-- The count of an object that somebody holds. -/
theorem Store.Counted.lookup {s : Store V} {holders : V → Nat} {v : V} (h : s.Counted holders)
    (hv : 0 < holders v) :
    ∃ obj, s.objects v = some obj ∧ (obj.constant = false → obj.count = holders v) := by
  cases hobj : s.objects v with
  | none =>
    have := h.gone v hobj
    omega
  | some obj => exact ⟨obj, rfl, fun hc => (h.counted v obj hobj hc).1⟩

theorem Store.Counted.isSome {s : Store V} {holders : V → Nat} {v : V} (h : s.Counted holders)
    (hv : 0 < holders v) : (s.objects v).isSome := by
  obtain ⟨obj, hobj, -⟩ := h.lookup hv
  rw [hobj]
  rfl

section Counted

variable [DecidableEq V] {s s' : Store V} {holders holders' : V → Nat} {modulus : Nat} {v : V}
  {n : Int}

/-- The other objects keep their counts. -/
theorem adjust_of_ne (h : s.adjust modulus v n = some s') {u : V} (hne : u ≠ v) :
    s'.objects u = s.objects u := by
  unfold Store.adjust at h
  cases hobj : s.objects v with
  | none =>
    rw [hobj] at h
    cases h
  | some obj =>
    rw [hobj] at h
    simp only at h
    split at h
    · obtain rfl := Option.some.inj h
      rfl
    · split at h
      · obtain rfl := Option.some.inj h
        exact Function.update_of_ne hne _ _
      · obtain rfl := Option.some.inj h
        exact Function.update_of_ne hne _ _

/-- What `adjust` does to its object. -/
theorem adjust_cases (h : s.adjust modulus v n = some s') : ∃ obj, s.objects v = some obj ∧
    ((obj.constant = true ∧ s' = s) ∨
      (obj.constant = false ∧ s'.objects v = none ∧ s'.freed = s.freed ++ [v]) ∨
      (obj.constant = false ∧ (∃ k, s'.objects v = some { obj with count := k }) ∧
        s'.freed = s.freed)) := by
  unfold Store.adjust at h
  cases hobj : s.objects v with
  | none =>
    rw [hobj] at h
    cases h
  | some obj =>
    rw [hobj] at h
    simp only at h
    refine ⟨obj, rfl, ?_⟩
    split at h
    · next hc => exact .inl ⟨hc, (Option.some.inj h).symm⟩
    · next hc =>
      have hc : obj.constant = false := Bool.not_eq_true _ ▸ hc
      split at h
      · obtain rfl := Option.some.inj h
        exact .inr (.inl ⟨hc, Function.update_self v _ _, rfl⟩)
      · obtain rfl := Option.some.inj h
        exact .inr (.inr ⟨hc, ⟨_, Function.update_self v _ _⟩, rfl⟩)

theorem ages_of_adjust (h : s.adjust modulus v n = some s') : s.Ages s' := by
  obtain ⟨obj, hobj, ⟨-, rfl⟩ | ⟨hc, hnone, hfreed⟩ | ⟨hc, ⟨k, hsome⟩, hfreed⟩⟩ := adjust_cases h
  · exact .refl _
  · refine ⟨?_, ?_, ?_, ?_, ?_⟩
    · intro u obj' hu hc'
      have hne : u ≠ v := by
        rintro rfl
        obtain rfl := Option.some.inj (hobj.symm.trans hu)
        rw [hc] at hc'
        cases hc'
      exact (adjust_of_ne h hne).trans hu
    · intro u obj' hu
      have hne : u ≠ v := by
        rintro rfl
        rw [hnone] at hu
        cases hu
      exact ⟨obj', (adjust_of_ne h hne).symm.trans hu, rfl⟩
    · intro u hu
      by_cases he : u = v
      · rw [he, hfreed]
        exact .inr (List.mem_append_right _ (List.mem_singleton_self v))
      · exact .inl ((adjust_of_ne h he).symm.trans hu)
    · intro u hu
      rw [hfreed]
      exact List.mem_append_left _ hu
    · intro u hu
      rw [hfreed] at hu
      rcases List.mem_append.mp hu with hu | hu
      · exact .inl hu
      · rw [List.mem_singleton.mp hu, hobj]
        exact .inr ⟨rfl, hnone⟩
  · refine ⟨?_, ?_, ?_, ?_, ?_⟩
    · intro u obj' hu hc'
      have hne : u ≠ v := by
        rintro rfl
        obtain rfl := Option.some.inj (hobj.symm.trans hu)
        rw [hc] at hc'
        cases hc'
      exact (adjust_of_ne h hne).trans hu
    · intro u obj' hu
      by_cases he : u = v
      · subst he
        obtain rfl := Option.some.inj (hsome.symm.trans hu)
        exact ⟨obj, hobj, rfl⟩
      · exact ⟨obj', (adjust_of_ne h he).symm.trans hu, rfl⟩
    · intro u hu
      have hne : u ≠ v := by
        rintro rfl
        rw [hsome] at hu
        cases hu
      exact .inl ((adjust_of_ne h hne).symm.trans hu)
    · intro u hu
      rw [hfreed]
      exact hu
    · intro u hu
      rw [hfreed] at hu
      exact .inl hu

/-- A count that stays positive and within its range. -/
theorem adjust_counted {count : Int} (h : s.adjust modulus v n = some s')
    (hobj : s.objects v = some { count := count, constant := false }) (hpos : 0 < count + n)
    (hlt : 2 * (count + n) < modulus) :
    s'.objects v = some { count := count + n, constant := false } := by
  have hmod : Int.bmod (count + n) modulus = count + n :=
    Int.bmod_eq_of_le_mul_two (by omega) (by omega)
  simp only [Store.adjust, hobj, Bool.false_eq_true, if_false, hmod, if_neg (Int.not_le.mpr hpos)]
    at h
  obtain rfl := Option.some.inj h
  exact Function.update_self v _ _

/-- Adding to the count of a live object always has a result. -/
theorem adjust_isSome (hv : (s.objects v).isSome) : (s.adjust modulus v n).isSome := by
  obtain ⟨obj, hobj⟩ := Option.isSome_iff_exists.mp hv
  unfold Store.adjust
  simp only [hobj]
  split
  · rfl
  · split <;> rfl

section Recount

variable {obj : Object} (h : s.Counted holders) (hobj : s.objects v = some obj)
include h hobj

omit [DecidableEq V] in
/-- Other holders of constants, which are not counted. -/
theorem Store.Counted.of_constant (hc : obj.constant = true)
    (hoff : ∀ u, u ≠ v → holders' u = holders u) : s.Counted holders' where
  counted := by
    intro u obj' hu hc'
    have hne : u ≠ v := by
      rintro rfl
      obtain rfl := Option.some.inj (hobj.symm.trans hu)
      rw [hc] at hc'
      cases hc'
    rw [hoff u hne]
    exact h.counted u obj' hu hc'
  gone := by
    intro u hu
    have hne : u ≠ v := by
      rintro rfl
      rw [hobj] at hu
      cases hu
    rw [hoff u hne]
    exact h.gone u hu
  once := h.once
  freed := h.freed

/-- The new count is the new number of holders, and there are some. -/
theorem Store.Counted.recount (hoff : ∀ u, u ≠ v → holders' u = holders u)
    (hpos : 0 < holders' v) :
    ({ s with objects := Function.update s.objects v (some { obj with count := holders' v }) } :
      Store V).Counted holders' where
  counted := by
    intro u obj' hu hc
    by_cases he : u = v
    · subst he
      obtain rfl := Option.some.inj ((Function.update_self u _ s.objects).symm.trans hu)
      exact ⟨rfl, hpos⟩
    · rw [hoff u he]
      exact h.counted u obj' ((Function.update_of_ne he _ _).symm.trans hu) hc
  gone := by
    intro u hu
    by_cases he : u = v
    · subst he
      cases (Function.update_self u _ s.objects).symm.trans hu
    · rw [hoff u he]
      exact h.gone u ((Function.update_of_ne he _ _).symm.trans hu)
  once := h.once
  freed := by
    intro u hu
    have hne : u ≠ v := by
      rintro rfl
      have := h.freed u hu
      rw [hobj] at this
      cases this
    exact (Function.update_of_ne hne _ _).trans (h.freed u hu)

/-- The last holder is gone. -/
theorem Store.Counted.free (hoff : ∀ u, u ≠ v → holders' u = holders u) (hzero : holders' v = 0) :
    ({ objects := Function.update s.objects v none, freed := s.freed ++ [v] } :
      Store V).Counted holders' where
  counted := by
    intro u obj' hu hc
    have hne : u ≠ v := by
      rintro rfl
      cases (Function.update_self u _ s.objects).symm.trans hu
    rw [hoff u hne]
    exact h.counted u obj' ((Function.update_of_ne hne _ _).symm.trans hu) hc
  gone := by
    intro u hu
    by_cases he : u = v
    · rw [he, hzero]
    · rw [hoff u he]
      exact h.gone u ((Function.update_of_ne he _ _).symm.trans hu)
  once := by
    rw [List.nodup_append]
    refine ⟨h.once, List.nodup_singleton v, ?_⟩
    rintro u hu w hw rfl
    rw [List.mem_singleton.mp hw] at hu
    have := h.freed v hu
    rw [hobj] at this
    cases this
  freed := by
    intro u hu
    by_cases he : u = v
    · rw [he]
      exact Function.update_self v none s.objects
    · refine (Function.update_of_ne he _ _).trans ?_
      rcases List.mem_append.mp hu with hu | hu
      · exact h.freed u hu
      · exact absurd (List.mem_singleton.mp hu) he

end Recount

/-- One more holder. -/
theorem Store.Counted.acquire (h : s.Counted holders) (hv : (s.objects v).isSome)
    (hbound : s.IsConstant v ∨ 2 * (holders v + 1) < modulus) :
    ∃ s', s.adjust modulus v 1 = some s' ∧ s'.Counted (holders + one (some v)) := by
  obtain ⟨obj, hobj⟩ := Option.isSome_iff_exists.mp hv
  have hoff : ∀ u, u ≠ v → (holders + one (some v)) u = holders u := fun u hu => by
    simp [one_some_of_ne hu]
  unfold Store.adjust
  simp only [hobj]
  by_cases hc : obj.constant = true
  · rw [if_pos hc]
    exact ⟨s, rfl, h.of_constant hobj hc hoff⟩
  · obtain ⟨hcount, hpos⟩ := h.counted v obj hobj (Bool.not_eq_true _ ▸ hc)
    have hbound := hbound.resolve_left (not_isConstant hobj hc)
    have hmod : Int.bmod (obj.count + 1) modulus = ((holders + one (some v)) v : Nat) := by
      rw [Pi.add_apply, one_some_self, hcount, Int.bmod_eq_of_le] <;> omega
    have hpos' : ¬ (((holders + one (some v)) v : Nat) : Int) ≤ 0 := by
      rw [Pi.add_apply, one_some_self]
      omega
    rw [if_neg hc, hmod, if_neg hpos']
    exact ⟨_, rfl, h.recount hobj hoff (by omega)⟩

/-- One holder less; with the last one the object is freed. -/
theorem Store.Counted.release (h : s.Counted (holders + one (some v)))
    (hbound : s.IsConstant v ∨ 2 * (holders v + 1) < modulus) :
    ∃ s', s.adjust modulus v (-1) = some s' ∧ s'.Counted holders := by
  have hv : (holders + one (some v)) v = holders v + 1 := by rw [Pi.add_apply, one_some_self]
  obtain ⟨obj, hobj, hcount⟩ := h.lookup (v := v) (by omega)
  have hoff : ∀ u, u ≠ v → holders u = (holders + one (some v)) u := fun u hu => by
    simp [one_some_of_ne hu]
  unfold Store.adjust
  simp only [hobj]
  by_cases hc : obj.constant = true
  · rw [if_pos hc]
    exact ⟨s, rfl, h.of_constant hobj hc hoff⟩
  · have hcount := hcount (Bool.not_eq_true _ ▸ hc)
    have hbound := hbound.resolve_left (not_isConstant hobj hc)
    have hmod : Int.bmod (obj.count + -1) modulus = (holders v : Int) := by
      rw [hcount, hv, Int.bmod_eq_of_le] <;> omega
    rw [if_neg hc, hmod]
    by_cases hlast : holders v = 0
    · rw [if_pos (by omega)]
      exact ⟨_, rfl, h.free hobj hoff hlast⟩
    · rw [if_neg (by omega)]
      exact ⟨_, rfl, h.recount hobj hoff (by omega)⟩

/-- A new object with its creator as the only holder. -/
theorem Store.Counted.create (h : s.Counted holders) (hv : s.objects v = none)
    (hnot : v ∉ s.freed) : (s.create v).Counted (holders + one (some v)) where
  counted := by
    intro u obj hu hc
    by_cases he : u = v
    · subst he
      obtain rfl := Option.some.inj ((Function.update_self u _ s.objects).symm.trans hu)
      simp [one_some_self, h.gone u hv]
    · simp only [Pi.add_apply, one_some_of_ne he, Nat.add_zero]
      exact h.counted u obj ((Function.update_of_ne he _ _).symm.trans hu) hc
  gone := by
    intro u hu
    by_cases he : u = v
    · subst he
      cases (Function.update_self u _ s.objects).symm.trans hu
    · simp only [Pi.add_apply, one_some_of_ne he, Nat.add_zero]
      exact h.gone u ((Function.update_of_ne he _ _).symm.trans hu)
  once := h.once
  freed := by
    intro u hu
    have hne : u ≠ v := by
      rintro rfl
      exact hnot hu
    exact (Function.update_of_ne hne _ _).trans (h.freed u hu)

end Counted

end RefCount
