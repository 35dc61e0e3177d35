/-
  Refinement of one partial state transformer by another, and of a step function by a specification
  that always has an answer.

  `Refines Inv abs m f`: on states with `Inv`, `m` has a result exactly when `f` has one on the
  abstract state, the results correspond, and `Inv` still holds.

  `Follows`: along a run every step has a result, answers what the specification answers, keeps the
  relation to its state, and gives a guarantee about the state before and after it. A condition on
  the specification's state and the input that is enough for one step is enough for a run
  (`Follows.of_meets`); where a step needs it too, a run that follows meets it (`Follows.meets`).
-/
import LogxControll.Lib.Run

namespace Refinement

variable {S T : Type*} {Inv : S → Prop} {abs : S → T}

/-- Under an invariant that it keeps, a partial step is the abstract one. -/
def Refines (Inv : S → Prop) (abs : S → T) (m : S → Option S) (f : T → Option T) : Prop :=
  ∀ s, Inv s → (m s).map abs = f (abs s) ∧ ∀ s', m s = some s' → Inv s'

namespace Refines

variable {m m' : S → Option S} {f f' : T → Option T}

theorem pure : Refines Inv abs some some := by
  intro s hs
  refine ⟨rfl, fun s' h => ?_⟩
  obtain rfl := Option.some.inj h
  exact hs

/-- A step that always has a result. -/
theorem total {u : S → S} {v : T → T} (h : ∀ s, Inv s → Inv (u s) ∧ abs (u s) = v (abs s)) :
    Refines Inv abs (fun s => some (u s)) (fun t => some (v t)) := by
  intro s hs
  refine ⟨congrArg some (h s hs).2, fun s' h' => ?_⟩
  obtain rfl := Option.some.inj h'
  exact (h s hs).1

theorem bind (h : Refines Inv abs m f) (h' : Refines Inv abs m' f') :
    Refines Inv abs (fun s => (m s).bind m') (fun t => (f t).bind f') := by
  intro s hs
  obtain ⟨hmap, hinv⟩ := h s hs
  show ((m s).bind m').map abs = (f (abs s)).bind f' ∧ ∀ s', (m s).bind m' = some s' → Inv s'
  cases hm : m s with
  | none =>
    rw [hm] at hmap
    rw [← hmap]
    exact ⟨rfl, fun s' h => by cases h⟩
  | some s₁ =>
    rw [hm] at hmap
    rw [← hmap]
    exact h' s₁ (hinv s₁ hm)

/-- Reading something from the state that the abstraction keeps. -/
theorem read {α : Type*} {f : S → Option α} {f' : T → Option α} {k : α → S → Option S}
    {k' : α → T → Option T} (hf : ∀ s, Inv s → f' (abs s) = f s)
    (hk : ∀ s a, Inv s → f s = some a → Refines Inv abs (k a) (k' a)) :
    Refines Inv abs (fun s => (f s).bind fun a => k a s) fun t => (f' t).bind fun a => k' a t := by
  intro s hs
  show ((f s).bind fun a => k a s).map abs = ((f' (abs s)).bind fun a => k' a (abs s)) ∧
    ∀ s', ((f s).bind fun a => k a s) = some s' → Inv s'
  rw [hf s hs]
  cases ha : f s with
  | none => exact ⟨rfl, fun s' h => by cases h⟩
  | some a => exact hk s a hs ha s hs

/-- On states with the invariant the transformer can be replaced. -/
theorem congr (h : Refines Inv abs m f) (he : ∀ s, Inv s → m' s = m s)
    (he' : ∀ s, Inv s → f' (abs s) = f (abs s)) : Refines Inv abs m' f' := by
  intro s hs
  rw [he s hs, he' s hs]
  exact h s hs

theorem result (h : Refines Inv abs m f) {s s' : S} (hs : Inv s) (hm : m s = some s') :
    f (abs s) = some (abs s') ∧ Inv s' := by
  obtain ⟨hmap, hinv⟩ := h s hs
  refine ⟨?_, hinv s' hm⟩
  rw [← hmap, hm, Option.map_some]

theorem returns (h : Refines Inv abs m f) {s : S} (hs : Inv s) {t : T} (hf : f (abs s) = some t) :
    ∃ s', m s = some s' ∧ abs s' = t ∧ Inv s' := by
  obtain ⟨hmap, hinv⟩ := h s hs
  rw [hf, Option.map_eq_some_iff] at hmap
  obtain ⟨s', hm, habs⟩ := hmap
  exact ⟨s', hm, habs, hinv s' hm⟩

end Refines

/-- Refining every step refines every run. -/
theorem Refines.run {ι : Type*} {step : S → ι → Option S} {step' : T → ι → Option T}
    (is : List ι) (h : ∀ i ∈ is, Refines Inv abs (fun s => step s i) (fun t => step' t i)) :
    Refines Inv abs (fun s => Run.run step s is) (fun t => Run.run step' t is) := by
  induction is with
  | nil => exact .pure
  | cons i is ih =>
    exact (h i List.mem_cons_self).bind (ih fun j hj => h j (List.mem_cons_of_mem _ hj))

end Refinement

namespace Simulation

variable {σ τ ι ο : Type*} {step : σ → ι → Option (ο × σ)} {spec : τ → ι → ο × τ}
  {R : σ → τ → Prop} {G : σ → τ → ι → σ → Prop}

/-- Along the whole run the steps are possible, answer as the specification does and stay related to
    it, each step keeping `G`. -/
def Follows (step : σ → ι → Option (ο × σ)) (spec : τ → ι → ο × τ) (R : σ → τ → Prop)
    (G : σ → τ → ι → σ → Prop) : σ → τ → List ι → Prop
  | s, t, [] => R s t
  | s, t, i :: is => R s t ∧ ∃ s', step s i = some ((spec t i).1, s') ∧ G s t i s' ∧
      Follows step spec R G s' (spec t i).2 is

/-- The specification alone. -/
def after (spec : τ → ι → ο × τ) (t : τ) (i : ι) : Option τ := some (spec t i).2

theorem Follows.head {s : σ} {t : τ} {is : List ι} (h : Follows step spec R G s t is) : R s t := by
  cases is with
  | nil => exact h
  | cons i is => exact h.1

/-- What one step keeps under the condition, a run that meets the condition keeps. -/
theorem Follows.of_meets {ok : τ → ι → Prop} (Inv : σ → τ → Prop) (hinv : ∀ s t, Inv s t → R s t)
    (hstep : ∀ s t i, Inv s t → ok t i →
      ∃ s', step s i = some ((spec t i).1, s') ∧ G s t i s' ∧ Inv s' (spec t i).2) :
    ∀ {is : List ι} {s : σ} {t : τ}, Inv s t → Run.Meets (after spec) ok t is →
      Follows step spec R G s t is
  | [], s, t, hs, _ => hinv s t hs
  | i :: _, s, t, hs, hm => by
      obtain ⟨s', hs', hg, hi⟩ := hstep s t i hs hm.1
      exact ⟨hinv s t hs, s', hs', hg, .of_meets Inv hinv hstep hi (hm.2 _ rfl)⟩

/-- A run that follows meets every condition that its steps need. -/
theorem Follows.meets {ok : τ → ι → Prop} (Inv : σ → τ → Prop)
    (hstep : ∀ s t i, Inv s t → ok t i →
      ∃ s', step s i = some ((spec t i).1, s') ∧ G s t i s' ∧ Inv s' (spec t i).2)
    (hneed : ∀ s t i s', Inv s t → step s i = some ((spec t i).1, s') → R s' (spec t i).2 →
      ok t i) :
    ∀ {is : List ι} {s : σ} {t : τ}, Inv s t → Follows step spec R G s t is →
      Run.Meets (after spec) ok t is
  | [], _, _, _, _ => trivial
  | i :: _, s, t, hs, h => by
      obtain ⟨-, s', hs', -, hrest⟩ := h
      have hok : ok t i := hneed s t i s' hs hs' hrest.head
      obtain ⟨s₁, hs₁, -, hi⟩ := hstep s t i hs hok
      obtain rfl := (Prod.mk.inj (Option.some.inj (hs'.symm.trans hs₁))).2
      refine ⟨hok, fun t' ht' => ?_⟩
      obtain rfl : (spec t i).2 = t' := Option.some.inj ht'
      exact hrest.meets Inv hstep hneed hi

end Simulation
