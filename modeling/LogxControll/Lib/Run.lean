/-
  Runs of a partial step function: a state, a list of inputs, and a step that may have no
  result (`none`). An invariant of one step is an invariant of every run, and so is an
  invariant that only survives the steps meeting a side condition, along a run that meets it.

  `Ensures` is about one partial computation: what its result satisfies, and when there is one.
-/
import Mathlib.Data.List.Induction
import Mathlib.Logic.Relation
import Mathlib.Order.Bounds.Defs

namespace Run

universe u v

variable {σ : Type u} {ι : Type v}

/-- Feed the inputs to `step` from left to right; `none` as soon as one step has no result. -/
def run (step : σ → ι → Option σ) : σ → List ι → Option σ
  | s, [] => some s
  | s, i :: is => (step s i).bind fun s' => run step s' is

/-- Every step that is taken starts in a state where its input meets `ok`. -/
def Meets (step : σ → ι → Option σ) (ok : σ → ι → Prop) : σ → List ι → Prop
  | _, [] => True
  | s, i :: is => ok s i ∧ ∀ s', step s i = some s' → Meets step ok s' is

instance Meets.decidable {step : σ → ι → Option σ} {ok : σ → ι → Prop}
    [∀ s i, Decidable (ok s i)] : ∀ (is : List ι) (s : σ), Decidable (Meets step ok s is)
  | [], _ => .isTrue trivial
  | i :: is, s =>
    match hs : step s i with
    | none => decidable_of_iff (ok s i)
        ⟨fun h => ⟨h, fun s' hs' => by rw [hs] at hs'; cases hs'⟩, fun h => h.1⟩
    | some s' =>
      have : Decidable (Meets step ok s' is) := Meets.decidable is s'
      decidable_of_iff (ok s i ∧ Meets step ok s' is)
        ⟨fun h => ⟨h.1, fun _ hs' => Option.some.inj (hs.symm.trans hs') ▸ h.2⟩,
          fun h => ⟨h.1, h.2 s' hs⟩⟩

@[simp] theorem run_nil (step : σ → ι → Option σ) (s : σ) : run step s [] = some s := rfl

@[simp] theorem run_cons (step : σ → ι → Option σ) (s : σ) (i : ι) (is : List ι) :
    run step s (i :: is) = (step s i).bind fun s' => run step s' is := rfl

theorem run_append (step : σ → ι → Option σ) (s : σ) (is js : List ι) :
    run step s (is ++ js) = (run step s is).bind fun s' => run step s' js := by
  induction is generalizing s with
  | nil => rfl
  | cons i is ih =>
    rw [List.cons_append, run_cons, run_cons, Option.bind_assoc]
    exact Option.bind_congr fun s' _ => ih s'

theorem run_map {κ : Type*} (step : σ → ι → Option σ) (f : κ → ι) (ks : List κ) (s : σ) :
    run step s (ks.map f) = run (fun s k => step s (f k)) s ks := by
  induction ks generalizing s with
  | nil => rfl
  | cons k ks ih => exact Option.bind_congr fun s' _ => ih s'

theorem Meets.cons {step : σ → ι → Option σ} {ok : σ → ι → Prop} {s s' : σ} {i : ι} {is : List ι}
    (hstep : step s i = some s') (hok : ok s i) (h : Meets step ok s' is) :
    Meets step ok s (i :: is) :=
  ⟨hok, fun _ hs => Option.some.inj (hstep.symm.trans hs) ▸ h⟩

/-- A side condition on the inputs alone. -/
theorem meets_of_forall {step : σ → ι → Option σ} {ok : σ → ι → Prop} {is : List ι}
    (h : ∀ i ∈ is, ∀ s, ok s i) {s : σ} : Meets step ok s is := by
  induction is generalizing s with
  | nil => trivial
  | cons i is ih =>
    exact ⟨h i List.mem_cons_self s, fun _ _ =>
      ih fun j hj => h j (List.mem_cons_of_mem i hj)⟩

theorem Meets.and {step : σ → ι → Option σ} {ok ok' : σ → ι → Prop} :
    ∀ {is : List ι} {s : σ}, Meets step ok s is → Meets step ok' s is →
      Meets step (fun s i => ok s i ∧ ok' s i) s is
  | [], _, _, _ => trivial
  | _ :: _, _, h, h' => ⟨⟨h.1, h'.1⟩, fun s' hs => (h.2 s' hs).and (h'.2 s' hs)⟩

/-- Two side conditions that agree where an invariant holds are met by the same runs. -/
theorem meets_iff {step : σ → ι → Option σ} {ok ok' : σ → ι → Prop} (Inv : σ → Prop)
    (hiff : ∀ s i, Inv s → (ok s i ↔ ok' s i))
    (hstep : ∀ s i s', Inv s → ok s i → step s i = some s' → Inv s') :
    ∀ {is : List ι} {s : σ}, Inv s → (Meets step ok s is ↔ Meets step ok' s is)
  | [], _, _ => Iff.rfl
  | i :: _, s, hs => by
      refine (and_congr_right fun hok => forall_congr' fun s' => ?_).trans
        (and_congr_left' (hiff s i hs))
      exact imp_congr_right fun hs' => meets_iff Inv hiff hstep (hstep s i s' hs hok hs')

/-- Every state that is reached satisfies `P`, the first one included. -/
def Always (step : σ → ι → Option σ) (P : σ → Prop) : σ → List ι → Prop
  | s, [] => P s
  | s, i :: is => P s ∧ ∀ s', step s i = some s' → Always step P s' is

theorem Always.head {step : σ → ι → Option σ} {P : σ → Prop} {s : σ} {is : List ι}
    (h : Always step P s is) : P s := by
  cases is with
  | nil => exact h
  | cons i is => exact h.1

/-- A run that meets its side condition satisfies what the invariant implies. -/
theorem Meets.always {step : σ → ι → Option σ} {ok : σ → ι → Prop} {P : σ → Prop} (Inv : σ → Prop)
    (hinv : ∀ s, Inv s → P s) (hkeep : ∀ s i s', Inv s → ok s i → step s i = some s' → Inv s') :
    ∀ {is : List ι} {s : σ}, Inv s → Meets step ok s is → Always step P s is
  | [], s, hs, _ => hinv s hs
  | i :: _, s, hs, h => ⟨hinv s hs, fun s' hstep =>
      Meets.always Inv hinv hkeep (hkeep s i s' hs h.1 hstep) (h.2 s' hstep)⟩

/-- When the side condition of a step is what it takes to keep `P`, a run satisfies `P` throughout
    exactly when it meets the side condition. -/
theorem always_iff_meets {step : σ → ι → Option σ} {ok : σ → ι → Prop} {P : σ → Prop} (Inv : σ → Prop)
    (hinv : ∀ s, Inv s → P s) (hkeep : ∀ s i s', Inv s → ok s i → step s i = some s' → Inv s')
    (hbreak : ∀ s i, Inv s → ¬ ok s i → ∃ s', step s i = some s' ∧ ¬ P s') :
    ∀ {is : List ι} {s : σ}, Inv s → (Always step P s is ↔ Meets step ok s is)
  | [], s, hs => iff_of_true (hinv s hs) trivial
  | i :: is, s, hs => by
      refine ⟨?_, Meets.always Inv hinv hkeep hs⟩
      rintro ⟨-, hrest⟩
      have hok : ok s i := Classical.byContradiction fun hno => by
        obtain ⟨s', hstep, hbad⟩ := hbreak s i hs hno
        exact hbad (hrest s' hstep).head
      exact ⟨hok, fun s' hstep => (always_iff_meets Inv hinv hkeep hbreak
        (hkeep s i s' hs hok hstep)).mp (hrest s' hstep)⟩

/-- The same for a run that has a result, whose steps are all taken. -/
theorem always_iff_meets_of_run {step : σ → ι → Option σ} {ok : σ → ι → Prop} {P : σ → Prop}
    (Inv : σ → Prop) (hinv : ∀ s, Inv s → P s)
    (hkeep : ∀ s i s', Inv s → ok s i → step s i = some s' → Inv s')
    (hbreak : ∀ s i s', Inv s → ¬ ok s i → step s i = some s' → ¬ P s') :
    ∀ {is : List ι} {s : σ}, Inv s → (run step s is).isSome →
      (Always step P s is ↔ Meets step ok s is)
  | [], s, hs, _ => iff_of_true (hinv s hs) trivial
  | i :: is, s, hs, hrun => by
      refine ⟨?_, Meets.always Inv hinv hkeep hs⟩
      rintro ⟨-, hrest⟩
      obtain ⟨s₁, hs₁⟩ := Option.isSome_iff_exists.mp hrun
      obtain ⟨s', hstep, hrun'⟩ := Option.bind_eq_some_iff.mp hs₁
      have hok : ok s i := Classical.byContradiction fun hno =>
        hbreak s i s' hs hno hstep (hrest s' hstep).head
      refine ⟨hok, fun s₂ hs₂ => ?_⟩
      obtain rfl := Option.some.inj (hstep.symm.trans hs₂)
      exact (always_iff_meets_of_run Inv hinv hkeep hbreak (hkeep s i s' hs hok hstep)
        (Option.isSome_iff_exists.mpr ⟨s₁, hrun'⟩)).mp (hrest s' hstep)

theorem run_invariant_of_meets {step : σ → ι → Option σ} {ok : σ → ι → Prop} (Inv : σ → Prop)
    (hstep : ∀ s i s', Inv s → ok s i → step s i = some s' → Inv s') :
    ∀ (is : List ι) (s s' : σ), Inv s → Meets step ok s is → run step s is = some s' → Inv s'
  | [], s, s', hs, _, h => by
      rw [run_nil, Option.some.injEq] at h
      exact h ▸ hs
  | i :: is, s, s', hs, hm, h => by
      rw [run_cons, Option.bind_eq_some_iff] at h
      obtain ⟨m, hm1, hm2⟩ := h
      exact run_invariant_of_meets Inv hstep is m s' (hstep s i m hs hm.1 hm1) (hm.2 m hm1) hm2

theorem run_invariant {step : σ → ι → Option σ} (Inv : σ → Prop)
    (hstep : ∀ s i s', Inv s → step s i = some s' → Inv s') (is : List ι) (s s' : σ)
    (hs : Inv s) (h : run step s is = some s') : Inv s' := by
  have hm : ∀ (is : List ι) (s : σ), Meets step (fun _ _ => True) s is := by
    intro is
    induction is with
    | nil => intro _; trivial
    | cons i is ih => intro s; exact ⟨trivial, fun m _ => ih m⟩
  exact run_invariant_of_meets Inv (fun s i s' hi _ => hstep s i s' hi) is s s' hs (hm is s) h

/-- Steps that are possible and keep an invariant: so is a run of them. -/
theorem exists_run {step : σ → ι → Option σ} {ok : ι → Prop} (Inv : σ → Prop)
    (hstep : ∀ s i, Inv s → ok i → ∃ s', step s i = some s' ∧ Inv s') :
    ∀ (is : List ι) (s : σ), Inv s → (∀ i ∈ is, ok i) → ∃ s', run step s is = some s' ∧ Inv s'
  | [], s, hs, _ => ⟨s, rfl, hs⟩
  | i :: is, s, hs, hok => by
      obtain ⟨m, hm, hinv⟩ := hstep s i hs (hok i List.mem_cons_self)
      obtain ⟨s', hrun, hs'⟩ := exists_run Inv hstep is m hinv
        fun j hj => hok j (List.mem_cons_of_mem i hj)
      exact ⟨s', by rw [run_cons, hm, Option.bind_some, hrun], hs'⟩

/-- A step that has a result exactly under a condition on what a total step keeps track of: so has a
    run that meets the condition. -/
theorem run_iff_meets {τ : Type*} {step : σ → ι → Option σ} {track : τ → ι → τ} {ok : τ → ι → Prop}
    (R : σ → τ → Prop)
    (hstep : ∀ s t i, R s t → ok t i → ∃ s', step s i = some s' ∧ R s' (track t i))
    (hstop : ∀ s t i, R s t → ¬ ok t i → step s i = none) :
    ∀ {is : List ι} {s : σ} {t : τ}, R s t →
      ((∃ s', run step s is = some s') ↔ Meets (fun t i => some (track t i)) ok t is)
  | [], s, _, _ => iff_of_true ⟨s, rfl⟩ trivial
  | i :: is, s, t, hs => by
      by_cases hok : ok t i
      · obtain ⟨s', hs', hr⟩ := hstep s t i hs hok
        rw [run_cons, hs', Option.bind_some, run_iff_meets R hstep hstop hr]
        exact ⟨fun h => .cons rfl hok h, fun h => h.2 _ rfl⟩
      · rw [run_cons, hstop s t i hs hok]
        exact iff_of_false (fun ⟨_, h⟩ => by cases h) fun h => hok h.1

/-- What a run has tracked stays related to its state. -/
theorem related_of_run {τ : Type*} {step : σ → ι → Option σ} {track : τ → ι → τ} (R : σ → τ → Prop)
    (hstep : ∀ s t i s', R s t → step s i = some s' → R s' (track t i)) :
    ∀ {is : List ι} {s s' : σ} {t : τ}, R s t → run step s is = some s' → R s' (is.foldl track t)
  | [], _, _, _, hs, h => Option.some.inj h ▸ hs
  | i :: _, s, _, t, hs, h => by
      obtain ⟨m, hm, h⟩ := Option.bind_eq_some_iff.mp h
      rw [List.foldl_cons]
      exact related_of_run R hstep (hstep s t i m hs hm) h

/-- Steps that use up what is left bound the length of a run. -/
theorem length_le_of_decreases {step : σ → ι → Option σ} {ok : ι → Prop} (Left : Nat → σ → Prop)
    (hstep : ∀ n s i s', Left n s → ok i → step s i = some s' → ∃ n' < n, Left n' s') :
    ∀ (is : List ι) (n : Nat) (s : σ), Left n s → (∀ i ∈ is, ok i) → (run step s is).isSome →
      is.length ≤ n
  | [], n, _, _, _, _ => Nat.zero_le n
  | i :: is, n, s, hs, hok, hrun => by
      obtain ⟨s₁, hs₁⟩ := Option.isSome_iff_exists.mp hrun
      obtain ⟨s', hi, hrest⟩ := Option.bind_eq_some_iff.mp hs₁
      obtain ⟨n', hlt, hs'⟩ := hstep n s i s' hs (hok i List.mem_cons_self) hi
      have hle := length_le_of_decreases Left hstep is n' s' hs'
        (fun j hj => hok j (List.mem_cons_of_mem _ hj)) (by rw [hrest]; rfl)
      exact Nat.succ_le_of_lt (Nat.lt_of_le_of_lt hle hlt)

/-- A mark that bounds a size and only rises to the size: it is the greatest size of the run. -/
theorem run_isGreatest {step : σ → ι → Option σ} {ok : ι → Prop} {size : σ → Nat → Prop}
    {mark : σ → Nat} (Inv : σ → Prop) (hbound : ∀ s n, Inv s → size s n → n ≤ mark s)
    (hstep : ∀ s i s', Inv s → ok i → step s i = some s' → Inv s' ∧
      (mark s' = mark s ∨ mark s ≤ mark s' ∧ size s' (mark s')))
    {s : σ} (hs : Inv s) (hsize : size s (mark s)) {is : List ι} {s' : σ} (hok : ∀ i ∈ is, ok i)
    (hrun : run step s is = some s') :
    Inv s' ∧ IsGreatest {n | ∃ before s₁, before <+: is ∧ run step s before = some s₁ ∧ size s₁ n}
      (mark s') := by
  induction is using List.reverseRecOn generalizing s' with
  | nil =>
    obtain rfl := Option.some.inj hrun
    refine ⟨hs, ⟨[], s, List.prefix_rfl, rfl, hsize⟩, ?_⟩
    rintro n ⟨before, s₁, hbefore, hrun₁, hn⟩
    obtain rfl := List.prefix_nil.mp hbefore
    obtain rfl := Option.some.inj hrun₁
    exact hbound s n hs hn
  | append_singleton is i ih =>
    have hlast := hrun
    rw [run_append, Option.bind_eq_some_iff] at hlast
    obtain ⟨m, hm, hlast⟩ := hlast
    rw [run_cons, Option.bind_eq_some_iff] at hlast
    obtain ⟨m', hi, hm'⟩ := hlast
    obtain rfl := Option.some.inj hm'
    obtain ⟨hinv, ⟨before, s₁, hbefore, hrun₁, hn⟩, hupper⟩ :=
      ih (fun j hj => hok j (List.mem_append_left _ hj)) hm
    obtain ⟨hinv', hmark⟩ := hstep m i m' hinv (hok i (by simp)) hi
    refine ⟨hinv', ?_, ?_⟩
    · rcases hmark with heq | ⟨-, hnew⟩
      · exact ⟨before, s₁, hbefore.trans (List.prefix_append ..), hrun₁, heq.symm ▸ hn⟩
      · exact ⟨is ++ [i], m', List.prefix_rfl, hrun, hnew⟩
    · rintro n ⟨before', s₂, hbefore', hrun₂, hn'⟩
      rcases List.prefix_concat_iff.mp hbefore' with rfl | hbefore'
      · obtain rfl := Option.some.inj (hrun.symm.trans hrun₂)
        exact hbound _ n hinv' hn'
      · have hle := hupper ⟨before', s₂, hbefore', hrun₂, hn'⟩
        rcases hmark with heq | ⟨hrise, -⟩
        · exact heq.symm ▸ hle
        · exact Nat.le_trans hle hrise

/-- A counting loop: what holds before round `k` holds before the next one after it. -/
theorem foldlM_range {f : σ → Nat → Option σ} {P : Nat → σ → Prop} {n : Nat}
    (hstep : ∀ k, k < n → ∀ s, P k s → ∃ s', f s k = some s' ∧ P (k + 1) s') {s : σ} (hs : P 0 s) :
    ∃ s', (List.range n).foldlM f s = some s' ∧ P n s' := by
  induction n with
  | zero => exact ⟨s, rfl, hs⟩
  | succ n ih =>
    obtain ⟨s₁, h₁, hs₁⟩ := ih fun k hk => hstep k (Nat.lt_succ_of_lt hk)
    obtain ⟨s', h', hs'⟩ := hstep n (Nat.lt_succ_self n) s₁ hs₁
    refine ⟨s', ?_, hs'⟩
    rw [List.range_succ, List.foldlM_append, h₁]
    simp [h']

/-! ## One partial computation -/

/-- Whatever `x` results in satisfies `P`, and it has a result when `ret` holds. -/
structure Ensures {α : Type u} (ret : Prop) (x : Option α) (P : α → Prop) : Prop where
  sound : ∀ a, x = some a → P a
  returns : ret → ∃ a, x = some a

namespace Ensures

variable {α : Type u} {β : Type v} {ret : Prop} {x : Option α} {P Q : α → Prop}

theorem some {a : α} (h : P a) : Ensures ret (some a) P :=
  ⟨fun _ he => Option.some.inj he ▸ h, fun _ => ⟨a, rfl⟩⟩

theorem bind {f : α → Option β} {R : β → Prop} (hx : Ensures ret x P)
    (hf : ∀ a, P a → Ensures ret (f a) R) : Ensures ret (x.bind f) R where
  sound := by
    intro b hb
    obtain ⟨a, ha, hb⟩ := Option.bind_eq_some_iff.mp hb
    exact (hf a (hx.sound a ha)).sound b hb
  returns := by
    intro hret
    obtain ⟨a, ha⟩ := hx.returns hret
    rw [ha]
    exact (hf a (hx.sound a ha)).returns hret

theorem mono (hx : Ensures ret x P) (h : ∀ a, P a → Q a) : Ensures ret x Q :=
  ⟨fun a ha => h a (hx.sound a ha), hx.returns⟩

end Ensures

end Run
