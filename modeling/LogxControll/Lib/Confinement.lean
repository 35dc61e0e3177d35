/-
  Propagation networks without cycles, whose nodes drive any number of wires.

  What starts at a node stays among the nodes it leads to (`notify_confined`). Without cycles it
  never comes back, so that an execution changes neither what the node itself reads nor what it
  has driven already, and the node is settled in the end (`notify_settles_of_acyclic`).
-/
import LogxControll.Lib.Propagation

namespace Propagation

variable {N W V : Type*}

/-- From `s` to `s'` only nodes of `R` were at work: the wires they do not drive kept their
    values, and the queue grew by nodes of `R`, or is gone if there was none. -/
structure Net.Confined (net : Net N W V) (R : N → Prop) (s s' : State N W V) : Prop where
  kept : ∀ w, (∀ n, R n → w ∉ net.outputs n) → s'.value w = s.value w
  idle : s.queue = none → s'.queue = none
  queued : ∀ q, s.queue = some q → ∃ q', s'.queue = some (q ++ q') ∧ ∀ n ∈ q', R n

namespace Net.Confined

variable {net : Net N W V} {R R' : N → Prop} {s s' s'' : State N W V}

theorem of_eq (hv : s'.value = s.value) (hq : s'.queue = s.queue) : net.Confined R s s' where
  kept := fun w _ => congrFun hv w
  idle := fun h => hq.trans h
  queued := fun q h => ⟨[], by rw [hq, h, List.append_nil], by simp⟩

theorem trans (h : net.Confined R s s') (h' : net.Confined R s' s'') : net.Confined R s s'' where
  kept := fun w hw => (h'.kept w hw).trans (h.kept w hw)
  idle := fun hq => h'.idle (h.idle hq)
  queued := by
    intro q hq
    obtain ⟨q₁, hq₁, hr₁⟩ := h.queued q hq
    obtain ⟨q₂, hq₂, hr₂⟩ := h'.queued _ hq₁
    refine ⟨q₁ ++ q₂, by rw [hq₂, List.append_assoc], fun n hn => ?_⟩
    exact (List.mem_append.mp hn).elim (hr₁ n) (hr₂ n)

end Net.Confined

/-! ## Work stays among the nodes it leads to -/

section Confinement

variable {net : Net N W V} {R : N → Prop} {notify : N → State N W V → Option (State N W V)}

theorem notifyAll_confined
    (hnotify : ∀ n s s', R n → notify n s = some s' → net.Confined R s s') :
    ∀ {ns : List N} {s s' : State N W V}, (∀ n ∈ ns, R n) → notifyAll notify ns s = some s' →
      net.Confined R s s' := by
  intro ns
  induction ns with
  | nil =>
    intro s s' _ h
    obtain rfl := Option.some.inj h
    exact .of_eq rfl rfl
  | cons n ns ih =>
    intro s s' hall h
    obtain ⟨s₁, h₁, h⟩ := Option.bind_eq_some_iff.mp h
    have hfirst := hnotify n s s₁ (hall n List.mem_cons_self) h₁
    exact hfirst.trans (ih (fun m hm => hall m (List.mem_cons_of_mem _ hm)) h)

variable [DecidableEq W]

/-- Driving a wire, when `R` has its readers. -/
theorem drive_confined
    (hnotify : ∀ n s s', R n → notify n s = some s' → net.Confined R s s') {w : W} {v : V}
    {s s' : State N W V} (hread : ∀ n ∈ net.readers w, R n)
    (h : net.drive notify w v s = some s') : net.Confined R (s.set w v) s' :=
  notifyAll_confined hnotify hread h

/-- Driving the output wire of a node of `R`. -/
theorem drive_output_confined (hR : ∀ n m, R n → net.Feeds n m → R m)
    (hnotify : ∀ n s s', R n → notify n s = some s' → net.Confined R s s') {n : N} {w : W} {v : V}
    {s s' : State N W V} (hn : R n) (hw : w ∈ net.outputs n)
    (h : net.drive notify w v s = some s') : net.Confined R s s' := by
  have hafter := drive_confined hnotify (fun m hm => hR n m hn ⟨w, hw, hm⟩) h
  refine ⟨fun w' hw' => ?_, hafter.idle, hafter.queued⟩
  have hne : w' ≠ w := fun e => hw' n hn (e ▸ hw)
  rw [hafter.kept w' hw', s.set_value_ne hne]

theorem driveAll_confined (hR : ∀ n m, R n → net.Feeds n m → R m)
    (hnotify : ∀ n s s', R n → notify n s = some s' → net.Confined R s s') {n : N} (hn : R n) :
    ∀ {acts : List (W × V)} {s s' : State N W V}, (∀ a ∈ acts, a.1 ∈ net.outputs n) →
      net.driveAll notify acts s = some s' → net.Confined R s s' := by
  intro acts
  induction acts with
  | nil =>
    intro s s' _ h
    obtain rfl := Option.some.inj h
    exact .of_eq rfl rfl
  | cons a acts ih =>
    intro s s' hall h
    obtain ⟨s₁, h₁, h⟩ := Option.bind_eq_some_iff.mp h
    have hfirst := drive_output_confined hR hnotify hn (hall a List.mem_cons_self) h₁
    exact hfirst.trans (ih (fun a' ha' => hall a' (List.mem_cons_of_mem _ ha')) h)

theorem fire_confined (hwf : net.WellFormed) (hR : ∀ n m, R n → net.Feeds n m → R m)
    (hnotify : ∀ n s s', R n → notify n s = some s' → net.Confined R s s') {n : N} (hn : R n)
    {s s' : State N W V} (h : net.fire notify n s = some s') : net.Confined R s s' :=
  driveAll_confined hR hnotify hn
    (fun _ ha => (hwf.actions n _).subset (List.mem_map_of_mem ha)) h

/-- The queue is emptied of nodes of `R`, which leave only such nodes in it. -/
theorem drain_confined
    (hfire : ∀ n s s', R n → net.fire notify n s = some s' → net.Confined R s s') :
    ∀ {k : Nat} {n : N} {s s' : State N W V} {q : List N}, s.queue = some q → R n →
      (∀ m ∈ q, R m) → net.drain notify k n s = some s' →
      s'.queue = none ∧ ∀ w, (∀ m, R m → w ∉ net.outputs m) → s'.value w = s.value w := by
  intro k
  induction k with
  | zero =>
    intro n s s' q _ _ _ h
    cases h
  | succ k ih =>
    intro n s s' q hq hn hall h
    obtain ⟨s₁, h₁, h⟩ := Option.bind_eq_some_iff.mp h
    have hfirst := hfire n s s₁ hn h₁
    obtain ⟨q', hq', hall'⟩ := hfirst.queued q hq
    have hboth : ∀ m ∈ q ++ q', R m := fun m hm => (List.mem_append.mp hm).elim (hall m) (hall' m)
    simp only [hq'] at h
    split at h
    · cases h
    · obtain rfl := Option.some.inj h
      exact ⟨rfl, hfirst.kept⟩
    · next n' queue he =>
      rw [Option.some.inj he] at hboth
      obtain ⟨hnone, hkept⟩ := ih rfl (hboth n' List.mem_cons_self)
        (fun m hm => hboth m (List.mem_cons_of_mem _ hm)) h
      exact ⟨hnone, fun w hw => (hkept w hw).trans (hfirst.kept w hw)⟩

theorem notify_confined (hwf : net.WellFormed) (hR : ∀ n m, R n → net.Feeds n m → R m) :
    ∀ (k : Nat) (n : N) (s s' : State N W V), R n → net.notify k n s = some s' →
      net.Confined R s s' := by
  intro k
  induction k with
  | zero =>
    intro n s s' _ h
    cases h
  | succ k ih =>
    intro n s s' hn h
    have hfire : ∀ n s s', R n → net.fire (net.notify k) n s = some s' → net.Confined R s s' :=
      fun n s s' hn h => fire_confined hwf hR ih hn h
    unfold Net.notify at h
    split at h
    · split at h
      · next hq =>
        obtain ⟨hnone, hkept⟩ := drain_confined hfire rfl hn (by simp) h
        exact ⟨hkept, fun _ => hnone, fun q hq' => by simp [hq] at hq'⟩
      · next q hq =>
        obtain rfl := Option.some.inj h
        refine ⟨fun _ _ => rfl, fun hq' => by simp [hq] at hq', fun q' hq' => ?_⟩
        obtain rfl : q = q' := Option.some.inj (hq.symm.trans hq')
        exact ⟨[n], rfl, fun m hm => List.mem_singleton.mp hm ▸ hn⟩
    · exact hfire n s s' hn h

end Confinement

/-! ## Settling without cycles -/

section Settling

variable {net : Net N W V} {notify : N → State N W V → Option (State N W V)} [DecidableEq W]

/-- The nodes that a node leads to. -/
def Net.After (net : Net N W V) (n m : N) : Prop := Relation.TransGen net.Feeds n m

/-- The node, whose results are `acts`, has driven `before` and still has to drive `acts`: when
    that is done, every result is on its wire, and no other node is unsettled but those that
    wait in the queue. -/
theorem driveAll_settles (hwf : net.WellFormed) {n : N} (hn : ¬ net.After n n)
    (hsettles : ∀ m s s', notify m s = some s' → net.Settles [m] s s')
    (hconfined : ∀ m s s', net.After n m → notify m s = some s' → net.Confined (net.After n) s s') :
    ∀ {acts : List (W × V)} {s s' : State N W V}, (∀ a ∈ acts, a.1 ∈ net.outputs n) →
      (acts.map Prod.fst).Nodup → net.driveAll notify acts s = some s' →
      (s.queue = none → s'.queue = none) ∧
      (∀ q, s.queue = some q → ∃ q', s'.queue = some (q ++ q')) ∧
      (∀ m, m ≠ n → ¬ net.Settled s' m → ¬ net.Settled s m ∨ m ∈ s'.pending) ∧
      (∀ w, (∀ m, net.After n m → w ∉ net.outputs m) → w ∉ acts.map Prod.fst →
        s'.value w = s.value w) ∧
      ∀ a ∈ acts, s'.value a.1 = some a.2 := by
  intro acts
  induction acts with
  | nil =>
    intro s s' _ _ h
    obtain rfl := Option.some.inj h
    exact ⟨id, fun q hq => ⟨[], by rw [List.append_nil, hq]⟩, fun _ _ hm => .inl hm,
      fun _ _ _ => rfl, by simp⟩
  | cons a acts ih =>
    intro s s' hall hnodup h
    obtain ⟨w, v⟩ := a
    obtain ⟨s₁, h₁, h⟩ := Option.bind_eq_some_iff.mp h
    have hw : w ∈ net.outputs n := hall (w, v) List.mem_cons_self
    obtain ⟨hnew, hnodup⟩ := List.nodup_cons.mp hnodup
    have hset := notifyAll_settles hsettles h₁
    have hconf := drive_confined hconfined (fun m hm => Relation.TransGen.single ⟨w, hw, hm⟩) h₁
    obtain ⟨hidle, hqueued, hrest, hkept, hacts⟩ :=
      ih (fun a ha => hall a (List.mem_cons_of_mem _ ha)) hnodup h
    -- the wire is driven by `n` alone, which is not among the nodes after `n`
    have hown : ∀ m, net.After n m → w ∉ net.outputs m := by
      intro m hm hwm
      rw [hwf.driver m n w hwm hw] at hm
      exact hn hm
    have hpending : ∀ m ∈ s₁.pending, m ∈ s'.pending := by
      intro m hm
      unfold State.pending at hm ⊢
      cases hq : s₁.queue with
      | none => simp [hq] at hm
      | some q =>
        obtain ⟨q', hq'⟩ := hqueued q hq
        rw [hq, Option.getD_some] at hm
        rw [hq', Option.getD_some]
        exact List.mem_append_left _ hm
    refine ⟨fun hq => hidle (hset.idle hq), ?_, ?_, ?_, ?_⟩
    · intro q hq
      obtain ⟨q₁, hq₁⟩ := hset.queued q hq
      obtain ⟨q₂, hq₂⟩ := hqueued _ hq₁
      exact ⟨q₁ ++ q₂, by rw [hq₂, List.append_assoc]⟩
    · intro m hm hns
      rcases hrest m hm hns with hns₁ | hp
      · rcases hset.unsettled m hns₁ with ⟨hr, hns₀⟩ | hp
        · have hin : w ∉ net.inputs m := fun e => hr ((hwf.readers w m).mpr e)
          have hout : w ∉ net.outputs m := fun e => hm (hwf.driver m n w e hw)
          exact .inl fun hs => hns₀ ((settled_set hwf hin hout).mpr hs)
        · exact .inr (hpending m hp)
      · exact .inr hp
    · intro w' hw' hnot
      simp only [List.map_cons, List.mem_cons, not_or] at hnot
      rw [hkept w' hw' hnot.2, hconf.kept w' hw', s.set_value_ne hnot.1]
    · intro a ha
      rcases List.mem_cons.mp ha with rfl | ha
      · rw [hkept w hown hnew, hconf.kept w hown, State.set_value_self]
      · exact hacts a ha

theorem fire_settles_of_acyclic (hwf : net.WellFormed) (hacyclic : ∀ n, ¬ net.After n n)
    (hnodup : ∀ n l, ((net.actions n l).map Prod.fst).Nodup)
    (hsettles : ∀ m s s', notify m s = some s' → net.Settles [m] s s')
    (hconfined : ∀ n m s s', net.After n m → notify m s = some s' →
      net.Confined (net.After n) s s') {n : N} {s s' : State N W V}
    (h : net.fire notify n s = some s') : net.Settles [n] s s' := by
  have hout : ∀ a ∈ net.actions n (net.read s n), a.1 ∈ net.outputs n :=
    fun a ha => (hwf.actions n _).subset (List.mem_map_of_mem ha)
  obtain ⟨hidle, hqueued, hrest, hkept, hacts⟩ :=
    driveAll_settles hwf (hacyclic n) hsettles (hconfined n) hout (hnodup n _) h
  refine ⟨hidle, hqueued, fun m hm => ?_⟩
  by_cases he : m = n
  swap
  · rcases hrest m he hm with hns | hp
    · exact .inl ⟨fun e => he (List.mem_singleton.mp e), hns⟩
    · exact .inr hp
  -- the node reads what it read before, and its results are on the wires
  subst he
  refine absurd (fun _ => ?_) hm
  have hread : net.read s' m = net.read s m := by
    apply List.map_congr_left
    intro w hw
    apply hkept w
    · intro m' hm' hw'
      exact hacyclic m (hm'.tail ⟨w, hw', (hwf.readers w m).mpr hw⟩)
    · intro hw'
      obtain ⟨a, ha, rfl⟩ := List.mem_map.mp hw'
      exact hacyclic m (.single ⟨a.1, hout a ha, (hwf.readers a.1 m).mpr hw⟩)
  rw [hread]
  exact hacts

/-- A notified node is settled in the end, or waits in the queue. -/
theorem notify_settles_of_acyclic (hwf : net.WellFormed) (hacyclic : ∀ n, ¬ net.After n n)
    (hnodup : ∀ n l, ((net.actions n l).map Prod.fst).Nodup) :
    ∀ (k : Nat) (n : N) (s s' : State N W V), net.notify k n s = some s' →
      net.Settles [n] s s' := by
  refine notify_settles_of_fire fun k ih n s s' h => ?_
  refine fire_settles_of_acyclic hwf hacyclic hnodup ih (fun n m s s' hm hs => ?_) h
  exact notify_confined hwf (fun _ _ h hf => Relation.TransGen.tail h hf) k m s s' hm hs

end Settling

end Propagation
