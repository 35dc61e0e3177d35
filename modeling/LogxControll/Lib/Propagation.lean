/-
  Propagation networks: nodes that recompute wires when a wire they read is driven.

  Driving a wire notifies the nodes that read it, one after the other, each to the end before
  the next. A notified node is executed, and executing it drives wires again. A node that breaks
  loops is executed by a queue instead: the first one empties the queue, the ones notified
  meanwhile only enter it. Depth and number of queued executions are bounded by fuel.

  * `notify_settles`: when everything has returned, every node that was notified has its result
    on its output wires (`Settled`), whatever the order and the loops of the network.
  * `notify_returns`: with a budget for every node, which an acyclic network has
    (`exists_budget`), everything returns.
  * `settled_unique`: in an acyclic network the settled values are determined by the wires that
    no node drives.
-/
import Mathlib.Data.List.Basic
import Mathlib.Logic.Relation
import Mathlib.Order.WellFoundedSet
import Mathlib.Tactic

namespace Propagation

variable {N W V : Type*}

/-- `readers w` are the nodes that read wire `w`, in the order in which they are notified. What a
    node drives is a function of the values on its inputs. -/
structure Net (N W V : Type*) where
  inputs : N → List W
  outputs : N → List W
  readers : W → List N
  actions : N → List (Option V) → List (W × V)
  breaks : N → Bool

/-- The queue exists while a loop breaking node is at work. -/
structure State (N W V : Type*) where
  value : W → Option V
  queue : Option (List N)

/-- The nodes in the queue, if there is one. -/
def State.pending (s : State N W V) : List N := s.queue.getD []

/-- The values on the inputs of a node. -/
def Net.read (net : Net N W V) (s : State N W V) (n : N) : List (Option V) :=
  (net.inputs n).map s.value

/-! ## Execution -/

section Execution

variable [DecidableEq W] (net : Net N W V)

/-- A new value on a wire. -/
def State.set (s : State N W V) (w : W) (v : V) : State N W V :=
  { s with value := Function.update s.value w (some v) }

/-- The nodes are notified one after another. -/
def notifyAll (notify : N → State N W V → Option (State N W V)) :
    List N → State N W V → Option (State N W V)
  | [], s => some s
  | n :: ns, s => (notify n s).bind (notifyAll notify ns)

/-- The wire gets the value, then all that read it are notified. -/
def Net.drive (notify : N → State N W V → Option (State N W V)) (w : W) (v : V)
    (s : State N W V) : Option (State N W V) :=
  notifyAll notify (net.readers w) (s.set w v)

/-- The wires are driven one after another. -/
def Net.driveAll (notify : N → State N W V → Option (State N W V)) :
    List (W × V) → State N W V → Option (State N W V)
  | [], s => some s
  | (w, v) :: acts, s => (net.drive notify w v s).bind (Net.driveAll notify acts)

/-- A node drives what it makes of its inputs. -/
def Net.fire (notify : N → State N W V → Option (State N W V)) (n : N) (s : State N W V) :
    Option (State N W V) :=
  net.driveAll notify (net.actions n (net.read s n)) s

/-- Execute the node, then the queue, until it is empty. -/
def Net.drain (notify : N → State N W V → Option (State N W V)) :
    Nat → N → State N W V → Option (State N W V)
  | 0, _, _ => none
  | k + 1, n, s =>
    (net.fire notify n s).bind fun s =>
      match s.queue with
      | none => none
      | some [] => some { s with queue := none }
      | some (n' :: queue) => Net.drain notify k n' { s with queue := some queue }

/-- A node that breaks loops starts a queue and drains it, or waits in the one there is; every other
    node fires at once. -/
def Net.notify : Nat → N → State N W V → Option (State N W V)
  | 0, _, _ => none
  | k + 1, n, s =>
    if net.breaks n then
      match s.queue with
      | none => net.drain (Net.notify k) k n { s with queue := some [] }
      | some queue => some { s with queue := some (queue ++ [n]) }
    else
      net.fire (Net.notify k) n s

end Execution

/-! ## Networks -/

/-- The nodes notified are those that read, and no two nodes drive the same wire. -/
structure Net.WellFormed (net : Net N W V) : Prop where
  readers : ∀ w n, n ∈ net.readers w ↔ w ∈ net.inputs n
  actions : ∀ n l, ((net.actions n l).map Prod.fst).Sublist (net.outputs n)
  driver : ∀ n n' w, w ∈ net.outputs n → w ∈ net.outputs n' → n = n'

/-- `m` reads what `n` drives. -/
def Net.Feeds (net : Net N W V) (n m : N) : Prop := ∃ w ∈ net.outputs n, m ∈ net.readers w

/-- No node drives the wire. -/
def Net.Primary (net : Net N W V) (w : W) : Prop := ∀ n, w ∉ net.outputs n

/-- Some input of the node carries a value. -/
def Net.Live (net : Net N W V) (s : State N W V) (n : N) : Prop :=
  ∃ w ∈ net.inputs n, (s.value w).isSome

/-- The result of a live node is on its output wires. -/
def Net.Settled (net : Net N W V) (s : State N W V) (n : N) : Prop :=
  net.Live s n → ∀ a ∈ net.actions n (net.read s n), s.value a.1 = some a.2

section Set

variable [DecidableEq W] {net : Net N W V} {s : State N W V} {w : W} {v : V} {n : N}

@[simp] theorem State.set_queue (s : State N W V) (w : W) (v : V) : (s.set w v).queue = s.queue :=
  rfl

@[simp] theorem State.set_value_self (s : State N W V) (w : W) (v : V) :
    (s.set w v).value w = some v := Function.update_self ..

theorem State.set_value_ne (s : State N W V) {w w' : W} (h : w' ≠ w) (v : V) :
    (s.set w v).value w' = s.value w' := Function.update_of_ne h ..

/-- Driving a wire concerns the nodes that read it. -/
theorem read_set (hn : w ∉ net.inputs n) : net.read (s.set w v) n = net.read s n := by
  apply List.map_congr_left
  intro w' hw'
  exact s.set_value_ne (fun e : w' = w => hn (e ▸ hw')) v

theorem live_set (hn : w ∉ net.inputs n) : net.Live (s.set w v) n ↔ net.Live s n := by
  have h : ∀ w' ∈ net.inputs n, (s.set w v).value w' = s.value w' :=
    fun w' hw' => s.set_value_ne (fun e : w' = w => hn (e ▸ hw')) v
  constructor
  · intro ⟨w', hw', hv⟩
    exact ⟨w', hw', by rwa [h w' hw'] at hv⟩
  · intro ⟨w', hw', hv⟩
    exact ⟨w', hw', by rwa [h w' hw']⟩

/-- A node that neither reads nor drives the wire is settled as before. -/
theorem settled_set (h : net.WellFormed) (hr : w ∉ net.inputs n) (hw : w ∉ net.outputs n) :
    net.Settled (s.set w v) n ↔ net.Settled s n := by
  unfold Net.Settled
  rw [live_set hr, read_set hr]
  have hne : ∀ a ∈ net.actions n (net.read s n), (s.set w v).value a.1 = s.value a.1 := by
    intro a ha
    have hmem := (h.actions n _).subset (List.mem_map_of_mem ha)
    exact s.set_value_ne (fun e : a.1 = w => hw (e ▸ hmem)) v
  constructor
  · intro hs hl a ha
    rw [← hne a ha]
    exact hs hl a ha
  · intro hs hl a ha
    rw [hne a ha]
    exact hs hl a ha

end Set

/-! ## What is left unsettled waits in the queue -/

/-- From `s` to `s'` the nodes of `done` were settled, and no other node was unsettled, but for
    those that wait in the queue. The queue only grows, and is gone if there was none. -/
structure Net.Settles (net : Net N W V) (done : List N) (s s' : State N W V) : Prop where
  idle : s.queue = none → s'.queue = none
  queued : ∀ q, s.queue = some q → ∃ q', s'.queue = some (q ++ q')
  unsettled : ∀ n, ¬ net.Settled s' n → (n ∉ done ∧ ¬ net.Settled s n) ∨ n ∈ s'.pending

namespace Net.Settles

variable {net : Net N W V} {s s' s'' : State N W V} {done done' : List N}

theorem refl (net : Net N W V) (s : State N W V) : net.Settles [] s s where
  idle := id
  queued := fun q hq => ⟨[], by rw [List.append_nil, hq]⟩
  unsettled := fun n hn => .inl ⟨List.not_mem_nil, hn⟩

theorem pending_subset (h : net.Settles done s s') {n : N} (hn : n ∈ s.pending) :
    n ∈ s'.pending := by
  unfold State.pending at hn ⊢
  cases hq : s.queue with
  | none => simp [hq] at hn
  | some q =>
    obtain ⟨q', hq'⟩ := h.queued q hq
    rw [hq, Option.getD_some] at hn
    rw [hq', Option.getD_some]
    exact List.mem_append_left _ hn

theorem trans (h : net.Settles done s s') (h' : net.Settles done' s' s'') :
    net.Settles (done ++ done') s s'' where
  idle := fun hq => h'.idle (h.idle hq)
  queued := by
    intro q hq
    obtain ⟨q₁, hq₁⟩ := h.queued q hq
    obtain ⟨q₂, hq₂⟩ := h'.queued _ hq₁
    exact ⟨q₁ ++ q₂, by rw [hq₂, List.append_assoc]⟩
  unsettled := by
    intro n hn
    rcases h'.unsettled n hn with ⟨hd', hn'⟩ | hp
    · rcases h.unsettled n hn' with ⟨hd, hn⟩ | hp
      · exact .inl ⟨fun hm => (List.mem_append.mp hm).elim hd hd', hn⟩
      · exact .inr (h'.pending_subset hp)
    · exact .inr hp

end Net.Settles

section Quiescence

variable {net : Net N W V} {notify : N → State N W V → Option (State N W V)}

theorem notifyAll_settles (hnotify : ∀ n s s', notify n s = some s' → net.Settles [n] s s') :
    ∀ {ns : List N} {s s' : State N W V}, notifyAll notify ns s = some s' →
      net.Settles ns s s' := by
  intro ns
  induction ns with
  | nil =>
    intro s s' h
    obtain rfl := Option.some.inj h
    exact .refl net s
  | cons n ns ih =>
    intro s s' h
    obtain ⟨s₁, h₁, h⟩ := Option.bind_eq_some_iff.mp h
    exact (hnotify n s s₁ h₁).trans (ih h)

variable [DecidableEq W]

/-- Driving a wire settles its readers; nodes that were settled before stay so, but perhaps for
    the one that drives the wire. -/
theorem drive_settles (hwf : net.WellFormed)
    (hnotify : ∀ n s s', notify n s = some s' → net.Settles [n] s s') {w : W} {v : V}
    {s s' : State N W V} (h : net.drive notify w v s = some s') {done : List N}
    (hdone : ∀ n, ¬ net.Settled (s.set w v) n → n ∉ net.readers w → w ∈ net.outputs n ∨ n ∈ done →
      n ∉ done ∧ ¬ net.Settled s n) : net.Settles done s s' := by
  have hall := notifyAll_settles hnotify h
  refine ⟨hall.idle, hall.queued, ?_⟩
  intro n hn
  rcases hall.unsettled n hn with ⟨hr, hn₁⟩ | hp
  · by_cases hcase : w ∈ net.outputs n ∨ n ∈ done
    · exact .inl (hdone n hn₁ hr hcase)
    · rw [not_or] at hcase
      have hin : w ∉ net.inputs n := fun e => hr ((hwf.readers w n).mpr e)
      exact .inl ⟨hcase.2, fun hs => hn₁ ((settled_set hwf hin hcase.1).mpr hs)⟩
  · exact .inr hp

/-- Driving a wire from outside. -/
theorem drive_primary_settles (hwf : net.WellFormed)
    (hnotify : ∀ n s s', notify n s = some s' → net.Settles [n] s s') {w : W}
    (hw : net.Primary w) {v : V} {s s' : State N W V} (h : net.drive notify w v s = some s') :
    net.Settles [] s s' := by
  apply drive_settles hwf hnotify h
  intro n _ _ hcase
  rcases hcase with hcase | hcase
  · exact absurd hcase (hw n)
  · exact absurd hcase List.not_mem_nil

/-- A node with at most one result is settled by its execution. -/
theorem fire_settles (hwf : net.WellFormed) (hsingle : ∀ n l, (net.actions n l).length ≤ 1)
    (hnotify : ∀ n s s', notify n s = some s' → net.Settles [n] s s') {n : N}
    {s s' : State N W V} (h : net.fire notify n s = some s') : net.Settles [n] s s' := by
  unfold Net.fire at h
  have hlen := hsingle n (net.read s n)
  cases hacts : net.actions n (net.read s n) with
  | nil =>
    rw [hacts] at h
    obtain rfl := Option.some.inj h
    refine ⟨id, fun q hq => ⟨[], by rw [List.append_nil, hq]⟩, ?_⟩
    intro m hm
    refine .inl ⟨?_, hm⟩
    intro he
    obtain rfl := List.mem_singleton.mp he
    exact hm (fun _ a ha => by simp [hacts] at ha)
  | cons a rest =>
    obtain rfl : rest = [] := by
      rw [hacts] at hlen
      exact List.length_eq_zero_iff.mp (by simpa using hlen)
    obtain ⟨w, v⟩ := a
    have hdrive : net.drive notify w v s = some s' := by
      rw [hacts] at h
      obtain ⟨s₁, h₁, h⟩ := Option.bind_eq_some_iff.mp h
      obtain rfl := Option.some.inj h
      exact h₁
    have hout : w ∈ net.outputs n := by
      have hsub := hwf.actions n (net.read s n)
      rw [hacts] at hsub
      exact hsub.subset (by simp)
    apply drive_settles hwf hnotify hdrive
    intro m hm hr hcase
    have hm' : m = n := by
      rcases hcase with hcase | hcase
      · exact hwf.driver m n w hcase hout
      · exact List.mem_singleton.mp hcase
    subst hm'
    -- the node does not read the wire, so it computes the same again, which is on the wire now
    refine absurd ?_ hm
    have hin : w ∉ net.inputs m := fun e => hr ((hwf.readers w m).mpr e)
    intro _ a ha
    rw [read_set hin, hacts, List.mem_singleton] at ha
    rw [ha, State.set_value_self]

theorem drain_settles (hfire : ∀ n s s', net.fire notify n s = some s' → net.Settles [n] s s') :
    ∀ {k : Nat} {n : N} {s s' : State N W V} {q : List N}, s.queue = some q →
      net.drain notify k n s = some s' →
      s'.queue = none ∧ ∀ m, ¬ net.Settled s' m → m ≠ n ∧ m ∉ q ∧ ¬ net.Settled s m := by
  intro k
  induction k with
  | zero =>
    intro n s s' q _ h
    cases h
  | succ k ih =>
    intro n s s' q hq h
    obtain ⟨s₁, h₁, h⟩ := Option.bind_eq_some_iff.mp h
    have hs₁ := hfire n s s₁ h₁
    obtain ⟨q', hq'⟩ := hs₁.queued q hq
    have hback : ∀ m, ¬ net.Settled s₁ m → m ∉ q ++ q' → m ≠ n ∧ ¬ net.Settled s m := by
      intro m hm hnot
      rcases hs₁.unsettled m hm with ⟨hd, hm'⟩ | hp
      · exact ⟨fun e => hd (List.mem_singleton.mpr e), hm'⟩
      · rw [State.pending, hq', Option.getD_some] at hp
        exact absurd hp hnot
    simp only [hq'] at h
    split at h
    · next he => cases he
    · next he =>
      obtain rfl := Option.some.inj h
      obtain ⟨rfl, rfl⟩ := List.append_eq_nil_iff.mp (Option.some.inj he)
      refine ⟨rfl, fun m hm => ?_⟩
      obtain ⟨hne, hm'⟩ := hback m hm List.not_mem_nil
      exact ⟨hne, List.not_mem_nil, hm'⟩
    · next n' queue he =>
      have he' : q ++ q' = n' :: queue := Option.some.inj he
      obtain ⟨hnone, hall⟩ := ih rfl h
      refine ⟨hnone, fun m hm => ?_⟩
      obtain ⟨hne', hnq, hm₁⟩ := hall m hm
      have hnot : m ∉ q ++ q' := by
        rw [he', List.mem_cons]
        exact fun e => e.elim hne' hnq
      obtain ⟨hne, hm'⟩ := hback m hm₁ hnot
      exact ⟨hne, fun e => hnot (List.mem_append_left _ e), hm'⟩

/-- If executing a node settles it, notifying it does, or leaves it in the queue. -/
theorem notify_settles_of_fire
    (hfire : ∀ k, (∀ n s s', net.notify k n s = some s' → net.Settles [n] s s') →
      ∀ n s s', net.fire (net.notify k) n s = some s' → net.Settles [n] s s') :
    ∀ (k : Nat) (n : N) (s s' : State N W V), net.notify k n s = some s' →
      net.Settles [n] s s' := by
  intro k
  induction k with
  | zero =>
    intro n s s' h
    cases h
  | succ k ih =>
    intro n s s' h
    unfold Net.notify at h
    split at h
    · split at h
      · next hq =>
        obtain ⟨hnone, hall⟩ := drain_settles (hfire k ih) rfl h
        refine ⟨fun _ => hnone, fun q hq' => by simp [hq] at hq', fun m hm => ?_⟩
        obtain ⟨hne, -, hm'⟩ := hall m hm
        exact .inl ⟨fun e => hne (List.mem_singleton.mp e), hm'⟩
      · next q hq =>
        obtain rfl := Option.some.inj h
        refine ⟨fun hq' => by simp [hq] at hq', ?_, ?_⟩
        · intro q' hq'
          obtain rfl : q = q' := Option.some.inj (hq.symm.trans hq')
          exact ⟨[n], rfl⟩
        · intro m hm
          by_cases he : m = n
          · exact .inr (by simp [State.pending, he])
          · exact .inl ⟨fun e => he (List.mem_singleton.mp e), hm⟩
    · exact hfire k ih n s s' h

theorem notify_settles (hwf : net.WellFormed) (hsingle : ∀ n l, (net.actions n l).length ≤ 1) :
    ∀ (k : Nat) (n : N) (s s' : State N W V), net.notify k n s = some s' →
      net.Settles [n] s s' :=
  notify_settles_of_fire fun _ ih _ _ _ h => fire_settles hwf hsingle ih h

end Quiescence

/-! ## Everything returns when every node has a budget -/

/-- Executing a node costs one, and what the nodes cost that it notifies. -/
def Net.Budget (net : Net N W V) (cost : N → Nat) : Prop :=
  ∀ n, 1 + (((net.outputs n).map fun w => ((net.readers w).map cost).sum).sum) ≤ cost n

/-- The queue grew by nodes that cost at most `b`. -/
structure Spends (cost : N → Nat) (b : Nat) (s s' : State N W V) : Prop where
  idle : s.queue = none → s'.queue = none
  queued : ∀ q, s.queue = some q → ∃ q', s'.queue = some (q ++ q') ∧ (q'.map cost).sum ≤ b

namespace Spends

variable {cost : N → Nat} {b b' : Nat} {s s' s'' : State N W V}

theorem of_queue_eq (h : s'.queue = s.queue) : Spends cost b s s' where
  idle := fun hq => h.trans hq
  queued := fun q hq => ⟨[], by rw [h, hq, List.append_nil], Nat.zero_le b⟩

theorem trans (h : Spends cost b s s') (h' : Spends cost b' s' s'') :
    Spends cost (b + b') s s'' where
  idle := fun hq => h'.idle (h.idle hq)
  queued := by
    intro q hq
    obtain ⟨q₁, hq₁, hb₁⟩ := h.queued q hq
    obtain ⟨q₂, hq₂, hb₂⟩ := h'.queued _ hq₁
    refine ⟨q₁ ++ q₂, by rw [hq₂, List.append_assoc], ?_⟩
    rw [List.map_append, List.sum_append]
    omega

theorem mono (h : Spends cost b s s') (hb : b ≤ b') : Spends cost b' s s' where
  idle := h.idle
  queued := by
    intro q hq
    obtain ⟨q', hq', hle⟩ := h.queued q hq
    exact ⟨q', hq', hle.trans hb⟩

end Spends

section Termination

variable {net : Net N W V} {notify : N → State N W V → Option (State N W V)} {cost : N → Nat}

theorem notifyAll_returns :
    ∀ (ns : List N) (s : State N W V),
      (∀ n ∈ ns, ∀ s, ∃ s', notify n s = some s' ∧ Spends cost (cost n) s s') →
      ∃ s', notifyAll notify ns s = some s' ∧ Spends cost (ns.map cost).sum s s' := by
  intro ns
  induction ns with
  | nil =>
    intro s _
    exact ⟨s, rfl, .of_queue_eq rfl⟩
  | cons n ns ih =>
    intro s hall
    obtain ⟨s₁, h₁, hb₁⟩ := hall n List.mem_cons_self s
    obtain ⟨s', h, hb⟩ := ih s₁ fun m hm => hall m (List.mem_cons_of_mem _ hm)
    refine ⟨s', ?_, ?_⟩
    · show (notify n s).bind _ = some s'
      rw [h₁, Option.bind_some, h]
    · rw [List.map_cons, List.sum_cons]
      exact hb₁.trans hb

variable [DecidableEq W]

theorem drive_returns {w : W} (v : V) (s : State N W V)
    (hall : ∀ n ∈ net.readers w, ∀ s, ∃ s', notify n s = some s' ∧ Spends cost (cost n) s s') :
    ∃ s', net.drive notify w v s = some s' ∧
      Spends cost ((net.readers w).map cost).sum s s' := by
  obtain ⟨s', h, hb⟩ := notifyAll_returns (net.readers w) (s.set w v) hall
  exact ⟨s', h, hb.idle, hb.queued⟩

theorem driveAll_returns :
    ∀ (acts : List (W × V)) (s : State N W V),
      (∀ a ∈ acts, ∀ n ∈ net.readers a.1, ∀ s, ∃ s', notify n s = some s' ∧
        Spends cost (cost n) s s') →
      ∃ s', net.driveAll notify acts s = some s' ∧
        Spends cost ((acts.map fun a => ((net.readers a.1).map cost).sum).sum) s s' := by
  intro acts
  induction acts with
  | nil =>
    intro s _
    exact ⟨s, rfl, .of_queue_eq rfl⟩
  | cons a acts ih =>
    intro s hall
    obtain ⟨s₁, h₁, hb₁⟩ := drive_returns a.2 s (hall a List.mem_cons_self)
    obtain ⟨s', h, hb⟩ := ih s₁ fun a' ha' => hall a' (List.mem_cons_of_mem _ ha')
    refine ⟨s', ?_, ?_⟩
    · show (net.drive notify a.1 a.2 s).bind _ = some s'
      rw [h₁, Option.bind_some, h]
    · rw [List.map_cons, List.sum_cons]
      exact hb₁.trans hb

/-- Executing a node notifies nodes of a smaller budget, and all together of a smaller budget. -/
theorem fire_returns (hwf : net.WellFormed) (hcost : net.Budget cost) (n : N)
    (hall : ∀ m, cost m < cost n → ∀ s, ∃ s', notify m s = some s' ∧ Spends cost (cost m) s s')
    (s : State N W V) :
    ∃ s', net.fire notify n s = some s' ∧ Spends cost (cost n - 1) s s' := by
  have hsub := hwf.actions n (net.read s n)
  have hbudget := hcost n
  have hless : ∀ a ∈ net.actions n (net.read s n), ∀ m ∈ net.readers a.1, cost m < cost n := by
    intro a ha m hm
    have hout := hsub.subset (List.mem_map_of_mem ha)
    have h1 : cost m ≤ ((net.readers a.1).map cost).sum :=
      List.le_sum_of_mem (List.mem_map_of_mem hm)
    have h2 : ((net.readers a.1).map cost).sum ≤
        ((net.outputs n).map fun w => ((net.readers w).map cost).sum).sum :=
      List.le_sum_of_mem (List.mem_map.mpr ⟨a.1, hout, rfl⟩)
    omega
  obtain ⟨s', h, hb⟩ := driveAll_returns (net.actions n (net.read s n)) s
    fun a ha m hm => hall m (hless a ha m hm)
  refine ⟨s', h, hb.mono ?_⟩
  have hsum : ((net.actions n (net.read s n)).map fun a => ((net.readers a.1).map cost).sum).sum ≤
      ((net.outputs n).map fun w => ((net.readers w).map cost).sum).sum := by
    have hsub' := hsub.map fun w => ((net.readers w).map cost).sum
    rw [List.map_map] at hsub'
    exact hsub'.sum_le_sum fun _ _ => Nat.zero_le _
  omega

/-- The queue is emptied in as many executions as its nodes cost. -/
theorem drain_returns {f : Nat} (hpos : ∀ n, 0 < cost n)
    (hfire : ∀ n, cost n ≤ f → ∀ s, ∃ s', net.fire notify n s = some s' ∧
      Spends cost (cost n - 1) s s') :
    ∀ (k : Nat) (n : N) (s : State N W V) (q : List N), s.queue = some q →
      cost n + (q.map cost).sum ≤ k → k ≤ f →
      ∃ s', net.drain notify k n s = some s' ∧ s'.queue = none := by
  intro k
  induction k with
  | zero =>
    intro n s q _ hle _
    have := hpos n
    omega
  | succ k ih =>
    intro n s q hq hle hf
    have hn := hpos n
    obtain ⟨s₁, h₁, hb₁⟩ := hfire n (by omega) s
    obtain ⟨q', hq', hsum⟩ := hb₁.queued q hq
    unfold Net.drain
    rw [h₁, Option.bind_some, hq']
    cases he : q ++ q' with
    | nil => exact ⟨_, rfl, rfl⟩
    | cons n' queue =>
      have hcost : cost n' + (queue.map cost).sum = (q.map cost).sum + (q'.map cost).sum := by
        rw [← List.sum_append, ← List.map_append, he, List.map_cons, List.sum_cons]
      exact ih n' _ queue rfl (by omega) (by omega)

theorem notify_returns (hwf : net.WellFormed) (hcost : net.Budget cost) :
    ∀ (k : Nat) (n : N), cost n < k → ∀ s : State N W V,
      ∃ s', net.notify k n s = some s' ∧ Spends cost (cost n) s s' := by
  have hpos : ∀ n, 0 < cost n := fun n => by
    have := hcost n
    omega
  intro k
  induction k with
  | zero =>
    intro n hn
    omega
  | succ k ih =>
    intro n hn s
    have hfire : ∀ m, cost m ≤ k → ∀ s, ∃ s', net.fire (net.notify k) m s = some s' ∧
        Spends cost (cost m - 1) s s' := by
      intro m hm
      apply fire_returns hwf hcost
      intro m' hm'
      exact ih m' (by omega)
    unfold Net.notify
    split
    · cases hq : s.queue with
      | none =>
        obtain ⟨s', h, hnone⟩ := drain_returns hpos hfire k n { s with queue := some [] } [] rfl
          (by simpa using Nat.lt_succ_iff.mp hn) le_rfl
        exact ⟨s', h, fun _ => hnone, fun q hq' => by simp [hq] at hq'⟩
      | some q =>
        refine ⟨_, rfl, fun hq' => by simp [hq] at hq', fun q' hq' => ?_⟩
        obtain rfl : q = q' := Option.some.inj (hq.symm.trans hq')
        exact ⟨[n], rfl, by simp⟩
    · obtain ⟨s', h, hb⟩ := hfire n (by omega) s
      exact ⟨s', h, hb.mono (Nat.sub_le _ _)⟩

end Termination

/-- Where no infinite chain of nodes feeds from one to the next, every node has a budget. -/
theorem exists_budget (net : Net N W V) (hwf : WellFounded fun m n => net.Feeds n m) :
    ∃ cost, net.Budget cost := by
  classical
  let cost : N → Nat := hwf.fix fun n rec =>
    1 + ((net.outputs n).map fun w => ((net.readers w).map fun m =>
      if h : net.Feeds n m then rec m h else 0).sum).sum
  refine ⟨cost, fun n => ?_⟩
  have hfix : cost n = 1 + ((net.outputs n).map fun w => ((net.readers w).map fun m =>
      if _h : net.Feeds n m then cost m else 0).sum).sum := hwf.fix_eq _ n
  rw [hfix]
  apply Nat.add_le_add_left
  apply le_of_eq
  congr 1
  apply List.map_congr_left
  intro w hw
  congr 1
  apply List.map_congr_left
  intro m hm
  rw [dif_pos ⟨w, hw, hm⟩]

/-! ## The settled values of an acyclic network -/

/-- More values on the inputs: no wire is driven less. -/
def Net.Monotone (net : Net N W V) : Prop :=
  ∀ n l l', List.Forall₂ (fun a b : Option V => a.isSome → b.isSome) l l' →
    (net.actions n l).map Prod.fst ⊆ (net.actions n l').map Prod.fst

/-- A live node that has a result for the wire. -/
def Net.Drives (net : Net N W V) (s : State N W V) (n : N) (w : W) : Prop :=
  net.Live s n ∧ w ∈ (net.actions n (net.read s n)).map Prod.fst

/-- A value on an output wire comes from its node, and the nodes in the queue are live. -/
structure Net.Sane (net : Net N W V) (s : State N W V) : Prop where
  explained : ∀ n w, w ∈ net.outputs n → (s.value w).isSome → net.Drives s n w
  waiting : ∀ n ∈ s.pending, net.Live s n

/-- From `s` to `s'` the primary wires kept their values, and no wire lost its value. -/
structure Net.Evolves (net : Net N W V) (s s' : State N W V) : Prop where
  kept : ∀ w, net.Primary w → s'.value w = s.value w
  present : ∀ w, (s.value w).isSome → (s'.value w).isSome
  sane : net.Sane s'

section Evolution

variable {net : Net N W V} {s s' s'' : State N W V}

theorem Net.Evolves.trans (h : net.Evolves s s') (h' : net.Evolves s' s'') :
    net.Evolves s s'' where
  kept := fun w hw => (h'.kept w hw).trans (h.kept w hw)
  present := fun w hw => h'.present w (h.present w hw)
  sane := h'.sane

theorem Net.Live.mono {n : N} (h : net.Live s n)
    (hp : ∀ w, (s.value w).isSome → (s'.value w).isSome) : net.Live s' n := by
  obtain ⟨w, hw, hv⟩ := h
  exact ⟨w, hw, hp w hv⟩

theorem Net.Drives.mono (hmono : net.Monotone) {n : N} {w : W} (h : net.Drives s n w)
    (hp : ∀ w, (s.value w).isSome → (s'.value w).isSome) : net.Drives s' n w := by
  refine ⟨h.1.mono hp, hmono n (net.read s n) _ ?_ h.2⟩
  unfold Net.read
  rw [List.forall₂_map_left_iff, List.forall₂_map_right_iff]
  exact List.forall₂_same.mpr fun w' _ => hp w'

variable {notify : N → State N W V → Option (State N W V)}

theorem notifyAll_evolves
    (hnotify : ∀ n s s', net.Sane s → net.Live s n → notify n s = some s' → net.Evolves s s') :
    ∀ {ns : List N} {s s' : State N W V}, net.Sane s → (∀ n ∈ ns, net.Live s n) →
      notifyAll notify ns s = some s' → net.Evolves s s' := by
  intro ns
  induction ns with
  | nil =>
    intro s s' hs _ h
    obtain rfl := Option.some.inj h
    exact ⟨fun _ _ => rfl, fun _ => id, hs⟩
  | cons n ns ih =>
    intro s s' hs hlive h
    obtain ⟨s₁, h₁, h⟩ := Option.bind_eq_some_iff.mp h
    have hev := hnotify n s s₁ hs (hlive n List.mem_cons_self) h₁
    refine hev.trans (ih hev.sane ?_ h)
    intro m hm
    exact (hlive m (List.mem_cons_of_mem _ hm)).mono hev.present

variable [DecidableEq W]

theorem set_present (s : State N W V) (w : W) (v : V) (w' : W) (h : (s.value w').isSome) :
    ((s.set w v).value w').isSome := by
  by_cases he : w' = w
  · rw [he, State.set_value_self]
    rfl
  · rwa [s.set_value_ne he]

/-- A wire is driven from outside, or by its node. -/
theorem set_sane (hwf : net.WellFormed) (hmono : net.Monotone) {w : W} (v : V) (hs : net.Sane s)
    (hw : net.Primary w ∨ ∃ n, net.Drives s n w) : net.Sane (s.set w v) where
  explained := by
    intro n w' hout hv
    by_cases he : w' = w
    · subst he
      rcases hw with hw | ⟨m, hm⟩
      · exact absurd hout (hw n)
      · obtain rfl := hwf.driver n m w' hout ((hwf.actions m _).subset hm.2)
        exact hm.mono hmono (set_present s w' v)
    · rw [s.set_value_ne he] at hv
      exact (hs.explained n w' hout hv).mono hmono (set_present s w v)
  waiting := fun n hn => (hs.waiting n hn).mono (set_present s w v)

theorem drive_evolves (hwf : net.WellFormed) (hmono : net.Monotone)
    (hnotify : ∀ n s s', net.Sane s → net.Live s n → notify n s = some s' → net.Evolves s s')
    {w : W} {v : V} (hs : net.Sane s) (hw : net.Primary w ∨ ∃ n, net.Drives s n w)
    (h : net.drive notify w v s = some s') : net.Evolves (s.set w v) s' := by
  apply notifyAll_evolves hnotify (set_sane hwf hmono v hs hw) ?_ h
  intro n hn
  exact ⟨w, (hwf.readers w n).mp hn, by rw [State.set_value_self]; rfl⟩

theorem driveAll_evolves (hwf : net.WellFormed) (hmono : net.Monotone)
    (hnotify : ∀ n s s', net.Sane s → net.Live s n → notify n s = some s' → net.Evolves s s') :
    ∀ {acts : List (W × V)} {s s' : State N W V}, net.Sane s →
      (∀ a ∈ acts, ∃ n, net.Drives s n a.1) → net.driveAll notify acts s = some s' →
      net.Evolves s s' := by
  intro acts
  induction acts with
  | nil =>
    intro s s' hs _ h
    obtain rfl := Option.some.inj h
    exact ⟨fun _ _ => rfl, fun _ => id, hs⟩
  | cons a acts ih =>
    intro s s' hs hall h
    obtain ⟨s₁, h₁, h⟩ := Option.bind_eq_some_iff.mp h
    obtain ⟨n, hn⟩ := hall a List.mem_cons_self
    have hdrive := drive_evolves hwf hmono hnotify hs (.inr ⟨n, hn⟩) h₁
    have hev : net.Evolves s s₁ := by
      refine ⟨fun w hw => ?_, fun w hv => hdrive.present w (set_present s a.1 a.2 w hv),
        hdrive.sane⟩
      have hne : w ≠ a.1 := by
        intro e
        exact hw n (e ▸ (hwf.actions n _).subset hn.2)
      rw [hdrive.kept w hw, s.set_value_ne hne]
    refine hev.trans (ih hev.sane ?_ h)
    intro a' ha'
    obtain ⟨m, hm⟩ := hall a' (List.mem_cons_of_mem _ ha')
    exact ⟨m, hm.mono hmono hev.present⟩

theorem fire_evolves (hwf : net.WellFormed) (hmono : net.Monotone)
    (hnotify : ∀ n s s', net.Sane s → net.Live s n → notify n s = some s' → net.Evolves s s')
    {n : N} (hs : net.Sane s) (hn : net.Live s n) (h : net.fire notify n s = some s') :
    net.Evolves s s' :=
  driveAll_evolves hwf hmono hnotify hs
    (fun _ ha => ⟨n, hn, List.mem_map_of_mem ha⟩) h

theorem drain_evolves
    (hfire : ∀ n s s', net.Sane s → net.Live s n → net.fire notify n s = some s' →
      net.Evolves s s') :
    ∀ {k : Nat} {n : N} {s s' : State N W V}, net.Sane s → net.Live s n →
      net.drain notify k n s = some s' → net.Evolves s s' := by
  intro k
  induction k with
  | zero =>
    intro n s s' _ _ h
    cases h
  | succ k ih =>
    intro n s s' hs hn h
    obtain ⟨s₁, h₁, h⟩ := Option.bind_eq_some_iff.mp h
    have hev := hfire n s s₁ hs hn h₁
    split at h
    · cases h
    · obtain rfl := Option.some.inj h
      exact ⟨hev.kept, hev.present, hev.sane.explained, by simp [State.pending]⟩
    · next n' queue hq =>
      have hwait : ∀ m ∈ n' :: queue, net.Live s₁ m := by
        intro m hm
        apply hev.sane.waiting
        rwa [State.pending, hq]
      have hsane : net.Sane { s₁ with queue := some queue } :=
        ⟨hev.sane.explained, fun m hm => hwait m (List.mem_cons_of_mem _ hm)⟩
      have hrest := ih hsane (hwait n' List.mem_cons_self) h
      exact ⟨fun w hw => (hrest.kept w hw).trans (hev.kept w hw),
        fun w hv => hrest.present w (hev.present w hv), hrest.sane⟩

theorem notify_evolves (hwf : net.WellFormed) (hmono : net.Monotone) :
    ∀ (k : Nat) (n : N) (s s' : State N W V), net.Sane s → net.Live s n →
      net.notify k n s = some s' → net.Evolves s s' := by
  intro k
  induction k with
  | zero =>
    intro n s s' _ _ h
    cases h
  | succ k ih =>
    intro n s s' hs hn h
    have hfire : ∀ n s s', net.Sane s → net.Live s n →
        net.fire (net.notify k) n s = some s' → net.Evolves s s' :=
      fun n s s' hs hn h => fire_evolves hwf hmono ih hs hn h
    unfold Net.notify at h
    split at h
    · split at h
      · next hq =>
        have hsane : net.Sane { s with queue := some [] } :=
          ⟨hs.explained, by simp [State.pending]⟩
        have hev := drain_evolves hfire hsane hn h
        exact ⟨hev.kept, hev.present, hev.sane⟩
      · next q hq =>
        obtain rfl := Option.some.inj h
        refine ⟨fun _ _ => rfl, fun _ => id, hs.explained, ?_⟩
        intro m hm
        rcases List.mem_append.mp hm with hm | hm
        · exact hs.waiting m (by rwa [State.pending, hq])
        · exact List.mem_singleton.mp hm ▸ hn
    · exact hfire n s s' hs hn h

end Evolution

/-- Two networks that differ in the order of notification and in the loop breaking nodes only
    settle on the same values, when their primary wires carry the same. -/
theorem settled_unique {net net' : Net N W V} (hwf : net.WellFormed)
    (hin : net'.inputs = net.inputs)
    (hout : net'.outputs = net.outputs) (hacts : net'.actions = net.actions)
    (hacyclic : WellFounded net.Feeds) {s s' : State N W V} (hs : net.Sane s) (hs' : net'.Sane s')
    (hsettled : ∀ n, net.Settled s n) (hsettled' : ∀ n, net'.Settled s' n)
    (hprimary : ∀ w, net.Primary w → s'.value w = s.value w) : ∀ w, s'.value w = s.value w := by
  have hnode : ∀ n, ∀ w ∈ net.outputs n, s'.value w = s.value w := by
    intro n
    induction n using hacyclic.induction with
    | _ n ih =>
    intro w hw
    -- the inputs of the node are primary, or driven by nodes that feed it
    have hinputs : ∀ w' ∈ net.inputs n, s'.value w' = s.value w' := by
      intro w' hw'
      by_cases hp : net.Primary w'
      · exact hprimary w' hp
      · simp only [Net.Primary, not_forall, not_not] at hp
        obtain ⟨m, hm⟩ := hp
        exact ih m ⟨w', hm, (hwf.readers w' n).mpr hw'⟩ w' hm
    have hread : net'.read s' n = net.read s n := by
      unfold Net.read
      rw [hin]
      exact List.map_congr_left hinputs
    have hlive : net'.Live s' n ↔ net.Live s n := by
      unfold Net.Live
      rw [hin]
      constructor
      · intro ⟨w', hw', hv⟩
        exact ⟨w', hw', by rwa [hinputs w' hw'] at hv⟩
      · intro ⟨w', hw', hv⟩
        exact ⟨w', hw', by rwa [hinputs w' hw']⟩
    have hresult : ∀ a ∈ net.actions n (net.read s n), net.Live s n →
        s.value a.1 = some a.2 ∧ s'.value a.1 = some a.2 := by
      intro a ha hl
      refine ⟨hsettled n hl a ha, hsettled' n (hlive.mpr hl) a ?_⟩
      rw [hread, hacts]
      exact ha
    have hcase : (s.value w).isSome ∨ (s'.value w).isSome → s'.value w = s.value w := by
      intro hv
      have hdrives : net.Drives s n w := by
        rcases hv with hv | hv
        · exact hs.explained n w hw hv
        · have := hs'.explained n w (by rw [hout]; exact hw) hv
          rw [Net.Drives, hlive, hread, hacts] at this
          exact this
      obtain ⟨a, ha, rfl⟩ := List.mem_map.mp hdrives.2
      obtain ⟨h1, h2⟩ := hresult a ha hdrives.1
      rw [h1, h2]
    by_cases hv : (s.value w).isSome ∨ (s'.value w).isSome
    · exact hcase hv
    · rw [not_or] at hv
      rw [Option.not_isSome_iff_eq_none.mp hv.1, Option.not_isSome_iff_eq_none.mp hv.2]
  intro w
  by_cases hp : net.Primary w
  · exact hprimary w hp
  · simp only [Net.Primary, not_forall, not_not] at hp
    obtain ⟨m, hm⟩ := hp
    exact hnode m w hm

end Propagation
