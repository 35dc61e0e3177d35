/-
  Rings of an odd number of "bool not" gates: the values on every wire of the ring alternate, and
  the loopbreaker never has more than one task in its queue.

  `Turning` is the invariant: exactly one inverter of the ring is to be executed, whether a loop
  over driven ports, an execute function or the queue has got to it, and its input wire carries
  the value that was written last. `Turning.next` is one step of it.
-/
import LogxControll.Execution.Thread
import Mathlib.Data.ZMod.Basic

namespace LogxControll

/-- `gate k` is a "bool not" gate; its output is wired to `wire k`, its only input to the wire
    before. All other gates are sinks with the default behavior. -/
structure World.Ring (W : World) {n : Nat} (gate : ZMod n → GateId) (wire : ZMod n → WireId) :
    Prop where
  network : W.DirectNetwork
  injective : Function.Injective gate
  inverter : ∀ k, ∃ g p tp, W.gates (gate k) = some g ∧ g.IsBool ∧ g.execute = .bool .not ∧
    g.output.slots = [some (wire k)] ∧ g.input.slots.filterMap id = [p] ∧
    W.tokenports p = some tp ∧ tp.owner = wire (k - 1)
  once : ∀ k w, W.wires (wire k) = some w → (entries w.drivens).Nodup
  sink : ∀ i g, W.gates i = some g → i ∉ Set.range gate →
    g.executionBehavior = some .default ∧ (∀ slot ∈ g.output.slots, slot = none) ∧
      (g.IsBool ∨ g.DrivesNothing)

section Ring

variable {W : World} {n : Nat} {gate : ZMod n → GateId} {wire : ZMod n → WireId}

theorem World.Ring.runnable (h : W.Ring gate wire) : W.Runnable where
  network := h.network
  gates := by
    intro i g hg
    by_cases hi : i ∈ Set.range gate
    · obtain ⟨k, rfl⟩ := hi
      obtain ⟨g', -, -, hg', hbool, -⟩ := h.inverter k
      obtain rfl := Option.some.inj (hg.symm.trans hg')
      exact .inl hbool
    · exact (h.sink i g hg hi).2.2

theorem World.Ring.wire_injective (h : W.Ring gate wire) : Function.Injective wire := by
  intro k k' he
  obtain ⟨g, -, -, hg, -, -, hslot, -⟩ := h.inverter k
  obtain ⟨g', -, -, hg', -, -, hslot', -⟩ := h.inverter k'
  refine h.injective (h.network.driver _ _ g g' (wire k) hg hg' ?_ ?_)
  · rw [hslot]
    exact List.mem_singleton_self _
  · rw [hslot', he]
    exact List.mem_singleton_self _

/-! ## What is to be executed -/

/-- The gates the call will still notify. -/
def RunningCall.due (W : World) : RunningCall → List GateId
  | .propagate w i _ => (W.wires w).elim [] fun wire =>
      ((entries wire.drivens).drop i).filterMap fun p => (W.tokenports p).map Tokenport.gate
  | _ => []

/-- The gate whose execute function was just entered. -/
def Thread.fresh (s : Thread) : List GateId :=
  match s.memory.running, s.entered with
  | .execute c :: _, true => [c.gate]
  | _, _ => []

/-- The gates that are notified, or will be by the calls that run. -/
def Thread.notified (W : World) (s : Thread) : List GateId :=
  s.fresh ++ s.memory.running.flatMap (RunningCall.due W) ++
    (s.memory.world.loopBreaker.getD []).map QeTask.instance_

open Classical in
/-- The gates of the ring among them. -/
noncomputable def ringGates (gate : ZMod n → GateId) (l : List GateId) : List GateId :=
  l.filter fun g => g ∈ Set.range gate

@[simp] theorem ringGates_nil : ringGates gate [] = [] := rfl

@[simp] theorem ringGates_append (l l' : List GateId) :
    ringGates gate (l ++ l') = ringGates gate l ++ ringGates gate l' := List.filter_append ..

@[simp] theorem ringGates_cons_gate (k : ZMod n) (l : List GateId) :
    ringGates gate (gate k :: l) = gate k :: ringGates gate l :=
  List.filter_cons_of_pos (by simp)

theorem ringGates_cons_of_notMem {g : GateId} (h : g ∉ Set.range gate) (l : List GateId) :
    ringGates gate (g :: l) = ringGates gate l :=
  List.filter_cons_of_neg (by simpa using h)

theorem World.Entry.due_eq {w : WireId} {i : Nat} {tp : Tokenport} (h : W.Entry w i tp)
    (v : LxcValue) :
    RunningCall.due W (.propagate w i v) =
      tp.gate :: RunningCall.due W (.propagate w (i + 1) v) := by
  obtain ⟨wire, p, hw, hp, htp⟩ := h
  obtain ⟨hi, hget⟩ := List.getElem?_eq_some_iff.mp hp
  simp only [RunningCall.due, hw, Option.elim_some, List.drop_eq_getElem_cons hi, hget]
  rw [List.filterMap_cons_some (b := tp.gate) (by rw [htp]; rfl)]

/-- Among the entries of a wire of the ring there is one of an inverter, the next one. -/
theorem World.Ring.reader (h : W.Ring gate wire) (k : ZMod n) :
    ∃ w p tp, W.wires (wire k) = some w ∧ W.tokenports p = some tp ∧ tp.gate = gate (k + 1) ∧
      p ∈ entries w.drivens ∧ ∀ p' ∈ entries w.drivens, p' ≠ p → ∀ tp', W.tokenports p' = some tp' →
        tp'.gate ∉ Set.range gate := by
  obtain ⟨g, p, tp, hg, -, -, -, hslots, htp, howner⟩ := h.inverter (k + 1)
  have hmem : some p ∈ g.input.slots := by
    have : p ∈ g.input.slots.filterMap id := by rw [hslots]; exact List.mem_singleton_self p
    obtain ⟨slot, hslot, rfl⟩ := List.mem_filterMap.mp this
    exact hslot
  obtain ⟨tp', w, htp', hgate, hw, hentry⟩ := h.network.inputs _ g p hg hmem
  obtain rfl := Option.some.inj (htp.symm.trans htp')
  rw [howner, add_sub_cancel_right] at hw
  refine ⟨w, p, tp, hw, htp, hgate, hentry, ?_⟩
  rintro p' hp' hne tp' htp' ⟨j, hj⟩
  obtain ⟨l, hl, hports⟩ := h.network.drivens _ w hw
  rw [hl.entries_eq] at hp'
  obtain ⟨tp₁, g₁, htp₁, howner₁, hg₁, hslot₁⟩ := hports p' hp'
  obtain rfl := Option.some.inj (htp'.symm.trans htp₁)
  obtain ⟨g₂, p₂, tp₂, hg₂, -, -, -, hslots₂, htp₂, howner₂⟩ := h.inverter j
  rw [hj] at hg₂
  obtain rfl := Option.some.inj (hg₁.symm.trans hg₂)
  have hp₂ : p' ∈ g₁.input.slots.filterMap id := List.mem_filterMap.mpr ⟨_, hslot₁, rfl⟩
  rw [hslots₂, List.mem_singleton] at hp₂
  subst hp₂
  obtain rfl := Option.some.inj (htp₁.symm.trans htp₂)
  have hkj : k + 1 = j := by
    rw [h.wire_injective (howner₁.symm.trans howner₂), sub_add_cancel]
  rw [hkj, hj] at hg
  obtain rfl := Option.some.inj (hg.symm.trans hg₁)
  exact hne (List.singleton_inj.mp (hslots₂.symm.trans hslots))

/-- A value on a wire of the ring is for the next inverter, and for sinks. -/
theorem World.Ring.due_zero (h : W.Ring gate wire) (k : ZMod n) (v : LxcValue) :
    ringGates gate (RunningCall.due W (.propagate (wire k) 0 v)) = [gate (k + 1)] := by
  obtain ⟨w, p, tp, hw, htp, hgate, hentry, hother⟩ := h.reader k
  have hnone : ∀ l : List TokenportId, (∀ p' ∈ l, p' ∈ entries w.drivens ∧ p' ≠ p) →
      ringGates gate (l.filterMap fun p => (W.tokenports p).map Tokenport.gate) = [] := by
    intro l hl
    refine List.filter_eq_nil_iff.mpr fun i hi => ?_
    obtain ⟨p', hp', hi⟩ := List.mem_filterMap.mp hi
    obtain ⟨tp', htp', rfl⟩ := Option.map_eq_some_iff.mp hi
    simpa using hother p' (hl p' hp').1 (hl p' hp').2 tp' htp'
  have hnodup := h.once k w hw
  obtain ⟨before, after, he⟩ := List.append_of_mem hentry
  rw [he] at hnodup hnone
  rw [List.nodup_append, List.nodup_cons] at hnodup
  obtain ⟨-, ⟨hafter, -⟩, hbefore⟩ := hnodup
  simp only [RunningCall.due, hw, Option.elim_some, he, List.drop_zero, List.filterMap_append]
  rw [List.filterMap_cons_some (b := tp.gate) (by rw [htp]; rfl), hgate, ringGates_append,
    ringGates_cons_gate, hnone before, hnone after, List.nil_append]
  · exact fun p' hp' => ⟨by simp [hp'], fun he => hafter (he ▸ hp')⟩
  · exact fun p' hp' => ⟨by simp [hp'], fun he => hbefore p' hp' p List.mem_cons_self he⟩

/-! ## The invariant -/

/-- The value after `m` inversions. -/
def inverted (b : Bool) (m : Nat) : LxcValue := lxcBoolConstant ((fun b => !b)^[m] b)

theorem inverted_succ (b : Bool) (m : Nat) :
    inverted b (m + 1) = lxcBoolConstant (!((fun b => !b)^[m] b)) := by
  rw [inverted, Function.iterate_succ_apply']

/-- `m` values were written to the wires of the ring, in the order of the wires, and the inverter
    that reads the last one is to be executed. -/
structure Turning (W : World) (gate : ZMod n → GateId) (wire : ZMod n → WireId) (k : ZMod n)
    (b : Bool) (m : Nat) (s : Thread) : Prop where
  working : Working W s
  enabled : ∀ i g, s.memory.world.gates i = some g → g.enabled = true
  pending : ringGates gate (s.notified W) = [gate (k + m)]
  value : s.memory.world.valueOn (wire (k + m - 1)) = some (inverted b m)
  written : s.written = (List.range m).map fun i : Nat => (wire (k + i), inverted b (i + 1))

namespace Turning

variable {k : ZMod n} {b : Bool} {m : Nat} {s s' : Thread}

theorem fresh_of_not_entered (he : s.entered = false) : s.fresh = [] := by
  unfold Thread.fresh
  rw [he]
  split
  · next h => cases h
  · rfl

theorem fresh_of_top {c : RunningCall} {rest : List RunningCall}
    (hrun : s.memory.running = c :: rest) (hc : ∀ e, c ≠ .execute e) : s.fresh = [] := by
  unfold Thread.fresh
  rw [hrun]
  split
  · next e l h _ => exact absurd (List.cons.inj h).1 (hc e)
  · rfl

/-- An inverter that is executed is the one whose turn it is. -/
theorem eq_of_pending {j : ZMod n} {l : List GateId} (hring : W.Ring gate wire)
    (h : ringGates gate (gate j :: l) = [gate (k + m)]) :
    j = k + m ∧ ringGates gate l = [] := by
  rw [ringGates_cons_gate] at h
  obtain ⟨hj, hl⟩ := List.cons.inj h
  exact ⟨hring.injective hj, hl⟩

/-- The inverter has a result for the value on its input wire, the other one. -/
theorem result_iff (hring : W.Ring gate wire) (h : Turning W gate wire k b m s) {g : Gate}
    (hg : W.gates (gate (k + m)) = some g) (r : Bool) :
    s.Result W g (some r) ↔ r = !((fun b => !b)^[m] b) := by
  obtain ⟨g', p, tp, hg', -, hnot, -, hslots, htp, howner⟩ := hring.inverter (k + m)
  obtain rfl := Option.some.inj (hg.symm.trans hg')
  have htokens : slotTokens (wireToken W s.memory.world) g.input.slots =
      [some (inverted b m)] := by
    rw [slotTokens, hslots, List.map_singleton, wireToken, htp, Option.bind_some, howner]
    exact congrArg (fun v => [v]) h.value
  have hresult : LogicFunction.not.result [some (inverted b m)] =
      some (!((fun b => !b)^[m] b)) := by
    simp [LogicFunction.result, present, LogicFunction.eval, inverted]
  constructor
  · rintro ⟨f, hf, hr⟩
    obtain rfl := Execute.bool.inj (hnot.symm.trans hf)
    rw [htokens, hresult] at hr
    exact (Option.some.inj hr).symm
  · rintro rfl
    exact ⟨.not, hnot, by rw [htokens, hresult]⟩

theorem notified_propagate {w : WireId} {i : Nat} {v : LxcValue} {rest : List RunningCall}
    {tp : Tokenport} (hrun : s.memory.running = .propagate w i v :: rest)
    (hentry : W.Entry w i tp) :
    s.notified W = tp.gate :: (RunningCall.due W (.propagate w (i + 1) v) ++
      rest.flatMap (RunningCall.due W) ++
        (s.memory.world.loopBreaker.getD []).map QeTask.instance_) := by
  rw [Thread.notified, fresh_of_top hrun (fun e he => by cases he), hrun, List.flatMap_cons,
    hentry.due_eq v]
  rfl

theorem notified_execute {c : ExecCall} {rest : List RunningCall}
    (hrun : s.memory.running = .execute c :: rest) (hentered : s.entered = true) :
    s.notified W = c.gate :: (rest.flatMap (RunningCall.due W) ++
      (s.memory.world.loopBreaker.getD []).map QeTask.instance_) := by
  have hfresh : s.fresh = [c.gate] := by simp only [Thread.fresh, hrun, hentered]
  rw [Thread.notified, hfresh, hrun, List.flatMap_cons]
  rfl

/-- The thread goes on, and writes at most the next value. -/
theorem advances (hring : W.Ring gate wire) (h : Turning W gate wire k b m s)
    (hstep : s.Advances W s') :
    Turning W gate wire k b m s' ∨ Turning W gate wire k b (m + 1) s' := by
  have hworking := h.working.advances hring.runnable hstep
  have hpending := h.pending
  cases hstep with
  | back hrun hdone =>
    rename_i c rest
    refine .inl ⟨hworking, h.enabled, ?_, h.value, h.written⟩
    have hfresh : s.fresh = [] := by
      cases c with
      | execute e => exact fresh_of_not_entered hdone
      | propagate w i v => exact fresh_of_top hrun (fun e he => by cases he)
      | executeThenRelease t => exact hdone.elim
      | loopbreaker t => exact hdone.elim
    have hdue : c.due W = [] := by
      cases c with
      | propagate w i v =>
        cases hw : W.wires w with
        | none => simp only [RunningCall.due, hw, Option.elim_none]
        | some wire =>
          simp only [RunningCall.due, hw, Option.elim_some, List.drop_of_length_le (hdone wire hw),
            List.filterMap_nil]
      | execute e => rfl
      | executeThenRelease t => rfl
      | loopbreaker t => rfl
    rw [Thread.notified, hfresh, hrun, List.flatMap_cons, hdue] at hpending
    rw [Thread.notified, fresh_of_not_entered rfl]
    exact hpending
  | skip hrun hentry hgate hoff =>
    rw [h.enabled _ _ hgate] at hoff
    cases hoff
  | enter hrun hentry hgate hon hb hc =>
    refine .inl ⟨hworking, h.enabled, ?_, h.value, h.written⟩
    rw [notified_propagate hrun hentry, ← hc] at hpending
    rw [notified_execute rfl rfl, List.flatMap_cons]
    exact hpending
  | submit hrun hentry hgate hon hb ht hvalue hq =>
    rename_i w i v rest tp g t q
    refine .inl ⟨hworking, h.enabled, ?_, h.value, h.written⟩
    obtain ⟨j, hj⟩ : tp.gate ∈ Set.range gate := by
      by_contra hnot
      have hg := h.working.gates tp.gate
      rw [hgate, Option.map_some, eq_comm, Option.map_eq_some_iff] at hg
      obtain ⟨g₀, hg₀, he⟩ := hg
      have hb₀ : g₀.disabled.executionBehavior = g.disabled.executionBehavior :=
        congrArg Gate.executionBehavior he
      have hdefault := (hring.sink _ g₀ hg₀ hnot).1
      rw [← show g₀.disabled.executionBehavior = g₀.executionBehavior from rfl, hb₀] at hdefault
      cases hb.symm.trans hdefault
    rw [notified_propagate hrun hentry, ← hj, hq, Option.getD_some] at hpending
    obtain ⟨rfl, hnone⟩ := eq_of_pending hring hpending
    have hnotified : ((s.goTo (.propagate w (i + 1) v :: rest) false).setQueue
        (some (q ++ [t]))).notified W =
          RunningCall.due W (.propagate w (i + 1) v) ++ rest.flatMap (RunningCall.due W) ++
            q.map QeTask.instance_ ++ [gate (k + m)] := by
      rw [Thread.notified, fresh_of_not_entered rfl, hj, ← ht]
      simp [Thread.setQueue, Thread.goTo]
    rw [hnotified, ringGates_append, hnone, ringGates_cons_gate]
    rfl
  | quiet hrun hentered hg hquiet =>
    rename_i c rest g n'
    refine .inl ⟨hworking, h.enabled, ?_, h.value, h.written⟩
    have hnot : c.gate ∉ Set.range gate := by
      rintro ⟨j, hj⟩
      rw [notified_execute hrun hentered, ← hj] at hpending
      obtain ⟨rfl, -⟩ := eq_of_pending hring hpending
      rw [← hj] at hg
      obtain ⟨g', -, -, hg', -, -, hslot, -⟩ := hring.inverter (k + m)
      obtain rfl := Option.some.inj (hg.symm.trans hg')
      exact hquiet _ _ (by rw [hslot]; exact List.mem_singleton_self _)
        ((result_iff hring h hg _).mpr rfl)
    rw [notified_execute hrun hentered, ringGates_cons_of_notMem hnot] at hpending
    rw [Thread.notified, fresh_of_not_entered rfl, hrun, List.flatMap_cons]
    exact hpending
  | drive hrun hentered hg hslot hresult hw =>
    rename_i c rest g w w₁ r
    obtain ⟨j, hj⟩ : c.gate ∈ Set.range gate := by
      by_contra hnot
      cases (hring.sink _ g hg hnot).2.1 (some w) (by rw [hslot]; exact List.mem_singleton_self _)
    rw [notified_execute hrun hentered, ← hj] at hpending
    obtain ⟨rfl, hnone⟩ := eq_of_pending hring hpending
    rw [← hj] at hg
    obtain rfl := (result_iff hring h hg r).mp hresult
    obtain ⟨g', -, -, hg', -, -, hslot', -⟩ := hring.inverter (k + m)
    obtain rfl := Option.some.inj (hg.symm.trans hg')
    obtain rfl : w = wire (k + m) :=
      Option.some.inj (List.singleton_inj.mp (hslot.symm.trans hslot'))
    have hnext : k + m + 1 = k + (m + 1 : Nat) := by rw [Nat.cast_succ, add_assoc]
    refine .inr ⟨hworking, h.enabled, ?_, ?_, ?_⟩
    · rw [Thread.notified, fresh_of_not_entered rfl, List.flatMap_cons, hrun, List.flatMap_cons,
        List.nil_append, List.append_assoc, ringGates_append, hring.due_zero, hnext]
      exact congrArg (gate (k + (m + 1 : Nat)) :: ·) hnone
    · have hlast : k + (m + 1 : Nat) - 1 = k + m := by rw [← hnext, add_sub_cancel_right]
      rw [hlast, inverted_succ]
      show (Function.update s.memory.world.wires _ _ _).bind _ = _
      rw [Function.update_self]
      rfl
    · rw [List.range_succ, List.map_append, ← h.written, List.map_singleton, inverted_succ]
  | turn hrun hq hgate hc =>
    refine .inl ⟨hworking, h.enabled, ?_, h.value, h.written⟩
    rw [Thread.notified, fresh_of_top hrun (fun e he => by cases he), hrun, hq] at hpending
    have hon := h.enabled _ _ hgate
    rw [Thread.notified, ← hpending]
    simp [Thread.fresh, Thread.goTo, Thread.setQueue, hon, hc, RunningCall.due]
  | finish hrun hq =>
    rw [Thread.notified, fresh_of_top hrun (fun e he => by cases he), hrun, hq] at hpending
    cases hpending

/-- Nothing happens when an enabled gate is enabled. -/
theorem setEnabled (h : Turning W gate wire k b m s) {i : GateId}
    (hstep : s.setEnabled i true = some s') : s' = s := by
  simp only [Thread.setEnabled, Memory.step, Memory.lxcGateSetEnabled, Option.bind_eq_bind,
    Option.bind_eq_some_iff] at hstep
  obtain ⟨memory, ⟨g, hg, hm⟩, hstep⟩ := hstep
  obtain rfl := Option.some.inj hm
  obtain rfl := Option.some.inj hstep
  have hsame : s.memory.world.setGate i { g with enabled := true } = s.memory.world := by
    rw [World.setGate, ← h.enabled i g hg]
    exact congrArg (fun gates => { s.memory.world with gates := gates })
      (Function.update_eq_self_iff.mpr hg.symm)
  rw [hsame]

theorem running_ne_nil (h : Turning W gate wire k b m s) : s.memory.running ≠ [] := by
  intro hnil
  have hpending := h.pending
  have hqueue : s.memory.world.loopBreaker = none := (hnil ▸ h.working.loop).queue_eq_none
  rw [Thread.notified, hnil, hqueue] at hpending
  simp [Thread.fresh, hnil] at hpending

theorem next (hring : W.Ring gate wire) (h : Turning W gate wire k b m s) :
    ∃ s', s.next = some s' ∧ ∃ m', Turning W gate wire k b m' s' := by
  obtain ⟨s', hnext, hstep⟩ := h.working.next hring.runnable h.running_ne_nil
  rcases h.advances hring hstep with h' | h'
  · exact ⟨s', hnext, m, h'⟩
  · exact ⟨s', hnext, m + 1, h'⟩

/-- Whenever the loop fetches its next task, there is exactly one. -/
theorem one_task (hring : W.Ring gate wire) (h : Turning W gate wire k b m s) {crnt : QeTask}
    {rest : List RunningCall} (hrun : s.memory.running = .loopbreaker crnt :: rest) :
    ∃ t, s.memory.world.loopBreaker = some [t] ∧ t.instance_ = gate (k + m) := by
  have hloop : Looped (.loopbreaker crnt :: rest) s.memory.world.loopBreaker :=
    hrun ▸ h.working.loop
  obtain ⟨q, hq⟩ := hloop.queue_isSome
  obtain rfl := hloop.eq_nil
  have hpending := h.pending
  rw [Thread.notified, fresh_of_top hrun (fun e he => by cases he), hrun, hq, Option.getD_some]
    at hpending
  replace hpending : ringGates gate (q.map QeTask.instance_) = [gate (k + m)] := hpending
  have hall : ringGates gate (q.map QeTask.instance_) = q.map QeTask.instance_ := by
    refine List.filter_eq_self.mpr fun i hi => ?_
    obtain ⟨t, ht, rfl⟩ := List.mem_map.mp hi
    obtain ⟨⟨g, hg, hb⟩, -⟩ := h.working.tasks q t hq ht
    by_contra hnot
    cases hb.symm.trans (hring.sink _ g hg (by simpa using hnot)).1
  rw [hall] at hpending
  obtain ⟨t, rfl, ht⟩ := List.map_eq_singleton_iff.mp hpending
  exact ⟨t, hq, ht⟩

/-- The notification of an inverter whose input wire has a value. -/
theorem start (hring : W.Ring gate wire) (hvalues : ∀ w v, W.valueOn w = some v → IsBoolConstant v)
    (hpreset : W.valueOn (wire (k - 1)) = some (lxcBoolConstant b)) (hlb : W.loopBreaker = none)
    {c : ExecCall} (hc : c.gate = gate k) (hlive : W.memory.Live c.value) :
    ∃ s, W.thread.call (.loopbreaker c) = some s ∧ Turning W gate wire k b 0 s := by
  obtain ⟨g, -, -, hg, -⟩ := hring.inverter k
  obtain ⟨s, e, t, hcall, hworking, hentered, hrun, he, hworld, hwritten⟩ :=
    Working.start hlb hvalues (hc ▸ hg) (hring.network.enabled _ g hg).1 hlive
  refine ⟨s, hcall, hworking, ?_, ?_, ?_, hwritten⟩
  · intro i g hg
    rw [hworld] at hg
    exact (hring.network.enabled i g hg).1
  · rw [notified_execute hrun hentered, hworld, he, hc, ringGates_cons_gate]
    simp [RunningCall.due]
  · rw [hworld, Nat.cast_zero, add_zero]
    exact hpreset

/-- While no gate is disabled, the ring turns. -/
theorem run (hring : W.Ring gate wire) :
    ∀ (turns : List Turn) {m : Nat} {s s' : Thread}, (∀ i, .setEnabled i false ∉ turns) →
      Turning W gate wire k b m s → Run.run Thread.step s turns = some s' →
        ∃ m', Turning W gate wire k b m' s'
  | [], m, s, s', _, h, hrun => ⟨m, Option.some.inj hrun ▸ h⟩
  | t :: turns, m, s, s', hturns, h, hrun => by
      obtain ⟨s₁, hstep, hrest⟩ := Option.bind_eq_some_iff.mp hrun
      have hturns' : ∀ i, .setEnabled i false ∉ turns :=
        fun i hi => hturns i (List.mem_cons_of_mem _ hi)
      cases t with
      | next =>
        obtain ⟨s₂, hnext, m', h'⟩ := h.next hring
        obtain rfl := Option.some.inj (hnext.symm.trans hstep)
        exact run hring turns hturns' h' hrest
      | setEnabled i enabled =>
        cases enabled with
        | false => exact absurd List.mem_cons_self (hturns i)
        | true =>
          rw [h.setEnabled hstep] at hrest
          exact run hring turns hturns' h hrest

end Turning

/-! ## Alternation -/

/-- Any two successive values on the same wire are different. -/
def Alternates (log : List (WireId × LxcValue)) : Prop :=
  ∀ (i j : Nat) w v v', i < j → log[i]? = some (w, v) → log[j]? = some (w, v') →
    (∀ (l : Nat) u, i < l → l < j → log[l]? ≠ some (w, u)) → v ≠ v'

theorem inverted_add_odd (hodd : Odd n) (b : Bool) (i : Nat) :
    inverted b (i + n) ≠ inverted b i := by
  intro he
  have hinvolutive : Function.Involutive fun b : Bool => !b := Bool.not_not
  have hb := lxcBoolConstant_injective he
  rw [Nat.add_comm, Function.iterate_add_apply, hinvolutive.iterate_odd hodd] at hb
  exact Bool.not_ne_self _ hb

/-- The wires are written in turn, and a round has an odd number of inversions. -/
theorem alternates_rounds (hodd : Odd n) (hwire : Function.Injective wire) (k : ZMod n) (b : Bool)
    (m : Nat) : Alternates ((wire (k - 1), lxcBoolConstant b) ::
      (List.range m).map fun i : Nat => (wire (k + i), inverted b (i + 1))) := by
  have hlog : ∀ i, ((wire (k - 1), lxcBoolConstant b) ::
      (List.range m).map fun i : Nat => (wire (k + i), inverted b (i + 1)))[i]? =
        if i ≤ m then some (wire (k + i - 1), inverted b i) else none := by
    intro i
    cases i with
    | zero =>
      rw [List.getElem?_cons_zero, if_pos (Nat.zero_le m), Nat.cast_zero, add_zero]
      rfl
    | succ i =>
      rw [List.getElem?_cons_succ, List.getElem?_map, Nat.cast_succ, ← add_assoc,
        add_sub_cancel_right]
      by_cases hi : i < m
      · rw [List.getElem?_range hi, if_pos (Nat.succ_le_of_lt hi)]
        rfl
      · rw [List.getElem?_eq_none (by simpa using hi), if_neg (by omega)]
        rfl
  rintro i j w v v' hij hi hj hbetween
  rw [hlog] at hi hj
  split at hi
  · split at hj
    · next hjm =>
      obtain ⟨rfl, rfl⟩ := Prod.mk.inj (Option.some.inj hi)
      obtain ⟨hw, rfl⟩ := Prod.mk.inj (Option.some.inj hj)
      have hcast : (j : ZMod n) = i := add_left_cancel (sub_left_injective (hwire hw))
      have hmod : i ≡ j [MOD n] := ((ZMod.natCast_eq_natCast_iff j i n).mp hcast).symm
      obtain ⟨c, hc⟩ := (Nat.modEq_iff_dvd' hij.le).mp hmod
      have hround : j = i + n := by
        have hpos := hodd.pos
        rcases Nat.lt_or_ge (i + n) j with hlt | hge
        · exfalso
          refine hbetween (i + n) (inverted b (i + n)) (by omega) hlt ?_
          rw [hlog, if_pos (hlt.le.trans hjm), Nat.cast_add, ZMod.natCast_self, add_zero]
        · have hle : n ≤ j - i := Nat.le_of_dvd (by omega) ⟨c, hc⟩
          omega
      rw [hround]
      exact (inverted_add_odd hodd b i).symm
    · cases hj
  · cases hi

/-- An inverter of a ring of odd length is notified, with a bool constant on its input wire. While
    no gate is disabled the thread goes on, the loop finds exactly one task whenever it fetches the
    next one, and the values on every wire alternate; when all gates are disabled, it ends. -/
theorem ring_oscillates (hodd : Odd n) (hring : W.Ring gate wire)
    (hvalues : ∀ w v, W.valueOn w = some v → IsBoolConstant v) (hlb : W.loopBreaker = none)
    {k : ZMod n} {b : Bool} (hpreset : W.valueOn (wire (k - 1)) = some (lxcBoolConstant b))
    {c : ExecCall} (hc : c.gate = gate k) (hlive : W.memory.Live c.value) :
    ∃ s₀, W.thread.call (.loopbreaker c) = some s₀ ∧
      ∀ turns s, Run.run Thread.step s₀ turns = some s →
        ((∀ g, .setEnabled g false ∉ turns) → (∃ s', s.next = some s') ∧
          (∀ crnt rest, s.memory.running = .loopbreaker crnt :: rest →
            ∃ t, s.memory.world.loopBreaker = some [t]) ∧
          Alternates ((wire (k - 1), lxcBoolConstant b) :: s.written)) ∧
        (s.Disabled → s.Ends) := by
  obtain ⟨s₀, hcall, h₀⟩ := Turning.start hring hvalues hpreset hlb hc hlive
  refine ⟨s₀, hcall, fun turns s hrun => ⟨fun hturns => ?_, fun hoff => ?_⟩⟩
  · obtain ⟨m, h⟩ := Turning.run hring turns hturns h₀ hrun
    obtain ⟨s', hnext, -⟩ := h.next hring
    refine ⟨⟨s', hnext⟩, fun crnt rest hloop => ?_, ?_⟩
    · obtain ⟨t, hq, -⟩ := h.one_task hring hloop
      exact ⟨t, hq⟩
    · rw [h.written]
      exact alternates_rounds hodd hring.wire_injective k b m
  · have h := Run.run_invariant (Working W) (fun _ _ _ h hstep => h.step hring.runnable hstep)
      turns s₀ s h₀.working hrun
    exact h.ends hring.runnable hoff

end Ring

/-! ## `create_bool_oscillator` -/

/-- The sniffer gate, with its input wired. -/
def wiredSniffer (p : TokenportId) : Gate where
  gateClass := .portb
  execute := .other
  enabled := true
  executionBehavior := some .default
  input := { manager := .zeroed, slots := [some p] }
  output := { manager := .zeroed, slots := [] }

/-- The gates A, B, C and the sniffer, the wires `back`, `output`, `w`; A is the loop breaker. -/
def boolOscillator : World :=
  .ofLists
    [wiredBoolGate .not .loopbreaker [0] 1, wiredBoolGate .not .default [1] 2,
      wiredBoolGate .not .default [2] 0, wiredSniffer 3]
    [{ boolWire .directPropagateValue [6] [0] with currentValue := some lxcBoolConstantValueFalse },
      boolWire .directPropagateValue [4] [3, 1], boolWire .directPropagateValue [5] [2]]
    [.zeroed 0 0 0, .zeroed 1 1 0, .zeroed 2 2 0, .zeroed 1 3 0, .zeroed 1 0 0, .zeroed 2 1 0,
      .zeroed 0 2 0]

/-- The inverters in the order of the ring. -/
def oscillatorGate : ZMod 3 → GateId := fun k => k.val

/-- The wire that each gate of the ring drives. -/
def oscillatorWire : ZMod 3 → WireId := fun k => (k + 1).val

section BoolOscillator

theorem boolOscillator_gate {i : GateId} {g : Gate} (h : boolOscillator.gates i = some g) :
    (∃ k : ZMod 3, i = oscillatorGate k ∧
      ∃ b, g = wiredBoolGate .not b [k.val] (oscillatorWire k)) ∨ (i = 3 ∧ g = wiredSniffer 3) := by
  match i, h with
  | 0, h => exact .inl ⟨0, rfl, _, (Option.some.inj h).symm⟩
  | 1, h => exact .inl ⟨1, rfl, _, (Option.some.inj h).symm⟩
  | 2, h => exact .inl ⟨2, rfl, _, (Option.some.inj h).symm⟩
  | 3, h => exact .inr ⟨rfl, (Option.some.inj h).symm⟩

theorem boolOscillator_wire {w : WireId} {wire : Wire} (h : boolOscillator.wires w = some wire) :
    w < 3 ∧ wire.handler = .directPropagateValue ∧
      (w = 0 ∧ IsNt wire.drivens [0] ∨ w = 1 ∧ IsNt wire.drivens [3, 1] ∨
        w = 2 ∧ IsNt wire.drivens [2]) ∧
      ∀ v, wire.currentValue = some v → v = lxcBoolConstantValueFalse := by
  match w, h with
  | 0, h =>
    obtain rfl := Option.some.inj h
    exact ⟨by decide, rfl, .inl ⟨rfl, 1, rfl⟩, fun v hv => (Option.some.inj hv).symm⟩
  | 1, h =>
    obtain rfl := Option.some.inj h
    exact ⟨by decide, rfl, .inr (.inl ⟨rfl, 1, rfl⟩), fun v hv => by cases hv⟩
  | 2, h =>
    obtain rfl := Option.some.inj h
    exact ⟨by decide, rfl, .inr (.inr ⟨rfl, 1, rfl⟩), fun v hv => by cases hv⟩

theorem boolOscillator_network : boolOscillator.DirectNetwork where
  enabled := by
    intro i g h
    rcases boolOscillator_gate h with ⟨k, -, b, rfl⟩ | ⟨-, rfl⟩ <;> exact ⟨rfl, rfl⟩
  handler := fun w wire h => (boolOscillator_wire h).2.1
  drivens := by
    intro w wire h
    obtain ⟨-, -, hl, -⟩ := boolOscillator_wire h
    rcases hl with ⟨rfl, hl⟩ | ⟨rfl, hl⟩ | ⟨rfl, hl⟩
    · refine ⟨_, hl, fun p hp => ?_⟩
      obtain rfl := List.mem_singleton.mp hp
      exact ⟨_, _, rfl, rfl, rfl, List.mem_cons_self⟩
    · refine ⟨_, hl, fun p hp => ?_⟩
      rcases List.mem_pair.mp hp with rfl | rfl
      · exact ⟨_, _, rfl, rfl, rfl, List.mem_cons_self⟩
      · exact ⟨_, _, rfl, rfl, rfl, List.mem_cons_self⟩
    · refine ⟨_, hl, fun p hp => ?_⟩
      obtain rfl := List.mem_singleton.mp hp
      exact ⟨_, _, rfl, rfl, rfl, List.mem_cons_self⟩
  inputs := by
    intro i g p h hp
    rcases boolOscillator_gate h with ⟨k, rfl, b, rfl⟩ | ⟨rfl, rfl⟩
    · obtain rfl := List.mem_singleton.mp (mem_wiredBoolGate.mp hp)
      revert hp h
      fin_cases k <;> intro _ _ <;> exact ⟨_, _, rfl, rfl, rfl, by decide⟩
    · obtain rfl := Option.some.inj (List.mem_singleton.mp hp)
      exact ⟨_, _, rfl, rfl, rfl, by decide⟩
  outputs := by
    intro i g w h hw
    rcases boolOscillator_gate h with ⟨k, rfl, b, rfl⟩ | ⟨rfl, rfl⟩
    · obtain rfl := Option.some.inj (List.mem_singleton.mp hw)
      clear hw h
      fin_cases k <;> exact ⟨_, rfl⟩
    · cases hw
  driver := by
    intro i i' g g' w h h' hw hw'
    rcases boolOscillator_gate h with ⟨k, rfl, b, rfl⟩ | ⟨rfl, rfl⟩
    · rcases boolOscillator_gate h' with ⟨k', rfl, b', rfl⟩ | ⟨rfl, rfl⟩
      · have hk := Option.some.inj (List.mem_singleton.mp hw)
        have hk' := Option.some.inj (List.mem_singleton.mp hw')
        have : k + 1 = k' + 1 := ZMod.val_injective 3 (hk.symm.trans hk')
        rw [add_right_cancel this]
      · cases hw'
    · cases hw

theorem boolOscillator_ring : boolOscillator.Ring oscillatorGate oscillatorWire where
  network := boolOscillator_network
  injective := ZMod.val_injective 3
  inverter := by
    intro k
    fin_cases k
    · exact ⟨wiredBoolGate .not .loopbreaker [0] 1, 0, _, rfl, ⟨rfl, ⟨_, rfl⟩, rfl, rfl⟩, rfl, rfl,
        rfl, rfl, rfl⟩
    · exact ⟨wiredBoolGate .not .default [1] 2, 1, _, rfl, ⟨rfl, ⟨_, rfl⟩, rfl, rfl⟩, rfl, rfl, rfl,
        rfl, rfl⟩
    · exact ⟨wiredBoolGate .not .default [2] 0, 2, _, rfl, ⟨rfl, ⟨_, rfl⟩, rfl, rfl⟩, rfl, rfl, rfl,
        rfl, rfl⟩
  once := by
    intro k wire h
    obtain ⟨-, -, ⟨-, hl⟩ | ⟨-, hl⟩ | ⟨-, hl⟩, -⟩ := boolOscillator_wire h <;>
      rw [hl.entries_eq] <;> decide
  sink := by
    intro i g h hi
    rcases boolOscillator_gate h with ⟨k, rfl, b, rfl⟩ | ⟨rfl, rfl⟩
    · exact absurd ⟨k, rfl⟩ hi
    · have hnone : ∀ slot ∈ (wiredSniffer 3).output.slots, slot = none := fun _ h => by cases h
      exact ⟨rfl, hnone, .inr ⟨hnone, .inl rfl⟩⟩

/-- Gate A is notified as the test does it. -/
theorem ring_oscillates_boolOscillator :
    ∃ s₀, boolOscillator.thread.call (.loopbreaker ⟨0, none, 0, none, 0⟩) = some s₀ ∧
      ∀ turns s, Run.run Thread.step s₀ turns = some s →
        ((∀ g, .setEnabled g false ∉ turns) → (∃ s', s.next = some s') ∧
          (∀ crnt rest, s.memory.running = .loopbreaker crnt :: rest →
            ∃ t, s.memory.world.loopBreaker = some [t]) ∧
          Alternates ((oscillatorWire (0 - 1), lxcBoolConstant false) :: s.written)) ∧
        (s.Disabled → s.Ends) := by
  refine ring_oscillates (by decide) boolOscillator_ring ?_ rfl rfl rfl (fun v hv => by cases hv)
  intro w v hv
  obtain ⟨wire, hw, hv⟩ := Option.bind_eq_some_iff.mp hv
  exact ⟨false, (boolOscillator_wire hw).2.2.2 v hv⟩

end BoolOscillator

end LogxControll
