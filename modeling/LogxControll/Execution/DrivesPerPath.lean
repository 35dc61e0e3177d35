/-
  How often gates drive their wires with direct propagation: a call of `lxc_drive_wire_value` makes
  every gate drive its wire once for each path that leads to it (`drives_once_per_path`).

  The gates on a path that joins another one compute again what they computed before. This is what
  the handler `NONHAZARD_PROPAGATE_VALUE` is for, with which every gate drives its wire once.
-/
import LogxControll.Execution.HandlerAgreement
import LogxControll.Lib.WalkCount

namespace LogxControll

open Propagation WalkCount

/-- The gates at the ports that a wire drives, in order. -/
def World.readers (W : World) (w : WireId) : List GateId :=
  (W.wires w).elim [] fun wire =>
    (entries wire.drivens).filterMap fun p => (W.tokenports p).map Tokenport.gate

/-- The gates that a gate notifies. -/
def World.next (W : World) (g : GateId) : List GateId :=
  (W.gates g).elim [] fun gate => (slotAt gate.output.slots 0).elim [] W.readers

/-- A path from a wire to a gate: the ports that it enters, each by its place among the ports that
    its wire drives. -/
def World.Path (W : World) (w : WireId) (places : List ℕ) (g : GateId) : Prop :=
  Leads W.next (W.readers w) places g

/-- Every gate has the inputs that its logic function asks for. -/
def World.FanIn (W : World) : Prop :=
  ∀ g gate, W.gates g = some gate → 1 ≤ (gate.input.slots.filterMap id).length ∧
    (gate.execute = .bool .xor → 2 ≤ (gate.input.slots.filterMap id).length)

/-- All wires that gates read carry values. -/
def World.Valued (W₀ W : World) : Prop :=
  ∀ g, ∀ w ∈ (W₀.net boolActions).inputs g, (W.state.value w).isSome

/-- What is counted: the gate's drives so far, and those that the queue will lead to. -/
noncomputable def World.drivesDue (W₀ : World) (g : GateId) (W : World) : ℕ :=
  (W.drivesOf g).length + (W.state.pending.map (visits W₀.next g)).sum

/-- A network at work, with values on all wires. -/
def World.Busy (W₀ W : World) : Prop := AtWork W₀ IsBoolConstant W ∧ W₀.Valued W

section Counting

variable {W₀ W : World} {target g : GateId} {call : ExecCall → World → Option World}

theorem drivesOf_note (W : World) (instance_ : Option GateId) (v : LxcValue) (g : GateId) :
    ((W.note instance_ v).drivesOf g).length =
      (W.drivesOf g).length + if instance_ = some g then 1 else 0 := by
  cases instance_ with
  | none => rfl
  | some g' =>
    show (TokenNet.drives g (W.driven ++ [(g', v)])).length = _
    unfold TokenNet.drives
    rw [List.filterMap_append, List.length_append]
    by_cases he : g' = g
    · subst he
      simp [World.drivesOf, TokenNet.drives]
    · simp [World.drivesOf, TokenNet.drives, he]

theorem World.Busy.setWire (h : W₀.Busy W) {w : WireId} {wire : Wire} (hw : W.wires w = some wire)
    {v : LxcValue} (hv : IsBoolConstant v) :
    W₀.Busy (W.setWire w { wire with currentValue := some v }) := by
  obtain ⟨hwork, hstate⟩ := h.1.setWire hw hv
  refine ⟨hwork, fun g w' hw' => ?_⟩
  rw [hstate]
  by_cases he : w' = w
  · rw [he, State.set_value_self]
    rfl
  · rw [State.set_value_ne _ he]
    exact h.2 g w' hw'

theorem drivesDue_setWire (W : World) (w : WireId) (wire : Wire) (g : GateId) :
    W₀.drivesDue g (W.setWire w wire) = W₀.drivesDue g W := rfl

theorem World.Busy.note (h : W₀.Busy W) (instance_ : Option GateId) (v : LxcValue) :
    W₀.Busy (W.note instance_ v) := by
  obtain ⟨hwork, hstate⟩ := h.1.note instance_ v
  refine ⟨hwork, fun g w hw => ?_⟩
  rw [hstate]
  exact h.2 g w hw

theorem drivesDue_note (h : W₀.Busy W) (instance_ : Option GateId) (v : LxcValue) (g : GateId) :
    W₀.drivesDue g (W.note instance_ v) =
      W₀.drivesDue g W + if instance_ = some g then 1 else 0 := by
  unfold World.drivesDue
  rw [(h.1.note instance_ v).2, drivesOf_note]
  omega

/-- Calling the behavior of a gate makes `target` drive its wire once for every walk to it. -/
def CallAdds (W₀ : World) (target : GateId) (call : ExecCall → World → Option World) : Prop :=
  ∀ c : ExecCall, (W₀.gates c.gate).isSome →
    Adds W₀.Busy (W₀.drivesDue target) (call c) (visits W₀.next target c.gate)

variable (hnet : W₀.DirectNetwork)
include hnet

theorem notifyPorts_adds (hcall : CallAdds W₀ target call) (signal : Signal) (subtype : Int)
    (v : LxcValue) (k : ℕ) :
    ∀ l : List TokenportId, (∀ p ∈ l, ∃ tp gate, W₀.tokenports p = some tp ∧
        W₀.gates tp.gate = some gate) →
      Adds W₀.Busy (W₀.drivesDue target) (notifyPorts call (fun _ W => some W) signal subtype v
          (l.map some ++ List.replicate k none))
        ((l.filterMap fun p => (W₀.tokenports p).map Tokenport.gate).map
          (visits W₀.next target)).sum := by
  intro l
  induction l with
  | nil =>
    intro _
    cases k with
    | zero => exact .pure
    | succ k => exact .pure
  | cons p l ih =>
    intro hall
    obtain ⟨tp, gate, htp, hg⟩ := hall p List.mem_cons_self
    have hrest := ih fun p' hp' => hall p' (List.mem_cons_of_mem _ hp')
    have henabled := hnet.enabled tp.gate gate hg
    have hgate : Adds W₀.Busy (W₀.drivesDue target) (notifyGate call signal subtype v p)
        (visits W₀.next target tp.gate) := by
      apply (hcall ⟨tp.gate, signal, subtype, v, tp.index⟩ (by rw [hg]; rfl)).congr
      intro W hW
      simp only [notifyGate, hW.1.tokenports, hW.1.gates, htp, hg, henabled, Option.bind_eq_bind,
        Option.bind_some, and_self, if_true]
    rw [List.filterMap_cons, htp]
    exact hgate.bind hrest

theorem lxcDriveWireValue_adds (hcall : CallAdds W₀ target call) {w : WireId} {wire₀ : Wire}
    (hw : W₀.wires w = some wire₀) {v : LxcValue} (hv : IsBoolConstant v)
    (instance_ : Option GateId) :
    Adds W₀.Busy (W₀.drivesDue target) (lxcDriveWireValue call instance_ w v)
      ((if instance_ = some target then 1 else 0) +
        ((W₀.readers w).map (visits W₀.next target)).sum) := by
  obtain ⟨l, ⟨k, hl⟩, hall⟩ := hnet.drivens w wire₀ hw
  have hreaders : W₀.readers w = l.filterMap fun p => (W₀.tokenports p).map Tokenport.gate := by
    simp [World.readers, hw, IsNt.entries_eq ⟨k, hl⟩]
  have hports := notifyPorts_adds hnet hcall wire₀.type wire₀.subtype v k l fun p hp => by
    obtain ⟨tp, gate, htp, -, hg, -⟩ := hall p hp
    exact ⟨tp, gate, htp, hg⟩
  intro W W' hW hdrive
  have hWn := hW.note instance_ v
  obtain ⟨wire, hw', he⟩ := hWn.1.wire hw
  have hbare : wire.handler = wire₀.handler ∧ wire.drivens = wire₀.drivens ∧
      wire.type = wire₀.type ∧ wire.subtype = wire₀.subtype := by
    refine ⟨?_, ?_, ?_, ?_⟩
    · simpa [Wire.bare] using congrArg Wire.handler he
    · simpa [Wire.bare] using congrArg Wire.drivens he
    · simpa [Wire.bare] using congrArg Wire.type he
    · simpa [Wire.bare] using congrArg Wire.subtype he
  obtain ⟨hhandler, hdrivens, htype, hsub⟩ := hbare
  rw [hnet.handler w wire₀ hw] at hhandler
  have hnotify : notifyPorts call (fun _ W => some W) wire₀.type wire₀.subtype v
      (l.map some ++ List.replicate k none)
      ((W.note instance_ v).setWire w { wire with currentValue := some v }) = some W' := by
    rw [← hdrive, ← hl, ← hdrivens, ← htype, ← hsub]
    simp only [lxcDriveWireValue, writeNewValue, hw', hhandler, wireDirectPropagateWireNewValue,
      Option.bind_eq_bind, Option.bind_some]
  obtain ⟨hW', hcount⟩ := hports _ W' (hWn.setWire hw' hv) hnotify
  refine ⟨hW', ?_⟩
  rw [hcount, drivesDue_setWire, drivesDue_note hW, hreaders, Nat.add_assoc]

end Counting

/-! ## Executing a gate -/

section Executing

variable {W₀ : World} {target : GateId} {call : ExecCall → World → Option World}

/-- With values on all inputs there is a result. -/
theorem result_isSome_of_valued (h : W₀.DirectBoolNetwork) (hfan : W₀.FanIn) {W : World}
    {g : GateId} {gate : Gate} {f : LogicFunction} (hg : W₀.gates g = some gate)
    (hf : gate.execute = .bool f)
    (hvalued : ∀ w ∈ (W₀.net boolActions).inputs g, (W.state.value w).isSome) :
    (f.result (slotValues W₀ W gate.input.slots)).isSome := by
  by_cases hdbg : f = .dbg
  · rw [hdbg]
    rfl
  · rw [LogicFunction.result_eq hdbg]
    have hall : ∀ v ∈ slotValues W₀ W gate.input.slots, v.isSome := by
      intro v hv
      obtain ⟨w, hw, rfl⟩ := List.mem_map.mp hv
      exact hvalued w (by rw [(net_gate hg).1]; exact hw)
    obtain ⟨values, hvalues⟩ := Option.isSome_iff_exists.mp (present_isSome.mpr hall)
    have hlen : values.length = (gate.input.slots.filterMap id).length := by
      rw [length_present hvalues, slotValues, List.length_map,
        wiresOf_input (h.network.listedIn hg), List.length_map]
    rw [hvalues, Option.bind_some]
    apply LogicFunction.eval_isSome_of_length hdbg
    · rw [hlen]
      exact (hfan g gate hg).1
    · rintro rfl
      rw [hlen]
      exact (hfan g gate hg).2 hf

variable (h : W₀.DirectBoolNetwork) (hfan : W₀.FanIn)
  (hwf : WellFounded fun g' g => g' ∈ W₀.next g)
  (hout : ∃ gate w, W₀.gates target = some gate ∧ slotAt gate.output.slots 0 = some w)
include h hfan hwf hout

/-- A gate that is executed drives its wire, if it has one. -/
theorem execute_adds (hcall : CallAdds W₀ target call) {g : GateId} {gate : Gate}
    (hg : W₀.gates g = some gate) :
    Adds W₀.Busy (W₀.drivesDue target) (gate.execute.run call g) (visits W₀.next target g) := by
  obtain ⟨f, hf⟩ := (h.bool g gate hg).execute
  have hslot : gate.output.slots[0]? = some (slotAt gate.output.slots 0) := by
    apply slotAt_eq
    rw [(h.bool g gate hg).output]
    exact Nat.zero_lt_one
  have hnext : W₀.next g = (slotAt gate.output.slots 0).elim [] W₀.readers := by
    simp [World.next, hg]
  intro W W' hW hrun
  obtain ⟨b, hb⟩ := Option.isSome_iff_exists.mp (result_isSome_of_valued h hfan hg hf (hW.2 g))
  have hcalled := AtWork.call_eq h.network hW.1 f (h.network.listedIn hg)
  have hgate : W.gates g = some gate := by rw [hW.1.gates, hg]
  have hdrive : lxcDriveWireValue call (some g) (slotAt gate.output.slots 0)
      (some (lxcBoolConstant b)) W = some W' := by
    rw [← hrun]
    simp only [hf, Execute.run, logxBoolExecute, hgate, hslot, hcalled, hb, Option.bind_eq_bind,
      Option.bind_some]
  rw [visits_eq hwf, hnext]
  cases hw : slotAt gate.output.slots 0 with
  | none =>
    have hne : g ≠ target := by
      rintro rfl
      obtain ⟨gate', w, hg', hw'⟩ := hout
      obtain rfl := Option.some.inj (hg.symm.trans hg')
      rw [hw] at hw'
      cases hw'
    rw [hw] at hdrive
    obtain rfl := Option.some.inj hdrive
    rw [if_neg hne]
    exact ⟨hW, rfl⟩
  | some w =>
    have hmem : some w ∈ gate.output.slots := (h.bool g gate hg).mem_output_iff.mpr hw
    obtain ⟨wire, hwire⟩ := h.network.outputs g gate w hg hmem
    rw [hw] at hdrive
    have hadds := lxcDriveWireValue_adds h.network hcall hwire ⟨b, rfl⟩ (some g) W W' hW hdrive
    simpa only [Option.some.injEq, Option.elim_some] using hadds

theorem lxcDoExecute_adds (hcall : CallAdds W₀ target call) {t : QeTask}
    (ht : (W₀.gates t.instance_).isSome) :
    Adds W₀.Busy (W₀.drivesDue target) (lxcDoExecute call t)
      (visits W₀.next target t.instance_) := by
  obtain ⟨gate, hg⟩ := Option.isSome_iff_exists.mp ht
  have henabled := (h.network.enabled t.instance_ gate hg).1
  apply (execute_adds h hfan hwf hout hcall hg).congr
  intro W hW
  simp [lxcDoExecute, hW.1.gates, hg, henabled]

/-- The loop of the loop breaker: what is taken out of the queue is executed. -/
theorem drain_adds (hcall : CallAdds W₀ target call) : ∀ (n : ℕ) (t : QeTask),
    (W₀.gates t.instance_).isSome →
      Adds W₀.Busy (W₀.drivesDue target) (drain call n t) (visits W₀.next target t.instance_) := by
  intro n
  induction n with
  | zero => exact fun t _ W W' _ h => by cases h
  | succ n ih =>
    intro t ht W W' hW hrun
    obtain ⟨W₁, hexec, hrun⟩ := Option.bind_eq_some_iff.mp hrun
    obtain ⟨hW₁, hcount⟩ := lxcDoExecute_adds h hfan hwf hout hcall ht W W₁ hW hexec
    cases hq : W₁.loopBreaker with
    | none =>
      rw [hq] at hrun
      cases hrun
    | some queue =>
      have hpending : W₁.state.pending = queue.map QeTask.instance_ := by
        simp [World.state, State.pending, hq]
      cases queue with
      | nil =>
        rw [hq] at hrun
        obtain rfl := Option.some.inj hrun
        refine ⟨⟨hW₁.1.setLoopBreaker none (by simp), hW₁.2⟩, ?_⟩
        rw [← hcount]
        unfold World.drivesDue
        rw [hpending]
        rfl
      | cons t' queue =>
        rw [hq] at hrun
        have hbusy : W₀.Busy { W₁ with loopBreaker := some queue } := by
          refine ⟨hW₁.1.setLoopBreaker (some queue) ?_, hW₁.2⟩
          intro q t hq' ht
          obtain rfl := Option.some.inj hq'
          exact hW₁.1.tasks _ t hq (List.mem_cons_of_mem _ ht)
        obtain ⟨hW', hrest⟩ := ih t' (hW₁.1.tasks _ t' hq List.mem_cons_self) _ W' hbusy hrun
        refine ⟨hW', ?_⟩
        have hpop : W₀.drivesDue target W₁ = visits W₀.next target t'.instance_ +
            W₀.drivesDue target { W₁ with loopBreaker := some queue } := by
          unfold World.drivesDue
          rw [hpending]
          show _ = _ + (_ + ((queue.map QeTask.instance_).map _).sum)
          rw [List.map_cons, List.map_cons, List.sum_cons]
          show (W₁.drivesOf target).length + _ = _ + ((W₁.drivesOf target).length + _)
          omega
        omega

theorem callBehavior_adds : ∀ n, CallAdds W₀ target (callBehavior n) := by
  intro n
  induction n with
  | zero => exact fun c _ W W' _ h => by cases h
  | succ n ih =>
    intro c hc W W' hW hrun
    obtain ⟨gate, hg⟩ := Option.isSome_iff_exists.mp hc
    have hsome := (h.network.enabled c.gate gate hg).2
    have hgW : W.gates c.gate = some gate := by rw [hW.1.gates, hg]
    simp only [callBehavior, hgW, Option.bind_eq_bind, Option.bind_some] at hrun
    cases hb : gate.executionBehavior with
    | none => simp [hb] at hsome
    | some behavior =>
      rw [hb] at hrun
      cases behavior with
      | default =>
        simp only [lxcExecutionDefaultBehavior, hgW, Option.bind_eq_bind, Option.bind_some] at hrun
        exact execute_adds h hfan hwf hout ih hg W W' hW hrun
      | loopbreaker =>
        simp only [lxcExecutionLoopbreaker] at hrun
        cases hq : W.loopBreaker with
        | none =>
          rw [hq] at hrun
          have hbusy : W₀.Busy { W with loopBreaker := some [] } := by
            refine ⟨hW.1.setLoopBreaker (some []) ?_, hW.2⟩
            intro q t hq' ht
            obtain rfl := Option.some.inj hq'
            cases ht
          obtain ⟨hW', hcount⟩ := drain_adds h hfan hwf hout ih n _ hc _ W' hbusy hrun
          refine ⟨hW', hcount.trans ?_⟩
          unfold World.drivesDue
          simp [World.state, State.pending, hq, World.drivesOf]
        | some queue =>
          rw [hq] at hrun
          obtain rfl := Option.some.inj hrun
          refine ⟨⟨hW.1.setLoopBreaker _ ?_, hW.2⟩, ?_⟩
          · intro q t hq' ht
            obtain rfl := Option.some.inj hq'
            rcases List.mem_append.mp ht with ht | ht
            · exact hW.1.tasks queue t hq ht
            · rw [List.mem_singleton.mp ht]
              exact hc
          · unfold World.drivesDue
            simp [World.state, State.pending, hq, World.drivesOf, Nat.add_assoc]

end Executing

/-! ## Runs -/

section Runs

variable {W W₁ W₂ : World}

theorem isSome_lastDriven {w : WireId} : ∀ (calls : List (WireId × Bool)) (v : Option LxcValue),
    v.isSome ∨ (∃ c ∈ calls, c.1 = w) → (lastDriven w v calls).isSome
  | [], v, h => by
      rcases h with h | ⟨c, hc, -⟩
      · exact h
      · cases hc
  | c :: calls, v, h => by
      show (lastDriven w (if w = c.1 then some (lxcBoolConstant c.2) else v) calls).isSome
      apply isSome_lastDriven calls
      rcases h with h | ⟨c', hc', rfl⟩
      · left
        split
        · rfl
        · exact h
      · rcases List.mem_cons.mp hc' with rfl | hc'
        · left
          rw [if_pos rfl]
          rfl
        · exact .inr ⟨c', hc', rfl⟩

/-- At rest, with values on the primary wires, there are values on all wires that gates read. -/
theorem AtRest.valued (h : W.DirectBoolNetwork) (hfan : W.FanIn)
    (hwf : WellFounded (W.net boolActions).Feeds) (hrest : AtRest W W₁)
    (hprimary : ∀ w, W.PrimaryWire w → (W₁.valueOn w).isSome) : W.Valued W₁ := by
  intro g
  induction g using hwf.induction with
  | _ g ih =>
    intro w hw
    by_cases hdriven : ∃ g', w ∈ (W.net boolActions).outputs g'
    · obtain ⟨g', hout⟩ := hdriven
      have hvalues := ih g' ⟨w, hout, (h.network.mem_readers_iff).mpr hw⟩
      obtain ⟨gate', hg', hslot⟩ := mem_outputs_iff.mp hout
      obtain ⟨f, hf⟩ := (h.bool g' gate' hg').execute
      have hslot' := (h.bool g' gate' hg').mem_output_iff.mp hslot
      obtain ⟨b, hb⟩ :=
        Option.isSome_iff_exists.mp (result_isSome_of_valued h hfan hg' hf hvalues)
      have hlive : (W.net boolActions).Live W₁.state g' := by
        obtain ⟨p, hp⟩ := List.exists_mem_of_length_pos (hfan g' gate' hg').1
        have hp' : some p ∈ gate'.input.slots := by simpa using hp
        obtain ⟨tp, wire, htp, -⟩ := h.network.listedIn hg' p hp'
        have hin : tp.owner ∈ (W.net boolActions).inputs g' :=
          mem_inputs_iff.mpr ⟨gate', p, tp, hg', hp', htp, rfl⟩
        exact ⟨tp.owner, hin, hvalues tp.owner hin⟩
      have hmem : (w, lxcBoolConstant b) ∈
          (W.net boolActions).actions g' ((W.net boolActions).read W₁.state g') := by
        have hread : (W.net boolActions).read W₁.state g' =
            slotValues W W₁ gate'.input.slots := by
          rw [Net.read, (net_gate hg').1]
          rfl
        rw [hread, (net_gate hg').2.2, boolActions_eq hf, hb, hslot']
        exact List.mem_singleton.mpr rfl
      rw [hrest.settled g' hlive _ hmem]
      rfl
    · have hp : W.PrimaryWire w := by
        obtain ⟨gate, p, tp, hg, hslot, htp, rfl⟩ := mem_inputs_iff.mp hw
        obtain ⟨tp', wire, htp', -, hwire, -⟩ := h.network.inputs g gate p hg hslot
        obtain rfl := Option.some.inj (htp.symm.trans htp')
        refine ⟨by rw [hwire]; rfl, fun g' gate' hg' hout => hdriven ⟨g', ?_⟩⟩
        exact mem_outputs_iff.mpr ⟨gate', hg', hout⟩
      exact hprimary w hp

/-- One step along the gates that a gate notifies. -/
theorem mem_next_feeds {g g' : GateId} (hmem : g' ∈ W.next g) :
    (W.net boolActions).Feeds g g' := by
  cases hg : W.gates g with
  | none => simp [World.next, hg] at hmem
  | some gate =>
    cases hw : slotAt gate.output.slots 0 with
    | none => simp [World.next, hg, hw] at hmem
    | some w =>
      have hslot : some w ∈ gate.output.slots := by
        have hget : gate.output.slots[0]? = some (some w) := by
          unfold slotAt at hw
          cases hc : gate.output.slots[0]? with
          | none => simp [hc] at hw
          | some c => simpa [hc] using hw
        exact List.mem_of_getElem? hget
      have hread : g' ∈ W.readers w := by
        simpa only [World.next, hg, hw, Option.elim_some] using hmem
      exact ⟨w, mem_outputs_iff.mpr ⟨gate, hg, hslot⟩, hread⟩

end Runs

/-- In an acyclic network, calls on the primary wires return with the fuel that the wires ask for. Once
    they drove all of them, a further call makes every gate with a wired output drive it once for each
    path from the wire of the call to the gate. -/
theorem drives_once_per_path {W : World} (h : W.DirectBoolNetwork) (hfresh : W.Fresh)
    (hfan : W.FanIn) (hfinite : {g | (W.gates g).isSome}.Finite)
    (hacyclic : ∀ g, ¬ Relation.TransGen W.Feeds g g) :
    (∃ depth : WireId → Nat, ∀ ops : List BoolDrive,
      (∀ op ∈ ops, W.PrimaryWire op.wire ∧ depth op.wire ≤ op.fuel) →
        ∃ W', Run.run BoolDrive.step W ops = some W') ∧
    ∀ ops : List BoolDrive, (∀ op ∈ ops, W.PrimaryWire op.wire) →
      (∀ w, W.PrimaryWire w → ∃ op ∈ ops, op.wire = w) → ∀ W₁ W₂,
      Run.run BoolDrive.step W ops = some W₁ → ∀ op : BoolDrive, W.PrimaryWire op.wire →
      op.step W₁ = some W₂ → ∀ g gate w, W.gates g = some gate →
      gate.output.slots[0]? = some (some w) →
        (W₂.drivesOf g).length = (W₁.drivesOf g).length + {is | W.Path op.wire is g}.ncard := by
  obtain ⟨hforward, hbackward⟩ := h.network.wellFounded hfinite hacyclic
  refine ⟨?_, fun ops hops hall W₁ W₂ hrun op hop hstep g gate w hg hslot => ?_⟩
  · obtain ⟨depth, hdepth⟩ := h.exists_run hbackward
    exact ⟨depth, fun ops hops => hdepth ops W hfresh.atRest hops⟩
  have hwf : WellFounded fun g' g => g' ∈ W.next g := hbackward.mono fun _ _ => mem_next_feeds
  obtain ⟨hrest, hvalues⟩ := run_atRest h ops W W₁ hops hfresh.atRest hrun
  have hvalued : W.Valued W₁ := by
    refine hrest.valued h hfan hforward fun w hw => ?_
    rw [hvalues w hw]
    obtain ⟨op', hop', rfl⟩ := hall w hw
    exact isSome_lastDriven _ _ (.inr ⟨op'.call, List.mem_map_of_mem hop', rfl⟩)
  obtain ⟨wire, hwire⟩ := Option.isSome_iff_exists.mp hop.1
  have hout : ∃ gate w, W.gates g = some gate ∧ slotAt gate.output.slots 0 = some w :=
    ⟨gate, w, hg, by rw [slotAt, hslot]; rfl⟩
  obtain ⟨-, hcount⟩ := lxcDriveWireValue_adds h.network
    (callBehavior_adds h hfan hwf hout op.fuel) hwire ⟨op.value, rfl⟩ none W₁ W₂
    ⟨hrest.work, hvalued⟩ hstep
  obtain ⟨hrest₂, -⟩ := op.step_atRest h hop hrest hstep
  have hidle : ∀ {V : World}, V.loopBreaker = none →
      W.drivesDue g V = (V.drivesOf g).length := by
    intro V hV
    simp [World.drivesDue, World.state, State.pending, hV]
  rw [hidle hrest₂.idle, hidle hrest.idle] at hcount
  rw [hcount]
  simp only [reduceCtorEq, if_false, Nat.zero_add]
  rw [← ncard_leads hwf]
  rfl

/-- The inverter behind the nand gate, which is called through the loop breaker. -/
theorem drives_once_per_path_nandNot :
    ∃ W₁ W₂, Run.run BoolDrive.step (nandNot .directPropagateValue .loopbreaker)
        [⟨9, 0, true⟩, ⟨9, 1, true⟩] = some W₁ ∧ BoolDrive.step W₁ ⟨9, 0, false⟩ = some W₂ ∧
      (W₂.drivesOf 1).length = (W₁.drivesOf 1).length +
        {is | (nandNot .directPropagateValue .loopbreaker).Path 0 is 1}.ncard := by
  have hops : ∀ op ∈ [(⟨9, 0, true⟩ : BoolDrive), ⟨9, 1, true⟩],
      (nandNot .directPropagateValue .loopbreaker).PrimaryWire op.wire := by
    intro op hop
    apply nandNot_primaryWire
    revert op
    decide
  have hall : ∀ w, (nandNot .directPropagateValue .loopbreaker).PrimaryWire w →
      ∃ op ∈ [(⟨9, 0, true⟩ : BoolDrive), ⟨9, 1, true⟩], op.wire = w := by
    intro w hw
    have hlt := nandNot_primaryWire_iff.mp hw
    interval_cases w
    · exact ⟨⟨9, 0, true⟩, List.mem_cons_self, rfl⟩
    · exact ⟨⟨9, 1, true⟩, List.mem_cons_of_mem _ List.mem_cons_self, rfl⟩
  have hfan : (nandNot .directPropagateValue .loopbreaker).FanIn := by
    intro g gate hg
    rcases nandNot_gate hg with ⟨rfl, rfl⟩ | ⟨rfl, rfl⟩
    · exact ⟨by decide, fun h => by cases h⟩
    · exact ⟨by decide, fun h => by cases h⟩
  have hsome : ((Run.run BoolDrive.step (nandNot .directPropagateValue .loopbreaker)
      [⟨9, 0, true⟩, ⟨9, 1, true⟩]).bind fun W => BoolDrive.step W ⟨9, 0, false⟩).isSome := by
    decide
  obtain ⟨W₂, hsome⟩ := Option.isSome_iff_exists.mp hsome
  obtain ⟨W₁, hrun, hstep⟩ := Option.bind_eq_some_iff.mp hsome
  obtain ⟨-, hcounts⟩ := drives_once_per_path (nandNot_boolNetwork .directPropagateValue .loopbreaker)
    (nandNot_fresh _ _) hfan nandNot_finite nandNot_acyclic
  exact ⟨W₁, W₂, hrun, hstep, hcounts _ hops hall W₁ W₂ hrun ⟨9, 0, false⟩
    (nandNot_primaryWire 0 (by decide)) hstep 1 _ _ rfl rfl⟩

end LogxControll
