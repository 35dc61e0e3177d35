/-
  Gates and wires with `DIRECT_PROPAGATE_VALUE` as a propagation network.

  The wiring of the world `W₀` stays as it is while gates are executed; only the values on the
  wires and the queue of the loop breaker change. `callBehavior_refines` says that calling an
  execution behavior is what the network of `W₀` does when a node is notified, for gates whose
  execute function drives what `actions` computes from the values on the wired inputs.
-/
import LogxControll.Lib.Propagation
import LogxControll.Lib.Refinement
import LogxControll.Lib.WalkCount
import LogxControll.Execution.Frame
import LogxControll.Execution.Network

namespace LogxControll

open Propagation Refinement

/-! ## The propagation network of a world -/

/-- A network whose wires propagate directly. -/
abbrev World.DirectNetwork (W : World) : Prop := W.Network .directPropagateValue

/-- What the execute function of a gate drives, as a function of the values on its wired inputs. -/
abbrev Actions := Gate → List (Option LxcValue) → List (WireId × LxcValue)

/-- The gates as nodes, with the wires of their ports, and for a wire the gates it notifies, in
    order. -/
def World.net (W : World) (actions : Actions) : Net GateId WireId LxcValue where
  inputs g := (W.gates g).elim [] fun gate => W.wiresOf .input gate.input.slots
  outputs g := (W.gates g).elim [] fun gate => W.wiresOf .output gate.output.slots
  readers w := (W.wires w).elim [] fun wire =>
    (entries wire.drivens).filterMap fun p => (W.tokenports p).map Tokenport.gate
  actions g l := (W.gates g).elim [] fun gate => actions gate l
  breaks g := (W.gates g).any fun gate => gate.executionBehavior = some .loopbreaker

/-- What an execution changes. -/
def World.state (W : World) : State GateId WireId LxcValue where
  value w := (W.wires w).bind Wire.currentValue
  queue := W.loopBreaker.map (List.map QeTask.instance_)

/-- The same, with what `view` shows of the values. -/
def World.seen (view : LxcValue → LxcValue) (W : World) : State GateId WireId LxcValue where
  value w := (W.state.value w).map view
  queue := W.state.queue

theorem seen_id : World.seen id = World.state := by
  funext W
  unfold World.seen
  simp

/-- What is seen of a new value on a wire. -/
theorem seen_set {view : LxcValue → LxcValue} {w : WireId} {v : LxcValue} {W W' : World}
    (h : W'.state = W.state.set w v) : W'.seen view = (W.seen view).set w (view v) := by
  unfold World.seen State.set
  rw [h]
  congr 1
  funext w'
  by_cases he : w' = w
  · rw [he, State.set_value_self, Function.update_self]
    rfl
  · rw [State.set_value_ne _ he, Function.update_of_ne he]

/-- `W` is the network `W₀` at work, all values meeting `ok`. -/
structure AtWork (W₀ : World) (ok : LxcValue → Prop) (W : World) : Prop where
  gates : W.gates = W₀.gates
  tokenports : W.tokenports = W₀.tokenports
  wires : ∀ w, (W.wires w).map Wire.bare = (W₀.wires w).map Wire.bare
  values : ∀ w v, W.state.value w = some v → ok v
  tasks : ∀ q t, W.loopBreaker = some q → t ∈ q → (W₀.gates t.instance_).isSome

section Network

variable {W₀ W : World} {actions : Actions} {ok : LxcValue → Prop}

theorem net_gate {g : GateId} {gate : Gate} (hg : W₀.gates g = some gate) :
    (W₀.net actions).inputs g = W₀.wiresOf .input gate.input.slots ∧
      (W₀.net actions).outputs g = W₀.wiresOf .output gate.output.slots ∧
      (W₀.net actions).actions g = actions gate := by
  refine ⟨?_, ?_, ?_⟩ <;> simp [World.net, hg]

theorem mem_outputs_iff {g : GateId} {w : WireId} :
    w ∈ (W₀.net actions).outputs g ↔
      ∃ gate, W₀.gates g = some gate ∧ some w ∈ gate.output.slots := by
  cases hg : W₀.gates g with
  | none => simp [World.net, hg]
  | some gate => simp [World.net, hg, wiresOf_output]

theorem mem_inputs_iff {g : GateId} {w : WireId} :
    w ∈ (W₀.net actions).inputs g ↔ ∃ gate p tp, W₀.gates g = some gate ∧
      some p ∈ gate.input.slots ∧ W₀.tokenports p = some tp ∧ tp.owner = w := by
  cases hg : W₀.gates g with
  | none => simp [World.net, hg]
  | some gate =>
    simp only [World.net, hg, Option.elim_some, World.wiresOf, List.mem_filterMap,
      Option.bind_eq_some_iff, slotOwner, Option.map_eq_some_iff]
    constructor
    · rintro ⟨c, hc, p, rfl, tp, htp, hw⟩
      exact ⟨gate, p, tp, rfl, hc, htp, hw⟩
    · rintro ⟨gate', p, tp, hgate, hc, htp, hw⟩
      obtain rfl := Option.some.inj hgate
      exact ⟨some p, hc, p, rfl, tp, htp, hw⟩

theorem World.Network.mem_readers_iff {handler : WireHandler} (h : W₀.Network handler)
    {g : GateId} {w : WireId} :
    g ∈ (W₀.net actions).readers w ↔ w ∈ (W₀.net actions).inputs g := by
  rw [mem_inputs_iff]
  constructor
  · intro hr
    cases hw : W₀.wires w with
    | none => simp [World.net, hw] at hr
    | some wire =>
      obtain ⟨l, hl, hall⟩ := h.drivens w wire hw
      simp only [World.net, hw, Option.elim_some, hl.entries_eq, List.mem_filterMap,
        Option.map_eq_some_iff] at hr
      obtain ⟨p, hp, tp, htp, rfl⟩ := hr
      obtain ⟨tp', gate, htp', howner, hg, hslot⟩ := hall p hp
      obtain rfl := Option.some.inj (htp.symm.trans htp')
      exact ⟨gate, p, tp, hg, hslot, htp, howner⟩
  · rintro ⟨gate, p, tp, hg, hslot, htp, rfl⟩
    obtain ⟨tp', wire, htp', hgate, hw, hp⟩ := h.inputs g gate p hg hslot
    obtain rfl := Option.some.inj (htp.symm.trans htp')
    simp only [World.net, hw, Option.elim_some, List.mem_filterMap, Option.map_eq_some_iff]
    exact ⟨p, hp, tp, htp, hgate⟩

theorem World.Network.wellFormed {handler : WireHandler} (h : W₀.Network handler)
    (hacts : ∀ g gate l, W₀.gates g = some gate →
      ((actions gate l).map Prod.fst).Sublist (gate.output.slots.filterMap id)) :
    (W₀.net actions).WellFormed where
  readers := fun w g => h.mem_readers_iff
  actions := by
    intro g l
    cases hg : W₀.gates g with
    | none => simp [World.net, hg]
    | some gate =>
      rw [(net_gate hg).2.1, (net_gate hg).2.2, wiresOf_output]
      exact hacts g gate l hg
  driver := by
    intro g g' w hw hw'
    obtain ⟨gate, hg, hs⟩ := mem_outputs_iff.mp hw
    obtain ⟨gate', hg', hs'⟩ := mem_outputs_iff.mp hw'
    exact h.driver g g' gate gate' w hg hg' hs hs'

theorem World.PrimaryWire.primary {w : WireId} (h : W₀.PrimaryWire w) :
    (W₀.net actions).Primary w := by
  intro g hg
  obtain ⟨gate, hgate, hslot⟩ := mem_outputs_iff.mp hg
  exact h.2 g gate hgate hslot

theorem World.Network.feeds_iff {handler : WireHandler} (h : W₀.Network handler) (g g' : GateId) :
    (W₀.net actions).Feeds g g' ↔ W₀.Feeds g g' := by
  constructor
  · rintro ⟨w, hout, hread⟩
    obtain ⟨gate, hg, hslot⟩ := mem_outputs_iff.mp hout
    obtain ⟨gate', p, tp, hg', hp, htp, howner⟩ := mem_inputs_iff.mp (h.mem_readers_iff.mp hread)
    exact ⟨gate, gate', w, p, tp, hg, hg', hslot, hp, htp, howner⟩
  · rintro ⟨gate, gate', w, p, tp, hg, hg', hslot, hp, htp, howner⟩
    refine ⟨w, mem_outputs_iff.mpr ⟨gate, hg, hslot⟩, ?_⟩
    exact h.mem_readers_iff.mpr (mem_inputs_iff.mpr ⟨gate', p, tp, hg', hp, htp, howner⟩)

theorem World.Network.transGen_feeds {handler : WireHandler} (h : W₀.Network handler)
    {g g' : GateId} (hg : Relation.TransGen (W₀.net actions).Feeds g g') :
    Relation.TransGen W₀.Feeds g g' :=
  Relation.TransGen.mono (fun g g' => (h.feeds_iff g g').mp) g g' hg

/-- No infinite chain of gates, in either direction. -/
theorem World.Network.wellFounded {handler : WireHandler} (h : W₀.Network handler)
    (hfinite : {g | (W₀.gates g).isSome}.Finite)
    (hacyclic : ∀ g, ¬ Relation.TransGen W₀.Feeds g g) :
    WellFounded (W₀.net actions).Feeds ∧
      WellFounded fun g' g => (W₀.net actions).Feeds g g' := by
  have hgates : ∀ g g', (W₀.net actions).Feeds g g' →
      (W₀.gates g).isSome ∧ (W₀.gates g').isSome := by
    intro g g' hf
    obtain ⟨gate, gate', -, -, -, hg, hg', -⟩ := (h.feeds_iff g g').mp hf
    exact ⟨by rw [hg]; rfl, by rw [hg']; rfl⟩
  have hno : ∀ g, ¬ Relation.TransGen (W₀.net actions).Feeds g g :=
    fun g hg => hacyclic g (h.transGen_feeds hg)
  refine ⟨Acyclic.wellFounded_of_acyclic hfinite hgates hno, ?_⟩
  apply Acyclic.wellFounded_of_acyclic hfinite (fun g' g hf => (hgates g g' hf).symm)
  intro g hg
  exact hno g (Relation.transGen_swap.mp hg)

end Network

/-! ## Work keeps the network -/

namespace AtWork

variable {W₀ W : World} {ok : LxcValue → Prop}

theorem wire (h : AtWork W₀ ok W) {w : WireId} {wire₀ : Wire} (hw : W₀.wires w = some wire₀) :
    ∃ wire, W.wires w = some wire ∧ wire.bare = wire₀.bare := by
  have := h.wires w
  rw [hw, Option.map_some, Option.map_eq_some_iff] at this
  exact this

/-- A new value on a wire. -/
theorem setWire (h : AtWork W₀ ok W) {w : WireId} {wire : Wire} (hw : W.wires w = some wire)
    {v : LxcValue} (hv : ok v) :
    AtWork W₀ ok (W.setWire w { wire with currentValue := some v }) ∧
      (W.setWire w { wire with currentValue := some v }).state = W.state.set w v := by
  have hstate : (W.setWire w { wire with currentValue := some v }).state = W.state.set w v := by
    unfold World.state State.set
    congr 1
    funext w'
    show ((Function.update W.wires w _) w').bind _ = _
    by_cases he : w' = w
    · rw [he, Function.update_self, Function.update_self]
      rfl
    · rw [Function.update_of_ne he, Function.update_of_ne he]
  refine ⟨⟨h.gates, h.tokenports, ?_, ?_, h.tasks⟩, hstate⟩
  · intro w'
    rw [← h.wires w']
    by_cases he : w' = w
    · subst he
      show ((Function.update W.wires w' _) w').map _ = _
      rw [Function.update_self, hw]
      rfl
    · exact congrArg _ (Function.update_of_ne he _ W.wires)
  · intro w' v' hv'
    rw [hstate] at hv'
    by_cases he : w' = w
    · subst he
      rw [State.set_value_self, Option.some.injEq] at hv'
      exact hv' ▸ hv
    · rw [State.set_value_ne _ he] at hv'
      exact h.values w' v' hv'

theorem note (h : AtWork W₀ ok W) (instance_ : Option GateId) (v : LxcValue) :
    AtWork W₀ ok (W.note instance_ v) ∧ (W.note instance_ v).state = W.state := by
  cases instance_ with
  | none => exact ⟨h, rfl⟩
  | some g => exact ⟨⟨h.gates, h.tokenports, h.wires, h.values, h.tasks⟩, rfl⟩

theorem setLoopBreaker (h : AtWork W₀ ok W) (q : Option (List QeTask))
    (hq : ∀ q' t, q = some q' → t ∈ q' → (W₀.gates t.instance_).isSome) :
    AtWork W₀ ok { W with loopBreaker := q } :=
  ⟨h.gates, h.tokenports, h.wires, h.values, hq⟩

/-- The token of a listed port is the value of its wire. -/
theorem token_eq (h : AtWork W₀ ok W) (hnet : W₀.DirectNetwork) {p : TokenportId} {tp : Tokenport}
    {wire₀ : Wire} (htp : W₀.tokenports p = some tp) (hw : W₀.wires tp.owner = some wire₀) :
    lxcGetTokenValue W p = some (W.state.value tp.owner) := by
  obtain ⟨wire, hw', he⟩ := h.wire hw
  have hdirect : wire.handler = .directPropagateValue := by
    have : wire.handler = wire₀.handler := by simpa [Wire.bare] using congrArg Wire.handler he
    rw [this, hnet.handler tp.owner wire₀ hw]
  simp [lxcGetTokenValue, h.tokenports, htp, hw', hdirect, World.state]

end AtWork

/-! ## Driving a wire -/

section Refinement

variable {W₀ : World} {actions : Actions} {ok : LxcValue → Prop} {view : LxcValue → LxcValue}
  {call : ExecCall → World → Option World}
  {notify : GateId → State GateId WireId LxcValue → Option (State GateId WireId LxcValue)}

/-- The behaviors that are called do what `notify` does. -/
def CallRefines (W₀ : World) (ok : LxcValue → Prop) (call : ExecCall → World → Option World)
    (notify : GateId → State GateId WireId LxcValue →
      Option (State GateId WireId LxcValue)) : Prop :=
  ∀ c : ExecCall, (W₀.gates c.gate).isSome →
    Refines (AtWork W₀ ok) World.state (call c) (notify c.gate)

/-- The same, for what `view` shows. -/
def CallShows (W₀ : World) (ok : LxcValue → Prop) (view : LxcValue → LxcValue)
    (call : ExecCall → World → Option World)
    (notify : GateId → State GateId WireId LxcValue →
      Option (State GateId WireId LxcValue)) : Prop :=
  ∀ c : ExecCall, (W₀.gates c.gate).isSome →
    Refines (AtWork W₀ ok) (World.seen view) (call c) (notify c.gate)

theorem callShows_id : CallShows W₀ ok id call notify ↔ CallRefines W₀ ok call notify := by
  unfold CallShows CallRefines
  rw [seen_id]

theorem notifyGate_shows (hnet : W₀.DirectNetwork) (hcall : CallShows W₀ ok view call notify)
    {signal : Signal} {subtype : Int} {v : LxcValue} {p : TokenportId} {tp : Tokenport}
    {gate : Gate} (htp : W₀.tokenports p = some tp) (hg : W₀.gates tp.gate = some gate) :
    Refines (AtWork W₀ ok) (World.seen view) (notifyGate call signal subtype v p)
      (notify tp.gate) := by
  have henabled := hnet.enabled tp.gate gate hg
  apply (hcall ⟨tp.gate, signal, subtype, v, tp.index⟩ (by rw [hg]; rfl)).congr
  · intro W hW
    simp only [notifyGate, hW.tokenports, hW.gates, htp, hg, henabled, Option.bind_eq_bind,
      Option.bind_some, and_self, if_true]
  · intro _ _
    rfl

/-- The loop over the driven ports notifies their gates. -/
theorem notifyPorts_shows (hnet : W₀.DirectNetwork) (hcall : CallShows W₀ ok view call notify)
    (signal : Signal) (subtype : Int) (v : LxcValue) (k : Nat) :
    ∀ l : List TokenportId, (∀ p ∈ l, ∃ tp gate, W₀.tokenports p = some tp ∧
        W₀.gates tp.gate = some gate) →
      Refines (AtWork W₀ ok) (World.seen view)
        (notifyPorts call (fun _ W => some W) signal subtype v
          (l.map some ++ List.replicate k none))
        (notifyAll notify (l.filterMap fun p => (W₀.tokenports p).map Tokenport.gate)) := by
  intro l
  induction l with
  | nil =>
    intro _
    cases k with
    | zero => exact .pure
    | succ k => exact .pure
  | cons p l ih =>
    intro hall
    obtain ⟨tp, gate, htp, hg⟩ := hall p List.mem_cons_self
    have hrest := ih fun p' hp' => hall p' (List.mem_cons_of_mem _ hp')
    have hgates : (p :: l).filterMap (fun p => (W₀.tokenports p).map Tokenport.gate) =
        tp.gate :: l.filterMap fun p => (W₀.tokenports p).map Tokenport.gate := by
      rw [List.filterMap_cons, htp, Option.map_some]
    rw [hgates]
    exact (notifyGate_shows hnet hcall htp hg).bind hrest

theorem lxcDriveWireValue_shows (hnet : W₀.DirectNetwork) (hcall : CallShows W₀ ok view call notify)
    {w : WireId} {wire₀ : Wire} (hw : W₀.wires w = some wire₀) {v : LxcValue} (hv : ok v)
    (instance_ : Option GateId) :
    Refines (AtWork W₀ ok) (World.seen view) (lxcDriveWireValue call instance_ w v)
      ((W₀.net actions).drive notify w (view v)) := by
  obtain ⟨l, ⟨k, hl⟩, hall⟩ := hnet.drivens w wire₀ hw
  have hreaders : (W₀.net actions).readers w =
      l.filterMap fun p => (W₀.tokenports p).map Tokenport.gate := by
    simp [World.net, hw, IsNt.entries_eq ⟨k, hl⟩]
  intro W hW
  obtain ⟨hWn, hnote⟩ := hW.note instance_ v
  have hseen : (W.note instance_ v).seen view = W.seen view := by
    unfold World.seen
    rw [hnote]
  obtain ⟨wire, hw', he⟩ := hWn.wire hw
  have hdirect : wire.handler = .directPropagateValue := by
    have : wire.handler = wire₀.handler := by simpa [Wire.bare] using congrArg Wire.handler he
    rw [this, hnet.handler w wire₀ hw]
  have hdrivens : wire.drivens = l.map some ++ List.replicate k none := by
    have : wire.drivens = wire₀.drivens := by simpa [Wire.bare] using congrArg Wire.drivens he
    rw [this, hl]
  obtain ⟨hW', hset⟩ := hWn.setWire hw' hv
  have hdrive : lxcDriveWireValue call instance_ w v W =
      notifyPorts call (fun _ W => some W) wire.type wire.subtype v
        (l.map some ++ List.replicate k none)
        ((W.note instance_ v).setWire w { wire with currentValue := some v }) := by
    rw [← hdrivens]
    simp only [lxcDriveWireValue, writeNewValue, hw', hdirect, wireDirectPropagateWireNewValue,
      Option.bind_eq_bind, Option.bind_some]
  have hports := notifyPorts_shows hnet hcall wire.type wire.subtype v k l
    (fun p hp => by
      obtain ⟨tp, gate, htp, -, hg, -⟩ := hall p hp
      exact ⟨tp, gate, htp, hg⟩) _ hW'
  rw [seen_set hset, hseen] at hports
  rw [hdrive]
  unfold Net.drive
  rw [hreaders]
  exact hports

/-! ## Executing a gate -/

/-- Every execute function drives what `actions` computes. -/
def ExecutesAs (W₀ : World) (ok : LxcValue → Prop) (actions : Actions) : Prop :=
  ∀ (call : ExecCall → World → Option World)
    (notify : GateId → State GateId WireId LxcValue → Option (State GateId WireId LxcValue)),
    CallRefines W₀ ok call notify → ∀ g gate, W₀.gates g = some gate →
    Refines (AtWork W₀ ok) World.state (fun W => gate.execute.run call g W)
      ((W₀.net actions).fire notify g)

/-- The same, for what `view` shows. -/
def ExecutesShown (W₀ : World) (ok : LxcValue → Prop) (view : LxcValue → LxcValue)
    (actions : Actions) : Prop :=
  ∀ (call : ExecCall → World → Option World)
    (notify : GateId → State GateId WireId LxcValue → Option (State GateId WireId LxcValue)),
    CallShows W₀ ok view call notify → ∀ g gate, W₀.gates g = some gate →
    Refines (AtWork W₀ ok) (World.seen view) (fun W => gate.execute.run call g W)
      ((W₀.net actions).fire notify g)

theorem executesShown_id : ExecutesShown W₀ ok id actions ↔ ExecutesAs W₀ ok actions := by
  unfold ExecutesShown ExecutesAs
  rw [seen_id]
  simp only [callShows_id]

theorem lxcExecutionDefaultBehavior_shows (hexec : ExecutesShown W₀ ok view actions)
    (hcall : CallShows W₀ ok view call notify) {c : ExecCall} {gate : Gate}
    (hg : W₀.gates c.gate = some gate) :
    Refines (AtWork W₀ ok) (World.seen view) (lxcExecutionDefaultBehavior call c)
      ((W₀.net actions).fire notify c.gate) := by
  apply (hexec call notify hcall c.gate gate hg).congr
  · intro W hW
    simp [lxcExecutionDefaultBehavior, hW.gates, hg]
  · intro _ _
    rfl

theorem lxcDoExecute_shows (hnet : W₀.DirectNetwork) (hexec : ExecutesShown W₀ ok view actions)
    (hcall : CallShows W₀ ok view call notify) {t : QeTask} {gate : Gate}
    (hg : W₀.gates t.instance_ = some gate) :
    Refines (AtWork W₀ ok) (World.seen view) (lxcDoExecute call t)
      ((W₀.net actions).fire notify t.instance_) := by
  have henabled := (hnet.enabled t.instance_ gate hg).1
  apply (hexec call notify hcall t.instance_ gate hg).congr
  · intro W hW
    simp [lxcDoExecute, hW.gates, hg, henabled]
  · intro _ _
    rfl

/-- The loop of the loop breaker. -/
theorem drain_shows (hnet : W₀.DirectNetwork) (hexec : ExecutesShown W₀ ok view actions)
    (hcall : CallShows W₀ ok view call notify) :
    ∀ (n : Nat) (t : QeTask), (W₀.gates t.instance_).isSome →
      Refines (AtWork W₀ ok) (World.seen view) (drain call n t)
        ((W₀.net actions).drain notify n t.instance_) := by
  intro n
  induction n with
  | zero =>
    intro t _ W _
    exact ⟨rfl, fun W' h => by cases h⟩
  | succ n ih =>
    intro t ht
    obtain ⟨gate, hg⟩ := Option.isSome_iff_exists.mp ht
    refine (lxcDoExecute_shows hnet hexec hcall hg).bind ?_
    intro W hW
    cases hq : W.loopBreaker with
    | none =>
      have hstate : (W.seen view).queue = none := by simp [World.seen, World.state, hq]
      simp only [hstate, hq]
      exact ⟨rfl, fun W' h => by cases h⟩
    | some queue =>
      cases queue with
      | nil =>
        have hstate : (W.seen view).queue = some [] := by simp [World.seen, World.state, hq]
        simp only [hstate, hq]
        refine ⟨rfl, fun W' h => ?_⟩
        obtain rfl := Option.some.inj h
        exact hW.setLoopBreaker none (by simp)
      | cons t' queue =>
        have hstate : (W.seen view).queue = some (t'.instance_ :: queue.map QeTask.instance_) := by
          simp [World.seen, World.state, hq]
        simp only [hstate, hq]
        have hW' := hW.setLoopBreaker (some queue) (by
          intro q t hq' ht
          obtain rfl := Option.some.inj hq'
          exact hW.tasks _ t hq (List.mem_cons_of_mem _ ht))
        exact ih t' (hW.tasks _ t' hq List.mem_cons_self) _ hW'

/-- Calling an execution behavior shows what the network does when the node is notified. -/
theorem callBehavior_shows (hnet : W₀.DirectNetwork) (hexec : ExecutesShown W₀ ok view actions) :
    ∀ n, CallShows W₀ ok view (callBehavior n) ((W₀.net actions).notify n) := by
  intro n
  induction n with
  | zero =>
    intro c _ W _
    exact ⟨rfl, fun W' h => by cases h⟩
  | succ n ih =>
    intro c hc W hW
    obtain ⟨gate, hg⟩ := Option.isSome_iff_exists.mp hc
    have hsome := (hnet.enabled c.gate gate hg).2
    have hgW : W.gates c.gate = some gate := by rw [hW.gates, hg]
    simp only [callBehavior, hgW, Option.bind_eq_bind, Option.bind_some]
    cases hb : gate.executionBehavior with
    | none => simp [hb] at hsome
    | some behavior =>
      cases behavior with
      | default =>
        have hbreaks : (W₀.net actions).breaks c.gate = false := by simp [World.net, hg, hb]
        unfold Net.notify
        simp only [hbreaks, Bool.false_eq_true, if_false]
        exact lxcExecutionDefaultBehavior_shows hexec ih hg W hW
      | loopbreaker =>
        have hbreaks : (W₀.net actions).breaks c.gate = true := by simp [World.net, hg, hb]
        unfold Net.notify lxcExecutionLoopbreaker
        simp only [hbreaks, if_true]
        cases hq : W.loopBreaker with
        | none =>
          have hstate : (W.seen view).queue = none := by simp [World.seen, World.state, hq]
          simp only [hstate]
          have hW' := hW.setLoopBreaker (some []) (by
            intro q t hq' ht
            obtain rfl := Option.some.inj hq'
            cases ht)
          exact drain_shows hnet hexec ih n ⟨c.gate, c.value, c.index⟩ hc _ hW'
        | some queue =>
          have hstate : (W.seen view).queue = some (queue.map QeTask.instance_) := by
            simp [World.seen, World.state, hq]
          simp only [hstate]
          refine ⟨?_, fun W' h => ?_⟩
          · simp [World.seen, World.state]
          · obtain rfl := Option.some.inj h
            apply hW.setLoopBreaker
            intro q t hq' ht
            obtain rfl := Option.some.inj hq'
            rcases List.mem_append.mp ht with ht | ht
            · exact hW.tasks queue t hq ht
            · rw [List.mem_singleton.mp ht]
              exact hc

/-! ## With all of the values -/

theorem lxcDriveWireValue_refines (hnet : W₀.DirectNetwork) (hcall : CallRefines W₀ ok call notify)
    {w : WireId} {wire₀ : Wire} (hw : W₀.wires w = some wire₀) {v : LxcValue} (hv : ok v)
    (instance_ : Option GateId) :
    Refines (AtWork W₀ ok) World.state (lxcDriveWireValue call instance_ w v)
      ((W₀.net actions).drive notify w v) := by
  rw [← seen_id]
  exact lxcDriveWireValue_shows hnet (callShows_id.mpr hcall) hw hv instance_

/-- Calling an execution behavior does what the network does when the node is notified. -/
theorem callBehavior_refines (hnet : W₀.DirectNetwork) (hexec : ExecutesAs W₀ ok actions) :
    ∀ n, CallRefines W₀ ok (callBehavior n) ((W₀.net actions).notify n) :=
  fun n => callShows_id.mp (callBehavior_shows hnet (executesShown_id.mpr hexec) n)

end Refinement

end LogxControll
