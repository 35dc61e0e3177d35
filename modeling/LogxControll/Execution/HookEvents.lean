/-
  The debug hooks of a wire while it is driven: `raise_wire_hook_calls` and
  `wire_direct_propagate_wire_new_value` (`core/facet.c`) with the hook calls that the functions of
  `Core/Execution.lean` leave out.

  A run is described by its log: the calls of hooks, and the beginning and the end of every
  execution of a gate. The execution itself is the parameter `call`, which returns the log of
  what happens inside, the nested writes, with the memory after it; whatever it does,
  `direct_write_seen` is what one hook sees of the write. Hooks observe and change nothing.
-/
import LogxControll.Core.DebugHooks
import LogxControll.Core.Execution

namespace LogxControll

/-- `enum lxc_wire_operation_phase` -/
inductive LxcWireOperationPhase where
  | lxcBeforeWireDriven
  | lxcBeforeGateNotified
  | lxcAfterGateNotified
  | lxcAfterWireDriven
  deriving DecidableEq, Repr

/-- The arguments of a call of `wire_debug_hook` after the hook itself. -/
structure HookEvent where
  phase : LxcWireOperationPhase
  thisWire : WireId
  subjectGate : Option GateId
  subjectPortIndex : Nat
  value : LxcValue
  type : Signal
  subtype : Int
  deriving DecidableEq, Repr

/-- A call of a hook, or the beginning or the end of an execution. -/
inductive LogEntry where
  | raised (hook : HookId) (event : HookEvent)
  | begins (c : ExecCall)
  | ends (c : ExecCall)
  deriving DecidableEq, Repr

/-- The loop of `raise_wire_hook_calls`. -/
def callHooks (event : HookEvent) : List (Option KeyValue) → Option (List LogEntry)
  | [] => none
  | none :: _ => some []
  | some box :: entries => (callHooks event entries).map (.raised box.value event :: ·)

/-- `raise_wire_hook_calls` -/
def raiseWireHookCalls (hooks : PntArray KeyValue) (event : HookEvent) :
    Option (List LogEntry) :=
  match hooks with
  | none => some []
  | some entries => callHooks event entries

namespace Hooked

variable (call : ExecCall → World → Option (List LogEntry × World)) (hooks : PntArray KeyValue)
  (w : WireId) (signal : Signal) (subtype : Int) (value : LxcValue)

/-- The event that is raised around the notification of a gate. -/
def gateEvent (phase : LxcWireOperationPhase) (tp : Tokenport) : HookEvent :=
  { phase := phase, thisWire := w, subjectGate := tp.gate, subjectPortIndex := tp.index,
    value := value, type := signal, subtype := subtype }

/-- The execution of the gate of a port. -/
def execCall (tp : Tokenport) : ExecCall :=
  { gate := tp.gate, type := signal, subtype := subtype, value := value, index := tp.index }

/-- `if(NULL != wire_debug_hooks) raise_wire_hook_calls(phase, wire, p->gate, p->index, value)` -/
def raiseGateEvent (phase : LxcWireOperationPhase) (p : TokenportId) (W : World) :
    Option (List LogEntry) :=
  match hooks with
  | none => some []
  | some entries => do
    let tp ← W.tokenports p
    raiseWireHookCalls (some entries) (gateEvent w signal subtype value phase tp)

/-- One turn of the loop. The event after the block is raised whether or not the gate was
    executed. -/
def notifyGate (p : TokenportId) (W : World) : Option (List LogEntry × World) := do
  let tp ← W.tokenports p
  let gate ← W.gates tp.gate
  let raise := raiseGateEvent hooks w signal subtype value
  if gate.enabled ∧ gate.executionBehavior.isSome then
    let c := execCall signal subtype value tp
    let before ← raise .lxcBeforeGateNotified p W
    let (nested, W) ← call c W
    let after ← raise .lxcAfterGateNotified p W
    let again ← raise .lxcAfterGateNotified p W
    return (before ++ .begins c :: nested ++ .ends c :: after ++ again, W)
  else
    let again ← raise .lxcAfterGateNotified p W
    return (again, W)

/-- The loop over the driven ports, up to the first NULL. -/
def notifyPorts : NtArray TokenportId → World → Option (List LogEntry × World)
  | [], W => some ([], W)
  | none :: _, W => some ([], W)
  | some p :: ports, W => do
    let (log, W) ← notifyGate call hooks w signal subtype value p W
    let (more, W) ← notifyPorts ports W
    return (log ++ more, W)

end Hooked

/-- The event of the whole write. -/
def wireEvent (w : WireId) (wire : Wire) (instance_ : Option GateId) (outIndex : Nat)
    (value : LxcValue) (phase : LxcWireOperationPhase) : HookEvent :=
  { phase := phase, thisWire := w, subjectGate := instance_, subjectPortIndex := outIndex,
    value := value, type := wire.type, subtype := wire.subtype }

/-- `wire_direct_propagate_wire_new_value` with its hooks. Behind the loop nothing is raised. -/
def Hooked.wireDirectPropagateWireNewValue
    (call : ExecCall → World → Option (List LogEntry × World)) (hooks : PntArray KeyValue)
    (instance_ : Option GateId) (outIndex : Nat) (w : WireId) (value : LxcValue) (W : World) :
    Option (List LogEntry × World) := do
  let wire ← W.wires w
  let before ← raiseWireHookCalls hooks
    (wireEvent w wire instance_ outIndex value .lxcBeforeWireDriven)
  let (log, W) ← Hooked.notifyPorts call hooks w wire.type wire.subtype value wire.drivens
    (W.setWire w { wire with currentValue := value })
  return (before ++ log, W)

/-! ## What one hook sees -/

/-- The entries that concern the hook: its calls, and the executions of gates. -/
def LogEntry.seenBy (hook : HookId) : LogEntry → Bool
  | .raised hook' _ => hook' = hook
  | .begins _ => true
  | .ends _ => true

/-- The log without the calls of the other hooks. -/
def seen (hook : HookId) (log : List LogEntry) : List LogEntry := log.filter (·.seenBy hook)

/-- The gate of the port is enabled and has an execution behavior. -/
def World.Notifies (W : World) (tp : Tokenport) : Prop :=
  ∃ gate, W.gates tp.gate = some gate ∧ gate.enabled ∧ gate.executionBehavior.isSome

section

variable (call : ExecCall → World → Option (List LogEntry × World)) (hook : HookId)
  (raised : LxcWireOperationPhase → Tokenport → LogEntry) (execCall : Tokenport → ExecCall)
  (extra : Tokenport → List LogEntry)

/-- The driven ports as the hook sees them: the gates that are enabled when the loop reaches them
    are announced, executed and reported, in the order of the ports, and every port reached is
    followed by `extra`. -/
inductive PortsSeen : NtArray TokenportId → World → List LogEntry → World → Prop
  | nil {W : World} : PortsSeen [] W [] W
  | null {W : World} {ports : NtArray TokenportId} : PortsSeen (none :: ports) W [] W
  | skipped {W W' : World} {p : TokenportId} {tp : Tokenport} {ports : NtArray TokenportId}
      {log : List LogEntry} (hport : W.tokenports p = some tp) (hidle : ¬ W.Notifies tp)
      (hrest : PortsSeen ports W log W') : PortsSeen (some p :: ports) W (extra tp ++ log) W'
  | executed {W W₁ W' : World} {p : TokenportId} {tp tp' : Tokenport}
      {ports : NtArray TokenportId} {nested log : List LogEntry}
      (hport : W.tokenports p = some tp) (hnotifies : W.Notifies tp)
      (hcall : call (execCall tp) W = some (nested, W₁)) (hport' : W₁.tokenports p = some tp')
      (hrest : PortsSeen ports W₁ log W') :
      PortsSeen (some p :: ports) W
        (raised .lxcBeforeGateNotified tp :: .begins (execCall tp) :: seen hook nested ++
          .ends (execCall tp) :: raised .lxcAfterGateNotified tp' :: extra tp' ++ log) W'

end

/-- The hook sees the write begin, then each executed gate announced and reported once, and then
    the write end. -/
def Bracketed (call : ExecCall → World → Option (List LogEntry × World)) (hook : HookId)
    (instance_ : Option GateId) (outIndex : Nat) (w : WireId) (wire : Wire) (value : LxcValue)
    (W : World) (log : List LogEntry) (W' : World) : Prop :=
  ∃ ports, PortsSeen call hook
      (fun phase tp =>
        .raised hook (Hooked.gateEvent w wire.type wire.subtype value phase tp))
      (Hooked.execCall wire.type wire.subtype value) (fun _ => [])
      wire.drivens (W.setWire w { wire with currentValue := value }) ports W' ∧
    seen hook log =
      .raised hook (wireEvent w wire instance_ outIndex value .lxcBeforeWireDriven) ::
        ports ++ [.raised hook (wireEvent w wire instance_ outIndex value .lxcAfterWireDriven)]

/-! ## Raising an event -/

section

variable {hooks : PntArray KeyValue} {l : List KeyValue} {hook : HookId}

theorem raiseWireHookCalls_eq (h : Packed hooks l) (event : HookEvent) :
    raiseWireHookCalls hooks event = some (l.map fun box => .raised box.value event) := by
  have hblock : callHooks event (l.map some ++ [none]) =
      some (l.map fun box => .raised box.value event) := by
    clear h
    induction l with
    | nil => rfl
    | cons box l ih =>
      rw [List.map_cons, List.cons_append, callHooks, ih]
      rfl
  rcases h with ⟨rfl, rfl⟩ | rfl
  · rfl
  · exact hblock

@[simp] theorem seen_append (log more : List LogEntry) :
    seen hook (log ++ more) = seen hook log ++ seen hook more :=
  List.filter_append ..

@[simp] theorem seen_begins (c : ExecCall) (log : List LogEntry) :
    seen hook (.begins c :: log) = .begins c :: seen hook log := rfl

@[simp] theorem seen_ends (c : ExecCall) (log : List LogEntry) :
    seen hook (.ends c :: log) = .ends c :: seen hook log := rfl

theorem seen_raised_cons (hook' : HookId) (event : HookEvent) (log : List LogEntry) :
    seen hook (.raised hook' event :: log) =
      if hook' = hook then .raised hook' event :: seen hook log else seen hook log := by
  simp [seen, List.filter_cons, LogEntry.seenBy]

/-- A hook sees an event as often as it is registered. -/
theorem seen_raised (l : List KeyValue) (event : HookEvent) :
    seen hook (l.map fun box => .raised box.value event) =
      List.replicate ((l.map KeyValue.value).count hook) (.raised hook event) := by
  induction l with
  | nil => rfl
  | cons box l ih =>
    rw [List.map_cons, seen_raised_cons, ih]
    by_cases hbox : box.value = hook
    · simp [hbox, List.replicate_succ]
    · simp [hbox]

end

/-! ## The loop over the driven ports -/

section

variable {call : ExecCall → World → Option (List LogEntry × World)} {hooks : PntArray KeyValue}
  {l : List KeyValue} {w : WireId} {signal : Signal} {subtype : Int} {value : LxcValue}
  {hook : HookId}

theorem raiseGateEvent_seen (h : Packed hooks l) (hpos : hook ∈ l.map KeyValue.value)
    {phase : LxcWireOperationPhase} {p : TokenportId} {W : World} {log : List LogEntry}
    (hraise : Hooked.raiseGateEvent hooks w signal subtype value phase p W = some log) :
    ∃ tp, W.tokenports p = some tp ∧
      seen hook log = List.replicate ((l.map KeyValue.value).count hook)
        (.raised hook (Hooked.gateEvent w signal subtype value phase tp)) := by
  cases hooks with
  | none =>
    rcases h with ⟨-, rfl⟩ | h
    · cases hpos
    · cases h
  | some entries =>
    obtain ⟨tp, htp, hraise⟩ := Option.bind_eq_some_iff.mp hraise
    rw [raiseWireHookCalls_eq h] at hraise
    obtain rfl := Option.some.inj hraise
    exact ⟨tp, htp, seen_raised l _⟩

/-- One turn of the loop: what the hook sees of an executed gate, and of a port passed over. -/
theorem notifyGate_seen (h : Packed hooks l) (honce : (l.map KeyValue.value).count hook = 1)
    {p : TokenportId} {W W' : World} {log : List LogEntry}
    (hnotify : Hooked.notifyGate call hooks w signal subtype value p W = some (log, W')) :
    ∃ tp, W.tokenports p = some tp ∧
      (¬ W.Notifies tp ∧ W' = W ∧
        seen hook log =
          [.raised hook (Hooked.gateEvent w signal subtype value .lxcAfterGateNotified tp)] ∨
      W.Notifies tp ∧ ∃ nested tp',
        call (Hooked.execCall signal subtype value tp) W = some (nested, W') ∧
        W'.tokenports p = some tp' ∧
        seen hook log =
          .raised hook (Hooked.gateEvent w signal subtype value .lxcBeforeGateNotified tp) ::
            .begins (Hooked.execCall signal subtype value tp) :: seen hook nested ++
          .ends (Hooked.execCall signal subtype value tp) ::
            .raised hook (Hooked.gateEvent w signal subtype value .lxcAfterGateNotified tp') ::
            [.raised hook
              (Hooked.gateEvent w signal subtype value .lxcAfterGateNotified tp')]) := by
  have hpos : hook ∈ l.map KeyValue.value := List.count_pos_iff.mp (by omega)
  simp only [Hooked.notifyGate, Option.bind_eq_bind, Option.bind_eq_some_iff] at hnotify
  obtain ⟨tp, htp, gate, hgate, hnotify⟩ := hnotify
  refine ⟨tp, htp, ?_⟩
  by_cases hon : gate.enabled ∧ gate.executionBehavior.isSome
  · rw [if_pos hon] at hnotify
    simp only [Option.bind_eq_some_iff] at hnotify
    obtain ⟨before, hbefore, ⟨nested, W₁⟩, hcall, after, hafter, again, hagain, hresult⟩ := hnotify
    obtain ⟨rfl, rfl⟩ := Prod.mk.inj (Option.some.inj hresult)
    obtain ⟨tp₀, htp₀, hbefore⟩ := raiseGateEvent_seen h hpos hbefore
    obtain ⟨tp', htp', hafter⟩ := raiseGateEvent_seen h hpos hafter
    obtain ⟨tp'', htp'', hagain⟩ := raiseGateEvent_seen h hpos hagain
    obtain rfl : tp₀ = tp := Option.some.inj (htp₀.symm.trans htp)
    obtain rfl : tp'' = tp' := Option.some.inj (htp''.symm.trans htp')
    refine .inr ⟨⟨gate, hgate, hon⟩, nested, _, hcall, htp', ?_⟩
    simp [hbefore, hafter, hagain, honce]
  · rw [if_neg hon] at hnotify
    obtain ⟨again, hagain, hresult⟩ := Option.bind_eq_some_iff.mp hnotify
    obtain ⟨rfl, rfl⟩ := Prod.mk.inj (Option.some.inj hresult)
    obtain ⟨tp', htp', hagain⟩ := raiseGateEvent_seen h hpos hagain
    obtain rfl : tp' = tp := Option.some.inj (htp'.symm.trans htp)
    refine .inl ⟨?_, rfl, by rw [hagain, honce]; rfl⟩
    rintro ⟨gate', hgate', hon'⟩
    obtain rfl : gate' = gate := Option.some.inj (hgate'.symm.trans hgate)
    exact hon hon'

theorem notifyPorts_seen (h : Packed hooks l) (honce : (l.map KeyValue.value).count hook = 1)
    {W' : World} : ∀ {ports : NtArray TokenportId} {W : World} {log : List LogEntry},
    Hooked.notifyPorts call hooks w signal subtype value ports W = some (log, W') →
    PortsSeen call hook
      (fun phase tp => .raised hook (Hooked.gateEvent w signal subtype value phase tp))
      (Hooked.execCall signal subtype value)
      (fun tp =>
        [.raised hook (Hooked.gateEvent w signal subtype value .lxcAfterGateNotified tp)])
      ports W (seen hook log) W'
  | [], _, _, hports => by
    cases hports
    exact .nil
  | none :: _, _, _, hports => by
    cases hports
    exact .null
  | some p :: ports, W, log, hports => by
    obtain ⟨⟨first, W₁⟩, hnotify, hports⟩ := Option.bind_eq_some_iff.mp hports
    obtain ⟨⟨more, W₂⟩, hmore, hresult⟩ := Option.bind_eq_some_iff.mp hports
    obtain ⟨rfl, rfl⟩ := Prod.mk.inj (Option.some.inj hresult)
    have hrest := notifyPorts_seen h honce hmore
    obtain ⟨tp, htp, ⟨hidle, rfl, hfirst⟩ | ⟨hnotifies, nested, tp', hcall, htp', hfirst⟩⟩ :=
      notifyGate_seen h honce hnotify
    · rw [seen_append, hfirst]
      exact .skipped htp hidle hrest
    · rw [seen_append, hfirst]
      exact .executed htp hnotifies hcall htp' hrest

/-- The last thing a turn of the loop shows the hook is that the gate was notified. -/
theorem notifyGate_last (h : Packed hooks l) (hpos : hook ∈ l.map KeyValue.value)
    {p : TokenportId} {W W' : World} {log : List LogEntry}
    (hnotify : Hooked.notifyGate call hooks w signal subtype value p W = some (log, W')) :
    ∃ tp, (seen hook log).getLast? =
      some (.raised hook (Hooked.gateEvent w signal subtype value .lxcAfterGateNotified tp)) := by
  have hcount : (l.map KeyValue.value).count hook ≠ 0 :=
    Nat.pos_iff_ne_zero.mp (List.count_pos_iff.mpr hpos)
  simp only [Hooked.notifyGate, Option.bind_eq_bind, Option.bind_eq_some_iff] at hnotify
  obtain ⟨_, -, gate, -, hnotify⟩ := hnotify
  by_cases hon : gate.enabled ∧ gate.executionBehavior.isSome
  · rw [if_pos hon] at hnotify
    simp only [Option.bind_eq_some_iff] at hnotify
    obtain ⟨before, -, ⟨nested, W₁⟩, -, after, -, again, hagain, hresult⟩ := hnotify
    obtain ⟨rfl, -⟩ := Prod.mk.inj (Option.some.inj hresult)
    obtain ⟨tp, -, hagain⟩ := raiseGateEvent_seen h hpos hagain
    refine ⟨tp, ?_⟩
    rw [seen_append, hagain, List.getLast?_append, List.getLast?_replicate, if_neg hcount]
    rfl
  · rw [if_neg hon] at hnotify
    obtain ⟨again, hagain, hresult⟩ := Option.bind_eq_some_iff.mp hnotify
    obtain ⟨rfl, -⟩ := Prod.mk.inj (Option.some.inj hresult)
    obtain ⟨tp, -, hagain⟩ := raiseGateEvent_seen h hpos hagain
    exact ⟨tp, by rw [hagain, List.getLast?_replicate, if_neg hcount]⟩

theorem notifyPorts_last (h : Packed hooks l) (hpos : hook ∈ l.map KeyValue.value)
    {W' : World} : ∀ {ports : NtArray TokenportId} {W : World} {log : List LogEntry},
    Hooked.notifyPorts call hooks w signal subtype value ports W = some (log, W') →
    seen hook log = [] ∨ ∃ tp, (seen hook log).getLast? =
      some (.raised hook (Hooked.gateEvent w signal subtype value .lxcAfterGateNotified tp))
  | [], _, _, hports => by
    cases hports
    exact .inl rfl
  | none :: _, _, _, hports => by
    cases hports
    exact .inl rfl
  | some p :: ports, W, log, hports => by
    obtain ⟨⟨first, W₁⟩, hnotify, hports⟩ := Option.bind_eq_some_iff.mp hports
    obtain ⟨⟨more, W₂⟩, hmore, hresult⟩ := Option.bind_eq_some_iff.mp hports
    obtain ⟨rfl, rfl⟩ := Prod.mk.inj (Option.some.inj hresult)
    refine .inr ?_
    rw [seen_append]
    rcases notifyPorts_last h hpos hmore with hnil | ⟨tp, hlast⟩
    · rw [hnil, List.append_nil]
      exact notifyGate_last h hpos hnotify
    · exact ⟨tp, by rw [List.getLast?_append, hlast]; rfl⟩

end

/-! ## The whole write -/

section

variable {call : ExecCall → World → Option (List LogEntry × World)} {hooks : PntArray KeyValue}
  {l : List KeyValue} {w : WireId} {instance_ : Option GateId} {outIndex : Nat} {value : LxcValue}
  {hook : HookId} {W W' : World} {log : List LogEntry} {wire : Wire}

/-- What a hook that is registered once sees of a write: the write begins; every port that is
    reached is followed by a report, of an executed gate by a second one; the end of the write is
    not reported. -/
theorem direct_write_seen (h : Packed hooks l) (honce : (l.map KeyValue.value).count hook = 1)
    (hwire : W.wires w = some wire)
    (hwrite : Hooked.wireDirectPropagateWireNewValue call hooks instance_ outIndex w value W =
      some (log, W')) :
    ∃ ports, PortsSeen call hook
        (fun phase tp =>
          .raised hook (Hooked.gateEvent w wire.type wire.subtype value phase tp))
        (Hooked.execCall wire.type wire.subtype value)
        (fun tp => [.raised hook
          (Hooked.gateEvent w wire.type wire.subtype value .lxcAfterGateNotified tp)])
        wire.drivens (W.setWire w { wire with currentValue := value }) ports W' ∧
      seen hook log =
        .raised hook (wireEvent w wire instance_ outIndex value .lxcBeforeWireDriven) ::
          ports := by
  simp only [Hooked.wireDirectPropagateWireNewValue, hwire, raiseWireHookCalls_eq h,
    Option.bind_eq_bind, Option.bind_some] at hwrite
  obtain ⟨⟨ports, W₁⟩, hports, hresult⟩ := Option.bind_eq_some_iff.mp hwrite
  obtain ⟨rfl, rfl⟩ := Prod.mk.inj (Option.some.inj hresult)
  refine ⟨_, notifyPorts_seen h honce hports, ?_⟩
  rw [seen_append, seen_raised, honce]
  rfl

/-- No hook of a directly propagating wire sees a bracketed write. -/
theorem never_bracketed (h : Packed hooks l) (hpos : hook ∈ l.map KeyValue.value)
    (hwire : W.wires w = some wire)
    (hwrite : Hooked.wireDirectPropagateWireNewValue call hooks instance_ outIndex w value W =
      some (log, W')) :
    ¬ Bracketed call hook instance_ outIndex w wire value W log W' := by
  rintro ⟨bracketed, -, hseen⟩
  have hcount : (l.map KeyValue.value).count hook ≠ 0 :=
    Nat.pos_iff_ne_zero.mp (List.count_pos_iff.mpr hpos)
  simp only [Hooked.wireDirectPropagateWireNewValue, hwire, raiseWireHookCalls_eq h,
    Option.bind_eq_bind, Option.bind_some] at hwrite
  obtain ⟨⟨ports, W₁⟩, hports, hresult⟩ := Option.bind_eq_some_iff.mp hwrite
  obtain ⟨rfl, rfl⟩ := Prod.mk.inj (Option.some.inj hresult)
  have hend : (seen hook (l.map (fun box => LogEntry.raised box.value
      (wireEvent w wire instance_ outIndex value .lxcBeforeWireDriven)) ++ ports)).getLast? =
        some (.raised hook (wireEvent w wire instance_ outIndex value .lxcAfterWireDriven)) := by
    rw [hseen, List.getLast?_concat]
  rw [seen_append, seen_raised, List.getLast?_append] at hend
  rcases notifyPorts_last h hpos hports with hnil | ⟨tp, hlast⟩
  · rw [hnil, List.getLast?_replicate, if_neg hcount] at hend
    simp [wireEvent] at hend
  · rw [hlast] at hend
    simp [wireEvent, Hooked.gateEvent] at hend

end

/-- A wire with one driven port of a gate that is on or off. -/
def oneDriven (enabled : Bool) : World where
  gates g := if g = 1 then some
    { gateClass := .bool, execute := .other, enabled := enabled, executionBehavior := some .default,
      input := ⟨.zeroed, []⟩, output := ⟨.zeroed, []⟩ } else none
  wires w := if w = 0 then some
    { type := .bool, subtype := 0, currentValue := none, refDes := none, drivers := [],
      drivens := [some 3], handler := .directPropagateValue } else none
  tokenports p := if p = 3 then some (.zeroed 0 1 0) else none
  nextWire := 1
  nextTokenport := 4
  nextValue := 2
  loopBreaker := none
  driven := []

/-- The hook `7` sees a gate that is executed. -/
theorem never_bracketed_executed : ∃ log W', Hooked.wireDirectPropagateWireNewValue
      (fun _ W => some ([], W)) (some [some ⟨"dbg", 7⟩, none]) none 0 0 lxcBoolConstantValueTrue
      (oneDriven true) = some (log, W') ∧
    ∀ wire, (oneDriven true).wires 0 = some wire →
      ¬ Bracketed (fun _ W => some ([], W)) 7 none 0 0 wire lxcBoolConstantValueTrue
        (oneDriven true) log W' :=
  ⟨_, _, rfl, fun _ hwire => never_bracketed (packed_block [⟨"dbg", 7⟩]) (by decide) hwire rfl⟩

/-- The hook is told that the gate was notified, which is off. -/
theorem not_bracketed_disabled : ∃ log W' wire, Hooked.wireDirectPropagateWireNewValue
      (fun _ W => some ([], W)) (some [some ⟨"dbg", 7⟩, none]) none 0 0 lxcBoolConstantValueTrue
      (oneDriven false) = some (log, W') ∧ (oneDriven false).wires 0 = some wire ∧
      ¬ Bracketed (fun _ W => some ([], W)) 7 none 0 0 wire lxcBoolConstantValueTrue
        (oneDriven false) log W' := by
  refine ⟨_, _, _, rfl, rfl, ?_⟩
  rintro ⟨ports, -, hseen⟩
  have hlast := congrArg List.getLast? hseen
  rw [List.getLast?_concat] at hlast
  exact absurd hlast (by decide)

/-! ## Hooks only observe -/

section

variable {call : ExecCall → World → Option (List LogEntry × World)}
  {call₀ : ExecCall → World → Option World} {hooks : PntArray KeyValue}

theorem notifyGate_erases
    (hcall : ∀ c W nested W', call c W = some (nested, W') → call₀ c W = some W')
    {w : WireId} {signal : Signal} {subtype : Int} {value : LxcValue} {p : TokenportId}
    {W W' : World} {log : List LogEntry}
    (hnotify : Hooked.notifyGate call hooks w signal subtype value p W = some (log, W')) :
    notifyGate call₀ signal subtype value p W = some W' := by
  simp only [Hooked.notifyGate, Option.bind_eq_bind, Option.bind_eq_some_iff] at hnotify
  obtain ⟨tp, htp, gate, hgate, hnotify⟩ := hnotify
  simp only [notifyGate, htp, hgate, Option.bind_eq_bind, Option.bind_some]
  by_cases hon : gate.enabled ∧ gate.executionBehavior.isSome
  · rw [if_pos hon] at hnotify ⊢
    simp only [Option.bind_eq_some_iff] at hnotify
    obtain ⟨before, -, ⟨nested, W₁⟩, hexec, after, -, again, -, hresult⟩ := hnotify
    obtain ⟨-, rfl⟩ := Prod.mk.inj (Option.some.inj hresult)
    exact hcall _ _ nested _ hexec
  · rw [if_neg hon] at hnotify ⊢
    obtain ⟨again, -, hresult⟩ := Option.bind_eq_some_iff.mp hnotify
    obtain ⟨-, rfl⟩ := Prod.mk.inj (Option.some.inj hresult)
    rfl

theorem notifyPorts_erases
    (hcall : ∀ c W nested W', call c W = some (nested, W') → call₀ c W = some W')
    {w : WireId} {signal : Signal} {subtype : Int} {value : LxcValue} {W' : World} :
    ∀ {ports : NtArray TokenportId} {W : World} {log : List LogEntry},
      Hooked.notifyPorts call hooks w signal subtype value ports W = some (log, W') →
      notifyPorts call₀ (fun _ W => some W) signal subtype value ports W = some W'
  | [], _, _, hports => by
    cases hports
    rfl
  | none :: _, _, _, hports => by
    cases hports
    rfl
  | some p :: ports, W, log, hports => by
    obtain ⟨⟨first, W₁⟩, hnotify, hports⟩ := Option.bind_eq_some_iff.mp hports
    obtain ⟨⟨more, W₂⟩, hmore, hresult⟩ := Option.bind_eq_some_iff.mp hports
    obtain ⟨-, rfl⟩ := Prod.mk.inj (Option.some.inj hresult)
    simp only [notifyPorts, notifyGate_erases hcall hnotify, Option.bind_eq_bind,
      Option.bind_some]
    exact notifyPorts_erases hcall hmore

/-- The memory after a write with hooks is the one after the write without them. -/
theorem hooked_write_erases
    (hcall : ∀ c W nested W', call c W = some (nested, W') → call₀ c W = some W')
    {instance_ : Option GateId} {outIndex : Nat} {w : WireId} {value : LxcValue} {W W' : World}
    {log : List LogEntry}
    (hwrite : Hooked.wireDirectPropagateWireNewValue call hooks instance_ outIndex w value W =
      some (log, W')) : wireDirectPropagateWireNewValue call₀ w value W = some W' := by
  obtain ⟨wire, hwire, hwrite⟩ := Option.bind_eq_some_iff.mp hwrite
  obtain ⟨before, -, hwrite⟩ := Option.bind_eq_some_iff.mp hwrite
  obtain ⟨⟨ports, W₁⟩, hports, hresult⟩ := Option.bind_eq_some_iff.mp hwrite
  obtain ⟨-, rfl⟩ := Prod.mk.inj (Option.some.inj hresult)
  rw [wireDirectPropagateWireNewValue, hwire]
  exact notifyPorts_erases hcall hports

end

end LogxControll
