/-
  The thread that runs the calls: `Memory.step` leaves open what an execute function does while
  it is on top, here the gates fill it in. A bool gate reads its inputs and drives its output, and
  a gate without a wired output does what its execute function says.

  `Thread.next_cases` is the next step of a thread in a network of such gates. It always has one
  (`Working.next`), and it comes to an end when all gates are disabled (`Working.ends`).
-/
import LogxControll.Core.References
import LogxControll.Execution.BoolNetwork

namespace LogxControll

/-! ## Execute functions up to their drive -/

/-- `logx_bool_execute` up to `lxc_drive_wire_value`: the arguments of that call, if it is made,
    and the memory then. -/
def logxBoolDrives (f : LogicFunction) (instance_ : GateId) (W : World) :
    Option (Option (Option WireId × LxcValue) × World) := do
  let gate ← W.gates instance_
  let out ← gate.output.slots[0]?
  let (re, W) ← f.call gate.input.slots W
  return (re.map fun b => (out, lxcBoolConstant b), W)

theorem logxBoolExecute_eq (call : ExecCall → World → Option World) (f : LogicFunction)
    (instance_ : GateId) (W : World) :
    logxBoolExecute call f instance_ W = (logxBoolDrives f instance_ W).bind fun r =>
      r.1.elim (some r.2) fun d => lxcDriveWireValue call instance_ d.1 d.2 r.2 := by
  simp only [logxBoolExecute, logxBoolDrives, Option.bind_eq_bind, Option.bind_assoc]
  refine Option.bind_congr fun gate _ => Option.bind_congr fun out _ =>
    Option.bind_congr fun r _ => ?_
  cases h : r.1 with
  | none => simp
  | some b => simp

/-- The same for every gate that drives nothing but the output of a bool gate. -/
def Execute.drives (instance_ : GateId) (W : World) :
    Execute → Option (Option (Option WireId × LxcValue) × World)
  | .bool f => logxBoolDrives f instance_ W
  | execute => do
    let gate ← W.gates instance_
    if ∀ slot ∈ gate.output.slots, slot = none then
      let W ← execute.run (fun _ _ => none) instance_ W
      return (none, W)
    else none

/-! ## Gates without a wired output -/

section Unwired

variable {W : World} {call : ExecCall → World → Option World} {g : GateId} {gate : Gate}

theorem writeOut_unwired (hg : W.gates g = some gate)
    (hunwired : ∀ slot ∈ gate.output.slots, slot = none) (out : List (Option LxcValue)) :
    ∀ {n i : Nat}, i + n ≤ gate.output.slots.length →
      ∃ acts, writeOut call g out n i W = some (acts, W)
  | 0, i, _ => ⟨[], rfl⟩
  | n + 1, i, hle => by
      have hslot : gate.output.slots[i]? = some none := by
        have hi : i < gate.output.slots.length := by omega
        rw [List.getElem?_eq_getElem hi, hunwired _ (List.getElem_mem hi)]
      obtain ⟨acts, hrest⟩ := writeOut_unwired hg hunwired out
        (show (i + 1) + n ≤ gate.output.slots.length by omega)
      simp only [writeOut, hg, hslot, driveOutput, Option.bind_eq_bind, Option.bind_some, hrest]
      cases out.getD i none with
      | none => exact ⟨acts, rfl⟩
      | some v => exact ⟨_, rfl⟩

/-- An instance without a wired output only takes addresses for new values. -/
theorem functionalGateExecute_unwired (hdirect : W.Direct) (hg : W.gates g = some gate)
    (hunwired : ∀ slot ∈ gate.output.slots, slot = none)
    (hins : gate.input.manager.maxSize.toNat ≤ gate.input.slots.length)
    (houts : gate.output.manager.maxSize.toNat ≤ gate.output.slots.length)
    (htokens : ∀ p, some p ∈ gate.input.slots → ∃ r, lxcGetTokenValue W p = some r)
    (function : List DataAddress → Nat → List (Option LxcValue) × Nat) :
    ∃ acts n, functionalGateExecute call function g W = some (acts, { W with nextValue := n }) := by
  have htaken : ∀ p, some p ∈ gate.input.slots.take gate.input.manager.maxSize.toNat →
      ∃ r, lxcGetTokenValue W p = some r := fun p hp => htokens p (List.mem_of_mem_take hp)
  obtain ⟨⟨ports, complete⟩, hread⟩ := readInputs_returns htaken
  simp only [functionalGateExecute, hg, if_neg (Nat.not_lt.mpr hins), hread, Option.bind_eq_bind,
    Option.bind_some]
  cases complete with
  | false => exact ⟨_, W.nextValue, rfl⟩
  | true =>
    have habsorb : absorbTokens (ports.map Prod.fst) W = some W := by
      apply hdirect.absorbTokens_returns
      intro p hp
      obtain ⟨pv, hpv, rfl⟩ := List.mem_map.mp hp
      exact ⟨_, (readInputs_cases hread).2.1 pv hpv⟩
    let r := function (ports.map fun pv => lxcGetValue pv.2) W.nextValue
    have hg' : ({ W with nextValue := r.2 } : World).gates g = some gate := hg
    obtain ⟨acts, hwrite⟩ : ∃ acts, writeOut call g r.1 gate.output.manager.maxSize.toNat 0
        { W with nextValue := r.2 } = some (acts, { W with nextValue := r.2 }) :=
      writeOut_unwired hg' hunwired r.1 (by rwa [Nat.zero_add])
    simp only [if_true, habsorb, Option.bind_some]
    exact ⟨_, r.2, by rw [hwrite]; rfl⟩

end Unwired

/-! ## The thread -/

/-- `entered` while the call on top has not done anything yet; `written` are the values that were
    written to wires, in order. -/
structure Thread where
  memory : Memory
  entered : Bool
  written : List (WireId × LxcValue)

namespace Thread

/-- A call of `lxc_drive_wire_value` by the execute function on top. -/
def drive (s : Thread) (w : Option WireId) (value : LxcValue) : Option Thread := do
  let memory ← s.memory.step (.driveWire w (some value))
  return { s with memory := memory, written := s.written ++ (w.map (·, value)).toList }

/-- The execute function on top, up to its return or its drive. -/
def execute (s : Thread) (c : ExecCall) : Option Thread := do
  let gate ← s.memory.world.gates c.gate
  let (drives, world) ← gate.execute.drives c.gate s.memory.world
  let s := { s with memory := { s.memory with world := world }, entered := false }
  match drives with
  | none => return s
  | some (w, value) => s.drive w value

/-- A step of the memory, which enters a call when it makes the stack longer. -/
def call (s : Thread) (c : RefCall) : Option Thread := do
  let memory ← s.memory.step c
  return { s with memory := memory
                  entered := decide (s.memory.running.length < memory.running.length) }

/-- An execute function runs up to its drive; everything else takes the next step of the memory. -/
def next (s : Thread) : Option Thread :=
  match s.memory.running, s.entered with
  | .execute c :: _, true => s.execute c
  | _, _ => s.call .next

/-- `lxc_gate_set_enabled`, called meanwhile by another thread. -/
def setEnabled (s : Thread) (g : GateId) (enabled : Bool) : Option Thread := do
  let memory ← s.memory.step (.setEnabled g enabled)
  return { s with memory := memory }

end Thread

/-- What happens next: the thread goes on, or another one sets a gate. -/
inductive Turn where
  | next
  | setEnabled (g : GateId) (enabled : Bool)
  deriving DecidableEq, Repr

/-- The state after a turn. -/
def Thread.step (s : Thread) : Turn → Option Thread
  | .next => s.next
  | .setEnabled g enabled => s.setEnabled g enabled

/-- A thread that has nothing to do. -/
def World.thread (W : World) : Thread := { memory := W.memory, entered := false, written := [] }

/-! ## Networks a thread can run -/

/-- A gate without a wired output, whose arrays are as long as its port managers say. The sorter
    boxes, which take ints, are left out. -/
structure Gate.DrivesNothing (gate : Gate) : Prop where
  unwired : ∀ slot ∈ gate.output.slots, slot = none
  execute : gate.execute = .other ∨ ∃ function, gate.execute = .functional function ∧
    gate.input.manager.maxSize.toNat ≤ gate.input.slots.length ∧
    gate.output.manager.maxSize.toNat ≤ gate.output.slots.length

/-- A network whose gates drive at most the output of a bool gate. -/
structure World.Runnable (W : World) : Prop where
  network : W.DirectNetwork
  gates : ∀ g gate, W.gates g = some gate → gate.IsBool ∨ gate.DrivesNothing

/-- The gate after `lxc_gate_set_enabled(gate, false)`. -/
def Gate.disabled (gate : Gate) : Gate := { gate with enabled := false }

/-- What the running call relies on. -/
def RunningCall.Sound (W : World) : RunningCall → Prop
  | .propagate w _ value => (W.wires w).isSome ∧ IsBoolConstant value
  | .execute c => (W.gates c.gate).isSome
  | .executeThenRelease _ => False
  | .loopbreaker t => W.memory.Live t.value

/-- Everything that runs was called by the loop of the loopbreaker. -/
def Looped (running : List RunningCall) (queue : Option (List QeTask)) : Prop :=
  (running = [] ∧ queue = none) ∨
    ∃ above t q, running = above ++ [.loopbreaker t] ∧ (∀ c ∈ above, c.isLoopbreaker = false) ∧
      queue = some q

namespace Looped

variable {c : RunningCall} {running : List RunningCall} {queue : Option (List QeTask)}

theorem queue_eq_none (h : Looped [] queue) : queue = none := by
  rcases h with ⟨-, hnone⟩ | ⟨above, t, q, hrun, -⟩
  · exact hnone
  · cases above <;> cases hrun

theorem queue_isSome (h : Looped (c :: running) queue) : ∃ q, queue = some q := by
  rcases h with ⟨hnil, -⟩ | ⟨above, t, q, -, -, hq⟩
  · cases hnil
  · exact ⟨q, hq⟩

/-- Below the loop nothing runs. -/
theorem eq_nil {t : QeTask} (h : Looped (.loopbreaker t :: running) queue) : running = [] := by
  rcases h with ⟨hnil, -⟩ | ⟨above, t', q, hrun, habove, -⟩
  · cases hnil
  · cases above with
    | nil => exact (List.cons.inj hrun).2
    | cons c above =>
      obtain ⟨rfl, -⟩ := List.cons.inj hrun
      cases habove _ List.mem_cons_self

theorem tail (h : Looped (c :: running) queue) (hc : c.isLoopbreaker = false) :
    Looped running queue := by
  rcases h with ⟨hnil, -⟩ | ⟨above, t, q, hrun, habove, hq⟩
  · cases hnil
  · cases above with
    | nil =>
      obtain ⟨rfl, -⟩ := List.cons.inj hrun
      cases hc
    | cons c' above =>
      exact .inr ⟨above, t, q, (List.cons.inj hrun).2,
        fun c hmem => habove c (List.mem_cons_of_mem _ hmem), hq⟩

theorem cons (h : Looped running queue) {q : List QeTask} (hq : queue = some q)
    (hc : c.isLoopbreaker = false) : Looped (c :: running) queue := by
  rcases h with ⟨-, hnone⟩ | ⟨above, t, q, rfl, habove, hq⟩
  · rw [hq] at hnone
    cases hnone
  · refine .inr ⟨c :: above, t, q, rfl, fun c' hmem => ?_, hq⟩
    rcases List.mem_cons.mp hmem with rfl | hmem
    · exact hc
    · exact habove c' hmem

theorem single (t : QeTask) (q : List QeTask) : Looped [.loopbreaker t] (some q) :=
  .inr ⟨[], t, q, rfl, fun _ hmem => absurd hmem List.not_mem_nil, rfl⟩

theorem setQueue (h : Looped running queue) {q : List QeTask} (hq : queue = some q)
    (q' : List QeTask) : Looped running (some q') := by
  rcases h with ⟨-, hnone⟩ | ⟨above, t, q, hrun, habove, -⟩
  · rw [hq] at hnone
    cases hnone
  · exact .inr ⟨above, t, q', hrun, habove, rfl⟩

end Looped

/-- The thread runs the network `W`, from a call of the loopbreaker on. -/
structure Working (W : World) (s : Thread) : Prop where
  gates : ∀ g, (s.memory.world.gates g).map Gate.disabled = (W.gates g).map Gate.disabled
  tokenports : s.memory.world.tokenports = W.tokenports
  wires : ∀ w, (s.memory.world.wires w).map Wire.bare = (W.wires w).map Wire.bare
  values : ∀ w v, s.memory.world.valueOn w = some v → IsBoolConstant v
  heap : s.memory.heap = W.memory.heap
  frames : ∀ c ∈ s.memory.running, c.Sound W
  tasks : ∀ q t, s.memory.world.loopBreaker = some q → t ∈ q →
    (∃ gate, W.gates t.instance_ = some gate ∧ gate.executionBehavior = some .loopbreaker) ∧
      W.memory.Live t.value
  loop : Looped s.memory.running s.memory.world.loopBreaker

namespace Working

variable {W : World} {s : Thread}

theorem gate (h : Working W s) {g : GateId} {gate : Gate} (hg : W.gates g = some gate) :
    ∃ enabled, s.memory.world.gates g = some { gate with enabled := enabled } := by
  have := h.gates g
  rw [hg, Option.map_some, Option.map_eq_some_iff] at this
  obtain ⟨gate', hg', he⟩ := this
  refine ⟨gate'.enabled, hg'.trans (congrArg some ?_)⟩
  cases gate
  cases gate'
  simp only [Gate.disabled, Gate.mk.injEq] at he ⊢
  tauto

theorem wire (h : Working W s) {w : WireId} {wire : Wire} (hw : W.wires w = some wire) :
    ∃ value, s.memory.world.wires w = some { wire with currentValue := value } := by
  have := h.wires w
  rw [hw, Option.map_some, Option.map_eq_some_iff] at this
  obtain ⟨wire', hw', he⟩ := this
  refine ⟨wire'.currentValue, hw'.trans (congrArg some ?_)⟩
  cases wire
  cases wire'
  simp only [Wire.bare, Wire.mk.injEq] at he ⊢
  tauto

theorem direct (h : Working W s) (hnet : W.DirectNetwork) : s.memory.world.Direct := by
  intro w wire hw
  have hbare := h.wires w
  rw [hw, Option.map_some, eq_comm, Option.map_eq_some_iff] at hbare
  obtain ⟨wire₀, hw₀, he⟩ := hbare
  have : wire.handler = wire₀.handler := by simpa [Wire.bare] using (congrArg Wire.handler he).symm
  rw [this, hnet.handler w wire₀ hw₀]

theorem reads (h : Working W s) (hnet : W.DirectNetwork) {g : GateId} {gate : Gate}
    (hg : W.gates g = some gate) :
    Reads s.memory.world (wireToken W s.memory.world) gate.input.slots where
  token := by
    intro p hp
    obtain ⟨tp, wire, htp, hw⟩ := hnet.listedIn hg p hp
    obtain ⟨value, hw'⟩ := h.wire hw
    have hdirect := hnet.handler tp.owner wire hw
    simp [lxcGetTokenValue, h.tokenports, htp, hw', hdirect, wireToken, World.state]
  constant := by
    intro p v hp hv
    obtain ⟨tp, wire, htp, hw⟩ := hnet.listedIn hg p hp
    rw [wireToken, htp, Option.bind_some] at hv
    exact h.values tp.owner v hv

/-- What the execute function of a bool gate drives. -/
theorem drives_bool (h : Working W s) (hnet : W.DirectNetwork) {g : GateId} {gate : Gate}
    (hg : W.gates g = some gate) (hbool : gate.IsBool) {f : LogicFunction}
    (hf : gate.execute = .bool f) :
    gate.execute.drives g s.memory.world =
      some ((f.result (slotTokens (wireToken W s.memory.world) gate.input.slots)).map fun b =>
        (slotAt gate.output.slots 0, lxcBoolConstant b), s.memory.world) := by
  obtain ⟨enabled, hg'⟩ := h.gate hg
  have hout : gate.output.slots[0]? = some (slotAt gate.output.slots 0) :=
    slotAt_eq (by rw [hbool.output]; exact Nat.zero_lt_one)
  have hcall := LogicFunction.call_direct (h.direct hnet) (h.reads hnet hg) f
  simp only [hf, Execute.drives, logxBoolDrives, hg', hout, hcall, Option.bind_eq_bind,
    Option.bind_some]
  rfl

theorem drives_unwired (h : Working W s) (hnet : W.DirectNetwork) {g : GateId} {gate : Gate}
    (hg : W.gates g = some gate) (hgate : gate.DrivesNothing) :
    ∃ n, gate.execute.drives g s.memory.world =
      some (none, { s.memory.world with nextValue := n }) := by
  obtain ⟨enabled, hg'⟩ := h.gate hg
  rcases hgate.execute with hother | ⟨function, hfun, hins, houts⟩
  · refine ⟨s.memory.world.nextValue, ?_⟩
    simp only [hother, Execute.drives, hg', Option.bind_eq_bind, Option.bind_some,
      if_pos hgate.unwired]
    rfl
  · obtain ⟨acts, n, hexec⟩ : ∃ acts n, functionalGateExecute (fun _ _ => none) function g
        s.memory.world = some (acts, { s.memory.world with nextValue := n }) :=
      functionalGateExecute_unwired (h.direct hnet) hg' hgate.unwired hins houts
        (fun p hp => ⟨_, (h.reads hnet hg).token p hp⟩) function
    refine ⟨n, ?_⟩
    simp only [hfun, Execute.drives, hg', Option.bind_eq_bind, Option.bind_some,
      if_pos hgate.unwired, Execute.run, hexec, Option.map_some]
    rfl

/-- The count of a constant does not change. -/
theorem lxcRefdiffValue_eq {m : Memory} (hheap : m.heap = W.memory.heap) {value : Option LxcValue}
    (hlive : W.memory.Live value) (n : Int) : m.lxcRefdiffValue value n = some m := by
  cases value with
  | none => rfl
  | some v =>
    have hobj : m.heap.objects v.id = some { count := 1024, constant := true } := by
      have hsome : (if v.id < 2 then some ({ count := 1024, constant := true } : RefCount.Object)
        else none).isSome := hlive v rfl
      rw [hheap]
      show (if v.id < 2 then _ else none) = _
      split at hsome
      · next hlt => rw [if_pos hlt]
      · cases hsome
    simp only [Memory.lxcRefdiffValue, RefCount.Store.adjust, hobj, if_true, Option.bind_eq_bind,
      Option.bind_some]
    rfl

theorem live_constant {v : LxcValue} (hv : IsBoolConstant v) : W.memory.Live (some v) := by
  intro v' hv'
  obtain rfl := Option.some.inj hv'
  obtain ⟨b, rfl⟩ := hv
  cases b <;> rfl

theorem constant_unique {v v' : LxcValue} (hv : IsBoolConstant v) (hv' : IsBoolConstant v')
    (hid : v.id = v'.id) : v = v' := by
  obtain ⟨b, rfl⟩ := hv
  obtain ⟨b', rfl⟩ := hv'
  cases b <;> cases b' <;> first | rfl | cases hid

/-- Driving a wire with a constant writes the wire and starts its loop. -/
theorem driveWire_eq {m : Memory} (hheap : m.heap = W.memory.heap) {w : WireId} {wire : Wire}
    (hw : m.world.wires w = some wire) (hdirect : wire.handler = .directPropagateValue)
    (hold : ∀ v, wire.currentValue = some v → IsBoolConstant v) {v : LxcValue}
    (hv : IsBoolConstant v) :
    m.step (.driveWire (some w) (some v)) =
      some { m with world := m.world.setWire w { wire with currentValue := some v }
                    running := .propagate w 0 v :: m.running } := by
  have himport : m.lxcImportNewValue (some v) (.wire w) =
      some { m with world := m.world.setWire w { wire with currentValue := some v } } := by
    simp only [Memory.lxcImportNewValue, Memory.read, hw, Option.map_some, Option.bind_eq_bind,
      Option.bind_some]
    split
    · next heq =>
      obtain ⟨u, hu, hid⟩ := Option.map_eq_some_iff.mp heq.symm
      obtain rfl := constant_unique (hold u hu) hv hid
      have hsame : m.world.setWire w { wire with currentValue := some u } = m.world := by
        rw [World.setWire, ← hu]
        exact congrArg (fun wires => { m.world with wires := wires })
          (Function.update_eq_self_iff.mpr hw.symm)
      rw [hsame]
      rfl
    · have href : m.lxcReferenceValue (some v) = some m :=
        lxcRefdiffValue_eq hheap (live_constant hv) 1
      have hunref : m.lxcUnreferenceValue wire.currentValue = some m := by
        apply lxcRefdiffValue_eq hheap
        intro u hu
        exact live_constant (hold u hu) u rfl
      simp only [href, hunref, Memory.write, hw, Option.bind_eq_bind, Option.bind_some]
      rfl
  simp only [Memory.step, Memory.lxcDriveWireValue, hw, hdirect, himport, Option.bind_eq_bind,
    Option.bind_some]
  rfl

end Working

/-! ## The next step -/

/-- The port the loop over the driven ports of `w` comes to at `i`. -/
def World.Entry (W : World) (w : WireId) (i : Nat) (tp : Tokenport) : Prop :=
  ∃ wire p, W.wires w = some wire ∧ (entries wire.drivens)[i]? = some p ∧
    W.tokenports p = some tp

namespace Thread

/-- The same memory with other calls running. -/
def goTo (s : Thread) (running : List RunningCall) (entered : Bool) : Thread :=
  { s with memory := { s.memory with running := running }, entered := entered }

/-- The same memory with another queue of the loopbreaker. -/
def setQueue (s : Thread) (q : Option (List QeTask)) : Thread :=
  { s with memory := { s.memory with world := { s.memory.world with loopBreaker := q } } }

/-- The call on top has nothing left to do. -/
def Done (W : World) (s : Thread) : RunningCall → Prop
  | .propagate w i _ => ∀ wire, W.wires w = some wire → (entries wire.drivens).length ≤ i
  | .execute _ => s.entered = false
  | _ => False

/-- The result of the bool gate for what is on its wires. -/
def Result (W : World) (s : Thread) (gate : Gate) (b : Option Bool) : Prop :=
  ∃ f, gate.execute = .bool f ∧
    f.result (slotTokens (wireToken W s.memory.world) gate.input.slots) = b

/-- What the next step of a thread that runs the network `W` can be. -/
inductive Advances (W : World) (s : Thread) : Thread → Prop where
  | back {c : RunningCall} {rest : List RunningCall} (hrun : s.memory.running = c :: rest)
      (hdone : s.Done W c) : Advances W s (s.goTo rest false)
  | skip {w : WireId} {i : Nat} {v : LxcValue} {rest : List RunningCall} {tp : Tokenport}
      {gate : Gate} (hrun : s.memory.running = .propagate w i v :: rest) (hentry : W.Entry w i tp)
      (hgate : s.memory.world.gates tp.gate = some gate) (hoff : gate.enabled = false) :
      Advances W s (s.goTo (.propagate w (i + 1) v :: rest) false)
  | enter {w : WireId} {i : Nat} {v : LxcValue} {rest : List RunningCall} {tp : Tokenport}
      {gate : Gate} {c : ExecCall} (hrun : s.memory.running = .propagate w i v :: rest)
      (hentry : W.Entry w i tp) (hgate : s.memory.world.gates tp.gate = some gate)
      (hon : gate.enabled = true) (hb : gate.executionBehavior = some .default)
      (hc : c.gate = tp.gate) :
      Advances W s (s.goTo (.execute c :: .propagate w (i + 1) v :: rest) true)
  | submit {w : WireId} {i : Nat} {v : LxcValue} {rest : List RunningCall} {tp : Tokenport}
      {gate : Gate} {t : QeTask} {q : List QeTask}
      (hrun : s.memory.running = .propagate w i v :: rest)
      (hentry : W.Entry w i tp) (hgate : s.memory.world.gates tp.gate = some gate)
      (hon : gate.enabled = true) (hb : gate.executionBehavior = some .loopbreaker)
      (ht : t.instance_ = tp.gate) (hvalue : t.value = some v)
      (hq : s.memory.world.loopBreaker = some q) :
      Advances W s
        ((s.goTo (.propagate w (i + 1) v :: rest) false).setQueue (some (q ++ [t])))
  | quiet {c : ExecCall} {rest : List RunningCall} {gate : Gate} {n : Nat}
      (hrun : s.memory.running = .execute c :: rest) (hentered : s.entered = true)
      (hg : W.gates c.gate = some gate)
      (hquiet : ∀ w b, some w ∈ gate.output.slots → ¬ s.Result W gate (some b)) :
      Advances W s { s with memory := { s.memory with
        world := { s.memory.world with nextValue := n } }, entered := false }
  | drive {c : ExecCall} {rest : List RunningCall} {gate : Gate} {w : WireId} {wire : Wire}
      {b : Bool} (hrun : s.memory.running = .execute c :: rest) (hentered : s.entered = true)
      (hg : W.gates c.gate = some gate) (hslot : gate.output.slots = [some w])
      (hresult : s.Result W gate (some b)) (hw : s.memory.world.wires w = some wire) :
      Advances W s
        { memory := { s.memory with
            world := s.memory.world.setWire w { wire with currentValue := lxcBoolConstant b }
            running := .propagate w 0 (lxcBoolConstant b) :: s.memory.running }
          entered := false
          written := s.written ++ [(w, lxcBoolConstant b)] }
  | turn {t₀ t : QeTask} {q : List QeTask} {gate : Gate} {c : ExecCall}
      (hrun : s.memory.running = [.loopbreaker t₀])
      (hq : s.memory.world.loopBreaker = some (t :: q))
      (hgate : s.memory.world.gates t.instance_ = some gate) (hc : c.gate = t.instance_) :
      Advances W s ((s.goTo (if gate.enabled then [.execute c, .loopbreaker t] else [.loopbreaker t])
        gate.enabled).setQueue (some q))
  | finish {t₀ : QeTask} (hrun : s.memory.running = [.loopbreaker t₀])
      (hq : s.memory.world.loopBreaker = some []) :
      Advances W s ((s.goTo [] false).setQueue none)

end Thread

namespace Working

variable {W : World} {s s' : Thread}

/-- The loopbreaker queues a task while its loop runs. -/
theorem lxcExecutionLoopbreaker_queued {m : Memory} (hheap : m.heap = W.memory.heap)
    {c : ExecCall} (hlive : W.memory.Live c.value) {q : List QeTask}
    (hq : m.world.loopBreaker = some q) :
    m.lxcExecutionLoopbreaker c =
      some { m with world := { m.world with
        loopBreaker := some (q ++ [⟨c.gate, c.value, c.index⟩]) } } := by
  have href : m.lxcReferenceValue c.value = some m := lxcRefdiffValue_eq hheap hlive 1
  simp only [Memory.lxcExecutionLoopbreaker, href, hq, Option.bind_eq_bind, Option.bind_some]
  rfl

/-- The next step of the loop over the driven ports. -/
theorem next_propagate (hW : W.Runnable) (h : Working W s) {w : WireId} {i : Nat} {v : LxcValue}
    {rest : List RunningCall} (hrun : s.memory.running = .propagate w i v :: rest) :
    ∃ s', s.call .next = some s' ∧ s.Advances W s' := by
  obtain ⟨hwire, hv⟩ : (W.wires w).isSome ∧ IsBoolConstant v :=
    h.frames (.propagate w i v) (by rw [hrun]; exact List.mem_cons_self)
  obtain ⟨wire, hw⟩ := Option.isSome_iff_exists.mp hwire
  obtain ⟨value, hw'⟩ := h.wire hw
  obtain ⟨l, hl, hports⟩ := hW.network.drivens w wire hw
  have hback : (wire.drivens[i]?).join = none → ∀ wire', W.wires w = some wire' →
      (entries wire'.drivens).length ≤ i := by
    intro hnone wire' hw₁
    obtain rfl := Option.some.inj (hw.symm.trans hw₁)
    rw [hl.join_getElem?] at hnone
    rw [hl.entries_eq]
    exact List.getElem?_eq_none_iff.mp hnone
  have hreturn : ∀ m, s.memory.step .next = some m → m = { s.memory with running := rest } →
      s.call .next = some (s.goTo rest false) := by
    intro m hm he
    have hlen : ¬ s.memory.running.length < rest.length := by
      rw [hrun, List.length_cons]
      omega
    simp only [Thread.call, hm, he, decide_eq_false hlen, Option.bind_eq_bind, Option.bind_some]
    rfl
  have hstep : s.memory.step .next = s.memory.next rest (.propagate w i v) := by
    simp only [Memory.step, hrun]
  simp only [Memory.next, hw', Option.bind_eq_bind, Option.bind_some] at hstep
  rcases hat : wire.drivens[i]? with _ | _ | p
  · simp only [hat] at hstep
    exact ⟨_, hreturn _ hstep rfl, .back hrun (hback (by rw [hat]; rfl))⟩
  · simp only [hat] at hstep
    exact ⟨_, hreturn _ hstep rfl, .back hrun (hback (by rw [hat]; rfl))⟩
  · have hp : l[i]? = some p := by rw [← hl.join_getElem?, hat]; rfl
    obtain ⟨tp, gate₀, htp, -, hg₀, -⟩ := hports p (List.mem_of_getElem? hp)
    obtain ⟨enabled, hg⟩ := h.gate hg₀
    have hentry : W.Entry w i tp := ⟨wire, p, hw, by rw [hl.entries_eq]; exact hp, htp⟩
    simp only [hat, h.tokenports, htp, hg, Option.bind_some] at hstep
    obtain ⟨-, hbehavior⟩ := hW.network.enabled tp.gate gate₀ hg₀
    obtain ⟨b, hb⟩ := Option.isSome_iff_exists.mp hbehavior
    have hrun' : s.memory.running.length = rest.length + 1 := by rw [hrun, List.length_cons]
    cases enabled with
    | false =>
      refine ⟨s.goTo (.propagate w (i + 1) v :: rest) false, ?_, .skip hrun hentry hg rfl⟩
      simp only [Thread.call, hstep, Option.bind_eq_bind]
      simp [Thread.goTo, hrun']
    | true =>
      cases b with
      | default =>
        refine ⟨_, ?_, .enter (c := ⟨tp.gate, wire.type, wire.subtype, some v, tp.index⟩) hrun
          hentry hg rfl hb rfl⟩
        simp only [hb, Memory.startBehavior] at hstep
        simp only [Thread.call, hstep, Option.bind_eq_bind, Option.bind_some]
        simp [Thread.goTo, Memory.call, hrun']
      | loopbreaker =>
        obtain ⟨q, hq⟩ := (hrun ▸ h.loop).queue_isSome
        refine ⟨_, ?_, .submit (t := ⟨tp.gate, some v, tp.index⟩) hrun hentry hg rfl hb rfl rfl hq⟩
        simp only [hb, Memory.startBehavior] at hstep
        replace hstep := hstep.trans (lxcExecutionLoopbreaker_queued
          (m := { s.memory with running := .propagate w (i + 1) v :: rest })
          (c := ⟨tp.gate, wire.type, wire.subtype, some v, tp.index⟩) h.heap (live_constant hv) hq)
        simp only [Thread.call, hstep, Option.bind_eq_bind]
        simp [Thread.goTo, Thread.setQueue, hrun']

/-- An execute function up to its return or its drive. -/
theorem next_execute (hW : W.Runnable) (h : Working W s) {c : ExecCall} {rest : List RunningCall}
    (hrun : s.memory.running = .execute c :: rest) (hentered : s.entered = true) :
    ∃ s', s.execute c = some s' ∧ s.Advances W s' := by
  have hgate : (W.gates c.gate).isSome :=
    h.frames (.execute c) (by rw [hrun]; exact List.mem_cons_self)
  obtain ⟨gate, hg⟩ := Option.isSome_iff_exists.mp hgate
  obtain ⟨enabled, hg'⟩ := h.gate hg
  rcases hW.gates c.gate gate hg with hbool | hnothing
  · obtain ⟨f, hf⟩ := hbool.execute
    have hdrives := h.drives_bool hW.network hg hbool hf
    have hslots := hbool.output_eq
    simp only [Thread.execute, hg', hdrives, Option.bind_eq_bind, Option.bind_some]
    cases hr : f.result (slotTokens (wireToken W s.memory.world) gate.input.slots) with
    | none =>
      refine ⟨_, rfl, .quiet (n := s.memory.world.nextValue) hrun hentered hg ?_⟩
      rintro w b - ⟨f', hf', hr'⟩
      obtain rfl := Execute.bool.inj (hf.symm.trans hf')
      rw [hr] at hr'
      cases hr'
    | some b =>
      cases hslot : slotAt gate.output.slots 0 with
      | none =>
        refine ⟨_, ?_, .quiet (n := s.memory.world.nextValue) hrun hentered hg ?_⟩
        · simp only [Option.map_some, Option.map_none, Option.toList_none, List.append_nil,
            Thread.drive]
          rfl
        · intro w b' hw
          rw [hslots, hslot] at hw
          cases List.mem_singleton.mp hw
      | some w =>
        rw [hslot] at hslots
        obtain ⟨wire, hw⟩ := hW.network.outputs c.gate gate w hg (by rw [hslots]; simp)
        obtain ⟨value, hw'⟩ := h.wire hw
        have hold : ∀ v, value = some v → IsBoolConstant v := by
          intro v hv
          apply h.values w v
          rw [World.valueOn, hw']
          exact hv
        have hstep := driveWire_eq (m := s.memory) h.heap hw' (hW.network.handler w wire hw) hold
          ⟨b, rfl⟩
        refine ⟨_, ?_, .drive hrun hentered hg hslots ⟨f, hf, hr⟩ hw'⟩
        simp only [Option.map_some, Thread.drive]
        rw [show ({ s.memory with world := s.memory.world } : Memory) = s.memory from rfl, hstep]
        rfl
  · obtain ⟨n, hdrives⟩ := h.drives_unwired hW.network hg hnothing
    simp only [Thread.execute, hg', hdrives, Option.bind_eq_bind, Option.bind_some]
    refine ⟨_, rfl, .quiet (n := n) hrun hentered hg ?_⟩
    intro w b hw
    cases hnothing.unwired _ hw

/-- The loop of the loopbreaker fetches its next task, or ends. -/
theorem next_loopbreaker (h : Working W s) {t₀ : QeTask} {rest : List RunningCall}
    (hrun : s.memory.running = .loopbreaker t₀ :: rest) :
    ∃ s', s.call .next = some s' ∧ s.Advances W s' := by
  have hloop : Looped (.loopbreaker t₀ :: rest) s.memory.world.loopBreaker := hrun ▸ h.loop
  obtain ⟨q, hq⟩ := hloop.queue_isSome
  obtain rfl := hloop.eq_nil
  have hlive : W.memory.Live t₀.value :=
    h.frames (.loopbreaker t₀) (by rw [hrun]; exact List.mem_cons_self)
  have hunref : s.memory.lxcUnreferenceValue t₀.value = some s.memory :=
    lxcRefdiffValue_eq h.heap hlive (-1)
  have hstep : s.memory.step .next = s.memory.next [] (.loopbreaker t₀) := by
    simp only [Memory.step, hrun]
  simp only [Memory.next, hunref, hq, Option.bind_eq_bind, Option.bind_some] at hstep
  have hlen : s.memory.running.length = 1 := by rw [hrun]; rfl
  cases q with
  | nil =>
    refine ⟨_, ?_, .finish hrun hq⟩
    simp only [Thread.call, hstep, Option.bind_eq_bind]
    simp [Thread.goTo, Thread.setQueue]
  | cons t q =>
    obtain ⟨⟨gate₀, hg₀, -⟩, -⟩ := h.tasks _ t hq List.mem_cons_self
    obtain ⟨enabled, hg⟩ := h.gate hg₀
    simp only [Memory.lxcDoExecute, hg, Option.bind_eq_bind, Option.bind_some] at hstep
    refine ⟨_, ?_, .turn (c := { gate := t.instance_, type := t.value.map LxcValue.type,
                                 subtype := (t.value.map LxcValue.subtypeInfo).getD 0,
                                 value := t.value, index := t.index }) hrun hq hg rfl⟩
    simp only [Thread.call, hstep, Option.bind_eq_bind]
    cases enabled <;> simp [Thread.goTo, Thread.setQueue, Memory.call, hlen]

/-- A thread that runs something always has a next step. -/
theorem next (hW : W.Runnable) (h : Working W s) (hrun : s.memory.running ≠ []) :
    ∃ s', s.next = some s' ∧ s.Advances W s' := by
  obtain ⟨c, rest, hrun⟩ := List.exists_cons_of_ne_nil hrun
  have hframe : c.Sound W := h.frames c (by rw [hrun]; exact List.mem_cons_self)
  cases c with
  | propagate w i v =>
    have hnext : s.next = s.call .next := by simp only [Thread.next, hrun]
    rw [hnext]
    exact h.next_propagate hW hrun
  | execute c =>
    cases hentered : s.entered with
    | true =>
      have hnext : s.next = s.execute c := by simp only [Thread.next, hrun, hentered]
      rw [hnext]
      exact h.next_execute hW hrun hentered
    | false =>
      have hlen : ¬ (RunningCall.execute c :: rest).length < rest.length := by
        rw [List.length_cons]
        omega
      refine ⟨s.goTo rest false, ?_, .back hrun hentered⟩
      simp only [Thread.next, hrun, hentered, Thread.call, Memory.step, Memory.next,
        Option.bind_eq_bind, Option.bind_some, decide_eq_false hlen]
      rfl
  | executeThenRelease t => exact hframe.elim
  | loopbreaker t =>
    have hnext : s.next = s.call .next := by simp only [Thread.next, hrun]
    rw [hnext]
    exact h.next_loopbreaker hrun

/-! ### The invariant -/

theorem goTo (h : Working W s) {running : List RunningCall} (entered : Bool)
    (hframes : ∀ c ∈ running, c.Sound W) (hloop : Looped running s.memory.world.loopBreaker) :
    Working W (s.goTo running entered) :=
  ⟨h.gates, h.tokenports, h.wires, h.values, h.heap, hframes, h.tasks, hloop⟩

theorem setWire (h : Working W s) {w : WireId} {wire : Wire}
    (hw : s.memory.world.wires w = some wire) {v : LxcValue} (hv : IsBoolConstant v) :
    (∀ w', ((s.memory.world.setWire w { wire with currentValue := some v }).wires w').map Wire.bare =
      (W.wires w').map Wire.bare) ∧
    ∀ w' v', (s.memory.world.setWire w { wire with currentValue := some v }).valueOn w' = some v' →
      IsBoolConstant v' := by
  refine ⟨fun w' => ?_, fun w' v' hv' => ?_⟩
  · rw [← h.wires w']
    by_cases he : w' = w
    · subst he
      show (Function.update s.memory.world.wires w' _ w').map _ = _
      rw [Function.update_self, hw]
      rfl
    · exact congrArg _ (Function.update_of_ne he _ s.memory.world.wires)
  · by_cases he : w' = w
    · subst he
      have : some v = some v' := by
        rw [← hv']
        show _ = (Function.update s.memory.world.wires w' _ w').bind _
        rw [Function.update_self]
        rfl
      exact Option.some.inj this ▸ hv
    · apply h.values w' v'
      rw [← hv']
      exact congrArg (Option.bind · _) (Function.update_of_ne he _ s.memory.world.wires).symm

theorem frames_rest (h : Working W s) {c : RunningCall} {rest : List RunningCall}
    (hrun : s.memory.running = c :: rest) : ∀ c ∈ rest, c.Sound W :=
  fun c hc => h.frames c (by rw [hrun]; exact List.mem_cons_of_mem _ hc)

theorem advances (hW : W.Runnable) (h : Working W s) (hstep : s.Advances W s') : Working W s' := by
  have hon {w : WireId} {i j : Nat} {v : LxcValue} {rest : List RunningCall}
      (hrun : s.memory.running = .propagate w i v :: rest) :
      (∀ c ∈ .propagate w j v :: rest, c.Sound W) ∧
        Looped (.propagate w j v :: rest) s.memory.world.loopBreaker := by
    have hloop : Looped (.propagate w i v :: rest) s.memory.world.loopBreaker := hrun ▸ h.loop
    obtain ⟨q, hq⟩ := hloop.queue_isSome
    refine ⟨fun c hc => ?_, (hloop.tail rfl).cons hq rfl⟩
    rcases List.mem_cons.mp hc with rfl | hc
    · exact h.frames (.propagate w i v) (by rw [hrun]; exact List.mem_cons_self)
    · exact h.frames_rest hrun c hc
  cases hstep with
  | back hrun hdone =>
    rename_i c rest
    have hloop : Looped (c :: rest) s.memory.world.loopBreaker := hrun ▸ h.loop
    refine h.goTo false (h.frames_rest hrun) (hloop.tail ?_)
    cases c with
    | propagate w i v => rfl
    | execute c => rfl
    | executeThenRelease t => rfl
    | loopbreaker t => exact hdone.elim
  | skip hrun hentry hgate hoff => exact h.goTo false (hon hrun).1 (hon hrun).2
  | enter hrun hentry hgate henabled hb hc =>
    rename_i w i v rest tp gate c
    obtain ⟨hframes, hloop⟩ := hon (j := i + 1) hrun
    obtain ⟨q, hq⟩ := hloop.queue_isSome
    refine h.goTo true (fun c' hc' => ?_) (hloop.cons hq rfl)
    rcases List.mem_cons.mp hc' with rfl | hc'
    · have := h.gates tp.gate
      rw [hgate, Option.map_some, eq_comm, Option.map_eq_some_iff] at this
      obtain ⟨gate₀, hg₀, -⟩ := this
      show (W.gates c.gate).isSome
      rw [hc, hg₀]
      rfl
    · exact hframes c' hc'
  | submit hrun hentry hgate henabled hb ht hvalue hq =>
    rename_i w i v rest tp gate t q
    obtain ⟨hframes, hloop⟩ := hon (j := i + 1) hrun
    refine ⟨h.gates, h.tokenports, h.wires, h.values, h.heap, hframes, fun q' t' hq' ht' => ?_,
      hloop.setQueue hq _⟩
    obtain rfl := Option.some.inj hq'
    rcases List.mem_append.mp ht' with hmem | hmem
    · exact h.tasks q t' hq hmem
    · obtain rfl := List.mem_singleton.mp hmem
      have hg := h.gates tp.gate
      rw [hgate, Option.map_some, eq_comm, Option.map_eq_some_iff] at hg
      obtain ⟨gate₀, hg₀, he⟩ := hg
      have hb₀ : gate₀.disabled.executionBehavior = gate.disabled.executionBehavior :=
        congrArg Gate.executionBehavior he
      have hv : IsBoolConstant v :=
        (h.frames (.propagate w i v) (by rw [hrun]; exact List.mem_cons_self)).2
      exact ⟨⟨gate₀, ht ▸ hg₀, hb₀.trans hb⟩, hvalue ▸ live_constant hv⟩
  | quiet hrun hentered hg hquiet =>
    exact ⟨h.gates, h.tokenports, h.wires, h.values, h.heap, h.frames, h.tasks, h.loop⟩
  | drive hrun hentered hg hslot hresult hw =>
    rename_i c rest gate w wire b
    obtain ⟨hwires, hvalues⟩ := h.setWire hw ⟨b, rfl⟩
    have hloop : Looped (.execute c :: rest) s.memory.world.loopBreaker := hrun ▸ h.loop
    obtain ⟨q, hq⟩ := hloop.queue_isSome
    refine ⟨h.gates, h.tokenports, hwires, hvalues, h.heap, fun c' hc' => ?_, h.tasks,
      h.loop.cons hq rfl⟩
    rcases List.mem_cons.mp hc' with rfl | hc'
    · obtain ⟨wire₀, hw₀⟩ := hW.network.outputs c.gate gate w hg (by rw [hslot]; simp)
      exact ⟨by rw [hw₀]; rfl, b, rfl⟩
    · exact h.frames c' hc'
  | turn hrun hq hgate hc =>
    rename_i t₀ t q gate c
    obtain ⟨⟨gate₀, hg₀, -⟩, hlive⟩ := h.tasks _ t hq List.mem_cons_self
    have hsound : (RunningCall.execute c).Sound W ∧ (RunningCall.loopbreaker t).Sound W := by
      refine ⟨?_, hlive⟩
      show (W.gates c.gate).isSome
      rw [hc, hg₀]
      rfl
    refine ⟨h.gates, h.tokenports, h.wires, h.values, h.heap, fun c' hc' => ?_,
      fun q' t' hq' ht' => ?_, ?_⟩
    · show c'.Sound W
      replace hc' : c' ∈ if gate.enabled then [.execute c, .loopbreaker t] else [.loopbreaker t] :=
        hc'
      split at hc'
      · rcases List.mem_pair.mp hc' with rfl | rfl
        · exact hsound.1
        · exact hsound.2
      · obtain rfl := List.mem_singleton.mp hc'
        exact hsound.2
    · obtain rfl := Option.some.inj hq'
      exact h.tasks _ t' hq (List.mem_cons_of_mem _ ht')
    · show Looped (if gate.enabled then [.execute c, .loopbreaker t] else [.loopbreaker t]) (some q)
      split
      · exact (Looped.single t q).cons rfl rfl
      · exact Looped.single t q
  | finish hrun hq =>
    refine ⟨h.gates, h.tokenports, h.wires, h.values, h.heap, fun c hc => absurd hc List.not_mem_nil,
      fun q t hq => (by cases hq), .inl ⟨rfl, rfl⟩⟩

/-- Enabling and disabling a gate. -/
theorem setEnabled (h : Working W s) {g : GateId} {enabled : Bool}
    (hstep : s.setEnabled g enabled = some s') : Working W s' := by
  simp only [Thread.setEnabled, Memory.step, Memory.lxcGateSetEnabled, Option.bind_eq_bind,
    Option.bind_eq_some_iff] at hstep
  obtain ⟨m, ⟨gate, hg, hm⟩, hstep⟩ := hstep
  obtain rfl := Option.some.inj hm
  obtain rfl := Option.some.inj hstep
  refine ⟨fun g' => ?_, h.tokenports, h.wires, h.values, h.heap, h.frames, h.tasks, h.loop⟩
  rw [← h.gates g']
  by_cases he : g' = g
  · subst he
    show (Function.update s.memory.world.gates g' _ g').map _ = _
    rw [Function.update_self, hg]
    rfl
  · exact congrArg _ (Function.update_of_ne he _ s.memory.world.gates)

theorem step (hW : W.Runnable) (h : Working W s) {t : Turn} (hstep : s.step t = some s') :
    Working W s' := by
  cases t with
  | next =>
    by_cases hrun : s.memory.running = []
    · replace hstep : s.next = some s' := hstep
      simp only [Thread.next, Thread.call, Memory.step, hrun, Option.bind_eq_bind] at hstep
      cases hstep
    · obtain ⟨s₁, hnext, hadvances⟩ := h.next hW hrun
      obtain rfl := Option.some.inj (hnext.symm.trans hstep)
      exact h.advances hW hadvances
  | setEnabled g enabled => exact h.setEnabled hstep

end Working

/-- The first call of the loopbreaker enters its gate. -/
theorem Working.start {W : World} (hlb : W.loopBreaker = none)
    (hvalues : ∀ w v, W.valueOn w = some v → IsBoolConstant v) {c : ExecCall} {gate : Gate}
    (hg : W.gates c.gate = some gate) (hon : gate.enabled = true)
    (hlive : W.memory.Live c.value) :
    ∃ s e t, W.thread.call (.loopbreaker c) = some s ∧ Working W s ∧ s.entered = true ∧
      s.memory.running = [.execute e, .loopbreaker t] ∧ e.gate = c.gate ∧
      s.memory.world = { W with loopBreaker := some [] } ∧ s.written = [] := by
  let e : ExecCall := { gate := c.gate, type := c.value.map LxcValue.type,
                        subtype := (c.value.map LxcValue.subtypeInfo).getD 0,
                        value := c.value, index := c.index }
  let m : Memory := { W.memory with world := { W with loopBreaker := some [] }
                                    running := [.execute e, .loopbreaker ⟨c.gate, c.value, c.index⟩] }
  have hstep : W.memory.step (.loopbreaker c) = some m := by
    have href : W.memory.lxcReferenceValue c.value = some W.memory := lxcRefdiffValue_eq rfl hlive 1
    have hlb' : W.memory.world.loopBreaker = none := hlb
    have hg' : W.memory.world.gates c.gate = some gate := hg
    simp only [Memory.step, Memory.lxcExecutionLoopbreaker, href, hlb', Memory.lxcDoExecute,
      Memory.call, hg', hon, if_true, Option.bind_eq_bind, Option.bind_some]
    rfl
  refine ⟨{ memory := m, entered := true, written := [] }, e, _, ?_, ?_, rfl, rfl, rfl, rfl, rfl⟩
  · simp only [Thread.call, World.thread, hstep, Option.bind_eq_bind, Option.bind_some]
    rfl
  · refine ⟨fun _ => rfl, rfl, fun _ => rfl, hvalues, rfl, fun c' hc' => ?_, fun q t hq ht => ?_,
      (Looped.single _ []).cons rfl rfl⟩
    · rcases List.mem_pair.mp hc' with rfl | rfl
      · show (W.gates c.gate).isSome
        rw [hg]
        rfl
      · exact hlive
    · obtain rfl := Option.some.inj hq
      cases ht

/-! ## The end of a thread -/

/-- All gates are disabled. -/
def Thread.Disabled (s : Thread) : Prop :=
  ∀ g gate, s.memory.world.gates g = some gate → gate.enabled = false

/-- How many steps the call can take, up to its return. -/
def RunningCall.rest (W : World) : RunningCall → Nat
  | .propagate w i _ => ((W.wires w).elim 0 fun wire => (entries wire.drivens).length - i) + 1
  | _ => 1

/-- How many steps the thread can take when no gate is entered any more. -/
def Thread.rest (W : World) (s : Thread) : Nat :=
  (s.memory.running.map (RunningCall.rest W)).sum + (s.memory.world.loopBreaker.getD []).length

section Ends

variable {W : World} {s s' : Thread}

theorem World.Entry.rest_lt {w : WireId} {i : Nat} {tp : Tokenport} (h : W.Entry w i tp)
    (v : LxcValue) :
    RunningCall.rest W (.propagate w (i + 1) v) < RunningCall.rest W (.propagate w i v) := by
  obtain ⟨wire, p, hw, hp, -⟩ := h
  have hi : i < (entries wire.drivens).length := (List.getElem?_eq_some_iff.mp hp).1
  simp only [RunningCall.rest, hw, Option.elim_some]
  omega

theorem RunningCall.rest_pos (c : RunningCall) : 0 < c.rest W := by
  cases c <;> exact Nat.succ_pos _

/-- A step of a thread whose gates are all disabled enters no gate, and from there on every step
    brings the end nearer. -/
theorem Thread.Advances.calm (h : s.Advances W s') (hoff : s.Disabled) :
    s'.Disabled ∧ s'.entered = false ∧ (s.entered = false → s'.rest W < s.rest W) := by
  cases h with
  | back hrun hdone =>
    rename_i c rest
    refine ⟨hoff, rfl, fun _ => ?_⟩
    have := c.rest_pos (W := W)
    simp only [Thread.rest, Thread.goTo, hrun, List.map_cons, List.sum_cons]
    omega
  | skip hrun hentry hgate hdisabled =>
    rename_i w i v rest tp gate
    refine ⟨hoff, rfl, fun _ => ?_⟩
    have := hentry.rest_lt v
    simp only [Thread.rest, Thread.goTo, hrun, List.map_cons, List.sum_cons]
    omega
  | enter hrun hentry hgate hon => rw [hoff _ _ hgate] at hon; cases hon
  | submit hrun hentry hgate hon => rw [hoff _ _ hgate] at hon; cases hon
  | quiet hrun hentered hg hquiet =>
    exact ⟨hoff, rfl, fun he => by rw [hentered] at he; cases he⟩
  | drive hrun hentered hg hslot hresult hw =>
    exact ⟨hoff, rfl, fun he => by rw [hentered] at he; cases he⟩
  | turn hrun hq hgate hc =>
    have hdisabled := hoff _ _ hgate
    refine ⟨hoff, hdisabled, fun _ => ?_⟩
    simp only [Thread.rest, Thread.goTo, Thread.setQueue, hrun, hq, hdisabled]
    simp [RunningCall.rest]
  | finish hrun hq =>
    refine ⟨hoff, rfl, fun _ => ?_⟩
    simp [Thread.rest, Thread.goTo, Thread.setQueue, hrun, hq, RunningCall.rest]

/-- The thread returns, with the queue gone. -/
def Thread.Ends (s : Thread) : Prop :=
  ∃ k s', Run.run Thread.step s (List.replicate k .next) = some s' ∧ s'.memory.running = [] ∧
    s'.memory.world.loopBreaker = none

theorem Thread.Ends.of_next (hnext : s.next = some s') (h : s'.Ends) : s.Ends := by
  obtain ⟨k, s'', hrun, hend⟩ := h
  exact ⟨k + 1, s'', by rw [List.replicate_succ, Run.run_cons, Thread.step, hnext]; exact hrun, hend⟩

theorem Working.ends_of_not_entered (hW : W.Runnable) :
    ∀ (n : Nat) {s : Thread}, Working W s → s.Disabled → s.entered = false → s.rest W ≤ n →
      s.Ends := by
  intro n
  induction n with
  | zero =>
    intro s h _ _ hrest
    cases hrun : s.memory.running with
    | nil =>
      exact ⟨0, s, rfl, hrun, (hrun ▸ h.loop).queue_eq_none⟩
    | cons c rest =>
      have := c.rest_pos (W := W)
      simp only [Thread.rest, hrun, List.map_cons, List.sum_cons] at hrest
      omega
  | succ n ih =>
    intro s h hoff hentered hrest
    by_cases hrun : s.memory.running = []
    · exact ⟨0, s, rfl, hrun, (hrun ▸ h.loop).queue_eq_none⟩
    · obtain ⟨s', hnext, hadvances⟩ := h.next hW hrun
      obtain ⟨hoff', hentered', hlt⟩ := hadvances.calm hoff
      have := hlt hentered
      exact .of_next hnext (ih (h.advances hW hadvances) hoff' hentered' (by omega))

/-- A thread whose gates are all disabled comes to its end. -/
theorem Working.ends (hW : W.Runnable) (h : Working W s) (hoff : s.Disabled) : s.Ends := by
  by_cases hrun : s.memory.running = []
  · exact ⟨0, s, rfl, hrun, (hrun ▸ h.loop).queue_eq_none⟩
  · obtain ⟨s', hnext, hadvances⟩ := h.next hW hrun
    obtain ⟨hoff', hentered', -⟩ := hadvances.calm hoff
    exact .of_next hnext
      (ends_of_not_entered hW (s'.rest W) (h.advances hW hadvances) hoff' hentered' le_rfl)

end Ends

end LogxControll
