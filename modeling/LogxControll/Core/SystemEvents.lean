/-
  The events the framework makes itself: `lxc_create_system_event` (`core/utils/lxc_utils.c`) and
  its callers `on_successfull_output_wiring` and `lxc_gate_set_property_value` (`core/facet.c`).

  Both create an event, which has one reference then, reference it once more, hand it to the
  execution behavior of the gate, and unreference it once. What clients do meanwhile, in execute
  functions and in `behavior->set_property`, are the calls of `Memory.step`. An event that was
  created has a reference of nobody from then on (`Apart`), so it is freed in no run.
-/
import LogxControll.Core.Trampoline

namespace LogxControll

open RefCount

/-- `enum lxc_system_event_type`, the two the modelled functions create. -/
inductive LxcSystemEventType where
  | systemEventOutputWireAdded
  | systemEventPropertyModified
  deriving DecidableEq, Repr

/-- `struct lxc_system_event`; `userData` is the name of a property. -/
structure LxcSystemEvent where
  eventType : LxcSystemEventType
  signal : Option Signal
  subtype : Int
  index : Nat
  userData : Option String
  deriving DecidableEq, Repr

/-- A function that waits for the one it called. -/
inductive EventFrame where
  /-- `lxc_gate_set_property_value`, in `behavior->set_property` -/
  | settingProperty (g : GateId) (property value : Option String)
  /-- `execution_behavior` was called with `notify`; `ret` is returned in the end, nothing by
      `on_successfull_output_wiring` -/
  | notifying (notify : LxcValue) (ret : Option Int)
  deriving DecidableEq, Repr

/-- The event that a waiting function still has to give back. -/
def EventFrame.notify : EventFrame → Option LxcValue
  | settingProperty .. => none
  | notifying notify _ => some notify

/-- `frames` stand among the running calls of `memory`, each above as many as its number says.
    `events` are the created events with what is stored in them, `returned` the results of
    `lxc_gate_set_property_value` and the error texts that it wrote itself. Whether a gate has a
    `set_property` function never changes. -/
structure EventMemory where
  memory : Memory
  hasSetProperty : GateId → Bool
  frames : List (EventFrame × Nat)
  events : List (LxcValue × LxcSystemEvent)
  returned : List (Int × Option String)

namespace EventMemory

/-- `lxc_create_system_event`: a value with one reference, which its creator has. -/
def lxcCreateSystemEvent (event : LxcSystemEvent) (s : EventMemory) : LxcValue × EventMemory :=
  let data := match event.signal with
    | some type => Data.systemEvent type event.subtype event.index
    | none => .other []
  let (ret, m) := Memory.lxcCreateValue .system data s.memory
  (ret, { s with memory := m, events := s.events ++ [(ret, event)] })

/-- The common text of the callers: create the event, reference it, call the execution
    behavior. -/
def notifyGate (b : ExecutionBehavior) (g : GateId) (event : LxcSystemEvent) (ret : Option Int)
    (s : EventMemory) : Option EventMemory := do
  let (notify, s) := lxcCreateSystemEvent event s
  let m ← s.memory.lxcReferenceValue (some notify)
  let frame := (EventFrame.notifying notify ret, m.running.length)
  let m ← m.startBehavior b { gate := g, type := some notify.type, subtype := 0,
                              value := some notify, index := 0 }
  return { s with memory := m, frames := frame :: s.frames }

/-- `on_successfull_output_wiring`, up to the call of the execution behavior. -/
def onSuccessfullOutputWiring (type : Signal) (subtype : Int) (wire : Option WireId) (g : GateId)
    (index : Nat) (s : EventMemory) : Option EventMemory :=
  match wire with
  | none => some s
  | some w => do
    let p := s.memory.world.nextTokenport
    let W ← addPort (s.memory.world.allocTokenport (Tokenport.zeroed w g index)) p w .output
    let s := { s with memory := { s.memory with world := W } }
    let gate ← W.gates g
    if gate.enabled then
      let b ← gate.executionBehavior
      s.notifyGate b g { eventType := .systemEventOutputWireAdded, signal := some type,
                         subtype := subtype, index := index, userData := none } none
    else
      return s

/-- `lxc_gate_set_property_value`, up to the call of `set_property`. -/
def lxcGateSetPropertyValue (gate : Option GateId) (property value : Option String)
    (s : EventMemory) : Option EventMemory :=
  match gate with
  | none => some { s with returned := s.returned ++ [(-1, some "")] }
  | some g => do
    let _ ← s.memory.world.gates g
    if s.hasSetProperty g then
      let frame := (EventFrame.settingProperty g property value, s.memory.running.length)
      return { s with frames := frame :: s.frames }
    else
      return { s with returned := s.returned ++ [(-1, some "")] }

/-- The function on top of the stack, unless it is a running call of the memory. -/
def onTop (s : EventMemory) : Option EventFrame :=
  match s.frames with
  | [] => none
  | (frame, depth) :: _ => if s.memory.running.length = depth then some frame else none

/-- `set_property` has returned `ret`. -/
def setPropertyReturned (ret : Int) (s : EventMemory) : Option EventMemory :=
  match s.onTop with
  | some (.settingProperty g property _) => do
    let gate ← s.memory.world.gates g
    let s := { s with frames := s.frames.tail }
    match gate.executionBehavior with
    | some ivc =>
      if ret = 0 then
        s.notifyGate ivc g { eventType := .systemEventPropertyModified, signal := none,
                             subtype := 0, index := 0, userData := property } (some ret)
      else
        return { s with returned := s.returned ++ [(ret, none)] }
    | none => return { s with returned := s.returned ++ [(ret, none)] }
  | _ => none

/-- `execution_behavior` has returned. -/
def notified (s : EventMemory) : Option EventMemory :=
  match s.onTop with
  | some (.notifying notify ret) => do
    let m ← s.memory.lxcUnreferenceValue (some notify)
    return { s with memory := m, frames := s.frames.tail,
                    returned := s.returned ++ (ret.map fun ret => (ret, none)).toList }
  | _ => none

/-- Code of a client is running: nothing of the framework, or an execute function or a
    `set_property`, is on top. -/
def clientTurn (s : EventMemory) : Bool :=
  match s.onTop, s.memory.running with
  | some (.settingProperty ..), _ => true
  | some (.notifying ..), _ => false
  | none, [] => true
  | none, .execute _ :: _ => true
  | none, _ :: _ => false

/-- What the framework has running goes on when nothing of this file waits above it; clients call
    when code of theirs runs. -/
def mayCall (s : EventMemory) : RefCall → Bool
  | .next => s.onTop.isNone
  | _ => s.clientTurn

end EventMemory

/-- The calls of clients, and what happens next of itself. -/
inductive EventCall where
  | outputWiring (type : Signal) (subtype : Int) (wire : Option WireId) (g : GateId) (index : Nat)
  | setPropertyValue (gate : Option GateId) (property value : Option String)
  | setPropertyReturned (ret : Int)
  | notified
  | memory (call : RefCall)

/-- The values a client hands over in a call. -/
def RefCall.value : RefCall → Option LxcValue
  | .reference value | .unreference value | .importNewValue value _ | .driveWire _ value
  | .createTask _ value _ => value
  | .loopbreaker c => c.value
  | .createValue .. | .wipeValue _ | .wireDestroy _ | .executeThenRelease _ | .setEnabled ..
  | .next => none

namespace EventMemory

/-- The next call, or what happens next. -/
def step (s : EventMemory) : EventCall → Option EventMemory
  | .outputWiring type subtype wire g index =>
    if s.clientTurn then s.onSuccessfullOutputWiring type subtype wire g index else none
  | .setPropertyValue gate property value =>
    if s.clientTurn then s.lxcGateSetPropertyValue gate property value else none
  | .setPropertyReturned ret => s.setPropertyReturned ret
  | .notified => s.notified
  | .memory call =>
    if s.mayCall call then (s.memory.step call).map fun m => { s with memory := m } else none

end EventMemory

/-! ## An object apart -/

/-- The value a running call stores in a wire, or releases when it returns. -/
def RunningCall.stored : RunningCall → Option LxcValue
  | propagate _ _ value => some value
  | executeThenRelease t => t.value
  | execute _ | loopbreaker _ => none

namespace Memory

variable {m m' : Memory} {e : ValueId} {value : Option LxcValue}

/-- Nothing in memory refers to `e` but the tasks of the loopbreaker and the arguments of execute
    functions. -/
structure Isolated (m : Memory) (e : ValueId) : Prop where
  wires : ∀ w wire, m.world.wires w = some wire → addressOf wire.currentValue ≠ some e
  locations : ∀ v ∈ m.locations, addressOf v ≠ some e
  tasks : ∀ t ∈ m.tasks, addressOf t.value ≠ some e
  running : ∀ c ∈ m.running, addressOf c.stored ≠ some e

/-- The references to `e` that the loopbreaker gives back later. -/
def deferred (m : Memory) (e : ValueId) : Nat :=
  pointers ((m.world.loopBreaker.getD []).map fun t => addressOf t.value) e +
    pointers (m.loops.map fun c => addressOf c.owned) e

/-- `e` stays isolated, its object is as it was, and no address was given back. -/
structure Beside (m m' : Memory) (e : ValueId) : Prop where
  isolated : m.Isolated e → m'.Isolated e
  object : m'.heap.objects e = m.heap.objects e
  later : m.world.nextValue ≤ m'.world.nextValue

theorem Beside.refl (m : Memory) (e : ValueId) : Beside m m e := ⟨id, rfl, le_rfl⟩

theorem Beside.trans {m'' : Memory} (h : Beside m m' e) (h' : Beside m' m'' e) :
    Beside m m'' e :=
  ⟨fun hi => h'.isolated (h.isolated hi), h'.object.trans h.object,
    h.later.trans h'.later⟩

theorem keep_beside (value : Option LxcValue) (e : ValueId) : Beside m (m.keep value) e :=
  ⟨fun hi => ⟨hi.wires, hi.locations, hi.tasks, hi.running⟩, rfl, le_rfl⟩

theorem giveUp_beside (value : Option LxcValue) (e : ValueId) : Beside m (m.giveUp value) e :=
  ⟨fun hi => ⟨hi.wires, hi.locations, hi.tasks, hi.running⟩, rfl, le_rfl⟩

theorem SameLoop.deferred (h : SameLoop m m') (e : ValueId) : m'.deferred e = m.deferred e := by
  rw [Memory.deferred, Memory.deferred, h.loopBreaker, h.loops]

/-- The count of an object that is there has changed. -/
theorem lxcRefdiffValue_object {n : Int} (h : m.lxcRefdiffValue value n = some m')
    (he : addressOf value = some e) : m.heap.adjust (2 ^ 32) e n = some m'.heap := by
  obtain ⟨v, rfl, rfl⟩ := Option.map_eq_some_iff.mp he
  simp only [lxcRefdiffValue, Option.bind_eq_bind, Option.bind_eq_some_iff] at h
  obtain ⟨heap, hadjust, h⟩ := h
  obtain rfl := Option.some.inj h
  exact hadjust

/-- A value whose count could be changed is not one that is gone. -/
theorem lxcRefdiffValue_ne {n : Int} (h : m.lxcRefdiffValue value n = some m')
    (hvalue : addressOf value = some e → m.heap.objects e = none) : addressOf value ≠ some e := by
  intro he
  have hadjust := lxcRefdiffValue_object h he
  rw [Store.adjust, hvalue he] at hadjust
  cases hadjust

theorem lxcRefdiffValue_isolated {n : Int} (h : m.lxcRefdiffValue value n = some m')
    (hi : m.Isolated e) : m'.Isolated e := by
  obtain ⟨heap, rfl⟩ := lxcRefdiffValue_cases h
  exact ⟨hi.wires, hi.locations, hi.tasks, hi.running⟩

theorem lxcRefdiffValue_beside {n : Int} (h : m.lxcRefdiffValue value n = some m')
    (hne : addressOf value ≠ some e) : Beside m m' e := by
  have hi := lxcRefdiffValue_isolated (e := e) h
  obtain ⟨heap, rfl⟩ := lxcRefdiffValue_cases h
  refine ⟨hi, ?_, le_rfl⟩
  cases value with
  | none =>
    have hm := congrArg Memory.heap (Option.some.inj h)
    exact congrFun (congrArg Store.objects hm.symm) e
  | some v =>
    have hadjust := lxcRefdiffValue_object h (e := v.id) rfl
    exact adjust_of_ne hadjust fun he => hne (he ▸ rfl)

theorem write_beside {place : Place} (h : m.write value place = some m')
    (hne : addressOf value ≠ some e) : Beside m m' e := by
  cases place with
  | wire w =>
    simp only [write, Option.bind_eq_bind, Option.bind_eq_some_iff] at h
    obtain ⟨wire, -, h⟩ := h
    obtain rfl := Option.some.inj h
    refine ⟨fun hi => ⟨fun w' wire' hw' => ?_, hi.locations, hi.tasks, hi.running⟩, rfl, le_rfl⟩
    by_cases heq : w' = w
    · subst heq
      obtain rfl := Option.some.inj ((Function.update_self w' _ m.world.wires).symm.trans hw')
      exact hne
    · exact hi.wires w' wire' ((Function.update_of_ne heq _ _).symm.trans hw')
  | location l =>
    simp only [write] at h
    split at h
    · obtain rfl := Option.some.inj h
      refine ⟨fun hi => ⟨hi.wires, fun v hv => ?_, hi.tasks, hi.running⟩, rfl, le_rfl⟩
      rcases List.mem_or_eq_of_mem_set hv with hv | rfl
      · exact hi.locations v hv
      · exact hne
    · cases h

theorem call_beside {c : RunningCall} (hne : addressOf c.stored ≠ some e) :
    Beside m (m.call c) e := by
  refine ⟨fun hi => ⟨hi.wires, hi.locations, hi.tasks, fun c' hc' => ?_⟩, rfl, le_rfl⟩
  rcases List.mem_cons.mp hc' with rfl | hc'
  · exact hne
  · exact hi.running c' hc'

theorem lxcDoExecute_beside {t : QeTask} (h : m.lxcDoExecute t = some m') : Beside m m' e := by
  simp only [lxcDoExecute, Option.bind_eq_bind, Option.bind_eq_some_iff] at h
  obtain ⟨gate, -, h⟩ := h
  split at h
  · obtain rfl := Option.some.inj h
    exact call_beside (Option.some_ne_none e).symm
  · obtain rfl := Option.some.inj h
    exact .refl m e

theorem Isolated.read (hi : m.Isolated e) {place : Place} (h : m.read place = some value) :
    addressOf value ≠ some e := by
  cases place with
  | wire w =>
    obtain ⟨wire, hw, rfl⟩ := Option.map_eq_some_iff.mp h
    exact hi.wires w wire hw
  | location l => exact hi.locations value (List.mem_of_getElem? h)

section Isolated

variable (hi : m.Isolated e) (hvalue : addressOf value = some e → m.heap.objects e = none)
include hi hvalue

theorem lxcImportNewValue_beside {place : Place} (h : m.lxcImportNewValue value place = some m') :
    addressOf value ≠ some e ∧ Beside m m' e := by
  simp only [lxcImportNewValue, Option.bind_eq_bind, Option.bind_eq_some_iff] at h
  obtain ⟨old, hread, h⟩ := h
  have hold := hi.read hread
  split at h
  · next hsame =>
    obtain rfl := Option.some.inj h
    exact ⟨hsame ▸ hold, .refl m e⟩
  · obtain ⟨m₁, href, h⟩ := Option.bind_eq_some_iff.mp h
    obtain ⟨m₂, hunref, h⟩ := Option.bind_eq_some_iff.mp h
    have hne := lxcRefdiffValue_ne href hvalue
    exact ⟨hne, ((lxcRefdiffValue_beside href hne).trans
      (lxcRefdiffValue_beside hunref hold)).trans (write_beside h hne)⟩

theorem lxcDriveWireValue_beside {w : Option WireId}
    (h : m.lxcDriveWireValue w value = some m') : Beside m m' e := by
  rcases w with _ | w
  · obtain rfl := Option.some.inj h
    exact .refl m e
  rcases value with _ | v
  · obtain rfl := Option.some.inj h
    exact .refl m e
  simp only [lxcDriveWireValue, Option.bind_eq_bind, Option.bind_eq_some_iff] at h
  obtain ⟨wire, -, h⟩ := h
  split at h
  · obtain ⟨m₁, himport, h⟩ := Option.bind_eq_some_iff.mp h
    obtain rfl := Option.some.inj h
    obtain ⟨hne, hb⟩ := lxcImportNewValue_beside hi hvalue himport
    exact hb.trans (call_beside hne)
  · cases h

omit hvalue in
theorem lxcWipeValue_beside {place : Place} (h : m.lxcWipeValue place = some m') :
    Beside m m' e := by
  simp only [lxcWipeValue, Option.bind_eq_bind, Option.bind_eq_some_iff] at h
  obtain ⟨old, hread, h⟩ := h
  cases old with
  | none =>
    obtain rfl := Option.some.inj h
    exact .refl m e
  | some v =>
    obtain ⟨m₁, hunref, h⟩ := Option.bind_eq_some_iff.mp h
    exact (lxcRefdiffValue_beside hunref (hi.read hread)).trans
      (write_beside h (Option.some_ne_none e).symm)

omit hvalue in
theorem lxcWireDestroy_beside {w : WireId} (h : m.lxcWireDestroy w = some m') :
    Beside m m' e := by
  simp only [lxcWireDestroy, Option.bind_eq_bind, Option.bind_eq_some_iff] at h
  obtain ⟨m₁, himport, h⟩ := h
  obtain rfl := Option.some.inj h
  obtain ⟨-, hb⟩ := lxcImportNewValue_beside hi (fun he => (by cases he)) himport
  refine hb.trans ⟨fun hi₁ => ⟨fun w' wire hw' => ?_, hi₁.locations, hi₁.tasks, hi₁.running⟩, rfl,
    le_rfl⟩
  by_cases heq : w' = w
  · subst heq
    have hnone : Function.update m₁.world.wires w' none w' = some wire := hw'
    rw [Function.update_self] at hnone
    cases hnone
  · exact hi₁.wires w' wire ((Function.update_of_ne heq _ _).symm.trans hw')

omit hi in
theorem lxcCreateTask_beside {g : GateId} {index : Nat}
    (h : m.lxcCreateTask g value index = some m') : Beside m m' e := by
  simp only [lxcCreateTask, Option.bind_eq_bind, Option.bind_eq_some_iff] at h
  obtain ⟨m₁, href, h⟩ := h
  obtain rfl := Option.some.inj h
  have hne := lxcRefdiffValue_ne href hvalue
  refine (lxcRefdiffValue_beside href hne).trans
    ⟨fun hi₁ => ⟨hi₁.wires, hi₁.locations, fun t ht => ?_, hi₁.running⟩, rfl, le_rfl⟩
  rcases List.mem_append.mp ht with ht | ht
  · exact hi₁.tasks t ht
  · obtain rfl := List.mem_singleton.mp ht
    exact hne

omit hvalue in
theorem lxcExecuteThenRelease_beside {i : Nat} (h : m.lxcExecuteThenRelease i = some m') :
    Beside m m' e := by
  simp only [lxcExecuteThenRelease, Option.bind_eq_bind, Option.bind_eq_some_iff] at h
  obtain ⟨t, ht, h⟩ := h
  have herase : Beside m { m with tasks := m.tasks.eraseIdx i } e :=
    ⟨fun hi => ⟨hi.wires, hi.locations, fun t ht => hi.tasks t (List.mem_of_mem_eraseIdx ht),
      hi.running⟩, rfl, le_rfl⟩
  have hne : addressOf t.value ≠ some e := hi.tasks t (List.mem_of_getElem? ht)
  have hcall : Beside _ _ e :=
    call_beside (m := { m with tasks := m.tasks.eraseIdx i }) (c := .executeThenRelease t) hne
  exact (herase.trans hcall).trans (lxcDoExecute_beside h)

end Isolated

theorem lxcGateSetEnabled_beside {g : GateId} {enabled : Bool}
    (h : m.lxcGateSetEnabled g enabled = some m') : Beside m m' e := by
  simp only [lxcGateSetEnabled, Option.bind_eq_bind, Option.bind_eq_some_iff] at h
  obtain ⟨gate, -, h⟩ := h
  obtain rfl := Option.some.inj h
  exact ⟨fun hi => ⟨hi.wires, hi.locations, hi.tasks, hi.running⟩, rfl, le_rfl⟩

theorem lxcCreateValue_beside (type : Signal) (data : Data) (hne : e ≠ m.world.nextValue) :
    Beside m (m.lxcCreateValue type data).2 e :=
  ⟨fun hi => ⟨hi.wires, hi.locations, hi.tasks, hi.running⟩, Function.update_of_ne hne _ _,
    Nat.le_succ _⟩

/-! ## The loopbreaker -/

/-- The loopbreaker stores its value in its own places only. -/
theorem lxcExecutionLoopbreaker_isolated {c : ExecCall}
    (h : m.lxcExecutionLoopbreaker c = some m') (hi : m.Isolated e) :
    m'.Isolated e ∧ m.world.nextValue ≤ m'.world.nextValue := by
  simp only [lxcExecutionLoopbreaker, Option.bind_eq_bind, Option.bind_eq_some_iff] at h
  obtain ⟨m₁, href, h⟩ := h
  obtain ⟨heap, rfl⟩ := lxcRefdiffValue_cases href
  split at h
  · have hcall : Isolated _ e :=
      (call_beside (m := { m with heap := heap
                                  world := { m.world with loopBreaker := some [] } })
        (c := .loopbreaker ⟨c.gate, c.value, c.index⟩) (Option.some_ne_none e).symm).isolated
        ⟨hi.wires, hi.locations, hi.tasks, hi.running⟩
    have hb := lxcDoExecute_beside (e := e) h
    exact ⟨hb.isolated hcall, hb.later⟩
  · obtain rfl := Option.some.inj h
    exact ⟨⟨hi.wires, hi.locations, hi.tasks, hi.running⟩, le_rfl⟩

theorem next_loopbreaker_isolated {crnt : QeTask} {rest : List RunningCall}
    (hrun : m.running = .loopbreaker crnt :: rest)
    (h : m.next rest (.loopbreaker crnt) = some m') (hi : m.Isolated e) :
    m'.Isolated e ∧ m.world.nextValue ≤ m'.world.nextValue := by
  have hrest : ∀ c ∈ rest, addressOf c.stored ≠ some e :=
    fun c hc => hi.running c (hrun ▸ List.mem_cons_of_mem _ hc)
  simp only [next, Option.bind_eq_bind, Option.bind_eq_some_iff] at h
  obtain ⟨m₁, hunref, queue, -, h⟩ := h
  obtain ⟨heap, rfl⟩ := lxcRefdiffValue_cases hunref
  cases queue with
  | nil =>
    obtain rfl := Option.some.inj h
    exact ⟨⟨hi.wires, hi.locations, hi.tasks, hrest⟩, le_rfl⟩
  | cons t queue =>
    have hb := lxcDoExecute_beside (e := e) h
    refine ⟨hb.isolated ⟨hi.wires, hi.locations, hi.tasks, fun c hc => ?_⟩, hb.later⟩
    rcases List.mem_cons.mp hc with rfl | hc
    · exact (Option.some_ne_none e).symm
    · exact hrest c hc

theorem lxcExecutionLoopbreaker_beside {c : ExecCall}
    (h : m.lxcExecutionLoopbreaker c = some m') (hi : m.Isolated e)
    (hne : addressOf c.value ≠ some e) : Beside m m' e :=
  ⟨fun _ => (lxcExecutionLoopbreaker_isolated h hi).1,
    (lxcRefdiffValue_beside (lxcExecutionLoopbreaker_cases h).1 hne).object,
    (lxcExecutionLoopbreaker_isolated h hi).2⟩

/-- The loopbreaker stores the value it gets, with one reference. -/
theorem lxcExecutionLoopbreaker_deferred {c : ExecCall}
    (h : m.lxcExecutionLoopbreaker c = some m') :
    m'.deferred e = m.deferred e + one (addressOf c.value) e := by
  obtain ⟨-, ⟨hqueue, hqueue', hrun⟩ | ⟨queue, hqueue, hqueue', hrun⟩⟩ :=
    lxcExecutionLoopbreaker_cases h
  · have hloops : m'.loops = .loopbreaker ⟨c.gate, c.value, c.index⟩ :: m.loops := by
      rw [loops, hrun, List.filter_append, entered_filter]
      rfl
    rw [deferred, deferred, hloops, hqueue, hqueue', List.map_cons, pointers_cons]
    simp only [Pi.add_apply, RunningCall.owned_loopbreaker]
    exact (Nat.add_assoc ..).symm
  · have hloops : m'.loops = m.loops := by rw [loops, loops, hrun]
    rw [deferred, deferred, hloops, hqueue, hqueue']
    simp only [Option.getD_some, List.map_append, List.map_cons, List.map_nil, pointers_append,
      pointers_cons, pointers_nil, zero_add, Pi.add_apply]
    omega

/-- The loop gives back a reference for each of its tasks. -/
theorem next_loopbreaker_deferred {crnt : QeTask} {rest : List RunningCall}
    (hrun : m.running = .loopbreaker crnt :: rest)
    (h : m.next rest (.loopbreaker crnt) = some m') :
    m'.deferred e + one (addressOf crnt.value) e = m.deferred e := by
  have hloops : m.loops = .loopbreaker crnt :: rest.filter RunningCall.isLoopbreaker := by
    rw [loops, hrun, List.filter_cons_of_pos rfl]
  obtain ⟨-, ⟨hqueue, hqueue', hrun'⟩ | ⟨t, queue, hqueue, hqueue', hrun'⟩⟩ :=
    next_loopbreaker_cases h
  · rw [deferred, deferred, hloops, hqueue, hqueue', loops, hrun', List.map_cons, pointers_cons]
    simp only [Pi.add_apply, RunningCall.owned_loopbreaker]
    exact Nat.add_assoc ..
  · have hloops' : m'.loops = .loopbreaker t :: rest.filter RunningCall.isLoopbreaker := by
      rw [loops, hrun', List.filter_append, entered_filter]
      rfl
    rw [deferred, deferred, hloops, hloops', hqueue, hqueue']
    simp only [Option.getD_some, List.map_cons, pointers_cons, Pi.add_apply,
      RunningCall.owned_loopbreaker]
    omega

/-! ## The count of an object apart -/

/-- Nothing is at the isolated address, or a counted object with `k` references beside those of
    the loopbreaker. -/
structure Apart (m : Memory) (e : ValueId) (o : Option Nat) : Prop where
  isolated : m.Isolated e
  gone : o = none → m.heap.objects e = none ∧ m.deferred e = 0
  counted : ∀ k, o = some k → 0 < k ∧ k + m.deferred e < 2 ^ 31 ∧
    m.heap.objects e = some { count := k + m.deferred e, constant := false }

section Apart

variable {o : Option Nat} (h : m.Apart e o)
include h

theorem Apart.of_beside (hb : Beside m m' e) (hd : m'.deferred e = m.deferred e) :
    m'.Apart e o where
  isolated := hb.isolated h.isolated
  gone := fun ho => by
    rw [hb.object, hd]
    exact h.gone ho
  counted := fun k ho => by
    rw [hb.object, hd]
    exact h.counted k ho

/-- As many references more, or less, as the loopbreaker and others have. -/
theorem Apart.recount {k k' : Nat} {n : Int} (hk : o = some k) (hi : m'.Isolated e)
    (hadjust : m.heap.adjust (2 ^ 32) e n = some m'.heap)
    (hsum : (k' + m'.deferred e : Int) = k + m.deferred e + n) (hpos : 0 < k')
    (hlt : k' + m'.deferred e < 2 ^ 31) : m'.Apart e (some k') where
  isolated := hi
  gone := fun ho => by cases ho
  counted := by
    intro k₁ hk₁
    obtain rfl := Option.some.inj hk₁
    refine ⟨hpos, hlt, ?_⟩
    rw [adjust_counted hadjust (h.counted k hk).2.2 (by omega) (by omega), hsum]

/-- As many references more, or less, as the loopbreaker has. -/
theorem Apart.of_adjust {n : Int} (hi : m'.Isolated e)
    (hadjust : m.heap.adjust (2 ^ 32) e n = some m'.heap)
    (hd : (m'.deferred e : Int) = m.deferred e + n)
    (hlt : ∀ k, o = some k → k + m'.deferred e < 2 ^ 31) : m'.Apart e o := by
  cases o with
  | none =>
    rw [Store.adjust, (h.gone rfl).1] at hadjust
    cases hadjust
  | some k => exact h.recount rfl hi hadjust (by omega) (h.counted k rfl).1 (hlt k rfl)

/-- The loopbreaker is called with another value. -/
theorem Apart.loopbreaker {c : ExecCall} (hne : addressOf c.value ≠ some e)
    (hstep : m.lxcExecutionLoopbreaker c = some m') :
    m'.Apart e o ∧ m.world.nextValue ≤ m'.world.nextValue := by
  have hb := lxcExecutionLoopbreaker_beside hstep h.isolated hne
  refine ⟨h.of_beside hb ?_, hb.later⟩
  rw [lxcExecutionLoopbreaker_deferred hstep, one, if_neg hne]
  rfl

/-- The running call on top makes its next step. -/
theorem Apart.next {c : RunningCall} {rest : List RunningCall} (hrun : m.running = c :: rest)
    (hstep : m.next rest c = some m') :
    m'.Apart e o ∧ m.world.nextValue ≤ m'.world.nextValue := by
  have hrest : ∀ c' ∈ rest, addressOf c'.stored ≠ some e :=
    fun c' hc' => h.isolated.running c' (hrun ▸ List.mem_cons_of_mem c hc')
  have hstored : addressOf c.stored ≠ some e :=
    h.isolated.running c (hrun ▸ List.mem_cons_self)
  have hpop : c.isLoopbreaker = false → Apart { m with running := rest } e o := by
    intro hc
    refine h.of_beside ⟨fun hi => ⟨hi.wires, hi.locations, hi.tasks, hrest⟩, rfl, le_rfl⟩ ?_
    rw [deferred, deferred, loops, loops, hrun,
      List.filter_cons_of_neg (by rw [hc]; exact Bool.false_ne_true)]
  cases c with
  | execute call =>
    obtain rfl := Option.some.inj hstep
    exact ⟨hpop rfl, le_rfl⟩
  | executeThenRelease t =>
    simp only [Memory.next, Option.bind_eq_bind, Option.bind_eq_some_iff] at hstep
    obtain ⟨m₁, hunref, hstep⟩ := hstep
    obtain rfl := Option.some.inj hstep
    have hobject := (lxcRefdiffValue_beside hunref hstored).object
    obtain ⟨heap, rfl⟩ := lxcRefdiffValue_cases hunref
    exact ⟨(hpop rfl).of_beside
      ⟨fun hi => ⟨hi.wires, hi.locations, hi.tasks, hi.running⟩, hobject, le_rfl⟩ rfl, le_rfl⟩
  | loopbreaker crnt =>
    have hunref := (next_loopbreaker_cases hstep).1
    obtain ⟨hi, hlater⟩ := next_loopbreaker_isolated hrun hstep h.isolated
    have hd := next_loopbreaker_deferred (e := e) hrun hstep
    by_cases he : addressOf crnt.value = some e
    · rw [he, one_some_self] at hd
      have hadjust : m.heap.adjust (2 ^ 32) e (-1) = some ({ m with heap := m'.heap }).heap :=
        lxcRefdiffValue_object hunref he
      refine ⟨h.of_adjust hi hadjust (by omega) fun k hk => ?_, hlater⟩
      have := (h.counted k hk).2.1
      omega
    · rw [one, if_neg he] at hd
      have hobject := (lxcRefdiffValue_beside hunref he).object
      exact ⟨h.of_beside ⟨fun _ => hi, hobject, hlater⟩ hd, hlater⟩
  | propagate w i value =>
    have hon : Apart ({ m with running := rest }.call (.propagate w (i + 1) value)) e o :=
      (hpop rfl).of_beside (call_beside hstored) ((call_sameLoop rfl).deferred e)
    simp only [Memory.next, Option.bind_eq_bind, Option.bind_eq_some_iff] at hstep
    obtain ⟨wire, -, hstep⟩ := hstep
    split at hstep
    · obtain rfl := Option.some.inj hstep
      exact ⟨hpop rfl, le_rfl⟩
    · obtain rfl := Option.some.inj hstep
      exact ⟨hpop rfl, le_rfl⟩
    · obtain ⟨tp, -, hstep⟩ := Option.bind_eq_some_iff.mp hstep
      obtain ⟨gate, -, hstep⟩ := Option.bind_eq_some_iff.mp hstep
      split at hstep
      · next b _ _ =>
        cases b with
        | default =>
          obtain rfl := Option.some.inj hstep
          exact ⟨hon.of_beside (call_beside (Option.some_ne_none e).symm)
            ((call_sameLoop rfl).deferred e), le_rfl⟩
        | loopbreaker => exact hon.loopbreaker hstored hstep
      · obtain rfl := Option.some.inj hstep
        exact ⟨hon, le_rfl⟩

/-- No call of a client touches an object apart that it does not name; it may name an address
    where nothing is yet. -/
theorem Apart.step {call : RefCall} (hcall : addressOf call.value = some e → o = none)
    (hnew : m'.world.nextValue = m.world.nextValue ∨ e ≠ m.world.nextValue)
    (hstep : m.step call = some m') :
    m'.Apart e o ∧ m.world.nextValue ≤ m'.world.nextValue := by
  have hdead : addressOf call.value = some e → m.heap.objects e = none :=
    fun he => (h.gone (hcall he)).1
  have hi := h.isolated
  cases call with
  | createValue type data =>
    obtain rfl := Option.some.inj hstep
    have hne : e ≠ m.world.nextValue := hnew.resolve_left (Nat.succ_ne_self _)
    have hb := (lxcCreateValue_beside type data hne).trans
      (keep_beside (some (m.lxcCreateValue type data).1) e)
    exact ⟨h.of_beside hb rfl, hb.later⟩
  | reference value =>
    obtain ⟨m₁, hm₁, rfl⟩ := Option.map_eq_some_iff.mp hstep
    have hne := lxcRefdiffValue_ne (n := 1) hm₁ hdead
    have hb := (lxcRefdiffValue_beside hm₁ hne).trans (keep_beside value e)
    exact ⟨h.of_beside hb ((lxcRefdiffValue_sameLoop hm₁).deferred e), hb.later⟩
  | unreference value =>
    obtain ⟨m₁, hm₁, rfl⟩ := Option.map_eq_some_iff.mp hstep
    have hne := lxcRefdiffValue_ne (n := -1) hm₁ hdead
    have hb := (lxcRefdiffValue_beside hm₁ hne).trans (giveUp_beside value e)
    exact ⟨h.of_beside hb ((lxcRefdiffValue_sameLoop hm₁).deferred e), hb.later⟩
  | importNewValue newVal place =>
    have hb := (lxcImportNewValue_beside hi hdead hstep).2
    exact ⟨h.of_beside hb ((lxcImportNewValue_sameLoop hstep).deferred e), hb.later⟩
  | wipeValue place =>
    have hb := lxcWipeValue_beside hi hstep
    exact ⟨h.of_beside hb ((lxcWipeValue_sameLoop hstep).deferred e), hb.later⟩
  | driveWire w value =>
    have hb := lxcDriveWireValue_beside hi hdead hstep
    exact ⟨h.of_beside hb ((lxcDriveWireValue_sameLoop hstep).deferred e), hb.later⟩
  | wireDestroy w =>
    have hb := lxcWireDestroy_beside hi hstep
    exact ⟨h.of_beside hb ((lxcWireDestroy_sameLoop hstep).deferred e), hb.later⟩
  | createTask g value index =>
    have hb := lxcCreateTask_beside hdead hstep
    exact ⟨h.of_beside hb ((lxcCreateTask_sameLoop hstep).deferred e), hb.later⟩
  | executeThenRelease i =>
    have hb := lxcExecuteThenRelease_beside hi hstep
    exact ⟨h.of_beside hb ((lxcExecuteThenRelease_sameLoop hstep).deferred e), hb.later⟩
  | loopbreaker c =>
    have href := (lxcExecutionLoopbreaker_cases hstep).1
    exact h.loopbreaker (lxcRefdiffValue_ne href hdead) hstep
  | setEnabled g enabled =>
    have hb := lxcGateSetEnabled_beside (e := e) hstep
    exact ⟨h.of_beside hb ((lxcGateSetEnabled_sameLoop hstep).deferred e), hb.later⟩
  | next =>
    simp only [Memory.step] at hstep
    cases hrun : m.running with
    | nil =>
      rw [hrun] at hstep
      cases hstep
    | cons c rest =>
      rw [hrun] at hstep
      exact h.next hrun hstep

end Apart

end Memory

/-! ## Events -/

namespace EventMemory

open Memory

variable {s s' : EventMemory} {call : EventCall}

/-- The events the frames wait with. -/
def pending (s : EventMemory) : List ValueId :=
  s.frames.filterMap fun frame => frame.1.notify.map LxcValue.id

/-- Nothing happened to any event. -/
structure Alike (s s' : EventMemory) : Prop where
  events : s'.events = s.events
  pending : s'.pending = s.pending
  memory : ∀ e, s.memory.Beside s'.memory e
  deferred : ∀ e, s'.memory.deferred e = s.memory.deferred e

/-- Who refers to the events: one reference of each is nobody's. -/
structure Sound (s : EventMemory) : Prop where
  fresh : ∀ v, s.memory.world.nextValue ≤ v → s.memory.Apart v none
  created : ∀ e ∈ s.events, e.1.id < s.memory.world.nextValue
  counted : ∀ e ∈ s.events, s.memory.Apart e.1.id (some (1 + s.pending.count e.1.id))
  pending : ∀ v ∈ s.pending, ∃ e ∈ s.events, e.1.id = v

/-- The call of a client names no event. -/
def TakesNoReference (s : EventMemory) (call : EventCall) : Prop :=
  ∀ c, call = .memory c → ∀ e ∈ s.events, addressOf c.value ≠ some e.1.id

/-- The gate is disabled, or `set_property` failed, or there is no execution behavior. -/
def CreatesNoEvent (s : EventMemory) : EventCall → Prop
  | .outputWiring _ _ wire g _ =>
    wire.isSome → ∀ gate, s.memory.world.gates g = some gate → gate.enabled = false
  | .setPropertyReturned ret =>
    ∀ g property value, s.onTop = some (.settingProperty g property value) →
      ∀ gate, s.memory.world.gates g = some gate → ret = 0 → gate.executionBehavior = none
  | .setPropertyValue .. | .notified | .memory _ => True

theorem alike_of_memory (hmemory : s'.memory = s.memory) (hevents : s'.events = s.events)
    (hpending : s'.pending = s.pending) : s.Alike s' :=
  ⟨hevents, hpending, fun e => hmemory ▸ .refl s.memory e, fun _ => hmemory ▸ rfl⟩

theorem Sound.alike (h : s.Sound) (ha : s.Alike s') : s'.Sound where
  fresh := fun v hv => (h.fresh v ((ha.memory v).later.trans hv)).of_beside (ha.memory v)
    (ha.deferred v)
  created := fun e he =>
    Nat.lt_of_lt_of_le (h.created e (ha.events ▸ he)) (ha.memory e.1.id).later
  counted := by
    intro e he
    rw [ha.pending]
    exact (h.counted e (ha.events ▸ he)).of_beside (ha.memory _) (ha.deferred _)
  pending := by
    rw [ha.pending, ha.events]
    exact h.pending

/-- The tokenport of a driver is allocated and entered at its wire. -/
theorem addPort_alike {W : World} {tp : Tokenport} {p : TokenportId} {w : WireId} {dir : Direction}
    (hadd : addPort (s.memory.world.allocTokenport tp) p w dir = some W) :
    s.Alike { s with memory := { s.memory with world := W } } ∧
      W.gates = s.memory.world.gates := by
  simp only [addPort, Option.bind_eq_bind, Option.bind_eq_some_iff] at hadd
  obtain ⟨wire, hw, hadd⟩ := hadd
  obtain rfl := Option.some.inj hadd
  refine ⟨⟨rfl, rfl, fun e => ⟨fun hi => ⟨fun w' wire' hw' => ?_, hi.locations, hi.tasks,
    hi.running⟩, rfl, le_rfl⟩, fun _ => rfl⟩, rfl⟩
  have hvalue : ∀ ports, (wire.setPorts dir ports).currentValue = wire.currentValue := by
    cases dir <;> exact fun _ => rfl
  by_cases heq : w' = w
  · subst heq
    obtain rfl := Option.some.inj
      ((Function.update_self w' _ (s.memory.world.allocTokenport tp).wires).symm.trans hw')
    rw [hvalue]
    exact hi.wires w' wire hw
  · exact hi.wires w' wire' ((Function.update_of_ne heq _ _).symm.trans hw')

theorem frames_of_onTop {frame : EventFrame} (h : s.onTop = some frame) :
    ∃ depth, s.frames = (frame, depth) :: s.frames.tail := by
  unfold onTop at h
  split at h
  · cases h
  · next top depth rest hframes =>
    split at h
    · obtain rfl := Option.some.inj h
      exact ⟨depth, by rw [hframes]; rfl⟩
    · cases h

theorem onSuccessfullOutputWiring_cases {type : Signal} {subtype : Int} {wire : Option WireId}
    {g : GateId} {index : Nat}
    (hstep : s.onSuccessfullOutputWiring type subtype wire g index = some s') :
    (¬ s.CreatesNoEvent (.outputWiring type subtype wire g index) ∧ ∃ s₁ b event ret,
      s.Alike s₁ ∧ s₁.notifyGate b g event ret = some s') ∨
    (s.CreatesNoEvent (.outputWiring type subtype wire g index) ∧ s.Alike s') := by
  cases wire with
  | none =>
    obtain rfl := Option.some.inj hstep
    exact .inr ⟨fun hw => (by cases hw), alike_of_memory rfl rfl rfl⟩
  | some w =>
    simp only [onSuccessfullOutputWiring, Option.bind_eq_bind, Option.bind_eq_some_iff] at hstep
    obtain ⟨W, hadd, gate, hg, hstep⟩ := hstep
    obtain ⟨halike, hgates⟩ := addPort_alike hadd
    rw [hgates] at hg
    split at hstep
    · next henabled =>
      obtain ⟨b, -, hstep⟩ := Option.bind_eq_some_iff.mp hstep
      refine .inl ⟨fun hquiet => ?_, _, b, _, _, halike, hstep⟩
      rw [hquiet rfl gate hg] at henabled
      cases henabled
    · next hdisabled =>
      obtain rfl := Option.some.inj hstep
      refine .inr ⟨fun _ gate' hg' => ?_, halike⟩
      obtain rfl := Option.some.inj (hg.symm.trans hg')
      exact Bool.not_eq_true _ ▸ hdisabled

theorem lxcGateSetPropertyValue_alike {gate : Option GateId} {property value : Option String}
    (hstep : s.lxcGateSetPropertyValue gate property value = some s') : s.Alike s' := by
  cases gate with
  | none =>
    obtain rfl := Option.some.inj hstep
    exact alike_of_memory rfl rfl rfl
  | some g =>
    simp only [lxcGateSetPropertyValue, Option.bind_eq_bind, Option.bind_eq_some_iff] at hstep
    obtain ⟨_, -, hstep⟩ := hstep
    split at hstep
    · obtain rfl := Option.some.inj hstep
      exact alike_of_memory rfl rfl rfl
    · obtain rfl := Option.some.inj hstep
      exact alike_of_memory rfl rfl rfl

theorem setPropertyReturned_cases {ret : Int} (hstep : s.setPropertyReturned ret = some s') :
    (¬ s.CreatesNoEvent (.setPropertyReturned ret) ∧ ∃ s₁ b g event ret,
      s.Alike s₁ ∧ s₁.notifyGate b g event ret = some s') ∨
    (s.CreatesNoEvent (.setPropertyReturned ret) ∧ s.Alike s') := by
  unfold setPropertyReturned at hstep
  split at hstep
  · next g property value htop =>
    obtain ⟨depth, hframes⟩ := frames_of_onTop htop
    have halike : s.Alike { s with frames := s.frames.tail } := by
      refine alike_of_memory rfl rfl ?_
      rw [pending, pending, hframes]
      rfl
    obtain ⟨gate, hg, hstep⟩ := Option.bind_eq_some_iff.mp hstep
    have hquiet : (ret = 0 → gate.executionBehavior = none) →
        s.CreatesNoEvent (.setPropertyReturned ret) := by
      intro hnone g' property' value' htop' gate' hg' hret
      obtain rfl : g = g' := by
        cases htop.symm.trans htop'
        rfl
      obtain rfl := Option.some.inj (hg.symm.trans hg')
      exact hnone hret
    split at hstep
    · next ivc hivc =>
      split at hstep
      · next hret =>
        refine .inl ⟨fun hquiet => ?_, _, ivc, g, _, _, halike, hstep⟩
        rw [hquiet g property value htop gate hg hret] at hivc
        cases hivc
      · next hret =>
        obtain rfl := Option.some.inj hstep
        exact .inr ⟨hquiet fun h => absurd h hret,
          ⟨rfl, halike.pending, halike.memory, halike.deferred⟩⟩
    · next hivc =>
      obtain rfl := Option.some.inj hstep
      exact .inr ⟨hquiet fun _ => hivc, ⟨rfl, halike.pending, halike.memory, halike.deferred⟩⟩
  · cases hstep

/-- A call notifies a gate of a new event, or a notification ends, or a client is at work, or
    nothing happens to any event. -/
theorem step_cases (hstep : s.step call = some s') :
    (¬ s.CreatesNoEvent call ∧ ∃ s₁ b g event ret, s.Alike s₁ ∧
      s₁.notifyGate b g event ret = some s') ∨
    (s.CreatesNoEvent call ∧ s.Alike s') ∨
    (call = .notified ∧ ∃ notify, s.memory.lxcUnreferenceValue (some notify) = some s'.memory ∧
      s.pending = notify.id :: s'.pending ∧ s'.events = s.events) ∨
    (∃ c m, call = .memory c ∧ s.memory.step c = some m ∧ s' = { s with memory := m }) := by
  cases call with
  | outputWiring type subtype wire g index =>
    simp only [step] at hstep
    split at hstep
    · obtain ⟨hevent, s₁, b, event, ret, halike, hnotify⟩ | hquiet :=
        onSuccessfullOutputWiring_cases hstep
      · exact .inl ⟨hevent, s₁, b, g, event, ret, halike, hnotify⟩
      · exact .inr (.inl hquiet)
    · cases hstep
  | setPropertyValue gate property value =>
    simp only [step] at hstep
    split at hstep
    · exact .inr (.inl ⟨trivial, lxcGateSetPropertyValue_alike hstep⟩)
    · cases hstep
  | setPropertyReturned ret =>
    exact (setPropertyReturned_cases hstep).imp_right .inl
  | notified =>
    simp only [step, notified] at hstep
    split at hstep
    · next notify ret htop =>
      obtain ⟨depth, hframes⟩ := frames_of_onTop htop
      obtain ⟨m, hunref, hstep⟩ := Option.bind_eq_some_iff.mp hstep
      obtain rfl := Option.some.inj hstep
      refine .inr (.inr (.inl ⟨rfl, notify, hunref, ?_, rfl⟩))
      rw [pending, hframes]
      rfl
    · cases hstep
  | memory c =>
    simp only [step] at hstep
    split at hstep
    · obtain ⟨m, hm, rfl⟩ := Option.map_eq_some_iff.mp hstep
      exact .inr (.inr (.inr ⟨c, m, rfl, hm, rfl⟩))
    · cases hstep

/-! ## Runs -/

theorem lxcCreateSystemEvent_eq (event : LxcSystemEvent) (s : EventMemory) :
    ∃ data, s.lxcCreateSystemEvent event =
      ((lxcCreateValue .system data s.memory).1,
        { s with memory := (lxcCreateValue .system data s.memory).2
                 events := s.events ++ [((lxcCreateValue .system data s.memory).1, event)] }) :=
  ⟨_, rfl⟩

/-- A value is created and referenced by its creator. -/
theorem reference_created {m m' : Memory} {type : Signal} {data : Data}
    (hfresh : m.Apart m.world.nextValue none)
    (href : (m.lxcCreateValue type data).2.lxcReferenceValue (m.lxcCreateValue type data).1 =
      some m') :
    m'.Apart m.world.nextValue (some 2) ∧ m'.deferred m.world.nextValue = 0 ∧
      (∀ u o, u ≠ m.world.nextValue → m.Apart u o → m'.Apart u o) ∧
      m'.world.nextValue = m.world.nextValue + 1 := by
  have hloop := lxcRefdiffValue_sameLoop href
  have hadjust := lxcRefdiffValue_object (e := m.world.nextValue) href rfl
  have hbeside : ∀ u, u ≠ m.world.nextValue → m.Beside m' u := fun u hu =>
    (lxcCreateValue_beside type data hu).trans
      (lxcRefdiffValue_beside href fun he => hu (Option.some.inj he).symm)
  have hi : (m.lxcCreateValue type data).2.Isolated m.world.nextValue :=
    ⟨hfresh.isolated.wires, hfresh.isolated.locations, hfresh.isolated.tasks,
      hfresh.isolated.running⟩
  have hi' := lxcRefdiffValue_isolated href hi
  obtain ⟨heap, rfl⟩ := lxcRefdiffValue_cases href
  have hzero : (m.lxcCreateValue type data).2.deferred m.world.nextValue = 0 := (hfresh.gone rfl).2
  have hnone := (hloop.deferred m.world.nextValue).trans hzero
  have hcreated : (m.lxcCreateValue type data).2.Apart m.world.nextValue (some 1) := by
    refine ⟨hi, fun ho => (by cases ho), fun k hk => ?_⟩
    obtain rfl := Option.some.inj hk
    rw [hzero]
    exact ⟨Nat.one_pos, by decide, Function.update_self _ _ _⟩
  refine ⟨hcreated.recount rfl hi' hadjust ?_ Nat.two_pos ?_, hnone,
    fun u o hu ha => ha.of_beside (hbeside u hu) (hloop.deferred u), rfl⟩
  · rw [hnone, hzero]
    rfl
  · rw [hnone]
    decide

theorem Sound.count_fresh (h : s.Sound) {v : ValueId} (hv : s.memory.world.nextValue ≤ v) :
    s.pending.count v = 0 := by
  refine List.count_eq_zero.mpr fun hmem => ?_
  obtain ⟨e, he, rfl⟩ := h.pending v hmem
  have := h.created e he
  omega

/-- What the execution behavior does with an event that has two references. -/
theorem startBehavior_apart {m m' : Memory} {b : ExecutionBehavior} {c : ExecCall} {e : ValueId}
    {o : Option Nat} (h : m.Apart e o)
    (hlt : addressOf c.value = some e → ∀ k, o = some k → k + m.deferred e + 1 < 2 ^ 31)
    (hstep : m.startBehavior b c = some m') :
    m'.Apart e o ∧ m.world.nextValue ≤ m'.world.nextValue := by
  cases b with
  | default =>
    obtain rfl := Option.some.inj hstep
    exact ⟨h.of_beside (call_beside (Option.some_ne_none e).symm) ((call_sameLoop rfl).deferred e),
      le_rfl⟩
  | loopbreaker =>
    by_cases he : addressOf c.value = some e
    · have href := (lxcExecutionLoopbreaker_cases hstep).1
      have hadjust : m.heap.adjust (2 ^ 32) e 1 = some ({ m with heap := m'.heap }).heap :=
        lxcRefdiffValue_object href he
      have hd := lxcExecutionLoopbreaker_deferred (e := e) hstep
      rw [he, one_some_self] at hd
      obtain ⟨hi, hlater⟩ := lxcExecutionLoopbreaker_isolated hstep h.isolated
      refine ⟨h.of_adjust hi hadjust (by omega) fun k hk => ?_, hlater⟩
      have := hlt he k hk
      omega
    · exact h.loopbreaker he hstep

theorem notifyGate_events {b : ExecutionBehavior} {g : GateId} {event : LxcSystemEvent}
    {ret : Option Int} (hstep : s.notifyGate b g event ret = some s') :
    ∃ e, s'.events = s.events ++ [e] := by
  obtain ⟨m₂, -, hstep⟩ := Option.bind_eq_some_iff.mp hstep
  obtain ⟨m₃, -, hstep⟩ := Option.bind_eq_some_iff.mp hstep
  obtain rfl := Option.some.inj hstep
  exact ⟨_, rfl⟩

/-- A new event has the reference of nobody, and the one of the frame. -/
theorem Sound.notifyGate (h : s.Sound) {b : ExecutionBehavior} {g : GateId}
    {event : LxcSystemEvent} {ret : Option Int} (hstep : s.notifyGate b g event ret = some s') :
    s'.Sound := by
  obtain ⟨data, hcreate⟩ := lxcCreateSystemEvent_eq event s
  simp only [EventMemory.notifyGate, hcreate, Option.bind_eq_bind, Option.bind_eq_some_iff]
    at hstep
  obtain ⟨m₂, href, m₃, hbehavior, hstep⟩ := hstep
  obtain rfl := Option.some.inj hstep
  have hfresh := h.fresh _ le_rfl
  obtain ⟨hevent, hnone, hother, hnext⟩ := reference_created hfresh href
  have hlater := (startBehavior_apart hevent
    (fun _ k hk => by obtain rfl := Option.some.inj hk; rw [hnone]; decide) hbehavior)
  have hkept : ∀ u o, u ≠ s.memory.world.nextValue → s.memory.Apart u o → m₃.Apart u o := by
    intro u o hu ha
    refine (startBehavior_apart (hother u o hu ha) (fun he => ?_) hbehavior).1
    exact absurd (Option.some.inj he).symm hu
  rw [hnext] at hlater
  refine ⟨fun v hv => ?_, fun e he => ?_, fun e he => ?_, fun v hv => ?_⟩
  · have hv : m₃.world.nextValue ≤ v := hv
    exact hkept v none (by omega) (h.fresh v (by omega))
  · show e.1.id < m₃.world.nextValue
    rcases List.mem_append.mp he with he | he
    · have := h.created e he
      omega
    · obtain rfl := List.mem_singleton.mp he
      exact hlater.2
  · show m₃.Apart e.1.id (some (1 + (s.memory.world.nextValue :: s.pending).count e.1.id))
    rcases List.mem_append.mp he with he | he
    · have hne := (h.created e he).ne
      rw [List.count_cons_of_ne hne.symm]
      exact hkept _ _ hne (h.counted e he)
    · obtain rfl := List.mem_singleton.mp he
      show m₃.Apart s.memory.world.nextValue
        (some (1 + (s.memory.world.nextValue :: s.pending).count s.memory.world.nextValue))
      rw [List.count_cons_self, h.count_fresh le_rfl]
      exact hlater.1
  · rcases List.mem_cons.mp hv with rfl | hv
    · exact ⟨_, List.mem_append_right _ (List.mem_singleton_self _), rfl⟩
    · obtain ⟨e, he, hid⟩ := h.pending v hv
      exact ⟨e, List.mem_append_left _ he, hid⟩

/-- The frame gives back its own reference. -/
theorem Sound.notified (h : s.Sound) {notify : LxcValue}
    (hunref : s.memory.lxcUnreferenceValue (some notify) = some s'.memory)
    (hpending : s.pending = notify.id :: s'.pending) (hevents : s'.events = s.events) :
    s'.Sound := by
  obtain ⟨e, he, hid⟩ := h.pending notify.id (hpending ▸ List.mem_cons_self)
  have hadjust : s.memory.heap.adjust (2 ^ 32) notify.id (-1) = some s'.memory.heap :=
    lxcRefdiffValue_object hunref rfl
  have hloop := lxcRefdiffValue_sameLoop hunref
  have hother : ∀ u o, u ≠ notify.id → s.memory.Apart u o → s'.memory.Apart u o := fun u o hu ha =>
    ha.of_beside (lxcRefdiffValue_beside hunref fun he => hu (Option.some.inj he).symm)
      (hloop.deferred u)
  have hnext : s'.memory.world = s.memory.world := by
    obtain ⟨heap, hm⟩ := lxcRefdiffValue_cases hunref
    rw [hm]
  refine ⟨fun v hv => hother v none ?_ (h.fresh v (hnext ▸ hv)), fun e' he' => ?_, fun e' he' => ?_,
    fun v hv => ?_⟩
  · have := h.created e he
    rw [hnext] at hv
    omega
  · rw [hnext]
    exact h.created e' (hevents ▸ he')
  · have hcounted := h.counted e' (hevents ▸ he')
    rw [hpending] at hcounted
    by_cases heq : e'.1.id = notify.id
    · rw [heq, List.count_cons_self] at hcounted
      rw [heq]
      have hlt := (hcounted.counted _ rfl).2.1
      have hd := hloop.deferred notify.id
      have hi := lxcRefdiffValue_isolated hunref hcounted.isolated
      exact hcounted.recount rfl hi hadjust (by omega) (by omega) (by omega)
    · rw [List.count_cons_of_ne (Ne.symm heq)] at hcounted
      exact hother _ _ heq hcounted
  · rw [hevents]
    exact h.pending v (hpending ▸ List.mem_cons_of_mem _ hv)

theorem Sound.memory (h : s.Sound) {c : RefCall} {m : Memory}
    (hno : ∀ e ∈ s.events, addressOf c.value ≠ some e.1.id) (hstep : s.memory.step c = some m) :
    Sound { s with memory := m } := by
  have hlater : s.memory.world.nextValue ≤ m.world.nextValue :=
    ((h.fresh _ (Nat.le_succ _)).step (fun _ => rfl) (.inr (Nat.succ_ne_self _)) hstep).2
  refine ⟨fun v hv => ?_, fun e he => (h.created e he).trans_le hlater, fun e he => ?_, h.pending⟩
  · refine ((h.fresh v (hlater.trans hv)).step (fun _ => rfl) ?_ hstep).1
    exact (Nat.eq_or_lt_of_le hlater).imp Eq.symm fun hlt => (hlt.trans_le hv).ne'
  · exact ((h.counted e he).step (fun hc => absurd hc (hno e he)) (.inr (h.created e he).ne)
      hstep).1

theorem Sound.step (h : s.Sound) (hno : s.TakesNoReference call)
    (hstep : s.step call = some s') : s'.Sound := by
  obtain ⟨-, s₁, b, g, event, ret, halike, hnotify⟩ | ⟨-, halike⟩ |
    ⟨-, notify, hunref, hpending, hevents⟩ | ⟨c, m, rfl, hm, rfl⟩ := step_cases hstep
  · exact (h.alike halike).notifyGate hnotify
  · exact h.alike halike
  · exact h.notified hunref hpending hevents
  · exact h.memory (hno c rfl) hm

/-- Events are never forgotten. -/
theorem step_events (hstep : s.step call = some s') :
    s'.events = [] ↔ s.events = [] ∧ s.CreatesNoEvent call := by
  obtain ⟨hevent, s₁, b, g, event, ret, halike, hnotify⟩ | ⟨hquiet, halike⟩ |
    ⟨rfl, notify, hunref, hpending, hevents⟩ | ⟨c, m, rfl, hm, rfl⟩ := step_cases hstep
  · obtain ⟨e, he⟩ := notifyGate_events hnotify
    rw [he]
    exact iff_of_false (List.append_ne_nil_of_right_ne_nil _ (List.cons_ne_nil e []))
      fun h => hevent h.2
  · rw [halike.events]
    exact (and_iff_left hquiet).symm
  · rw [hevents]
    exact (and_iff_left trivial).symm
  · exact (and_iff_left trivial).symm

theorem run_events {calls : List EventCall} (hrun : Run.run step s calls = some s') :
    s'.events = [] ↔ s.events = [] ∧ Run.Meets step CreatesNoEvent s calls := by
  induction calls generalizing s with
  | nil =>
    obtain rfl := Option.some.inj hrun
    exact (and_iff_left trivial).symm
  | cons call calls ih =>
    obtain ⟨s₁, hstep, hrun⟩ := Option.bind_eq_some_iff.mp hrun
    rw [ih hrun, step_events hstep, and_assoc]
    refine and_congr_right fun _ => and_congr_right fun _ => ?_
    constructor
    · intro hm s₂ hs₂
      obtain rfl := Option.some.inj (hstep.symm.trans hs₂)
      exact hm
    · exact fun hm => hm s₁ hstep

/-- No event was created yet, and nothing refers to an address that is still free. -/
structure Initial (s : EventMemory) : Prop where
  frames : s.frames = []
  events : s.events = []
  fresh : ∀ v, s.memory.world.nextValue ≤ v → s.memory.Apart v none

theorem Initial.sound (h : s.Initial) : s.Sound where
  fresh := h.fresh
  created := fun e he => by
    rw [h.events] at he
    cases he
  counted := fun e he => by
    rw [h.events] at he
    cases he
  pending := fun v hv => by
    rw [EventMemory.pending, h.frames] at hv
    cases hv

/-- The calls that notify gates have returned, and no loop is running. -/
def Settled (s : EventMemory) : Prop := s.pending = [] ∧ s.memory.world.loopBreaker = none

/-- Every event whose call has returned is freed, and was freed once, when no loop is running. -/
def FreesEvents (s : EventMemory) : Prop :=
  s.memory.world.loopBreaker = none → ∀ e ∈ s.events, e.1.id ∉ s.pending →
    s.memory.heap.objects e.1.id = none ∧ s.memory.heap.freed.count e.1.id = 1

/-- In every run in which clients take no references on events: when all calls have returned and
    the queue is drained, the events are freed if and only if there are none. -/
theorem frees_events_iff {s₀ : EventMemory} (hinit : s₀.Initial) {calls : List EventCall}
    (hno : Run.Meets step TakesNoReference s₀ calls) (hrun : Run.run step s₀ calls = some s)
    (hsettled : s.Settled) : s.FreesEvents ↔ Run.Meets step CreatesNoEvent s₀ calls := by
  have hsound : s.Sound := Run.run_invariant_of_meets Sound
    (fun _ _ _ h hno hstep => h.step hno hstep) calls s₀ s hinit.sound hno hrun
  have hnone : s.FreesEvents ↔ s.events = [] := by
    constructor
    · intro hfrees
      refine List.eq_nil_iff_forall_not_mem.mpr fun e he => ?_
      have hfreed := (hfrees hsettled.2 e he (hsettled.1 ▸ List.not_mem_nil)).1
      have hobj := ((hsound.counted e he).counted _ rfl).2.2
      rw [hfreed] at hobj
      cases hobj
    · intro hnil _ e he
      rw [hnil] at he
      cases he
  rw [hnone, run_events hrun]
  exact and_iff_right hinit.events

/-- Nothing was called yet, and no gate has a `set_property`. -/
def start (W : World) : EventMemory :=
  { memory := W.memory, hasSetProperty := fun _ => false, frames := [], events := [],
    returned := [] }

theorem start_initial {W : World} (hwires : ∀ w wire, W.wires w = some wire →
      wire.currentValue = none) (hqueue : W.loopBreaker = none) (hnext : 2 ≤ W.nextValue) :
    (start W).Initial where
  frames := rfl
  events := rfl
  fresh := by
    intro v hv
    have hv : W.nextValue ≤ v := hv
    refine ⟨⟨fun w wire hw => ?_, fun value hvalue => ?_, fun t ht => ?_, fun c hc => ?_⟩,
      fun _ => ⟨if_neg (Nat.not_lt_of_le (hnext.trans hv)), ?_⟩, fun k hk => ?_⟩
    · rw [hwires w wire hw]
      exact (Option.some_ne_none v).symm
    · obtain rfl := List.mem_singleton.mp hvalue
      exact (Option.some_ne_none v).symm
    · cases ht
    · cases hc
    · have : (start W).memory.world.loopBreaker = none := hqueue
      rw [deferred, this]
      rfl
    · cases hk

theorem start_nandNot_initial (behavior : ExecutionBehavior) :
    (start (nandNot .directPropagateValue behavior)).Initial := by
  refine start_initial (fun w wire hw => ?_) rfl le_rfl
  rcases nandNot_wire hw with ⟨rfl, rfl⟩ | ⟨rfl, rfl⟩ | ⟨rfl, rfl⟩ | ⟨rfl, rfl⟩ <;> rfl

/-- A second driver for the output wire of the inverter, which was disabled before. -/
theorem frees_events_disabled :
    ∃ s, Run.run step (start (nandNot .directPropagateValue .loopbreaker))
        [.memory (.setEnabled 1 false), .outputWiring .bool 0 (some 3) 1 0] = some s ∧
      s.FreesEvents := by
  obtain ⟨s, hrun⟩ : ∃ s, Run.run step (start (nandNot .directPropagateValue .loopbreaker))
      [.memory (.setEnabled 1 false), .outputWiring .bool 0 (some 3) 1 0] = some s := ⟨_, rfl⟩
  refine ⟨s, hrun, (frees_events_iff (start_nandNot_initial _) ?_ hrun ?_).mpr ?_⟩
  · exact Run.Meets.cons rfl (fun c _ e he => by cases he)
      ⟨fun c hc => (by cases hc), fun _ _ => trivial⟩
  · obtain rfl := Option.some.inj hrun
    exact ⟨rfl, rfl⟩
  · refine Run.Meets.cons rfl trivial ⟨fun _ gate hg => ?_, fun _ _ => trivial⟩
    obtain rfl := Option.some.inj hg
    rfl

/-- The inverter gets a second output wire while it is enabled: when the loop and the wiring have
    returned, the event is still there. -/
theorem not_frees_events :
    ¬ ∀ (s₀ s : EventMemory) (calls : List EventCall), s₀.Initial →
      Run.Meets step TakesNoReference s₀ calls → Run.run step s₀ calls = some s →
        s.FreesEvents := by
  intro hall
  obtain ⟨s, hrun⟩ : ∃ s, Run.run step (start (nandNot .directPropagateValue .loopbreaker))
      [.outputWiring .bool 0 (some 3) 1 0, .memory .next, .memory .next, .notified] = some s :=
    ⟨_, rfl⟩
  have hfrees := hall _ s _ (start_nandNot_initial .loopbreaker) ?_ hrun
  · obtain rfl := Option.some.inj hrun
    cases (hfrees rfl _ (List.mem_singleton_self _) List.not_mem_nil).1
  · have hnone : ∀ s : EventMemory, ∀ c, EventCall.memory .next = .memory c →
        ∀ e ∈ s.events, addressOf c.value ≠ some e.1.id := by
      rintro s c hc e - he
      obtain rfl := EventCall.memory.inj hc
      cases he
    refine Run.Meets.cons rfl (fun c hc => by cases hc) ?_
    refine Run.Meets.cons rfl (hnone _) (Run.Meets.cons rfl (hnone _) ?_)
    exact ⟨fun c hc => (by cases hc), fun _ _ => trivial⟩

end EventMemory

end LogxControll
