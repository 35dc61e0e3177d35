/-
  Reference counts: `lxc_reference_value`, `lxc_unreference_value` (`core/facet.c`),
  `lxc_import_new_value`, `lxc_wipe_value` (`core/utils/lxc_utils.c`), and the functions that
  keep references to the values they pass on (`core/facet.c`, `core/lxc_execution.c`).

  What an execute function does with the values it gets is up to its gate. So the calls that are
  running stand on a stack: while an execute function is on top any client may make its next
  call, and every other function on top takes its next step (`RefCall.next`). The debug hooks,
  and the driving gate, which only they get, are left out.
-/
import LogxControll.Core.Circuit
import LogxControll.Core.Execution
import LogxControll.Lib.RefCount

namespace LogxControll

/-- The address of a value. -/
abbrev ValueId := Nat

/-- The pointer as the address of an object. -/
abbrev addressOf (value : Option LxcValue) : Option ValueId := value.map LxcValue.id

/-- A call that has not returned. -/
inductive RunningCall where
  /-- `wire_direct_propagate_wire_new_value`, the loop at entry `i` -/
  | propagate (w : WireId) (i : Nat) (value : LxcValue)
  /-- `behavior->execute` of a gate -/
  | execute (c : ExecCall)
  /-- `lxc_execute_then_release`, in `lxc_execute_task` -/
  | executeThenRelease (t : QeTask)
  /-- `lxc_execution_loopbreaker`, in the loop with `crnt` -/
  | loopbreaker (crnt : QeTask)
  deriving DecidableEq, Repr

/-- The reference a running call gives back later. -/
def RunningCall.owned : RunningCall → Option LxcValue
  | propagate .. => none
  | execute _ => none
  | executeThenRelease t => t.value
  | loopbreaker crnt => crnt.value

/-- The value a running call got from its caller and passes on. -/
def RunningCall.passed : RunningCall → Option LxcValue
  | propagate _ _ value => some value
  | execute c => c.value
  | executeThenRelease _ => none
  | loopbreaker _ => none

/-- Whether a call works off the queue. -/
def RunningCall.isLoopbreaker : RunningCall → Bool
  | loopbreaker _ => true
  | _ => false

@[simp] theorem RunningCall.owned_propagate (w : WireId) (i : Nat) (value : LxcValue) :
    (propagate w i value).owned = none := rfl

@[simp] theorem RunningCall.owned_execute (c : ExecCall) : (execute c).owned = none := rfl

@[simp] theorem RunningCall.owned_executeThenRelease (t : QeTask) :
    (executeThenRelease t).owned = t.value := rfl

@[simp] theorem RunningCall.owned_loopbreaker (t : QeTask) : (loopbreaker t).owned = t.value := rfl

/-- `heap` has the value objects, `held` counts the references of the clients, `locations` are
    the `LxcValue*` outside of wires, `tasks` the results of `lxc_create_task`; `struct lxc_task`
    has the fields of `struct qe_task`. -/
structure Memory where
  world : World
  heap : RefCount.Store ValueId
  held : ValueId → Nat
  locations : List (Option LxcValue)
  tasks : List QeTask
  running : List RunningCall

/-- What an `LxcValue*` points to: the value of a wire, or another location. -/
inductive Place where
  | wire (w : WireId)
  | location (l : Nat)
  deriving DecidableEq, Repr

namespace Memory

/-- What a pointer points to. -/
def read (m : Memory) : Place → Option (Option LxcValue)
  | .wire w => (m.world.wires w).map Wire.currentValue
  | .location l => m.locations[l]?

/-- A write through a pointer. -/
def write (m : Memory) (v : Option LxcValue) : Place → Option Memory
  | .wire w => do
    let wire ← m.world.wires w
    return { m with world := m.world.setWire w { wire with currentValue := v } }
  | .location l =>
    if l < m.locations.length then some { m with locations := m.locations.set l v } else none

/-- A pointer to an object that was not freed, or NULL. -/
def Live (m : Memory) (value : Option LxcValue) : Prop :=
  ∀ v, value = some v → (m.heap.objects v.id).isSome

/-! ## References -/

/-- `lxc_refdiff_value`; `refcount` is an `int`. -/
def lxcRefdiffValue (value : Option LxcValue) (count : Int) (m : Memory) : Option Memory :=
  match value with
  | none => some m
  | some v => do
    let heap ← m.heap.adjust (2 ^ 32) v.id count
    return { m with heap := heap }

/-- What adding `n` to the count of a value does to the heap. -/
theorem lxcRefdiffValue_spec {m : Memory} {value : Option LxcValue} (hlive : m.Live value) (n : Int) :
    ∃ heap, m.lxcRefdiffValue value n = some { m with heap := heap } ∧ m.heap.Ages heap ∧
      (∀ u, addressOf value ≠ some u → heap.objects u = m.heap.objects u) ∧
      ∀ v, value = some v → m.heap.adjust (2 ^ 32) v.id n = some heap := by
  cases value with
  | none => exact ⟨m.heap, rfl, .refl _, fun _ _ => rfl, fun _ hv => by cases hv⟩
  | some v =>
    have hsome : (m.heap.adjust (2 ^ 32) v.id n).isSome := RefCount.adjust_isSome (hlive v rfl)
    obtain ⟨heap, hheap⟩ := Option.isSome_iff_exists.mp hsome
    refine ⟨heap, ?_, RefCount.ages_of_adjust hheap, fun u hu => ?_, ?_⟩
    · simp only [lxcRefdiffValue, hheap, Option.bind_eq_bind, Option.bind_some]
      rfl
    · exact RefCount.adjust_of_ne hheap fun he => hu (he ▸ rfl)
    · intro v' hv'
      obtain rfl := Option.some.inj hv'
      exact hheap

/-- `lxc_reference_value` -/
def lxcReferenceValue (value : Option LxcValue) (m : Memory) : Option Memory :=
  lxcRefdiffValue value 1 m

/-- `lxc_unreference_value` -/
def lxcUnreferenceValue (value : Option LxcValue) (m : Memory) : Option Memory :=
  lxcRefdiffValue value (-1) m

/-- `lxc_import_new_value`. The new value is referenced before the old one is given back. -/
def lxcImportNewValue (newVal : Option LxcValue) (internalLocation : Place) (m : Memory) :
    Option Memory := do
  let old ← m.read internalLocation
  if addressOf newVal = addressOf old then
    return m
  else
    let m ← lxcReferenceValue newVal m
    let m ← lxcUnreferenceValue old m
    m.write newVal internalLocation

/-- `lxc_wipe_value` -/
def lxcWipeValue (val : Place) (m : Memory) : Option Memory := do
  match ← m.read val with
  | none => return m
  | some v =>
    let m ← lxcUnreferenceValue (some v) m
    m.write none val

/-- `lxc_create_primitive_value`, `lxc_create_generic_value`, and the data their callers store
    in the new object. -/
def lxcCreateValue (type : Signal) (data : Data) (m : Memory) : LxcValue × Memory :=
  let v := m.world.nextValue
  ({ id := v, type := type, subtypeInfo := 0, data := data },
    { m with heap := m.heap.create v, world := { m.world with nextValue := v + 1 } })

/-- `lxc_gate_set_enabled` of a gate that is not NULL. -/
def lxcGateSetEnabled (g : GateId) (enabled : Bool) (m : Memory) : Option Memory := do
  let gate ← m.world.gates g
  return { m with world := m.world.setGate g { gate with enabled := enabled } }

/-! ## Running calls -/

/-- Another function is called. -/
def call (m : Memory) (c : RunningCall) : Memory := { m with running := c :: m.running }

/-- `lxc_drive_wire_value` on a `DIRECT_PROPAGATE_VALUE` wire, up to the loop over the driven
    ports. -/
def lxcDriveWireValue (w : Option WireId) (value : Option LxcValue) (m : Memory) : Option Memory :=
  match w, value with
  | some w, some value => do
    let wire ← m.world.wires w
    match wire.handler with
    | .directPropagateValue =>
      let m ← lxcImportNewValue (some value) (.wire w) m
      return m.call (.propagate w 0 value)
    | .nonhazardPropagateValue => none
  | _, _ => some m

/-- `lxc_wire_destroy`: the reference of the wire is given back first. -/
def lxcWireDestroy (w : WireId) (m : Memory) : Option Memory := do
  let m ← lxcImportNewValue none (.wire w) m
  return { m with world := LogxControll.lxcWireDestroy w m.world }

/-- `lxc_create_task`: the task has a reference. -/
def lxcCreateTask (instance_ : GateId) (value : Option LxcValue) (index : Nat) (m : Memory) :
    Option Memory := do
  let m ← lxcReferenceValue value m
  return { m with tasks := m.tasks ++ [{ instance_ := instance_, value := value, index := index }] }

/-- `lxc_do_execute`, up to the call. -/
def lxcDoExecute (t : QeTask) (m : Memory) : Option Memory := do
  let gate ← m.world.gates t.instance_
  if gate.enabled then
    return m.call (.execute { gate := t.instance_, type := t.value.map LxcValue.type,
                              subtype := (t.value.map LxcValue.subtypeInfo).getD 0,
                              value := t.value, index := t.index })
  else
    return m

/-- `lxc_execute_then_release` of the task at position `i`. -/
def lxcExecuteThenRelease (i : Nat) (m : Memory) : Option Memory := do
  let t ← m.tasks[i]?
  lxcDoExecute t ({ m with tasks := m.tasks.eraseIdx i }.call (.executeThenRelease t))

/-- `lxc_execution_loopbreaker`, up to its first call of `lxc_do_execute`. -/
def lxcExecutionLoopbreaker (c : ExecCall) (m : Memory) : Option Memory := do
  let m ← lxcReferenceValue c.value m
  let task := { instance_ := c.gate, value := c.value, index := c.index }
  match m.world.loopBreaker with
  | none =>
    lxcDoExecute task ({ m with world := { m.world with loopBreaker := some [] } }.call
      (.loopbreaker task))
  | some queue => return { m with world := { m.world with loopBreaker := some (queue ++ [task]) } }

/-- The call `gate->execution_behavior(...)`, up to what it calls itself. -/
def startBehavior (b : ExecutionBehavior) (c : ExecCall) (m : Memory) : Option Memory :=
  match b with
  | .default => some (m.call (.execute c))
  | .loopbreaker => lxcExecutionLoopbreaker c m

/-- The next step of the running call on top, which the others of `rest` wait for. -/
def next (m : Memory) (rest : List RunningCall) : RunningCall → Option Memory
  | .propagate w i value => do
    let wire ← m.world.wires w
    match wire.drivens[i]? with
    | none | some none => return { m with running := rest }
    | some (some p) =>
      let tp ← m.world.tokenports p
      let gate ← m.world.gates tp.gate
      let m := { m with running := .propagate w (i + 1) value :: rest }
      match gate.enabled, gate.executionBehavior with
      | true, some b => startBehavior b { gate := tp.gate, type := wire.type,
                                          subtype := wire.subtype, value := value,
                                          index := tp.index } m
      | _, _ => return m
  | .execute _ => some { m with running := rest }
  | .executeThenRelease t => do
    let m ← lxcUnreferenceValue t.value m
    return { m with running := rest }
  | .loopbreaker crnt => do
    let m ← lxcUnreferenceValue crnt.value m
    match ← m.world.loopBreaker with
    | [] => return { m with running := rest, world := { m.world with loopBreaker := none } }
    | t :: queue =>
      lxcDoExecute t { m with running := .loopbreaker t :: rest,
                              world := { m.world with loopBreaker := some queue } }

end Memory

/-- The memory around a world without values: the two bool constants and one location. -/
def World.memory (W : World) : Memory where
  world := W
  heap := { objects := fun v => if v < 2 then some { count := 1024, constant := true } else none,
            freed := [] }
  held := 0
  locations := [none]
  tasks := []
  running := []

/-- The calls of clients, and `next`. -/
inductive RefCall where
  | createValue (type : Signal) (data : Data)
  | reference (value : Option LxcValue)
  | unreference (value : Option LxcValue)
  | importNewValue (newVal : Option LxcValue) (internalLocation : Place)
  | wipeValue (val : Place)
  | driveWire (w : Option WireId) (value : Option LxcValue)
  | wireDestroy (w : WireId)
  | createTask (instance_ : GateId) (value : Option LxcValue) (index : Nat)
  | executeThenRelease (i : Nat)
  | loopbreaker (c : ExecCall)
  | setEnabled (g : GateId) (enabled : Bool)
  | next

namespace Memory

/-- The client keeps the reference it got. -/
def keep (value : Option LxcValue) (m : Memory) : Memory :=
  { m with held := m.held + RefCount.one (addressOf value) }

/-- The client has one reference less. -/
def giveUp (value : Option LxcValue) (m : Memory) : Memory :=
  { m with held := m.held - RefCount.one (addressOf value) }

/-- A call of a client, or the next step of what is on top. -/
def step (m : Memory) : RefCall → Option Memory
  | .createValue type data =>
    let (v, m) := lxcCreateValue type data m
    some (m.keep (some v))
  | .reference value => (lxcReferenceValue value m).map (keep value)
  | .unreference value => (lxcUnreferenceValue value m).map (giveUp value)
  | .importNewValue newVal internalLocation => lxcImportNewValue newVal internalLocation m
  | .wipeValue val => lxcWipeValue val m
  | .driveWire w value => lxcDriveWireValue w value m
  | .wireDestroy w => lxcWireDestroy w m
  | .createTask instance_ value index => lxcCreateTask instance_ value index m
  | .executeThenRelease i => lxcExecuteThenRelease i m
  | .loopbreaker c => lxcExecutionLoopbreaker c m
  | .setEnabled g enabled => lxcGateSetEnabled g enabled m
  | .next =>
    match m.running with
    | [] => none
    | c :: rest => m.next rest c

end Memory

end LogxControll
