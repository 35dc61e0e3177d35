/-
  Creating behaviors and gates: `lxc_init_instance` (`core/lxc.c`), the `create` functions of the
  generic gates (`gate_generic.c`), the bool gates (`lxc_bool_gates.c`), the functional wrapper
  (`functional_wrapper.c`) and the three comparators (`computerphile_sort.c`).
-/
import LogxControll.Core.World

namespace LogxControll

/-- `struct lxc_port_definition` -/
structure PortDefinition where
  name : String
  type : Signal
  subtype : Int
  deriving DecidableEq, Repr

/-- The type and the subtype that a port is declared with. -/
def PortDefinition.key (d : PortDefinition) : FullSignalType := ⟨d.type, d.subtype⟩

/-- The ports of `struct lxc_generic_portb_behavior`, with the execute function of its gates. -/
structure PortbBehavior where
  execute : Execute
  inputPorts : PortManager
  outputPorts : PortManager

/-- Adds the ports one after the other, for a caller that keeps what each call returns. -/
def addNewPorts (junk : Nat → Nat) : PortManager → List PortDefinition →
    Option (List Int × PortManager)
  | m, [] => some ([], m)
  | m, d :: defs => do
    let (returned, _, m) ← lxcPortUncheckedAddNewPort junk m (.chars d.name) d.type d.subtype
    let (rest, m) ← addNewPorts junk m defs
    return (returned :: rest, m)

/-- The loop that adds one port for each definition. -/
def addPortDefinitions (junk : Nat → Nat) : PortManager → List PortDefinition → Option PortManager
  | m, [] => some m
  | m, d :: defs => do
    let (_, _, m) ← lxcPortUncheckedAddNewPort junk m (.chars d.name) d.type d.subtype
    addPortDefinitions junk m defs

/-- `struct lxc_simple_func_gate_builder` -/
structure SimpleFuncGateBuilder where
  function : List DataAddress → Nat → List (Option LxcValue) × Nat
  inputs : List PortDefinition
  outputs : List PortDefinition

/-- `lxc_generic_create_simple_function_wrapper`. -/
def lxcGenericCreateSimpleFunctionWrapper (junk : Nat → Nat) (builder : SimpleFuncGateBuilder) :
    Option PortbBehavior := do
  let inputPorts ← addPortDefinitions junk .zeroed builder.inputs
  let outputPorts ← addPortDefinitions junk .zeroed builder.outputs
  return { execute := .functional builder.function, inputPorts := inputPorts,
           outputPorts := outputPorts }

/-- A gate as `lxc_init_instance` leaves it. -/
def lxcInitInstance (gateClass : GateClass) (execute : Execute) (input output : PortSide) : Gate :=
  { gateClass := gateClass, execute := execute, enabled := false,
    executionBehavior := some .default, input := input, output := output }

/-- `logx_bool_create`: `inputs[21]` and `output` are NULL. -/
def logxBoolCreate (f : LogicFunction) : Gate :=
  lxcInitInstance .bool (.bool f) { manager := .zeroed, slots := List.replicate 21 none }
    { manager := .zeroed, slots := [none] }

/-- A zeroed array with one slot for each port. -/
def zeroedSlots (m : PortManager) : List (Option Nat) :=
  List.replicate (lxcPortCount m).toNat none

/-- `lxc_generic_portb_gate_create`: an instance with a block for each type of the behavior, no slot
    of it wired. -/
def lxcGenericPortbGateCreate (b : PortbBehavior) : Gate :=
  lxcInitInstance .portb b.execute
    { manager := b.inputPorts, slots := zeroedSlots b.inputPorts }
    { manager := b.outputPorts, slots := zeroedSlots b.outputPorts }

/-- `lxc_generic_porti_gate_create` -/
def lxcGenericPortiGateCreate (execute : Execute) : Gate :=
  lxcInitInstance .porti execute { manager := .zeroed, slots := zeroedSlots .zeroed }
    { manager := .zeroed, slots := zeroedSlots .zeroed }

end LogxControll
