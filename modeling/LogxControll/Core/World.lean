/-
  The memory the framework works on: gates, wires, tokenports (`core/lxc.h`), and the function
  table of each kind of gate (`gate_generic.c`, `lxc_bool_gates.c`, `computerphile_sort.c`).

  Pointers are numbers; a table maps the live ones to what they point to, so following a
  pointer to freed or never allocated memory has no result. Addresses are not reused.

  A port slot is a `void*`: a tokenport on the input side, a wire on the output side.
-/
import LogxControll.Core.PortManager

namespace LogxControll

/-- The address of an instance. -/
abbrev GateId := Nat

/-- The address of a wire. -/
abbrev WireId := Nat

/-- The address of a token port. -/
abbrev TokenportId := Nat

/-- `struct wire_handler_logic`: the two the repository defines. -/
inductive WireHandler where
  | directPropagateValue
  | nonhazardPropagateValue
  deriving DecidableEq, Repr

/-- `currentValue` is the token of a port on a `NONHAZARD_PROPAGATE_VALUE` wire. -/
structure Tokenport where
  owner : WireId
  wireIndex : Int
  currentValue : Option LxcValue
  gate : GateId
  index : Nat
  deriving DecidableEq, Repr

/-- A tokenport as the wiring functions allocate it. -/
def Tokenport.zeroed (owner : WireId) (gate : GateId) (index : Nat) : Tokenport :=
  { owner := owner, wireIndex := 0, currentValue := none, gate := gate, index := index }

/-- `struct wire` -/
structure Wire where
  type : Signal
  subtype : Int
  currentValue : Option LxcValue
  refDes : Option String
  drivers : NtArray TokenportId
  drivens : NtArray TokenportId
  handler : WireHandler
  deriving DecidableEq, Repr

/-- The wire's entries for the ports of one direction. -/
def Wire.ports (wire : Wire) : Direction → NtArray TokenportId
  | .input => wire.drivens
  | .output => wire.drivers

/-- The wire with other driven ports, or other drivers. -/
def Wire.setPorts (wire : Wire) (dir : Direction) (ports : NtArray TokenportId) : Wire :=
  match dir with
  | .input => { wire with drivens := ports }
  | .output => { wire with drivers := ports }

/-- `gate->execution_behavior` -/
inductive ExecutionBehavior where
  | default
  | loopbreaker
  deriving DecidableEq, Repr

/-- `behavior->logic_function` of the gates of `lxc_bool_gates.c`. -/
inductive LogicFunction where
  | nand | nor | and | or | not | xor | dbg
  deriving DecidableEq, Repr

/-- What `lxc_get_value` returns: the address inside a value object, and what is stored there. -/
structure DataAddress where
  object : Nat
  data : Data
  deriving DecidableEq, Repr

/-- `behavior->execute`. A wrapped function takes the array of data addresses and the next free
    address for the values it creates, and fills the output array. `other` gates do nothing when
    they are executed. -/
inductive Execute where
  | bool (logicFunction : LogicFunction)
  | portiSorter
  | portbSorter
  | specSorter
  | functional (function : List DataAddress → Nat → List (Option LxcValue) × Nat)
  | other

/-- Whose function table the gate uses: ports in behavior, ports in instance, the bool gates,
    the special sorter box. -/
inductive GateClass where
  | portb
  | porti
  | bool
  | spec
  deriving DecidableEq, Repr

/-- The port manager of one direction and the array of bound tokenports or wires. -/
structure PortSide where
  manager : PortManager
  slots : List (Option Nat)
  deriving DecidableEq, Repr

/-- `struct lxc_instance` with what its behavior and its arrays say of it. -/
structure Gate where
  gateClass : GateClass
  execute : Execute
  enabled : Bool
  executionBehavior : Option ExecutionBehavior
  input : PortSide
  output : PortSide

/-- The ports of one direction. -/
def Gate.side (g : Gate) : Direction → PortSide
  | .input => g.input
  | .output => g.output

/-- The gate with other ports in one direction. -/
def Gate.setSide (g : Gate) (dir : Direction) (side : PortSide) : Gate :=
  match dir with
  | .input => { g with input := side }
  | .output => { g with output := side }

/-- `struct qe_task` without its links. -/
structure QeTask where
  instance_ : GateId
  value : Option LxcValue
  index : Nat
  deriving DecidableEq, Repr

/-- `loopBreaker` is the queue `LOOP_BREAKER` points to, `none` while it is NULL. `driven`
    records the calls of `lxc_drive_wire_value` made by gates, for statements about runs; no
    function reads it. -/
structure World where
  gates : GateId → Option Gate
  wires : WireId → Option Wire
  tokenports : TokenportId → Option Tokenport
  nextWire : Nat
  nextTokenport : Nat
  nextValue : Nat
  loopBreaker : Option (List QeTask)
  driven : List (GateId × LxcValue)

namespace World

/-- A write to an instance. -/
def setGate (W : World) (i : GateId) (g : Gate) : World :=
  { W with gates := Function.update W.gates i (some g) }

/-- A write to a wire. -/
def setWire (W : World) (i : WireId) (w : Wire) : World :=
  { W with wires := Function.update W.wires i (some w) }

/-- A write to a token port. -/
def setTokenport (W : World) (i : TokenportId) (p : Tokenport) : World :=
  { W with tokenports := Function.update W.tokenports i (some p) }

/-- `malloc` of a tokenport; its address is `W.nextTokenport`. -/
def allocTokenport (W : World) (p : Tokenport) : World :=
  { W.setTokenport W.nextTokenport p with nextTokenport := W.nextTokenport + 1 }

/-- `free` of a token port. -/
def freeTokenport (W : World) (i : TokenportId) : World :=
  { W with tokenports := Function.update W.tokenports i none }

end World

/-- A call of an execute function or of an execution behavior. -/
structure ExecCall where
  gate : GateId
  type : Option Signal
  subtype : Int
  value : Option LxcValue
  index : Nat
  deriving DecidableEq, Repr

/-! ## The function tables -/

/-- `get_input_types`, `get_output_types` with room for `LXC_GATE_MAX_IO_TYPE_COUNT` types. -/
def Gate.getTypes (g : Gate) (dir : Direction) : Int × List FullSignalType :=
  match g.gateClass with
  | .bool => (1, [⟨.bool, 0⟩])
  | .portb | .porti | .spec => lxcPortFillTypes (g.side dir).manager lxcGateMaxIoTypeCount

/-- `return_20`, `return_1` -/
def returnConst (n : Int) (s : Signal) (subtype : Int) : Int :=
  if s ≠ .bool ∨ subtype ≠ 0 then -1 else n

/-- `get_input_max_index`, `get_output_max_index` -/
def Gate.getMaxIndex (g : Gate) (dir : Direction) (type : Signal) (subtype : Int) :
    Option Int :=
  match g.gateClass, dir with
  | .bool, .input => some (returnConst 20 type subtype)
  | .bool, .output => some (returnConst 1 type subtype)
  | _, _ => lxcGenericGetTypeMaxIndex (g.side dir).manager type subtype

/-- `INPUT_NAMES`, `OUTPUT_NAMES` with their common first letter as a parameter. -/
def boolNames (letter : String) : List String :=
  ["0", "1", "2", "3", "4", "5", "6", "7", "8", "9", "1", "10", "11", "12", "13", "14", "15",
    "16", "17", "18", "19", "20"].map (letter ++ ·)

/-- `logx_bool_get_input_label`, `logx_bool_get_output_label` -/
def logxBoolGetLabel (letter : String) (signal : Signal) (subtype : Int) (index : Nat) :
    Option PortName :=
  if signal ≠ .bool ∨ 20 < index ∨ subtype ≠ 0 then none
  else (boolNames letter)[index]?.map PortName.chars

/-- `get_input_label`, `get_output_label` -/
def Gate.getLabel (g : Gate) (dir : Direction) (type : Signal) (subtype : Int) (index : Nat) :
    Option (Option PortName) :=
  match g.gateClass, dir with
  | .bool, .input => some (logxBoolGetLabel "I" type subtype index)
  | .bool, .output => some (logxBoolGetLabel "Q" type subtype index)
  | _, _ => lxcGenericGetPortLabel (g.side dir).manager type subtype index

/-- `get_input_wire`, `get_output_wire`: the tokenport or wire in the slot of a port. The
    behavior's port count bounds the array of a portb gate, the allocated length that of a
    porti gate; the special sorter box reads its two slots without a check. -/
def Gate.getWire (g : Gate) (dir : Direction) (type : Signal) (subtype : Int) (index : Nat) :
    Option (Option Nat) :=
  let side := g.side dir
  match g.gateClass with
  | .portb => lxcPortGetWireSafe side.manager type subtype index side.slots side.manager.maxSize
  | .porti => lxcPortGetWireSafe side.manager type subtype index side.slots side.slots.length
  | .spec => side.slots[index]?
  | .bool =>
    match dir with
    | .input =>
      if type ≠ .bool ∨ 20 < index ∨ subtype ≠ 0 then some none else side.slots[index]?
    | .output => if type ≠ .bool ∨ index ≠ 0 then some none else side.slots[0]?

/-- `force_index_available`: grow the slot array to the number of ports, the new slots NULL. -/
def forceIndexAvailable (side : PortSide) : PortSide :=
  let need := (lxcPortCount side.manager).toNat
  if side.slots.length ≤ need then
    { side with slots := side.slots ++ List.replicate (need - side.slots.length) none }
  else side

/-- `lxc_generic_portb_wire_input`, `lxc_generic_portb_wire_output` -/
def lxcGenericPortbWire (side : PortSide) (type : Signal) (subtype : Int) (index : Nat)
    (subject : Option Nat) : Option (Int × PortSide) := do
  let (ret, slots) ← lxcPortWiring side.manager type subtype index side.slots subject
  return (ret, { side with slots := slots })

/-- An unchecked store `slots[index] = subject`. -/
def storeSlot (side : PortSide) (index : Nat) (subject : Option Nat) :
    Option (Int × PortSide) :=
  if index < side.slots.length then
    some (0, { side with slots := side.slots.set index subject })
  else none

/-- `wire_input`, `wire_output`: put a tokenport or wire, or NULL, into the slot of a port. A
    bool gate has one output slot and ignores the index. -/
def Gate.wire (g : Gate) (dir : Direction) (type : Signal) (subtype : Int) (index : Nat)
    (subject : Option Nat) : Option (Int × PortSide) :=
  let side := g.side dir
  match g.gateClass with
  | .portb => lxcGenericPortbWire side type subtype index subject
  | .porti => lxcGenericPortbWire (forceIndexAvailable side) type subtype index subject
  | .spec => storeSlot side index subject
  | .bool =>
    match dir with
    | .input => storeSlot side index subject
    | .output => storeSlot side 0 subject

end LogxControll
