/-
  `experiment/usecases/computerphile_sort.c`: the three comparators and the sorting network, and
  the functions of `core/facet.c` that it uses to build circuits.

  The execute functions of the comparators are in `Core/Execution.lean`.
-/
import LogxControll.Core.Circuit
import LogxControll.Core.Creation

namespace LogxControll

/-! ## Circuits -/

/-- `lxc_circuit_create` -/
def lxcCircuitCreate : IOCircuit := { gates := fun _ => none, wires := fun _ => none }

/-- `lxc_circuit_add_gate`; `refDes` is `gate->ref_des`. -/
def lxcCircuitAddGate (circ : IOCircuit) (gate : GateId) (refDes : String) : Int × IOCircuit :=
  if (lxcCircuitGetGateByRefdes circ refDes).isSome then
    (LxcErrno.entityByNameAlreadyRegistered.code, circ)
  else
    (0, { circ with gates := Function.update circ.gates refDes (some gate) })

/-- `lxc_circuit_get_or_create_wire`; no wire when one of another type has the name. -/
def lxcCircuitGetOrCreateWire (circ : IOCircuit) (name : String) (sig : Signal) (W : World) :
    Option (Option WireId × IOCircuit × World) :=
  match lxcCircuitGetWireByRefdes circ name with
  | none => do
    let (in_, W) := lxcWireCreate sig W
    let W ← lxcWireSetRefdes in_ name W
    let (_, circ) ← lxcCircuitAddWire circ in_ W
    return (some in_, circ, W)
  | some in_ => do
    let wire ← W.wires in_
    if sig ≠ wire.type then return (none, circ, W) else return (some in_, circ, W)

/-- `lxc_gate_set_enabled` -/
def lxcGateSetEnabled (enabled : Bool) (W : World) (gate : GateId) : Option World := do
  let g ← W.gates gate
  return W.setGate gate { g with enabled := enabled }

/-- `lxc_circuit_set_all_gate_enable`. `gates` are the gates of the circuit, in the order in which
    `hashmap_iterate` comes to them. -/
def lxcCircuitSetAllGateEnable (gates : List GateId) (enable : Bool) (W : World) : Option World :=
  gates.foldlM (lxcGateSetEnabled enable) W

/-! ## Comparators -/

/-- The inputs that all comparators declare. -/
def sorterInputs : List PortDefinition := [⟨"I0", .int, 0⟩, ⟨"I1", .int, 0⟩]

/-- The outputs that all comparators declare. -/
def sorterOutputs : List PortDefinition := [⟨"Q0", .int, 0⟩, ⟨"Q1", .int, 0⟩]

/-- `porti_comparator_create`: the ports are added to the new gate. -/
def portiComparatorCreate (junk : Nat → Nat) : Option Gate := do
  let g := lxcGenericPortiGateCreate .portiSorter
  let inputPorts ← addPortDefinitions junk g.input.manager sorterInputs
  let outputPorts ← addPortDefinitions junk g.output.manager sorterOutputs
  return { g with input := { g.input with manager := inputPorts },
                  output := { g.output with manager := outputPorts } }

/-- The ports are added to the behavior when the first gate is created. -/
def sorterBehavior (junk : Nat → Nat) (execute : Execute) : Option PortbBehavior := do
  let inputPorts ← addPortDefinitions junk .zeroed sorterInputs
  let outputPorts ← addPortDefinitions junk .zeroed sorterOutputs
  return { execute := execute, inputPorts := inputPorts, outputPorts := outputPorts }

/-- `portb_comparator_create` -/
def portbComparatorCreate (junk : Nat → Nat) : Option Gate :=
  (sorterBehavior junk .portbSorter).map lxcGenericPortbGateCreate

/-- `spec_create`: `in[2]` and `out[2]` are NULL. -/
def specCreate (b : PortbBehavior) : Gate :=
  lxcInitInstance .spec b.execute { manager := b.inputPorts, slots := [none, none] }
    { manager := b.outputPorts, slots := [none, none] }

/-- `spec_comparator_create` -/
def specComparatorCreate (junk : Nat → Nat) : Option Gate :=
  (sorterBehavior junk .specSorter).map specCreate

/-- The three implementations. -/
inductive SorterBox where
  | porti | portb | spec
  deriving DecidableEq, Repr

/-- The function that is passed as `creator`. -/
def SorterBox.creator (box : SorterBox) (junk : Nat → Nat) : Option Gate :=
  match box with
  | .porti => portiComparatorCreate junk
  | .portb => portbComparatorCreate junk
  | .spec => specComparatorCreate junk

/-! ## The network -/

/-- `triangle_nth`. The product of two `int`s wraps around. -/
def triangleNth (i j : Int) : Int := ((i * (i + 1)).bmod (2 ^ 32)).tdiv 2 + j

/-- What `sprintf` makes of some letters and `%d`. -/
def numbered (letters : String) (n : Int) : String := letters ++ n.repr

/-- The circuit under construction, the memory, and the address of the next gate. -/
structure Building where
  circ : IOCircuit
  memory : World
  nextGate : GateId

/-- Get or create the wire `name`, and tie it to a port of `g`. -/
def Building.tie (ex : ExecCall → World → Option World) (dir : Direction) (name : String)
    (g : GateId) (index : Nat) (s : Building) : Option Building := do
  let (wire, circ, W) ← lxcCircuitGetOrCreateWire s.circ name .int s.memory
  let (_, W) ← lxcWireGate ex dir (some .int) 0 wire g index W
  return { s with circ := circ, memory := W }

/-- The gate that `creator()` returns, with its name, added to the circuit. -/
def Building.addGate (creator : Option Gate) (name : String) (s : Building) :
    Option (GateId × Building) := do
  let gate ← creator
  let g := s.nextGate
  let (_, circ) := lxcCircuitAddGate s.circ g name
  return (g, { circ := circ, memory := s.memory.setGate g gate, nextGate := g + 1 })

/-- The wires of gate `g`, at place `j` of row `i`. -/
def tieGate (ex : ExecCall → World → Option World) (elem i j : Int) (g : GateId) (s : Building) :
    Option Building := do
  -- up
  let s ← (if i ≠ j then
      s.tie ex .input (numbered "y" (triangleNth (i - 1) (j - 1) + 1)) g 0
    else
      some s)
  -- left
  let s ← s.tie ex .input
    (if j = 0 then numbered "i" i else numbered "x" (triangleNth (i - 1) (j - 1))) g 1
  -- down
  let s ← s.tie ex .output
    (if i = elem - 1 then numbered "o" j else numbered "y" (triangleNth i j)) g 0
  -- right
  if i ≠ j then
    s.tie ex .output (numbered "x" (triangleNth (i - 1) j)) g 1
  else
    some s

/-- The body of the inner loop. -/
def placeGate (ex : ExecCall → World → Option World) (creator : Option Gate) (elem i j : Int)
    (s : Building) : Option Building := do
  let (g, s) ← s.addGate creator (numbered "G_" (triangleNth i j))
  tieGate ex elem i j g s

/-- The inner loop, for row `i`. -/
def placeRow (ex : ExecCall → World → Option World) (creator : Option Gate) (elem : Int)
    (s : Building) (i : Nat) : Option Building :=
  (List.range (i + 1)).foldlM (fun s (j : Nat) => placeGate ex creator elem i j s) s

/-- `create_computerphile_sort_network`. `nextGate` is the address of the first gate. -/
def createComputerphileSortNetwork (ex : ExecCall → World → Option World) (creator : Option Gate)
    (elem : Int) (nextGate : GateId) (W : World) : Option Building :=
  (List.range elem.toNat).foldlM (placeRow ex creator elem)
    { circ := lxcCircuitCreate, memory := W, nextGate := nextGate }

end LogxControll
