/-
  `core/facet.c`, circuits: gates and wires registered by name, the search for a port by its
  label, `lxc_circuit_wire_ports_together`, and the release of all ports when a circuit is
  destroyed.

  The hash maps of a circuit are maps from strings; inserting into them does not run out of
  memory.
-/
import LogxControll.Core.Wiring

namespace LogxControll

/-- The gates and the wires of a circuit by their reference designators. -/
structure IOCircuit where
  gates : String → Option GateId
  wires : String → Option WireId

/-- `lxc_circuit_get_gate_by_refdes`. -/
def lxcCircuitGetGateByRefdes (circ : IOCircuit) (name : String) : Option GateId :=
  circ.gates name

/-- `lxc_circuit_get_wire_by_refdes`. -/
def lxcCircuitGetWireByRefdes (circ : IOCircuit) (name : String) : Option WireId :=
  circ.wires name

/-- The inner loop of `lxc_gate_get_portinfo_by_name`: `n` more indices, from `t` on. -/
def findLabel (gate : Gate) (dir : Direction) (sig : Signal) (sub : Int) (portName : String) :
    Nat → Nat → Option (Option Nat)
  | 0, _ => some none
  | n + 1, t => do
    let name ← gate.getLabel dir sig sub t
    if name.map PortName.text = some portName then
      return some t
    else
      findLabel gate dir sig sub portName n (t + 1)

/-- Its outer loop, over the types of the gate. -/
def findPortInfo (gate : Gate) (dir : Direction) (portName : String) :
    List FullSignalType → Option (Option (Signal × Int × Nat))
  | [] => some none
  | ⟨sig, sub⟩ :: types => do
    let max ← gate.getMaxIndex dir sig sub
    match ← findLabel gate dir sig sub portName max.toNat 0 with
    | some t => return some (sig, sub, t)
    | none => findPortInfo gate dir portName types

/-- The return value, and on success what is stored through the pointers. -/
def lxcGateGetPortinfoByName (gate : Gate) (dir : Direction) (portName : String) :
    Option (Except Int (Signal × Int × Nat)) := do
  let (ep, types) := gate.getTypes dir
  if ep < 1 then
    return .error LxcErrno.portDoesnotExists.code
  else
    match ← findPortInfo gate dir portName types with
    | some info => return .ok info
    | none => return .error LxcErrno.portDoesnotExists.code

/-- `lxc_circuit_add_wire`: whether it failed, the error code being returned as a `bool`. -/
def lxcCircuitAddWire (circ : IOCircuit) (w : WireId) (W : World) : Option (Bool × IOCircuit) := do
  let wire ← W.wires w
  match wire.refDes with
  | none => return (true, circ)
  | some name =>
    if (lxcCircuitGetWireByRefdes circ name).isSome then
      return (true, circ)
    else
      return (false, { circ with wires := Function.update circ.wires name (some w) })

/-- `lxc_wire_set_refdes`. -/
def lxcWireSetRefdes (w : WireId) (name : String) (W : World) : Option World := do
  let wire ← W.wires w
  return W.setWire w { wire with refDes := some name }

/-- `lxc_wire_destroy` on a wire without a value. -/
def lxcWireDestroy (w : WireId) (W : World) : World :=
  { W with wires := Function.update W.wires w none }

/-- The output gate and port exist, the port is still unwired; its type is discovered. -/
def outPortByName (circ : IOCircuit) (outGate outPort : String) (W : World) :
    Option (Except Int (GateId × Signal × Int × Nat)) :=
  match lxcCircuitGetGateByRefdes circ outGate with
  | none => return .error LxcErrno.entityNotFound.code
  | some out => do
    let gate ← W.gates out
    match ← lxcGateGetPortinfoByName gate .output outPort with
    | .error stat => return .error stat
    | .ok (sig, sub, outIndex) =>
      let tp ← gate.getWire .output sig sub outIndex
      if tp.isSome then
        return .error LxcErrno.portIsInUse.code
      else
        return .ok (out, sig, sub, outIndex)

/-- The input gate and port exist, the port has the given type and is still unwired. -/
def inPortByName (circ : IOCircuit) (inGate inPort : String) (sig : Signal) (sub : Int)
    (W : World) : Option (Except Int (GateId × Nat)) :=
  match lxcCircuitGetGateByRefdes circ inGate with
  | none => return .error LxcErrno.entityNotFound.code
  | some in_ => do
    let gate ← W.gates in_
    match ← lxcGateGetPortinfoByName gate .input inPort with
    | .error stat => return .error stat
    | .ok (bustType, bustSub, inIndex) =>
      if sig ≠ bustType ∨ sub ≠ bustSub then
        return .error LxcErrno.typeNotSupported.code
      else
        let tp ← gate.getWire .input sig sub inIndex
        if tp.isSome then
          return .error LxcErrno.portIsInUse.code
        else
          return .ok (in_, inIndex)

/-- The wire registered under the name, with the given type and never driven, or a new one. -/
def wireByName (circ : IOCircuit) (wireName : String) (sig : Signal) (sub : Int)
    (createWireIfNonex : Bool) (W : World) : Option (Except Int WireId × IOCircuit × World) :=
  match lxcCircuitGetWireByRefdes circ wireName with
  | none =>
    if createWireIfNonex then do
      let (w, W) := lxcWireCreate sig W
      let W ← lxcWireSetRefdes w wireName W
      let (failed, circ) ← lxcCircuitAddWire circ w W
      if failed then
        return (.error 1, circ, lxcWireDestroy w W)
      else
        return (.ok w, circ, W)
    else
      return (.error LxcErrno.entityNotFound.code, circ, W)
  | some w => do
    let wire ← W.wires w
    if sig ≠ wire.type ∨ sub ≠ wire.subtype then
      return (.error LxcErrno.typeMismatch.code, circ, W)
    else if wire.drivers.length ≠ 0 then
      return (.error LxcErrno.alreadyHasDriver.code, circ, W)
    else
      return (.ok w, circ, W)

/-- `lxc_circuit_wire_ports_together`. A wire that was created, and an output that was wired, stay
    when a later step is refused. -/
def lxcCircuitWirePortsTogether (ex : ExecCall → World → Option World) (circ : IOCircuit)
    (outGate outPort wireName inGate inPort : String) (createWireIfNonex : Bool) (W : World) :
    Option (Int × IOCircuit × World) := do
  match ← outPortByName circ outGate outPort W with
  | .error stat => return (stat, circ, W)
  | .ok (out, sig, sub, outIndex) =>
    match ← inPortByName circ inGate inPort sig sub W with
    | .error stat => return (stat, circ, W)
    | .ok (in_, inIndex) =>
      match ← wireByName circ wireName sig sub createWireIfNonex W with
      | (.error stat, circ, W) => return (stat, circ, W)
      | (.ok w, circ, W) =>
        let (status, W) ← lxcWireGateOutput ex sig sub w out outIndex W
        if status ≠ 0 then
          return (status, circ, W)
        else
          let (status, W) ← lxcWireGateInput ex sig sub w in_ inIndex W
          return (status, circ, W)

/-! ## Releasing the ports -/

/-- The inner loop of `release_port_generic`: `n` more indices, from `m` on. -/
def releaseIndices (ex : ExecCall → World → Option World) (g : GateId) (dir : Direction)
    (sig : Signal) (sub : Int) : Nat → Nat → World → Option World
  | 0, _, W => some W
  | n + 1, m, W => do
    let gate ← W.gates g
    match ← gate.getWire dir sig sub m with
    | none => releaseIndices ex g dir sig sub n (m + 1) W
    | some _ =>
      let (_, W) ← lxcWireGate ex dir (some sig) sub none g m W
      releaseIndices ex g dir sig sub n (m + 1) W

/-- Its outer loop, over the types of the gate. -/
def releaseTypes (ex : ExecCall → World → Option World) (g : GateId) (dir : Direction) :
    List FullSignalType → World → Option World
  | [], W => some W
  | ⟨sig, sub⟩ :: types, W => do
    let gate ← W.gates g
    let max ← gate.getMaxIndex dir sig sub
    let W ← releaseIndices ex g dir sig sub max.toNat 0 W
    releaseTypes ex g dir types W

/-- `release_port_generic`: every type that the gate has ports of. -/
def releasePortGeneric (ex : ExecCall → World → Option World) (g : GateId) (dir : Direction)
    (W : World) : Option World := do
  let gate ← W.gates g
  releaseTypes ex g dir (gate.getTypes dir).2 W

/-- `iterate_release_all_port`: the inputs, then the outputs. -/
def iterateReleaseAllPort (ex : ExecCall → World → Option World) (W : World) (g : GateId) :
    Option World := do
  let W ← releasePortGeneric ex g .input W
  releasePortGeneric ex g .output W

/-- The release phase of `lxc_circuit_destroy`. `gates` are the gates of the circuit, in the order
    in which `hashmap_iterate` comes to them. -/
def releaseAllPorts (ex : ExecCall → World → Option World) (gates : List GateId) (W : World) :
    Option World :=
  gates.foldlM (iterateReleaseAllPort ex) W

end LogxControll
