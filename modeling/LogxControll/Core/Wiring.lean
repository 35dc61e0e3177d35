/-
  `core/facet.c`, wiring: `lxc_wire_create`, `remove_port`, `private_generic_wiring` and what it
  calls, `lxc_wire_gate_input`, `lxc_wire_gate_output`.

  `ex` stands for the call `g->execution_behavior(...)`, made when an input of an enabled gate
  has been unwired or an output of it has been wired.
-/
import LogxControll.Core.World

namespace LogxControll

/-- `lxc_wire_create` for a type that is not NULL. -/
def lxcWireCreate (type : Signal) (W : World) : WireId × World :=
  (W.nextWire, { W.setWire W.nextWire
    { type := type, subtype := 0, currentValue := none, refDes := none, drivers := [],
      drivens := [], handler := .directPropagateValue } with nextWire := W.nextWire + 1 })

/-- The search of `remove_port`: position of the entry for (instance, index). -/
def findPort (W : World) (instance_ : GateId) (index : Nat) :
    NtArray TokenportId → Option (Option Nat)
  | [] => some none
  | none :: _ => none
  | some p :: rest => do
    let tp ← W.tokenports p
    if instance_ = tp.gate ∧ index = tp.index then
      return some 0
    else
      let i ← findPort W instance_ index rest
      return i.map (· + 1)

/-- `remove_port` on the entries of a wire for one direction. -/
def removePort (W : World) (instance_ : GateId) (index : Nat) (wire : WireId)
    (dir : Direction) : Option (Bool × World) := do
  let w ← W.wires wire
  match w.ports dir with
  | [] => none
  | none :: _ => return (false, W)
  | ports =>
    match ← findPort W instance_ index ports with
    | none => return (false, W)
    | some i =>
      let (p, ports) := arrayNtPopElement ports i
      let p ← p
      return (true, (W.setWire wire (w.setPorts dir ports)).freeTokenport p)

/-- `add_port` -/
def addPort (W : World) (add : TokenportId) (wire : WireId) (dir : Direction) :
    Option World := do
  let w ← W.wires wire
  return W.setWire wire (w.setPorts dir (arrayNtAppendElement (w.ports dir) (some add)).2)

/-- `lxc_create_system_event` for `system_event_output_wire_added` -/
def lxcCreateSystemEvent (type : Signal) (subtype : Int) (index : Nat) (W : World) :
    LxcValue × World :=
  ({ id := W.nextValue, type := .system, subtypeInfo := 0,
     data := .systemEvent type subtype index },
   { W with nextValue := W.nextValue + 1 })

/-- `on_successfull_input_wiring`. The token port joins the driven ports of its wire and keeps the
    place it got there; without one the gate is executed, if it is enabled. -/
def onSuccessfullInputWiring (ex : ExecCall → World → Option World) (type : Signal)
    (subtype : Int) (tp : Option TokenportId) (g : GateId) (index : Nat) (W : World) :
    Option World :=
  match tp with
  | some p => do
    let port ← W.tokenports p
    let W ← addPort W p port.owner .input
    let w ← W.wires port.owner
    return W.setTokenport p { port with wireIndex := arrayNtContains w.drivens p }
  | none => do
    let gate ← W.gates g
    if gate.enabled then
      ex { gate := g, type := type, subtype := subtype, value := none, index := index } W
    else
      return W

/-- `on_successfull_output_wiring`. The token port of the driver is made here, and an enabled gate
    is executed with an event that tells it of the wire. -/
def onSuccessfullOutputWiring (ex : ExecCall → World → Option World) (type : Signal)
    (subtype : Int) (wire : Option WireId) (g : GateId) (index : Nat) (W : World) :
    Option World :=
  match wire with
  | some w => do
    let p := W.nextTokenport
    let W := W.allocTokenport (Tokenport.zeroed w g index)
    let W ← addPort W p w .output
    let gate ← W.gates g
    if gate.enabled then
      let (notify, W) := lxcCreateSystemEvent type subtype index W
      ex { gate := g, type := notify.type, subtype := 0, value := notify, index := 0 } W
    else
      return W
  | none => return W

/-- What a direction does once the gate took the wire. -/
def onSuccessfullWiring (ex : ExecCall → World → Option World) :
    Direction → Signal → Int → Option Nat → GateId → Nat → World → Option World
  | .input => onSuccessfullInputWiring ex
  | .output => onSuccessfullOutputWiring ex

/-- The signal the call is about; `some none` for a call that names neither signal nor wire, or
    a signal that is not the wire's. -/
def wiringSignal (signal : Option Signal) (wire : Option WireId) (W : World) :
    Option (Option Signal) :=
  match signal, wire with
  | none, none => some none
  | none, some w => do
    let w ← W.wires w
    return some w.type
  | some s, none => some (some s)
  | some s, some w => do
    let w ← W.wires w
    if s ≠ w.type then return none else return some s

/-- The wire whose entries an unwired port is removed from. -/
def slotOwner (W : World) (dir : Direction) (wired : Nat) : Option WireId :=
  match dir with
  | .input => (W.tokenports wired).map Tokenport.owner
  | .output => some wired

/-- Unwiring a port whose slot holds `wired`. -/
def unwirePort (ex : ExecCall → World → Option World) (dir : Direction) (signal : Signal)
    (subtype : Int) (instance_ : GateId) (index : Nat) (wired : Nat) (W : World) :
    Option (Int × World) := do
  let g ← W.gates instance_
  let (_, side) ← g.wire dir signal subtype index none
  let W := W.setGate instance_ (g.setSide dir side)
  let wire ← slotOwner W dir wired
  let (result, W) ← removePort W instance_ index wire dir
  if result then
    let W ← onSuccessfullWiring ex dir signal subtype none instance_ index W
    return (0, W)
  else
    return (LxcErrno.notConnectedUnwiring.code, W)

/-- Tying a wire to a free input: the slot gets a new tokenport. -/
def tieInput (ex : ExecCall → World → Option World) (signal : Signal) (subtype : Int)
    (instance_ : GateId) (index : Nat) (wire : WireId) (W : World) : Option (Int × World) := do
  let p := W.nextTokenport
  let W := W.allocTokenport (Tokenport.zeroed wire instance_ index)
  let g ← W.gates instance_
  let (ret, side) ← g.wire .input signal subtype index (some p)
  let W := W.setGate instance_ (g.setSide .input side)
  if ret ≠ 0 then
    return (ret, W.freeTokenport p)
  else
    let W ← onSuccessfullWiring ex .input signal subtype (some p) instance_ index W
    return (0, W)

/-- Tying a wire to a free output: the slot gets the wire itself. -/
def tieOutput (ex : ExecCall → World → Option World) (signal : Signal) (subtype : Int)
    (instance_ : GateId) (index : Nat) (wire : WireId) (W : World) : Option (Int × World) := do
  let g ← W.gates instance_
  let (ret, side) ← g.wire .output signal subtype index (some wire)
  let W := W.setGate instance_ (g.setSide .output side)
  if ret ≠ 0 then
    return (ret, W)
  else
    let W ← onSuccessfullWiring ex .output signal subtype (some wire) instance_ index W
    return (0, W)

/-- `private_generic_wiring`: all checks, then the gate itself, then what follows a success. -/
def privateGenericWiring (ex : ExecCall → World → Option World) (dir : Direction)
    (signal : Option Signal) (subtype : Int) (wire : Option WireId) (instance_ : GateId)
    (index : Int) (W : World) : Option (Int × World) := do
  match ← wiringSignal signal wire W with
  | none => return (LxcErrno.badCall.code, W)
  | some signal =>
    let g ← W.gates instance_
    let (suppMax, supp) := g.getTypes dir
    if suppMax < -(lxcGateMaxIoTypeCount : Int) then
      return (LxcErrno.tooManyTypes.code, W)
    else if ⟨signal, subtype⟩ ∉ supp then
      return (LxcErrno.typeNotSupported.code, W)
    else
      let maxIndex ← g.getMaxIndex dir signal subtype
      if index < 0 ∨ maxIndex < index then
        return (LxcErrno.entityOutOfRange.code, W)
      else
        let index := index.toNat
        let wired ← g.getWire dir signal subtype index
        match wire, wired with
        | none, none => return (LxcErrno.portIsAlreadyFree.code, W)
        | none, some wired => unwirePort ex dir signal subtype instance_ index wired W
        | some _, some _ => return (LxcErrno.portIsInUse.code, W)
        | some w, none =>
          match dir with
          | .input => tieInput ex signal subtype instance_ index w W
          | .output => tieOutput ex signal subtype instance_ index w W

/-- `lxc_wire_gate_input`; the index arrives as an `int`. -/
def lxcWireGateInput (ex : ExecCall → World → Option World) (type : Option Signal)
    (subtype : Int) (wire : Option WireId) (g : GateId) (index : Nat) (W : World) :
    Option (Int × World) :=
  privateGenericWiring ex .input type subtype wire g (intOfUint index) W

/-- `lxc_wire_gate_output` -/
def lxcWireGateOutput (ex : ExecCall → World → Option World) (type : Option Signal)
    (subtype : Int) (wire : Option WireId) (g : GateId) (index : Nat) (W : World) :
    Option (Int × World) :=
  privateGenericWiring ex .output type subtype wire g (intOfUint index) W

/-- `lxc_wire_gate_input`, `lxc_wire_gate_output` -/
def lxcWireGate (ex : ExecCall → World → Option World) (dir : Direction) (type : Option Signal)
    (subtype : Int) (wire : Option WireId) (g : GateId) (index : Nat) (W : World) :
    Option (Int × World) :=
  match dir with
  | .input => lxcWireGateInput ex type subtype wire g index W
  | .output => lxcWireGateOutput ex type subtype wire g index W

end LogxControll
