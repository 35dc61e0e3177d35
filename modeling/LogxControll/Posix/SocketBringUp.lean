/-
  The gate that brings up a socket (`posix/socket_bring_up.c`): it connects it, or listens on it,
  and passes it on.

  The gate finds its ports by constants that keep what the additions of the ports returned, and uses
  them as absolute indices. An access outside of an array has no result.

  The operating system answers calls, and the circuit around the gate may call it again while one of
  its wires is driven; both depend on all that happened before. Reference counts are left out.
-/
import LogxControll.Lib.Decimal
import LogxControll.Posix.SocketaddressCreate
import LogxControll.Wiring.Republishing

namespace LogxControll

open Decimal

/-- A system call of the gate; an address comes with its size. -/
inductive OsCall where
  | bind (fd : ℤ) (address : LxcValue)
  | connect (fd : ℤ) (address : LxcValue)
  | listen (fd backlog : ℤ)
  deriving DecidableEq, Repr

/-- What is seen of the gate. -/
inductive BringUpEntry where
  /-- what `do_bring_up` prints first -/
  | tried (socketFd remote local_ : Option LxcValue)
  /-- `answer` is 0, or `errno` after the call failed -/
  | called (call : OsCall) (answer : ℕ)
  /-- `lxc_drive_wire_value` with a value -/
  | drove (outIndex : ℕ) (wire : WireId) (value : LxcValue)
  deriving DecidableEq, Repr

/-- What `bring_up_execute` is called for. -/
inductive BringUpEvent where
  | gateDisabled
  | gateEnabled
  | outputWireAdded (signal : Signal) (subtype : ℤ) (index : ℕ)
  | propertyModified
  | otherSystemEvent
  | value (type : Signal) (subtype : ℤ) (index : ℕ) (value : Option LxcValue)
  deriving DecidableEq, Repr

/-- What is done with the gate. The event for a new wire is an operation of its own. -/
inductive BringUpOp where
  | execute (event : BringUpEvent)
  /-- `maxLength` when there is a buffer for the error -/
  | setProperty (property : String) (value : Option String) (maxLength : Option ℕ)
  | wireInput (abs : ℕ) (wire : Option WireId)
  | wireOutput (abs : ℕ) (wire : Option WireId)
  deriving DecidableEq, Repr

/-- `struct lxc_posix_bring_up_instance`; of a token port at an input only its wire is kept. -/
structure BringUp where
  mode : ℤ
  backlog : ℤ
  socketFd : Option LxcValue
  local_ : Option LxcValue
  remote : Option LxcValue
  outFd : Option LxcValue
  outErrno : Option LxcValue
  inputs : List (Option WireId)
  outputs : List (Option WireId)
  nextValue : ℕ
  log : List BringUpEntry
  deriving DecidableEq, Repr

/-- The operating system and the circuit around the gate. -/
structure Surroundings where
  answer : List BringUpEntry → OsCall → ℕ
  react : List BringUpEntry → List BringUpOp

namespace BringUp

/-- `EBADF` -/
def ebadf : ℤ := 9

/-- `MODE_CONNECT` -/
def modeConnect : ℤ := 0

/-- `MODE_LISTEN` -/
def modeListen : ℤ := 1

/-! ## The ports -/

/-- The ports added to `input_ports`. -/
def inputPorts : List PortDefinition :=
  [⟨"socket fd", .int, 0⟩, ⟨"local", SocketaddressCreate.lxcPosixSockaddr, 0⟩,
    ⟨"remote", SocketaddressCreate.lxcPosixSockaddr, 0⟩]

/-- The ports added to `output_ports`. -/
def outputPorts : List PortDefinition := [⟨"fd", .int, 0⟩, ⟨"errno", .int, 0⟩]

/-- The behavior `posix_socket_bring_up`, and the constants `IN_ABS_SOCKET_FD` to
    `OUT_ABS_ERRNO`. -/
structure Loaded where
  behavior : PortbBehavior
  inAbsSocketFd : ℤ
  inAbsLocal : ℤ
  inAbsRemote : ℤ
  outAbsFd : ℤ
  outAbsErrno : ℤ

/-- `bring_up_libop`, `library_before_load` -/
def bringUpLibop (junk : ℕ → ℕ) : Option Loaded := do
  let (ins, inputPorts) ← addNewPorts junk lxcPortInitPortManagerFactory inputPorts
  let (outs, outputPorts) ← addNewPorts junk lxcPortInitPortManagerFactory outputPorts
  let [inAbsSocketFd, inAbsLocal, inAbsRemote] := ins | none
  let [outAbsFd, outAbsErrno] := outs | none
  return { behavior := { execute := .other, inputPorts := inputPorts, outputPorts := outputPorts }
           inAbsSocketFd := inAbsSocketFd, inAbsLocal := inAbsLocal, inAbsRemote := inAbsRemote
           outAbsFd := outAbsFd, outAbsErrno := outAbsErrno }

/-! ## Bringing up a socket -/

/-- One more entry of the log. -/
def note (S : BringUp) (e : BringUpEntry) : BringUp := { S with log := S.log ++ [e] }

/-- The `int` at the address of a value's data: of an address, which may be taken for a socket, the
    first four bytes, with the lowest one first. -/
def intAt (v : LxcValue) : Option ℤ :=
  match v.data with
  | .int n => some n
  | .other (b₀ :: b₁ :: b₂ :: b₃ :: _) =>
    some (intOfUint (b₀ + 2 ^ 8 * b₁ + 2 ^ 16 * b₂ + 2 ^ 24 * b₃))
  | _ => none

/-- The call is made, and its answer seen. -/
def osCall (E : Surroundings) (c : OsCall) (S : BringUp) : ℕ × BringUp :=
  (E.answer S.log c, S.note (.called c (E.answer S.log c)))

/-- `do_bring_up`: the result is 0, an `errno` or an error of the framework. -/
def doBringUp (E : Surroundings) (S : BringUp) : Option (ℤ × BringUp) :=
  let S := S.note (.tried S.socketFd S.remote S.local_)
  match S.socketFd with
  | none => some (LxcErrno.nothingChanged.code, S)
  | some v => do
    let sockFd ← intAt v
    if sockFd < 0 then return (ebadf, S)
    else if S.mode = modeConnect then
      match S.remote with
      | none => return (LxcErrno.nothingChanged.code, S)
      | some remote =>
        let (ret, S) := match S.local_ with
          | some lv => osCall E (.bind sockFd lv) S
          | none => (0, S)
        if ret ≠ 0 then return (ret, S)
        else
          let (ret, S) := osCall E (.connect sockFd remote) S
          return (ret, S)
    else if S.mode = modeListen then
      if S.remote.isSome then return (LxcErrno.badCall.code, S)
      else
        match S.local_ with
        | none => return (LxcErrno.nothingChanged.code, S)
        | some lv =>
          let (ret, S) := osCall E (.bind sockFd lv) S
          if ret ≠ 0 then return (ret, S)
          else
            let (ret, S) := osCall E (.listen sockFd S.backlog) S
            return (ret, S)
    else return (LxcErrno.entityOutOfRange.code, S)

/-- `lxc_drive_wire_value` by the gate. -/
abbrev Drive := ℕ → WireId → Option LxcValue → BringUp → Option BringUp

/-- The slot of an array at an index of type `int`. -/
def slot (slots : List (Option WireId)) (i : ℤ) : Option (Option WireId) :=
  if i < 0 then none else slots[i.toNat]?

/-- `pass_through_fd` -/
def passThroughFd (b : Loaded) (drive : Drive) (S : BringUp) : Option BringUp := do
  match ← slot S.outputs b.outAbsFd with
  | some out => drive b.outAbsFd.toNat out S.socketFd S
  | none => return S

/-- `publish_errno`: a result that is published already is left alone. -/
def publishErrno (b : Loaded) (drive : Drive) (errorNumber : ℤ) (S : BringUp) : Option BringUp :=
  if S.outErrno.bind intAt = some errorNumber then some S
  else do
    let val : LxcValue := ⟨S.nextValue, .int, 0, .int errorNumber⟩
    let S := { S with outErrno := some val, nextValue := S.nextValue + 1 }
    match ← slot S.outputs b.outAbsErrno with
    | none => return S
    | some out => drive b.outAbsErrno.toNat out val S

/-- `bring_up` -/
def bringUp (E : Surroundings) (b : Loaded) (drive : Drive) (S : BringUp) : Option BringUp := do
  let (ret, S) ← doBringUp E S
  let S ← (if ret = 0 then passThroughFd b drive S else some S)
  if ret = LxcErrno.nothingChanged.code then return S else publishErrno b drive ret S

/-- `bring_down` -/
def bringDown (S : BringUp) : BringUp := { S with outFd := none, outErrno := none }

/-- `bring_again` -/
def bringAgain (E : Surroundings) (b : Loaded) (drive : Drive) (S : BringUp) : Option BringUp :=
  bringUp E b drive S.bringDown

/-! ## Events -/

/-- `lxc_portb_republish_internal_value`: the array of the inputs is read. -/
def republish (b : Loaded) (drive : Drive) (signal : Signal) (subtype : ℤ) (index : ℕ)
    (S : BringUp) : Option BringUp := do
  let abs ← lxcPortGetAbsindex b.behavior.outputPorts signal subtype index
  if abs < 0 then return S
  else
    match accessInternalVariable b.outAbsFd b.outAbsErrno S.outFd S.outErrno abs.toNat with
    | none => return S
    | some value =>
      match ← S.inputs[abs.toNat]? with
      | none => return S
      | some out => drive index out value S

/-- `lxc_import_new_value`: is the value another one? -/
def isNew (value location : Option LxcValue) : Bool :=
  decide (value.map LxcValue.id ≠ location.map LxcValue.id)

/-- The part of `bring_up_execute` for the input at `abs`. -/
def importValue (E : Surroundings) (b : Loaded) (drive : Drive) (abs : ℤ)
    (value : Option LxcValue) (S : BringUp) : Option BringUp :=
  if abs = b.inAbsSocketFd then
    if isNew value S.socketFd then bringAgain E b drive { S with socketFd := value } else some S
  else if abs = b.inAbsLocal then
    if isNew value S.local_ then bringAgain E b drive { S with local_ := value } else some S
  else if abs = b.inAbsRemote then
    if isNew value S.remote then bringAgain E b drive { S with remote := value } else some S
  else some S

/-- `bring_up_execute` -/
def bringUpExecute (E : Surroundings) (b : Loaded) (drive : Drive) (event : BringUpEvent)
    (S : BringUp) : Option BringUp :=
  match event with
  | .gateDisabled => some S.bringDown
  | .gateEnabled => bringUp E b drive S
  | .outputWireAdded signal subtype index => republish b drive signal subtype index S
  | .propertyModified => bringAgain E b drive S
  | .otherSystemEvent => some S
  | .value type subtype index value => do
    let abs ← lxcPortGetAbsindex b.behavior.inputPorts type subtype index
    importValue E b drive abs value S

/-! ## Properties -/

/-- The fields that `bring_up_access_property` returns the addresses of. -/
inductive Field where
  | mode | backlog
  deriving DecidableEq, Repr

/-- What is read at the address of a field. -/
def load (S : BringUp) : Field → ℤ
  | .mode => S.mode
  | .backlog => S.backlog

/-- Writes to the address of a field. -/
def store (S : BringUp) (addr : Field) (n : ℤ) : BringUp :=
  match addr with
  | .mode => { S with mode := n }
  | .backlog => { S with backlog := n }

/-- `bring_up_access_property`: NULL for a name that is no property. -/
def bringUpAccessProperty (name : String) : Option Field :=
  if name = "mode" then some .mode else if name = "backlog" then some .backlog else none

/-- `safe_strcpy`: what is returned, and what is then in the buffer of the caller. -/
def safeStrcpy (maxLength : Option ℕ) (src : String) : Option (ℤ × Option String) :=
  match maxLength with
  | none => some (0, none)
  | some maxLength =>
    if src.length < maxLength then some (src.length, some src)
    else if maxLength = 0 then none
    else some (src.length, some (.ofList (src.toList.take (maxLength - 1))))

/-- `snprintf` with `%d`. -/
def snprintf (maxLength : Option ℕ) (n : ℤ) : Option (Option String) := do
  let maxLength ← maxLength
  if maxLength = 0 then return none
  else return some (.ofList ((toString n).toList.take (maxLength - 1)))

/-- A `property_validator`: the direction, the address of the field, the value, and the buffer. -/
abbrev PropertyValidator := Direction → Option Field → Option String → Option ℕ → BringUp →
  Option (ℤ × Option String × BringUp)

/-- `mode_validation` -/
def modeValidation : PropertyValidator := fun direction addr value maxLength S => do
  match direction with
  | .input =>
    match value with
    | none => return (0, none, S.store (← addr) modeConnect)
    | some value =>
      if value = "connect" then return (0, none, S.store (← addr) modeConnect)
      else if value = "listen" then return (0, none, S.store (← addr) modeListen)
      else
        let (ret, text) ← safeStrcpy maxLength "Mode can be only \"connect\" or \"listen\"."
        return (ret, text, S)
  | .output =>
    let n := S.load (← addr)
    let (ret, text) ← safeStrcpy maxLength (if n = modeConnect then "connect"
      else if n = modeListen then "listen" else "not_specified")
    return (ret, text, S)

/-- `backlog_validation` -/
def backlogValidation : PropertyValidator := fun direction addr value maxLength S => do
  match direction with
  | .input =>
    match value with
    | none => return (0, none, S.store (← addr) 128)
    | some value =>
      let tar := toInt (strtol value)
      if tar < 1 ∨ tar > 65536 then
        let (ret, text) ← safeStrcpy maxLength "backlog must be between 1 and 65535"
        return (ret, text, S)
      else return (0, none, S.store (← addr) tar)
  | .output =>
    let text ← snprintf maxLength (S.load (← addr))
    return (0, text, S)

/-- `struct lxc_property` -/
structure Property where
  name : String
  defaultValue : String
  propertyValidator : PropertyValidator

/-- What `bring_up_libop` adds with `lxc_add_property`. -/
def properties : List Property :=
  [⟨"mode", "connect", modeValidation⟩, ⟨"backlog", "128", backlogValidation⟩]

/-- `generic_prop_operation`: the validator of the property is called. -/
def genericPropOperation (direction : Direction) (property : String) (value : Option String)
    (maxLength : Option ℕ) (S : BringUp) : Option (ℤ × Option String × BringUp) :=
  match properties.find? fun prop => property = prop.name with
  | some prop => prop.propertyValidator direction (bringUpAccessProperty property) value maxLength S
  | none => some (LxcErrno.entityNotFound.code, none, S)

/-- `lxc_gate_get_property_value` -/
def lxcGateGetPropertyValue (property : String) (maxLength : Option ℕ) (S : BringUp) :
    Option (ℤ × Option String × BringUp) := genericPropOperation .output property none maxLength S

/-- `lxc_gate_set_property_value`: a set that succeeds is an event for the gate. -/
def lxcGateSetPropertyValue (E : Surroundings) (b : Loaded) (drive : Drive)
    (property : String) (value : Option String) (maxLength : Option ℕ) (S : BringUp) :
    Option (ℤ × Option String × BringUp) := do
  let (ret, text, S) ← genericPropOperation .input property value maxLength S
  if ret = 0 then
    let S ← bringUpExecute E b drive .propertyModified S
    return (ret, text, S)
  else
    return (ret, text, S)

/-! ## Runs -/

/-- One operation on the gate. -/
def apply (E : Surroundings) (b : Loaded) (drive : Drive) (S : BringUp) :
    BringUpOp → Option BringUp
  | .execute event => bringUpExecute E b drive event S
  | .setProperty property value maxLength => do
    let (_, _, S) ← lxcGateSetPropertyValue E b drive property value maxLength S
    return S
  | .wireInput abs wire =>
    if abs < S.inputs.length then some { S with inputs := S.inputs.set abs wire } else none
  | .wireOutput abs wire =>
    if abs < S.outputs.length then some { S with outputs := S.outputs.set abs wire } else none

/-- `lxc_drive_wire_value`, which does nothing with NULL, with what the circuit does to the gate
    meanwhile; the fuel is the depth of the calls. -/
def driveWire (E : Surroundings) (b : Loaded) : ℕ → Drive
  | _, _, _, none, S => some S
  | 0, _, _, some _, _ => none
  | fuel + 1, outIndex, wire, some value, S =>
    let S := S.note (.drove outIndex wire value)
    (E.react S.log).foldlM (apply E b (driveWire E b fuel)) S

/-- The gate in zeroed memory, and then the default values of its properties. -/
def lxcGenericPortbPropbGateCreate (E : Surroundings) (b : Loaded) (drive : Drive) :
    Option BringUp :=
  properties.foldlM (fun S prop => do
    let (_, _, S) ← lxcGateSetPropertyValue E b drive prop.name prop.defaultValue (some 200) S
    return S)
    { mode := 0, backlog := 0, socketFd := none, local_ := none, remote := none, outFd := none
      outErrno := none, inputs := List.replicate inputPorts.length none
      outputs := List.replicate outputPorts.length none, nextValue := 0, log := [] }

/-- One operation, with `fuel` for the wires it drives. -/
def step (E : Surroundings) (b : Loaded) (S : BringUp) (op : ℕ × BringUpOp) :
    Option BringUp := apply E b (driveWire E b op.1) S op.2

end BringUp

end LogxControll
