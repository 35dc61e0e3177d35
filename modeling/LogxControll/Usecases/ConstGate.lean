/-
  The const gate of `experiment/usecases/line_processor.c`: its property `const` selects a
  registered constant, which the gate drives its one output with.

  The validator keeps the port that is there when the new constant has its type or its subtype,
  where it must have both. So the port follows the constant in a run exactly when no constant is
  selected that agrees with the port in one of the two only, and no wire of another subtype is
  tied (`const_port_iff`).
-/
import LogxControll.Core.NamedRegistries
import LogxControll.Execution.Frame
import LogxControll.Posix.SocketaddressCreate

namespace LogxControll

/-- `REGISTERED_CONSTANT_VALUES` and the constants in it. -/
structure ConstantPool where
  name : ConstantId → String
  value : ConstantId → LxcValue
  /-- The text that the memory of the struct itself reads as. -/
  bytes : ConstantId → String
  registered : PntArray ConstantId
  entries : List ConstantId
  packed : Packed registered entries

/-- Type and subtype of a constant. -/
def ConstantPool.key (pool : ConstantPool) (c : ConstantId) : FullSignalType :=
  ⟨(pool.value c).type, (pool.value c).subtypeInfo⟩

/-- The constant that a name selects. -/
def ConstantPool.named (pool : ConstantPool) (name : String) : Option ConstantId :=
  pool.entries.find? fun c => name = pool.name c

/-- `struct const_gate_instance`; `base` is in the memory. -/
structure ConstGate where
  world : World
  constantValue : Option ConstantId

namespace ConstGate

/-- `LXC_ERROR_CORRUPTION` -/
def lxcErrorCorruption : Int := -18

/-- The end of the validator: the new port, and the constant. -/
def createOutput (pool : ConstantPool) (junk : Nat → Nat) (g : GateId) (newVal : ConstantId)
    (gate : Gate) (outputPorts : PortManager) (S : ConstGate) :
    Option (Int × Option String × ConstGate) := do
  let value := pool.value newVal
  let (_, _, outputPorts) ←
    lxcPortUncheckedAddNewPort junk outputPorts (.chars "const") value.type value.subtypeInfo
  let side := { gate.output with manager := outputPorts }
  return (0, none,
    { world := S.world.setGate g (gate.setSide .output side), constantValue := newVal })

/-- The validator for a constant that was found. -/
def selectConstant (pool : ConstantPool) (junk : Nat → Nat) (g : GateId) (newVal : ConstantId)
    (S : ConstGate) : Option (Int × Option String × ConstGate) := do
  let gate ← S.world.gates g
  let value := pool.value newVal
  let outputPorts := gate.output.manager
  match outputPorts.managedTypes with
  | none => createOutput pool junk g newVal gate outputPorts S
  | some managedTypes =>
    let full ← managedTypes[0]?
    if full.signal = value.type ∨ full.subtype = value.subtypeInfo then
      return (0, none, { S with constantValue := newVal })
    else
      -- NULL when `outputs_length` is 0
      match slotAt gate.output.slots 0 with
      | some w =>
        let wire ← S.world.wires w
        if wire.type ≠ value.type ∨ wire.subtype ≠ value.subtypeInfo then
          return (LxcErrno.typeNotSupported.code, none, S)
        else createOutput pool junk g newVal gate outputPorts S
      | none =>
        let outputPorts ← lxcPortRemovePort outputPorts full.signal full.subtype 0
        createOutput pool junk g newVal gate outputPorts S

/-- The return value and the text for the caller's buffer, which may cut it. `addr` is the address
    of `constant_value`. -/
def constGateConstSelector (pool : ConstantPool) (junk : Nat → Nat) (g : GateId)
    (direction : Direction) (name : String) (value : Option String) (S : ConstGate) :
    Option (Int × Option String × ConstGate) :=
  if name ≠ "const" then some (lxcErrorCorruption, none, S)
  else
    match direction with
    -- `addr` is read as the struct, so `cv->name` is `constant_value` itself
    | .output => some (0, S.constantValue.map pool.bytes, S)
    | .input => do
      let value ← value
      if value = "" then
        return (0, none, { S with constantValue := none })
      else
        match ← lxcGetConstantByName pool.name value pool.registered with
        | none => return (LxcErrno.entityNotFound.code, none, S)
        | some newVal => selectConstant pool junk g newVal S

/-- `const` is the only property. -/
def genericPropOperation (pool : ConstantPool) (junk : Nat → Nat) (g : GateId)
    (direction : Direction) (property : String) (value : Option String) (S : ConstGate) :
    Option (Int × Option String × ConstGate) :=
  if property = "const" then constGateConstSelector pool junk g direction property value S
  else some (LxcErrno.entityNotFound.code, none, S)

/-- `ex c` is the call `gate->execution_behavior(...)` while `c` is the constant. -/
def lxcGateSetPropertyValue (pool : ConstantPool)
    (ex : Option ConstantId → ExecCall → World → Option World) (junk : Nat → Nat) (g : GateId)
    (property : String) (value : Option String) (S : ConstGate) :
    Option (Int × Option String × ConstGate) := do
  let (ret, error, S) ← genericPropOperation pool junk g .input property value S
  if ret = 0 then
    let W ← SocketaddressCreate.notifyModified (ex S.constantValue) g S.world
    return (ret, error, { S with world := W })
  else
    return (ret, error, S)

/-- The gate in zeroed memory, and then the default value of its property. -/
def lxcGenericPortiPropbGateCreate (pool : ConstantPool)
    (ex : Option ConstantId → ExecCall → World → Option World) (junk : Nat → Nat) (g : GateId)
    (W : World) : Option ConstGate := do
  let S := { world := W.setGate g (LogxControll.lxcGenericPortiGateCreate .other)
             constantValue := none }
  let (_, _, S) ← lxcGateSetPropertyValue pool ex junk g "const" "" S
  return S

/-- The wire that `const__exec` drives and the value it drives it with. No length is looked at:
    before the first wiring the read is behind an array of no elements, in zeroed memory. -/
def constDrive (pool : ConstantPool) (g : GateId) (S : ConstGate) :
    Option (Option (WireId × LxcValue)) := do
  let gate ← S.world.gates g
  return match S.constantValue, slotAt gate.output.slots 0 with
    | some val, some w => some (w, pool.value val)
    | _, _ => none

/-- `const_exec` drives its output with the constant it has. -/
def constExec (pool : ConstantPool) (call : ExecCall → World → Option World) (g : GateId)
    (S : ConstGate) : Option World := do
  match ← constDrive pool g S with
  | some (w, value) => lxcDriveWireValue call none w value S.world
  | none => return S.world

/-- The execution behaviors of a circuit with the const gate `g`; `call` is that of the others. -/
def constExecution (pool : ConstantPool) (call : ExecCall → World → Option World) (g : GateId)
    (constantValue : Option ConstantId) (c : ExecCall) (W : World) : Option World :=
  if c.gate = g then constExec pool call g { world := W, constantValue := constantValue }
  else call c W

/-! ## Runs -/

/-- Setting the property, and wiring the output of the gate or, with no wire, unwiring it. -/
inductive Op where
  | setConst (junk : Nat → Nat) (value : String)
  | wireOutput (type : Option Signal) (subtype : Int) (wire : Option WireId) (index : Nat)

/-- The gate after a set of its property or a wiring of its output, whatever these return. -/
def step (pool : ConstantPool) (ex : Option ConstantId → ExecCall → World → Option World)
    (g : GateId) (S : ConstGate) : Op → Option ConstGate
  | .setConst junk value => do
    let (_, _, S) ← lxcGateSetPropertyValue pool ex junk g "const" value S
    return S
  | .wireOutput type subtype wire index => do
    let (_, W) ← lxcWireGateOutput (ex S.constantValue) type subtype wire g index S.world
    return { S with world := W }

/-- The manager of the output ports of the gate. -/
def outputPorts (g : GateId) (S : ConstGate) : Option PortManager :=
  (S.world.gates g).map fun gate => gate.output.manager

/-- The gate has exactly these outputs. -/
def HasOutputs (g : GateId) (S : ConstGate) (defs : List PortDefinition) : Prop :=
  ∃ manager gs, S.outputPorts g = some manager ∧ Declared manager defs gs

/-- While a constant is selected the gate has one output, of its type and subtype. -/
def PortFollows (pool : ConstantPool) (g : GateId) (S : ConstGate) : Prop :=
  ∀ c, S.constantValue = some c →
    S.HasOutputs g [⟨"const", (pool.value c).type, (pool.value c).subtypeInfo⟩]

/-- The gate drives no wire of another type or subtype than the value. -/
def DrivesOwnType (pool : ConstantPool) (g : GateId) (S : ConstGate) : Prop :=
  ∀ w value, constDrive pool g S = some (some (w, value)) →
    ∃ wire, S.world.wires w = some wire ∧ wire.type = value.type ∧ wire.subtype = value.subtypeInfo

/-- A set that fails changes neither the constant nor the port. -/
def FailsUnchanged (pool : ConstantPool) (ex : Option ConstantId → ExecCall → World → Option World)
    (g : GateId) (S : ConstGate) : Op → Prop
  | .setConst junk value => ∀ ret error S',
      lxcGateSetPropertyValue pool ex junk g "const" value S = some (ret, error, S') → ret ≠ 0 →
        S'.constantValue = S.constantValue ∧ S'.outputPorts g = S.outputPorts g
  | .wireOutput .. => True

/-- The call names a wire of its type and the free output of the gate. -/
structure Ties (gate : Gate) (type : Option Signal) (subtype : Int) (wire : Wire) (index : Nat) :
    Prop where
  signal : type = none ∨ type = some wire.type
  checked : gate.Checked .output wire.type subtype (intOfUint index)
  port : gate.HasPort .output wire.type subtype (intOfUint index).toNat
  free : gate.getWire .output wire.type subtype (intOfUint index).toNat = some none

/-- The constant agrees with the port in type or in subtype. -/
def Compatible (pool : ConstantPool) (full : FullSignalType) (c : ConstantId) : Prop :=
  full.signal = (pool.value c).type ∨ full.subtype = (pool.value c).subtypeInfo

/-- A constant that agrees in type or in subtype with the port that is there agrees in both, and
    with the wire at the port. A wire that is tied while a constant is selected has the subtype of
    the port. -/
def Agrees (pool : ConstantPool) (g : GateId) (S : ConstGate) : Op → Prop
  | .setConst _ value => ∀ c, value ≠ "" → pool.named value = some c →
      ∀ gate types full, S.world.gates g = some gate →
        gate.output.manager.managedTypes = some types → types[0]? = some full →
        Compatible pool full c →
          full = pool.key c ∧ ∀ w wire, slotAt gate.output.slots 0 = some w →
            S.world.wires w = some wire → wire.subtype = (pool.value c).subtypeInfo
  | .wireOutput type subtype wire index => S.constantValue ≠ none →
      ∀ w wr gate, wire = some w → S.world.wires w = some wr → S.world.gates g = some gate →
        Ties gate type subtype wr index → wr.subtype = subtype

/-! ## The port of the gate -/

/-- The manager of the outputs while there is no port, or the one port. -/
def constPorts (j : Nat) : Option FullSignalType → PortManager
  | none => .zeroed
  | some full =>
    { maxSize := 1
      managedTypes := some [full]
      toAbs := some [some [0, 0], none]
      portNames := some [some (.chars "const"), none]
      toAbsSize := some [1, j] }

/-- The same after the removal of the port. -/
def removedPort (j : Nat) (full : FullSignalType) : PortManager :=
  { constPorts j full with
    portNames := some [some .empty, none]
    toAbsSize := some [0, j] }

theorem add_zeroed (junk : Nat → Nat) (type : Signal) (subtype : Int) :
    lxcPortUncheckedAddNewPort junk .zeroed (.chars "const") type subtype =
      some (1, 0, constPorts (junk 1) (some ⟨type, subtype⟩)) := rfl

theorem findType_constPorts (j : Nat) (full : FullSignalType) :
    (constPorts j full).findType full.signal full.subtype = some 0 := by
  simp [constPorts, PortManager.findType]

theorem findType_of_ne {j : Nat} {full : FullSignalType} {type : Signal} {subtype : Int}
    (hne : full ≠ ⟨type, subtype⟩) : (constPorts j full).findType type subtype = none := by
  obtain ⟨signal, sub⟩ := full
  have hno : ¬ (signal = type ∧ sub = subtype) := by
    rintro ⟨rfl, rfl⟩
    exact hne rfl
  simpa [constPorts, PortManager.findType] using hno

/-- Index 0 of the type and subtype of the port is the one absolute index. -/
theorem lxcPortGetAbsindex_constPorts (j : Nat) (port : Option FullSignalType) (type : Signal)
    (subtype : Int) (index : Nat) :
    lxcPortGetAbsindex (constPorts j port) type subtype index =
      some (if port = some ⟨type, subtype⟩ ∧ index = 0 then 0 else -1) := by
  unfold lxcPortGetAbsindex
  cases port with
  | none => rfl
  | some full =>
    by_cases hfull : full = ⟨type, subtype⟩
    · subst hfull
      rw [findType_constPorts j ⟨type, subtype⟩]
      cases index with
      | zero =>
        rw [if_pos ⟨rfl, rfl⟩]
        rfl
      | succ n =>
        rw [if_neg fun h => Nat.succ_ne_zero n h.2]
        rfl
    · rw [findType_of_ne hfull, if_neg fun h => hfull (Option.some.inj h.1)]

theorem remove_constPorts (j : Nat) (full : FullSignalType) :
    lxcPortRemovePort (constPorts j full) full.signal full.subtype 0 =
      some (removedPort j full) := by
  unfold lxcPortRemovePort
  rw [findType_constPorts]
  dsimp only
  rw [lxcPortGetAbsindex_constPorts j (some full), if_pos ⟨rfl, rfl⟩]
  rfl

/-- The entry of the type that lost its port is taken by the new type. -/
theorem add_removedPort (junk : Nat → Nat) (j : Nat) {full : FullSignalType} {type : Signal}
    {subtype : Int} (hne : full.signal ≠ type) :
    lxcPortUncheckedAddNewPort junk (removedPort j full) (.chars "const") type subtype =
      some (0, 0, constPorts j (some ⟨type, subtype⟩)) := by
  have hfind : (removedPort j full).findType type subtype = none := by
    simp [PortManager.findType, removedPort, constPorts, hne]
  unfold lxcPortUncheckedAddNewPort typeEntry
  rw [hfind]
  rfl

theorem declared_constPorts (j : Nat) (full : FullSignalType) :
    ∃ gs, Declared (constPorts j full) [⟨"const", full.signal, full.subtype⟩] gs := by
  obtain ⟨index, m, gs, hadd, hdeclared⟩ :=
    declared_zeroed.add (fun _ => j) ⟨"const", full.signal, full.subtype⟩
  rw [add_zeroed, Option.some.injEq] at hadd
  obtain ⟨-, hadd⟩ := Prod.mk.inj hadd
  obtain ⟨-, rfl⟩ := Prod.mk.inj hadd
  exact ⟨gs, hdeclared⟩

theorem key_of_declared {j : Nat} {port : Option FullSignalType} {d : PortDefinition} {gs : Groups}
    (h : Declared (constPorts j port) [d] gs) : port = some d.key := by
  have hsize := h.represents.maxSize
  have htypes := h.represents.types
  cases port with
  | none => cases hsize
  | some full =>
    obtain ⟨key, rest, hgs⟩ : ∃ key rest, gs = key :: rest := by
      cases gs with
      | nil => cases htypes
      | cons key rest => exact ⟨key, rest, rfl⟩
    subst hgs
    have hkey := h.keys key List.mem_cons_self
    rw [List.map_singleton, List.mem_singleton] at hkey
    have hfull : full = key.1 := (List.cons.inj htypes).1
    rw [hfull, hkey]

section Port

variable {gate : Gate} {j : Nat} {port : Option FullSignalType}

theorem hasPort_iff (hports : gate.output.manager = constPorts j port) (type : Signal)
    (subtype : Int) (index : Nat) :
    gate.HasPort .output type subtype index ↔ port = some ⟨type, subtype⟩ ∧ index = 0 := by
  have habs : lxcPortGetAbsindex (gate.side .output).manager type subtype index =
      some (if port = some ⟨type, subtype⟩ ∧ index = 0 then 0 else -1) :=
    hports ▸ lxcPortGetAbsindex_constPorts j port type subtype index
  unfold Gate.HasPort
  rw [habs]
  by_cases h : port = some ⟨type, subtype⟩ ∧ index = 0
  · rw [if_pos h]
    exact iff_of_true ⟨0, rfl⟩ h
  · rw [if_neg h]
    refine iff_of_false ?_ h
    rintro ⟨a, ha⟩
    rw [Option.some.injEq] at ha
    omega

/-- The port is bound to what the first slot holds. -/
theorem boundAt_constPorts {full : FullSignalType} (hc : gate.gateClass = .porti)
    (hports : gate.output.manager = constPorts j full) :
    gate.boundAt .output full.signal full.subtype 0 = slotAt gate.output.slots 0 := by
  have habs : lxcPortGetAbsindex (gate.side .output).manager full.signal full.subtype 0 =
      some 0 := by
    rw [show (gate.side .output).manager = constPorts j full from hports,
      lxcPortGetAbsindex_constPorts j (some full), if_pos ⟨rfl, rfl⟩]
  have hbool : ¬ (gate.gateClass = .bool ∧ full.subtype ≠ 0) := fun hb => by
    rw [hc] at hb
    cases hb.1
  have hget : gate.getWire .output full.signal full.subtype 0 =
      lxcPortGetWireSafe (gate.side .output).manager full.signal full.subtype 0
        gate.output.slots gate.output.slots.length := by
    unfold Gate.getWire
    rw [hc]
    rfl
  rw [Gate.boundAt, if_neg hbool, hget, lxcPortGetWireSafe, habs, Option.bind_eq_bind,
    Option.bind_some]
  by_cases hlen : 0 < gate.output.slots.length
  · rw [if_neg (by omega), Int.toNat_zero, slotAt_eq hlen]
    rfl
  · rw [if_pos (.inr (by omega)), slotAt_of_le (Nat.le_of_not_lt hlen)]
    rfl

/-- A call that passes the checks is about the type and the subtype of the port. -/
theorem port_of_checked (hc : gate.gateClass = .porti)
    (hports : gate.output.manager = constPorts j port) {type : Signal} {subtype i : Int}
    (hck : gate.Checked .output type subtype i) : port = some ⟨type, subtype⟩ := by
  have hmem := hck.supported
  have htypes : (gate.getTypes .output).2 = (lxcPortFillTypes (constPorts j port)
      lxcGateMaxIoTypeCount).2 := by
    unfold Gate.getTypes
    rw [hc, show (gate.side .output).manager = constPorts j port from hports]
  rw [htypes] at hmem
  cases port with
  | none => cases hmem
  | some full =>
    have hsingle : (⟨type, subtype⟩ : FullSignalType) ∈ [full] := hmem
    rw [List.mem_singleton.mp hsingle]

end Port

/-! ## The gate -/

/-- The gate exists, with no output or the one that the manager holds, and a wire at it is of its
    type. -/
structure Sound (g : GateId) (S : ConstGate) (gate : Gate) (port : Option FullSignalType) :
    Prop where
  found : S.world.gates g = some gate
  gateClass : gate.gateClass = .porti
  sound : gate.Sound
  ports : ∃ j, gate.output.manager = constPorts j port
  selected : S.constantValue ≠ none → port ≠ none
  wired : ∀ w, slotAt gate.output.slots 0 = some w →
    ∃ full wire, port = some full ∧ S.world.wires w = some wire ∧ wire.type = full.signal

/-- The port is that of the constant, and so is the subtype of the wire at it. -/
def Matches (pool : ConstantPool) (S : ConstGate) (gate : Gate) (port : Option FullSignalType) :
    Prop :=
  ∀ c, S.constantValue = some c → port = some (pool.key c) ∧
    ∀ w wire, slotAt gate.output.slots 0 = some w → S.world.wires w = some wire →
      wire.subtype = (pool.value c).subtypeInfo

/-- Nothing refuses a call that ties. -/
theorem tieOutput_of_ties {ex : ExecCall → World → Option World} {W : World} {g : GateId}
    {gate : Gate} {type : Option Signal} {subtype : Int} {w : WireId} {wr : Wire} {index : Nat}
    (hg : W.gates g = some gate) (hw : W.wires w = some wr)
    (ht : Ties gate type subtype wr index) :
    lxcWireGateOutput ex type subtype (some w) g index W =
      tieOutput ex wr.type subtype g (intOfUint index).toNat w W := by
  have hfree := ht.free
  have hck := ht.checked
  unfold lxcWireGateOutput
  obtain ⟨i, hi⟩ := Int.eq_ofNat_of_zero_le ht.checked.nonneg
  rw [hi] at hfree hck ⊢
  have hsignal : wiringSignal type (some w) W = wiringSignal (some wr.type) (some w) W := by
    rcases ht.signal with rfl | rfl
    · simp [wiringSignal, hw]
    · rfl
  have hcongr : privateGenericWiring ex .output type subtype (some w) g i W =
      privateGenericWiring ex .output (some wr.type) subtype (some w) g i W := by
    unfold privateGenericWiring
    rw [hsignal]
  exact hcongr.trans (privateGenericWiring_of_free hg hck hw rfl hfree)

section Gate

variable {pool : ConstantPool} {g : GateId} {S S' : ConstGate} {gate : Gate}
  {port : Option FullSignalType}

namespace Sound

/-- The gate follows its constant when the port, and the wire at it, match. -/
theorem matches_iff (h : S.Sound g gate port) :
    S.PortFollows pool g ∧ S.DrivesOwnType pool g ↔ S.Matches pool gate port := by
  obtain ⟨j, hports⟩ := h.ports
  have houtputs : S.outputPorts g = some (constPorts j port) := by
    rw [outputPorts, h.found, Option.map_some, hports]
  have hdrive : constDrive pool g S = some (match S.constantValue, slotAt gate.output.slots 0 with
      | some val, some w => some (w, pool.value val)
      | _, _ => none) := by
    unfold constDrive
    rw [h.found]
    rfl
  constructor
  · rintro ⟨hfollows, hdrives⟩ c hc
    obtain ⟨manager, gs, hmanager, hdeclared⟩ := hfollows c hc
    obtain rfl := Option.some.inj (houtputs.symm.trans hmanager)
    refine ⟨key_of_declared hdeclared, fun w wire hw hwire => ?_⟩
    rw [hc, hw] at hdrive
    obtain ⟨wire', hwire', -, hsubtype⟩ := hdrives w _ hdrive
    rwa [Option.some.inj (hwire.symm.trans hwire')]
  · intro hm
    refine ⟨fun c hc => ?_, fun w value hw => ?_⟩
    · obtain ⟨gs, hdeclared⟩ := declared_constPorts j (pool.key c)
      exact ⟨_, gs, by rw [houtputs, (hm c hc).1], hdeclared⟩
    · rw [hdrive, Option.some.injEq] at hw
      cases hc : S.constantValue with
      | none =>
        rw [hc] at hw
        cases hw
      | some c =>
        cases hslot : slotAt gate.output.slots 0 with
        | none =>
          rw [hc, hslot] at hw
          cases hw
        | some w' =>
          rw [hc, hslot, Option.some.injEq, Prod.mk.injEq] at hw
          obtain ⟨rfl, rfl⟩ := hw
          obtain ⟨hport, hsubtype⟩ := hm c hc
          obtain ⟨full, wire, hfull, hwire, htype⟩ := h.wired w' hslot
          obtain rfl := Option.some.inj (hport.symm.trans hfull)
          exact ⟨wire, hwire, htype, hsubtype w' wire hslot hwire⟩

/-- What keeps the ports of the gates and the types of the wires. -/
theorem of_keeps (h : S.Sound g gate port) {W : World} (hports : KeepsPorts S.world W)
    (htypes : KeepsTypes S.world W) :
    ∃ gate', { S with world := W }.Sound g gate' port ∧ gate'.output = gate.output := by
  obtain ⟨gate', hg', hsame⟩ := hports g gate h.found
  have houtput : gate'.output = gate.output := Gate.side_of_ports hsame .output
  have hclass := (Gate.gateClass_of_ports hsame).trans h.gateClass
  refine ⟨gate', ⟨hg', hclass, h.sound.of_ports hsame, ?_, h.selected, ?_⟩, houtput⟩
  · rw [houtput]
    exact h.ports
  · intro w hw
    rw [houtput] at hw
    obtain ⟨full, wire, hfull, hwire, htype⟩ := h.wired w hw
    obtain ⟨wire', hwire', htype', -⟩ := htypes w wire hwire
    exact ⟨full, wire', hfull, hwire', htype'.trans htype⟩

/-- A write to the slot of the port. -/
theorem writeSlot (h : S.Sound g gate port) {type : Signal} {subtype ret : Int} {index : Nat}
    {c : Option Nat} {side : PortSide} {W : World}
    (hport : gate.HasPort .output type subtype index)
    (hwire : gate.wire .output type subtype index c = some (ret, side))
    (hc : ∀ w, c = some w → ∃ wire, S.world.wires w = some wire ∧ wire.type = type)
    (hkeep : KeepsPorts (S.world.setGate g (gate.setSide .output side)) W)
    (htypes : KeepsTypes S.world W) :
    ∃ gate', { S with world := W }.Sound g gate' port ∧ slotAt gate'.output.slots 0 = c := by
  obtain ⟨j, hports⟩ := h.ports
  obtain ⟨hfull, hindex⟩ := (hasPort_iff hports type subtype index).mp hport
  obtain ⟨side', hwire', hmanager, hsound, hbound⟩ := h.sound.wire_of_port hport c
  obtain ⟨-, rfl⟩ := Prod.mk.inj (Option.some.inj (hwire.symm.trans hwire'))
  have hmanager' : side.manager = constPorts j (some ⟨type, subtype⟩) :=
    hmanager.trans (hports.trans (by rw [hfull]))
  have hclass : (gate.setSide .output side).gateClass = .porti :=
    (Gate.setSide_gateClass gate .output side).trans h.gateClass
  have hslot : slotAt side.slots 0 = c := by
    have hself := hbound .output type subtype 0
    rw [if_pos ⟨rfl, rfl, rfl, hindex.symm⟩] at hself
    exact (@boundAt_constPorts (gate.setSide .output side) j ⟨type, subtype⟩ hclass
      hmanager').symm.trans hself
  have hset : Sound g { S with world := S.world.setGate g (gate.setSide .output side) }
      (gate.setSide .output side) port := by
    refine ⟨Function.update_self .., hclass, hsound, ⟨j, ?_⟩, h.selected, fun w hw => ?_⟩
    · rw [hfull]
      exact hmanager'
    · obtain ⟨wire, hw', htype⟩ := hc w (hslot.symm.trans hw)
      exact ⟨_, wire, hfull, hw', htype⟩
  obtain ⟨gate', hgate', houtput⟩ := hset.of_keeps hkeep htypes
  exact ⟨gate', hgate', by rw [houtput]; exact hslot⟩

/-- A write for a port that the gate does not have. -/
theorem refuseSlot (h : S.Sound g gate port) {type : Signal} {subtype ret : Int} {index : Nat}
    {c : Option Nat} {side : PortSide} {W : World}
    (hnone : ¬ gate.HasPort .output type subtype index)
    (hwire : gate.wire .output type subtype index c = some (ret, side))
    (hkeep : KeepsPorts (S.world.setGate g (gate.setSide .output side)) W)
    (htypes : KeepsTypes S.world W) :
    ∃ gate', { S with world := W }.Sound g gate' port ∧
      slotAt gate'.output.slots 0 = slotAt gate.output.slots 0 := by
  obtain ⟨j, hports⟩ := h.ports
  have habs : lxcPortGetAbsindex (gate.ready .output).manager type subtype index = some (-1) := by
    rw [Gate.ready_manager, show (gate.side .output).manager = constPorts j port from hports,
      lxcPortGetAbsindex_constPorts, if_neg fun hp => hnone ((hasPort_iff hports ..).mpr hp)]
  have hside : side = gate.ready .output := by
    rw [Gate.wire_eq_ready (.inr h.gateClass), lxcGenericPortbWire, lxcPortWiring, habs] at hwire
    exact ((Prod.mk.inj (Option.some.inj hwire)).2).symm
  obtain ⟨side', hwire', hmanager, hsound, -⟩ := h.sound.wire_of_no_port hnone c
  obtain ⟨-, rfl⟩ := Prod.mk.inj (Option.some.inj (hwire.symm.trans hwire'))
  have hslot : slotAt side.slots 0 = slotAt gate.output.slots 0 := by
    rw [hside]
    exact Gate.ready_slotAt gate .output 0
  have hset : Sound g { S with world := S.world.setGate g (gate.setSide .output side) }
      (gate.setSide .output side) port := by
    refine ⟨Function.update_self .., h.gateClass, hsound, ⟨j, hmanager.trans hports⟩, h.selected,
      fun w hw => ?_⟩
    exact h.wired w (hslot.symm.trans hw)
  obtain ⟨gate', hgate', houtput⟩ := hset.of_keeps hkeep htypes
  exact ⟨gate', hgate', by rw [houtput]; exact hslot⟩

/-- Wiring the output: the wire of the call is at the port afterwards, or what was there, or
    nothing. -/
theorem wireOutput (h : S.Sound g gate port) {ex : ExecCall → World → Option World}
    (hex : KeepsWiring ex) {type : Option Signal} {subtype r : Int} {wire : Option WireId}
    {index : Nat} {W : World}
    (hcall : lxcWireGateOutput ex type subtype wire g index S.world = some (r, W)) :
    KeepsTypes S.world W ∧ ∃ gate', { S with world := W }.Sound g gate' port ∧
      ((∃ w wr, wire = some w ∧ S.world.wires w = some wr ∧ Ties gate type subtype wr index ∧
          slotAt gate'.output.slots 0 = some w) ∨
        (∀ w wr, wire = some w → S.world.wires w = some wr → ¬ Ties gate type subtype wr index) ∧
          (slotAt gate'.output.slots 0 = slotAt gate.output.slots 0 ∨
            slotAt gate'.output.slots 0 = none)) := by
  obtain ⟨j, hports⟩ := h.ports
  have htypes : KeepsTypes S.world W :=
    @lxcWireGate_keepsTypes ex S.world W .output subtype r g index hex type wire hcall
  refine ⟨htypes, ?_⟩
  by_cases hties : ∃ w wr, wire = some w ∧ S.world.wires w = some wr ∧
      Ties gate type subtype wr index
  · obtain ⟨w, wr, rfl, hw, ht⟩ := hties
    have htie := (tieOutput_of_ties h.found hw ht).symm.trans hcall
    obtain ⟨side, hwire, hkeep⟩ := tieOutput_tied hex h.found htie
    obtain ⟨gate', hgate', hslot⟩ := h.writeSlot ht.port hwire
      (fun w' hw' => ⟨wr, Option.some.inj hw' ▸ hw, rfl⟩) hkeep htypes
    exact ⟨gate', hgate', .inl ⟨w, wr, rfl, hw, ht, hslot⟩⟩
  · have hno : ∀ w wr, wire = some w → S.world.wires w = some wr →
        ¬ Ties gate type subtype wr index := fun w wr hw hwr ht => hties ⟨w, wr, hw, hwr, ht⟩
    rcases privateGenericWiring_cases hcall with ⟨-, -, rfl⟩ |
      ⟨sig, gate₁, wired, hsig, hg, hck, hwired, hcases⟩
    · exact ⟨gate, h, .inr ⟨hno, .inl rfl⟩⟩
    obtain rfl := Option.some.inj (h.found.symm.trans hg)
    rcases hcases with ⟨c, -, rfl, hunwire⟩ | ⟨w, rfl, rfl, htie⟩
    · obtain ⟨ret, side, hwire, hkeep⟩ := unwirePort_freed hex h.found hunwire
      have hport : gate.HasPort .output sig subtype (intOfUint index).toNat := by
        by_contra hnone
        have hfree := h.sound.boundAt_of_no_port hnone
        rw [h.sound.getWire_eq, hfree] at hwired
        cases hwired
      obtain ⟨gate', hgate', hslot⟩ :=
        h.writeSlot hport hwire (fun w hw => by cases hw) hkeep htypes
      exact ⟨gate', hgate', .inr ⟨hno, .inr hslot⟩⟩
    · obtain ⟨wr, hw, rfl⟩ := (wiringSignal_some hsig).2 w rfl
      obtain ⟨side, hwire, hkeep⟩ := tieOutput_tied hex h.found htie
      have hsignal : type = none ∨ type = some wr.type := by
        rcases (wiringSignal_some hsig).1 with hs | ⟨hs, -⟩
        · exact .inr hs
        · exact .inl hs
      have hnone : ¬ gate.HasPort .output wr.type subtype (intOfUint index).toNat := fun hport =>
        hno w wr rfl hw ⟨hsignal, hck, hport, hwired⟩
      obtain ⟨gate', hgate', hslot⟩ := h.refuseSlot hnone hwire hkeep htypes
      exact ⟨gate', hgate', .inr ⟨hno, .inl hslot⟩⟩

end Sound

/-! ## Setting the property -/

theorem notifyModified_keepsTypes {ex : ExecCall → World → Option World} (hex : KeepsWiring ex)
    {W W' : World} (hW : SocketaddressCreate.notifyModified ex g W = some W') :
    KeepsTypes W W' := by
  obtain ⟨gate, -, hW⟩ := Option.bind_eq_some_iff.mp hW
  split at hW
  · obtain rfl := Option.some.inj hW
    exact .refl W
  · have hsame := KeepsTypes.of_sameWiring (hex _ _ _ hW)
    exact hsame

/-- What a set comes to: it is refused, or the constant is wiped, or selected with the port that is
    there, or selected with a new port that is free. -/
inductive SetResult (pool : ConstantPool) (g : GateId) (S : ConstGate) (gate : Gate)
    (port : Option FullSignalType) (value : String) : Int → ConstGate → Prop
  | refused {ret : Int} (hne : ret ≠ 0)
      (hno : ∀ c full, value ≠ "" → pool.named value = some c → port = some full →
        ¬ Compatible pool full c) : SetResult pool g S gate port value ret S
  | wiped {S' : ConstGate} {gate' : Gate} (hvalue : value = "") (hnone : S'.constantValue = none)
      (hsound : S'.Sound g gate' port) : SetResult pool g S gate port value 0 S'
  | kept {S' : ConstGate} {gate' : Gate} {c : ConstantId} {full : FullSignalType}
      (hvalue : value ≠ "") (hnamed : pool.named value = some c) (hport : port = some full)
      (hcompatible : Compatible pool full c) (hc : S'.constantValue = some c)
      (hsound : S'.Sound g gate' port)
      (hslot : slotAt gate'.output.slots 0 = slotAt gate.output.slots 0)
      (htypes : KeepsTypes S.world S'.world) : SetResult pool g S gate port value 0 S'
  | created {S' : ConstGate} {gate' : Gate} {c : ConstantId} (hvalue : value ≠ "")
      (hnamed : pool.named value = some c)
      (hno : ∀ full, port = some full → ¬ Compatible pool full c) (hc : S'.constantValue = some c)
      (hsound : S'.Sound g gate' (some (pool.key c))) (hfree : slotAt gate'.output.slots 0 = none) :
      SetResult pool g S gate port value 0 S'

theorem SetResult.of_keeps {value : String} (h : SetResult pool g S gate port value 0 S')
    {W : World} (hports : KeepsPorts S'.world W) (htypes : KeepsTypes S'.world W) :
    SetResult pool g S gate port value 0 { S' with world := W } := by
  cases h with
  | refused hne => exact absurd rfl hne
  | wiped hvalue hnone hsound =>
    obtain ⟨gate₁, h₁, -⟩ := hsound.of_keeps hports htypes
    exact .wiped hvalue hnone h₁
  | kept hvalue hnamed hport hcompatible hc hsound hslot ht =>
    obtain ⟨gate₁, h₁, houtput⟩ := hsound.of_keeps hports htypes
    exact .kept hvalue hnamed hport hcompatible hc h₁ (by rw [houtput, hslot]) (ht.trans htypes)
  | created hvalue hnamed hno hc hsound hfree =>
    obtain ⟨gate₁, h₁, houtput⟩ := hsound.of_keeps hports htypes
    exact .created hvalue hnamed hno hc h₁ (by rw [houtput, hfree])

namespace Sound

/-- No more slots than ports. -/
theorem length_slots_le (h : S.Sound g gate port) : gate.output.slots.length ≤ 1 := by
  obtain ⟨j, hports⟩ := h.ports
  obtain ⟨gs, names, hside⟩ := h.sound.side .output
  have hle : gate.output.slots.length ≤ names.length := hside.porti h.gateClass
  have hsize : gate.output.manager.maxSize = names.length := hside.represents.maxSize
  have hone : gate.output.manager.maxSize ≤ 1 := by
    rw [hports]
    cases port with
    | none => exact Int.zero_le_ofNat 1
    | some full => exact le_rfl
  omega

theorem createOutput_eq (h : S.Sound g gate port) {junk : Nat → Nat} {c : ConstantId}
    {manager : PortManager} {abs : Int} {index j : Nat}
    (hfree : slotAt gate.output.slots 0 = none)
    (hadd : lxcPortUncheckedAddNewPort junk manager (.chars "const") (pool.value c).type
      (pool.value c).subtypeInfo = some (abs, index, constPorts j (pool.key c))) :
    ∃ gate' S', createOutput pool junk g c gate manager S = some (0, none, S') ∧
      S'.constantValue = some c ∧ S'.Sound g gate' (some (pool.key c)) ∧
      slotAt gate'.output.slots 0 = none := by
  let side := { gate.output with manager := constPorts j (pool.key c) }
  obtain ⟨gs, hdeclared⟩ := declared_constPorts j (pool.key c)
  have hside : side.Sound gate.gateClass gs
      (declaredNames [⟨"const", (pool.key c).signal, (pool.key c).subtype⟩]) := by
    refine ⟨hdeclared.represents, not_mem_declaredNames _, fun hb => ?_, fun _ => h.length_slots_le⟩
    rw [h.gateClass] at hb
    cases hb
  refine ⟨gate.setSide .output side,
    { world := S.world.setGate g (gate.setSide .output side), constantValue := c },
    ?_, rfl, ?_, hfree⟩
  · unfold createOutput
    dsimp only
    rw [hadd]
    rfl
  · refine ⟨Function.update_self .., h.gateClass, h.sound.setSide hside, ⟨j, rfl⟩, fun _ => by simp,
      fun w hw => ?_⟩
    rw [show slotAt (gate.setSide .output side).output.slots 0 = none from hfree] at hw
    cases hw

/-- A constant that was found. -/
theorem selectConstant_result (h : S.Sound g gate port) (junk : Nat → Nat) {value : String}
    {c : ConstantId} (hvalue : value ≠ "") (hnamed : pool.named value = some c) :
    ∃ ret S', selectConstant pool junk g c S = some (ret, none, S') ∧
      SetResult pool g S gate port value ret S' := by
  obtain ⟨j, hports⟩ := h.ports
  unfold selectConstant
  rw [h.found, Option.bind_eq_bind, Option.bind_some]
  dsimp only
  rw [hports]
  cases port with
  | none =>
    have hfree : slotAt gate.output.slots 0 = none := by
      by_contra hne
      obtain ⟨w, hw⟩ := Option.ne_none_iff_exists'.mp hne
      obtain ⟨full, -, hfull, -⟩ := h.wired w hw
      cases hfull
    obtain ⟨gate', S', hcreate, hc, hsound, hfree'⟩ :=
      h.createOutput_eq hfree (add_zeroed junk (pool.value c).type (pool.value c).subtypeInfo)
    exact ⟨0, S', hcreate, .created hvalue hnamed (fun full he => by cases he) hc hsound hfree'⟩
  | some full =>
    rw [show (constPorts j (some full)).managedTypes = some [full] from rfl]
    dsimp only
    rw [show [full][0]? = some full from rfl, Option.bind_eq_bind, Option.bind_some]
    by_cases hcompatible : Compatible pool full c
    · refine ⟨0, { S with constantValue := c }, if_pos hcompatible, ?_⟩
      exact .kept hvalue hnamed rfl hcompatible rfl
        ⟨h.found, h.gateClass, h.sound, ⟨j, hports⟩, fun _ => Option.some_ne_none full, h.wired⟩ rfl
        (.refl S.world)
    rw [if_neg (show ¬ (full.signal = (pool.value c).type ∨
      full.subtype = (pool.value c).subtypeInfo) from hcompatible)]
    have hno : ∀ full', some full = some full' → ¬ Compatible pool full' c :=
      fun full' he => Option.some.inj he ▸ hcompatible
    have htype : full.signal ≠ (pool.value c).type := fun he => hcompatible (.inl he)
    cases hslot : slotAt gate.output.slots 0 with
    | some w =>
      -- the wire has the type of the port, not that of the constant
      obtain ⟨full', wire, hfull, hw, htype'⟩ := h.wired w hslot
      obtain rfl := Option.some.inj hfull
      dsimp only
      rw [hw, Option.bind_eq_bind, Option.bind_some, if_pos (.inl (htype' ▸ htype))]
      refine ⟨_, S, rfl, .refused (by decide) fun c' full' _ hnamed' he => ?_⟩
      rw [← Option.some.inj (hnamed.symm.trans hnamed')]
      exact hno full' he
    | none =>
      dsimp only
      rw [remove_constPorts, Option.bind_eq_bind, Option.bind_some]
      obtain ⟨gate', S', hcreate, hc, hsound, hfree⟩ :=
        h.createOutput_eq hslot (add_removedPort junk j htype)
      exact ⟨0, S', hcreate, .created hvalue hnamed hno hc hsound hfree⟩

/-- Every call of the validator that sets the property. -/
theorem constGateConstSelector_result (h : S.Sound g gate port) (junk : Nat → Nat)
    (value : String) :
    ∃ ret S', constGateConstSelector pool junk g .input "const" value S = some (ret, none, S') ∧
      SetResult pool g S gate port value ret S' := by
  unfold constGateConstSelector
  rw [if_neg (not_not.mpr rfl)]
  dsimp only
  rw [Option.bind_eq_bind, Option.bind_some]
  by_cases hvalue : value = ""
  · rw [if_pos hvalue]
    exact ⟨0, _, rfl, .wiped hvalue rfl
      ⟨h.found, h.gateClass, h.sound, h.ports, fun hne => absurd rfl hne, h.wired⟩⟩
  · rw [if_neg hvalue, lxcGetConstantByName, getByName_of_packed pool.name value pool.packed,
      Option.bind_eq_bind, Option.bind_some]
    cases hnamed : pool.entries.find? fun c => value = pool.name c with
    | none =>
      refine ⟨_, S, rfl, .refused (by decide) fun c full _ hc => ?_⟩
      rw [ConstantPool.named, hnamed] at hc
      cases hc
    | some c => exact h.selectConstant_result junk hvalue hnamed

/-- Every set of the property, with the event after it. -/
theorem set_result (h : S.Sound g gate port)
    {ex : Option ConstantId → ExecCall → World → Option World} (hex : ∀ c, KeepsWiring (ex c))
    {junk : Nat → Nat} {value : String} {ret : Int} {error : Option String}
    (hset : lxcGateSetPropertyValue pool ex junk g "const" value S = some (ret, error, S')) :
    SetResult pool g S gate port value ret S' := by
  obtain ⟨ret₁, S₁, hcall, hresult⟩ :=
    @constGateConstSelector_result pool g S gate port h junk value
  unfold lxcGateSetPropertyValue genericPropOperation at hset
  rw [if_pos rfl, hcall, Option.bind_eq_bind, Option.bind_some] at hset
  dsimp only at hset
  by_cases hret : ret₁ = 0
  · rw [if_pos hret, Option.bind_eq_bind, Option.bind_eq_some_iff] at hset
    obtain ⟨W, hnotify, hdone⟩ := hset
    obtain ⟨rfl, hrest⟩ := Prod.mk.inj (Option.some.inj hdone)
    obtain ⟨-, rfl⟩ := Prod.mk.inj hrest
    subst hret
    exact hresult.of_keeps (SocketaddressCreate.notifyModified_keepsPorts (hex _) hnotify)
      (notifyModified_keepsTypes (hex _) hnotify)
  · rw [if_neg hret] at hset
    obtain ⟨rfl, hrest⟩ := Prod.mk.inj (Option.some.inj hset)
    obtain ⟨-, rfl⟩ := Prod.mk.inj hrest
    exact hresult

/-- What a set has to agree with is the port of the gate. -/
theorem agrees_set_iff (h : S.Sound g gate port) {junk : Nat → Nat} {value : String} :
    S.Agrees pool g (.setConst junk value) ↔ ∀ c full, value ≠ "" → pool.named value = some c →
      port = some full → Compatible pool full c → full = pool.key c ∧
        ∀ w wire, slotAt gate.output.slots 0 = some w → S.world.wires w = some wire →
          wire.subtype = (pool.value c).subtypeInfo := by
  obtain ⟨j, hports⟩ := h.ports
  constructor
  · intro hall c full hvalue hnamed hport hcompatible
    refine hall c hvalue hnamed gate [full] full h.found ?_ rfl hcompatible
    rw [hports, hport]
    rfl
  · intro hall c hvalue hnamed gate' types full hgate hmanaged hfull hcompatible
    obtain rfl := Option.some.inj (h.found.symm.trans hgate)
    refine hall c full hvalue hnamed ?_ hcompatible
    rw [hports] at hmanaged
    cases port with
    | none => cases hmanaged
    | some full' =>
      obtain rfl := Option.some.inj hmanaged
      exact hfull

/-- A slot that holds what it held, or nothing, has no wire of another subtype. -/
theorem subtype_of_slot (h : S.Sound g gate port) {gate' : Gate} {subtype : Int}
    (htypes : KeepsTypes S.world S'.world)
    (hslot : slotAt gate'.output.slots 0 = slotAt gate.output.slots 0 ∨
      slotAt gate'.output.slots 0 = none)
    (hwires : ∀ w wire, slotAt gate.output.slots 0 = some w → S.world.wires w = some wire →
      wire.subtype = subtype) (w : WireId) (wire : Wire)
    (hw : slotAt gate'.output.slots 0 = some w) (hwire : S'.world.wires w = some wire) :
    wire.subtype = subtype := by
  rcases hslot with hsame | hfree
  · rw [hsame] at hw
    obtain ⟨-, wire₀, -, hwire₀, -⟩ := h.wired w hw
    obtain ⟨wire', hwire', -, hsubtype⟩ := htypes w wire₀ hwire₀
    obtain rfl := Option.some.inj (hwire'.symm.trans hwire)
    exact hsubtype.trans (hwires w wire₀ hw hwire₀)
  · rw [hfree] at hw
    cases hw

/-- The port matches after a set exactly when the constant agreed with the port before. -/
theorem set_matches_iff (h : S.Sound g gate port) (hm : S.Matches pool gate port)
    {junk : Nat → Nat} {value : String} {ret : Int}
    (hresult : SetResult pool g S gate port value ret S') :
    ∃ gate' port', S'.Sound g gate' port' ∧
      (S'.Matches pool gate' port' ↔ S.Agrees pool g (.setConst junk value)) := by
  rw [h.agrees_set_iff]
  cases hresult with
  | refused hne hno =>
    exact ⟨gate, port, h, iff_of_true hm fun c full hvalue hnamed hport hcompatible =>
      absurd hcompatible (hno c full hvalue hnamed hport)⟩
  | wiped hvalue hnone hsound =>
    refine ⟨_, port, hsound, iff_of_true (fun c hc => ?_) fun c full hne => absurd hvalue hne⟩
    rw [hnone] at hc
    cases hc
  | created hvalue hnamed hno hc hsound hfree =>
    refine ⟨_, _, hsound,
      iff_of_true (fun c hc' => ?_) fun c full _ hnamed' hport hcompatible => ?_⟩
    · obtain rfl := Option.some.inj (hc.symm.trans hc')
      refine ⟨rfl, fun w wire hw => ?_⟩
      rw [hfree] at hw
      cases hw
    · obtain rfl := Option.some.inj (hnamed.symm.trans hnamed')
      exact absurd hcompatible (hno full hport)
  | @kept S' gate' c full hvalue hnamed hport hcompatible hc hsound hslot htypes =>
    refine ⟨gate', port, hsound, ⟨fun hm' c' full' _ hnamed' hport' _ => ?_, fun hall c' hc' => ?_⟩⟩
    · obtain rfl := Option.some.inj (hnamed.symm.trans hnamed')
      obtain rfl := Option.some.inj (hport.symm.trans hport')
      obtain ⟨hkey, hwires⟩ := hm' c hc
      refine ⟨Option.some.inj (hport.symm.trans hkey), fun w wire hw hwire => ?_⟩
      obtain ⟨wire', hwire', -, hsubtype⟩ := htypes w wire hwire
      rw [← hsubtype]
      exact hwires w wire' (hslot.trans hw) hwire'
    · obtain rfl := Option.some.inj (hc.symm.trans hc')
      obtain ⟨hkey, hwires⟩ := hall c full hvalue hnamed hport hcompatible
      exact ⟨by rw [hport, hkey], h.subtype_of_slot htypes (.inl hslot) hwires⟩

/-- A wire that is tied while a constant is selected has to be of the subtype of the call. -/
theorem wire_matches_iff (h : S.Sound g gate port) (hm : S.Matches pool gate port)
    {ex : ExecCall → World → Option World} (hex : KeepsWiring ex) {type : Option Signal}
    {subtype r : Int} {wire : Option WireId} {index : Nat} {W : World}
    (hcall : lxcWireGateOutput ex type subtype wire g index S.world = some (r, W)) :
    ∃ gate', { S with world := W }.Sound g gate' port ∧
      (Matches pool { S with world := W } gate' port ↔
        S.Agrees pool g (.wireOutput type subtype wire index)) := by
  obtain ⟨j, hports⟩ := h.ports
  obtain ⟨htypes, gate', hsound, hcases⟩ := h.wireOutput hex hcall
  refine ⟨gate', hsound, ?_⟩
  rcases hcases with ⟨w, wr, rfl, hw, ht, hslot⟩ | ⟨hno, hslot⟩
  · obtain ⟨wr', hw', -, hsubtype⟩ := htypes w wr hw
    have hport := port_of_checked h.gateClass hports ht.checked
    constructor
    · intro hm' hne w₁ wr₁ _ hw₁ hwr₁ _ _
      obtain rfl := Option.some.inj hw₁
      obtain rfl := Option.some.inj (hw.symm.trans hwr₁)
      obtain ⟨c, hc⟩ := Option.ne_none_iff_exists'.mp hne
      obtain ⟨hkey, hwires⟩ := hm' c hc
      have hsub : subtype = (pool.value c).subtypeInfo :=
        congrArg FullSignalType.subtype (Option.some.inj (hport.symm.trans hkey))
      rw [hsub, ← hsubtype]
      exact hwires w wr' hslot hw'
    · intro hagrees c hc
      have hkey := (hm c hc).1
      refine ⟨hkey, fun w₁ wire₁ hw₁ hwire₁ => ?_⟩
      obtain rfl := Option.some.inj (hslot.symm.trans hw₁)
      obtain rfl := Option.some.inj (hw'.symm.trans hwire₁)
      have hsub : subtype = (pool.value c).subtypeInfo :=
        congrArg FullSignalType.subtype (Option.some.inj (hport.symm.trans hkey))
      have hne : S.constantValue ≠ none := fun hnone => by
        rw [show S.constantValue = some c from hc] at hnone
        cases hnone
      rw [hsubtype, hagrees hne w wr gate rfl hw h.found ht, hsub]
  · refine iff_of_true (fun c hc => ?_) fun _ w wr gate₁ hw hwr hgate₁ ht => ?_
    · obtain ⟨hkey, hwires⟩ := hm c hc
      exact ⟨hkey,
        @subtype_of_slot g S { S with world := W } gate port h gate' _ htypes hslot hwires⟩
    · obtain rfl := Option.some.inj (h.found.symm.trans hgate₁)
      exact absurd ht (hno w wr hw hwr)

/-- One step: the port matches after it exactly when the step agrees. -/
theorem step_iff (h : S.Sound g gate port) (hm : S.Matches pool gate port)
    {ex : Option ConstantId → ExecCall → World → Option World} (hex : ∀ c, KeepsWiring (ex c))
    {op : Op} (hstep : step pool ex g S op = some S') :
    ∃ gate' port', S'.Sound g gate' port' ∧
      (S'.Matches pool gate' port' ↔ S.Agrees pool g op) := by
  cases op with
  | setConst junk value =>
    obtain ⟨⟨ret, error, S₁⟩, hset, hS⟩ := Option.bind_eq_some_iff.mp hstep
    obtain rfl := Option.some.inj hS
    exact h.set_matches_iff hm (h.set_result hex hset)
  | wireOutput type subtype wire index =>
    obtain ⟨⟨r, W⟩, hcall, hS⟩ := Option.bind_eq_some_iff.mp hstep
    obtain rfl := Option.some.inj hS
    obtain ⟨gate', hgate'⟩ := h.wire_matches_iff hm (hex _) hcall
    exact ⟨gate', port, hgate'⟩

theorem step (h : S.Sound g gate port)
    {ex : Option ConstantId → ExecCall → World → Option World} (hex : ∀ c, KeepsWiring (ex c))
    {op : Op} (hstep : step pool ex g S op = some S') :
    ∃ gate' port', S'.Sound g gate' port' := by
  cases op with
  | wireOutput type subtype wire index =>
    obtain ⟨⟨r, W⟩, hcall, hS⟩ := Option.bind_eq_some_iff.mp hstep
    obtain rfl := Option.some.inj hS
    obtain ⟨-, gate', hsound, -⟩ := h.wireOutput (hex _) hcall
    exact ⟨gate', port, hsound⟩
  | setConst junk value =>
    obtain ⟨⟨ret, error, S₁⟩, hset, hS⟩ := Option.bind_eq_some_iff.mp hstep
    obtain rfl := Option.some.inj hS
    cases h.set_result hex hset with
    | refused => exact ⟨gate, port, h⟩
    | wiped _ _ hsound => exact ⟨_, _, hsound⟩
    | kept _ _ _ _ _ hsound => exact ⟨_, _, hsound⟩
    | created _ _ _ _ hsound => exact ⟨_, _, hsound⟩

/-- A set that fails leaves the state as it is. -/
theorem failsUnchanged (h : S.Sound g gate port)
    {ex : Option ConstantId → ExecCall → World → Option World} (hex : ∀ c, KeepsWiring (ex c))
    (op : Op) : S.FailsUnchanged pool ex g op := by
  cases op with
  | wireOutput type subtype wire index => trivial
  | setConst junk value =>
    intro ret error S' hset hne
    cases h.set_result hex hset with
    | refused => exact ⟨rfl, rfl⟩
    | wiped => exact absurd rfl hne
    | kept => exact absurd rfl hne
    | created => exact absurd rfl hne

end Sound

/-- A new gate has no constant yet. -/
theorem lxcGenericPortiPropbGateCreate_sound
    {ex : Option ConstantId → ExecCall → World → Option World} (hex : ∀ c, KeepsWiring (ex c))
    {junk : Nat → Nat} {W : World}
    (h : lxcGenericPortiPropbGateCreate pool ex junk g W = some S) :
    ∃ gate port, S.Sound g gate port ∧ S.Matches pool gate port := by
  let gate := LogxControll.lxcGenericPortiGateCreate .other
  have hside : PortSide.Sound .porti { manager := .zeroed, slots := zeroedSlots .zeroed } [] [] :=
    ⟨represents_zeroed, List.not_mem_nil, (fun hb => by cases hb), fun _ => Nat.le_refl 0⟩
  have hstart : Sound g { world := W.setGate g gate, constantValue := none } gate none := by
    refine ⟨Function.update_self .., rfl, ⟨.inr rfl, fun dir => ?_⟩, ⟨0, rfl⟩,
      fun hne => absurd rfl hne, fun w hw => by cases hw⟩
    cases dir <;> exact ⟨[], [], hside⟩
  unfold lxcGenericPortiPropbGateCreate at h
  dsimp only at h
  rw [Option.bind_eq_bind, Option.bind_eq_some_iff] at h
  obtain ⟨⟨ret, error, S₁⟩, hset, h⟩ := h
  obtain rfl := Option.some.inj h
  have hmatches : Matches pool { world := W.setGate g gate, constantValue := none } gate none :=
    fun c hc => by cases hc
  obtain ⟨gate', port', hsound, hiff⟩ :=
    @Sound.set_matches_iff pool g _ _ gate none hstart hmatches junk "" ret
      (hstart.set_result hex hset)
  exact ⟨gate', port', hsound, hiff.mpr fun c hne => absurd rfl hne⟩

/-- The circuit that the gate is in rewires nothing when it executes. -/
theorem constExecution_keepsWiring {call : ExecCall → World → Option World}
    (hcall : KeepsWiring call) (c : Option ConstantId) :
    KeepsWiring (constExecution pool call g c) := by
  intro e W W' h
  unfold constExecution at h
  split at h
  · obtain ⟨drive, -, h⟩ := Option.bind_eq_some_iff.mp h
    cases drive with
    | none =>
      obtain rfl := Option.some.inj h
      exact .refl W
    | some drive => exact lxcDriveWireValue_sameWiring hcall h
  · exact hcall _ _ _ h

end Gate

end ConstGate

open ConstGate

/-- In every run from a new gate the port follows the constant, the gate drives only wires of the
    type and the subtype of its constant and a set that fails changes nothing, exactly when every
    step agrees. -/
theorem const_port_iff {pool : ConstantPool}
    {ex : Option ConstantId → ExecCall → World → Option World} (hex : ∀ c, KeepsWiring (ex c))
    {junk : Nat → Nat} {g : GateId} {W : World} {S : ConstGate}
    (hcreate : lxcGenericPortiPropbGateCreate pool ex junk g W = some S) (ops : List Op)
    (hrun : (Run.run (step pool ex g) S ops).isSome) :
    Run.Meets (step pool ex g) (FailsUnchanged pool ex g) S ops ∧
        Run.Always (step pool ex g) (fun S => S.PortFollows pool g ∧ S.DrivesOwnType pool g) S ops ↔
      Run.Meets (step pool ex g) (Agrees pool g) S ops := by
  let Inv : ConstGate → Prop := fun S => ∃ gate port, S.Sound g gate port ∧ S.Matches pool gate port
  have hstart : Inv S := lxcGenericPortiPropbGateCreate_sound hex hcreate
  have hinv : ∀ S, Inv S → S.PortFollows pool g ∧ S.DrivesOwnType pool g := by
    rintro S ⟨gate, port, h, hm⟩
    exact h.matches_iff.mpr hm
  have hkeep : ∀ S op S', Inv S → S.Agrees pool g op → step pool ex g S op = some S' → Inv S' := by
    rintro S op S' ⟨gate, port, h, hm⟩ hagrees hstep
    obtain ⟨gate', port', h', hiff⟩ := h.step_iff hm hex hstep
    exact ⟨gate', port', h', hiff.mpr hagrees⟩
  have hbreak : ∀ S op S', Inv S → ¬ S.Agrees pool g op → step pool ex g S op = some S' →
      ¬ (S'.PortFollows pool g ∧ S'.DrivesOwnType pool g) := by
    rintro S op S' ⟨gate, port, h, hm⟩ hno hstep hfollows
    obtain ⟨gate', port', h', hiff⟩ := h.step_iff hm hex hstep
    exact hno (hiff.mp (h'.matches_iff.mp hfollows))
  have hiff := Run.always_iff_meets_of_run Inv hinv hkeep hbreak hstart hrun
  refine ⟨fun h => hiff.mp h.2, fun h => ⟨?_, hiff.mpr h⟩⟩
  obtain ⟨gate, port, hsound, -⟩ := hstart
  have hfails := @Run.meets_iff _ _ (step pool ex g) (fun _ _ => True) (FailsUnchanged pool ex g)
    (fun S => ∃ gate port, S.Sound g gate port)
    (fun S op ⟨gate, port, h⟩ => iff_of_true trivial (h.failsUnchanged hex op))
    (fun S op S' ⟨gate, port, h⟩ _ hstep => h.step hex hstep) ops S ⟨gate, port, hsound⟩
  exact hfails.mp (Run.meets_of_forall fun _ _ _ => trivial)

/-- An int wire, and no gate yet. -/
def intWireWorld : World :=
  { gates := fun _ => none
    wires := fun w =>
      if w = 0 then some { type := .int, subtype := 0, currentValue := none, refDes := some "w",
                           drivers := [], drivens := [], handler := .directPropagateValue }
      else none
    tokenports := fun _ => none
    nextWire := 1, nextTokenport := 0, nextValue := 3, loopBreaker := none, driven := [] }

/-- The built-in constant `true`, and a constant `(int) 1` that a client has registered. -/
def builtinPool : ConstantPool where
  name c := if c = 0 then "(int) 1" else "true"
  value c :=
    if c = 0 then { id := 2, type := .int, subtypeInfo := 0, data := .int 1 }
    else lxcBoolConstantValueTrue
  bytes _ := ""
  registered := some [some 0, some 1, none]
  entries := [0, 1]
  packed := .inr rfl

/-- The const gate in the circuit. -/
def builtinExecution : Option ConstantId → ExecCall → World → Option World :=
  constExecution builtinPool (callBehavior 2) 0

/-- A constant, its wire, and a constant of another type. -/
def switchType : List ConstGate.Op :=
  [.setConst (fun _ => 0) "(int) 1", .wireOutput (some .int) 0 (some 0) 0,
    .setConst (fun _ => 0) "true"]

theorem const_port_iff_switchType : ∃ S,
    lxcGenericPortiPropbGateCreate builtinPool builtinExecution (fun _ => 0) 0 intWireWorld =
      some S ∧
    (Run.Meets (step builtinPool builtinExecution 0) (FailsUnchanged builtinPool builtinExecution 0)
          S switchType ∧
        Run.Always (step builtinPool builtinExecution 0)
          (fun S => S.PortFollows builtinPool 0 ∧ S.DrivesOwnType builtinPool 0) S switchType ↔
      Run.Meets (step builtinPool builtinExecution 0) (Agrees builtinPool 0) S switchType) :=
  ⟨_, rfl, @const_port_iff builtinPool builtinExecution
    (constExecution_keepsWiring (callBehavior_keepsWiring 2)) (fun _ => 0) 0 intWireWorld _ rfl
    switchType rfl⟩

/-- The bool constant is selected while the int wire is at the port, and driven onto it. -/
theorem const_port_not_followed : ∃ S S',
    lxcGenericPortiPropbGateCreate builtinPool builtinExecution (fun _ => 0) 0 intWireWorld =
      some S ∧
    Run.run (step builtinPool builtinExecution 0) S switchType = some S' ∧
    S'.constantValue = some 1 ∧
    constDrive builtinPool 0 S' = some (some (0, lxcBoolConstantValueTrue)) ∧
    (S'.world.wires 0).map Wire.type = some .int ∧
    ¬ (Run.Meets (step builtinPool builtinExecution 0)
          (FailsUnchanged builtinPool builtinExecution 0) S switchType ∧
        Run.Always (step builtinPool builtinExecution 0)
          (fun S => S.PortFollows builtinPool 0 ∧ S.DrivesOwnType builtinPool 0) S switchType) := by
  refine ⟨_, _, rfl, rfl, rfl, rfl, rfl, ?_⟩
  rintro ⟨-, halways⟩
  have hlast := ((halways.2 _ rfl).2 _ rfl).2 _ rfl
  obtain ⟨wire, hwire, htype, -⟩ := hlast.2 0 lxcBoolConstantValueTrue rfl
  obtain rfl := Option.some.inj hwire
  cases htype

end LogxControll
