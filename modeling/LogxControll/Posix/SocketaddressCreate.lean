/-
  The `family` property of the socket address gate (`posix/socketaddress_create.c`,
  `posix/create_utils.c`).

  The inputs of the gate are those of its address family. The validator of the property replaces
  the family and the creator before it looks for wires at the inputs, and then refuses when it
  finds one: the ports no longer belong to the family (`family_atomic_iff`).
-/
import LogxControll.Wiring.Declarations
import LogxControll.Wiring.PortbGates
import LogxControll.Lib.Run

namespace LogxControll

/-- `struct create_utils`, the two of `register_create_utils`. -/
inductive CreateUtils where
  | unspec
  | inet
  deriving DecidableEq, Repr

/-- The ports that `inet_on_use` adds. -/
def inetInputs : List PortDefinition := [⟨"address", .string, 0⟩, ⟨"port", .int, 0⟩]

/-- `inet_on_use` -/
def inetOnUse (junk : Nat → Nat) (inputPorts : PortManager) : Option PortManager :=
  addPortDefinitions junk inputPorts inetInputs

namespace CreateUtils

/-- `AF_UNSPEC`, `AF_INET` -/
def family : CreateUtils → Int
  | unspec => 0
  | inet => 2

/-- The names under which the creators are registered. -/
def name : CreateUtils → String
  | unspec => "UNSPEC"
  | inet => "INET"

/-- `on_creator_use`, on the input ports of the gate. -/
def onCreatorUse (junk : Nat → Nat) : CreateUtils → PortManager → Option PortManager
  | unspec => some
  | inet => inetOnUse junk

/-- `on_creator_remove`: `do_noop` for both. -/
def onCreatorRemove : CreateUtils → PortManager → PortManager
  | unspec | inet => id

/-- The ports a creator installs. -/
def ports : CreateUtils → List PortDefinition
  | unspec => []
  | inet => inetInputs

end CreateUtils

/-- `IMPLEMENTED_ADDRESS_CREATORS` -/
def implementedAddressCreators : List CreateUtils := [.unspec, .inet]

/-- `struct lxc_posix_socketaddress_create`; `base` is in the memory. -/
structure SocketaddressCreate where
  world : World
  family : Int
  currentCreator : Option CreateUtils

namespace SocketaddressCreate

/-- The write `base.input_ports = manager`. -/
def setInputPorts (S : SocketaddressCreate) (g : GateId) (gate : Gate) (manager : PortManager) :
    SocketaddressCreate :=
  let side := { gate.input with manager := manager }
  { S with world := S.world.setGate g (gate.setSide .input side) }

/-- The writes to `family` and `current_creator`. -/
def setCreator (S : SocketaddressCreate) (cre : CreateUtils) : SocketaddressCreate :=
  { S with family := cre.family, currentCreator := some cre }

/-- The validator from the remove hook on. -/
def switchCreator (junk : Nat → Nat) (newCreate : CreateUtils) (g : GateId)
    (S : SocketaddressCreate) : Option (Int × Option String × SocketaddressCreate) := do
  let gate ← S.world.gates g
  let inputPorts := match S.currentCreator with
    | some cre => cre.onCreatorRemove gate.input.manager
    | none => gate.input.manager
  let S := (S.setInputPorts g gate inputPorts).setCreator newCreate
  let connected ← lxcPortIsAnyWireConnected inputPorts gate.input.slots gate.input.slots.length
  if connected then
    return (LxcErrno.portIsInUse.code,
      "Family can be modified only if no input port connected, disconnect them.", S)
  else
    let inputPorts ← newCreate.onCreatorUse junk (lxcPortWipeAll inputPorts)
    return (0, none, S.setInputPorts g gate inputPorts)

/-- The return value and the text for the caller's buffer, which may cut it. `addr` points to the
    family of the gate. -/
def sockaddressCreatePropertyValidator (junk : Nat → Nat) (g : GateId) (direction : Direction)
    (value : Option String) (S : SocketaddressCreate) :
    Option (Int × Option String × SocketaddressCreate) :=
  match direction with
  | .output =>
    match implementedAddressCreators.find? fun cre => S.family = cre.family with
    | some cre => some (0, cre.name, S)
    | none => some (LxcErrno.entityNotFound.code, "", S)
  | .input =>
    match value with
    | none => some (LxcErrno.badCall.code, "", S)
    | some value =>
      match implementedAddressCreators.find? fun cre => cre.name = value with
      | none => some (LxcErrno.entityNotFound.code, "", S)
      | some newCreate =>
        if S.family = newCreate.family then some (LxcErrno.nothingChanged.code, "", S)
        else switchCreator junk newCreate g S

/-- `family` is the only property. -/
def genericPropOperation (junk : Nat → Nat) (g : GateId) (direction : Direction) (property : String)
    (value : Option String) (S : SocketaddressCreate) :
    Option (Int × Option String × SocketaddressCreate) :=
  if property = "family" then sockaddressCreatePropertyValidator junk g direction value S
  else some (LxcErrno.entityNotFound.code, none, S)

/-- `ex` is the call `gate->execution_behavior(...)`. -/
def notifyModified (ex : ExecCall → World → Option World) (g : GateId) (W : World) :
    Option World := do
  let gate ← W.gates g
  match gate.executionBehavior with
  | none => return W
  | some _ =>
    let notify : LxcValue :=
      { id := W.nextValue, type := .system, subtypeInfo := 0, data := .other [] }
    ex { gate := g, type := notify.type, subtype := 0, value := notify, index := 0 }
      { W with nextValue := W.nextValue + 1 }

/-- `lxc_gate_set_property_value`: a set that succeeds tells the gate of it. -/
def lxcGateSetPropertyValue (ex : ExecCall → World → Option World) (junk : Nat → Nat) (g : GateId)
    (property : String) (value : Option String) (S : SocketaddressCreate) :
    Option (Int × Option String × SocketaddressCreate) := do
  let (ret, error, S) ← genericPropOperation junk g .input property value S
  if ret = 0 then
    let W ← notifyModified ex g S.world
    return (ret, error, { S with world := W })
  else
    return (ret, error, S)

/-- The type of the output, registered by the library. -/
def lxcPosixSockaddr : Signal := .registered 0

/-- `on_new_gate` -/
def onNewGate (junk : Nat → Nat) (gate : Gate) : Option Gate := do
  let outputPorts ← addPortDefinitions junk gate.output.manager [⟨"sockaddr", lxcPosixSockaddr, 0⟩]
  return { gate with output := { gate.output with manager := outputPorts } }

/-- The gate in zeroed memory, and then the default value of its property. -/
def lxcGenericPortiPropbGateCreate (ex : ExecCall → World → Option World) (junk : Nat → Nat)
    (g : GateId) (W : World) : Option SocketaddressCreate := do
  let gate ← onNewGate junk (lxcGenericPortiGateCreate .other)
  let S := { world := W.setGate g gate, family := 0, currentCreator := none }
  let (_, _, S) ← lxcGateSetPropertyValue ex junk g "family" "UNSPEC" S
  return S

/-! ## Runs -/

/-- Setting the property, and wiring an input of the gate or, with no wire, unwiring it. -/
inductive Op where
  | setFamily (junk : Nat → Nat) (value : Option String)
  | wireInput (type : Option Signal) (subtype : Int) (wire : Option WireId) (index : Nat)

/-- The state after a set of the property or the wiring of an input, whatever these return. -/
def step (ex : ExecCall → World → Option World) (g : GateId) (S : SocketaddressCreate) :
    Op → Option SocketaddressCreate
  | .setFamily junk value => do
    let (_, _, S) ← lxcGateSetPropertyValue ex junk g "family" value S
    return S
  | .wireInput type subtype wire index => do
    let (_, W) ← lxcWireGateInput ex type subtype wire g index S.world
    return { S with world := W }

/-- The manager of the input ports of the gate. -/
def inputPorts (g : GateId) (S : SocketaddressCreate) : Option PortManager :=
  (S.world.gates g).map fun gate => gate.input.manager

/-- The gate has exactly these inputs. -/
def HasInputs (g : GateId) (S : SocketaddressCreate) (defs : List PortDefinition) : Prop :=
  ∃ manager gs, S.inputPorts g = some manager ∧ Declared manager defs gs

/-- The inputs are those of the creator of the current family. -/
def InStep (g : GateId) (S : SocketaddressCreate) : Prop :=
  ∃ cre ∈ implementedAddressCreators, S.family = cre.family ∧ S.HasInputs g cre.ports

/-- A set that fails changes nothing; one that succeeds switches family, creator and inputs. -/
def Atomic (ex : ExecCall → World → Option World) (g : GateId) (S : SocketaddressCreate) :
    Op → Prop
  | .setFamily junk value => ∀ ret error S',
      lxcGateSetPropertyValue ex junk g "family" value S = some (ret, error, S') →
        (ret ≠ 0 → S'.family = S.family ∧ S'.currentCreator = S.currentCreator ∧
          S'.inputPorts g = S.inputPorts g) ∧
        (ret = 0 → ∃ cre ∈ implementedAddressCreators, value = some cre.name ∧
          S'.family = cre.family ∧ S'.currentCreator = some cre ∧ S'.HasInputs g cre.ports)
  | .wireInput .. => True

/-- A set to another family that is implemented is made while no input is wired. -/
def FreeForSwitch (g : GateId) (S : SocketaddressCreate) : Op → Prop
  | .setFamily _ value => ∀ cre ∈ implementedAddressCreators, value = some cre.name →
      S.family ≠ cre.family → ∀ gate, S.world.gates g = some gate →
        ∀ type subtype index, gate.boundAt .input type subtype index = none
  | .wireInput .. => True

/-! ## Wired inputs -/

theorem anyWired_eq : ∀ {n : Nat} {slots : List (Option Nat)}, n ≤ slots.length →
    ∃ b, anyWired slots n = some b ∧ (b = false ↔ ∀ a < n, slotAt slots a = none)
  | 0, _, _ => ⟨false, by rw [anyWired], iff_of_true rfl fun _ h => absurd h (Nat.not_lt_zero _)⟩
  | n + 1, [], h => absurd h (Nat.not_succ_le_zero n)
  | n + 1, some c :: slots, _ =>
      ⟨true, by rw [anyWired], iff_of_false (by decide) fun h => by cases h 0 (Nat.succ_pos n)⟩
  | n + 1, none :: slots, h => by
      obtain ⟨b, hb, hiff⟩ := @anyWired_eq n slots (Nat.le_of_succ_le_succ h)
      refine ⟨b, by rw [anyWired, hb], hiff.trans ⟨fun hn a ha => ?_, fun hn a ha => ?_⟩⟩
      · cases a with
        | zero => rfl
        | succ a => exact hn a (Nat.lt_of_succ_lt_succ ha)
      · exact hn (a + 1) (Nat.succ_lt_succ ha)

section Inputs

variable {gate : Gate} {dir : Direction} {gs : Groups} {names : List PortName}

/-- A port of a gate that grows its arrays on demand is bound to what its slot holds. -/
theorem boundAt_of_porti (hc : gate.gateClass = .porti)
    (h : (gate.side dir).manager.Represents gs names) (type : Signal) (subtype : Int) (index : Nat) :
    gate.boundAt dir type subtype index =
      (absList gs ⟨type, subtype⟩)[index]?.bind fun a => slotAt (gate.side dir).slots a := by
  have hget : gate.getWire dir type subtype index = lxcPortGetWireSafe (gate.side dir).manager type
      subtype index (gate.side dir).slots (gate.side dir).slots.length := by
    unfold Gate.getWire
    rw [hc]
  have hbool : ¬ (gate.gateClass = .bool ∧ subtype ≠ 0) := fun hb => by
    rw [hc] at hb
    cases hb.1
  rw [Gate.boundAt, if_neg hbool, hget, lxcPortGetWireSafe, h.lxcPortGetAbsindex_eq,
    Option.bind_eq_bind, Option.bind_some]
  cases ha : (absList gs ⟨type, subtype⟩)[index]? with
  | none =>
    rw [absAt_of_none ha, if_pos (.inl (by decide))]
    rfl
  | some a =>
    rw [absAt_of_getElem? ha, Option.bind_some]
    by_cases hlen : a < (gate.side dir).slots.length
    · rw [if_neg (by omega), Int.toNat_natCast, slotAt_eq hlen]
      rfl
    · rw [if_pos (.inr (by omega)), slotAt_of_le (Nat.le_of_not_lt hlen)]
      rfl

/-- No port is wired when all slots of the declared ports are free. -/
theorem unwired_iff (hc : gate.gateClass = .porti) {defs : List PortDefinition}
    (h : Declared (gate.side dir).manager defs gs) :
    (∀ type subtype index, gate.boundAt dir type subtype index = none) ↔
      ∀ a < defs.length, slotAt (gate.side dir).slots a = none := by
  constructor
  · intro hall a ha
    obtain ⟨key, i, hi⟩ := (h.represents.indexed.live a).mpr ⟨_, by
      rw [declaredNames, List.getElem?_map, List.getElem?_eq_getElem ha]
      rfl⟩
    have hbound := hall key.signal key.subtype i
    rwa [boundAt_of_porti hc h.represents, hi, Option.bind_some] at hbound
  · intro hall type subtype index
    rw [boundAt_of_porti hc h.represents]
    cases ha : (absList gs ⟨type, subtype⟩)[index]? with
    | none => rfl
    | some a =>
      have hlt := h.represents.getElem?_lt ha
      rw [declaredNames, List.length_map] at hlt
      exact hall a hlt

/-- `lxc_port_is_any_wire_connected` on the inputs of a gate. -/
theorem lxcPortIsAnyWireConnected_eq (hc : gate.gateClass = .porti) {defs : List PortDefinition}
    (h : Declared (gate.side dir).manager defs gs) (hlen : (gate.side dir).slots.length < 2 ^ 31) :
    ∃ b, lxcPortIsAnyWireConnected (gate.side dir).manager (gate.side dir).slots
        (gate.side dir).slots.length = some b ∧
      (b = false ↔ ∀ type subtype index, gate.boundAt dir type subtype index = none) := by
  have hcount : lxcPortCount (gate.side dir).manager = defs.length := by
    rw [lxcPortCount, h.represents.maxSize, declaredNames, List.length_map]
  have hsize : lxcPortIsAnyWireConnected (gate.side dir).manager (gate.side dir).slots
      (gate.side dir).slots.length =
        anyWired (gate.side dir).slots (min (gate.side dir).slots.length defs.length) := by
    unfold lxcPortIsAnyWireConnected
    rw [hcount, intOfUint_of_lt hlen]
    have hmin : (if ((gate.side dir).slots.length : Int) < defs.length then
        ((gate.side dir).slots.length : Int) else defs.length).toNat =
          min (gate.side dir).slots.length defs.length := by
      split <;> omega
    dsimp only
    rw [hmin]
  obtain ⟨b, hb, hiff⟩ := anyWired_eq (Nat.min_le_left (gate.side dir).slots.length defs.length)
  refine ⟨b, hsize.trans hb, hiff.trans (Iff.trans ?_ (unwired_iff hc h).symm)⟩
  refine ⟨fun hn a ha => ?_, fun hn a ha => hn a (lt_of_lt_of_le ha (Nat.min_le_right _ _))⟩
  by_cases hin : a < (gate.side dir).slots.length
  · exact hn a (lt_min hin ha)
  · exact slotAt_of_le (Nat.le_of_not_lt hin)

end Inputs

/-! ## The creators -/

theorem mem_implementedAddressCreators (cre : CreateUtils) : cre ∈ implementedAddressCreators := by
  cases cre <;> decide

theorem name_inj {cre cre' : CreateUtils} (h : cre.name = cre'.name) : cre = cre' := by
  cases cre <;> cases cre' <;> first | rfl | exact absurd h (by decide)

theorem onCreatorUse_declared (junk : Nat → Nat) (cre : CreateUtils) (m : PortManager) :
    ∃ m' gs, cre.onCreatorUse junk (lxcPortWipeAll m) = some m' ∧ Declared m' cre.ports gs := by
  cases cre with
  | unspec => exact ⟨_, [], rfl, declared_init⟩
  | inet => exact addPortDefinitions_declared junk inetInputs declared_init

theorem length_ports_le (cre : CreateUtils) : cre.ports.length ≤ 2 := by
  cases cre <;> decide

/-- The value names no creator, or one whose family the gate has, or one of another family. -/
theorem find_creator (value : String) :
    (∃ cre : CreateUtils, value = cre.name ∧
      (implementedAddressCreators.find? fun c => c.name = value) = some cre) ∨
    ((∀ cre : CreateUtils, value ≠ cre.name) ∧
      (implementedAddressCreators.find? fun c => c.name = value) = none) := by
  cases hfind : implementedAddressCreators.find? fun c => c.name = value with
  | some cre =>
    have hname := List.find?_some hfind
    exact .inl ⟨cre, (of_decide_eq_true hname).symm, rfl⟩
  | none =>
    refine .inr ⟨fun cre he => ?_, rfl⟩
    have hne := List.find?_eq_none.mp hfind cre (mem_implementedAddressCreators cre)
    exact hne (decide_eq_true he.symm)

/-! ## Setting the property -/

/-- The gate exists, and its inputs are those of its family. -/
structure Sound (g : GateId) (S : SocketaddressCreate) (gate : Gate) (cre : CreateUtils)
    (gs : Groups) : Prop where
  found : S.world.gates g = some gate
  gateClass : gate.gateClass = .porti
  slots : gate.input.slots.length ≤ 2
  family : S.family = cre.family
  inputs : Declared gate.input.manager cre.ports gs

section Set

variable {g : GateId} {S S' : SocketaddressCreate} {gate : Gate} {cre newCreate : CreateUtils}
  {gs : Groups} {junk : Nat → Nat} {value : Option String} {ret : Int} {error : Option String}

theorem Sound.hasInputs (h : S.Sound g gate cre gs) : S.HasInputs g cre.ports := by
  refine ⟨gate.input.manager, gs, ?_, h.inputs⟩
  rw [inputPorts, h.found, Option.map_some]

theorem Sound.inStep (h : S.Sound g gate cre gs) : S.InStep g :=
  ⟨cre, mem_implementedAddressCreators cre, h.family, h.hasInputs⟩

theorem onCreatorRemove_eq (cre : CreateUtils) (m : PortManager) : cre.onCreatorRemove m = m := by
  cases cre <;> rfl

theorem setInputPorts_gates (manager : PortManager) :
    (S.setInputPorts g gate manager).world.gates g =
      some { gate with input := { gate.input with manager := manager } } :=
  Function.update_self ..

/-- The switch, up to the look for wired inputs. -/
theorem switchCreator_eq (hg : S.world.gates g = some gate) :
    switchCreator junk newCreate g S =
      (lxcPortIsAnyWireConnected gate.input.manager gate.input.slots gate.input.slots.length).bind
        fun connected =>
          if connected then
            some (LxcErrno.portIsInUse.code,
              some "Family can be modified only if no input port connected, disconnect them.",
              (S.setInputPorts g gate gate.input.manager).setCreator newCreate)
          else
            (newCreate.onCreatorUse junk (lxcPortWipeAll gate.input.manager)).map fun inputPorts =>
              (0, none, (S.setInputPorts g gate inputPorts).setCreator newCreate) := by
  have hremove : (match S.currentCreator with
      | some cre => cre.onCreatorRemove gate.input.manager
      | none => gate.input.manager) = gate.input.manager := by
    cases S.currentCreator with
    | none => rfl
    | some cre => exact onCreatorRemove_eq cre _
  unfold switchCreator
  rw [hg, Option.bind_eq_bind, Option.bind_some]
  dsimp only
  rw [hremove]
  refine Option.bind_congr fun connected _ => ?_
  cases connected with
  | true => rfl
  | false =>
    rw [if_neg Bool.false_ne_true, if_neg Bool.false_ne_true, Option.map_eq_bind]
    refine Option.bind_congr fun inputPorts _ => ?_
    have hset : ∀ a b : Gate, (S.world.setGate g a).setGate g b = S.world.setGate g b := by
      intro a b
      unfold World.setGate
      rw [Function.update_idem]
    unfold setInputPorts setCreator
    dsimp only
    rw [hset]
    rfl

/-- With a wire at an input the switch is refused, and leaves the new family behind. -/
theorem Sound.switch_wired (h : S.Sound g gate cre gs)
    (hwired : ¬ ∀ type subtype index, gate.boundAt .input type subtype index = none) :
    ∃ error S', switchCreator junk newCreate g S = some (LxcErrno.portIsInUse.code, error, S') ∧
      S'.family = newCreate.family := by
  obtain ⟨b, hb, hiff⟩ := @lxcPortIsAnyWireConnected_eq gate .input gs h.gateClass _ h.inputs
    (lt_of_le_of_lt h.slots (by decide))
  have hb' : lxcPortIsAnyWireConnected gate.input.manager gate.input.slots
      gate.input.slots.length = some true := by
    cases b with
    | true => exact hb
    | false => exact absurd (hiff.mp rfl) hwired
  have hcall := @switchCreator_eq g S gate newCreate junk h.found
  rw [hb', Option.bind_some, if_pos rfl] at hcall
  exact ⟨_, _, hcall, rfl⟩

/-- With no wire at an input the gate gets the family, the creator and the ports. -/
theorem Sound.switch_unwired (h : S.Sound g gate cre gs)
    (hunwired : ∀ type subtype index, gate.boundAt .input type subtype index = none) :
    ∃ gate' gs' S', switchCreator junk newCreate g S = some (0, none, S') ∧
      S'.Sound g gate' newCreate gs' ∧ S'.currentCreator = some newCreate := by
  obtain ⟨b, hb, hiff⟩ := @lxcPortIsAnyWireConnected_eq gate .input gs h.gateClass _ h.inputs
    (lt_of_le_of_lt h.slots (by decide))
  rw [hiff.mpr hunwired] at hb
  obtain ⟨manager, gs', hmanager, hdeclared⟩ :=
    onCreatorUse_declared junk newCreate gate.input.manager
  refine ⟨_, gs', (S.setInputPorts g gate manager).setCreator newCreate, ?_,
    ⟨setInputPorts_gates manager, h.gateClass, h.slots, rfl, hdeclared⟩, rfl⟩
  have hb' : lxcPortIsAnyWireConnected gate.input.manager gate.input.slots
      gate.input.slots.length = some false := hb
  rw [switchCreator_eq h.found, hb', Option.bind_some, if_neg Bool.false_ne_true, hmanager,
    Option.map_some]

/-- A value that is refused, or one that leads to a switch of the creator. -/
theorem validator_cases (junk : Nat → Nat) (g : GateId) (value : Option String)
    (S : SocketaddressCreate) :
    ((∀ cre : CreateUtils, value = some cre.name → S.family = cre.family) ∧ ∃ ret error, ret ≠ 0 ∧
      sockaddressCreatePropertyValidator junk g .input value S = some (ret, error, S)) ∨
    ∃ newCreate : CreateUtils, value = some newCreate.name ∧ S.family ≠ newCreate.family ∧
      sockaddressCreatePropertyValidator junk g .input value S = switchCreator junk newCreate g S := by
  unfold sockaddressCreatePropertyValidator
  cases value with
  | none => exact .inl ⟨fun cre he => by (cases he), _, _, by decide, rfl⟩
  | some value =>
    dsimp only
    rcases find_creator value with ⟨newCreate, rfl, hfind⟩ | ⟨hnone, hfind⟩
    · rw [hfind]
      dsimp only
      by_cases hfamily : S.family = newCreate.family
      · rw [if_pos hfamily]
        refine .inl ⟨fun cre he => ?_, _, _, by decide, rfl⟩
        rw [← name_inj (Option.some.inj he)]
        exact hfamily
      · rw [if_neg hfamily]
        exact .inr ⟨newCreate, rfl, hfamily, rfl⟩
    · rw [hfind]
      exact .inl ⟨fun cre he => absurd (Option.some.inj he) (hnone cre), _, _, by decide, rfl⟩

theorem Sound.of_keepsPorts (h : S.Sound g gate cre gs) {W : World} (hW : KeepsPorts S.world W) :
    ∃ gate', { S with world := W }.Sound g gate' cre gs := by
  obtain ⟨gate', hg', hports⟩ := hW g gate h.found
  have hinput : gate'.input = gate.input := Gate.side_of_ports hports .input
  have hclass : gate'.gateClass = gate.gateClass := congrArg Prod.fst hports
  refine ⟨gate', hg', hclass.trans h.gateClass, ?_, h.family, ?_⟩
  · rw [hinput]
    exact h.slots
  · rw [hinput]
    exact h.inputs

/-- A write to a slot of an input. -/
theorem Sound.setSlot (h : S.Sound g gate cre gs) {type : Signal} {subtype : Int} {index : Nat}
    {c : Option Nat} {side : PortSide}
    (hside : gate.wire .input type subtype index c = some (ret, side)) :
    { S with world := S.world.setGate g (gate.setSide .input side) }.Sound g
      (gate.setSide .input side) cre gs := by
  obtain ⟨hmanager, hlen⟩ := Gate.wire_porti h.gateClass hside
  have hcount : lxcPortCount gate.input.manager = cre.ports.length := by
    rw [lxcPortCount, h.inputs.represents.maxSize, declaredNames, List.length_map]
  have hports := length_ports_le cre
  have hslots := h.slots
  refine ⟨Function.update_self .., h.gateClass, ?_, h.family, ?_⟩
  · have hlen' : side.slots.length ≤ max gate.input.slots.length
        (lxcPortCount gate.input.manager).toNat := hlen
    rw [hcount] at hlen'
    show side.slots.length ≤ 2
    omega
  · have hmanager' : side.manager = gate.input.manager := hmanager
    show Declared side.manager cre.ports gs
    rw [hmanager']
    exact h.inputs

section Event

variable {ex : ExecCall → World → Option World}

/-- The event leaves the ports of the gates as they are. -/
theorem notifyModified_keepsPorts (hex : KeepsWiring ex) {W W' : World}
    (hW : notifyModified ex g W = some W') : KeepsPorts W W' := by
  obtain ⟨gate, -, hW⟩ := Option.bind_eq_some_iff.mp hW
  split at hW
  · obtain rfl := Option.some.inj hW
    exact .refl W
  · have hsame := KeepsPorts.of_sameWiring (hex _ _ _ hW)
    exact hsame

/-- What is set when a value is refused. -/
theorem lxcGateSetPropertyValue_refused (hne : ret ≠ 0)
    (h : sockaddressCreatePropertyValidator junk g .input value S = some (ret, error, S')) :
    lxcGateSetPropertyValue ex junk g "family" value S = some (ret, error, S') := by
  unfold lxcGateSetPropertyValue genericPropOperation
  rw [if_pos rfl, h, Option.bind_eq_bind, Option.bind_some]
  dsimp only
  rw [if_neg hne]
  rfl

theorem lxcGateSetPropertyValue_accepted
    (h : sockaddressCreatePropertyValidator junk g .input value S = some (0, error, S')) :
    lxcGateSetPropertyValue ex junk g "family" value S =
      (notifyModified ex g S'.world).map fun W => (0, error, { S' with world := W }) := by
  unfold lxcGateSetPropertyValue genericPropOperation
  rw [if_pos rfl, h, Option.bind_eq_bind, Option.bind_some]
  dsimp only
  rw [if_pos rfl, Option.map_eq_bind]
  rfl

/-- A switch that finds no wire, with the event after it. -/
theorem Sound.set_switched (hex : KeepsWiring ex) (h : S.Sound g gate cre gs)
    (hunwired : ∀ type subtype index, gate.boundAt .input type subtype index = none)
    (hcall : sockaddressCreatePropertyValidator junk g .input value S =
      switchCreator junk newCreate g S)
    (hset : lxcGateSetPropertyValue ex junk g "family" value S = some (ret, error, S')) :
    ret = 0 ∧ S'.currentCreator = some newCreate ∧
      ∃ gate' gs', S'.Sound g gate' newCreate gs' := by
  obtain ⟨gate₁, gs₁, S₁, hswitch, hsound, hcreator⟩ := h.switch_unwired hunwired
  rw [lxcGateSetPropertyValue_accepted (hcall.trans hswitch)] at hset
  obtain ⟨W, hW, hres⟩ := Option.map_eq_some_iff.mp hset
  obtain ⟨rfl, hrest⟩ := Prod.mk.inj hres
  obtain ⟨-, rfl⟩ := Prod.mk.inj hrest
  obtain ⟨gate₂, h₂⟩ := hsound.of_keepsPorts (notifyModified_keepsPorts hex hW)
  exact ⟨rfl, hcreator, gate₂, gs₁, h₂⟩

/-- Setting the property is atomic when the switch that it asks for finds no wire. -/
theorem Sound.atomic_iff (hex : KeepsWiring ex) (h : S.Sound g gate cre gs) (op : Op) :
    S.Atomic ex g op ↔ S.FreeForSwitch g op := by
  cases op with
  | wireInput type subtype wire index => exact Iff.rfl
  | setFamily junk value =>
    unfold Atomic FreeForSwitch
    rcases validator_cases junk g value S with ⟨hcre, ret, error, hne, hcall⟩ |
      ⟨newCreate, rfl, hfamily, hcall⟩
    · refine iff_of_true (fun ret' error' S' hset => ?_) fun cre' _ he hne' => ?_
      · rw [lxcGateSetPropertyValue_refused hne hcall] at hset
        obtain ⟨rfl, hrest⟩ := Prod.mk.inj (Option.some.inj hset)
        obtain ⟨-, rfl⟩ := Prod.mk.inj hrest
        exact ⟨fun _ => ⟨rfl, rfl, rfl⟩, fun hz => absurd hz hne⟩
      · exact absurd (hcre cre' he) hne'
    · by_cases hfree : ∀ type subtype index, gate.boundAt .input type subtype index = none
      · refine iff_of_true (fun ret' error' S' hset => ?_) fun _ _ _ _ gate' hg' => ?_
        · obtain ⟨hz, hcreator, gate₁, gs₁, h₁⟩ := h.set_switched hex hfree hcall hset
          exact ⟨fun hne => absurd hz hne, fun _ => ⟨newCreate, mem_implementedAddressCreators _,
            rfl, h₁.family, hcreator, h₁.hasInputs⟩⟩
        · obtain rfl := Option.some.inj (h.found.symm.trans hg')
          exact hfree
      · refine iff_of_false (fun hatomic => ?_) fun hop => ?_
        · obtain ⟨error, S', hswitch, hS'⟩ := h.switch_wired hfree
          have hne : LxcErrno.portIsInUse.code ≠ 0 := by decide
          have hset := @lxcGateSetPropertyValue_refused g S S' junk _ _ error ex hne
            (hcall.trans hswitch)
          have hkeep := ((hatomic _ _ _ hset).1 hne).1
          exact hfamily (hkeep.symm.trans hS')
        · exact hfree (hop newCreate (mem_implementedAddressCreators _) rfl hfamily gate h.found)

/-- A step that is atomic leaves the inputs those of the family. -/
theorem Sound.step (hex : KeepsWiring ex) (h : S.Sound g gate cre gs) {op : Op}
    (hfree : S.FreeForSwitch g op) (hstep : step ex g S op = some S') :
    ∃ gate' cre' gs', S'.Sound g gate' cre' gs' := by
  cases op with
  | wireInput type subtype wire index =>
    obtain ⟨⟨r, W⟩, hwire, hS⟩ := Option.bind_eq_some_iff.mp hstep
    obtain rfl := Option.some.inj hS
    have hcall : lxcWireGate ex .input type subtype wire g index S.world = some (r, W) := hwire
    rcases lxcWireGate_writes hex hcall with rfl | ⟨gate', sig, sub, i, c, ret, side, hg', hside, hW⟩
    · exact ⟨gate, cre, gs, h⟩
    obtain rfl := Option.some.inj (h.found.symm.trans hg')
    obtain ⟨gate₁, h₁⟩ := (h.setSlot hside).of_keepsPorts hW
    exact ⟨gate₁, cre, gs, h₁⟩
  | setFamily junk value =>
    obtain ⟨⟨ret, error, S₁⟩, hset, hS⟩ := Option.bind_eq_some_iff.mp hstep
    obtain rfl := Option.some.inj hS
    rcases validator_cases junk g value S with ⟨-, ret', error', hne, hcall⟩ |
      ⟨newCreate, rfl, hfamily, hcall⟩
    · rw [lxcGateSetPropertyValue_refused hne hcall] at hset
      obtain ⟨-, hrest⟩ := Prod.mk.inj (Option.some.inj hset)
      obtain ⟨-, rfl⟩ := Prod.mk.inj hrest
      exact ⟨gate, cre, gs, h⟩
    · have hunwired := hfree newCreate (mem_implementedAddressCreators _) rfl hfamily gate h.found
      obtain ⟨-, -, gate₁, gs₁, h₁⟩ := h.set_switched hex hunwired hcall hset
      exact ⟨gate₁, newCreate, gs₁, h₁⟩

end Event

end Set

theorem onNewGate_keeps {junk : Nat → Nat} {gate gate' : Gate} (h : onNewGate junk gate = some gate') :
    gate'.gateClass = gate.gateClass ∧ gate'.input = gate.input := by
  unfold onNewGate at h
  rw [Option.bind_eq_bind, Option.bind_eq_some_iff] at h
  obtain ⟨outputPorts, -, h⟩ := h
  obtain rfl := Option.some.inj h
  exact ⟨rfl, rfl⟩

/-- The default of the family is the one that zeroed memory has. -/
theorem lxcGenericPortiPropbGateCreate_sound {ex : ExecCall → World → Option World}
    {junk : Nat → Nat} {g : GateId} {W : World} {S : SocketaddressCreate} (h : lxcGenericPortiPropbGateCreate ex junk g W = some S) :
    ∃ gate, S.Sound g gate .unspec [] := by
  unfold lxcGenericPortiPropbGateCreate at h
  rw [Option.bind_eq_bind, Option.bind_eq_some_iff] at h
  obtain ⟨gate, hgate, h⟩ := h
  obtain ⟨hclass, hinput⟩ := onNewGate_keeps hgate
  dsimp only at h
  rw [Option.bind_eq_bind, Option.bind_eq_some_iff] at h
  obtain ⟨⟨ret, error, S₁⟩, hset, h⟩ := h
  obtain rfl := Option.some.inj h
  have hne : LxcErrno.nothingChanged.code ≠ 0 := by decide
  rw [lxcGateSetPropertyValue_refused hne rfl] at hset
  obtain ⟨-, hrest⟩ := Prod.mk.inj (Option.some.inj hset)
  obtain ⟨-, rfl⟩ := Prod.mk.inj hrest
  refine ⟨gate, Function.update_self .., hclass, ?_, rfl, ?_⟩
  · rw [hinput]
    exact Nat.zero_le 2
  · rw [hinput]
    exact declared_zeroed

end SocketaddressCreate

open SocketaddressCreate

/-- In every run from a new gate, all sets of the family are atomic and the inputs are those of the
    family in every state, exactly when no step of the run sets another family that is implemented
    while an input is wired. -/
theorem family_atomic_iff {ex : ExecCall → World → Option World} (hex : KeepsWiring ex)
    {junk : Nat → Nat} {g : GateId} {W : World} {S : SocketaddressCreate}
    (hcreate : lxcGenericPortiPropbGateCreate ex junk g W = some S) (ops : List Op) :
    Run.Meets (step ex g) (Atomic ex g) S ops ∧ Run.Always (step ex g) (InStep g) S ops ↔
      Run.Meets (step ex g) (FreeForSwitch g) S ops := by
  let Inv : SocketaddressCreate → Prop := fun S => ∃ gate cre gs, S.Sound g gate cre gs
  have hatomic : ∀ S op, Inv S → (S.Atomic ex g op ↔ S.FreeForSwitch g op) := by
    rintro S op ⟨gate, cre, gs, h⟩
    exact h.atomic_iff hex op
  have hkeep : ∀ S op S', Inv S → S.FreeForSwitch g op → step ex g S op = some S' → Inv S' := by
    rintro S op S' ⟨gate, cre, gs, h⟩ hfree hstep
    exact h.step hex hfree hstep
  have hinv : ∀ S, Inv S → S.InStep g := by
    rintro S ⟨gate, cre, gs, h⟩
    exact h.inStep
  have hstart : Inv S := by
    obtain ⟨gate, h⟩ := lxcGenericPortiPropbGateCreate_sound hcreate
    exact ⟨gate, _, _, h⟩
  have hiff := @Run.meets_iff _ _ (step ex g) (Atomic ex g) (FreeForSwitch g) Inv hatomic
    (fun S op S' hS hop => hkeep S op S' hS ((hatomic S op hS).mp hop)) ops S hstart
  exact ⟨fun h => hiff.mp h.1, fun h => ⟨hiff.mpr h, h.always Inv hinv hkeep hstart⟩⟩

/-- A string wire, and no gate yet. -/
def stringWireWorld : World :=
  { gates := fun _ => none
    wires := fun w =>
      if w = 0 then some { type := .string, subtype := 0, currentValue := none, refDes := some "host",
                           drivers := [], drivens := [], handler := .directPropagateValue }
      else none
    tokenports := fun _ => none
    nextWire := 1, nextTokenport := 0, nextValue := 0, loopBreaker := none, driven := [] }

/-- Execution behaviors that do nothing. -/
def noExecution : ExecCall → World → Option World := fun _ W => some W

theorem noExecution_keepsWiring : KeepsWiring noExecution := by
  intro c W W' h
  obtain rfl := Option.some.inj h
  exact .refl W

/-- The family INET, a wire to the input `address`, and the family UNSPEC. -/
def switchWired : List Op :=
  [.setFamily (fun _ => 0) "INET", .wireInput (some .string) 0 (some 0) 0,
    .setFamily (fun _ => 0) "UNSPEC"]

theorem family_atomic_iff_switchWired : ∃ S,
    lxcGenericPortiPropbGateCreate noExecution (fun _ => 0) 0 stringWireWorld = some S ∧
    (Run.Meets (step noExecution 0) (Atomic noExecution 0) S switchWired ∧
        Run.Always (step noExecution 0) (InStep 0) S switchWired ↔
      Run.Meets (step noExecution 0) (FreeForSwitch 0) S switchWired) :=
  ⟨_, rfl, @family_atomic_iff noExecution noExecution_keepsWiring (fun _ => 0) 0 stringWireWorld _
    rfl switchWired⟩

/-- The last set is refused, but the family is another one then. -/
theorem family_not_atomic : ∃ S S₁ error S₂,
    lxcGenericPortiPropbGateCreate noExecution (fun _ => 0) 0 stringWireWorld = some S ∧
    Run.run (step noExecution 0) S (switchWired.take 2) = some S₁ ∧
    lxcGateSetPropertyValue noExecution (fun _ => 0) 0 "family" "UNSPEC" S₁ =
      some (LxcErrno.portIsInUse.code, error, S₂) ∧
    S₁.family = CreateUtils.inet.family ∧ S₂.family = CreateUtils.unspec.family ∧
    S₂.inputPorts 0 = S₁.inputPorts 0 ∧
    ¬ (Run.Meets (step noExecution 0) (Atomic noExecution 0) S switchWired ∧
      Run.Always (step noExecution 0) (InStep 0) S switchWired) := by
  refine ⟨_, _, _, _, rfl, rfl, rfl, rfl, rfl, rfl, ?_⟩
  rintro ⟨hatomic, -⟩
  have hset := ((hatomic.2 _ rfl).2 _ rfl).1 _ _ _ rfl
  exact absurd (hset.1 (by decide)).1 (by decide)

end LogxControll
