/-
  `lxc_portb_republish_internal_value` (`core/utils/lxc_utils.c`): an output that was wired after
  its value was computed gets the value the gate has stored for it.

  The absolute index of the output is used as an index into the array of the inputs. So the wire of
  an input is driven, or none, and the function is right only when it has nothing to republish
  (`republishes_iff`).
-/
import LogxControll.Core.Execution
import LogxControll.Wiring.Declarations

namespace LogxControll

/-- `lxc_portb_get_absindex` -/
def lxcPortbGetAbsindex (gate : Gate) (dir : Direction) (type : Signal) (subtype : Int)
    (index : Nat) : Option Int :=
  lxcPortGetAbsindex (gate.side dir).manager type subtype index

/-- The arguments of `lxc_drive_wire_value` after the gate. -/
structure DriveCall where
  outIndex : Nat
  wire : WireId
  value : Option LxcValue
  deriving DecidableEq, Repr

/-- The wire that gets a value; the call does nothing when the value is NULL. -/
def DriveCall.drives (c : DriveCall) : Option (WireId × LxcValue) :=
  c.value.map fun value => (c.wire, value)

/-- The call `lxc_portb_republish_internal_value` ends with, unless it returns before. `access` is
    `access_internal_value` on the gate: NULL, or where the gate keeps the value for the port. -/
def republishCall (access : Nat → Option (Option LxcValue)) (instance_ : GateId) (signal : Signal)
    (subtype : Int) (index : Nat) (W : World) : Option (Option DriveCall) := do
  let gate ← W.gates instance_
  let abs ← lxcPortbGetAbsindex gate .output signal subtype index
  if abs < 0 then
    return none
  else
    match access abs.toNat with
    | none => return none
    | some value => do
      match ← gate.input.slots[abs.toNat]? with
      | none => return none
      | some out =>
        let tp ← W.tokenports out
        return some { outIndex := index, wire := tp.owner, value := value }

/-- `lxc_portb_republish_internal_value` -/
def lxcPortbRepublishInternalValue (call : ExecCall → World → Option World)
    (access : Nat → Option (Option LxcValue)) (instance_ : GateId) (signal : Signal) (subtype : Int)
    (index : Nat) (W : World) : Option World := do
  match ← republishCall access instance_ signal subtype index W with
  | none => return W
  | some c => lxcDriveWireValue call instance_ c.wire c.value W

/-- `access_internal_variable` of `fd_open.c`, `socket_create.c` and `socket_bring_up.c`: two
    constants have a value. They are what the additions of the two outputs returned. -/
def accessInternalVariable (outFd outErrno : Int) (fd errno : Option LxcValue) (wireAbs : Nat) :
    Option (Option LxcValue) :=
  if (wireAbs : Int) = outFd then some fd
  else if (wireAbs : Int) = outErrno then some errno
  else none

/-- What is driven is written to the wire, and without it the memory stays as it is. -/
theorem lxcPortbRepublishInternalValue_eq {access : Nat → Option (Option LxcValue)} {g : GateId}
    {signal : Signal} {subtype : Int} {index : Nat} {W : World} {c : Option DriveCall}
    (hc : republishCall access g signal subtype index W = some c)
    (call : ExecCall → World → Option World) :
    lxcPortbRepublishInternalValue call access g signal subtype index W =
      match c.bind DriveCall.drives with
      | none => some W
      | some (w, value) => writeNewValue call w value (W.note g value) := by
  unfold lxcPortbRepublishInternalValue
  rw [hc, Option.bind_eq_bind, Option.bind_some]
  cases c with
  | none => rfl
  | some c =>
    unfold Option.bind DriveCall.drives
    cases hv : c.value with
    | none => simp only [hv, lxcDriveWireValue, Option.map_none]
    | some value => simp only [hv, lxcDriveWireValue, Option.map_some]

/-- The wire of the output and the value stored for it, when there are both. -/
def storedForOutput (gate : Gate) (access : Nat → Option (Option LxcValue)) (signal : Signal)
    (subtype : Int) (index abs : Nat) : Option (WireId × LxcValue) := do
  let w ← gate.boundAt .output signal subtype index
  let value ← (access abs).join
  return (w, value)

/-- The wire is bound to an input of the gate. -/
def World.BoundToInput (W : World) (gate : Gate) (w : WireId) : Prop :=
  ∃ type subtype index p, gate.boundAt .input type subtype index = some p ∧
    slotOwner W .input p = some w

/-- The output gets what is stored for it, and no input is driven. -/
structure Republishes (W : World) (gate : Gate) (access : Nat → Option (Option LxcValue))
    (signal : Signal) (subtype : Int) (index abs : Nat) (c : Option DriveCall) : Prop where
  exact : c.bind DriveCall.drives = storedForOutput gate access signal subtype index abs
  notInput : ∀ w value, c.bind DriveCall.drives = some (w, value) → ¬ W.BoundToInput gate w

section Republish

variable {W : World} {g : GateId} {gate : Gate} {signal : Signal} {subtype : Int} {index a : Nat}
  {access : Nat → Option (Option LxcValue)}

/-- Every slot of the inputs of a sound gate with its ports in the behavior is the slot of a port. -/
theorem Gate.Sound.boundAt_of_slot (h : gate.Sound) (hc : gate.gateClass = .portb) {dir : Direction}
    {c : Nat} (hslot : (gate.side dir).slots[a]? = some (some c)) :
    ∃ type subtype index, gate.boundAt dir type subtype index = some c := by
  obtain ⟨gs, names, hs⟩ := h.side dir
  have hlt : a < names.length := by
    rw [← hs.portb hc]
    exact (List.getElem?_eq_some_iff.mp hslot).1
  have hname : ∃ s, names[a]? = some (PortName.chars s) := by
    rw [List.getElem?_eq_getElem hlt]
    cases hn : names[a] with
    | empty => exact absurd (hn ▸ List.getElem_mem hlt) hs.noEmpty
    | chars s => exact ⟨s, rfl⟩
  obtain ⟨key, i, hi⟩ := (hs.represents.indexed.live a).mpr hname
  refine ⟨key.signal, key.subtype, i, ?_⟩
  rw [Gate.boundAt_of_sound h.generic hs, hi, Option.bind_some, slotAt, hslot]
  rfl

/-- The access to the stored value decides whether the array of the inputs is read. -/
theorem republishCall_eq (hg : W.gates g = some gate)
    (ha : lxcPortbGetAbsindex gate .output signal subtype index = some (a : Int)) :
    republishCall access g signal subtype index W =
      match access a with
      | none => some none
      | some value => gate.input.slots[a]?.bind fun slot =>
          match slot with
          | none => some none
          | some out => (W.tokenports out).map fun tp => some ⟨index, tp.owner, value⟩ := by
  have hneg : ¬ (a : Int) < 0 := by omega
  unfold republishCall
  rw [hg, Option.bind_eq_bind, Option.bind_some, ha, Option.bind_eq_bind, Option.bind_some,
    if_neg hneg, Int.toNat_natCast]
  cases access a with
  | none => rfl
  | some value =>
    dsimp only
    congr 1
    funext slot
    cases slot with
    | none => rfl
    | some out => exact Option.map_eq_bind.symm

/-- Past the access function, a slot that cannot be read. -/
theorem republishCall_out_of_range (hg : W.gates g = some gate)
    (ha : lxcPortbGetAbsindex gate .output signal subtype index = some (a : Int))
    {value : Option LxcValue} (haccess : access a = some value)
    (hlen : gate.input.slots.length ≤ a) :
    republishCall access g signal subtype index W = none := by
  rw [republishCall_eq hg ha, haccess]
  dsimp only
  rw [List.getElem?_eq_none hlen, Option.bind_none]

theorem republishCall_free (hg : W.gates g = some gate)
    (ha : lxcPortbGetAbsindex gate .output signal subtype index = some (a : Int))
    {value : Option LxcValue} (haccess : access a = some value)
    (hslot : gate.input.slots[a]? = some none) :
    republishCall access g signal subtype index W = some none := by
  rw [republishCall_eq hg ha, haccess]
  dsimp only
  rw [hslot, Option.bind_some]

theorem republishCall_wired (hg : W.gates g = some gate)
    (ha : lxcPortbGetAbsindex gate .output signal subtype index = some (a : Int))
    {value : Option LxcValue} (haccess : access a = some value) {p : TokenportId} {tp : Tokenport}
    (hslot : gate.input.slots[a]? = some (some p)) (htp : W.tokenports p = some tp) :
    republishCall access g signal subtype index W = some (some ⟨index, tp.owner, value⟩) := by
  rw [republishCall_eq hg ha, haccess]
  dsimp only
  rw [hslot, Option.bind_some]
  dsimp only
  rw [htp, Option.map_some]

theorem storedForOutput_eq_none :
    storedForOutput gate access signal subtype index a = none ↔
      (access a).join = none ∨ gate.boundAt .output signal subtype index = none := by
  unfold storedForOutput
  cases gate.boundAt .output signal subtype index with
  | none => exact iff_of_true rfl (.inr rfl)
  | some w =>
    cases (access a).join with
    | none => exact iff_of_true rfl (.inl rfl)
    | some value =>
      refine iff_of_false (fun h => by cases h) ?_
      rintro (h | h) <;> cases h

/-- Driving nothing is right when there is nothing to republish. -/
theorem republishes_of_silent {c : Option DriveCall} (hc : c.bind DriveCall.drives = none) :
    Republishes W gate access signal subtype index a c ↔
      (access a).join = none ∨ gate.boundAt .output signal subtype index = none := by
  rw [← storedForOutput_eq_none]
  refine ⟨fun h => h.exact.symm.trans hc, fun h => ⟨hc.trans h.symm, fun w value hw => ?_⟩⟩
  rw [hc] at hw
  cases hw

/-- The wire behind a slot of the inputs is bound to an input. -/
theorem Gate.Sound.boundToInput (h : gate.Sound) (hc : gate.gateClass = .portb) {p : TokenportId}
    {tp : Tokenport} (hslot : gate.input.slots[a]? = some (some p))
    (htp : W.tokenports p = some tp) : W.BoundToInput gate tp.owner := by
  obtain ⟨type, subtype, index, hbound⟩ := @boundAt_of_slot gate a h hc .input p hslot
  refine ⟨type, subtype, index, p, hbound, ?_⟩
  unfold slotOwner
  rw [htp]
  rfl

/-- A value on the wire of an input is wrong. -/
theorem Gate.Sound.republishes_wired_iff (h : gate.Sound) (hc : gate.gateClass = .portb)
    {p : TokenportId} {tp : Tokenport} (hslot : gate.input.slots[a]? = some (some p))
    (htp : W.tokenports p = some tp) {value : Option LxcValue} (haccess : access a = some value) :
    Republishes W gate access signal subtype index a (some ⟨index, tp.owner, value⟩) ↔
      value = none := by
  cases value with
  | none =>
    have hjoin : (access a).join = none := by rw [haccess]; rfl
    exact iff_of_true ((republishes_of_silent rfl).mpr (.inl hjoin)) rfl
  | some value =>
    refine iff_of_false (fun hr => ?_) (Option.some_ne_none value)
    exact hr.notInput _ _ rfl (h.boundToInput hc hslot htp)

end Republish

/-- When the access function has no place for a value, or its place holds no value, or neither the
    output nor the input with its number is wired. -/
def NothingToRepublish (gate : Gate) (access : Nat → Option (Option LxcValue)) (signal : Signal)
    (subtype : Int) (index abs : Nat) : Prop :=
  access abs = none ∨ abs < gate.input.slots.length ∧ (access abs = some none ∨
    slotAt gate.input.slots abs = none ∧ gate.boundAt .output signal subtype index = none)

theorem nothingToRepublish_iff {gate : Gate} {access : Nat → Option (Option LxcValue)}
    {signal : Signal} {subtype : Int} {index a : Nat} {value : Option LxcValue}
    (haccess : access a = some value) :
    NothingToRepublish gate access signal subtype index a ↔
      a < gate.input.slots.length ∧ (value = none ∨
        slotAt gate.input.slots a = none ∧ gate.boundAt .output signal subtype index = none) := by
  unfold NothingToRepublish
  rw [haccess, Option.some.injEq]
  exact or_iff_right (Option.some_ne_none value)

/-- For a gate with its ports in the behavior and an output `a` of it: the value stored for the
    output is republished on the output's wire, and on no wire of an input, only when there is
    nothing to republish. -/
theorem republishes_iff {W : World} {g : GateId} {gate : Gate} (hg : W.gates g = some gate)
    (hportb : gate.gateClass = .portb) (hsound : gate.Sound)
    (hlive : ∀ p, some p ∈ gate.input.slots → ∃ tp, W.tokenports p = some tp) {signal : Signal}
    {subtype : Int} {index a : Nat}
    (ha : lxcPortbGetAbsindex gate .output signal subtype index = some (a : Int))
    (access : Nat → Option (Option LxcValue)) :
    (∃ c, republishCall access g signal subtype index W = some c ∧
        Republishes W gate access signal subtype index a c) ↔
      NothingToRepublish gate access signal subtype index a := by
  cases haccess : access a with
  | none =>
    have hcall : republishCall access g signal subtype index W = some none := by
      rw [republishCall_eq hg ha, haccess]
    have hjoin : (access a).join = none := by rw [haccess]; rfl
    exact iff_of_true ⟨none, hcall, (republishes_of_silent rfl).mpr (.inl hjoin)⟩ (.inl haccess)
  | some value =>
    rw [nothingToRepublish_iff haccess]
    by_cases hin : a < gate.input.slots.length
    swap
    · rw [republishCall_out_of_range hg ha haccess (Nat.le_of_not_lt hin)]
      exact iff_of_false (fun ⟨c, hc, _⟩ => by cases hc) fun h => hin h.1
    have hslot := slotAt_eq hin
    cases hslots : slotAt gate.input.slots a with
    | none =>
      rw [hslots] at hslot
      have hsilent := @republishes_of_silent W gate signal subtype index a access none rfl
      rw [haccess, Option.join_some] at hsilent
      simp only [republishCall_free hg ha haccess hslot, Option.some.injEq, exists_eq_left', hsilent,
        hin, true_and]
    | some p =>
      rw [hslots] at hslot
      obtain ⟨tp, htp⟩ := hlive p (List.mem_of_getElem? hslot)
      have hwired := @Gate.Sound.republishes_wired_iff W gate signal subtype index a access hsound
        hportb p tp hslot htp value haccess
      have hne : ¬ (some p = none ∧ gate.boundAt .output signal subtype index = none) :=
        fun h => Option.some_ne_none p h.1
      simp only [republishCall_wired hg ha haccess hslot htp, Option.some.injEq, exists_eq_left',
        hwired, hin, true_and, or_iff_left hne]

/-! ## The gate of `socket_create.c` -/

/-- The inputs that `socket_create_libop` adds. -/
def socketCreateInputs : List PortDefinition :=
  [⟨"AF_", .int, 0⟩, ⟨"SOCK_", .int, 0⟩, ⟨"PF_", .int, 0⟩, ⟨"new", .pulse, 0⟩]

/-- The outputs that it adds. -/
def socketCreateOutputs : List PortDefinition := [⟨"socket fd", .int, 0⟩, ⟨"errno", .int, 0⟩]

/-- `IN_AF` and the other constants of the gate. -/
structure SocketCreateConstants where
  inAF : Int
  inSOCK : Int
  inPF : Int
  inNew : Int
  outSocketFd : Int
  outErrno : Int
  deriving DecidableEq, Repr

/-- What `socket_create_libop` makes of `posix_socket_create` before the library is loaded, and what
    it keeps of the results of the additions. -/
def socketCreateLibop (junk : Nat → Nat) : Option (PortbBehavior × SocketCreateConstants) := do
  let (ins, inputPorts) ← addNewPorts junk lxcPortInitPortManagerFactory socketCreateInputs
  let (outs, outputPorts) ← addNewPorts junk lxcPortInitPortManagerFactory socketCreateOutputs
  let [inAF, inSOCK, inPF, inNew] := ins | none
  let [outSocketFd, outErrno] := outs | none
  return ({ execute := .other, inputPorts := inputPorts, outputPorts := outputPorts },
    ⟨inAF, inSOCK, inPF, inNew, outSocketFd, outErrno⟩)

/-- The constants are one more than the absolute indices of the ports. -/
theorem socketCreateLibop_declared (junk : Nat → Nat) : ∃ b gs gs',
    socketCreateLibop junk = some (b, ⟨1, 2, 3, 4, 1, 2⟩) ∧
      Declared b.inputPorts socketCreateInputs gs ∧
      Declared b.outputPorts socketCreateOutputs gs' := by
  obtain ⟨ins, gs, hins, hgs⟩ := addNewPorts_declared junk socketCreateInputs declared_init
  obtain ⟨outs, gs', houts, hgs'⟩ := addNewPorts_declared junk socketCreateOutputs declared_init
  refine ⟨⟨.other, ins, outs⟩, gs, gs', ?_, hgs, hgs'⟩
  rw [socketCreateLibop, hins, Option.bind_eq_bind, Option.bind_some, houts]
  rfl

/-- An instance with its input `SOCK_` on wire 0 and its output `errno` on wire 1. -/
def wiredSocketCreate (b : PortbBehavior) : Gate :=
  { lxcGenericPortbGateCreate b with
    input := { manager := b.inputPorts, slots := [none, some 0, none, none] }
    output := { manager := b.outputPorts, slots := [none, some 1] } }

/-- The gate, the wire `sock` to its input `SOCK_` and the wire `errno` from its output of that
    name. -/
def wiredSocketCreateWorld (b : PortbBehavior) : World :=
  { gates := fun g => if g = 0 then some (wiredSocketCreate b) else none
    wires := fun w =>
      if w = 0 then some { type := .int, subtype := 0, currentValue := none, refDes := some "sock",
                           drivers := [], drivens := [some 0], handler := .directPropagateValue }
      else if w = 1 then some { type := .int, subtype := 0, currentValue := none,
                                refDes := some "errno", drivers := [some 1], drivens := [],
                                handler := .directPropagateValue }
      else none
    tokenports := fun p => if p < 2 then some (Tokenport.zeroed p 0 0) else none
    nextWire := 2, nextTokenport := 2, nextValue := 3, loopBreaker := none, driven := [] }

/-- The file descriptor the gate has opened. -/
def socketFd : LxcValue := { id := 2, type := .int, subtypeInfo := 0, data := .int 5 }

theorem wiredSocketCreate_sound {b : PortbBehavior} {gs gs' : Groups}
    (hin : Declared b.inputPorts socketCreateInputs gs)
    (hout : Declared b.outputPorts socketCreateOutputs gs') : (wiredSocketCreate b).Sound where
  generic := .inl rfl
  side := by
    intro dir
    cases dir with
    | input =>
      exact ⟨gs, _, hin.represents, not_mem_declaredNames _, fun _ => rfl, fun h => by cases h⟩
    | output =>
      exact ⟨gs', _, hout.represents, not_mem_declaredNames _, fun _ => rfl, fun h => by cases h⟩

/-- What the gate keeps for its outputs while `fd` is open. -/
def SocketCreateConstants.access (c : SocketCreateConstants) (fd : Option LxcValue) :
    Nat → Option (Option LxcValue) := accessInternalVariable c.outSocketFd c.outErrno fd none

/-- The descriptor of an open socket, which is stored for the output `errno`, goes to the wire that
    carries the type of the socket to open. -/
theorem republishes_not : ∃ b c, socketCreateLibop (fun _ => 0) = some (b, c) ∧
    lxcPortbGetAbsindex (wiredSocketCreate b) .output .int 0 1 = some 1 ∧
    republishCall (c.access socketFd) 0 .int 0 1 (wiredSocketCreateWorld b) =
      some (some ⟨1, 0, some socketFd⟩) ∧
    storedForOutput (wiredSocketCreate b) (c.access socketFd) .int 0 1 1 = some (1, socketFd) ∧
    ¬ ∃ d, republishCall (c.access socketFd) 0 .int 0 1 (wiredSocketCreateWorld b) = some d ∧
      Republishes (wiredSocketCreateWorld b) (wiredSocketCreate b) (c.access socketFd) .int 0 1 1
        d := by
  refine ⟨_, _, rfl, rfl, rfl, rfl, ?_⟩
  rintro ⟨d, hd, h⟩
  obtain rfl := Option.some.inj hd
  have hexact := h.exact
  exact absurd hexact (by decide)

/-- Before a socket is open there is nothing to republish. -/
theorem republishes_iff_socketCreate : ∃ b c, socketCreateLibop (fun _ => 0) = some (b, c) ∧
    ((∃ d, republishCall (c.access none) 0 .int 0 1 (wiredSocketCreateWorld b) = some d ∧
      Republishes (wiredSocketCreateWorld b) (wiredSocketCreate b) (c.access none) .int 0 1 1 d) ↔
      NothingToRepublish (wiredSocketCreate b) (c.access none) .int 0 1 1) ∧
    NothingToRepublish (wiredSocketCreate b) (c.access none) .int 0 1 1 := by
  obtain ⟨b, gs, gs', hb, hin, hout⟩ := socketCreateLibop_declared fun _ => 0
  have habs : lxcPortbGetAbsindex (wiredSocketCreate b) .output .int 0 1 = some ((1 : Nat) : Int) := by
    have hget := @Declared.absList_getElem? b.outputPorts socketCreateOutputs gs' hout 1 _ rfl
    exact (hout.represents.lxcPortGetAbsindex_eq .int 0 1).trans
      (congrArg some (absAt_of_getElem? hget))
  refine ⟨b, _, hb, republishes_iff rfl rfl (wiredSocketCreate_sound hin hout) (fun p hp => ?_)
    habs _, .inr ⟨Nat.one_lt_succ_succ 2, .inl rfl⟩⟩
  obtain rfl : p = 0 := by simpa [wiredSocketCreate] using hp
  exact ⟨_, rfl⟩

end LogxControll
