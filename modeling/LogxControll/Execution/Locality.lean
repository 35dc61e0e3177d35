/-
  A circuit of sorter boxes in a larger memory.

  What lies from some addresses on (`World.part`) is closed when no port leads out of it
  (`Apart`). Executing its gates does in the whole memory what it does when the part is alone
  (`Local.callBehavior`), so results on networks hold for circuits that share the memory with
  others.
-/
import LogxControll.Execution.SorterGates
import LogxControll.Wiring.NamedWires

namespace LogxControll

open Refinement

/-- The gates, wires and tokenports from the addresses of `base` on; no loop breaker is at work
    there. -/
def World.part (base : Base) (W : World) : World :=
  { W with
    gates := fun g => if base.gate ≤ g then W.gates g else none
    wires := fun w => if base.wire ≤ w then W.wires w else none
    tokenports := fun p => if base.tokenport ≤ p then W.tokenports p else none
    loopBreaker := none }

section Part

variable {base : Base} {W : World}

theorem World.part_gates {g : GateId} (h : base.gate ≤ g) : (W.part base).gates g = W.gates g :=
  if_pos h

theorem World.part_wires {w : WireId} (h : base.wire ≤ w) : (W.part base).wires w = W.wires w :=
  if_pos h

theorem World.part_tokenports {p : TokenportId} (h : base.tokenport ≤ p) :
    (W.part base).tokenports p = W.tokenports p := if_pos h

theorem World.part_gates_some {g : GateId} {gate : Gate} :
    (W.part base).gates g = some gate ↔ base.gate ≤ g ∧ W.gates g = some gate := by
  simp [World.part]

theorem World.part_wires_some {w : WireId} {wire : Wire} :
    (W.part base).wires w = some wire ↔ base.wire ≤ w ∧ W.wires w = some wire := by
  simp [World.part]

theorem World.part_tokenports_some {p : TokenportId} {tp : Tokenport} :
    (W.part base).tokenports p = some tp ↔ base.tokenport ≤ p ∧ W.tokenports p = some tp := by
  simp [World.part]

theorem World.part_setWire {w : WireId} (h : base.wire ≤ w) (wire : Wire) :
    (W.setWire w wire).part base = (W.part base).setWire w wire := by
  unfold World.part World.setWire
  congr 1
  funext w'
  by_cases he : w' = w
  · subst he
    simp [h]
  · simp [he]

theorem World.part_note (instance_ : Option GateId) (value : LxcValue) :
    (W.note instance_ value).part base = (W.part base).note instance_ value := by
  cases instance_ <;> rfl

end Part

/-- The part holds enabled sorter boxes and direct wires, and no port of theirs leads out of it. -/
structure Apart (base : Base) (W : World) : Prop where
  sorter : ∀ g gate, base.gate ≤ g → W.gates g = some gate →
    gate.IsSorter ∧ gate.executionBehavior = some .default
  input : ∀ g gate p, base.gate ≤ g → W.gates g = some gate → some p ∈ gate.input.slots →
    base.tokenport ≤ p
  output : ∀ g gate w, base.gate ≤ g → W.gates g = some gate → some w ∈ gate.output.slots →
    base.wire ≤ w
  tokenport : ∀ p tp, base.tokenport ≤ p → W.tokenports p = some tp →
    base.wire ≤ tp.owner ∧ base.gate ≤ tp.gate
  wire : ∀ w wire, base.wire ≤ w → W.wires w = some wire →
    wire.handler = .directPropagateValue ∧ ∀ p, some p ∈ wire.drivens → base.tokenport ≤ p

/-- Executing in the whole memory is executing in the part. -/
abbrev Local (base : Base) (m : World → Option World) : Prop :=
  Refines (Apart base) (World.part base) m m

namespace Local

variable {base : Base} {call : ExecCall → World → Option World}

/-! ## Reading -/

theorem readGate {g : GateId} (hg : base.gate ≤ g) {k : Gate → World → Option World}
    (hk : ∀ W gate, Apart base W → W.gates g = some gate → Local base (k gate)) :
    Local base fun W => (W.gates g).bind fun gate => k gate W :=
  Refines.read (f := fun W : World => W.gates g) (fun _ _ => World.part_gates hg) hk

theorem readWire {w : WireId} (hw : base.wire ≤ w) {k : Wire → World → Option World}
    (hk : ∀ W wire, Apart base W → W.wires w = some wire → Local base (k wire)) :
    Local base fun W => (W.wires w).bind fun wire => k wire W :=
  Refines.read (f := fun W : World => W.wires w) (fun _ _ => World.part_wires hw) hk

theorem readTokenport {p : TokenportId} (hp : base.tokenport ≤ p)
    {k : Tokenport → World → Option World}
    (hk : ∀ W tp, Apart base W → W.tokenports p = some tp → Local base (k tp)) :
    Local base fun W => (W.tokenports p).bind fun tp => k tp W :=
  Refines.read (f := fun W : World => W.tokenports p) (fun _ _ => World.part_tokenports hp) hk

/-- The port is unwired, or its tokenport is in the part. -/
def Inside (base : Base) (port : Option TokenportId) : Prop :=
  ∀ p, port = some p → base.tokenport ≤ p

theorem lxcGetTokenValue_part {W : World} (hW : Apart base W) {p : TokenportId}
    (hp : base.tokenport ≤ p) : lxcGetTokenValue (W.part base) p = lxcGetTokenValue W p := by
  unfold lxcGetTokenValue
  rw [World.part_tokenports hp]
  cases htp : W.tokenports p with
  | none => rfl
  | some tp =>
    simp only [Option.bind_eq_bind, Option.bind_some]
    rw [World.part_wires (hW.tokenport p tp hp htp).1]

variable {port : Option TokenportId}

theorem lxcWireTokenAvailable_part {W : World} (hW : Apart base W) (hp : Inside base port) :
    lxcWireTokenAvailable (W.part base) port = lxcWireTokenAvailable W port := by
  cases hport : port with
  | none => rfl
  | some p => simp only [lxcWireTokenAvailable, lxcGetTokenValue_part hW (hp p hport)]

theorem tokenValue?_part {W : World} (hW : Apart base W) (hp : Inside base port) :
    tokenValue? (W.part base) port = tokenValue? W port := by
  cases hport : port with
  | none => rfl
  | some p => exact lxcGetTokenValue_part hW (hp p hport)

theorem lxcWireReleaseToken (hp : Inside base port) :
    Local base (lxcWireReleaseToken port) := by
  cases hport : port with
  | none => exact .pure
  | some p =>
    refine readTokenport (hp p hport) fun W tp hW htp => ?_
    exact readWire (hW.tokenport p tp (hp p hport) htp).1 fun _ _ _ _ => .pure

theorem absorbIf (value : Option LxcValue) (hp : Inside base port) :
    Local base (absorbIf value port) := by
  cases value with
  | none => exact .pure
  | some v =>
    cases hport : port with
    | none => exact fun W _ => ⟨rfl, fun W' h => by cases h⟩
    | some p =>
      refine readTokenport (hp p hport) fun W tp hW htp => ?_
      have howner := (hW.tokenport p tp (hp p hport) htp).1
      refine readWire howner fun W wire hW hw => ?_
      rw [(hW.wire tp.owner wire howner hw).1]
      exact .pure

/-! ## Driving -/

/-- The behaviors that are called work on the part. -/
def Calls (base : Base) (call : ExecCall → World → Option World) : Prop :=
  ∀ c : ExecCall, base.gate ≤ c.gate → Local base (call c)

theorem notifyGate (hcall : Calls base call) (signal : Signal) (subtype : Int) (v : LxcValue)
    {p : TokenportId} (hp : base.tokenport ≤ p) :
    Local base (notifyGate call signal subtype v p) := by
  refine readTokenport hp fun W tp hW htp => ?_
  have hgate := (hW.tokenport p tp hp htp).2
  refine readGate hgate fun W gate hW hg => ?_
  split
  · exact hcall _ hgate
  · exact .pure

theorem notifyPorts (hcall : Calls base call) (signal : Signal) (subtype : Int) (v : LxcValue) :
    ∀ ports : NtArray TokenportId, (∀ p, some p ∈ ports → base.tokenport ≤ p) →
      Local base (notifyPorts call (fun _ W => some W) signal subtype v ports)
  | [], _ => .pure
  | none :: _, _ => .pure
  | some p :: ports, hall =>
    (notifyGate hcall signal subtype v (hall p List.mem_cons_self)).bind
      (notifyPorts hcall signal subtype v ports fun p hp => hall p (List.mem_cons_of_mem _ hp))

/-- A new value on a wire of the part. -/
theorem setWire {w : WireId} (hw : base.wire ≤ w) {wire : Wire}
    (hwire : wire.handler = .directPropagateValue ∧ ∀ p, some p ∈ wire.drivens →
      base.tokenport ≤ p) (v : LxcValue) :
    Local base fun W => some (W.setWire w { wire with currentValue := some v }) := by
  apply Refines.total
  intro W hW
  refine ⟨⟨hW.sorter, hW.input, hW.output, hW.tokenport, ?_⟩, World.part_setWire hw _⟩
  intro w' wire' hw' hwire'
  by_cases he : w' = w
  · subst he
    have hself : (W.setWire w' { wire with currentValue := some v }).wires w' = some _ :=
      Function.update_self ..
    obtain rfl := Option.some.inj (hself.symm.trans hwire')
    exact hwire
  · exact hW.wire w' wire' hw' ((Function.update_of_ne he _ _).symm.trans hwire')

theorem note (instance_ : Option GateId) (v : LxcValue) :
    Local base fun W => some (W.note instance_ v) := by
  apply Refines.total
  intro W hW
  refine ⟨?_, World.part_note instance_ v⟩
  cases instance_ with
  | none => exact hW
  | some g => exact ⟨hW.sorter, hW.input, hW.output, hW.tokenport, hW.wire⟩

theorem writeNewValue (hcall : Calls base call) {w : WireId} (hw : base.wire ≤ w) (v : LxcValue) :
    Local base (writeNewValue call w v) := by
  refine readWire hw fun W wire hW hwire => ?_
  rw [(hW.wire w wire hw hwire).1]
  refine readWire hw fun W wire hW hwire => ?_
  have hdirect := hW.wire w wire hw hwire
  exact (setWire hw hdirect v).bind
    (notifyPorts hcall wire.type wire.subtype v wire.drivens hdirect.2)

theorem lxcDriveWireValue (hcall : Calls base call) (instance_ : Option GateId)
    {w : Option WireId} (hw : ∀ w', w = some w' → base.wire ≤ w') (v : Option LxcValue) :
    Local base (lxcDriveWireValue call instance_ w v) := by
  cases hw' : w with
  | none => exact .pure
  | some w' =>
    cases v with
    | none => exact .pure
    | some v => exact (note instance_ v).bind (writeNewValue hcall (hw w' hw') v)

/-! ## Executing -/

theorem sorterExec (hcall : Calls base call) {g : GateId} (hg : base.gate ≤ g)
    {up left : Option TokenportId} (hup : Inside base up) (hleft : Inside base left)
    {outputs : Gate → Option (Option WireId × Option WireId)}
    (hout : ∀ W gate wires, Apart base W → W.gates g = some gate → outputs gate = some wires →
      (∀ w, wires.1 = some w → base.wire ≤ w) ∧ ∀ w, wires.2 = some w → base.wire ≤ w) :
    Local base (sorterExec call g up left outputs) := by
  refine Refines.read (fun W hW => lxcWireTokenAvailable_part hW hup) fun _ upAvailable _ _ => ?_
  refine Refines.read (fun W hW => lxcWireTokenAvailable_part hW hleft)
    fun _ leftAvailable _ _ => ?_
  split
  · exact .pure
  refine Refines.read (fun W hW => tokenValue?_part hW hup) fun _ a _ _ => ?_
  refine Refines.read (fun W hW => tokenValue?_part hW hleft) fun _ b _ _ => ?_
  have hrelease := (lxcWireReleaseToken hup).bind (lxcWireReleaseToken hleft)
  split
  · exact hrelease
  refine (absorbIf a hup).bind ((absorbIf b hleft).bind ?_)
  refine Refines.read (f := fun _ : World => compareValues a b) (fun _ _ => rfl) fun _ r _ _ => ?_
  refine readGate hg fun W gate hW hgate => ?_
  refine Refines.read (f := fun _ : World => outputs gate) (fun _ _ => rfl)
    fun _ wires _ hwires => ?_
  obtain ⟨hdown, hright⟩ := hout W gate wires hW hgate hwires
  exact (lxcDriveWireValue hcall g hdown r.1).bind
    ((lxcDriveWireValue hcall g hright r.2).bind hrelease)

/-- The places of a side are its slots. -/
theorem twoSlots_mem {side : PortSide} {length : Nat} {places : Option Nat × Option Nat}
    (h : twoSlots side length = some places) :
    (∀ c, places.1 = some c → some c ∈ side.slots) ∧
      ∀ c, places.2 = some c → some c ∈ side.slots := by
  have hget : ∀ index place c, arrayFixTryGet side.slots length index = some place →
      place = some c → some c ∈ side.slots := by
    intro index place c hplace hc
    unfold arrayFixTryGet at hplace
    split at hplace
    · obtain rfl := Option.some.inj hplace
      cases hc
    · exact hc ▸ List.mem_of_getElem? hplace
  simp only [twoSlots, Option.bind_eq_bind, Option.bind_eq_some_iff] at h
  obtain ⟨first, hfirst, second, hsecond, h⟩ := h
  obtain rfl := Option.some.inj h
  exact ⟨fun c => hget 0 first c hfirst, fun c => hget 1 second c hsecond⟩

/-- The text that the three boxes share, for the array lengths that they pass. -/
theorem sorterBox (hcall : Calls base call) {g : GateId} (hg : base.gate ≤ g)
    (lengthIn lengthOut : Gate → Nat) :
    Local base fun W => (W.gates g).bind fun gate =>
      (twoSlots gate.input (lengthIn gate)).bind fun ports =>
        LogxControll.sorterExec call g ports.1 ports.2
          (fun gate => twoSlots gate.output (lengthOut gate)) W := by
  refine readGate hg fun W gate hW hgate => ?_
  refine Refines.read (f := fun _ : World => twoSlots gate.input (lengthIn gate))
    (fun _ _ => rfl) fun _ ports _ hports => ?_
  obtain ⟨hup, hleft⟩ := twoSlots_mem hports
  apply sorterExec hcall hg
  · exact fun p hp => hW.input g gate p hg hgate (hup p hp)
  · exact fun p hp => hW.input g gate p hg hgate (hleft p hp)
  · intro W gate wires hW hgate hwires
    obtain ⟨hdown, hright⟩ := twoSlots_mem hwires
    exact ⟨fun w hw => hW.output g gate w hg hgate (hdown w hw),
      fun w hw => hW.output g gate w hg hgate (hright w hw)⟩

theorem run (hcall : Calls base call) {g : GateId} (hg : base.gate ≤ g) {gate : Gate}
    (hsorter : gate.IsSorter) : Local base fun W => gate.execute.run call g W := by
  rcases hsorter.execute with he | he | he <;> rw [he]
  · exact sorterBox hcall hg (fun gate => gate.input.slots.length)
      fun gate => gate.output.slots.length
  · exact sorterBox hcall hg (fun _ => 2) fun _ => 2
  · exact sorterBox hcall hg (fun _ => 2) fun _ => 2

theorem callBehavior : ∀ n, Calls base (callBehavior n)
  | 0 => fun _ _ _ _ => ⟨rfl, fun W' h => by cases h⟩
  | n + 1 => by
      intro c hc
      refine readGate hc fun W gate hW hg => ?_
      rw [(hW.sorter c.gate gate hc hg).2]
      refine readGate hc fun W gate hW hg => ?_
      exact run (callBehavior n) hc (hW.sorter c.gate gate hc hg).1

end Local

end LogxControll
