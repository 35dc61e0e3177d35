/-
  The three comparators: how they are created, and what tying a wire to one of them does.

  A comparator has two inputs and two outputs of type `int`, wherever its ports are kept and
  however it finds its slots (`IsComparator`). `lxcWireGate_comparator` is the one spec of the
  wiring calls that the sorting network makes.
-/
import LogxControll.Core.ComputerphileSort
import LogxControll.Wiring.Declarations

namespace LogxControll

/-! ## What the creators return -/

/-- How the comparator keeps its ports. -/
def SorterBox.gateClass : SorterBox → GateClass
  | .porti => .porti
  | .portb => .portb
  | .spec => .spec

/-- What it executes. -/
def SorterBox.execute : SorterBox → Execute
  | .porti => .portiSorter
  | .portb => .portbSorter
  | .spec => .specSorter

/-- Its ports in a direction. -/
def sorterPorts : Direction → List PortDefinition
  | .input => sorterInputs
  | .output => sorterOutputs

/-- A comparator, wired or not. A porti gate allocates its slots when the first is wired. -/
structure Gate.IsComparator (box : SorterBox) (gate : Gate) : Prop where
  gateClass : gate.gateClass = box.gateClass
  execute : gate.execute = box.execute
  executionBehavior : gate.executionBehavior = some .default
  declared : ∀ dir, ∃ gs, Declared (gate.side dir).manager (sorterPorts dir) gs
  places : ∀ dir, (gate.side dir).slots.length ≤ 2
  fixed : box ≠ .porti → ∀ dir, (gate.side dir).slots.length = 2

/-- A comparator as it was created. -/
structure Gate.IsNewComparator (box : SorterBox) (gate : Gate) : Prop where
  comparator : gate.IsComparator box
  disabled : gate.enabled = false
  unwired : ∀ dir i, slotAt (gate.side dir).slots i = none

theorem slotAt_replicate_none (n i : Nat) : slotAt (List.replicate n none) i = none := by
  unfold slotAt
  rw [List.getElem?_replicate]
  split <;> rfl

theorem addPortDefinitions_sorter (junk : Nat → Nat) (dir : Direction) :
    ∃ m gs, addPortDefinitions junk .zeroed (sorterPorts dir) = some m ∧
      Declared m (sorterPorts dir) gs :=
  addPortDefinitions_declared junk (sorterPorts dir) declared_zeroed

/-- A manager with the ports of one side has room for two slots. -/
theorem zeroedSlots_sorter {m : PortManager} {dir : Direction} {gs : Groups}
    (h : Declared m (sorterPorts dir) gs) : zeroedSlots m = List.replicate 2 none := by
  unfold zeroedSlots lxcPortCount
  rw [h.represents.maxSize]
  cases dir <;> rfl

theorem portiComparatorCreate_eq (junk : Nat → Nat) :
    ∃ gate, portiComparatorCreate junk = some gate ∧ gate.IsNewComparator .porti := by
  obtain ⟨min, gin, hin, hdin⟩ := addPortDefinitions_sorter junk .input
  obtain ⟨mout, gout, hout, hdout⟩ := addPortDefinitions_sorter junk .output
  refine ⟨lxcInitInstance .porti .portiSorter { manager := min, slots := zeroedSlots .zeroed }
    { manager := mout, slots := zeroedSlots .zeroed }, ?_, ⟨⟨rfl, rfl, rfl, ?_, ?_, ?_⟩, rfl, ?_⟩⟩
  · unfold portiComparatorCreate
    simp only [lxcGenericPortiGateCreate, lxcInitInstance]
    rw [show addPortDefinitions junk .zeroed sorterInputs = some min from hin,
      show addPortDefinitions junk .zeroed sorterOutputs = some mout from hout]
    rfl
  · intro dir
    cases dir
    · exact ⟨gin, hdin⟩
    · exact ⟨gout, hdout⟩
  · intro dir
    cases dir <;> exact Nat.zero_le 2
  · intro h
    exact absurd rfl h
  · intro dir i
    cases dir <;> exact slotAt_replicate_none 0 i

theorem sorterBehavior_eq (junk : Nat → Nat) (execute : Execute) :
    ∃ b, sorterBehavior junk execute = some b ∧ b.execute = execute ∧
      (∃ gs, Declared b.inputPorts (sorterPorts .input) gs) ∧
      ∃ gs, Declared b.outputPorts (sorterPorts .output) gs := by
  obtain ⟨min, gin, hin, hdin⟩ := addPortDefinitions_sorter junk .input
  obtain ⟨mout, gout, hout, hdout⟩ := addPortDefinitions_sorter junk .output
  refine ⟨⟨execute, min, mout⟩, ?_, rfl, ⟨gin, hdin⟩, ⟨gout, hdout⟩⟩
  unfold sorterBehavior
  rw [show addPortDefinitions junk .zeroed sorterInputs = some min from hin,
    show addPortDefinitions junk .zeroed sorterOutputs = some mout from hout]
  rfl

/-- A gate of a sorter behavior with two NULL slots on either side. -/
theorem isNewComparator_of_behavior {box : SorterBox} {b : PortbBehavior}
    (hexec : b.execute = box.execute) (hin : ∃ gs, Declared b.inputPorts (sorterPorts .input) gs)
    (hout : ∃ gs, Declared b.outputPorts (sorterPorts .output) gs) :
    (lxcInitInstance box.gateClass b.execute
      { manager := b.inputPorts, slots := List.replicate 2 none }
      { manager := b.outputPorts, slots := List.replicate 2 none }).IsNewComparator box := by
  refine ⟨⟨rfl, hexec, rfl, ?_, ?_, ?_⟩, rfl, ?_⟩
  · intro dir
    cases dir
    · exact hin
    · exact hout
  · intro dir
    cases dir <;> exact le_rfl
  · intro _ dir
    cases dir <;> rfl
  · intro dir i
    cases dir <;> exact slotAt_replicate_none 2 i

theorem SorterBox.creator_eq (box : SorterBox) (junk : Nat → Nat) :
    ∃ gate, box.creator junk = some gate ∧ gate.IsNewComparator box := by
  cases box with
  | porti => exact portiComparatorCreate_eq junk
  | portb =>
    obtain ⟨b, hb, hexec, hin, hout⟩ := sorterBehavior_eq junk .portbSorter
    refine ⟨_, ?_, isNewComparator_of_behavior hexec hin hout⟩
    obtain ⟨gin, hin⟩ := hin
    obtain ⟨gout, hout⟩ := hout
    show (sorterBehavior junk .portbSorter).map lxcGenericPortbGateCreate = _
    rw [hb, Option.map_some, lxcGenericPortbGateCreate, zeroedSlots_sorter hin,
      zeroedSlots_sorter hout]
    rfl
  | spec =>
    obtain ⟨b, hb, hexec, hin, hout⟩ := sorterBehavior_eq junk .specSorter
    refine ⟨_, ?_, isNewComparator_of_behavior hexec hin hout⟩
    show (sorterBehavior junk .specSorter).map specCreate = _
    rw [hb]
    rfl

/-! ## Its ports -/

theorem absList_sorter {m : PortManager} {dir : Direction} {gs : Groups}
    (h : Declared m (sorterPorts dir) gs) : absList gs ⟨.int, 0⟩ = [0, 1] := by
  rw [h.lists]
  cases dir <;> rfl

namespace Gate.IsComparator

variable {box : SorterBox} {gate : Gate} {dir : Direction}

theorem getTypes (h : gate.IsComparator box) (dir : Direction) :
    ∃ (n : Nat) (types : List FullSignalType),
      gate.getTypes dir = ((n : Int), types) ∧ ⟨.int, 0⟩ ∈ types := by
  obtain ⟨gs, hd⟩ := h.declared dir
  have hlen : gs.length ≤ 1 := by
    have := hd.length_le
    cases dir <;> exact this
  have hmem : (⟨.int, 0⟩ : FullSignalType) ∈ gs.map Prod.fst := by
    rw [hd.mem_keys_iff]
    cases dir <;> exact List.mem_cons_self
  have htypes : gate.getTypes dir =
      lxcPortFillTypes (gate.side dir).manager lxcGateMaxIoTypeCount := by
    unfold Gate.getTypes
    rw [h.gateClass]
    cases box <;> rfl
  refine ⟨gs.length, gs.map Prod.fst, ?_, hmem⟩
  rw [htypes, hd.represents.lxcPortFillTypes_eq, if_neg]
  unfold lxcGateMaxIoTypeCount
  omega

theorem getMaxIndex (h : gate.IsComparator box) (dir : Direction) :
    gate.getMaxIndex dir .int 0 = some 2 := by
  obtain ⟨gs, hd⟩ := h.declared dir
  have hmem : (⟨.int, 0⟩ : FullSignalType) ∈ gs.map Prod.fst := by
    rw [hd.mem_keys_iff]
    cases dir <;> exact List.mem_cons_self
  have hmax : gate.getMaxIndex dir .int 0 =
      lxcGenericGetTypeMaxIndex (gate.side dir).manager .int 0 := by
    unfold Gate.getMaxIndex
    rw [h.gateClass]
    cases box <;> cases dir <;> rfl
  rw [hmax, hd.represents.lxcGenericGetTypeMaxIndex_eq, if_pos hmem, absList_sorter hd]
  rfl

/-- The side of a generic comparator fits its ports. -/
theorem sound (h : gate.IsComparator box) (hbox : box ≠ .spec) {gs : Groups}
    (hd : Declared (gate.side dir).manager (sorterPorts dir) gs) :
    (gate.gateClass = .portb ∨ gate.gateClass = .porti) ∧
      (gate.side dir).Sound gate.gateClass gs (declaredNames (sorterPorts dir)) := by
  have hlen : (declaredNames (sorterPorts dir)).length = 2 := by cases dir <;> rfl
  rw [h.gateClass]
  refine ⟨?_, hd.represents, not_mem_declaredNames _, ?_, ?_⟩
  · cases box
    · exact .inr rfl
    · exact .inl rfl
    · exact absurd rfl hbox
  · intro hc
    rw [hlen]
    apply h.fixed
    rintro rfl
    cases hc
  · intro _
    rw [hlen]
    exact h.places dir

theorem getWire (h : gate.IsComparator box) {i : Nat} (hi : i < 2) :
    gate.getWire dir .int 0 i = some (slotAt (gate.side dir).slots i) := by
  by_cases hbox : box = .spec
  · subst hbox
    have hlen := h.fixed (by simp) dir
    unfold Gate.getWire
    rw [h.gateClass]
    exact slotAt_eq (by omega)
  · obtain ⟨gs, hd⟩ := h.declared dir
    obtain ⟨hcls, hs⟩ := h.sound hbox hd
    rw [Gate.getWire_of_sound hcls hs, absList_sorter hd]
    interval_cases i <;> rfl

/-- The slots of one side replaced by two. -/
theorem setSlots (h : gate.IsComparator box) {side : PortSide}
    (hm : side.manager = (gate.side dir).manager) (hlen : side.slots.length = 2) :
    (gate.setSide dir side).IsComparator box := by
  have hside : ∀ dir', ((gate.setSide dir side).side dir').manager = (gate.side dir').manager ∧
      ((gate.setSide dir side).side dir' = gate.side dir' ∨
        ((gate.setSide dir side).side dir').slots.length = 2) := by
    intro dir'
    by_cases hd : dir' = dir
    · subst hd
      rw [Gate.side_setSide_self]
      exact ⟨hm, .inr hlen⟩
    · rw [Gate.side_setSide_ne gate hd]
      exact ⟨rfl, .inl rfl⟩
  refine ⟨?_, ?_, ?_, ?_, ?_, ?_⟩
  · rw [Gate.setSide_gateClass]
    exact h.gateClass
  · cases dir <;> exact h.execute
  · cases dir <;> exact h.executionBehavior
  · intro dir'
    rw [(hside dir').1]
    exact h.declared dir'
  · intro dir'
    rcases (hside dir').2 with he | he
    · rw [he]
      exact h.places dir'
    · exact he.le
  · intro hbox dir'
    rcases (hside dir').2 with he | he
    · rw [he]
      exact h.fixed hbox dir'
    · exact he

/-- Writing a port changes its slot, and no other. -/
theorem wire (h : gate.IsComparator box) (dir : Direction) {i : Nat} (hi : i < 2)
    (c : Option Nat) :
    ∃ side, gate.wire dir .int 0 i c = some (0, side) ∧
      (gate.setSide dir side).IsComparator box ∧
      ∀ dir' i', slotAt ((gate.setSide dir side).side dir').slots i' =
        if dir' = dir ∧ i' = i then c else slotAt (gate.side dir').slots i' := by
  -- the array that is written: in a porti gate, after it has grown
  have hready : ∃ ready : PortSide, gate.wire dir .int 0 i c =
        some (0, { ready with slots := ready.slots.set i c }) ∧
      ready.manager = (gate.side dir).manager ∧ ready.slots.length = 2 ∧
      ∀ i', slotAt ready.slots i' = slotAt (gate.side dir).slots i' := by
    by_cases hbox : box = .spec
    · subst hbox
      have hlen := h.fixed (by simp) dir
      have hlt : i < (gate.side dir).slots.length := by omega
      refine ⟨gate.side dir, ?_, rfl, hlen, fun _ => rfl⟩
      unfold Gate.wire
      rw [h.gateClass]
      show storeSlot (gate.side dir) i c = _
      rw [storeSlot, if_pos hlt]
    · obtain ⟨gs, hd⟩ := h.declared dir
      obtain ⟨hcls, hs⟩ := h.sound hbox hd
      have hlen : (gate.ready dir).slots.length = 2 := by
        rw [Gate.ready_length hcls hs]
        cases dir <;> rfl
      have habs : (absList gs ⟨.int, 0⟩)[i]? = some i := by
        rw [absList_sorter hd]
        interval_cases i <;> rfl
      refine ⟨gate.ready dir, ?_, Gate.ready_manager gate dir, hlen, Gate.ready_slotAt gate dir⟩
      have hrep : (gate.ready dir).manager.Represents gs (declaredNames (sorterPorts dir)) := by
        rw [Gate.ready_manager]
        exact hs.represents
      rw [Gate.wire_eq_ready hcls]
      exact PortSide.Sound.lxcGenericPortbWire_of_port hrep (Gate.ready_length hcls hs) habs c
  obtain ⟨ready, hwire, hm, hlen, hslots⟩ := hready
  refine ⟨_, hwire, h.setSlots hm (by rw [List.length_set, hlen]), fun dir' i' => ?_⟩
  by_cases hd : dir' = dir
  · subst hd
    rw [Gate.side_setSide_self, slotAt_set (by omega), hslots]
    by_cases hi' : i' = i
    · rw [if_pos hi', if_pos ⟨rfl, hi'⟩]
    · rw [if_neg hi', if_neg fun e => hi' e.2]
  · rw [Gate.side_setSide_ne gate hd, if_neg fun e => hd e.1]

end Gate.IsComparator

/-! ## Tying a wire -/

/-- `W'` is `W` with wire `w` tied to port `i` of the comparator `g`. -/
structure Tied (box : SorterBox) (dir : Direction) (g : GateId) (i : Nat) (w : WireId)
    (W W' : World) : Prop where
  gate : ∃ gate gate', W.gates g = some gate ∧ W'.gates = Function.update W.gates g (some gate') ∧
    gate'.IsComparator box ∧ gate'.enabled = gate.enabled ∧
    ∀ dir' i', slotAt (gate'.side dir').slots i' =
      if dir' = dir ∧ i' = i then some (Wiring.content dir w W.nextTokenport)
      else slotAt (gate.side dir').slots i'
  wire : ∃ wire, W.wires w = some wire ∧
    W'.wires = Function.update W.wires w (some (wire.setPorts dir
      (arrayNtAppendElement (wire.ports dir) (some W.nextTokenport)).2))
  tokenport : ∃ tp, W'.tokenports = Function.update W.tokenports W.nextTokenport (some tp) ∧
    tp.owner = w ∧ tp.gate = g ∧ tp.index = i
  nextWire : W'.nextWire = W.nextWire
  nextTokenport : W'.nextTokenport = W.nextTokenport + 1

section Tie

variable {box : SorterBox} {gate : Gate} {dir : Direction} {W : World} {g : GateId} {w : WireId}
  {wire : Wire} {i : Nat} (ex : ExecCall → World → Option World)

theorem tieInput_comparator (hg : W.gates g = some gate) (h : gate.IsComparator box)
    (hw : W.wires w = some wire) (hi : i < 2) :
    ∃ W', tieInput ex .int 0 g i w W = some (0, W') ∧ Tied box .input g i w W W' := by
  obtain ⟨side, hwire, hcmp, hslots⟩ := h.wire .input hi (some W.nextTokenport)
  set W₁ := (W.allocTokenport (Tokenport.zeroed w g i)).setGate g (gate.setSide .input side)
    with hW₁
  have htp : W₁.tokenports W.nextTokenport = some (Tokenport.zeroed w g i) :=
    Function.update_self ..
  have hw₁ : W₁.wires w = some wire := hw
  obtain ⟨j, hsucc⟩ := onSuccessfullInputWiring_some ex htp hw₁ .int 0 g i
  refine ⟨(W₁.setWire w (wire.setPorts .input (arrayNtAppendElement (wire.ports .input)
    (some W.nextTokenport)).2)).setTokenport W.nextTokenport
      { Tokenport.zeroed w g i with wireIndex := j }, ?_, ?_⟩
  · simp only [tieInput, World.allocTokenport_gates, hg, hwire, Option.bind_eq_bind,
      Option.bind_some, onSuccessfullWiring]
    rw [if_neg (by simp), ← hW₁, hsucc]
    rfl
  · refine ⟨⟨gate, gate.setSide .input side, hg, rfl, hcmp, rfl, hslots⟩, ⟨wire, hw, rfl⟩,
      ⟨{ Tokenport.zeroed w g i with wireIndex := j }, ?_, rfl, rfl, rfl⟩, rfl, rfl⟩
    exact Function.update_idem ..

theorem tieOutput_comparator (hg : W.gates g = some gate) (h : gate.IsComparator box)
    (hoff : gate.enabled = false) (hw : W.wires w = some wire) (hi : i < 2) :
    ∃ W', tieOutput ex .int 0 g i w W = some (0, W') ∧ Tied box .output g i w W W' := by
  obtain ⟨side, hwire, hcmp, hslots⟩ := h.wire .output hi (some w)
  set W₁ := W.setGate g (gate.setSide .output side) with hW₁
  have hw₁ : (W₁.allocTokenport (Tokenport.zeroed w g i)).wires w = some wire := hw
  have hg₁ : W₁.gates g = some (gate.setSide .output side) := Function.update_self ..
  have hoff₁ : (gate.setSide .output side).enabled = false := hoff
  refine ⟨(W₁.allocTokenport (Tokenport.zeroed w g i)).setWire w (wire.setPorts .output
    (arrayNtAppendElement (wire.ports .output) (some W.nextTokenport)).2), ?_, ?_⟩
  · simp only [tieOutput, hg, hwire, Option.bind_eq_bind, Option.bind_some, onSuccessfullWiring]
    rw [if_neg (by simp), ← hW₁]
    simp only [onSuccessfullOutputWiring, addPort_eq hw₁, Option.bind_eq_bind, Option.bind_some]
    rw [show ((W₁.allocTokenport (Tokenport.zeroed w g i)).setWire w _).gates g = _ from hg₁,
      Option.bind_some, hoff₁]
    rfl
  · exact ⟨⟨gate, gate.setSide .output side, hg, rfl, hcmp, rfl, hslots⟩, ⟨wire, hw, rfl⟩,
      ⟨Tokenport.zeroed w g i, rfl, rfl, rfl, rfl⟩, rfl, rfl⟩

/-- Tying a wire of type `int` to a free port of a comparator that is not enabled. -/
theorem lxcWireGate_comparator (hg : W.gates g = some gate) (h : gate.IsComparator box)
    (hoff : gate.enabled = false) (hw : W.wires w = some wire) (ht : wire.type = .int)
    (hi : i < 2) (hfree : slotAt (gate.side dir).slots i = none) :
    ∃ W', lxcWireGate ex dir (some .int) 0 (some w) g i W = some (0, W') ∧
      Tied box dir g i w W W' := by
  obtain ⟨n, types, htypes, hmem⟩ := h.getTypes dir
  have hgeneric : lxcWireGate ex dir (some .int) 0 (some w) g i W =
      privateGenericWiring ex dir (some .int) 0 (some w) g (intOfUint i) W := by
    cases dir <;> rfl
  have hchecked : gate.Checked dir .int 0 i := by
    refine ⟨?_, ?_, by omega, 2, h.getMaxIndex dir, by omega⟩
    · rw [htypes]
      unfold lxcGateMaxIoTypeCount
      omega
    · rw [htypes]
      exact hmem
  have hget : gate.getWire dir .int 0 i = some none := by
    rw [h.getWire hi, hfree]
  rw [hgeneric, intOfUint_of_lt (by omega), privateGenericWiring_of_free hg hchecked hw ht hget]
  cases dir with
  | input => exact tieInput_comparator ex hg h hw hi
  | output => exact tieOutput_comparator ex hg h hoff hw hi

end Tie

end LogxControll
