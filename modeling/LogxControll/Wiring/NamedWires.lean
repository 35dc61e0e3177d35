/-
  Building a circuit of comparators, whose wires are found by their names.

  `Wired` describes what has been built so far: which name the wire at each port has, in `ties`,
  and that slots and wires agree. Adding a gate and tying a named wire keep it
  (`Wired.addGate`, `Wired.tie`). What was in memory before is left alone; `Base` says where the
  addresses of the circuit start.
-/
import LogxControll.Wiring.Comparators

namespace LogxControll

/-- The names of the wires at the ports. -/
abbrev Ties := GateId → Direction → Nat → Option String

/-- One more port tied to a name. -/
def Ties.set (ties : Ties) (g : GateId) (dir : Direction) (i : Nat) (name : String) : Ties :=
  fun g' dir' i' => if g' = g ∧ dir' = dir ∧ i' = i then some name else ties g' dir' i'

theorem Ties.set_self (ties : Ties) (g : GateId) (dir : Direction) (i : Nat) (name : String) :
    ties.set g dir i name g dir i = some name := if_pos ⟨rfl, rfl, rfl⟩

theorem Ties.set_of_ne (ties : Ties) {g g' : GateId} {dir dir' : Direction} {i i' : Nat}
    (h : ¬ (g' = g ∧ dir' = dir ∧ i' = i)) (name : String) :
    ties.set g dir i name g' dir' i' = ties g' dir' i' := if_neg h

/-- The first addresses of the gates, wires and tokenports of a circuit. -/
structure Base where
  gate : GateId
  wire : WireId
  tokenport : TokenportId

/-- Slot `c` of port `i` of gate `g` is bound to wire `w`, by the tokenport `p` in its entries. -/
structure BoundBy (base : Base) (W : World) (g : GateId) (dir : Direction) (i : Nat) (c : Nat)
    (w : WireId) (p : TokenportId) : Prop where
  content : c = Wiring.content dir w p
  entry : ∃ wire, W.wires w = some wire ∧ p ∈ entries (wire.ports dir)
  mine : base.tokenport ≤ p
  tokenport : ∃ tp, W.tokenports p = some tp ∧ tp.owner = w ∧ tp.gate = g ∧ tp.index = i

/-- The circuit built so far. -/
structure Wired (box : SorterBox) (base : Base) (ties : Ties) (s : Building) : Prop where
  freshGate : ∀ g, s.nextGate ≤ g → s.memory.gates g = none
  freshWire : ∀ w, s.memory.nextWire ≤ w → s.memory.wires w = none
  freshTokenport : ∀ p, s.memory.nextTokenport ≤ p → s.memory.tokenports p = none
  above : base.gate ≤ s.nextGate ∧ base.wire ≤ s.memory.nextWire ∧
    base.tokenport ≤ s.memory.nextTokenport
  tokenport : ∀ p tp, base.tokenport ≤ p → s.memory.tokenports p = some tp →
    base.wire ≤ tp.owner ∧ base.gate ≤ tp.gate
  live : ∀ g, base.gate ≤ g → g < s.nextGate → ∃ gate, s.memory.gates g = some gate
  comparator : ∀ g gate, base.gate ≤ g → s.memory.gates g = some gate →
    gate.IsComparator box ∧ gate.enabled = false
  wire : ∀ name w, s.circ.wires name = some w → base.wire ≤ w ∧ ∃ wire,
    s.memory.wires w = some wire ∧ wire.type = .int ∧ wire.handler = .directPropagateValue ∧
      wire.currentValue = none
  name : ∀ w wire, base.wire ≤ w → s.memory.wires w = some wire →
    ∃ name, s.circ.wires name = some w
  injective : ∀ name name' w, s.circ.wires name = some w → s.circ.wires name' = some w →
    name = name'
  slot : ∀ g gate dir i c, base.gate ≤ g → s.memory.gates g = some gate →
    slotAt (gate.side dir).slots i = some c → ∃ name w p, ties g dir i = some name ∧
      s.circ.wires name = some w ∧ BoundBy base s.memory g dir i c w p
  tied : ∀ g dir i name, ties g dir i = some name → base.gate ≤ g ∧
    ∃ gate c, s.memory.gates g = some gate ∧ slotAt (gate.side dir).slots i = some c
  entry : ∀ w wire dir, base.wire ≤ w → s.memory.wires w = some wire →
    ∃ l, IsNt (wire.ports dir) l ∧ ∀ p ∈ l, base.tokenport ≤ p ∧
      ∃ tp gate, s.memory.tokenports p = some tp ∧ tp.owner = w ∧ base.gate ≤ tp.gate ∧
        s.memory.gates tp.gate = some gate ∧
        slotAt (gate.side dir).slots tp.index = some (Wiring.content dir w p)

namespace Wired

variable {box : SorterBox} {base : Base} {ties : Ties} {s : Building}

/-- An empty circuit, when memory is allocated at fresh addresses. -/
theorem start (box : SorterBox) {W : World} {nextGate : GateId}
    (hgates : ∀ g, nextGate ≤ g → W.gates g = none)
    (hwires : ∀ w, W.nextWire ≤ w → W.wires w = none)
    (htokenports : ∀ p, W.nextTokenport ≤ p → W.tokenports p = none) :
    Wired box ⟨nextGate, W.nextWire, W.nextTokenport⟩ (fun _ _ _ => none)
      { circ := lxcCircuitCreate, memory := W, nextGate := nextGate } where
  freshGate := hgates
  freshWire := hwires
  freshTokenport := htokenports
  above := ⟨le_rfl, le_rfl, le_rfl⟩
  tokenport := by
    intro p tp hp htp
    rw [htokenports p hp] at htp
    cases htp
  live := by
    intro g hg hlt
    exact absurd hlt (Nat.not_lt.mpr hg)
  comparator := by
    intro g gate hg hgate
    rw [hgates g hg] at hgate
    cases hgate
  wire := by
    intro name w h
    cases h
  name := by
    intro w wire hw hwire
    rw [hwires w hw] at hwire
    cases hwire
  injective := by
    intro name name' w h
    cases h
  slot := by
    intro g gate dir i c hg hgate
    rw [hgates g hg] at hgate
    cases hgate
  tied := by
    intro g dir i name h
    cases h
  entry := by
    intro w wire dir hw hwire
    rw [hwires w hw] at hwire
    cases hwire

theorem lt_nextGate (h : Wired box base ties s) {g : GateId} {gate : Gate}
    (hg : s.memory.gates g = some gate) : g < s.nextGate := by
  by_contra hle
  rw [h.freshGate g (Nat.not_lt.mp hle)] at hg
  cases hg

/-- A gate that was not added yet has no ties. -/
theorem ties_new (h : Wired box base ties s) (dir : Direction) (i : Nat) :
    ties s.nextGate dir i = none := by
  cases ht : ties s.nextGate dir i with
  | none => rfl
  | some name =>
    obtain ⟨-, gate, c, hg, -⟩ := h.tied _ _ _ _ ht
    exact absurd (h.lt_nextGate hg) (Nat.lt_irrefl _)

/-- The slot of a port without a tie is free. -/
theorem slot_free (h : Wired box base ties s) {g : GateId} {gate : Gate} {dir : Direction} {i : Nat}
    (hbase : base.gate ≤ g) (hg : s.memory.gates g = some gate) (ht : ties g dir i = none) :
    slotAt (gate.side dir).slots i = none := by
  cases hc : slotAt (gate.side dir).slots i with
  | none => rfl
  | some c =>
    obtain ⟨name, w, p, ht', -⟩ := h.slot g gate dir i c hbase hg hc
    rw [ht] at ht'
    cases ht'

/-! ## Adding a gate -/

/-- A gate of the circuit is not the new one, when the next address is fresh. -/
theorem gates_setGate (h : Wired box base ties s) {gate : Gate} {g : GateId} {gate' : Gate}
    (hg : s.memory.gates g = some gate') :
    (s.memory.setGate s.nextGate gate).gates g = some gate' := by
  have hne : g ≠ s.nextGate := (h.lt_nextGate hg).ne
  exact (Function.update_of_ne hne _ _).trans hg

theorem addGate (h : Wired box base ties s) {creator : Option Gate} {gate : Gate}
    (hcreator : creator = some gate) (hnew : gate.IsNewComparator box) (name : String) :
    ∃ s', s.addGate creator name = some (s.nextGate, s') ∧ Wired box base ties s' ∧
      s'.nextGate = s.nextGate + 1 ∧
      s'.circ.gates = (lxcCircuitAddGate s.circ s.nextGate name).2.gates := by
  have hwires : (lxcCircuitAddGate s.circ s.nextGate name).2.wires = s.circ.wires := by
    unfold lxcCircuitAddGate
    split <;> rfl
  -- the gates afterwards: those before, and the new one
  have hcases : ∀ g gate', (s.memory.setGate s.nextGate gate).gates g = some gate' →
      (g = s.nextGate ∧ gate' = gate) ∨ s.memory.gates g = some gate' := by
    intro g gate' hg
    by_cases he : g = s.nextGate
    · subst he
      have hself : (s.memory.setGate s.nextGate gate).gates s.nextGate = some gate :=
        Function.update_self ..
      exact .inl ⟨rfl, Option.some.inj (hg.symm.trans hself)⟩
    · exact .inr ((Function.update_of_ne he _ _).symm.trans hg)
  refine ⟨{ circ := (lxcCircuitAddGate s.circ s.nextGate name).2,
            memory := s.memory.setGate s.nextGate gate, nextGate := s.nextGate + 1 }, ?_, ?_, rfl, rfl⟩
  · rw [hcreator]
    rfl
  refine ⟨?_, h.freshWire, h.freshTokenport, ?_, h.tokenport, ?_, ?_, ?_, ?_, ?_, ?_, ?_, ?_⟩
  · intro g hg
    have hne : g ≠ s.nextGate := Nat.ne_of_gt hg
    exact (Function.update_of_ne hne _ _).trans (h.freshGate g (Nat.le_of_lt hg))
  · obtain ⟨h1, h2, h3⟩ := h.above
    exact ⟨Nat.le_succ_of_le h1, h2, h3⟩
  · intro g hbase hlt
    by_cases he : g = s.nextGate
    · exact ⟨gate, he ▸ Function.update_self ..⟩
    · obtain ⟨gate', hg⟩ :=
        h.live g hbase (Nat.lt_of_le_of_ne (Nat.lt_succ_iff.mp hlt) he)
      exact ⟨gate', h.gates_setGate hg⟩
  · intro g gate' hbase hg
    rcases hcases g gate' hg with ⟨-, rfl⟩ | hg
    · exact ⟨hnew.comparator, hnew.disabled⟩
    · exact h.comparator g gate' hbase hg
  · rw [show (lxcCircuitAddGate s.circ s.nextGate name).2.wires = _ from hwires]
    exact h.wire
  · intro w wire hw hwire
    rw [show (lxcCircuitAddGate s.circ s.nextGate name).2.wires = _ from hwires]
    exact h.name w wire hw hwire
  · rw [show (lxcCircuitAddGate s.circ s.nextGate name).2.wires = _ from hwires]
    exact h.injective
  · intro g gate' dir i c hbase hg hc
    rcases hcases g gate' hg with ⟨-, rfl⟩ | hg
    · rw [hnew.unwired] at hc
      cases hc
    · obtain ⟨name', w, p, ht, hname, hbound⟩ := h.slot g gate' dir i c hbase hg hc
      refine ⟨name', w, p, ht, ?_, hbound.content, hbound.entry, hbound.mine, hbound.tokenport⟩
      rw [show (lxcCircuitAddGate s.circ s.nextGate name).2.wires = _ from hwires]
      exact hname
  · intro g dir i name' ht
    obtain ⟨hbase, gate', c, hg, hc⟩ := h.tied g dir i name' ht
    exact ⟨hbase, gate', c, h.gates_setGate hg, hc⟩
  · intro w wire dir hw hwire
    obtain ⟨l, hl, hall⟩ := h.entry w wire dir hw hwire
    refine ⟨l, hl, fun p hp => ?_⟩
    obtain ⟨hmine, tp, gate', htp, howner, hbase, hg, hslot⟩ := hall p hp
    exact ⟨hmine, tp, gate', htp, howner, hbase, h.gates_setGate hg, hslot⟩

/-! ## Finding a wire -/

/-- The circuit with a new wire of type `int`. -/
def withWire (s : Building) (name : String) : Building where
  circ := { s.circ with wires := Function.update s.circ.wires name (some s.memory.nextWire) }
  memory :=
    { s.memory with
      wires := Function.update s.memory.wires s.memory.nextWire
        (some { type := .int, subtype := 0, currentValue := none, refDes := some name,
                drivers := [], drivens := [], handler := .directPropagateValue })
      nextWire := s.memory.nextWire + 1 }
  nextGate := s.nextGate

theorem wires_withWire (h : Wired box base ties s) {w : WireId} {wire : Wire}
    (hw : s.memory.wires w = some wire) (name : String) :
    (withWire s name).memory.wires w = some wire := by
  have hne : w ≠ s.memory.nextWire := by
    rintro rfl
    rw [h.freshWire _ le_rfl] at hw
    cases hw
  exact (Function.update_of_ne hne _ _).trans hw

theorem names_withWire {name name' : String} (hname : s.circ.wires name = none) {w : WireId}
    (hw : s.circ.wires name' = some w) : (withWire s name).circ.wires name' = some w := by
  have hne : name' ≠ name := by
    rintro rfl
    rw [hname] at hw
    cases hw
  exact (Function.update_of_ne hne _ _).trans hw

/-- The new wire is at a fresh address. -/
theorem name_ne_nextWire (h : Wired box base ties s) {name : String} {w : WireId}
    (hw : s.circ.wires name = some w) : w ≠ s.memory.nextWire := by
  obtain ⟨-, wire, hwire, -⟩ := h.wire name w hw
  rintro rfl
  rw [h.freshWire _ le_rfl] at hwire
  cases hwire

theorem names_withWire_cases {name name' : String} {w : WireId}
    (hw : (withWire s name).circ.wires name' = some w) :
    (name' = name ∧ w = s.memory.nextWire) ∨ (name' ≠ name ∧ s.circ.wires name' = some w) := by
  by_cases he : name' = name
  · subst he
    have hself : (withWire s name').circ.wires name' = some s.memory.nextWire :=
      Function.update_self ..
    exact .inl ⟨rfl, Option.some.inj (hw.symm.trans hself)⟩
  · exact .inr ⟨he, (Function.update_of_ne he _ _).symm.trans hw⟩

theorem createWire (h : Wired box base ties s) {name : String}
    (hname : s.circ.wires name = none) : Wired box base ties (withWire s name) where
  freshGate := h.freshGate
  freshWire := by
    intro w hw
    have hne : w ≠ s.memory.nextWire := Nat.ne_of_gt hw
    exact (Function.update_of_ne hne _ _).trans (h.freshWire w (Nat.le_of_lt hw))
  freshTokenport := h.freshTokenport
  above := ⟨h.above.1, Nat.le_succ_of_le h.above.2.1, h.above.2.2⟩
  tokenport := h.tokenport
  live := h.live
  comparator := h.comparator
  wire := by
    intro name' w hw
    rcases names_withWire_cases hw with ⟨-, rfl⟩ | ⟨-, hw⟩
    · exact ⟨h.above.2.1, _, Function.update_self .., rfl, rfl, rfl⟩
    · obtain ⟨hbase, wire, hwire, hrest⟩ := h.wire name' w hw
      exact ⟨hbase, wire, h.wires_withWire hwire name, hrest⟩
  name := by
    intro w wire hbase hwire
    by_cases he : w = s.memory.nextWire
    · exact ⟨name, he ▸ Function.update_self ..⟩
    · obtain ⟨name', hw⟩ := h.name w wire hbase ((Function.update_of_ne he _ _).symm.trans hwire)
      exact ⟨name', names_withWire hname hw⟩
  injective := by
    intro name' name'' w hw hw'
    rcases names_withWire_cases hw with ⟨he, hnew⟩ | ⟨-, hold⟩ <;>
      rcases names_withWire_cases hw' with ⟨he', hnew'⟩ | ⟨-, hold'⟩
    · rw [he, he']
    · exact absurd hnew (h.name_ne_nextWire hold')
    · exact absurd hnew' (h.name_ne_nextWire hold)
    · exact h.injective name' name'' w hold hold'
  slot := by
    intro g gate dir i c hbase hg hc
    obtain ⟨name', w, p, ht, hw, hbound⟩ := h.slot g gate dir i c hbase hg hc
    obtain ⟨wire, hwire, hp⟩ := hbound.entry
    exact ⟨name', w, p, ht, names_withWire hname hw, hbound.content,
      ⟨wire, h.wires_withWire hwire name, hp⟩, hbound.mine, hbound.tokenport⟩
  tied := h.tied
  entry := by
    intro w wire dir hbase hwire
    by_cases he : w = s.memory.nextWire
    · subst he
      have hself : (withWire s name).memory.wires s.memory.nextWire = some _ :=
        Function.update_self ..
      obtain rfl := Option.some.inj (hself.symm.trans hwire)
      refine ⟨[], ?_, by simp⟩
      cases dir <;> exact isNt_nil
    · exact h.entry w wire dir hbase ((Function.update_of_ne he _ _).symm.trans hwire)

/-- Whether the wire of a name is found or created, it is the wire of the name afterwards, and
    no gate changes. -/
theorem getOrCreateWire (h : Wired box base ties s) (name : String) :
    ∃ w circ W, lxcCircuitGetOrCreateWire s.circ name .int s.memory = some (some w, circ, W) ∧
      Wired box base ties { s with circ := circ, memory := W } ∧ circ.wires name = some w ∧
      circ.gates = s.circ.gates ∧ W.gates = s.memory.gates := by
  cases hname : s.circ.wires name with
  | some w =>
    obtain ⟨-, wire, hw, htype, -⟩ := h.wire name w hname
    refine ⟨w, s.circ, s.memory, ?_, h, hname, rfl, rfl⟩
    simp [lxcCircuitGetOrCreateWire, lxcCircuitGetWireByRefdes, hname, hw, htype]
  | none =>
    refine ⟨s.memory.nextWire, (withWire s name).circ, (withWire s name).memory, ?_,
      h.createWire hname, Function.update_self .., rfl, rfl⟩
    simp [lxcCircuitGetOrCreateWire, lxcCircuitGetWireByRefdes, hname, lxcWireCreate,
      lxcWireSetRefdes, lxcCircuitAddWire, World.setWire, withWire]

end Wired

/-! ## Tying a wire -/

namespace Tied

variable {box : SorterBox} {dir : Direction} {g : GateId} {i : Nat} {w : WireId} {W W' : World}

/-- What a slot holds after wire `w` was tied to port `i` of `g`. -/
def slotAfter (dir : Direction) (g : GateId) (i : Nat) (c : Nat) (gate : Gate) (g' : GateId)
    (dir' : Direction) (i' : Nat) : Option Nat :=
  if g' = g ∧ dir' = dir ∧ i' = i then some c else slotAt (gate.side dir').slots i'

theorem gate_after (h : Tied box dir g i w W W') {g' : GateId} {gate : Gate}
    (hg : W.gates g' = some gate) :
    ∃ gate', W'.gates g' = some gate' ∧ (gate.IsComparator box → gate'.IsComparator box) ∧
      gate'.enabled = gate.enabled ∧ ∀ dir' i', slotAt (gate'.side dir').slots i' =
        slotAfter dir g i (Wiring.content dir w W.nextTokenport) gate g' dir' i' := by
  obtain ⟨gate₀, gate₁, hg₀, hgates, hcmp, henabled, hslots⟩ := h.gate
  by_cases he : g' = g
  · subst he
    obtain rfl := Option.some.inj (hg₀.symm.trans hg)
    refine ⟨gate₁, by rw [hgates, Function.update_self], fun _ => hcmp, henabled, ?_⟩
    intro dir' i'
    simp [hslots, slotAfter]
  · refine ⟨gate, by rw [hgates, Function.update_of_ne he, hg], id, rfl, fun dir' i' => ?_⟩
    simp [slotAfter, he]

theorem gate_before (h : Tied box dir g i w W W') {g' : GateId} {gate' : Gate}
    (hg : W'.gates g' = some gate') : ∃ gate, W.gates g' = some gate := by
  obtain ⟨gate₀, gate₁, hg₀, hgates, -⟩ := h.gate
  by_cases he : g' = g
  · exact ⟨gate₀, he ▸ hg₀⟩
  · rw [hgates, Function.update_of_ne he] at hg
    exact ⟨gate', hg⟩

/-- A wire afterwards: the tied one has a new entry. -/
theorem wire_after (h : Tied box dir g i w W W') {w' : WireId} {wire : Wire}
    (hw : W.wires w' = some wire) :
    ∃ wire', W'.wires w' = some wire' ∧ wire'.type = wire.type ∧ wire'.handler = wire.handler ∧
      wire'.currentValue = wire.currentValue ∧ ∀ dir', wire'.ports dir' =
        if w' = w ∧ dir' = dir then
          (arrayNtAppendElement (wire.ports dir) (some W.nextTokenport)).2
        else wire.ports dir' := by
  obtain ⟨wire₀, hw₀, hwires⟩ := h.wire
  by_cases he : w' = w
  · subst he
    obtain rfl := Option.some.inj (hw₀.symm.trans hw)
    refine ⟨_, by rw [hwires, Function.update_self], ?_, ?_, ?_, fun dir' => ?_⟩
    · cases dir <;> rfl
    · cases dir <;> rfl
    · cases dir <;> rfl
    · by_cases hd : dir' = dir
      · subst hd
        rw [Wire.ports_setPorts_self, if_pos ⟨rfl, rfl⟩]
      · rw [Wire.ports_setPorts_ne _ hd, if_neg fun e => hd e.2]
  · refine ⟨wire, by rw [hwires, Function.update_of_ne he, hw], rfl, rfl, rfl, fun dir' => ?_⟩
    rw [if_neg fun e => he e.1]

theorem wire_before (h : Tied box dir g i w W W') {w' : WireId} {wire' : Wire}
    (hw : W'.wires w' = some wire') : ∃ wire, W.wires w' = some wire := by
  obtain ⟨wire₀, hw₀, hwires⟩ := h.wire
  by_cases he : w' = w
  · exact ⟨wire₀, he ▸ hw₀⟩
  · rw [hwires, Function.update_of_ne he] at hw
    exact ⟨wire', hw⟩

/-- An entry before is one afterwards. -/
theorem entry_after (h : Tied box dir g i w W W') {w' : WireId} {dir' : Direction}
    {p : TokenportId} {wire : Wire} (hw : W.wires w' = some wire)
    (hnt : IsNt (wire.ports dir') (entries (wire.ports dir')))
    (hp : p ∈ entries (wire.ports dir')) :
    ∃ wire', W'.wires w' = some wire' ∧ p ∈ entries (wire'.ports dir') := by
  obtain ⟨wire', hw', -, -, -, hports⟩ := h.wire_after hw
  refine ⟨wire', hw', ?_⟩
  rw [hports]
  split
  · next he =>
    obtain ⟨-, rfl⟩ := he
    rw [(entries_append hnt _).2]
    exact List.mem_append_left _ hp
  · exact hp

theorem tokenport_after (h : Tied box dir g i w W W')
    (hfresh : W.tokenports W.nextTokenport = none) {p : TokenportId} {tp : Tokenport}
    (hp : W.tokenports p = some tp) : W'.tokenports p = some tp := by
  obtain ⟨tp', htokenports, -⟩ := h.tokenport
  have hne : p ≠ W.nextTokenport := by
    rintro rfl
    rw [hfresh] at hp
    cases hp
  rw [htokenports, Function.update_of_ne hne, hp]

end Tied

namespace Wired

variable {box : SorterBox} {base : Base} {ties : Ties} {s : Building}

theorem isNt_entries (h : Wired box base ties s) {w : WireId} {wire : Wire}
    (hbase : base.wire ≤ w) (hw : s.memory.wires w = some wire) (dir : Direction) :
    IsNt (wire.ports dir) (entries (wire.ports dir)) := by
  obtain ⟨l, hl, -⟩ := h.entry w wire dir hbase hw
  rw [hl.entries_eq]
  exact hl

theorem of_tied (h : Wired box base ties s) {dir : Direction} {g : GateId} {i : Nat} {w : WireId}
    {W' : World} {name : String} (hname : s.circ.wires name = some w) (hbase : base.gate ≤ g)
    (hfree : ties g dir i = none) (ht : Tied box dir g i w s.memory W') :
    Wired box base (ties.set g dir i name) { s with memory := W' } where
  freshGate := by
    intro g' hg'
    cases hg : W'.gates g' with
    | none => rfl
    | some gate' =>
      obtain ⟨gate, hgate⟩ := ht.gate_before hg
      rw [h.freshGate g' hg'] at hgate
      cases hgate
  freshWire := by
    intro w' hw'
    have hle : s.memory.nextWire ≤ w' := ht.nextWire ▸ hw'
    cases hw : W'.wires w' with
    | none => rfl
    | some wire' =>
      obtain ⟨wire, hwire⟩ := ht.wire_before hw
      rw [h.freshWire w' hle] at hwire
      cases hwire
  freshTokenport := by
    intro p hp
    have hlt : s.memory.nextTokenport < p := by
      have hle : W'.nextTokenport ≤ p := hp
      rwa [ht.nextTokenport] at hle
    obtain ⟨tp, htokenports, -⟩ := ht.tokenport
    show W'.tokenports p = none
    rw [htokenports, Function.update_of_ne (Nat.ne_of_gt hlt), h.freshTokenport p (Nat.le_of_lt hlt)]
  above := by
    obtain ⟨h1, h2, h3⟩ := h.above
    refine ⟨h1, ?_, ?_⟩
    · exact ht.nextWire ▸ h2
    · exact ht.nextTokenport ▸ Nat.le_succ_of_le h3
  tokenport := by
    intro p tp hp htp
    obtain ⟨tp', htokenports, howner, hgate, -⟩ := ht.tokenport
    have htp' : Function.update s.memory.tokenports s.memory.nextTokenport (some tp') p = some tp :=
      htokenports ▸ htp
    by_cases he : p = s.memory.nextTokenport
    · rw [he, Function.update_self] at htp'
      obtain rfl := Option.some.inj htp'
      exact ⟨howner ▸ (h.wire name w hname).1, hgate ▸ hbase⟩
    · rw [Function.update_of_ne he] at htp'
      exact h.tokenport p tp hp htp'
  live := by
    intro g' hg' hlt
    obtain ⟨gate, hg⟩ := h.live g' hg' hlt
    obtain ⟨gate', hgate', -⟩ := ht.gate_after hg
    exact ⟨gate', hgate'⟩
  comparator := by
    intro g' gate' hg' hgate'
    obtain ⟨gate, hg⟩ := ht.gate_before hgate'
    obtain ⟨hcmp, hoff⟩ := h.comparator g' gate hg' hg
    obtain ⟨gate'', hgate'', hkeep, henabled, -⟩ := ht.gate_after hg
    obtain rfl := Option.some.inj (hgate''.symm.trans hgate')
    exact ⟨hkeep hcmp, henabled.trans hoff⟩
  wire := by
    intro name' w' hw'
    obtain ⟨hle, wire, hwire, htype, hhandler, hvalue⟩ := h.wire name' w' hw'
    obtain ⟨wire', hwire', htype', hhandler', hvalue', -⟩ := ht.wire_after hwire
    exact ⟨hle, wire', hwire', htype'.trans htype, hhandler'.trans hhandler, hvalue'.trans hvalue⟩
  name := by
    intro w' wire' hle hwire'
    obtain ⟨wire, hwire⟩ := ht.wire_before hwire'
    exact h.name w' wire hle hwire
  injective := h.injective
  slot := by
    intro g' gate' dir' i' c hg' hgate' hc
    obtain ⟨gate, hg⟩ := ht.gate_before hgate'
    obtain ⟨gate'', hgate'', -, -, hslots⟩ := ht.gate_after hg
    obtain rfl := Option.some.inj (hgate''.symm.trans hgate')
    obtain ⟨hlew, wire, hwire, -⟩ := h.wire name w hname
    rw [hslots, Tied.slotAfter] at hc
    split at hc
    · -- the port that was tied
      next he =>
      obtain ⟨rfl, rfl, rfl⟩ := he
      obtain ⟨tp, htokenports, hfields⟩ := ht.tokenport
      obtain ⟨wire', hwire', -, -, -, hports⟩ := ht.wire_after hwire
      refine ⟨name, w, s.memory.nextTokenport, ties.set_self .., hname,
        (Option.some.inj hc).symm, ⟨wire', hwire', ?_⟩, h.above.2.2, tp, ?_, hfields⟩
      · rw [hports, if_pos ⟨rfl, rfl⟩, (entries_append (h.isNt_entries hlew hwire dir') _).2]
        exact List.mem_append_right _ (List.mem_singleton_self _)
      · show W'.tokenports _ = _
        rw [htokenports, Function.update_self]
    · next hne =>
      obtain ⟨name', w', p, ht', hw', hbound⟩ := h.slot g' gate dir' i' c hg' hg hc
      obtain ⟨wire₀, hwire₀, hp⟩ := hbound.entry
      obtain ⟨tp, htp, hfields⟩ := hbound.tokenport
      have hnt := h.isNt_entries (h.wire name' w' hw').1 hwire₀ dir'
      exact ⟨name', w', p, (ties.set_of_ne hne name).trans ht', hw', hbound.content,
        ht.entry_after hwire₀ hnt hp, hbound.mine, tp,
        ht.tokenport_after (h.freshTokenport _ le_rfl) htp, hfields⟩
  tied := by
    intro g' dir' i' name' hset
    by_cases he : g' = g ∧ dir' = dir ∧ i' = i
    · obtain ⟨rfl, rfl, rfl⟩ := he
      obtain ⟨gate₀, gate₁, hg₀, hgates, -, -, hslots⟩ := ht.gate
      refine ⟨hbase, gate₁, Wiring.content dir' w s.memory.nextTokenport, ?_, ?_⟩
      · show W'.gates g' = _
        rw [hgates, Function.update_self]
      · rw [hslots, if_pos ⟨rfl, rfl⟩]
    · rw [ties.set_of_ne he] at hset
      obtain ⟨hg', gate, c, hg, hc⟩ := h.tied g' dir' i' name' hset
      obtain ⟨gate', hgate', -, -, hslots⟩ := ht.gate_after hg
      exact ⟨hg', gate', c, hgate', by rw [hslots, Tied.slotAfter, if_neg he, hc]⟩
  entry := by
    intro w' wire' dir' hle hwire'
    obtain ⟨wire, hwire⟩ := ht.wire_before hwire'
    obtain ⟨l, hl, hall⟩ := h.entry w' wire dir' hle hwire
    obtain ⟨wire'', hwire'', -, -, -, hports⟩ := ht.wire_after hwire
    obtain rfl := Option.some.inj (hwire''.symm.trans hwire')
    -- the entries from before stay bound: the port that was tied was free
    have hold : ∀ p ∈ l, base.tokenport ≤ p ∧ ∃ tp gate, W'.tokenports p = some tp ∧
        tp.owner = w' ∧ base.gate ≤ tp.gate ∧ W'.gates tp.gate = some gate ∧
        slotAt (gate.side dir').slots tp.index = some (Wiring.content dir' w' p) := by
      intro p hp
      obtain ⟨hmine, tp, gate, htp, howner, hg', hg, hc⟩ := hall p hp
      obtain ⟨gate', hgate', -, -, hslots⟩ := ht.gate_after hg
      refine ⟨hmine, tp, gate', ht.tokenport_after (h.freshTokenport _ le_rfl) htp, howner, hg',
        hgate', ?_⟩
      rw [hslots, Tied.slotAfter, if_neg, hc]
      rintro ⟨he, hd, hi⟩
      obtain ⟨name', -, -, ht', -⟩ := h.slot tp.gate gate dir' tp.index _ hg' hg hc
      rw [he, hd, hi, hfree] at ht'
      cases ht'
    by_cases he : w' = w ∧ dir' = dir
    · obtain ⟨rfl, rfl⟩ := he
      obtain ⟨tp, htokenports, howner, hgate, hindex⟩ := ht.tokenport
      obtain ⟨gate₀, gate₁, hg₀, hgates, -, -, hslots⟩ := ht.gate
      have hnt := h.isNt_entries hle hwire dir'
      have hentries : entries (wire.ports dir') = l := hl.entries_eq
      refine ⟨l ++ [s.memory.nextTokenport], ?_, fun p hp => ?_⟩
      · rw [hports, if_pos ⟨rfl, rfl⟩, ← hentries]
        exact (entries_append hnt _).1
      rcases List.mem_append.mp hp with hp | hp
      · exact hold p hp
      · obtain rfl := List.mem_singleton.mp hp
        refine ⟨h.above.2.2, tp, gate₁, ?_, howner, hgate ▸ hbase, ?_, ?_⟩
        · show W'.tokenports _ = _
          rw [htokenports, Function.update_self]
        · show W'.gates _ = _
          rw [hgates, hgate, Function.update_self]
        · rw [hslots, hindex, if_pos ⟨rfl, rfl⟩]
    · refine ⟨l, ?_, hold⟩
      rw [hports, if_neg he]
      exact hl

/-- Tying a named wire to a port that has no tie. -/
theorem tie (h : Wired box base ties s) (ex : ExecCall → World → Option World) {dir : Direction}
    {g : GateId} {i : Nat} (hbase : base.gate ≤ g) (hlt : g < s.nextGate) (hi : i < 2)
    (hfree : ties g dir i = none) (name : String) :
    ∃ s', s.tie ex dir name g i = some s' ∧ Wired box base (ties.set g dir i name) s' ∧
      s'.nextGate = s.nextGate ∧ s'.circ.gates = s.circ.gates := by
  obtain ⟨w, circ, W, hcreate, hwired, hname, hgates, hsame⟩ := h.getOrCreateWire name
  obtain ⟨gate, hg⟩ := hwired.live g hbase hlt
  obtain ⟨hcmp, hoff⟩ := hwired.comparator g gate hbase hg
  obtain ⟨-, wire, hw, htype, -⟩ := hwired.wire name w hname
  obtain ⟨W', hcall, htied⟩ := lxcWireGate_comparator ex hg hcmp hoff hw htype hi
    (hwired.slot_free hbase hg hfree)
  refine ⟨{ s with circ := circ, memory := W' }, ?_, hwired.of_tied hname hbase hfree htied, rfl,
    hgates⟩
  simp [Building.tie, hcreate, hcall]

end Wired

end LogxControll
