/-
  `lxc_circuit_wire_ports_together` is all or nothing.

  What the search by label returns is a port that the wiring functions accept
  (`lxcGateGetPortinfoByName_ok`), so after the checks nothing refuses the two wirings:
  `lxcCircuitWirePortsTogether_cases`.
-/
import LogxControll.Core.Circuit
import LogxControll.Wiring.Consistency

namespace LogxControll

/-! ## The search by label -/

theorem findLabel_some {gate : Gate} {dir : Direction} {sig : Signal} {sub : Int}
    {portName : String} {i : Nat} :
    ∀ {n t : Nat}, findLabel gate dir sig sub portName n t = some (some i) →
      t ≤ i ∧ i < t + n ∧ ∃ name, gate.getLabel dir sig sub i = some (some name) ∧
        name.text = portName
  | 0, _, h => by simp [findLabel] at h
  | n + 1, t, h => by
      simp only [findLabel, Option.bind_eq_bind, Option.bind_eq_some_iff] at h
      obtain ⟨name, hname, h⟩ := h
      split at h
      · next hm =>
        obtain rfl : t = i := by simpa using h
        obtain ⟨name', rfl, htext⟩ := Option.map_eq_some_iff.mp hm
        exact ⟨le_rfl, by omega, name', hname, htext⟩
      · obtain ⟨hle, hlt, hlabel⟩ := findLabel_some h
        exact ⟨by omega, by omega, hlabel⟩

theorem findPortInfo_some {gate : Gate} {dir : Direction} {portName : String} {sig : Signal}
    {sub : Int} {i : Nat} :
    ∀ {types : List FullSignalType},
      findPortInfo gate dir portName types = some (some (sig, sub, i)) →
      ⟨sig, sub⟩ ∈ types ∧ (∃ max, gate.getMaxIndex dir sig sub = some max ∧ (i : Int) < max) ∧
        ∃ name, gate.getLabel dir sig sub i = some (some name) ∧ name.text = portName
  | [], h => by simp [findPortInfo] at h
  | ⟨sig', sub'⟩ :: types, h => by
      simp only [findPortInfo, Option.bind_eq_bind, Option.bind_eq_some_iff] at h
      obtain ⟨max, hmax, found, hfound, h⟩ := h
      cases found with
      | none =>
        obtain ⟨hmem, hrest⟩ := findPortInfo_some h
        exact ⟨List.mem_cons_of_mem _ hmem, hrest⟩
      | some t =>
        simp only [pure, Option.some.injEq, Prod.mk.injEq] at h
        obtain ⟨rfl, rfl, rfl⟩ := h
        obtain ⟨-, hlt, hlabel⟩ := findLabel_some hfound
        exact ⟨List.mem_cons_self, ⟨max, hmax, by omega⟩, hlabel⟩

theorem intOfUint_le (n : Nat) : intOfUint n ≤ n := by
  unfold intOfUint
  rw [Int.bmod_def]
  omega

namespace Gate.Sound

variable {g : Gate}

theorem getTypes_eq (h : g.Sound) (dir : Direction) :
    g.getTypes dir = lxcPortFillTypes (g.side dir).manager lxcGateMaxIoTypeCount := by
  unfold Gate.getTypes
  rcases h.generic with hc | hc <;> simp [hc]

theorem getMaxIndex_eq (h : g.Sound) (dir : Direction) (type : Signal) (subtype : Int) :
    g.getMaxIndex dir type subtype =
      lxcGenericGetTypeMaxIndex (g.side dir).manager type subtype := by
  unfold Gate.getMaxIndex
  rcases h.generic with hc | hc <;> simp [hc]

theorem getLabel_eq (h : g.Sound) (dir : Direction) (type : Signal) (subtype : Int)
    (index : Nat) :
    g.getLabel dir type subtype index =
      lxcGenericGetPortLabel (g.side dir).manager type subtype index := by
  unfold Gate.getLabel
  rcases h.generic with hc | hc <;> simp [hc]

/-- An index below the reported count is the index of a port. -/
theorem hasPort_of_lt_max (h : g.Sound) {dir : Direction} {type : Signal} {subtype max : Int}
    {index : Nat} (hmax : g.getMaxIndex dir type subtype = some max) (hlt : (index : Int) < max) :
    g.HasPort dir type subtype index ∧ index < 2 ^ 31 := by
  obtain ⟨gs, names, hs⟩ := h.side dir
  rw [h.getMaxIndex_eq, hs.represents.lxcGenericGetTypeMaxIndex_eq, Option.some.injEq] at hmax
  split at hmax
  · have hle := intOfUint_le (absList gs ⟨type, subtype⟩).length
    have hbound := (intOfUint_toNat_of_nonneg (n := (absList gs ⟨type, subtype⟩).length)
      (by omega)).1
    refine ⟨(Gate.hasPort_iff hs type subtype index).mpr ⟨_, List.getElem?_eq_getElem ?_⟩, ?_⟩
    · omega
    · omega
  · omega

end Gate.Sound

/-- The port found for a name is one that the wiring functions accept. -/
theorem lxcGateGetPortinfoByName_ok {g : Gate} {dir : Direction} {portName : String}
    {sig : Signal} {sub : Int} {index : Nat} (h : g.Sound)
    (hfind : lxcGateGetPortinfoByName g dir portName = some (.ok (sig, sub, index))) :
    g.Accepts dir sig sub index ∧ index < 2 ^ 31 := by
  simp only [lxcGateGetPortinfoByName, Option.bind_eq_bind] at hfind
  split at hfind
  · simp at hfind
  next hep =>
  rw [Option.bind_eq_some_iff] at hfind
  obtain ⟨found, hfound, hfind⟩ := hfind
  cases found with
  | none => simp at hfind
  | some info =>
    obtain rfl : info = (sig, sub, index) := by simpa using hfind
    obtain ⟨hmem, ⟨max, hmax, hlt⟩, -⟩ := findPortInfo_some hfound
    obtain ⟨hport, hbound⟩ := h.hasPort_of_lt_max hmax hlt
    refine ⟨⟨⟨?_, hmem, by omega, max, hmax, by omega⟩, hport⟩, hbound⟩
    simp only [lxcGateMaxIoTypeCount]
    omega

theorem Gate.Accepts.of_managers {g g' : Gate} (h : g.Sound) (h' : g'.Sound)
    (hm : g'.managers = g.managers) {dir : Direction} {type : Signal} {subtype : Int}
    {index : Nat} (hacc : g.Accepts dir type subtype index) :
    g'.Accepts dir type subtype index := by
  have hside : (g'.side dir).manager = (g.side dir).manager := by
    simp only [Gate.managers, Prod.mk.injEq] at hm
    cases dir
    · exact hm.2.2.1
    · exact hm.2.2.2
  refine ⟨⟨?_, ?_, hacc.checked.nonneg, ?_⟩, ?_⟩
  · rw [h'.getTypes_eq, hside, ← h.getTypes_eq]
    exact hacc.checked.count
  · rw [h'.getTypes_eq, hside, ← h.getTypes_eq]
    exact hacc.checked.supported
  · rw [h'.getMaxIndex_eq, hside, ← h.getMaxIndex_eq]
    exact hacc.checked.inRange
  · unfold Gate.HasPort
    rw [hside]
    exact hacc.port

/-! ## The checks -/

theorem lxcGateGetPortinfoByName_error {g : Gate} {dir : Direction} {portName : String} {e : Int}
    (h : lxcGateGetPortinfoByName g dir portName = some (.error e)) : e ≠ 0 := by
  simp only [lxcGateGetPortinfoByName, Option.bind_eq_bind] at h
  split at h
  · obtain rfl : _ = e := by simpa using h
    decide
  · rw [Option.bind_eq_some_iff] at h
    obtain ⟨found, -, h⟩ := h
    cases found with
    | some info => simp at h
    | none =>
      obtain rfl : _ = e := by simpa using h
      decide

/-- The port a name stands for: it is accepted, and free. -/
structure NamedPort (circ : IOCircuit) (W : World) (gateName portName : String) (q : Port) :
    Prop where
  registered : circ.gates gateName = some q.gate
  found : ∃ gt, W.gates q.gate = some gt ∧
    lxcGateGetPortinfoByName gt q.dir portName = some (.ok (q.type, q.subtype, q.index))
  free : W.wiring.slot q = none

theorem NamedPort.accepts {circ : IOCircuit} {W : World} {gateName portName : String} {q : Port}
    (h : W.Sound) (hq : NamedPort circ W gateName portName q) :
    ∃ gt, W.gates q.gate = some gt ∧ gt.Accepts q.dir q.type q.subtype q.index ∧
      q.index < 2 ^ 31 := by
  obtain ⟨gt, hg, hf⟩ := hq.found
  obtain ⟨hacc, hlt⟩ := lxcGateGetPortinfoByName_ok (h.gates q.gate gt hg) hf
  exact ⟨gt, hg, hacc, hlt⟩

section Checks

variable {circ : IOCircuit} {W : World} {gateName portName : String} {e : Int}

theorem outPortByName_error (h : outPortByName circ gateName portName W = some (.error e)) :
    e ≠ 0 := by
  unfold outPortByName at h
  split at h
  · obtain rfl : _ = e := by simpa using h
    decide
  · simp only [Option.bind_eq_bind, Option.bind_eq_some_iff] at h
    obtain ⟨gate, -, info, hinfo, h⟩ := h
    cases info with
    | error stat =>
      obtain rfl : stat = e := by simpa using h
      exact lxcGateGetPortinfoByName_error hinfo
    | ok info =>
      simp only [Option.bind_eq_some_iff] at h
      obtain ⟨tp, -, h⟩ := h
      split at h
      · obtain rfl : _ = e := by simpa using h
        decide
      · simp at h

theorem outPortByName_ok (hW : W.Sound) {g : GateId} {sig : Signal} {sub : Int} {index : Nat}
    (h : outPortByName circ gateName portName W = some (.ok (g, sig, sub, index))) :
    NamedPort circ W gateName portName ⟨g, .output, sig, sub, index⟩ := by
  unfold outPortByName at h
  split at h
  · simp at h
  next out hreg =>
  simp only [Option.bind_eq_bind, Option.bind_eq_some_iff] at h
  obtain ⟨gate, hg, info, hinfo, h⟩ := h
  cases info with
  | error stat => simp at h
  | ok info =>
    simp only [Option.bind_eq_some_iff] at h
    obtain ⟨tp, htp, h⟩ := h
    split at h
    · simp at h
    next hfree =>
    simp only [pure, Option.some.injEq, Except.ok.injEq, Prod.mk.injEq] at h
    obtain ⟨rfl, rfl, rfl, rfl⟩ := h
    refine ⟨hreg, ⟨gate, hg, hinfo⟩, ?_⟩
    rw [(hW.gates _ _ hg).getWire_eq, Option.some.injEq] at htp
    rw [W.wiring_slot (q := ⟨out, .output, _, _, _⟩) hg, htp]
    simpa using hfree

theorem inPortByName_error {sig : Signal} {sub : Int}
    (h : inPortByName circ gateName portName sig sub W = some (.error e)) : e ≠ 0 := by
  unfold inPortByName at h
  split at h
  · obtain rfl : _ = e := by simpa using h
    decide
  · simp only [Option.bind_eq_bind, Option.bind_eq_some_iff] at h
    obtain ⟨gate, -, info, hinfo, h⟩ := h
    cases info with
    | error stat =>
      obtain rfl : stat = e := by simpa using h
      exact lxcGateGetPortinfoByName_error hinfo
    | ok info =>
      simp only at h
      split at h
      · obtain rfl : _ = e := by simpa using h
        decide
      · rw [Option.bind_eq_some_iff] at h
        obtain ⟨tp, -, h⟩ := h
        split at h
        · obtain rfl : _ = e := by simpa using h
          decide
        · simp at h

theorem inPortByName_ok (hW : W.Sound) {g : GateId} {sig : Signal} {sub : Int} {index : Nat}
    (h : inPortByName circ gateName portName sig sub W = some (.ok (g, index))) :
    NamedPort circ W gateName portName ⟨g, .input, sig, sub, index⟩ := by
  unfold inPortByName at h
  split at h
  · simp at h
  next in_ hreg =>
  simp only [Option.bind_eq_bind, Option.bind_eq_some_iff] at h
  obtain ⟨gate, hg, info, hinfo, h⟩ := h
  cases info with
  | error stat => simp at h
  | ok info =>
    obtain ⟨bustType, bustSub, inIndex⟩ := info
    simp only at h
    split at h
    · simp at h
    next htype =>
    rw [Option.bind_eq_some_iff] at h
    obtain ⟨tp, htp, h⟩ := h
    split at h
    · simp at h
    next hfree =>
    simp only [pure, Option.some.injEq, Except.ok.injEq, Prod.mk.injEq] at h
    obtain ⟨rfl, rfl⟩ := h
    obtain ⟨rfl, rfl⟩ : sig = bustType ∧ sub = bustSub := by
      rwa [not_or, not_not, not_not] at htype
    refine ⟨hreg, ⟨gate, hg, hinfo⟩, ?_⟩
    rw [(hW.gates _ _ hg).getWire_eq, Option.some.injEq] at htp
    rw [W.wiring_slot (q := ⟨in_, .input, _, _, _⟩) hg, htp]
    simpa using hfree

end Checks

/-- The wire as `lxc_wire_create` and `lxc_wire_set_refdes` leave it. -/
def freshWire (sig : Signal) (name : String) : Wire :=
  { type := sig, subtype := 0, currentValue := none, refDes := some name, drivers := [],
    drivens := [], handler := .directPropagateValue }

/-- The circuit and the world with a new wire registered under the name. -/
def IOCircuit.register (circ : IOCircuit) (name : String) (w : WireId) : IOCircuit :=
  { circ with wires := Function.update circ.wires name (some w) }

/-- The memory with one wire more. -/
def World.newWire (W : World) (wire : Wire) : World :=
  { W.setWire W.nextWire wire with nextWire := W.nextWire + 1 }

/-- The wire of the name: registered before and never driven, or created for the type. -/
inductive NamedWire (circ : IOCircuit) (W : World) (name : String) (sig : Signal) (sub : Int) :
    WireId → IOCircuit → World → Prop
  | existing {w : WireId} {wire : Wire} (hreg : circ.wires name = some w)
      (hw : W.wires w = some wire) (ht : wire.type = sig) (hs : wire.subtype = sub)
      (hd : wire.drivers = []) : NamedWire circ W name sig sub w circ W
  | created (hreg : circ.wires name = none) : NamedWire circ W name sig sub W.nextWire
      (circ.register name W.nextWire) (W.newWire (freshWire sig name))

theorem wireByName_created {circ : IOCircuit} {name : String} {sig : Signal} {sub : Int} {W : World}
    (hreg : circ.wires name = none) :
    wireByName circ name sig sub true W =
      some (.ok W.nextWire, circ.register name W.nextWire, W.newWire (freshWire sig name)) := by
  have hset : lxcWireSetRefdes W.nextWire name (lxcWireCreate sig W).2 =
      some (W.newWire (freshWire sig name)) := by
    simp only [lxcWireSetRefdes, lxcWireCreate, World.setWire, Function.update_self,
      Option.bind_eq_bind, Option.bind_some, Function.update_idem]
    rfl
  have hadd : lxcCircuitAddWire circ W.nextWire (W.newWire (freshWire sig name)) =
      some (false, circ.register name W.nextWire) := by
    simp [lxcCircuitAddWire, World.newWire, World.setWire, freshWire,
      lxcCircuitGetWireByRefdes, hreg, IOCircuit.register]
  have hfst : (lxcWireCreate sig W).1 = W.nextWire := rfl
  simp only [wireByName, lxcCircuitGetWireByRefdes, hreg, if_true, hfst, hset, hadd,
    Option.bind_eq_bind, Option.bind_some, Bool.false_eq_true, if_false]
  rfl

theorem wireByName_cases {circ circ' : IOCircuit} {name : String} {sig : Signal} {sub : Int}
    {create : Bool} {W W' : World} {res : Except Int WireId}
    (h : wireByName circ name sig sub create W = some (res, circ', W')) :
    (∃ e, res = .error e ∧ e ≠ 0 ∧ circ' = circ ∧ W' = W) ∨
      ∃ w, res = .ok w ∧ NamedWire circ W name sig sub w circ' W' ∧
        (circ.wires name = none → create = true) := by
  cases hreg : circ.wires name with
  | none =>
    cases create with
    | false =>
      simp only [wireByName, lxcCircuitGetWireByRefdes, hreg, Bool.false_eq_true, if_false, pure,
        Option.some.injEq, Prod.mk.injEq] at h
      obtain ⟨rfl, rfl, rfl⟩ := h
      exact .inl ⟨_, rfl, by decide, rfl, rfl⟩
    | true =>
      rw [wireByName_created hreg, Option.some.injEq, Prod.mk.injEq, Prod.mk.injEq] at h
      obtain ⟨rfl, rfl, rfl⟩ := h
      exact .inr ⟨_, rfl, .created hreg, fun _ => rfl⟩
  | some w =>
    simp only [wireByName, lxcCircuitGetWireByRefdes, hreg, Option.bind_eq_bind,
      Option.bind_eq_some_iff] at h
    obtain ⟨wire, hw, h⟩ := h
    split at h
    · simp only [pure, Option.some.injEq, Prod.mk.injEq] at h
      obtain ⟨rfl, rfl, rfl⟩ := h
      exact .inl ⟨_, rfl, by decide, rfl, rfl⟩
    next htype =>
    split at h
    · simp only [pure, Option.some.injEq, Prod.mk.injEq] at h
      obtain ⟨rfl, rfl, rfl⟩ := h
      exact .inl ⟨_, rfl, by decide, rfl, rfl⟩
    next hlen =>
    simp only [pure, Option.some.injEq, Prod.mk.injEq] at h
    obtain ⟨rfl, rfl, rfl⟩ := h
    obtain ⟨rfl, rfl⟩ : sig = wire.type ∧ sub = wire.subtype := by
      rwa [not_or, not_not, not_not] at htype
    have hd : wire.drivers = [] := List.length_eq_zero_iff.mp (not_not.mp hlen)
    exact .inr ⟨w, rfl, .existing hreg hw rfl rfl hd, fun hn => by simp at hn⟩

theorem World.wiring_newWire (W : World) (wire : Wire) :
    (W.newWire wire).wiring = W.wiring.addWire W.nextWire wire.bare :=
  World.wiring_setWire W W.nextWire wire

/-- A wire nothing is tied to joins the world. -/
theorem World.Sound.newWire {W : World} (h : W.Sound) {wire : Wire}
    (hports : ∀ dir, wire.ports dir = []) : (W.newWire wire).Sound where
  gates := h.gates
  freshTokenport := h.freshTokenport
  freshWire := by
    intro w hw
    have hlt : W.nextWire < w := hw
    exact (Function.update_of_ne hlt.ne' _ W.wires).trans (h.freshWire w hlt.le)
  arrays := by
    rw [World.wiring_newWire]
    exact h.arrays.addWire fun dir => by rw [Wire.bare_ports]; exact hports dir

theorem freshWire_ports (sig : Signal) (name : String) (dir : Direction) :
    (freshWire sig name).ports dir = [] := by cases dir <;> rfl

/-- Whatever the name stood for, there is now a wire of the type that nothing drives; the gates
    and what the slots hold are as before. -/
theorem NamedWire.spec {circ circ' : IOCircuit} {W W' : World} {name : String} {sig : Signal}
    {sub : Int} {w : WireId} (h : W.Sound) (hn : NamedWire circ W name sig sub w circ' W') :
    W'.Sound ∧ W'.gates = W.gates ∧ W'.wiring.slot = W.wiring.slot ∧
      W'.wiring.token = W.wiring.token ∧ (∀ w', w' ≠ w → W'.wiring.wire w' = W.wiring.wire w') ∧
      ∃ wire, W'.wires w = some wire ∧ wire.type = sig ∧ wire.drivers = [] := by
  cases hn with
  | existing hreg hw ht hs hd => exact ⟨h, rfl, rfl, rfl, fun _ _ => rfl, _, hw, ht, hd⟩
  | created hreg =>
    refine ⟨h.newWire (freshWire_ports sig name), rfl, ?_, ?_, ?_, freshWire sig name,
      Function.update_self .., rfl, rfl⟩
    · rw [World.wiring_newWire]; rfl
    · rw [World.wiring_newWire]; rfl
    · intro w' hne
      rw [World.wiring_newWire]
      exact Function.update_of_ne hne _ _

/-- A consistent wiring stays so, and the wire has the subtype asked for unless it is new. -/
theorem NamedWire.consistent {circ circ' : IOCircuit} {W W' : World} {name : String}
    {sig : Signal} {sub : Int} {w : WireId} (h : W.Sound) (hc : W.wiring.Consistent)
    (hn : NamedWire circ W name sig sub w circ' W') :
    W'.wiring.Consistent ∧ ∃ wire, W'.wires w = some wire ∧ wire.type = sig ∧
      (wire.subtype = sub ∨ circ.wires name = none ∧ wire.subtype = 0) := by
  cases hn with
  | existing hreg hw ht hs hd => exact ⟨hc, _, hw, ht, .inl hs⟩
  | created hreg =>
    refine ⟨?_, freshWire sig name, Function.update_self .., rfl, .inr ⟨hreg, rfl⟩⟩
    rw [World.wiring_newWire]
    refine hc.addWire ?_ fun dir => by rw [Wire.bare_ports]; exact freshWire_ports sig name dir
    exact Option.map_eq_none_iff.mpr (h.freshWire _ le_rfl)

/-! ## The call -/

/-- After one tie the wire has the type it had. -/
theorem World.wire_of_tie {W₁ W₂ : World} {q : Port} {w : WireId} {p : TokenportId} {wire : Wire}
    (hwiring : W₂.wiring = W₁.wiring.tie q w p) (hw : W₁.wires w = some wire) :
    ∃ wire', W₂.wires w = some wire' ∧ wire'.type = wire.type := by
  have htie := Wiring.wire_tie (q := q) (p := p) (W₁.wiring_wire hw) w
  rw [← hwiring, if_pos rfl] at htie
  obtain ⟨wire', hw', he⟩ := Option.map_eq_some_iff.mp htie
  refine ⟨wire', hw', ?_⟩
  simpa using congrArg Wire.type he

theorem World.slot_of_tie {W₁ W₂ : World} {q q' : Port} {w : WireId} {p : TokenportId}
    (hwiring : W₂.wiring = W₁.wiring.tie q w p) (hne : q' ≠ q) :
    W₂.wiring.slot q' = W₁.wiring.slot q' := by
  rw [hwiring]
  exact Function.update_of_ne hne _ _

/-- After one tie a gate accepts the ports it accepted. -/
theorem World.accepts_of_samePorts {W₁ W₂ : World} (h₁ : W₁.Sound) (h₂ : W₂.Sound)
    (hports : SamePorts W₁ W₂) {g : GateId} {gt : Gate} (hg : W₁.gates g = some gt)
    {dir : Direction} {type : Signal} {subtype : Int} {index : Nat}
    (hacc : gt.Accepts dir type subtype index) :
    ∃ gt', W₂.gates g = some gt' ∧ gt'.Accepts dir type subtype index := by
  have hsame := hports g
  rw [hg, Option.map_some, Option.map_eq_some_iff] at hsame
  obtain ⟨gt', hg', hman⟩ := hsame
  exact ⟨gt', hg', hacc.of_managers (h₁.gates g gt hg) (h₂.gates g gt' hg') hman⟩

/-- Nothing but two ties happened: the named output and the named input to the named wire. -/
def TiedTogether (circ : IOCircuit) (W : World)
    (outGate outPort wireName inGate inPort : String) (create : Bool) (circ' : IOCircuit)
    (W' : World) : Prop :=
  ∃ (qo qi : Port) (w : WireId) (p p' : TokenportId) (W₁ : World),
    qo.dir = .output ∧ qi.dir = .input ∧ qi.type = qo.type ∧ qi.subtype = qo.subtype ∧
    NamedPort circ W outGate outPort qo ∧ NamedPort circ W inGate inPort qi ∧
    NamedWire circ W wireName qo.type qo.subtype w circ' W₁ ∧
    (circ.wires wireName = none → create = true) ∧
    W₁.wiring.token p = none ∧ (W₁.wiring.tie qo w p).token p' = none ∧
    W'.wiring = (W₁.wiring.tie qo w p).tie qi w p'

theorem lxcCircuitWirePortsTogether_cases {ex : ExecCall → World → Option World}
    {circ circ' : IOCircuit} {outGate outPort wireName inGate inPort : String} {create : Bool}
    {W W' : World} {r : Int} (hex : KeepsWiring ex) (h : W.Sound)
    (hcall : lxcCircuitWirePortsTogether ex circ outGate outPort wireName inGate inPort create W =
      some (r, circ', W')) :
    W'.Sound ∧ ((r ≠ 0 ∧ circ' = circ ∧ W' = W) ∨
      (r = 0 ∧ TiedTogether circ W outGate outPort wireName inGate inPort create circ' W')) := by
  have hrefused : ∀ {e : Int}, e ≠ 0 →
      (pure (e, circ, W) : Option (Int × IOCircuit × World)) = some (r, circ', W') →
      r ≠ 0 ∧ circ' = circ ∧ W' = W := by
    intro e he hr
    simp only [pure, Option.some.injEq, Prod.mk.injEq] at hr
    obtain ⟨rfl, rfl, rfl⟩ := hr
    exact ⟨he, rfl, rfl⟩
  have hkeep : r ≠ 0 ∧ circ' = circ ∧ W' = W → W'.Sound ∧ ((r ≠ 0 ∧ circ' = circ ∧ W' = W) ∨
      (r = 0 ∧ TiedTogether circ W outGate outPort wireName inGate inPort create circ' W')) :=
    fun hr => ⟨hr.2.2 ▸ h, .inl hr⟩
  simp only [lxcCircuitWirePortsTogether, Option.bind_eq_bind, Option.bind_eq_some_iff] at hcall
  obtain ⟨res, hout, hcall⟩ := hcall
  cases res with
  | error e => exact hkeep (hrefused (outPortByName_error hout) hcall)
  | ok found =>
    obtain ⟨out, sig, sub, outIndex⟩ := found
    have hqo := outPortByName_ok h hout
    simp only [Option.bind_eq_some_iff] at hcall
    obtain ⟨res, hin, hcall⟩ := hcall
    cases res with
    | error e => exact hkeep (hrefused (inPortByName_error hin) hcall)
    | ok found =>
      obtain ⟨in_, inIndex⟩ := found
      have hqi := inPortByName_ok h hin
      simp only [Option.bind_eq_some_iff] at hcall
      obtain ⟨⟨res, circ₁, W₁⟩, hwire, hcall⟩ := hcall
      rcases wireByName_cases hwire with ⟨e, rfl, he, rfl, rfl⟩ | ⟨w, rfl, hw, hcreate⟩
      · exact hkeep (hrefused he hcall)
      -- from here on nothing is refused
      obtain ⟨h₁, hgates, hslot, -, -, wire, hwire₁, htype, -⟩ := hw.spec h
      obtain ⟨go, hgo, hacco, hlto⟩ := hqo.accepts h
      obtain ⟨gi, hgi, hacci, hlti⟩ := hqi.accepts h
      simp only [Option.bind_eq_some_iff] at hcall
      obtain ⟨⟨status, W₂⟩, hcallo, hcall⟩ := hcall
      rw [lxcWireGateOutput, intOfUint_of_lt hlto] at hcallo
      obtain ⟨rfl, h₂, hports, p, hp, hwiring₂⟩ := privateGenericWiring_tie hex h₁
        (hgates ▸ hgo) hacco hwire₁ htype (by rw [hslot]; exact hqo.free) hcallo
      simp only [ne_eq, not_true, if_false, Option.bind_eq_some_iff] at hcall
      obtain ⟨⟨status, W₃⟩, hcalli, hret⟩ := hcall
      simp only [pure, Option.some.injEq, Prod.mk.injEq] at hret
      obtain ⟨rfl, rfl, rfl⟩ := hret
      rw [lxcWireGateInput, intOfUint_of_lt hlti] at hcalli
      -- the input gate is as it was, but for its slots
      obtain ⟨gi', hgi', hacci'⟩ := World.accepts_of_samePorts h₁ h₂ hports (hgates ▸ hgi) hacci
      have hfree : W₂.wiring.slot ⟨in_, .input, sig, sub, inIndex⟩ = none := by
        rw [World.slot_of_tie hwiring₂ (by simp), hslot]
        exact hqi.free
      obtain ⟨wire', hwire', htype'⟩ := World.wire_of_tie hwiring₂ hwire₁
      obtain ⟨rfl, h₃, -, p', hp', hwiring₃⟩ := privateGenericWiring_tie hex h₂ hgi' hacci' hwire'
        (htype'.trans htype) hfree hcalli
      exact ⟨h₃, .inr ⟨rfl, ⟨out, .output, sig, sub, outIndex⟩, ⟨in_, .input, sig, sub, inIndex⟩,
        w, p, p', W₁, rfl, rfl, rfl, rfl, hqo, hqi, hw, hcreate, hp, hwiring₂ ▸ hp',
        by rw [hwiring₃, hwiring₂]⟩⟩

end LogxControll
