/-
  Histories of wiring calls with arbitrary arguments, `lxc_circuit_wire_ports_together` among
  them.

  In every state such a history reaches, wiring two ports together is all or nothing
  (`wire_ports_together_all_or_nothing`). The type of a wire is checked by every call, its
  subtype only by that one, and only for wires that exist: ports and wires agree on the subtype
  as long as no call ties others (`type_safety`).
-/
import LogxControll.Wiring.Together

namespace LogxControll

/-! ## Histories -/

/-- The memory and the circuits built in it. -/
structure Workspace where
  world : World
  circuits : Nat → IOCircuit

/-- A call that wires, through gates or through a circuit, or a new port. -/
inductive CircuitOp where
  | wireGate (dir : Direction) (type : Option Signal) (subtype : Int) (w : Option WireId)
      (g : GateId) (index : Nat)
  | wirePortsTogether (circ : Nat) (outGate outPort wireName inGate inPort : String)
      (createWireIfNonex : Bool)
  | addPort (dir : Direction) (name : String) (type : Signal) (subtype : Int) (g : GateId)
      (junk : Nat → Nat)

/-- The workspace after a call, whatever it returns. -/
def CircuitOp.step (ex : ExecCall → World → Option World) (S : Workspace) :
    CircuitOp → Option Workspace
  | .wireGate dir type subtype w g index => do
    let (_, W) ← lxcWireGate ex dir type subtype w g index S.world
    return { S with world := W }
  | .wirePortsTogether c outGate outPort wireName inGate inPort create => do
    let (_, circ, W) ← lxcCircuitWirePortsTogether ex (S.circuits c) outGate outPort wireName
      inGate inPort create S.world
    return { world := W, circuits := Function.update S.circuits c circ }
  | .addPort dir name type subtype g junk => do
    let W ← addPortiPort S.world g dir junk name type subtype
    return { S with world := W }

theorem lxcWireGate_cases {ex : ExecCall → World → Option World} {W W' : World}
    {dir : Direction} {signal : Option Signal} {subtype : Int} {wire : Option WireId} {g : GateId}
    {index : Nat} {r : Int} (hex : KeepsWiring ex) (h : W.Sound)
    (hcall : lxcWireGate ex dir signal subtype wire g index W = some (r, W')) :
    (r ≠ 0 ∧ W' = W) ∨ ∃ type gt, CallSignal W signal wire type ∧
      (∀ w, wire = some w → ∃ wr, W.wires w = some wr ∧ wr.type = type) ∧
      W.gates g = some gt ∧ gt.Checked dir type subtype (intOfUint index) ∧
      Step W W' ⟨g, dir, type, subtype, (intOfUint index).toNat⟩ wire r := by
  have hcall' : privateGenericWiring ex dir signal subtype wire g (intOfUint index) W =
      some (r, W') := by cases dir <;> exact hcall
  rcases privateGenericWiring_step hex h.regular h.not_tiesSecondOutput hcall' with
    ⟨hr, -, hW⟩ | hstep
  · exact .inl ⟨hr, hW⟩
  · exact .inr hstep

theorem CircuitOp.step_sound {ex : ExecCall → World → Option World} (hex : KeepsWiring ex)
    (S : Workspace) (op : CircuitOp) (S' : Workspace) (h : S.world.Sound)
    (hstep : op.step ex S = some S') : S'.world.Sound := by
  cases op with
  | wireGate dir type subtype w g index =>
    simp only [CircuitOp.step, Option.bind_eq_bind, Option.bind_eq_some_iff] at hstep
    obtain ⟨⟨r, W⟩, hcall, hret⟩ := hstep
    obtain rfl := Option.some.inj hret
    rcases lxcWireGate_cases hex h hcall with ⟨-, rfl⟩ | ⟨t, gt, -, -, -, -, hst⟩
    · exact h
    · exact hst.sound h
  | wirePortsTogether c outGate outPort wireName inGate inPort create =>
    simp only [CircuitOp.step, Option.bind_eq_bind, Option.bind_eq_some_iff] at hstep
    obtain ⟨⟨r, circ, W⟩, hcall, hret⟩ := hstep
    obtain rfl := Option.some.inj hret
    exact (lxcCircuitWirePortsTogether_cases hex h hcall).1
  | addPort dir name type subtype g junk =>
    simp only [CircuitOp.step, Option.bind_eq_bind, Option.bind_eq_some_iff] at hstep
    obtain ⟨W, hcall, hret⟩ := hstep
    obtain rfl := Option.some.inj hret
    exact (addPortiPort_wiring h hcall).1

theorem CircuitOp.run_sound {ex : ExecCall → World → Option World} (hex : KeepsWiring ex)
    {S S' : Workspace} (h : S.world.Unwired) {ops : List CircuitOp}
    (hrun : Run.run (fun S op => op.step ex S) S ops = some S') : S'.world.Sound :=
  Run.run_invariant (fun S : Workspace => S.world.Sound) (fun S op S' => op.step_sound hex S S')
    ops S S' h.sound hrun

/-! ## All or nothing -/

/-- Ports `qo` and `qi` are tied to wire `w` by the entries `p` and `p'`, and that is all that
    changed. -/
structure BoundTogether (circ : IOCircuit) (W : World)
    (outGate outPort wireName inGate inPort : String) (circ' : IOCircuit) (W' : World)
    (qo qi : Port) (w : WireId) (p p' : TokenportId) : Prop where
  outPort : qo.dir = .output ∧ NamedPort circ W outGate outPort qo
  inPort : qi.dir = .input ∧ NamedPort circ W inGate inPort qi
  registered : circ'.wires wireName = some w
  sameWire : ∀ w', circ.wires wireName = some w' → w' = w
  otherNames : ∀ name, name ≠ wireName → circ'.wires name = circ.wires name
  gates : circ'.gates = circ.gates
  outSlot : W'.wiring.slot qo = some w
  inSlot : W'.wiring.slot qi = some p'
  otherSlots : ∀ q, q ≠ qo → q ≠ qi → W'.wiring.slot q = W.wiring.slot q
  drivers : ∃ wire, W'.wires w = some wire ∧ entries wire.drivers = [p] ∧
    entries wire.drivens = ((W.wires w).elim [] fun old => entries old.drivens) ++ [p']
  outEntry : W'.wiring.token p = some (Wiring.tokenOf qo w)
  inEntry : W'.wiring.token p' = some (Wiring.tokenOf qi w)
  otherWires : ∀ w', w' ≠ w → W'.wiring.wire w' = W.wiring.wire w'
  otherEntries : ∀ p'', p'' ≠ p → p'' ≠ p' → W'.wiring.token p'' = W.wiring.token p''

theorem NamedWire.drivens {circ circ' : IOCircuit} {W W' : World} {name : String} {sig : Signal}
    {sub : Int} {w : WireId} (h : W.Sound) (hn : NamedWire circ W name sig sub w circ' W') :
    circ'.wires name = some w ∧ (∀ w', circ.wires name = some w' → w' = w) ∧
      (∀ n, n ≠ name → circ'.wires n = circ.wires n) ∧ circ'.gates = circ.gates ∧
      ∃ wire, W'.wires w = some wire ∧ wire.drivers = [] ∧
        entries wire.drivens = (W.wires w).elim [] fun old => entries old.drivens := by
  cases hn with
  | existing hreg hw ht hs hd =>
    refine ⟨hreg, ?_, fun _ _ => rfl, rfl, _, hw, hd, by rw [hw]; rfl⟩
    intro w' hw'
    rw [hreg, Option.some.injEq] at hw'
    exact hw'.symm
  | created hreg =>
    refine ⟨Function.update_self .., ?_, fun n hn => Function.update_of_ne hn _ _, rfl,
      freshWire sig name, Function.update_self .., rfl, ?_⟩
    · intro w' hw'
      rw [hreg] at hw'
      cases hw'
    · rw [h.freshWire _ le_rfl]
      rfl

theorem TiedTogether.bound {circ circ' : IOCircuit} {W W' : World}
    {outGate outPort wireName inGate inPort : String} {create : Bool} (h : W.Sound)
    (ht : TiedTogether circ W outGate outPort wireName inGate inPort create circ' W') :
    ∃ qo qi w p p', BoundTogether circ W outGate outPort wireName inGate inPort circ' W'
      qo qi w p p' := by
  obtain ⟨qo, qi, w, p, p', W₁, hdo, hdi, -, -, hqo, hqi, hw, hcreate, hp, hp', hwiring⟩ := ht
  obtain ⟨h₁, hgates, hslot, htoken, hothers, -⟩ := hw.spec h
  obtain ⟨hreg, hsame, hnames, hcg, wire, hwire, hdrivers, hdrivens⟩ := hw.drivens h
  have hne : qi ≠ qo := by
    rintro rfl
    rw [hdo] at hdi
    cases hdi
  have hnep : p' ≠ p := by
    rintro rfl
    simp [Wiring.tie] at hp'
  have hwire' := W₁.wiring_wire hwire
  refine ⟨qo, qi, w, p, p', ⟨hdo, hqo⟩, ⟨hdi, hqi⟩, hreg, hsame, hnames, hcg, ?_, ?_, ?_, ?_, ?_,
    ?_, ?_, ?_⟩
  · simp [hwiring, Wiring.tie, hne.symm, hdo, Wiring.content]
  · simp [hwiring, Wiring.tie, hdi, Wiring.content]
  · intro q hqo' hqi'
    simp [hwiring, Wiring.tie, hqo', hqi', hslot]
  · -- the first tie appends to the drivers, the second to the drivens
    have htie := Wiring.wire_tie (q := qo) (p := p) hwire' w
    rw [if_pos rfl] at htie
    have htie' := Wiring.wire_tie (q := qi) (p := p') htie w
    rw [if_pos rfl, ← hwiring, hdi, hdo] at htie'
    obtain ⟨wire', hw', he⟩ := Option.map_eq_some_iff.mp htie'
    refine ⟨wire', hw', ?_, ?_⟩
    · have : wire'.drivers = (arrayNtAppendElement wire.drivers (some p)).2 :=
        congrArg Wire.drivers he
      rw [this, hdrivers]
      rfl
    · have : wire'.drivens = (arrayNtAppendElement wire.drivens (some p')).2 :=
        congrArg Wire.drivens he
      have hnt : IsNt wire.drivens (entries wire.drivens) := by
        have := (h₁.arrays.isNt_entries hwire' .input).1
        rwa [Wire.bare_ports] at this
      rw [this, (entries_append hnt p').2, hdrivens]
  · simp [hwiring, Wiring.tie, hnep.symm]
  · simp [hwiring, Wiring.tie]
  · intro w' hw'
    simp [hwiring, Wiring.tie, hw', hothers w' hw']
  · intro p'' hp1 hp2
    simp [hwiring, Wiring.tie, hp1, hp2, htoken]

/-- A call that fails leaves circuit and memory as they are; a call that succeeds ties the two
    ports to the wire of the name, which has no other driver, and changes nothing else. -/
theorem wire_ports_together_all_or_nothing {ex : ExecCall → World → Option World}
    (hex : KeepsWiring ex) {S₀ S : Workspace} (h₀ : S₀.world.Unwired) {ops : List CircuitOp}
    (hrun : Run.run (fun S op => op.step ex S) S₀ ops = some S) (c : Nat)
    (outGate outPort wireName inGate inPort : String) (create : Bool) {r : Int}
    {circ' : IOCircuit} {W' : World}
    (hcall : lxcCircuitWirePortsTogether ex (S.circuits c) outGate outPort wireName inGate inPort
      create S.world = some (r, circ', W')) :
    (r ≠ 0 → circ' = S.circuits c ∧ W' = S.world) ∧
      (r = 0 → ∃ qo qi w p p', BoundTogether (S.circuits c) S.world outGate outPort wireName
        inGate inPort circ' W' qo qi w p p') := by
  have h := CircuitOp.run_sound hex h₀ hrun
  rcases (lxcCircuitWirePortsTogether_cases hex h hcall).2 with ⟨hr, hcirc, hW⟩ | ⟨hr, ht⟩
  · exact ⟨fun _ => ⟨hcirc, hW⟩, fun h0 => absurd h0 hr⟩
  · exact ⟨fun hne => absurd hr hne, fun _ => ht.bound h⟩

/-- The porti world, with its gate registered in every circuit. -/
def portiWorkspace : Workspace where
  world := portiWorld
  circuits _ := { gates := fun name => if name = "G" then some 0 else none, wires := fun _ => none }

/-- Ports of the gate for one type and subtype. -/
def addPorts (subtype : Int) : List CircuitOp :=
  [.addPort .input "I" .bool subtype 0 id, .addPort .output "Q" .bool subtype 0 id]

theorem wire_ports_together_all_or_nothing_portiWorkspace :
    ((Run.run (fun S op => op.step (fun _ W => some W) S) portiWorkspace (addPorts 0)).bind
      fun S => (lxcCircuitWirePortsTogether (fun _ W => some W) (S.circuits 0) "G" "Q" "w" "G" "I"
        true S.world).map Prod.fst) = some 0 ∧
    ∀ S r circ' W', Run.run (fun S op => op.step (fun _ W => some W) S) portiWorkspace
        (addPorts 0) = some S →
      lxcCircuitWirePortsTogether (fun _ W => some W) (S.circuits 0) "G" "Q" "w" "G" "I" true
        S.world = some (r, circ', W') →
      (r ≠ 0 → circ' = S.circuits 0 ∧ W' = S.world) ∧
        (r = 0 → ∃ qo qi w p p', BoundTogether (S.circuits 0) S.world "G" "Q" "w" "G" "I" circ' W'
          qo qi w p p') :=
  ⟨by decide, fun _ _ _ _ hrun hcall => wire_ports_together_all_or_nothing keepsWiring_some
    unwired_portiWorld hrun 0 "G" "Q" "w" "G" "I" true hcall⟩

/-! ## Type safety -/

/-- A bound port has the type and the subtype of its wire. -/
def World.TypeSafe (W : World) : Prop :=
  ∀ g gate dir type subtype index w, W.gates g = some gate →
    W.BoundTo gate dir type subtype index w →
    ∃ wire, W.wires w = some wire ∧ wire.type = type ∧ wire.subtype = subtype

/-- The step does not tie ports and wires of different subtypes: a wire tied to a free port has
    the subtype of the call, and a wire that is created is for ports of subtype 0. -/
def CircuitOp.SubtypesAgree (S : Workspace) : CircuitOp → Prop
  | .wireGate dir type subtype w g index => ∀ w' wire gate, w = some w' →
      S.world.wires w' = some wire → (type = none ∨ type = some wire.type) →
      S.world.gates g = some gate → gate.Checked dir wire.type subtype (intOfUint index) →
      gate.HasPort dir wire.type subtype (intOfUint index).toNat →
      gate.getWire dir wire.type subtype (intOfUint index).toNat = some none →
      wire.subtype = subtype
  | .wirePortsTogether c outGate outPort wireName inGate inPort create =>
      ∀ qo qi, qo.dir = .output → qi.dir = .input → qi.type = qo.type →
        qi.subtype = qo.subtype → NamedPort (S.circuits c) S.world outGate outPort qo →
        NamedPort (S.circuits c) S.world inGate inPort qi →
        (S.circuits c).wires wireName = none → create = true → qo.subtype = 0
  | .addPort .. => True

theorem World.typeSafe_of_consistent {W : World} (h : W.Sound) (hc : W.wiring.Consistent) :
    W.TypeSafe := by
  intro g gate dir type subtype index w hg hb
  obtain ⟨p, hl⟩ := (boundTo_iff_lists h hc hg type subtype index w).mp hb
  obtain ⟨wr, hwr, ht, hs, -⟩ := hl.wire
  obtain ⟨wire, hw, rfl⟩ := Option.map_eq_some_iff.mp hwr
  exact ⟨wire, hw, ht, hs⟩

theorem TiedTogether.consistent {circ circ' : IOCircuit} {W W' : World}
    {outGate outPort wireName inGate inPort : String} {create : Bool} (h : W.Sound)
    (hc : W.wiring.Consistent)
    (hsub : ∀ qo qi, qo.dir = .output → qi.dir = .input → qi.type = qo.type →
      qi.subtype = qo.subtype → NamedPort circ W outGate outPort qo →
      NamedPort circ W inGate inPort qi → circ.wires wireName = none → create = true →
      qo.subtype = 0)
    (ht : TiedTogether circ W outGate outPort wireName inGate inPort create circ' W') :
    W'.wiring.Consistent := by
  obtain ⟨qo, qi, w, p, p', W₁, hdo, hdi, hqt, hqs, hqo, hqi, hw, hcreate, hp, hp', hwiring⟩ := ht
  obtain ⟨-, -, hslot, -⟩ := hw.spec h
  obtain ⟨hc₁, wire, hwire, htype, hsubtype⟩ := hw.consistent h hc
  have hsubtype' : wire.subtype = qo.subtype := by
    rcases hsubtype with hs | ⟨hreg, hs⟩
    · exact hs
    · rw [hs, hsub qo qi hdo hdi hqt hqs hqo hqi hreg (hcreate hreg)]
  have hwire' := W₁.wiring_wire hwire
  have hne : qi ≠ qo := by
    rintro rfl
    rw [hdo] at hdi
    cases hdi
  have hc₂ := hc₁.tie (q := qo) (w := w) (p := p) hwire' htype hsubtype' hp
    (by rw [hslot]; exact hqo.free)
  have htie := Wiring.wire_tie (q := qo) (p := p) hwire' w
  rw [if_pos rfl] at htie
  rw [hwiring]
  refine hc₂.tie htie ?_ ?_ hp' ?_
  · simpa [hqt] using htype
  · simpa [hqs] using hsubtype'
  · simp only [Wiring.tie, Function.update_of_ne hne, hslot]
    exact hqi.free

theorem CircuitOp.step_consistent {ex : ExecCall → World → Option World} (hex : KeepsWiring ex)
    (S : Workspace) (op : CircuitOp) (S' : Workspace)
    (h : S.world.Sound ∧ S.world.wiring.Consistent) (hok : op.SubtypesAgree S)
    (hstep : op.step ex S = some S') : S'.world.Sound ∧ S'.world.wiring.Consistent := by
  refine ⟨op.step_sound hex S S' h.1 hstep, ?_⟩
  obtain ⟨hs, hc⟩ := h
  cases op with
  | wireGate dir type subtype w g index =>
    simp only [CircuitOp.step, Option.bind_eq_bind, Option.bind_eq_some_iff] at hstep
    obtain ⟨⟨r, W⟩, hcall, hret⟩ := hstep
    obtain rfl := Option.some.inj hret
    rcases lxcWireGate_cases hex hs hcall with ⟨-, rfl⟩ | ⟨t, gt, hsig, hwires, hg, hck, hst⟩
    · exact hc
    -- a variable for the index: its conversion is not to be computed
    simp only [CircuitOp.SubtypesAgree] at hok
    generalize (intOfUint index).toNat = n at hok hst
    have ho := hst.outcome
    -- only a call that ties its wire needs the subtypes to agree
    refine ho.consistent hc ?_
    intro w' wr hr hw' hwr
    have hport : S.world.HasPort ⟨g, dir, t, subtype, n⟩ ∧
        S.world.wiring.slot ⟨g, dir, t, subtype, n⟩ = none := by
      generalize W.wiring = v' at ho
      cases ho with
      | refused hne => exact absurd hr hne
      | tied hwire hport hfree => exact ⟨hport, hfree⟩
      | untied hwire => rw [hw'] at hwire; cases hwire
      | cleared hwire => rw [hw'] at hwire; cases hwire
    obtain ⟨wire, hwire, ht⟩ := hwires w' hw'
    rw [S.world.wiring_wire hwire, Option.some.injEq] at hwr
    subst hwr ht
    have hget := hs.getWire_eq (q := ⟨g, dir, wire.type, subtype, n⟩) hg
    rw [hport.2] at hget
    have hp := (hs.hasPort_iff
      (q := ⟨g, dir, wire.type, subtype, n⟩) hg).mp hport.1
    have hsig' : type = none ∨ type = some wire.type := by
      rcases hsig with hsig | ⟨hsig, -⟩
      · exact .inr hsig
      · exact .inl hsig
    exact hok w' wire gt hw' hwire hsig' hg hck hp hget
  | wirePortsTogether c outGate outPort wireName inGate inPort create =>
    simp only [CircuitOp.step, Option.bind_eq_bind, Option.bind_eq_some_iff] at hstep
    obtain ⟨⟨r, circ, W⟩, hcall, hret⟩ := hstep
    obtain rfl := Option.some.inj hret
    rcases (lxcCircuitWirePortsTogether_cases hex hs hcall).2 with ⟨-, -, rfl⟩ | ⟨-, ht⟩
    · exact hc
    · exact ht.consistent hs hc hok
  | addPort dir name type subtype g junk =>
    simp only [CircuitOp.step, Option.bind_eq_bind, Option.bind_eq_some_iff] at hstep
    obtain ⟨W, hcall, hret⟩ := hstep
    obtain rfl := Option.some.inj hret
    rw [show W.wiring = S.world.wiring from (addPortiPort_wiring hs hcall).2]
    exact hc

/-- Types and subtypes of ports and wires agree in every state, as long as no step ties a wire
    to a port of another subtype. -/
theorem type_safety {ex : ExecCall → World → Option World} (hex : KeepsWiring ex)
    {S S' : Workspace} (h : S.world.Unwired) (ops : List CircuitOp)
    (hok : Run.Meets (fun S op => op.step ex S) (fun S op => op.SubtypesAgree S) S ops)
    (hrun : Run.run (fun S op => op.step ex S) S ops = some S') : S'.world.TypeSafe := by
  have hinv := Run.run_invariant_of_meets
    (fun S : Workspace => S.world.Sound ∧ S.world.wiring.Consistent)
    (fun S op S' hi ho hs => op.step_consistent hex S S' hi ho hs) ops S S'
    ⟨h.sound, h.consistent⟩ hok hrun
  exact World.typeSafe_of_consistent hinv.1 hinv.2

/-- A wire of subtype 0 can be tied to a port of subtype 1. -/
theorem not_type_safe : ¬ ∀ (ops : List CircuitOp) (S : Workspace),
    Run.run (fun S op => op.step (fun _ W => some W) S) portiWorkspace ops = some S →
      S.world.TypeSafe := by
  intro hall
  -- the subtype of the wire that the input port of subtype 1 is bound to
  have hbound : ((Run.run (fun S op => op.step (fun _ W => some W) S) portiWorkspace
      (addPorts 1 ++ [.wireGate .input (some .bool) 1 (some 0) 0 0])).bind fun S =>
        (S.world.gates 0).bind fun g => (g.getWire .input .bool 1 0).bind fun slot =>
          slot.bind fun p => (S.world.tokenports p).bind fun tp =>
            (S.world.wires tp.owner).map Wire.subtype) = some 0 := by decide
  simp only [Option.bind_eq_some_iff, Option.map_eq_some_iff] at hbound
  obtain ⟨S, hrun, gate, hg, slot, hget, p, rfl, tp, htp, wire, hw, hsub⟩ := hbound
  obtain ⟨wire', hw', -, hsub'⟩ := hall _ S hrun 0 gate .input .bool 1 0 tp.owner hg
    ⟨p, tp, hget, htp, rfl⟩
  rw [hw, Option.some.injEq] at hw'
  subst hw'
  omega

theorem CircuitOp.step_addPort_wires {ex : ExecCall → World → Option World} {S S' : Workspace}
    {dir : Direction} {name : String} {type : Signal} {subtype : Int} {g : GateId}
    {junk : Nat → Nat} (h : (CircuitOp.addPort dir name type subtype g junk).step ex S = some S') :
    S'.world.wires = S.world.wires := by
  simp only [CircuitOp.step, addPortiPort, Option.bind_eq_bind, Option.bind_eq_some_iff] at h
  obtain ⟨W, ⟨gate, -, h⟩, hret⟩ := h
  obtain rfl := Option.some.inj hret
  split at h
  · rw [Option.bind_eq_some_iff] at h
    obtain ⟨_, -, h⟩ := h
    obtain rfl := Option.some.inj h
    rfl
  · cases h

theorem type_safety_portiWorkspace :
    (Run.run (fun S (op : CircuitOp) => op.step (fun _ W => some W) S) portiWorkspace
      (addPorts 0 ++ [.wireGate .input (some .bool) 0 (some 0) 0 0])).isSome = true ∧
    ∀ S, Run.run (fun S (op : CircuitOp) => op.step (fun _ W => some W) S) portiWorkspace
      (addPorts 0 ++ [.wireGate .input (some .bool) 0 (some 0) 0 0]) = some S →
      S.world.TypeSafe := by
  refine ⟨by decide, fun S hrun => type_safety keepsWiring_some unwired_portiWorld _ ?_ hrun⟩
  refine ⟨trivial, fun S₁ h₁ => ⟨trivial, fun S₂ h₂ => ⟨?_, fun _ _ => trivial⟩⟩⟩
  intro w wire gate hw hwire _ _ _ _ _
  obtain rfl := Option.some.inj hw
  rw [CircuitOp.step_addPort_wires h₂, CircuitOp.step_addPort_wires h₁] at hwire
  obtain rfl := Option.some.inj hwire
  rfl

end LogxControll
