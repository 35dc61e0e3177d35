/-
  The functional wrapper connects each declared port to its own parameter.

  `functionalGateExecute_executed` is what one execution of an instance does, in terms of the
  declarations; `functional_wrapper_correct` puts it behind every history of wiring calls.
-/
import LogxControll.Execution.BoolGates
import LogxControll.Execution.Frame
import LogxControll.Wiring.Declarations
import LogxControll.Wiring.PortbGates

namespace LogxControll

/-! ## Instances of a wrapper -/

/-- The ports that a builder lists for a direction. -/
def SimpleFuncGateBuilder.ports (builder : SimpleFuncGateBuilder) :
    Direction → List PortDefinition
  | .input => builder.inputs
  | .output => builder.outputs

/-- The gate is an instance of the wrapper, whatever is wired to it. -/
structure Gate.IsWrapper (gate : Gate) (builder : SimpleFuncGateBuilder) : Prop where
  gateClass : gate.gateClass = .portb
  execute : gate.execute = .functional builder.function
  declared : ∀ dir, ∃ gs, Declared (gate.side dir).manager (builder.ports dir) gs
  slots : ∀ dir, (gate.side dir).slots.length = (builder.ports dir).length

/-- What the slot of the `i`-th declared port holds. -/
def declaredSlot (g : Gate) (dir : Direction) (defs : List PortDefinition) (i : Nat) :
    Option Nat := do
  let (sig, sub, index) ← declaredPort defs i
  (g.getWire dir sig sub index).join

/-- The wire bound to the `i`-th declared port. -/
def declaredWire (W : World) (g : Gate) (dir : Direction) (defs : List PortDefinition) (i : Nat) :
    Option WireId :=
  (declaredSlot g dir defs i).bind (slotOwner W dir)

/-- The value on a wire that exists. -/
def wireValue (W : World) (w : WireId) : Option LxcValue := do
  let wire ← W.wires w
  wire.currentValue

/-- The value carried by the wire bound to the `i`-th declared input. -/
def inputValue (W : World) (g : Gate) (defs : List PortDefinition) (i : Nat) : Option LxcValue :=
  (declaredWire W g .input defs i).bind (wireValue W)

namespace Gate.IsWrapper

variable {gate : Gate} {builder : SimpleFuncGateBuilder}

theorem maxSize (h : gate.IsWrapper builder) (dir : Direction) :
    (gate.side dir).manager.maxSize = (builder.ports dir).length := by
  obtain ⟨gs, hd⟩ := h.declared dir
  rw [hd.represents.maxSize, declaredNames, List.length_map]

theorem side_sound (h : gate.IsWrapper builder) {dir : Direction} {gs : Groups}
    (hd : Declared (gate.side dir).manager (builder.ports dir) gs) :
    (gate.side dir).Sound gate.gateClass gs (declaredNames (builder.ports dir)) where
  represents := hd.represents
  noEmpty := not_mem_declaredNames _
  portb := by
    intro _
    rw [h.slots dir, declaredNames, List.length_map]
  porti := by
    intro hp
    rw [h.gateClass] at hp
    cases hp

theorem sound (h : gate.IsWrapper builder) : gate.Sound where
  generic := .inl h.gateClass
  side := by
    intro dir
    obtain ⟨gs, hd⟩ := h.declared dir
    exact ⟨gs, _, h.side_sound hd⟩

/-- Each declared port has the slot at its position. -/
theorem declaredSlot_eq (h : gate.IsWrapper builder) {dir : Direction} {i : Nat}
    (hi : i < (builder.ports dir).length) :
    declaredSlot gate dir (builder.ports dir) i = slotAt (gate.side dir).slots i := by
  obtain ⟨gs, hd⟩ := h.declared dir
  have hget := List.getElem?_eq_getElem hi
  simp only [declaredSlot, declaredPort, hget, Option.map_some, Option.bind_eq_bind,
    Option.bind_some]
  rw [Gate.getWire_of_sound (.inl h.gateClass) (h.side_sound hd)]
  change ((absList gs (builder.ports dir)[i].key)[_]?.bind _) = _
  rw [hd.absList_getElem? hget, Option.bind_some]

/-- The slots of an instance, in the order of the declarations. -/
theorem slots_eq (h : gate.IsWrapper builder) (dir : Direction) :
    (gate.side dir).slots = (List.range (builder.ports dir).length).map
      (declaredSlot gate dir (builder.ports dir)) := by
  have hlen := h.slots dir
  apply List.ext_getElem
  · rw [hlen, List.length_map, List.length_range]
  intro i hi hi'
  rw [List.getElem_map, List.getElem_range, h.declaredSlot_eq (by omega), slotAt,
    List.getElem?_eq_getElem hi]
  rfl

end Gate.IsWrapper


/-! ## One execution -/

/-- What is done with an entry of the output array, the wire of that output being `o`. -/
def outputActions (W : World) (o : Option WireId) : Option LxcValue → List FunctionalAction
  | none => []
  | some v =>
    (o.filter fun w => (W.wires w).any fun wire =>
      wire.type = v.type ∧ wire.subtype = v.subtypeInfo).toList.map (FunctionalAction.drive · v) ++
    [.unreference v]

/-- The actions of one execution: everything when each declared input is wired to a wire that
    carries a value, and releases of the inputs before the first one that is not. -/
inductive Executed (W : World) (g : Gate) (builder : SimpleFuncGateBuilder) :
    List FunctionalAction → Prop
  | called (tokens : List TokenportId) (values : List LxcValue)
      (htokens : (List.range builder.inputs.length).map (declaredSlot g .input builder.inputs) =
        tokens.map some)
      (hvalues : (List.range builder.inputs.length).map (inputValue W g builder.inputs) =
        values.map some) :
      Executed W g builder (tokens.map .absorb ++ .call (values.map lxcGetValue) ::
        (List.range builder.outputs.length).flatMap fun j =>
          outputActions W (declaredWire W g .output builder.outputs j)
            ((builder.function (values.map lxcGetValue) W.nextValue).1.getD j none))
  | missing (i : Nat) (tokens : List TokenportId) (hi : i < builder.inputs.length)
      (hmissing : inputValue W g builder.inputs i = none)
      (htokens : (List.range i).map (declaredSlot g .input builder.inputs) = tokens.map some) :
      Executed W g builder (tokens.map .release)

/-- The wire of the port propagates directly. -/
def World.DirectPort (W : World) (p : TokenportId) : Prop :=
  ∀ w wire, slotOwner W .input p = some w → W.wires w = some wire →
    wire.handler = .directPropagateValue

section Execution

variable {call : ExecCall → World → Option World} {W W' : World}

/-- The token of a port is the value of its wire. -/
theorem World.DirectPort.tokenValue {p : TokenportId} (h : W.DirectPort p) {r : Option LxcValue}
    (hr : lxcGetTokenValue W p = some r) : (slotOwner W .input p).bind (wireValue W) = r := by
  simp only [lxcGetTokenValue, Option.bind_eq_bind, Option.bind_eq_some_iff] at hr
  obtain ⟨tp, htp, wire, hw, hr⟩ := hr
  have howner : slotOwner W .input p = some tp.owner := by simp [slotOwner, htp]
  rw [h tp.owner wire howner hw] at hr
  obtain rfl := Option.some.inj hr
  simp [howner, wireValue, hw]

theorem absorbTokens_direct : ∀ {ports : List TokenportId}, (∀ p ∈ ports, W.DirectPort p) →
    absorbTokens ports W = some W' → W' = W
  | [], _, hr => (Option.some.inj hr).symm
  | p :: ports, h, hr => by
      simp only [absorbTokens, lxcAbsorbToken, Option.bind_eq_bind, Option.bind_eq_some_iff] at hr
      obtain ⟨W₁, ⟨tp, htp, wire, hw, hr₁⟩, hr⟩ := hr
      have howner : slotOwner W .input p = some tp.owner := by simp [slotOwner, htp]
      rw [h p List.mem_cons_self tp.owner wire howner hw] at hr₁
      obtain rfl := Option.some.inj hr₁
      exact absorbTokens_direct (fun p' hp' => h p' (List.mem_cons_of_mem _ hp')) hr

/-- Driving one output, in a world with the wiring of `W`. -/
theorem driveOutput_eq {W₁ : World} {g : GateId} {o : Option WireId} {v : LxcValue}
    {acts : List FunctionalAction} (hsame : SameWiring W W₁)
    (h : driveOutput call g o v W₁ = some (acts, W')) :
    acts ++ [.unreference v] = outputActions W o (some v) := by
  cases o with
  | none =>
    simp only [driveOutput, Option.some.injEq, Prod.mk.injEq] at h
    obtain ⟨rfl, rfl⟩ := h
    rfl
  | some w =>
    simp only [driveOutput, Option.bind_eq_bind, Option.bind_eq_some_iff] at h
    obtain ⟨wire₁, hw₁, h⟩ := h
    have hw := hsame.wires w
    rw [hw₁, Option.map_some, eq_comm, Option.map_eq_some_iff] at hw
    obtain ⟨wire, hw, he⟩ := hw
    have htype : wire.type = wire₁.type := by simpa using congrArg Wire.type he
    have hsub : wire.subtype = wire₁.subtype := by simpa using congrArg Wire.subtype he
    split at h
    · next hm =>
      rw [Option.bind_eq_some_iff] at h
      obtain ⟨W₂, -, h⟩ := h
      simp only [pure, Option.some.injEq, Prod.mk.injEq] at h
      obtain ⟨rfl, -⟩ := h
      simp [outputActions, Option.filter, hw, htype, hsub, hm]
    · next hm =>
      simp only [pure, Option.some.injEq, Prod.mk.injEq] at h
      obtain ⟨rfl, -⟩ := h
      simp [outputActions, Option.filter, hw, htype, hsub, hm]

/-- The loop that writes out: nested executions leave the slots and the types of the wires. -/
theorem writeOut_eq (hcall : KeepsWiring call) {g : GateId} {gate : Gate}
    {out : List (Option LxcValue)} (hg : W.gates g = some gate) :
    ∀ {n i : Nat} {W₁ W' : World} {acts : List FunctionalAction}, SameWiring W W₁ →
      writeOut call g out n i W₁ = some (acts, W') →
      acts = (List.range' i n).flatMap fun j =>
        outputActions W (slotAt gate.output.slots j) (out.getD j none)
  | 0, i, W₁, W', acts, hsame, h => by
      simp only [writeOut, Option.some.injEq, Prod.mk.injEq] at h
      exact h.1.symm
  | n + 1, i, W₁, W', acts, hsame, h => by
      simp only [writeOut, Option.bind_eq_bind, Option.bind_eq_some_iff] at h
      obtain ⟨gate₁, hg₁, o, ho, h⟩ := h
      have ho' : slotAt gate.output.slots i = o := by
        obtain ⟨gate', hg', hports⟩ := hsame.gate hg₁
        rw [hg, Option.some.injEq] at hg'
        subst hg'
        have hside : gate₁.output = gate.output := Gate.side_of_ports hports .output
        rw [slotAt, ← hside, ho]
        rfl
      rw [List.range'_succ, List.flatMap_cons, ho']
      split at h
      · next hout =>
        rw [hout, writeOut_eq hcall hg hsame h]
        rfl
      · next v hout =>
        simp only [Option.bind_eq_some_iff] at h
        obtain ⟨⟨a, W₂⟩, h₁, ⟨b, W₃⟩, h₂, h⟩ := h
        simp only [pure, Option.some.injEq, Prod.mk.injEq] at h
        obtain ⟨rfl, -⟩ := h
        have hsame₂ := hsame.trans (driveOutput_sameWiring hcall h₁)
        rw [hout, ← driveOutput_eq hsame h₁, ← writeOut_eq hcall hg hsame₂ h₂]
        simp

/-- One execution of an instance does what the declarations say. -/
theorem functionalGateExecute_executed (hcall : KeepsWiring call) {g : GateId} {gate : Gate}
    {builder : SimpleFuncGateBuilder} (hg : W.gates g = some gate) (hi : gate.IsWrapper builder)
    (hdirect : ∀ i p, declaredSlot gate .input builder.inputs i = some p → W.DirectPort p)
    {acts : List FunctionalAction}
    (h : functionalGateExecute call builder.function g W = some (acts, W')) :
    Executed W gate builder acts := by
  have hins : gate.input.manager.maxSize.toNat = gate.input.slots.length := by
    have h1 : gate.input.slots.length = builder.inputs.length := hi.slots .input
    have h2 : gate.input.manager.maxSize = builder.inputs.length := hi.maxSize .input
    omega
  have houts : gate.output.manager.maxSize.toNat = builder.outputs.length := by
    have h2 : gate.output.manager.maxSize = builder.outputs.length := hi.maxSize .output
    omega
  have hslots : gate.input.slots =
      (List.range builder.inputs.length).map (declaredSlot gate .input builder.inputs) :=
    hi.slots_eq .input
  simp only [functionalGateExecute, hg, Option.bind_eq_bind, Option.bind_some, hins,
    lt_irrefl, if_false, List.take_length] at h
  rw [Option.bind_eq_some_iff] at h
  obtain ⟨⟨ports, complete⟩, hread, h⟩ := h
  obtain ⟨htake, hvals, hfull, hstop⟩ := readInputs_cases hread
  have hports : ∀ pv ∈ ports, W.DirectPort pv.1 := by
    intro pv hpv
    have hmem : some pv.1 ∈ gate.input.slots := by
      have : some pv.1 ∈ gate.input.slots.take ports.length := by
        rw [htake]
        exact List.mem_map.mpr ⟨pv, hpv, rfl⟩
      exact List.mem_of_mem_take this
    rw [hslots] at hmem
    obtain ⟨i, -, hi'⟩ := List.mem_map.mp hmem
    exact hdirect i pv.1 hi'
  cases complete with
  | true =>
    simp only [if_true, Option.bind_eq_some_iff] at h
    obtain ⟨W₁, habsorb, ⟨more, W₂⟩, hwrite, h⟩ := h
    have hW₁ : W₁ = W := by
      refine absorbTokens_direct ?_ habsorb
      intro p hp
      obtain ⟨pv, hpv, rfl⟩ := List.mem_map.mp hp
      exact hports pv hpv
    subst hW₁
    simp only [pure, Option.some.injEq, Prod.mk.injEq] at h
    obtain ⟨rfl, -⟩ := h
    rw [hfull rfl, List.take_length] at htake
    have htokens : (List.range builder.inputs.length).map
        (declaredSlot gate .input builder.inputs) = (ports.map Prod.fst).map some := by
      rw [← hslots, htake, List.map_map]
    have hvalues : (List.range builder.inputs.length).map (inputValue W₁ gate builder.inputs) =
        (ports.map Prod.snd).map some := by
      have e : inputValue W₁ gate builder.inputs = (fun s : Option TokenportId =>
          (s.bind (slotOwner W₁ .input)).bind (wireValue W₁)) ∘
            declaredSlot gate .input builder.inputs := rfl
      rw [e, ← List.map_map, htokens, List.map_map, List.map_map, List.map_map]
      apply List.map_congr_left
      intro pv hpv
      exact (hports pv hpv).tokenValue (hvals pv hpv)
    have hmore := writeOut_eq hcall hg (.setNextValue W₁ _) hwrite
    rw [houts, ← List.range_eq_range'] at hmore
    have hwires : more = (List.range builder.outputs.length).flatMap fun j =>
        outputActions W₁ (declaredWire W₁ gate .output builder.outputs j)
          ((builder.function (ports.map fun pv => lxcGetValue pv.2) W₁.nextValue).1.getD j
            none) := by
      rw [hmore]
      apply List.flatMap_congr
      intro j hj
      have hslot : gate.output.slots = (List.range builder.outputs.length).map
          (declaredSlot gate .output builder.outputs) := hi.slots_eq .output
      have hwire : declaredWire W₁ gate .output builder.outputs j =
          slotAt gate.output.slots j := by
        rw [hslot, slotAt, List.getElem?_map, List.getElem?_range (List.mem_range.mp hj)]
        have howner : slotOwner W₁ .output = some := rfl
        simp [declaredWire, howner]
      rw [hwire]
    have hcalled : Executed W₁ gate builder _ := .called _ _ htokens hvalues
    rw [List.map_map, List.map_map] at hcalled
    rw [hwires]
    exact hcalled
  | false =>
    simp only [Bool.false_eq_true, if_false, pure, Option.some.injEq, Prod.mk.injEq] at h
    obtain ⟨rfl, -⟩ := h
    obtain ⟨s, hs', hnone⟩ := hstop rfl
    have hlt : ports.length < builder.inputs.length := by
      have := (List.getElem?_eq_some_iff.mp hs').1
      rwa [hslots, List.length_map, List.length_range] at this
    have hslot : declaredSlot gate .input builder.inputs ports.length = s := by
      rw [hslots, List.getElem?_map, List.getElem?_range hlt] at hs'
      exact Option.some.inj hs'
    have htokens : (List.range ports.length).map (declaredSlot gate .input builder.inputs) =
        (ports.map Prod.fst).map some := by
      rw [hslots, ← List.map_take, List.take_range, min_eq_left hlt.le] at htake
      rw [htake, List.map_map]
    have hmissing : inputValue W gate builder.inputs ports.length = none := by
      unfold inputValue declaredWire
      rw [hslot]
      cases s with
      | none => rfl
      | some p => exact (hdirect ports.length p hslot).tokenValue (hnone p rfl)
    have : Executed W gate builder _ := .missing _ _ hlt hmissing htokens
    rwa [List.map_map] at this

/-! ## The execution returns when the gates it notifies do -/

theorem SameWiring.tokenport {W W₁ : World} (h : SameWiring W W₁) {p : TokenportId}
    {tp : Tokenport} (hp : W.tokenports p = some tp) :
    ∃ tp₁, W₁.tokenports p = some tp₁ ∧ tp₁.bare = tp.bare := by
  have := h.tokenports p
  rw [hp, Option.map_some, Option.map_eq_some_iff] at this
  exact this

theorem SameWiring.wire {W W₁ : World} (h : SameWiring W W₁) {w : WireId} {wire : Wire}
    (hw : W.wires w = some wire) : ∃ wire₁, W₁.wires w = some wire₁ ∧ wire₁.bare = wire.bare := by
  have := h.wires w
  rw [hw, Option.map_some, Option.map_eq_some_iff] at this
  exact this

theorem notifyPorts_returns (hcall : KeepsWiring call) (hreturns : ∀ c W, ∃ W', call c W = some W')
    {signal : Signal} {subtype : Int} {v : LxcValue} :
    ∀ {ports : NtArray TokenportId} {W₁ : World}, SameWiring W W₁ →
      (∀ p ∈ entries ports, ∃ tp gate, W.tokenports p = some tp ∧ W.gates tp.gate = some gate) →
      ∃ W', notifyPorts call (fun _ W => some W) signal subtype v ports W₁ = some W'
  | [], W₁, _, _ => ⟨W₁, rfl⟩
  | none :: _, W₁, _, _ => ⟨W₁, rfl⟩
  | some p :: ports, W₁, hsame, hall => by
      obtain ⟨tp, gate, hp, hg⟩ := hall p (by simp [entries])
      obtain ⟨tp₁, hp₁, he⟩ := hsame.tokenport hp
      have hgate : tp₁.gate = tp.gate := by
        simpa [Tokenport.bare] using congrArg Tokenport.gate he
      have hnotify : ∃ W₂, notifyGate call signal subtype v p W₁ = some W₂ := by
        have hg₁ := hsame.gates tp.gate
        rw [hg, Option.map_some, Option.map_eq_some_iff] at hg₁
        obtain ⟨gate₁, hg₁, -⟩ := hg₁
        simp only [notifyGate, hp₁, hgate, hg₁, Option.bind_eq_bind, Option.bind_some]
        split
        · exact hreturns _ _
        · exact ⟨W₁, rfl⟩
      obtain ⟨W₂, hnotify⟩ := hnotify
      have hrest : ∃ W', notifyPorts call (fun _ W => some W) signal subtype v ports W₂ =
          some W' := by
        apply notifyPorts_returns hcall hreturns (hsame.trans (notifyGate_sameWiring hcall hnotify))
        intro p' hp'
        refine hall p' ?_
        simp only [entries, List.filterMap_cons, id_eq, List.mem_cons]
        exact .inr hp'
      simpa only [notifyPorts, hnotify, Option.bind_eq_bind, Option.bind_some] using hrest

/-- The gates that a wire notifies exist. -/
theorem Wiring.Consistent.notified (hc : W.wiring.Consistent) {w : WireId} {wire : Wire}
    (hw : W.wires w = some wire) (p : TokenportId) (hp : p ∈ entries wire.drivens) :
    ∃ tp gate, W.tokenports p = some tp ∧ W.gates tp.gate = some gate := by
  have hp' : p ∈ entries (wire.bare.ports .input) := by rwa [Wire.bare_ports]
  obtain ⟨q, -, hl, hslot⟩ := hc.held w wire.bare .input p (W.wiring_wire hw) hp'
  obtain ⟨tp, htp, htok⟩ := Option.map_eq_some_iff.mp hl.token
  have hgate : tp.gate = q.gate := by
    simpa [Tokenport.bare, Wiring.tokenOf, Tokenport.zeroed] using congrArg Tokenport.gate htok
  cases hg : W.gates q.gate with
  | none => simp [World.wiring, hg] at hslot
  | some gate => exact ⟨tp, gate, htp, by rw [hgate, hg]⟩

/-- What the slot of a port holds: a live tokenport of a live wire, or a live wire. -/
theorem Wiring.Consistent.slotOwner_some (hc : W.wiring.Consistent) {q : Port} {c : Nat}
    (hslot : W.wiring.slot q = some c) :
    ∃ w wire, slotOwner W q.dir c = some w ∧ W.wires w = some wire ∧ wire.type = q.type ∧
      wire.subtype = q.subtype := by
  obtain ⟨w, p, rfl, hl⟩ := hc.listed q c hslot
  obtain ⟨wr, hw, ht, hs, -⟩ := hl.wire
  obtain ⟨wire, hwire, rfl⟩ := Option.map_eq_some_iff.mp hw
  obtain ⟨tp, htp, htok⟩ := Option.map_eq_some_iff.mp hl.token
  have hown : tp.owner = w := by
    simpa [Tokenport.bare, Wiring.tokenOf, Tokenport.zeroed] using congrArg Tokenport.owner htok
  refine ⟨w, wire, ?_, hwire, ht, hs⟩
  cases q.dir with
  | input => simp [slotOwner, Wiring.content, htp, hown]
  | output => rfl

theorem lxcDriveWireValue_returns (hcall : KeepsWiring call)
    (hreturns : ∀ c W, ∃ W', call c W = some W') (hc : W.wiring.Consistent) (hdirect : W.Direct)
    {W₁ : World} (hsame : SameWiring W W₁) {w : WireId} {wire : Wire}
    (hw : W.wires w = some wire) (instance_ : Option GateId) (v : LxcValue) :
    ∃ W', lxcDriveWireValue call instance_ w v W₁ = some W' := by
  have hnote := hsame.trans (.note W₁ instance_ v)
  obtain ⟨wire₁, hw₁, he⟩ := hnote.wire hw
  have hhandler : wire₁.handler = .directPropagateValue := by
    have : wire₁.handler = wire.handler := by
      simpa [Wire.bare] using congrArg Wire.handler he
    rw [this, hdirect w wire hw]
  have hdrivens : wire₁.drivens = wire.drivens := by
    simpa [Wire.bare] using congrArg Wire.drivens he
  simp only [lxcDriveWireValue, writeNewValue, hw₁, hhandler, wireDirectPropagateWireNewValue,
    Option.bind_eq_bind, Option.bind_some, hdrivens]
  exact notifyPorts_returns hcall hreturns
    (hnote.trans (.setWire hw₁ (by simp [Wire.bare, hhandler, hdrivens]))) (hc.notified hw)

theorem driveOutput_returns (hcall : KeepsWiring call)
    (hreturns : ∀ c W, ∃ W', call c W = some W') (hc : W.wiring.Consistent) (hdirect : W.Direct)
    {W₁ : World} (hsame : SameWiring W W₁) (g : GateId) (o : Option WireId)
    (ho : ∀ w, o = some w → ∃ wire, W.wires w = some wire) (v : LxcValue) :
    ∃ r, driveOutput call g o v W₁ = some r := by
  cases o with
  | none => exact ⟨_, rfl⟩
  | some w =>
    obtain ⟨wire, hw⟩ := ho w rfl
    obtain ⟨wire₁, hw₁, -⟩ := hsame.wire hw
    simp only [driveOutput, hw₁, Option.bind_eq_bind, Option.bind_some]
    split
    · obtain ⟨W', hdrive⟩ := lxcDriveWireValue_returns hcall hreturns hc hdirect hsame hw (some g) v
      exact ⟨_, by rw [hdrive, Option.bind_some]; rfl⟩
    · exact ⟨_, rfl⟩

theorem writeOut_returns (hcall : KeepsWiring call) (hreturns : ∀ c W, ∃ W', call c W = some W')
    (hc : W.wiring.Consistent) (hdirect : W.Direct) {g : GateId} {gate : Gate}
    (hg : W.gates g = some gate)
    (hlive : ∀ w, some w ∈ gate.output.slots → ∃ wire, W.wires w = some wire)
    (out : List (Option LxcValue)) :
    ∀ {n i : Nat} {W₁ : World}, SameWiring W W₁ → i + n ≤ gate.output.slots.length →
      ∃ r, writeOut call g out n i W₁ = some r
  | 0, i, W₁, _, _ => ⟨_, rfl⟩
  | n + 1, i, W₁, hsame, hle => by
      have hg₁ := hsame.gates g
      rw [hg, Option.map_some, Option.map_eq_some_iff] at hg₁
      obtain ⟨gate₁, hg₁, hports⟩ := hg₁
      have hside : gate₁.output = gate.output := Gate.side_of_ports hports .output
      have hi : i < gate.output.slots.length := by omega
      simp only [writeOut, hg₁, hside, List.getElem?_eq_getElem hi, Option.bind_eq_bind,
        Option.bind_some]
      split
      · exact writeOut_returns hcall hreturns hc hdirect hg hlive out hsame (by omega)
      · next v _ =>
        obtain ⟨⟨acts, W₂⟩, hdrive⟩ := driveOutput_returns hcall hreturns hc hdirect hsame g
          gate.output.slots[i] (fun w hw => hlive w (hw ▸ List.getElem_mem hi)) v
        obtain ⟨⟨more, W₃⟩, hrest⟩ := writeOut_returns hcall hreturns hc hdirect hg hlive out
          (n := n) (i := i + 1) (hsame.trans (driveOutput_sameWiring hcall hdrive)) (by omega)
        exact ⟨_, by rw [hdrive, Option.bind_some, hrest, Option.bind_some]; rfl⟩

/-- Slots of an instance hold live tokenports and wires. -/
theorem Gate.IsWrapper.slot_live {g : GateId} {gate : Gate} {builder : SimpleFuncGateBuilder}
    (hi : gate.IsWrapper builder) (hg : W.gates g = some gate) (hs : W.Sound)
    (hc : W.wiring.Consistent)
    (dir : Direction) {c : Nat} (hmem : some c ∈ (gate.side dir).slots) :
    ∃ w wire, slotOwner W dir c = some w ∧ W.wires w = some wire := by
  rw [hi.slots_eq dir] at hmem
  obtain ⟨i, -, hslot⟩ := List.mem_map.mp hmem
  simp only [declaredSlot, Option.bind_eq_bind, Option.bind_eq_some_iff] at hslot
  obtain ⟨⟨sig, sub, index⟩, -, hslot⟩ := hslot
  have hget := hs.getWire_eq (q := ⟨g, dir, sig, sub, index⟩) hg
  rw [hget] at hslot
  obtain ⟨w, wire, hown, hw, -⟩ := hc.slotOwner_some hslot
  exact ⟨w, wire, hown, hw⟩

theorem functionalGateExecute_returns (hcall : KeepsWiring call)
    (hreturns : ∀ c W, ∃ W', call c W = some W') {g : GateId} {gate : Gate}
    {builder : SimpleFuncGateBuilder} (hg : W.gates g = some gate) (hi : gate.IsWrapper builder)
    (hs : W.Sound) (hc : W.wiring.Consistent) (hdirect : W.Direct) :
    ∃ r, functionalGateExecute call builder.function g W = some r := by
  have hin := hi.slots .input
  have hout := hi.slots .output
  have hinMax := hi.maxSize .input
  have houtMax := hi.maxSize .output
  have hins : gate.input.manager.maxSize.toNat = gate.input.slots.length := by
    change (gate.side .input).manager.maxSize.toNat = (gate.side .input).slots.length
    omega
  have houts : 0 + gate.output.manager.maxSize.toNat ≤ gate.output.slots.length := by
    change 0 + (gate.side .output).manager.maxSize.toNat ≤ (gate.side .output).slots.length
    omega
  have hread : ∀ p, some p ∈ gate.input.slots → ∃ r, lxcGetTokenValue W p = some r := by
    intro p hp
    obtain ⟨w, wire, hown, hw⟩ := hi.slot_live hg hs hc .input hp
    obtain ⟨tp, htp, rfl⟩ := Option.map_eq_some_iff.mp hown
    exact ⟨wire.currentValue, by simp [lxcGetTokenValue, htp, hw, hdirect tp.owner wire hw]⟩
  have hlive : ∀ w, some w ∈ gate.output.slots → ∃ wire, W.wires w = some wire := by
    intro w hw
    obtain ⟨w', wire, hown, hw'⟩ := hi.slot_live hg hs hc .output hw
    exact ⟨wire, by rwa [← Option.some.inj hown] at hw'⟩
  obtain ⟨⟨ports, complete⟩, hports⟩ := readInputs_returns hread
  have hvals := (readInputs_cases hports).2.1
  simp only [functionalGateExecute, hg, Option.bind_eq_bind, Option.bind_some, hins,
    lt_irrefl, if_false, List.take_length, hports]
  cases complete with
  | false => exact ⟨_, rfl⟩
  | true =>
    have habsorb : absorbTokens (ports.map Prod.fst) W = some W := by
      apply hdirect.absorbTokens_returns
      intro p hp
      obtain ⟨pv, hpv, rfl⟩ := List.mem_map.mp hp
      exact ⟨_, hvals pv hpv⟩
    simp only [if_true, habsorb, Option.bind_some]
    obtain ⟨⟨more, W'⟩, hwrite⟩ := writeOut_returns hcall hreturns hc hdirect hg hlive
      (builder.function (ports.map fun pv => lxcGetValue pv.2) W.nextValue).1
      (.setNextValue W (builder.function (ports.map fun pv => lxcGetValue pv.2) W.nextValue).2)
      houts
    exact ⟨_, by rw [hwrite, Option.bind_some]; rfl⟩

end Execution

/-! ## Every history of an instance -/

/-- Look a port up by its name and wire it, with the type and subtype of the wire. -/
def wireByPortName (ex : ExecCall → World → Option World) (dir : Direction) (portName : String)
    (w : WireId) (g : GateId) (W : World) : Option (Int × World) := do
  let gate ← W.gates g
  let wire ← W.wires w
  match ← lxcGateGetPortinfoByName gate dir portName with
  | .error stat => return (stat, W)
  | .ok (_, _, index) => lxcWireGate ex dir (some wire.type) wire.subtype (some w) g index W

/-- Calls on any gates and wires, also others than the instance and the wires bound to it. -/
inductive WrapperOp where
  | byName (dir : Direction) (portName : String) (w : WireId) (g : GateId)
  | wireGate (dir : Direction) (type : Option Signal) (subtype : Int) (wire : Option WireId)
      (g : GateId) (index : Nat)
  | addPort (dir : Direction) (name : String) (type : Signal) (subtype : Int) (g : GateId)
      (junk : Nat → Nat)
  | drive (w : WireId) (value : LxcValue)

/-- The memory after a call; what the wiring calls return is dropped. -/
def WrapperOp.step (ex : ExecCall → World → Option World) (W : World) : WrapperOp → Option World
  | .byName dir portName w g => (wireByPortName ex dir portName w g W).map Prod.snd
  | .wireGate dir type subtype wire g index =>
    (lxcWireGate ex dir type subtype wire g index W).map Prod.snd
  | .addPort dir name type subtype g junk => addPortiPort W g dir junk name type subtype
  | .drive w value => lxcDriveWireValue ex none w value W

/-- The declared ports of the instance are its parameters. -/
structure WrapperCorrect (ex : ExecCall → World → Option World) (builder : SimpleFuncGateBuilder)
    (W : World) (g : GateId) (gate : Gate) : Prop where
  execute : gate.execute = .functional builder.function
  lookup : ∀ dir (i : Nat) (d : PortDefinition) info, (builder.ports dir)[i]? = some d →
    lxcGateGetPortinfoByName gate dir d.name = some (.ok info) →
    declaredPort (builder.ports dir) i = some info
  found : ∀ dir (i : Nat) (d : PortDefinition),
    (builder.ports dir).length < 2 ^ 31 → (builder.ports dir)[i]? = some d →
    ∃ info, lxcGateGetPortinfoByName gate dir d.name = some (.ok info)
  bound : ∀ dir (i : Nat) (d : PortDefinition) w wire W',
    (builder.ports dir)[i]? = some d → W.wires w = some wire →
    wire.type = d.type → wire.subtype = d.subtype →
    wireByPortName ex dir d.name w g W = some (0, W') →
    ∃ gate', W'.gates g = some gate' ∧ declaredWire W' gate' dir (builder.ports dir) i = some w
  executed : (∀ i w wire, declaredWire W gate .input builder.inputs i = some w →
      W.wires w = some wire → wire.handler = .directPropagateValue) →
    ∀ call acts W', KeepsWiring call →
      functionalGateExecute call builder.function g W = some (acts, W') →
      Executed W gate builder acts
  returns : W.Sound → W.wiring.Consistent → W.Direct → ∀ call, KeepsWiring call →
    (∀ c W, ∃ W', call c W = some W') →
    ∃ r, functionalGateExecute call builder.function g W = some r

section History

variable {ex : ExecCall → World → Option World} {builder : SimpleFuncGateBuilder} {W W' : World}
  {g : GateId} {gate : Gate}

theorem Gate.IsWrapper.of_shape {gate' : Gate} (h : gate.IsWrapper builder)
    (hs : gate'.shape = gate.shape) : gate'.IsWrapper builder := by
  simp only [Gate.shape, Gate.managers, Prod.mk.injEq] at hs
  obtain ⟨⟨hclass, hexec, hin, hout⟩, hinLen, houtLen⟩ := hs
  refine ⟨hclass.trans h.gateClass, hexec.trans h.execute, ?_, ?_⟩
  · intro dir
    obtain ⟨gs, hd⟩ := h.declared dir
    cases dir with
    | input => exact ⟨gs, hin ▸ hd⟩
    | output => exact ⟨gs, hout ▸ hd⟩
  · intro dir
    cases dir with
    | input => exact hinLen.trans (h.slots .input)
    | output => exact houtLen.trans (h.slots .output)

/-- Creating the behavior succeeds, and what it creates is an instance. -/
theorem lxcGenericCreateSimpleFunctionWrapper_isWrapper (junk : Nat → Nat)
    (builder : SimpleFuncGateBuilder) :
    ∃ b, lxcGenericCreateSimpleFunctionWrapper junk builder = some b ∧
      (lxcGenericPortbGateCreate b).IsWrapper builder := by
  obtain ⟨inputPorts, gsIn, hin, hdIn⟩ :=
    addPortDefinitions_declared junk builder.inputs declared_zeroed
  obtain ⟨outputPorts, gsOut, hout, hdOut⟩ :=
    addPortDefinitions_declared junk builder.outputs declared_zeroed
  refine ⟨⟨.functional builder.function, inputPorts, outputPorts⟩, ?_, rfl, rfl, ?_, ?_⟩
  · simp [lxcGenericCreateSimpleFunctionWrapper, hin, hout]
  · intro dir
    cases dir with
    | input => exact ⟨gsIn, hdIn⟩
    | output => exact ⟨gsOut, hdOut⟩
  · intro dir
    have hlen : ∀ {m : PortManager} {defs : List PortDefinition} {gs : Groups},
        Declared m defs gs → (zeroedSlots m).length = defs.length := by
      intro m defs gs hd
      rw [zeroedSlots, List.length_replicate, lxcPortCount, hd.represents.maxSize, declaredNames,
        List.length_map, Int.toNat_natCast]
    cases dir with
    | input => exact hlen hdIn
    | output => exact hlen hdOut

/-- Writing a declared port changes the slot at its position. -/
theorem Gate.IsWrapper.wire_eq (h : gate.IsWrapper builder) {dir : Direction} {type : Signal}
    {subtype : Int} {index i : Nat}
    (hport : declaredPort (builder.ports dir) i = some (type, subtype, index)) (c : Option Nat) :
    gate.wire dir type subtype index c =
      some (0, { gate.side dir with slots := (gate.side dir).slots.set i c }) := by
  obtain ⟨gs, hd⟩ := h.declared dir
  obtain ⟨d, hget, hd'⟩ := Option.map_eq_some_iff.mp hport
  simp only [Prod.mk.injEq] at hd'
  obtain ⟨rfl, rfl, rfl⟩ := hd'
  have hlen : (gate.side dir).slots.length = (declaredNames (builder.ports dir)).length := by
    rw [h.slots dir, declaredNames, List.length_map]
  simp only [Gate.wire, h.gateClass]
  exact PortSide.Sound.lxcGenericPortbWire_of_port hd.represents hlen (hd.absList_getElem? hget) c

/-- After the slot of a declared port is written, the port holds what was written. -/
theorem Gate.IsWrapper.declaredSlot_wire (h : gate.IsWrapper builder) {dir : Direction}
    {type : Signal} {subtype r : Int} {index i : Nat} {c : Option Nat} {side : PortSide}
    (hport : declaredPort (builder.ports dir) i = some (type, subtype, index))
    (hwire : gate.wire dir type subtype index c = some (r, side)) :
    (gate.setSide dir side).IsWrapper builder ∧
      declaredSlot (gate.setSide dir side) dir (builder.ports dir) i = c := by
  have hi : i < (builder.ports dir).length := by
    obtain ⟨d, hget, -⟩ := Option.map_eq_some_iff.mp hport
    exact (List.getElem?_eq_some_iff.mp hget).1
  have h' := h.of_shape (Gate.wire_shape h.gateClass hwire)
  refine ⟨h', ?_⟩
  rw [h.wire_eq hport c, Option.some.injEq, Prod.mk.injEq] at hwire
  obtain ⟨-, rfl⟩ := hwire
  rw [h'.declaredSlot_eq hi, Gate.side_setSide_self, slotAt_set (by rw [h.slots]; exact hi),
    if_pos rfl]

theorem wrapper_bound (hex : KeepsWiring ex) (hg : W.gates g = some gate)
    (hi : gate.IsWrapper builder) {dir : Direction}
    (hnames : ((builder.ports dir).map PortDefinition.name).Nodup) {i : Nat} {d : PortDefinition}
    {w : WireId} {wire : Wire} (hd : (builder.ports dir)[i]? = some d)
    (hw : W.wires w = some wire) (htype : wire.type = d.type) (hsub : wire.subtype = d.subtype)
    (h : wireByPortName ex dir d.name w g W = some (0, W')) :
    ∃ gate', W'.gates g = some gate' ∧
      declaredWire W' gate' dir (builder.ports dir) i = some w := by
  simp only [wireByPortName, hg, hw, Option.bind_eq_bind, Option.bind_some,
    Option.bind_eq_some_iff] at h
  obtain ⟨found, hfound, h⟩ := h
  cases found with
  | error stat =>
    simp only [pure, Option.some.injEq, Prod.mk.injEq] at h
    exact absurd h.1 (lxcGateGetPortinfoByName_error hfound)
  | ok info =>
    obtain ⟨sig, sub, index⟩ := info
    obtain ⟨gs, hdec⟩ := hi.declared dir
    have hport := lookup_declared hi.sound hdec hnames hd hfound
    have hbound := (lxcGateGetPortinfoByName_ok hi.sound hfound).2
    have hkey : d.type = sig ∧ d.subtype = sub := by
      simp only [declaredPort, hd, Option.map_some, Option.some.injEq, Prod.mk.injEq] at hport
      exact ⟨hport.1, hport.2.1⟩
    rw [htype, hsub, hkey.1, hkey.2] at h
    have htie := lxcWireGate_tied hbound h
    cases dir with
    | input =>
      obtain ⟨side, p, hwire, hgates, howner⟩ := tieInput_tied hg htie
      obtain ⟨-, hslot⟩ := hi.declaredSlot_wire hport hwire
      refine ⟨gate.setSide .input side, by rw [hgates]; exact Function.update_self .., ?_⟩
      rw [declaredWire, hslot, Option.bind_some, howner rfl]
    | output =>
      obtain ⟨side, hwire, hlater⟩ := tieOutput_tied hex hg htie
      obtain ⟨hi', hslot⟩ := hi.declaredSlot_wire hport hwire
      obtain ⟨gate', hg', hports⟩ := hlater g _ (Function.update_self ..)
      refine ⟨gate', hg', ?_⟩
      have hslot' : declaredSlot gate' .output (builder.ports .output) i = some w := by
        rw [← hslot, declaredSlot, declaredSlot]
        simp only [Gate.getWire, Gate.side_of_ports hports, Gate.gateClass_of_ports hports]
      rw [declaredWire, hslot', Option.bind_some]
      rfl

theorem WrapperOp.step_keepsPortb (hex : KeepsWiring ex) (op : WrapperOp)
    (hstep : op.step ex W = some W') : KeepsPortb W W' := by
  cases op with
  | byName dir portName w g =>
    obtain ⟨⟨r, W₁⟩, h, rfl⟩ := Option.map_eq_some_iff.mp hstep
    simp only [wireByPortName, Option.bind_eq_bind, Option.bind_eq_some_iff] at h
    obtain ⟨gate, -, wire, -, found, -, h⟩ := h
    cases found with
    | error stat =>
      simp only [pure, Option.some.injEq, Prod.mk.injEq] at h
      exact h.2 ▸ .refl W
    | ok info => exact lxcWireGate_keepsPortb hex h
  | wireGate dir type subtype wire g index =>
    obtain ⟨⟨r, W₁⟩, h, rfl⟩ := Option.map_eq_some_iff.mp hstep
    exact lxcWireGate_keepsPortb hex h
  | addPort dir name type subtype g junk => exact addPortiPort_keepsPortb hstep
  | drive w value =>
    have h : lxcDriveWireValue ex none (some w) (some value) W = some W' := hstep
    exact .of_sameWiring (lxcDriveWireValue_sameWiring hex h)

theorem Gate.IsWrapper.correct (hex : KeepsWiring ex) (hg : W.gates g = some gate)
    (hi : gate.IsWrapper builder)
    (hnames : ∀ dir, ((builder.ports dir).map PortDefinition.name).Nodup)
    (htypes : ∀ dir, ((builder.ports dir).map PortDefinition.key).dedup.length ≤
      lxcGateMaxIoTypeCount) : WrapperCorrect ex builder W g gate where
  execute := hi.execute
  lookup := by
    intro dir i d info hd hfind
    obtain ⟨gs, hdec⟩ := hi.declared dir
    exact lookup_declared hi.sound hdec (hnames dir) hd hfind
  found := by
    intro dir i d hlen hd
    obtain ⟨gs, hdec⟩ := hi.declared dir
    exact lookup_succeeds hi.sound hdec (htypes dir) hlen hd
  bound := fun dir i d w wire W' hd hw ht hs h => wrapper_bound hex hg hi (hnames dir) hd hw ht hs h
  executed := by
    intro hdirect call acts W' hcall h
    apply functionalGateExecute_executed hcall hg hi ?_ h
    intro i p hp w wire howner hw
    exact hdirect i w wire (by rw [declaredWire, hp, Option.bind_some, howner]) hw
  returns := fun hs hc hdirect call hcall hreturns =>
    functionalGateExecute_returns hcall hreturns hg hi hs hc hdirect

/-- Every wrapper can be created, and every instance of it, after any calls, is correct. -/
theorem functional_wrapper_correct (junk : Nat → Nat) (builder : SimpleFuncGateBuilder)
    (hnames : ∀ dir, ((builder.ports dir).map PortDefinition.name).Nodup)
    (htypes : ∀ dir, ((builder.ports dir).map PortDefinition.key).dedup.length ≤
      lxcGateMaxIoTypeCount) :
    ∃ b, lxcGenericCreateSimpleFunctionWrapper junk builder = some b ∧
      ∀ ex : ExecCall → World → Option World, KeepsWiring ex →
      ∀ (W₀ : World) (g : GateId) (gate₀ : Gate), W₀.gates g = some gate₀ →
      gate₀.ports = (lxcGenericPortbGateCreate b).ports →
      ∀ (ops : List WrapperOp) (W : World),
      Run.run (fun W op => op.step ex W) W₀ ops = some W →
      ∃ gate, W.gates g = some gate ∧ WrapperCorrect ex builder W g gate := by
  obtain ⟨b, hb, hi⟩ := lxcGenericCreateSimpleFunctionWrapper_isWrapper junk builder
  refine ⟨b, hb, ?_⟩
  intro ex hex W₀ g gate₀ hg₀ hports ops W hrun
  have hi₀ : gate₀.IsWrapper builder := by
    have hin : gate₀.input = _ := Gate.side_of_ports hports .input
    have hout : gate₀.output = _ := Gate.side_of_ports hports .output
    refine hi.of_shape ?_
    rw [Gate.shape, Gate.shape, Gate.managers_of_ports hports, hin, hout]
    rfl
  have hinv := Run.run_invariant (fun W : World => ∃ gate, W.gates g = some gate ∧
    gate.IsWrapper builder) ?_ ops W₀ W ⟨gate₀, hg₀, hi₀⟩ hrun
  · obtain ⟨gate, hg, hgate⟩ := hinv
    exact ⟨gate, hg, hgate.correct hex hg hnames htypes⟩
  · intro W op W' hW hstep
    obtain ⟨gate, hg, hgate⟩ := hW
    obtain ⟨gate', hg', hs⟩ := op.step_keepsPortb hex hstep g gate hg hgate.gateClass
    exact ⟨gate', hg', hgate.of_shape hs⟩

end History

/-- A gate that adds two numbers when a flag between them is present. -/
def addBuilder : SimpleFuncGateBuilder where
  function param next :=
    ([some { id := next, type := .int, subtypeInfo := 0,
             data := .int ((param.filterMap fun a => a.data.asInt).sum) }], next + 1)
  inputs := [⟨"a", .int, 0⟩, ⟨"enable", .bool, 0⟩, ⟨"b", .int, 0⟩]
  outputs := [⟨"out", .int, 0⟩]

/-- An instance of a behavior and four wires, the second one for bools. -/
def wrapperWorld (b : PortbBehavior) : World where
  gates g := if g = 0 then some (lxcGenericPortbGateCreate b) else none
  wires w := if w < 4 then
      some { type := if w = 1 then .bool else .int, subtype := 0, currentValue := none,
             refDes := none, drivers := [], drivens := [], handler := .directPropagateValue }
    else none
  tokenports _ := none
  nextWire := 4
  nextTokenport := 0
  nextValue := 10
  loopBreaker := none
  driven := []

/-- All ports are wired by their names, in another order than they are listed in; the values come
    last. -/
def wrapperHistory : List WrapperOp :=
  [.byName .input "b" 2 0, .byName .output "out" 3 0, .byName .input "enable" 1 0,
    .byName .input "a" 0 0, .drive 2 ⟨5, .int, 0, .int 40⟩, .drive 1 ⟨6, .bool, 0, .bool true⟩,
    .drive 0 ⟨7, .int, 0, .int 2⟩]

theorem functional_wrapper_correct_addBuilder :
    ∃ b, lxcGenericCreateSimpleFunctionWrapper id addBuilder = some b ∧
      ∃ W, Run.run (fun W op => op.step (callBehavior 5) W) (wrapperWorld b) wrapperHistory =
        some W ∧ ∃ gate, W.gates 0 = some gate ∧
          WrapperCorrect (callBehavior 5) addBuilder W 0 gate := by
  obtain ⟨b, hb, hall⟩ := functional_wrapper_correct id addBuilder
    (by intro dir; cases dir <;> decide) (by intro dir; cases dir <;> decide)
  have hrun : ((lxcGenericCreateSimpleFunctionWrapper id addBuilder).bind fun b =>
      Run.run (fun W op => op.step (callBehavior 5) W) (wrapperWorld b) wrapperHistory).isSome := by
    decide
  rw [hb, Option.bind_some, Option.isSome_iff_exists] at hrun
  obtain ⟨W, hW⟩ := hrun
  exact ⟨b, hb, W, hW, hall _ (callBehavior_keepsWiring 5) (wrapperWorld b) 0 _ rfl rfl _ W hW⟩

/-- The parameters are in the order of the declarations. -/
example : (do
    let b ← lxcGenericCreateSimpleFunctionWrapper id addBuilder
    let W ← Run.run (fun W op => op.step (callBehavior 5) W) (wrapperWorld b) wrapperHistory
    let (acts, _) ← functionalGateExecute (callBehavior 5) addBuilder.function 0 W
    return acts) =
  some [.absorb 3, .absorb 2, .absorb 0, .call [⟨7, .int 2⟩, ⟨6, .bool true⟩, ⟨5, .int 40⟩],
    .drive 3 ⟨10, .int, 0, .int 42⟩, .unreference ⟨10, .int, 0, .int 42⟩] := by decide

end LogxControll
