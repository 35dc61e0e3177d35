/-
  Histories of wiring calls, and the agreement of port slots and wire entries along them.

  A history starts with nothing wired. It wires and unwires ports of sound gates, each wire with
  its own subtype, and adds ports to porti gates. `two_way_consistency` is what holds in every
  state it reaches.
-/
import LogxControll.Lib.Run
import LogxControll.Wiring.Steps

namespace LogxControll

/-! ## Histories -/

/-- The calls of a history. A call that ties a wire passes the wire's subtype. -/
inductive WiringOp where
  | wire (dir : Direction) (type : Option Signal) (w : WireId) (g : GateId) (index : Nat)
  | unwire (dir : Direction) (type : Option Signal) (subtype : Int) (g : GateId) (index : Nat)
  | addPort (dir : Direction) (name : String) (type : Signal) (subtype : Int) (g : GateId)
      (junk : Nat → Nat)

/-- `lxc_port_unchecked_add_new_port` on the manager a porti gate keeps for one direction. -/
def addPortiPort (W : World) (g : GateId) (dir : Direction) (junk : Nat → Nat) (name : String)
    (type : Signal) (subtype : Int) : Option World := do
  let gate ← W.gates g
  if gate.gateClass = .porti then
    let (_, _, manager) ←
      lxcPortUncheckedAddNewPort junk (gate.side dir).manager (.chars name) type subtype
    return W.setGate g (gate.setSide dir { gate.side dir with manager := manager })
  else
    none

/-- The memory after a call, whatever it returns. -/
def WiringOp.step (ex : ExecCall → World → Option World) (W : World) : WiringOp → Option World
  | .wire dir type w g index => do
    let wire ← W.wires w
    let (_, W) ← lxcWireGate ex dir type wire.subtype (some w) g index W
    return W
  | .unwire dir type subtype g index => do
    let (_, W) ← lxcWireGate ex dir type subtype none g index W
    return W
  | .addPort dir name type subtype g junk => addPortiPort W g dir junk name type subtype

/-- The state histories start from: no slot holds anything and no wire lists anything. -/
structure World.Unwired (W : World) : Prop where
  gates : ∀ g gt, W.gates g = some gt → gt.Sound ∧ ∀ dir, ∀ c ∈ (gt.side dir).slots, c = none
  wires : ∀ w wr dir, W.wires w = some wr → IsNt (wr.ports dir) []
  freshTokenport : ∀ p, W.nextTokenport ≤ p → W.tokenports p = none
  freshWire : ∀ w, W.nextWire ≤ w → W.wires w = none

/-! ## The agreement, in the words of the source -/

/-- The entries of `wire` for (g, index), in one direction. -/
def World.entriesFor (W : World) (wire : Wire) (dir : Direction) (g : GateId) (index : Nat) :
    List TokenportId :=
  (entries (wire.ports dir)).filter fun p =>
    (W.tokenports p).any fun tp => tp.gate = g ∧ tp.index = index

/-- The slot of the port leads to wire `w`. -/
def World.BoundTo (W : World) (gate : Gate) (dir : Direction) (type : Signal) (subtype : Int)
    (index : Nat) (w : WireId) : Prop :=
  match dir with
  | .input => ∃ p tp, gate.getWire .input type subtype index = some (some p) ∧
      W.tokenports p = some tp ∧ tp.owner = w
  | .output => gate.getWire .output type subtype index = some (some w)

/-- Wire and port agree on whether they are tied. -/
inductive World.Agree (W : World) (w : WireId) (wire : Wire) (dir : Direction) (g : GateId)
    (gate : Gate) (index : Nat) : Prop
  | free (hentries : W.entriesFor wire dir g index = [])
      (hslot : ¬ W.BoundTo gate dir wire.type wire.subtype index w)
  | tied (p : TokenportId) (tp : Tokenport) (hentries : W.entriesFor wire dir g index = [p])
      (htp : W.tokenports p = some tp)
      (hfields : tp.owner = w ∧ tp.gate = g ∧ tp.index = index)
      (hslot : gate.getWire dir wire.type wire.subtype index =
        some (some (Wiring.content dir w p)))

/-- The ports and the wires say the same: a port of another type is bound to no wire, and of the
    other ports each is bound to the wires that list it. -/
structure World.TwoWay (W : World) : Prop where
  mismatch : ∀ w wire g gate dir type subtype index, W.wires w = some wire →
    W.gates g = some gate → type ≠ wire.type ∨ subtype ≠ wire.subtype →
    ¬ W.BoundTo gate dir type subtype index w
  agree : ∀ w wire g gate dir index, W.wires w = some wire → W.gates g = some gate →
    W.Agree w wire dir g gate index

/-! ## What the consistent view says of the world -/

section Agreement

variable {W : World} {w : WireId} {wire : Wire} {g : GateId} {gate : Gate} {dir : Direction}

theorem boundTo_iff_lists (h : W.Sound) (hc : W.wiring.Consistent) (hg : W.gates g = some gate)
    (type : Signal) (subtype : Int) (index : Nat) (w : WireId) :
    W.BoundTo gate dir type subtype index w ↔
      ∃ p, W.wiring.Lists w p ⟨g, dir, type, subtype, index⟩ := by
  have hslot := W.wiring_slot (q := ⟨g, dir, type, subtype, index⟩) hg
  have hget := (h.gates g gate hg).getWire_eq dir type subtype index
  rw [← hslot] at hget
  constructor
  · intro hb
    cases dir with
    | input =>
      obtain ⟨p, tp, hp, htp, rfl⟩ := hb
      rw [hget, Option.some.injEq] at hp
      obtain ⟨w, p', he, hl⟩ := hc.listed _ _ hp
      obtain rfl : p = p' := he
      have htok := hl.token
      rw [W.wiring_token htp, Option.some.injEq] at htok
      have hown : tp.owner = w := congrArg Tokenport.owner htok
      exact ⟨p, hown ▸ hl⟩
    | output =>
      have hw : gate.getWire .output type subtype index = some (some w) := hb
      rw [hget, Option.some.injEq] at hw
      obtain ⟨w', p, he, hl⟩ := hc.listed _ _ hw
      obtain rfl : w = w' := he
      exact ⟨p, hl⟩
  · rintro ⟨p, hl⟩
    have hs := hc.slot_of_lists hl
    rw [hs] at hget
    cases dir with
    | input =>
      obtain ⟨tp, htp, htok⟩ := Option.map_eq_some_iff.mp hl.token
      exact ⟨p, tp, hget, htp, congrArg Tokenport.owner htok⟩
    | output => exact hget

theorem mem_entriesFor_iff (hc : W.wiring.Consistent) (hw : W.wires w = some wire)
    (g : GateId) (index : Nat) (p : TokenportId) :
    p ∈ W.entriesFor wire dir g index ↔
      W.wiring.Lists w p ⟨g, dir, wire.type, wire.subtype, index⟩ := by
  have hw' := W.wiring_wire hw
  simp only [World.entriesFor, List.mem_filter, Option.any_eq_true, decide_eq_true_eq]
  constructor
  · rintro ⟨hp, tp, htp, hgate, hindex⟩
    have hp' : p ∈ entries (wire.bare.ports dir) := by rw [Wire.bare_ports]; exact hp
    obtain ⟨q, hd, hl, -⟩ := hc.held w wire.bare dir p hw' hp'
    obtain ⟨wr, hwr, ht, hs, -⟩ := hl.wire
    rw [hw', Option.some.injEq] at hwr
    subst hwr hd
    have htok := hl.token
    rw [W.wiring_token htp, Option.some.injEq] at htok
    have hqg : tp.gate = q.gate := congrArg Tokenport.gate htok
    have hqi : tp.index = q.index := congrArg Tokenport.index htok
    obtain ⟨qg, qd, qt, qs, qi⟩ := q
    simp only [Wire.bare_type, Wire.bare_subtype] at ht hs hqg hqi
    subst hgate hindex ht hs hqg hqi
    exact hl
  · rintro hl
    obtain ⟨wr, hwr, -, -, hp⟩ := hl.wire
    rw [hw', Option.some.injEq] at hwr
    subst hwr
    obtain ⟨tp, htp, htok⟩ := Option.map_eq_some_iff.mp hl.token
    rw [Wire.bare_ports] at hp
    exact ⟨hp, tp, htp, congrArg Tokenport.gate htok, congrArg Tokenport.index htok⟩

theorem eq_singleton_of_nodup {l : List TokenportId} (hnd : l.Nodup) {p : TokenportId}
    (hp : p ∈ l) (hall : ∀ p' ∈ l, p' = p) : l = [p] := by
  cases l with
  | nil => simp at hp
  | cons a l =>
    obtain rfl := hall a List.mem_cons_self
    cases l with
    | nil => rfl
    | cons b l =>
      have hb := hall b (by simp)
      simp [hb] at hnd

theorem World.twoWay_of_consistent (h : W.Sound) (hc : W.wiring.Consistent) : W.TwoWay where
  mismatch := by
    intro w wire g gate dir type subtype index hw hg hne hb
    obtain ⟨p, hl⟩ := (boundTo_iff_lists h hc hg type subtype index w).mp hb
    obtain ⟨wr, hwr, ht, hs, -⟩ := hl.wire
    rw [W.wiring_wire hw, Option.some.injEq] at hwr
    subst hwr
    rcases hne with hne | hne
    · exact hne ht.symm
    · exact hne hs.symm
  agree := by
    intro w wire g gate dir index hw hg
    cases he : W.entriesFor wire dir g index with
    | nil =>
      refine .free he ?_
      rw [boundTo_iff_lists h hc hg]
      rintro ⟨p, hl⟩
      have := (mem_entriesFor_iff hc hw g index p).mpr hl
      simp [he] at this
    | cons p l =>
      have hp : p ∈ W.entriesFor wire dir g index := by simp [he]
      have hl := (mem_entriesFor_iff hc hw g index p).mp hp
      have hnd : (W.entriesFor wire dir g index).Nodup := by
        have := (hc.arrays.isNt_entries (W.wiring_wire hw) dir).2.1
        rw [Wire.bare_ports] at this
        exact this.filter _
      have hsingle := eq_singleton_of_nodup hnd hp fun p' hp' =>
        hc.unique w p' p _ ((mem_entriesFor_iff hc hw g index p').mp hp') hl
      obtain ⟨tp, htp, htok⟩ := Option.map_eq_some_iff.mp hl.token
      refine .tied p tp hsingle htp ⟨congrArg Tokenport.owner htok, congrArg Tokenport.gate htok,
        congrArg Tokenport.index htok⟩ ?_
      have hslot := W.wiring_slot (q := ⟨g, dir, wire.type, wire.subtype, index⟩) hg
      rw [(h.gates g gate hg).getWire_eq, ← hslot, hc.slot_of_lists hl]

end Agreement

/-! ## Every history -/

theorem World.Unwired.slot_none {W : World} (h : W.Unwired) (q : Port) :
    W.wiring.slot q = none := by
  cases hg : W.gates q.gate with
  | none => simp [World.wiring, hg]
  | some gt =>
    obtain ⟨hgt, hall⟩ := h.gates q.gate gt hg
    rw [W.wiring_slot hg]
    exact hgt.regular.boundAt_of_empty hall ..

theorem World.Unwired.entries_nil {W : World} (h : W.Unwired) {w : WireId} {wr : Wire}
    (hw : W.wiring.wire w = some wr) (dir : Direction) :
    IsNt (wr.ports dir) [] ∧ entries (wr.ports dir) = [] := by
  obtain ⟨wr', hw', rfl⟩ := Option.map_eq_some_iff.mp hw
  rw [Wire.bare_ports]
  have := h.wires w wr' dir hw'
  exact ⟨this, this.entries_eq⟩

theorem World.Unwired.sound {W : World} (h : W.Unwired) : W.Sound where
  gates := fun g gt hg => (h.gates g gt hg).1
  freshTokenport := h.freshTokenport
  freshWire := h.freshWire
  arrays := by
    refine ⟨fun w wr dir hw => ⟨[], (h.entries_nil hw dir).1, List.nodup_nil, by simp⟩, ?_⟩
    intro w wr dir w' wr' dir' p hw _ hp
    simp [(h.entries_nil hw dir).2] at hp

theorem World.Unwired.consistent {W : World} (h : W.Unwired) : W.wiring.Consistent where
  arrays := h.sound.arrays
  listed := by
    intro q c hc
    simp [h.slot_none] at hc
  held := by
    intro w wr dir p hw hp
    simp [(h.entries_nil hw dir).2] at hp
  unique := by
    intro w p p' q hl
    obtain ⟨wr, hw, -, -, hp⟩ := hl.wire
    simp [(h.entries_nil hw q.dir).2] at hp

/-- A wiring call with the subtype of its wire. -/
theorem lxcWireGate_consistent {ex : ExecCall → World → Option World} {W W' : World}
    {dir : Direction} {type : Option Signal} {subtype : Int} {wire : Option WireId} {g : GateId}
    {index : Nat} {r : Int} (hex : KeepsWiring ex) (h : W.Sound) (hc : W.wiring.Consistent)
    (hsub : ∀ w wr, wire = some w → W.wires w = some wr → wr.subtype = subtype)
    (hcall : lxcWireGate ex dir type subtype wire g index W = some (r, W')) :
    W'.Sound ∧ W'.wiring.Consistent := by
  have hcall' : privateGenericWiring ex dir type subtype wire g (intOfUint index) W =
      some (r, W') := by cases dir <;> exact hcall
  rcases privateGenericWiring_step hex h.regular h.not_tiesSecondOutput hcall' with
    ⟨-, -, rfl⟩ | ⟨t, gt, -, -, -, -, hstep⟩
  · exact ⟨h, hc⟩
  · refine ⟨hstep.sound h, hstep.outcome.consistent hc ?_⟩
    intro w wr _ hw hwr
    obtain ⟨wr', hwr', rfl⟩ := Option.map_eq_some_iff.mp hwr
    exact hsub w wr' hw hwr'

/-- A new port of a porti gate is free, and the other ports hold what they held. -/
theorem addPortiPort_wiring {W W' : World} {g : GateId} {dir : Direction} {junk : Nat → Nat}
    {name : String} {type : Signal} {subtype : Int} (h : W.Sound)
    (hcall : addPortiPort W g dir junk name type subtype = some W') :
    W'.Sound ∧ W'.wiring = W.wiring := by
  simp only [addPortiPort, Option.bind_eq_bind, Option.bind_eq_some_iff] at hcall
  obtain ⟨gt, hg, hcall⟩ := hcall
  have hgt := h.gates g gt hg
  obtain ⟨gs, names, hs⟩ := hgt.side dir
  obtain ⟨m', gs', hadd, hrep, habs, -⟩ :=
    lxcPortUncheckedAddNewPort_represents hs.represents junk name type subtype
  split at hcall
  swap
  · cases hcall
  next hcls =>
  rw [hadd] at hcall
  obtain rfl := Option.some.inj hcall
  have hplace : placeName names (.chars name) = names ++ [.chars name] := if_neg hs.noEmpty
  have hnext : nextSlot names = names.length := nextSlot_of_notMem hs.noEmpty
  have hs' : ({ gt.side dir with manager := m' } : PortSide).Sound gt.gateClass gs'
      (names ++ [.chars name]) := by
    refine ⟨hplace ▸ hrep, ?_, ?_, ?_⟩
    · simpa using hs.noEmpty
    · intro hb
      rw [hcls] at hb
      cases hb
    · intro hp
      have := hs.porti hp
      simp only [List.length_append, List.length_singleton]
      omega
  have hbound : ∀ dir' type' subtype' index',
      (gt.setSide dir { gt.side dir with manager := m' }).boundAt dir' type' subtype' index' =
        gt.boundAt dir' type' subtype' index' := by
    intro dir' type' subtype' index'
    by_cases hd : dir' = dir
    · subst hd
      rw [Gate.boundAt_of_sound (by rw [Gate.setSide_gateClass]; exact hgt.generic)
          (by rw [Gate.side_setSide_self, Gate.setSide_gateClass]; exact hs'),
        Gate.side_setSide_self, Gate.boundAt_of_sound hgt.generic hs, habs]
      by_cases hk : (⟨type', subtype'⟩ : FullSignalType) = ⟨type, subtype⟩
      · rw [hk, Function.update_self, hnext]
        by_cases hi : index' < (absList gs ⟨type, subtype⟩).length
        · rw [List.getElem?_append_left hi]
        · -- past the old ports there is at most the new one, whose slot was never written
          have hnone : (absList gs ⟨type, subtype⟩)[index']? = none := by
            rw [List.getElem?_eq_none_iff]
            omega
          rw [hnone, Option.bind_none]
          cases hi' : (absList gs ⟨type, subtype⟩ ++ [names.length])[index']? with
          | none => rfl
          | some a =>
            rw [List.getElem?_append_right (by omega)] at hi'
            obtain rfl : a = names.length := by
              simpa using List.mem_of_getElem? hi'
            exact slotAt_of_le (hs.porti hcls)
      · rw [Function.update_of_ne hk]
    · rw [Gate.boundAt_setSide_ne gt hd]
  have hwiring := World.wiring_setGate_same hg hbound
  refine ⟨⟨?_, h.freshTokenport, h.freshWire, by rw [hwiring]; exact h.arrays⟩, hwiring⟩
  intro g' gt' hg'
  by_cases he : g' = g
  · subst he
    rw [show (W.setGate g' (gt.setSide dir { gt.side dir with manager := m' })).gates g' =
      some (gt.setSide dir { gt.side dir with manager := m' }) from Function.update_self ..,
      Option.some.injEq] at hg'
    exact hg' ▸ hgt.setSide hs'
  · exact h.gates g' gt' ((Function.update_of_ne he _ W.gates).symm.trans hg')

theorem WiringOp.step_consistent {ex : ExecCall → World → Option World} (hex : KeepsWiring ex)
    (W : World) (op : WiringOp) (W' : World) (h : W.Sound ∧ W.wiring.Consistent)
    (hstep : op.step ex W = some W') : W'.Sound ∧ W'.wiring.Consistent := by
  cases op with
  | wire dir type w g index =>
    simp only [WiringOp.step, Option.bind_eq_bind, Option.bind_eq_some_iff] at hstep
    obtain ⟨wire, hw, ⟨r, W₁⟩, hcall, hret⟩ := hstep
    obtain rfl := Option.some.inj hret
    refine lxcWireGate_consistent hex h.1 h.2 ?_ hcall
    intro w' wr he hw'
    obtain rfl := Option.some.inj he
    rw [hw, Option.some.injEq] at hw'
    rw [hw']
  | unwire dir type subtype g index =>
    simp only [WiringOp.step, Option.bind_eq_bind, Option.bind_eq_some_iff] at hstep
    obtain ⟨⟨r, W₁⟩, hcall, hret⟩ := hstep
    obtain rfl := Option.some.inj hret
    exact lxcWireGate_consistent hex h.1 h.2 (by simp) hcall
  | addPort dir name type subtype g junk =>
    obtain ⟨hs, hw⟩ := addPortiPort_wiring h.1 hstep
    exact ⟨hs, hw ▸ h.2⟩

/-- The two records of every binding agree, whatever was wired, unwired and added before. -/
theorem two_way_consistency {ex : ExecCall → World → Option World} (hex : KeepsWiring ex)
    {W : World} (h : W.Unwired) (ops : List WiringOp) {W' : World}
    (hrun : Run.run (fun W op => op.step ex W) W ops = some W') : W'.TwoWay := by
  have hinv := Run.run_invariant (fun W : World => W.Sound ∧ W.wiring.Consistent)
    (fun W op W' hi hs => op.step_consistent hex W W' hi hs) ops W W' ⟨h.sound, h.consistent⟩ hrun
  exact World.twoWay_of_consistent hinv.1 hinv.2

/-- One porti gate without ports and one wire. -/
def portiWorld : World where
  gates g := if g = 0 then
      some { gateClass := .porti, execute := .other, enabled := true,
             executionBehavior := some .default,
             input := { manager := lxcPortInitPortManagerFactory, slots := [] },
             output := { manager := lxcPortInitPortManagerFactory, slots := [] } }
    else none
  wires w := if w = 0 then (lxcWireCreate .bool
      { gates := fun _ => none, wires := fun _ => none, tokenports := fun _ => none,
        nextWire := 0, nextTokenport := 0, nextValue := 2, loopBreaker := none,
        driven := [] }).2.wires 0
    else none
  tokenports _ := none
  nextWire := 1
  nextTokenport := 0
  nextValue := 2
  loopBreaker := none
  driven := []

theorem unwired_portiWorld : portiWorld.Unwired where
  gates := by
    intro g gt hg
    simp only [portiWorld, Option.ite_none_right_eq_some, Option.some.injEq] at hg
    obtain ⟨-, rfl⟩ := hg
    refine ⟨⟨.inr rfl, ?_⟩, ?_⟩
    · intro dir
      refine ⟨[], [], ?_⟩
      cases dir <;> exact ⟨represents_init, by simp, by simp, by simp [Gate.side]⟩
    · intro dir c hc
      cases dir <;> simp [Gate.side] at hc
  wires := by
    intro w wr dir hw
    simp only [portiWorld, Option.ite_none_right_eq_some] at hw
    obtain ⟨-, hw⟩ := hw
    obtain rfl : _ = wr := Option.some.inj hw
    cases dir <;> exact isNt_nil
  freshTokenport := fun _ _ => rfl
  freshWire := by
    intro w hw
    have hne : w ≠ 0 := Nat.ne_of_gt hw
    simp [portiWorld, hne]

theorem keepsWiring_some : KeepsWiring fun _ W => some W := by
  intro c W W' h
  obtain rfl := Option.some.inj h
  exact ⟨fun _ => rfl, fun _ => rfl, fun _ => rfl, rfl, rfl⟩

/-- A history that ties the wire to an input and an output, unties the input, and ties it anew. -/
def portiHistory : List WiringOp :=
  [.addPort .input "I" .bool 0 0 id, .addPort .output "Q" .bool 0 0 id,
    .wire .output (some .bool) 0 0 0, .wire .input none 0 0 0, .unwire .input (some .bool) 0 0 0,
    .wire .input (some .bool) 0 0 0]

theorem two_way_consistency_portiHistory :
    (Run.run (fun W op => op.step (fun _ W => some W) W) portiWorld portiHistory).isSome = true ∧
      ∀ W', Run.run (fun W op => op.step (fun _ W => some W) W) portiWorld portiHistory =
        some W' → W'.TwoWay :=
  ⟨by decide, fun _ h => two_way_consistency keepsWiring_some unwired_portiWorld portiHistory h⟩

end LogxControll
