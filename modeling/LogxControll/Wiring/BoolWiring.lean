/-
  Wiring calls on bool gates (`lxc_bool_gates.c`).

  A bool gate has 21 inputs and one output. `return_20` and `return_1` are compared by
  `private_generic_wiring` as largest indices, so output index 1 passes the check:
  `logx_bool_get_output_wire` reads it as free and `logx_bool_wire_output` stores it in the slot of
  output 0. `bool_two_way` is about the histories in which no call ties a wire there.
-/
import LogxControll.Core.Creation
import LogxControll.Wiring.Ledger

namespace LogxControll

/-- Gates from `logx_bool_create` and wires that nothing has been tied to. -/
structure World.BoolUnwired (W : World) : Prop where
  gates : ∀ g gt, W.gates g = some gt → gt.gateClass = .bool ∧
    gt.input.slots = List.replicate 21 none ∧ gt.output.slots = [none]
  wires : ∀ w wire, W.wires w = some wire → wire.type = .bool ∧ wire.subtype = 0 ∧
    ∀ dir, IsNt (wire.ports dir) []
  tokenports : ∀ p, W.tokenports p = none
  freshWire : ∀ w, W.nextWire ≤ w → W.wires w = none

/-- The call ties a wire to output index 1, with the type of the gate. -/
def WiringCall.TiesOutputOne (c : WiringCall) : Prop :=
  c.dir = .output ∧ c.wire ≠ none ∧ intOfUint c.index = 1 ∧ c.subtype = 0 ∧
    (c.type = none ∨ c.type = some .bool)

instance (c : WiringCall) : Decidable c.TiesOutputOne :=
  inferInstanceAs (Decidable (_ ∧ _ ∧ _ ∧ _ ∧ _))

/-- The slot of an output holds the one wire that lists its gate as a driver, and the slot of an
    input holds the entry its wire has for it. -/
structure World.BoolTwoWay (W : World) : Prop where
  output : ∀ g gate w, W.gates g = some gate →
    (gate.output.slots[0]? = some (some w) ↔ ∃ wire p tp, W.wires w = some wire ∧
      p ∈ entries wire.drivers ∧ W.tokenports p = some tp ∧ tp.gate = g)
  input : ∀ g gate i p, W.gates g = some gate → gate.input.slots[i]? = some (some p) →
    ∃ tp wire, W.tokenports p = some tp ∧ tp.gate = g ∧ tp.index = i ∧
      W.wires tp.owner = some wire ∧ W.entriesFor wire .input g i = [p]

/-! ## One call -/

/-- What holds along a history: the world has bool gates only, and a ledger. -/
structure World.BoolWired (W : World) : Prop where
  regular : W.Regular
  bool : ∀ g gt, W.gates g = some gt → gt.gateClass = .bool
  ledger : ∃ B, W.wiring.Ledger B

section Calls

variable {ex : ExecCall → World → Option World} {W W' : World} {B : Bindings}

theorem World.BoolUnwired.untied (h : W.BoolUnwired) : W.Untied := by
  refine ⟨fun g gt hg => ?_, fun w wire dir hw => (h.wires w wire hw).2.2 dir, h.tokenports,
    h.freshWire⟩
  obtain ⟨hc, hin, hout⟩ := h.gates g gt hg
  refine ⟨⟨fun hn => absurd hc hn, fun _ => ?_⟩, ?_⟩
  · rw [hin, hout, List.length_replicate]
    exact ⟨rfl, rfl⟩
  · intro dir c hmem
    cases dir with
    | input =>
      rw [show (gt.side .input).slots = List.replicate 21 none from hin] at hmem
      exact List.eq_of_mem_replicate hmem
    | output =>
      rw [show (gt.side .output).slots = [none] from hout] at hmem
      exact List.mem_singleton.mp hmem

theorem World.BoolUnwired.boolWired (h : W.BoolUnwired) : W.BoolWired :=
  ⟨h.untied.wired.regular, fun g gt hg => (h.gates g gt hg).1, h.untied.wired.ledger⟩

/-- A bound port is one of the ports of a bool gate. -/
theorem World.BoolWired.port_of_bound (h : W.BoolWired) (hL : W.wiring.Ledger B) {q : Port}
    {w : WireId} {p : TokenportId} (hB : B q w p) :
    q.type = .bool ∧ q.subtype = 0 ∧ q.index ≤ Gate.lastBoolIndex q.dir ∧
      ∃ gt, W.gates q.gate = some gt := by
  have hslot := (hL.slot q _).mpr ⟨w, p, hB, rfl⟩
  cases hg : W.gates q.gate with
  | none => simp [World.wiring, hg] at hslot
  | some gt =>
    rw [W.wiring_slot hg,
      (h.regular.gates q.gate gt hg).boundAt_of_bool (h.bool q.gate gt hg)] at hslot
    split at hslot
    · next hq => exact ⟨hq.1, hq.2.1, hq.2.2, gt, rfl⟩
    · cases hslot

/-- A call about a type that the gate does not support is refused. -/
theorem privateGenericWiring_unsupported {dir : Direction} {type : Signal} {subtype i : Int}
    {wire : Option WireId} {g : GateId} {gt : Gate} {r : Int} (hg : W.gates g = some gt)
    (hns : ⟨type, subtype⟩ ∉ (gt.getTypes dir).2)
    (hcall : privateGenericWiring ex dir (some type) subtype wire g i W = some (r, W')) :
    W' = W := by
  unfold privateGenericWiring at hcall
  obtain ⟨signal, hsignal, hcall⟩ := Option.bind_eq_some_iff.mp hcall
  cases signal with
  | none => exact (congrArg Prod.snd (Option.some.inj hcall)).symm
  | some signal =>
    obtain rfl : type = signal := by
      rcases (wiringSignal_some hsignal).1 with he | ⟨he, -⟩
      · exact Option.some.inj he
      · cases he
    simp only [hg, Option.bind_eq_bind, Option.bind_some, if_pos hns] at hcall
    split at hcall
    · exact (congrArg Prod.snd (Option.some.inj hcall)).symm
    · exact (congrArg Prod.snd (Option.some.inj hcall)).symm

theorem World.BoolWired.step (hex : KeepsWiring ex) (h : W.BoolWired) {c : WiringCall}
    (hok : ¬ c.TiesOutputOne) {r : Int} (hcall : c.step ex W = some (r, W')) :
    W'.BoolWired ∧
      (c.wire = none → r ≠ LxcErrno.notConnectedUnwiring.code ∧ (r ≠ 0 → W' = W)) := by
  obtain ⟨B, hL⟩ := h.ledger
  by_cases hsecond : W.TiesSecondOutput c.dir c.subtype c.wire c.gate (intOfUint c.index)
  · -- then the call names another type
    obtain ⟨hdir, hwire, hindex, hsub, gt, hg, hc⟩ := hsecond
    cases htype : c.type with
    | none => exact absurd ⟨hdir, hwire, hindex, hsub, .inl htype⟩ hok
    | some type =>
      have hne : type ≠ .bool := by
        rintro rfl
        exact hok ⟨hdir, hwire, hindex, hsub, .inr htype⟩
      have hns : (⟨type, c.subtype⟩ : FullSignalType) ∉ (gt.getTypes .output).2 := by
        simp [Gate.getTypes, hc, hne]
      unfold WiringCall.step at hcall
      rw [hdir, htype] at hcall
      obtain rfl := privateGenericWiring_unsupported hg hns hcall
      exact ⟨h, fun hnone => absurd hnone hwire⟩
  · have hun : ∀ w type, c.wire = some w → c.dir = .input → W.HasPort (c.port type) →
        W.wiring.slot (c.port type) = none → W.wiring.Unlisted w (c.port type) := by
      intro w type _ _ hport hfree wr hw p hp tp htp hfor
      generalize c.port type = q at hport hfree hp hfor
      obtain ⟨q', hB, hd⟩ := (hL.entry w wr _ p hw).mp hp
      obtain ⟨ht', hs', -, -⟩ := h.port_of_bound hL hB
      rw [hL.token q' w p hB, Option.some.injEq] at htp
      subst htp
      obtain ⟨gt, hg, hown⟩ := hport
      obtain ⟨ht, hs, -⟩ := (Gate.owns_of_bool (h.bool _ gt hg) _ _ _).mp hown
      have hslot := (hL.slot q' _).mpr ⟨w, p, hB, rfl⟩
      have hq : q' = q := by
        obtain ⟨hg', hi'⟩ := hfor
        cases q
        cases q'
        simp_all [Wiring.tokenOf, Tokenport.zeroed]
      rw [hq, hfree] at hslot
      cases hslot
    have hres := c.step_ledger hex h.regular hL hsecond hun hcall
    refine ⟨⟨hres.regular, fun g gt' hg' => ?_, hres.ledger⟩, hres.unwired⟩
    have hm := hres.ports g
    rw [hg', Option.map_some, eq_comm, Option.map_eq_some_iff] at hm
    obtain ⟨gt, hg, hm⟩ := hm
    exact (congrArg Prod.fst hm).symm.trans (h.bool g gt hg)

theorem World.BoolWired.run (hex : KeepsWiring ex) (h : W.BoolWired) {calls : List WiringCall}
    (hok : ∀ c ∈ calls, ¬ c.TiesOutputOne)
    (hrun : Run.run (fun W c => (c.step ex W).map Prod.snd) W calls = some W') : W'.BoolWired := by
  induction calls generalizing W with
  | nil => exact Option.some.inj hrun ▸ h
  | cons c calls ih =>
    obtain ⟨W₁, hstep, hrest⟩ := Option.bind_eq_some_iff.mp hrun
    obtain ⟨⟨r, W₂⟩, hcall, rfl⟩ := Option.map_eq_some_iff.mp hstep
    have h₁ := (h.step hex (hok c List.mem_cons_self) hcall).1
    exact ih h₁ (fun c' hc' => hok c' (List.mem_cons_of_mem _ hc')) hrest

/-! ## What the ledger says of the slots -/

theorem World.BoolWired.twoWay (h : W.BoolWired) : W.BoolTwoWay := by
  obtain ⟨B, hL⟩ := h.ledger
  have hread : ∀ g gate dir i c, W.gates g = some gate →
      (gate.side dir).slots[i]? = some (some c) → W.wiring.slot ⟨g, dir, .bool, 0, i⟩ = some c := by
    intro g gate dir i c hg hslot
    have hreg := h.regular.gates g gate hg
    have hlen := hreg.slots_length (h.bool g gate hg) dir
    have hlt := (List.getElem?_eq_some_iff.mp hslot).1
    have hi : i ≤ Gate.lastBoolIndex dir := by omega
    rw [W.wiring_slot (q := ⟨g, dir, .bool, 0, i⟩) hg, hreg.boundAt_of_bool (h.bool g gate hg),
      if_pos ⟨rfl, rfl, hi⟩, slotAt, hslot]
    rfl
  refine ⟨fun g gate w hg => ⟨fun hslot => ?_, ?_⟩, fun g gate i p hg hslot => ?_⟩
  · obtain ⟨w', p, hB, hw⟩ := (hL.slot _ _).mp (hread g gate .output 0 w hg hslot)
    obtain rfl : w = w' := hw
    obtain ⟨wr, hwr⟩ := hL.wire _ _ _ hB
    have hmem := (hL.entry w wr .output p hwr).mpr ⟨_, hB, rfl⟩
    obtain ⟨wire, hwire, rfl⟩ := Option.map_eq_some_iff.mp hwr
    obtain ⟨tp, htp, hbare⟩ := Option.map_eq_some_iff.mp (hL.token _ _ _ hB)
    exact ⟨wire, p, tp, hwire, hmem, htp, congrArg Tokenport.gate hbare⟩
  · rintro ⟨wire, p, tp, hwire, hmem, htp, rfl⟩
    obtain ⟨q, hB, hd⟩ := (hL.entry w wire.bare .output p (W.wiring_wire hwire)).mp hmem
    obtain ⟨ht, hs, hi, -⟩ := h.port_of_bound hL hB
    have htok := hL.token q w p hB
    rw [W.wiring_token htp, Option.some.injEq] at htok
    have hgate : tp.gate = q.gate := congrArg Tokenport.gate htok
    have hslot := (hL.slot q _).mpr ⟨w, p, hB, rfl⟩
    rw [hgate] at hg
    rw [W.wiring_slot hg, (h.regular.gates _ gate hg).boundAt_of_bool (h.bool _ gate hg),
      if_pos ⟨ht, hs, hi⟩] at hslot
    rw [hd] at hslot hi
    rw [Nat.le_zero.mp hi] at hslot
    have hlen := (h.regular.gates _ gate hg).slots_length (h.bool _ gate hg) .output
    exact (slotAt_eq (hlen ▸ Nat.succ_pos _)).trans (congrArg some hslot)
  · obtain ⟨w, p', hB, hp⟩ := (hL.slot _ _).mp (hread g gate .input i p hg hslot)
    obtain rfl : p = p' := hp
    obtain ⟨wr, hwr⟩ := hL.wire _ _ _ hB
    have hmem := (hL.entry w wr .input p hwr).mpr ⟨_, hB, rfl⟩
    have hnodup := (h.regular.arrays.isNt_entries hwr .input).2.1
    obtain ⟨wire, hwire, rfl⟩ := Option.map_eq_some_iff.mp hwr
    obtain ⟨tp, htp, hbare⟩ := Option.map_eq_some_iff.mp (hL.token _ _ _ hB)
    have hgate : tp.gate = g := congrArg Tokenport.gate hbare
    have hindex : tp.index = i := congrArg Tokenport.index hbare
    refine ⟨tp, wire, htp, hgate, hindex, ?_, eq_singleton_of_nodup (hnodup.filter _) ?_ ?_⟩
    · rw [show tp.owner = w from congrArg Tokenport.owner hbare]
      exact hwire
    · exact List.mem_filter.mpr ⟨hmem, by simp [htp, hgate, hindex]⟩
    · intro p' hp'
      obtain ⟨hmem', hfor⟩ := List.mem_filter.mp hp'
      obtain ⟨tp', htp', hfor⟩ := (Option.any_eq_true _ _).mp hfor
      obtain ⟨q, hB', hd⟩ := (hL.entry w wire.bare .input p' (W.wiring_wire hwire)).mp hmem'
      have htok := hL.token q w p' hB'
      rw [W.wiring_token htp', Option.some.injEq] at htok
      simp only [decide_eq_true_eq] at hfor
      have hq := hL.single q _ w p' p hB' hB hd rfl ((congrArg Tokenport.gate htok).symm.trans hfor.1)
        ((congrArg Tokenport.index htok).symm.trans hfor.2)
      exact (hL.port q w p' w p hB' (hq ▸ hB)).2

end Calls

/-- In every history without a call that ties a wire to output 1, slots and entries agree in
    every state, and no unwiring call loses an entry or changes a slot it then reports an error
    for. -/
theorem bool_two_way {ex : ExecCall → World → Option World} (hex : KeepsWiring ex) {W : World}
    (h : W.BoolUnwired) {calls : List WiringCall} (hok : ∀ c ∈ calls, ¬ c.TiesOutputOne) {W' : World}
    (hrun : Run.run (fun W c => (c.step ex W).map Prod.snd) W calls = some W') :
    W'.BoolTwoWay ∧
      (∀ (c : WiringCall) r W'', c.wire = none → c.step ex W' = some (r, W'') →
        r ≠ LxcErrno.notConnectedUnwiring.code ∧ (r ≠ 0 → W'' = W')) ∧
      ((∀ c W, ∃ W', ex c W = some W') → ∀ (c : WiringCall) gate, c.wire = none → W'.gates c.gate = some gate →
        ∃ r W'', c.step ex W' = some (r, W'')) := by
  have hwired : W'.BoolWired := h.boolWired.run hex hok hrun
  refine ⟨hwired.twoWay, ?_, ?_⟩
  · intro c r W'' hwire hcall
    have hnot : ¬ c.TiesOutputOne := fun hties => hties.2.1 hwire
    exact (hwired.step hex hnot hcall).2 hwire
  · intro hreturns c gate hwire hg
    obtain ⟨B, hL⟩ := hwired.ledger
    exact c.unwire_returns hreturns hwired.regular hL hwire hg

/-! ## One gate and two wires -/

/-- An inverter and two wires, none of them bound. -/
def boolWorld : World where
  gates g := if g = 0 then some (logxBoolCreate .not) else none
  wires w := if w < 2 then some { type := .bool, subtype := 0, currentValue := none, refDes := none,
                                  drivers := [], drivens := [],
                                  handler := .directPropagateValue } else none
  tokenports _ := none
  nextWire := 2
  nextTokenport := 0
  nextValue := 2
  loopBreaker := none
  driven := []

theorem boolUnwired_boolWorld : boolWorld.BoolUnwired where
  gates := by
    intro g gt hg
    simp only [boolWorld, Option.ite_none_right_eq_some, Option.some.injEq] at hg
    obtain ⟨-, rfl⟩ := hg
    exact ⟨rfl, rfl, rfl⟩
  wires := by
    intro w wire hw
    simp only [boolWorld, Option.ite_none_right_eq_some, Option.some.injEq] at hw
    obtain ⟨-, rfl⟩ := hw
    refine ⟨rfl, rfl, fun dir => ?_⟩
    cases dir <;> exact isNt_nil
  tokenports := fun _ => rfl
  freshWire := fun w hw => if_neg (Nat.not_lt.mpr hw)

/-- Output 0 is tied, untied and tied to the other wire; inputs 0 and 20 are tied. -/
def boolHistory : List WiringCall :=
  [⟨.output, some .bool, 0, some 0, 0, 0⟩, ⟨.input, none, 0, some 0, 0, 20⟩,
    ⟨.output, some .bool, 0, none, 0, 0⟩, ⟨.output, some .bool, 0, some 1, 0, 0⟩,
    ⟨.input, some .bool, 0, some 1, 0, 0⟩]

theorem bool_two_way_boolHistory :
    (Run.run (fun W c => (WiringCall.step (fun _ W => some W) W c).map Prod.snd) boolWorld
      boolHistory).isSome = true ∧
    ∀ W', Run.run (fun W c => (WiringCall.step (fun _ W => some W) W c).map Prod.snd) boolWorld
      boolHistory = some W' → W'.BoolTwoWay :=
  ⟨by decide, fun _ hrun =>
    (bool_two_way keepsWiring_some boolUnwired_boolWorld (by decide) hrun).1⟩

/-- Output 0 is tied to wire 0, then output 1 to wire 1: the one slot holds wire 1 and wire 0
    still lists the gate. -/
theorem not_bool_two_way : ¬ ∀ (calls : List WiringCall) (W' : World),
    Run.run (fun W c => (WiringCall.step (fun _ W => some W) W c).map Prod.snd) boolWorld calls =
      some W' → W'.BoolTwoWay := by
  intro h
  have hrun : (Run.run (fun W c => (WiringCall.step (fun _ W => some W) W c).map Prod.snd) boolWorld
      [⟨.output, some .bool, 0, some 0, 0, 0⟩, ⟨.output, some .bool, 0, some 1, 0, 1⟩]).any
      (fun W' => decide ((W'.gates 0).map (fun gate => gate.output.slots) = some [some 1] ∧
        (W'.wires 0).map (fun wire => entries wire.drivers) = some [0] ∧
        (W'.tokenports 0).map Tokenport.gate = some 0)) = true := by decide
  obtain ⟨W', hrun, hstate⟩ := (Option.any_eq_true _ _).mp hrun
  simp only [decide_eq_true_eq] at hstate
  obtain ⟨hgate, hwire, htp⟩ := hstate
  obtain ⟨gate, hgate, hslots⟩ := Option.map_eq_some_iff.mp hgate
  obtain ⟨wire, hwire, hentries⟩ := Option.map_eq_some_iff.mp hwire
  obtain ⟨tp, htp, hfor⟩ := Option.map_eq_some_iff.mp htp
  have hslot := ((h _ W' hrun).output 0 gate 0 hgate).mpr
    ⟨wire, 0, tp, hwire, by rw [hentries]; exact List.mem_singleton_self 0, htp, hfor⟩
  rw [hslots] at hslot
  cases hslot

end LogxControll
