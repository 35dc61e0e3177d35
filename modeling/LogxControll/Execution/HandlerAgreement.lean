/-
  The two wire handlers on one circuit: `DIRECT_PROPAGATE_VALUE` leaves on every wire the value that
  `NONHAZARD_PROPAGATE_VALUE` drives it with.

  A direct wire may be driven many times before it carries its last value, a nonhazard wire is driven
  once a round. `handlers_agree` compares the one with the other for acyclic networks of bool gates
  whose primary wires got the same values last.
-/
import LogxControll.Execution.BoolNetwork
import LogxControll.Execution.TokenNetwork

namespace LogxControll

section Agreement

variable {W V W' : World}

/-- The gate of the other circuit. -/
theorem SameCircuit.gate (h : SameCircuit W V) {g : GateId} {gate : Gate}
    (hg : V.gates g = some gate) : ∃ gate₀, W.gates g = some gate₀ ∧ gate₀.execute = gate.execute ∧
      slotAt gate₀.output.slots 0 = slotAt gate.output.slots 0 ∧
      W.wiresOf .input gate₀.input.slots = V.wiresOf .input gate.input.slots := by
  have hboth := h.gates g
  rw [hg, Option.map_some, eq_comm, Option.map_eq_some_iff] at hboth
  obtain ⟨gate₀, hg₀, he⟩ := hboth
  obtain ⟨hexec, hslot, hwires⟩ := by simpa only [Prod.mk.injEq] using he
  exact ⟨gate₀, hg₀, hexec, hslot, hwires⟩

theorem SameCircuit.symm (h : SameCircuit W V) : SameCircuit V W :=
  ⟨fun g => (h.gates g).symm, fun w => (h.wires w).symm⟩

/-- The output slot of a bool gate is the one with index 0. -/
theorem Gate.IsBool.mem_output_iff {gate : Gate} (h : gate.IsBool) {w : WireId} :
    some w ∈ gate.output.slots ↔ slotAt gate.output.slots 0 = some w := by
  rw [h.output_eq, List.mem_singleton, eq_comm]
  rfl

/-- Which wires no gate drives, is a matter of the circuit. -/
theorem SameCircuit.primaryWire {handler handler' : WireHandler} (h : SameCircuit W V)
    (hW : W.BoolNetwork handler) (hV : V.BoolNetwork handler') {w : WireId}
    (hw : V.PrimaryWire w) : W.PrimaryWire w := by
  refine ⟨by rw [← h.wires]; exact hw.1, fun g gate hg hslot => ?_⟩
  obtain ⟨gate', hg', -, hout, -⟩ := h.symm.gate hg
  apply hw.2 g gate' hg'
  rw [(hV.bool g gate' hg').mem_output_iff, hout]
  exact (hW.bool g gate hg).mem_output_iff.mp hslot

/-- At rest the gate of a direct circuit has its result for the values `val` on its inputs. -/
theorem AtRest.output_value (hW : W.DirectBoolNetwork) (hrest : AtRest W W')
    (hsame : SameCircuit W V) (hV : V.HazardFree) {val : WireId → Bool} {g : GateId} {gate : Gate}
    {f : LogicFunction} {w : WireId} (hg : V.gates g = some gate) (hf : gate.execute = .bool f)
    (hslot : gate.output.slots[0]? = some (some w))
    (heval : f.eval ((V.wiresOf .input gate.input.slots).map val) = some (val w))
    (hin : ∀ w' ∈ V.wiresOf .input gate.input.slots,
      W'.valueOn w' = some (lxcBoolConstant (val w'))) :
    W'.valueOn w = some (lxcBoolConstant (val w)) := by
  obtain ⟨gate₀, hg₀, hexec, hout, hwires⟩ := hsame.gate hg
  have hg' : W'.gates g = some gate₀ := by rw [hrest.work.gates, hg₀]
  have hslot₀ : gate₀.output.slots[0]? = some (some w) := by
    have hw : slotAt gate₀.output.slots 0 = some w := by rw [hout, slotAt, hslot]; rfl
    rw [(hW.bool g gate₀ hg₀).output_eq, hw]
    rfl
  have hvalues : W'.inputValues gate₀ =
      ((V.wiresOf .input gate.input.slots).map val).map fun b => some (lxcBoolConstant b) := by
    rw [hrest.work.inputValues_eq hW.network (hW.network.listedIn hg₀), slotValues, hwires,
      List.map_map]
    exact List.map_congr_left hin
  have hwired : ∃ p, some p ∈ gate₀.input.slots := by
    by_contra hno
    have hnone : W.wiresOf .input gate₀.input.slots = [] := by
      rw [World.wiresOf, List.filterMap_eq_nil_iff]
      intro c hc
      cases c with
      | none => rfl
      | some p => exact absurd ⟨p, hc⟩ hno
    have hports := (hV.inputs g gate hg).1
    have hlen : (gate.input.slots.filterMap id).length = 0 := by
      rw [hwires, wiresOf_input (hV.bool.network.listedIn hg)] at hnone
      rw [List.map_eq_nil_iff.mp hnone, List.length_nil]
    omega
  exact hrest.consistent hW hg' hwired f w _ (val w) (hexec.trans hf) hslot₀ hvalues heval

/-- What a round of the nonhazard circuit computes is on the wires of the direct one. -/
theorem AtRest.values_of_round (hW : W.DirectBoolNetwork) (hrest : AtRest W W')
    (hsame : SameCircuit W V) (hV : V.HazardFree) (hfinite : {g | (V.gates g).isSome}.Finite)
    (hacyclic : ∀ g, ¬ Relation.TransGen V.Feeds g g) {val : WireId → Bool}
    (hprimary : ∀ w, V.PrimaryWire w → W'.valueOn w = some (lxcBoolConstant (val w)))
    (heval : ∀ g gate f w, V.gates g = some gate → gate.execute = .bool f →
      gate.output.slots[0]? = some (some w) →
      f.eval ((V.wiresOf .input gate.input.slots).map val) = some (val w)) (g : GateId) :
    ∀ gate w, V.gates g = some gate → gate.output.slots[0]? = some (some w) →
      W'.valueOn w = some (lxcBoolConstant (val w)) := by
  have hgates : ∀ g g', V.Feeds g g' → (V.gates g).isSome ∧ (V.gates g').isSome := by
    rintro g g' ⟨gate, gate', -, -, -, hg, hg', -⟩
    exact ⟨by rw [hg]; rfl, by rw [hg']; rfl⟩
  induction g using (Acyclic.wellFounded_of_acyclic hfinite hgates hacyclic).induction with
  | _ g ih =>
    intro gate w hg hslot
    obtain ⟨f, hf⟩ := (hV.bool.bool g gate hg).execute
    refine hrest.output_value hW hsame hV hg hf hslot (heval g gate f w hg hf hslot) ?_
    intro w' hw'
    rw [wiresOf_input (hV.bool.network.listedIn hg)] at hw'
    obtain ⟨p, hp, rfl⟩ := List.mem_map.mp hw'
    have hslot' : some p ∈ gate.input.slots := by simpa using hp
    obtain ⟨tp, wire, htp, -, hwire, -⟩ := hV.bool.network.inputs g gate p hg hslot'
    rw [(tokenNet_tokenport htp).2]
    by_cases hdriven : ∃ g' gate', V.gates g' = some gate' ∧ some tp.owner ∈ gate'.output.slots
    · obtain ⟨g', gate', hg', hout⟩ := hdriven
      refine ih g' ⟨gate', gate, tp.owner, p, tp, hg', hg, hout, hslot', htp, rfl⟩ gate' _ hg' ?_
      have hbool := hV.bool.bool g' gate' hg'
      rw [hbool.output_eq, hbool.mem_output_iff.mp hout]
      rfl
    · exact hprimary _ ⟨by rw [hwire]; rfl, fun g' gate' hg' hout => hdriven ⟨g', gate', hg', hout⟩⟩

end Agreement

/-- A circuit of direct wires after any calls, and the same circuit of nonhazard wires in a round,
    after any rounds, with the values that the primary wires of the other one got last: what is on a
    wire of the one is what its gate drives, once, in the other. -/
theorem handlers_agree {W V : World} (hW : W.DirectBoolNetwork) (hfresh : W.Fresh)
    (hV : V.HazardFree) (hsame : SameCircuit W V)
    (hdbg : ∀ g gate, V.gates g = some gate → gate.execute ≠ .bool .dbg)
    (hfinite : {g | (V.gates g).isSome}.Finite)
    (hacyclic : ∀ g, ¬ Relation.TransGen V.Feeds g g) {k : Nat}
    (hk : {g | (V.gates g).isSome}.ncard < k) {ops : List BoolDrive}
    (hops : ∀ op ∈ ops, W.PrimaryWire op.wire) {W' : World}
    (hrun : Run.run BoolDrive.step W ops = some W') (rounds : List (List (WireId × Bool)))
    (hrounds : ∀ round ∈ rounds, V.IsRound round) {round : List (WireId × Bool)}
    (hround : V.IsRound round) (hlast : ∀ c ∈ round,
      lastDriven c.1 none (ops.map BoolDrive.call) = some (lxcBoolConstant c.2)) :
    ∃ V₁ V₂, Run.run (runRound k) V rounds = some V₁ ∧ runRound k V₁ round = some V₂ ∧
      ∀ g gate w, V.gates g = some gate → gate.output.slots[0]? = some (some w) →
        ∃ v, V₂.drivesOf g = V₁.drivesOf g ++ [v] ∧ W'.valueOn w = some v := by
  obtain ⟨V₁, hrun₁, hwork, hempty⟩ :=
    Run.exists_run (fun V₁ => TokenWork V V₁ ∧ V₁.TokensEmpty)
      (fun V₁ round hV₁ hround => by
        obtain ⟨V', hstep, hwork, hempty, -⟩ :=
          runRound_fires_once hV hdbg hfinite hacyclic hk hround hV₁.1 hV₁.2
        exact ⟨V', hstep, hwork, hempty⟩)
      rounds V ⟨hV.tokenWork, hV.tokens⟩ hrounds
  obtain ⟨V₂, hrun₂, -, -, val, hval, hfired⟩ :=
    runRound_fires_once hV hdbg hfinite hacyclic hk hround hwork hempty
  obtain ⟨hrest, hvalues⟩ := run_atRest hW ops W W' hops hfresh.atRest hrun
  have hprimary : ∀ w, V.PrimaryWire w → W'.valueOn w = some (lxcBoolConstant (val w)) := by
    intro w hw
    obtain ⟨⟨w', b⟩, hc, rfl⟩ := List.mem_map.mp ((hround.2 w).mpr hw)
    rw [hvalues _ (hsame.primaryWire hW hV.bool hw), hfresh.valueOn, hval _ b hc]
    exact hlast _ hc
  have hon := hrest.values_of_round hW hsame hV hfinite hacyclic hprimary
    fun g gate f w hg hf hslot => (hfired g gate f w hg hf hslot).1
  refine ⟨V₁, V₂, hrun₁, hrun₂, fun g gate w hg hslot => ?_⟩
  obtain ⟨f, hf⟩ := (hV.bool.bool g gate hg).execute
  exact ⟨_, (hfired g gate f w hg hf hslot).2, hon g gate w hg hslot⟩

/-! ## The small network with both handlers -/

theorem nandNot_primaryWire_iff {handler : WireHandler} {behavior : ExecutionBehavior}
    {w : WireId} :
    (nandNot handler behavior).PrimaryWire w ↔ w < 2 := by
  refine ⟨fun h => ?_, nandNot_primaryWire w⟩
  obtain ⟨wire, hw⟩ := Option.isSome_iff_exists.mp h.1
  rcases nandNot_wire hw with ⟨rfl, -⟩ | ⟨rfl, -⟩ | ⟨rfl, -⟩ | ⟨rfl, -⟩
  · decide
  · decide
  · exact absurd (List.mem_singleton_self (some 2)) (h.2 0 _ rfl)
  · exact absurd (List.mem_singleton_self (some 3)) (h.2 1 _ rfl)

theorem nandNot_isRound {handler : WireHandler} {behavior : ExecutionBehavior} (b b' : Bool) :
    (nandNot handler behavior).IsRound [(0, b), (1, b')] := by
  refine ⟨by simp, fun w => ?_⟩
  rw [nandNot_primaryWire_iff]
  simp only [List.map_cons, List.map_nil, List.mem_cons, List.not_mem_nil, or_false]
  exact Nat.le_one_iff_eq_zero_or_eq_one.symm.trans Nat.lt_succ_iff.symm

theorem nandNot_ncard_lt {handler : WireHandler} {behavior : ExecutionBehavior} :
    {g | ((nandNot handler behavior).gates g).isSome}.ncard < 3 := by
  have hsub : {g | ((nandNot handler behavior).gates g).isSome} ⊆ ({0, 1} : Set Nat) := by
    intro g hg
    obtain ⟨gate, h⟩ := Option.isSome_iff_exists.mp hg
    rcases nandNot_gate h with ⟨rfl, -⟩ | ⟨rfl, -⟩ <;> simp
  have hle := (Set.ncard_le_ncard hsub).trans (Set.ncard_insert_le 0 {1})
  rw [Set.ncard_singleton] at hle
  exact Nat.lt_succ_of_le hle

theorem nandNot_sameCircuit {handler handler' : WireHandler}
    {behavior behavior' : ExecutionBehavior} :
    SameCircuit (nandNot handler behavior) (nandNot handler' behavior') := by
  refine ⟨fun g => ?_, fun w => ?_⟩
  · match g with
    | 0 => rfl
    | 1 => rfl
    | g + 2 => rfl
  · match w with
    | 0 | 1 | 2 | 3 => rfl
    | w + 4 => rfl

/-- Three calls with direct wires and a loop breaker, and a round with nonhazard wires. -/
theorem handlers_agree_nandNot :
    ∃ W' V₁ V₂, Run.run BoolDrive.step (nandNot .directPropagateValue .loopbreaker)
        [⟨9, 0, true⟩, ⟨9, 1, true⟩, ⟨9, 0, false⟩] = some W' ∧
      Run.run (runRound 3) (nandNot .nonhazardPropagateValue .default)
        [[(0, true), (1, false)]] = some V₁ ∧
      runRound 3 V₁ [(0, false), (1, true)] = some V₂ ∧
      ∃ v, V₂.drivesOf 1 = V₁.drivesOf 1 ++ [v] ∧ W'.valueOn 3 = some v := by
  have hops : ∀ op ∈ [(⟨9, 0, true⟩ : BoolDrive), ⟨9, 1, true⟩, ⟨9, 0, false⟩],
      (nandNot .directPropagateValue .loopbreaker).PrimaryWire op.wire := by
    intro op hop
    apply nandNot_primaryWire
    revert op
    decide
  have hdbg : ∀ g gate, (nandNot .nonhazardPropagateValue .default).gates g = some gate →
      gate.execute ≠ .bool .dbg := by
    intro g gate h
    rcases nandNot_gate h with ⟨rfl, rfl⟩ | ⟨rfl, rfl⟩ <;> exact fun h => by cases h
  have hsome : (Run.run BoolDrive.step (nandNot .directPropagateValue .loopbreaker)
      [⟨9, 0, true⟩, ⟨9, 1, true⟩, ⟨9, 0, false⟩]).isSome := by decide
  obtain ⟨W', hrun⟩ := Option.isSome_iff_exists.mp hsome
  obtain ⟨V₁, V₂, h₁, h₂, hagree⟩ := handlers_agree (nandNot_boolNetwork _ .loopbreaker)
    (nandNot_fresh _ _) nandNot_hazardFree nandNot_sameCircuit hdbg nandNot_finite nandNot_acyclic
    nandNot_ncard_lt hops hrun [[(0, true), (1, false)]]
    (fun round hr => List.mem_singleton.mp hr ▸ nandNot_isRound true false)
    (nandNot_isRound false true) (by decide)
  exact ⟨W', V₁, V₂, hrun, h₁, h₂, hagree 1 _ 3 rfl rfl⟩

end LogxControll
