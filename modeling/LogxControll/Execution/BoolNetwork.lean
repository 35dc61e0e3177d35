/-
  Networks of bool gates with direct propagation: what is on the wires when everything has
  returned.

  `logxBoolExecute_refines` makes the bool gates nodes of the propagation network of
  `DirectNetwork`; `direct_propagation_quiescent` then reads the results on networks back in the
  words of the source.
-/
import LogxControll.Execution.BoolGates
import LogxControll.Execution.DirectNetwork

namespace LogxControll

open Propagation Refinement

/-! ## Bool gates as nodes -/

/-- A bool gate drives its one output with its result. -/
def boolActions : Actions := fun gate l =>
  match gate.execute with
  | .bool f =>
    match f.result l, slotAt gate.output.slots 0 with
    | some b, some w => [(w, lxcBoolConstant b)]
    | _, _ => []
  | _ => []

/-- A network of bool gates whose wires propagate directly. -/
abbrev World.DirectBoolNetwork (W : World) : Prop := W.BoolNetwork .directPropagateValue

/-! ## The logic functions read the wired inputs -/

section Reading

variable {W₀ W : World} {slots : List (Option TokenportId)}

/-- The values on the wires of the slots. -/
def slotValues (W₀ W : World) (slots : List (Option TokenportId)) : List (Option LxcValue) :=
  (W₀.wiresOf .input slots).map W.state.value

theorem slotValues_some {p : TokenportId} {tp : Tokenport} (htp : W₀.tokenports p = some tp)
    (W : World) (slots : List (Option TokenportId)) :
    slotValues W₀ W (some p :: slots) = W.state.value tp.owner :: slotValues W₀ W slots := by
  simp [slotValues, World.wiresOf, slotOwner, htp]

/-- The token of a port on a direct wire. -/
def wireToken (W₀ W : World) (p : TokenportId) : Option LxcValue :=
  (W₀.tokenports p).bind fun tp => W.state.value tp.owner

theorem slotTokens_wireToken (h : ListedIn W₀ slots) :
    slotTokens (wireToken W₀ W) slots = slotValues W₀ W slots := by
  induction slots with
  | nil => rfl
  | cons s slots ih =>
    cases s with
    | none => exact ih h.tail
    | some p =>
      obtain ⟨tp, wire, htp, hw⟩ := h p List.mem_cons_self
      have htoken : wireToken W₀ W p = W.state.value tp.owner := by
        rw [wireToken, htp, Option.bind_some]
      rw [slotValues_some htp, ← ih h.tail, ← htoken]
      rfl

variable (hnet : W₀.DirectNetwork) (hW : AtWork W₀ IsBoolConstant W)
include hnet hW

theorem AtWork.reads (h : ListedIn W₀ slots) : Reads W (wireToken W₀ W) slots where
  token := by
    intro p hp
    obtain ⟨tp, wire, htp, hw⟩ := h p hp
    rw [hW.token_eq hnet htp hw, wireToken, htp, Option.bind_some]
  constant := by
    intro p v hp hv
    obtain ⟨tp, wire, htp, hw⟩ := h p hp
    rw [wireToken, htp, Option.bind_some] at hv
    exact hW.values tp.owner v hv

theorem AtWork.direct : W.Direct := by
  intro w wire hw
  have hbare := hW.wires w
  rw [hw, Option.map_some, eq_comm, Option.map_eq_some_iff] at hbare
  obtain ⟨wire₀, hw₀, he⟩ := hbare
  have : wire.handler = wire₀.handler := by simpa [Wire.bare] using (congrArg Wire.handler he).symm
  rw [this, hnet.handler w wire₀ hw₀]

theorem AtWork.call_eq (f : LogicFunction) (h : ListedIn W₀ slots) :
    f.call slots W = some (f.result (slotValues W₀ W slots), W) := by
  rw [LogicFunction.call_direct (AtWork.direct hnet hW) (AtWork.reads hnet hW h) f,
    slotTokens_wireToken h]

end Reading

/-! ## The propagation network of bool gates -/

section Nodes

variable {W : World}

theorem boolActions_eq {gate : Gate} {f : LogicFunction} (hf : gate.execute = .bool f)
    (l : List (Option LxcValue)) :
    boolActions gate l = ((f.result l).bind fun b =>
      (slotAt gate.output.slots 0).map fun w => (w, lxcBoolConstant b)).toList := by
  simp only [boolActions, hf]
  cases f.result l with
  | none => rfl
  | some b =>
    cases slotAt gate.output.slots 0 with
    | none => rfl
    | some w => rfl

theorem boolActions_length (gate : Gate) (l : List (Option LxcValue)) :
    (boolActions gate l).length ≤ 1 := by
  unfold boolActions
  split
  · split
    · exact le_rfl
    · exact Nat.zero_le 1
  · exact Nat.zero_le 1

theorem World.DirectBoolNetwork.outputs_eq (h : W.DirectBoolNetwork) {g : GateId} {gate : Gate}
    (hg : W.gates g = some gate) :
    (W.net boolActions).outputs g = (slotAt gate.output.slots 0).toList := by
  rw [(net_gate hg).2.1, wiresOf_output, (h.bool g gate hg).output_eq]
  cases slotAt gate.output.slots 0 <;> rfl

theorem World.DirectBoolNetwork.wellFormed (h : W.DirectBoolNetwork) :
    (W.net boolActions).WellFormed := by
  apply h.network.wellFormed
  intro g gate l hg
  obtain ⟨f, hf⟩ := (h.bool g gate hg).execute
  rw [boolActions_eq hf, (h.bool g gate hg).output_eq]
  cases f.result l with
  | none => simp
  | some b =>
    cases slotAt gate.output.slots 0 <;> simp [slotAt]

theorem World.net_actions_length (W : World) (g : GateId) (l : List (Option LxcValue)) :
    ((W.net boolActions).actions g l).length ≤ 1 := by
  cases hg : W.gates g with
  | none => simp [World.net, hg]
  | some gate =>
    rw [(net_gate hg).2.2]
    exact boolActions_length gate l

theorem World.DirectBoolNetwork.monotone (h : W.DirectBoolNetwork) :
    (W.net boolActions).Monotone := by
  intro g l l' hl
  cases hg : W.gates g with
  | none => simp [World.net, hg]
  | some gate =>
    obtain ⟨f, hf⟩ := (h.bool g gate hg).execute
    rw [(net_gate hg).2.2, boolActions_eq hf, boolActions_eq hf]
    cases hr : f.result l with
    | none => simp
    | some b =>
      have := f.result_mono hl (by rw [hr]; rfl)
      obtain ⟨b', hb'⟩ := Option.isSome_iff_exists.mp this
      rw [hb']
      cases slotAt gate.output.slots 0 <;> simp

/-- Executing a bool gate is what its node does. -/
theorem World.DirectBoolNetwork.executesAs (h : W.DirectBoolNetwork) :
    ExecutesAs W IsBoolConstant boolActions := by
  intro call notify hcall g gate hg W' hW'
  obtain ⟨f, hf⟩ := (h.bool g gate hg).execute
  have hgate : W'.gates g = some gate := by rw [hW'.gates, hg]
  have hout : gate.output.slots[0]? = some (slotAt gate.output.slots 0) := by
    apply slotAt_eq
    rw [(h.bool g gate hg).output]
    exact Nat.zero_lt_one
  have hread : (W.net boolActions).read W'.state g = slotValues W W' gate.input.slots := by
    rw [Net.read, (net_gate hg).1]
    rfl
  have hcalled := AtWork.call_eq h.network hW' f (h.network.listedIn hg)
  show (gate.execute.run call g W').map World.state = _ ∧ _
  simp only [hf, Execute.run, logxBoolExecute, hgate, hout, hcalled, Option.bind_eq_bind,
    Option.bind_some]
  unfold Net.fire
  rw [hread, (net_gate hg).2.2, boolActions_eq hf]
  cases f.result (slotValues W W' gate.input.slots) with
  | none =>
    refine ⟨rfl, fun W'' h => ?_⟩
    obtain rfl := Option.some.inj h
    exact hW'
  | some b =>
    cases hslot : slotAt gate.output.slots 0 with
    | none =>
      refine ⟨rfl, fun W'' h => ?_⟩
      obtain rfl := Option.some.inj h
      exact hW'
    | some w =>
      have hmem : some w ∈ gate.output.slots := by
        rw [(h.bool g gate hg).output_eq, hslot]
        exact List.mem_singleton_self (some w)
      obtain ⟨wire, hw⟩ := h.network.outputs g gate w hg hmem
      have hdrive : Refines (AtWork W IsBoolConstant) World.state
          (lxcDriveWireValue call (some g) (some w) (some (lxcBoolConstant b)))
          ((W.net boolActions).drive notify w (lxcBoolConstant b)) :=
        lxcDriveWireValue_refines h.network hcall hw ⟨b, rfl⟩ (some g)
      have hone : (W.net boolActions).driveAll notify [(w, lxcBoolConstant b)] W'.state =
          (W.net boolActions).drive notify w (lxcBoolConstant b) W'.state := Option.bind_fun_some _
      simp only [Option.bind_some, Option.map_some, Option.toList_some, hone]
      exact hdrive W' hW'

end Nodes

/-! ## Runs -/

/-- The values on the wired inputs of a gate, `none` for a wire without a value. -/
def World.inputValues (W : World) (gate : Gate) : List (Option LxcValue) :=
  gate.input.slots.filterMap fun s => s.map fun p => (lxcGetTokenValue W p).join

/-- If all wired inputs carry values, and the logic function has a result for them, then it is on
    the output wire. -/
def World.GateConsistent (W : World) (gate : Gate) : Prop :=
  ∀ f w values b, gate.execute = .bool f → gate.output.slots[0]? = some (some w) →
    W.inputValues gate = values.map (fun v => some (lxcBoolConstant v)) →
    f.eval values = some b → W.valueOn w = some (lxcBoolConstant b)

section Runs

variable {W W' : World}

/-- The state between two outermost calls. -/
structure AtRest (W₀ W : World) : Prop where
  work : AtWork W₀ IsBoolConstant W
  idle : W.loopBreaker = none
  settled : ∀ g, (W₀.net boolActions).Settled W.state g
  sane : (W₀.net boolActions).Sane W.state

theorem World.Fresh.atRest (h : W.Fresh) : AtRest W W := by
  have hnone : ∀ w, W.state.value w = none := h.valueOn
  refine ⟨⟨rfl, rfl, fun _ => rfl, ?_, ?_⟩, h.loopBreaker, ?_, ?_, ?_⟩
  · intro w v hv
    rw [hnone w] at hv
    cases hv
  · intro q t hq
    rw [h.loopBreaker] at hq
    cases hq
  · intro g hlive
    obtain ⟨w, -, hv⟩ := hlive
    rw [hnone w] at hv
    cases hv
  · intro g w _ hv
    rw [hnone w] at hv
    cases hv
  · intro g hg
    simp [State.pending, World.state, h.loopBreaker] at hg

/-- One outermost call, as the network sees it. -/
theorem BoolDrive.step_refines (h : W.DirectBoolNetwork) {op : BoolDrive}
    (hop : W.PrimaryWire op.wire) :
    Refines (AtWork W IsBoolConstant) World.state (fun W => op.step W)
      ((W.net boolActions).drive ((W.net boolActions).notify op.fuel) op.wire
        (lxcBoolConstant op.value)) := by
  obtain ⟨wire, hw⟩ := Option.isSome_iff_exists.mp hop.1
  exact lxcDriveWireValue_refines h.network
    (callBehavior_refines h.network h.executesAs op.fuel) hw ⟨op.value, rfl⟩ none

/-- An outermost call that returns leaves everything at rest, and of the wires that no gate
    drives it changed the one it drove. -/
theorem BoolDrive.step_atRest {W₀ : World} (h : W₀.DirectBoolNetwork) {op : BoolDrive}
    (hop : W₀.PrimaryWire op.wire) (hW : AtRest W₀ W) (hstep : op.step W = some W') :
    AtRest W₀ W' ∧ ∀ w, W₀.PrimaryWire w →
      W'.valueOn w = if w = op.wire then some (lxcBoolConstant op.value) else W.valueOn w := by
  obtain ⟨hdrive, hwork⟩ := (op.step_refines h hop).result hW.work hstep
  have hidle : W.state.queue = none := by rw [World.state, hW.idle]; rfl
  have hsettles := drive_primary_settles h.wellFormed
    (notify_settles h.wellFormed W₀.net_actions_length op.fuel) hop.primary hdrive
  have hevolves := drive_evolves h.wellFormed h.monotone
    (notify_evolves h.wellFormed h.monotone op.fuel) hW.sane (.inl hop.primary) hdrive
  have hqueue := hsettles.idle hidle
  refine ⟨⟨hwork, ?_, ?_, hevolves.sane⟩, ?_⟩
  · exact Option.map_eq_none_iff.mp hqueue
  · intro g
    by_contra hg
    rcases hsettles.unsettled g hg with ⟨-, hg'⟩ | hp
    · exact hg' (hW.settled g)
    · rw [State.pending, hqueue] at hp
      cases hp
  · intro w hw
    have hkept : W'.valueOn w = (W.state.set op.wire (lxcBoolConstant op.value)).value w :=
      hevolves.kept w hw.primary
    rw [hkept]
    split
    · next he => rw [he, State.set_value_self]
    · next he => exact W.state.set_value_ne he _

/-- The value on a primary wire after some outermost calls is the last one driven. -/
def lastDriven (w : WireId) (v : Option LxcValue) (calls : List (WireId × Bool)) :
    Option LxcValue :=
  calls.foldl (fun v c => if w = c.1 then some (lxcBoolConstant c.2) else v) v

/-- The call without its fuel. -/
def BoolDrive.call (op : BoolDrive) : WireId × Bool := (op.wire, op.value)

theorem run_atRest {W₀ : World} (h : W₀.DirectBoolNetwork) :
    ∀ (ops : List BoolDrive) (W W' : World), (∀ op ∈ ops, W₀.PrimaryWire op.wire) → AtRest W₀ W →
      Run.run BoolDrive.step W ops = some W' →
      AtRest W₀ W' ∧ ∀ w, W₀.PrimaryWire w →
        W'.valueOn w = lastDriven w (W.valueOn w) (ops.map BoolDrive.call) := by
  intro ops
  induction ops with
  | nil =>
    intro W W' _ hW hrun
    obtain rfl := Option.some.inj hrun
    exact ⟨hW, fun _ _ => rfl⟩
  | cons op ops ih =>
    intro W W' hops hW hrun
    obtain ⟨W₁, hstep, hrun⟩ := Option.bind_eq_some_iff.mp hrun
    obtain ⟨hW₁, hvalues⟩ := op.step_atRest h (hops op List.mem_cons_self) hW hstep
    obtain ⟨hW', hlast⟩ := ih W₁ W' (fun op' h' => hops op' (List.mem_cons_of_mem _ h')) hW₁ hrun
    refine ⟨hW', fun w hw => ?_⟩
    rw [hlast w hw, hvalues w hw]
    rfl

/-- The values the gate reads are those on the wires of its slots. -/
theorem AtWork.inputValues_eq {W₀ : World} (hnet : W₀.DirectNetwork)
    (hW : AtWork W₀ IsBoolConstant W) {gate : Gate} (h : ListedIn W₀ gate.input.slots) :
    W.inputValues gate = slotValues W₀ W gate.input.slots := by
  unfold World.inputValues
  generalize gate.input.slots = slots at h
  induction slots with
  | nil => rfl
  | cons s slots ih =>
    cases s with
    | none => exact ih h.tail
    | some p =>
      obtain ⟨tp, wire, htp, hw⟩ := h p List.mem_cons_self
      rw [slotValues_some htp, ← ih h.tail, List.filterMap_cons, Option.map_some,
        hW.token_eq hnet htp hw]
      rfl

/-- At rest every gate with a wired input has its result on its output wire. -/
theorem AtRest.consistent {W₀ : World} (h : W₀.DirectBoolNetwork) (hW : AtRest W₀ W) {g : GateId}
    {gate : Gate} (hg : W.gates g = some gate) (hwired : ∃ p, some p ∈ gate.input.slots) :
    W.GateConsistent gate := by
  intro f w values b hf hslot hvalues heval
  have hg₀ : W₀.gates g = some gate := by rw [← hW.work.gates, hg]
  rw [hW.work.inputValues_eq h.network (h.network.listedIn hg₀)] at hvalues
  have hread : (W₀.net boolActions).read W.state g =
      values.map fun v => some (lxcBoolConstant v) := by
    rw [Net.read, (net_gate hg₀).1]
    exact hvalues
  have hlive : (W₀.net boolActions).Live W.state g := by
    obtain ⟨p, hp⟩ := hwired
    obtain ⟨tp, wire, htp, -⟩ := h.network.listedIn hg₀ p hp
    have hin : tp.owner ∈ (W₀.net boolActions).inputs g :=
      mem_inputs_iff.mpr ⟨gate, p, tp, hg₀, hp, htp, rfl⟩
    refine ⟨tp.owner, hin, ?_⟩
    have hmem : W.state.value tp.owner ∈ (W₀.net boolActions).read W.state g :=
      List.mem_map_of_mem hin
    rw [hread] at hmem
    obtain ⟨v, -, hv⟩ := List.mem_map.mp hmem
    rw [← hv]
    rfl
  have hresult : f.result (values.map fun v => some (lxcBoolConstant v)) = some b := by
    cases f with
    | dbg => exact heval
    | nand | nor | and | or | not | xor =>
      simp only [LogicFunction.result, present_map, Option.bind_some]
      exact heval
  have hout : slotAt gate.output.slots 0 = some w := by rw [slotAt, hslot]; rfl
  refine hW.settled g hlive (w, lxcBoolConstant b) ?_
  rw [hread, (net_gate hg₀).2.2, boolActions_eq hf, hresult, hout]
  exact List.mem_singleton.mpr rfl

end Runs

/-! ## Acyclic networks -/

/-- The same gates, wired in the same way: the order in which wires list their ports, and the
    execution behaviors, may differ. -/
structure SameCircuit (W V : World) : Prop where
  gates : ∀ g, (V.gates g).map (fun gate => (gate.execute, slotAt gate.output.slots 0,
      V.wiresOf .input gate.input.slots)) =
    (W.gates g).map fun gate => (gate.execute, slotAt gate.output.slots 0,
      W.wiresOf .input gate.input.slots)
  wires : ∀ w, (V.wires w).isSome = (W.wires w).isSome

section Acyclic

variable {W : World}

/-- An outermost call returns with the fuel that its wire asks for. -/
theorem World.DirectBoolNetwork.exists_depth {W₀ : World} (h : W₀.DirectBoolNetwork)
    (hwf : WellFounded fun g' g => (W₀.net boolActions).Feeds g g') :
    ∃ depth : WireId → Nat, ∀ W (op : BoolDrive), AtRest W₀ W → W₀.PrimaryWire op.wire →
      depth op.wire ≤ op.fuel → ∃ W', op.step W = some W' := by
  obtain ⟨cost, hcost⟩ := exists_budget (W₀.net boolActions) hwf
  refine ⟨fun w => (((W₀.net boolActions).readers w).map cost).sum + 1, fun W op hW hop hk => ?_⟩
  have hall : ∀ g ∈ (W₀.net boolActions).readers op.wire, ∀ s, ∃ s',
      (W₀.net boolActions).notify op.fuel g s = some s' ∧ Spends cost (cost g) s s' := by
    intro g hg
    have hcostg : cost g ≤ (((W₀.net boolActions).readers op.wire).map cost).sum :=
      List.le_sum_of_mem (List.mem_map_of_mem hg)
    have hfuel : (((W₀.net boolActions).readers op.wire).map cost).sum + 1 ≤ op.fuel := hk
    exact notify_returns h.wellFormed hcost op.fuel g (by omega)
  obtain ⟨s', hdrive, -⟩ := drive_returns (lxcBoolConstant op.value) W.state hall
  obtain ⟨W', hstep, -⟩ := (op.step_refines h hop).returns hW.work hdrive
  exact ⟨W', hstep⟩

/-- So does a sequence of such calls. -/
theorem World.DirectBoolNetwork.exists_run {W₀ : World} (h : W₀.DirectBoolNetwork)
    (hwf : WellFounded fun g' g => (W₀.net boolActions).Feeds g g') :
    ∃ depth : WireId → Nat, ∀ (ops : List BoolDrive) W, AtRest W₀ W →
      (∀ op ∈ ops, W₀.PrimaryWire op.wire ∧ depth op.wire ≤ op.fuel) →
        ∃ W', Run.run BoolDrive.step W ops = some W' := by
  obtain ⟨depth, hdepth⟩ := h.exists_depth hwf
  refine ⟨depth, fun ops W hW hops => ?_⟩
  have hnext : ∀ V (op : BoolDrive), AtRest W₀ V →
      (W₀.PrimaryWire op.wire ∧ depth op.wire ≤ op.fuel) →
        ∃ V', op.step V = some V' ∧ AtRest W₀ V' := by
    intro V op hV hop
    obtain ⟨V', hstep⟩ := hdepth V op hV hop.1 hop.2
    exact ⟨V', hstep, (op.step_atRest h hop.1 hV hstep).1⟩
  obtain ⟨W', hrun, -⟩ := Run.exists_run (AtRest W₀) hnext ops W hW hops
  exact ⟨W', hrun⟩

theorem SameCircuit.net_eq {V : World} (h : SameCircuit W V) (hW : W.DirectBoolNetwork)
    (hV : V.DirectBoolNetwork) :
    (V.net boolActions).inputs = (W.net boolActions).inputs ∧
      (V.net boolActions).outputs = (W.net boolActions).outputs ∧
      (V.net boolActions).actions = (W.net boolActions).actions := by
  have hgate : ∀ g, (V.net boolActions).inputs g = (W.net boolActions).inputs g ∧
      (V.net boolActions).outputs g = (W.net boolActions).outputs g ∧
      (V.net boolActions).actions g = (W.net boolActions).actions g := by
    intro g
    have hg := h.gates g
    cases hv : V.gates g with
    | none =>
      rw [hv, Option.map_none, eq_comm, Option.map_eq_none_iff] at hg
      simp [World.net, hv, hg]
    | some gate =>
      rw [hv, Option.map_some, eq_comm, Option.map_eq_some_iff] at hg
      obtain ⟨gate', hw, he⟩ := hg
      simp only [Prod.mk.injEq] at he
      obtain ⟨hexec, hslot, hwires⟩ := he
      rw [hV.outputs_eq hv, hW.outputs_eq hw, (net_gate hv).1, (net_gate hw).1,
        (net_gate hv).2.2, (net_gate hw).2.2, hwires, hslot]
      refine ⟨rfl, rfl, ?_⟩
      funext l
      unfold boolActions
      rw [hexec, hslot]
  exact ⟨funext fun g => (hgate g).1, funext fun g => (hgate g).2.1,
    funext fun g => (hgate g).2.2⟩

end Acyclic

/-- Whenever an outermost call returns, the queue is gone and every gate with a wired input is
    consistent. In an acyclic network every call returns, and the values in the end depend
    neither on the order of the driven ports nor on which gates use the loop breaker. -/
theorem direct_propagation_quiescent {W : World} (h : W.DirectBoolNetwork) (hfresh : W.Fresh)
    (hfinite : {g | (W.gates g).isSome}.Finite) (ops : List BoolDrive)
    (hops : ∀ op ∈ ops, W.PrimaryWire op.wire) :
    (∀ W', Run.run BoolDrive.step W ops = some W' → W'.loopBreaker = none ∧
      ∀ g gate, W'.gates g = some gate → (∃ p, some p ∈ gate.input.slots) →
        W'.GateConsistent gate) ∧
    ((∀ g, ¬ Relation.TransGen W.Feeds g g) →
      (∀ W', Run.run BoolDrive.step W ops = some W' → ∀ w b, W.PrimaryWire w →
        ∃ K, ∀ k, K ≤ k → ∃ W'', (BoolDrive.mk k w b).step W' = some W'') ∧
      ∀ V ops', V.DirectBoolNetwork → V.Fresh → SameCircuit W V →
        ops'.map BoolDrive.call = ops.map BoolDrive.call →
        ∀ W' V', Run.run BoolDrive.step W ops = some W' → Run.run BoolDrive.step V ops' = some V' →
        ∀ w, V'.valueOn w = W'.valueOn w) := by
  refine ⟨?_, fun hacyclic => ?_⟩
  · intro W' hrun
    have hW' := (run_atRest h ops W W' hops hfresh.atRest hrun).1
    exact ⟨hW'.idle, fun g gate hg hwired => hW'.consistent h hg hwired⟩
  obtain ⟨hforward, hbackward⟩ := h.network.wellFounded hfinite hacyclic
  refine ⟨?_, ?_⟩
  · intro W' hrun w b hw
    obtain ⟨depth, hdepth⟩ := h.exists_depth hbackward
    have hW' := (run_atRest h ops W W' hops hfresh.atRest hrun).1
    exact ⟨depth w, fun k hk => hdepth W' ⟨k, w, b⟩ hW' hw hk⟩
  · intro V ops' hV hfreshV hsame hcalls W' V' hrunW hrunV
    obtain ⟨hin, hout, hacts⟩ := hsame.net_eq h hV
    have hprimary : ∀ w, W.PrimaryWire w → V.PrimaryWire w := by
      intro w hw
      refine ⟨by rw [hsame.wires]; exact hw.1, fun g gate hg hslot => ?_⟩
      have hmem : w ∈ (V.net boolActions).outputs g := mem_outputs_iff.mpr ⟨gate, hg, hslot⟩
      rw [hout] at hmem
      exact hw.primary g hmem
    have hops' : ∀ op ∈ ops', V.PrimaryWire op.wire := by
      intro op hop
      have hmem : op.call ∈ ops.map BoolDrive.call := hcalls ▸ List.mem_map_of_mem hop
      obtain ⟨op', hop', he⟩ := List.mem_map.mp hmem
      have hwire : op'.wire = op.wire := congrArg Prod.fst he
      exact hprimary op.wire (hwire ▸ hops op' hop')
    obtain ⟨hW', hlastW⟩ := run_atRest h ops W W' hops hfresh.atRest hrunW
    obtain ⟨hV', hlastV⟩ := run_atRest hV ops' V V' hops' hfreshV.atRest hrunV
    refine settled_unique h.wellFormed hin hout hacts hforward hW'.sane hV'.sane hW'.settled
      hV'.settled ?_
    intro w hw
    cases hwire : W.wires w with
    | none =>
      have hnoneW : W'.wires w = none := by
        have := hW'.work.wires w
        rwa [hwire, Option.map_none, Option.map_eq_none_iff] at this
      have hnoneV : V'.wires w = none := by
        have hv := hsame.wires w
        rw [hwire, Option.isSome_none, Option.isSome_eq_false_iff, Option.isNone_iff_eq_none] at hv
        have := hV'.work.wires w
        rwa [hv, Option.map_none, Option.map_eq_none_iff] at this
      simp [World.state, hnoneW, hnoneV]
    | some wire =>
      have hw' : W.PrimaryWire w := by
        refine ⟨by rw [hwire]; rfl, fun g gate hg hslot => ?_⟩
        exact hw g (mem_outputs_iff.mpr ⟨gate, hg, hslot⟩)
      have hlast := hlastW w hw'
      rw [hfresh.valueOn w, ← hcalls, ← hfreshV.valueOn w, ← hlastV w (hprimary w hw')] at hlast
      exact hlast.symm

theorem nandNot_fresh (handler : WireHandler) (behavior : ExecutionBehavior) :
    (nandNot handler behavior).Fresh where
  values := by
    intro w wire h
    rcases nandNot_wire h with ⟨rfl, rfl⟩ | ⟨rfl, rfl⟩ | ⟨rfl, rfl⟩ | ⟨rfl, rfl⟩ <;> rfl
  loopBreaker := rfl

/-- Both inputs of `nandNot` are driven, the first one twice; the inverter uses the loop breaker
    in one of two runs. -/
theorem direct_propagation_quiescent_nandNot :
    (∀ W', Run.run BoolDrive.step (nandNot .directPropagateValue .loopbreaker)
        [⟨9, 0, true⟩, ⟨9, 1, true⟩, ⟨9, 0, false⟩] = some W' →
      W'.loopBreaker = none ∧ ∀ g gate, W'.gates g = some gate →
        (∃ p, some p ∈ gate.input.slots) → W'.GateConsistent gate) ∧
    ∀ W' V', Run.run BoolDrive.step (nandNot .directPropagateValue .loopbreaker)
        [⟨9, 0, true⟩, ⟨9, 1, true⟩, ⟨9, 0, false⟩] = some W' →
      Run.run BoolDrive.step (nandNot .directPropagateValue .default)
        [⟨7, 0, true⟩, ⟨7, 1, true⟩, ⟨7, 0, false⟩] = some V' →
      ∀ w, V'.valueOn w = W'.valueOn w := by
  have hops : ∀ op ∈ [(⟨9, 0, true⟩ : BoolDrive), ⟨9, 1, true⟩, ⟨9, 0, false⟩],
      (nandNot .directPropagateValue .loopbreaker).PrimaryWire op.wire := by
    intro op hop
    apply nandNot_primaryWire
    revert op
    decide
  have h := direct_propagation_quiescent (nandNot_boolNetwork .directPropagateValue .loopbreaker)
    (nandNot_fresh _ _) nandNot_finite _ hops
  refine ⟨h.1, ?_⟩
  refine (h.2 nandNot_acyclic).2 _ _ (nandNot_boolNetwork _ .default) (nandNot_fresh _ _) ?_ rfl
  refine ⟨fun g => ?_, fun w => rfl⟩
  match g with
  | 0 => rfl
  | 1 => rfl
  | g + 2 => rfl

example : (Run.run BoolDrive.step (nandNot .directPropagateValue .loopbreaker)
    [⟨9, 0, true⟩, ⟨9, 1, true⟩, ⟨9, 0, false⟩]).map (fun W => W.valueOn 3) =
      some (some lxcBoolConstantValueFalse) := by decide

/-! ## A gate without inputs -/

/-- A `dbg` gate with no wired input, on wire 0, next to the unused wire 1. -/
def unwiredDbg : World :=
  .ofLists [wiredBoolGate .dbg .default [] 0]
    [boolWire .directPropagateValue [0] [], boolWire .directPropagateValue [] []]
    [.zeroed 0 0 0]

/-- No drive ever reaches the gate, so that its result is not on its wire. -/
theorem not_direct_propagation_quiescent :
    unwiredDbg.DirectBoolNetwork ∧ unwiredDbg.Fresh ∧
    {g | (unwiredDbg.gates g).isSome}.Finite ∧ unwiredDbg.PrimaryWire 1 ∧
    ∃ W' gate, Run.run BoolDrive.step unwiredDbg [⟨1, 1, true⟩] = some W' ∧
      W'.gates 0 = some gate ∧ ¬ W'.GateConsistent gate := by
  have hgate : ∀ {g gate}, unwiredDbg.gates g = some gate →
      g = 0 ∧ gate = wiredBoolGate .dbg .default [] 0 := by
    intro g gate h
    match g, h with
    | 0, h => exact ⟨rfl, (Option.some.inj h).symm⟩
  have hwire : ∀ {w wire}, unwiredDbg.wires w = some wire →
      (w = 0 ∧ wire = boolWire .directPropagateValue [0] []) ∨
        (w = 1 ∧ wire = boolWire .directPropagateValue [] []) := by
    intro w wire h
    match w, h with
    | 0, h => exact .inl ⟨rfl, (Option.some.inj h).symm⟩
    | 1, h => exact .inr ⟨rfl, (Option.some.inj h).symm⟩
  have hinput : ∀ p, some p ∉ (wiredBoolGate .dbg .default [] 0).input.slots := fun p hp =>
    absurd (mem_wiredBoolGate.mp hp) List.not_mem_nil
  refine ⟨⟨⟨?_, ?_, ?_, ?_, ?_, ?_⟩, ?_⟩, ⟨?_, rfl⟩, ?_, ⟨rfl, ?_⟩, ?_⟩
  · intro g gate h
    obtain ⟨rfl, rfl⟩ := hgate h
    exact ⟨rfl, rfl⟩
  · intro w wire h
    rcases hwire h with ⟨rfl, rfl⟩ | ⟨rfl, rfl⟩ <;> rfl
  · intro w wire h
    refine ⟨[], ?_, fun p hp => absurd hp List.not_mem_nil⟩
    rcases hwire h with ⟨rfl, rfl⟩ | ⟨rfl, rfl⟩ <;> exact ⟨1, rfl⟩
  · intro g gate p h hp
    obtain ⟨rfl, rfl⟩ := hgate h
    exact absurd hp (hinput p)
  · intro g gate w h hw
    obtain ⟨rfl, rfl⟩ := hgate h
    obtain rfl := Option.some.inj (List.mem_singleton.mp hw)
    exact ⟨_, rfl⟩
  · intro g g' gate gate' w h h' _ _
    rw [(hgate h).1, (hgate h').1]
  · intro g gate h
    obtain ⟨rfl, rfl⟩ := hgate h
    exact ⟨rfl, ⟨_, rfl⟩, rfl, rfl⟩
  · intro w wire h
    rcases hwire h with ⟨rfl, rfl⟩ | ⟨rfl, rfl⟩ <;> rfl
  · apply (Set.finite_singleton 0).subset
    intro g hg
    obtain ⟨gate, h⟩ := Option.isSome_iff_exists.mp hg
    exact (hgate h).1
  · intro g gate h hw
    obtain ⟨rfl, rfl⟩ := hgate h
    cases List.mem_singleton.mp hw
  · refine ⟨_, _, rfl, rfl, fun hconsistent => ?_⟩
    have := hconsistent .dbg 0 [] false rfl rfl rfl rfl
    cases this

end LogxControll
