/-
  Networks of functional wrapper gates with direct propagation: they compute with their functions
  (`function_network_computes`).

  A wrapped function creates its results, so that the values on the wires depend on the memory.
  What is in them does not, for pure functions, and `LxcValue.contents` is all that is seen of
  them here.
-/
import LogxControll.Execution.BoolNetwork
import LogxControll.Execution.FunctionalWrapper
import LogxControll.Execution.SorterGates
import LogxControll.Lib.Confinement

namespace LogxControll

open Propagation Refinement

/-! ## Wrapper gates as nodes -/

/-- What is in a value: all but its address. -/
def LxcValue.contents (v : LxcValue) : LxcValue := { v with id := 0 }

@[simp] theorem LxcValue.contents_contents (v : LxcValue) : v.contents.contents = v.contents := rfl

/-- What is in the results depends on what is in the arguments. -/
def PureFunction (function : List DataAddress → Nat → List (Option LxcValue) × Nat) : Prop :=
  ∀ ps qs n m, ps.map DataAddress.data = qs.map DataAddress.data →
    (function ps n).1.map (Option.map LxcValue.contents) =
      (function qs m).1.map (Option.map LxcValue.contents)

/-- The results of the function, as far as they are seen. -/
def wrapperResults (function : List DataAddress → Nat → List (Option LxcValue) × Nat)
    (args : List LxcValue) : List (Option LxcValue) :=
  (function (args.map lxcGetValue) 0).1.map (Option.map LxcValue.contents)

theorem PureFunction.results_eq
    {function : List DataAddress → Nat → List (Option LxcValue) × Nat} (h : PureFunction function)
    {args args' : List LxcValue} (hargs : args.map LxcValue.contents = args'.map LxcValue.contents)
    (n : Nat) : (function (args.map lxcGetValue) n).1.map (Option.map LxcValue.contents) =
      wrapperResults function args' := by
  apply h
  have hdata := congrArg (List.map LxcValue.data) hargs
  simpa only [List.map_map, lxcGetValue, Function.comp_def, LxcValue.contents] using hdata

/-- The arguments, when every input is wired and has a value. -/
def wrapperArguments (slots : List (Option TokenportId)) (values : List (Option LxcValue)) :
    Option (List LxcValue) :=
  if none ∈ slots ∨ none ∈ values then none else some (values.filterMap id)

/-- What is driven with a result, when the output is wired to a wire of its type. -/
def driveResult (W : World) (o : Option WireId) (result : Option LxcValue) :
    List (WireId × LxcValue) :=
  match o, result with
  | some w, some v =>
    if (W.wires w).any fun wire => wire.type = v.type ∧ wire.subtype = v.subtypeInfo then [(w, v)]
    else []
  | _, _ => []

/-- The outputs from `i` on. -/
def wrapperDrives (W : World) (slots : List (Option WireId)) (out : List (Option LxcValue))
    (i n : Nat) : List (WireId × LxcValue) :=
  (List.range' i n).flatMap fun j => driveResult W (slotAt slots j) (out.getD j none)

/-- What an instance drives. -/
def wrapperActions (W : World) : Actions := fun gate values =>
  match gate.execute, wrapperArguments gate.input.slots values with
  | .functional function, some args =>
    wrapperDrives W gate.output.slots (wrapperResults function args) 0 gate.output.slots.length
  | _, _ => []

/-- A network of instances of wrapped pure functions with inputs, whose outputs are never wired
    together. -/
structure World.FunctionNetwork (W : World) : Prop where
  network : W.DirectNetwork
  wrapper : ∀ g gate, W.gates g = some gate → ∃ builder : SimpleFuncGateBuilder,
    gate.IsWrapper builder ∧ builder.inputs ≠ [] ∧ PureFunction builder.function
  distinct : ∀ g gate, W.gates g = some gate → (gate.output.slots.filterMap id).Nodup

section Nodes

variable {W₀ W : World} {ok : LxcValue → Prop} {slots : List (Option TokenportId)}

theorem wrapperArguments_map {values : List LxcValue} (h : none ∉ slots) :
    wrapperArguments slots (values.map some) = some values := by
  have hnone : none ∉ values.map some := by simp
  rw [wrapperArguments, if_neg (not_or.mpr ⟨h, hnone⟩), List.filterMap_map]
  simp

theorem wrapperArguments_view {values : List (Option LxcValue)} (view : LxcValue → LxcValue) :
    wrapperArguments slots (values.map (Option.map view)) =
      (wrapperArguments slots values).map (List.map view) := by
  unfold wrapperArguments
  have hmem : none ∈ values.map (Option.map view) ↔ none ∈ values := by
    simp [List.mem_map, Option.map_eq_none_iff]
  simp only [hmem]
  split
  · rfl
  · rw [Option.map_some, List.filterMap_map, List.map_filterMap]
    rfl

theorem driveResult_sublist (W : World) (o : Option WireId) (result : Option LxcValue) :
    ((driveResult W o result).map Prod.fst).Sublist o.toList := by
  unfold driveResult
  split
  · split <;> simp
  · simp

theorem wrapperDrives_sublist (W : World) (slots : List (Option WireId))
    (out : List (Option LxcValue)) :
    ∀ n i, i + n = slots.length →
      ((wrapperDrives W slots out i n).map Prod.fst).Sublist ((slots.drop i).filterMap id) := by
  intro n
  induction n with
  | zero =>
    intro i _
    exact List.nil_sublist _
  | succ n ih =>
    intro i hi
    have hlt : i < slots.length := by omega
    rw [wrapperDrives, List.range'_succ, List.flatMap_cons, List.map_append,
      List.drop_eq_getElem_cons hlt, List.filterMap_cons]
    have hhead := driveResult_sublist W (slotAt slots i) (out.getD i none)
    have hslot : slotAt slots i = slots[i] := by
      rw [slotAt, List.getElem?_eq_getElem hlt]
      rfl
    rw [hslot] at hhead ⊢
    have hboth := hhead.append (ih (i + 1) (by omega))
    cases ho : slots[i] with
    | none => simpa [ho, wrapperDrives] using hboth
    | some w => simpa [ho, wrapperDrives] using hboth

theorem AtWork.directWires (hnet : W₀.DirectNetwork) (hW : AtWork W₀ ok W) : W.Direct := by
  intro w wire hw
  have hbare := hW.wires w
  rw [hw, Option.map_some, eq_comm, Option.map_eq_some_iff] at hbare
  obtain ⟨wire₀, hw₀, he⟩ := hbare
  have : wire.handler = wire₀.handler := by simpa [Wire.bare] using (congrArg Wire.handler he).symm
  rw [this, hnet.handler w wire₀ hw₀]

/-- An instance reads the arguments, when there are any. -/
theorem AtWork.readInputs_eq (hnet : W₀.DirectNetwork) (hW : AtWork W₀ ok W) :
    ∀ {slots : List (Option TokenportId)}, ListedIn W₀ slots →
      ∃ ports complete, readInputs W slots = some (ports, complete) ∧
        (∀ p ∈ ports.map Prod.fst, ∃ r, lxcGetTokenValue W p = some r) ∧
        wrapperArguments slots (slotValues W₀ W slots) =
          if complete then some (ports.map Prod.snd) else none
  | [], _ => ⟨[], true, rfl, by simp, rfl⟩
  | none :: slots, _ => ⟨[], false, rfl, by simp, by simp [wrapperArguments]⟩
  | some p :: slots, h => by
      obtain ⟨tp, wire, htp, hw⟩ := h p List.mem_cons_self
      have htoken := hW.token_eq hnet htp hw
      rw [slotValues_some htp]
      cases hv : W.state.value tp.owner with
      | none =>
        rw [hv] at htoken
        refine ⟨[], false, ?_, by simp, by simp [wrapperArguments]⟩
        simp only [readInputs, htoken, Option.bind_eq_bind, Option.bind_some]
        rfl
      | some v =>
        rw [hv] at htoken
        obtain ⟨ports, complete, hread, hports, hargs⟩ := hW.readInputs_eq hnet h.tail
        refine ⟨(p, v) :: ports, complete, ?_, ?_, ?_⟩
        · simp only [readInputs, htoken, hread, Option.bind_eq_bind, Option.bind_some]
          rfl
        · intro q hq
          rcases List.mem_cons.mp hq with rfl | hq
          · exact ⟨_, htoken⟩
          · exact hports q hq
        · have hcons : wrapperArguments (some p :: slots) (some v :: slotValues W₀ W slots) =
              (wrapperArguments slots (slotValues W₀ W slots)).map (v :: ·) := by
            simp only [wrapperArguments, List.mem_cons, reduceCtorEq, false_or]
            split <;> rfl
          rw [hcons, hargs]
          cases complete <;> rfl

/-! ## Executing an instance -/

variable {actions : Actions} {view : LxcValue → LxcValue} {call : ExecCall → World → Option World}
  {notify : GateId → State GateId WireId LxcValue → Option (State GateId WireId LxcValue)}

/-- The view keeps the type of a value. -/
def KeepsType (view : LxcValue → LxcValue) : Prop :=
  ∀ v, (view v).type = v.type ∧ (view v).subtypeInfo = v.subtypeInfo

theorem driveOutput_shows (hnet : W₀.DirectNetwork) (hcall : CallShows W₀ ok view call notify)
    (hview : KeepsType view) {g : GateId} {o : Option WireId}
    (ho : ∀ w, o = some w → ∃ wire, W₀.wires w = some wire) {v : LxcValue} (hv : ok v) :
    Refines (AtWork W₀ ok) (World.seen view)
      (fun W => (driveOutput call g o v W).map Prod.snd)
      ((W₀.net actions).driveAll notify (driveResult W₀ o (some (view v)))) := by
  cases o with
  | none => exact .pure
  | some w =>
    obtain ⟨wire₀, hw₀⟩ := ho w rfl
    have hfits : ∀ W, AtWork W₀ ok W → ∃ wire, W.wires w = some wire ∧ wire.type = wire₀.type ∧
        wire.subtype = wire₀.subtype := by
      intro W hW
      obtain ⟨wire, hw, he⟩ := hW.wire hw₀
      exact ⟨wire, hw, by simpa [Wire.bare] using congrArg Wire.type he,
        by simpa [Wire.bare] using congrArg Wire.subtype he⟩
    by_cases hm : wire₀.type = v.type ∧ wire₀.subtype = v.subtypeInfo
    · have hdrives : driveResult W₀ (some w) (some (view v)) = [(w, view v)] := by
        simp [driveResult, hw₀, hview v, hm]
      have hdrive : Refines (AtWork W₀ ok) (World.seen view)
          (lxcDriveWireValue call (some g) (some w) (some v))
          ((W₀.net actions).drive notify w (view v)) :=
        lxcDriveWireValue_shows hnet hcall hw₀ hv (some g)
      rw [hdrives]
      apply hdrive.congr
      · intro W hW
        obtain ⟨wire, hw, ht, hs⟩ := hfits W hW
        simp only [driveOutput, hw, ht, hs, hm, Option.bind_eq_bind, Option.bind_some, and_self,
          if_true, Option.map_bind]
        exact Option.bind_fun_some _
      · intro W hW
        exact Option.bind_fun_some _
    · have hdrives : driveResult W₀ (some w) (some (view v)) = [] := by
        simp only [driveResult, hw₀, Option.any_some, hview v, hm, decide_false, Bool.false_eq_true,
          if_false]
      rw [hdrives]
      apply Refines.pure.congr
      · intro W hW
        obtain ⟨wire, hw, ht, hs⟩ := hfits W hW
        simp only [driveOutput, hw, ht, hs, hm, Option.bind_eq_bind, Option.bind_some, if_false]
        rfl
      · intro W hW
        rfl

theorem driveAll_append {net : Net GateId WireId LxcValue} (acts acts' : List (WireId × LxcValue)) :
    net.driveAll notify (acts ++ acts') =
      fun s => (net.driveAll notify acts s).bind (net.driveAll notify acts') := by
  induction acts with
  | nil => rfl
  | cons a acts ih =>
    funext s
    rw [List.cons_append, Net.driveAll, ih, Net.driveAll, Option.bind_assoc]

/-- The loop that writes out drives the results that fit their wires. -/
theorem writeOut_shows (hnet : W₀.DirectNetwork) (hcall : CallShows W₀ ok view call notify)
    (hview : KeepsType view) (hok : ∀ v, ok v) {g : GateId} {gate : Gate}
    (hg : W₀.gates g = some gate) (out : List (Option LxcValue)) :
    ∀ n i, i + n ≤ gate.output.slots.length →
      Refines (AtWork W₀ ok) (World.seen view) (fun W => (writeOut call g out n i W).map Prod.snd)
        ((W₀.net actions).driveAll notify
          (wrapperDrives W₀ gate.output.slots (out.map (Option.map view)) i n)) := by
  intro n
  induction n with
  | zero =>
    intro i _
    exact .pure
  | succ n ih =>
    intro i hi
    have hlt : i < gate.output.slots.length := by omega
    have hrest := ih (i + 1) (by omega)
    have hslot : gate.output.slots[i]? = some (slotAt gate.output.slots i) := slotAt_eq hlt
    have hlive : ∀ w, slotAt gate.output.slots i = some w → ∃ wire, W₀.wires w = some wire :=
      fun w hw => hnet.outputs g gate w hg (mem_of_slotAt hw)
    have hget : (out.map (Option.map view)).getD i none = (out.getD i none).map view := by
      rw [List.getD_eq_getElem?_getD, List.getD_eq_getElem?_getD, List.getElem?_map]
      cases out[i]? <;> rfl
    rw [wrapperDrives, List.range'_succ, List.flatMap_cons, hget]
    cases hout : out.getD i none with
    | none =>
      have hnone : driveResult W₀ (slotAt gate.output.slots i) (Option.map view none) = [] := by
        cases slotAt gate.output.slots i <;> rfl
      rw [hnone, List.nil_append]
      apply hrest.congr
      · intro W hW
        simp only [writeOut, hW.gates, hg, hslot, hout, Option.bind_eq_bind, Option.bind_some]
      · intro W hW
        rfl
    | some v =>
      rw [Option.map_some, driveAll_append]
      apply ((driveOutput_shows hnet hcall hview hlive (hok v)).bind hrest).congr
      · intro W hW
        simp only [writeOut, hW.gates, hg, hslot, hout, Option.bind_eq_bind, Option.bind_some]
        cases driveOutput call g (slotAt gate.output.slots i) v W with
        | none => rfl
        | some r =>
          simp only [Option.bind_some, Option.map_some]
          cases writeOut call g out n (i + 1) r.2 <;> rfl
      · intro W hW
        rfl

theorem keepsType_contents : KeepsType LxcValue.contents := fun _ => ⟨rfl, rfl⟩

/-- Executing an instance shows what its node does. -/
theorem World.FunctionNetwork.executesShown (h : W₀.FunctionNetwork) :
    ExecutesShown W₀ (fun _ => True) LxcValue.contents (wrapperActions W₀) := by
  intro call notify hcall g gate hg W hW
  obtain ⟨builder, hi, -, hpure⟩ := h.wrapper g gate hg
  have hgate : W.gates g = some gate := by rw [hW.gates, hg]
  have hlen (dir : Direction) : (gate.side dir).manager.maxSize.toNat =
      (gate.side dir).slots.length := by
    rw [hi.maxSize dir, hi.slots dir, Int.toNat_natCast]
  have hins : gate.input.manager.maxSize.toNat = gate.input.slots.length := hlen .input
  have houts : gate.output.manager.maxSize.toNat = gate.output.slots.length := hlen .output
  obtain ⟨ports, complete, hread, hports, hargs⟩ :=
    hW.readInputs_eq h.network (h.network.listedIn hg)
  have hseen : (W₀.net (wrapperActions W₀)).read (W.seen LxcValue.contents) g =
      (slotValues W₀ W gate.input.slots).map (Option.map LxcValue.contents) := by
    rw [Net.read, (net_gate hg).1, slotValues, List.map_map]
    rfl
  show (gate.execute.run call g W).map (World.seen LxcValue.contents) = _ ∧ _
  unfold Net.fire
  rw [hseen, (net_gate hg).2.2]
  simp only [hi.execute, Execute.run, functionalGateExecute, wrapperActions,
    wrapperArguments_view, hargs, hgate, hins, houts, hread, List.take_length, lt_irrefl, if_false,
    Option.bind_eq_bind, Option.bind_some]
  cases complete with
  | false =>
    refine ⟨rfl, fun W' hW' => ?_⟩
    obtain rfl := Option.some.inj hW'
    exact hW
  | true =>
    have habsorb := (hW.directWires h.network).absorbTokens_returns hports
    have hparam : ports.map (fun pv => lxcGetValue pv.2) =
        (ports.map Prod.snd).map lxcGetValue := by
      rw [List.map_map]
      rfl
    have hcontents : (ports.map Prod.snd).map LxcValue.contents =
        ((ports.map Prod.snd).map LxcValue.contents).map LxcValue.contents := by
      simp [Function.comp_def]
    have hresults := hpure.results_eq hcontents W.nextValue
    -- the function allocates, which is not seen
    have hmemory : AtWork W₀ (fun _ => True) { W with
        nextValue := (builder.function ((ports.map Prod.snd).map lxcGetValue) W.nextValue).2 } :=
      ⟨hW.gates, hW.tokenports, hW.wires, hW.values, hW.tasks⟩
    have hwrite : Refines (AtWork W₀ fun _ => True) (World.seen LxcValue.contents)
        (fun W' => (writeOut call g
          (builder.function ((ports.map Prod.snd).map lxcGetValue) W.nextValue).1
          gate.output.slots.length 0 W').map Prod.snd)
        ((W₀.net (wrapperActions W₀)).driveAll notify _) :=
      writeOut_shows h.network hcall keepsType_contents (fun _ => trivial) hg _ _ 0 (by omega)
    rw [hresults] at hwrite
    simp only [if_true, Option.map_some, hparam, habsorb, Option.bind_some]
    have hsnd : ∀ (before : List FunctionalAction) (r : Option (List FunctionalAction × World)),
        (r.bind fun x =>
          (pure (before ++ .call ((ports.map Prod.snd).map lxcGetValue) :: x.1, x.2) :
            Option (List FunctionalAction × World))).map Prod.snd = r.map Prod.snd :=
      fun _ r => by cases r <;> rfl
    rw [hsnd]
    exact hwrite _ hmemory

theorem wrapperActions_sublist (W : World) (gate : Gate) (values : List (Option LxcValue)) :
    ((wrapperActions W gate values).map Prod.fst).Sublist (gate.output.slots.filterMap id) := by
  unfold wrapperActions
  split
  · exact wrapperDrives_sublist W _ _ _ 0 (Nat.zero_add _)
  · exact List.nil_sublist _

theorem World.FunctionNetwork.wellFormed (h : W.FunctionNetwork) :
    (W.net (wrapperActions W)).WellFormed :=
  h.network.wellFormed fun _ gate l _ => wrapperActions_sublist W gate l

theorem World.FunctionNetwork.nodup (h : W.FunctionNetwork) (g : GateId)
    (l : List (Option LxcValue)) :
    (((W.net (wrapperActions W)).actions g l).map Prod.fst).Nodup := by
  cases hg : W.gates g with
  | none => simp [World.net, hg]
  | some gate =>
    rw [(net_gate hg).2.2]
    exact (wrapperActions_sublist W gate l).nodup (h.distinct g gate hg)

end Nodes

/-! ## Runs -/

/-- A call of `lxc_drive_wire_value` from outside. -/
structure WireDrive where
  fuel : Nat
  wire : WireId
  value : LxcValue

/-- The memory after the call, if it returns within the fuel. -/
def WireDrive.step (W : World) (op : WireDrive) : Option World :=
  lxcDriveWireValue (callBehavior op.fuel) none (some op.wire) (some op.value) W

/-- The last value that the calls drove on a wire. -/
def lastValue (w : WireId) : List WireDrive → Option LxcValue
  | [] => none
  | op :: ops => (lastValue w ops).or (if w = op.wire then some op.value else none)

/-- The state between two calls from outside. -/
structure FunctionRest (W₀ W : World) : Prop where
  work : AtWork W₀ (fun _ => True) W
  idle : W.loopBreaker = none
  settled : ∀ g, (W₀.net (wrapperActions W₀)).Settled (W.seen LxcValue.contents) g

section Runs

variable {W₀ W W' : World}

theorem World.Fresh.functionRest (h : W₀.Fresh) : FunctionRest W₀ W₀ := by
  refine ⟨⟨rfl, rfl, fun _ => rfl, fun _ _ _ => trivial, ?_⟩, h.loopBreaker, ?_⟩
  · intro q t hq
    rw [h.loopBreaker] at hq
    cases hq
  · intro g hlive
    obtain ⟨w, -, hv⟩ := hlive
    have hnone : (W₀.seen LxcValue.contents).value w = (W₀.valueOn w).map LxcValue.contents := rfl
    rw [hnone, h.valueOn] at hv
    cases hv

theorem WireDrive.step_shows (h : W₀.FunctionNetwork) {op : WireDrive}
    (hop : W₀.PrimaryWire op.wire) :
    Refines (AtWork W₀ fun _ => True) (World.seen LxcValue.contents) (fun W => op.step W)
      ((W₀.net (wrapperActions W₀)).drive ((W₀.net (wrapperActions W₀)).notify op.fuel) op.wire
        op.value.contents) := by
  obtain ⟨wire, hwire⟩ := Option.isSome_iff_exists.mp hop.1
  exact lxcDriveWireValue_shows h.network (callBehavior_shows h.network h.executesShown op.fuel)
    hwire trivial none

/-- A call from outside that returns leaves everything at rest, and of the wires that no gate
    drives it changed the one that it drove. -/
theorem FunctionRest.step (h : W₀.FunctionNetwork)
    (hacyclic : ∀ g, ¬ Relation.TransGen W₀.Feeds g g) (hW : FunctionRest W₀ W) {op : WireDrive}
    (hop : W₀.PrimaryWire op.wire) (hstep : op.step W = some W') :
    FunctionRest W₀ W' ∧ ∀ w, W₀.PrimaryWire w → (W'.valueOn w).map LxcValue.contents =
      if w = op.wire then some op.value.contents else (W.valueOn w).map LxcValue.contents := by
  obtain ⟨hdrive, hwork⟩ := (op.step_shows h hop).result hW.work hstep
  have hidle : (W.seen LxcValue.contents).queue = none := by
    simp [World.seen, World.state, hW.idle]
  have hno : ∀ g, ¬ (W₀.net (wrapperActions W₀)).After g g :=
    fun g hg => hacyclic g (h.network.transGen_feeds hg)
  have hsettles := drive_primary_settles h.wellFormed
    (notify_settles_of_acyclic h.wellFormed hno h.nodup op.fuel) hop.primary hdrive
  have hconfined : (W₀.net (wrapperActions W₀)).Confined (fun _ => True)
      ((W.seen LxcValue.contents).set op.wire op.value.contents) (W'.seen LxcValue.contents) :=
    drive_confined (notify_confined h.wellFormed (fun _ _ _ _ => trivial) op.fuel)
      (fun _ _ => trivial) hdrive
  have hqueue := hsettles.idle hidle
  refine ⟨⟨hwork, Option.map_eq_none_iff.mp hqueue, fun g => ?_⟩, fun w hw => ?_⟩
  · by_contra hg
    rcases hsettles.unsettled g hg with ⟨-, hg'⟩ | hp
    · exact hg' (hW.settled g)
    · rw [State.pending, hqueue] at hp
      cases hp
  · have hkept : (W'.valueOn w).map LxcValue.contents =
        ((W.seen LxcValue.contents).set op.wire op.value.contents).value w :=
      hconfined.kept w fun g _ => hw.primary g
    rw [hkept]
    split
    · next he => rw [he, State.set_value_self]
    · next he => exact State.set_value_ne _ he _

theorem FunctionRest.run (h : W₀.FunctionNetwork)
    (hacyclic : ∀ g, ¬ Relation.TransGen W₀.Feeds g g) :
    ∀ (ops : List WireDrive) (W W' : World), (∀ op ∈ ops, W₀.PrimaryWire op.wire) →
      FunctionRest W₀ W → Run.run WireDrive.step W ops = some W' →
      FunctionRest W₀ W' ∧ ∀ w, W₀.PrimaryWire w → (W'.valueOn w).map LxcValue.contents =
        ((lastValue w ops).or (W.valueOn w)).map LxcValue.contents
  | [], W, W', _, hW, hrun => by
      obtain rfl := Option.some.inj hrun
      exact ⟨hW, fun _ _ => rfl⟩
  | op :: ops, W, W', hops, hW, hrun => by
      obtain ⟨W₁, hstep, hrun⟩ := Option.bind_eq_some_iff.mp hrun
      obtain ⟨hW₁, hvalues⟩ := hW.step h hacyclic (hops op List.mem_cons_self) hstep
      obtain ⟨hW', hlast⟩ :=
        FunctionRest.run h hacyclic ops W₁ W' (fun op' h' => hops op' (List.mem_cons_of_mem _ h'))
          hW₁ hrun
      refine ⟨hW', fun w hw => ?_⟩
      rw [hlast w hw, lastValue]
      cases lastValue w ops with
      | some v => rfl
      | none =>
        rw [Option.none_or, Option.none_or, hvalues w hw]
        split <;> rfl

/-- With enough fuel every call from outside returns. -/
theorem FunctionRest.returns (h : W₀.FunctionNetwork) (hfinite : {g | (W₀.gates g).isSome}.Finite)
    (hacyclic : ∀ g, ¬ Relation.TransGen W₀.Feeds g g) (hW : FunctionRest W₀ W) {w : WireId}
    (hw : W₀.PrimaryWire w) (v : LxcValue) :
    ∃ K, ∀ k, K ≤ k → ∃ W', (WireDrive.mk k w v).step W = some W' := by
  obtain ⟨cost, hcost⟩ := exists_budget (W₀.net (wrapperActions W₀))
    (h.network.wellFounded hfinite hacyclic).2
  refine ⟨(((W₀.net (wrapperActions W₀)).readers w).map cost).sum + 1, fun k hk => ?_⟩
  have hall : ∀ g ∈ (W₀.net (wrapperActions W₀)).readers w, ∀ s, ∃ s',
      (W₀.net (wrapperActions W₀)).notify k g s = some s' ∧ Spends cost (cost g) s s' := by
    intro g hg
    have hle : cost g ≤ (((W₀.net (wrapperActions W₀)).readers w).map cost).sum :=
      List.le_sum_of_mem (List.mem_map_of_mem hg)
    exact notify_returns h.wellFormed hcost k g (by omega)
  obtain ⟨s', hdrive, -⟩ := drive_returns v.contents (W.seen LxcValue.contents) hall
  have hstep : Refines (AtWork W₀ fun _ => True) (World.seen LxcValue.contents)
      (WireDrive.step · ⟨k, w, v⟩)
      ((W₀.net (wrapperActions W₀)).drive ((W₀.net (wrapperActions W₀)).notify k) w v.contents) :=
    WireDrive.step_shows h hw
  obtain ⟨W', hrun, -⟩ := hstep.returns hW.work hdrive
  exact ⟨W', hrun⟩

/-! ## The values at rest -/

/-- `val` gives every wire that a gate drives what the function of the gate makes of what `val`
    gives its inputs; all of them are wired. -/
def World.Solves (W : World) (val : WireId → LxcValue) : Prop :=
  ∀ g gate function (j : Nat) (w : WireId), W.gates g = some gate →
    gate.execute = .functional function → gate.output.slots[j]? = some (some w) → none ∉ gate.input.slots ∧
    ∃ wire, W.wires w = some wire ∧ wire.type = (val w).type ∧ wire.subtype = (val w).subtypeInfo ∧
      (wrapperResults function ((W.wiresOf .input gate.input.slots).map val))[j]? =
        some (some (val w).contents)

theorem mem_wrapperDrives {slots : List (Option WireId)} {out : List (Option LxcValue)} {j : Nat}
    {w : WireId} {v : LxcValue} {wire : Wire} (hslot : slots[j]? = some (some w))
    (hwire : W.wires w = some wire) (htype : wire.type = v.type)
    (hsub : wire.subtype = v.subtypeInfo)
    (hout : out[j]? = some (some v)) : (w, v) ∈ wrapperDrives W slots out 0 slots.length := by
  have hlt : j < slots.length := (List.getElem?_eq_some_iff.mp hslot).1
  refine List.mem_flatMap.mpr ⟨j, List.mem_range'_1.mpr ⟨Nat.zero_le j, by omega⟩, ?_⟩
  have hat : slotAt slots j = some w := by rw [slotAt, hslot]; rfl
  have hget : out.getD j none = some v := by rw [List.getD_eq_getElem?_getD, hout]; rfl
  rw [hat, hget]
  simp [driveResult, hwire, htype, hsub]

/-- A gate whose inputs are wired to wires with values is live. -/
theorem World.FunctionNetwork.live (h : W₀.FunctionNetwork) {g : GateId} {gate : Gate}
    (hg : W₀.gates g = some gate) (hwired : none ∉ gate.input.slots) {args : List LxcValue}
    (hargs : (W₀.wiresOf .input gate.input.slots).map
      (fun w => (W.valueOn w).map LxcValue.contents) = args.map some) :
    (W₀.net (wrapperActions W₀)).Live (W.seen LxcValue.contents) g := by
  obtain ⟨builder, hi, hne, -⟩ := h.wrapper g gate hg
  have hlen : gate.input.slots.length = builder.inputs.length := hi.slots .input
  obtain ⟨slot, hslot⟩ : ∃ slot, slot ∈ gate.input.slots := by
    refine List.exists_mem_of_ne_nil _ fun he => hne ?_
    rw [he] at hlen
    exact List.length_eq_zero_iff.mp hlen.symm
  cases slot with
  | none => exact absurd hslot hwired
  | some p =>
    obtain ⟨tp, wire, htp, -⟩ := h.network.listedIn hg p hslot
    have hin : tp.owner ∈ W₀.wiresOf .input gate.input.slots :=
      List.mem_filterMap.mpr ⟨some p, hslot, by simp [slotOwner, htp]⟩
    refine ⟨tp.owner, by rw [(net_gate hg).1]; exact hin, ?_⟩
    have hmem := List.mem_map_of_mem (f := fun w => (W.valueOn w).map LxcValue.contents) hin
    rw [hargs] at hmem
    obtain ⟨v, -, hv⟩ := List.mem_map.mp hmem
    exact Option.isSome_iff_exists.mpr ⟨v, hv.symm⟩

/-- What the function makes of the values on the inputs of a gate is on its outputs. -/
theorem FunctionRest.result (h : W₀.FunctionNetwork) (hW : FunctionRest W₀ W) {g : GateId}
    {gate : Gate} {function : List DataAddress → Nat → List (Option LxcValue) × Nat}
    (hg : W₀.gates g = some gate) (hf : gate.execute = .functional function)
    {args : List LxcValue} (hwired : none ∉ gate.input.slots)
    (hargs : (W₀.wiresOf .input gate.input.slots).map
      (fun w => (W.valueOn w).map LxcValue.contents) = args.map some) {j : Nat} {w : WireId}
    {v : LxcValue} {wire : Wire} (hslot : gate.output.slots[j]? = some (some w))
    (hwire : W₀.wires w = some wire) (htype : wire.type = v.type)
    (hsub : wire.subtype = v.subtypeInfo)
    (hresult : (wrapperResults function args)[j]? = some (some v)) :
    (W.valueOn w).map LxcValue.contents = some v := by
  have hread : (W₀.net (wrapperActions W₀)).read (W.seen LxcValue.contents) g = args.map some := by
    rw [Net.read, (net_gate hg).1, ← hargs]
    rfl
  have hacts : (w, v) ∈ (W₀.net (wrapperActions W₀)).actions g
      ((W₀.net (wrapperActions W₀)).read (W.seen LxcValue.contents) g) := by
    rw [hread, (net_gate hg).2.2, wrapperActions, hf, wrapperArguments_map hwired]
    exact mem_wrapperDrives hslot hwire htype hsub hresult
  exact hW.settled g (h.live hg hwired hargs) (w, v) hacts

/-- In a network without cycles the values at rest are a solution, if there is one. -/
theorem FunctionRest.solution (h : W₀.FunctionNetwork)
    (hforward : WellFounded (W₀.net (wrapperActions W₀)).Feeds) (hW : FunctionRest W₀ W)
    {val : WireId → LxcValue} (hval : W₀.Solves val)
    (hprimary : ∀ w, W₀.PrimaryWire w →
      (W.valueOn w).map LxcValue.contents = some (val w).contents) :
    ∀ w, (W₀.wires w).isSome → (W.valueOn w).map LxcValue.contents = some (val w).contents := by
  have hgate : ∀ g gate w, W₀.gates g = some gate → some w ∈ gate.output.slots →
      (W.valueOn w).map LxcValue.contents = some (val w).contents := by
    intro g
    induction g using hforward.induction with
    | _ g ih =>
    intro gate w hg hmem
    obtain ⟨builder, hi, -, hpure⟩ := h.wrapper g gate hg
    obtain ⟨j, hslot⟩ := List.mem_iff_getElem?.mp hmem
    obtain ⟨hwired, wire, hwire, htype, hsub, hresult⟩ := hval g gate _ j w hg hi.execute hslot
    -- the inputs are primary, or driven by gates that feed this one
    have hinputs : (W₀.wiresOf .input gate.input.slots).map
        (fun w => (W.valueOn w).map LxcValue.contents) =
          ((W₀.wiresOf .input gate.input.slots).map fun w => (val w).contents).map some := by
      rw [List.map_map]
      refine List.map_congr_left fun w' hw' => ?_
      have hin : w' ∈ (W₀.net (wrapperActions W₀)).inputs g := by rwa [(net_gate hg).1]
      by_cases hdriven : ∃ g' gate', W₀.gates g' = some gate' ∧ some w' ∈ gate'.output.slots
      · obtain ⟨g', gate', hg', hout⟩ := hdriven
        exact ih g' ⟨w', mem_outputs_iff.mpr ⟨gate', hg', hout⟩, h.network.mem_readers_iff.mpr hin⟩
          gate' w' hg' hout
      · obtain ⟨gate₁, p, tp, hg₁, hp, htp, rfl⟩ := mem_inputs_iff.mp hin
        obtain ⟨tp', wire', htp', hw₁⟩ := h.network.listedIn hg₁ p hp
        obtain rfl := Option.some.inj (htp.symm.trans htp')
        exact hprimary tp.owner
          ⟨by rw [hw₁]; rfl, fun g' gate' hg' hout => hdriven ⟨g', gate', hg', hout⟩⟩
    have hsame : wrapperResults builder.function
        ((W₀.wiresOf .input gate.input.slots).map fun w => (val w).contents) =
          wrapperResults builder.function ((W₀.wiresOf .input gate.input.slots).map val) := by
      refine hpure.results_eq ?_ 0
      simp [Function.comp_def]
    exact hW.result h hg hi.execute hwired hinputs hslot hwire htype hsub (hsame ▸ hresult)
  intro w hw
  by_cases hdriven : ∃ g gate, W₀.gates g = some gate ∧ some w ∈ gate.output.slots
  · obtain ⟨g, gate, hg, hout⟩ := hdriven
    exact hgate g gate w hg hout
  · exact hprimary w ⟨hw, fun g gate hg hout => hdriven ⟨g, gate, hg, hout⟩⟩

end Runs

/-- Calls from outside return in a network without cycles of wrapped pure functions, and leave on
    the outputs of every gate what its function makes of the values on its inputs; so whatever
    solves the network, with the values that the primary wires got last, is on all its wires. -/
theorem function_network_computes {W : World} (h : W.FunctionNetwork) (hfresh : W.Fresh)
    (hfinite : {g | (W.gates g).isSome}.Finite) (hacyclic : ∀ g, ¬ Relation.TransGen W.Feeds g g)
    {ops : List WireDrive} (hops : ∀ op ∈ ops, W.PrimaryWire op.wire) {W' : World}
    (hrun : Run.run WireDrive.step W ops = some W') :
    W'.loopBreaker = none ∧
    (∀ w v, W.PrimaryWire w → ∃ K, ∀ k, K ≤ k → ∃ W'', (WireDrive.mk k w v).step W' = some W'') ∧
    (∀ g gate function (args : List LxcValue) (j : Nat) (w : WireId) v wire,
      W.gates g = some gate → gate.execute = .functional function → none ∉ gate.input.slots →
      (W.wiresOf .input gate.input.slots).map (fun w => (W'.valueOn w).map LxcValue.contents) =
        args.map some →
      gate.output.slots[j]? = some (some w) → W.wires w = some wire →
      wire.type = v.type → wire.subtype = v.subtypeInfo →
      (wrapperResults function args)[j]? = some (some v) →
      (W'.valueOn w).map LxcValue.contents = some v) ∧
    ∀ val, W.Solves val → (∀ w, W.PrimaryWire w →
        (lastValue w ops).map LxcValue.contents = some (val w).contents) →
      ∀ w, (W.wires w).isSome → (W'.valueOn w).map LxcValue.contents = some (val w).contents := by
  obtain ⟨hW', hlast⟩ := FunctionRest.run h hacyclic ops W W' hops hfresh.functionRest hrun
  refine ⟨hW'.idle, fun w v hw => hW'.returns h hfinite hacyclic hw v, ?_,
    fun val hval hvalues => ?_⟩
  · intro g gate function args j w v wire hg hf hwired hargs hslot hwire htype hsub hresult
    exact hW'.result h hg hf hwired hargs hslot hwire htype hsub hresult
  · refine hW'.solution h (h.network.wellFounded hfinite hacyclic).1 hval fun w hw => ?_
    rw [hlast w hw, hfresh.valueOn, Option.or_none]
    exact hvalues w hw

/-! ## Two gates that add -/

/-- `func_add_num` of `experiment/usecases/function_wrapper_gate.c`, for sums of that type and
    without its test. -/
def funcAddNum (param : List DataAddress) (next : Nat) : List (Option LxcValue) × Nat :=
  ([some ⟨next, .int, 0, .int (param.filterMap fun a => a.data.asInt).sum⟩], next + 1)

/-- The gate that adds two numbers. -/
def addNumBuilder : SimpleFuncGateBuilder where
  function := funcAddNum
  inputs := [⟨"a", .int, 0⟩, ⟨"b", .int, 0⟩]
  outputs := [⟨"out", .int, 0⟩]

theorem pureFunction_funcAddNum : PureFunction funcAddNum := by
  intro ps qs n m h
  have hnums : ps.filterMap (fun a => a.data.asInt) = qs.filterMap fun a => a.data.asInt := by
    have hmap := congrArg (List.filterMap Data.asInt) h
    rwa [List.filterMap_map, List.filterMap_map] at hmap
  simp [funcAddNum, LxcValue.contents, hnums]

/-- An enabled instance with its inputs and its output wired. -/
def wiredInstance (b : PortbBehavior) (behavior : ExecutionBehavior) (inputs : List TokenportId)
    (output : WireId) : Gate :=
  { lxcGenericPortbGateCreate b with
    enabled := true
    executionBehavior := some behavior
    input := { (lxcGenericPortbGateCreate b).input with slots := inputs.map some }
    output := { (lxcGenericPortbGateCreate b).output with slots := [some output] } }

/-- A wire for ints without a value. -/
def intWire (drivers drivens : List TokenportId) : Wire :=
  { boolWire .directPropagateValue drivers drivens with type := .int }

/-- The second gate adds the number on wire 3 to the sum of those on the wires 0 and 1. -/
def addTwice (b : PortbBehavior) : World :=
  .ofLists [wiredInstance b .default [0, 1] 2, wiredInstance b .loopbreaker [2, 3] 4]
    [intWire [] [0], intWire [] [1], intWire [4] [2], intWire [] [3], intWire [5] []]
    [.zeroed 0 0 0, .zeroed 1 0 1, .zeroed 2 1 0, .zeroed 3 1 1, .zeroed 2 0 0, .zeroed 4 1 0]

section AddTwice

variable {b : PortbBehavior}

theorem addTwice_gate {g : GateId} {gate : Gate} (h : (addTwice b).gates g = some gate) :
    (g = 0 ∧ gate = wiredInstance b .default [0, 1] 2) ∨
      (g = 1 ∧ gate = wiredInstance b .loopbreaker [2, 3] 4) := by
  match g, h with
  | 0, h => exact .inl ⟨rfl, (Option.some.inj h).symm⟩
  | 1, h => exact .inr ⟨rfl, (Option.some.inj h).symm⟩

theorem addTwice_wire {w : WireId} {wire : Wire} (h : (addTwice b).wires w = some wire) :
    (w < 5 ∧ wire.handler = .directPropagateValue ∧ wire.currentValue = none) ∧
      ∃ l, IsNt wire.drivens l ∧ ∀ p ∈ l, ∃ tp, (addTwice b).tokenports p = some tp ∧
        tp.owner = w ∧ ((tp.gate = 0 ∧ p ∈ [0, 1]) ∨ (tp.gate = 1 ∧ p ∈ [2, 3])) := by
  match w, h with
  | 0, h =>
    obtain rfl := Option.some.inj h
    exact ⟨⟨by decide, rfl, rfl⟩, [0], ⟨1, rfl⟩,
      by simp [addTwice, World.ofLists, Tokenport.zeroed]⟩
  | 1, h =>
    obtain rfl := Option.some.inj h
    exact ⟨⟨by decide, rfl, rfl⟩, [1], ⟨1, rfl⟩,
      by simp [addTwice, World.ofLists, Tokenport.zeroed]⟩
  | 2, h =>
    obtain rfl := Option.some.inj h
    exact ⟨⟨by decide, rfl, rfl⟩, [2], ⟨1, rfl⟩,
      by simp [addTwice, World.ofLists, Tokenport.zeroed]⟩
  | 3, h =>
    obtain rfl := Option.some.inj h
    exact ⟨⟨by decide, rfl, rfl⟩, [3], ⟨1, rfl⟩,
      by simp [addTwice, World.ofLists, Tokenport.zeroed]⟩
  | 4, h =>
    obtain rfl := Option.some.inj h
    exact ⟨⟨by decide, rfl, rfl⟩, [], ⟨1, rfl⟩, by simp⟩

theorem wiredInstance_isWrapper (hi : (lxcGenericPortbGateCreate b).IsWrapper addNumBuilder)
    (behavior : ExecutionBehavior) (p q : TokenportId) (w : WireId) :
    (wiredInstance b behavior [p, q] w).IsWrapper addNumBuilder := by
  refine hi.of_shape ?_
  have hin : (lxcGenericPortbGateCreate b).input.slots.length = 2 := hi.slots .input
  have hout : (lxcGenericPortbGateCreate b).output.slots.length = 1 := hi.slots .output
  rw [Gate.shape, Gate.shape, hin, hout]
  rfl

theorem addTwice_functionNetwork (hi : (lxcGenericPortbGateCreate b).IsWrapper addNumBuilder) :
    (addTwice b).FunctionNetwork where
  network := by
    refine ⟨?_, ?_, ?_, ?_, ?_, ?_⟩
    · intro g gate h
      rcases addTwice_gate h with ⟨rfl, rfl⟩ | ⟨rfl, rfl⟩ <;> exact ⟨rfl, rfl⟩
    · intro w wire h
      exact (addTwice_wire h).1.2.1
    · intro w wire h
      obtain ⟨-, l, hl, hall⟩ := addTwice_wire h
      refine ⟨l, hl, fun p hp => ?_⟩
      obtain ⟨tp, htp, howner, hgate⟩ := hall p hp
      rcases hgate with ⟨hgate, hmem⟩ | ⟨hgate, hmem⟩
      · exact ⟨tp, _, htp, howner, by rw [hgate]; rfl, List.mem_map_of_mem hmem⟩
      · exact ⟨tp, _, htp, howner, by rw [hgate]; rfl, List.mem_map_of_mem hmem⟩
    · intro g gate p h hp
      rcases addTwice_gate h with ⟨rfl, rfl⟩ | ⟨rfl, rfl⟩
      · rcases List.mem_pair.mp hp with hp | hp <;> obtain rfl := Option.some.inj hp
        · exact ⟨_, _, rfl, rfl, rfl, List.mem_singleton_self 0⟩
        · exact ⟨_, _, rfl, rfl, rfl, List.mem_singleton_self 1⟩
      · rcases List.mem_pair.mp hp with hp | hp <;> obtain rfl := Option.some.inj hp
        · exact ⟨_, _, rfl, rfl, rfl, List.mem_singleton_self 2⟩
        · exact ⟨_, _, rfl, rfl, rfl, List.mem_singleton_self 3⟩
    · intro g gate w h hw
      rcases addTwice_gate h with ⟨rfl, rfl⟩ | ⟨rfl, rfl⟩ <;>
        obtain rfl := Option.some.inj (List.mem_singleton.mp hw) <;> exact ⟨_, rfl⟩
    · intro g g' gate gate' w h h' hw hw'
      rcases addTwice_gate h with ⟨rfl, rfl⟩ | ⟨rfl, rfl⟩ <;>
        rcases addTwice_gate h' with ⟨rfl, rfl⟩ | ⟨rfl, rfl⟩ <;>
        obtain rfl := Option.some.inj (List.mem_singleton.mp hw)
      · rfl
      · cases List.mem_singleton.mp hw'
      · cases List.mem_singleton.mp hw'
      · rfl
  wrapper := by
    intro g gate h
    rcases addTwice_gate h with ⟨rfl, rfl⟩ | ⟨rfl, rfl⟩ <;>
      exact ⟨addNumBuilder, wiredInstance_isWrapper hi _ _ _ _, by decide, pureFunction_funcAddNum⟩
  distinct := by
    intro g gate h
    rcases addTwice_gate h with ⟨rfl, rfl⟩ | ⟨rfl, rfl⟩ <;> exact List.nodup_singleton _

theorem addTwice_feeds {g g' : GateId} (h : (addTwice b).Feeds g g') : g < g' := by
  obtain ⟨gate, gate', w, p, tp, hg, hg', hslot, hp, htp, rfl⟩ := h
  rcases addTwice_gate hg with ⟨rfl, rfl⟩ | ⟨rfl, rfl⟩ <;>
    rcases addTwice_gate hg' with ⟨rfl, rfl⟩ | ⟨rfl, rfl⟩ <;>
    rcases List.mem_pair.mp hp with hp | hp <;> obtain rfl := Option.some.inj hp <;>
    obtain rfl := Option.some.inj htp
  all_goals first | exact Nat.zero_lt_one | cases List.mem_singleton.mp hslot

theorem addTwice_acyclic (g : GateId) : ¬ Relation.TransGen (addTwice b).Feeds g g := by
  intro h
  have hless : ∀ g', Relation.TransGen (addTwice b).Feeds g g' → g < g' := by
    intro g' h
    induction h with
    | single hf => exact addTwice_feeds hf
    | tail _ hf ih => exact ih.trans (addTwice_feeds hf)
  exact lt_irrefl g (hless g h)

/-- The numbers that solve `addTwice` for 2, 40 and 7. -/
def addTwiceSolution (w : WireId) : LxcValue :=
  ⟨w, .int, 0, .int ([2, 40, 42, 7, 49].getD w 0)⟩

theorem addTwice_solves (hi : (lxcGenericPortbGateCreate b).IsWrapper addNumBuilder) :
    (addTwice b).Solves addTwiceSolution := by
  intro g gate function j w hg hf hslot
  have hexec : gate.execute = .functional funcAddNum := by
    rcases addTwice_gate hg with ⟨rfl, rfl⟩ | ⟨rfl, rfl⟩ <;>
      exact (wiredInstance_isWrapper hi _ _ _ _).execute
  obtain rfl : funcAddNum = function := by
    rw [hexec] at hf
    exact Execute.functional.inj hf
  rcases addTwice_gate hg with ⟨rfl, rfl⟩ | ⟨rfl, rfl⟩
  · match j, hslot with
    | 0, hslot =>
      obtain rfl := Option.some.inj (Option.some.inj hslot)
      exact ⟨(by decide : none ∉ [some 0, some 1]), _, rfl, rfl, rfl, rfl⟩
  · match j, hslot with
    | 0, hslot =>
      obtain rfl := Option.some.inj (Option.some.inj hslot)
      exact ⟨(by decide : none ∉ [some 2, some 3]), _, rfl, rfl, rfl, rfl⟩

theorem addTwice_primaryWire {w : WireId} (hw : w ≠ 2 ∧ w < 4) : (addTwice b).PrimaryWire w := by
  refine ⟨?_, fun g gate h hslot => ?_⟩
  · obtain ⟨-, hlt⟩ := hw
    interval_cases w <;> rfl
  · rcases addTwice_gate h with ⟨rfl, rfl⟩ | ⟨rfl, rfl⟩ <;>
      obtain rfl := Option.some.inj (List.mem_singleton.mp hslot) <;>
      exact absurd hw (by decide)

end AddTwice

/-- 2 and 40 and 7. -/
theorem function_network_computes_addTwice :
    ∃ b W', lxcGenericCreateSimpleFunctionWrapper id addNumBuilder = some b ∧
      Run.run WireDrive.step (addTwice b) [⟨9, 3, addTwiceSolution 3⟩, ⟨9, 0, addTwiceSolution 0⟩,
        ⟨9, 1, addTwiceSolution 1⟩] = some W' ∧
      (W'.valueOn 4).map LxcValue.contents = some ⟨0, .int, 0, .int 49⟩ := by
  have hsome : ((lxcGenericCreateSimpleFunctionWrapper id addNumBuilder).bind fun b =>
      Run.run WireDrive.step (addTwice b) [⟨9, 3, addTwiceSolution 3⟩, ⟨9, 0, addTwiceSolution 0⟩,
        ⟨9, 1, addTwiceSolution 1⟩]).isSome := by decide
  obtain ⟨b, hb, hi⟩ := lxcGenericCreateSimpleFunctionWrapper_isWrapper id addNumBuilder
  rw [hb, Option.bind_some] at hsome
  obtain ⟨W', hrun⟩ := Option.isSome_iff_exists.mp hsome
  have hprimary (w : WireId) (hw : (addTwice b).PrimaryWire w) : w ≠ 2 ∧ w < 4 := by
    obtain ⟨wire, hwire⟩ := Option.isSome_iff_exists.mp hw.1
    have hlt := (addTwice_wire hwire).1.1
    have h2 : w ≠ 2 := fun he => hw.2 0 _ rfl (he ▸ List.mem_singleton_self _)
    have h4 : w ≠ 4 := fun he => hw.2 1 _ rfl (he ▸ List.mem_singleton_self _)
    exact ⟨h2, Nat.lt_of_le_of_ne (Nat.lt_succ_iff.mp hlt) h4⟩
  have hops : ∀ op ∈ [(⟨9, 3, addTwiceSolution 3⟩ : WireDrive), ⟨9, 0, addTwiceSolution 0⟩,
      ⟨9, 1, addTwiceSolution 1⟩], (addTwice b).PrimaryWire op.wire := by
    intro op hop
    simp only [List.mem_cons, List.not_mem_nil, or_false] at hop
    rcases hop with rfl | rfl | rfl <;> exact addTwice_primaryWire (by decide)
  have hfresh : (addTwice b).Fresh := ⟨fun w wire h => (addTwice_wire h).1.2.2, rfl⟩
  have hfinite : {g | ((addTwice b).gates g).isSome}.Finite := by
    apply (Set.finite_Iio 2).subset
    intro g hg
    obtain ⟨gate, h⟩ := Option.isSome_iff_exists.mp hg
    rcases addTwice_gate h with ⟨rfl, -⟩ | ⟨rfl, -⟩ <;> decide
  obtain ⟨-, -, -, hsolution⟩ := function_network_computes (addTwice_functionNetwork hi) hfresh
    hfinite addTwice_acyclic hops hrun
  refine ⟨b, W', hb, hrun, hsolution addTwiceSolution (addTwice_solves hi) (fun w hw => ?_) 4 rfl⟩
  obtain ⟨h2, hlt⟩ := hprimary w hw
  interval_cases w
  · rfl
  · rfl
  · exact absurd rfl h2
  · rfl

end LogxControll
