/-
  Networks of bool gates with `NONHAZARD_PROPAGATE_VALUE`: every gate fires once in a round.

  Wires leave a token in each port they drive, and a gate consumes the tokens of all its ports
  before it drives its own wire. `callBehavior_refinesToken` makes the gates nodes of the token
  network of `Lib.TokenNet`; `hazard_free_rounds` reads the result on its rounds back.
-/
import LogxControll.Lib.TokenNet
import LogxControll.Lib.Refinement
import LogxControll.Execution.BoolGates
import LogxControll.Execution.Network

namespace LogxControll

open Refinement

/-! ## The token network of a world -/

/-- The gates as nodes, with their token ports, and what they make of the tokens there. -/
def World.tokenNet (W : World) : TokenNet.Net GateId WireId TokenportId LxcValue where
  ports g := (W.gates g).elim [] fun gate => gate.input.slots.filterMap id
  node p := (W.tokenports p).elim 0 Tokenport.gate
  source p := (W.tokenports p).elim 0 Tokenport.owner
  out g := (W.gates g).bind fun gate => slotAt gate.output.slots 0
  listeners w := (W.wires w).elim [] fun wire => entries wire.drivens
  result g tokens := (W.gates g).bind fun gate =>
    match gate.execute with
    | .bool f => (f.result (tokens.map some)).map lxcBoolConstant
    | _ => none

/-- The tokens, and what was driven so far. -/
def World.tokenState (W : World) : TokenNet.State GateId TokenportId LxcValue where
  token p := (W.tokenports p).bind Tokenport.currentValue
  log := W.driven

/-- `W` is the network `W₀` at work, all tokens being bool constants. -/
structure TokenWork (W₀ W : World) : Prop where
  gates : W.gates = W₀.gates
  wires : W.wires = W₀.wires
  tokenports : ∀ p, (W.tokenports p).map Tokenport.bare = (W₀.tokenports p).map Tokenport.bare
  tokens : ∀ p v, W.tokenState.token p = some v → IsBoolConstant v

/-- A network for hazard free propagation, with no tokens in its ports: gates execute at once, a
    wire lists a port once, and every gate has the inputs its logic function asks for. -/
structure World.HazardFree (W : World) : Prop where
  bool : W.BoolNetwork .nonhazardPropagateValue
  behavior : ∀ g gate, W.gates g = some gate → gate.executionBehavior = some .default
  nodup : ∀ w wire, W.wires w = some wire → (entries wire.drivens).Nodup
  inputs : ∀ g gate, W.gates g = some gate →
    1 ≤ (gate.input.slots.filterMap id).length ∧
      (gate.execute = .bool .xor → 2 ≤ (gate.input.slots.filterMap id).length)
  tokens : ∀ p tp, W.tokenports p = some tp → tp.currentValue = none

section Network

variable {W : World}

theorem tokenNet_gate {g : GateId} {gate : Gate} (hg : W.gates g = some gate) :
    W.tokenNet.ports g = gate.input.slots.filterMap id ∧
      W.tokenNet.out g = slotAt gate.output.slots 0 := by
  refine ⟨?_, ?_⟩ <;> simp [World.tokenNet, hg]

theorem tokenNet_tokenport {p : TokenportId} {tp : Tokenport} (htp : W.tokenports p = some tp) :
    W.tokenNet.node p = tp.gate ∧ W.tokenNet.source p = tp.owner := by
  refine ⟨?_, ?_⟩ <;> simp [World.tokenNet, htp]

theorem mem_ports_iff {g : GateId} {p : TokenportId} :
    p ∈ W.tokenNet.ports g ↔ ∃ gate, W.gates g = some gate ∧ some p ∈ gate.input.slots := by
  cases hg : W.gates g with
  | none => simp [World.tokenNet, hg]
  | some gate => simp [World.tokenNet, hg]

theorem out_eq_iff (h : W.BoolNetwork .nonhazardPropagateValue) {g : GateId} {w : WireId} :
    W.tokenNet.out g = some w ↔ ∃ gate, W.gates g = some gate ∧ some w ∈ gate.output.slots := by
  cases hg : W.gates g with
  | none => simp [World.tokenNet, hg]
  | some gate =>
    rw [(tokenNet_gate hg).2]
    constructor
    · intro hslot
      refine ⟨gate, rfl, ?_⟩
      rw [(h.bool g gate hg).output_eq, hslot]
      exact List.mem_singleton_self _
    · rintro ⟨gate', he, hslot⟩
      obtain rfl := Option.some.inj he
      rw [(h.bool g gate hg).output_eq] at hslot
      exact (List.mem_singleton.mp hslot).symm

/-- A logic function other than `dbg` has a result on one value, `xor` on two. -/
theorem LogicFunction.eval_isSome_of_length {f : LogicFunction} (hf : f ≠ .dbg)
    {values : List Bool} (hone : 1 ≤ values.length) (htwo : f = .xor → 2 ≤ values.length) :
    (f.eval values).isSome := by
  have hne : values ≠ [] := List.ne_nil_of_length_pos hone
  cases f with
  | dbg => exact absurd rfl hf
  | not =>
    obtain ⟨b, rest, rfl⟩ := List.exists_cons_of_ne_nil hne
    rfl
  | xor =>
    have : ¬ values.length ≤ 1 := Nat.not_le.mpr (htwo rfl)
    simp only [LogicFunction.eval, if_neg this, Option.isSome_some]
  | nand | nor | and | or => simp only [LogicFunction.eval, if_neg hne, Option.isSome_some]

theorem World.HazardFree.wellFormed (h : W.HazardFree)
    (hdbg : ∀ g gate, W.gates g = some gate → gate.execute ≠ .bool .dbg) :
    W.tokenNet.WellFormed where
  node := by
    intro g p hp
    obtain ⟨gate, hg, hslot⟩ := mem_ports_iff.mp hp
    obtain ⟨tp, wire, htp, hgate, -⟩ := h.bool.network.inputs g gate p hg hslot
    rw [(tokenNet_tokenport htp).1, hgate]
  listener := by
    intro w p
    constructor
    · intro hp
      cases hw : W.wires w with
      | none => simp [World.tokenNet, hw] at hp
      | some wire =>
        obtain ⟨l, hl, hall⟩ := h.bool.network.drivens w wire hw
        simp only [World.tokenNet, hw, Option.elim_some, hl.entries_eq] at hp
        obtain ⟨tp, gate, htp, howner, hg, hslot⟩ := hall p hp
        rw [(tokenNet_tokenport htp).1, (tokenNet_tokenport htp).2]
        exact ⟨mem_ports_iff.mpr ⟨gate, hg, hslot⟩, howner⟩
    · rintro ⟨hp, rfl⟩
      obtain ⟨gate, hg, hslot⟩ := mem_ports_iff.mp hp
      obtain ⟨tp, wire, htp, -, hw, hmem⟩ := h.bool.network.inputs _ gate p hg hslot
      rw [(tokenNet_tokenport htp).2]
      simp only [World.tokenNet, hw, Option.elim_some]
      exact hmem
  nodup := by
    intro w
    cases hw : W.wires w with
    | none => simp [World.tokenNet, hw]
    | some wire =>
      simp only [World.tokenNet, hw, Option.elim_some]
      exact h.nodup w wire hw
  driver := by
    intro g g' w hout hout'
    obtain ⟨gate, hg, hslot⟩ := (out_eq_iff h.bool).mp hout
    obtain ⟨gate', hg', hslot'⟩ := (out_eq_iff h.bool).mp hout'
    exact h.bool.network.driver g g' gate gate' w hg hg' hslot hslot'
  total := by
    intro g tokens hne hlen
    cases hg : W.gates g with
    | none => simp [World.tokenNet, hg] at hne
    | some gate =>
      obtain ⟨f, hf⟩ := (h.bool.bool g gate hg).execute
      obtain ⟨hone, htwo⟩ := h.inputs g gate hg
      rw [(tokenNet_gate hg).1] at hlen
      have hpresent : (present (tokens.map some)).isSome := by
        rw [present_isSome]
        intro v hv
        obtain ⟨v, -, rfl⟩ := List.mem_map.mp hv
        rfl
      obtain ⟨values, hvalues⟩ := Option.isSome_iff_exists.mp hpresent
      have hvlen := length_present hvalues
      rw [List.length_map, hlen] at hvlen
      have hnot : f ≠ .dbg := fun he => hdbg g gate hg (he ▸ hf)
      have heval := LogicFunction.eval_isSome_of_length hnot (by rw [hvlen]; exact hone)
        (by rintro rfl; rw [hvlen]; exact htwo hf)
      have hresult : f.result (tokens.map some) = f.eval values := by
        rw [LogicFunction.result_eq hnot, hvalues, Option.bind_some]
      simp only [World.tokenNet, hg, Option.bind_some, hf, hresult, Option.isSome_map]
      exact heval

end Network

/-! ## Work keeps the network -/

namespace TokenWork

variable {W₀ W : World}

theorem tokenport (h : TokenWork W₀ W) {p : TokenportId} {tp₀ : Tokenport}
    (htp : W₀.tokenports p = some tp₀) :
    ∃ tp, W.tokenports p = some tp ∧ tp.gate = tp₀.gate ∧ tp.owner = tp₀.owner := by
  have := h.tokenports p
  rw [htp, Option.map_some, Option.map_eq_some_iff] at this
  obtain ⟨tp, htp', he⟩ := this
  refine ⟨tp, htp', ?_, ?_⟩
  · simpa [Tokenport.bare] using congrArg Tokenport.gate he
  · simpa [Tokenport.bare] using congrArg Tokenport.owner he

/-- Another token, or none, in one port. -/
theorem setTokenport (h : TokenWork W₀ W) {p : TokenportId} {tp : Tokenport}
    (htp : W.tokenports p = some tp) {cv : Option LxcValue}
    (hcv : ∀ v, cv = some v → IsBoolConstant v) :
    TokenWork W₀ (W.setTokenport p { tp with currentValue := cv }) ∧
      (W.setTokenport p { tp with currentValue := cv }).tokenState =
        ⟨Function.update W.tokenState.token p cv, W.driven⟩ := by
  have hstate : (W.setTokenport p { tp with currentValue := cv }).tokenState =
      ⟨Function.update W.tokenState.token p cv, W.driven⟩ := by
    unfold World.tokenState
    congr 1
    funext q
    show ((Function.update W.tokenports p _) q).bind _ = _
    by_cases he : q = p
    · rw [he, Function.update_self, Function.update_self]
      rfl
    · rw [Function.update_of_ne he, Function.update_of_ne he]
  refine ⟨⟨h.gates, h.wires, ?_, ?_⟩, hstate⟩
  · intro q
    rw [← h.tokenports q]
    by_cases he : q = p
    · subst he
      show ((Function.update W.tokenports q _) q).map _ = _
      rw [Function.update_self, htp]
      rfl
    · exact congrArg _ (Function.update_of_ne he _ W.tokenports)
  · intro q v hv
    rw [hstate] at hv
    by_cases he : q = p
    · subst he
      exact hcv v ((Function.update_self q cv W.tokenState.token).symm.trans hv)
    · exact h.tokens q v ((Function.update_of_ne he cv W.tokenState.token).symm.trans hv)

theorem note (h : TokenWork W₀ W) (g : GateId) (v : LxcValue) :
    TokenWork W₀ (W.note (some g) v) ∧
      (W.note (some g) v).tokenState = { W.tokenState with log := W.tokenState.log ++ [(g, v)] } :=
  ⟨⟨h.gates, h.wires, h.tokenports, h.tokens⟩, rfl⟩

variable (hnet : W₀.HazardFree)
include hnet

theorem token_eq (h : TokenWork W₀ W) {p : TokenportId} {tp₀ : Tokenport} {wire : Wire}
    (htp : W₀.tokenports p = some tp₀) (hw : W₀.wires tp₀.owner = some wire) :
    lxcGetTokenValue W p = some (W.tokenState.token p) := by
  obtain ⟨tp, htp', -, howner⟩ := h.tokenport htp
  have hhandler := hnet.bool.network.handler tp₀.owner wire hw
  simp [lxcGetTokenValue, htp', howner, h.wires, hw, hhandler, World.tokenState]

theorem reads (h : TokenWork W₀ W) {slots : List (Option TokenportId)} (hs : ListedIn W₀ slots) :
    Reads W W.tokenState.token slots where
  token := by
    intro p hp
    obtain ⟨tp, wire, htp, hw⟩ := hs p hp
    exact h.token_eq hnet htp hw
  constant := fun p v _ hv => h.tokens p v hv

theorem absorbToken (h : TokenWork W₀ W) {p : TokenportId} {tp₀ : Tokenport} {wire : Wire}
    (htp : W₀.tokenports p = some tp₀) (hw : W₀.wires tp₀.owner = some wire) :
    ∃ W', lxcAbsorbToken p W = some W' ∧ TokenWork W₀ W' ∧
      W'.tokenState = W.tokenState.clear [p] := by
  obtain ⟨tp, htp', -, howner⟩ := h.tokenport htp
  have hhandler := hnet.bool.network.handler tp₀.owner wire hw
  have hnone : ∀ v, (none : Option LxcValue) = some v → IsBoolConstant v := by simp
  obtain ⟨hwork, hstate⟩ := h.setTokenport htp' hnone
  refine ⟨W.setTokenport p { tp with currentValue := none }, ?_, hwork, ?_⟩
  · simp [lxcAbsorbToken, htp', howner, h.wires, hw, hhandler]
  · rw [hstate]
    show _ = (⟨_, W.driven⟩ : TokenNet.State GateId TokenportId LxcValue)
    congr 1
    funext q
    by_cases he : q = p
    · simp [he]
    · simp [he]

theorem absorbTokens {ports : List TokenportId} :
    ∀ {W : World}, TokenWork W₀ W → (∀ p ∈ ports, ∃ tp wire, W₀.tokenports p = some tp ∧
        W₀.wires tp.owner = some wire) →
      ∃ W', LogxControll.absorbTokens ports W = some W' ∧ TokenWork W₀ W' ∧
        W'.tokenState = W.tokenState.clear ports := by
  induction ports with
  | nil =>
    intro W h _
    exact ⟨W, rfl, h, TokenNet.State.clear_nil.symm⟩
  | cons p ports ih =>
    intro W h hall
    obtain ⟨tp, wire, htp, hw⟩ := hall p List.mem_cons_self
    obtain ⟨W₁, habsorb, hwork₁, hstate₁⟩ := h.absorbToken hnet htp hw
    obtain ⟨W', hrest, hwork, hstate⟩ := ih hwork₁ fun q hq => hall q (List.mem_cons_of_mem _ hq)
    refine ⟨W', ?_, hwork, ?_⟩
    · simp only [LogxControll.absorbTokens, habsorb, Option.bind_eq_bind, Option.bind_some]
      exact hrest
    · rw [hstate, hstate₁, TokenNet.State.clear_cons]

end TokenWork

/-! ## Gates as nodes -/

section Nodes

variable {W₀ : World} {call : ExecCall → World → Option World}
  {notify : GateId → TokenNet.State GateId TokenportId LxcValue →
    Option (TokenNet.State GateId TokenportId LxcValue)}

/-- The behaviors that are called do what `notify` does. -/
def CallRefinesToken (W₀ : World) (call : ExecCall → World → Option World)
    (notify : GateId → TokenNet.State GateId TokenportId LxcValue →
      Option (TokenNet.State GateId TokenportId LxcValue)) : Prop :=
  ∀ c : ExecCall, (W₀.gates c.gate).isSome →
    Refines (TokenWork W₀) World.tokenState (call c) (notify c.gate)

variable (hnet : W₀.HazardFree) (hcall : CallRefinesToken W₀ call notify)
include hnet hcall

/-- One turn of the loop over the driven ports. -/
theorem deliverToken_refines {signal : Signal} {subtype : Int} {v : LxcValue}
    (hv : IsBoolConstant v) {p : TokenportId} {tp₀ : Tokenport} {gate : Gate}
    (htp : W₀.tokenports p = some tp₀) (hg : W₀.gates tp₀.gate = some gate) :
    Refines (TokenWork W₀) World.tokenState
      (fun W => (importToken v p W).bind (notifyGate call signal subtype v p))
      (fun s => notify (W₀.tokenNet.node p) (s.put p v)) := by
  intro W hW
  obtain ⟨tp, htp', hgate, -⟩ := hW.tokenport htp
  have hput : ∀ v', some v = some v' → IsBoolConstant v' := fun v' hv' => Option.some.inj hv' ▸ hv
  obtain ⟨hwork, hstate⟩ := hW.setTokenport htp' hput
  have henabled := hnet.bool.network.enabled tp₀.gate gate hg
  have hgate' : W.gates tp₀.gate = some gate := by rw [hW.gates, hg]
  have himport : importToken v p W =
      some (W.setTokenport p { tp with currentValue := some v }) := by
    simp [importToken, htp']
  have hnotify : notifyGate call signal subtype v p
      (W.setTokenport p { tp with currentValue := some v }) =
        call ⟨tp₀.gate, signal, subtype, v, tp.index⟩
          (W.setTokenport p { tp with currentValue := some v }) := by
    simp [notifyGate, World.setTokenport, hgate, hgate', henabled]
  have hput : W.tokenState.put p v =
      (W.setTokenport p { tp with currentValue := some v }).tokenState := hstate.symm
  show ((importToken v p W).bind _).map _ = notify _ (W.tokenState.put p v) ∧
    ∀ W', (importToken v p W).bind _ = some W' → _
  rw [himport, Option.bind_some, hnotify, (tokenNet_tokenport htp).1, hput]
  exact hcall ⟨tp₀.gate, signal, subtype, v, tp.index⟩ (by rw [hg]; rfl) _ hwork

/-- The loop over the driven ports. -/
theorem deliverTokens_refines {signal : Signal} {subtype : Int} {v : LxcValue}
    (hv : IsBoolConstant v) (k : Nat) :
    ∀ l : List TokenportId, (∀ p ∈ l, ∃ tp gate, W₀.tokenports p = some tp ∧
        W₀.gates tp.gate = some gate) →
      Refines (TokenWork W₀) World.tokenState
        (notifyPorts call (importToken v) signal subtype v (l.map some ++ List.replicate k none))
        (W₀.tokenNet.deliver notify v l) := by
  intro l
  induction l with
  | nil =>
    intro _
    cases k with
    | zero => exact .pure
    | succ k => exact .pure
  | cons p l ih =>
    intro hall
    obtain ⟨tp, gate, htp, hg⟩ := hall p List.mem_cons_self
    have hrest := ih fun q hq => hall q (List.mem_cons_of_mem _ hq)
    apply ((deliverToken_refines hnet hcall hv htp hg).bind hrest).congr
    · intro W _
      simp only [List.map_cons, List.cons_append, notifyPorts, Option.bind_eq_bind,
        Option.bind_assoc]
      rfl
    · intro _ _
      rfl

/-- A drive that was noted, or one from outside. -/
theorem writeNewValue_refinesToken {w : WireId} {wire : Wire} (hw : W₀.wires w = some wire)
    {v : LxcValue} (hv : IsBoolConstant v) :
    Refines (TokenWork W₀) World.tokenState (writeNewValue call w v)
      (W₀.tokenNet.drive notify w v) := by
  obtain ⟨l, ⟨k, hl⟩, hall⟩ := hnet.bool.network.drivens w wire hw
  have hlisteners : W₀.tokenNet.listeners w = l := by
    simp [World.tokenNet, hw, IsNt.entries_eq ⟨k, hl⟩]
  have hhandler := hnet.bool.network.handler w wire hw
  have hports : ∀ p ∈ l, ∃ tp gate, W₀.tokenports p = some tp ∧ W₀.gates tp.gate = some gate := by
    intro p hp
    obtain ⟨tp, gate, htp, -, hg, -⟩ := hall p hp
    exact ⟨tp, gate, htp, hg⟩
  have hdeliver : Refines (TokenWork W₀) World.tokenState
      (notifyPorts call (importToken v) wire.type wire.subtype v
        (l.map some ++ List.replicate k none))
      (W₀.tokenNet.deliver notify v l) := deliverTokens_refines hnet hcall hv k l hports
  apply hdeliver.congr
  · intro W hW
    simp only [writeNewValue, wireNonhazardPropagateWireNewValue, hW.wires, hw, hhandler, hl,
      Option.bind_eq_bind, Option.bind_some]
  · intro s _
    rw [TokenNet.Net.drive, hlisteners]

/-- Executing a bool gate other than `dbg` is firing its node. -/
theorem logxBoolExecute_refinesToken {g : GateId} {gate : Gate} {f : LogicFunction}
    (hg : W₀.gates g = some gate) (hf : gate.execute = .bool f) (hnot : f ≠ .dbg) :
    Refines (TokenWork W₀) World.tokenState (logxBoolExecute call f g)
      (W₀.tokenNet.fire notify g) := by
  intro W hW
  have hgate : W.gates g = some gate := by rw [hW.gates, hg]
  have hout : gate.output.slots[0]? = some (slotAt gate.output.slots 0) := by
    apply slotAt_eq
    rw [(hnet.bool.bool g gate hg).output]
    exact Nat.zero_lt_one
  have hlisted := hnet.bool.network.listedIn hg
  have hcalled := LogicFunction.call_eq hnot (hW.reads hnet hlisted).bools
  obtain ⟨hports, hout'⟩ := tokenNet_gate hg
  simp only [logxBoolExecute, hgate, hout, hcalled, Option.bind_eq_bind, Option.bind_some]
  cases hcollect : W.tokenState.collect (W₀.tokenNet.ports g) with
  | none =>
    have hmissing : present (slotTokens W.tokenState.token gate.input.slots) = none := by
      rw [← Option.not_isSome_iff_eq_none, present_isSome]
      intro hall
      obtain ⟨p, hp, hnone⟩ := TokenNet.State.exists_of_collect_eq_none hcollect
      have := hall _ (List.mem_map_of_mem (hports ▸ hp))
      rw [hnone] at this
      cases this
    rw [TokenNet.fire_of_missing hcollect, hmissing]
    refine ⟨rfl, fun W' h => ?_⟩
    obtain rfl := Option.some.inj h
    exact hW
  | some tokens =>
    have htokens : slotTokens W.tokenState.token gate.input.slots = tokens.map some := by
      rw [← TokenNet.State.map_token_of_collect hcollect, hports]
      rfl
    have hpresent : (present (tokens.map some)).isSome := by
      rw [present_isSome]
      intro v hv
      obtain ⟨v, -, rfl⟩ := List.mem_map.mp hv
      rfl
    obtain ⟨values, hvalues⟩ := Option.isSome_iff_exists.mp hpresent
    have hresult : W₀.tokenNet.result g tokens = (f.eval values).map lxcBoolConstant := by
      simp only [World.tokenNet, hg, Option.bind_some, hf, LogicFunction.result_eq hnot, hvalues]
    have hlisted' : ∀ p ∈ gate.input.slots.filterMap id, ∃ tp wire,
        W₀.tokenports p = some tp ∧ W₀.wires tp.owner = some wire := by
      intro p hp
      obtain ⟨s, hs, he⟩ := List.mem_filterMap.mp hp
      exact hlisted p (he ▸ hs)
    obtain ⟨W₁, habsorb, hwork, hstate⟩ := TokenWork.absorbTokens hnet hW hlisted'
    rw [htokens, hvalues]
    simp only [habsorb, Option.map_some, Option.bind_some]
    rw [← hports] at hstate
    cases heval : f.eval values with
    | none =>
      rw [heval] at hresult
      have hfire : W₀.tokenNet.fire notify g W.tokenState = some W₁.tokenState := by
        simp only [TokenNet.Net.fire, hcollect, hresult, Option.map_none, hstate]
      rw [hfire]
      refine ⟨rfl, fun W' h => ?_⟩
      obtain rfl := Option.some.inj h
      exact hwork
    | some b =>
      rw [heval, Option.map_some] at hresult
      cases hslot : slotAt gate.output.slots 0 with
      | none =>
        rw [hslot] at hout'
        rw [TokenNet.fire_of_unwired hcollect hout', ← hstate]
        refine ⟨rfl, fun W' h => ?_⟩
        obtain rfl := Option.some.inj h
        exact hwork
      | some w =>
        rw [hslot] at hout'
        have hmem : some w ∈ gate.output.slots := by
          rw [(hnet.bool.bool g gate hg).output_eq, hslot]
          exact List.mem_singleton_self (some w)
        obtain ⟨wire, hw⟩ := hnet.bool.network.outputs g gate w hg hmem
        obtain ⟨hnoted, hlog⟩ := hwork.note g (lxcBoolConstant b)
        rw [TokenNet.fire_of_result hcollect hresult hout', ← hstate]
        have hlog' : ({ W₁.tokenState with log := W.tokenState.log ++ [(g, lxcBoolConstant b)] } :
            TokenNet.State GateId TokenportId LxcValue) =
              (W₁.note (some g) (lxcBoolConstant b)).tokenState := by
          rw [hlog, hstate]
          rfl
        rw [hlog']
        exact writeNewValue_refinesToken hnet hcall hw ⟨b, rfl⟩ _ hnoted

omit hcall in
/-- Calling an execution behavior notifies the gate's node. -/
theorem callBehavior_refinesToken (hdbg : ∀ g gate, W₀.gates g = some gate →
      gate.execute ≠ .bool .dbg) :
    ∀ n, CallRefinesToken W₀ (callBehavior n) (W₀.tokenNet.notify n) := by
  intro n
  induction n with
  | zero =>
    intro c _ W _
    exact ⟨rfl, fun W' h => by cases h⟩
  | succ n ih =>
    intro c hc
    obtain ⟨gate, hg⟩ := Option.isSome_iff_exists.mp hc
    obtain ⟨f, hf⟩ := (hnet.bool.bool c.gate gate hg).execute
    have hnot : f ≠ .dbg := fun he => hdbg c.gate gate hg (he ▸ hf)
    apply (logxBoolExecute_refinesToken hnet ih hg hf hnot).congr
    · intro W hW
      simp [callBehavior, lxcExecutionDefaultBehavior, hW.gates, hg, hnet.behavior c.gate gate hg,
        hf, Execute.run]
    · intro _ _
      rfl

end Nodes

/-! ## Rounds -/

/-- One call for each pair, with fuel for the calls below it. -/
def runRound (k : Nat) (W : World) (round : List (WireId × Bool)) : Option World :=
  Run.run BoolDrive.step W (round.map fun c => ⟨k, c.1, c.2⟩)

/-- Every primary wire is driven once. -/
def World.IsRound (W : World) (round : List (WireId × Bool)) : Prop :=
  (round.map Prod.fst).Nodup ∧ ∀ w, w ∈ round.map Prod.fst ↔ W.PrimaryWire w

/-- No port has a token. -/
def World.TokensEmpty (W : World) : Prop :=
  ∀ p tp, W.tokenports p = some tp → tp.currentValue = none

/-- The values gate `g` drove so far. -/
def World.drivesOf (W : World) (g : GateId) : List LxcValue := TokenNet.drives g W.driven

/-- From `W₁` to `W₂` each gate of `W` with a wired output drove it once, with the result of its
    logic function for the values of this round. -/
def World.FiredOnce (W : World) (round : List (WireId × Bool)) (W₁ W₂ : World) : Prop :=
  ∃ val : WireId → Bool, (∀ w b, (w, b) ∈ round → val w = b) ∧
    ∀ g gate f w, W.gates g = some gate → gate.execute = .bool f →
      gate.output.slots[0]? = some (some w) →
      f.eval ((W.wiresOf .input gate.input.slots).map val) = some (val w) ∧
        W₂.drivesOf g = W₁.drivesOf g ++ [lxcBoolConstant (val w)]

section Rounds

variable {W₀ W : World}

theorem tokenState_empty_iff : W.tokenState.Empty ↔ W.TokensEmpty := by
  constructor
  · intro h p tp htp
    have : (W.tokenports p).bind Tokenport.currentValue = none := h p
    rwa [htp, Option.bind_some] at this
  · intro h p
    show (W.tokenports p).bind _ = none
    cases htp : W.tokenports p with
    | none => rfl
    | some tp => exact h p tp htp

theorem wiresOf_input {slots : List (Option TokenportId)} (h : ListedIn W slots) :
    W.wiresOf .input slots = (slots.filterMap id).map W.tokenNet.source := by
  induction slots with
  | nil => rfl
  | cons s slots ih =>
    cases s with
    | none => exact ih h.tail
    | some p =>
      obtain ⟨tp, wire, htp, -⟩ := h p List.mem_cons_self
      have hsource := (tokenNet_tokenport htp).2
      simp only [World.wiresOf, List.filterMap_cons, Option.bind_some, slotOwner, htp,
        Option.map_some, id_eq, List.map_cons, hsource]
      exact congrArg _ (ih h.tail)

theorem World.HazardFree.feeds (h : W.HazardFree) {g g' : GateId} (hf : W.tokenNet.Feeds g g') :
    W.Feeds g g' := by
  obtain ⟨p, hp, hout⟩ := hf
  obtain ⟨gate', hg', hslot'⟩ := mem_ports_iff.mp hp
  obtain ⟨gate, hg, hslot⟩ := (out_eq_iff h.bool).mp hout
  obtain ⟨tp, wire, htp, -⟩ := h.bool.network.inputs g' gate' p hg' hslot'
  exact ⟨gate, gate', _, p, tp, hg, hg', hslot, hslot', htp, (tokenNet_tokenport htp).2.symm⟩

/-- All consistent values are bool constants. -/
theorem isBoolConstant_of_consistent {val : WireId → LxcValue} {input : WireId → Bool}
    (h : W.HazardFree) (hval : W.tokenNet.Consistent val)
    (hinput : ∀ w, W.tokenNet.Primary w → val w = lxcBoolConstant (input w)) (w : WireId) :
    IsBoolConstant (val w) := by
  by_cases hout : ∃ g, W.tokenNet.out g = some w
  · obtain ⟨g, hout⟩ := hout
    obtain ⟨gate, hg, -⟩ := (out_eq_iff h.bool).mp hout
    obtain ⟨f, hf⟩ := (h.bool.bool g gate hg).execute
    have hne : W.tokenNet.ports g ≠ [] := by
      rw [(tokenNet_gate hg).1]
      exact List.ne_nil_of_length_pos (h.inputs g gate hg).1
    have hresult := hval g w hout hne
    simp only [World.tokenNet, hg, Option.bind_some, hf, Option.map_eq_some_iff] at hresult
    obtain ⟨b, -, hb⟩ := hresult
    exact ⟨b, hb.symm⟩
  · exact ⟨input w, hinput w fun g hg => hout ⟨g, hg⟩⟩

/-- What consistency of the network means for a gate. -/
theorem eval_of_consistent {val : WireId → Bool} (h : W.HazardFree)
    (hdbg : ∀ g gate, W.gates g = some gate → gate.execute ≠ .bool .dbg)
    (hval : W.tokenNet.Consistent fun w => lxcBoolConstant (val w)) {g : GateId} {gate : Gate}
    {f : LogicFunction} {w : WireId} (hg : W.gates g = some gate) (hf : gate.execute = .bool f)
    (hout : W.tokenNet.out g = some w) :
    f.eval ((W.wiresOf .input gate.input.slots).map val) = some (val w) := by
  have hports := (tokenNet_gate hg).1
  have hnot : f ≠ .dbg := fun he => hdbg g gate hg (he ▸ hf)
  have hne : W.tokenNet.ports g ≠ [] := by
    rw [hports]
    exact List.ne_nil_of_length_pos (h.inputs g gate hg).1
  have hresult := hval g w hout hne
  have htokens : ((W.tokenNet.ports g).map fun p => lxcBoolConstant (val (W.tokenNet.source p))).map
      some =
        ((W.wiresOf .input gate.input.slots).map val).map fun b => some (lxcBoolConstant b) := by
    rw [wiresOf_input (h.bool.network.listedIn hg), hports]
    simp only [List.map_map]
    rfl
  simp only [World.tokenNet, hg, Option.bind_some, hf] at hresult
  have hresult' : (f.result (((W.tokenNet.ports g).map fun p =>
      lxcBoolConstant (val (W.tokenNet.source p))).map some)).map lxcBoolConstant =
        some (lxcBoolConstant (val w)) := by
    rw [hports]
    exact hresult
  rw [htokens, LogicFunction.result_eq hnot, present_map, Option.bind_some,
    Option.map_eq_some_iff] at hresult'
  obtain ⟨b, hb, he⟩ := hresult'
  rw [hb, lxcBoolConstant_injective he]

/-- The calls of a round, as the network sees them. -/
theorem runRound_refines (h : W₀.HazardFree)
    (hdbg : ∀ g gate, W₀.gates g = some gate → gate.execute ≠ .bool .dbg) (k : Nat)
    {round : List (WireId × Bool)} (hround : W₀.IsRound round) {val : WireId → Bool}
    (hval : ∀ w b, (w, b) ∈ round → val w = b) :
    Refines (TokenWork W₀) World.tokenState (fun W => runRound k W round)
      (fun s => Run.run (fun s w => W₀.tokenNet.drive (W₀.tokenNet.notify k) w
        (lxcBoolConstant (val w)) s) s (round.map Prod.fst)) := by
  have hsteps : ∀ c ∈ round, Refines (TokenWork W₀) World.tokenState
      (fun W => BoolDrive.step W ⟨k, c.1, c.2⟩)
      (fun s => W₀.tokenNet.drive (W₀.tokenNet.notify k) c.1 (lxcBoolConstant (val c.1)) s) := by
    rintro ⟨w, b⟩ hc
    have hprimary := (hround.2 w).mp (List.mem_map_of_mem hc)
    obtain ⟨wire, hw⟩ := Option.isSome_iff_exists.mp hprimary.1
    rw [hval w b hc]
    exact writeNewValue_refinesToken h (callBehavior_refinesToken h hdbg k) hw ⟨b, rfl⟩
  apply (Refines.run round hsteps).congr
  · intro W _
    exact Run.run_map _ _ round W
  · intro s _
    exact Run.run_map _ _ round s.tokenState

/-- One round. -/
theorem runRound_fires_once (h : W₀.HazardFree)
    (hdbg : ∀ g gate, W₀.gates g = some gate → gate.execute ≠ .bool .dbg)
    (hfinite : {g | (W₀.gates g).isSome}.Finite)
    (hacyclic : ∀ g, ¬ Relation.TransGen W₀.Feeds g g) {k : Nat}
    (hk : {g | (W₀.gates g).isSome}.ncard < k) {round : List (WireId × Bool)}
    (hround : W₀.IsRound round) (hW : TokenWork W₀ W) (hempty : W.TokensEmpty) :
    ∃ W', runRound k W round = some W' ∧ TokenWork W₀ W' ∧ W'.TokensEmpty ∧
      W₀.FiredOnce round W W' := by
  have hwf := h.wellFormed hdbg
  have hgates : ∀ g g', W₀.tokenNet.Feeds g g' → (W₀.gates g).isSome ∧ (W₀.gates g').isSome := by
    intro g g' hf
    obtain ⟨gate, gate', -, -, -, hg, hg', -⟩ := h.feeds hf
    exact ⟨by rw [hg]; rfl, by rw [hg']; rfl⟩
  have hno : ∀ g, ¬ Relation.TransGen W₀.tokenNet.Feeds g g := fun g hg =>
    hacyclic g (Relation.TransGen.mono (fun _ _ => h.feeds) g g hg)
  have hfounded := Acyclic.wellFounded_of_acyclic hfinite hgates hno
  obtain ⟨rank, hrank, hbound⟩ :=
    Acyclic.exists_rank hfinite (fun g g' hf => (hgates g g' hf).2) hno
  -- the values of this round
  obtain ⟨value, hconsistent, hinput⟩ := TokenNet.exists_consistent hwf hfounded
    fun w => lxcBoolConstant (decide ((w, true) ∈ round))
  choose val hval using isBoolConstant_of_consistent h hconsistent hinput
  obtain rfl : value = fun w => lxcBoolConstant (val w) := funext hval
  have hdriven : ∀ w b, (w, b) ∈ round → val w = b := by
    intro w b hc
    have hprimary := (hround.2 w).mp (List.mem_map_of_mem hc)
    have hinput := lxcBoolConstant_injective (hinput w fun g hout => by
      obtain ⟨gate, hg, hslot⟩ := (out_eq_iff h.bool).mp hout
      exact hprimary.2 g gate hg hslot)
    rw [hinput]
    cases b with
    | true => exact decide_eq_true hc
    | false =>
      apply decide_eq_false
      intro hc'
      cases List.inj_on_of_nodup_map hround.1 hc hc' rfl
  have hsource : ∀ g, ∀ p ∈ W₀.tokenNet.ports g, W₀.tokenNet.source p ∈ round.map Prod.fst ∨
      ∃ g', W₀.tokenNet.out g' = some (W₀.tokenNet.source p) ∧ W₀.tokenNet.ports g' ≠ [] := by
    intro g p hp
    obtain ⟨gate, hg, hslot⟩ := mem_ports_iff.mp hp
    obtain ⟨tp, wire, htp, -, hw, -⟩ := h.bool.network.inputs g gate p hg hslot
    rw [(tokenNet_tokenport htp).2, hround.2]
    by_cases hout : ∃ g' gate', W₀.gates g' = some gate' ∧ some tp.owner ∈ gate'.output.slots
    · obtain ⟨g', gate', hg', hslot'⟩ := hout
      refine .inr ⟨g', (out_eq_iff h.bool).mpr ⟨gate', hg', hslot'⟩, ?_⟩
      rw [(tokenNet_gate hg').1]
      exact List.ne_nil_of_length_pos (h.inputs g' gate' hg').1
    · refine .inl ⟨by rw [hw]; rfl, fun g' gate' hg' hslot' => hout ⟨g', gate', hg', hslot'⟩⟩
  have hprimary : ∀ w ∈ round.map Prod.fst, W₀.tokenNet.Primary w := by
    intro w hw g hout
    obtain ⟨gate, hg, hslot⟩ := (out_eq_iff h.bool).mp hout
    exact ((hround.2 w).mp hw).2 g gate hg hslot
  obtain ⟨s', hrun, hs', hfired⟩ := TokenNet.round_fires_once hwf hconsistent hrank
    (fun g => lt_of_le_of_lt (hbound g) hk) hfounded hround.1 hprimary hsource
    (tokenState_empty_iff.mpr hempty)
  obtain ⟨W', hstep, rfl, hwork⟩ := (runRound_refines h hdbg k hround hdriven).returns hW hrun
  refine ⟨W', hstep, hwork, tokenState_empty_iff.mp hs', val, hdriven, ?_⟩
  intro g gate f w hg hf hslot
  have hout : W₀.tokenNet.out g = some w := by
    rw [(tokenNet_gate hg).2, slotAt, hslot]
    rfl
  refine ⟨eval_of_consistent h hdbg hconsistent hg hf hout, ?_⟩
  have hne : W₀.tokenNet.ports g ≠ [] := by
    rw [(tokenNet_gate hg).1]
    exact List.ne_nil_of_length_pos (h.inputs g gate hg).1
  have := hfired g hne
  rw [hout] at this
  exact this

theorem World.HazardFree.tokenWork (h : W.HazardFree) : TokenWork W W := by
  refine ⟨rfl, rfl, fun _ => rfl, ?_⟩
  intro p v hv
  rw [tokenState_empty_iff.mpr h.tokens p] at hv
  cases hv

end Rounds

/-- After any number of rounds, in one more round every gate fires exactly once, and all tokens
    are consumed. -/
theorem hazard_free_rounds {W : World} (h : W.HazardFree)
    (hdbg : ∀ g gate, W.gates g = some gate → gate.execute ≠ .bool .dbg)
    (hfinite : {g | (W.gates g).isSome}.Finite)
    (hacyclic : ∀ g, ¬ Relation.TransGen W.Feeds g g) {k : Nat}
    (hk : {g | (W.gates g).isSome}.ncard < k) (rounds : List (List (WireId × Bool)))
    (hrounds : ∀ round ∈ rounds, W.IsRound round) (round : List (WireId × Bool))
    (hround : W.IsRound round) :
    ∃ W₁ W₂, Run.run (runRound k) W rounds = some W₁ ∧ runRound k W₁ round = some W₂ ∧
      W₂.TokensEmpty ∧ W.FiredOnce round W₁ W₂ := by
  have hrun : ∀ (rounds : List (List (WireId × Bool))) (W₀ : World), TokenWork W W₀ →
      W₀.TokensEmpty → (∀ round ∈ rounds, W.IsRound round) →
      ∃ W₁, Run.run (runRound k) W₀ rounds = some W₁ ∧ TokenWork W W₁ ∧ W₁.TokensEmpty := by
    intro rounds
    induction rounds with
    | nil =>
      intro W₀ hwork hempty _
      exact ⟨W₀, rfl, hwork, hempty⟩
    | cons round rounds ih =>
      intro W₀ hwork hempty hall
      obtain ⟨W', hstep, hwork', hempty', -⟩ := runRound_fires_once h hdbg hfinite hacyclic hk
        (hall round List.mem_cons_self) hwork hempty
      have htail : ∀ r ∈ rounds, W.IsRound r := fun r hr => hall r (List.mem_cons_of_mem _ hr)
      obtain ⟨W₁, hrest, hdone⟩ := ih W' hwork' hempty' htail
      exact ⟨W₁, by rw [Run.run_cons, hstep, Option.bind_some, hrest], hdone⟩
  obtain ⟨W₁, hrun₁, hwork, hempty⟩ := hrun rounds W h.tokenWork h.tokens hrounds
  obtain ⟨W₂, hstep, -, hdone⟩ :=
    runRound_fires_once h hdbg hfinite hacyclic hk hround hwork hempty
  exact ⟨W₁, W₂, hrun₁, hstep, hdone⟩

theorem nandNot_hazardFree : (nandNot .nonhazardPropagateValue .default).HazardFree where
  bool := nandNot_boolNetwork _ _
  behavior := by
    intro g gate h
    rcases nandNot_gate h with ⟨rfl, rfl⟩ | ⟨rfl, rfl⟩ <;> rfl
  nodup := by
    intro w wire h
    rcases nandNot_wire h with ⟨rfl, rfl⟩ | ⟨rfl, rfl⟩ | ⟨rfl, rfl⟩ | ⟨rfl, rfl⟩ <;> decide
  inputs := by
    intro g gate h
    rcases nandNot_gate h with ⟨rfl, rfl⟩ | ⟨rfl, rfl⟩
    · exact ⟨by decide, fun h => by cases h⟩
    · exact ⟨by decide, fun h => by cases h⟩
  tokens := by
    intro p tp h
    match p, h with
    | 0, h | 1, h | 2, h | 3, h | 4, h =>
      obtain rfl := Option.some.inj h
      rfl

theorem hazard_free_rounds_nandNot :
    ∃ W₁ W₂, Run.run (runRound 3) (nandNot .nonhazardPropagateValue .default)
        [[(0, true), (1, true)]] = some W₁ ∧
      runRound 3 W₁ [(1, false), (0, true)] = some W₂ ∧ W₂.TokensEmpty ∧
      (nandNot .nonhazardPropagateValue .default).FiredOnce [(1, false), (0, true)] W₁ W₂ := by
  have hprimary : ∀ w, (nandNot .nonhazardPropagateValue .default).PrimaryWire w ↔ w < 2 := by
    intro w
    refine ⟨fun h => ?_, nandNot_primaryWire w⟩
    obtain ⟨wire, hw⟩ := Option.isSome_iff_exists.mp h.1
    rcases nandNot_wire hw with ⟨rfl, -⟩ | ⟨rfl, -⟩ | ⟨rfl, -⟩ | ⟨rfl, -⟩
    · decide
    · decide
    · exact absurd (List.mem_singleton_self (some 2)) (h.2 0 _ rfl)
    · exact absurd (List.mem_singleton_self (some 3)) (h.2 1 _ rfl)
  have hcard : {g | ((nandNot .nonhazardPropagateValue .default).gates g).isSome}.ncard < 3 := by
    have hsub : {g | ((nandNot .nonhazardPropagateValue .default).gates g).isSome} ⊆
        ({0, 1} : Set Nat) := by
      intro g hg
      obtain ⟨gate, h⟩ := Option.isSome_iff_exists.mp hg
      rcases nandNot_gate h with ⟨rfl, -⟩ | ⟨rfl, -⟩ <;> simp
    have := (Set.ncard_le_ncard hsub).trans (Set.ncard_insert_le 0 {1})
    rw [Set.ncard_singleton] at this
    exact Nat.lt_succ_of_le this
  have hround : ∀ b b', (nandNot .nonhazardPropagateValue .default).IsRound [(0, b), (1, b')] ∧
      (nandNot .nonhazardPropagateValue .default).IsRound [(1, b), (0, b')] := by
    intro b b'
    refine ⟨⟨by simp, fun w => ?_⟩, ⟨by simp, fun w => ?_⟩⟩
    · rw [hprimary]
      simp only [List.map_cons, List.map_nil, List.mem_cons, List.not_mem_nil, or_false]
      exact Nat.le_one_iff_eq_zero_or_eq_one.symm.trans Nat.lt_succ_iff.symm
    · rw [hprimary]
      simp only [List.map_cons, List.map_nil, List.mem_cons, List.not_mem_nil, or_false]
      rw [or_comm]
      exact Nat.le_one_iff_eq_zero_or_eq_one.symm.trans Nat.lt_succ_iff.symm
  refine hazard_free_rounds nandNot_hazardFree ?_ nandNot_finite nandNot_acyclic hcard
    [[(0, true), (1, true)]] ?_ [(1, false), (0, true)] (hround false true).2
  · intro g gate h
    rcases nandNot_gate h with ⟨rfl, rfl⟩ | ⟨rfl, rfl⟩ <;> exact fun h => by cases h
  · intro round hr
    obtain rfl := List.mem_singleton.mp hr
    exact (hround true true).1

/-! ## The gate that absorbs nothing -/

/-- A `dbg` gate from wire 0 to wire 1. -/
def dbgWire : World :=
  .ofLists [wiredBoolGate .dbg .default [0] 1]
    [boolWire .nonhazardPropagateValue [] [0], boolWire .nonhazardPropagateValue [1] []]
    [.zeroed 0 0 0, .zeroed 1 0 0]

/-- The token of the round is still there when the round is over. -/
theorem not_hazard_free_rounds :
    dbgWire.HazardFree ∧ {g | (dbgWire.gates g).isSome}.Finite ∧
    (∀ g, ¬ Relation.TransGen dbgWire.Feeds g g) ∧ dbgWire.IsRound [(0, true)] ∧
    ∃ W', runRound 5 dbgWire [(0, true)] = some W' ∧ ¬ W'.TokensEmpty := by
  have hgate : ∀ {g gate}, dbgWire.gates g = some gate →
      g = 0 ∧ gate = wiredBoolGate .dbg .default [0] 1 := by
    intro g gate h
    match g, h with
    | 0, h => exact ⟨rfl, (Option.some.inj h).symm⟩
  have hwire : ∀ {w wire}, dbgWire.wires w = some wire →
      (w = 0 ∧ wire = boolWire .nonhazardPropagateValue [] [0]) ∨
        (w = 1 ∧ wire = boolWire .nonhazardPropagateValue [1] []) := by
    intro w wire h
    match w, h with
    | 0, h => exact .inl ⟨rfl, (Option.some.inj h).symm⟩
    | 1, h => exact .inr ⟨rfl, (Option.some.inj h).symm⟩
  refine ⟨⟨⟨⟨?_, ?_, ?_, ?_, ?_, ?_⟩, ?_⟩, ?_, ?_, ?_, ?_⟩, ?_, ?_, ⟨by simp, ?_⟩, ?_⟩
  · intro g gate h
    obtain ⟨rfl, rfl⟩ := hgate h
    exact ⟨rfl, rfl⟩
  · intro w wire h
    rcases hwire h with ⟨rfl, rfl⟩ | ⟨rfl, rfl⟩ <;> rfl
  · intro w wire h
    rcases hwire h with ⟨rfl, rfl⟩ | ⟨rfl, rfl⟩
    · refine ⟨[0], ⟨1, rfl⟩, fun p hp => ?_⟩
      obtain rfl := List.mem_singleton.mp hp
      exact ⟨_, _, rfl, rfl, rfl, mem_wiredBoolGate.mpr (by decide)⟩
    · exact ⟨[], ⟨1, rfl⟩, fun p hp => absurd hp List.not_mem_nil⟩
  · intro g gate p h hp
    obtain ⟨rfl, rfl⟩ := hgate h
    obtain rfl := List.mem_singleton.mp (mem_wiredBoolGate.mp hp)
    exact ⟨_, _, rfl, rfl, rfl, List.mem_singleton_self 0⟩
  · intro g gate w h hw
    obtain ⟨rfl, rfl⟩ := hgate h
    obtain rfl := Option.some.inj (List.mem_singleton.mp hw)
    exact ⟨_, rfl⟩
  · intro g g' gate gate' w h h' _ _
    rw [(hgate h).1, (hgate h').1]
  · intro g gate h
    obtain ⟨rfl, rfl⟩ := hgate h
    exact ⟨rfl, ⟨_, rfl⟩, rfl, rfl⟩
  · intro g gate h
    obtain ⟨rfl, rfl⟩ := hgate h
    rfl
  · intro w wire h
    rcases hwire h with ⟨rfl, rfl⟩ | ⟨rfl, rfl⟩ <;> decide
  · intro g gate h
    obtain ⟨rfl, rfl⟩ := hgate h
    exact ⟨by decide, fun h => by cases h⟩
  · intro p tp h
    match p, h with
    | 0, h | 1, h =>
      obtain rfl := Option.some.inj h
      rfl
  · apply (Set.finite_singleton 0).subset
    intro g hg
    obtain ⟨gate, h⟩ := Option.isSome_iff_exists.mp hg
    exact (hgate h).1
  · intro g hcycle
    have hno : ∀ g g', ¬ dbgWire.Feeds g g' := by
      rintro g g' ⟨gate, gate', w, p, tp, hg, hg', hslot, hp, htp, rfl⟩
      obtain ⟨rfl, rfl⟩ := hgate hg
      obtain ⟨rfl, rfl⟩ := hgate hg'
      obtain rfl := List.mem_singleton.mp (mem_wiredBoolGate.mp hp)
      obtain rfl := Option.some.inj htp
      cases List.mem_singleton.mp hslot
    obtain ⟨g', hf, -⟩ := Relation.TransGen.head'_iff.mp hcycle
    exact hno g g' hf
  · intro w
    simp only [List.map_cons, List.map_nil, List.mem_singleton]
    constructor
    · rintro rfl
      refine ⟨rfl, fun g gate h hslot => ?_⟩
      obtain ⟨rfl, rfl⟩ := hgate h
      cases List.mem_singleton.mp hslot
    · intro h
      obtain ⟨wire, hw⟩ := Option.isSome_iff_exists.mp h.1
      rcases hwire hw with ⟨rfl, -⟩ | ⟨rfl, -⟩
      · rfl
      · exact absurd (List.mem_singleton_self (some 1)) (h.2 0 _ rfl)
  · refine ⟨_, rfl, fun hempty => ?_⟩
    cases hempty 0 _ rfl

end LogxControll
