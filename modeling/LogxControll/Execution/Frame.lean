/-
  Executing gates changes values, tokens and the loop breaker's queue, never the wiring.

  `callBehavior_keepsWiring` is the assumption that the wiring modules make of an execution
  behavior, for the execution behaviors and execute functions of the repository.
-/
import LogxControll.Core.Execution
import LogxControll.Wiring.Steps

namespace LogxControll

namespace SameWiring

variable {W W' : World}

/-- Another value on a wire. -/
theorem setWire {w : WireId} {wire wire' : Wire} (hw : W.wires w = some wire)
    (he : wire'.bare = wire.bare) : SameWiring W (W.setWire w wire') where
  gates := fun _ => rfl
  wires := by
    intro w'
    by_cases h : w' = w
    · subst h
      rw [show (W.setWire w' wire').wires w' = some wire' from Function.update_self .., hw,
        Option.map_some, Option.map_some, he]
    · exact congrArg _ (Function.update_of_ne h _ W.wires)
  tokenports := fun _ => rfl
  nextWire := rfl
  nextTokenport := rfl

/-- Another token in a port. -/
theorem setTokenport {p : TokenportId} {tp tp' : Tokenport} (hp : W.tokenports p = some tp)
    (he : tp'.bare = tp.bare) : SameWiring W (W.setTokenport p tp') where
  gates := fun _ => rfl
  wires := fun _ => rfl
  tokenports := by
    intro p'
    by_cases h : p' = p
    · subst h
      rw [show (W.setTokenport p' tp').tokenports p' = some tp' from Function.update_self .., hp,
        Option.map_some, Option.map_some, he]
    · exact congrArg _ (Function.update_of_ne h _ W.tokenports)
  nextWire := rfl
  nextTokenport := rfl

theorem note (W : World) (instance_ : Option GateId) (value : LxcValue) :
    SameWiring W (W.note instance_ value) := by
  cases instance_ with
  | none => exact refl W
  | some g => exact ⟨fun _ => rfl, fun _ => rfl, fun _ => rfl, rfl, rfl⟩

theorem setLoopBreaker (W : World) (q : Option (List QeTask)) :
    SameWiring W { W with loopBreaker := q } :=
  ⟨fun _ => rfl, fun _ => rfl, fun _ => rfl, rfl, rfl⟩

theorem setNextValue (W : World) (n : Nat) : SameWiring W { W with nextValue := n } :=
  ⟨fun _ => rfl, fun _ => rfl, fun _ => rfl, rfl, rfl⟩

end SameWiring

/-- A relation between worlds that every write of a value, a token or a task keeps. -/
structure ValueFrame (Rel : World → World → Prop) : Prop where
  refl : ∀ W, Rel W W
  trans : ∀ {W W' W''}, Rel W W' → Rel W' W'' → Rel W W''
  setWire : ∀ {W : World} {w wire} v, W.wires w = some wire →
    Rel W (W.setWire w { wire with currentValue := v })
  setTokenport : ∀ {W : World} {p tp} v, W.tokenports p = some tp →
    Rel W (W.setTokenport p { tp with currentValue := v })
  note : ∀ (W : World) (instance_ : Option GateId) (value : LxcValue),
    Rel W (W.note instance_ value)
  setLoopBreaker : ∀ (W : World) (q : Option (List QeTask)), Rel W { W with loopBreaker := q }
  setNextValue : ∀ (W : World) (n : Nat), Rel W { W with nextValue := n }

/-- Every call relates the worlds before and after it. -/
def Framed (Rel : World → World → Prop) (ex : ExecCall → World → Option World) : Prop :=
  ∀ c W W', ex c W = some W' → Rel W W'

theorem valueFrame_sameWiring : ValueFrame SameWiring where
  refl := .refl
  trans := .trans
  setWire := fun _ hw => .setWire hw rfl
  setTokenport := fun _ hp => .setTokenport hp rfl
  note := .note
  setLoopBreaker := .setLoopBreaker
  setNextValue := .setNextValue

section Frame

variable {Rel : World → World → Prop} {call : ExecCall → World → Option World} {W W' : World}
  (hF : ValueFrame Rel)
include hF

theorem lxcAbsorbToken_framed {p : TokenportId} (h : lxcAbsorbToken p W = some W') :
    Rel W W' := by
  simp only [lxcAbsorbToken, Option.bind_eq_bind, Option.bind_eq_some_iff] at h
  obtain ⟨tp, htp, wire, -, h⟩ := h
  split at h
  · obtain rfl := Option.some.inj h
    exact hF.refl W
  · obtain rfl := Option.some.inj h
    exact hF.setTokenport _ htp

theorem absorbTokens_framed : ∀ {ports : List TokenportId} {W W' : World},
    absorbTokens ports W = some W' → Rel W W'
  | [], W, W', h => by
      obtain rfl := Option.some.inj h
      exact hF.refl W
  | p :: ports, W, W', h => by
      simp only [absorbTokens, Option.bind_eq_bind, Option.bind_eq_some_iff] at h
      obtain ⟨W₁, h₁, h⟩ := h
      exact hF.trans (lxcAbsorbToken_framed hF h₁) (absorbTokens_framed h)

omit hF in
theorem lxcWireReleaseToken_eq {tp : Option TokenportId} (h : lxcWireReleaseToken tp W = some W') :
    W' = W := by
  cases tp with
  | none => exact (Option.some.inj h).symm
  | some p =>
    simp only [lxcWireReleaseToken, Option.bind_eq_bind, Option.bind_eq_some_iff] at h
    obtain ⟨tp, -, wire, -, h⟩ := h
    exact (Option.some.inj h).symm

theorem importToken_framed {v : LxcValue} {p : TokenportId}
    (h : importToken v p W = some W') : Rel W W' := by
  simp only [importToken, Option.bind_eq_bind, Option.bind_eq_some_iff] at h
  obtain ⟨tp, htp, h⟩ := h
  obtain rfl := Option.some.inj h
  exact hF.setTokenport _ htp

theorem notifyGate_framed {signal : Signal} {subtype : Int} {v : LxcValue} {p : TokenportId}
    (hcall : Framed Rel call) (h : notifyGate call signal subtype v p W = some W') :
    Rel W W' := by
  simp only [notifyGate, Option.bind_eq_bind, Option.bind_eq_some_iff] at h
  obtain ⟨tp, -, gate, -, h⟩ := h
  split at h
  · exact hcall _ _ _ h
  · obtain rfl := Option.some.inj h
    exact hF.refl W

theorem notifyPorts_framed {deliver : TokenportId → World → Option World} {signal : Signal}
    {subtype : Int} {v : LxcValue} (hcall : Framed Rel call)
    (hdeliver : ∀ p W W', deliver p W = some W' → Rel W W') :
    ∀ {ports : NtArray TokenportId} {W W' : World},
      notifyPorts call deliver signal subtype v ports W = some W' → Rel W W'
  | [], W, W', h => by
      obtain rfl := Option.some.inj h
      exact hF.refl W
  | none :: _, W, W', h => by
      obtain rfl := Option.some.inj h
      exact hF.refl W
  | some p :: ports, W, W', h => by
      simp only [notifyPorts, Option.bind_eq_bind, Option.bind_eq_some_iff] at h
      obtain ⟨W₁, h₁, W₂, h₂, h⟩ := h
      exact hF.trans (hF.trans (hdeliver p W W₁ h₁) (notifyGate_framed hF hcall h₂))
        (notifyPorts_framed hcall hdeliver h)

theorem writeNewValue_framed {w : WireId} {v : LxcValue} (hcall : Framed Rel call)
    (h : writeNewValue call w v W = some W') : Rel W W' := by
  simp only [writeNewValue, Option.bind_eq_bind, Option.bind_eq_some_iff] at h
  obtain ⟨wire, hw, h⟩ := h
  split at h
  · simp only [wireDirectPropagateWireNewValue, hw, Option.bind_eq_bind, Option.bind_some] at h
    have hkeep : ∀ (p : TokenportId) (W W' : World), some W = some W' → Rel W W' := by
      intro p W W' h
      obtain rfl := Option.some.inj h
      exact hF.refl W
    have hset : Rel W (W.setWire w { wire with currentValue := some v }) := hF.setWire _ hw
    exact hF.trans hset (notifyPorts_framed hF hcall hkeep h)
  · simp only [wireNonhazardPropagateWireNewValue, hw, Option.bind_eq_bind, Option.bind_some] at h
    exact notifyPorts_framed hF hcall (fun p W W' => importToken_framed hF) h

theorem lxcDriveWireValue_framed {instance_ : Option GateId} {w : Option WireId}
    {v : Option LxcValue} (hcall : Framed Rel call)
    (h : lxcDriveWireValue call instance_ w v W = some W') : Rel W W' := by
  unfold lxcDriveWireValue at h
  split at h
  · exact hF.trans (hF.note W instance_ _) (writeNewValue_framed hF hcall h)
  · obtain rfl := Option.some.inj h
    exact hF.refl W

theorem isAllInputValidAndCopy_framed {inputs : List (Option TokenportId)}
    {values : Option (List Bool)} (h : isAllInputValidAndCopy inputs W = some (values, W')) :
    Rel W W' := by
  simp only [isAllInputValidAndCopy, Option.bind_eq_bind, Option.bind_eq_some_iff] at h
  obtain ⟨available, -, h⟩ := h
  split at h
  · rw [Option.bind_eq_some_iff] at h
    obtain ⟨copied, -, h⟩ := h
    cases copied with
    | none =>
      simp only [pure, Option.some.injEq, Prod.mk.injEq] at h
      exact h.2 ▸ hF.refl W
    | some values =>
      simp only [Option.bind_eq_some_iff] at h
      obtain ⟨W₁, h₁, h⟩ := h
      simp only [pure, Option.some.injEq, Prod.mk.injEq] at h
      exact h.2 ▸ absorbTokens_framed hF h₁
  · simp only [pure, Option.some.injEq, Prod.mk.injEq] at h
    exact h.2 ▸ hF.refl W

theorem LogicFunction.call_framed {f : LogicFunction} {inputs : List (Option TokenportId)}
    {re : Option Bool} (h : f.call inputs W = some (re, W')) : Rel W W' := by
  unfold LogicFunction.call at h
  split at h
  · simp only [Option.bind_eq_bind, Option.bind_eq_some_iff] at h
    obtain ⟨-, -, h⟩ := h
    simp only [pure, Option.some.injEq, Prod.mk.injEq] at h
    exact h.2 ▸ hF.refl W
  · simp only [Option.bind_eq_bind, Option.bind_eq_some_iff] at h
    obtain ⟨⟨values, W₁⟩, h₁, h⟩ := h
    simp only [pure, Option.some.injEq, Prod.mk.injEq] at h
    exact h.2 ▸ isAllInputValidAndCopy_framed hF h₁

theorem logxBoolExecute_framed {f : LogicFunction} {g : GateId} (hcall : Framed Rel call)
    (h : logxBoolExecute call f g W = some W') : Rel W W' := by
  simp only [logxBoolExecute, Option.bind_eq_bind, Option.bind_eq_some_iff] at h
  obtain ⟨gate, -, out, -, ⟨re, W₁⟩, h₁, h⟩ := h
  have hf := LogicFunction.call_framed hF h₁
  cases re with
  | none =>
    obtain rfl := Option.some.inj h
    exact hf
  | some b => exact hF.trans hf (lxcDriveWireValue_framed hF hcall h)

theorem absorbIf_framed {v : Option LxcValue} {p : Option TokenportId}
    (h : absorbIf v p W = some W') : Rel W W' := by
  unfold absorbIf at h
  split at h
  · exact lxcAbsorbToken_framed hF h
  · cases h
  · obtain rfl := Option.some.inj h
    exact hF.refl W

theorem sorterExec_framed {g : GateId} {up left : Option TokenportId}
    {outputs : Gate → Option (Option WireId × Option WireId)} (hcall : Framed Rel call)
    (h : sorterExec call g up left outputs W = some W') : Rel W W' := by
  unfold sorterExec at h
  rw [Option.bind_eq_bind, Option.bind_eq_some_iff] at h
  obtain ⟨upAvailable, -, h⟩ := h
  rw [Option.bind_eq_bind, Option.bind_eq_some_iff] at h
  obtain ⟨leftAvailable, -, h⟩ := h
  split at h
  · obtain rfl := Option.some.inj h
    exact hF.refl W
  rw [Option.bind_eq_bind, Option.bind_eq_some_iff] at h
  obtain ⟨a, -, h⟩ := h
  rw [Option.bind_eq_bind, Option.bind_eq_some_iff] at h
  obtain ⟨b, -, h⟩ := h
  split at h
  · rw [Option.bind_eq_some_iff] at h
    obtain ⟨W₁, h₁, h⟩ := h
    rw [lxcWireReleaseToken_eq h, lxcWireReleaseToken_eq h₁]
    exact hF.refl W
  · simp only [Option.bind_eq_bind, Option.bind_eq_some_iff] at h
    obtain ⟨W₁, h₁, W₂, h₂, ⟨goDown, goRight⟩, -, gate, -, ⟨down, right⟩, -, W₃, h₃, W₄, h₄, W₅,
      h₅, h⟩ := h
    rw [lxcWireReleaseToken_eq h, lxcWireReleaseToken_eq h₅]
    exact hF.trans (hF.trans (hF.trans (absorbIf_framed hF h₁) (absorbIf_framed hF h₂))
      (lxcDriveWireValue_framed hF hcall h₃)) (lxcDriveWireValue_framed hF hcall h₄)

theorem driveOutput_framed {g : GateId} {o : Option WireId} {v : LxcValue}
    {acts : List FunctionalAction} (hcall : Framed Rel call)
    (h : driveOutput call g o v W = some (acts, W')) : Rel W W' := by
  cases o with
  | none =>
    simp only [driveOutput, Option.some.injEq, Prod.mk.injEq] at h
    exact h.2 ▸ hF.refl W
  | some w =>
    simp only [driveOutput, Option.bind_eq_bind, Option.bind_eq_some_iff] at h
    obtain ⟨wire, -, h⟩ := h
    split at h
    · rw [Option.bind_eq_some_iff] at h
      obtain ⟨W₁, h₁, h⟩ := h
      simp only [pure, Option.some.injEq, Prod.mk.injEq] at h
      exact h.2 ▸ lxcDriveWireValue_framed hF hcall h₁
    · simp only [pure, Option.some.injEq, Prod.mk.injEq] at h
      exact h.2 ▸ hF.refl W

theorem writeOut_framed {g : GateId} {out : List (Option LxcValue)}
    (hcall : Framed Rel call) :
    ∀ {n i : Nat} {W W' : World} {acts : List FunctionalAction},
      writeOut call g out n i W = some (acts, W') → Rel W W'
  | 0, i, W, W', acts, h => by
      simp only [writeOut, Option.some.injEq, Prod.mk.injEq] at h
      exact h.2 ▸ hF.refl W
  | n + 1, i, W, W', acts, h => by
      simp only [writeOut, Option.bind_eq_bind, Option.bind_eq_some_iff] at h
      obtain ⟨gate, -, o, -, h⟩ := h
      split at h
      · exact writeOut_framed hcall h
      · simp only [Option.bind_eq_some_iff] at h
        obtain ⟨⟨a, W₁⟩, h₁, ⟨b, W₂⟩, h₂, h⟩ := h
        simp only [pure, Option.some.injEq, Prod.mk.injEq] at h
        exact h.2 ▸ hF.trans (driveOutput_framed hF hcall h₁) (writeOut_framed hcall h₂)

theorem functionalGateExecute_framed
    {function : List DataAddress → Nat → List (Option LxcValue) × Nat} {g : GateId}
    {acts : List FunctionalAction} (hcall : Framed Rel call)
    (h : functionalGateExecute call function g W = some (acts, W')) : Rel W W' := by
  simp only [functionalGateExecute, Option.bind_eq_bind, Option.bind_eq_some_iff] at h
  obtain ⟨gate, -, h⟩ := h
  split at h
  · cases h
  rw [Option.bind_eq_some_iff] at h
  obtain ⟨⟨ports, complete⟩, -, h⟩ := h
  split at h
  · simp only [Option.bind_eq_some_iff] at h
    obtain ⟨W₁, h₁, ⟨more, W₂⟩, h₂, h⟩ := h
    simp only [pure, Option.some.injEq, Prod.mk.injEq] at h
    exact h.2 ▸ hF.trans (hF.trans (absorbTokens_framed hF h₁) (hF.setNextValue W₁ _))
      (writeOut_framed hF hcall h₂)
  · simp only [pure, Option.some.injEq, Prod.mk.injEq] at h
    exact h.2 ▸ hF.refl W

theorem Execute.run_framed {g : GateId} {e : Execute} (hcall : Framed Rel call)
    (h : e.run call g W = some W') : Rel W W' := by
  cases e with
  | bool f => exact logxBoolExecute_framed hF hcall h
  | portiSorter =>
    simp only [Execute.run, portiSorterExec, Option.bind_eq_bind, Option.bind_eq_some_iff] at h
    obtain ⟨gate, -, ports, -, h⟩ := h
    exact sorterExec_framed hF hcall h
  | portbSorter =>
    simp only [Execute.run, portbSorterExec, Option.bind_eq_bind, Option.bind_eq_some_iff] at h
    obtain ⟨gate, -, ports, -, h⟩ := h
    exact sorterExec_framed hF hcall h
  | specSorter =>
    simp only [Execute.run, specSorterExec, Option.bind_eq_bind, Option.bind_eq_some_iff] at h
    obtain ⟨gate, -, ports, -, h⟩ := h
    exact sorterExec_framed hF hcall h
  | functional function =>
    obtain ⟨⟨acts, W₁⟩, h₁, rfl⟩ := Option.map_eq_some_iff.mp h
    exact functionalGateExecute_framed hF hcall h₁
  | other =>
    obtain rfl := Option.some.inj h
    exact hF.refl W

theorem drain_framed (hcall : Framed Rel call) :
    ∀ {n : Nat} {t : QeTask} {W W' : World}, drain call n t W = some W' → Rel W W'
  | 0, _, _, _, h => by cases h
  | n + 1, t, W, W', h => by
      simp only [drain, lxcDoExecute, Option.bind_eq_bind, Option.bind_eq_some_iff] at h
      obtain ⟨W₁, ⟨gate, -, h₁⟩, h⟩ := h
      have hstep : Rel W W₁ := by
        split at h₁
        · exact Execute.run_framed hF hcall h₁
        · obtain rfl := Option.some.inj h₁
          exact hF.refl W
      split at h
      · cases h
      · obtain rfl := Option.some.inj h
        exact hF.trans hstep (hF.setLoopBreaker W₁ _)
      · exact hF.trans (hF.trans hstep (hF.setLoopBreaker W₁ _)) (drain_framed hcall h)

end Frame

/-- What the writes keep, the execution of every gate of the repository keeps. -/
theorem callBehavior_framed {Rel : World → World → Prop} (hF : ValueFrame Rel) :
    ∀ n, Framed Rel (callBehavior n)
  | 0 => by
      intro c W W' h
      cases h
  | n + 1 => by
      intro c W W' h
      have hn := callBehavior_framed hF n
      simp only [callBehavior, Option.bind_eq_bind, Option.bind_eq_some_iff] at h
      obtain ⟨gate, -, h⟩ := h
      split at h
      · cases h
      · simp only [lxcExecutionDefaultBehavior, Option.bind_eq_bind, Option.bind_eq_some_iff] at h
        obtain ⟨gate', -, h⟩ := h
        exact Execute.run_framed hF hn h
      · unfold lxcExecutionLoopbreaker at h
        split at h
        · exact hF.trans (hF.setLoopBreaker W _) (drain_framed hF hn h)
        · obtain rfl := Option.some.inj h
          exact hF.setLoopBreaker W _

/-- No gate of the repository rewires when it is executed. -/
theorem callBehavior_keepsWiring (n : Nat) : KeepsWiring (callBehavior n) :=
  callBehavior_framed valueFrame_sameWiring n

section SameWiring

variable {call : ExecCall → World → Option World} {W W' : World}

theorem notifyGate_sameWiring {signal : Signal} {subtype : Int} {v : LxcValue} {p : TokenportId}
    (hcall : KeepsWiring call) (h : notifyGate call signal subtype v p W = some W') :
    SameWiring W W' :=
  notifyGate_framed valueFrame_sameWiring hcall h

theorem lxcDriveWireValue_sameWiring {instance_ : Option GateId} {w : Option WireId}
    {v : Option LxcValue} (hcall : KeepsWiring call)
    (h : lxcDriveWireValue call instance_ w v W = some W') : SameWiring W W' :=
  lxcDriveWireValue_framed valueFrame_sameWiring hcall h

theorem driveOutput_sameWiring {g : GateId} {o : Option WireId} {v : LxcValue}
    {acts : List FunctionalAction} (hcall : KeepsWiring call)
    (h : driveOutput call g o v W = some (acts, W')) : SameWiring W W' :=
  driveOutput_framed valueFrame_sameWiring hcall h

end SameWiring

end LogxControll
