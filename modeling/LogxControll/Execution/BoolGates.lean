/-
  The bool gates of `lxc_bool_gates.c`: when a logic function has a result, and what the reading
  of the inputs comes to, on wires of any kind.

  `LogicFunction.call_eq` says what calling a logic function does for the tokens `tok` in the
  wired ports: it has no result and changes nothing while one of them is missing, and otherwise
  absorbs them all.
-/
import LogxControll.Core.Execution
import Mathlib.Data.List.Forall2

namespace LogxControll

/-! ## Results of the logic functions -/

/-- One of the two registered bool constants. -/
def IsBoolConstant (v : LxcValue) : Prop := ∃ b, v = lxcBoolConstant b

/-- The bools on the wired inputs, if none is missing. -/
def present : List (Option LxcValue) → Option (List Bool)
  | [] => some []
  | none :: _ => none
  | some v :: l => (present l).map (v.data.asBool.getD false :: ·)

/-- The result of a logic function for the values on its wired inputs. -/
def LogicFunction.result (f : LogicFunction) (l : List (Option LxcValue)) : Option Bool :=
  match f with
  | .dbg => some false
  | f => (present l).bind f.eval

@[simp] theorem asBool_lxcBoolConstant (b : Bool) : (lxcBoolConstant b).data.asBool = some b := by
  cases b <;> rfl

theorem lxcBoolConstant_injective {b b' : Bool} (h : lxcBoolConstant b = lxcBoolConstant b') :
    b = b' := by
  have := congrArg (fun v => v.data.asBool) h
  simpa using this

theorem present_map (values : List Bool) :
    present (values.map fun b => some (lxcBoolConstant b)) = some values := by
  induction values with
  | nil => rfl
  | cons b values ih => simp [present, ih]

theorem present_isSome {l : List (Option LxcValue)} :
    (present l).isSome ↔ ∀ v ∈ l, v.isSome := by
  induction l with
  | nil => simp [present]
  | cons v l ih =>
    cases v with
    | none => simp [present]
    | some v => simp [present, ih]

theorem present_mono {l l' : List (Option LxcValue)}
    (h : List.Forall₂ (fun a b : Option LxcValue => a.isSome → b.isSome) l l')
    (hl : (present l).isSome) : (present l').isSome := by
  rw [present_isSome] at hl ⊢
  induction h with
  | nil => simp
  | cons hab _ ih =>
    intro v hv
    rcases List.mem_cons.mp hv with rfl | hv
    · exact hab (hl _ List.mem_cons_self)
    · exact ih (fun v hv => hl v (List.mem_cons_of_mem _ hv)) v hv

theorem length_present {l : List (Option LxcValue)} {values : List Bool}
    (h : present l = some values) : values.length = l.length := by
  induction l generalizing values with
  | nil =>
    obtain rfl := Option.some.inj h
    rfl
  | cons v l ih =>
    cases v with
    | none => cases h
    | some v =>
      obtain ⟨rest, hrest, rfl⟩ := Option.map_eq_some_iff.mp h
      rw [List.length_cons, List.length_cons, ih hrest]

/-- Whether there is a result depends on the number of the values only. -/
theorem LogicFunction.eval_isSome (f : LogicFunction) {values values' : List Bool}
    (h : values.length = values'.length) : (f.eval values).isSome = (f.eval values').isSome := by
  have hnil : values = [] ↔ values' = [] := by
    rw [← List.length_eq_zero_iff, ← List.length_eq_zero_iff, h]
  unfold LogicFunction.eval
  cases f with
  | dbg => rfl
  | not =>
    cases values with
    | nil => rw [hnil.mp rfl]
    | cons b values =>
      cases values' with
      | nil => cases h
      | cons b' values' => rfl
  | xor => simp only [h]; split <;> rfl
  | nand | nor | and | or => simp only [hnil]; split <;> rfl

theorem LogicFunction.result_eq {f : LogicFunction} (hf : f ≠ .dbg) (l : List (Option LxcValue)) :
    f.result l = (present l).bind f.eval := by
  cases f with
  | dbg => exact absurd rfl hf
  | nand | nor | and | or | not | xor => rfl

theorem LogicFunction.result_mono (f : LogicFunction) {l l' : List (Option LxcValue)}
    (h : List.Forall₂ (fun a b : Option LxcValue => a.isSome → b.isSome) l l')
    (hr : (f.result l).isSome) : (f.result l').isSome := by
  have hgeneral : ((present l).bind f.eval).isSome → ((present l').bind f.eval).isSome := by
    intro hr
    obtain ⟨b, hb⟩ := Option.isSome_iff_exists.mp hr
    obtain ⟨values, hvalues, hb⟩ := Option.bind_eq_some_iff.mp hb
    have hpresent : (present l).isSome := by rw [hvalues]; rfl
    obtain ⟨values', hvalues'⟩ := Option.isSome_iff_exists.mp (present_mono h hpresent)
    have hlen : values.length = values'.length := by
      rw [length_present hvalues, length_present hvalues', h.length_eq]
    rw [hvalues', Option.bind_some, ← f.eval_isSome hlen, hb]
    rfl
  cases f <;> first | exact hgeneral hr | rfl

/-! ## Reading the wired inputs -/

section Reading

variable {W : World} {tok : TokenportId → Option LxcValue} {slots : List (Option TokenportId)}

/-- The tokens in the wired ports are those of `tok`, all of them bool constants. -/
structure Reads (W : World) (tok : TokenportId → Option LxcValue)
    (slots : List (Option TokenportId)) : Prop where
  token : ∀ p, some p ∈ slots → lxcGetTokenValue W p = some (tok p)
  constant : ∀ p v, some p ∈ slots → tok p = some v → IsBoolConstant v

/-- The same for bool values of any origin. -/
structure ReadsBools (W : World) (tok : TokenportId → Option LxcValue)
    (slots : List (Option TokenportId)) : Prop where
  token : ∀ p, some p ∈ slots → lxcGetTokenValue W p = some (tok p)
  bool : ∀ p v, some p ∈ slots → tok p = some v → v.data.asBool.isSome

theorem Reads.bools (h : Reads W tok slots) : ReadsBools W tok slots where
  token := h.token
  bool := by
    intro p v hp hv
    obtain ⟨b, rfl⟩ := h.constant p v hp hv
    rw [asBool_lxcBoolConstant]
    rfl

theorem ReadsBools.tail {s : Option TokenportId} (h : ReadsBools W tok (s :: slots)) :
    ReadsBools W tok slots where
  token := fun p hp => h.token p (List.mem_cons_of_mem _ hp)
  bool := fun p v hp => h.bool p v (List.mem_cons_of_mem _ hp)

/-- The tokens in the wired ports, in the order of the slots. -/
def slotTokens (tok : TokenportId → Option LxcValue) (slots : List (Option TokenportId)) :
    List (Option LxcValue) :=
  (slots.filterMap id).map tok

theorem allAvailable_eq (h : ReadsBools W tok slots) :
    ∃ b, allAvailable W slots = some b ∧ (b = false → present (slotTokens tok slots) = none) := by
  induction slots with
  | nil => exact ⟨true, rfl, by simp⟩
  | cons s slots ih =>
    obtain ⟨b, hb, hnone⟩ := ih h.tail
    cases s with
    | none => exact ⟨b, hb, hnone⟩
    | some p =>
      have htoken := h.token p List.mem_cons_self
      have hslots : slotTokens tok (some p :: slots) = tok p :: slotTokens tok slots := rfl
      simp only [allAvailable, lxcWireTokenAvailable, htoken, Option.map_some, Option.bind_eq_bind,
        Option.bind_some, hslots]
      cases tok p with
      | none => exact ⟨false, rfl, fun _ => rfl⟩
      | some v =>
        refine ⟨b, hb, fun hf => ?_⟩
        rw [present, hnone hf, Option.map_none]

theorem copyValues_eq (h : ReadsBools W tok slots) :
    ∃ r, copyValues W slots = some r ∧
      r.map (List.map Prod.snd) = present (slotTokens tok slots) ∧
      ∀ l, r = some l → l.map Prod.fst = slots.filterMap id := by
  induction slots with
  | nil =>
    refine ⟨some [], rfl, rfl, fun l hl => ?_⟩
    obtain rfl := Option.some.inj hl
    rfl
  | cons s slots ih =>
    obtain ⟨r, hr, hpresent, hports⟩ := ih h.tail
    cases s with
    | none => exact ⟨r, hr, hpresent, hports⟩
    | some p =>
      have htoken := h.token p List.mem_cons_self
      have hslots : slotTokens tok (some p :: slots) = tok p :: slotTokens tok slots := rfl
      simp only [copyValues, htoken, Option.bind_eq_bind, Option.bind_some, hslots]
      cases hv : tok p with
      | none => exact ⟨none, rfl, rfl, by simp⟩
      | some v =>
        obtain ⟨b, hb⟩ := Option.isSome_iff_exists.mp (h.bool p v List.mem_cons_self hv)
        refine ⟨r.map ((p, b) :: ·), ?_, ?_, ?_⟩
        · simp [hr, hb]
        · rw [present, ← hpresent, Option.map_map, Option.map_map, hb]
          rfl
        · intro l hl
          obtain ⟨rest, hrest, rfl⟩ := Option.map_eq_some_iff.mp hl
          rw [List.map_cons, hports rest hrest]
          rfl

/-- What a logic function other than `dbg` does first. -/
theorem isAllInputValidAndCopy_eq (h : ReadsBools W tok slots) :
    isAllInputValidAndCopy slots W = match present (slotTokens tok slots) with
      | none => some (none, W)
      | some values => (absorbTokens (slots.filterMap id) W).map fun W => (some values, W) := by
  have htail : ReadsBools W tok slots.tail :=
    ⟨fun p hp => h.token p (List.mem_of_mem_tail hp),
      fun p v hp => h.bool p v (List.mem_of_mem_tail hp)⟩
  obtain ⟨b, hb, hnone⟩ := allAvailable_eq htail
  obtain ⟨r, hr, hpresent, hports⟩ := copyValues_eq h
  simp only [isAllInputValidAndCopy, hb, Option.bind_eq_bind, Option.bind_some]
  cases b with
  | false =>
    -- the first loop passes over slot 0, the second one would stop at the same input
    have hall : present (slotTokens tok slots) = none := by
      cases slots with
      | nil => exact hnone rfl
      | cons s slots =>
        cases s with
        | none => exact hnone rfl
        | some p =>
          have hslots : slotTokens tok (some p :: slots) = tok p :: slotTokens tok slots := rfl
          have hrest : present (slotTokens tok slots) = none := hnone rfl
          rw [hslots]
          cases tok p with
          | none => rfl
          | some v => rw [present, hrest, Option.map_none]
    rw [hall]
    rfl
  | true =>
    simp only [if_true, hr, Option.bind_some]
    cases r with
    | none =>
      rw [Option.map_none] at hpresent
      rw [← hpresent]
      rfl
    | some l =>
      rw [Option.map_some] at hpresent
      rw [← hpresent]
      simp only [hports l rfl]
      cases absorbTokens (slots.filterMap id) W <;> rfl

theorem readTokens_eq (h : ReadsBools W tok slots) : readTokens W slots = some () := by
  induction slots with
  | nil => rfl
  | cons s slots ih =>
    cases s with
    | none => exact ih h.tail
    | some p =>
      simp only [readTokens, h.token p List.mem_cons_self, Option.bind_eq_bind, Option.bind_some]
      exact ih h.tail

theorem LogicFunction.call_dbg (h : ReadsBools W tok slots) :
    LogicFunction.dbg.call slots W = some (some false, W) := by
  simp only [LogicFunction.call, readTokens_eq h, Option.bind_eq_bind, Option.bind_some]
  rfl

theorem LogicFunction.call_eq {f : LogicFunction} (hf : f ≠ .dbg) (h : ReadsBools W tok slots) :
    f.call slots W = match present (slotTokens tok slots) with
      | none => some (none, W)
      | some values => (absorbTokens (slots.filterMap id) W).map fun W => (f.eval values, W) := by
  have hcall : f.call slots W = (isAllInputValidAndCopy slots W).bind fun r =>
      some (r.1.bind f.eval, r.2) := by
    cases f with
    | dbg => exact absurd rfl hf
    | nand | nor | and | or | not | xor => rfl
  rw [hcall, isAllInputValidAndCopy_eq h]
  cases present (slotTokens tok slots) with
  | none => rfl
  | some values => cases absorbTokens (slots.filterMap id) W <;> rfl

end Reading

/-! ## Direct wires -/

/-- All wires propagate directly. -/
def World.Direct (W : World) : Prop :=
  ∀ w wire, W.wires w = some wire → wire.handler = .directPropagateValue

section Direct

variable {W : World}

/-- The inputs that were read are the first ones, and the reading stops at one without value. -/
theorem readInputs_cases : ∀ {slots : List (Option TokenportId)}
    {ports : List (TokenportId × LxcValue)} {complete : Bool},
    readInputs W slots = some (ports, complete) →
    slots.take ports.length = ports.map (some ∘ Prod.fst) ∧
      (∀ pv ∈ ports, lxcGetTokenValue W pv.1 = some (some pv.2)) ∧
      (complete = true → ports.length = slots.length) ∧
      (complete = false → ∃ s, slots[ports.length]? = some s ∧
        ∀ p, s = some p → lxcGetTokenValue W p = some none)
  | [], ports, complete, h => by
      simp only [readInputs, Option.some.injEq, Prod.mk.injEq] at h
      obtain ⟨rfl, rfl⟩ := h
      simp
  | none :: slots, ports, complete, h => by
      simp only [readInputs, Option.some.injEq, Prod.mk.injEq] at h
      obtain ⟨rfl, rfl⟩ := h
      simp
  | some p :: slots, ports, complete, h => by
      simp only [readInputs, Option.bind_eq_bind, Option.bind_eq_some_iff] at h
      obtain ⟨r, hr, h⟩ := h
      cases r with
      | none =>
        simp only [pure, Option.some.injEq, Prod.mk.injEq] at h
        obtain ⟨rfl, rfl⟩ := h
        refine ⟨rfl, by simp, by simp, fun _ => ⟨some p, rfl, ?_⟩⟩
        intro p' hp'
        rwa [← Option.some.inj hp']
      | some v =>
        simp only [Option.bind_eq_some_iff] at h
        obtain ⟨⟨rest, c⟩, hrest, h⟩ := h
        simp only [pure, Option.some.injEq, Prod.mk.injEq] at h
        obtain ⟨rfl, rfl⟩ := h
        obtain ⟨htake, hvals, hfull, hstop⟩ := readInputs_cases hrest
        refine ⟨by simpa using htake, ?_, by simpa using hfull, by simpa using hstop⟩
        intro pv hpv
        rcases List.mem_cons.mp hpv with rfl | hpv
        · exact hr
        · exact hvals pv hpv

theorem readInputs_returns : ∀ {slots : List (Option TokenportId)},
    (∀ p, some p ∈ slots → ∃ r, lxcGetTokenValue W p = some r) →
    ∃ r, readInputs W slots = some r
  | [], _ => ⟨_, rfl⟩
  | none :: _, _ => ⟨_, rfl⟩
  | some p :: slots, h => by
      obtain ⟨r, hr⟩ := h p List.mem_cons_self
      obtain ⟨rest, hrest⟩ := readInputs_returns fun p' hp' => h p' (List.mem_cons_of_mem _ hp')
      cases r with
      | none => exact ⟨_, by simp only [readInputs, hr, Option.bind_eq_bind, Option.bind_some]; rfl⟩
      | some v =>
        refine ⟨((p, v) :: rest.1, rest.2), ?_⟩
        simp only [readInputs, hr, hrest, Option.bind_eq_bind, Option.bind_some]
        rfl

theorem World.Direct.absorbTokens_returns (h : W.Direct) : ∀ {ports : List TokenportId},
    (∀ p ∈ ports, ∃ r, lxcGetTokenValue W p = some r) → absorbTokens ports W = some W
  | [], _ => rfl
  | p :: ports, hall => by
      obtain ⟨r, hr⟩ := hall p List.mem_cons_self
      simp only [lxcGetTokenValue, Option.bind_eq_bind, Option.bind_eq_some_iff] at hr
      obtain ⟨tp, htp, wire, hw, -⟩ := hr
      simp only [absorbTokens, lxcAbsorbToken, htp, hw, h tp.owner wire hw, Option.bind_eq_bind,
        Option.bind_some]
      exact h.absorbTokens_returns fun p' hp' => hall p' (List.mem_cons_of_mem _ hp')

/-- On direct wires calling a logic function only reads. -/
theorem LogicFunction.call_direct (h : W.Direct) {tok : TokenportId → Option LxcValue}
    {slots : List (Option TokenportId)} (hreads : Reads W tok slots) (f : LogicFunction) :
    f.call slots W = some (f.result (slotTokens tok slots), W) := by
  by_cases hf : f = .dbg
  · rw [hf, LogicFunction.call_dbg hreads.bools]
    rfl
  · have habsorb : absorbTokens (slots.filterMap id) W = some W := by
      apply h.absorbTokens_returns
      intro p hp
      obtain ⟨s, hs, he⟩ := List.mem_filterMap.mp hp
      exact ⟨_, hreads.token p (he ▸ hs)⟩
    rw [LogicFunction.call_eq hf hreads.bools, LogicFunction.result_eq hf, habsorb]
    cases present (slotTokens tok slots) <;> rfl

end Direct

/-! ## Driving from outside -/

/-- An outermost call, with fuel for the calls below it. -/
structure BoolDrive where
  fuel : Nat
  wire : WireId
  value : Bool

/-- The memory after the call, if it returns within the fuel. -/
def BoolDrive.step (W : World) (op : BoolDrive) : Option World :=
  lxcDriveWireValue (callBehavior op.fuel) none (some op.wire) (some (lxcBoolConstant op.value)) W

end LogxControll
