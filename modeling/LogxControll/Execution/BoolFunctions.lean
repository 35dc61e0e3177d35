/-
  What the bool gates with several inputs compute, next to what their names say.

  `bool and` has the text of `bool nor` (`computes_name_iff`), and `bool xor` compares neighbours
  where the parity of the inputs is meant (`xor_parity_iff`).
-/
import LogxControll.Execution.Thread
import Mathlib.Algebra.Ring.Parity
import Mathlib.Data.Bool.Count

namespace LogxControll

/-! ## What a gate drives -/

section Drives

variable {W : World} {tok : TokenportId → Option LxcValue} {g : GateId} {gate : Gate}
  {out : Option WireId}

theorem lxcAbsorbToken_returns {p : TokenportId} {r : Option LxcValue}
    (hp : lxcGetTokenValue W p = some r) :
    ∃ W', lxcAbsorbToken p W = some W' ∧
      ∀ q, (lxcGetTokenValue W q).isSome → (lxcGetTokenValue W' q).isSome := by
  simp only [lxcGetTokenValue, Option.bind_eq_bind, Option.bind_eq_some_iff] at hp
  obtain ⟨tp, htp, wire, hw, -⟩ := hp
  simp only [lxcAbsorbToken, htp, hw, Option.bind_eq_bind, Option.bind_some]
  split
  · exact ⟨W, rfl, fun q hq => hq⟩
  · refine ⟨_, rfl, fun q hq => ?_⟩
    by_cases hqp : q = p
    · subst hqp
      simp only [lxcGetTokenValue, World.setTokenport, Function.update_self, hw,
        Option.bind_eq_bind, Option.bind_some]
      cases wire.handler <;> rfl
    · simpa only [lxcGetTokenValue, World.setTokenport, Function.update_of_ne hqp] using hq

theorem absorbTokens_returns : ∀ {ports : List TokenportId} {W : World},
    (∀ p ∈ ports, (lxcGetTokenValue W p).isSome) → ∃ W', absorbTokens ports W = some W'
  | [], W, _ => ⟨W, rfl⟩
  | p :: ports, W, h => by
      obtain ⟨r, hr⟩ := Option.isSome_iff_exists.mp (h p List.mem_cons_self)
      obtain ⟨W₁, hW₁, hkept⟩ := lxcAbsorbToken_returns hr
      obtain ⟨W₂, hW₂⟩ := absorbTokens_returns fun q hq =>
        hkept q (h q (List.mem_cons_of_mem p hq))
      exact ⟨W₂, by simp only [absorbTokens, hW₁, Option.bind_eq_bind, Option.bind_some, hW₂]⟩

/-- On wires of any kind, a gate drives what its logic function computes of the values. -/
theorem logxBoolDrives_eq {f : LogicFunction} (hf : f ≠ .dbg) (hg : W.gates g = some gate)
    (hout : gate.output.slots[0]? = some out) (hreads : ReadsBools W tok gate.input.slots) :
    ∃ W', logxBoolDrives f g W =
      some ((f.result (slotTokens tok gate.input.slots)).map fun b => (out, lxcBoolConstant b),
        W') := by
  have htokens : ∀ p ∈ gate.input.slots.filterMap id, (lxcGetTokenValue W p).isSome := by
    intro p hp
    obtain ⟨s, hs, he⟩ := List.mem_filterMap.mp hp
    rw [hreads.token p (he ▸ hs)]
    rfl
  obtain ⟨W', habsorb⟩ := absorbTokens_returns htokens
  simp only [logxBoolDrives, hg, hout, LogicFunction.call_eq hf hreads, LogicFunction.result_eq hf,
    Option.bind_eq_bind, Option.bind_some]
  cases present (slotTokens tok gate.input.slots) with
  | none => exact ⟨W, rfl⟩
  | some values => exact ⟨W', by simp only [habsorb]; rfl⟩

end Drives

/-! ## The names of the gates -/

/-- What the name of a gate says of the values on its wired inputs. -/
def LogicFunction.named : LogicFunction → List Bool → Bool
  | .and, values => values.all id
  | .or, values => values.any id
  | .nand, values => ! values.all id
  | .nor, values => ! values.any id
  | .xor, values => Odd (values.count true)
  | .not, values => values.all (! ·)
  | .dbg, _ => false

/-- The same for the wired inputs: nothing when none is wired or one has no value. -/
def LogicFunction.expected (f : LogicFunction) (l : List (Option LxcValue)) : Option Bool :=
  (present l).bind fun values => if values = [] then none else some (f.named values)

theorem LogicFunction.expected_eq_none_iff (f : LogicFunction) (l : List (Option LxcValue)) :
    f.expected l = none ↔ l = [] ∨ none ∈ l := by
  unfold expected
  cases hl : present l with
  | none =>
    have hnone : ¬ ∀ v ∈ l, v.isSome := by
      rw [← present_isSome, hl]
      simp
    simp only [Option.bind_none, true_iff]
    refine .inr ?_
    by_contra hnot
    exact hnone fun v hv => Option.isSome_iff_ne_none.mpr fun he => hnot (he ▸ hv)
  | some values =>
    have hlen := length_present hl
    have hsome : none ∉ l := fun hnone => by
      have hall := present_isSome.mp (show (present l).isSome by rw [hl]; rfl)
      cases hall none hnone
    rw [Option.bind_some]
    cases values with
    | nil => simp [List.length_eq_zero_iff.mp hlen.symm]
    | cons b values =>
      have hne : l ≠ [] := fun he => by simp [he] at hlen
      simp [hne, hsome]

/-- Where the gate computes its name. -/
def LogicFunction.NamedRight (f : LogicFunction) (values : List Bool) : Prop :=
  f = .and → true ∈ values ∧ false ∈ values

theorem LogicFunction.eval_eq_named_iff {f : LogicFunction}
    (hf : f = .and ∨ f = .or ∨ f = .nand ∨ f = .nor) {values : List Bool} (hne : values ≠ []) :
    f.eval values = some (f.named values) ↔ f.NamedRight values := by
  rcases hf with rfl | rfl | rfl | rfl
  · simp only [eval, if_neg hne, Option.some.injEq, named, NamedRight, forall_true_left]
    have hany : values.any id = true ↔ true ∈ values := by simp
    have hall : values.all id = true ↔ false ∉ values := by simp
    obtain ⟨b, hb⟩ := List.exists_mem_of_ne_nil values hne
    constructor
    · intro heq
      cases b with
      | true =>
        refine ⟨hb, ?_⟩
        rw [hany.mpr hb] at heq
        by_contra hnot
        cases heq.trans (hall.mpr hnot)
      | false =>
        refine ⟨?_, hb⟩
        by_contra hnot
        rw [← hany, Bool.not_eq_true] at hnot
        rw [hnot] at heq
        exact hall.mp heq.symm hb
    · intro ⟨htrue, hfalse⟩
      rw [hany.mpr htrue]
      exact (Bool.eq_false_iff.mpr fun h => hall.mp h hfalse).symm
  · simp [eval, hne, named, NamedRight]
  · simp only [eval, if_neg hne, named, NamedRight, reduceCtorEq, false_imp_iff, iff_true,
      Option.some.injEq]
    rw [List.not_all_eq_any_not]
    rfl
  · simp [eval, hne, named, NamedRight]

/-- A gate drives what its name says of its wired inputs. -/
def ComputesName (f : LogicFunction) (g : GateId) (out : Option WireId)
    (l : List (Option LxcValue)) (W : World) : Prop :=
  ∃ W', logxBoolDrives f g W = some ((f.expected l).map fun b => (out, lxcBoolConstant b), W')

/-- `bool or`, `bool nand` and `bool nor` compute their names. `bool and` does so when an input is
    missing, none is wired, or the inputs are neither all true nor all false. -/
theorem computes_name_iff {f : LogicFunction} (hf : f = .and ∨ f = .or ∨ f = .nand ∨ f = .nor)
    {W : World} {tok : TokenportId → Option LxcValue} {g : GateId} {gate : Gate}
    {out : Option WireId} (hg : W.gates g = some gate) (hout : gate.output.slots[0]? = some out)
    (hreads : ReadsBools W tok gate.input.slots) :
    ComputesName f g out (slotTokens tok gate.input.slots) W ↔
      (f = .and → ∀ values, present (slotTokens tok gate.input.slots) = some values →
        values = [] ∨ true ∈ values ∧ false ∈ values) := by
  have hdbg : f ≠ .dbg := by rcases hf with rfl | rfl | rfl | rfl <;> simp
  obtain ⟨W', hdrives⟩ := logxBoolDrives_eq hdbg hg hout hreads
  have hiff : ComputesName f g out (slotTokens tok gate.input.slots) W ↔
      f.result (slotTokens tok gate.input.slots) = f.expected (slotTokens tok gate.input.slots) := by
    refine ⟨fun ⟨W'', h⟩ => ?_, fun h => ⟨W', by rw [hdrives, h]⟩⟩
    have heq := (Prod.mk.inj (Option.some.inj (hdrives.symm.trans h))).1
    refine Option.map_injective (fun b b' hb => ?_) heq
    exact lxcBoolConstant_injective (Prod.mk.inj hb).2
  rw [hiff, LogicFunction.result_eq hdbg]
  unfold LogicFunction.expected
  cases present (slotTokens tok gate.input.slots) with
  | none => simp
  | some values =>
    rw [Option.bind_some, Option.bind_some]
    by_cases hne : values = []
    · subst hne
      rcases hf with rfl | rfl | rfl | rfl <;> simp [LogicFunction.eval]
    · rw [if_neg hne, LogicFunction.eval_eq_named_iff hf hne]
      simp [LogicFunction.NamedRight, hne]

/-- A gate with one port for each value, on direct wires of their own. -/
def testBench (f : LogicFunction) (values : List Bool) : World :=
  .ofLists [wiredBoolGate f .default (List.range values.length) values.length]
    (values.mapIdx (fun i b =>
      { boolWire .directPropagateValue [] [i] with currentValue := some (lxcBoolConstant b) }) ++
      [boolWire .directPropagateValue [values.length] []])
    ((List.range values.length).map (fun i => .zeroed i 0 i) ++ [.zeroed values.length 0 0])

section TestBench

variable {f : LogicFunction} {values : List Bool}

/-- The value on the wire of a port. -/
def benchToken (values : List Bool) (p : TokenportId) : Option LxcValue :=
  values[p]?.map lxcBoolConstant

theorem testBench_reads : ReadsBools (testBench f values) (benchToken values)
    (wiredBoolGate f .default (List.range values.length) values.length).input.slots where
  token := by
    intro p hp
    have hlt : p < values.length := by simpa [wiredBoolGate] using hp
    have htp : (testBench f values).tokenports p = some (.zeroed p 0 p) := by
      simp [testBench, World.ofLists, List.getElem?_append_left, hlt]
    have hw : (testBench f values).wires p = some { boolWire .directPropagateValue [] [p] with
        currentValue := some (lxcBoolConstant values[p]) } := by
      simp [testBench, World.ofLists, List.getElem?_append_left, hlt]
    simp only [lxcGetTokenValue, htp, Tokenport.zeroed, hw, boolWire, Option.bind_eq_bind,
      Option.bind_some, benchToken, List.getElem?_eq_getElem hlt]
    rfl
  bool := by
    intro p v _ hv
    obtain ⟨b, -, rfl⟩ := Option.map_eq_some_iff.mp hv
    rw [asBool_lxcBoolConstant]
    rfl

theorem testBench_tokens : slotTokens (benchToken values)
    (wiredBoolGate f .default (List.range values.length) values.length).input.slots =
      values.map fun b => some (lxcBoolConstant b) := by
  have hslots : (wiredBoolGate f .default (List.range values.length)
      values.length).input.slots.filterMap id = List.range values.length := by
    simp [wiredBoolGate, List.filterMap_append]
  rw [slotTokens, hslots]
  refine List.ext_getElem (by simp) fun i hi hi' => ?_
  have hlt : i < values.length := by simpa using hi'
  simp [benchToken, hlt]

end TestBench

/-- `bool and` of two true inputs drives false. -/
theorem not_computes_name :
    ¬ ComputesName .and 0 (some 2) ([true, true].map fun b => some (lxcBoolConstant b))
      (testBench .and [true, true]) := by
  intro ⟨W', h⟩
  have hdriven : ((logxBoolDrives .and 0 (testBench .and [true, true])).bind Prod.fst) =
      some (some 2, lxcBoolConstant false) := rfl
  rw [h] at hdriven
  have hvalue := (Prod.mk.inj (Option.some.inj hdriven)).2
  cases lxcBoolConstant_injective hvalue

theorem computes_name_and_true_false :
    ComputesName .and 0 (some 2)
      (slotTokens (benchToken [true, false])
        (wiredBoolGate .and .default (List.range 2) 2).input.slots)
      (testBench .and [true, false]) :=
  (computes_name_iff (.inl rfl) rfl rfl testBench_reads).mpr fun _ values hvalues => by
    rw [testBench_tokens, present_map] at hvalues
    obtain rfl := Option.some.inj hvalues
    exact .inr ⟨by decide, by decide⟩

/-! ## Parity -/

/-- `n` bools that alternate, from `b` on. -/
def alternate : Bool → Nat → List Bool
  | _, 0 => []
  | b, n + 1 => b :: alternate (!b) n

theorem noEqualNeighbours_alternate (n : Nat) (b : Bool) :
    noEqualNeighbours (alternate b n) = true := by
  induction n generalizing b with
  | zero => rfl
  | succ n ih =>
    cases n with
    | zero => rfl
    | succ n =>
      have hne : (!b) ≠ b := Bool.not_ne_self b
      simp only [alternate, noEqualNeighbours, if_neg hne]
      exact ih (!b)

theorem count_alternate (n : Nat) (b : Bool) :
    (alternate b n).count b = (n + 1) / 2 ∧ (alternate b n).count (!b) = n / 2 := by
  induction n generalizing b with
  | zero => exact ⟨rfl, rfl⟩
  | succ n ih =>
    obtain ⟨hnot, hb⟩ := ih (!b)
    rw [Bool.not_not] at hb
    have hne : b ≠ !b := fun h => Bool.not_ne_self b h.symm
    rw [alternate, List.count_cons_self, List.count_cons_of_ne hne, hb, hnot]
    omega

/-- Without equal neighbours, there are as many bools like the first as others, or one more. -/
theorem count_of_noEqualNeighbours (l : List Bool) (b : Bool)
    (h : noEqualNeighbours (b :: l) = true) :
    (b :: l).count b = (b :: l).count (!b) ∨ (b :: l).count b = (b :: l).count (!b) + 1 := by
  induction l generalizing b with
  | nil => cases b <;> decide
  | cons c l ih =>
    simp only [noEqualNeighbours] at h
    split at h
    · cases h
    · next hne =>
      obtain rfl : c = !b := Bool.eq_not.mpr hne
      have hb : b ≠ !b := fun h => Bool.not_ne_self b h.symm
      have hcount := ih (!b) h
      rw [Bool.not_not] at hcount
      rw [List.count_cons_self, List.count_cons_of_ne hb]
      omega

theorem perm_of_count {l l' : List Bool} (b : Bool) (hb : l.count b = l'.count b)
    (hnot : l.count (!b) = l'.count (!b)) : l.Perm l' := by
  refine List.perm_iff_count.mpr fun a => ?_
  rcases Bool.eq_or_eq_not a b with rfl | rfl
  · exact hb
  · exact hnot

/-- Values of which one is there twice can be put in an order with equal neighbours. -/
theorem exists_perm_equal {values : List Bool} {b : Bool} (hb : 2 ≤ values.count b) :
    ∃ values', values'.Perm values ∧ noEqualNeighbours values' = false := by
  have hne : b ≠ !b := fun h => Bool.not_ne_self b h.symm
  refine ⟨b :: b :: (List.replicate (values.count b - 2) b ++
    List.replicate (values.count (!b)) (!b)), perm_of_count b ?_ ?_, by simp [noEqualNeighbours]⟩
  · simp only [List.count_cons_self, List.count_append, List.count_replicate_self,
      List.count_replicate, beq_iff_eq, if_neg hne.symm]
    omega
  · simp only [List.count_cons_of_ne hne, List.count_append, List.count_replicate_self,
      List.count_replicate, beq_iff_eq, if_neg hne]
    omega

/-- Values of which there are about as many of each kind can be put in an order without. -/
theorem exists_perm_alternate {values : List Bool} {b : Bool}
    (hle : values.count (!b) ≤ values.count b) (hlt : values.count b < values.count (!b) + 2) :
    ∃ values', values'.Perm values ∧ noEqualNeighbours values' = true := by
  obtain ⟨hb, hnot⟩ := count_alternate values.length b
  have hlen := List.count_not_add_count values b
  refine ⟨alternate b values.length, perm_of_count b ?_ ?_, noEqualNeighbours_alternate _ b⟩ <;>
    omega

/-- `bool xor` gives the parity of the values in every order. -/
theorem noEqualNeighbours_parity_iff {values : List Bool} (h : 2 ≤ values.length) :
    (∀ values', values'.Perm values →
      noEqualNeighbours values' = decide (Odd (values.count true))) ↔
      values.length = 2 ∨ Even (values.count true) ∧
        (values.count true + 2 ≤ values.count false ∨
          values.count false + 2 ≤ values.count true) := by
  have hlen := List.count_true_add_count_false values
  constructor
  · intro hall
    by_cases htwo : values.length = 2
    · exact .inl htwo
    obtain ⟨b, hb⟩ : ∃ b, 2 ≤ values.count b := by
      by_contra hnot
      push Not at hnot
      have htrue := hnot true
      have hfalse := hnot false
      omega
    obtain ⟨values', hperm, hequal⟩ := exists_perm_equal hb
    have heven : ¬ Odd (values.count true) :=
      of_decide_eq_false ((hall values' hperm).symm.trans hequal)
    refine .inr ⟨Nat.not_odd_iff_even.mp heven, ?_⟩
    by_contra hclose
    have hodd (hex : ∃ values' : List Bool, values'.Perm values ∧
        noEqualNeighbours values' = true) : Odd (values.count true) := by
      obtain ⟨values', hperm, halt⟩ := hex
      exact of_decide_eq_true ((hall values' hperm).symm.trans halt)
    rcases Nat.le_total (values.count false) (values.count true) with hle | hle
    · exact heven (hodd (exists_perm_alternate (b := true) hle
        (by simp only [Bool.not_true]; omega)))
    · exact heven (hodd (exists_perm_alternate (b := false) hle
        (by simp only [Bool.not_false]; omega)))
  · rintro (htwo | ⟨heven, hfar⟩) values' hperm
    · rw [← hperm.count_eq]
      obtain ⟨x, y, rfl⟩ := List.length_eq_two.mp (hperm.length_eq.trans htwo)
      cases x <;> cases y <;> decide
    · rw [decide_eq_false (Nat.not_odd_iff_even.mpr heven)]
      by_contra halt
      rw [Bool.not_eq_false] at halt
      cases values' with
      | nil =>
        have hnil := hperm.length_eq
        rw [List.length_nil] at hnil
        omega
      | cons b l =>
        have hcount := count_of_noEqualNeighbours l b halt
        rw [hperm.count_eq, hperm.count_eq] at hcount
        cases b <;> simp only [Bool.not_true, Bool.not_false] at hcount <;> omega

/-- What `bool xor` drives for values that are all there. -/
theorem xor_drives {W : World} {tok : TokenportId → Option LxcValue} {g : GateId} {gate : Gate}
    {out : Option WireId} {values : List Bool} (hg : W.gates g = some gate)
    (hout : gate.output.slots[0]? = some out) (hreads : ReadsBools W tok gate.input.slots)
    (hvalues : present (slotTokens tok gate.input.slots) = some values)
    (hlen : 2 ≤ values.length) :
    ∃ W', logxBoolDrives .xor g W =
      some (some (out, lxcBoolConstant (noEqualNeighbours values)), W') := by
  obtain ⟨W', h⟩ := logxBoolDrives_eq (f := .xor) (by simp) hg hout hreads
  have heval : LogicFunction.xor.eval values = some (noEqualNeighbours values) :=
    if_neg (by omega)
  rw [LogicFunction.result_eq (by simp), hvalues, Option.bind_some, heval] at h
  exact ⟨W', h⟩

/-- In whatever order the values stand on the wired ports of a `bool xor`, it drives their parity. -/
def XorParity (values : List Bool) : Prop :=
  ∀ values', values'.Perm values → ∀ (W : World) (tok : TokenportId → Option LxcValue)
    (g : GateId) (gate : Gate) (out : Option WireId), W.gates g = some gate →
    gate.output.slots[0]? = some out → ReadsBools W tok gate.input.slots →
    present (slotTokens tok gate.input.slots) = some values' →
    ∃ W', logxBoolDrives .xor g W =
      some (some (out, lxcBoolConstant (Odd (values.count true))), W')

/-- This is so for two inputs, and for an even number of true ones that is not next to the number of
    the others. -/
theorem xor_parity_iff {values : List Bool} (hlen : 2 ≤ values.length) :
    XorParity values ↔ values.length = 2 ∨ Even (values.count true) ∧
      (values.count true + 2 ≤ values.count false ∨
        values.count false + 2 ≤ values.count true) := by
  rw [← noEqualNeighbours_parity_iff hlen]
  unfold XorParity
  refine forall₂_congr fun values' hperm => ⟨fun h => ?_, fun h W tok g gate out hg hout hreads
    hvalues => ?_⟩
  · have hpresent : present (slotTokens (benchToken values') (wiredBoolGate .xor .default
        (List.range values'.length) values'.length).input.slots) = some values' := by
      rw [testBench_tokens, present_map]
    obtain ⟨W₁, hdrives₁⟩ := h (testBench .xor values') (benchToken values') 0 _ _ rfl rfl
      testBench_reads hpresent
    obtain ⟨W₂, hdrives₂⟩ := xor_drives (W := testBench .xor values') (g := 0) rfl rfl
      testBench_reads hpresent (hperm.length_eq ▸ hlen)
    have heq := (Prod.mk.inj (Option.some.inj (hdrives₂.symm.trans hdrives₁))).1
    exact lxcBoolConstant_injective (Prod.mk.inj (Option.some.inj heq)).2
  · obtain ⟨W', hdrives⟩ := xor_drives hg hout hreads hvalues (hperm.length_eq ▸ hlen)
    exact ⟨W', by rw [hdrives, h]⟩

theorem xor_parity_two : XorParity [true, false] :=
  (xor_parity_iff (by decide)).mpr (.inl rfl)

/-- Three inputs of which one is true. -/
theorem not_xor_parity : ¬ ∀ values : List Bool, 2 ≤ values.length → XorParity values := by
  intro h
  have hpresent : present (slotTokens (benchToken [true, false, false]) (wiredBoolGate .xor .default
      (List.range 3) 3).input.slots) = some [true, false, false] := rfl
  obtain ⟨W', hdrives⟩ := h [true, false, false] (by decide) _ (.refl _)
    (testBench .xor [true, false, false]) _ 0 _ _ rfl rfl testBench_reads hpresent
  have hdriven : ((logxBoolDrives .xor 0 (testBench .xor [true, false, false])).bind Prod.fst) =
      some (some 3, lxcBoolConstant false) := rfl
  rw [hdrives] at hdriven
  have hvalue := lxcBoolConstant_injective (Prod.mk.inj (Option.some.inj hdriven)).2
  revert hvalue
  decide

end LogxControll
