/-
  The position that a tokenport keeps of itself in the drivens of its wire.

  `on_successfull_input_wiring` computes `wire_index` once, when the tokenport is listed.
  `remove_port` moves the later entries down and leaves their `wire_index` as it was. So along a
  history every bound tokenport knows its place exactly as long as every entry that is removed is
  the last of its wire (`knowsPlaces_iff`).
-/
import LogxControll.Wiring.Consistency
import LogxControll.Execution.Frame

namespace LogxControll

/-- The worlds have the same tokenports with the same `wire_index`. -/
def SameIndices (W W' : World) : Prop :=
  ∀ p, (W'.tokenports p).map Tokenport.wireIndex = (W.tokenports p).map Tokenport.wireIndex

/-- An execution behavior that writes no `wire_index`. -/
def KeepsIndices (ex : ExecCall → World → Option World) : Prop :=
  ∀ c W W', ex c W = some W' → SameIndices W W'

theorem valueFrame_sameIndices : ValueFrame SameIndices where
  refl := fun _ _ => rfl
  trans := fun h h' p => (h' p).trans (h p)
  setWire := fun _ _ _ => rfl
  setTokenport := by
    intro W p tp v hp p'
    by_cases h : p' = p
    · subst h
      rw [show (W.setTokenport p' { tp with currentValue := v }).tokenports p' = some _ from
        Function.update_self .., hp]
      rfl
    · exact congrArg _ (Function.update_of_ne h _ W.tokenports)
  note := by
    intro W instance_ value p
    cases instance_ <;> rfl
  setLoopBreaker := fun _ _ _ => rfl
  setNextValue := fun _ _ _ => rfl

/-- No gate of the repository writes a `wire_index` when it is executed. -/
theorem callBehavior_keepsIndices (n : Nat) : KeepsIndices (callBehavior n) :=
  callBehavior_framed valueFrame_sameIndices n

/-- For every tokenport in the slot of an input, `p->owner->drivens[p->wire_index] = p`. -/
def World.KnowsPlaces (W : World) : Prop :=
  ∀ g gate type subtype index p, W.gates g = some gate →
    gate.getWire .input type subtype index = some (some p) →
    ∃ tp wire, W.tokenports p = some tp ∧ W.wires tp.owner = some wire ∧ 0 ≤ tp.wireIndex ∧
      wire.drivens[tp.wireIndex.toNat]? = some (some p)

/-- The same from the side of the wires. -/
def World.RightIndices (W : World) : Prop :=
  ∀ w wire (i : Nat) p tp, W.wires w = some wire → (entries wire.drivens)[i]? = some p →
    W.tokenports p = some tp → tp.wireIndex = i

/-- The calls of a history, each on an input. A call that ties a wire passes the wire's subtype. -/
inductive InputOp where
  | wire (type : Option Signal) (w : WireId) (g : GateId) (index : Nat)
  | unwire (type : Option Signal) (subtype : Int) (g : GateId) (index : Nat)
  | addPort (name : String) (type : Signal) (subtype : Int) (g : GateId) (junk : Nat → Nat)

/-- A call that returns 0. -/
def succeeded (r : Option (Int × World)) : Option World :=
  r.bind fun r => if r.1 = 0 then some r.2 else none

/-- The memory after a call that returned 0. -/
def InputOp.step (ex : ExecCall → World → Option World) (W : World) : InputOp → Option World
  | .wire type w g index =>
    (W.wires w).bind fun wire =>
      succeeded (lxcWireGateInput ex type wire.subtype (some w) g index W)
  | .unwire type subtype g index => succeeded (lxcWireGateInput ex type subtype none g index W)
  | .addPort name type subtype g junk => addPortiPort W g .input junk name type subtype

/-- The tokenport in the slot of an input. -/
def World.inputToken (W : World) (type : Signal) (subtype : Int) (g : GateId) (index : Nat) :
    Option TokenportId :=
  (W.gates g).bind fun gate => (gate.getWire .input type subtype index).join

/-- The tokenports that the wire of a tokenport lists as its drivens. -/
def World.drivensOf (W : World) (p : TokenportId) : Option (List TokenportId) :=
  (W.tokenports p).bind fun tp => (W.wires tp.owner).map fun wire => entries wire.drivens

/-- The tokenport that is unwired is the last driven of its wire. -/
def InputOp.RemovesLast (W : World) : InputOp → Prop
  | .unwire type subtype g index =>
    ∀ t ∈ type, ∀ p ∈ W.inputToken t subtype g (intOfUint index).toNat,
      ∀ l ∈ W.drivensOf p, l.getLast? = some p
  | _ => True

instance (W : World) : ∀ op : InputOp, Decidable (op.RemovesLast W)
  | .wire .. => .isTrue trivial
  | .addPort .. => .isTrue trivial
  | .unwire type subtype g index =>
    inferInstanceAs (Decidable (∀ t ∈ type, ∀ p ∈ W.inputToken t subtype g (intOfUint index).toNat,
      ∀ l ∈ W.drivensOf p, l.getLast? = some p))

/-! ## Entries and places -/

theorem arrayNtContains_of_notMem {l : List TokenportId} {p : TokenportId} (h : p ∉ l)
    (r : List (Option TokenportId)) :
    arrayNtContains (l.map some ++ some p :: r) p = l.length := by
  induction l with
  | nil => simp [arrayNtContains]
  | cons x l ih =>
    rw [List.mem_cons, not_or] at h
    simp only [List.map_cons, List.cons_append, arrayNtContains, if_neg h.1, ih h.2]
    rw [if_neg (by omega), List.length_cons]
    rfl

theorem arrayNtContains_append {array : NtArray TokenportId} (h : IsNt array (entries array))
    {p : TokenportId} (hp : p ∉ entries array) :
    arrayNtContains (arrayNtAppendElement array (some p)).2 p = (entries array).length := by
  obtain ⟨k, hk⟩ := (entries_append h p).1
  rw [hk, List.map_append, List.append_assoc]
  exact arrayNtContains_of_notMem hp _

theorem drivens_getElem? {W : World} (h : W.wiring.Consistent) {w : WireId} {wire : Wire}
    (hw : W.wires w = some wire) (i : Nat) (p : TokenportId) :
    wire.drivens[i]? = some (some p) ↔ (entries wire.drivens)[i]? = some p := by
  have hnt := (h.arrays.isNt_entries (W.wiring_wire hw) .input).1
  rw [Wire.bare_ports] at hnt
  have hjoin := hnt.join_getElem? i
  have hports : wire.ports .input = wire.drivens := rfl
  rw [hports] at hjoin
  rw [← hjoin, Option.join_eq_some_iff]

/-- In a consistent wiring the entries of the drivens are the tokenports of the bound inputs. -/
theorem knowsPlaces_iff_rightIndices {W : World} (h : W.Sound) (hc : W.wiring.Consistent) :
    W.KnowsPlaces ↔ W.RightIndices := by
  constructor
  · intro hk w wire i p tp hw hi htp
    have hmem : p ∈ entries (wire.bare.ports .input) := by
      rw [Wire.bare_ports]
      exact List.mem_of_getElem? hi
    obtain ⟨q, hd, hl, hslot⟩ := hc.held w wire.bare .input p (W.wiring_wire hw) hmem
    obtain ⟨g, dir, type, subtype, index⟩ := q
    obtain rfl : dir = .input := hd
    have hgate : ∃ gate, W.gates g = some gate := by
      cases hg : W.gates g with
      | none => simp [World.wiring, hg] at hslot
      | some gate => exact ⟨gate, rfl⟩
    obtain ⟨gate, hg⟩ := hgate
    have hget := h.getWire_eq (q := ⟨g, .input, type, subtype, index⟩) hg
    rw [hslot] at hget
    obtain ⟨tp', wire', htp', hw', hnonneg, hplace⟩ :=
      hk g gate type subtype index p hg hget
    rw [htp, Option.some.injEq] at htp'
    subst htp'
    have htok := hl.token
    rw [W.wiring_token htp, Option.some.injEq] at htok
    have howner : tp.owner = w := congrArg Tokenport.owner htok
    rw [howner, hw, Option.some.injEq] at hw'
    subst hw'
    have hnodup := (hc.arrays.isNt_entries (W.wiring_wire hw) .input).2.1
    rw [Wire.bare_ports] at hnodup
    have hplace := (drivens_getElem? hc hw _ p).mp hplace
    have hlt := (List.getElem?_eq_some_iff.mp hplace).1
    have hindex := (List.getElem?_inj hlt hnodup).mp (hplace.trans hi.symm)
    omega
  · intro hr g gate type subtype index p hg hget
    have hslot := h.getWire_eq (q := ⟨g, .input, type, subtype, index⟩) hg
    rw [hget, Option.some.injEq] at hslot
    obtain ⟨w, p', hcontent, hl⟩ := hc.listed _ p hslot.symm
    obtain rfl : p = p' := hcontent
    obtain ⟨wr, hwr, -, -, hmem⟩ := hl.wire
    obtain ⟨wire, hw, rfl⟩ := Option.map_eq_some_iff.mp hwr
    obtain ⟨tp, htp, htok⟩ := Option.map_eq_some_iff.mp hl.token
    have howner : tp.owner = w := congrArg Tokenport.owner htok
    rw [Wire.bare_ports] at hmem
    obtain ⟨i, hi⟩ := List.getElem?_of_mem hmem
    have hindex := hr w wire i p tp hw hi htp
    refine ⟨tp, wire, htp, howner ▸ hw, by omega, (drivens_getElem? hc hw _ p).mpr ?_⟩
    rw [hindex]
    exact hi

/-! ## The two calls -/

section Calls

variable {ex : ExecCall → World → Option World} {W W' : World} {g : GateId} {type : Signal}
  {subtype : Int} {index : Nat} {w : WireId}

theorem tieInput_world (hcall : tieInput ex type subtype g index w W = some (0, W')) :
    ∃ wire, W.wires w = some wire ∧
      W'.wires = Function.update W.wires w (some (wire.setPorts .input
        (arrayNtAppendElement wire.drivens (some W.nextTokenport)).2)) ∧
      W'.tokenports = Function.update W.tokenports W.nextTokenport
        (some { Tokenport.zeroed w g index with
          wireIndex := arrayNtContains
            (arrayNtAppendElement wire.drivens (some W.nextTokenport)).2 W.nextTokenport }) := by
  unfold tieInput at hcall
  dsimp only at hcall
  rw [World.allocTokenport_gates, Option.bind_eq_bind, Option.bind_eq_some_iff] at hcall
  obtain ⟨gate, hg, hcall⟩ := hcall
  rw [Option.bind_eq_bind, Option.bind_eq_some_iff] at hcall
  obtain ⟨⟨ret, side⟩, hwire, hcall⟩ := hcall
  dsimp only at hcall
  set W₁ := (W.allocTokenport (Tokenport.zeroed w g index)).setGate g (gate.setSide .input side)
  by_cases hret : ret ≠ 0
  · rw [if_pos hret] at hcall
    obtain ⟨rfl, -⟩ := Prod.mk.inj (Option.some.inj hcall)
    exact absurd rfl hret
  rw [if_neg hret, Option.bind_eq_bind, Option.bind_eq_some_iff] at hcall
  obtain ⟨W₂, hsucc, hcall⟩ := hcall
  obtain ⟨-, rfl⟩ := Prod.mk.inj (Option.some.inj hcall)
  have htoken : W₁.tokenports W.nextTokenport = some (Tokenport.zeroed w g index) :=
    Function.update_self ..
  unfold onSuccessfullWiring onSuccessfullInputWiring at hsucc
  dsimp only at hsucc
  rw [htoken, Option.bind_eq_bind, Option.bind_some, Option.bind_eq_bind,
    Option.bind_eq_some_iff] at hsucc
  obtain ⟨W₃, hadd, hsucc⟩ := hsucc
  unfold addPort at hadd
  rw [Option.bind_eq_bind, Option.bind_eq_some_iff] at hadd
  obtain ⟨wire, hw, hadd⟩ := hadd
  obtain rfl := Option.some.inj hadd
  have hw' : (W₁.setWire w (wire.setPorts .input
      (arrayNtAppendElement wire.drivens (some W.nextTokenport)).2)).wires w =
      some (wire.setPorts .input (arrayNtAppendElement wire.drivens (some W.nextTokenport)).2) :=
    Function.update_self ..
  rw [Option.bind_eq_bind] at hsucc
  change ((W₁.setWire w (wire.setPorts .input
    (arrayNtAppendElement wire.drivens (some W.nextTokenport)).2)).wires w).bind _ = _ at hsucc
  rw [hw', Option.bind_some] at hsucc
  obtain rfl := Option.some.inj hsucc
  exact ⟨wire, hw, rfl, Function.update_idem ..⟩

theorem onSuccessfullInputWiring_indices (hidx : KeepsIndices ex)
    (h : onSuccessfullInputWiring ex type subtype none g index W = some W') :
    SameIndices W W' := by
  unfold onSuccessfullInputWiring at h
  dsimp only at h
  rw [Option.bind_eq_bind, Option.bind_eq_some_iff] at h
  obtain ⟨gate, -, h⟩ := h
  split at h
  · exact hidx _ _ _ h
  · obtain rfl := Option.some.inj h
    exact fun _ => rfl

theorem unwirePort_world (hex : KeepsWiring ex) (hidx : KeepsIndices ex) {c : TokenportId}
    (hA : W.wiring.Arrays)
    (hcall : unwirePort ex .input type subtype g index c W = some (0, W')) :
    ∃ own wire i p tp, W.tokenports c = some own ∧ W.wires own.owner = some wire ∧
      (entries wire.drivens)[i]? = some p ∧ W.tokenports p = some tp ∧ tp.IsFor g index ∧
      (∀ w, (W'.wires w).map Wire.bare = (Function.update W.wires own.owner
        (some (wire.setPorts .input (arrayNtPopElement wire.drivens i).2)) w).map Wire.bare) ∧
      ∀ p', (W'.tokenports p').map Tokenport.wireIndex =
        (Function.update W.tokenports p none p').map Tokenport.wireIndex := by
  unfold unwirePort at hcall
  rw [Option.bind_eq_bind, Option.bind_eq_some_iff] at hcall
  obtain ⟨gate, hg, hcall⟩ := hcall
  rw [Option.bind_eq_bind, Option.bind_eq_some_iff] at hcall
  obtain ⟨⟨ret, side⟩, -, hcall⟩ := hcall
  dsimp only at hcall
  rw [Option.bind_eq_bind, Option.bind_eq_some_iff] at hcall
  obtain ⟨w, howner, hcall⟩ := hcall
  obtain ⟨own, hown, rfl⟩ := Option.map_eq_some_iff.mp howner
  rw [Option.bind_eq_bind, Option.bind_eq_some_iff] at hcall
  obtain ⟨⟨result, W₂⟩, hremove, hcall⟩ := hcall
  have hA' : (W.setGate g (gate.setSide .input side)).wiring.Arrays := ⟨hA.isNt, hA.disjoint⟩
  obtain ⟨wire, hw, hcases⟩ := removePort_cases hA' hremove
  rcases hcases with ⟨rfl, -, -⟩ | ⟨rfl, i, p, tp, hi, htp, hfor, rfl⟩
  · rw [if_neg (by simp)] at hcall
    cases (Prod.mk.inj (Option.some.inj hcall)).1
  rw [if_pos rfl, Option.bind_eq_bind, Option.bind_eq_some_iff] at hcall
  obtain ⟨W₃, hsucc, hcall⟩ := hcall
  obtain ⟨-, rfl⟩ := Prod.mk.inj (Option.some.inj hcall)
  have hsame := onSuccessfullWiring_none hex hsucc
  have hindices := onSuccessfullInputWiring_indices hidx hsucc
  exact ⟨own, wire, i, p, tp, hown, hw, hi, htp, hfor, hsame.wires, hindices⟩

end Calls

/-! ## What the calls do to the places -/

section Places

variable {W W' : World} {w : WireId} {wire : Wire} {p : TokenportId}

theorem World.entries_drivens (hA : W.wiring.Arrays) (hw : W.wires w = some wire) :
    IsNt wire.drivens (entries wire.drivens) ∧ (entries wire.drivens).Nodup ∧
      ∀ p ∈ entries wire.drivens, ∃ tp, W.tokenports p = some tp := by
  obtain ⟨hnt, hnodup, hlive⟩ := hA.isNt_entries (W.wiring_wire hw) .input
  rw [Wire.bare_ports] at hnt hnodup hlive
  refine ⟨hnt, hnodup, fun p hp => ?_⟩
  obtain ⟨tp, htp⟩ := Option.isSome_iff_exists.mp (hlive p hp)
  obtain ⟨tp, htp, -⟩ := Option.map_eq_some_iff.mp htp
  exact ⟨tp, htp⟩

/-- The tokenport that is listed last gets its place, the others keep theirs. -/
theorem World.RightIndices.tie (hr : W.RightIndices) (hA : W.wiring.Arrays)
    (hfresh : W.tokenports p = none) (hw : W.wires w = some wire) {tp : Tokenport}
    (hwires : W'.wires = Function.update W.wires w
      (some (wire.setPorts .input (arrayNtAppendElement wire.drivens (some p)).2)))
    (htokens : W'.tokenports = Function.update W.tokenports p (some tp))
    (hindex : tp.wireIndex = arrayNtContains (arrayNtAppendElement wire.drivens (some p)).2 p) :
    W'.RightIndices := by
  intro w' wire' i p' tp' hw' hi htp'
  have hlive : ∀ w₁ wire₁, W.wires w₁ = some wire₁ → p ∉ entries wire₁.drivens := by
    intro w₁ wire₁ hw₁ hmem
    obtain ⟨tp₁, htp₁⟩ := (W.entries_drivens hA hw₁).2.2 p hmem
    rw [hfresh] at htp₁
    cases htp₁
  have hkeep : ∀ w₁ wire₁, W.wires w₁ = some wire₁ → (entries wire₁.drivens)[i]? = some p' →
      tp'.wireIndex = i := by
    intro w₁ wire₁ hw₁ hi₁
    have hne : p' ≠ p := by
      rintro rfl
      exact hlive w₁ wire₁ hw₁ (List.mem_of_getElem? hi₁)
    rw [htokens, Function.update_of_ne hne] at htp'
    exact hr w₁ wire₁ i p' tp' hw₁ hi₁ htp'
  rw [hwires] at hw'
  by_cases he : w' = w
  · rw [he, Function.update_self, Option.some.injEq] at hw'
    subst hw'
    have hnt := (W.entries_drivens hA hw).1
    have hentries : entries (wire.setPorts .input
        (arrayNtAppendElement wire.drivens (some p)).2).drivens = entries wire.drivens ++ [p] :=
      (entries_append hnt p).2
    rw [hentries] at hi
    by_cases hlt : i < (entries wire.drivens).length
    · rw [List.getElem?_append_left hlt] at hi
      exact hkeep w wire hw hi
    · obtain ⟨hlen, hp⟩ := List.getElem?_eq_some_iff.mp hi
      rw [List.length_append, List.length_singleton] at hlen
      have hi' : i = (entries wire.drivens).length := by omega
      subst hi'
      rw [List.getElem_concat_length rfl] at hp
      subst hp
      rw [htokens, Function.update_self, Option.some.injEq] at htp'
      rw [← htp', hindex]
      exact arrayNtContains_append hnt (hlive w wire hw)
  · rw [Function.update_of_ne he] at hw'
    exact hkeep w' wire' hw' hi

section Untie

variable {i : Nat} (hA : W.wiring.Arrays) (hw : W.wires w = some wire)
  (hi : (entries wire.drivens)[i]? = some p)
  (hwires : ∀ w', (W'.wires w').map Wire.bare = (Function.update W.wires w
    (some (wire.setPorts .input (arrayNtPopElement wire.drivens i).2)) w').map Wire.bare)
  (htokens : ∀ p', (W'.tokenports p').map Tokenport.wireIndex =
    (Function.update W.tokenports p none p').map Tokenport.wireIndex)
include hA hw hi hwires htokens

omit htokens in
/-- The entry is dropped and the later ones move down. -/
theorem entries_of_untie {w' : WireId} {wire' : Wire} (hw' : W'.wires w' = some wire') :
    w' = w ∧ entries wire'.drivens = (entries wire.drivens).eraseIdx i ∨
      ∃ wire₁, W.wires w' = some wire₁ ∧ w' ≠ w ∧
        entries wire'.drivens = entries wire₁.drivens := by
  have hbare := hwires w'
  rw [hw', Option.map_some] at hbare
  by_cases he : w' = w
  · subst he
    rw [Function.update_self, Option.map_some, Option.some.injEq] at hbare
    have hdrivens : wire'.drivens = (arrayNtPopElement wire.drivens i).2 :=
      congrArg Wire.drivens hbare
    refine .inl ⟨rfl, ?_⟩
    rw [hdrivens]
    exact (entries_pop (W.entries_drivens hA hw).1 (List.getElem?_eq_some_iff.mp hi).1).2
  · rw [Function.update_of_ne he, eq_comm, Option.map_eq_some_iff] at hbare
    obtain ⟨wire₁, hw₁, hbare⟩ := hbare
    refine .inr ⟨wire₁, hw₁, he, ?_⟩
    rw [show wire'.drivens = wire₁.drivens from (congrArg Wire.drivens hbare).symm]

omit hA hw hi hwires in
theorem wireIndex_of_untie {p' : TokenportId} {tp' : Tokenport}
    (htp' : W'.tokenports p' = some tp') :
    ∃ tp, W.tokenports p' = some tp ∧ tp.wireIndex = tp'.wireIndex := by
  have htoken := htokens p'
  rw [htp', Option.map_some] at htoken
  by_cases he : p' = p
  · rw [he, Function.update_self] at htoken
    cases htoken
  · rw [Function.update_of_ne he, eq_comm, Option.map_eq_some_iff] at htoken
    exact htoken

/-- The removal of the last entry moves none. -/
theorem World.RightIndices.untie_last (hr : W.RightIndices)
    (hlast : i + 1 = (entries wire.drivens).length) : W'.RightIndices := by
  intro w' wire' j p' tp' hw' hj htp'
  obtain ⟨tp, htp, hindex⟩ := wireIndex_of_untie htokens htp'
  rw [← hindex]
  rcases entries_of_untie hA hw hi hwires hw' with ⟨rfl, hentries⟩ | ⟨wire₁, hw₁, -, hentries⟩
  · rw [hentries, List.getElem?_eraseIdx] at hj
    by_cases hlt : j < i
    · rw [if_pos hlt] at hj
      exact hr w' wire j p' tp hw hj htp
    · rw [if_neg hlt, List.getElem?_eq_none (by omega)] at hj
      cases hj
  · rw [hentries] at hj
    exact hr w' wire₁ j p' tp hw₁ hj htp

/-- The entry behind the one that is removed moves, and its tokenport does not learn of it. -/
theorem World.RightIndices.not_untie (hr : W.RightIndices)
    (hnot : i + 1 < (entries wire.drivens).length) : ¬ W'.RightIndices := by
  intro hr'
  obtain ⟨hnt, hnodup, hlive⟩ := W.entries_drivens hA hw
  obtain ⟨wire', hw'⟩ : ∃ wire', W'.wires w = some wire' := by
    have hbare := hwires w
    rw [Function.update_self, Option.map_some, Option.map_eq_some_iff] at hbare
    obtain ⟨wire', hw', -⟩ := hbare
    exact ⟨wire', hw'⟩
  have hnext : (entries wire.drivens)[i + 1]? = some (entries wire.drivens)[i + 1] :=
    List.getElem?_eq_getElem hnot
  generalize (entries wire.drivens)[i + 1] = p' at hnext
  obtain ⟨tp, htp⟩ := hlive p' (List.mem_of_getElem? hnext)
  have hne : p' ≠ p := by
    rintro rfl
    have hlt := (List.getElem?_eq_some_iff.mp hi).1
    have hsame := (List.getElem?_inj hlt hnodup).mp (hi.trans hnext.symm)
    omega
  obtain ⟨tp', htp', hindex⟩ : ∃ tp', W'.tokenports p' = some tp' ∧
      tp'.wireIndex = tp.wireIndex := by
    have htoken := htokens p'
    rw [Function.update_of_ne hne, htp, Option.map_some, Option.map_eq_some_iff] at htoken
    exact htoken
  have hplace : (entries wire'.drivens)[i]? = some p' := by
    rcases entries_of_untie hA hw hi hwires hw' with ⟨-, hentries⟩ | ⟨_, -, hself, -⟩
    · rw [hentries, List.getElem?_eraseIdx, if_neg (Nat.lt_irrefl i)]
      exact hnext
    · exact absurd rfl hself
  have hold := hr w wire (i + 1) p' tp hw hnext htp
  have hnew := hr' w wire' i p' tp' hw' hplace htp'
  omega

end Untie

end Places

/-! ## Histories -/

section Histories

variable {ex : ExecCall → World → Option World} {W W' : World}

theorem succeeded_eq_some {r : Option (Int × World)} (h : succeeded r = some W') :
    r = some (0, W') := by
  obtain ⟨⟨ret, W₁⟩, rfl, hret⟩ := Option.bind_eq_some_iff.mp h
  by_cases hzero : ret = 0
  · rw [if_pos hzero, Option.some.injEq] at hret
    rw [← hret, ← hzero]
  · rw [if_neg hzero] at hret
    cases hret

/-- What histories keep besides the places. -/
def World.Agrees (W : World) : Prop := W.Sound ∧ W.wiring.Consistent

theorem InputOp.step_agrees (hex : KeepsWiring ex) (h : W.Agrees) {op : InputOp}
    (hstep : op.step ex W = some W') : W'.Agrees := by
  cases op with
  | wire type w g index =>
    obtain ⟨wire, hw, hstep⟩ := Option.bind_eq_some_iff.mp hstep
    refine @lxcWireGate_consistent ex W W' .input _ _ _ _ _ _ hex h.1 h.2 ?_
      (succeeded_eq_some hstep)
    intro w' wr he hw'
    obtain rfl := Option.some.inj he
    rw [hw, Option.some.injEq] at hw'
    rw [hw']
  | unwire type subtype g index =>
    exact @lxcWireGate_consistent ex W W' .input _ _ _ _ _ _ hex h.1 h.2 (by simp)
      (succeeded_eq_some hstep)
  | addPort name type subtype g junk =>
    obtain ⟨hs, hwiring⟩ := addPortiPort_wiring h.1 hstep
    exact ⟨hs, hwiring ▸ h.2⟩

theorem World.RightIndices.wire (hr : W.RightIndices) (h : W.Agrees) {type : Option Signal}
    {w : WireId} {g : GateId} {index : Nat}
    (hstep : (InputOp.wire type w g index).step ex W = some W') : W'.RightIndices := by
  obtain ⟨wire, hw, hstep⟩ := Option.bind_eq_some_iff.mp hstep
  have hcall := succeeded_eq_some hstep
  unfold lxcWireGateInput at hcall
  rcases privateGenericWiring_cases hcall with ⟨hne, -⟩ | ⟨t, gt, wired, -, -, -, -, hcases⟩
  · exact absurd rfl hne
  rcases hcases with ⟨c, hnone, -⟩ | ⟨w', he, -, htie⟩
  · cases hnone
  obtain rfl := Option.some.inj he
  obtain ⟨wire', hw', hwires, htokens⟩ := tieInput_world htie
  exact hr.tie h.1.arrays (h.1.freshTokenport _ (Nat.le_refl _)) hw' hwires htokens rfl

theorem World.RightIndices.addPort (hr : W.RightIndices) {name : String} {type : Signal}
    {subtype : Int} {g : GateId} {junk : Nat → Nat}
    (hstep : (InputOp.addPort name type subtype g junk).step ex W = some W') :
    W'.RightIndices := by
  unfold InputOp.step addPortiPort at hstep
  dsimp only at hstep
  rw [Option.bind_eq_bind, Option.bind_eq_some_iff] at hstep
  obtain ⟨gate, -, hstep⟩ := hstep
  split at hstep
  · rw [Option.bind_eq_bind, Option.bind_eq_some_iff] at hstep
    obtain ⟨added, -, hstep⟩ := hstep
    obtain rfl := Option.some.inj hstep
    exact hr
  · cases hstep

/-- What is unwired is the tokenport in the slot; it is the last one exactly if the places stay
    right. -/
theorem World.RightIndices.unwire_iff (hex : KeepsWiring ex) (hidx : KeepsIndices ex)
    (hr : W.RightIndices) (h : W.Agrees) {type : Option Signal} {subtype : Int} {g : GateId}
    {index : Nat} (hstep : (InputOp.unwire type subtype g index).step ex W = some W') :
    (InputOp.unwire type subtype g index).RemovesLast W ↔ W'.RightIndices := by
  have hcall := succeeded_eq_some hstep
  unfold lxcWireGateInput at hcall
  rcases privateGenericWiring_cases hcall with ⟨hne, -⟩ | ⟨t, gate, wired, hsig, hg, -, hget, hcases⟩
  · exact absurd rfl hne
  rcases hcases with ⟨c, -, rfl, hunwire⟩ | ⟨w', he, -⟩
  swap
  · cases he
  obtain rfl : type = some t := by
    cases type with
    | none => simp [wiringSignal] at hsig
    | some s => simpa [wiringSignal] using hsig
  generalize hj : (intOfUint index).toNat = j at hget hunwire
  obtain ⟨own, wire, i, p, tp, hown, hw, hi, htp, hfor, hwires, htokens⟩ :=
    unwirePort_world hex hidx h.1.arrays hunwire
  -- the entry that is found is the one that the slot stands for
  have hslot : W.wiring.slot ⟨g, .input, t, subtype, j⟩ = some c :=
    Option.some.inj ((h.1.getWire_eq (q := ⟨g, .input, t, subtype, j⟩) hg).symm.trans hget)
  have howner : W.wiring.ownerOf .input c = some own.owner := by
    simp [Wiring.ownerOf, W.wiring_token hown, Tokenport.bare]
  obtain ⟨p₀, hlists, hunique⟩ := h.2.entry_of_slot hslot howner
  have hc : p₀ = c := Option.some.inj ((h.2.slot_of_lists hlists).symm.trans hslot)
  have hmem : p ∈ entries (wire.bare.ports .input) := by
    rw [Wire.bare_ports]
    exact List.mem_of_getElem? hi
  obtain rfl : p = c :=
    (hunique wire.bare p tp.bare (W.wiring_wire hw) hmem (W.wiring_token htp) hfor).trans hc
  have htoken : W.inputToken t subtype g (intOfUint index).toNat = some p := by
    rw [World.inputToken, hg, Option.bind_some, hj, hget]
    rfl
  have hdrivens : W.drivensOf p = some (entries wire.drivens) := by
    rw [World.drivensOf, hown, Option.bind_some, hw]
    rfl
  have hlast : (InputOp.unwire (some t) subtype g index).RemovesLast W ↔
      (entries wire.drivens).getLast? = some p := by
    refine ⟨fun hl => hl t rfl p htoken _ hdrivens, fun hl t' ht' p' hp' l hl' => ?_⟩
    obtain rfl := Option.some.inj ht'
    obtain rfl := Option.some.inj (htoken.symm.trans hp')
    obtain rfl := Option.some.inj (hdrivens.symm.trans hl')
    exact hl
  have hplace : (entries wire.drivens).getLast? = some p ↔
      i + 1 = (entries wire.drivens).length := by
    have hlt := (List.getElem?_eq_some_iff.mp hi).1
    have hnodup := (W.entries_drivens h.1.arrays hw).2.1
    rw [List.getLast?_eq_getElem?]
    constructor
    · intro hl
      have hindex := (List.getElem?_inj hlt hnodup).mp (hi.trans hl.symm)
      omega
    · intro hlen
      have hpred : (entries wire.drivens).length - 1 = i := by omega
      rw [hpred, hi]
  rw [hlast, hplace]
  refine ⟨hr.untie_last h.1.arrays hw hi hwires htokens, fun hr' => ?_⟩
  by_contra hnot
  obtain ⟨hlt, -⟩ := List.getElem?_eq_some_iff.mp hi
  exact hr.not_untie h.1.arrays hw hi hwires htokens (by omega) hr'

theorem World.Unwired.rightIndices (h : W.Unwired) : W.RightIndices := by
  intro w wire i p tp hw hi _
  have hnil : entries wire.drivens = [] := (h.wires w wire .input hw).entries_eq
  rw [hnil] at hi
  cases hi

/-- What histories keep as long as only last entries are removed. -/
theorem InputOp.step_rightIndices (hex : KeepsWiring ex) (hidx : KeepsIndices ex) (W : World)
    (op : InputOp) (W' : World) (h : W.Agrees ∧ W.RightIndices) (hlast : op.RemovesLast W)
    (hstep : op.step ex W = some W') : W'.Agrees ∧ W'.RightIndices := by
  refine ⟨op.step_agrees hex h.1 hstep, ?_⟩
  cases op with
  | wire type w g index => exact h.2.wire h.1 hstep
  | unwire type subtype g index => exact (h.2.unwire_iff hex hidx h.1 hstep).mp hlast
  | addPort name type subtype g junk => exact h.2.addPort hstep

theorem InputOp.not_knowsPlaces (hex : KeepsWiring ex) (hidx : KeepsIndices ex) (W : World)
    (op : InputOp) (W' : World) (h : W.Agrees ∧ W.RightIndices) (hnot : ¬ op.RemovesLast W)
    (hstep : op.step ex W = some W') : ¬ W'.KnowsPlaces := by
  intro hk
  have ha := op.step_agrees hex h.1 hstep
  cases op with
  | wire type w g index => exact hnot trivial
  | unwire type subtype g index =>
    exact hnot ((h.2.unwire_iff hex hidx h.1 hstep).mpr
      ((knowsPlaces_iff_rightIndices ha.1 ha.2).mp hk))
  | addPort name type subtype g junk => exact hnot trivial

theorem knowsPlaces_of_inv (W : World) (h : W.Agrees ∧ W.RightIndices) : W.KnowsPlaces :=
  (knowsPlaces_iff_rightIndices h.1.1 h.1.2).mpr h.2

theorem World.Unwired.places (h : W.Unwired) : W.Agrees ∧ W.RightIndices :=
  ⟨⟨h.sound, h.consistent⟩, h.rightIndices⟩

theorem meets_of_knowsPlaces (hex : KeepsWiring ex) (hidx : KeepsIndices ex) (h : W.Unwired)
    {ops : List InputOp} (hrun : (Run.run (fun W op => op.step ex W) W ops).isSome)
    (hk : Run.Always (fun W op => op.step ex W) World.KnowsPlaces W ops) :
    Run.Meets (fun W op => op.step ex W) (fun W op => op.RemovesLast W) W ops :=
  (Run.always_iff_meets_of_run (fun W => W.Agrees ∧ W.RightIndices) knowsPlaces_of_inv
    (InputOp.step_rightIndices hex hidx) (InputOp.not_knowsPlaces hex hidx) h.places hrun).mp hk

/-- Along a history of successful calls every bound tokenport knows its place exactly as long as
    every one that is unwired is the last driven of its wire. -/
theorem knowsPlaces_iff (hex : KeepsWiring ex) (hidx : KeepsIndices ex) (h : W.Unwired)
    (ops : List InputOp) (hrun : (Run.run (fun W op => op.step ex W) W ops).isSome) :
    Run.Always (fun W op => op.step ex W) World.KnowsPlaces W ops ↔
      Run.Meets (fun W op => op.step ex W) (fun W op => op.RemovesLast W) W ops :=
  ⟨meets_of_knowsPlaces hex hidx h hrun,
    Run.Meets.always (fun W => W.Agrees ∧ W.RightIndices) knowsPlaces_of_inv
      (InputOp.step_rightIndices hex hidx) h.places⟩

/-- Two inputs are tied to the wire, and untied from the last to the first. -/
theorem knowsPlaces_iff_portiWorld :
    Run.Always (fun W op => InputOp.step (callBehavior 2) W op) World.KnowsPlaces portiWorld
      [.addPort "I0" .bool 0 0 id, .addPort "I1" .bool 0 0 id, .wire none 0 0 0, .wire none 0 0 1,
        .unwire (some .bool) 0 0 1, .unwire (some .bool) 0 0 0] :=
  (knowsPlaces_iff (callBehavior_keepsWiring 2) (callBehavior_keepsIndices 2) unwired_portiWorld _
    (by decide)).mpr (by decide)

/-- The first of two inputs is untied. -/
theorem not_knowsPlaces_portiWorld :
    ¬ Run.Always (fun W op => InputOp.step (callBehavior 2) W op) World.KnowsPlaces portiWorld
      [.addPort "I0" .bool 0 0 id, .addPort "I1" .bool 0 0 id, .wire none 0 0 0, .wire none 0 0 1,
        .unwire (some .bool) 0 0 0] := by
  intro h
  have := meets_of_knowsPlaces (callBehavior_keepsWiring 2) (callBehavior_keepsIndices 2)
    unwired_portiWorld (by decide) h
  revert this
  decide

end Histories

end LogxControll
