/-
  When a wire can be driven: the decision that `lxc_circuit_wire_ports_together` takes from
  `drivers_length`.

  In every history a wire has as many driver entries for a gate and index as there are outputs of
  that gate and index bound to it (`Wiring.Counted`), so the entries are those of the outputs
  bound. The length of the block is another matter: `array_nt_pop_element` clears a cell and keeps
  the block, so the length is zero exactly as long as the wire was never driven
  (`drivers_eq_nil_iff`).
-/
import LogxControll.Wiring.Circuits
import Mathlib.Data.Set.Card

namespace LogxControll

/-- Some gate output is bound to the wire. -/
def World.Driven (W : World) (w : WireId) : Prop :=
  ∃ g gate type subtype index, W.gates g = some gate ∧ W.BoundTo gate .output type subtype index w

/-- Popping clears a cell and keeps the block. -/
theorem arrayNtPopElement_eq_nil_iff (array : NtArray TokenportId) (i : Nat) :
    (arrayNtPopElement array i).2 = [] ↔ array = [] := by
  unfold arrayNtPopElement
  split
  · rfl
  · next hlt =>
    simp only [List.append_eq_nil_iff, List.cons_ne_self, and_false, false_iff]
    rintro rfl
    exact hlt (Nat.zero_le i)

theorem arrayNtAppendElement_ne_nil (array : NtArray TokenportId) (p : TokenportId) :
    (arrayNtAppendElement array (some p)).2 ≠ [] := by
  simp only [arrayNtAppendElement]
  split
  · exact List.append_ne_nil_of_right_ne_nil _ (List.cons_ne_nil _ _)
  · next ep hep =>
    have hne : array ≠ [] := by
      rintro rfl
      cases hep
    split <;> simpa [← List.length_eq_zero_iff] using hne

namespace Wiring

/-- The outputs of a gate with an index whose slots hold the wire. -/
def outputsFor (v : Wiring) (w : WireId) (g : GateId) (index : Nat) : Set Port :=
  {q | q.dir = .output ∧ q.gate = g ∧ q.index = index ∧ v.slot q = some w}

theorem mem_outputsFor {v : Wiring} {w : WireId} {g : GateId} {index : Nat} {q : Port} :
    q ∈ v.outputsFor w g index ↔
      q.dir = .output ∧ q.gate = g ∧ q.index = index ∧ v.slot q = some w := Iff.rfl

/-- The tokenport is for the gate and index. -/
def isFor (v : Wiring) (g : GateId) (index : Nat) (p : TokenportId) : Bool :=
  (v.token p).any fun tp => tp.gate = g ∧ tp.index = index

/-- Some output is bound to the wire. -/
def Bound (v : Wiring) (w : WireId) : Prop := ∃ q : Port, q.dir = .output ∧ v.slot q = some w

/-- The block of the wire's drivers has been allocated. -/
def Allocated (v : Wiring) (w : WireId) : Prop := ∃ wr, v.wire w = some wr ∧ wr.drivers ≠ []

/-- As many drivers are listed for a gate and index as outputs of it are bound. -/
structure Counted (v : Wiring) : Prop where
  arrays : v.Arrays
  live : ∀ w, v.Bound w → ∃ wr, v.wire w = some wr
  count : ∀ w wr g index, v.wire w = some wr →
    (v.outputsFor w g index).encard = (entries wr.drivers).countP (v.isFor g index)

namespace Counted

variable {v : Wiring} {q : Port} {w : WireId} {p : TokenportId} {wr : Wire}

/-- What changes neither the outputs' slots nor the driver entries and their tokenports. -/
theorem of_same {v' : Wiring} (h : v.Counted) (ha : v'.Arrays)
    (hslot : ∀ q, q.dir = .output → v'.slot q = v.slot q)
    (hlive : ∀ w, (∃ wr, v.wire w = some wr) → ∃ wr, v'.wire w = some wr)
    (hwire : ∀ w wr, v'.wire w = some wr → ∃ wr₀, v.wire w = some wr₀ ∧
      wr.drivers = wr₀.drivers ∧ ∀ p ∈ entries wr₀.drivers, v'.token p = v.token p) :
    v'.Counted := by
  refine ⟨ha, fun w ⟨q, hd, hq⟩ => hlive w (h.live w ⟨q, hd, hslot q hd ▸ hq⟩),
    fun w wr g index hw => ?_⟩
  obtain ⟨wr₀, hw₀, hdrivers, htoken⟩ := hwire w wr hw
  have hset : v'.outputsFor w g index = v.outputsFor w g index := by
    ext q
    exact and_congr_right fun hd => by rw [hslot q hd]
  rw [hset, h.count w wr₀ g index hw₀, hdrivers]
  refine congrArg _ (List.countP_congr fun p hp => ?_)
  rw [isFor, isFor, htoken p hp]

theorem isFor_congr {v' : Wiring} {p' : TokenportId} (h : v'.token p' = v.token p') (g : GateId)
    (index : Nat) : v'.isFor g index p' = v.isFor g index p' := by
  rw [isFor, isFor, h]

theorem live_tie (hw : v.wire w = some wr) {w' : WireId} (h : ∃ wr', v.wire w' = some wr') :
    ∃ wr', (v.tie q w p).wire w' = some wr' := by
  rw [wire_tie hw]
  split
  · exact ⟨_, rfl⟩
  · exact h

theorem live_untie (hw : v.wire w = some wr) {i : Nat} {w' : WireId}
    (h : ∃ wr', v.wire w' = some wr') : ∃ wr', (v.untie q w p i).wire w' = some wr' := by
  rw [wire_untie hw]
  split
  · exact ⟨_, rfl⟩
  · exact h

theorem ne_of_input (hd : q.dir = .input) {q' : Port} (hd' : q'.dir = .output) : q' ≠ q := by
  rintro rfl
  rw [hd] at hd'
  cases hd'

/-- A free tokenport is listed nowhere. -/
theorem entry_ne (h : v.Counted) (hp : v.token p = none) {w' : WireId} {wr' : Wire}
    (hw' : v.wire w' = some wr') {p' : TokenportId} (hp' : p' ∈ entries wr'.drivers) :
    p' ≠ p := by
  rintro rfl
  have := (h.arrays.isNt_entries hw' .output).2.2 p' hp'
  rw [hp] at this
  cases this

/-- The slot of an input and its entry at a wire have changed. -/
theorem of_input {v' : Wiring} (h : v.Counted) (hd : q.dir = .input) (hw : v.wire w = some wr)
    (ha : v'.Arrays) (hslot : ∀ q', q' ≠ q → v'.slot q' = v.slot q') {ports : NtArray TokenportId}
    (hwire : ∀ w', v'.wire w' = if w' = w then some (wr.setPorts q.dir ports) else v.wire w')
    (htoken : ∀ w' wr', v.wire w' = some wr' → ∀ p' ∈ entries wr'.drivers,
      v'.token p' = v.token p') : v'.Counted := by
  refine h.of_same ha (fun q' hd' => hslot q' (ne_of_input hd hd')) (fun w' hw' => ?_)
    (fun w' wr' hw' => ?_)
  · rw [hwire]
    split
    · exact ⟨_, rfl⟩
    · exact hw'
  · rw [hwire] at hw'
    split at hw'
    · next he =>
      subst he
      obtain rfl := Option.some.inj hw'
      exact ⟨wr, hw, by rw [hd]; rfl, htoken w' wr hw⟩
    · exact ⟨wr', hw', rfl, htoken w' wr' hw'⟩

theorem tieInput (h : v.Counted) (hd : q.dir = .input) (hw : v.wire w = some wr)
    (hp : v.token p = none) : (v.tie q w p).Counted :=
  h.of_input hd hw (h.arrays.tie hw hp) (fun _ hne => Function.update_of_ne hne _ _) (wire_tie hw)
    fun _ _ hw' _ hp' => Function.update_of_ne (h.entry_ne hp hw' hp') _ _

theorem untieInput (h : v.Counted) (hd : q.dir = .input) (hw : v.wire w = some wr) {i : Nat}
    (hi : (entries (wr.ports q.dir))[i]? = some p) : (v.untie q w p i).Counted := by
  refine h.of_input hd hw (h.arrays.untie hw hi) (fun _ hne => Function.update_of_ne hne _ _)
    (wire_untie hw) fun w' wr' hw' p' hp' => Function.update_of_ne ?_ _ _
  rintro rfl
  have := (h.arrays.disjoint w' wr' .output w wr q.dir p' hw' hw hp' (List.mem_of_getElem? hi)).2
  rw [hd] at this
  cases this

theorem mem_outputsFor_tie (hd : q.dir = .output) (hfree : v.slot q = none) (w' : WireId)
    (g : GateId) (index : Nat) (q' : Port) :
    q' ∈ (v.tie q w p).outputsFor w' g index ↔
      q' = q ∧ w' = w ∧ q.gate = g ∧ q.index = index ∨ q' ∈ v.outputsFor w' g index := by
  by_cases hq : q' = q
  · subst hq
    have hslot : (v.tie q' w p).slot q' = some w := by
      refine (Function.update_self ..).trans ?_
      rw [hd]
      rfl
    rw [mem_outputsFor, mem_outputsFor, hslot, hfree, Option.some.injEq]
    exact ⟨fun h => .inl ⟨rfl, h.2.2.2.symm, h.2.1, h.2.2.1⟩, fun h => h.elim
      (fun h => ⟨hd, h.2.2.1, h.2.2.2, h.2.1.symm⟩) fun h => by simp at h⟩
  · have hslot : (v.tie q w p).slot q' = v.slot q' := Function.update_of_ne hq _ _
    rw [mem_outputsFor, mem_outputsFor, hslot]
    exact ⟨.inr, fun h => h.resolve_left fun h => hq h.1⟩

theorem outputsFor_untie (v : Wiring) (q : Port) (w : WireId) (p : TokenportId) (i : Nat)
    (w' : WireId) (g : GateId) (index : Nat) :
    (v.untie q w p i).outputsFor w' g index = v.outputsFor w' g index \ {q} := by
  ext q'
  rw [mem_outputsFor, Set.mem_sdiff, mem_outputsFor, Set.mem_singleton_iff]
  by_cases hq : q' = q
  · subst hq
    have hnone : (v.untie q' w p i).slot q' = none := Function.update_self ..
    simp [hnone]
  · have hslot : (v.untie q w p i).slot q' = v.slot q' := Function.update_of_ne hq _ _
    simp [hslot, hq]

theorem tieOutput (h : v.Counted) (hd : q.dir = .output) (hw : v.wire w = some wr)
    (hp : v.token p = none) (hfree : v.slot q = none) : (v.tie q w p).Counted := by
  refine ⟨h.arrays.tie hw hp, fun w' ⟨q', hd', hq'⟩ => ?_, fun w' wr' g index hw' => ?_⟩
  · refine live_tie hw ?_
    by_cases hq : q' = q
    · rw [hq, show (v.tie q w p).slot q = some (content q.dir w p) from Function.update_self ..,
        hd] at hq'
      exact Option.some.inj hq' ▸ ⟨wr, hw⟩
    · rw [show (v.tie q w p).slot q' = v.slot q' from Function.update_of_ne hq _ _] at hq'
      exact h.live w' ⟨q', hd', hq'⟩
  have hcount : ∀ wr₀, v.wire w' = some wr₀ →
      (entries wr₀.drivers).countP ((v.tie q w p).isFor g index) =
        (entries wr₀.drivers).countP (v.isFor g index) := by
    intro wr₀ hw₀
    refine List.countP_congr fun p' hp' => ?_
    rw [isFor_congr (Function.update_of_ne (h.entry_ne hp hw₀ hp') _ _)]
  have hmem := mem_outputsFor_tie (v := v) (q := q) (w := w) (p := p) hd hfree w' g index
  rw [wire_tie hw] at hw'
  split at hw'
  · next he =>
    subst he
    obtain rfl := Option.some.inj hw'
    have hnt : IsNt wr.drivers (entries wr.drivers) := (h.arrays.isNt_entries hw .output).1
    have hentries : entries (wr.setPorts q.dir
        (arrayNtAppendElement (wr.ports q.dir) (some p)).2).drivers =
          entries wr.drivers ++ [p] := by
      rw [hd]
      exact (entries_append hnt p).2
    have hp' : (v.tie q w' p).isFor g index p = (q.gate = g ∧ q.index = index : Bool) := by
      simp [isFor, tie, tokenOf, Tokenport.zeroed]
    rw [hentries, List.countP_append, hcount wr hw, List.countP_singleton, hp']
    by_cases hfor : q.gate = g ∧ q.index = index
    · have hset : (v.tie q w' p).outputsFor w' g index = insert q (v.outputsFor w' g index) := by
        ext q'
        rw [hmem, Set.mem_insert_iff]
        simp [hfor]
      have hnot : q ∉ v.outputsFor w' g index := fun hq => by
        rw [mem_outputsFor, hfree] at hq
        simp at hq
      rw [hset, Set.encard_insert_of_notMem hnot, h.count w' wr g index hw]
      simp [hfor]
    · have hset : (v.tie q w' p).outputsFor w' g index = v.outputsFor w' g index := by
        ext q'
        rw [hmem]
        simp [hfor]
      rw [hset, h.count w' wr g index hw]
      simp [hfor]
  · next he =>
    have hset : (v.tie q w p).outputsFor w' g index = v.outputsFor w' g index := by
      ext q'
      rw [hmem]
      simp [he]
    rw [hset, h.count w' wr' g index hw', hcount wr' hw']

theorem untieOutput (h : v.Counted) (hd : q.dir = .output) (hw : v.wire w = some wr) {i : Nat}
    (hi : (entries (wr.ports q.dir))[i]? = some p) (hslot : v.slot q = some w) {tp : Tokenport}
    (htp : v.token p = some tp) (hfor : tp.IsFor q.gate q.index) :
    (v.untie q w p i).Counted := by
  refine ⟨h.arrays.untie hw hi, fun w' ⟨q', hd', hq'⟩ => ?_, fun w' wr' g index hw' => ?_⟩
  · refine live_untie hw ?_
    by_cases hq : q' = q
    · rw [hq, show (v.untie q w p i).slot q = none from Function.update_self ..] at hq'
      cases hq'
    · rw [show (v.untie q w p i).slot q' = v.slot q' from Function.update_of_ne hq _ _] at hq'
      exact h.live w' ⟨q', hd', hq'⟩
  have hset := outputsFor_untie v q w p i w' g index
  have htoken : ∀ p', p' ≠ p → (v.untie q w p i).isFor g index p' = v.isFor g index p' :=
    fun p' hne => isFor_congr (Function.update_of_ne hne _ _) g index
  have hp : v.isFor g index p = (q.gate = g ∧ q.index = index : Bool) := by
    simp [isFor, htp, ← hfor.1, ← hfor.2]
  rw [wire_untie hw] at hw'
  split at hw'
  · next he =>
    subst he
    obtain rfl := Option.some.inj hw'
    rw [hd] at hi
    obtain ⟨hlt, hget⟩ := List.getElem?_eq_some_iff.mp hi
    obtain ⟨hnt, hnodup, -⟩ := h.arrays.isNt_entries hw .output
    have hentries : entries (wr.setPorts q.dir
        (arrayNtPopElement (wr.ports q.dir) i).2).drivers = (entries wr.drivers).eraseIdx i := by
      rw [hd]
      exact (entries_pop hnt hlt).2
    have hperm : (p :: (entries wr.drivers).eraseIdx i).Perm (entries wr.drivers) :=
      hget ▸ List.getElem_cons_eraseIdx_perm hlt
    have hrest : ((entries wr.drivers).eraseIdx i).countP ((v.untie q w' p i).isFor g index) =
        ((entries wr.drivers).eraseIdx i).countP (v.isFor g index) := by
      refine List.countP_congr fun p' hp' => ?_
      have hne : p' ≠ p := by
        rintro rfl
        exact (List.nodup_cons.mp (hperm.nodup_iff.mpr hnodup)).1 hp'
      rw [htoken p' hne]
    have hcount := h.count w' wr g index hw
    rw [← hperm.countP_eq, List.countP_cons, hp] at hcount
    rw [hentries, hrest, hset]
    by_cases hhere : q.gate = g ∧ q.index = index
    · have hmem : q ∈ v.outputsFor w' g index := ⟨hd, hhere.1, hhere.2, hslot⟩
      have hone := Set.encard_sdiff_singleton_add_one hmem
      rw [hcount] at hone
      simpa [hhere] using hone
    · have hnot : q ∉ v.outputsFor w' g index := fun hq => hhere ⟨hq.2.1, hq.2.2.1⟩
      rw [Set.sdiff_singleton_eq_self hnot, hcount]
      simp [hhere]
  · next he =>
    have hnot : q ∉ v.outputsFor w' g index := by
      intro hq
      have := hq.2.2.2
      rw [hslot, Option.some.injEq] at this
      exact he this.symm
    rw [hset, Set.sdiff_singleton_eq_self hnot, h.count w' wr' g index hw']
    refine congrArg _ (List.countP_congr fun p' hp' => ?_)
    have hne : p' ≠ p := by
      rintro rfl
      exact he (h.arrays.disjoint w' wr' .output w wr q.dir p' hw' hw hp'
        (List.mem_of_getElem? hi)).1
    rw [htoken p' hne]

/-- The drivers that are listed are those that are bound. -/
theorem bound_iff (h : v.Counted) (hw : v.wire w = some wr) :
    v.Bound w ↔ entries wr.drivers ≠ [] := by
  constructor
  · rintro ⟨q, hd, hslot⟩ hnil
    have hcount := h.count w wr q.gate q.index hw
    rw [hnil, List.countP_nil, Nat.cast_zero, Set.encard_eq_zero] at hcount
    have hmem : q ∈ v.outputsFor w q.gate q.index := ⟨hd, rfl, rfl, hslot⟩
    rw [hcount] at hmem
    exact hmem
  · intro hne
    obtain ⟨p, hp⟩ := List.exists_mem_of_ne_nil _ hne
    obtain ⟨tp, htp⟩ := Option.isSome_iff_exists.mp
      ((h.arrays.isNt_entries hw .output).2.2 p hp)
    have hpos : 0 < (entries wr.drivers).countP (v.isFor tp.gate tp.index) :=
      List.countP_pos_iff.mpr ⟨p, hp, by simp [isFor, htp]⟩
    have hcount := h.count w wr tp.gate tp.index hw
    have hset : v.outputsFor w tp.gate tp.index ≠ ∅ := by
      intro hempty
      rw [hempty, Set.encard_empty] at hcount
      have := Nat.cast_eq_zero.mp hcount.symm
      omega
    obtain ⟨q, hd, -, -, hslot⟩ := Set.nonempty_iff_ne_empty.mpr hset
    exact ⟨q, hd, hslot⟩

theorem allocated_of_bound (h : v.Counted) (hb : v.Bound w) : v.Allocated w := by
  obtain ⟨wr, hw⟩ := h.live w hb
  refine ⟨wr, hw, ?_⟩
  intro hnil
  have := (h.bound_iff hw).mp hb
  rw [hnil] at this
  exact this rfl

end Counted

/-- The drivers stay counted; a block is never given up, and is allocated for an output that is
    bound to the wire. -/
structure Advances (v v' : Wiring) : Prop where
  counted : v'.Counted
  kept : ∀ w, v.Allocated w → v'.Allocated w
  bound : ∀ w, v'.Allocated w → v.Allocated w ∨ v'.Bound w

theorem Counted.advances {v : Wiring} (h : v.Counted) : v.Advances v :=
  ⟨h, fun _ => id, fun _ => .inl⟩

/-- Steps after which the outputs bound before are still bound. -/
theorem Advances.trans {v v₁ v' : Wiring} (h : v.Advances v₁) (h' : v₁.Advances v')
    (hb : ∀ w, v₁.Bound w → v'.Bound w) : v.Advances v' where
  counted := h'.counted
  kept := fun w hw => h'.kept w (h.kept w hw)
  bound := fun w hw => (h'.bound w hw).elim (fun hw => (h.bound w hw).imp id (hb w)) .inr

section Advances

variable {v : Wiring} {q : Port} {w : WireId} {p : TokenportId} {wr : Wire}

theorem Counted.advances_tie (h : v.Counted) (hw : v.wire w = some wr) (hp : v.token p = none)
    (hfree : v.slot q = none) : v.Advances (v.tie q w p) := by
  cases hd : q.dir with
  | input =>
    have hsame : ∀ w', (v.tie q w p).Allocated w' ↔ v.Allocated w' := by
      intro w'
      rw [Allocated, wire_tie hw, hd]
      split
      · next he =>
        subst he
        rw [Allocated, hw]
        simp only [Option.some.injEq, exists_eq_left']
        rfl
      · rfl
    exact ⟨h.tieInput hd hw hp, fun w' => (hsame w').mpr, fun w' hw' => .inl ((hsame w').mp hw')⟩
  | output =>
    refine ⟨h.tieOutput hd hw hp hfree, fun w' hw' => ?_, fun w' hw' => ?_⟩
    · rw [Allocated, wire_tie hw, hd]
      split
      · exact ⟨_, rfl, arrayNtAppendElement_ne_nil _ p⟩
      · exact hw'
    · rw [Allocated, wire_tie hw, hd] at hw'
      split at hw'
      · next he =>
        subst he
        refine .inr ⟨q, hd, (Function.update_self ..).trans ?_⟩
        rw [hd]
        rfl
      · exact .inl hw'

theorem Counted.advances_untie (h : v.Counted) (hw : v.wire w = some wr) {i c : Nat}
    (hi : (entries (wr.ports q.dir))[i]? = some p) (hslot : v.slot q = some c)
    (hown : v.ownerOf q.dir c = some w) {tp : Tokenport}
    (htp : v.token p = some tp) (hfor : tp.IsFor q.gate q.index) :
    v.Advances (v.untie q w p i) := by
  have hsame : ∀ w', (v.untie q w p i).Allocated w' ↔ v.Allocated w' := by
    intro w'
    rw [Allocated, wire_untie hw]
    split
    · next he =>
      subst he
      rw [Allocated, hw]
      simp only [Option.some.injEq, exists_eq_left']
      cases hd : q.dir with
      | input => rfl
      | output => exact not_congr (arrayNtPopElement_eq_nil_iff wr.drivers i)
    · rfl
  refine ⟨?_, fun w' => (hsame w').mpr, fun w' hw' => .inl ((hsame w').mp hw')⟩
  cases hd : q.dir with
  | input => exact h.untieInput hd hw hi
  | output =>
    rw [hd] at hown
    obtain rfl : c = w := Option.some.inj hown
    exact h.untieOutput hd hw hi hslot htp hfor

end Advances

end Wiring

/-- A wiring call. An output whose slot holds a wire is listed by that wire, so unwiring finds
    its entry. -/
theorem Outcome.advances {v v' : Wiring} {hasPort : Prop} {q : Port} {wire : Option WireId}
    {r : Int} (ho : Outcome v hasPort q wire r v') (h : v.Counted) : v.Advances v' := by
  cases ho with
  | refused => exact h.advances
  | tied hwire hport hfree hw ht hp => exact h.advances_tie hw hp hfree
  | untied hwire hport hslot hown hw hi htp hfor => exact h.advances_untie hw hi hslot hown htp hfor
  | @cleared c w wr hwire hslot hown hw hno =>
    cases hd : q.dir with
    | input =>
      have hcounted : Wiring.Counted { v with slot := Function.update v.slot q none } := by
        refine h.of_same ⟨h.arrays.isNt, h.arrays.disjoint⟩ (fun q' hd' => ?_) (fun _ => id)
          fun w' wr' hw' => ⟨wr', hw', rfl, fun _ _ => rfl⟩
        have hne : q' ≠ q := by
          rintro rfl
          rw [hd] at hd'
          cases hd'
        exact Function.update_of_ne hne _ _
      exact ⟨hcounted, fun _ => id, fun _ => .inl⟩
    | output =>
      rw [hd] at hown hno
      obtain rfl : c = w := Option.some.inj hown
      have hcount := h.count c wr q.gate q.index hw
      have hzero : (entries wr.drivers).countP (v.isFor q.gate q.index) = 0 := by
        refine List.countP_eq_zero.mpr fun p hp => ?_
        obtain ⟨tp, htp, hnot⟩ := hno p hp
        simp only [Wiring.isFor, htp, Option.any_some, decide_eq_true_eq]
        exact hnot
      have hmem : q ∈ v.outputsFor c q.gate q.index := ⟨hd, rfl, rfl, hslot⟩
      rw [hzero, Nat.cast_zero, Set.encard_eq_zero] at hcount
      rw [hcount] at hmem
      exact hmem.elim

/-! ## Histories -/

/-- A new wire has no block. -/
theorem Wiring.Counted.addWire {v : Wiring} (h : v.Counted) {w : WireId} {wire : Wire}
    (hfresh : v.wire w = none) (hports : ∀ dir, wire.ports dir = []) :
    v.Advances (v.addWire w wire) := by
  have hcases : ∀ {w' wr}, (v.addWire w wire).wire w' = some wr →
      w' = w ∧ wr.drivers = [] ∨ v.wire w' = some wr := fun hw =>
    (Wiring.wire_addWire hports hw).imp (fun h => ⟨h.1, h.2 .output⟩) id
  have hold : ∀ {w' wr}, v.wire w' = some wr → (v.addWire w wire).wire w' = some wr := by
    intro w' wr hw
    have hne : w' ≠ w := by
      rintro rfl
      rw [hfresh] at hw
      cases hw
    exact (Function.update_of_ne hne _ _).trans hw
  refine ⟨⟨h.arrays.addWire hports, fun w' hb => ?_, fun w' wr g index hw => ?_⟩,
    fun w' ⟨wr, hw, hne⟩ => ⟨wr, hold hw, hne⟩, fun w' ⟨wr, hw, hne⟩ => ?_⟩
  · obtain ⟨wr, hw⟩ := h.live w' hb
    exact ⟨wr, hold hw⟩
  · rcases hcases hw with ⟨rfl, hnil⟩ | hw
    · have hempty : v.outputsFor w' g index = ∅ := by
        rw [Set.eq_empty_iff_forall_notMem]
        rintro q ⟨hd, -, -, hslot⟩
        obtain ⟨wr', hw'⟩ := h.live w' ⟨q, hd, hslot⟩
        rw [hfresh] at hw'
        cases hw'
      rw [hnil, show (v.addWire w' wire).outputsFor w' g index = ∅ from hempty, Set.encard_empty]
      rfl
    · exact h.count w' wr g index hw
  · rcases hcases hw with ⟨-, hnil⟩ | hw
    · exact absurd hnil hne
    · exact .inl ⟨wr, hw, hne⟩

theorem Wiring.Bound.tie {v : Wiring} {q : Port} {w w' : WireId} {p : TokenportId}
    (hfree : v.slot q = none) (hb : v.Bound w') : (v.tie q w p).Bound w' := by
  obtain ⟨q', hd, hslot⟩ := hb
  have hne : q' ≠ q := by
    rintro rfl
    rw [hfree] at hslot
    cases hslot
  exact ⟨q', hd, (Function.update_of_ne hne _ _).trans hslot⟩

theorem TiedTogether.advances {circ circ' : IOCircuit} {W W' : World}
    {outGate outPort wireName inGate inPort : String} {create : Bool} (h : W.Sound)
    (hc : W.wiring.Counted)
    (ht : TiedTogether circ W outGate outPort wireName inGate inPort create circ' W') :
    W.wiring.Advances W'.wiring := by
  obtain ⟨qo, qi, w, p, p', W₁, hdo, hdi, -, -, hqo, hqi, hw, -, hp, hp', hwiring⟩ := ht
  obtain ⟨-, -, hslot, -, -, wire, hwire, -⟩ := hw.spec h
  have hstart : W.wiring.Advances W₁.wiring := by
    cases hw with
    | existing => exact hc.advances
    | created hreg =>
      rw [World.wiring_newWire]
      refine hc.addWire (Option.map_eq_none_iff.mpr (h.freshWire _ le_rfl)) fun dir => ?_
      rw [Wire.bare_ports]
      exact freshWire_ports _ _ dir
  have hne : qi ≠ qo := by
    rintro rfl
    rw [hdo] at hdi
    cases hdi
  have hwire' := W₁.wiring_wire hwire
  have htie := hstart.counted.advances_tie hwire' hp (by rw [hslot]; exact hqo.free)
  have hfree : (W₁.wiring.tie qo w p).slot qi = none := by
    rw [show (W₁.wiring.tie qo w p).slot qi = W₁.wiring.slot qi from
      Function.update_of_ne hne _ _, hslot]
    exact hqi.free
  obtain ⟨wire₂, hwire₂⟩ : ∃ wire₂, (W₁.wiring.tie qo w p).wire w = some wire₂ :=
    Wiring.Counted.live_tie hwire' ⟨_, hwire'⟩
  rw [hwiring]
  refine (hstart.trans htie ?_).trans (htie.counted.advances_tie hwire₂ hp' hfree) ?_
  · exact fun w' => .tie (by rw [hslot]; exact hqo.free)
  · exact fun w' => .tie hfree

theorem CircuitOp.step_advances {ex : ExecCall → World → Option World} (hex : KeepsWiring ex)
    {S S' : Workspace} {op : CircuitOp} (h : S.world.Sound) (hc : S.world.wiring.Counted)
    (hstep : op.step ex S = some S') : S.world.wiring.Advances S'.world.wiring := by
  cases op with
  | wireGate dir type subtype w g index =>
    simp only [CircuitOp.step, Option.bind_eq_bind, Option.bind_eq_some_iff] at hstep
    obtain ⟨⟨r, W⟩, hcall, hret⟩ := hstep
    obtain rfl := Option.some.inj hret
    rcases lxcWireGate_cases hex h hcall with ⟨-, rfl⟩ | ⟨t, gt, -, -, -, -, hst⟩
    · exact hc.advances
    · exact hst.outcome.advances hc
  | wirePortsTogether c outGate outPort wireName inGate inPort create =>
    simp only [CircuitOp.step, Option.bind_eq_bind, Option.bind_eq_some_iff] at hstep
    obtain ⟨⟨r, circ, W⟩, hcall, hret⟩ := hstep
    obtain rfl := Option.some.inj hret
    rcases (lxcCircuitWirePortsTogether_cases hex h hcall).2 with ⟨-, -, rfl⟩ | ⟨-, ht⟩
    · exact hc.advances
    · exact ht.advances h hc
  | addPort dir name type subtype g junk =>
    simp only [CircuitOp.step, Option.bind_eq_bind, Option.bind_eq_some_iff] at hstep
    obtain ⟨W, hcall, hret⟩ := hstep
    obtain rfl := Option.some.inj hret
    rw [show W.wiring = S.world.wiring from (addPortiPort_wiring h hcall).2]
    exact hc.advances

/-- In some state of the history the wire has a driver. -/
def EverDriven (ex : ExecCall → World → Option World) (S : Workspace) (ops : List CircuitOp)
    (w : WireId) : Prop :=
  ∃ before after S', ops = before ++ after ∧
    Run.run (fun S op => CircuitOp.step ex S op) S before = some S' ∧ S'.world.Driven w

theorem World.Sound.driven_iff {W : World} (h : W.Sound) (w : WireId) :
    W.Driven w ↔ W.wiring.Bound w := by
  constructor
  · rintro ⟨g, gate, type, subtype, index, hg, hb⟩
    refine ⟨⟨g, .output, type, subtype, index⟩, rfl, Option.some.inj ?_⟩
    rw [← h.getWire_eq (q := ⟨g, .output, type, subtype, index⟩) hg]
    exact hb
  · rintro ⟨q, hd, hslot⟩
    obtain ⟨gate, hg, -⟩ := Option.bind_eq_some_iff.mp hslot
    refine ⟨q.gate, gate, q.type, q.subtype, q.index, hg, ?_⟩
    have hget := h.getWire_eq hg
    rw [hslot, hd] at hget
    exact hget

/-- What histories start from: nothing is wired, and the wires are as they are created. -/
structure Workspace.Fresh (S : Workspace) : Prop where
  unwired : S.world.Unwired
  drivers : ∀ w wire, S.world.wires w = some wire → wire.drivers = []

theorem Workspace.Fresh.counted {S : Workspace} (h : S.Fresh) : S.world.wiring.Counted := by
  have hbound : ∀ w, ¬ S.world.wiring.Bound w := by
    rintro w ⟨q, -, hslot⟩
    rw [h.unwired.slot_none q] at hslot
    cases hslot
  refine ⟨h.unwired.sound.arrays, fun w hb => absurd hb (hbound w), fun w wr g index hw => ?_⟩
  have hempty : S.world.wiring.outputsFor w g index = ∅ := by
    rw [Set.eq_empty_iff_forall_notMem]
    rintro q ⟨hd, -, -, hslot⟩
    exact hbound w ⟨q, hd, hslot⟩
  rw [hempty, Set.encard_empty, show entries wr.drivers = [] from
    (h.unwired.entries_nil hw .output).2]
  rfl

theorem Workspace.Fresh.not_allocated {S : Workspace} (h : S.Fresh) (w : WireId) :
    ¬ S.world.wiring.Allocated w := by
  rintro ⟨wr, hw, hne⟩
  obtain ⟨wire, hwire, rfl⟩ := Option.map_eq_some_iff.mp hw
  exact hne (h.drivers w wire hwire)

/-- The block of a wire is allocated once the wire has had a driver. -/
theorem allocated_iff_everDriven {ex : ExecCall → World → Option World} (hex : KeepsWiring ex)
    {S₀ : Workspace} (h₀ : S₀.Fresh) (ops : List CircuitOp) {S : Workspace}
    (hrun : Run.run (fun S op => CircuitOp.step ex S op) S₀ ops = some S) :
    S.world.wiring.Counted ∧ ∀ w, S.world.wiring.Allocated w ↔ EverDriven ex S₀ ops w := by
  induction ops using List.reverseRecOn generalizing S with
  | nil =>
    obtain rfl := Option.some.inj hrun
    refine ⟨h₀.counted, fun w => iff_of_false (h₀.not_allocated w) ?_⟩
    rintro ⟨before, after, S', happend, hrun', hdriven⟩
    obtain ⟨rfl, -⟩ := List.append_eq_nil_iff.mp happend.symm
    obtain rfl := Option.some.inj hrun'
    exact h₀.not_allocated w
      (h₀.counted.allocated_of_bound ((h₀.unwired.sound.driven_iff w).mp hdriven))
  | append_singleton ops op ih =>
    have hsound : S.world.Sound := CircuitOp.run_sound hex h₀.unwired hrun
    have hwhole := hrun
    rw [Run.run_append, Option.bind_eq_some_iff] at hrun
    obtain ⟨S₁, hrun₁, hrun⟩ := hrun
    obtain ⟨hc₁, hall₁⟩ := ih hrun₁
    have hsound₁ : S₁.world.Sound := CircuitOp.run_sound hex h₀.unwired hrun₁
    have hstep : op.step ex S₁ = some S := by
      rw [Run.run_cons] at hrun
      obtain ⟨S₂, hstep, hnil⟩ := Option.bind_eq_some_iff.mp hrun
      exact Option.some.inj hnil ▸ hstep
    have hadv := CircuitOp.step_advances hex hsound₁ hc₁ hstep
    refine ⟨hadv.counted, fun w => ⟨fun hw => ?_, fun hw => ?_⟩⟩
    · rcases hadv.bound w hw with hw | hb
      · obtain ⟨before, after, S', rfl, hrun', hdriven⟩ := (hall₁ w).mp hw
        exact ⟨before, after ++ [op], S', List.append_assoc .., hrun', hdriven⟩
      · exact ⟨ops ++ [op], [], S, (List.append_nil _).symm, hwhole,
          (hsound.driven_iff w).mpr hb⟩
    · obtain ⟨before, after, S', happend, hrun', hdriven⟩ := hw
      rcases List.eq_nil_or_concat after with rfl | ⟨init, last, rfl⟩
      · -- the wire has its driver at the end
        rw [List.append_nil] at happend
        rw [← happend, hwhole, Option.some.injEq] at hrun'
        subst hrun'
        exact hadv.counted.allocated_of_bound ((hsound.driven_iff w).mp hdriven)
      · rw [List.concat_eq_append, ← List.append_assoc] at happend
        obtain ⟨rfl, -⟩ := List.append_inj' happend rfl
        exact hadv.kept w ((hall₁ w).mpr ⟨before, init, S', rfl, hrun', hdriven⟩)

/-! ## Calls that return -/

section Returns

variable {ex : ExecCall → World → Option World} {W : World} {g : GateId} {gt : Gate}
  {type : Signal} {subtype : Int} {index : Nat} {w : WireId} {wr : Wire}

theorem tieInput_returns (h : W.Regular) (hg : W.gates g = some gt)
    (hport : W.HasPort ⟨g, .input, type, subtype, index⟩) (hw : W.wires w = some wr) :
    ∃ res, tieInput ex type subtype g index w W = some res := by
  obtain ⟨ret, side, hwire, -⟩ :=
    (h.allocTokenport (Tokenport.zeroed w g index)).write_slot
      (q := ⟨g, .input, type, subtype, index⟩) hg (fun _ => hport) (some W.nextTokenport)
  simp only [tieInput, World.allocTokenport_gates, hg, hwire, Option.bind_eq_bind,
    Option.bind_some, onSuccessfullWiring]
  split
  · exact ⟨_, rfl⟩
  · set W₁ := (W.allocTokenport (Tokenport.zeroed w g index)).setGate g (gt.setSide .input side)
    have htp : W₁.tokenports W.nextTokenport = some (Tokenport.zeroed w g index) :=
      Function.update_self ..
    have hw₁ : W₁.wires w = some wr := hw
    obtain ⟨i, hsucc⟩ := onSuccessfullInputWiring_some ex htp hw₁ type subtype g index
    exact ⟨_, by rw [hsucc]; rfl⟩

theorem tieOutput_returns (hreturns : ∀ c W, ∃ W', ex c W = some W') (h : W.Regular)
    (hg : W.gates g = some gt) (hport : W.HasPort ⟨g, .output, type, subtype, index⟩)
    (hw : W.wires w = some wr) : ∃ res, tieOutput ex type subtype g index w W = some res := by
  obtain ⟨ret, side, hwire, -⟩ :=
    h.write_slot (q := ⟨g, .output, type, subtype, index⟩) hg (fun _ => hport) (some w)
  simp only [tieOutput, hg, hwire, Option.bind_eq_bind, Option.bind_some, onSuccessfullWiring]
  split
  · exact ⟨_, rfl⟩
  · have hw₁ : ((W.setGate g (gt.setSide .output side)).allocTokenport
        (Tokenport.zeroed w g index)).wires w = some wr := hw
    have hg₁ : (W.setGate g (gt.setSide .output side)).gates g =
        some (gt.setSide .output side) := Function.update_self ..
    simp only [onSuccessfullOutputWiring, addPort_eq hw₁, Option.bind_eq_bind, Option.bind_some,
      World.setWire, World.allocTokenport_gates, hg₁]
    split
    · obtain ⟨W', hW'⟩ := hreturns _ _
      rw [hW']
      exact ⟨_, rfl⟩
    · exact ⟨_, rfl⟩

/-- Tying a wire of the right type to a free port that is accepted. -/
theorem privateGenericWiring_tie_returns {dir : Direction}
    (hreturns : ∀ c W, ∃ W', ex c W = some W') (h : W.Sound)
    (hg : W.gates g = some gt) (hacc : gt.Accepts dir type subtype index)
    (hw : W.wires w = some wr) (ht : wr.type = type)
    (hfree : W.wiring.slot ⟨g, dir, type, subtype, index⟩ = none) :
    ∃ res, privateGenericWiring ex dir (some type) subtype (some w) g index W = some res := by
  have hget : gt.getWire dir type subtype index = some none := by
    rw [← hfree]
    exact h.getWire_eq (q := ⟨g, dir, type, subtype, index⟩) hg
  have hport : W.HasPort ⟨g, dir, type, subtype, index⟩ :=
    (h.hasPort_iff (q := ⟨g, dir, type, subtype, index⟩) hg).mpr hacc.port
  rw [privateGenericWiring_of_free hg hacc.checked hw ht hget]
  cases dir with
  | input => exact tieInput_returns h.regular hg hport hw
  | output => exact tieOutput_returns hreturns h.regular hg hport hw

end Returns

/-! ## The call -/

/-- Both ports exist and are free, types and subtypes of the ports and of the wire match. -/
structure ValidCall (S : Workspace) (c : Nat) (outGate outPort wireName inGate inPort : String)
    (create : Bool) (qo qi : Port) : Prop where
  outPort : qo.dir = .output ∧ NamedPort (S.circuits c) S.world outGate outPort qo
  inPort : qi.dir = .input ∧ NamedPort (S.circuits c) S.world inGate inPort qi
  types : qi.type = qo.type ∧ qi.subtype = qo.subtype
  wire : ((S.circuits c).wires wireName = none ∧ create = true) ∨
    ∃ w wire, (S.circuits c).wires wireName = some w ∧ S.world.wires w = some wire ∧
      wire.type = qo.type ∧ wire.subtype = qo.subtype

/-- Some gate output is bound to the wire of the name. -/
def Workspace.DrivenByName (S : Workspace) (c : Nat) (wireName : String) : Prop :=
  ∃ w, (S.circuits c).wires wireName = some w ∧ S.world.Driven w

theorem outPortByName_of_named {circ : IOCircuit} {W : World} {gateName portName : String}
    {q : Port} (h : W.Sound) (hd : q.dir = .output) (hq : NamedPort circ W gateName portName q) :
    outPortByName circ gateName portName W = some (.ok (q.gate, q.type, q.subtype, q.index)) := by
  obtain ⟨gt, hg, hfound⟩ := hq.found
  have hget := h.getWire_eq hg
  rw [hq.free] at hget
  rw [hd] at hfound hget
  simp only [outPortByName, lxcCircuitGetGateByRefdes, hq.registered, hg, hfound, hget,
    Option.bind_eq_bind, Option.bind_some]
  rfl

theorem inPortByName_of_named {circ : IOCircuit} {W : World} {gateName portName : String}
    {q : Port} (h : W.Sound) (hd : q.dir = .input) (hq : NamedPort circ W gateName portName q) :
    inPortByName circ gateName portName q.type q.subtype W = some (.ok (q.gate, q.index)) := by
  obtain ⟨gt, hg, hfound⟩ := hq.found
  have hget := h.getWire_eq hg
  rw [hq.free] at hget
  rw [hd] at hfound hget
  simp only [inPortByName, lxcCircuitGetGateByRefdes, hq.registered, hg, hfound, hget,
    Option.bind_eq_bind, Option.bind_some]
  simp

section Call

variable {ex : ExecCall → World → Option World} {circ circ₁ : IOCircuit} {W W₁ : World}
  {outGate outPort wireName inGate inPort : String} {create : Bool} {qo qi : Port} {w : WireId}

/-- Once the wire is found or made, the call returns 0. -/
theorem lxcCircuitWirePortsTogether_succeeds (hex : KeepsWiring ex)
    (hreturns : ∀ c W, ∃ W', ex c W = some W') (h : W.Sound)
    (hqo : qo.dir = .output ∧ NamedPort circ W outGate outPort qo)
    (hqi : qi.dir = .input ∧ NamedPort circ W inGate inPort qi)
    (htypes : qi.type = qo.type ∧ qi.subtype = qo.subtype)
    (hwire : wireByName circ wireName qo.type qo.subtype create W = some (.ok w, circ₁, W₁)) :
    ∃ W', lxcCircuitWirePortsTogether ex circ outGate outPort wireName inGate inPort create W =
      some (0, circ₁, W') := by
  obtain ⟨hdo, hqo⟩ := hqo
  obtain ⟨hdi, hqi⟩ := hqi
  have hout := outPortByName_of_named h hdo hqo
  have hin := inPortByName_of_named h hdi hqi
  rw [htypes.1, htypes.2] at hin
  have hnamed : NamedWire circ W wireName qo.type qo.subtype w circ₁ W₁ := by
    rcases wireByName_cases hwire with ⟨e, he, -⟩ | ⟨w', he, hnamed, -⟩
    · cases he
    · cases he
      exact hnamed
  obtain ⟨h₁, hgates, hslot, -, -, wire, hwire₁, htype, -⟩ := hnamed.spec h
  obtain ⟨go, hgo, hacco, hlto⟩ := hqo.accepts h
  obtain ⟨gi, hgi, hacci, hlti⟩ := hqi.accepts h
  have hne : qi ≠ qo := by
    rintro rfl
    rw [hdo] at hdi
    cases hdi
  obtain ⟨go, diro, sig, sub, outIndex⟩ := qo
  obtain ⟨in_, diri, sigi, subi, inIndex⟩ := qi
  obtain rfl : diro = .output := hdo
  obtain rfl : diri = .input := hdi
  obtain rfl : sigi = sig := htypes.1
  obtain rfl : subi = sub := htypes.2
  -- the output
  have hfree : W₁.wiring.slot ⟨go, .output, sigi, subi, outIndex⟩ = none := by
    rw [hslot]
    exact hqo.free
  obtain ⟨⟨status, W₂⟩, hcallo⟩ := privateGenericWiring_tie_returns hreturns h₁ (hgates ▸ hgo)
    hacco hwire₁ htype hfree
  obtain ⟨rfl, h₂, hports, p, hp, hwiring₂⟩ := privateGenericWiring_tie hex h₁ (hgates ▸ hgo)
    hacco hwire₁ htype hfree hcallo
  -- the input, for which everything is as it was
  obtain ⟨gi', hgi', hacci'⟩ := World.accepts_of_samePorts h₁ h₂ hports (hgates ▸ hgi) hacci
  obtain ⟨wire', hwire', htype'⟩ := World.wire_of_tie hwiring₂ hwire₁
  have hfree' : W₂.wiring.slot ⟨in_, .input, sigi, subi, inIndex⟩ = none := by
    rw [World.slot_of_tie hwiring₂ hne, hslot]
    exact hqi.free
  obtain ⟨⟨status, W₃⟩, hcalli⟩ := privateGenericWiring_tie_returns hreturns h₂ hgi' hacci' hwire'
    (htype'.trans htype) hfree'
  obtain ⟨rfl, -⟩ := privateGenericWiring_tie hex h₂ hgi' hacci' hwire' (htype'.trans htype) hfree'
    hcalli
  refine ⟨W₃, ?_⟩
  rw [← intOfUint_of_lt hlto] at hcallo
  rw [← intOfUint_of_lt hlti] at hcalli
  simp only [lxcCircuitWirePortsTogether, hout, hin, hwire, lxcWireGateOutput, lxcWireGateInput,
    hcallo, hcalli, Option.bind_eq_bind, Option.bind_some]
  rfl

theorem wireByName_drivers (create : Bool) {wire : Wire} (hreg : circ.wires wireName = some w)
    (hw : W.wires w = some wire) (ht : wire.type = qo.type) (hs : wire.subtype = qo.subtype) :
    wireByName circ wireName qo.type qo.subtype create W =
      some (if wire.drivers = [] then .ok w else .error LxcErrno.alreadyHasDriver.code,
        circ, W) := by
  simp only [wireByName, lxcCircuitGetWireByRefdes, hreg, hw, ht, hs, Option.bind_eq_bind,
    Option.bind_some, ne_eq, not_true, or_self, if_false, List.length_eq_zero_iff]
  by_cases hd : wire.drivers = [] <;> simp [hd]

end Call

/-- In every history, a call with ports and wire that match is refused with
    `LXC_ERROR_ALREADY_HAS_DRIVER` exactly if an output is bound to the wire, and succeeds
    otherwise, if and only if the wire was never driven or still is. -/
theorem already_has_driver_iff {ex : ExecCall → World → Option World} (hex : KeepsWiring ex)
    (hreturns : ∀ c W, ∃ W', ex c W = some W') {S₀ S : Workspace} (h₀ : S₀.Fresh)
    {ops : List CircuitOp} (hrun : Run.run (fun S op => CircuitOp.step ex S op) S₀ ops = some S)
    {c : Nat} {outGate outPort wireName inGate inPort : String} {create : Bool} {qo qi : Port}
    (hvalid : ValidCall S c outGate outPort wireName inGate inPort create qo qi) :
    ∃ r circ' W', lxcCircuitWirePortsTogether ex (S.circuits c) outGate outPort wireName inGate
        inPort create S.world = some (r, circ', W') ∧
      ((r = LxcErrno.alreadyHasDriver.code ↔ S.DrivenByName c wireName) ∧
          (¬ S.DrivenByName c wireName → r = 0) ↔
        ∀ w, (S.circuits c).wires wireName = some w → EverDriven ex S₀ ops w →
          S.world.Driven w) := by
  have hsound := CircuitOp.run_sound hex h₀.unwired hrun
  obtain ⟨hcounted, hall⟩ := allocated_iff_everDriven hex h₀ ops hrun
  rcases hvalid.wire with ⟨hreg, rfl⟩ | ⟨w, wire, hreg, hw, ht, hs⟩
  · -- a new wire
    obtain ⟨W', hcall⟩ := lxcCircuitWirePortsTogether_succeeds hex hreturns hsound hvalid.outPort
      hvalid.inPort hvalid.types (wireByName_created hreg)
    have hnot : ¬ S.DrivenByName c wireName := by
      rintro ⟨w, hw, -⟩
      rw [hreg] at hw
      cases hw
    refine ⟨0, _, W', hcall, iff_of_true ⟨iff_of_false (by decide) hnot, fun _ => rfl⟩ ?_⟩
    intro w hw
    rw [hreg] at hw
    cases hw
  · have hdriven : S.DrivenByName c wireName ↔ S.world.Driven w := by
      refine ⟨?_, fun h => ⟨w, hreg, h⟩⟩
      rintro ⟨w', hw', h⟩
      obtain rfl := Option.some.inj (hreg.symm.trans hw')
      exact h
    have hever : EverDriven ex S₀ ops w ↔ wire.drivers ≠ [] := by
      rw [← hall w, Wiring.Allocated, S.world.wiring_wire hw]
      simp only [Option.some.injEq, exists_eq_left']
      rfl
    have hcond : (∀ w', (S.circuits c).wires wireName = some w' → EverDriven ex S₀ ops w' →
        S.world.Driven w') ↔ (wire.drivers ≠ [] → S.world.Driven w) := by
      simp only [hreg, Option.some.injEq, forall_eq', hever]
    rw [hcond, hdriven]
    by_cases hd : wire.drivers = []
    · -- no block: the call succeeds
      have hwire := wireByName_drivers create hreg hw ht hs
      rw [if_pos hd] at hwire
      obtain ⟨W', hcall⟩ := lxcCircuitWirePortsTogether_succeeds hex hreturns hsound hvalid.outPort
        hvalid.inPort hvalid.types hwire
      have hnot : ¬ S.world.Driven w := by
        intro h
        obtain ⟨wr, hwr, hne⟩ := hcounted.allocated_of_bound ((hsound.driven_iff w).mp h)
        rw [S.world.wiring_wire hw, Option.some.injEq] at hwr
        subst hwr
        exact hne hd
      exact ⟨0, _, W', hcall,
        iff_of_true ⟨iff_of_false (by decide) hnot, fun _ => rfl⟩ fun hne => absurd hd hne⟩
    · -- a block, allocated for the first driver: the call is refused
      have hwire := wireByName_drivers create hreg hw ht hs
      rw [if_neg hd] at hwire
      have hin := inPortByName_of_named hsound hvalid.inPort.1 hvalid.inPort.2
      rw [hvalid.types.1, hvalid.types.2] at hin
      refine ⟨_, _, _, by simp only [lxcCircuitWirePortsTogether,
        outPortByName_of_named hsound hvalid.outPort.1 hvalid.outPort.2, hin, hwire,
        Option.bind_eq_bind, Option.bind_some]; rfl, ?_⟩
      simp only [hd, not_false_eq_true, ne_eq, forall_const]
      constructor
      · exact fun h => h.1.mp trivial
      · exact fun h => ⟨iff_of_true trivial h, fun hnot => absurd h hnot⟩

theorem fresh_portiWorkspace : portiWorkspace.Fresh where
  unwired := unwired_portiWorld
  drivers := by
    intro w wire hw
    simp only [portiWorkspace, portiWorld, Option.ite_none_right_eq_some] at hw
    obtain ⟨-, hw⟩ := hw
    exact Option.some.inj hw ▸ rfl

/-- The state of a history that returns. -/
def portiAfter (ops : List CircuitOp)
    (h : (Run.run (fun S op => CircuitOp.step (fun _ W => some W) S op) portiWorkspace
      ops).isSome = true) : Workspace :=
  (Run.run (fun S op => CircuitOp.step (fun _ W => some W) S op) portiWorkspace ops).get h

theorem run_portiAfter (ops : List CircuitOp) (h) :
    Run.run (fun S op => CircuitOp.step (fun _ W => some W) S op) portiWorkspace ops =
      some (portiAfter ops h) :=
  (Option.some_get h).symm

theorem already_has_driver_iff_portiWorkspace :
    ∃ r circ' W', lxcCircuitWirePortsTogether (fun _ W => some W)
        ((portiAfter (addPorts 0) (by decide)).circuits 0) "G" "Q" "w" "G" "I" true
        (portiAfter (addPorts 0) (by decide)).world = some (r, circ', W') ∧
      ((r = LxcErrno.alreadyHasDriver.code ↔
          (portiAfter (addPorts 0) (by decide)).DrivenByName 0 "w") ∧
        (¬ (portiAfter (addPorts 0) (by decide)).DrivenByName 0 "w" → r = 0) ↔
        ∀ w, ((portiAfter (addPorts 0) (by decide)).circuits 0).wires "w" = some w →
          EverDriven (fun _ W => some W) portiWorkspace (addPorts 0) w →
          (portiAfter (addPorts 0) (by decide)).world.Driven w) :=
  already_has_driver_iff keepsWiring_some (fun _ W => ⟨W, rfl⟩) fresh_portiWorkspace
    (run_portiAfter (addPorts 0) (by decide))
    (show ValidCall _ 0 "G" "Q" "w" "G" "I" true ⟨0, .output, .bool, 0, 0⟩
      ⟨0, .input, .bool, 0, 0⟩ from ⟨⟨rfl, rfl, ⟨_, rfl, rfl⟩, rfl⟩,
      ⟨rfl, rfl, ⟨_, rfl, rfl⟩, rfl⟩, ⟨rfl, rfl⟩, .inl ⟨rfl, rfl⟩⟩)

/-- The wire of the two ports, tied and untied again. -/
def tiedOnce : List CircuitOp :=
  addPorts 0 ++ [.wirePortsTogether 0 "G" "Q" "w" "G" "I" true,
    .wireGate .output (some .bool) 0 none 0 0, .wireGate .input (some .bool) 0 none 0 0]

/-- The call is refused, and nothing drives the wire. -/
theorem not_already_has_driver_iff :
    ValidCall (portiAfter tiedOnce (by decide)) 0 "G" "Q" "w" "G" "I" true
        ⟨0, .output, .bool, 0, 0⟩ ⟨0, .input, .bool, 0, 0⟩ ∧
      ¬ (portiAfter tiedOnce (by decide)).DrivenByName 0 "w" ∧
      (lxcCircuitWirePortsTogether (fun _ W => some W)
        ((portiAfter tiedOnce (by decide)).circuits 0) "G" "Q" "w" "G" "I" true
        (portiAfter tiedOnce (by decide)).world).map Prod.fst =
          some LxcErrno.alreadyHasDriver.code := by
  refine ⟨⟨⟨rfl, rfl, ⟨_, rfl, rfl⟩, rfl⟩, ⟨rfl, rfl, ⟨_, rfl, rfl⟩, rfl⟩, ⟨rfl, rfl⟩,
    .inr ⟨1, _, rfl, rfl, rfl, rfl⟩⟩, ?_, by decide⟩
  rintro ⟨w, hreg, hdriven⟩
  have hrun := run_portiAfter tiedOnce (by decide)
  have hcounted := (allocated_iff_everDriven keepsWiring_some fresh_portiWorkspace tiedOnce hrun).1
  have hsound := CircuitOp.run_sound keepsWiring_some fresh_portiWorkspace.unwired hrun
  have hb := (hsound.driven_iff w).mp hdriven
  obtain rfl : 1 = w := Option.some.inj hreg
  exact (hcounted.bound_iff (World.wiring_wire _ rfl)).mp hb rfl

end LogxControll
