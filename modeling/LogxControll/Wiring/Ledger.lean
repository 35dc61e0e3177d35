/-
  The bindings of a wiring as one relation, for worlds in which a wire may be tied to ports of
  other subtypes than its own.

  `B q w p` says that port `q` is bound to wire `w`, which lists it under tokenport `p`.
  `Wiring.Ledger` says that slots, entries and tokenports are the three projections of `B`. An
  entry names its gate and index only, so `Ledger` asks that a wire drives no (gate, index) twice;
  then unwiring an input finds the entry of that input. The slot of an output does not name an
  entry, and two entries for the same (gate, index) can change places (`Ledger.exchange`).
-/
import LogxControll.Wiring.Together

namespace LogxControll

/-- Which port is bound to which wire, by which token port. -/
abbrev Bindings := Port → WireId → TokenportId → Prop

/-- Slots, wires and token ports hold what the bindings say, and nothing else; the inputs of a gate
    have different indices. -/
structure Wiring.Ledger (v : Wiring) (B : Bindings) : Prop where
  arrays : v.Arrays
  slot : ∀ q c, v.slot q = some c ↔ ∃ w p, B q w p ∧ c = Wiring.content q.dir w p
  entry : ∀ w wr dir p, v.wire w = some wr →
    (p ∈ entries (wr.ports dir) ↔ ∃ q, B q w p ∧ q.dir = dir)
  wire : ∀ q w p, B q w p → ∃ wr, v.wire w = some wr
  token : ∀ q w p, B q w p → v.token p = some (Wiring.tokenOf q w)
  port : ∀ q w p w' p', B q w p → B q w' p' → w = w' ∧ p = p'
  tokenport : ∀ q q' w w' p, B q w p → B q' w' p → q = q'
  live : ∀ p tp, v.token p = some tp → ∃ q w, B q w p
  single : ∀ q q' w p p', B q w p → B q' w p' → q.dir = .input → q'.dir = .input →
    q.gate = q'.gate → q.index = q'.index → q = q'

/-- The wire lists no entry for the gate and index of the port. -/
def Wiring.Unlisted (v : Wiring) (w : WireId) (q : Port) : Prop :=
  ∀ wr, v.wire w = some wr → ∀ p ∈ entries (wr.ports q.dir), ∀ tp, v.token p = some tp →
    ¬ tp.IsFor q.gate q.index

/-- One binding more. -/
def Bindings.bind (B : Bindings) (q : Port) (w : WireId) (p : TokenportId) : Bindings :=
  fun q' w' p' => B q' w' p' ∨ (q' = q ∧ w' = w ∧ p' = p)

/-- All bindings but those of a port. -/
def Bindings.unbind (B : Bindings) (q : Port) : Bindings := fun q' w' p' => B q' w' p' ∧ q' ≠ q

/-- Ports `q` and `q'` with each other's bindings. -/
def Bindings.exchange (B : Bindings) (q q' : Port) : Bindings := fun q₁ => B (Equiv.swap q q' q₁)

namespace Wiring.Ledger

variable {v : Wiring} {B : Bindings} {q : Port} {w : WireId} {p : TokenportId} {wr : Wire} {i : Nat}

/-- A wire that lists no entry for the port has no binding for its gate and index. -/
theorem not_bound_of_unlisted (h : v.Ledger B) (hw : v.wire w = some wr)
    (hun : v.Unlisted w q) {q' : Port} {p' : TokenportId} (hB : B q' w p') (hd : q'.dir = q.dir)
    (hg : q'.gate = q.gate) (hi : q'.index = q.index) : False := by
  have hmem : p' ∈ entries (wr.ports q.dir) := (h.entry w wr q.dir p' hw).mpr ⟨q', hB, hd⟩
  exact hun wr hw p' hmem _ (h.token q' w p' hB) ⟨hg, hi⟩

theorem tie (h : v.Ledger B) (hw : v.wire w = some wr) (hp : v.token p = none)
    (hfree : v.slot q = none) (hun : q.dir = .input → v.Unlisted w q) :
    (v.tie q w p).Ledger (B.bind q w p) where
  arrays := h.arrays.tie hw hp
  slot := by
    intro q' c
    by_cases hq : q' = q
    · subst hq
      have hnone : ∀ w' p', ¬ B q' w' p' := by
        intro w' p' hB
        have := (h.slot q' _).mpr ⟨w', p', hB, rfl⟩
        rw [hfree] at this
        cases this
      rw [show (v.tie q' w p).slot q' = some (content q'.dir w p) from Function.update_self ..,
        Option.some.injEq]
      constructor
      · rintro rfl
        exact ⟨w, p, .inr ⟨rfl, rfl, rfl⟩, rfl⟩
      · rintro ⟨w', p', hB | ⟨-, rfl, rfl⟩, rfl⟩
        · exact absurd hB (hnone w' p')
        · rfl
    · rw [show (v.tie q w p).slot q' = v.slot q' from Function.update_of_ne hq _ _, h.slot]
      refine exists_congr fun w' => exists_congr fun p' => and_congr_left fun _ => ?_
      exact ⟨.inl, fun hB => hB.resolve_right fun he => hq he.1⟩
  entry := by
    intro w' wr' dir p' hw'
    rw [mem_entries_tie h.arrays hw hw']
    constructor
    · rintro (⟨wr₀, hw₀, hmem⟩ | ⟨rfl, rfl, rfl⟩)
      · obtain ⟨q', hB, hd⟩ := (h.entry w' wr₀ dir p' hw₀).mp hmem
        exact ⟨q', .inl hB, hd⟩
      · exact ⟨q, .inr ⟨rfl, rfl, rfl⟩, rfl⟩
    · rintro ⟨q', hB | ⟨rfl, rfl, rfl⟩, hd⟩
      · obtain ⟨wr₀, hw₀⟩ := h.wire q' w' p' hB
        exact .inl ⟨wr₀, hw₀, (h.entry w' wr₀ dir p' hw₀).mpr ⟨q', hB, hd⟩⟩
      · exact .inr ⟨rfl, hd.symm, rfl⟩
  wire := by
    intro q' w' p' hB
    rw [wire_tie hw]
    by_cases hww : w' = w
    · exact ⟨_, by rw [if_pos hww]⟩
    · rw [if_neg hww]
      rcases hB with hB | ⟨-, he, -⟩
      · exact h.wire q' w' p' hB
      · exact absurd he hww
  token := by
    intro q' w' p' hB
    rcases hB with hB | ⟨rfl, rfl, rfl⟩
    · have hne : p' ≠ p := by
        rintro rfl
        have := h.token q' w' p' hB
        rw [hp] at this
        cases this
      rw [show (v.tie q w p).token p' = v.token p' from Function.update_of_ne hne _ _]
      exact h.token q' w' p' hB
    · exact Function.update_self ..
  port := by
    have hnone : ∀ w' p', ¬ B q w' p' := by
      intro w' p' hB
      have := (h.slot q _).mpr ⟨w', p', hB, rfl⟩
      rw [hfree] at this
      cases this
    rintro q' w₁ p₁ w₂ p₂ (h₁ | ⟨rfl, rfl, rfl⟩) (h₂ | ⟨he, rfl, rfl⟩)
    · exact h.port q' w₁ p₁ w₂ p₂ h₁ h₂
    · exact absurd (he ▸ h₁) (hnone w₁ p₁)
    · exact absurd h₂ (hnone w₂ p₂)
    · exact ⟨rfl, rfl⟩
  tokenport := by
    have hnone : ∀ q' w', ¬ B q' w' p := by
      intro q' w' hB
      have := h.token q' w' p hB
      rw [hp] at this
      cases this
    rintro q₁ q₂ w₁ w₂ p' (h₁ | ⟨rfl, rfl, rfl⟩) (h₂ | ⟨rfl, rfl, he⟩)
    · exact h.tokenport q₁ q₂ w₁ w₂ p' h₁ h₂
    · exact absurd (he ▸ h₁) (hnone q₁ w₁)
    · exact absurd h₂ (hnone q₂ w₂)
    · rfl
  live := by
    intro p' tp htp
    by_cases hpp : p' = p
    · exact ⟨q, w, .inr ⟨rfl, rfl, hpp⟩⟩
    · rw [show (v.tie q w p).token p' = v.token p' from Function.update_of_ne hpp _ _] at htp
      obtain ⟨q', w', hB⟩ := h.live p' tp htp
      exact ⟨q', w', .inl hB⟩
  single := by
    rintro q₁ q₂ w' p₁ p₂ (h₁ | ⟨rfl, rfl, rfl⟩) (h₂ | ⟨rfl, he, rfl⟩) hd₁ hd₂ hg hi
    · exact h.single q₁ q₂ w' p₁ p₂ h₁ h₂ hd₁ hd₂ hg hi
    · subst he
      exact (h.not_bound_of_unlisted hw (hun hd₂) h₁ (hd₁.trans hd₂.symm) hg hi).elim
    · exact (h.not_bound_of_unlisted hw (hun hd₁) h₂ (hd₂.trans hd₁.symm) hg.symm hi.symm).elim
    · rfl

theorem untie (h : v.Ledger B) (hw : v.wire w = some wr)
    (hi : (entries (wr.ports q.dir))[i]? = some p) (hB : B q w p) :
    (v.untie q w p i).Ledger (B.unbind q) where
  arrays := h.arrays.untie hw hi
  slot := by
    intro q' c
    by_cases hq : q' = q
    · subst hq
      rw [show (v.untie q' w p i).slot q' = none from Function.update_self ..]
      refine iff_of_false (fun he => by cases he) ?_
      rintro ⟨w', p', ⟨-, hne⟩, -⟩
      exact hne rfl
    · rw [show (v.untie q w p i).slot q' = v.slot q' from Function.update_of_ne hq _ _, h.slot]
      exact exists_congr fun w' => exists_congr fun p' => and_congr_left fun _ =>
        ⟨fun hB' => ⟨hB', hq⟩, And.left⟩
  entry := by
    intro w' wr' dir p' hw'
    rw [mem_entries_untie h.arrays hw hi hw']
    constructor
    · rintro ⟨wr₀, hw₀, hmem, hne⟩
      obtain ⟨q', hB', hd⟩ := (h.entry w' wr₀ dir p' hw₀).mp hmem
      refine ⟨q', ⟨hB', ?_⟩, hd⟩
      rintro rfl
      exact hne (h.port q' w' p' w p hB' hB).2
    · rintro ⟨q', ⟨hB', hne⟩, hd⟩
      obtain ⟨wr₀, hw₀⟩ := h.wire q' w' p' hB'
      refine ⟨wr₀, hw₀, (h.entry w' wr₀ dir p' hw₀).mpr ⟨q', hB', hd⟩, ?_⟩
      rintro rfl
      exact hne (h.tokenport q' q w' w p' hB' hB)
  wire := by
    rintro q' w' p' ⟨hB', -⟩
    rw [wire_untie hw]
    by_cases hww : w' = w
    · exact ⟨_, by rw [if_pos hww]⟩
    · rw [if_neg hww]
      exact h.wire q' w' p' hB'
  token := by
    rintro q' w' p' ⟨hB', hne⟩
    have hpne : p' ≠ p := by
      rintro rfl
      exact hne (h.tokenport q' q w' w p' hB' hB)
    exact (Function.update_of_ne hpne _ _).trans (h.token q' w' p' hB')
  port := fun q' w₁ p₁ w₂ p₂ h₁ h₂ => h.port q' w₁ p₁ w₂ p₂ h₁.1 h₂.1
  tokenport := fun q₁ q₂ w₁ w₂ p' h₁ h₂ => h.tokenport q₁ q₂ w₁ w₂ p' h₁.1 h₂.1
  live := by
    intro p' tp htp
    have hne : p' ≠ p := by
      rintro rfl
      rw [show (v.untie q w p' i).token p' = none from Function.update_self ..] at htp
      cases htp
    rw [show (v.untie q w p i).token p' = v.token p' from Function.update_of_ne hne _ _] at htp
    obtain ⟨q', w', hB'⟩ := h.live p' tp htp
    refine ⟨q', w', hB', ?_⟩
    rintro rfl
    exact hne (h.port q' w' p' w p hB' hB).2
  single := fun q₁ q₂ w' p₁ p₂ h₁ h₂ => h.single q₁ q₂ w' p₁ p₂ h₁.1 h₂.1

/-- The slots of outputs do not tell apart two entries of one wire for one (gate, index). -/
theorem exchange (h : v.Ledger B) {q' : Port} {p' : TokenportId} (hB : B q w p) (hB' : B q' w p')
    (hd : q.dir = .output) (hd' : q'.dir = .output) (hg : q'.gate = q.gate)
    (hi : q'.index = q.index) : v.Ledger (B.exchange q q') := by
  have hsame : ∀ q₁, (Equiv.swap q q' q₁).dir = q₁.dir ∧ (Equiv.swap q q' q₁).gate = q₁.gate ∧
      (Equiv.swap q q' q₁).index = q₁.index := by
    intro q₁
    rw [Equiv.swap_apply_def]
    split
    · next he => exact he ▸ ⟨hd'.trans hd.symm, hg, hi⟩
    split
    · next he => exact he ▸ ⟨hd.trans hd'.symm, hg.symm, hi.symm⟩
    · exact ⟨rfl, rfl, rfl⟩
  have htoken : ∀ q₁ w₁, tokenOf (Equiv.swap q q' q₁) w₁ = tokenOf q₁ w₁ := by
    intro q₁ w₁
    rw [tokenOf, tokenOf, (hsame q₁).2.1, (hsame q₁).2.2]
  have hinvol : ∀ q₁, Equiv.swap q q' (Equiv.swap q q' q₁) = q₁ :=
    Equiv.swap_apply_self q q'
  -- both slots hold the wire
  have hslot : ∀ q₁, v.slot (Equiv.swap q q' q₁) = v.slot q₁ := by
    have hwire : v.slot q = some w := (h.slot q w).mpr ⟨w, p, hB, by rw [hd]; rfl⟩
    have hwire' : v.slot q' = some w := (h.slot q' w).mpr ⟨w, p', hB', by rw [hd']; rfl⟩
    intro q₁
    rw [Equiv.swap_apply_def]
    split
    · next he => rw [he, hwire, hwire']
    split
    · next he => rw [he, hwire, hwire']
    · rfl
  exact {
    arrays := h.arrays
    slot := by
      intro q₁ c
      rw [← hslot q₁, h.slot, (hsame q₁).1]
      rfl
    entry := by
      intro w₁ wr₁ dir p₁ hw₁
      rw [h.entry w₁ wr₁ dir p₁ hw₁]
      constructor
      · rintro ⟨q₁, hB₁, rfl⟩
        exact ⟨Equiv.swap q q' q₁, by rw [Bindings.exchange, hinvol]; exact hB₁, (hsame q₁).1⟩
      · rintro ⟨q₁, hB₁, rfl⟩
        exact ⟨_, hB₁, (hsame q₁).1⟩
    wire := fun q₁ w₁ p₁ hB₁ => h.wire _ w₁ p₁ hB₁
    token := fun q₁ w₁ p₁ hB₁ => (h.token _ w₁ p₁ hB₁).trans (congrArg some (htoken q₁ w₁))
    port := fun q₁ w₁ p₁ w₂ p₂ h₁ h₂ => h.port _ w₁ p₁ w₂ p₂ h₁ h₂
    tokenport := fun q₁ q₂ w₁ w₂ p₁ h₁ h₂ =>
      (Equiv.swap q q').injective (h.tokenport _ _ w₁ w₂ p₁ h₁ h₂)
    live := by
      intro p₁ tp htp
      obtain ⟨q₁, w₁, hB₁⟩ := h.live p₁ tp htp
      exact ⟨Equiv.swap q q' q₁, w₁, by rw [Bindings.exchange, hinvol]; exact hB₁⟩
    single := by
      intro q₁ q₂ w₁ p₁ p₂ h₁ h₂ hd₁ hd₂ hgate hindex
      refine (Equiv.swap q q').injective (h.single _ _ w₁ p₁ p₂ h₁ h₂ ((hsame q₁).1.trans hd₁)
        ((hsame q₂).1.trans hd₂) ?_ ?_)
      · rw [(hsame q₁).2.1, (hsame q₂).2.1, hgate]
      · rw [(hsame q₁).2.2, (hsame q₂).2.2, hindex] }

/-- Nothing is bound where no slot holds anything, no wire lists anything and no tokenport is
    left. -/
theorem empty (ha : v.Arrays) (hslot : ∀ q, v.slot q = none)
    (hentry : ∀ w wr dir, v.wire w = some wr → entries (wr.ports dir) = [])
    (htoken : ∀ p, v.token p = none) :
    v.Ledger fun _ _ _ => False where
  arrays := ha
  slot := by simp [hslot]
  entry := by
    intro w wr dir p hw
    simp [hentry w wr dir hw]
  wire := fun _ _ _ hB => hB.elim
  token := fun _ _ _ hB => hB.elim
  port := fun _ _ _ _ _ hB => hB.elim
  tokenport := fun _ _ _ _ _ hB => hB.elim
  live := by simp [htoken]
  single := fun _ _ _ _ _ hB => hB.elim

end Wiring.Ledger

/-! ## Calls -/

section Calls

variable {v v' : Wiring} {B : Bindings} {hasPort : Prop} {q : Port} {r : Int}

/-- A call with a wire that does not drive the port yet is refused, or binds the port. -/
theorem Outcome.bind {w : WireId} (ho : Outcome v hasPort q (some w) r v') (h : v.Ledger B)
    (hun : q.dir = .input → hasPort → v.slot q = none → v.Unlisted w q) :
    (r ≠ 0 ∧ v' = v) ∨ (r = 0 ∧ ∃ p, v' = v.tie q w p ∧ v'.Ledger (B.bind q w p)) := by
  cases ho with
  | refused hr => exact .inl ⟨hr, rfl⟩
  | tied hwire hport hfree hw ht hp =>
    obtain rfl := Option.some.inj hwire
    exact .inr ⟨rfl, _, rfl, h.tie hw hp hfree fun hd => hun hd hport hfree⟩
  | untied hwire => cases hwire
  | cleared hwire => cases hwire

/-- An unwiring call that is not refused takes away the binding of its port. -/
theorem Outcome.unbind (ho : Outcome v hasPort q none r v') (h : v.Ledger B) :
    r = 0 ∧ (∃ w p i, v' = v.untie q w p i) ∧ ∃ B', v'.Ledger B' := by
  have howner : ∀ {c w}, v.slot q = some c → v.ownerOf q.dir c = some w → ∃ p, B q w p := by
    intro c w hslot hown
    obtain ⟨w', p, hB, rfl⟩ := (h.slot q c).mp hslot
    have hw : w' = w := by
      cases hd : q.dir with
      | input =>
        rw [hd] at hown
        simp only [Wiring.ownerOf, Wiring.content, h.token q w' p hB, Option.map_some,
          Option.some.injEq] at hown
        exact hown
      | output =>
        rw [hd] at hown
        exact Option.some.inj hown
    exact ⟨p, hw ▸ hB⟩
  cases ho with
  | refused hr hwire => exact absurd rfl hwire
  | tied hwire => cases hwire
  | @untied c w wr p tp i hwire hport hslot hown hw hi htp hfor =>
    obtain ⟨p₀, hB₀⟩ := howner hslot hown
    obtain ⟨q', hB, hd⟩ := (h.entry w wr q.dir p hw).mp (List.mem_of_getElem? hi)
    have htok := h.token q' w p hB
    rw [htp, Option.some.injEq] at htok
    subst htok
    refine ⟨rfl, ⟨w, p, i, rfl⟩, ?_⟩
    cases hdir : q.dir with
    | input =>
      -- the entry found is that of the one input with this gate and index
      obtain rfl := h.single q' q w p p₀ hB hB₀ (hd.trans hdir) hdir hfor.1 hfor.2
      exact ⟨_, h.untie hw hi hB⟩
    | output =>
      have hex := h.exchange hB₀ hB hdir (hd.trans hdir) hfor.1 hfor.2
      have hBq : B.exchange q q' q w p := by
        rw [Bindings.exchange, Equiv.swap_apply_left]
        exact hB
      exact ⟨_, hex.untie hw hi hBq⟩
  | @cleared c w wr hwire hslot hown hw hno =>
    obtain ⟨p, hB⟩ := howner hslot hown
    obtain ⟨tp, htp, hnot⟩ := hno p ((h.entry w wr q.dir p hw).mpr ⟨q, hB, rfl⟩)
    rw [h.token q w p hB, Option.some.injEq] at htp
    subst htp
    exact absurd ⟨rfl, rfl⟩ hnot

end Calls

/-! ## Worlds -/

/-- Regular gates, and slots that agree with the entries of the wires. -/
structure World.Wired (W : World) : Prop where
  regular : W.Regular
  ledger : ∃ B, W.wiring.Ledger B

/-- Regular gates and wires with nothing tied to anything. -/
structure World.Untied (W : World) : Prop where
  gates : ∀ g gt, W.gates g = some gt → gt.Regular ∧ ∀ dir, ∀ c ∈ (gt.side dir).slots, c = none
  wires : ∀ w wire dir, W.wires w = some wire → IsNt (wire.ports dir) []
  tokenports : ∀ p, W.tokenports p = none
  freshWire : ∀ w, W.nextWire ≤ w → W.wires w = none

theorem World.Untied.slot_none {W : World} (h : W.Untied) (q : Port) : W.wiring.slot q = none := by
  cases hg : W.gates q.gate with
  | none => simp [World.wiring, hg]
  | some gt =>
    obtain ⟨hreg, hall⟩ := h.gates q.gate gt hg
    rw [W.wiring_slot hg]
    exact hreg.boundAt_of_empty hall ..

theorem World.Untied.wired {W : World} (h : W.Untied) : W.Wired := by
  have hentry : ∀ w wr dir, W.wiring.wire w = some wr →
      IsNt (wr.ports dir) [] ∧ entries (wr.ports dir) = [] := by
    intro w wr dir hw
    obtain ⟨wire, hwire, rfl⟩ := Option.map_eq_some_iff.mp hw
    rw [Wire.bare_ports]
    have := h.wires w wire dir hwire
    exact ⟨this, this.entries_eq⟩
  have harrays : W.wiring.Arrays := by
    refine ⟨fun w wr dir hw => ⟨[], (hentry w wr dir hw).1, List.nodup_nil, by simp⟩, ?_⟩
    intro w wr dir w' wr' dir' p hw _ hp
    simp [(hentry w wr dir hw).2] at hp
  have htoken : ∀ p, W.wiring.token p = none := by
    intro p
    simp [World.wiring, h.tokenports p]
  exact ⟨⟨fun g gt hg => (h.gates g gt hg).1, fun p _ => h.tokenports p, h.freshWire, harrays⟩, _,
    .empty harrays h.slot_none (fun w wr dir hw => (hentry w wr dir hw).2) htoken⟩

/-- A call of `lxc_wire_gate_input` or `lxc_wire_gate_output` with its arguments. -/
structure WiringCall where
  dir : Direction
  type : Option Signal
  subtype : Int
  wire : Option WireId
  gate : GateId
  index : Nat
  deriving DecidableEq, Repr

/-- The call, with what it returns. -/
def WiringCall.step (ex : ExecCall → World → Option World) (W : World) (c : WiringCall) :
    Option (Int × World) :=
  lxcWireGate ex c.dir c.type c.subtype c.wire c.gate c.index W

/-- The port the call is about when its signal is `type`. -/
def WiringCall.port (c : WiringCall) (type : Signal) : Port :=
  ⟨c.gate, c.dir, type, c.subtype, (intOfUint c.index).toNat⟩

/-- What a call makes of a world with a ledger. -/
structure WiringCall.Result (c : WiringCall) (W W' : World) (r : Int) : Prop where
  regular : W'.Regular
  ports : SamePorts W W'
  refused : r ≠ 0 → W'.wiring = W.wiring
  unwired : c.wire = none → r ≠ LxcErrno.notConnectedUnwiring.code ∧ (r ≠ 0 → W' = W)
  ledger : ∃ B, W'.wiring.Ledger B
  frame : ∀ q : Port, q.gate ≠ c.gate → W'.wiring.slot q = W.wiring.slot q

section Worlds

variable {ex : ExecCall → World → Option World} {W W' : World} {B : Bindings}

/-- Calls that put no gate and index twice among the drivens of a wire keep the ledger. -/
theorem WiringCall.step_ledger (hex : KeepsWiring ex) (h : W.Regular) (hL : W.wiring.Ledger B)
    (c : WiringCall)
    (hok : ¬ W.TiesSecondOutput c.dir c.subtype c.wire c.gate (intOfUint c.index))
    (hun : ∀ w type, c.wire = some w → c.dir = .input → W.HasPort (c.port type) →
      W.wiring.slot (c.port type) = none → W.wiring.Unlisted w (c.port type)) {r : Int}
    (hcall : c.step ex W = some (r, W')) : c.Result W W' r := by
  have hcall' : privateGenericWiring ex c.dir c.type c.subtype c.wire c.gate (intOfUint c.index) W =
      some (r, W') := by
    unfold WiringCall.step at hcall
    cases hd : c.dir <;> rw [hd] at hcall <;> exact hcall
  rcases privateGenericWiring_step hex h hok hcall' with
    ⟨hr, hcode, rfl⟩ | ⟨type, gt, -, -, hg, hck, hstep⟩
  · exact ⟨h, SamePorts.refl _, fun _ => rfl, fun _ => ⟨hcode, fun _ => rfl⟩, ⟨B, hL⟩,
      fun _ _ => rfl⟩
  obtain ⟨q, hq, hstep⟩ : ∃ q, q = c.port type ∧ Step W W' q c.wire r := ⟨_, rfl, hstep⟩
  have ho := hstep.outcome
  have hne : ∀ q' : Port, q'.gate ≠ c.gate → q' ≠ q := by
    rintro q' hgate rfl
    rw [hq] at hgate
    exact hgate rfl
  cases hwire : c.wire with
  | some w =>
    have hun' := hun w type hwire
    rw [← hq] at hun'
    rw [hwire] at ho
    have hsome : c.wire ≠ none := by simp [hwire]
    have hdir : q.dir = c.dir := by rw [hq]; rfl
    rcases ho.bind hL fun hd => hun' (hdir.symm.trans hd) with ⟨hr, hsame⟩ | ⟨hr, p, hv, hL'⟩
    · exact ⟨hstep.regular, hstep.ports, fun _ => hsame, fun he => absurd he hsome,
        ⟨B, hsame ▸ hL⟩, fun q' _ => by rw [hsame]⟩
    · refine ⟨hstep.regular, hstep.ports, fun hne => absurd hr hne, fun he => absurd he hsome,
        ⟨_, hL'⟩, fun q' hgate => ?_⟩
      rw [hv]
      exact Function.update_of_ne (hne q' hgate) _ _
  | none =>
    rw [hwire] at ho
    obtain ⟨rfl, ⟨w, p, i, hv⟩, hL'⟩ := ho.unbind hL
    refine ⟨hstep.regular, hstep.ports, fun hne => absurd rfl hne,
      fun _ => ⟨by decide, fun hne => absurd rfl hne⟩, hL', fun q' hgate => ?_⟩
    rw [hv]
    exact Function.update_of_ne (hne q' hgate) _ _

theorem removePort_of_found {g : GateId} {index : Nat} {w : WireId} {dir : Direction}
    {wire : Wire} {i : Nat} (hw : W.wires w = some wire)
    (hfind : findPort W g index (wire.ports dir) = some (some i)) :
    ∃ p, removePort W g index w dir = some (true,
      (W.setWire w (wire.setPorts dir (arrayNtPopElement (wire.ports dir) i).2)).freeTokenport p) := by
  obtain ⟨p, tp, hp, -, -⟩ := findPort_some hfind
  have hpop : (arrayNtPopElement (wire.ports dir) i).1 = some p := by
    rw [arrayNtPopElement, if_neg (Nat.not_le.mpr (List.getElem?_eq_some_iff.mp hp).1),
      List.getD_eq_getElem?_getD, hp]
    rfl
  refine ⟨p, ?_⟩
  unfold removePort
  rw [hw]
  simp only [Option.bind_eq_bind, Option.bind_some]
  split
  · next hnil =>
    rw [hnil] at hp
    cases hp
  · next hnone =>
    rw [hnone] at hfind
    cases hfind
  · simp only [hfind, hpop, Option.bind_some]
    rfl

theorem onSuccessfullWiring_returns (hreturns : ∀ c W, ∃ W', ex c W = some W') {g : GateId}
    {gt : Gate} (hg : W.gates g = some gt) (dir : Direction) (type : Signal) (subtype : Int)
    (index : Nat) : ∃ W', onSuccessfullWiring ex dir type subtype none g index W = some W' := by
  cases dir with
  | input =>
    simp only [onSuccessfullWiring, onSuccessfullInputWiring, hg, Option.bind_eq_bind,
      Option.bind_some]
    split
    · exact hreturns _ W
    · exact ⟨W, rfl⟩
  | output => exact ⟨W, rfl⟩

/-- A bound port is unwired without following a pointer to freed memory. -/
theorem unwirePort_returns (hreturns : ∀ c W, ∃ W', ex c W = some W') (h : W.Regular)
    (hL : W.wiring.Ledger B) {q : Port} {gt : Gate} (hg : W.gates q.gate = some gt) {c : Nat}
    (hslot : W.wiring.slot q = some c) :
    ∃ r W', unwirePort ex q.dir q.type q.subtype q.gate q.index c W = some (r, W') := by
  obtain ⟨w, p, hB, rfl⟩ := (hL.slot q c).mp hslot
  have hport : W.HasPort q := by
    rw [World.hasPort_iff hg]
    by_contra hno
    have := (h.gates q.gate gt hg).boundAt_of_not_owned hno
    rw [← W.wiring_slot hg, hslot] at this
    cases this
  obtain ⟨ret, side, hwrite, -⟩ := h.write_slot hg (fun _ => hport) none
  obtain ⟨tp, htp, hbare⟩ := Option.map_eq_some_iff.mp (hL.token q w p hB)
  have hfor : tp.IsFor q.gate q.index :=
    ⟨congrArg Tokenport.gate hbare, congrArg Tokenport.index hbare⟩
  have hown : slotOwner (W.setGate q.gate (gt.setSide q.dir side)) q.dir
      (Wiring.content q.dir w p) = some w := by
    cases hd : q.dir with
    | input =>
      show (W.tokenports p).map Tokenport.owner = some w
      rw [htp]
      exact congrArg some (congrArg Tokenport.owner hbare)
    | output => rfl
  obtain ⟨wr, hw⟩ := hL.wire q w p hB
  have hmem := (hL.entry w wr q.dir p hw).mpr ⟨q, hB, rfl⟩
  obtain ⟨wire, hwire, rfl⟩ := Option.map_eq_some_iff.mp hw
  rw [Wire.bare_ports] at hmem
  obtain ⟨⟨k, hk⟩, -, hall⟩ := h.arrays.isNt_entries hw q.dir
  rw [Wire.bare_ports] at hk hall
  have hsome : ∀ p' ∈ entries (wire.ports q.dir), (W.tokenports p').isSome := by
    intro p' hp'
    have := hall p' hp'
    rwa [show W.wiring.token p' = (W.tokenports p').map Tokenport.bare from rfl,
      Option.isSome_map] at this
  set W₁ := W.setGate q.gate (gt.setSide q.dir side) with hW₁
  obtain ⟨i, hfind⟩ := findPort_of_mem (W := W₁) (k := k) hsome hmem htp hfor
  rw [← hk] at hfind
  obtain ⟨p', hremove⟩ := removePort_of_found (show W₁.wires w = some wire from hwire) hfind
  have hg₁ : W₁.gates q.gate = some (gt.setSide q.dir side) := Function.update_self ..
  obtain ⟨W', hsucc⟩ := onSuccessfullWiring_returns hreturns (W := (W₁.setWire w (wire.setPorts
    q.dir (arrayNtPopElement (wire.ports q.dir) i).2)).freeTokenport p') hg₁ q.dir q.type q.subtype
    q.index
  refine ⟨0, W', ?_⟩
  unfold unwirePort
  simp only [hg, hwrite, Option.bind_eq_bind, Option.bind_some]
  rw [← hW₁, hown, Option.bind_some, hremove, Option.bind_some, if_pos rfl, hsucc]
  rfl

theorem Gate.Regular.getMaxIndex_returns {gt : Gate} (h : gt.Regular) (dir : Direction)
    (type : Signal) (subtype : Int) : ∃ max, gt.getMaxIndex dir type subtype = some max := by
  by_cases hc : gt.gateClass = .bool
  · cases dir
    · exact ⟨returnConst 20 type subtype, by simp [Gate.getMaxIndex, hc]⟩
    · exact ⟨returnConst 1 type subtype, by simp [Gate.getMaxIndex, hc]⟩
  · obtain ⟨gs, names, hs⟩ := (h.generic hc).side dir
    rw [(h.generic hc).getMaxIndex_eq, hs.represents.lxcGenericGetTypeMaxIndex_eq]
    exact ⟨_, rfl⟩

/-- An unwiring call that passes the checks looks at the slot. -/
theorem privateGenericWiring_unwire (h : W.Regular) {g : GateId} {gt : Gate}
    (hg : W.gates g = some gt) {dir : Direction} {type : Signal} {subtype i : Int}
    (hck : gt.Checked dir type subtype i) :
    privateGenericWiring ex dir (some type) subtype none g i W =
      match W.wiring.slot ⟨g, dir, type, subtype, i.toNat⟩ with
      | none => some (LxcErrno.portIsAlreadyFree.code, W)
      | some c => unwirePort ex dir type subtype g i.toNat c W := by
  obtain ⟨max, hmax, hle⟩ := hck.inRange
  have hrange : ¬ (i < 0 ∨ max < i) := by
    have := hck.nonneg
    omega
  unfold privateGenericWiring
  simp only [wiringSignal, hg, Option.bind_eq_bind, Option.bind_some, if_neg hck.count,
    if_neg (not_not.mpr hck.supported), hmax, if_neg hrange,
    h.getWire_checked hg hck.supported]
  cases W.wiring.slot ⟨g, dir, type, subtype, i.toNat⟩ <;> rfl

/-- Every unwiring call returns when the executions of gates do. -/
theorem privateGenericWiring_unwire_returns (hreturns : ∀ c W, ∃ W', ex c W = some W')
    (h : W.Regular) (hL : W.wiring.Ledger B) {g : GateId} {gt : Gate} (hg : W.gates g = some gt)
    (dir : Direction) (signal : Option Signal) (subtype i : Int) :
    ∃ r W', privateGenericWiring ex dir signal subtype none g i W = some (r, W') := by
  cases signal with
  | none => exact ⟨_, W, rfl⟩
  | some type =>
    by_cases hck : gt.Checked dir type subtype i
    · rw [privateGenericWiring_unwire h hg hck]
      cases hslot : W.wiring.slot ⟨g, dir, type, subtype, i.toNat⟩ with
      | none => exact ⟨_, W, rfl⟩
      | some content =>
        exact unwirePort_returns hreturns h hL (q := ⟨g, dir, type, subtype, i.toNat⟩) hg hslot
    · -- one of the checks refuses the call
      obtain ⟨max, hmax⟩ := (h.gates g gt hg).getMaxIndex_returns dir type subtype
      unfold privateGenericWiring
      simp only [wiringSignal, hg, Option.bind_eq_bind, Option.bind_some, hmax]
      split
      · exact ⟨_, W, rfl⟩
      next hcount =>
      split
      · exact ⟨_, W, rfl⟩
      next hsupp =>
      split
      · exact ⟨_, W, rfl⟩
      next hrange =>
      exact absurd ⟨hcount, not_not.mp hsupp, by omega, max, hmax, by omega⟩ hck

theorem WiringCall.unwire_returns (hreturns : ∀ c W, ∃ W', ex c W = some W') (h : W.Regular)
    (hL : W.wiring.Ledger B) {c : WiringCall} (hwire : c.wire = none) {gt : Gate}
    (hg : W.gates c.gate = some gt) : ∃ r W', c.step ex W = some (r, W') := by
  unfold WiringCall.step lxcWireGate
  rw [hwire]
  cases c.dir with
  | input => exact privateGenericWiring_unwire_returns hreturns h hL hg ..
  | output => exact privateGenericWiring_unwire_returns hreturns h hL hg ..

end Worlds

end LogxControll
