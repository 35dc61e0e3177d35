/-
  The wiring of a world without its values: what each port slot holds, the entries of each wire
  and the tokenports they point to.

  A binding is stored twice, in the slot of the port and among the entries of the wire.
  `Wiring.Consistent` says that the two agree. `tie` and `untie` are the two ways a wiring
  changes, and both keep it consistent (`Consistent.tie`, `Consistent.untie`).
-/
import LogxControll.Core.Wiring

namespace LogxControll

/-- A port of a gate, by the arguments every wiring function takes. -/
structure Port where
  gate : GateId
  dir : Direction
  type : Signal
  subtype : Int
  index : Nat
  deriving DecidableEq, Repr

/-- The wire without the value it carries. -/
def Wire.bare (w : Wire) : Wire := { w with currentValue := none }

/-- The tokenport without its token and its cached position. -/
def Tokenport.bare (tp : Tokenport) : Tokenport :=
  { tp with wireIndex := 0, currentValue := none }

@[simp] theorem Wire.bare_type (w : Wire) : w.bare.type = w.type := rfl

@[simp] theorem Wire.bare_subtype (w : Wire) : w.bare.subtype = w.subtype := rfl

@[simp] theorem Wire.bare_ports (w : Wire) (dir : Direction) : w.bare.ports dir = w.ports dir := by
  cases dir <;> rfl

@[simp] theorem Wire.bare_setPorts (w : Wire) (dir : Direction) (ports : NtArray TokenportId) :
    (w.setPorts dir ports).bare = w.bare.setPorts dir ports := by cases dir <;> rfl

@[simp] theorem Wire.setPorts_type (w : Wire) (dir : Direction) (ports : NtArray TokenportId) :
    (w.setPorts dir ports).type = w.type := by cases dir <;> rfl

@[simp] theorem Wire.setPorts_subtype (w : Wire) (dir : Direction)
    (ports : NtArray TokenportId) : (w.setPorts dir ports).subtype = w.subtype := by
  cases dir <;> rfl

@[simp] theorem Wire.ports_setPorts_self (w : Wire) (dir : Direction)
    (ports : NtArray TokenportId) : (w.setPorts dir ports).ports dir = ports := by
  cases dir <;> rfl

theorem Wire.ports_setPorts_ne (w : Wire) {dir dir' : Direction} (h : dir' ≠ dir)
    (ports : NtArray TokenportId) : (w.setPorts dir ports).ports dir' = w.ports dir' := by
  cases dir <;> cases dir' <;> first | rfl | exact absurd rfl h

/-- What a port slot holds, `none` also for a port the gate does not have: a bool gate has ports
    of subtype 0 only, which `logx_bool_get_output_wire` does not check. -/
def Gate.boundAt (g : Gate) (dir : Direction) (type : Signal) (subtype : Int) (index : Nat) :
    Option Nat :=
  if g.gateClass = .bool ∧ subtype ≠ 0 then none else (g.getWire dir type subtype index).getD none

/-- What the memory says about the wiring and nothing else. -/
structure Wiring where
  slot : Port → Option Nat
  wire : WireId → Option Wire
  token : TokenportId → Option Tokenport

/-- Values and tokens are left out. -/
def World.wiring (W : World) : Wiring where
  slot q := (W.gates q.gate).bind fun g => g.boundAt q.dir q.type q.subtype q.index
  wire w := (W.wires w).map Wire.bare
  token p := (W.tokenports p).map Tokenport.bare

namespace Wiring

/-- What the slot of a port bound to wire `w` holds when the wire lists it under `p`. -/
def content (dir : Direction) (w : WireId) (p : TokenportId) : Nat :=
  match dir with
  | .input => p
  | .output => w

/-- The tokenport that lists port `q` in wire `w`. -/
def tokenOf (q : Port) (w : WireId) : Tokenport := Tokenport.zeroed w q.gate q.index

/-- Put wire `w` into the free port `q`; the new tokenport `p` goes to the end of the entries. -/
def tie (v : Wiring) (q : Port) (w : WireId) (p : TokenportId) : Wiring where
  slot := Function.update v.slot q (some (content q.dir w p))
  wire := Function.update v.wire w ((v.wire w).map fun wr =>
    wr.setPorts q.dir (arrayNtAppendElement (wr.ports q.dir) (some p)).2)
  token := Function.update v.token p (some (tokenOf q w))

/-- Clear the slot of port `q`, and drop the entry at position `i` of wire `w` with its
    tokenport `p`. -/
def untie (v : Wiring) (q : Port) (w : WireId) (p : TokenportId) (i : Nat) : Wiring where
  slot := Function.update v.slot q none
  wire := Function.update v.wire w ((v.wire w).map fun wr =>
    wr.setPorts q.dir (arrayNtPopElement (wr.ports q.dir) i).2)
  token := Function.update v.token p none

/-- Entry `p` of wire `w` is the entry of port `q`. -/
structure Lists (v : Wiring) (w : WireId) (p : TokenportId) (q : Port) : Prop where
  wire : ∃ wr, v.wire w = some wr ∧ wr.type = q.type ∧ wr.subtype = q.subtype ∧
    p ∈ entries (wr.ports q.dir)
  token : v.token p = some (tokenOf q w)

/-- The arrays of every wire are null terminated lists without repetition, and no tokenport is
    in two of them. -/
structure Arrays (v : Wiring) : Prop where
  isNt : ∀ w wr dir, v.wire w = some wr →
    ∃ l, IsNt (wr.ports dir) l ∧ l.Nodup ∧ ∀ p ∈ l, (v.token p).isSome
  disjoint : ∀ w wr dir w' wr' dir' p, v.wire w = some wr → v.wire w' = some wr' →
    p ∈ entries (wr.ports dir) → p ∈ entries (wr'.ports dir') → w = w' ∧ dir = dir'

/-- The slots and the entries describe one relation: a slot holds what a wire lists for its
    port, and what a wire lists for a port is what the slot holds. -/
structure Consistent (v : Wiring) : Prop where
  arrays : v.Arrays
  listed : ∀ q c, v.slot q = some c → ∃ w p, c = content q.dir w p ∧ v.Lists w p q
  held : ∀ w wr dir p, v.wire w = some wr → p ∈ entries (wr.ports dir) →
    ∃ q : Port, q.dir = dir ∧ v.Lists w p q ∧ v.slot q = some (content dir w p)
  unique : ∀ w p p' q, v.Lists w p q → v.Lists w p' q → p = p'

/-! ## Lists -/

theorem Arrays.isNt_entries {v : Wiring} (h : v.Arrays) {w : WireId} {wr : Wire}
    (hw : v.wire w = some wr) (dir : Direction) :
    IsNt (wr.ports dir) (entries (wr.ports dir)) ∧ (entries (wr.ports dir)).Nodup ∧
      ∀ p ∈ entries (wr.ports dir), (v.token p).isSome := by
  obtain ⟨l, hl, hnd, hall⟩ := h.isNt w wr dir hw
  rw [hl.entries_eq]
  exact ⟨hl, hnd, hall⟩

/-- An entry belongs to one port. -/
theorem Lists.port_unique {v : Wiring} (h : v.Arrays) {w : WireId} {p : TokenportId} {q q' : Port}
    (h1 : v.Lists w p q) (h2 : v.Lists w p q') : q = q' := by
  obtain ⟨wr, hw, ht, hs, hp⟩ := h1.wire
  obtain ⟨wr', hw', ht', hs', hp'⟩ := h2.wire
  have hd := (h.disjoint w wr q.dir w wr' q'.dir p hw hw' hp hp').2
  have htok : tokenOf q w = tokenOf q' w := Option.some.inj (h1.token.symm.trans h2.token)
  simp only [tokenOf, Tokenport.zeroed, Tokenport.mk.injEq] at htok
  have hwr : wr = wr' := Option.some.inj (hw.symm.trans hw')
  subst hwr
  cases q
  cases q'
  simp_all

theorem Consistent.slot_of_lists {v : Wiring} (h : v.Consistent) {w : WireId} {p : TokenportId}
    {q : Port} (hl : v.Lists w p q) : v.slot q = some (content q.dir w p) := by
  obtain ⟨wr, hw, -, -, hp⟩ := hl.wire
  obtain ⟨q', hd, hl', hslot⟩ := h.held w wr q.dir p hw hp
  have hq := hl'.port_unique h.arrays hl
  subst hq
  exact hslot

end Wiring

theorem entries_append {array : NtArray TokenportId} (h : IsNt array (entries array))
    (p : TokenportId) :
    IsNt (arrayNtAppendElement array (some p)).2 (entries array ++ [p]) ∧
      entries (arrayNtAppendElement array (some p)).2 = entries array ++ [p] := by
  obtain ⟨array', ha, hnt⟩ := arrayNtAppendElement_of_isNt h p
  rw [ha]
  exact ⟨hnt, hnt.entries_eq⟩

theorem entries_pop {array : NtArray TokenportId} (h : IsNt array (entries array)) {i : Nat}
    (hi : i < (entries array).length) :
    IsNt (arrayNtPopElement array i).2 ((entries array).eraseIdx i) ∧
      entries (arrayNtPopElement array i).2 = (entries array).eraseIdx i := by
  obtain ⟨array', ha, hnt⟩ := arrayNtPopElement_of_isNt h hi
  rw [ha]
  exact ⟨hnt, hnt.entries_eq⟩

namespace Wiring

/-! ## Tying -/

section Tie

variable {v : Wiring} {q : Port} {w : WireId} {p : TokenportId} {wr : Wire}

/-- The arrays after a tie: only those of `w` for the direction of `q` have a new entry. -/
theorem wire_tie (hw : v.wire w = some wr) (w' : WireId) :
    (v.tie q w p).wire w' = if w' = w then
      some (wr.setPorts q.dir (arrayNtAppendElement (wr.ports q.dir) (some p)).2)
    else v.wire w' := by
  by_cases h : w' = w
  · subst h; simp [tie, hw]
  · simp [tie, h]

theorem mem_entries_tie (ha : v.Arrays) (hw : v.wire w = some wr) {w' : WireId} {wr' : Wire}
    (hw' : (v.tie q w p).wire w' = some wr') (dir : Direction) (p' : TokenportId) :
    p' ∈ entries (wr'.ports dir) ↔
      (∃ wr₀, v.wire w' = some wr₀ ∧ p' ∈ entries (wr₀.ports dir)) ∨
        (w' = w ∧ dir = q.dir ∧ p' = p) := by
  rw [wire_tie hw] at hw'
  by_cases h : w' = w
  · subst h
    rw [if_pos rfl, Option.some.injEq] at hw'
    subst hw'
    by_cases hd : dir = q.dir
    · subst hd
      rw [Wire.ports_setPorts_self, (entries_append (ha.isNt_entries hw q.dir).1 p).2]
      simp [hw]
    · rw [Wire.ports_setPorts_ne _ hd]
      simp [hw, hd]
  · rw [if_neg h] at hw'
    simp [hw', h]

theorem Arrays.tie (ha : v.Arrays) (hw : v.wire w = some wr) (hp : v.token p = none) :
    (v.tie q w p).Arrays where
  isNt := by
    intro w' wr' dir hw'
    have hsome : ∀ p', (v.token p').isSome → ((v.tie q w p).token p').isSome := by
      intro p' h
      by_cases he : p' = p <;> simp [Wiring.tie, he, h]
    rw [wire_tie hw] at hw'
    by_cases h : w' = w
    · subst h
      rw [if_pos rfl, Option.some.injEq] at hw'
      subst hw'
      obtain ⟨hnt, hnd, hall⟩ := ha.isNt_entries hw dir
      by_cases hd : dir = q.dir
      · subst hd
        rw [Wire.ports_setPorts_self]
        refine ⟨entries (wr.ports q.dir) ++ [p], (entries_append hnt p).1, ?_, ?_⟩
        · rw [List.nodup_append]
          refine ⟨hnd, by simp, ?_⟩
          rintro a ha' b hb rfl
          rw [List.mem_singleton] at hb
          have := hall a ha'
          simp [hb, hp] at this
        · intro p' hp'
          rw [List.mem_append, List.mem_singleton] at hp'
          rcases hp' with hp' | rfl
          · exact hsome _ (hall p' hp')
          · simp [Wiring.tie]
      · rw [Wire.ports_setPorts_ne _ hd]
        exact ⟨_, hnt, hnd, fun p' hp' => hsome _ (hall p' hp')⟩
    · rw [if_neg h] at hw'
      obtain ⟨l, hl, hnd, hall⟩ := ha.isNt w' wr' dir hw'
      exact ⟨l, hl, hnd, fun p' hp' => hsome _ (hall p' hp')⟩
  disjoint := by
    have hfresh : ∀ w' wr' dir, v.wire w' = some wr' → p ∉ entries (wr'.ports dir) := by
      intro w' wr' dir hw' hmem
      have := (ha.isNt_entries hw' dir).2.2 p hmem
      simp [hp] at this
    intro w1 wr1 dir1 w2 wr2 dir2 p' h1 h2 hm1 hm2
    rcases (mem_entries_tie ha hw h1 dir1 p').mp hm1 with ⟨wr1', h1', hm1⟩ | ⟨rfl, rfl, rfl⟩
    · rcases (mem_entries_tie ha hw h2 dir2 p').mp hm2 with ⟨wr2', h2', hm2⟩ | ⟨rfl, rfl, rfl⟩
      · exact ha.disjoint w1 wr1' dir1 w2 wr2' dir2 p' h1' h2' hm1 hm2
      · exact absurd hm1 (hfresh w1 wr1' dir1 h1')
    · rcases (mem_entries_tie ha hw h2 dir2 p').mp hm2 with ⟨wr2', h2', hm2⟩ | ⟨rfl, rfl, -⟩
      · exact absurd hm2 (hfresh w2 wr2' dir2 h2')
      · exact ⟨rfl, rfl⟩

theorem lists_tie (ha : v.Arrays) (hw : v.wire w = some wr) (ht : wr.type = q.type)
    (hs : wr.subtype = q.subtype) (hp : v.token p = none) (w' : WireId) (p' : TokenportId)
    (q' : Port) :
    (v.tie q w p).Lists w' p' q' ↔ v.Lists w' p' q' ∨ (w' = w ∧ p' = p ∧ q' = q) := by
  have htype : ∀ {w' wr'}, (v.tie q w p).wire w' = some wr' → ∃ wr₀, v.wire w' = some wr₀ ∧
      wr'.type = wr₀.type ∧ wr'.subtype = wr₀.subtype := by
    intro w' wr' h
    rw [wire_tie hw] at h
    by_cases he : w' = w
    · subst he
      rw [if_pos rfl, Option.some.injEq] at h
      exact ⟨wr, hw, by rw [← h]; simp, by rw [← h]; simp⟩
    · rw [if_neg he] at h
      exact ⟨wr', h, rfl, rfl⟩
  have hwire : ∀ {w' wr₀}, v.wire w' = some wr₀ → ∃ wr', (v.tie q w p).wire w' = some wr' := by
    intro w' wr₀ h
    rw [wire_tie hw]
    by_cases he : w' = w
    · exact ⟨_, by rw [if_pos he]⟩
    · exact ⟨wr₀, by rw [if_neg he]; exact h⟩
  constructor
  · rintro ⟨⟨wr', hw', ht', hs', hmem⟩, htok⟩
    obtain ⟨wr₀, hw₀, ht₀, hs₀⟩ := htype hw'
    rcases (mem_entries_tie ha hw hw' q'.dir p').mp hmem with ⟨wr₁, hw₁, hmem⟩ | ⟨rfl, hd, rfl⟩
    · have hwr : wr₀ = wr₁ := Option.some.inj (hw₀.symm.trans hw₁)
      subst hwr
      refine .inl ⟨⟨wr₀, hw₀, ht₀ ▸ ht', hs₀ ▸ hs', hmem⟩, ?_⟩
      have hne : p' ≠ p := by
        rintro rfl
        have := (ha.isNt_entries hw₀ q'.dir).2.2 p' hmem
        simp [hp] at this
      rw [← htok]
      simp [Wiring.tie, hne]
    · refine .inr ⟨rfl, rfl, ?_⟩
      have hwr : wr₀ = wr := Option.some.inj (hw₀.symm.trans hw)
      subst hwr
      have htok' : tokenOf q w' = tokenOf q' w' := by simpa [Wiring.tie] using htok
      simp only [tokenOf, Tokenport.zeroed, Tokenport.mk.injEq] at htok'
      cases q
      cases q'
      simp_all
  · rintro (⟨⟨wr₀, hw₀, ht₀, hs₀, hmem⟩, htok⟩ | ⟨rfl, rfl, rfl⟩)
    · obtain ⟨wr', hw'⟩ := hwire hw₀
      obtain ⟨wr₁, hw₁, ht₁, hs₁⟩ := htype hw'
      have hwr : wr₀ = wr₁ := Option.some.inj (hw₀.symm.trans hw₁)
      subst hwr
      have hne : p' ≠ p := by
        rintro rfl
        simp [hp] at htok
      refine ⟨⟨wr', hw', ht₁.trans ht₀, hs₁.trans hs₀, ?_⟩, by simp [Wiring.tie, hne, htok]⟩
      exact (mem_entries_tie ha hw hw' q'.dir p').mpr (.inl ⟨wr₀, hw₀, hmem⟩)
    · obtain ⟨wr', hw'⟩ := hwire hw
      obtain ⟨wr₁, hw₁, ht₁, hs₁⟩ := htype hw'
      have hwr : wr = wr₁ := Option.some.inj (hw.symm.trans hw₁)
      subst hwr
      refine ⟨⟨wr', hw', ht₁.trans ht, hs₁.trans hs, ?_⟩, by simp [Wiring.tie]⟩
      exact (mem_entries_tie ha hw hw' q'.dir p').mpr (.inr ⟨rfl, rfl, rfl⟩)

/-- Tying a free port to a wire of its type and subtype. -/
theorem Consistent.tie (h : v.Consistent) (hw : v.wire w = some wr) (ht : wr.type = q.type)
    (hs : wr.subtype = q.subtype) (hp : v.token p = none) (hfree : v.slot q = none) :
    (v.tie q w p).Consistent where
  arrays := h.arrays.tie hw hp
  listed := by
    intro q' c hc
    by_cases hq : q' = q
    · subst hq
      refine ⟨w, p, ?_, (lists_tie h.arrays hw ht hs hp w p q').mpr (.inr ⟨rfl, rfl, rfl⟩)⟩
      simpa [Wiring.tie] using hc.symm
    · have hc' : v.slot q' = some c := by simpa [Wiring.tie, hq] using hc
      obtain ⟨w', p', he, hl⟩ := h.listed q' c hc'
      exact ⟨w', p', he, (lists_tie h.arrays hw ht hs hp w' p' q').mpr (.inl hl)⟩
  held := by
    intro w' wr' dir p' hw' hmem
    rcases (mem_entries_tie h.arrays hw hw' dir p').mp hmem with ⟨wr₀, hw₀, hmem⟩ | ⟨rfl, rfl, rfl⟩
    · obtain ⟨q', hd, hl, hslot⟩ := h.held w' wr₀ dir p' hw₀ hmem
      have hne : q' ≠ q := by
        rintro rfl
        simp [hfree] at hslot
      exact ⟨q', hd, (lists_tie h.arrays hw ht hs hp w' p' q').mpr (.inl hl),
        by simp [Wiring.tie, hne, hslot]⟩
    · exact ⟨q, rfl, (lists_tie h.arrays hw ht hs hp w' p' q).mpr (.inr ⟨rfl, rfl, rfl⟩),
        by simp [Wiring.tie]⟩
  unique := by
    -- the old entries do not list the free port
    have hnone : ∀ p', ¬ v.Lists w p' q := by
      intro p' hl
      have := h.slot_of_lists hl
      simp [hfree] at this
    intro w' p1 p2 q' h1 h2
    rcases (lists_tie h.arrays hw ht hs hp w' p1 q').mp h1 with h1' | ⟨rfl, rfl, rfl⟩
    · rcases (lists_tie h.arrays hw ht hs hp w' p2 q').mp h2 with h2' | ⟨rfl, rfl, rfl⟩
      · exact h.unique w' p1 p2 q' h1' h2'
      · exact absurd h1' (hnone p1)
    · rcases (lists_tie h.arrays hw ht hs hp w' p2 q').mp h2 with h2' | ⟨-, rfl, -⟩
      · exact absurd h2' (hnone p2)
      · rfl

end Tie

/-! ## Untying -/

section Untie

variable {v : Wiring} {q : Port} {w : WireId} {p : TokenportId} {wr : Wire} {i : Nat}

theorem wire_untie (hw : v.wire w = some wr) (w' : WireId) :
    (v.untie q w p i).wire w' = if w' = w then
      some (wr.setPorts q.dir (arrayNtPopElement (wr.ports q.dir) i).2)
    else v.wire w' := by
  by_cases h : w' = w
  · subst h; simp [untie, hw]
  · simp [untie, h]

theorem mem_entries_untie (ha : v.Arrays) (hw : v.wire w = some wr)
    (hi : (entries (wr.ports q.dir))[i]? = some p) {w' : WireId} {wr' : Wire}
    (hw' : (v.untie q w p i).wire w' = some wr') (dir : Direction) (p' : TokenportId) :
    p' ∈ entries (wr'.ports dir) ↔
      ∃ wr₀, v.wire w' = some wr₀ ∧ p' ∈ entries (wr₀.ports dir) ∧ p' ≠ p := by
  obtain ⟨hlt, hget⟩ := List.getElem?_eq_some_iff.mp hi
  have hmem : p ∈ entries (wr.ports q.dir) := List.mem_of_getElem? hi
  rw [wire_untie hw] at hw'
  by_cases h : w' = w
  · subst h
    rw [if_pos rfl, Option.some.injEq] at hw'
    subst hw'
    obtain ⟨hnt, hnd, -⟩ := ha.isNt_entries hw q.dir
    by_cases hd : dir = q.dir
    · subst hd
      rw [Wire.ports_setPorts_self, (entries_pop hnt hlt).2, ← hget,
        ← hnd.erase_getElem, hnd.mem_erase_iff]
      simp only [hw, Option.some.injEq, exists_eq_left']
      exact and_comm
    · rw [Wire.ports_setPorts_ne _ hd]
      refine ⟨fun hm => ⟨wr, hw, hm, ?_⟩, ?_⟩
      · rintro rfl
        exact hd (ha.disjoint w' wr dir w' wr q.dir p' hw hw hm hmem).2
      · rintro ⟨wr₀, hw₀, hm, -⟩
        rw [hw, Option.some.injEq] at hw₀
        exact hw₀ ▸ hm
  · rw [if_neg h] at hw'
    refine ⟨fun hm => ⟨wr', hw', hm, ?_⟩, ?_⟩
    · rintro rfl
      exact h (ha.disjoint w' wr' dir w wr q.dir p' hw' hw hm hmem).1
    · rintro ⟨wr₀, hw₀, hm, -⟩
      rw [hw', Option.some.injEq] at hw₀
      exact hw₀ ▸ hm

theorem Arrays.untie (ha : v.Arrays) (hw : v.wire w = some wr)
    (hi : (entries (wr.ports q.dir))[i]? = some p) : (v.untie q w p i).Arrays where
  isNt := by
    intro w' wr' dir hw'
    have hmem := mem_entries_untie ha hw hi hw' dir
    have hnt : ∃ l, IsNt (wr'.ports dir) l ∧ l.Nodup := by
      have hw₀ := hw'
      rw [wire_untie hw] at hw₀
      by_cases h : w' = w
      · subst h
        rw [if_pos rfl, Option.some.injEq] at hw₀
        subst hw₀
        obtain ⟨hnt, hnd, -⟩ := ha.isNt_entries hw dir
        by_cases hd : dir = q.dir
        · subst hd
          rw [Wire.ports_setPorts_self]
          exact ⟨_, (entries_pop hnt (List.getElem?_eq_some_iff.mp hi).1).1,
            hnd.eraseIdx i⟩
        · rw [Wire.ports_setPorts_ne _ hd]
          exact ⟨_, hnt, hnd⟩
      · rw [if_neg h] at hw₀
        obtain ⟨hnt, hnd, -⟩ := ha.isNt_entries hw₀ dir
        exact ⟨_, hnt, hnd⟩
    obtain ⟨l, hl, hnd⟩ := hnt
    refine ⟨l, hl, hnd, ?_⟩
    intro p' hp'
    rw [← hl.entries_eq, hmem] at hp'
    obtain ⟨wr₀, hw₀, hm, hne⟩ := hp'
    have := (ha.isNt_entries hw₀ dir).2.2 p' hm
    simpa [Wiring.untie, hne] using this
  disjoint := by
    intro w1 wr1 dir1 w2 wr2 dir2 p' h1 h2 hm1 hm2
    obtain ⟨wr1', h1', hm1, -⟩ := (mem_entries_untie ha hw hi h1 dir1 p').mp hm1
    obtain ⟨wr2', h2', hm2, -⟩ := (mem_entries_untie ha hw hi h2 dir2 p').mp hm2
    exact ha.disjoint w1 wr1' dir1 w2 wr2' dir2 p' h1' h2' hm1 hm2

theorem lists_untie (ha : v.Arrays) (hw : v.wire w = some wr)
    (hi : (entries (wr.ports q.dir))[i]? = some p) (w' : WireId) (p' : TokenportId) (q' : Port) :
    (v.untie q w p i).Lists w' p' q' ↔ v.Lists w' p' q' ∧ p' ≠ p := by
  have hbase : ∀ {w' wr'}, (v.untie q w p i).wire w' = some wr' → ∃ wr₀,
      v.wire w' = some wr₀ ∧ wr'.type = wr₀.type ∧ wr'.subtype = wr₀.subtype := by
    intro w' wr' h
    rw [wire_untie hw] at h
    by_cases he : w' = w
    · subst he
      rw [if_pos rfl, Option.some.injEq] at h
      exact ⟨wr, hw, by rw [← h]; simp, by rw [← h]; simp⟩
    · rw [if_neg he] at h
      exact ⟨wr', h, rfl, rfl⟩
  constructor
  · rintro ⟨⟨wr', hw', ht', hs', hmem⟩, htok⟩
    obtain ⟨wr₀, hw₀, ht₀, hs₀⟩ := hbase hw'
    obtain ⟨wr₁, hw₁, hm, hne⟩ := (mem_entries_untie ha hw hi hw' q'.dir p').mp hmem
    have hwr : wr₀ = wr₁ := Option.some.inj (hw₀.symm.trans hw₁)
    subst hwr
    exact ⟨⟨⟨wr₀, hw₀, ht₀ ▸ ht', hs₀ ▸ hs', hm⟩, by simpa [Wiring.untie, hne] using htok⟩, hne⟩
  · rintro ⟨⟨⟨wr₀, hw₀, ht₀, hs₀, hm⟩, htok⟩, hne⟩
    have : ∃ wr', (v.untie q w p i).wire w' = some wr' := by
      rw [wire_untie hw]
      by_cases he : w' = w
      · exact ⟨_, by rw [if_pos he]⟩
      · exact ⟨wr₀, by rw [if_neg he]; exact hw₀⟩
    obtain ⟨wr', hw'⟩ := this
    obtain ⟨wr₁, hw₁, ht₁, hs₁⟩ := hbase hw'
    have hwr : wr₀ = wr₁ := Option.some.inj (hw₀.symm.trans hw₁)
    subst hwr
    exact ⟨⟨wr', hw', ht₁.trans ht₀, hs₁.trans hs₀,
      (mem_entries_untie ha hw hi hw' q'.dir p').mpr ⟨wr₀, hw₀, hm, hne⟩⟩,
      by simp [Wiring.untie, hne, htok]⟩

/-- Untying a port by the entry that lists it. -/
theorem Consistent.untie (h : v.Consistent) (hw : v.wire w = some wr)
    (hi : (entries (wr.ports q.dir))[i]? = some p) (hl : v.Lists w p q) :
    (v.untie q w p i).Consistent where
  arrays := h.arrays.untie hw hi
  listed := by
    intro q' c hc
    have hne : q' ≠ q := by
      rintro rfl
      simp [Wiring.untie] at hc
    have hc' : v.slot q' = some c := by simpa [Wiring.untie, hne] using hc
    obtain ⟨w', p', he, hl'⟩ := h.listed q' c hc'
    refine ⟨w', p', he, (lists_untie h.arrays hw hi w' p' q').mpr ⟨hl', ?_⟩⟩
    rintro rfl
    -- `p` in two lists would be one list and so one port
    obtain ⟨wr', hw', -, -, hm'⟩ := hl'.wire
    obtain ⟨rfl, -⟩ := h.arrays.disjoint w' wr' q'.dir w wr q.dir p' hw' hw hm'
      (List.mem_of_getElem? hi)
    exact hne (hl'.port_unique h.arrays hl)
  held := by
    intro w' wr' dir p' hw' hmem
    obtain ⟨wr₀, hw₀, hm, hne⟩ := (mem_entries_untie h.arrays hw hi hw' dir p').mp hmem
    obtain ⟨q', hd, hl', hslot⟩ := h.held w' wr₀ dir p' hw₀ hm
    have hqne : q' ≠ q := by
      rintro rfl
      subst hd
      have h1 := (h.slot_of_lists hl).symm.trans hslot
      obtain ⟨wr₁, hw₁, -, -, hm₁⟩ := hl.wire
      rw [Option.some.injEq] at h1
      cases hdir : q'.dir with
      | input =>
        rw [hdir] at h1
        exact hne h1.symm
      | output =>
        rw [hdir] at h1
        have h1' : w = w' := h1
        subst h1'
        exact hne (h.unique w p' p q' hl' hl)
    exact ⟨q', hd, (lists_untie h.arrays hw hi w' p' q').mpr ⟨hl', hne⟩,
      by simp [Wiring.untie, hqne, hslot]⟩
  unique := by
    intro w' p1 p2 q' h1 h2
    exact h.unique w' p1 p2 q' ((lists_untie h.arrays hw hi w' p1 q').mp h1).1
      ((lists_untie h.arrays hw hi w' p2 q').mp h2).1

end Untie

/-! ## New wires -/

/-- Wire `wire` at the address `w`. -/
def addWire (v : Wiring) (w : WireId) (wire : Wire) : Wiring :=
  { v with wire := Function.update v.wire w (some wire) }

section AddWire

variable {v : Wiring} {w : WireId} {wire : Wire}

theorem wire_addWire (hports : ∀ dir, wire.ports dir = []) {w' : WireId} {wr : Wire}
    (hw : (v.addWire w wire).wire w' = some wr) :
    (w' = w ∧ ∀ dir, wr.ports dir = []) ∨ v.wire w' = some wr := by
  change Function.update v.wire w (some wire) w' = some wr at hw
  by_cases he : w' = w
  · subst he
    rw [Function.update_self, Option.some.injEq] at hw
    exact .inl ⟨rfl, hw ▸ hports⟩
  · rw [Function.update_of_ne he] at hw
    exact .inr hw

theorem Arrays.addWire (ha : v.Arrays) (hports : ∀ dir, wire.ports dir = []) :
    (v.addWire w wire).Arrays where
  isNt := by
    intro w' wr dir hw
    rcases wire_addWire hports hw with ⟨-, hnil⟩ | hw
    · exact ⟨[], hnil dir ▸ isNt_nil, List.nodup_nil, by simp⟩
    · exact ha.isNt w' wr dir hw
  disjoint := by
    intro w1 wr1 dir1 w2 wr2 dir2 p hw1 hw2 hp1 hp2
    rcases wire_addWire hports hw1 with ⟨-, hnil⟩ | hw1
    · simp [hnil, entries] at hp1
    · rcases wire_addWire hports hw2 with ⟨-, hnil⟩ | hw2
      · simp [hnil, entries] at hp2
      · exact ha.disjoint w1 wr1 dir1 w2 wr2 dir2 p hw1 hw2 hp1 hp2

theorem lists_addWire (hnew : v.wire w = none) (hports : ∀ dir, wire.ports dir = [])
    (w' : WireId) (p : TokenportId) (q : Port) :
    (v.addWire w wire).Lists w' p q ↔ v.Lists w' p q := by
  constructor
  · rintro ⟨⟨wr, hw, ht, hs, hp⟩, htok⟩
    rcases wire_addWire hports hw with ⟨-, hnil⟩ | hw
    · simp [hnil, entries] at hp
    · exact ⟨⟨wr, hw, ht, hs, hp⟩, htok⟩
  · rintro ⟨⟨wr, hw, ht, hs, hp⟩, htok⟩
    have hne : w' ≠ w := by
      rintro rfl
      rw [hnew] at hw
      cases hw
    exact ⟨⟨wr, (Function.update_of_ne hne _ _).trans hw, ht, hs, hp⟩, htok⟩

theorem Consistent.addWire (h : v.Consistent) (hnew : v.wire w = none)
    (hports : ∀ dir, wire.ports dir = []) : (v.addWire w wire).Consistent where
  arrays := h.arrays.addWire hports
  listed := by
    intro q c hc
    obtain ⟨w', p, he, hl⟩ := h.listed q c hc
    exact ⟨w', p, he, (lists_addWire hnew hports w' p q).mpr hl⟩
  held := by
    intro w' wr dir p hw hp
    rcases wire_addWire hports hw with ⟨-, hnil⟩ | hw
    · simp [hnil, entries] at hp
    · obtain ⟨q, hd, hl, hslot⟩ := h.held w' wr dir p hw hp
      exact ⟨q, hd, (lists_addWire hnew hports w' p q).mpr hl, hslot⟩
  unique := by
    intro w' p p' q h1 h2
    exact h.unique w' p p' q ((lists_addWire hnew hports w' p q).mp h1)
      ((lists_addWire hnew hports w' p' q).mp h2)

end AddWire

end Wiring

end LogxControll
