/-
  The circuit that `create_computerphile_sort_network` builds.

  The gate at place `j` of row `i` has number `tri i + j`. It is tied to the wires that `pins`
  lists; `WireLabel` names them by the place they come from, and `WireLabel.text` is the name the
  source computes with `triangle_nth`. `createComputerphileSortNetwork_placed` says that the
  three ways in which the source computes these names fit together: every gate is tied as `pins`
  says. The names are different (`text_injective`) as long as the places can be numbered.
-/
import Mathlib
import LogxControll.Wiring.NamedWires
import LogxControll.Lib.Run

namespace LogxControll

/-! ## Places and their numbers -/

/-- The number of places in the rows above row `i`. -/
def tri : Nat → Nat
  | 0 => 0
  | i + 1 => tri i + (i + 1)

theorem tri_succ (i : Nat) : tri (i + 1) = tri i + (i + 1) := rfl

theorem two_mul_tri (i : Nat) : 2 * tri i = i * (i + 1) := by
  induction i with
  | zero => rfl
  | succ i ih =>
    rw [tri_succ, Nat.mul_add, ih]
    ring

theorem tri_eq (i : Nat) : tri i = i * (i + 1) / 2 := by
  have := two_mul_tri i
  omega

theorem tri_mono {i i' : Nat} (h : i ≤ i') : tri i ≤ tri i' := by
  induction i' with
  | zero =>
    obtain rfl := Nat.le_zero.mp h
    exact le_rfl
  | succ i' ih =>
    rcases Nat.lt_or_eq_of_le h with h | rfl
    · have := ih (Nat.lt_succ_iff.mp h)
      rw [tri_succ]
      omega
    · exact le_rfl

/-- The places of a row come before the next row. -/
theorem number_lt {i i' j : Nat} (hj : j ≤ i) (hi : i < i') : tri i + j < tri i' := by
  have h : tri (i + 1) ≤ tri i' := tri_mono hi
  rw [tri_succ] at h
  omega

theorem number_injective {i j i' j' : Nat} (hj : j ≤ i) (hj' : j' ≤ i')
    (h : tri i + j = tri i' + j') : i = i' ∧ j = j' := by
  rcases Nat.lt_trichotomy i i' with hi | rfl | hi
  · have := number_lt hj hi
    omega
  · omega
  · have := number_lt hj' hi
    omega

theorem exists_place (m : Nat) : ∃ i j, j ≤ i ∧ m = tri i + j := by
  induction m with
  | zero => exact ⟨0, 0, le_rfl, rfl⟩
  | succ m ih =>
    obtain ⟨i, j, hj, rfl⟩ := ih
    by_cases hlast : j = i
    · exact ⟨i + 1, 0, Nat.zero_le _, by rw [tri_succ]; omega⟩
    · exact ⟨i, j + 1, by omega, by omega⟩

/-! ## `triangle_nth` -/

/-- Where the product wraps around, the result is off by `2 ^ 31`. -/
theorem triangleNth_eq {i : Nat} (hi : tri i < 2 ^ 31) (j : Int) :
    triangleNth i j = tri i + j - if tri i < 2 ^ 30 then 0 else 2 ^ 31 := by
  have hprod : (i : Int) * (i + 1) = 2 * (tri i : Int) := by exact_mod_cast (two_mul_tri i).symm
  unfold triangleNth
  rw [hprod]
  have hwrap : (2 * (tri i : Int)).bmod (2 ^ 32) =
      2 * ((tri i : Int) - if tri i < 2 ^ 30 then 0 else 2 ^ 31) := by
    rw [Int.bmod_def]
    split <;> split <;> omega
  rw [hwrap, Int.mul_tdiv_cancel_left _ (by decide)]
  omega

/-- Different places have different numbers, also past the wrap. -/
theorem triangleNth_injective {i j i' j' : Nat} (hj : j ≤ i) (hj' : j' ≤ i')
    (hi : tri i + j < 2 ^ 31) (hi' : tri i' + j' < 2 ^ 31)
    (h : triangleNth i j = triangleNth i' j') : i = i' ∧ j = j' := by
  rw [triangleNth_eq (by omega), triangleNth_eq (by omega)] at h
  apply number_injective hj hj'
  split at h <;> split at h <;> omega

theorem triangleNth_succ (i j : Int) : triangleNth i (j - 1) + 1 = triangleNth i j := by
  unfold triangleNth
  omega

/-! ## The wires -/

/-- A wire by the place it comes from: from outside, down or to the right from a place, or to
    the outside. -/
inductive WireLabel where
  | input (i : Nat)
  | down (i j : Nat)
  | right (i j : Nat)
  | output (j : Nat)
  deriving DecidableEq, Repr

/-- The name of the wire. -/
def WireLabel.text : WireLabel → String
  | input i => numbered "i" i
  | down i j => numbered "y" (triangleNth i j)
  | right i j => numbered "x" (triangleNth ((i : Int) - 1) j)
  | output j => numbered "o" j

/-- A wire of the network with `n` rows. -/
def WireLabel.Valid (n : Nat) : WireLabel → Prop
  | input _ | output _ => True
  | down i j => i < n ∧ j ≤ i
  | right i j => i < n ∧ j < i

theorem WireLabel.valid_input (n i : Nat) : (WireLabel.input i).Valid n := trivial

/-- The wires at the ports of the gate at place `j` of row `i`. -/
def pins (n i j : Nat) : Direction → Nat → Option WireLabel
  | .input, 0 => if i = j then none else some (.down (i - 1) j)
  | .input, 1 => some (if j = 0 then .input i else .right i (j - 1))
  | .output, 0 => some (if i + 1 = n then .output j else .down i j)
  | .output, 1 => if i = j then none else some (.right i j)
  | _, _ => none

theorem numbered_injective {letters : String} {n n' : Int}
    (h : numbered letters n = numbered letters n') : n = n' := by
  unfold numbered at h
  exact Int.repr_injective (String.append_right_inj letters |>.mp h)

/-- Names that begin with different letters are different. -/
theorem numbered_ne {letters letters' : String} (h : letters.toList.head? ≠ letters'.toList.head?)
    (hne : letters.toList ≠ []) (hne' : letters'.toList ≠ []) (n n' : Int) :
    numbered letters n ≠ numbered letters' n' := by
  intro he
  have hlist := congrArg (fun s : String => s.toList.head?) he
  simp only [numbered, String.toList_append, List.head?_append_of_ne_nil _ hne,
    List.head?_append_of_ne_nil _ hne'] at hlist
  exact h hlist

/-- Different wires have different names. -/
theorem text_injective {n : Nat} (hn : tri n < 2 ^ 31) {l l' : WireLabel} (hl : l.Valid n)
    (hl' : l'.Valid n) (h : l.text = l'.text) : l = l' := by
  have hplace : ∀ {i j}, i < n → j ≤ i → tri i + j < 2 ^ 31 :=
    fun hi hj => (number_lt hj hi).trans hn
  cases l <;> cases l'
  all_goals first
    | exact absurd h (numbered_ne (by decide) (by decide) (by decide) _ _)
    | have hnum := numbered_injective h
  case input.input i i' => rw [Int.ofNat_inj.mp hnum]
  case output.output j j' => rw [Int.ofNat_inj.mp hnum]
  case down.down i j i' j' =>
    obtain ⟨hi, hj⟩ := hl
    obtain ⟨hi', hj'⟩ := hl'
    obtain ⟨rfl, rfl⟩ := triangleNth_injective hj hj' (hplace hi hj) (hplace hi' hj') hnum
    rfl
  case right.right i j i' j' =>
    obtain ⟨hi, hj⟩ := hl
    obtain ⟨hi', hj'⟩ := hl'
    -- the number is that of a place in the row above
    obtain ⟨i, rfl⟩ := Nat.exists_eq_succ_of_ne_zero (Nat.ne_zero_of_lt hj)
    obtain ⟨i', rfl⟩ := Nat.exists_eq_succ_of_ne_zero (Nat.ne_zero_of_lt hj')
    have hj := Nat.lt_succ_iff.mp hj
    have hj' := Nat.lt_succ_iff.mp hj'
    have hnum' : triangleNth i j = triangleNth i' j' := by simpa using hnum
    obtain ⟨rfl, rfl⟩ := triangleNth_injective hj hj'
      (hplace (Nat.lt_of_succ_lt hi) hj) (hplace (Nat.lt_of_succ_lt hi') hj') hnum'
    rfl

theorem pins_valid {n i j k : Nat} {dir : Direction} {l : WireLabel} (hi : i < n) (hj : j ≤ i)
    (h : pins n i j dir k = some l) : l.Valid n := by
  unfold pins at h
  split at h
  · split at h
    · cases h
    · obtain rfl := Option.some.inj h
      exact ⟨by omega, by omega⟩
  · obtain rfl := Option.some.inj h
    split
    · trivial
    · exact ⟨hi, by omega⟩
  · obtain rfl := Option.some.inj h
    split
    · trivial
    · exact ⟨hi, hj⟩
  · split at h
    · cases h
    · obtain rfl := Option.some.inj h
      exact ⟨hi, by omega⟩
  · cases h

/-- The wires a gate reads, by its place. -/
theorem pins_input_iff {n i j k : Nat} {l : WireLabel} :
    pins n i j .input k = some l ↔ (k = 0 ∧ i ≠ j ∧ l = .down (i - 1) j) ∨
      (k = 1 ∧ j = 0 ∧ l = .input i) ∨ (k = 1 ∧ j ≠ 0 ∧ l = .right i (j - 1)) := by
  unfold pins
  split <;> grind

/-- The wires a gate drives, by its place. -/
theorem pins_output_iff {n i j k : Nat} {l : WireLabel} :
    pins n i j .output k = some l ↔ (k = 0 ∧ i + 1 = n ∧ l = .output j) ∨
      (k = 0 ∧ i + 1 ≠ n ∧ l = .down i j) ∨ (k = 1 ∧ i ≠ j ∧ l = .right i j) := by
  unfold pins
  split <;> grind

/-- A wire is driven from one place. -/
theorem pins_output_injective {n i j k i' j' k' : Nat} {l : WireLabel}
    (h : pins n i j .output k = some l) (h' : pins n i' j' .output k' = some l) :
    i = i' ∧ j = j' ∧ k = k' := by
  rw [pins_output_iff] at h h'
  grind

/-- A wire leads to a place with a larger number. -/
theorem pins_output_lt {n i j k i' j' k' : Nat} {l : WireLabel} (hj : j ≤ i) (hj' : j' ≤ i')
    (h : pins n i j .output k = some l) (h' : pins n i' j' .input k' = some l) :
    tri i + j < tri i' + j' := by
  rw [pins_output_iff] at h
  rw [pins_input_iff] at h'
  rcases h with ⟨-, -, rfl⟩ | ⟨-, -, rfl⟩ | ⟨-, -, rfl⟩
  · simp at h'
  · -- down, into the next row
    simp only [WireLabel.down.injEq, reduceCtorEq, and_false, or_false] at h'
    obtain ⟨-, hne, rfl, rfl⟩ := h'
    exact (number_lt hj (by omega)).trans_le (Nat.le_add_right _ _)
  · -- to the right, in the same row
    simp only [WireLabel.right.injEq, reduceCtorEq, and_false, false_or] at h'
    obtain ⟨-, hne, rfl, rfl⟩ := h'
    omega

/-! ## Placing a gate -/

/-- The names at the ports of one gate. -/
abbrev GateNames := Direction → Nat → Option String

/-- No port of the gate has a wire. -/
def GateNames.empty : GateNames := fun _ _ => none

/-- One more port with the name of its wire. -/
def GateNames.set (names : GateNames) (dir : Direction) (k : Nat) (name : String) : GateNames :=
  fun dir' k' => if dir' = dir ∧ k' = k then some name else names dir' k'

/-- The same where a condition holds, as the network is wired with an `if`. -/
def GateNames.setIf (names : GateNames) (c : Prop) [Decidable c] (dir : Direction) (k : Nat)
    (name : String) : GateNames :=
  if c then names.set dir k name else names

theorem GateNames.setIf_apply (names : GateNames) (c : Prop) [Decidable c] (dir dir' : Direction)
    (k k' : Nat) (name : String) : names.setIf c dir k name dir' k' =
      if c ∧ dir' = dir ∧ k' = k then some name else names dir' k' := by
  unfold setIf set
  split <;> simp_all

/-- The ties with other names at the ports of `g`. -/
def Ties.update (ties : Ties) (g : GateId) (names : GateNames) : Ties :=
  Function.update ties g names

theorem Ties.update_set (ties : Ties) (g : GateId) (names : GateNames) (dir : Direction) (k : Nat)
    (name : String) :
    (ties.update g names).set g dir k name = ties.update g (names.set dir k name) := by
  funext g' dir' k'
  by_cases hg : g' = g
  · subst hg
    simp [Ties.update, Ties.set, GateNames.set]
  · simp [Ties.update, Ties.set, hg]

section Placing

variable {box : SorterBox} {base : Base} {s : Building} {ties : Ties} {g : GateId}
  {names : GateNames} (ex : ExecCall → World → Option World)

theorem Wired.tie_update (h : Wired box base (ties.update g names) s) (hbase : base.gate ≤ g)
    (hlt : g < s.nextGate) (dir : Direction) {k : Nat} (hk : k < 2) (hfree : names dir k = none)
    (name : String) :
    ∃ s', s.tie ex dir name g k = some s' ∧
      Wired box base (ties.update g (names.set dir k name)) s' ∧
      s'.nextGate = s.nextGate ∧ s'.circ.gates = s.circ.gates := by
  have hfree' : ties.update g names g dir k = none := by
    rw [Ties.update, Function.update_self, hfree]
  obtain ⟨s', htie, hwired, hrest⟩ := h.tie ex hbase hlt hk hfree' name
  rw [Ties.update_set] at hwired
  exact ⟨s', htie, hwired, hrest⟩

theorem Wired.tieIf_update (h : Wired box base (ties.update g names) s) (hbase : base.gate ≤ g)
    (hlt : g < s.nextGate) (dir : Direction) {k : Nat} (hk : k < 2) (hfree : names dir k = none)
    (c : Prop) [Decidable c] (name : String) :
    ∃ s', (if c then s.tie ex dir name g k else some s) = some s' ∧
      Wired box base (ties.update g (names.setIf c dir k name)) s' ∧
      s'.nextGate = s.nextGate ∧ s'.circ.gates = s.circ.gates := by
  unfold GateNames.setIf
  split
  · exact h.tie_update ex hbase hlt dir hk hfree name
  · exact ⟨s, rfl, h, rfl, rfl⟩

/-- The names that the source computes for a gate. -/
def sourceNames (elem i j : Int) : GateNames :=
  (((GateNames.empty.setIf (i ≠ j) .input 0
    (numbered "y" (triangleNth (i - 1) (j - 1) + 1))).set .input 1
    (if j = 0 then numbered "i" i else numbered "x" (triangleNth (i - 1) (j - 1)))).set .output 0
    (if i = elem - 1 then numbered "o" j else numbered "y" (triangleNth i j))).setIf (i ≠ j)
    .output 1 (numbered "x" (triangleNth (i - 1) j))

/-- They are the names of its pins. -/
theorem sourceNames_eq {n i j : Nat} (hj : j ≤ i) :
    sourceNames n i j = fun dir k => (pins n i j dir k).map WireLabel.text := by
  funext dir k
  match dir, k with
  | .input, 0 =>
    by_cases he : i = j
    · simp [sourceNames, GateNames.setIf_apply, GateNames.set, GateNames.empty, pins, he]
    · have hi : ((i - 1 : Nat) : Int) = (i : Int) - 1 := by omega
      simp [sourceNames, GateNames.setIf_apply, GateNames.set, pins, he, WireLabel.text, hi,
        triangleNth_succ]
  | .input, 1 =>
    by_cases h0 : j = 0
    · simp [sourceNames, GateNames.setIf_apply, GateNames.set, pins, h0, WireLabel.text]
    · have hj' : ((j - 1 : Nat) : Int) = (j : Int) - 1 := by omega
      simp [sourceNames, GateNames.setIf_apply, GateNames.set, pins, h0, WireLabel.text, hj']
  | .output, 0 =>
    have hlast : (i : Int) = (n : Int) - 1 ↔ i + 1 = n := by omega
    by_cases he : i + 1 = n <;>
      simp [sourceNames, GateNames.setIf_apply, GateNames.set, pins, he, WireLabel.text, hlast]
  | .output, 1 =>
    by_cases he : i = j <;>
      simp [sourceNames, GateNames.setIf_apply, GateNames.set, GateNames.empty, pins, he,
        WireLabel.text]
  | .input, k + 2 =>
    simp [sourceNames, GateNames.setIf_apply, GateNames.set, GateNames.empty, pins]
  | .output, k + 2 =>
    simp [sourceNames, GateNames.setIf_apply, GateNames.set, GateNames.empty, pins]

/-- `m` gates have been placed. -/
structure Placed (box : SorterBox) (base : Base) (n m : Nat) (s : Building) : Prop where
  nextGate : s.nextGate = base.gate + m
  wired : ∃ ties, Wired box base ties s ∧ ∀ i j, j ≤ i → tri i + j < m →
    ties (base.gate + (tri i + j)) = fun dir k => (pins n i j dir k).map WireLabel.text
  names : ∀ name g, s.circ.gates name = some g ↔ ∃ i j, j ≤ i ∧ tri i + j < m ∧
    name = numbered "G_" (triangleNth i j) ∧ g = base.gate + (tri i + j)

/-- The name of a new gate is not registered. -/
theorem Placed.name_free {n i j : Nat} (h : Placed box base n (tri i + j) s) (hj : j ≤ i)
    (hlt : tri i + j < 2 ^ 31) : s.circ.gates (numbered "G_" (triangleNth i j)) = none := by
  cases hg : s.circ.gates (numbered "G_" (triangleNth i j)) with
  | none => rfl
  | some g =>
    obtain ⟨i', j', hj', hlt', hname, -⟩ := (h.names _ g).mp hg
    obtain ⟨rfl, rfl⟩ :=
      triangleNth_injective hj hj' hlt (hlt'.trans hlt) (numbered_injective hname)
    exact absurd hlt' (Nat.lt_irrefl _)

/-- The four steps of `tieGate`. -/
theorem Wired.tieGate (h : Wired box base (ties.update g .empty) s) (hbase : base.gate ≤ g)
    (hlt : g < s.nextGate) (elem i j : Int) :
    ∃ s', tieGate ex elem i j g s = some s' ∧
      Wired box base (ties.update g (sourceNames elem i j)) s' ∧
      s'.nextGate = s.nextGate ∧ s'.circ.gates = s.circ.gates := by
  obtain ⟨s₁, hup, h₁, hnext₁, hgates₁⟩ := h.tieIf_update ex hbase hlt .input Nat.zero_lt_two rfl
    (i ≠ j) (numbered "y" (triangleNth (i - 1) (j - 1) + 1))
  have hlt₁ : g < s₁.nextGate := hnext₁ ▸ hlt
  obtain ⟨s₂, hleft, h₂, hnext₂, hgates₂⟩ := h₁.tie_update ex hbase hlt₁ .input Nat.one_lt_two
    (by simp [GateNames.setIf_apply, GateNames.empty])
    (if j = 0 then numbered "i" i else numbered "x" (triangleNth (i - 1) (j - 1)))
  have hlt₂ : g < s₂.nextGate := hnext₂ ▸ hlt₁
  obtain ⟨s₃, hdown, h₃, hnext₃, hgates₃⟩ := h₂.tie_update ex hbase hlt₂ .output Nat.zero_lt_two
    (by simp [GateNames.set, GateNames.setIf_apply, GateNames.empty])
    (if i = elem - 1 then numbered "o" j else numbered "y" (triangleNth i j))
  have hlt₃ : g < s₃.nextGate := hnext₃ ▸ hlt₂
  obtain ⟨s₄, hright, h₄, hnext₄, hgates₄⟩ := h₃.tieIf_update ex hbase hlt₃ .output Nat.one_lt_two
    (by simp [GateNames.set, GateNames.setIf_apply, GateNames.empty])
    (i ≠ j) (numbered "x" (triangleNth (i - 1) j))
  refine ⟨s₄, ?_, h₄, ?_, ?_⟩
  · simp only [LogxControll.tieGate, Option.bind_eq_bind, hup, hleft, hdown, hright,
      Option.bind_some]
  · rw [hnext₄, hnext₃, hnext₂, hnext₁]
  · rw [hgates₄, hgates₃, hgates₂, hgates₁]

/-- Placing the next gate. -/
theorem placeGate_placed {n i j : Nat} (h : Placed box base n (tri i + j) s) (hj : j ≤ i)
    (hlt : tri i + j < 2 ^ 31) {creator : Option Gate} {gate : Gate}
    (hcreator : creator = some gate) (hnew : gate.IsNewComparator box) :
    ∃ s', placeGate ex creator n i j s = some s' ∧ Placed box base n (tri i + j + 1) s' := by
  obtain ⟨ties, hwired, hties⟩ := h.wired
  obtain ⟨s₁, hadd, hw₁, hnext₁, hgates₁⟩ :=
    hwired.addGate hcreator hnew (numbered "G_" (triangleNth i j))
  have hbase : base.gate ≤ s.nextGate := by rw [h.nextGate]; exact Nat.le_add_right _ _
  have hempty : ties = ties.update s.nextGate .empty := by
    funext g dir k
    by_cases hg : g = s.nextGate
    · rw [hg, hwired.ties_new dir k]
      simp [Ties.update, GateNames.empty]
    · simp [Ties.update, hg]
  rw [hempty] at hw₁
  obtain ⟨s₂, htie, hw₂, hnext₂, hgates₂⟩ :=
    hw₁.tieGate ex hbase (hnext₁ ▸ Nat.lt_succ_self _) n i j
  rw [sourceNames_eq hj] at hw₂
  refine ⟨s₂, ?_, ?_, ⟨_, hw₂, ?_⟩, ?_⟩
  · simp [placeGate, hadd, htie]
  · rw [hnext₂, hnext₁, h.nextGate, Nat.add_assoc]
  · intro i' j' hj' hlt'
    by_cases hsame : tri i' + j' = tri i + j
    · obtain ⟨rfl, rfl⟩ := number_injective hj' hj hsame
      rw [← h.nextGate]
      exact Function.update_self ..
    · rw [← hties i' j' hj' (by omega)]
      apply Function.update_of_ne
      rw [h.nextGate]
      intro he
      exact hsame (Nat.add_left_cancel he)
  · intro name g
    have hgates : s₂.circ.gates = Function.update s.circ.gates (numbered "G_" (triangleNth i j))
        (some s.nextGate) := by
      rw [hgates₂, hgates₁, lxcCircuitAddGate, lxcCircuitGetGateByRefdes, h.name_free hj hlt]
      rfl
    rw [hgates]
    by_cases hname : name = numbered "G_" (triangleNth i j)
    · subst hname
      rw [Function.update_self, Option.some.injEq, h.nextGate]
      constructor
      · rintro rfl
        exact ⟨i, j, hj, Nat.lt_succ_self _, rfl, rfl⟩
      · rintro ⟨i', j', hj', hlt', hname, rfl⟩
        obtain ⟨rfl, rfl⟩ :=
          triangleNth_injective hj hj' hlt (by omega) (numbered_injective hname)
        rfl
    · rw [Function.update_of_ne hname, h.names]
      constructor
      · rintro ⟨i', j', hj', hlt', hplace⟩
        exact ⟨i', j', hj', Nat.lt_succ_of_lt hlt', hplace⟩
      · rintro ⟨i', j', hj', hlt', rfl, rfl⟩
        refine ⟨i', j', hj', Nat.lt_of_le_of_ne (Nat.lt_succ_iff.mp hlt') ?_, rfl, rfl⟩
        intro hsame
        obtain ⟨rfl, rfl⟩ := number_injective hj' hj hsame
        exact hname rfl

/-! ## The loops -/

/-- A row. -/
theorem placeRow_placed {n i : Nat} (h : Placed box base n (tri i) s) (hlt : tri (i + 1) ≤ 2 ^ 31)
    {creator : Option Gate} {gate : Gate} (hcreator : creator = some gate)
    (hnew : gate.IsNewComparator box) :
    ∃ s', placeRow ex creator n s i = some s' ∧ Placed box base n (tri (i + 1)) s' := by
  apply Run.foldlM_range (P := fun j s => Placed box base n (tri i + j) s) ?_ h
  intro j hj s h
  rw [tri_succ] at hlt
  exact placeGate_placed ex h (Nat.lt_succ_iff.mp hj) (by omega) hcreator hnew

/-- The network is built as the pins say, in memory that is allocated at fresh addresses. -/
theorem createComputerphileSortNetwork_placed (box : SorterBox) (junk : Nat → Nat) {n : Nat}
    (hn : tri n ≤ 2 ^ 31) {W : World} {nextGate : GateId}
    (hgates : ∀ g, nextGate ≤ g → W.gates g = none)
    (hwires : ∀ w, W.nextWire ≤ w → W.wires w = none)
    (htokenports : ∀ p, W.nextTokenport ≤ p → W.tokenports p = none) :
    ∃ s, createComputerphileSortNetwork ex (box.creator junk) n nextGate W = some s ∧
      Placed box ⟨nextGate, W.nextWire, W.nextTokenport⟩ n (tri n) s := by
  obtain ⟨gate, hcreator, hnew⟩ := box.creator_eq junk
  unfold createComputerphileSortNetwork
  rw [Int.toNat_natCast]
  apply Run.foldlM_range
    (P := fun i s => Placed box ⟨nextGate, W.nextWire, W.nextTokenport⟩ n (tri i) s)
  · intro i hi s h
    exact placeRow_placed ex h ((tri_mono hi).trans hn) hcreator hnew
  · refine ⟨rfl, ⟨_, Wired.start box hgates hwires htokenports, ?_⟩, ?_⟩
    · intro i j _ hlt
      exact absurd hlt (Nat.not_lt_zero _)
    · intro name g
      constructor
      · intro h
        cases h
      · rintro ⟨i, j, -, hlt, -⟩
        exact absurd hlt (Nat.not_lt_zero _)

end Placing

/-! ## The finished circuit -/

namespace Placed

variable {box : SorterBox} {base : Base} {n i j : Nat} {s : Building}

/-- Every gate has a place. -/
theorem place (h : Placed box base n (tri n) s) {g : GateId} {gate : Gate} (hg : base.gate ≤ g)
    (hgate : s.memory.gates g = some gate) :
    ∃ i j, j ≤ i ∧ i < n ∧ g = base.gate + (tri i + j) := by
  obtain ⟨ties, hwired, -⟩ := h.wired
  obtain ⟨m, rfl⟩ := Nat.exists_eq_add_of_le hg
  obtain ⟨i, j, hj, rfl⟩ := exists_place m
  have hlt := hwired.lt_nextGate hgate
  rw [h.nextGate] at hlt
  have hm : tri i + j < tri n := Nat.lt_of_add_lt_add_left hlt
  refine ⟨i, j, hj, ?_, rfl⟩
  by_contra hi
  have := tri_mono (Nat.not_lt.mp hi)
  omega

theorem gate (h : Placed box base n (tri n) s) (hj : j ≤ i) (hi : i < n) :
    ∃ gate, s.memory.gates (base.gate + (tri i + j)) = some gate ∧ gate.IsComparator box := by
  obtain ⟨ties, hwired, -⟩ := h.wired
  have hbase : base.gate ≤ base.gate + (tri i + j) := Nat.le_add_right _ _
  have hlt : base.gate + (tri i + j) < s.nextGate := by
    rw [h.nextGate]
    exact Nat.add_lt_add_left (number_lt hj hi) _
  obtain ⟨gate, hgate⟩ := hwired.live _ hbase hlt
  exact ⟨gate, hgate, (hwired.comparator _ gate hbase hgate).1⟩

/-- What is in a slot is the wire of the pin. -/
theorem slot (h : Placed box base n (tri n) s) (hj : j ≤ i) (hi : i < n) {gate : Gate}
    (hgate : s.memory.gates (base.gate + (tri i + j)) = some gate) (dir : Direction) {k c : Nat}
    (hc : slotAt (gate.side dir).slots k = some c) :
    ∃ l w p, pins n i j dir k = some l ∧ s.circ.wires l.text = some w ∧
      BoundBy base s.memory (base.gate + (tri i + j)) dir k c w p := by
  obtain ⟨ties, hwired, hties⟩ := h.wired
  obtain ⟨name, w, p, hname, hw, hbound⟩ :=
    hwired.slot _ gate dir k c (Nat.le_add_right _ _) hgate hc
  rw [hties i j hj (number_lt hj hi), Option.map_eq_some_iff] at hname
  obtain ⟨l, hl, rfl⟩ := hname
  exact ⟨l, w, p, hl, hw, hbound⟩

/-- A pin has a wire, and it is in the slot. -/
theorem pin (h : Placed box base n (tri n) s) (hj : j ≤ i) (hi : i < n) {gate : Gate}
    (hgate : s.memory.gates (base.gate + (tri i + j)) = some gate) (dir : Direction) {k : Nat}
    {l : WireLabel} (hl : pins n i j dir k = some l) :
    ∃ c w p, slotAt (gate.side dir).slots k = some c ∧ s.circ.wires l.text = some w ∧
      BoundBy base s.memory (base.gate + (tri i + j)) dir k c w p := by
  obtain ⟨ties, hwired, hties⟩ := h.wired
  have hname : ties (base.gate + (tri i + j)) dir k = some l.text := by
    rw [hties i j hj (number_lt hj hi)]
    exact congrArg (Option.map WireLabel.text) hl
  obtain ⟨-, gate', c, hgate', hc⟩ := hwired.tied _ dir k _ hname
  obtain rfl := Option.some.inj (hgate.symm.trans hgate')
  obtain ⟨l', w, p, hl', hw, hbound⟩ := h.slot hj hi hgate dir hc
  obtain rfl := Option.some.inj (hl.symm.trans hl')
  exact ⟨c, w, p, hc, hw, hbound⟩

theorem pin_none (h : Placed box base n (tri n) s) (hj : j ≤ i) (hi : i < n) {gate : Gate}
    (hgate : s.memory.gates (base.gate + (tri i + j)) = some gate) (dir : Direction) {k : Nat}
    (hc : slotAt (gate.side dir).slots k = none) : pins n i j dir k = none := by
  by_contra hsome
  obtain ⟨l, hl⟩ := Option.ne_none_iff_exists'.mp hsome
  obtain ⟨c, w, p, hc', -⟩ := h.pin hj hi hgate dir hl
  rw [hc] at hc'
  cases hc'

/-- Every wire has one label. -/
theorem label_injective (h : Placed box base n (tri n) s) (hn : tri n < 2 ^ 31)
    {l l' : WireLabel} (hl : l.Valid n) (hl' : l'.Valid n) {w : WireId}
    (hw : s.circ.wires l.text = some w) (hw' : s.circ.wires l'.text = some w) : l = l' := by
  obtain ⟨ties, hwired, -⟩ := h.wired
  exact text_injective hn hl hl' (hwired.injective _ _ w hw hw')

end Placed

end LogxControll
