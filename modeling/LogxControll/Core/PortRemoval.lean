/-
  Removing ports: `lxc_port_remove_port` hands a block of 32-bit indices to
  `array_pnt_pop_element`, which takes two indices for one pointer.

  `arrayPntPopElement_words` says what happens to the words of the block. It removes the right
  index from the group when the last port is removed, or when two ports are left and the cell
  behind them happens to repeat the second one (`PortManager.Removable`); `port_manager_refines`
  has the runs in which only such ports are removed, and that no other removal is right.
-/
import LogxControll.Core.PortLists
import LogxControll.Lib.Run

namespace LogxControll

/-! ## Cells and words -/

/-- One half of a pointer, zero for NULL. -/
def cellOf (low : Bool) (word : Option (Nat × Nat)) : Nat :=
  word.elim 0 fun w => if low then w.1 else w.2

theorem length_asUints (ws : List (Option (Nat × Nat))) : (asUints ws).length = 2 * ws.length := by
  induction ws with
  | nil => rfl
  | cons w ws ih =>
    cases w <;> simp only [asUints, List.length_cons, ih] <;> omega

theorem asUints_asPointers : ∀ (b : UintBlock), 2 ∣ b.length → asUints (asPointers b) = b
  | [], _ => rfl
  | [_], h => by simp at h
  | low :: high :: b, h => by
    have heven : 2 ∣ b.length := by simpa [Nat.dvd_add_self_right] using h
    rw [asPointers]
    split
    · next hzero => rw [asUints, asUints_asPointers b heven, hzero.1, hzero.2]
    · rw [asUints, asUints_asPointers b heven]

theorem getElem?_asUints (ws : List (Option (Nat × Nat))) (c : Nat) :
    (asUints ws)[c]? = ws[c / 2]?.map (cellOf (c % 2 = 0)) := by
  induction ws generalizing c with
  | nil => rfl
  | cons w ws ih =>
    match c with
    | 0 => cases w <;> rfl
    | 1 => cases w <;> rfl
    | c + 2 =>
      have hdiv : (c + 2) / 2 = c / 2 + 1 := by omega
      have hmod : (c + 2) % 2 = c % 2 := by omega
      rw [hdiv, hmod, List.getElem?_cons_succ, ← ih c]
      cases w <;> rfl

/-! ## The group after the removal -/

section Removal

variable {m : PortManager} {gs : Groups} {names : List PortName}

/-- A removal that takes the right index out of the block: the block has a NULL word to stop at,
    and the port is the last of its group, or the first of two with a copy of the second index
    behind them. -/
def PortManager.Removable (m : PortManager) (type : Signal) (subtype : Int) (index : Nat) : Prop :=
  ∀ ti size block, m.findType type subtype = some ti → m.sizeAt ti = some size →
    m.blockAt ti = some block → index < size →
      none ∈ asPointers block ∧ (index + 1 = size ∨
        (size = 2 ∧ index = 0 ∧ block[2]? = block[1]? ∧ (asPointers block)[1]? ≠ some none))

/-- The words of a block after the removal, as cells. -/
theorem popped_cell {ws : List (Option (Nat × Nat))} {index z c : Nat} (hlt : z < ws.length)
    (hindex : index < z) (hc : c / 2 ≤ z) :
    (asUints ((shiftDown ws index (z - 1 - index)).take (z + 1)))[c]? =
      if index ≤ c / 2 ∧ c / 2 + 1 < z then (asUints ws)[c + 2]? else (asUints ws)[c]? := by
  rw [getElem?_asUints, getElem?_popped hlt hindex hc]
  have hdiv : (c + 2) / 2 = c / 2 + 1 := by omega
  have hmod : (c + 2) % 2 = c % 2 := by omega
  split
  · rw [getElem?_asUints, hdiv, hmod]
  · rw [getElem?_asUints]

/-- What is left of the group in the block. -/
def poppedBlock (block : UintBlock) (index : Nat) : Option UintBlock :=
  ((asPointers block).findIdx? Option.isNone).map fun z =>
    if z ≤ index then block
    else asUints ((shiftDown (asPointers block) index (z - 1 - index)).take (z + 1))

theorem poppedBlock_isSome {block : UintBlock} {index : Nat} :
    (poppedBlock block index).isSome ↔ none ∈ asPointers block := by
  rw [poppedBlock, Option.isSome_map, List.findIdx?_isSome, List.any_eq_true]
  constructor
  · rintro ⟨w, hw, hnone⟩
    rwa [Option.isNone_iff_eq_none.mp hnone] at hw
  · exact fun h => ⟨none, h, rfl⟩

theorem poppedBlock_even {block block' : UintBlock} {index : Nat} (heven : 2 ∣ block.length)
    (h : poppedBlock block index = some block') : 2 ∣ block'.length := by
  obtain ⟨z, -, rfl⟩ := Option.map_eq_some_iff.mp h
  split
  · exact heven
  · rw [length_asUints]
    exact Nat.dvd_mul_right 2 _

/-- The cells that are compared with the group. -/
theorem getElem?_poppedBlock {block block' : UintBlock} {index : Nat} (heven : 2 ∣ block.length)
    (h : poppedBlock block index = some block') :
    ∃ z, (asPointers block).findIdx? Option.isNone = some z ∧ z < (asPointers block).length ∧
      ∀ c, c / 2 ≤ z → block'[c]? =
        if index ≤ c / 2 ∧ c / 2 + 1 < z then block[c + 2]? else block[c]? := by
  obtain ⟨z, hz, rfl⟩ := Option.map_eq_some_iff.mp h
  obtain ⟨hlt, -, -⟩ := List.findIdx?_eq_some_iff_getElem.mp hz
  refine ⟨z, hz, hlt, fun c hc => ?_⟩
  by_cases hle : z ≤ index
  · rw [if_pos hle, if_neg (by omega)]
  · rw [if_neg hle, popped_cell hlt (Nat.lt_of_not_le hle) hc, asUints_asPointers block heven]

/-- The last port of a group is removed. -/
theorem prefix_poppedBlock_last {block block' : UintBlock} {l : List Nat} {index : Nat}
    (heven : 2 ∣ block.length) (hl : l <+: block) (hindex : index + 1 = l.length)
    (h : poppedBlock block index = some block') : l.eraseIdx index <+: block' := by
  have hdrop : l.eraseIdx index = l.dropLast := by
    rw [List.dropLast_eq_take, List.eraseIdx_eq_take_drop_succ, List.drop_eq_nil_of_le (by omega),
      List.append_nil, ← hindex, Nat.add_sub_cancel]
  rw [hdrop]
  by_cases hz : ∃ z, (asPointers block).findIdx? Option.isNone = some z ∧ index < z
  · obtain ⟨z, hz, hlt⟩ := hz
    obtain ⟨z', hz', hlength, hcells⟩ := getElem?_poppedBlock heven h
    obtain rfl := Option.some.inj (hz.symm.trans hz')
    rw [List.prefix_iff_eq_take]
    apply List.ext_getElem?
    intro c
    rw [List.getElem?_take, List.length_dropLast]
    by_cases hc : c < l.length - 1
    · rw [if_pos hc, hcells c (by omega), if_neg (by omega), List.getElem?_dropLast, if_pos hc,
        List.getElem?_eq_getElem (by omega)]
      exact (List.prefix_iff_getElem?.mp hl c (by omega)).symm
    · rw [if_neg hc, List.getElem?_dropLast, if_neg hc]
  · obtain ⟨z, hz', he⟩ := Option.map_eq_some_iff.mp h
    have hle : z ≤ index := Nat.le_of_not_lt fun hlt => hz ⟨z, hz', hlt⟩
    rw [if_pos hle] at he
    rw [← he]
    exact (List.dropLast_prefix l).trans hl

/-- The first of two ports is removed, and the second index stands behind the group once more. -/
theorem prefix_poppedBlock_copy {block block' : UintBlock} {l : List Nat}
    (heven : 2 ∣ block.length) (hl : l <+: block) (hlen : l.length = 2)
    (hcopy : block[2]? = block[1]?) (hword : (asPointers block)[1]? ≠ some none)
    (hzero : (asPointers block)[0]? ≠ some none) (h : poppedBlock block 0 = some block') :
    l.eraseIdx 0 <+: block' := by
  obtain ⟨z, hz, hlt, hcells⟩ := getElem?_poppedBlock heven h
  obtain ⟨hlt', hnone, hfirst'⟩ := List.findIdx?_eq_some_iff_getElem.mp hz
  have hget : (asPointers block)[z]? = some none := by
    rw [List.getElem?_eq_getElem hlt, Option.isNone_iff_eq_none.mp hnone]
  have hz2 : 2 ≤ z := by
    by_contra hlow
    have : z = 0 ∨ z = 1 := by omega
    rcases this with rfl | rfl
    · exact hzero hget
    · exact hword hget
  obtain ⟨a, b, rfl⟩ := List.length_eq_two.mp hlen
  have hb : block[1]? = some b := List.prefix_iff_getElem?.mp hl 1 (by simp)
  have hfirst := hcells 0 (by omega)
  rw [if_pos (by omega), hcopy, hb] at hfirst
  show [b] <+: block'
  rw [List.prefix_iff_getElem?]
  intro c hc
  obtain rfl : c = 0 := Nat.lt_one_iff.mp hc
  exact hfirst

/-- No other removal leaves the later indices in their places. -/
theorem removable_of_moved {block block' : UintBlock} {l : List Nat} {index : Nat}
    (heven : 2 ∣ block.length) (hl : l <+: block) (hnodup : l.Nodup) (hindex : index < l.length)
    (h : poppedBlock block index = some block')
    (hmoved : ∀ i, index < i → i < l.length → block'[i - 1]? = l[i]?) :
    index + 1 = l.length ∨
      (l.length = 2 ∧ index = 0 ∧ block[2]? = block[1]? ∧ (asPointers block)[1]? ≠ some none) := by
  by_cases hlast : index + 1 = l.length
  · exact .inl hlast
  refine .inr ?_
  have hcell : ∀ i, i < l.length → block[i]? = l[i]? := by
    intro i hi
    rw [List.prefix_iff_getElem?.mp hl i hi, List.getElem?_eq_getElem hi]
  have hdistinct : ∀ i j, i < l.length → j < l.length → block[i]? = l[j]? → i = j := by
    intro i j hi hj he
    rw [hcell i hi] at he
    exact (List.getElem?_inj hi hnodup).mp he
  obtain ⟨z, hz, hlt, hcells⟩ := getElem?_poppedBlock heven h
  have hnext := hmoved (index + 1) (by omega) (by omega)
  rw [Nat.add_sub_cancel] at hnext
  -- a cell of the block that was not moved is still the removed index
  have hmust : index ≤ index / 2 ∧ index / 2 + 1 < z := by
    by_contra hstay
    by_cases hz' : index / 2 ≤ z
    · rw [hcells index hz', if_neg hstay] at hnext
      have := hdistinct index (index + 1) hindex (by omega) hnext
      omega
    · obtain ⟨z', hz'', he⟩ := Option.map_eq_some_iff.mp h
      obtain rfl := Option.some.inj (hz.symm.trans hz'')
      rw [if_pos (by omega)] at he
      rw [← he] at hnext
      have := hdistinct index (index + 1) hindex (by omega) hnext
      omega
  obtain rfl : index = 0 := by omega
  have hcopy : block[2]? = l[1]? := by
    rw [hcells 0 (by omega), if_pos hmust] at hnext
    exact hnext
  have hlen : l.length = 2 := by
    by_contra hlen
    have := hdistinct 2 1 (by omega) (by omega) hcopy
    omega
  refine ⟨hlen, rfl, hcopy.trans (hcell 1 (by omega)).symm, fun hword => ?_⟩
  obtain ⟨hlt', hnone, hbefore⟩ := List.findIdx?_eq_some_iff_getElem.mp hz
  have hlt1 : 1 < (asPointers block).length := by omega
  rw [List.getElem?_eq_getElem hlt1, Option.some.injEq] at hword
  have := hbefore 1 (by omega)
  rw [hword] at this
  exact this rfl

end Removal

/-! ## The manager after the removal -/

/-- Taking a port out of its list frees its slot of the name table. -/
theorem Indexed.pop {abs : FullSignalType → List Nat} {names : List PortName}
    (h : Indexed abs names) {key : FullSignalType} {index a : Nat}
    (ha : (abs key)[index]? = some a) :
    Indexed (Function.update abs key ((abs key).eraseIdx index)) (names.set a .empty) := by
  -- a port that is left is an old one, and not the removed one
  have hcases : ∀ (k : FullSignalType) (i b : Nat),
      (Function.update abs key ((abs key).eraseIdx index) k)[i]? = some b →
      ∃ j, (abs k)[j]? = some b ∧ (k = key → j ≠ index ∧ i = if j < index then j else j - 1) ∧
        (k ≠ key → i = j) := by
    intro k i b hb
    by_cases hk : k = key
    · subst hk
      rw [Function.update_self, List.getElem?_eraseIdx] at hb
      by_cases hi : i < index
      · rw [if_pos hi] at hb
        exact ⟨i, hb, fun _ => ⟨by omega, by rw [if_pos hi]⟩, fun hk => absurd rfl hk⟩
      · rw [if_neg hi] at hb
        exact ⟨i + 1, hb, fun _ => ⟨by omega, by rw [if_neg (by omega)]; rfl⟩,
          fun hk => absurd rfl hk⟩
    · rw [Function.update_of_ne hk] at hb
      exact ⟨i, hb, fun he => absurd he hk, fun _ => rfl⟩
  constructor
  · intro k k' i i' b hb hb'
    obtain ⟨j, hj, hsame, hother⟩ := hcases k i b hb
    obtain ⟨j', hj', hsame', hother'⟩ := hcases k' i' b hb'
    obtain ⟨rfl, rfl⟩ := h.inj hj hj'
    refine ⟨rfl, ?_⟩
    by_cases hk : k = key
    · rw [(hsame hk).2, (hsame' hk).2]
    · rw [hother hk, hother' hk]
  · intro b
    by_cases hb : b = a
    · subst hb
      constructor
      · rintro ⟨k, i, hi⟩
        obtain ⟨j, hj, hsame, -⟩ := hcases k i b hi
        obtain ⟨rfl, rfl⟩ := h.inj hj ha
        exact absurd rfl (hsame rfl).1
      · rintro ⟨s, hs⟩
        by_cases hlt : b < names.length
        · rw [List.getElem?_set_self hlt] at hs
          cases hs
        · rw [List.getElem?_eq_none (by rw [List.length_set]; omega)] at hs
          cases hs
    · rw [List.getElem?_set_ne (Ne.symm hb), ← h.live b]
      constructor
      · rintro ⟨k, i, hi⟩
        obtain ⟨j, hj, -⟩ := hcases k i b hi
        exact ⟨k, j, hj⟩
      · rintro ⟨k, i, hi⟩
        by_cases hk : k = key
        · subst hk
          have hne : i ≠ index := by
            rintro rfl
            exact hb (Option.some.inj (hi.symm.trans ha))
          refine ⟨k, if i < index then i else i - 1, ?_⟩
          rw [Function.update_self, List.getElem?_eraseIdx]
          by_cases hlt : i < index
          · rw [if_pos hlt, if_pos hlt, hi]
          · rw [if_neg hlt, if_neg (by omega), ← hi]
            congr 1
            omega
        · exact ⟨k, i, by rw [Function.update_of_ne hk, hi]⟩

section Manager

variable {m : PortManager} {gs : Groups} {names : List PortName}

theorem lxcPortGetAbsindex_of_entry {type : Signal} {subtype : Int} {ti size i : Nat}
    {block : UintBlock} (hf : m.findType type subtype = some ti) (hs : m.sizeAt ti = some size)
    (hb : m.blockAt ti = some block) (hi : i < size) :
    lxcPortGetAbsindex m type subtype i = block[i]?.map fun a : Nat => (a : Int) := by
  unfold lxcPortGetAbsindex
  simp only [hf, hs, hb, hi, Option.bind_eq_bind, Option.bind_some, if_true]
  cases block[i]? <;> rfl

theorem blockAt_setBlock {ti : Nat} {block block' : UintBlock} (hb : m.blockAt ti = some block) :
    (m.setBlock ti block').blockAt ti = some block' := by
  cases hs : m.toAbs with
  | none => simp [PortManager.blockAt, hs] at hb
  | some blocks =>
    have hlt : ti < blocks.length := by
      by_contra hle
      simp [PortManager.blockAt, hs, List.getElem?_eq_none (Nat.le_of_not_lt hle)] at hb
    simp [PortManager.blockAt, PortManager.setBlock, hs, hlt]

namespace PortManager.Represents

theorem remove_of_missing (h : m.Represents gs names) {type : Signal} {subtype : Int}
    {index : Nat} (hindex : (absList gs ⟨type, subtype⟩).length ≤ index) :
    lxcPortRemovePort m type subtype index = some m := by
  unfold lxcPortRemovePort
  have habs : absAt gs ⟨type, subtype⟩ index = -1 :=
    absAt_of_none (List.getElem?_eq_none hindex)
  cases hf : m.findType type subtype with
  | none => rfl
  | some ti =>
    simp only [h.lxcPortGetAbsindex_eq, habs, Option.bind_eq_bind, Option.bind_some]
    rfl

/-- What the removal of a port comes to. -/
theorem remove_of_live (h : m.Represents gs names) (hsize : names.length ≤ 2 ^ 31)
    {type : Signal} {subtype : Int} {index a ti : Nat} {block : UintBlock}
    (ha : (absList gs ⟨type, subtype⟩)[index]? = some a)
    (hf : m.findType type subtype = some ti) (hb : m.blockAt ti = some block)
    (heven : 2 ∣ block.length) :
    lxcPortRemovePort m type subtype index = (poppedBlock block index).map fun block' =>
      { (m.setBlock ti block').setSize ti ((absList gs ⟨type, subtype⟩).length - 1) with
        portNames := some ((names.set a .empty).map some ++ [none])
        maxSize := (names.set a .empty).length } := by
  have hlt := h.getElem?_lt ha
  have hindex := (List.getElem?_eq_some_iff.mp ha).1
  have hint : index < 2 ^ 31 := by
    have := h.length_absList_le ⟨type, subtype⟩
    omega
  have hnames : m.portNames = some (names.map some ++ [none]) := by
    rcases h.packed with ⟨-, rfl⟩ | hp
    · cases hlt
    · exact hp
  have hset : (names.map some ++ [none]).set a (some PortName.empty) =
      (names.set a .empty).map some ++ [none] := by
    have hlt' : a < (names.map (some : PortName → Option PortName)).length := by simpa using hlt
    rw [List.set_append_left _ _ hlt', List.map_set]
  have hgroup : m.sizeAt ti = some (absList gs ⟨type, subtype⟩).length := by
    rcases h.findType_cases type subtype with ⟨hn, -⟩ | ⟨ti', hf', hg⟩
    · rw [hf] at hn
      cases hn
    · obtain rfl := Option.some.inj (hf.symm.trans hf')
      exact h.sizes ti _ hg
  have hneg : ¬ (a : Int) < 0 := by omega
  have hwrite : ¬ (names.map some ++ [(none : Option PortName)]).length ≤ a := by
    rw [List.length_append, List.length_map]
    omega
  have hpop := arrayPntPopElement_words hint (asPointers block)
  unfold lxcPortRemovePort poppedBlock
  simp only [hf, h.lxcPortGetAbsindex_eq, absAt_of_getElem? ha, hnames, hgroup, hb, hneg, hwrite,
    Option.bind_eq_bind, Option.bind_some, if_false, Int.toNat_natCast, hset,
    arrayPntPopulation_of_packed (packed_block _)]
  cases hz : (asPointers block).findIdx? Option.isNone with
  | none =>
    rw [hz, Option.map_eq_none_iff] at hpop
    rw [hpop]
    rfl
  | some z =>
    rw [hz, Option.map_eq_some_iff] at hpop
    obtain ⟨r, hr, hwords⟩ := hpop
    rw [hr]
    simp only [Option.bind_some, hwords, Option.getD_some, Option.map_some]
    by_cases hle : z ≤ index
    · simp only [if_pos hle, asUints_asPointers block heven]
      rfl
    · simp only [if_neg hle]
      rfl

/-- The group of a removable port loses exactly that port. -/
theorem remove_represents (h : m.Represents gs names) (hsize : names.length ≤ 2 ^ 31)
    {type : Signal} {subtype : Int} {index a : Nat}
    (ha : (absList gs ⟨type, subtype⟩)[index]? = some a) (hok : m.Removable type subtype index) :
    ∃ m' gs', lxcPortRemovePort m type subtype index = some m' ∧
      m'.Represents gs' (names.set a .empty) ∧
      absList gs' = Function.update (absList gs) ⟨type, subtype⟩
        ((absList gs ⟨type, subtype⟩).eraseIdx index) := by
  have hindex := (List.getElem?_eq_some_iff.mp ha).1
  rcases h.findType_cases type subtype with ⟨-, hn⟩ | ⟨ti, hf, hg⟩
  · rw [absList_of_notMem hn] at hindex
    cases hindex
  obtain ⟨block, hb, hfront, heven⟩ := h.blockAt_eq hg
  obtain ⟨hzero, hcase⟩ := hok ti _ block hf (h.sizes ti _ hg) hb hindex
  obtain ⟨block', hpopped⟩ := Option.isSome_iff_exists.mp (poppedBlock_isSome.mpr hzero)
  have hfront' : (absList gs ⟨type, subtype⟩).eraseIdx index <+: block' := by
    rcases hcase with hlast | ⟨hlen, rfl, hcopy, hword⟩
    · exact prefix_poppedBlock_last heven hfront hlast hpopped
    · have htwo : (absList gs ⟨type, subtype⟩).length = 2 := hlen
      have hword0 : (asPointers block)[0]? ≠ some none := by
        intro hnull
        have hcell : ∀ i, i < 2 → (absList gs ⟨type, subtype⟩)[i]? = some 0 := by
          intro i hi
          have hi' : i < (absList gs ⟨type, subtype⟩).length := by omega
          have := getElem?_asUints (asPointers block) i
          rw [asUints_asPointers block heven, show i / 2 = 0 by omega, hnull,
            List.prefix_iff_getElem?.mp hfront i hi', ← List.getElem?_eq_getElem hi'] at this
          exact this
        have hsame := (hcell 0 (by omega)).trans (hcell 1 (by omega)).symm
        have := (List.getElem?_inj hindex (h.nodup_absList _)).mp hsame
        omega
      exact prefix_poppedBlock_copy heven hfront hlen hcopy hword hword0 hpopped
  have hset := h.setGroup hg hfront' (poppedBlock_even heven hpopped)
    (packed_block (names.set a .empty)) (h.indexed.pop ha)
  rw [List.length_eraseIdx_of_lt hindex] at hset
  refine ⟨_, _, ?_, hset, absList_set h.keys hg _⟩
  rw [h.remove_of_live hsize ha hf hb heven, hpopped]
  rfl

/-- A removal that returns and moves every later port is one of a removable port. -/
theorem removable_of_remove (h : m.Represents gs names) (hsize : names.length ≤ 2 ^ 31)
    {type : Signal} {subtype : Int} {index : Nat} {m' : PortManager}
    (hm' : lxcPortRemovePort m type subtype index = some m')
    (hmoved : ∀ i a, index < i → (absList gs ⟨type, subtype⟩)[i]? = some a →
      lxcPortGetAbsindex m' type subtype (i - 1) = some (a : Int)) :
    m.Removable type subtype index := by
  intro ti size block hf hs hb hindex
  rcases h.findType_cases type subtype with ⟨hn, -⟩ | ⟨ti', hf', hg⟩
  · rw [hf] at hn
    cases hn
  obtain rfl := Option.some.inj (hf.symm.trans hf')
  obtain rfl := Option.some.inj (hs.symm.trans (h.sizes ti _ hg))
  obtain ⟨block', hb', hfront, heven⟩ := h.blockAt_eq hg
  obtain rfl := Option.some.inj (hb.symm.trans hb')
  have hindex' : index < (absList gs ⟨type, subtype⟩).length := hindex
  obtain ⟨a, ha⟩ : ∃ a, (absList gs ⟨type, subtype⟩)[index]? = some a :=
    ⟨_, List.getElem?_eq_getElem hindex'⟩
  rw [h.remove_of_live hsize ha hf hb heven, Option.map_eq_some_iff] at hm'
  obtain ⟨popped, hpopped, rfl⟩ := hm'
  refine ⟨poppedBlock_isSome.mp (by rw [hpopped]; rfl), ?_⟩
  apply removable_of_moved heven hfront (h.nodup_absList _) hindex' hpopped
  intro i hi hlt
  have hget : (absList gs ⟨type, subtype⟩)[i]? = some _ := List.getElem?_eq_getElem hlt
  have habs := hmoved i _ hi hget
  have hcell := lxcPortGetAbsindex_of_entry (i := i - 1)
    (m := { (m.setBlock ti popped).setSize ti ((absList gs ⟨type, subtype⟩).length - 1) with
      portNames := some ((names.set a .empty).map some ++ [none])
      maxSize := (names.set a .empty).length }) hf
    (sizeAt_setSize_self (m.setBlock ti popped) (h.sizes ti _ hg)) (blockAt_setBlock hb)
    (by have : i < (absList gs ⟨type, subtype⟩).length := hlt
        omega)
  obtain ⟨c, hc, he⟩ := Option.map_eq_some_iff.mp (hcell.symm.trans habs)
  rw [hc]
  exact (congrArg some (Int.ofNat.inj he)).trans hget.symm

end PortManager.Represents

end Manager

/-! ## Runs -/

/-- A call with its arguments; `junk` is what `realloc` leaves in new cells. -/
inductive PortOp where
  | add (junk : Nat → Nat) (name : String) (type : Signal) (subtype : Int)
  | remove (type : Signal) (subtype : Int) (index : Nat)

/-- A change of the port manager, names being those of callers. -/
def PortOp.step (m : PortManager) : PortOp → Option PortManager
  | .add junk name type subtype =>
    (lxcPortUncheckedAddNewPort junk m (.chars name) type subtype).map fun r => r.2.2
  | .remove type subtype index => lxcPortRemovePort m type subtype index

/-- What a port manager is for: a list of names for every (type, subtype). -/
abbrev PortLists := FullSignalType → List String

/-- What the change does to the lists of names. -/
def PortOp.apply (L : PortLists) : PortOp → PortLists
  | .add _ name type subtype =>
    Function.update L ⟨type, subtype⟩ (L ⟨type, subtype⟩ ++ [name])
  | .remove type subtype index =>
    Function.update L ⟨type, subtype⟩ ((L ⟨type, subtype⟩).eraseIdx index)

/-- Where port `i` of a group is after the operation; `none` for the removed one. -/
def PortOp.moves (op : PortOp) (key : FullSignalType) (i : Nat) : Option Nat :=
  match op with
  | .add .. => some i
  | .remove type subtype index =>
    if key ≠ ⟨type, subtype⟩ ∨ i < index then some i else if i = index then none else some (i - 1)

/-- The ports that survive keep their absolute indices. -/
def PortOp.Survives (op : PortOp) (m m' : PortManager) : Prop :=
  ∀ type subtype i i' (a : Nat), lxcPortGetAbsindex m type subtype i = some (a : Int) →
    op.moves ⟨type, subtype⟩ i = some i' → lxcPortGetAbsindex m' type subtype i' = some (a : Int)

/-- There is an index of type `int` for a new port; a removed port is removable. -/
def PortOp.Ok (m : PortManager) : PortOp → Prop
  | .add .. => lxcPortCount m + 1 < 2 ^ 31
  | .remove type subtype index => m.Removable type subtype index

/-- What the lookups say of the lists. A (type, subtype) without ports may be unknown to the
    manager, and then has a negative count. -/
structure PortManager.Implements (m : PortManager) (L : PortLists) : Prop where
  maxIndex : ∀ type subtype, ∃ n, lxcGenericGetTypeMaxIndex m type subtype = some n ∧
    (n = (L ⟨type, subtype⟩).length ∨ L ⟨type, subtype⟩ = [] ∧ n < 0)
  label : ∀ type subtype i name, (L ⟨type, subtype⟩)[i]? = some name →
    lxcGenericGetPortLabel m type subtype i = some (some (.chars name))
  live : ∀ type subtype i, i < (L ⟨type, subtype⟩).length →
    ∃ a : Nat, lxcPortGetAbsindex m type subtype i = some (a : Int) ∧ (a : Int) < lxcPortCount m
  other : ∀ type subtype i, (L ⟨type, subtype⟩).length ≤ i →
    ∃ a, lxcPortGetAbsindex m type subtype i = some a ∧ a < 0
  injective : ∀ type subtype i type' subtype' i' (a : Nat),
    lxcPortGetAbsindex m type subtype i = some (a : Int) →
    lxcPortGetAbsindex m type' subtype' i' = some (a : Int) →
    type = type' ∧ subtype = subtype' ∧ i = i'

/-- The invariant of a run: the names in the table are those of the lists, in their order. -/
def PortManager.Holds (m : PortManager) (L : PortLists) : Prop :=
  ∃ gs names, m.Represents gs names ∧ names.length < 2 ^ 31 ∧
    ∀ (key : FullSignalType) (i : Nat),
      ((absList gs key)[i]?.bind fun a : Nat => names[a]?) = (L key)[i]?.map PortName.chars

section Runs

variable {m : PortManager} {L : PortLists}

theorem lxcPortGetAbsindex_eq_some_iff {gs : Groups} {names : List PortName}
    (h : m.Represents gs names) {type : Signal} {subtype : Int} {i a : Nat} :
    lxcPortGetAbsindex m type subtype i = some (a : Int) ↔
      (absList gs ⟨type, subtype⟩)[i]? = some a := by
  rw [h.lxcPortGetAbsindex_eq, Option.some.injEq]
  cases ha : (absList gs ⟨type, subtype⟩)[i]? with
  | none =>
    rw [absAt_of_none ha]
    constructor
    · intro he
      omega
    · intro he
      cases he
  | some b =>
    rw [absAt_of_getElem? ha, Option.some.injEq]
    exact Int.natCast_inj

theorem PortManager.Holds.length_eq {gs : Groups} {names : List PortName}
    (h : m.Represents gs names)
    (hnames : ∀ (key : FullSignalType) (i : Nat),
      ((absList gs key)[i]?.bind fun a : Nat => names[a]?) = (L key)[i]?.map PortName.chars)
    (key : FullSignalType) :
    (absList gs key).length = (L key).length := by
  have hiff : ∀ i, i < (absList gs key).length ↔ i < (L key).length := by
    intro i
    have hname := hnames key i
    constructor
    · intro hi
      rw [List.getElem?_eq_getElem hi, Option.bind_some] at hname
      have hlt := h.getElem?_lt (List.getElem?_eq_getElem hi)
      rw [List.getElem?_eq_getElem hlt, eq_comm, Option.map_eq_some_iff] at hname
      obtain ⟨name, hname, -⟩ := hname
      exact (List.getElem?_eq_some_iff.mp hname).1
    · intro hi
      by_contra hle
      rw [List.getElem?_eq_none (by omega), Option.bind_none, List.getElem?_eq_getElem hi] at hname
      cases hname
  have h1 := hiff (absList gs key).length
  have h2 := hiff (L key).length
  omega

theorem PortManager.Holds.implements (h : m.Holds L) : m.Implements L := by
  obtain ⟨gs, names, hrep, hsize, hnames⟩ := h
  have hlength := PortManager.Holds.length_eq hrep hnames
  refine ⟨?_, ?_, ?_, ?_, ?_⟩
  · intro type subtype
    rw [hrep.lxcGenericGetTypeMaxIndex_eq, hlength]
    have hlt : (L ⟨type, subtype⟩).length < 2 ^ 31 := by
      have := hrep.length_absList_le ⟨type, subtype⟩
      rw [hlength] at this
      omega
    by_cases hmem : (⟨type, subtype⟩ : FullSignalType) ∈ gs.map Prod.fst
    · rw [if_pos hmem]
      exact ⟨_, rfl, .inl (intOfUint_of_lt hlt)⟩
    · rw [if_neg hmem]
      have hempty := hlength ⟨type, subtype⟩
      rw [absList_of_notMem hmem] at hempty
      exact ⟨-1, rfl, .inr ⟨List.length_eq_zero_iff.mp hempty.symm, by omega⟩⟩
  · intro type subtype i name hname
    rw [hrep.lxcGenericGetPortLabel_eq, hnames, hname]
    rfl
  · intro type subtype i hi
    rw [← hlength] at hi
    have ha := List.getElem?_eq_getElem hi
    refine ⟨_, (lxcPortGetAbsindex_eq_some_iff hrep).mpr ha, ?_⟩
    rw [lxcPortCount, hrep.maxSize]
    exact Int.ofNat_lt.mpr (hrep.getElem?_lt ha)
  · intro type subtype i hi
    rw [← hlength] at hi
    refine ⟨-1, ?_, by omega⟩
    rw [hrep.lxcPortGetAbsindex_eq, absAt_of_none (List.getElem?_eq_none hi)]
  · intro type subtype i type' subtype' i' a ha ha'
    obtain ⟨hkey, hi⟩ := hrep.indexed.inj ((lxcPortGetAbsindex_eq_some_iff hrep).mp ha)
      ((lxcPortGetAbsindex_eq_some_iff hrep).mp ha')
    exact ⟨congrArg FullSignalType.signal hkey, congrArg FullSignalType.subtype hkey, hi⟩

theorem length_placeName (names : List PortName) (name : PortName) :
    (placeName names name).length ≤ names.length + 1 := by
  unfold placeName
  split
  · rw [List.length_set]
    exact Nat.le_succ _
  · rw [List.length_append, List.length_singleton]

theorem PortManager.Holds.add (h : m.Holds L) (junk : Nat → Nat) (name : String) (type : Signal)
    (subtype : Int) (hok : PortOp.Ok m (.add junk name type subtype)) :
    ∃ m', PortOp.step m (.add junk name type subtype) = some m' ∧
      m'.Holds (PortOp.apply L (.add junk name type subtype)) ∧
      (PortOp.add junk name type subtype).Survives m m' := by
  obtain ⟨gs, names, hrep, hsize, hnames⟩ := h
  have hlength := PortManager.Holds.length_eq hrep hnames
  obtain ⟨m', gs', hadd, hrep', habs, -⟩ :=
    lxcPortUncheckedAddNewPort_represents hrep junk name type subtype
  have hold : ∀ (key : FullSignalType) (i a : Nat), (absList gs key)[i]? = some a →
      (absList gs' key)[i]? = some a := by
    intro key i a ha
    rw [habs]
    by_cases hk : key = ⟨type, subtype⟩
    · subst hk
      rw [Function.update_self, List.getElem?_append_left (List.getElem?_eq_some_iff.mp ha).1, ha]
    · rw [Function.update_of_ne hk, ha]
  refine ⟨m', by rw [PortOp.step, hadd]; rfl, ⟨gs', _, hrep', ?_, ?_⟩, ?_⟩
  · have hcount : lxcPortCount m + 1 < 2 ^ 31 := hok
    rw [lxcPortCount, hrep.maxSize] at hcount
    have := length_placeName names (.chars name)
    omega
  · intro key i
    cases ha : (absList gs key)[i]? with
    | some a =>
      have hkeep : (placeName names (.chars name))[a]? = names[a]? := by
        apply placeName_of_ne
        rintro rfl
        obtain ⟨s, hs⟩ := (hrep.indexed.live _).mp ⟨key, i, ha⟩
        exact nextSlot_free names s hs
      have hi : i < (L key).length := hlength key ▸ (List.getElem?_eq_some_iff.mp ha).1
      have hname := hnames key i
      rw [ha, Option.bind_some] at hname
      rw [hold key i a ha, Option.bind_some, hkeep, hname]
      congr 1
      rw [PortOp.apply]
      by_cases hk : key = ⟨type, subtype⟩
      · subst hk
        rw [Function.update_self, List.getElem?_append_left hi]
      · rw [Function.update_of_ne hk]
    | none =>
      have hle : (absList gs key).length ≤ i := List.getElem?_eq_none_iff.mp ha
      rw [habs, PortOp.apply]
      by_cases hk : key = ⟨type, subtype⟩
      · subst hk
        rw [Function.update_self, Function.update_self, List.getElem?_append_right hle,
          List.getElem?_append_right (by rw [← hlength]; exact hle), ← hlength]
        cases i - (absList gs ⟨type, subtype⟩).length with
        | zero => exact placeName_nextSlot names (.chars name)
        | succ j => rfl
      · rw [Function.update_of_ne hk, Function.update_of_ne hk, ha,
          List.getElem?_eq_none (by rw [← hlength]; exact hle)]
        rfl
  · intro type' subtype' i i' a ha hmoves
    obtain rfl := Option.some.inj hmoves
    rw [lxcPortGetAbsindex_eq_some_iff hrep] at ha
    exact (lxcPortGetAbsindex_eq_some_iff hrep').mpr (hold _ i a ha)

theorem PortManager.Holds.remove (h : m.Holds L) (type : Signal) (subtype : Int) (index : Nat)
    (hok : m.Removable type subtype index) :
    ∃ m', PortOp.step m (.remove type subtype index) = some m' ∧
      m'.Holds (PortOp.apply L (.remove type subtype index)) ∧
      (PortOp.remove type subtype index).Survives m m' := by
  obtain ⟨gs, names, hrep, hsize, hnames⟩ := h
  have hlength := PortManager.Holds.length_eq hrep hnames
  cases ha : (absList gs ⟨type, subtype⟩)[index]? with
  | none =>
    have hle : (absList gs ⟨type, subtype⟩).length ≤ index := List.getElem?_eq_none_iff.mp ha
    refine ⟨m, hrep.remove_of_missing hle, ?_, ?_⟩
    · have hsame : PortOp.apply L (.remove type subtype index) = L := by
        rw [PortOp.apply, List.eraseIdx_of_length_le (by rw [← hlength]; exact hle),
          Function.update_eq_self]
      rw [hsame]
      exact ⟨gs, names, hrep, hsize, hnames⟩
    · intro type' subtype' i i' a hi hmoves
      rw [lxcPortGetAbsindex_eq_some_iff hrep] at hi
      have hstay : (⟨type', subtype'⟩ : FullSignalType) ≠ ⟨type, subtype⟩ ∨ i < index := by
        by_cases hk : (⟨type', subtype'⟩ : FullSignalType) = ⟨type, subtype⟩
        · rw [hk] at hi
          exact .inr (Nat.lt_of_lt_of_le (List.getElem?_eq_some_iff.mp hi).1 hle)
        · exact .inl hk
      rw [PortOp.moves, if_pos hstay, Option.some.injEq] at hmoves
      subst hmoves
      exact (lxcPortGetAbsindex_eq_some_iff hrep).mpr hi
  | some b =>
    obtain ⟨m', gs', hremove, hrep', habs⟩ := hrep.remove_represents (Nat.le_of_lt hsize) ha hok
    refine ⟨m', hremove, ⟨gs', _, hrep', by rwa [List.length_set], ?_⟩, ?_⟩
    · -- a name other than the freed one is still in the table
      have hkeep : ∀ (key : FullSignalType) (i : Nat), ¬ (key = ⟨type, subtype⟩ ∧ i = index) →
          ((absList gs key)[i]?.bind fun a : Nat => (names.set b .empty)[a]?) =
            (L key)[i]?.map PortName.chars := by
        intro key i hne
        rw [← hnames key i]
        cases hi : (absList gs key)[i]? with
        | none => rfl
        | some a =>
          rw [Option.bind_some, Option.bind_some, List.getElem?_set_ne]
          rintro rfl
          exact hne (hrep.indexed.inj hi ha)
      intro key i
      rw [habs, PortOp.apply]
      by_cases hk : key = ⟨type, subtype⟩
      · subst hk
        rw [Function.update_self, Function.update_self, List.getElem?_eraseIdx,
          List.getElem?_eraseIdx]
        split
        · exact hkeep _ i (by omega)
        · exact hkeep _ (i + 1) (by omega)
      · rw [Function.update_of_ne hk, Function.update_of_ne hk]
        exact hkeep key i fun he => hk he.1
    · intro type' subtype' i i' a hi hmoves
      rw [lxcPortGetAbsindex_eq_some_iff hrep] at hi
      rw [lxcPortGetAbsindex_eq_some_iff hrep', habs]
      simp only [PortOp.moves] at hmoves
      by_cases hk : (⟨type', subtype'⟩ : FullSignalType) = ⟨type, subtype⟩
      · rw [hk] at hi ⊢
        rw [Function.update_self, List.getElem?_eraseIdx]
        by_cases hlt : i < index
        · rw [if_pos (.inr hlt), Option.some.injEq] at hmoves
          rw [← hmoves, if_pos hlt, hi]
        · rw [if_neg (by simp [hk, hlt])] at hmoves
          by_cases he : i = index
          · rw [if_pos he] at hmoves
            cases hmoves
          · rw [if_neg he, Option.some.injEq] at hmoves
            rw [if_neg (by omega), ← hmoves, show i - 1 + 1 = i by omega, hi]
      · rw [if_pos (.inl hk), Option.some.injEq] at hmoves
        rw [Function.update_of_ne hk, ← hmoves, hi]

theorem PortOp.step_holds (h : m.Holds L) {op : PortOp} (hok : op.Ok m) :
    ∃ m', PortOp.step m op = some m' ∧ m'.Holds (PortOp.apply L op) ∧ op.Survives m m' := by
  cases op with
  | add junk name type subtype => exact h.add junk name type subtype hok
  | remove type subtype index => exact h.remove type subtype index hok

theorem run_holds : ∀ (ops : List PortOp) (m : PortManager) (L : PortLists), m.Holds L →
    Run.Meets PortOp.step (fun m op => op.Ok m) m ops →
    ∃ m', Run.run PortOp.step m ops = some m' ∧ m'.Holds (ops.foldl PortOp.apply L) := by
  intro ops
  induction ops with
  | nil =>
    intro m L h _
    exact ⟨m, rfl, h⟩
  | cons op ops ih =>
    intro m L h hmeets
    obtain ⟨m₁, hstep, hholds, -⟩ := PortOp.step_holds h hmeets.1
    obtain ⟨m', hrun, hm'⟩ := ih m₁ _ hholds (hmeets.2 m₁ hstep)
    exact ⟨m', by rw [Run.run_cons, hstep, Option.bind_some, hrun], hm'⟩

end Runs

/-- While only removable ports are removed, the manager implements the lists, and the next
    operation keeps the absolute indices of the ports that survive it; a removal that does so is
    one of a removable port. -/
theorem port_manager_refines {m₀ : PortManager}
    (hm₀ : m₀ = .zeroed ∨ m₀ = lxcPortInitPortManagerFactory) (ops : List PortOp)
    (hops : Run.Meets PortOp.step (fun m op => op.Ok m) m₀ ops) :
    ∃ m, Run.run PortOp.step m₀ ops = some m ∧
      m.Implements (ops.foldl PortOp.apply fun _ => []) ∧
      (∀ op : PortOp, op.Ok m → ∃ m', PortOp.step m op = some m' ∧ op.Survives m m') ∧
      (∀ type subtype index,
        (ops.foldl PortOp.apply (fun _ => []) ⟨type, subtype⟩).length ≤ index →
        PortOp.step m (.remove type subtype index) = some m) ∧
      ∀ type subtype index, (∃ m', PortOp.step m (.remove type subtype index) = some m' ∧
        (PortOp.remove type subtype index).Survives m m') ↔ m.Removable type subtype index := by
  have hinit : m₀.Holds fun _ => [] := by
    refine ⟨[], [], ?_, by decide, fun _ _ => rfl⟩
    rcases hm₀ with rfl | rfl
    · exact represents_zeroed
    · exact represents_init
  obtain ⟨m, hrun, hholds⟩ := run_holds ops m₀ _ hinit hops
  refine ⟨m, hrun, hholds.implements, ?_, ?_, ?_⟩
  · intro op hok
    obtain ⟨m', hstep, -, hsurvives⟩ := PortOp.step_holds hholds hok
    exact ⟨m', hstep, hsurvives⟩
  · intro type subtype index hle
    obtain ⟨gs, names, hrep, hsize, hnames⟩ := hholds
    exact hrep.remove_of_missing (by rw [PortManager.Holds.length_eq hrep hnames]; exact hle)
  · intro type subtype index
    constructor
    · rintro ⟨m', hstep, hsurvives⟩
      obtain ⟨gs, names, hrep, hsize, hnames⟩ := hholds
      apply hrep.removable_of_remove (Nat.le_of_lt hsize) hstep
      intro i a hi ha
      apply hsurvives type subtype i (i - 1) a ((lxcPortGetAbsindex_eq_some_iff hrep).mpr ha)
      have hnot : ¬ ((⟨type, subtype⟩ : FullSignalType) ≠ ⟨type, subtype⟩ ∨ i < index) := by
        rintro (hne | hlt)
        · exact hne rfl
        · omega
      rw [PortOp.moves, if_neg hnot, if_neg (by omega)]
    · intro hok
      obtain ⟨m', hstep, -, hsurvives⟩ := hholds.remove type subtype index hok
      exact ⟨m', hstep, hsurvives⟩

/-- Two ports are added and the second one is removed, then its slot is used again. -/
theorem port_manager_refines_last : ∃ m, Run.run PortOp.step .zeroed
      [.add (fun _ => 0) "a" .bool 0, .add (fun _ => 0) "b" .bool 0, .remove .bool 0 1,
        .add (fun _ => 0) "c" .int 0] = some m ∧
    m.Implements ([PortOp.add (fun _ => 0) "a" .bool 0, .add (fun _ => 0) "b" .bool 0,
      .remove .bool 0 1, .add (fun _ => 0) "c" .int 0].foldl PortOp.apply fun _ => []) := by
  have hmeets : Run.Meets PortOp.step (fun m op => op.Ok m) .zeroed
      [.add (fun _ => 0) "a" .bool 0, .add (fun _ => 0) "b" .bool 0, .remove .bool 0 1,
        .add (fun _ => 0) "c" .int 0] := by
    refine ⟨show lxcPortCount _ + 1 < 2 ^ 31 by decide, fun m₁ h => ?_⟩
    obtain rfl := Option.some.inj h
    refine ⟨show lxcPortCount _ + 1 < 2 ^ 31 by decide, fun m₂ h => ?_⟩
    obtain rfl := Option.some.inj h
    refine ⟨?_, fun m₃ h => ?_⟩
    · intro ti size block hf hs hb _
      obtain rfl := Option.some.inj hf
      obtain rfl := Option.some.inj hs
      obtain rfl := Option.some.inj hb
      exact ⟨by decide, .inl rfl⟩
    · obtain rfl := Option.some.inj h
      exact ⟨show lxcPortCount _ + 1 < 2 ^ 31 by decide, fun _ _ => trivial⟩
  obtain ⟨m, hrun, himplements, -⟩ := port_manager_refines (.inl rfl) _ hmeets
  exact ⟨m, hrun, himplements⟩

/-- Two ports are added and the first one is removed: the port that is left has no name. -/
theorem not_port_manager_refines : ∃ m, Run.run PortOp.step .zeroed
      [.add (fun _ => 0) "a" .bool 0, .add (fun _ => 0) "b" .bool 0, .remove .bool 0 0] = some m ∧
    [PortOp.add (fun _ => 0) "a" .bool 0, .add (fun _ => 0) "b" .bool 0,
      .remove .bool 0 0].foldl PortOp.apply (fun _ => []) ⟨.bool, 0⟩ = ["b"] ∧
    lxcGenericGetPortLabel m .bool 0 0 = some (some .empty) :=
  ⟨_, rfl, rfl, rfl⟩

end LogxControll
