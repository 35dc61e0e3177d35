/-
  What a port manager is for: for every (type, subtype) a list of ports, each with an absolute
  index into one table of names.

  `PortManager.Represents m gs names` says that the five arrays of `m` hold the groups `gs`
  (key and absolute indices, in the order of `managed_types`) and the name table `names`, a
  freed slot of the table being `PortName.empty`. The lookups are read off `gs` and `names`
  (`lxcPortGetAbsindex_eq`, `lxcGenericGetPortLabel_eq`, ...); adding a port appends it to its
  group and leaves every other group alone (`lxcPortUncheckedAddNewPort_represents`).
-/
import LogxControll.Core.PortManager

namespace LogxControll

/-- For each (type, subtype) the absolute indices of its ports, in the order of `managed_types`. -/
abbrev Groups := List (FullSignalType × List Nat)

/-- The absolute indices of the ports of one (type, subtype), in order. -/
def absList (gs : Groups) (key : FullSignalType) : List Nat :=
  match gs.find? fun g => g.1 = key with
  | some g => g.2
  | none => []

/-- The answer of `lxc_port_get_absindex`. -/
def absAt (gs : Groups) (key : FullSignalType) (index : Nat) : Int :=
  match (absList gs key)[index]? with
  | some a => a
  | none => -1

/-- Every port has an absolute index of its own, and the indices in use are the positions of
    the name table that hold a name. -/
structure Indexed (abs : FullSignalType → List Nat) (names : List PortName) : Prop where
  inj : ∀ {k k' : FullSignalType} {i i' a : Nat}, (abs k)[i]? = some a →
    (abs k')[i']? = some a → k = k' ∧ i = i'
  live : ∀ a, (∃ (k : FullSignalType) (i : Nat), (abs k)[i]? = some a) ↔
    ∃ s, names[a]? = some (PortName.chars s)

/-- The arrays of a manager hold the groups and the name table: one block of indices for each group,
    at least as long as the group and never cut in the middle of a pointer. -/
structure PortManager.Represents (m : PortManager) (gs : Groups) (names : List PortName) :
    Prop where
  types : m.managedTypes.getD [] = gs.map Prod.fst
  sizesSome : m.managedTypes ≠ none → m.toAbsSize ≠ none
  sizes : ∀ ti g, gs[ti]? = some g → m.sizeAt ti = some g.2.length
  blocks : ∃ bs, Packed m.toAbs bs ∧ bs.length = gs.length ∧
    ∀ (ti : Nat) (g : FullSignalType × List Nat) (b : UintBlock), gs[ti]? = some g →
      bs[ti]? = some b → g.2 <+: b ∧ 2 ∣ b.length
  packed : Packed m.portNames names
  maxSize : m.maxSize = names.length
  keys : (gs.map Prod.fst).Nodup
  indexed : Indexed (absList gs) names

theorem indexed_nil : Indexed (absList []) [] := ⟨by simp [absList], by simp [absList]⟩

theorem represents_zeroed : PortManager.zeroed.Represents [] [] where
  types := rfl
  sizesSome := by simp [PortManager.zeroed]
  sizes := by simp
  blocks := ⟨[], .inl ⟨rfl, rfl⟩, rfl, by simp⟩
  packed := .inl ⟨rfl, rfl⟩
  maxSize := rfl
  keys := List.nodup_nil
  indexed := indexed_nil

theorem represents_init : lxcPortInitPortManagerFactory.Represents [] [] where
  types := rfl
  sizesSome := by simp [lxcPortInitPortManagerFactory]
  sizes := by simp
  blocks := ⟨[], .inr rfl, rfl, by simp⟩
  packed := .inr rfl
  maxSize := rfl
  keys := List.nodup_nil
  indexed := indexed_nil

/-! ## Groups -/

theorem absList_of_getElem? {gs : Groups} (hk : (gs.map Prod.fst).Nodup) {ti : Nat}
    {key : FullSignalType} {l : List Nat} (h : gs[ti]? = some (key, l)) :
    absList gs key = l := by
  induction gs generalizing ti with
  | nil => simp at h
  | cons g gs ih =>
    rw [List.map_cons, List.nodup_cons] at hk
    cases ti with
    | zero =>
      rw [List.getElem?_cons_zero, Option.some.injEq] at h
      simp [absList, h]
    | succ ti =>
      rw [List.getElem?_cons_succ] at h
      have hmem : key ∈ gs.map Prod.fst :=
        List.mem_map.mpr ⟨(key, l), List.mem_of_getElem? h, rfl⟩
      have hne : g.1 ≠ key := fun e => hk.1 (e ▸ hmem)
      have := ih hk.2 h
      simpa [absList, hne] using this

theorem absList_of_notMem {gs : Groups} {key : FullSignalType}
    (h : key ∉ gs.map Prod.fst) : absList gs key = [] := by
  have : gs.find? (fun g => g.1 = key) = none := by
    rw [List.find?_eq_none]
    intro g hg he
    exact h (List.mem_map.mpr ⟨g, hg, by simpa using he⟩)
  simp [absList, this]

/-- Replacing one entry of the group list replaces one value of the map. -/
theorem absList_set {gs : Groups} (hk : (gs.map Prod.fst).Nodup) {ti : Nat}
    {key : FullSignalType} {l : List Nat} (h : gs[ti]? = some (key, l)) (l' : List Nat) :
    absList (gs.set ti (key, l')) = Function.update (absList gs) key l' := by
  funext k
  induction gs generalizing ti with
  | nil => simp at h
  | cons g gs ih =>
    rw [List.map_cons, List.nodup_cons] at hk
    cases ti with
    | zero =>
      rw [List.getElem?_cons_zero, Option.some.injEq] at h
      subst h
      by_cases hkk : key = k
      · subst hkk; simp [absList]
      · have : k ≠ key := Ne.symm hkk
        simp [absList, hkk, this]
    | succ ti =>
      rw [List.getElem?_cons_succ] at h
      have hmem : key ∈ gs.map Prod.fst :=
        List.mem_map.mpr ⟨(key, l), List.mem_of_getElem? h, rfl⟩
      have hne : g.1 ≠ key := fun e => hk.1 (e ▸ hmem)
      have := ih hk.2 h
      by_cases hgk : g.1 = k
      · have : k ≠ key := fun e => hne (hgk.trans e)
        simp [absList, hgk, this]
      · simpa [absList, hgk, Function.update_apply] using this

theorem absList_append_nil (gs : Groups) (key : FullSignalType) :
    absList (gs ++ [(key, [])]) = absList gs := by
  funext k
  induction gs with
  | nil => by_cases h : key = k <;> simp [absList, h]
  | cons g gs ih => by_cases h : g.1 = k <;> simp_all [absList]

/-- An emptied entry can be given to another key. -/
theorem absList_set_nil {gs : Groups} {ti : Nat} {old : FullSignalType}
    (h : gs[ti]? = some (old, [])) {key : FullSignalType} (hkey : key ∉ gs.map Prod.fst)
    (hk : (gs.map Prod.fst).Nodup) : absList (gs.set ti (key, [])) = absList gs := by
  funext k
  induction gs generalizing ti with
  | nil => simp at h
  | cons g gs ih =>
    rw [List.map_cons, List.nodup_cons] at hk
    rw [List.map_cons, List.mem_cons, not_or] at hkey
    cases ti with
    | zero =>
      rw [List.getElem?_cons_zero, Option.some.injEq] at h
      subst h
      have hold := absList_of_notMem hk.1
      have hnew := absList_of_notMem hkey.2
      by_cases h1 : key = k
      · subst h1
        have : old ≠ key := fun e => hkey.1 e.symm
        simpa [absList, this] using hnew.symm
      · by_cases h2 : old = k
        · subst h2; simpa [absList, h1] using hold
        · simp [absList, h1, h2]
    | succ ti =>
      rw [List.getElem?_cons_succ] at h
      have := ih h hkey.2 hk.2
      by_cases hgk : g.1 = k <;> simp_all [absList]

theorem absAt_of_getElem? {gs : Groups} {key : FullSignalType} {i a : Nat}
    (h : (absList gs key)[i]? = some a) : absAt gs key i = a := by simp [absAt, h]

theorem absAt_of_none {gs : Groups} {key : FullSignalType} {i : Nat}
    (h : (absList gs key)[i]? = none) : absAt gs key i = -1 := by simp [absAt, h]

/-! ## Lookups -/

namespace PortManager.Represents

variable {m : PortManager} {gs : Groups} {names : List PortName}

theorem findType_eq (h : m.Represents gs names) (type : Signal) (subtype : Int) :
    m.findType type subtype = gs.findIdx? fun g => g.1 = FullSignalType.mk type subtype := by
  have ht := h.types
  unfold PortManager.findType
  have hp : ∀ t : FullSignalType,
      decide (t.signal = type ∧ t.subtype = subtype) = decide (t = ⟨type, subtype⟩) := by
    rintro ⟨s, n⟩; simp
  cases hm : m.managedTypes with
  | none =>
    rw [hm, Option.getD_none] at ht
    have : gs = [] := by simpa using ht.symm
    simp [this]
  | some types =>
    rw [hm, Option.getD_some] at ht
    subst ht
    simp only [hp, List.findIdx?_map]
    rfl

/-- The type loop stops at the entry of the key, or runs to the end when there is none. -/
theorem findType_cases (h : m.Represents gs names) (type : Signal) (subtype : Int) :
    (m.findType type subtype = none ∧ (⟨type, subtype⟩ : FullSignalType) ∉ gs.map Prod.fst) ∨
    ∃ ti, m.findType type subtype = some ti ∧
      gs[ti]? = some (⟨type, subtype⟩, absList gs ⟨type, subtype⟩) := by
  rw [h.findType_eq]
  cases hf : gs.findIdx? (fun g => g.1 = (⟨type, subtype⟩ : FullSignalType)) with
  | none =>
    refine .inl ⟨rfl, fun hmem => ?_⟩
    obtain ⟨g, hg, he⟩ := List.mem_map.mp hmem
    have := List.findIdx?_eq_none_iff.mp hf g hg
    simp [he] at this
  | some ti =>
    refine .inr ⟨ti, rfl, ?_⟩
    obtain ⟨hlt, hp, -⟩ := List.findIdx?_eq_some_iff_getElem.mp hf
    have hp' : gs[ti].1 = ⟨type, subtype⟩ := by simpa using hp
    have hget : gs[ti]? = some ((⟨type, subtype⟩ : FullSignalType), gs[ti].2) := by
      rw [List.getElem?_eq_getElem hlt, ← hp']
    rw [hget, absList_of_getElem? h.keys hget]

theorem blockAt_eq (h : m.Represents gs names) {ti : Nat} {g : FullSignalType × List Nat}
    (hg : gs[ti]? = some g) : ∃ b, m.blockAt ti = some b ∧ g.2 <+: b ∧ 2 ∣ b.length := by
  obtain ⟨bs, hp, hlen, hall⟩ := h.blocks
  obtain ⟨hlt, -⟩ := List.getElem?_eq_some_iff.mp hg
  have hbt : ti < bs.length := by omega
  refine ⟨bs[ti], ?_, hall ti g _ hg (List.getElem?_eq_getElem hbt)⟩
  rcases hp with ⟨-, rfl⟩ | hp
  · simp at hbt
  · simp [PortManager.blockAt, hp, List.getElem?_append_left, hbt]

theorem lxcPortGetAbsindex_eq (h : m.Represents gs names) (type : Signal) (subtype : Int)
    (index : Nat) :
    lxcPortGetAbsindex m type subtype index = some (absAt gs ⟨type, subtype⟩ index) := by
  unfold lxcPortGetAbsindex
  rcases h.findType_cases type subtype with ⟨hf, hn⟩ | ⟨ti, hf, hg⟩
  · simp [hf, absAt, absList_of_notMem hn]
  · obtain ⟨b, hb, ⟨r, rfl⟩, -⟩ := h.blockAt_eq hg
    rw [hf]
    simp only [h.sizes ti _ hg, hb, Option.bind_eq_bind, Option.bind_some]
    by_cases hi : index < (absList gs ⟨type, subtype⟩).length
    · simp [hi, absAt, List.getElem?_append_left]
    · simp [hi, absAt]

theorem lxcGenericGetTypeMaxIndex_eq (h : m.Represents gs names) (type : Signal)
    (subtype : Int) :
    lxcGenericGetTypeMaxIndex m type subtype =
      some (if (⟨type, subtype⟩ : FullSignalType) ∈ gs.map Prod.fst
        then intOfUint (absList gs ⟨type, subtype⟩).length else -1) := by
  unfold lxcGenericGetTypeMaxIndex
  rcases h.findType_cases type subtype with ⟨hf, hn⟩ | ⟨ti, hf, hg⟩
  · simp only [hf, if_neg hn]
  · have hmem : (⟨type, subtype⟩ : FullSignalType) ∈ gs.map Prod.fst :=
      List.mem_map.mpr ⟨_, List.mem_of_getElem? hg, rfl⟩
    simp [hf, h.sizes ti _ hg, hmem]

theorem lxcPortFillTypes_eq (h : m.Represents gs names) (maxLength : Nat) :
    lxcPortFillTypes m maxLength =
      if maxLength < gs.length then (-(gs.length : Int), [])
      else ((gs.length : Int), gs.map Prod.fst) := by
  have ht := h.types
  unfold lxcPortFillTypes
  cases hm : m.managedTypes with
  | none =>
    rw [hm, Option.getD_none] at ht
    have : gs = [] := by simpa using ht.symm
    simp [this]
  | some types =>
    rw [hm, Option.getD_some] at ht
    subst ht
    simp

theorem getElem?_lt (h : m.Represents gs names) {key : FullSignalType} {i a : Nat}
    (ha : (absList gs key)[i]? = some a) : a < names.length := by
  obtain ⟨s, hs⟩ := (h.indexed.live a).mp ⟨key, i, ha⟩
  exact (List.getElem?_eq_some_iff.mp hs).1

theorem nodup_absList (h : m.Represents gs names) (key : FullSignalType) :
    (absList gs key).Nodup := by
  rw [List.nodup_iff_getElem?_ne_getElem?]
  intro i j hij hj he
  have hi : (absList gs key)[i]? = some (absList gs key)[i] := List.getElem?_eq_getElem (by omega)
  have := (h.indexed.inj hi (he ▸ hi)).2
  omega

theorem length_absList_le (h : m.Represents gs names) (key : FullSignalType) :
    (absList gs key).length ≤ names.length := by
  have hsub : absList gs key ⊆ List.range names.length := by
    intro a ha
    obtain ⟨i, hi⟩ := List.mem_iff_getElem?.mp ha
    exact List.mem_range.mpr (h.getElem?_lt hi)
  have := ((h.nodup_absList key).subperm hsub).length_le
  rwa [List.length_range] at this

theorem portNames_getElem? (h : m.Represents gs names) {a : Nat} (ha : a < names.length) :
    (do let b ← m.portNames; b[a]?) = some (some names[a]) := by
  rcases h.packed with ⟨-, rfl⟩ | hp
  · simp at ha
  · simp [hp, List.getElem?_append_left, ha]

/-- The label of a port is the name in the slot of its absolute index. -/
theorem lxcGenericGetPortLabel_eq (h : m.Represents gs names) (type : Signal) (subtype : Int)
    (index : Nat) :
    lxcGenericGetPortLabel m type subtype index =
      some ((absList gs ⟨type, subtype⟩)[index]?.bind fun a => names[a]?) := by
  unfold lxcGenericGetPortLabel
  rw [h.lxcPortGetAbsindex_eq]
  cases ha : (absList gs ⟨type, subtype⟩)[index]? with
  | none => simp [absAt_of_none ha]
  | some a =>
    have hlt := h.getElem?_lt ha
    have hneg : ¬ (a : Int) < 0 := by omega
    have := h.portNames_getElem? hlt
    simp only [Option.bind_eq_bind] at this
    simp [absAt_of_getElem? ha, hneg, this, hlt]

end PortManager.Represents

/-! ## Adding a port -/

section Fields

variable (m : PortManager) {ti tj n : Nat}

theorem sizeAt_setSize_self {k : Nat} (h : m.sizeAt ti = some k) :
    (m.setSize ti n).sizeAt ti = some n := by
  cases hs : m.toAbsSize with
  | none => simp [PortManager.sizeAt, hs] at h
  | some sizes =>
    simp only [PortManager.sizeAt, hs, Option.bind_eq_bind, Option.bind_some] at h
    obtain ⟨hlt, -⟩ := List.getElem?_eq_some_iff.mp h
    simp [PortManager.sizeAt, PortManager.setSize, hs, hlt]

theorem sizeAt_setSize_ne (h : ti ≠ tj) : (m.setSize ti n).sizeAt tj = m.sizeAt tj := by
  cases hs : m.toAbsSize <;> simp [PortManager.sizeAt, PortManager.setSize, hs, h]

@[simp] theorem sizeAt_setBlock (b : UintBlock) :
    (m.setBlock ti b).sizeAt tj = m.sizeAt tj := rfl

@[simp] theorem blockAt_setSize : (m.setSize ti n).blockAt tj = m.blockAt tj := rfl

end Fields

theorem length_reallocUints (junk : Nat → Nat) (block : UintBlock) (n : Nat) :
    (reallocUints junk block n).length = 2 * n := by simp [reallocUints]

theorem getElem?_reallocUints {junk : Nat → Nat} {block : UintBlock} {n i a : Nat}
    (hi : i < 2 * n) (h : block[i]? = some a) : (reallocUints junk block n)[i]? = some a := by
  simp [reallocUints, hi, List.getD_eq_getElem?_getD, h]

/-- The grown block holds the old indices and, behind them, the new one. -/
theorem prefix_reallocUints_set {junk : Nat → Nat} {l block : List Nat} (h : l <+: block)
    (a : Nat) :
    l ++ [a] <+: (reallocUints junk block (l.length + 1)).set l.length a := by
  rw [List.prefix_iff_eq_take]
  apply List.ext_getElem?
  intro i
  obtain ⟨r, rfl⟩ := h
  rw [List.getElem?_take]
  have hlen : ((reallocUints junk (l ++ r) (l.length + 1)).set l.length a).length =
      2 * (l.length + 1) := by rw [List.length_set, length_reallocUints]
  by_cases hi : i < l.length
  · have hg : (l ++ r)[i]? = some l[i] := by simp [List.getElem?_append_left, hi]
    have hi2 : i < 2 * (l.length + 1) := by omega
    rw [if_pos (by simp; omega), List.getElem?_set_ne (by omega),
      getElem?_reallocUints hi2 hg, List.getElem?_append_left hi, List.getElem?_eq_getElem hi]
  · by_cases he : i = l.length
    · subst he
      have hb : l.length < (reallocUints junk (l ++ r) (l.length + 1)).length := by
        rw [length_reallocUints]; omega
      rw [if_pos (by simp), List.getElem?_set_self hb]
      simp
    · rw [if_neg (by simp; omega), List.getElem?_eq_none (by simp; omega)]

namespace PortManager.Represents

variable {m : PortManager} {gs : Groups} {names : List PortName}

theorem emptyTypeSlot_some (h : m.Represents gs names) {ti : Nat}
    (hti : m.emptyTypeSlot = some ti) : ∃ key, gs[ti]? = some (key, []) := by
  unfold PortManager.emptyTypeSlot at hti
  have ht := h.types
  cases hm : m.managedTypes with
  | none => simp [hm] at hti
  | some mt =>
    cases hs : m.toAbsSize with
    | none => simp [hm, hs] at hti
    | some sizes =>
      simp only [hm, hs] at hti
      rw [hm, Option.getD_some] at ht
      have hp := List.find?_some hti
      have hmem := List.mem_range.mp (List.mem_of_find?_eq_some hti)
      rw [ht, List.length_map] at hmem
      have hsz := h.sizes ti gs[ti] (List.getElem?_eq_getElem hmem)
      simp only [PortManager.sizeAt, hs, Option.bind_eq_bind, Option.bind_some] at hsz
      simp only [decide_eq_true_eq, hsz, Option.some.injEq, List.length_eq_zero_iff] at hp
      exact ⟨gs[ti].1, by rw [List.getElem?_eq_getElem hmem, ← hp]⟩

/-- Replacing an emptied type entry. -/
theorem reuseType (h : m.Represents gs names) {ti : Nat} {old key : FullSignalType}
    (hg : gs[ti]? = some (old, [])) (hn : key ∉ gs.map Prod.fst) :
    ({ m with managedTypes :=
        m.managedTypes.map fun mt : List FullSignalType => mt.set ti key }.setSize ti 0).Represents
      (gs.set ti (key, [])) names where
  types := by
    have ht := h.types
    cases hm : m.managedTypes with
    | none =>
      rw [hm, Option.getD_none] at ht
      have : gs = [] := by simpa using ht.symm
      simp [PortManager.setSize, this]
    | some mt =>
      rw [hm, Option.getD_some] at ht
      simp [PortManager.setSize, ht, List.map_set]
  sizesSome := by
    intro hm
    have := h.sizesSome (by intro e; simp [PortManager.setSize, e] at hm)
    cases hs : m.toAbsSize with
    | none => exact absurd hs this
    | some sizes => simp [PortManager.setSize]
  sizes := by
    intro tj g hgj
    have hsz := h.sizes ti _ hg
    by_cases htj : ti = tj
    · subst htj
      have hlt := (List.getElem?_eq_some_iff.mp hg).1
      rw [List.getElem?_set_self hlt, Option.some.injEq] at hgj
      subst hgj
      exact sizeAt_setSize_self _ hsz
    · rw [List.getElem?_set_ne htj] at hgj
      rw [sizeAt_setSize_ne _ htj]
      exact h.sizes tj g hgj
  blocks := by
    obtain ⟨bs, hp, hlen, hall⟩ := h.blocks
    refine ⟨bs, hp, by rw [List.length_set, hlen], ?_⟩
    intro tj g b hgj hb
    by_cases htj : ti = tj
    · subst htj
      have hlt := (List.getElem?_eq_some_iff.mp hg).1
      rw [List.getElem?_set_self hlt, Option.some.injEq] at hgj
      subst hgj
      exact ⟨List.nil_prefix, (hall ti _ b hg hb).2⟩
    · rw [List.getElem?_set_ne htj] at hgj
      exact hall tj g b hgj hb
  packed := h.packed
  maxSize := h.maxSize
  keys := by
    rw [List.map_set]
    exact h.keys.set hn
  indexed := by
    rw [absList_set_nil hg hn h.keys]
    exact h.indexed

/-- Appending a type entry with a block of its own. -/
theorem appendType (h : m.Represents gs names) (junk : Nat → Nat) {key : FullSignalType}
    (hn : key ∉ gs.map Prod.fst) {bs : List UintBlock}
    (hlen : bs.length = gs.length)
    (hall : ∀ (ti : Nat) (g : FullSignalType × List Nat) (b : UintBlock), gs[ti]? = some g →
      bs[ti]? = some b → g.2 <+: b ∧ 2 ∣ b.length) :
    ({ m with
        managedTypes := some (gs.map Prod.fst ++ [key])
        toAbs := some ((bs ++ [[0, 0]]).map some ++ [none])
        toAbsSize := some (reallocUints junk (m.toAbsSize.getD []) (gs.length + 1)) }.setSize
      gs.length 0).Represents (gs ++ [(key, [])]) names where
  types := by simp [PortManager.setSize]
  sizesSome := by simp [PortManager.setSize]
  sizes := by
    intro tj g hgj
    by_cases htj : gs.length = tj
    · subst htj
      rw [List.getElem?_append_right (Nat.le_refl _), Nat.sub_self, List.getElem?_cons_zero,
        Option.some.injEq] at hgj
      subst hgj
      have hlt : gs.length < (reallocUints junk (m.toAbsSize.getD []) (gs.length + 1)).length := by
        rw [length_reallocUints]
        omega
      exact sizeAt_setSize_self _ (List.getElem?_eq_getElem hlt)
    · have hlt : tj < gs.length := by
        have := (List.getElem?_eq_some_iff.mp hgj).1
        rw [List.length_append, List.length_singleton] at this
        omega
      rw [List.getElem?_append_left hlt] at hgj
      rw [sizeAt_setSize_ne _ htj]
      have hsz := h.sizes tj g hgj
      cases hs : m.toAbsSize with
      | none => simp [PortManager.sizeAt, hs] at hsz
      | some sizes =>
        simp only [PortManager.sizeAt, hs, Option.bind_eq_bind, Option.bind_some] at hsz
        simp only [PortManager.sizeAt, Option.bind_eq_bind, Option.bind_some, Option.getD_some]
        exact getElem?_reallocUints (by omega) hsz
  blocks := by
    refine ⟨bs ++ [[0, 0]], .inr rfl, by simp [hlen], ?_⟩
    intro tj g b hgj hb
    by_cases htj : tj < gs.length
    · rw [List.getElem?_append_left htj] at hgj
      rw [List.getElem?_append_left (by omega)] at hb
      exact hall tj g b hgj hb
    · have : tj = gs.length := by
        have := (List.getElem?_eq_some_iff.mp hgj).1
        rw [List.length_append, List.length_singleton] at this
        omega
      subst this
      rw [List.getElem?_append_right (Nat.le_refl _), Nat.sub_self, List.getElem?_cons_zero,
        Option.some.injEq] at hgj
      rw [← hlen, List.getElem?_append_right (Nat.le_refl _), Nat.sub_self,
        List.getElem?_cons_zero, Option.some.injEq] at hb
      subst hgj hb
      exact ⟨List.nil_prefix, by decide⟩
  packed := h.packed
  maxSize := h.maxSize
  keys := by
    rw [List.map_append, List.nodup_append]
    refine ⟨h.keys, by simp, ?_⟩
    rintro a ha b hb rfl
    simp only [List.map_cons, List.map_nil, List.mem_singleton] at hb
    exact hn (hb ▸ ha)
  indexed := by
    rw [absList_append_nil]
    exact h.indexed

/-- After the type has been registered it has an entry without ports, and every list of the
    manager is what it was. -/
theorem registerType_represents (h : m.Represents gs names) (junk : Nat → Nat) {type : Signal}
    {subtype : Int} (hn : (⟨type, subtype⟩ : FullSignalType) ∉ gs.map Prod.fst) :
    ∃ ti m' gs', registerType junk m type subtype = some (ti, m') ∧ m'.Represents gs' names ∧
      gs'[ti]? = some (⟨type, subtype⟩, []) ∧ absList gs' = absList gs ∧
      m'.portNames = m.portNames ∧ ∀ g ∈ gs', g ∈ gs ∨ g.1 = ⟨type, subtype⟩ := by
  unfold registerType
  cases he : m.emptyTypeSlot with
  | some ti =>
    obtain ⟨old, hg⟩ := h.emptyTypeSlot_some he
    have hlt := (List.getElem?_eq_some_iff.mp hg).1
    refine ⟨ti, _, gs.set ti (⟨type, subtype⟩, []), rfl, h.reuseType hg hn,
      List.getElem?_set_self hlt, absList_set_nil hg hn h.keys, rfl, ?_⟩
    intro g hg'
    rcases List.mem_or_eq_of_mem_set hg' with hg' | rfl
    · exact .inl hg'
    · exact .inr rfl
  | none =>
    obtain ⟨bs, hp, hlen, hall⟩ := h.blocks
    refine ⟨gs.length, _, gs ++ [(⟨type, subtype⟩, [])], ?_,
      h.appendType junk hn hlen hall, ?_, absList_append_nil gs _, ?_, ?_⟩
    · simp only [arrayPntAppendElement_of_packed hp, h.types, List.length_map,
        Option.bind_eq_bind, Option.bind_some]
      rfl
    · rw [List.getElem?_append_right (Nat.le_refl _), Nat.sub_self]
      rfl
    · rfl
    · intro g hg
      rw [List.mem_append, List.mem_singleton] at hg
      rcases hg with hg | rfl
      · exact .inl hg
      · exact .inr rfl

/-- With its type registered, the manager has an entry for the port, holding the ports the type
    had before. -/
theorem typeEntry_represents (h : m.Represents gs names) (junk : Nat → Nat) (type : Signal)
    (subtype : Int) :
    ∃ ti m' gs', typeEntry junk m type subtype = some (ti, m') ∧ m'.Represents gs' names ∧
      gs'[ti]? = some (⟨type, subtype⟩, absList gs ⟨type, subtype⟩) ∧
      absList gs' = absList gs ∧ m'.portNames = m.portNames ∧
      ∀ g ∈ gs', g ∈ gs ∨ g.1 = ⟨type, subtype⟩ := by
  unfold typeEntry
  rcases h.findType_cases type subtype with ⟨hf, hn⟩ | ⟨ti, hf, hg⟩
  · obtain ⟨ti, m', gs', hr, h', hg', habs, hnm, hkeys⟩ := h.registerType_represents junk hn
    refine ⟨ti, m', gs', by rw [hf]; exact hr, h', ?_, habs, hnm, hkeys⟩
    rw [hg', absList_of_notMem hn]
  · exact ⟨ti, m, gs, by rw [hf], h, hg, rfl, rfl, fun g hg => .inl hg⟩

/-- Another list for the group at `ti`, with a block that holds it, and another name table. -/
theorem setGroup (h : m.Represents gs names) {ti : Nat} {key : FullSignalType} {l l' : List Nat}
    (hg : gs[ti]? = some (key, l)) {b : UintBlock} (hfront : l' <+: b) (heven : 2 ∣ b.length)
    {names' : List PortName} {arr : PntArray PortName} (harr : Packed arr names')
    (hi : Indexed (Function.update (absList gs) key l') names') :
    ({ (m.setBlock ti b).setSize ti l'.length with
        portNames := arr, maxSize := names'.length }).Represents
      (gs.set ti (key, l')) names' where
  types := by
    have hlt := (List.getElem?_eq_some_iff.mp hg).1
    have hk : (gs.map Prod.fst)[ti]? = some key := by rw [List.getElem?_map, hg]; rfl
    have hself : (gs.map Prod.fst).set ti key = gs.map Prod.fst := by
      obtain ⟨hlt', hget⟩ := List.getElem?_eq_some_iff.mp hk
      rw [← hget, List.set_getElem_self]
    rw [List.map_set]
    exact h.types.trans hself.symm
  sizesSome := by
    intro hm
    cases hs : m.toAbsSize with
    | none => exact absurd hs (h.sizesSome hm)
    | some sizes => simp [PortManager.setSize, PortManager.setBlock, hs]
  sizes := by
    intro tj g hgj
    by_cases htj : ti = tj
    · subst htj
      have hlt := (List.getElem?_eq_some_iff.mp hg).1
      rw [List.getElem?_set_self hlt, Option.some.injEq] at hgj
      subst hgj
      exact sizeAt_setSize_self (m.setBlock ti _) (h.sizes ti _ hg)
    · rw [List.getElem?_set_ne htj] at hgj
      exact (sizeAt_setSize_ne _ htj).trans (h.sizes tj g hgj)
  blocks := by
    obtain ⟨bs, hp, hlen, hall⟩ := h.blocks
    have hlt := (List.getElem?_eq_some_iff.mp hg).1
    have hbt : ti < bs.length := by omega
    have hbs : m.toAbs = some (bs.map some ++ [none]) := by
      rcases hp with ⟨-, rfl⟩ | hp
      · simp at hbt
      · exact hp
    refine ⟨bs.set ti b, .inr ?_, ?_, ?_⟩
    · have : ti < (bs.map (some : UintBlock → Option UintBlock)).length := by simpa using hbt
      simp only [PortManager.setSize, PortManager.setBlock, hbs, Option.map_some,
        List.set_append_left _ _ this, List.map_set]
    · rw [List.length_set, List.length_set, hlen]
    · intro tj g b' hgj hbj
      by_cases htj : ti = tj
      · subst htj
        rw [List.getElem?_set_self hlt, Option.some.injEq] at hgj
        rw [List.getElem?_set_self hbt, Option.some.injEq] at hbj
        subst hgj hbj
        exact ⟨hfront, heven⟩
      · rw [List.getElem?_set_ne htj] at hgj hbj
        exact hall tj g b' hgj hbj
  packed := harr
  maxSize := rfl
  keys := by
    have hk : (gs.map Prod.fst)[ti]? = some key := by rw [List.getElem?_map, hg]; rfl
    obtain ⟨hlt', hget⟩ := List.getElem?_eq_some_iff.mp hk
    rw [List.map_set, ← hget, List.set_getElem_self]
    exact h.keys
  indexed := by
    rw [absList_set h.keys hg]
    exact hi

/-- Extending the group at `ti` by the absolute index `a` and naming that slot. -/
theorem pushPort (h : m.Represents gs names) (junk : Nat → Nat) {ti a : Nat}
    {key : FullSignalType} {l : List Nat} (hg : gs[ti]? = some (key, l)) {b : UintBlock}
    (hb : l <+: b) {names' : List PortName} {arr : PntArray PortName}
    (harr : Packed arr names')
    (hi : Indexed (Function.update (absList gs) key (l ++ [a])) names') :
    ({ ((m.setBlock ti ((reallocUints junk b (l.length + 1)).set l.length a)).setSize ti
        (l.length + 1)) with portNames := arr, maxSize := names'.length }).Represents
      (gs.set ti (key, l ++ [a])) names' := by
  have heven : 2 ∣ ((reallocUints junk b (l.length + 1)).set l.length a).length := by
    rw [List.length_set, length_reallocUints]
    exact Nat.dvd_mul_right 2 _
  have := h.setGroup hg (prefix_reallocUints_set hb a) heven harr hi
  rwa [List.length_append, List.length_singleton] at this

end PortManager.Represents

/-! ### The name table -/

/-- The slot a new port gets: the first freed one, else a new one at the end. -/
def nextSlot (names : List PortName) : Nat := names.idxOf .empty

/-- The name table with `name` put into the slot of the next port. -/
def placeName (names : List PortName) (name : PortName) : List PortName :=
  if .empty ∈ names then names.set (nextSlot names) name else names ++ [name]

theorem nextSlot_of_notMem {names : List PortName} (h : PortName.empty ∉ names) :
    nextSlot names = names.length := List.idxOf_eq_length h

theorem nextSlot_lt {names : List PortName} (h : PortName.empty ∈ names) :
    nextSlot names < names.length := List.idxOf_lt_length_of_mem h

theorem placeName_nextSlot (names : List PortName) (name : PortName) :
    (placeName names name)[nextSlot names]? = some name := by
  unfold placeName
  split
  · next h => rw [List.getElem?_set_self (nextSlot_lt h)]
  · next h => rw [nextSlot_of_notMem h]; simp

theorem placeName_of_ne {names : List PortName} {name : PortName} {a : Nat}
    (h : a ≠ nextSlot names) : (placeName names name)[a]? = names[a]? := by
  unfold placeName
  split
  · rw [List.getElem?_set_ne h.symm]
  · next he =>
    rw [nextSlot_of_notMem he] at h
    by_cases hlt : a < names.length
    · rw [List.getElem?_append_left hlt]
    · rw [List.getElem?_eq_none (by simp; omega), List.getElem?_eq_none (by omega)]

/-- The next slot holds no name yet. -/
theorem nextSlot_free (names : List PortName) (s : String) :
    names[nextSlot names]? ≠ some (.chars s) := by
  by_cases h : PortName.empty ∈ names
  · rw [List.getElem?_eq_getElem (nextSlot_lt h)]
    simp only [nextSlot, List.getElem_idxOf, ne_eq, Option.some.injEq]
    exact fun e => PortName.noConfusion e
  · rw [nextSlot_of_notMem h, List.getElem?_eq_none (Nat.le_refl _)]
    simp

theorem nextAbsSlot_eq {arr : PntArray PortName} {names : List PortName} (h : Packed arr names) :
    nextAbsSlot arr = some (decide (PortName.empty ∈ names), nextSlot names) := by
  have hf : names.findIdx? (fun n => n = PortName.empty) =
      if PortName.empty ∈ names then some (nextSlot names) else none := by
    by_cases hm : PortName.empty ∈ names
    · rw [if_pos hm, List.findIdx?_eq_some_iff_getElem]
      refine ⟨nextSlot_lt hm, by simp [nextSlot], ?_⟩
      intro j hj
      have := @List.not_of_lt_findIdx _ (fun x => x == PortName.empty) names j hj
      simpa using this
    · rw [if_neg hm, List.findIdx?_eq_none_iff]
      intro x hx
      simp only [decide_eq_false_iff_not]
      exact fun e => hm (e ▸ hx)
  rcases h with ⟨rfl, rfl⟩ | rfl
  · rfl
  · simp only [nextAbsSlot, scanUntilNull_packed, hf, Option.bind_eq_bind, Option.bind_some]
    by_cases hm : PortName.empty ∈ names
    · simp [hm]
    · simp [hm, arrayPntPopulation_of_packed (packed_block names), nextSlot_of_notMem hm]

/-- Giving the next slot to a new last port of one list keeps indices and names in step. -/
theorem Indexed.push {abs : FullSignalType → List Nat} {names : List PortName}
    (h : Indexed abs names) (key : FullSignalType) (s : String) :
    Indexed (Function.update abs key (abs key ++ [nextSlot names]))
      (placeName names (.chars s)) := by
  have hfree : ∀ (k : FullSignalType) (i : Nat), (abs k)[i]? ≠ some (nextSlot names) := by
    intro k i he
    obtain ⟨s', hs'⟩ := (h.live _).mp ⟨k, i, he⟩
    exact nextSlot_free names s' hs'
  -- a port of the extended map is an old one, or the new one
  have hcases : ∀ (k : FullSignalType) (i a : Nat),
      (Function.update abs key (abs key ++ [nextSlot names]) k)[i]? = some a →
      (abs k)[i]? = some a ∨ (k = key ∧ i = (abs key).length ∧ a = nextSlot names) := by
    intro k i a hka
    by_cases hk : k = key
    · subst hk
      rw [Function.update_self] at hka
      by_cases hi : i < (abs k).length
      · rw [List.getElem?_append_left hi] at hka
        exact .inl hka
      · have hi' : i = (abs k).length := by
          have := (List.getElem?_eq_some_iff.mp hka).1
          rw [List.length_append, List.length_singleton] at this
          omega
        subst hi'
        rw [List.getElem?_append_right (Nat.le_refl _), Nat.sub_self] at hka
        exact .inr ⟨rfl, rfl, by simpa using hka.symm⟩
    · rw [Function.update_of_ne hk] at hka
      exact .inl hka
  have hold : ∀ (k : FullSignalType) (i a : Nat), (abs k)[i]? = some a →
      (Function.update abs key (abs key ++ [nextSlot names]) k)[i]? = some a := by
    intro k i a hka
    by_cases hk : k = key
    · subst hk
      rw [Function.update_self, List.getElem?_append_left (List.getElem?_eq_some_iff.mp hka).1]
      exact hka
    · rw [Function.update_of_ne hk]
      exact hka
  constructor
  · intro k k' i i' a h1 h2
    rcases hcases k i a h1 with h1' | ⟨rfl, rfl, ha⟩
    · rcases hcases k' i' a h2 with h2 | ⟨-, -, ha⟩
      · exact h.inj h1' h2
      · exact absurd (ha ▸ h1') (hfree k i)
    · rcases hcases k' i' a h2 with h2 | ⟨rfl, rfl, -⟩
      · exact absurd (ha ▸ h2) (hfree k' i')
      · exact ⟨rfl, rfl⟩
  · intro a
    by_cases ha : a = nextSlot names
    · subst ha
      rw [placeName_nextSlot]
      refine ⟨fun _ => ⟨s, rfl⟩, fun _ => ⟨key, (abs key).length, ?_⟩⟩
      simp
    · rw [placeName_of_ne ha, ← h.live a]
      constructor
      · rintro ⟨k, i, hka⟩
        rcases hcases k i a hka with hka | ⟨-, -, he⟩
        · exact ⟨k, i, hka⟩
        · exact absurd he ha
      · rintro ⟨k, i, hka⟩
        exact ⟨k, i, hold k i a hka⟩

/-- What an addition does once the type has its entry `ti`. -/
theorem lxcPortUncheckedAddNewPort_eq {m m₁ : PortManager} {names : List PortName}
    {ti size : Nat} {b : UintBlock} {type : Signal} {subtype : Int} {junk : Nat → Nat}
    (hnames : Packed m.portNames names) (hreg : typeEntry junk m type subtype = some (ti, m₁))
    (hkeep : m₁.portNames = m.portNames) (hs : m₁.sizeAt ti = some size)
    (hb : m₁.blockAt ti = some b) (s : String) :
    lxcPortUncheckedAddNewPort junk m (.chars s) type subtype =
      some ((nextSlot names : Int) + (if PortName.empty ∈ names then 0 else 1), size,
        { ((m₁.setBlock ti ((reallocUints junk b (size + 1)).set size (nextSlot names))).setSize ti
            (size + 1)) with
          portNames := some ((placeName names (.chars s)).map some ++ [none])
          maxSize := (placeName names (.chars s)).length }) := by
  unfold lxcPortUncheckedAddNewPort
  simp only [nextAbsSlot_eq hnames, hreg, hs, hb, Option.bind_eq_bind, Option.bind_some]
  by_cases hm : PortName.empty ∈ names
  · have hblk : m₁.portNames = some (names.map some ++ [none]) := by
      rw [hkeep]
      rcases hnames with ⟨-, rfl⟩ | hp
      · simp at hm
      · exact hp
    have hlt : nextSlot names < (names.map (some : PortName → Option PortName)).length := by
      simpa using nextSlot_lt hm
    have hset : (names.map some ++ [none]).set (nextSlot names) (some (PortName.chars s)) =
        (placeName names (.chars s)).map some ++ [none] := by
      rw [List.set_append_left _ _ hlt, placeName, if_pos hm, List.map_set]
    simp [hm, PortManager.setSize, PortManager.setBlock, hblk, hset,
      arrayPntPopulation_of_packed (packed_block _)]
  · simp [hm, PortManager.setSize, PortManager.setBlock, hkeep,
      arrayPntAppendElement_of_packed hnames, nextSlot_of_notMem hm, placeName]

/-- A new port goes to the end of its group and takes the next slot of the name table. The
    function's result is that slot when it was freed before and one more than the slot when it
    is new. -/
theorem lxcPortUncheckedAddNewPort_represents {m : PortManager} {gs : Groups}
    {names : List PortName} (h : m.Represents gs names) (junk : Nat → Nat) (s : String)
    (type : Signal) (subtype : Int) :
    ∃ m' gs', lxcPortUncheckedAddNewPort junk m (.chars s) type subtype =
        some ((nextSlot names : Int) + (if PortName.empty ∈ names then 0 else 1),
          (absList gs ⟨type, subtype⟩).length, m') ∧
      m'.Represents gs' (placeName names (.chars s)) ∧
      absList gs' = Function.update (absList gs) ⟨type, subtype⟩
        (absList gs ⟨type, subtype⟩ ++ [nextSlot names]) ∧
      ∀ g ∈ gs', g ∈ gs ∨ g.1 = ⟨type, subtype⟩ := by
  obtain ⟨ti, m₁, gs₁, hreg, h₁, hg₁, habs₁, hnames₁, hkeys₁⟩ :=
    h.typeEntry_represents junk type subtype
  obtain ⟨b, hb, hfront, -⟩ := h₁.blockAt_eq hg₁
  have hpush : ∀ {arr : PntArray PortName}, Packed arr (placeName names (.chars s)) → _ :=
    fun harr => h₁.pushPort junk hg₁ hfront harr (by
      rw [habs₁]; exact h.indexed.push ⟨type, subtype⟩ s)
  refine ⟨_, _, ?_, hpush (packed_block (placeName names (.chars s))), ?_, ?_⟩
  · exact lxcPortUncheckedAddNewPort_eq h.packed hreg hnames₁ (h₁.sizes ti _ hg₁) hb s
  · rw [absList_set h₁.keys hg₁, habs₁]
  · intro g hg
    rcases List.mem_or_eq_of_mem_set hg with hg | rfl
    · exact hkeys₁ g hg
    · exact .inr rfl

end LogxControll
