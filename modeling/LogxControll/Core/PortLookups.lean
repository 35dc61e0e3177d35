/-
  The indices that `lxc_port_unchecked_add_new_port` and the reverse lookups give back.

  A removal can leave anything in the blocks of a manager (`PortRemoval`), but it does not take
  a block or a size away: `PortManager.Allocated` holds after every run. So an addition always
  returns, and `returned_absindex_iff` says when its result is the absolute index of the port.
  After additions alone the manager still represents its groups; `reverse_lookups_iff` reads
  off which blocks and cells the reverse lookups have passed when they reach a port.
-/
import LogxControll.Core.PortRemoval

namespace LogxControll

/-! ## What is left after any run -/

/-- Every managed type has a block and a size, and the name table is terminated. -/
structure PortManager.Allocated (m : PortManager) : Prop where
  blocks : ∃ bs : List UintBlock, Packed m.toAbs bs ∧ bs.length = (m.managedTypes.getD []).length
  sizes : ∀ ti, ti < (m.managedTypes.getD []).length → ∃ size, m.sizeAt ti = some size
  names : ∃ names, Packed m.portNames names

namespace PortManager.Allocated

variable {m : PortManager} {ti : Nat}

theorem zeroed : PortManager.zeroed.Allocated where
  blocks := ⟨[], .inl ⟨rfl, rfl⟩, rfl⟩
  sizes := by
    intro ti hti
    cases hti
  names := ⟨[], .inl ⟨rfl, rfl⟩⟩

theorem init : lxcPortInitPortManagerFactory.Allocated where
  blocks := ⟨[], .inr rfl, rfl⟩
  sizes := by
    intro ti hti
    cases hti
  names := ⟨[], .inr rfl⟩

theorem blockAt (h : m.Allocated) (hti : ti < (m.managedTypes.getD []).length) :
    ∃ block, m.blockAt ti = some block := by
  obtain ⟨bs, hp, hlen⟩ := h.blocks
  have hlt : ti < bs.length := by omega
  rcases hp with ⟨-, rfl⟩ | hp
  · cases hlt
  · exact ⟨bs[ti], by simp [PortManager.blockAt, hp, List.getElem?_append_left, hlt]⟩

theorem setBlock (h : m.Allocated) (hti : ti < (m.managedTypes.getD []).length)
    (block : UintBlock) : (m.setBlock ti block).Allocated where
  blocks := by
    obtain ⟨bs, hp, hlen⟩ := h.blocks
    have hlt : ti < bs.length := by omega
    refine ⟨bs.set ti block, .inr ?_, by rw [List.length_set]; exact hlen⟩
    rcases hp with ⟨-, rfl⟩ | hp
    · cases hlt
    · have hlt' : ti < (bs.map (some : UintBlock → Option UintBlock)).length := by
        rwa [List.length_map]
      simp only [PortManager.setBlock, hp, Option.map_some, List.set_append_left _ _ hlt',
        List.map_set]
  sizes := h.sizes
  names := h.names

theorem setSize (h : m.Allocated) (ti size : Nat) : (m.setSize ti size).Allocated where
  blocks := h.blocks
  sizes := by
    intro tj htj
    obtain ⟨old, hold⟩ := h.sizes tj htj
    by_cases he : ti = tj
    · subst he
      exact ⟨size, sizeAt_setSize_self m hold⟩
    · exact ⟨old, (sizeAt_setSize_ne m he).trans hold⟩
  names := h.names

theorem setNames (h : m.Allocated) {arr : PntArray PortName} {names : List PortName}
    (harr : Packed arr names) (population : Int) :
    ({ m with portNames := arr, maxSize := population }).Allocated where
  blocks := h.blocks
  sizes := h.sizes
  names := ⟨names, harr⟩

end PortManager.Allocated

/-! ## An addition to any manager -/

section Addition

variable {m : PortManager}

theorem findType_lt {type : Signal} {subtype : Int} {ti : Nat}
    (h : m.findType type subtype = some ti) : ti < (m.managedTypes.getD []).length := by
  unfold PortManager.findType at h
  cases hm : m.managedTypes with
  | none =>
    rw [hm] at h
    cases h
  | some types =>
    rw [hm] at h
    exact (List.findIdx?_eq_some_iff_getElem.mp h).1

theorem emptyTypeSlot_lt {ti : Nat} (h : m.emptyTypeSlot = some ti) :
    ti < (m.managedTypes.getD []).length := by
  unfold PortManager.emptyTypeSlot at h
  split at h
  · next hm _ =>
    rw [hm]
    exact List.mem_range.mp (List.mem_of_find?_eq_some h)
  · cases h

/-- A registered type is found at the entry it was given. -/
theorem findType_of_registered {types : List FullSignalType} {type : Signal} {subtype : Int}
    {ti : Nat} (hti : types[ti]? = some ⟨type, subtype⟩)
    (hfirst : ∀ tj, tj < ti → types[tj]? ≠ some ⟨type, subtype⟩)
    (hm : m.managedTypes = some types) : m.findType type subtype = some ti := by
  obtain ⟨hlt, hget⟩ := List.getElem?_eq_some_iff.mp hti
  unfold PortManager.findType
  rw [hm]
  refine List.findIdx?_eq_some_iff_getElem.mpr ⟨hlt, by simp [hget], fun tj htj => ?_⟩
  have hne := hfirst tj htj
  rw [List.getElem?_eq_getElem (Nat.lt_trans htj hlt)] at hne
  simp only [decide_eq_true_eq, not_and]
  rintro rfl rfl
  exact hne rfl

theorem getElem?_ne_of_findType {type : Signal} {subtype : Int}
    (h : m.findType type subtype = none) (tj : Nat) :
    (m.managedTypes.getD [])[tj]? ≠ some ⟨type, subtype⟩ := by
  intro he
  unfold PortManager.findType at h
  cases hm : m.managedTypes with
  | none =>
    rw [hm] at he
    cases he
  | some types =>
    rw [hm] at h he
    have := List.findIdx?_eq_none_iff.mp h _ (List.mem_of_getElem? he)
    simp at this

theorem registerType_allocated (h : m.Allocated) (junk : Nat → Nat) {type : Signal}
    {subtype : Int} (hf : m.findType type subtype = none) :
    ∃ ti m', registerType junk m type subtype = some (ti, m') ∧ m'.Allocated ∧
      m'.findType type subtype = some ti ∧ m'.portNames = m.portNames := by
  have hfirst := getElem?_ne_of_findType hf
  unfold registerType
  cases he : m.emptyTypeSlot with
  | some ti =>
    have hlt := emptyTypeSlot_lt he
    cases hm : m.managedTypes with
    | none =>
      rw [hm] at hlt
      cases hlt
    | some types =>
      rw [hm, Option.getD_some] at hlt
      refine ⟨ti, _, rfl, ?_, ?_, rfl⟩
      · apply PortManager.Allocated.setSize
        refine ⟨?_, fun tj htj => h.sizes tj ?_, h.names⟩
        · obtain ⟨bs, hp, hlen⟩ := h.blocks
          refine ⟨bs, hp, ?_⟩
          rw [hm] at hlen
          simpa using hlen
        · rw [hm]
          simpa using htj
      · refine findType_of_registered (List.getElem?_set_self hlt) (fun tj htj => ?_) rfl
        rw [List.getElem?_set_ne (by omega)]
        have := hfirst tj
        rwa [hm] at this
  | none =>
    obtain ⟨bs, hp, hlen⟩ := h.blocks
    simp only [arrayPntAppendElement_of_packed hp, Option.bind_eq_bind, Option.bind_some]
    refine ⟨_, _, rfl, ?_, ?_, rfl⟩
    · have hcell : ∀ tj, tj < (m.managedTypes.getD []).length + 1 → ∃ size,
          (reallocUints junk (m.toAbsSize.getD []) ((m.managedTypes.getD []).length + 1))[tj]? =
            some size := by
        intro tj htj
        exact ⟨_, List.getElem?_eq_getElem (by rw [length_reallocUints]; omega)⟩
      apply PortManager.Allocated.setSize
      refine ⟨⟨bs ++ [[0, 0]], .inr rfl, by simp [hlen]⟩, fun tj htj => ?_, h.names⟩
      exact hcell tj (by simpa using htj)
    · refine findType_of_registered List.getElem?_concat_length (fun tj htj => ?_) rfl
      rw [List.getElem?_append_left htj]
      exact hfirst tj

theorem typeEntry_allocated (h : m.Allocated) (junk : Nat → Nat) (type : Signal)
    (subtype : Int) :
    ∃ ti m', typeEntry junk m type subtype = some (ti, m') ∧ m'.Allocated ∧
      m'.findType type subtype = some ti ∧ m'.portNames = m.portNames := by
  unfold typeEntry
  cases hf : m.findType type subtype with
  | none => exact registerType_allocated h junk hf
  | some ti => exact ⟨ti, m, rfl, h, hf, rfl⟩

/-- The read-back of a new port is its slot of the name table; the result of the addition is one
    more when the slot is new. -/
theorem lxcPortUncheckedAddNewPort_allocated (h : m.Allocated) (junk : Nat → Nat) (s : String)
    (type : Signal) (subtype : Int) {names : List PortName} (hnames : Packed m.portNames names) :
    ∃ index m', lxcPortUncheckedAddNewPort junk m (.chars s) type subtype =
        some ((nextSlot names : Int) + (if PortName.empty ∈ names then 0 else 1), index, m') ∧
      m'.Allocated ∧ lxcPortGetAbsindex m' type subtype index = some (nextSlot names : Int) := by
  obtain ⟨ti, m₁, hreg, h₁, hf, hkeep⟩ := typeEntry_allocated h junk type subtype
  have hlt := findType_lt hf
  obtain ⟨size, hs⟩ := h₁.sizes ti hlt
  obtain ⟨b, hb⟩ := h₁.blockAt hlt
  refine ⟨size, _, lxcPortUncheckedAddNewPort_eq hnames hreg hkeep hs hb s, ?_, ?_⟩
  · exact ((h₁.setBlock hlt _).setSize ti (size + 1)).setNames (packed_block _) _
  · have hcell : ((reallocUints junk b (size + 1)).set size (nextSlot names))[size]? =
        some (nextSlot names) := by
      rw [List.getElem?_set_self]
      rw [length_reallocUints]
      omega
    have hread := lxcPortGetAbsindex_of_entry (i := size)
      (m := { ((m₁.setBlock ti ((reallocUints junk b (size + 1)).set size (nextSlot names))).setSize
          ti (size + 1)) with
        portNames := some ((placeName names (.chars s)).map some ++ [none])
        maxSize := (placeName names (.chars s)).length })
      hf (sizeAt_setSize_self (m₁.setBlock ti _) hs) (blockAt_setBlock hb) (Nat.lt_succ_self size)
    rw [hread, hcell]
    rfl

end Addition

/-! ## Any run -/

section Runs

variable {m m' : PortManager}

/-- Writing a cell of a block that still has its terminator afterwards. -/
theorem packed_set {α : Type} {l : List α} {i : Nat} {x : α} {population : Int}
    (hi : i < (l.map some ++ [none]).length)
    (h : arrayPntPopulation (some ((l.map some ++ [none]).set i (some x))) = some population) :
    Packed (some ((l.map some ++ [none]).set i (some x))) (l.set i x) := by
  by_cases hlt : i < (l.map (some : α → Option α)).length
  · rw [List.set_append_left _ _ hlt, ← List.map_set]
    exact packed_block _
  · -- the terminator is gone, and the block has no population
    have hlast : i - (l.map (some : α → Option α)).length = 0 := by
      rw [List.length_append, List.length_singleton] at hi
      omega
    have hfull : (l.map some ++ [none]).set i (some x) = (l ++ [x]).map some := by
      rw [List.set_append_right _ _ (Nat.le_of_not_lt hlt), hlast, List.map_append]
      rfl
    rw [hfull, arrayPntPopulation, arrayPntLastIndex, findIdx?_isNone_map_some] at h
    cases h

theorem lxcPortRemovePort_allocated (h : m.Allocated) {type : Signal} {subtype : Int}
    {index : Nat} (hm' : lxcPortRemovePort m type subtype index = some m') : m'.Allocated := by
  unfold lxcPortRemovePort at hm'
  cases hf : m.findType type subtype with
  | none =>
    rw [hf] at hm'
    exact Option.some.inj hm' ▸ h
  | some ti =>
    simp only [hf] at hm'
    obtain ⟨abs, -, hrest⟩ := Option.bind_eq_some_iff.mp hm'
    by_cases hneg : abs < 0
    · rw [if_pos hneg] at hrest
      exact Option.some.inj hrest ▸ h
    · rw [if_neg hneg] at hrest
      obtain ⟨arr, harr, hrest⟩ := Option.bind_eq_some_iff.mp hrest
      by_cases hout : arr.length ≤ abs.toNat
      · rw [if_pos hout] at hrest
        cases hrest
      · rw [if_neg hout] at hrest
        obtain ⟨size, hs, hrest⟩ := Option.bind_eq_some_iff.mp hrest
        obtain ⟨block, hb, hrest⟩ := Option.bind_eq_some_iff.mp hrest
        obtain ⟨⟨popped, words⟩, hpop, hrest⟩ := Option.bind_eq_some_iff.mp hrest
        obtain ⟨population, hpopulation, hrest⟩ := Option.bind_eq_some_iff.mp hrest
        obtain rfl := Option.some.inj hrest
        obtain ⟨names, hnames⟩ := h.names
        have harr' : arr = names.map some ++ [none] := by
          rcases hnames with ⟨hnone, -⟩ | hsome
          · rw [hnone] at harr
            cases harr
          · exact Option.some.inj (harr.symm.trans hsome)
        subst harr'
        exact ((h.setBlock (findType_lt hf) _).setSize ti _).setNames
          (packed_set (Nat.lt_of_not_le hout) hpopulation) population

theorem PortOp.step_allocated (h : m.Allocated) {op : PortOp} (hm' : op.step m = some m') :
    m'.Allocated := by
  cases op with
  | add junk name type subtype =>
    obtain ⟨names, hnames⟩ := h.names
    obtain ⟨index, m₁, hadd, h₁, -⟩ :=
      lxcPortUncheckedAddNewPort_allocated h junk name type subtype hnames
    rw [PortOp.step, hadd] at hm'
    exact Option.some.inj hm' ▸ h₁
  | remove type subtype index => exact lxcPortRemovePort_allocated h hm'

end Runs

/-- An addition to the manager that any run leaves returns, and its result is the absolute index
    of the new port if and only if a freed slot is reused. -/
theorem returned_absindex_iff {m₀ m : PortManager}
    (hm₀ : m₀ = .zeroed ∨ m₀ = lxcPortInitPortManagerFactory) {ops : List PortOp}
    (hrun : Run.run PortOp.step m₀ ops = some m) (junk : Nat → Nat) (name : String)
    (type : Signal) (subtype : Int) :
    ∃ returned index m',
      lxcPortUncheckedAddNewPort junk m (.chars name) type subtype = some (returned, index, m') ∧
      (lxcPortGetAbsindex m' type subtype index = some returned ↔
        some PortName.empty ∈ m.portNames.getD []) := by
  have hinit : m₀.Allocated := by
    rcases hm₀ with rfl | rfl
    · exact PortManager.Allocated.zeroed
    · exact PortManager.Allocated.init
  have h : m.Allocated := Run.run_invariant PortManager.Allocated
    (fun _ _ _ hs hstep => PortOp.step_allocated hs hstep) ops m₀ m hinit hrun
  obtain ⟨names, hnames⟩ := h.names
  obtain ⟨index, m', hadd, -, hread⟩ :=
    lxcPortUncheckedAddNewPort_allocated h junk name type subtype hnames
  have hmem : some PortName.empty ∈ m.portNames.getD [] ↔ PortName.empty ∈ names := by
    rcases hnames with ⟨hnone, rfl⟩ | hsome
    · simp [hnone]
    · simp [hsome]
  refine ⟨_, index, m', hadd, ?_⟩
  rw [hread, hmem, Option.some.injEq]
  by_cases hfreed : PortName.empty ∈ names
  · simp [hfreed]
  · rw [if_neg hfreed]
    constructor
    · intro he
      omega
    · exact fun hm => absurd hm hfreed

/-- A freed slot is reused, after the port of another type has been removed. -/
theorem returned_absindex_reused : ∃ m, Run.run PortOp.step lxcPortInitPortManagerFactory
      [.add (fun _ => 0) "a" .bool 0, .remove .bool 0 0] = some m ∧
    ∃ returned index m',
      lxcPortUncheckedAddNewPort (fun _ => 0) m (.chars "b") .int 0 = some (returned, index, m') ∧
      lxcPortGetAbsindex m' .int 0 index = some returned := by
  have hrun : Run.run PortOp.step lxcPortInitPortManagerFactory
      [.add (fun _ => 0) "a" .bool 0, .remove .bool 0 0] = some _ := rfl
  obtain ⟨returned, index, m', hadd, hiff⟩ :=
    returned_absindex_iff (.inr rfl) hrun (fun _ => 0) "b" .int 0
  exact ⟨_, hrun, returned, index, m', hadd, hiff.mpr (by decide)⟩

/-- The first port of a manager has absolute index 0 and is reported as 1. -/
theorem not_returned_absindex :
    ¬ ∀ (m₀ m : PortManager) (ops : List PortOp), m₀ = lxcPortInitPortManagerFactory →
      Run.run PortOp.step m₀ ops = some m →
      ∀ (junk : Nat → Nat) (name : String) (type : Signal) (subtype : Int) (returned : Int)
        (index : Nat) (m' : PortManager),
        lxcPortUncheckedAddNewPort junk m (.chars name) type subtype =
          some (returned, index, m') →
        lxcPortGetAbsindex m' type subtype index = some returned := by
  intro h
  have := h _ _ [] rfl rfl (fun _ => 0) "a" .bool 0 1 0 _ rfl
  exact absurd this (by decide)

/-! ## The searches of the reverse lookups -/

/-- The search for `absindex` in the first `n` cells of a block runs to its end. -/
def Passes (absindex n : Nat) (block : UintBlock) : Prop :=
  n ≤ block.length ∧ absindex ∉ block.take n

/-- Every block is searched as far as group 0 is long: over block `i` to its end. -/
def PortManager.PassesBlock (m : PortManager) (absindex i : Nat) : Prop :=
  ∀ n block, m.sizeAt 0 = some n → m.blockAt i = some block → Passes absindex n block

/-- The search comes to cell `index` of the block of (type, subtype). -/
def PortManager.Reaches (m : PortManager) (type : Signal) (subtype : Int) (index absindex : Nat) :
    Prop :=
  ∀ ti n, m.findType type subtype = some ti → m.sizeAt 0 = some n →
    index < n ∧ ∀ i, i < ti → m.PassesBlock absindex i

section Searches

variable {absindex : Nat}

theorem findAbsindex_some_iff (arr : UintBlock) (n : Nat) : ∀ a k,
    findAbsindex arr absindex a n = some (some k) ↔ a ≤ k ∧ k < a + n ∧ arr[k]? = some absindex ∧
      ∀ j, a ≤ j → j < k → ∃ cell, arr[j]? = some cell ∧ cell ≠ absindex := by
  induction n with
  | zero =>
    intro a k
    simp only [findAbsindex, Option.some.injEq, reduceCtorEq, false_iff]
    omega
  | succ n ih =>
    intro a k
    rw [findAbsindex]
    cases hcell : arr[a]? with
    | none =>
      simp only [Option.bind_eq_bind, Option.bind_none, reduceCtorEq, false_iff]
      rintro ⟨hak, -, hk, hbefore⟩
      rcases Nat.eq_or_lt_of_le hak with rfl | hlt
      · rw [hcell] at hk
        cases hk
      · obtain ⟨cell, hc, -⟩ := hbefore a (Nat.le_refl a) hlt
        rw [hcell] at hc
        cases hc
    | some cell =>
      simp only [Option.bind_eq_bind, Option.bind_some]
      by_cases he : absindex = cell
      · subst he
        rw [if_pos rfl]
        constructor
        · intro h
          obtain rfl := Option.some.inj (Option.some.inj h)
          exact ⟨Nat.le_refl _, by omega, hcell, fun j hj hlt => by omega⟩
        · rintro ⟨hak, -, -, hbefore⟩
          rcases Nat.eq_or_lt_of_le hak with rfl | hlt
          · rfl
          · obtain ⟨c, hc, hne⟩ := hbefore a (Nat.le_refl a) hlt
            exact absurd (Option.some.inj (hc.symm.trans hcell)) hne
      · rw [if_neg he, ih]
        constructor
        · rintro ⟨hak, hlt, hk, hbefore⟩
          refine ⟨by omega, by omega, hk, fun j hj hjk => ?_⟩
          rcases Nat.eq_or_lt_of_le hj with rfl | hlt'
          · exact ⟨cell, hcell, Ne.symm he⟩
          · exact hbefore j hlt' hjk
        · rintro ⟨hak, hlt, hk, hbefore⟩
          have hne : a ≠ k := by
            rintro rfl
            exact he (Option.some.inj (hk.symm.trans hcell))
          exact ⟨by omega, by omega, hk, fun j hj hjk => hbefore j (by omega) hjk⟩

theorem findAbsindex_none_iff (arr : UintBlock) (n : Nat) : ∀ a,
    findAbsindex arr absindex a n = some none ↔
      ∀ j, a ≤ j → j < a + n → ∃ cell, arr[j]? = some cell ∧ cell ≠ absindex := by
  induction n with
  | zero =>
    intro a
    simp only [findAbsindex, true_iff]
    intro j hj hlt
    omega
  | succ n ih =>
    intro a
    rw [findAbsindex]
    cases hcell : arr[a]? with
    | none =>
      simp only [Option.bind_eq_bind, Option.bind_none, reduceCtorEq, false_iff]
      intro hall
      obtain ⟨cell, hc, -⟩ := hall a (Nat.le_refl a) (by omega)
      rw [hcell] at hc
      cases hc
    | some cell =>
      simp only [Option.bind_eq_bind, Option.bind_some]
      by_cases he : absindex = cell
      · subst he
        rw [if_pos rfl]
        refine iff_of_false (fun hfound => by cases hfound) fun hall => ?_
        obtain ⟨c, hc, hne⟩ := hall a (Nat.le_refl a) (by omega)
        exact hne (Option.some.inj (hc.symm.trans hcell))
      · rw [if_neg he, ih]
        constructor
        · intro hall j hj hlt
          rcases Nat.eq_or_lt_of_le hj with rfl | hlt'
          · exact ⟨cell, hcell, Ne.symm he⟩
          · exact hall j hlt' (by omega)
        · exact fun hall j hj hlt => hall j (by omega) (by omega)

theorem passes_iff {n : Nat} {arr : UintBlock} :
    Passes absindex n arr ↔ findAbsindex arr absindex 0 n = some none := by
  rw [findAbsindex_none_iff]
  constructor
  · rintro ⟨hlen, hnot⟩ j - hj
    have hlt : j < arr.length := by omega
    refine ⟨arr[j], List.getElem?_eq_getElem hlt, fun he => hnot ?_⟩
    rw [← he]
    exact List.mem_take_iff_getElem.mpr ⟨j, by omega, rfl⟩
  · intro hall
    constructor
    · by_contra hle
      obtain ⟨cell, hc, -⟩ := hall arr.length (Nat.zero_le _) (by omega)
      rw [List.getElem?_eq_none (Nat.le_refl _)] at hc
      cases hc
    · intro hmem
      obtain ⟨j, hj, he⟩ := List.mem_take_iff_getElem.mp hmem
      obtain ⟨cell, hc, hne⟩ := hall j (Nat.zero_le j) (by omega)
      rw [List.getElem?_eq_getElem (by omega), Option.some.injEq] at hc
      exact hne (hc.symm.trans he)

variable {m : PortManager} {n : Nat}

theorem findAbsindexInBlocks_none_iff (hn : m.sizeAt 0 = some n) (bs : List UintBlock) : ∀ i,
    findAbsindexInBlocks m absindex (bs.map some ++ [none]) i = some none ↔
      ∀ arr ∈ bs, Passes absindex n arr := by
  induction bs with
  | nil => simp [findAbsindexInBlocks]
  | cons arr bs ih =>
    intro i
    rw [List.map_cons, List.cons_append, findAbsindexInBlocks, hn, List.forall_mem_cons,
      passes_iff]
    simp only [Option.bind_eq_bind, Option.bind_some]
    cases hfind : findAbsindex arr absindex 0 n with
    | none => simp
    | some found =>
      cases found with
      | some a => simp
      | none => simpa using ih (i + 1)

theorem findAbsindexInBlocks_some_iff (hn : m.sizeAt 0 = some n) (bs : List UintBlock) :
    ∀ i t k, findAbsindexInBlocks m absindex (bs.map some ++ [none]) i = some (some (t, k)) ↔
      ∃ p arr, t = i + p ∧ bs[p]? = some arr ∧ findAbsindex arr absindex 0 n = some (some k) ∧
        ∀ q before, q < p → bs[q]? = some before → Passes absindex n before := by
  induction bs with
  | nil =>
    intro i t k
    simp [findAbsindexInBlocks]
  | cons arr bs ih =>
    intro i t k
    rw [List.map_cons, List.cons_append, findAbsindexInBlocks, hn]
    simp only [Option.bind_eq_bind, Option.bind_some]
    cases hfind : findAbsindex arr absindex 0 n with
    | none =>
      refine iff_of_false (fun h => by cases h) ?_
      rintro ⟨p, arr', -, hp, hk, hbefore⟩
      cases p with
      | zero =>
        obtain rfl := Option.some.inj hp
        rw [hfind] at hk
        cases hk
      | succ p =>
        have := passes_iff.mp (hbefore 0 arr (Nat.succ_pos p) rfl)
        rw [hfind] at this
        cases this
    | some found =>
      cases found with
      | some a =>
        constructor
        · intro h
          obtain ⟨rfl, rfl⟩ := Prod.mk.inj (Option.some.inj (Option.some.inj h))
          exact ⟨0, arr, rfl, rfl, hfind, fun q before hq => absurd hq (Nat.not_lt_zero q)⟩
        · rintro ⟨p, arr', rfl, hp, hk, hbefore⟩
          cases p with
          | zero =>
            obtain rfl := Option.some.inj hp
            rw [hfind, Option.some.injEq, Option.some.injEq] at hk
            subst hk
            rfl
          | succ p =>
            have := passes_iff.mp (hbefore 0 arr (Nat.succ_pos p) rfl)
            rw [hfind] at this
            cases this
      | none =>
        show findAbsindexInBlocks m absindex (bs.map some ++ [none]) (i + 1) = _ ↔ _
        rw [ih]
        constructor
        · rintro ⟨p, arr', rfl, hp, hk, hbefore⟩
          refine ⟨p + 1, arr', by omega, hp, hk, fun q before hq hget => ?_⟩
          cases q with
          | zero =>
            obtain rfl := Option.some.inj hget
            exact passes_iff.mpr hfind
          | succ q => exact hbefore q before (by omega) hget
        · rintro ⟨p, arr', rfl, hp, hk, hbefore⟩
          cases p with
          | zero =>
            obtain rfl := Option.some.inj hp
            rw [hfind] at hk
            cases hk
          | succ p =>
            exact ⟨p, arr', by omega, hp, hk,
              fun q before hq hget => hbefore (q + 1) before (by omega) hget⟩

end Searches

/-! ## The reverse lookups of a manager that represents its groups -/

namespace PortManager.Represents

variable {m : PortManager} {gs : Groups} {names : List PortName}

theorem blocks_cases (h : m.Represents gs names) :
    (m.toAbs = none ∧ gs = []) ∨ ∃ bs : List UintBlock, m.toAbs = some (bs.map some ++ [none]) ∧
      bs.length = gs.length ∧ ∀ i, m.blockAt i = bs[i]? := by
  obtain ⟨bs, hp, hlen, -⟩ := h.blocks
  rcases hp with ⟨hnone, rfl⟩ | hp
  · exact .inl ⟨hnone, List.length_eq_zero_iff.mp hlen.symm⟩
  · refine .inr ⟨bs, hp, hlen, fun i => ?_⟩
    by_cases hlt : i < bs.length
    · simp [PortManager.blockAt, hp, List.getElem?_append_left, hlt]
    · rw [List.getElem?_eq_none (Nat.le_of_not_lt hlt)]
      have hle : (bs.map (some : UintBlock → Option UintBlock)).length ≤ i := by
        rw [List.length_map]
        exact Nat.le_of_not_lt hlt
      simp only [PortManager.blockAt, hp, Option.bind_eq_bind, Option.bind_some,
        List.getElem?_append_right hle]
      cases i - (bs.map (some : UintBlock → Option UintBlock)).length <;> rfl

/-- A port is found in block `t` at cell `k`, and its (type, subtype) is read off the entry. -/
theorem lookup_of_found (h : m.Represents gs names) {bs : List UintBlock} {a t k : Nat}
    {g : FullSignalType × List Nat} (hbs : m.toAbs = some (bs.map some ++ [none]))
    (hfound : findAbsindexInBlocks m a (bs.map some ++ [none]) 0 = some (some (t, k)))
    (hg : gs[t]? = some g) (subtype : Int) :
    lxcPortGetTypeAndIndexByAbsindex m a subtype =
      some ⟨some g.1.signal, g.1.subtype, t, k⟩ := by
  have htypes : (m.managedTypes.getD [])[t]? = some g.1 := by
    rw [h.types, List.getElem?_map, hg]
    rfl
  unfold lxcPortGetTypeAndIndexByAbsindex
  cases hm : m.managedTypes with
  | none =>
    rw [hm] at htypes
    cases htypes
  | some types =>
    rw [hm, Option.getD_some] at htypes
    simp only [hbs, hfound, htypes, Option.bind_eq_bind, Option.bind_some]
    rfl

/-- Whatever the lookup reports, it has found in a block of a managed type, or it has found
    nothing in any block. -/
theorem lookup_cases (h : m.Represents gs names) {bs : List UintBlock} {a : Nat} {n : Nat}
    (hbs : m.toAbs = some (bs.map some ++ [none])) (hlen : bs.length = gs.length)
    (hn : m.sizeAt 0 = some n) {unset : Int} {r : PortByAbsindex}
    (hr : lxcPortGetTypeAndIndexByAbsindex m a unset = some r) :
    (findAbsindexInBlocks m a (bs.map some ++ [none]) 0 = some none ∧
      r = ⟨none, unset, -1, -1⟩) ∨
    ∃ t k g, findAbsindexInBlocks m a (bs.map some ++ [none]) 0 = some (some (t, k)) ∧
      gs[t]? = some g ∧ r = ⟨some g.1.signal, g.1.subtype, t, k⟩ := by
  cases hfound : findAbsindexInBlocks m a (bs.map some ++ [none]) 0 with
  | none =>
    unfold lxcPortGetTypeAndIndexByAbsindex at hr
    simp only [hbs, hfound, Option.bind_eq_bind, Option.bind_some, Option.bind_none] at hr
    cases hr
  | some found =>
    cases found with
    | none =>
      unfold lxcPortGetTypeAndIndexByAbsindex at hr
      simp only [hbs, hfound, Option.bind_eq_bind, Option.bind_some] at hr
      exact .inl ⟨rfl, (Option.some.inj hr).symm⟩
    | some place =>
      obtain ⟨t, k⟩ := place
      obtain ⟨p, arr, htp, harr, -, -⟩ := (findAbsindexInBlocks_some_iff hn bs 0 t k).mp hfound
      obtain rfl : t = p := by omega
      have hlt : t < gs.length := hlen ▸ (List.getElem?_eq_some_iff.mp harr).1
      have hg : gs[t]? = some gs[t] := List.getElem?_eq_getElem hlt
      refine .inr ⟨t, k, gs[t], rfl, hg, ?_⟩
      rw [h.lookup_of_found hbs hfound hg] at hr
      exact (Option.some.inj hr).symm

/-- A port in use is found at its place if and only if group 0 is longer than its index and the
    search runs over every block before its own. -/
theorem lookup_live_iff (h : m.Represents gs names) {type : Signal} {subtype : Int}
    {index a : Nat} (ha : (absList gs ⟨type, subtype⟩)[index]? = some a) (unset : Int) :
    (∃ r, lxcPortGetTypeAndIndexByAbsindex m a unset = some r ∧ r.type = some type ∧
        r.subtype = subtype ∧ r.index = index) ↔ m.Reaches type subtype index a := by
  have hindex := (List.getElem?_eq_some_iff.mp ha).1
  rcases h.findType_cases type subtype with ⟨-, hn⟩ | ⟨ti, hf, hg⟩
  · rw [absList_of_notMem hn] at hindex
    cases hindex
  have hti := (List.getElem?_eq_some_iff.mp hg).1
  rcases h.blocks_cases with ⟨-, rfl⟩ | ⟨bs, hbs, hlen, hblock⟩
  · cases hti
  have hsize := h.sizes 0 gs[0] (List.getElem?_eq_getElem (by omega))
  have hsome : ∀ t k, findAbsindexInBlocks m a (bs.map some ++ [none]) 0 = some (some (t, k)) ↔ _ :=
    findAbsindexInBlocks_some_iff hsize bs 0
  constructor
  · rintro ⟨r, hr, htype, hsubtype, hri⟩ ti' n hf' hn
    obtain rfl := Option.some.inj (hf.symm.trans hf')
    obtain rfl := Option.some.inj (hsize.symm.trans hn)
    rcases h.lookup_cases hbs hlen hsize hr with ⟨-, rfl⟩ | ⟨t, k, g, hfound, hgt, rfl⟩
    · cases htype
    · obtain ⟨p, arr, htp, harr, hk, hbefore⟩ := (hsome t k).mp hfound
      obtain rfl : t = p := by omega
      obtain rfl : k = index := Int.ofNat.inj hri
      -- no two entries have the same key
      have hkey : (gs.map Prod.fst)[t]? = (gs.map Prod.fst)[ti]? := by
        rw [List.getElem?_map, List.getElem?_map, hgt, hg]
        exact congrArg some (congrArg₂ FullSignalType.mk (Option.some.inj htype) hsubtype)
      have hlt : t < (gs.map Prod.fst).length := by
        rw [List.length_map]
        exact (List.getElem?_eq_some_iff.mp hgt).1
      obtain rfl := (List.getElem?_inj hlt h.keys).mp hkey
      have hcells := (findAbsindex_some_iff arr _ 0 k).mp hk
      refine ⟨by omega, fun i hi n' block hn' hb => ?_⟩
      obtain rfl := Option.some.inj (hsize.symm.trans hn')
      rw [hblock i] at hb
      exact hbefore i block hi hb
  · intro hcond
    obtain ⟨hlt, hpass⟩ := hcond ti _ hf hsize
    obtain ⟨b, hb, hfront, -⟩ := h.blockAt_eq hg
    rw [hblock ti] at hb
    have hcell : ∀ j, j ≤ index → b[j]? = (absList gs ⟨type, subtype⟩)[j]? := by
      intro j hj
      have hj' : j < (absList gs ⟨type, subtype⟩).length := by omega
      rw [List.prefix_iff_getElem?.mp hfront j hj', List.getElem?_eq_getElem hj']
    have hk : findAbsindex b a 0 gs[0].2.length = some (some index) := by
      refine (findAbsindex_some_iff b gs[0].2.length 0 index).mpr
        ⟨Nat.zero_le _, by omega, ?_, ?_⟩
      · rw [hcell index (Nat.le_refl _), ha]
      · intro j _ hj
        have hj' : j < (absList gs ⟨type, subtype⟩).length := by omega
        refine ⟨_, (hcell j (Nat.le_of_lt hj)).trans (List.getElem?_eq_getElem hj'), ?_⟩
        intro he
        have := (h.indexed.inj (he ▸ List.getElem?_eq_getElem hj') ha).2
        omega
    have hfound : findAbsindexInBlocks m a (bs.map some ++ [none]) 0 = some (some (ti, index)) := by
      refine (hsome ti index).mpr ⟨ti, b, by omega, hb, hk, fun q before hq hget => ?_⟩
      exact hpass q hq _ before hsize (by rw [hblock q, hget])
    exact ⟨_, h.lookup_of_found hbs hfound hg unset, rfl, rfl, rfl⟩

/-- The lookup reports that there is no such port if and only if the manager has an array of
    blocks and the search runs over all of them. -/
theorem lookup_null_iff (h : m.Represents gs names) (a : Nat) (unset : Int) :
    (∃ r, lxcPortGetTypeAndIndexByAbsindex m a unset = some r ∧ r.type = none ∧ r.index = -1) ↔
      m.toAbs ≠ none ∧ ∀ i, m.PassesBlock a i := by
  rcases h.blocks_cases with ⟨hnone, -⟩ | ⟨bs, hbs, hlen, hblock⟩
  · refine iff_of_false ?_ fun hcond => hcond.1 hnone
    rintro ⟨r, hr, -⟩
    rw [lxcPortGetTypeAndIndexByAbsindex, hnone] at hr
    cases hr
  have hsearch : (∃ r, lxcPortGetTypeAndIndexByAbsindex m a unset = some r ∧ r.type = none ∧
      r.index = -1) ↔ findAbsindexInBlocks m a (bs.map some ++ [none]) 0 = some none := by
    constructor
    · rintro ⟨r, hr, htype, -⟩
      cases hgs : gs with
      | nil =>
        rw [hgs, List.length_nil, List.length_eq_zero_iff] at hlen
        rw [hlen]
        rfl
      | cons g gs' =>
        have hsize := h.sizes 0 g (by rw [hgs]; rfl)
        rcases h.lookup_cases hbs hlen hsize hr with ⟨hfound, -⟩ | ⟨t, k, g', -, -, rfl⟩
        · exact hfound
        · cases htype
    · intro hfound
      refine ⟨⟨none, unset, -1, -1⟩, ?_, rfl, rfl⟩
      simp only [lxcPortGetTypeAndIndexByAbsindex, hbs, hfound, Option.bind_eq_bind,
        Option.bind_some]
      rfl
  rw [hsearch]
  have hsome : m.toAbs ≠ none := by simp [hbs]
  cases hgs : gs with
  | nil =>
    rw [hgs, List.length_nil, List.length_eq_zero_iff] at hlen
    subst hlen
    refine iff_of_true rfl ⟨hsome, fun i n block _ hb => ?_⟩
    rw [hblock i] at hb
    cases hb
  | cons g gs' =>
    have hsize := h.sizes 0 g (by rw [hgs]; rfl)
    rw [findAbsindexInBlocks_none_iff hsize]
    constructor
    · intro hall
      refine ⟨hsome, fun i n block hn hb => ?_⟩
      obtain rfl := Option.some.inj (hsize.symm.trans hn)
      rw [hblock i] at hb
      exact hall block (List.mem_of_getElem? hb)
    · rintro ⟨-, hpass⟩ arr harr
      obtain ⟨i, hi⟩ := List.mem_iff_getElem?.mp harr
      exact hpass i _ arr hsize (by rw [hblock i, hi])

/-- A name is looked up in the name table; one that is not there is found missing only while
    there is no table. -/
theorem lxcPortGetAbsindexByName_eq (h : m.Represents gs names) (name : String) :
    lxcPortGetAbsindexByName m name = if m.portNames = none then some (-1)
      else (names.findIdx? fun x => x.text = name).map fun i : Nat => (i : Int) := by
  have hfind : ∀ l : List PortName, findName name (l.map some ++ [none]) =
      (l.findIdx? fun x => x.text = name).map fun i : Nat => (i : Int) := by
    intro l
    induction l with
    | nil => rfl
    | cons x l ih =>
      rw [List.map_cons, List.cons_append, findName, List.findIdx?_cons]
      by_cases he : x.text = name
      · simp [he]
      · simp only [he, if_false, ih, decide_false, Bool.false_eq_true, Option.map_map]
        rfl
  unfold lxcPortGetAbsindexByName
  rcases h.packed with ⟨hnone, rfl⟩ | hsome
  · simp [hnone]
  · rw [hsome, if_neg (by simp)]
    exact hfind names

end PortManager.Represents

/-! ## Runs of additions -/

/-- The name an addition adds; `none` for a removal. -/
def PortOp.added : PortOp → Option String
  | .add _ name _ _ => some name
  | .remove .. => none

/-- After additions only, the name table holds the added names in their order, and the name table
    is allocated together with the array of blocks. -/
def PortManager.HoldsAdded (m : PortManager) (added : List String) : Prop :=
  (∃ gs, m.Represents gs (added.map .chars)) ∧ (m.portNames = none → m.toAbs = none)

section Additions

variable {m m' : PortManager}

theorem PortOp.step_added {added : List String} (h : m.HoldsAdded added) {op : PortOp}
    {name : String} (hop : op.added = some name) (hstep : op.step m = some m') :
    m'.HoldsAdded (added ++ [name]) := by
  obtain ⟨⟨gs, hrep⟩, -⟩ := h
  cases op with
  | remove type subtype index => cases hop
  | add junk s type subtype =>
    obtain rfl := Option.some.inj hop
    obtain ⟨m₁, gs', hadd, hrep', -, -⟩ :=
      lxcPortUncheckedAddNewPort_represents hrep junk s type subtype
    rw [PortOp.step, hadd] at hstep
    obtain rfl := Option.some.inj hstep
    have hempty : PortName.empty ∉ added.map .chars := by simp
    rw [placeName, if_neg hempty] at hrep'
    refine ⟨⟨gs', by rw [List.map_append]; exact hrep'⟩, fun hnone => ?_⟩
    rcases hrep'.packed with ⟨-, hnil⟩ | hsome
    · simp at hnil
    · rw [hnone] at hsome
      cases hsome

theorem run_added (ops : List PortOp) : ∀ (m : PortManager) (before names : List String),
    m.HoldsAdded before → ops.map PortOp.added = names.map some →
    Run.run PortOp.step m ops = some m' → m'.HoldsAdded (before ++ names) := by
  induction ops with
  | nil =>
    intro m before names h hnames hrun
    obtain rfl := List.map_eq_nil_iff.mp hnames.symm
    rw [List.append_nil]
    exact Option.some.inj hrun ▸ h
  | cons op ops ih =>
    intro m before names h hnames hrun
    obtain ⟨m₁, hstep, hrest⟩ := Option.bind_eq_some_iff.mp hrun
    cases names with
    | nil => cases hnames
    | cons name names =>
      obtain ⟨hop, hops⟩ := List.cons.inj hnames
      have := ih m₁ (before ++ [name]) names (PortOp.step_added h hop hstep) hops hrest
      rwa [List.append_assoc, List.singleton_append] at this

theorem label_iff {gs : Groups} {added : List String} (h : m.Represents gs (added.map .chars))
    (type : Signal) (subtype : Int) (index : Nat) (s : String) :
    lxcGenericGetPortLabel m type subtype index = some (some (.chars s)) ↔
      ∃ a, (absList gs ⟨type, subtype⟩)[index]? = some a ∧ added[a]? = some s := by
  rw [h.lxcGenericGetPortLabel_eq, Option.some.injEq, Option.bind_eq_some_iff]
  refine exists_congr fun a => and_congr_right fun _ => ?_
  simp

/-- Every added name is the name of a port. -/
theorem label_of_mem {gs : Groups} {added : List String}
    (h : m.Represents gs (added.map .chars)) {s : String} (hs : s ∈ added) :
    ∃ type subtype index, lxcGenericGetPortLabel m type subtype index =
      some (some (.chars s)) := by
  obtain ⟨a, ha⟩ := List.mem_iff_getElem?.mp hs
  obtain ⟨key, index, hkey⟩ := (h.indexed.live a).mpr ⟨s, by simp [ha]⟩
  exact ⟨key.signal, key.subtype, index, (label_iff h _ _ _ _).mpr ⟨a, hkey, ha⟩⟩

theorem findIdx?_text (added : List String) (s : String) :
    ((added.map PortName.chars).findIdx? fun x => x.text = s) =
      if s ∈ added then some (added.idxOf s) else none := by
  rw [List.findIdx?_map]
  show added.findIdx? (fun name => decide (name = s)) = _
  induction added with
  | nil => rfl
  | cons name added ih =>
    rw [List.findIdx?_cons]
    by_cases he : name = s
    · subst he
      simp
    · rw [ih]
      have hne : s ≠ name := Ne.symm he
      by_cases hmem : s ∈ added
      · simp [he, hmem, List.idxOf_cons_ne]
      · simp [he, hne, hmem]

end Additions

/-- After any additions of distinct names, by the lookup:
    * an absolute index in use is found at its port if and only if the search comes there, and a
      name in use is always found;
    * an absolute index not in use is reported missing if and only if the search runs over every
      block, and a name not in use only while there is no name table.
    No manager has both answers right for all indices and names not in use. -/
theorem reverse_lookups_iff {m₀ m : PortManager}
    (hm₀ : m₀ = .zeroed ∨ m₀ = lxcPortInitPortManagerFactory) {ops : List PortOp}
    {names : List String} (hadded : ops.map PortOp.added = names.map some)
    (hdistinct : names.Nodup) (hnonempty : "" ∉ names)
    (hrun : Run.run PortOp.step m₀ ops = some m) :
    (∀ type subtype index (a : Nat) s unset,
      lxcPortGetAbsindex m type subtype index = some (a : Int) →
      lxcGenericGetPortLabel m type subtype index = some (some (.chars s)) →
      ((∃ r, lxcPortGetTypeAndIndexByAbsindex m a unset = some r ∧ r.type = some type ∧
        r.subtype = subtype ∧ r.index = index) ↔ m.Reaches type subtype index a) ∧
      lxcPortGetAbsindexByName m s = some (a : Int)) ∧
    (∀ (a : Nat) unset,
      (∀ type subtype index, lxcPortGetAbsindex m type subtype index ≠ some (a : Int)) →
      ((∃ r, lxcPortGetTypeAndIndexByAbsindex m a unset = some r ∧ r.type = none ∧
        r.index = -1) ↔ m.toAbs ≠ none ∧ ∀ i, m.PassesBlock a i)) ∧
    (∀ s, (∀ type subtype index,
        lxcGenericGetPortLabel m type subtype index ≠ some (some (.chars s))) →
      (lxcPortGetAbsindexByName m s = some (-1) ↔ m.portNames = none)) ∧
    ¬ ((∀ (a : Nat) unset,
        (∀ type subtype index, lxcPortGetAbsindex m type subtype index ≠ some (a : Int)) →
        ∃ r, lxcPortGetTypeAndIndexByAbsindex m a unset = some r ∧ r.type = none ∧
          r.index = -1) ∧
      ∀ s, (∀ type subtype index,
          lxcGenericGetPortLabel m type subtype index ≠ some (some (.chars s))) →
        lxcPortGetAbsindexByName m s = some (-1)) := by
  have hinit : m₀.HoldsAdded [] := by
    rcases hm₀ with rfl | rfl
    · exact ⟨⟨[], represents_zeroed⟩, fun _ => rfl⟩
    · exact ⟨⟨[], represents_init⟩, fun hnone => by cases hnone⟩
  obtain ⟨⟨gs, hrep⟩, htable⟩ := run_added ops m₀ [] names hinit hadded hrun
  rw [List.nil_append] at hrep
  have hunused : ∀ s, (∀ type subtype index,
      lxcGenericGetPortLabel m type subtype index ≠ some (some (.chars s))) →
      (lxcPortGetAbsindexByName m s = some (-1) ↔ m.portNames = none) := by
    intro s hs
    have hmem : s ∉ names := by
      intro hmem
      obtain ⟨type, subtype, index, hlabel⟩ := label_of_mem hrep hmem
      exact hs type subtype index hlabel
    rw [hrep.lxcPortGetAbsindexByName_eq, findIdx?_text, if_neg hmem]
    by_cases hnone : m.portNames = none <;> simp [hnone]
  refine ⟨?_, ?_, hunused, ?_⟩
  · intro type subtype index a s unset ha hlabel
    rw [lxcPortGetAbsindex_eq_some_iff hrep] at ha
    refine ⟨hrep.lookup_live_iff ha unset, ?_⟩
    obtain ⟨a', ha', hs⟩ := (label_iff hrep _ _ _ _).mp hlabel
    obtain rfl := Option.some.inj (ha.symm.trans ha')
    have hsome : m.portNames ≠ none := by
      intro hnone
      rcases hrep.packed with ⟨-, hnil⟩ | hsome
      · rw [List.map_eq_nil_iff.mp hnil] at hs
        cases hs
      · rw [hnone] at hsome
        cases hsome
    have hmem : s ∈ names := List.mem_of_getElem? hs
    have hidx : names.idxOf s = a := by
      have hself : names[names.idxOf s]? = some s := List.getElem?_idxOf hmem
      exact (List.getElem?_inj (List.idxOf_lt_length_of_mem hmem) hdistinct).mp
        (hself.trans hs.symm)
    rw [hrep.lxcPortGetAbsindexByName_eq, findIdx?_text, if_pos hmem, if_neg hsome, hidx]
    rfl
  · intro a unset _
    exact hrep.lookup_null_iff a unset
  · rintro ⟨hindices, hnames⟩
    have hnone : m.portNames = none := by
      refine (hunused "" ?_).mp (hnames "" ?_)
      all_goals
        intro type subtype index hlabel
        obtain ⟨a, -, ha⟩ := (label_iff hrep _ _ _ _).mp hlabel
        exact hnonempty (List.mem_of_getElem? ha)
    have hnull := hindices names.length 0 fun type subtype index ha => by
      rw [lxcPortGetAbsindex_eq_some_iff hrep] at ha
      have := hrep.getElem?_lt ha
      rw [List.length_map] at this
      exact Nat.lt_irrefl _ this
    exact ((hrep.lookup_null_iff names.length 0).mp hnull).1 (htable hnone)

/-- The port of the second group is reached when group 0 is as long as its own. -/
theorem reverse_lookups_twoGroups : ∃ m, Run.run PortOp.step lxcPortInitPortManagerFactory
      [.add (fun _ => 0) "a" .bool 0, .add (fun _ => 0) "b" .int 0] = some m ∧
    (∃ r, lxcPortGetTypeAndIndexByAbsindex m 1 0 = some r ∧ r.type = some .int ∧ r.subtype = 0 ∧
      r.index = (0 : Nat)) ∧
    lxcPortGetAbsindexByName m "b" = some 1 := by
  have hrun : Run.run PortOp.step lxcPortInitPortManagerFactory
      [.add (fun _ => 0) "a" .bool 0, .add (fun _ => 0) "b" .int 0] = some _ := rfl
  have hadded : [PortOp.add (fun _ => 0) "a" .bool 0, .add (fun _ => 0) "b" .int 0].map
      PortOp.added = ["a", "b"].map some := rfl
  obtain ⟨hlive, -⟩ := reverse_lookups_iff (.inr rfl) hadded (by decide) (by decide) hrun
  obtain ⟨hindex, hname⟩ := hlive .int 0 0 1 "b" 0 rfl rfl
  refine ⟨_, hrun, hindex.mpr fun ti n hti hn => ?_, hname⟩
  obtain rfl := Option.some.inj hti
  obtain rfl := Option.some.inj hn
  refine ⟨by decide, fun i hi n' block hn' hb => ?_⟩
  obtain rfl : i = 0 := Nat.lt_one_iff.mp hi
  obtain rfl := Option.some.inj hn'
  obtain rfl := Option.some.inj hb
  exact ⟨by decide, by decide⟩

/-- The second port of the second group is not found when group 0 has one port. -/
theorem not_reverse_lookups :
    ¬ ∀ (m₀ m : PortManager) (ops : List PortOp) (names : List String),
      m₀ = lxcPortInitPortManagerFactory → ops.map PortOp.added = names.map some →
      names.Nodup → "" ∉ names → Run.run PortOp.step m₀ ops = some m →
      ∀ type subtype index (a : Nat) unset,
        lxcPortGetAbsindex m type subtype index = some (a : Int) →
        ∃ r, lxcPortGetTypeAndIndexByAbsindex m a unset = some r ∧ r.type = some type ∧
          r.subtype = subtype ∧ r.index = index := by
  intro h
  obtain ⟨r, hr, htype, -⟩ := h _ _ [.add (fun _ => 0) "a" .bool 0, .add (fun _ => 0) "b" .int 0,
    .add (fun _ => 0) "c" .int 0] ["a", "b", "c"] rfl rfl (by decide) (by decide) rfl .int 0 1 2 0
    rfl
  obtain rfl := Option.some.inj hr
  cases htype

end LogxControll
