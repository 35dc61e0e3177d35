/-
  The hash map refines a map from strings.

  `putFuel_spec`: a put stores its key alone, also when the table is rehashed for it, and a put that
  runs out of memory loses elements but changes none. It is an induction on the rehashings, whose one
  invariant is that the new table has no gaps (`Solid`). `Tidy` tables, in which elements were removed,
  stay tidy as long as no key is stored behind a gap.
-/
import LogxControll.Core.Hashmap
import LogxControll.Lib.Run

namespace LogxControll

open ProbeTable

variable {α : Type}

namespace HashmapMap

/-- Where the elements with a key may be. -/
def path (tableSize : ℕ) (key : String) : List ℕ :=
  linearPath tableSize MAX_CHAIN_LENGTH (hashmapHashInt tableSize key)

/-- What `hashmap_get` finds. -/
def toMap (m : HashmapMap α) (key : String) : Option α := (hashmapGet m key).2

/-- The elements in use. -/
def used (m : HashmapMap α) : ℕ := m.data.countP Option.isSome

/-- What `hashmap_put` does once it has an index. -/
def storeAt (m : HashmapMap α) (index : ℕ) (key : String) (value : α) : HashmapMap α :=
  { m with data := m.data.set index (some (key, value)), size := m.size + 1 }

/-- What `hashmap_remove` does once it has an index. -/
def removeAt (m : HashmapMap α) (index : ℕ) : HashmapMap α :=
  { m with data := m.data.set index none, size := m.size - 1 }

/-- The table is as long as it says, and not empty. -/
structure Sized (m : HashmapMap α) : Prop where
  length : m.data.length = m.tableSize
  pos : 0 < m.tableSize

/-- No key is stored twice. -/
structure Tidy (m : HashmapMap α) : Prop extends Sized m where
  found : Found (path m.tableSize) m.at_

/-- No gap precedes a key on its path either. -/
structure Solid (m : HashmapMap α) : Prop extends Sized m where
  compact : Compact (path m.tableSize) m.at_

theorem Solid.tidy {m : HashmapMap α} (h : m.Solid) : m.Tidy := ⟨h.toSized, h.compact.found⟩

/-! ## The loops search the path -/

section Loops

variable (m : HashmapMap α) (key : String)

theorem at_of_none {i : ℕ} (h : m.at_ i = none) : Free m.at_ i ∧ ¬ Has m.at_ key i :=
  ⟨h, fun ⟨a, ha⟩ => by rw [h] at ha; cases ha⟩

theorem at_of_some {i : ℕ} {k : String} {a : α} (h : m.at_ i = some (k, a)) :
    ¬ Free m.at_ i ∧ (Has m.at_ key i ↔ k = key) := by
  have hhas : Has m.at_ k i := ⟨a, h⟩
  exact ⟨hhas.not_free, fun hk => hhas.unique hk, fun he => he ▸ hhas⟩

theorem hashmapHashLoop_eq (n curr : ℕ) : hashmapHashLoop m key n curr =
    (linearPath m.tableSize n curr).find? fun i => decide (Free m.at_ i ∨ Has m.at_ key i) := by
  induction n generalizing curr with
  | zero => rfl
  | succ n ih =>
    rw [hashmapHashLoop, linearPath, ih]
    cases h : m.at_ curr with
    | none =>
      have hfree := (at_of_none m key h).1
      simp [hfree]
    | some e =>
      obtain ⟨k, a⟩ := e
      obtain ⟨hfree, hhas⟩ := at_of_some m key h
      simp only [List.find?_cons, hfree, hhas, false_or]
      by_cases hk : k = key <;> simp [hk]

theorem findKey_eq (n curr : ℕ) : findKey m key n curr =
    (linearPath m.tableSize n curr).find? fun i => decide (Has m.at_ key i) := by
  induction n generalizing curr with
  | zero => rfl
  | succ n ih =>
    rw [findKey, linearPath, ih]
    cases h : m.at_ curr with
    | none =>
      have hhas := (at_of_none m key h).2
      simp [hhas]
    | some e =>
      obtain ⟨k, a⟩ := e
      have hhas := (at_of_some m key h).2
      simp only [List.find?_cons, hhas]
      by_cases hk : k = key <;> simp [hk]

theorem hashmapHash_eq : hashmapHash m key =
    if m.size ≥ (m.tableSize / 2 : ℕ) then none else slotFor (path m.tableSize) m.at_ key := by
  unfold hashmapHash
  rw [hashmapHashLoop_eq]
  rfl

theorem slotFor_of_hashmapHash {index : ℕ} (h : hashmapHash m key = some index) :
    slotFor (path m.tableSize) m.at_ key = some index := by
  rw [hashmapHash_eq] at h
  split at h
  · cases h
  · exact h

theorem findKey_slotOf : findKey m key MAX_CHAIN_LENGTH (hashmapHashInt m.tableSize key) =
    slotOf (path m.tableSize) m.at_ key := findKey_eq m key _ _

theorem toMap_eq : m.toMap key = lookup (path m.tableSize) m.at_ key := by
  unfold toMap hashmapGet
  rw [findKey_slotOf]
  unfold lookup
  cases slotOf (path m.tableSize) m.at_ key <;> rfl

theorem hashmapGet_eq : hashmapGet m key =
    (if (m.toMap key).isSome then .ok else .missing, m.toMap key) := by
  refine Prod.ext ?_ rfl
  rw [toMap_eq]
  unfold hashmapGet lookup
  rw [findKey_slotOf]
  cases h : slotOf (path m.tableSize) m.at_ key with
  | none => rfl
  | some i =>
    obtain ⟨a, ha⟩ := has_of_slotOf h
    simp [ha]

end Loops

/-! ## One element -/

section Element

variable {m : HashmapMap α} {key : String} {value : α} {index : ℕ}

theorem Sized.lt_of_mem_path (h : m.Sized) {i : ℕ} (hi : i ∈ path m.tableSize key) :
    i < m.data.length := by
  rw [h.length]
  exact lt_of_mem_linearPath (Nat.mod_lt _ h.pos) hi

theorem at_set {i : ℕ} (hi : i < m.data.length) (e : Option (String × α)) (size : Int) :
    HashmapMap.at_ { m with data := m.data.set i e, size := size } = Function.update m.at_ i e := by
  funext j
  unfold at_
  by_cases hj : j = i
  · subst hj
    rw [Function.update_self, List.getD_eq_getElem?_getD, List.getElem?_set_self hi]
    rfl
  · rw [Function.update_of_ne hj, List.getD_eq_getElem?_getD, List.getD_eq_getElem?_getD,
      List.getElem?_set_ne (Ne.symm hj)]

theorem Sized.set (h : m.Sized) (i : ℕ) (e : Option (String × α)) (size : Int) :
    Sized { m with data := m.data.set i e, size := size } :=
  ⟨(List.length_set ..).trans h.length, h.pos⟩

section Store

variable (hm : m.Sized) (h : slotFor (path m.tableSize) m.at_ key = some index)
include hm h

theorem at_storeAt : (m.storeAt index key value).at_ = store m.at_ index key value :=
  at_set (hm.lt_of_mem_path (mem_of_slotFor h)) _ _

theorem toMap_storeAt :
    (m.storeAt index key value).toMap = Function.update m.toMap key (some value) := by
  have hlookup : m.toMap = lookup (path m.tableSize) m.at_ := funext fun k => toMap_eq m k
  funext k
  rw [toMap_eq, at_storeAt hm h, hlookup]
  exact congrFun (lookup_store h) k

end Store

theorem Solid.storeAt (hm : m.Solid) (h : slotFor (path m.tableSize) m.at_ key = some index) :
    (m.storeAt index key value).Solid := by
  refine ⟨hm.toSized.set _ _ _, ?_⟩
  rw [at_storeAt hm.toSized h]
  exact hm.compact.store h

theorem Tidy.storeAt (hm : m.Tidy) (h : slotFor (path m.tableSize) m.at_ key = some index)
    (hgap : ∀ j, Has m.at_ key j → j = index) : (m.storeAt index key value).Tidy := by
  refine ⟨hm.toSized.set _ _ _, ?_⟩
  rw [at_storeAt hm.toSized h]
  exact hm.found.store h hgap

theorem at_removeAt (hm : m.Sized) (h : slotOf (path m.tableSize) m.at_ key = some index) :
    (m.removeAt index).at_ = remove m.at_ index :=
  at_set (hm.lt_of_mem_path (mem_of_slotOf h)) _ _

theorem Tidy.removeAt (hm : m.Tidy) (h : slotOf (path m.tableSize) m.at_ key = some index) :
    (m.removeAt index).Tidy := by
  refine ⟨hm.toSized.set _ _ _, ?_⟩
  rw [at_removeAt hm.toSized h]
  exact hm.found.remove

theorem Tidy.toMap_removeAt (hm : m.Tidy) (h : slotOf (path m.tableSize) m.at_ key = some index) :
    (m.removeAt index).toMap = Function.update m.toMap key none := by
  have hlookup : m.toMap = lookup (path m.tableSize) m.at_ := funext fun k => toMap_eq m k
  funext k
  rw [toMap_eq, at_removeAt hm.toSized h, hlookup]
  exact congrFun (hm.found.lookup_remove h) k

theorem at_eq_getElem {i : ℕ} (hi : i < m.data.length) : m.at_ i = m.data[i] := by
  rw [at_, List.getD_eq_getElem?_getD, List.getElem?_eq_getElem hi]
  rfl

/-- One more element is in use, unless the key was there. -/
theorem used_storeAt (hm : m.Sized) (h : slotFor (path m.tableSize) m.at_ key = some index) :
    (m.storeAt index key value).used = m.used + if Free m.at_ index then 1 else 0 := by
  have hi := hm.lt_of_mem_path (mem_of_slotFor h)
  have hpos : m.data[index].isSome → 0 < m.used := fun hs =>
    List.countP_pos_iff.mpr ⟨_, List.getElem_mem hi, hs⟩
  have hfree : Free m.at_ index ↔ m.data[index] = none := by rw [Free, at_eq_getElem hi]
  unfold used storeAt at *
  rw [List.countP_set hi, if_congr hfree rfl rfl]
  cases he : m.data[index] with
  | none => simp
  | some e =>
    rw [he] at hpos
    have := hpos rfl
    simp
    omega

theorem used_removeAt (hm : m.Sized) (h : slotOf (path m.tableSize) m.at_ key = some index) :
    (m.removeAt index).used + 1 = m.used := by
  have hi := hm.lt_of_mem_path (mem_of_slotOf h)
  obtain ⟨a, ha⟩ := has_of_slotOf h
  rw [at_eq_getElem hi] at ha
  have hpos : 0 < m.used := List.countP_pos_iff.mpr ⟨_, List.getElem_mem hi, by rw [ha]; rfl⟩
  unfold used removeAt at *
  rw [List.countP_set hi, ha]
  simp
  omega

/-- The slot for a key is in use exactly when the key is there, as long as no gap precedes it. -/
theorem free_iff_toMap (h : slotFor (path m.tableSize) m.at_ key = some index)
    (hgap : ∀ j, Has m.at_ key j → j = index) : Free m.at_ index ↔ m.toMap key = none := by
  rw [toMap_eq, lookup_eq_none_iff]
  constructor
  · intro hfree j _ hhas
    obtain rfl := hgap j hhas
    exact hhas.not_free hfree
  · intro hnone
    rcases (slotFor_eq_some_iff.mp h).1 with hf | hh
    · exact hf
    · exact absurd hh (hnone index (mem_of_slotFor h))

end Element

/-! ## The elements of a table -/

/-- The keys and the data in use, in the order of their indices. -/
def entries (m : HashmapMap α) : List (String × α) := m.data.filterMap id

theorem length_entries (m : HashmapMap α) : m.entries.length = m.used :=
  List.length_filterMap_eq_countP

theorem mem_entries_iff {m : HashmapMap α} {e : String × α} :
    e ∈ m.entries ↔ ∃ i, m.at_ i = some e := by
  unfold entries at_
  simp only [List.mem_filterMap, id_eq, List.getD_eq_getElem?_getD]
  constructor
  · rintro ⟨o, ho, rfl⟩
    obtain ⟨i, hi⟩ := List.mem_iff_getElem?.mp ho
    exact ⟨i, by rw [hi]; rfl⟩
  · rintro ⟨i, hi⟩
    cases ho : m.data[i]? with
    | none =>
      rw [ho] at hi
      cases hi
    | some o =>
      rw [ho] at hi
      exact ⟨o, List.mem_of_getElem? ho, hi⟩

theorem Tidy.mem_entries_iff {m : HashmapMap α} (h : m.Tidy) {key : String} {value : α} :
    (key, value) ∈ m.entries ↔ m.toMap key = some value := by
  rw [HashmapMap.mem_entries_iff, toMap_eq, h.found.lookup_eq_some_iff]

theorem Tidy.nodup_keys {m : HashmapMap α} (h : m.Tidy) : (m.entries.map Prod.fst).Nodup := by
  unfold entries
  rw [List.map_filterMap, List.Nodup, List.pairwise_filterMap, List.pairwise_iff_getElem]
  intro i j hi hj hlt k hk k' hk' he
  obtain ⟨⟨_, a⟩, ha, rfl⟩ := Option.map_eq_some_iff.mp hk
  obtain ⟨⟨_, b⟩, hb, rfl⟩ := Option.map_eq_some_iff.mp hk'
  rw [id_eq, ← at_eq_getElem] at ha hb
  cases he
  exact absurd (h.found.slot_unique ⟨a, ha⟩ ⟨b, hb⟩) (Nat.ne_of_lt hlt)

/-! ## Putting -/

/-- The length is the number of elements in use. -/
def Exact (m : HashmapMap α) : Prop := m.size = m.used

/-- The length is at least the number of elements in use. -/
def Counted (m : HashmapMap α) : Prop := m.used ≤ m.size

/-- What a put leaves behind: `r` is its status and the table. -/
structure PutSpec (Inv : HashmapMap α → Prop) (m : HashmapMap α) (key : String) (value : α)
    (r : MapStatus × HashmapMap α) : Prop where
  inv : Inv r.2
  grows : m.tableSize ≤ r.2.tableSize
  status : r.1 = .ok ∨ r.1 = .omem
  stored : r.1 = .ok → r.2.toMap = Function.update m.toMap key (some value)
  kept : r.1 = .omem → ∀ k a, r.2.toMap k = some a → m.toMap k = some a
  counted : m.Counted → r.2.Counted
  exact : m.Exact → (r.1 = .ok → m.toMap key = none) → r.2.Exact
  overwrites : r.1 = .ok → m.Counted → m.toMap key ≠ none → ¬ r.2.Exact

section Put

variable {m : HashmapMap α} {key : String} {value : α} {Inv : HashmapMap α → Prop}

theorem storeAt_spec {index : ℕ} (hm : m.Sized)
    (h : slotFor (path m.tableSize) m.at_ key = some index)
    (hgap : ∀ j, Has m.at_ key j → j = index) (hinv : Inv (m.storeAt index key value)) :
    PutSpec Inv m key value (.ok, m.storeAt index key value) where
  inv := hinv
  grows := le_rfl
  status := .inl rfl
  stored := fun _ => toMap_storeAt hm h
  kept := fun he => by cases he
  counted := by
    intro hc
    unfold Counted at *
    rw [used_storeAt hm h]
    show _ ≤ m.size + 1
    split <;> omega
  exact := by
    intro hx hnone
    unfold Exact at *
    rw [used_storeAt hm h, if_pos ((free_iff_toMap h hgap).mpr (hnone rfl))]
    show m.size + 1 = _
    omega
  overwrites := by
    intro _ hc hsome hx
    unfold Exact Counted at *
    rw [used_storeAt hm h, if_neg fun hf => hsome ((free_iff_toMap h hgap).mp hf)] at hx
    have hx' : m.size + 1 = (m.used + 0 : ℕ) := hx
    omega

/-- A put that fails at once. -/
theorem PutSpec.refused (hinv : Inv m) : PutSpec Inv m key value (.omem, m) where
  inv := hinv
  grows := le_rfl
  status := .inr rfl
  stored := fun he => by cases he
  kept := fun _ _ _ h => h
  counted := id
  exact := fun hx _ => hx
  overwrites := fun he => by cases he

/-! ## Rehashing -/

/-- A table of zeroed elements. -/
def emptyTable (tableSize : ℕ) : HashmapMap α :=
  { tableSize := tableSize, size := 0, data := List.replicate tableSize none }

theorem at_emptyTable (n : ℕ) : (emptyTable n : HashmapMap α).at_ = fun _ => none := by
  funext i
  unfold at_ emptyTable
  rw [List.getD_eq_getElem?_getD, List.getElem?_replicate]
  split <;> rfl

theorem emptyTable_solid {n : ℕ} (hn : 0 < n) : (emptyTable n : HashmapMap α).Solid := by
  refine ⟨⟨List.length_replicate .., hn⟩, ?_⟩
  rw [at_emptyTable]
  exact compact_empty

theorem toMap_emptyTable (n : ℕ) : (emptyTable n : HashmapMap α).toMap = fun _ => none := by
  funext k
  rw [toMap_eq, at_emptyTable, lookup_eq_none_iff]
  rintro i - ⟨a, ha⟩
  cases ha

theorem emptyTable_exact (n : ℕ) : (emptyTable n : HashmapMap α).Exact := by
  unfold Exact used emptyTable
  rw [List.countP_replicate]
  rfl

/-- Storing the elements of a list one after another. -/
structure ElementsSpec (es : List (String × α)) (m : HashmapMap α)
    (r : MapStatus × HashmapMap α) : Prop where
  solid : r.2.Solid
  grows : m.tableSize ≤ r.2.tableSize
  status : r.1 = .ok ∨ r.1 = .omem
  stored : r.1 = .ok → r.2.toMap = ProbeTable.stored m.toMap es
  kept : ∀ k a, r.2.toMap k = some a → m.toMap k = some a ∨ (k, a) ∈ es
  counted : m.Counted → r.2.Counted
  exact : m.Exact → (es.map Prod.fst).Nodup →
    (∀ k ∈ es.map Prod.fst, m.toMap k = none) → r.2.Exact

variable {put : HashmapMap α → String → α → MapStatus × HashmapMap α}

/-- The first element could not be stored. -/
theorem ElementsSpec.refused {r : MapStatus × HashmapMap α} {e : String × α}
    {es : List (String × α)} (h : PutSpec Solid m e.1 e.2 r) (hr : r.1 = .omem) :
    ElementsSpec (e :: es) m r where
  solid := h.inv
  grows := h.grows
  status := h.status
  stored := fun he => by rw [hr] at he; cases he
  kept := fun k a hk => .inl (h.kept hr k a hk)
  counted := h.counted
  exact := fun hx _ _ => h.exact hx fun he => by rw [hr] at he; cases he

/-- The first element was stored. -/
theorem ElementsSpec.cons {r₁ r : MapStatus × HashmapMap α} {e : String × α}
    {es : List (String × α)} (h : PutSpec Solid m e.1 e.2 r₁) (hr : r₁.1 = .ok)
    (hes : ElementsSpec es r₁.2 r) : ElementsSpec (e :: es) m r where
  solid := hes.solid
  grows := h.grows.trans hes.grows
  status := hes.status
  stored := fun he => by rw [hes.stored he, h.stored hr, stored_cons]
  kept := by
    intro k a hk
    rcases hes.kept k a hk with hk | hk
    · rw [h.stored hr] at hk
      by_cases he : k = e.1
      · subst he
        rw [Function.update_self, Option.some.injEq] at hk
        exact .inr (List.mem_cons.mpr (.inl (Prod.ext rfl hk.symm)))
      · rw [Function.update_of_ne he] at hk
        exact .inl hk
    · exact .inr (List.mem_cons_of_mem _ hk)
  counted := fun hc => hes.counted (h.counted hc)
  exact := by
    intro hx hnodup hnew
    rw [List.map_cons, List.nodup_cons] at hnodup
    refine hes.exact (h.exact hx fun _ => hnew e.1 List.mem_cons_self) hnodup.2 fun k hk => ?_
    have hne : k ≠ e.1 := by
      rintro rfl
      exact hnodup.1 hk
    rw [h.stored hr, Function.update_of_ne hne]
    exact hnew k (List.mem_cons_of_mem _ hk)

theorem rehashElements_spec
    (hput : ∀ m key value, Solid m → PutSpec Solid m key value (put m key value))
    (es : List (Option (String × α))) :
    ∀ m : HashmapMap α, m.Solid → ElementsSpec (es.filterMap id) m (rehashElements put es m) := by
  induction es with
  | nil =>
    intro m hm
    exact ⟨hm, le_rfl, .inl rfl, fun _ => rfl, fun _ _ h => .inl h, id, fun hx _ _ => hx⟩
  | cons o es ih =>
    intro m hm
    cases o with
    | none => exact ih m hm
    | some e =>
      obtain ⟨k, a⟩ := e
      have h := hput m k a hm
      show ElementsSpec ((k, a) :: es.filterMap id) m _
      rw [rehashElements]
      rcases hr : put m k a with ⟨status, m₁⟩
      rw [hr] at h
      rcases h.status with he | he
      · cases he
        exact .cons (e := (k, a)) h rfl (ih m₁ h.inv)
      · cases he
        exact .refused (e := (k, a)) h rfl

/-- A rehashing leaves the same map in a table without gaps, or it runs out of memory. -/
structure RehashSpec (Inv : HashmapMap α → Prop) (m : HashmapMap α)
    (r : MapStatus × HashmapMap α) : Prop where
  status : r.1 = .ok ∨ r.1 = .omem
  grows : m.tableSize ≤ r.2.tableSize
  solid : r.1 = .ok → r.2.Solid
  same : r.1 = .ok → r.2.toMap = m.toMap
  exact : r.1 = .ok ∨ m.Exact → r.2.Exact
  inv : r.1 = .omem → Inv r.2
  kept : ∀ k a, r.2.toMap k = some a → m.toMap k = some a
  counted : m.Counted → r.2.Counted

theorem hashmapRehash_spec {limit : ℕ} (hm : m.Tidy) (hinv : Inv m)
    (hsolid : ∀ m : HashmapMap α, m.Solid → Inv m)
    (hput : ∀ m key value, Solid m → PutSpec Solid m key value (put m key value)) :
    RehashSpec Inv m (hashmapRehash limit put m) := by
  unfold hashmapRehash
  split
  · have hpos := hm.pos
    have h := rehashElements_spec hput m.data (emptyTable (2 * m.tableSize))
      (emptyTable_solid (by omega))
    have hmap : ∀ k a, (k, a) ∈ m.data.filterMap id ↔ m.toMap k = some a := fun k a =>
      hm.mem_entries_iff
    refine ⟨h.status, ?_, fun _ => h.solid, ?_, ?_, fun _ => hsolid _ h.solid, ?_, fun _ =>
      h.counted (emptyTable_exact _).ge⟩
    · have hgrows : 2 * m.tableSize ≤ _ := h.grows
      exact le_trans (by omega) hgrows
    · intro he
      funext k
      refine (congrFun (h.stored he) k).trans (Option.ext fun a => ?_)
      rw [toMap_emptyTable]
      exact (stored_eq_some_iff hm.nodup_keys).trans (hmap k a)
    · intro _
      refine h.exact (emptyTable_exact _) hm.nodup_keys fun k _ => ?_
      rw [toMap_emptyTable]
    · intro k a hk
      rcases h.kept k a hk with hk | hk
      · rw [toMap_emptyTable] at hk
        cases hk
      · exact (hmap k a).mp hk
  · refine ⟨.inr rfl, le_rfl, (nomatch ·), (nomatch ·), ?_, fun _ => hinv, fun _ _ h => h, id⟩
    rintro (he | hx)
    · cases he
    · exact hx

/-! ## Both together -/

theorem putFuel_succ_spec {limit fuel : ℕ} (hm : m.Tidy) (hinv : Inv m)
    (hsolid : ∀ m : HashmapMap α, m.Solid → Inv m)
    (hstore : ∀ index, hashmapHash m key = some index →
      (∀ j, Has m.at_ key j → j = index) ∧ Inv (m.storeAt index key value))
    (ih : ∀ (m : HashmapMap α) key value, m.Solid →
      PutSpec Solid m key value (putFuel limit fuel m key value)) :
    PutSpec Inv m key value (putFuel limit (fuel + 1) m key value) := by
  rw [putFuel]
  cases hindex : hashmapHash m key with
  | some index =>
    obtain ⟨hgap, hi⟩ := hstore index hindex
    exact storeAt_spec hm.toSized (slotFor_of_hashmapHash m key hindex) hgap hi
  | none =>
    have h : RehashSpec Inv m (hashmapRehash limit (putFuel limit fuel) m) :=
      hashmapRehash_spec hm hinv hsolid ih
    rcases hr : hashmapRehash limit (putFuel limit fuel) m with ⟨status, m₁⟩
    rw [hr] at h
    rcases h.status with he | he
    · cases he
      have hp := ih m₁ key value (h.solid rfl)
      have hsame : m₁.toMap = m.toMap := h.same rfl
      refine ⟨hsolid _ hp.inv, h.grows.trans hp.grows, hp.status, fun he => ?_, fun he k a hk => ?_,
        fun hc => hp.counted (h.counted hc), fun _ hnone => ?_, fun he _ hsome => ?_⟩
      · rw [← hsame]
        exact hp.stored he
      · exact h.kept k a (hp.kept he k a hk)
      · exact hp.exact (h.exact (.inl rfl)) (hsame ▸ hnone)
      · exact hp.overwrites he (h.exact (.inl rfl)).ge (hsame ▸ hsome)
    · cases he
      exact ⟨h.inv rfl, h.grows, .inr rfl, (nomatch ·), fun _ => h.kept, h.counted,
        fun hx _ => h.exact (.inr hx), (nomatch ·)⟩

theorem putFuel_solid (limit fuel : ℕ) : ∀ (m : HashmapMap α) (key : String) (value : α), m.Solid →
    PutSpec Solid m key value (putFuel limit fuel m key value) := by
  induction fuel with
  | zero => exact fun m key value hm => .refused hm
  | succ fuel ih =>
    intro m key value hm
    refine putFuel_succ_spec hm.tidy hm (fun _ h => h) (fun index hindex => ?_) ih
    have hslot := slotFor_of_hashmapHash m key hindex
    refine ⟨fun j hj => ?_, hm.storeAt hslot⟩
    exact Option.some.inj ((hm.compact j key hj).symm.trans hslot)

/-- No element with the key lies behind a gap that the key would be stored in. -/
def Careful (m : HashmapMap α) (key : String) : Prop :=
  ∀ index, hashmapHash m key = some index → ∀ j, Has m.at_ key j → j = index

theorem putFuel_tidy (limit fuel : ℕ) (hm : m.Tidy) (hkey : m.Careful key) :
    PutSpec Tidy m key value (putFuel limit fuel m key value) := by
  cases fuel with
  | zero => exact .refused hm
  | succ fuel =>
    refine putFuel_succ_spec hm hm (fun _ h => h.tidy) (fun index hindex => ?_)
      (putFuel_solid limit fuel)
    exact ⟨hkey index hindex,
      hm.storeAt (slotFor_of_hashmapHash m key hindex) (hkey index hindex)⟩

theorem Solid.careful (hm : m.Solid) : m.Careful key := by
  intro index hindex j hj
  exact Option.some.inj ((hm.compact j key hj).symm.trans (slotFor_of_hashmapHash m key hindex))

theorem Tidy.careful_of_absent (hm : m.Tidy) (h : m.toMap key = none) : m.Careful key := by
  intro index _ j hj
  rw [toMap_eq, lookup_eq_none_iff] at h
  exact absurd hj (h j (mem_of_slotOf (hm.found j key hj)))

end Put

/-! ## The depth of the calls -/

section Depth

variable {put put' : HashmapMap α → String → α → MapStatus × HashmapMap α} {m₀ : HashmapMap α}

/-- Two ways to put that agree on tables of some size on, and do not shrink them. -/
theorem rehashElements_congr {n : ℕ} (hput : ∀ m key value, n ≤ m.tableSize →
      put m key value = put' m key value ∧ n ≤ (put' m key value).2.tableSize)
    (es : List (Option (String × α))) :
    ∀ m : HashmapMap α, n ≤ m.tableSize → rehashElements put es m = rehashElements put' es m ∧
      n ≤ (rehashElements put' es m).2.tableSize := by
  induction es with
  | nil => exact fun m hm => ⟨rfl, hm⟩
  | cons o es ih =>
    intro m hm
    cases o with
    | none => exact ih m hm
    | some e =>
      obtain ⟨heq, hgrows⟩ := hput m e.1 e.2 hm
      simp only [rehashElements]
      rw [heq]
      rcases hr : put' m e.1 e.2 with ⟨status, m₁⟩
      rw [hr] at hgrows
      cases status with
      | ok => exact ih m₁ hgrows
      | omem => exact ⟨rfl, hgrows⟩
      | missing => exact ⟨rfl, hgrows⟩

/-- Both rehash to the same table, at least doubled, or neither has the memory for it. -/
theorem hashmapRehash_congr (limit : ℕ)
    (put put' : HashmapMap α → String → α → MapStatus × HashmapMap α)
    (hput : ∀ m key value, 2 * m₀.tableSize ≤ m.tableSize →
      put m key value = put' m key value ∧ 2 * m₀.tableSize ≤ (put' m key value).2.tableSize) :
    hashmapRehash limit put m₀ = hashmapRehash limit put' m₀ ∧
      (hashmapRehash limit put' m₀ = (.omem, m₀) ∨
        2 * m₀.tableSize ≤ limit ∧ 2 * m₀.tableSize ≤ (hashmapRehash limit put' m₀).2.tableSize) := by
  unfold hashmapRehash
  by_cases hlimit : 2 * m₀.tableSize ≤ limit
  · rw [if_pos hlimit, if_pos hlimit]
    obtain ⟨heq, hgrows⟩ := rehashElements_congr hput m₀.data (emptyTable (2 * m₀.tableSize)) le_rfl
    exact ⟨heq, .inr ⟨hlimit, hgrows⟩⟩
  · rw [if_neg hlimit, if_neg hlimit]
    exact ⟨rfl, .inl rfl⟩

theorem putFuel_grows (limit fuel : ℕ) : ∀ (n : ℕ) (m : HashmapMap α) (key : String) (value : α),
    n ≤ m.tableSize → n ≤ (putFuel limit fuel m key value).2.tableSize := by
  induction fuel with
  | zero => exact fun n m key value h => h
  | succ fuel ih =>
    intro n m key value hm
    rw [putFuel]
    cases hashmapHash m key with
    | some index => exact hm
    | none =>
      obtain ⟨-, hcase⟩ := hashmapRehash_congr limit (putFuel limit fuel) (putFuel limit fuel)
        fun m' k v h => ⟨rfl, ih (2 * m.tableSize) m' k v h⟩
      dsimp only
      rcases hr : hashmapRehash limit (putFuel limit fuel) m with ⟨status, m₁⟩
      have hsize : n ≤ m₁.tableSize := by
        rw [hr] at hcase
        rcases hcase with he | ⟨-, hle⟩
        · cases he
          exact hm
        · exact le_trans (by omega) hle
      cases status with
      | omem => exact hsize
      | ok => exact ih n m₁ key value hsize
      | missing => exact ih n m₁ key value hsize

/-- Once a table of the size reached after `fuel` doublings is out of reach, more fuel is not used. -/
theorem putFuel_succ (limit fuel : ℕ) : ∀ (m : HashmapMap α) (key : String) (value : α),
    limit < m.tableSize * 2 ^ fuel →
    putFuel limit (fuel + 2) m key value = putFuel limit (fuel + 1) m key value := by
  induction fuel with
  | zero =>
    intro m key value hlimit
    rw [putFuel, putFuel]
    cases hashmapHash m key with
    | some index => rfl
    | none =>
      have hfull : ∀ put, hashmapRehash limit put m = (.omem, m) := fun put => if_neg (by omega)
      dsimp only
      rw [hfull, hfull]
  | succ fuel ih =>
    intro m key value hlimit
    rw [putFuel, putFuel]
    cases hashmapHash m key with
    | some index => rfl
    | none =>
      have hreach : ∀ m' : HashmapMap α, 2 * m.tableSize ≤ m'.tableSize →
          limit < m'.tableSize * 2 ^ fuel := by
        intro m' h
        calc limit < m.tableSize * 2 ^ (fuel + 1) := hlimit
          _ = 2 * m.tableSize * 2 ^ fuel := by
            rw [Nat.pow_succ, Nat.mul_comm 2, Nat.mul_comm (2 ^ fuel), Nat.mul_assoc]
          _ ≤ m'.tableSize * 2 ^ fuel := Nat.mul_le_mul_right _ h
      obtain ⟨heq, hcase⟩ := hashmapRehash_congr limit (putFuel limit (fuel + 2))
        (putFuel limit (fuel + 1)) fun m' k v h =>
          ⟨ih m' k v (hreach m' h), putFuel_grows limit (fuel + 1) (2 * m.tableSize) m' k v h⟩
      dsimp only
      rw [heq]
      rcases hr : hashmapRehash limit (putFuel limit (fuel + 1)) m with ⟨status, m₁⟩
      rw [hr] at hcase
      rcases hcase with he | ⟨-, hle⟩
      · cases he
        rfl
      · cases status with
        | omem => rfl
        | ok => exact ih m₁ key value (hreach m₁ hle)
        | missing => exact ih m₁ key value (hreach m₁ hle)

/-- The depth that `hashmapPut` allows is enough: more would not change its result. -/
theorem hashmapPut_eq_putFuel (limit : Fin (2 ^ 31)) {m : HashmapMap α} (hm : 0 < m.tableSize)
    (key : String) (value : α) (n : ℕ) :
    putFuel limit (limit + 1 + n) m key value = hashmapPut limit m key value := by
  induction n with
  | zero => rfl
  | succ n ih =>
    have hlt : (limit : ℕ) < m.tableSize * 2 ^ (limit + n : ℕ) :=
      calc (limit : ℕ) < 2 ^ (limit : ℕ) := Nat.lt_two_pow_self
        _ ≤ 2 ^ (limit + n : ℕ) := Nat.pow_le_pow_right Nat.two_pos (Nat.le_add_right _ _)
        _ ≤ m.tableSize * 2 ^ (limit + n : ℕ) := Nat.le_mul_of_pos_left _ hm
    rw [← ih, show (limit + 1 + (n + 1) : ℕ) = limit + n + 2 by omega, putFuel_succ _ _ _ _ _ hlt,
      show (limit + n + 1 : ℕ) = limit + 1 + n by omega]

end Depth

end HashmapMap

end LogxControll
