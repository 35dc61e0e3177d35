/-
  Runs of `hashmap_put`, `hashmap_get` and `hashmap_remove` on a new map.

  Without `hashmap_remove` the map is a map (`hashmap_refines_map`). With it, every key can be taken
  out exactly as long as no put stores a key behind a gap (`hashmap_remove_takes_out_iff`), and the
  number of elements is the number of keys as long as no put overwrites a key
  (`hashmap_length_iff`). More than eight keys with one CRC do not fit
  (`hashmap_at_most_eight`).
-/
import LogxControll.Core.HashmapRefinement
import Mathlib.Data.Set.Card

namespace LogxControll

open ProbeTable HashmapMap

variable {α : Type}

/-- A call of the map. -/
inductive HashmapOp (α : Type) where
  | put (key : String) (value : α)
  | get (key : String)
  | remove (key : String)
  deriving Repr, DecidableEq

namespace HashmapOp

/-- Whether a call removes. -/
def isRemove : HashmapOp α → Bool
  | .remove _ => true
  | _ => false

/-- The status, what `hashmap_get` stores through `arg`, and the map afterwards. -/
def call (limit : Fin (2 ^ 31)) (m : HashmapMap α) :
    HashmapOp α → (MapStatus × Option α) × HashmapMap α
  | .put key value => (((hashmapPut limit m key value).1, none), (hashmapPut limit m key value).2)
  | .get key => (hashmapGet m key, m)
  | .remove key => (((hashmapRemove m key).1, none), (hashmapRemove m key).2)

/-- The map after a call; every call returns. -/
def step (limit : Fin (2 ^ 31)) (m : HashmapMap α) (op : HashmapOp α) : Option (HashmapMap α) :=
  some (op.call limit m).2

/-- How a map from strings answers, and what becomes of it. A put that runs out of memory may lose
    elements. -/
def Spec (f : String → Option α) (answer : MapStatus × Option α) (f' : String → Option α) :
    HashmapOp α → Prop
  | .put key value =>
    (answer.1 = .ok ∧ f' = Function.update f key (some value)) ∨
      (answer.1 = .omem ∧ ∀ k a, f' k = some a → f k = some a)
  | .get key => answer = (if (f key).isSome then .ok else .missing, f key) ∧ f' = f
  | .remove key =>
    answer.1 = (if (f key).isSome then .ok else .missing) ∧ f' = Function.update f key none

/-- A call that answers as a map from strings does, and leaves what that map would be. -/
def Answers (limit : Fin (2 ^ 31)) (m : HashmapMap α) (op : HashmapOp α) : Prop :=
  op.Spec m.toMap (op.call limit m).1 (op.call limit m).2.toMap

/-- No key is stored behind a gap while it is stored elsewhere. -/
def Careful (m : HashmapMap α) : HashmapOp α → Prop
  | .put key _ => m.Careful key
  | _ => True

end HashmapOp

open HashmapOp

theorem hashmapNew_solid : (hashmapNew : HashmapMap α).Solid := emptyTable_solid (by decide)

theorem hashmapNew_exact : (hashmapNew : HashmapMap α).Exact := emptyTable_exact _

theorem hashmapRemove_of_slotOf {m : HashmapMap α} {key : String} {i : ℕ}
    (h : slotOf (path m.tableSize) m.at_ key = some i) :
    hashmapRemove m key = (.ok, m.removeAt i) := by
  unfold hashmapRemove
  rw [findKey_slotOf, h]
  rfl

/-- What `hashmap_remove` does: nothing, or it takes the element with the key out. -/
theorem hashmapRemove_cases (m : HashmapMap α) (key : String) :
    (m.toMap key = none ∧ hashmapRemove m key = (.missing, m)) ∨
    ((m.toMap key).isSome ∧ ∃ i, slotOf (path m.tableSize) m.at_ key = some i ∧
      hashmapRemove m key = (.ok, m.removeAt i)) := by
  rw [toMap_eq, lookup]
  cases h : slotOf (path m.tableSize) m.at_ key with
  | none =>
    unfold hashmapRemove
    rw [findKey_slotOf, h]
    exact .inl ⟨rfl, rfl⟩
  | some i =>
    obtain ⟨a, ha⟩ := has_of_slotOf h
    exact .inr ⟨by rw [Option.bind_some, ha]; rfl, i, rfl, hashmapRemove_of_slotOf h⟩

/-- Every call returns. -/
theorem run_step (limit : Fin (2 ^ 31)) (m : HashmapMap α) (ops : List (HashmapOp α)) :
    Run.run (HashmapOp.step limit) m ops =
      some (ops.foldl (fun m op => (op.call limit m).2) m) := by
  induction ops generalizing m with
  | nil => rfl
  | cons op ops ih => exact ih (op.call limit m).2

section Steps

variable {m m' : HashmapMap α} {limit : Fin (2 ^ 31)} {op : HashmapOp α}

theorem HashmapMap.Tidy.taken (hm : m.Tidy) (key : String) :
    (hashmapRemove m key).2.Tidy ∧
      (hashmapRemove m key).2.toMap = Function.update m.toMap key none := by
  rcases hashmapRemove_cases m key with ⟨hnone, hr⟩ | ⟨-, i, hi, hr⟩
  · rw [hr]
    exact ⟨hm, (Function.update_eq_self_iff.mpr hnone.symm).symm⟩
  · rw [hr]
    exact ⟨hm.removeAt hi, hm.toMap_removeAt hi⟩

theorem HashmapMap.Solid.put (hm : m.Solid) (key : String) (value : α) :
    PutSpec Solid m key value (hashmapPut limit m key value) :=
  putFuel_solid limit (limit + 1) m key value hm

theorem HashmapMap.Tidy.put (hm : m.Tidy) {key : String} (hkey : m.Careful key) (value : α) :
    PutSpec Tidy m key value (hashmapPut limit m key value) :=
  putFuel_tidy limit (limit + 1) hm hkey

theorem put_answers {Inv : HashmapMap α → Prop} {key : String} {value : α}
    (h : PutSpec Inv m key value (hashmapPut limit m key value)) :
    (HashmapOp.put key value).Answers limit m := by
  rcases h.status with he | he
  · exact .inl ⟨he, h.stored he⟩
  · exact .inr ⟨he, h.kept he⟩

theorem get_answers (key : String) : (HashmapOp.get key : HashmapOp α).Answers limit m :=
  ⟨hashmapGet_eq m key, rfl⟩

theorem HashmapMap.Tidy.answers (hm : m.Tidy) (hop : op.Careful m) : op.Answers limit m := by
  cases op with
  | put key value => exact put_answers (hm.put hop value)
  | get key => exact get_answers key
  | remove key =>
    refine ⟨?_, (hm.taken key).2⟩
    show (hashmapRemove m key).1 = _
    rcases hashmapRemove_cases m key with ⟨hnone, hr⟩ | ⟨hsome, i, -, hr⟩
    · rw [hr, hnone]
      rfl
    · rw [hr, if_pos hsome]

theorem HashmapMap.Tidy.step (hm : m.Tidy) (hop : op.Careful m)
    (hstep : op.step limit m = some m') : m'.Tidy := by
  obtain rfl := Option.some.inj hstep
  cases op with
  | put key value => exact (hm.put hop value).inv
  | get key => exact hm
  | remove key => exact (hm.taken key).1

theorem HashmapMap.Solid.step (hm : m.Solid) (hop : op.isRemove = false)
    (hstep : op.step limit m = some m') : m'.Solid := by
  obtain rfl := Option.some.inj hstep
  cases op with
  | put key value => exact (hm.put key value).inv
  | get key => exact hm
  | remove key => cases hop

theorem HashmapMap.Solid.op_careful (hm : m.Solid) (op : HashmapOp α) : op.Careful m := by
  cases op with
  | put key value => exact hm.careful
  | get key => trivial
  | remove key => trivial

/-- Runs without `hashmap_remove` are careful. -/
theorem meets_careful_of_no_remove {ops : List (HashmapOp α)} :
    ∀ {m : HashmapMap α}, m.Solid → (∀ op ∈ ops, op.isRemove = false) →
      Run.Meets (HashmapOp.step limit) HashmapOp.Careful m ops := by
  induction ops with
  | nil => exact fun _ _ => trivial
  | cons op ops ih =>
    intro m hm hops
    refine ⟨hm.op_careful op, fun m' hstep => ih (hm.step (hops op List.mem_cons_self) hstep) ?_⟩
    exact fun op' h => hops op' (List.mem_cons_of_mem _ h)

end Steps

theorem answers_of_careful {limit : Fin (2 ^ 31)} {ops : List (HashmapOp α)} :
    ∀ {m : HashmapMap α}, m.Tidy →
      Run.Meets (HashmapOp.step limit) HashmapOp.Careful m ops →
      Run.Meets (HashmapOp.step limit) (HashmapOp.Answers limit) m ops := by
  induction ops with
  | nil => exact fun _ _ => trivial
  | cons op ops ih =>
    intro m hm h
    exact ⟨hm.answers h.1, fun m' hstep => ih (hm.step h.1 hstep) (h.2 m' hstep)⟩

/-- Puts and gets on a new map are answered as by a map from strings, in any order and however often
    the table is rehashed. -/
theorem hashmap_refines_map (limit : Fin (2 ^ 31)) (ops : List (HashmapOp α))
    (hops : ∀ op ∈ ops, op.isRemove = false) :
    (hashmapNew : HashmapMap α).toMap = (fun _ => none) ∧
      Run.Meets (HashmapOp.step limit) (HashmapOp.Answers limit) hashmapNew ops :=
  ⟨toMap_emptyTable _, answers_of_careful hashmapNew_solid.tidy
    (meets_careful_of_no_remove hashmapNew_solid hops)⟩

/-- Two keys of one slot, the first of which is put twice. -/
theorem hashmap_refines_map_twice :
    (hashmapNew : HashmapMap ℕ).toMap = (fun _ => none) ∧
      Run.Meets (HashmapOp.step 512) (HashmapOp.Answers 512) hashmapNew
        [.put "G7" 1, .put "G53" 2, .put "G7" 3, .get "G7", .get "G57"] :=
  hashmap_refines_map 512 _ (by decide)

/-! ## Taking out -/

/-- After its removal no key is found. -/
def HashmapMap.TakesOut (m : HashmapMap α) : Prop :=
  ∀ key, hashmapGet (hashmapRemove m key).2 key = (.missing, none)

section TakesOut

variable {m : HashmapMap α} {limit : Fin (2 ^ 31)} {key : String} {value : α}

theorem HashmapMap.Tidy.takesOut (hm : m.Tidy) : m.TakesOut := by
  intro key
  rw [hashmapGet_eq, (hm.taken key).2, Function.update_self]
  rfl

theorem hashmapPut_of_hash {index : ℕ} (h : hashmapHash m key = some index) :
    hashmapPut limit m key value = (.ok, m.storeAt index key value) := by
  rw [hashmapPut, putFuel, h]
  rfl

/-- A key that is stored behind a gap a second time, and taken out, is there as before. -/
theorem not_takesOut_of_not_careful (hm : m.Tidy) (h : ¬ m.Careful key) :
    ¬ (hashmapPut limit m key value).2.TakesOut := by
  unfold HashmapMap.Careful at h
  push Not at h
  obtain ⟨index, hindex, j, hj, hne⟩ := h
  have hslot := slotFor_of_hashmapHash m key hindex
  have hfree : Free m.at_ index := by
    rcases (slotFor_eq_some_iff.mp hslot).1 with hf | hh
    · exact hf
    · exact absurd (hm.found.slot_unique hj hh) hne
  rw [hashmapPut_of_hash hindex]
  intro hout
  obtain ⟨hsecond, hback⟩ := lookup_store_remove (a := value) hslot hfree
  have hat : (m.storeAt index key value).at_ = store m.at_ index key value :=
    at_storeAt hm.toSized hslot
  rw [← hat] at hsecond hback
  have hsized : (m.storeAt index key value).Sized := hm.toSized.set _ _ _
  have hgone := hout key
  rw [hashmapRemove_of_slotOf hsecond, hashmapGet_eq, Prod.mk.injEq] at hgone
  have hsame : ((m.storeAt index key value).removeAt index).toMap key = m.toMap key := by
    rw [toMap_eq, toMap_eq, at_removeAt hsized hsecond, hback]
    rfl
  obtain ⟨a, ha⟩ := hj
  have hthere : m.toMap key = some a := by
    rw [toMap_eq, hm.found.lookup_eq_some_iff]
    exact ⟨j, ha⟩
  rw [hsame, hthere] at hgone
  cases hgone.2

end TakesOut

/-- Every key can be taken out in every state of a run exactly when no put stores a key behind a gap,
    and as long as none does, all answers are those of a map from strings. -/
theorem hashmap_remove_takes_out_iff (limit : Fin (2 ^ 31)) (ops : List (HashmapOp α)) :
    (Run.Always (HashmapOp.step limit) TakesOut hashmapNew ops ↔
      Run.Meets (HashmapOp.step limit) HashmapOp.Careful hashmapNew ops) ∧
    (Run.Meets (HashmapOp.step limit) HashmapOp.Careful hashmapNew ops →
      Run.Meets (HashmapOp.step limit) (HashmapOp.Answers limit) hashmapNew ops) := by
  refine ⟨Run.always_iff_meets Tidy (fun m hm => hm.takesOut)
    (fun m op m' hm hop hstep => hm.step hop hstep) (fun m op hm hbad => ?_) hashmapNew_solid.tidy,
    answers_of_careful hashmapNew_solid.tidy⟩
  cases op with
  | put key value => exact ⟨_, rfl, not_takesOut_of_not_careful hm hbad⟩
  | get key => exact absurd trivial hbad
  | remove key => exact absurd trivial hbad

/-! ## The number of elements -/

/-- A put that stores its key stores a new one. -/
def HashmapOp.Fresh (limit : Fin (2 ^ 31)) (m : HashmapMap α) : HashmapOp α → Prop
  | .put key value => (hashmapPut limit m key value).1 = .ok → m.toMap key = none
  | _ => True

section Length

variable {m m' : HashmapMap α} {limit : Fin (2 ^ 31)} {op : HashmapOp α}

theorem HashmapMap.Tidy.ncard_keys (hm : m.Tidy) :
    {key | (m.toMap key).isSome}.ncard = m.used := by
  have hset : {key | (m.toMap key).isSome} = ((m.entries.map Prod.fst).toFinset : Set String) := by
    ext key
    rw [Set.mem_ofPred_eq, Finset.mem_coe, List.mem_toFinset, Option.isSome_iff_exists, List.mem_map]
    constructor
    · rintro ⟨value, h⟩
      exact ⟨(key, value), hm.mem_entries_iff.mpr h, rfl⟩
    · rintro ⟨⟨_, value⟩, he, rfl⟩
      exact ⟨value, hm.mem_entries_iff.mp he⟩
  rw [hset, Set.ncard_coe_finset, List.toFinset_card_of_nodup hm.nodup_keys, List.length_map,
    length_entries]

theorem HashmapMap.Tidy.fresh_careful (hm : m.Tidy) (hop : op.Fresh limit m) : op.Careful m := by
  cases op with
  | put key value =>
    intro index hindex
    have hok : (hashmapPut limit m key value).1 = .ok := by rw [hashmapPut_of_hash hindex]
    exact hm.careful_of_absent (hop hok) index hindex
  | get key => trivial
  | remove key => trivial

theorem HashmapMap.Tidy.exact_step (hm : m.Tidy) (hx : m.Exact) (hop : op.Fresh limit m) :
    (op.call limit m).2.Exact := by
  cases op with
  | put key value => exact (hm.put (hm.fresh_careful hop) value).exact hx hop
  | get key => exact hx
  | remove key =>
    show (hashmapRemove m key).2.Exact
    rcases hashmapRemove_cases m key with ⟨-, hr⟩ | ⟨-, i, hi, hr⟩
    · rw [hr]
      exact hx
    · rw [hr]
      have hused := used_removeAt hm.toSized hi
      show m.size - 1 = ((m.removeAt i).used : Int)
      unfold Exact at hx
      omega

/-- A put that overwrites a key counts it again. -/
theorem HashmapMap.Tidy.length_ne_of_overwrite (hm : m.Tidy) (hx : m.Exact) {key : String} {value : α}
    (hok : (hashmapPut limit m key value).1 = .ok) (hsome : m.toMap key ≠ none) :
    hashmapLength (hashmapPut limit m key value).2 ≠
      {k | ((hashmapPut limit m key value).2.toMap k).isSome}.ncard := by
  by_cases hkey : m.Careful key
  · have h : PutSpec Tidy m key value (hashmapPut limit m key value) :=
      hm.put hkey value
    rw [h.inv.ncard_keys]
    exact h.overwrites hok hx.ge hsome
  · obtain ⟨index, hindex, -⟩ : ∃ index, hashmapHash m key = some index ∧ True := by
      unfold HashmapMap.Careful at hkey
      push Not at hkey
      obtain ⟨index, hindex, -⟩ := hkey
      exact ⟨index, hindex, trivial⟩
    rw [hashmapPut_of_hash hindex]
    have hsame : {k | ((m.storeAt index key value).toMap k).isSome} = {k | (m.toMap k).isSome} := by
      ext k
      rw [Set.mem_ofPred_eq, Set.mem_ofPred_eq,
        toMap_storeAt hm.toSized (slotFor_of_hashmapHash m key hindex)]
      by_cases he : k = key
      · subst he
        rw [Function.update_self]
        exact iff_of_true rfl (Option.ne_none_iff_isSome.mp hsome)
      · rw [Function.update_of_ne he]
    dsimp only
    rw [hsame, hm.ncard_keys]
    show m.size + 1 ≠ (m.used : Int)
    unfold Exact at hx
    omega

end Length

/-- `hashmap_length` is the number of keys in every state of a run exactly when no put overwrites a
    key. -/
theorem hashmap_length_iff (limit : Fin (2 ^ 31)) (ops : List (HashmapOp α)) :
    Run.Always (HashmapOp.step limit)
        (fun m => hashmapLength m = {key | (m.toMap key).isSome}.ncard) hashmapNew ops ↔
      Run.Meets (HashmapOp.step limit) (HashmapOp.Fresh limit) hashmapNew ops := by
  refine Run.always_iff_meets (fun m => m.Tidy ∧ m.Exact) (fun m hm => ?_)
    (fun m op m' hm hop hstep => ?_) (fun m op hm hbad => ?_) ⟨hashmapNew_solid.tidy, hashmapNew_exact⟩
  · rw [hm.1.ncard_keys]
    exact hm.2
  · refine ⟨hm.1.step (hm.1.fresh_careful hop) hstep, ?_⟩
    obtain rfl := Option.some.inj hstep
    exact hm.1.exact_step hm.2 hop
  · cases op with
    | put key value =>
      obtain ⟨hok, hsome⟩ := Classical.not_imp.mp hbad
      exact ⟨_, rfl, hm.1.length_ne_of_overwrite hm.2 hok hsome⟩
    | get key => exact absurd trivial hbad
    | remove key => exact absurd trivial hbad

/-! ## Visiting the elements -/

/-- Call a function on one value after the other, as long as it returns `MAP_OK`. -/
def visit {σ : Type} (f : α → σ → Int × σ) : List α → σ → Int × σ
  | [], s => (0, s)
  | a :: as, s =>
    match f a s with
    | (0, s) => visit f as s
    | (status, s) => (status, s)

theorem iterateElements_eq {σ : Type} (f : α → σ → Int × σ) (es : List (Option (String × α))) :
    ∀ s : σ, iterateElements f es s = visit f ((es.filterMap id).map Prod.snd) s := by
  induction es with
  | nil => exact fun s => rfl
  | cons o es ih =>
    intro s
    cases o with
    | none => exact ih s
    | some e =>
      show iterateElements f (some e :: es) s = visit f (e.2 :: (es.filterMap id).map Prod.snd) s
      rw [iterateElements, show iterateElements f es = _ from funext ih]
      rfl

section Reached

variable {m : HashmapMap α} {limit : Fin (2 ^ 31)} {ops : List (HashmapOp α)}

theorem HashmapMap.Tidy.counted_step {op : HashmapOp α} (hm : m.Tidy) (hc : m.Counted)
    (hop : op.Careful m) : (op.call limit m).2.Counted := by
  cases op with
  | put key value => exact (hm.put hop value).counted hc
  | get key => exact hc
  | remove key =>
    show (hashmapRemove m key).2.Counted
    rcases hashmapRemove_cases m key with ⟨-, hr⟩ | ⟨-, i, hi, hr⟩
    · rw [hr]
      exact hc
    · rw [hr]
      have hused := used_removeAt hm.toSized hi
      show ((m.removeAt i).used : Int) ≤ m.size - 1
      unfold Counted at hc
      omega

theorem run_tidy (hops : Run.Meets (HashmapOp.step limit) HashmapOp.Careful hashmapNew ops)
    (hrun : Run.run (HashmapOp.step limit) hashmapNew ops = some m) : m.Tidy ∧ m.Counted := by
  refine Run.run_invariant_of_meets (fun m => m.Tidy ∧ m.Counted) (fun m op m' hm hop hstep => ?_)
    ops _ _ ⟨hashmapNew_solid.tidy, hashmapNew_exact.ge⟩ hops hrun
  refine ⟨hm.1.step hop hstep, ?_⟩
  obtain rfl := Option.some.inj hstep
  exact hm.1.counted_step hm.2 hop

end Reached

/-- `hashmap_iterate` comes to the value of every key once, in some order, until the function it calls
    returns something else than `MAP_OK`. Without a key nothing is called, and what is returned goes by
    the length, which keys that were put twice leave above 0. -/
theorem hashmap_iterate_visits {limit : Fin (2 ^ 31)} {ops : List (HashmapOp α)} {m : HashmapMap α}
    (hops : Run.Meets (HashmapOp.step limit) HashmapOp.Careful hashmapNew ops)
    (hrun : Run.run (HashmapOp.step limit) hashmapNew ops = some m) :
    ∃ es : List (String × α), (es.map Prod.fst).Nodup ∧
      (∀ key value, (key, value) ∈ es ↔ hashmapGet m key = (.ok, some value)) ∧
      ∀ {σ : Type} (f : α → σ → Int × σ) (s : σ),
        (es ≠ [] → hashmapIterate m f s = visit f (es.map Prod.snd) s) ∧
        (es = [] → hashmapIterate m f s = (if hashmapLength m ≤ 0 then MAP_MISSING else 0, s)) := by
  obtain ⟨htidy, hcounted⟩ := run_tidy hops hrun
  refine ⟨m.entries, htidy.nodup_keys, fun key value => ?_, fun f s => ⟨fun hne => ?_, fun he => ?_⟩⟩
  · rw [htidy.mem_entries_iff, hashmapGet_eq, Prod.mk.injEq]
    refine ⟨fun h => ⟨by rw [h]; rfl, h⟩, fun h => h.2⟩
  · have hpos : 0 < m.entries.length := List.length_pos_iff.mpr hne
    rw [length_entries] at hpos
    unfold Counted at hcounted
    have hsize : ¬ hashmapLength m ≤ 0 := by
      show ¬ m.size ≤ 0
      omega
    rw [hashmapIterate, if_neg hsize]
    exact iterateElements_eq f m.data s
  · have hnone : iterateElements f m.data s = (0, s) := by
      rw [iterateElements_eq f m.data s]
      show visit f (m.entries.map Prod.snd) s = (0, s)
      rw [he]
      rfl
    rw [hashmapIterate, hnone]
    split <;> rfl

/-- The key that is put twice is visited with its last value. -/
theorem hashmap_iterate_visits_twice :
    ∃ m : HashmapMap ℕ, Run.run (HashmapOp.step 512) hashmapNew
        [.put "G7" 1, .put "G53" 2, .put "G7" 3] = some m ∧
      ∃ es : List (String × ℕ), (es.map Prod.fst).Nodup ∧
        (∀ key value, (key, value) ∈ es ↔ hashmapGet m key = (.ok, some value)) ∧
        ∀ {σ : Type} (f : ℕ → σ → Int × σ) (s : σ),
          (es ≠ [] → hashmapIterate m f s = visit f (es.map Prod.snd) s) ∧
          (es = [] → hashmapIterate m f s = (if hashmapLength m ≤ 0 then MAP_MISSING else 0, s)) := by
  have hops : Run.Meets (HashmapOp.step 512) HashmapOp.Careful (hashmapNew : HashmapMap ℕ)
      [.put "G7" 1, .put "G53" 2, .put "G7" 3] :=
    meets_careful_of_no_remove hashmapNew_solid (by decide)
  exact ⟨_, rfl, hashmap_iterate_visits hops rfl⟩

/-! ## Keys with one CRC -/

theorem path_of_crc32 {k k' : String} (h : crc32 (bytesOf k) = crc32 (bytesOf k')) (n : ℕ) :
    path n k = path n k' := by
  unfold path hashmapHashInt
  rw [h]

theorem HashmapMap.Tidy.at_most_eight {m : HashmapMap α} (hm : m.Tidy) {c : BitVec 64}
    {ks : List String} (hnodup : ks.Nodup)
    (hks : ∀ k ∈ ks, (m.toMap k).isSome ∧ crc32 (bytesOf k) = c) :
    ks.length ≤ MAX_CHAIN_LENGTH := by
  cases ks with
  | nil => exact Nat.zero_le _
  | cons k₀ ks =>
    have hlen := hm.found.length_le hnodup (p := path m.tableSize k₀) fun k hk => by
      obtain ⟨hsome, hcrc⟩ := hks k hk
      refine ⟨path_of_crc32 (hcrc.trans (hks k₀ List.mem_cons_self).2.symm) _, ?_⟩
      obtain ⟨a, ha⟩ := Option.isSome_iff_exists.mp hsome
      rw [toMap_eq, hm.found.lookup_eq_some_iff] at ha
      obtain ⟨i, hi⟩ := ha
      exact ⟨i, a, hi⟩
    rwa [path, length_linearPath] at hlen

/-- At most eight keys with one CRC are in a map, and with eight there every put of a ninth one runs
    out of memory, however much there is. -/
theorem hashmap_at_most_eight {limit : Fin (2 ^ 31)} {ops : List (HashmapOp α)} {m : HashmapMap α}
    (hops : Run.Meets (HashmapOp.step limit) HashmapOp.Careful hashmapNew ops)
    (hrun : Run.run (HashmapOp.step limit) hashmapNew ops = some m) {c : BitVec 64}
    {ks : List String} (hnodup : ks.Nodup)
    (hks : ∀ k ∈ ks, (m.toMap k).isSome ∧ crc32 (bytesOf k) = c) :
    ks.length ≤ MAX_CHAIN_LENGTH ∧
      (ks.length = MAX_CHAIN_LENGTH → ∀ key ∉ ks, crc32 (bytesOf key) = c →
        ∀ (limit : Fin (2 ^ 31)) (value : α), (hashmapPut limit m key value).1 = .omem) := by
  have htidy := (run_tidy hops hrun).1
  refine ⟨htidy.at_most_eight hnodup hks, fun height key hkey hcrc limit value => ?_⟩
  have habsent : m.toMap key = none := by
    by_contra hsome
    have hle := htidy.at_most_eight (c := c) (List.nodup_cons.mpr ⟨hkey, hnodup⟩) fun k hk => by
      rcases List.mem_cons.mp hk with rfl | hk
      · exact ⟨Option.ne_none_iff_isSome.mp hsome, hcrc⟩
      · exact hks k hk
    rw [List.length_cons] at hle
    omega
  have h : PutSpec Tidy m key value (hashmapPut limit m key value) :=
    htidy.put (htidy.careful_of_absent habsent) value
  rcases h.status with hok | homem
  · have hle := h.inv.at_most_eight (c := c) (List.nodup_cons.mpr ⟨hkey, hnodup⟩) fun k hk => by
      rw [h.stored hok]
      rcases List.mem_cons.mp hk with rfl | hmem
      · rw [Function.update_self]
        exact ⟨rfl, hcrc⟩
      · have hne : k ≠ key := by
          rintro rfl
          exact hkey hmem
        rw [Function.update_of_ne hne]
        exact hks k hmem
    rw [List.length_cons] at hle
    omega
  · exact homem

/-- Eight names with one CRC. -/
def sameCrc : List String :=
  ["3ex5hu3ex5hu3ex5hu3ex5hu", "3ex5hu3ex5hu3ex5hubkjtp1", "3ex5hu3ex5hubkjtp13ex5hu",
    "3ex5hu3ex5hubkjtp1bkjtp1", "3ex5hubkjtp13ex5hu3ex5hu", "3ex5hubkjtp13ex5hubkjtp1",
    "3ex5hubkjtp1bkjtp13ex5hu", "3ex5hubkjtp1bkjtp1bkjtp1"]

/-- A map with these eight. -/
def fullChain : HashmapMap ℕ :=
  (sameCrc.map fun k => .put k 0).foldl (fun m op => (HashmapOp.call 512 m op).2) hashmapNew

/-- A ninth name with their CRC. -/
theorem hashmap_at_most_eight_sameCrc :
    (hashmapPut 2147483647 fullChain "bkjtp13ex5hu3ex5hu3ex5hu" 9).1 = .omem := by
  have hops : Run.Meets (HashmapOp.step 512) HashmapOp.Careful (hashmapNew : HashmapMap ℕ)
      (sameCrc.map fun k => .put k 0) :=
    meets_careful_of_no_remove hashmapNew_solid (by decide)
  have hrun : Run.run (HashmapOp.step 512) hashmapNew (sameCrc.map fun k => .put k 0) =
      some fullChain := run_step _ _ _
  have hks : ∀ k ∈ sameCrc, (fullChain.toMap k).isSome ∧ crc32 (bytesOf k) = 1266573932#64 := by
    decide +kernel
  exact (hashmap_at_most_eight hops hrun (by decide) hks).2 rfl _ (by decide) (by decide +kernel) _ _

end LogxControll
