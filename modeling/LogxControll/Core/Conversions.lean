/-
  `core/accounting.c`: the conversion functions of a signal.

  `cast_to` is read as an array of pointers to `struct lxc_cast_to`, but the registration appends the
  function itself. So the look-up takes the first words of the function's own code for the target
  signal and the function: `text` is what is read there, nothing when it cannot be read.
-/
import LogxControll.Core.Types
import LogxControll.Core.Utils
import LogxControll.Lib.UniqueKeys

namespace LogxControll

open UniqueKeys

/-- The address of a conversion function. -/
abbrev FunctionId := Nat

/-- `struct lxc_cast_to`; `target` (`to` in the source) is `none` when the word is the address of no
    signal. -/
structure LxcCastTo where
  target : Option Signal
  castFunction : Option FunctionId
  deriving DecidableEq, Repr

/-- `cast_to` of every signal. -/
abbrev CastTables := Signal → PntArray FunctionId

variable (text : FunctionId → Option LxcCastTo)

/-- The loop of `lxc_get_conversion_function`. -/
def findCast (target : Signal) : List (Option FunctionId) → Option (Option FunctionId)
  | [] => none
  | none :: _ => some none
  | some element :: rest => do
    let cast ← text element
    if some target = cast.target then return cast.castFunction else findCast target rest

/-- `lxc_get_conversion_function`. What lies in `cast_to` is read as a box, wherever it points. -/
def lxcGetConversionFunction (source target : Option Signal) (T : CastTables) :
    Option (Option FunctionId) :=
  match source, target with
  | some source, some target =>
    match T source with
    | none => some none
    | some cast => findCast text target cast
  | _, _ => some none

/-- `lxc_register_conversion_function`: the function itself is appended to `cast_to`, not a box with
    it. -/
def lxcRegisterConversionFunction (source target : Option Signal) (function : Option FunctionId)
    (T : CastTables) : Option (Int × CastTables) := do
  match ← lxcGetConversionFunction text source target T with
  | some _ => return (LxcErrno.entityAlreadyRegistered.code, T)
  | none =>
    let source ← source
    let (_, castTo) ← arrayPntAppendElement (T source) function
    return (0, Function.update T source castTo)

/-! ## What the calls should do -/

/-- A call of `lxc_register_conversion_function`. -/
structure CastCall where
  source : Signal
  target : Signal
  function : FunctionId
  deriving DecidableEq, Repr

/-- The signals between which a call converts. -/
def CastCall.pair (call : CastCall) : Signal × Signal := (call.source, call.target)

/-- The function that was registered first for the pair. -/
def conversionOf (calls : List CastCall) (source target : Signal) : Option FunctionId :=
  (calls.find? fun call => (source, target) = call.pair).map CastCall.function

/-- After the calls `before`, which left `T`: every further call returns 0 exactly when its pair is
    new, and changes nothing otherwise; and in the end every pair has the function that was
    registered for it. -/
def RoundTrip : CastTables → List CastCall → List CastCall → Prop
  | T, before, [] => ∀ source target,
      lxcGetConversionFunction text (some source) (some target) T =
        some (conversionOf before source target)
  | T, before, call :: calls => ∃ r T',
      lxcRegisterConversionFunction text (some call.source) (some call.target)
        (some call.function) T = some (r, T') ∧
      (call.pair ∈ before.map CastCall.pair →
        r = LxcErrno.entityAlreadyRegistered.code ∧ T' = T) ∧
      (call.pair ∉ before.map CastCall.pair → r = 0) ∧
      RoundTrip T' (before ++ [call]) calls

/-- Read as a `struct lxc_cast_to`, the code of the function names the target of the call and the
    function. -/
def BoxesItself (call : CastCall) : Prop :=
  text call.function = some { target := some call.target, castFunction := some call.function }

instance (call : CastCall) : Decidable (BoxesItself text call) :=
  inferInstanceAs (Decidable (_ = _))

/-! ## The row of a signal -/

/-- Another element at the end is read only if no earlier one names the target. -/
theorem findCast_concat (target : Signal) (l : List FunctionId) (f : FunctionId) :
    findCast text target ((l ++ [f]).map some ++ [none]) =
        findCast text target (l.map some ++ [none]) ∨
      findCast text target (l.map some ++ [none]) = some none ∧
        findCast text target ((l ++ [f]).map some ++ [none]) = findCast text target [some f, none] := by
  induction l with
  | nil => exact .inr ⟨rfl, rfl⟩
  | cons g l ih =>
    simp only [List.cons_append, List.map_cons, findCast]
    cases text g with
    | none => exact .inl rfl
    | some cast =>
      simp only [Option.bind_eq_bind, Option.bind_some]
      by_cases hcast : some target = cast.target
      · rw [if_pos hcast, if_pos hcast]
        exact .inl rfl
      · rw [if_neg hcast, if_neg hcast]
        exact ih

theorem findCast_pair_eq_some {target : Signal} {f g : FunctionId}
    (h : findCast text target [some f, none] = some (some g)) :
    text f = some { target := some target, castFunction := some g } := by
  simp only [findCast] at h
  cases hf : text f with
  | none =>
    rw [hf] at h
    cases h
  | some cast =>
    rw [hf, Option.bind_eq_bind, Option.bind_some] at h
    obtain ⟨t, c⟩ := cast
    split at h
    · next ht =>
      obtain rfl : some target = t := ht
      obtain rfl : c = some g := Option.some.inj h
      rfl
    · cases h

theorem findCast_pair_of_ne {target : Signal} {f : FunctionId} {cast : LxcCastTo}
    (hf : text f = some cast) (hne : some target ≠ cast.target) :
    findCast text target [some f, none] = some none := by
  rw [findCast, hf, Option.bind_eq_bind, Option.bind_some, if_neg hne]
  rfl

/-- When every call was made because the look-up gave NULL, and every target has its function in
    the end, then each function names its own target and itself: the last one can only have been
    found in its own code, and taking it away the others are still found. -/
theorem boxesItself_of_found {calls : List CastCall} (hnodup : (calls.map CastCall.target).Nodup)
    (hfresh : ∀ before call after, calls = before ++ call :: after →
      findCast text call.target ((before.map CastCall.function).map some ++ [none]) = some none)
    (hfound : ∀ call ∈ calls, findCast text call.target
      ((calls.map CastCall.function).map some ++ [none]) = some (some call.function)) :
    ∀ call ∈ calls, BoxesItself text call := by
  induction calls using List.reverseRecOn with
  | nil => simp
  | append_singleton calls last ih =>
    rw [List.map_append, List.map_singleton] at hnodup hfound
    have hlast : BoxesItself text last := by
      have hnull := hfresh calls last [] rfl
      have hself := hfound last (by simp)
      rcases findCast_concat text last.target (calls.map CastCall.function) last.function with
        hsame | ⟨-, hread⟩
      · rw [hsame, hnull] at hself
        cases hself
      · exact findCast_pair_eq_some text (hread.symm.trans hself)
    have hother : ∀ call ∈ calls, call.target ≠ last.target := by
      rintro call hcall he
      exact (List.nodup_append.mp hnodup).2.2 _ (List.mem_map_of_mem hcall) _
        (List.mem_singleton_self _) he
    have hold : ∀ call ∈ calls, BoxesItself text call := by
      refine ih (List.nodup_append.mp hnodup).1 (fun before call after he => ?_) fun call hcall => ?_
      · exact hfresh before call (after ++ [last]) (by rw [he]; simp)
      · have hself := hfound call (List.mem_append_left _ hcall)
        rcases findCast_concat text call.target (calls.map CastCall.function) last.function with
          hsame | ⟨-, hread⟩
        · exact hsame ▸ hself
        · -- the last function names another target
          rw [hread, findCast_pair_of_ne text hlast (by simpa using hother call hcall)] at hself
          cases hself
    intro call hcall
    rcases List.mem_append.mp hcall with hcall | hcall
    · exact hold call hcall
    · rw [List.mem_singleton.mp hcall]
      exact hlast

/-- The look-up among functions that name their own targets and themselves. -/
theorem findCast_of_boxesItself (target : Signal) {calls : List CastCall}
    (h : ∀ call ∈ calls, BoxesItself text call) :
    findCast text target ((calls.map CastCall.function).map some ++ [none]) =
      some ((calls.find? fun call => target = call.target).map CastCall.function) := by
  induction calls with
  | nil => rfl
  | cons call calls ih =>
    have hcall : text call.function = some _ := h call List.mem_cons_self
    simp only [List.map_cons, List.cons_append, findCast, hcall, Option.bind_eq_bind,
      Option.bind_some, Option.some.injEq]
    by_cases ht : target = call.target
    · rw [if_pos ht, List.find?_cons_of_pos (by simpa using ht)]
      rfl
    · rw [if_neg ht, List.find?_cons_of_neg (by simpa using ht)]
      exact ih fun call hmem => h call (List.mem_cons_of_mem _ hmem)

/-! ## The tables -/

/-- The accepted calls of one signal. -/
def row (acc : List CastCall) (source : Signal) : List CastCall :=
  acc.filter fun call => source = call.source

/-- The table of every signal holds the functions that were accepted for it. -/
def Rows (T : CastTables) (acc : List CastCall) : Prop :=
  ∀ source, Packed (T source) ((row acc source).map CastCall.function)

/-- Every accepted call was made because the look-up gave NULL. -/
def Fresh (acc : List CastCall) : Prop :=
  ∀ source before call after, row acc source = before ++ call :: after →
    findCast text call.target ((before.map CastCall.function).map some ++ [none]) = some none

theorem row_concat_self (acc : List CastCall) (call : CastCall) :
    row (acc ++ [call]) call.source = row acc call.source ++ [call] := by
  simp [row, List.filter_append]

theorem row_concat_of_ne (acc : List CastCall) {call : CastCall} {source : Signal}
    (h : source ≠ call.source) : row (acc ++ [call]) source = row acc source := by
  simp [row, List.filter_append, h]

theorem find?_row (acc : List CastCall) (source target : Signal) :
    (row acc source).find? (fun call => target = call.target) =
      acc.find? fun call => (source, target) = call.pair := by
  rw [row, List.find?_filter]
  simp [CastCall.pair, Prod.mk.injEq]

theorem conversionOf_eq (calls : List CastCall) (source target : Signal) :
    conversionOf calls source target = ((row (accepted CastCall.pair calls) source).find?
      fun call => target = call.target).map CastCall.function := by
  rw [conversionOf, find?_row, find?_accepted]

theorem nodup_row (calls : List CastCall) (source : Signal) :
    ((row (accepted CastCall.pair calls) source).map CastCall.target).Nodup := by
  have hpairs : ((row (accepted CastCall.pair calls) source).map CastCall.pair).Nodup :=
    (nodup_accepted calls).sublist (List.filter_sublist.map _)
  have hmap : (row (accepted CastCall.pair calls) source).map CastCall.pair =
      ((row (accepted CastCall.pair calls) source).map CastCall.target).map (source, ·) := by
    rw [List.map_map]
    refine List.map_congr_left fun call hcall => ?_
    have : source = call.source := by simpa using (List.mem_filter.mp hcall).2
    rw [this]
    rfl
  exact (hmap ▸ hpairs).of_map _

theorem Rows.get {T : CastTables} {acc : List CastCall} (h : Rows T acc) (source target : Signal) :
    lxcGetConversionFunction text (some source) (some target) T =
      findCast text target (((row acc source).map CastCall.function).map some ++ [none]) := by
  unfold lxcGetConversionFunction
  rcases h source with ⟨hnone, hnil⟩ | hsome
  · simp only [hnone, hnil]
    rfl
  · simp only [hsome]

theorem Rows.concat {T : CastTables} {acc : List CastCall} (h : Rows T acc) (call : CastCall) :
    ∃ i castTo, arrayPntAppendElement (T call.source) (some call.function) = some (i, castTo) ∧
      Rows (Function.update T call.source castTo) (acc ++ [call]) := by
  refine ⟨_, _, arrayPntAppendElement_of_packed (h call.source) call.function, fun source => ?_⟩
  by_cases hs : source = call.source
  · subst hs
    rw [Function.update_self, row_concat_self]
    simpa using packed_block ((row acc call.source ++ [call]).map CastCall.function)
  · rw [Function.update_of_ne hs, row_concat_of_ne acc hs]
    exact h source

/-- A call is refused, or the look-up gave NULL and the call is the last one of its row. -/
theorem Rows.register {T : CastTables} {acc : List CastCall} (h : Rows T acc) {call : CastCall}
    {r : Int} {T' : CastTables} (hres : lxcRegisterConversionFunction text (some call.source)
      (some call.target) (some call.function) T = some (r, T')) :
    r ≠ 0 ∧ T' = T ∨ r = 0 ∧ Rows T' (acc ++ [call]) ∧ findCast text call.target
      (((row acc call.source).map CastCall.function).map some ++ [none]) = some none := by
  unfold lxcRegisterConversionFunction at hres
  rw [h.get] at hres
  obtain ⟨found, hfound, hres⟩ := Option.bind_eq_some_iff.mp hres
  cases found with
  | some f =>
    obtain ⟨rfl, rfl⟩ := Prod.mk.inj (Option.some.inj hres)
    exact .inl ⟨by decide, rfl⟩
  | none =>
    obtain ⟨i, castTo, happend, hrows⟩ := h.concat call
    simp only [Option.bind_eq_bind, Option.bind_some, happend] at hres
    obtain ⟨rfl, rfl⟩ := Prod.mk.inj (Option.some.inj hres)
    exact .inr ⟨rfl, hrows, hfound⟩

theorem Fresh.concat {acc : List CastCall} (h : Fresh text acc) {call : CastCall}
    (hnull : findCast text call.target
      (((row acc call.source).map CastCall.function).map some ++ [none]) = some none) :
    Fresh text (acc ++ [call]) := by
  intro source before other after he
  by_cases hs : source = call.source
  · subst hs
    rw [row_concat_self] at he
    rcases List.eq_nil_or_concat after with rfl | ⟨after, last, rfl⟩
    · obtain ⟨rfl, hlast⟩ := List.append_inj' he rfl
      rw [← (List.cons.inj hlast).1]
      exact hnull
    · rw [List.concat_eq_append, ← List.cons_append, ← List.append_assoc] at he
      exact h _ before other after (List.append_inj' he rfl).1
  · rw [row_concat_of_ne acc hs] at he
    exact h source before other after he

/-! ## Runs -/

/-- The end of a sequence of calls that does what it should. -/
theorem RoundTrip.found (calls : List CastCall) :
    ∀ {T : CastTables} {before : List CastCall}, RoundTrip text T before calls →
      Rows T (accepted CastCall.pair before) → Fresh text (accepted CastCall.pair before) →
      ∃ T', Rows T' (accepted CastCall.pair (before ++ calls)) ∧
        Fresh text (accepted CastCall.pair (before ++ calls)) ∧
        ∀ source target, lxcGetConversionFunction text (some source) (some target) T' =
          some (conversionOf (before ++ calls) source target) := by
  induction calls with
  | nil =>
    intro T before h hrows hfresh
    rw [List.append_nil]
    exact ⟨T, hrows, hfresh, h⟩
  | cons call calls ih =>
    rintro T before ⟨r, T', hres, hold, hnew, hrest⟩ hrows hfresh
    rw [← List.singleton_append, ← List.append_assoc]
    rcases hrows.register text hres with ⟨hr, rfl⟩ | ⟨rfl, hrows', hnull⟩
    · have hmem : call.pair ∈ (accepted CastCall.pair before).map CastCall.pair := by
        rw [mem_map_accepted]
        by_contra hpair
        exact hr (hnew hpair)
      have hacc : accepted CastCall.pair (before ++ [call]) = accepted CastCall.pair before := by
        rw [accepted_concat, accept_of_mem hmem]
      exact ih hrest (hacc ▸ hrows) (hacc ▸ hfresh)
    · have hmem : call.pair ∉ (accepted CastCall.pair before).map CastCall.pair := by
        rw [mem_map_accepted]
        intro hpair
        exact absurd (hold hpair).1 (by decide)
      have hacc : accepted CastCall.pair (before ++ [call]) =
          accepted CastCall.pair before ++ [call] := by
        rw [accepted_concat, accept_of_notMem hmem]
      exact ih hrest (hacc ▸ hrows') (hacc ▸ hfresh.concat text hnull)

theorem Rows.get_of_boxesItself {T : CastTables} {calls : List CastCall}
    (h : Rows T (accepted CastCall.pair calls))
    (hboxes : ∀ call ∈ accepted CastCall.pair calls, BoxesItself text call)
    (source target : Signal) :
    lxcGetConversionFunction text (some source) (some target) T =
      some (conversionOf calls source target) := by
  rw [h.get, conversionOf_eq]
  exact findCast_of_boxesItself text target fun call hcall => hboxes call (List.mem_of_mem_filter hcall)

theorem conversionOf_eq_none_iff {calls : List CastCall} {source target : Signal} :
    conversionOf calls source target = none ↔ (source, target) ∉ calls.map CastCall.pair := by
  rw [conversionOf, Option.map_eq_none_iff, find?_eq_none_iff]

/-- Calls with functions that name their own targets and themselves do what they should. -/
theorem roundTrip_of_boxesItself (calls : List CastCall) :
    ∀ {T : CastTables} {before : List CastCall}, Rows T (accepted CastCall.pair before) →
      (∀ call ∈ accepted CastCall.pair (before ++ calls), BoxesItself text call) →
      RoundTrip text T before calls := by
  induction calls with
  | nil =>
    intro T before hrows hboxes source target
    rw [List.append_nil] at hboxes
    exact hrows.get_of_boxesItself text hboxes source target
  | cons call calls ih =>
    intro T before hrows hboxes
    rw [← List.singleton_append, ← List.append_assoc] at hboxes
    have hget := hrows.get_of_boxesItself text
      (fun c hc => hboxes c (accepted_subset _ _ (accepted_subset _ _ hc))) call.source call.target
    unfold RoundTrip lxcRegisterConversionFunction
    rw [hget, Option.bind_eq_bind, Option.bind_some]
    by_cases hpair : call.pair ∈ before.map CastCall.pair
    · obtain ⟨f, hf⟩ := Option.ne_none_iff_exists'.mp
        (mt conversionOf_eq_none_iff.mp (not_not.mpr hpair))
      have hacc : accepted CastCall.pair (before ++ [call]) = accepted CastCall.pair before := by
        rw [accepted_concat, accept_of_mem ((mem_map_accepted before _).mpr hpair)]
      rw [hf]
      exact ⟨_, T, rfl, fun _ => ⟨rfl, rfl⟩, fun hne => absurd hpair hne,
        ih (hacc ▸ hrows) hboxes⟩
    · have hacc : accepted CastCall.pair (before ++ [call]) =
          accepted CastCall.pair before ++ [call] := by
        rw [accepted_concat, accept_of_notMem (mt (mem_map_accepted before _).mp hpair)]
      obtain ⟨i, castTo, happend, hrows'⟩ := hrows.concat call
      rw [conversionOf_eq_none_iff.mpr hpair]
      refine ⟨0, Function.update T call.source castTo, ?_, fun hmem => absurd hmem hpair, fun _ => rfl,
        ih (hacc ▸ hrows') hboxes⟩
      rw [Option.bind_eq_bind, Option.bind_some, happend]
      rfl

/-- A sequence of registrations gives the results it should, and in the end every pair has the
    function registered for it, exactly when the code of every function that is the first for its
    pair, read as a `struct lxc_cast_to`, names the target of the pair and the function. -/
theorem conversions_round_trip_iff (calls : List CastCall) :
    RoundTrip text (fun _ => none) [] calls ↔
      ∀ call ∈ accepted CastCall.pair calls, BoxesItself text call := by
  have hrows : Rows (fun _ => none) (accepted CastCall.pair []) := fun _ => .inl ⟨rfl, rfl⟩
  constructor
  · intro h
    have hfresh : Fresh text (accepted CastCall.pair []) := by
      intro source before call after he
      exact absurd he (by simp [row])
    obtain ⟨T, hrows', hfresh', hget⟩ := h.found text calls hrows hfresh
    rw [List.nil_append] at hrows' hfresh' hget
    intro call hcall
    refine boxesItself_of_found text (nodup_row calls call.source) (hfresh' call.source)
      (fun c hc => ?_) call (List.mem_filter.mpr ⟨hcall, by simp⟩)
    have hsource : call.source = c.source := by simpa using (List.mem_filter.mp hc).2
    rw [← hrows'.get, hget, hsource, conversionOf, ← find?_accepted]
    have hfind := (find?_eq_some_iff (nodup_accepted calls)).mpr ⟨List.mem_of_mem_filter hc, rfl⟩
    rw [show (c.source, c.target) = c.pair from rfl, hfind]
    rfl
  · intro hboxes
    exact roundTrip_of_boxesItself text calls hrows hboxes

/-- The code of the function begins with zeros: the registration succeeds, the look-up gives
    NULL. -/
theorem conversions_not_round_trip : ¬ RoundTrip (fun _ => some { target := none, castFunction := none })
    (fun _ => none) [] [{ source := .bool, target := .int, function := 0 }] := by
  rintro ⟨r, T, hres, -, -, hget⟩
  obtain rfl := (Prod.mk.inj (Option.some.inj hres)).2
  exact absurd (hget .bool .int) (by decide)

end LogxControll
