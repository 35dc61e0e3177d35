/-
  The registries by name of `core/accounting.c`: `REGISTERED_SIGNALS` and
  `REGISTERED_CONSTANT_VALUES`, with their look-ups (`core/facet.c`).

  Both are packed arrays that a name is searched in before an element is appended, so what they
  hold are the elements with the first of every name that was offered. The look-up of a signal by
  its ordinal tests the ordinal the wrong way round: it gives NULL for the ordinals that are there
  and reads behind the terminator for those that are not (`lxcGetSignalByOrdinal_correct_iff`).
-/
import LogxControll.Core.Types
import LogxControll.Core.Utils
import LogxControll.Lib.Run
import LogxControll.Lib.UniqueKeys

namespace LogxControll

open UniqueKeys

section Named

variable {α : Type} (name : α → String)

/-- The loop of the look-ups by name. -/
def findNamed (str : String) : List (Option α) → Option (Option α)
  | [] => none
  | none :: _ => some none
  | some x :: rest => if str = name x then some (some x) else findNamed str rest

/-- The common text of the look-ups by name. -/
def getByName (str : String) (registered : PntArray α) : Option (Option α) :=
  match registered with
  | none => some none
  | some block => findNamed name str block

/-- The common text of the registrations. -/
def registerNamed (x : α) (registered : PntArray α) : Option (Int × PntArray α) := do
  match ← getByName name (name x) registered with
  | some _ => return (LxcErrno.entityAlreadyRegistered.code, registered)
  | none =>
    let (_, registered) ← arrayPntAppendElement registered (some x)
    return (0, registered)

theorem findNamed_eq (str : String) (l : List α) :
    findNamed name str (l.map some ++ [none]) = some (l.find? fun x => str = name x) := by
  induction l with
  | nil => rfl
  | cons x l ih =>
    rw [List.map_cons, List.cons_append, findNamed]
    by_cases hx : str = name x
    · rw [if_pos hx, List.find?_cons_of_pos (by simpa using hx)]
    · rw [if_neg hx, List.find?_cons_of_neg (by simpa using hx), ih]

theorem getByName_of_packed (str : String) {registered : PntArray α} {l : List α}
    (h : Packed registered l) :
    getByName name str registered = some (l.find? fun x => str = name x) := by
  rcases h with ⟨rfl, rfl⟩ | rfl
  · rfl
  · exact findNamed_eq name str l

/-- A name that is there is refused; otherwise the element is the last one afterwards. -/
theorem registerNamed_of_packed (x : α) {registered : PntArray α} {l : List α}
    (h : Packed registered l) :
    (name x ∈ l.map name ∧ registerNamed name x registered =
        some (LxcErrno.entityAlreadyRegistered.code, registered)) ∨
    name x ∉ l.map name ∧ ∃ registered', registerNamed name x registered = some (0, registered') ∧
      Packed registered' (l ++ [x]) := by
  unfold registerNamed
  rw [getByName_of_packed name (name x) h, Option.bind_eq_bind, Option.bind_some]
  cases hfind : l.find? fun y => name x = name y with
  | some y =>
    refine .inl ⟨?_, rfl⟩
    by_contra hx
    rw [find?_eq_none_iff.mpr hx] at hfind
    cases hfind
  | none =>
    refine .inr ⟨find?_eq_none_iff.mp hfind, _, ?_, packed_block (l ++ [x])⟩
    rw [arrayPntAppendElement_of_packed h]
    rfl

/-- A call of a registration, with the accepted elements beside the array. -/
def registerStep (S : PntArray α × List α) (x : α) : Option (PntArray α × List α) := do
  let (r, registered) ← registerNamed name x S.1
  return (registered, if r = 0 then S.2 ++ [x] else S.2)

theorem registerStep_of_packed {registered : PntArray α} {l : List α} (h : Packed registered l)
    (x : α) : ∃ registered', registerStep name (registered, l) x =
      some (registered', accept name l x) ∧ Packed registered' (accept name l x) := by
  unfold registerStep
  rcases registerNamed_of_packed name x h with ⟨hx, hres⟩ | ⟨hx, registered', hres, h'⟩
  · rw [hres, accept_of_mem hx]
    exact ⟨registered, rfl, h⟩
  · rw [hres, accept_of_notMem hx]
    exact ⟨registered', rfl, h'⟩

/-- What a sequence of registrations leaves. -/
theorem run_registerStep (xs : List α) :
    ∃ registered, Run.run (registerStep name) (none, []) xs = some (registered, accepted name xs) ∧
      Packed registered (accepted name xs) := by
  induction xs using List.reverseRecOn with
  | nil => exact ⟨none, rfl, .inl ⟨rfl, rfl⟩⟩
  | append_singleton xs x ih =>
    obtain ⟨registered, hrun, h⟩ := ih
    obtain ⟨registered', hstep, h'⟩ := registerStep_of_packed name h x
    rw [← accepted_concat] at hstep h'
    refine ⟨registered', ?_, h'⟩
    rw [Run.run_append, hrun, Option.bind_some, Run.run_cons, hstep]
    rfl

end Named

/-! ## Signals -/

variable (signalName : Signal → String)

/-- `lxc_get_signal_by_name` -/
def lxcGetSignalByName (str : String) (registeredSignals : PntArray Signal) :
    Option (Option Signal) :=
  getByName signalName str registeredSignals

/-- `lxc_register_signal` -/
def lxcRegisterSignal (signal : Signal) (registeredSignals : PntArray Signal) :
    Option (Int × PntArray Signal) :=
  registerNamed signalName signal registeredSignals

/-- The ordinals below the length are the ones that are refused. -/
def lxcGetSignalByOrdinal (ordinal : Int) (registeredSignals : PntArray Signal) :
    Option (Option Signal) :=
  if ordinal < 0 then some none
  else do
    let len ← arrayPntPopulation registeredSignals
    if ordinal < len then
      return none
    else
      let block ← registeredSignals
      block[ordinal.toNat]?

/-- Only the terminator is left to be read. -/
theorem lxcGetSignalByOrdinal_of_packed {registeredSignals : PntArray Signal} {l : List Signal}
    (h : Packed registeredSignals l) (k : Int) :
    lxcGetSignalByOrdinal k registeredSignals =
      if k < l.length ∨ registeredSignals ≠ none ∧ k = l.length then some none else none := by
  unfold lxcGetSignalByOrdinal
  rw [arrayPntPopulation_of_packed h]
  by_cases hneg : k < 0
  · rw [if_pos hneg, if_pos (.inl (by omega))]
  · rw [if_neg hneg, Option.bind_eq_bind, Option.bind_some]
    by_cases hlt : k < l.length
    · rw [if_pos hlt, if_pos (.inl hlt)]
      rfl
    · rw [if_neg hlt]
      rcases h with ⟨rfl, rfl⟩ | rfl
      · rw [if_neg (by simpa using hlt)]
        rfl
      · by_cases hk : k = l.length
        · subst hk
          rw [if_pos (.inr ⟨by simp, rfl⟩)]
          simp
        · rw [if_neg (by simp [hlt, hk])]
          refine List.getElem?_eq_none ?_
          rw [List.length_append, List.length_map, List.length_singleton]
          omega

/-! ## Constants -/

/-- A `struct lxc_constant_value*`. -/
abbrev ConstantId := Nat

variable (constantName : ConstantId → String)

/-- `lxc_get_constant_by_name` -/
def lxcGetConstantByName (name : String) (registeredConstantValues : PntArray ConstantId) :
    Option (Option ConstantId) :=
  getByName constantName name registeredConstantValues

/-- `lxc_register_constant_value` -/
def lxcRegisterConstantValue (val : ConstantId) (registeredConstantValues : PntArray ConstantId) :
    Option (Int × PntArray ConstantId) :=
  registerNamed constantName val registeredConstantValues

/-! ## The look-ups agree -/

/-- `r` is the `k`-th of the elements, NULL when there is none. -/
def IsNth (l : List Signal) (k : Int) (r : Option Signal) : Prop :=
  r = if 0 ≤ k ∧ k < l.length then l[k.toNat]? else none

instance (l : List Signal) (k : Int) (r : Option Signal) : Decidable (IsNth l k r) :=
  inferInstanceAs (Decidable (_ = _))

/-- After every sequence of registrations the accepted signals have different names, a refused one
    changes nothing, and the look-up by name finds the accepted signal of the name. The look-up by
    ordinal gives the signal at the position exactly for the negative ordinals and, when there was a
    registration at all, for the number of accepted signals. -/
theorem lxcGetSignalByOrdinal_correct_iff (calls : List Signal) (k : Int) :
    (∃ registered accepted,
      Run.run (registerStep signalName) (none, []) calls = some (registered, accepted) ∧
      (accepted.map signalName).Nodup ∧
      (∀ signal, ∃ r registered', lxcRegisterSignal signalName signal registered =
        some (r, registered') ∧ (r ≠ 0 → registered' = registered)) ∧
      (∀ str, ∃ r, lxcGetSignalByName signalName str registered = some r ∧
        ∀ signal, r = some signal ↔ signal ∈ accepted ∧ signalName signal = str) ∧
      ∃ r, lxcGetSignalByOrdinal k registered = some r ∧ IsNth accepted k r) ↔
    k < 0 ∨ calls ≠ [] ∧ k = ((calls.map signalName).toFinset.card : Int) := by
  obtain ⟨registered, hrun, h⟩ := run_registerStep signalName calls
  have hnonempty : registered ≠ none ↔ calls ≠ [] := by
    cases calls with
    | nil =>
      obtain ⟨rfl, -⟩ := Prod.mk.inj (Option.some.inj hrun)
      simp
    | cons s calls =>
      refine iff_of_true ?_ (List.cons_ne_nil _ _)
      rintro rfl
      have hmem : signalName s ∈ (accepted signalName (s :: calls)).map signalName :=
        (mem_map_accepted (s :: calls) (signalName s)).mpr (by simp)
      rcases h with ⟨-, hnil⟩ | hsome
      · rw [hnil] at hmem
        cases hmem
      · cases hsome
  have hordinal := lxcGetSignalByOrdinal_of_packed h k
  rw [← length_accepted, ← hnonempty]
  constructor
  · rintro ⟨registered', accepted', hrun', -, -, -, r, hr, hnth⟩
    obtain ⟨rfl, rfl⟩ := Prod.mk.inj (Option.some.inj (hrun'.symm.trans hrun))
    rw [hordinal] at hr
    split at hr
    · next hk =>
      obtain rfl := Option.some.inj hr
      refine hk.imp_left fun hlt => ?_
      by_contra hneg
      rw [IsNth, if_pos ⟨by omega, hlt⟩, List.getElem?_eq_getElem (by omega)] at hnth
      cases hnth
    · cases hr
  · intro hk
    refine ⟨registered, _, hrun, nodup_accepted calls, fun signal => ?_, fun str => ?_, none, ?_, ?_⟩
    · rcases registerNamed_of_packed signalName signal h with ⟨-, hres⟩ | ⟨-, registered', hres, -⟩
      · exact ⟨_, _, hres, fun _ => rfl⟩
      · exact ⟨_, _, hres, fun hne => absurd rfl hne⟩
    · exact ⟨_, getByName_of_packed signalName str h, fun signal =>
        find?_eq_some_iff (nodup_accepted calls)⟩
    · rw [hordinal, if_pos (hk.imp_left fun hneg => by omega)]
    · rw [IsNth, if_neg]
      rintro ⟨hpos, hlt⟩
      rcases hk with hneg | ⟨-, rfl⟩
      · omega
      · exact lt_irrefl _ hlt

/-- The only signal there is not found at its position. -/
theorem lxcGetSignalByOrdinal_misses : ∃ registered,
    Run.run (registerStep fun _ => "bool") (none, []) [Signal.bool] =
      some (registered, [Signal.bool]) ∧
    lxcGetSignalByOrdinal 0 registered = some none ∧ ¬ IsNth [Signal.bool] 0 none :=
  ⟨_, rfl, rfl, by decide⟩

end LogxControll
