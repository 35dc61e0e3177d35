/-
  `lxc_load_library` (`core/accounting.c`).

  Gates, signals and constants are registered one after another. A gate or constant whose name is
  taken is reported and left out; the first such signal ends the call. What was registered by then
  stays, also when the library's own operation fails in the end, so a call that fails leaves
  everything as it was only if it had nothing to register (`lxcLoadLibrary_atomic_iff`).
-/
import LogxControll.Core.LibraryTree
import LogxControll.Core.NamedRegistries

namespace LogxControll

open UniqueKeys

/-- `const char** errors`: NULL, or the cells of the caller's array. -/
abbrev ErrorArray := Option (List (Option String))

/-- What a library is asked to do, before its parts are registered and after. -/
inductive LibraryOperation where
  | beforeLoad
  | afterLoaded
  deriving DecidableEq, Repr

/-- What a library operation returns and writes to the array it is given. It puts texts into free
    slots only. -/
structure LibraryFunction where
  result : LibraryOperation → Int
  write : LibraryOperation → List (Option String) → List (Option String)
  length_write : ∀ op block, (write op block).length = block.length
  keeps : ∀ op block (i : Nat) text, block[i]? = some (some text) →
    (write op block)[i]? = some (some text)

/-- `struct lxc_loadable_library`, as it is once the library was told of the load. Every array is
    NULL, or the elements before its terminator. -/
structure LxcLoadableLibrary where
  libraryOperation : Option LibraryFunction
  gates : Option (List BehaviorId)
  signals : Option (List Signal)
  constants : Option (List ConstantId)

/-- What the registrations of a library write to. -/
structure Registries where
  accounting : Accounting
  registeredSignals : PntArray Signal
  registeredConstantValues : PntArray ConstantId

/-- The report of a clash: a text and the name. -/
def reportClash (text : String) (name : Option String) (maxlength : Nat) (errors : ErrorArray) :
    Option ErrorArray := do
  let (_, errors) ← arrayFixTryAddLastNull errors maxlength (some text)
  let (_, errors) ← arrayFixTryAddLastNull errors maxlength name
  return errors

section Loops

variable {σ ι : Type} (register : ι → σ → Option (Int × σ)) (nameOf : ι → Option String)
  (text : String) (maxlength : Nat)

/-- The loops over gates and constants: what is refused is reported. -/
def registerAll : List ι → σ → ErrorArray → Option (σ × ErrorArray)
  | [], s, errors => some (s, errors)
  | x :: xs, s, errors => do
    let (ret, s) ← register x s
    if ret ≠ 0 then
      let errors ← reportClash text (nameOf x) maxlength errors
      registerAll xs s errors
    else
      registerAll xs s errors

/-- The loop over signals: the first one that is refused is reported, and its error returned. -/
def registerUntilClash : List ι → σ → ErrorArray → Option (Int × σ × ErrorArray)
  | [], s, errors => some (0, s, errors)
  | x :: xs, s, errors => do
    let (ret, s) ← register x s
    if ret ≠ 0 then
      let errors ← reportClash text (nameOf x) maxlength errors
      return (ret, s, errors)
    else
      registerUntilClash xs s errors

end Loops

/-- What the library operation leaves in the array. -/
def LxcLoadableLibrary.operate (lib : LxcLoadableLibrary) (op : LibraryOperation)
    (errors : ErrorArray) : ErrorArray :=
  match lib.libraryOperation with
  | none => errors
  | some libop => errors.map (libop.write op)

variable (behaviors : BehaviorId → LxcGateBehavior) (signalName : Signal → String)
  (constantName : ConstantId → String)

/-- The result of the operation before the load is not looked at. -/
def lxcLoadLibrary (lib : Option LxcLoadableLibrary) (maxlength : Nat) (errors : ErrorArray)
    (R : Registries) : Option (Int × Registries × ErrorArray) :=
  match lib with
  | none => do
    let (_, errors) ← arrayFixTryAddLastNull errors maxlength (some "Library reference is NULL.")
    return (LxcErrno.badCall.code, R, errors)
  | some lib => do
    let errors := lib.operate .beforeLoad errors
    let (accounting, errors) ← registerAll (lxcRegisterGate behaviors)
      (fun g => (behaviors g).gateName) "Gate already registered." maxlength
      (lib.gates.getD []) R.accounting errors
    let (ret, signals, errors) ← registerUntilClash (lxcRegisterSignal signalName)
      (fun s => some (signalName s)) "Signal already registered." maxlength
      (lib.signals.getD []) R.registeredSignals errors
    let R := { R with accounting := accounting, registeredSignals := signals }
    if ret ≠ 0 then return (ret, R, errors)
    else
      let (constants, errors) ← registerAll (lxcRegisterConstantValue constantName)
        (fun c => some (constantName c)) "Constant already registered." maxlength
        (lib.constants.getD []) R.registeredConstantValues errors
      let R := { R with registeredConstantValues := constants }
      match lib.libraryOperation with
      | none => return (0, R, errors)
      | some libop => return (libop.result .afterLoaded, R, lib.operate .afterLoaded errors)

/-! ## Reports -/

/-- The array for errors, where there is one, has room for `maxlength` of them. -/
def Fits (maxlength : Nat) (errors : ErrorArray) : Prop :=
  ∀ block, errors = some block → maxlength ≤ block.length

/-- The array is the same one, and the texts in it stayed. -/
structure Grown (errors errors' : ErrorArray) : Prop where
  length : errors'.map List.length = errors.map List.length
  keeps : ∀ block block', errors = some block → errors' = some block' → ∀ (i : Nat) text,
    block[i]? = some (some text) → block'[i]? = some (some text)

/-- The text is in the array, or no slot is left. -/
def Reported (maxlength : Nat) (errors : ErrorArray) (text : String) : Prop :=
  ∀ block, errors = some block → some text ∈ block.take maxlength ∨ none ∉ block.take maxlength

theorem mem_take_iff_getElem? {α : Type} {l : List α} {n : Nat} {x : α} :
    x ∈ l.take n ↔ ∃ i < n, l[i]? = some x := by
  rw [List.mem_iff_getElem?]
  refine exists_congr fun i => ?_
  rw [List.getElem?_take]
  split
  · next hi => simp [hi]
  · next hi => simp [hi]

section Reports

variable {maxlength : Nat} {errors errors₁ errors' : ErrorArray} {text : String}

theorem Grown.refl (errors : ErrorArray) : Grown errors errors where
  length := rfl
  keeps := by
    rintro block block' rfl hblock' i text htext
    obtain rfl := Option.some.inj hblock'
    exact htext

/-- The cells of the same array before. -/
theorem Grown.before (h : Grown errors errors') {block' : List (Option String)}
    (hblock' : errors' = some block') :
    ∃ block, errors = some block ∧ block'.length = block.length := by
  have hlength := h.length
  cases errors with
  | none =>
    rw [hblock'] at hlength
    cases hlength
  | some block =>
    rw [hblock'] at hlength
    exact ⟨block, rfl, Option.some.inj hlength⟩

theorem Grown.trans (h : Grown errors errors₁) (h' : Grown errors₁ errors') :
    Grown errors errors' where
  length := h'.length.trans h.length
  keeps := by
    intro block block' hblock hblock' i text htext
    obtain ⟨block₁, hblock₁, -⟩ := h'.before hblock'
    exact h'.keeps block₁ block' hblock₁ hblock' i text
      (h.keeps block block₁ hblock hblock₁ i text htext)

theorem Fits.grown (h : Fits maxlength errors) (hgrown : Grown errors errors') :
    Fits maxlength errors' := by
  intro block' hblock'
  obtain ⟨block, hblock, hlen⟩ := hgrown.before hblock'
  rw [hlen]
  exact h block hblock

theorem Reported.grown (h : Reported maxlength errors text) (hgrown : Grown errors errors') :
    Reported maxlength errors' text := by
  intro block' hblock'
  obtain ⟨block, hblock, hlen⟩ := hgrown.before hblock'
  refine (h block hblock).imp (fun htext => ?_) fun hfull hnone => ?_
  · obtain ⟨i, hi, hcell⟩ := mem_take_iff_getElem?.mp htext
    exact mem_take_iff_getElem?.mpr
      ⟨i, hi, hgrown.keeps block block' hblock hblock' i text hcell⟩
  · -- a free slot now was one before
    obtain ⟨i, hi, hfree⟩ := mem_take_iff_getElem?.mp hnone
    have hlt : i < block.length := by
      rw [← hlen]
      exact (List.getElem?_eq_some_iff.mp hfree).1
    cases hcell : block[i] with
    | none =>
      refine hfull (mem_take_iff_getElem?.mpr ⟨i, hi, ?_⟩)
      rw [List.getElem?_eq_getElem hlt, hcell]
    | some other =>
      have hkept := hgrown.keeps block block' hblock hblock' i other
        (by rw [List.getElem?_eq_getElem hlt, hcell])
      rw [hfree] at hkept
      cases hkept

theorem arrayFixTryAddLastNull_reports (h : Fits maxlength errors) (element : Option String) :
    ∃ b errors', arrayFixTryAddLastNull errors maxlength element = some (b, errors') ∧
      Grown errors errors' ∧ ∀ text, element = some text → Reported maxlength errors' text := by
  unfold arrayFixTryAddLastNull
  cases herrors : errors with
  | none => exact ⟨false, none, rfl, .refl none, fun text _ block hblock => by cases hblock⟩
  | some block =>
    simp only [arrayFixFirstFreeSlot_eq block (h block herrors), Option.bind_eq_bind,
      Option.bind_some]
    cases hslot : (block.take maxlength).findIdx? Option.isNone with
    | none =>
      refine ⟨false, some block, rfl, .refl _, ?_⟩
      rintro text - block' hblock'
      obtain rfl := Option.some.inj hblock'
      exact .inr fun hnone => by simpa using List.findIdx?_eq_none_iff.mp hslot none hnone
    | some index =>
      obtain ⟨hlt, hfree, -⟩ := List.findIdx?_eq_some_iff_getElem.mp hslot
      rw [List.getElem_take, Option.isNone_iff_eq_none] at hfree
      rw [List.length_take] at hlt
      refine ⟨true, some (block.set index element), rfl, ⟨by simp, ?_⟩, ?_⟩
      · intro block₀ block' hblock₀ hblock' i text htext
        obtain rfl := Option.some.inj hblock₀
        obtain rfl := Option.some.inj hblock'
        rw [List.getElem?_set_ne ?_, htext]
        rintro rfl
        rw [List.getElem?_eq_getElem (by omega), hfree] at htext
        cases htext
      · rintro text rfl block' hblock'
        obtain rfl := Option.some.inj hblock'
        exact .inl (mem_take_iff_getElem?.mpr
          ⟨index, by omega, List.getElem?_set_self (by omega)⟩)

theorem reportClash_reports (h : Fits maxlength errors) (text : String) (name : Option String) :
    ∃ errors', reportClash text name maxlength errors = some errors' ∧ Grown errors errors' ∧
      Reported maxlength errors' text ∧ ∀ n, name = some n → Reported maxlength errors' n := by
  obtain ⟨b₁, errors₁, hres₁, hgrown₁, htext⟩ := arrayFixTryAddLastNull_reports h (some text)
  obtain ⟨b₂, errors₂, hres₂, hgrown₂, hname⟩ :=
    arrayFixTryAddLastNull_reports (h.grown hgrown₁) name
  refine ⟨errors₂, ?_, hgrown₁.trans hgrown₂, (htext text rfl).grown hgrown₂, hname⟩
  simp only [reportClash, hres₁, hres₂, Option.bind_eq_bind, Option.bind_some]
  rfl

end Reports

/-! ## The loops -/

/-- What a registration does to a state that holds the accepted elements: it refuses an element and
    changes nothing, or accepts it when it is good, and does not return when it is not. -/
structure Registers {σ ι : Type} (register : ι → σ → Option (Int × σ)) (Holds : σ → List ι → Prop)
    (refused : List ι → ι → Prop) (good : ι → Prop) : Prop where
  refuse : ∀ s l x, Holds s l → refused l x → ∃ r, r ≠ 0 ∧ register x s = some (r, s)
  accept : ∀ s l x, Holds s l → ¬ refused l x → good x →
    ∃ s', register x s = some (0, s') ∧ Holds s' (l ++ [x])
  crash : ∀ s l x, Holds s l → ¬ refused l x → ¬ good x → register x s = none

section Registrations

variable {σ ι : Type} {register : ι → σ → Option (Int × σ)} {Holds : σ → List ι → Prop}
  {refused : List ι → ι → Prop} [∀ l x, Decidable (refused l x)] {good : ι → Prop}
  {maxlength : Nat}

/-- Every element of the list is reported. -/
def ReportedAll (text : String) (nameOf : ι → Option String) (maxlength : Nat) (errors : ErrorArray)
    (xs : List ι) : Prop :=
  ∀ x ∈ xs, Reported maxlength errors text ∧ ∀ n, nameOf x = some n → Reported maxlength errors n

theorem ReportedAll.grown {text : String} {nameOf : ι → Option String} {errors errors' : ErrorArray}
    {xs : List ι}
    (h : ReportedAll text nameOf maxlength errors xs) (hgrown : Grown errors errors') :
    ReportedAll text nameOf maxlength errors' xs := fun x hx =>
  ⟨(h x hx).1.grown hgrown, fun n hn => ((h x hx).2 n hn).grown hgrown⟩

variable (nameOf : ι → Option String) (text : String)

theorem Registers.registerAll_spec (h : Registers register Holds refused good) (xs : List ι) :
    ∀ {s : σ} {l : List ι} {errors : ErrorArray}, Holds s l → Fits maxlength errors →
      (∀ x ∈ newOnes refused l xs, good x) →
      ∃ s' errors', registerAll register nameOf text maxlength xs s errors = some (s', errors') ∧
        Holds s' (l ++ newOnes refused l xs) ∧ (newOnes refused l xs = [] → s' = s) ∧
        Grown errors errors' ∧
        ReportedAll text nameOf maxlength errors' (clashes refused l xs) := by
  induction xs with
  | nil =>
    intro s l errors hs _ _
    exact ⟨s, errors, rfl, by simpa [newOnes] using hs, fun _ => rfl, .refl errors,
      by simp [ReportedAll, clashes]⟩
  | cons x xs ih =>
    intro s l errors hs hfits hgood
    by_cases hx : refused l x
    · obtain ⟨r, hr, hres⟩ := h.refuse s l x hs hx
      obtain ⟨errors₁, hreport, hgrown₁, htext, hname⟩ :=
        reportClash_reports hfits text (nameOf x)
      rw [newOnes_of_refused hx] at hgood ⊢
      rw [clashes_of_refused hx]
      obtain ⟨s', errors', hrest, hs', hsame, hgrown, hreported⟩ :=
        ih hs (hfits.grown hgrown₁) hgood
      refine ⟨s', errors', ?_, hs', hsame, hgrown₁.trans hgrown, fun y hy => ?_⟩
      · simp only [registerAll, hres, hreport, Option.bind_eq_bind, Option.bind_some, ne_eq, hr,
          not_false_eq_true, if_true]
        exact hrest
      · rcases List.mem_cons.mp hy with rfl | hy
        · exact ⟨htext.grown hgrown, fun n hn => (hname n hn).grown hgrown⟩
        · exact hreported y hy
    · rw [newOnes_of_new hx] at hgood ⊢
      rw [clashes_of_new hx]
      obtain ⟨s₁, hres, hs₁⟩ := h.accept s l x hs hx (hgood x List.mem_cons_self)
      obtain ⟨s', errors', hrest, hs', -, hgrown, hreported⟩ :=
        ih hs₁ hfits fun y hy => hgood y (List.mem_cons_of_mem x hy)
      refine ⟨s', errors', ?_, by simpa using hs', fun hnil => absurd hnil (List.cons_ne_nil _ _),
        hgrown, hreported⟩
      simp only [registerAll, hres, Option.bind_eq_bind, Option.bind_some, ne_eq, not_true_eq_false,
        if_false]
      exact hrest

theorem Registers.registerAll_eq_none (h : Registers register Holds refused good) (xs : List ι) :
    ∀ {s : σ} {l : List ι} {errors : ErrorArray}, Holds s l → Fits maxlength errors →
      ∀ {x : ι}, x ∈ newOnes refused l xs → ¬ good x →
      registerAll register nameOf text maxlength xs s errors = none := by
  induction xs with
  | nil =>
    intro s l errors _ _ x hx
    cases hx
  | cons y xs ih =>
    intro s l errors hs hfits x hx hbad
    by_cases hy : refused l y
    · obtain ⟨r, hr, hres⟩ := h.refuse s l y hs hy
      obtain ⟨errors₁, hreport, hgrown₁, -⟩ := reportClash_reports hfits text (nameOf y)
      rw [newOnes_of_refused hy] at hx
      simp only [registerAll, hres, hreport, Option.bind_eq_bind, Option.bind_some, ne_eq, hr,
        not_false_eq_true, if_true]
      exact ih hs (hfits.grown hgrown₁) hx hbad
    · rw [newOnes_of_new hy] at hx
      by_cases hgood : good y
      · obtain ⟨s₁, hres, hs₁⟩ := h.accept s l y hs hy hgood
        have hx' : x ∈ newOnes refused (l ++ [y]) xs := by
          refine (List.mem_cons.mp hx).resolve_left ?_
          rintro rfl
          exact hbad hgood
        simp only [registerAll, hres, Option.bind_eq_bind, Option.bind_some, ne_eq,
          not_true_eq_false, if_false]
        exact ih hs₁ hfits hx' hbad
      · simp only [registerAll, h.crash s l y hs hy hgood, Option.bind_eq_bind, Option.bind_none]

/-- Without a clash everything is registered. Otherwise what comes before the first clash is. -/
theorem Registers.registerUntilClash_spec (h : Registers register Holds refused good)
    (hgood : ∀ x, good x) (xs : List ι) :
    ∀ {s : σ} {l : List ι} {errors : ErrorArray}, Holds s l → Fits maxlength errors →
      ∃ ret s' errors',
        registerUntilClash register nameOf text maxlength xs s errors = some (ret, s', errors') ∧
        Grown errors errors' ∧ (xs = [] → s' = s) ∧
        (clashes refused l xs = [] → ret = 0 ∧ Holds s' (l ++ xs)) ∧
        (clashes refused l xs ≠ [] → ret ≠ 0 ∧ ∃ before, before <+: xs ∧ Holds s' (l ++ before) ∧
          ((∃ x ∈ xs.head?, refused l x) ↔ before = []) ∧ (before = [] → s' = s)) := by
  induction xs with
  | nil =>
    intro s l errors hs _
    exact ⟨0, s, errors, rfl, .refl errors, fun _ => rfl, fun _ => ⟨rfl, by simpa using hs⟩,
      fun hne => absurd rfl hne⟩
  | cons x xs ih =>
    intro s l errors hs hfits
    by_cases hx : refused l x
    · obtain ⟨r, hr, hres⟩ := h.refuse s l x hs hx
      obtain ⟨errors₁, hreport, hgrown₁, -⟩ := reportClash_reports hfits text (nameOf x)
      refine ⟨r, s, errors₁, ?_, hgrown₁, fun hnil => absurd hnil (List.cons_ne_nil _ _),
        fun hnil => ?_, fun _ => ⟨hr, [], List.nil_prefix, by simpa using hs, by simp [hx],
          fun _ => rfl⟩⟩
      · simp only [registerUntilClash, hres, hreport, Option.bind_eq_bind, Option.bind_some, ne_eq,
          hr, not_false_eq_true, if_true]
        rfl
      · rw [clashes_of_refused hx] at hnil
        cases hnil
    · obtain ⟨s₁, hres, hs₁⟩ := h.accept s l x hs hx (hgood x)
      obtain ⟨ret, s', errors', hrest, hgrown, -, hall, hclash⟩ := ih hs₁ hfits
      rw [clashes_of_new hx]
      refine ⟨ret, s', errors', ?_, hgrown, fun hnil => absurd hnil (List.cons_ne_nil _ _),
        fun hnil => ?_, fun hne => ?_⟩
      · simp only [registerUntilClash, hres, Option.bind_eq_bind, Option.bind_some, ne_eq,
          not_true_eq_false, if_false]
        exact hrest
      · obtain ⟨hret, hs'⟩ := hall hnil
        exact ⟨hret, by simpa using hs'⟩
      · obtain ⟨hret, before, hbefore, hs', -⟩ := hclash hne
        exact ⟨hret, x :: before, List.cons_prefix_cons.mpr ⟨rfl, hbefore⟩, by simpa using hs',
          by simp [hx], fun hnil => absurd hnil (List.cons_ne_nil _ _)⟩

end Registrations

/-! ## The three registries -/

/-- A behavior without a name, or with a name that is taken. -/
def GateRefused (l : List BehaviorId) (g : BehaviorId) : Prop :=
  (behaviors g).gateName = none ∨ (behaviors g).gateName ∈ l.map fun b => (behaviors b).gateName

instance (l : List BehaviorId) (g : BehaviorId) : Decidable (GateRefused behaviors l g) :=
  inferInstanceAs (Decidable (_ ∨ _))

/-- The name of a signal is registered already. -/
def SignalRefused (l : List Signal) (s : Signal) : Prop := signalName s ∈ l.map signalName

instance (l : List Signal) (s : Signal) : Decidable (SignalRefused signalName l s) :=
  inferInstanceAs (Decidable (_ ∈ _))

/-- The name of a constant is registered already. -/
def ConstantRefused (l : List ConstantId) (c : ConstantId) : Prop :=
  constantName c ∈ l.map constantName

instance (l : List ConstantId) (c : ConstantId) : Decidable (ConstantRefused constantName l c) :=
  inferInstanceAs (Decidable (_ ∈ _))

theorem registers_gates : Registers (lxcRegisterGate behaviors)
    (fun A l => ∃ t, Accounting.Reached behaviors A l t) (GateRefused behaviors)
    (fun g => [] ∉ (behaviors g).paths.getD []) where
  refuse := by
    rintro A l g ⟨t, h⟩ hg
    refine h.register_refused fun name hname => ?_
    rw [GateRefused, hname] at hg
    exact hg.resolve_left (by simp)
  accept := by
    rintro A l g ⟨t, h⟩ hg hgood
    obtain ⟨hnamed, hnew⟩ := not_or.mp hg
    obtain ⟨name, hname⟩ := Option.ne_none_iff_exists'.mp hnamed
    rw [hname] at hnew
    obtain ⟨A', t', hres, h', -⟩ := h.register_new hname hnew hgood
    exact ⟨A', hres, t', h'⟩
  crash := by
    rintro A l g ⟨t, h⟩ hg hbad
    obtain ⟨hnamed, hnew⟩ := not_or.mp hg
    obtain ⟨name, hname⟩ := Option.ne_none_iff_exists'.mp hnamed
    rw [hname] at hnew
    rw [h.lxcRegisterGate_eq hname hnew,
      Accounting.listGate_eq_none g (not_not.mp hbad) (h.tree.setRegistered _)]
    rfl

theorem registers_named {α : Type} (name : α → String) :
    Registers (registerNamed name) Packed (fun l x => name x ∈ l.map name) (fun _ => True) where
  refuse := by
    intro registered l x h hx
    obtain ⟨-, hres⟩ | ⟨hnew, -⟩ := registerNamed_of_packed name x h
    · exact ⟨_, by decide, hres⟩
    · exact absurd hx hnew
  accept := by
    intro registered l x h hx _
    obtain ⟨hold, -⟩ | ⟨-, hres⟩ := registerNamed_of_packed name x h
    · exact absurd hold hx
    · exact hres
  crash := fun _ _ _ _ _ hbad => absurd trivial hbad

theorem registers_signals : Registers (lxcRegisterSignal signalName) Packed
    (SignalRefused signalName) (fun _ => True) := registers_named signalName

theorem registers_constants : Registers (lxcRegisterConstantValue constantName) Packed
    (ConstantRefused constantName) (fun _ => True) := registers_named constantName

/-- What the registries hold: the gates in the order of their registration, with the library tree
    that lists them, the signals and the constants. -/
structure Registries.Holds (R : Registries) (gates : List BehaviorId) (signals : List Signal)
    (constants : List ConstantId) : Prop where
  gates : ∃ t, Accounting.Reached behaviors R.accounting gates t
  signals : Packed R.registeredSignals signals
  constants : Packed R.registeredConstantValues constants

/-- What the library operation returns in the end. -/
def LxcLoadableLibrary.afterLoaded (lib : LxcLoadableLibrary) : Int :=
  match lib.libraryOperation with
  | none => 0
  | some libop => libop.result .afterLoaded

theorem LxcLoadableLibrary.grown_operate (lib : LxcLoadableLibrary) (op : LibraryOperation)
    (errors : ErrorArray) : Grown errors (lib.operate op errors) := by
  unfold LxcLoadableLibrary.operate
  cases lib.libraryOperation with
  | none => exact .refl errors
  | some libop =>
    refine ⟨?_, ?_⟩
    · cases errors with
      | none => rfl
      | some block => exact congrArg some (libop.length_write op block)
    · rintro block block' rfl hblock' i text htext
      obtain rfl := Option.some.inj hblock'
      exact libop.keeps op block i text htext

section Load

variable (lib : LxcLoadableLibrary) (gates : List BehaviorId) (signals : List Signal)
  (constants : List ConstantId)

/-- The gates of the library that get registered, in order. -/
def newGates : List BehaviorId := newOnes (GateRefused behaviors) gates (lib.gates.getD [])

/-- Its signals that get registered. -/
def newSignals : List Signal := newOnes (SignalRefused signalName) signals (lib.signals.getD [])

/-- Its constants that get registered. -/
def newConstants : List ConstantId :=
  newOnes (ConstantRefused constantName) constants (lib.constants.getD [])

/-- Everything with a free name is registered, and every clash is in the error array, as long as
    slots are left. -/
structure Loaded (maxlength : Nat) (R' : Registries) (errors' : ErrorArray) : Prop where
  holds : R'.Holds behaviors (gates ++ newGates behaviors lib gates)
    (signals ++ newSignals signalName lib signals)
    (constants ++ newConstants constantName lib constants)
  gateClashes : ReportedAll "Gate already registered." (fun g => (behaviors g).gateName) maxlength
    errors' (clashes (GateRefused behaviors) gates (lib.gates.getD []))
  signalClashes : ReportedAll "Signal already registered." (fun s => some (signalName s)) maxlength
    errors' (clashes (SignalRefused signalName) signals (lib.signals.getD []))
  constantClashes : ReportedAll "Constant already registered." (fun c => some (constantName c))
    maxlength errors' (clashes (ConstantRefused constantName) constants (lib.constants.getD []))

/-- No gate that is new has an empty path. And either the first signal has a name that is taken, and
    no gate is new; or no signal has, and the operation returns 0 in the end or there is nothing at
    all to register. -/
def LoadsAtomically : Prop :=
  (∀ g ∈ newGates behaviors lib gates, [] ∉ (behaviors g).paths.getD []) ∧
  (newGates behaviors lib gates = [] ∧
      (∃ s ∈ (lib.signals.getD []).head?, SignalRefused signalName signals s) ∨
    clashes (SignalRefused signalName) signals (lib.signals.getD []) = [] ∧
      (lib.afterLoaded = 0 ∨ newGates behaviors lib gates = [] ∧ lib.signals.getD [] = [] ∧
        newConstants constantName lib constants = []))

end Load

/-- A registry that holds more is another one. -/
theorem Packed.eq_nil_of_append {α : Type} {array : PntArray α} {l new : List α}
    (h : Packed array l) (h' : Packed array (l ++ new)) : new = [] := by
  have he := h.unique h'
  simpa using he

/-- A gate that cannot be listed ends the load. -/
theorem lxcLoadLibrary_eq_none {R : Registries} {gates : List BehaviorId} {signals : List Signal}
    {constants : List ConstantId} (hR : R.Holds behaviors gates signals constants)
    (lib : LxcLoadableLibrary) {maxlength : Nat} {errors : ErrorArray} (hfits : Fits maxlength errors)
    {g : BehaviorId} (hg : g ∈ newGates behaviors lib gates)
    (hbad : [] ∈ (behaviors g).paths.getD []) :
    lxcLoadLibrary behaviors signalName constantName (some lib) maxlength errors R = none := by
  have hgates := (registers_gates behaviors).registerAll_eq_none (fun g => (behaviors g).gateName)
    "Gate already registered." (lib.gates.getD []) hR.gates
    (hfits.grown (lib.grown_operate .beforeLoad errors)) hg (not_not.mpr hbad)
  simp only [lxcLoadLibrary, hgates, Option.bind_eq_bind, Option.bind_none]

section Results

variable {R : Registries} {gates : List BehaviorId} {signals : List Signal}
  {constants : List ConstantId} (hR : R.Holds behaviors gates signals constants)
  (lib : LxcLoadableLibrary) {maxlength : Nat} {errors : ErrorArray} (hfits : Fits maxlength errors)
  (hpaths : ∀ g ∈ newGates behaviors lib gates, [] ∉ (behaviors g).paths.getD [])

include hR hfits hpaths

/-- The gates are registered before anything can fail. -/
theorem loadGates_spec : ∃ A' errors', registerAll (lxcRegisterGate behaviors)
      (fun g => (behaviors g).gateName) "Gate already registered." maxlength (lib.gates.getD [])
      R.accounting (lib.operate .beforeLoad errors) = some (A', errors') ∧
    (∃ t, Accounting.Reached behaviors A' (gates ++ newGates behaviors lib gates) t) ∧
    (A' = R.accounting ↔ newGates behaviors lib gates = []) ∧ Fits maxlength errors' ∧
    ReportedAll "Gate already registered." (fun g => (behaviors g).gateName) maxlength errors'
      (clashes (GateRefused behaviors) gates (lib.gates.getD [])) := by
  have hfits₁ := hfits.grown (lib.grown_operate .beforeLoad errors)
  obtain ⟨A', errors', hres, hA', hsame, hgrown, hreported⟩ :=
    (registers_gates behaviors).registerAll_spec (fun g => (behaviors g).gateName)
      "Gate already registered." (lib.gates.getD []) hR.gates hfits₁ hpaths
  refine ⟨A', errors', hres, hA', ⟨?_, hsame⟩, hfits₁.grown hgrown, hreported⟩
  rintro rfl
  obtain ⟨t, ht⟩ := hR.gates
  obtain ⟨t', ht'⟩ := hA'
  exact Packed.eq_nil_of_append ht.registered ht'.registered

/-- A signal whose name is taken leaves the gates and the signals before it registered. -/
theorem lxcLoadLibrary_of_clash
    (hclash : clashes (SignalRefused signalName) signals (lib.signals.getD []) ≠ []) :
    ∃ ret R' errors' before, lxcLoadLibrary behaviors signalName constantName (some lib) maxlength
        errors R = some (ret, R', errors') ∧ ret ≠ 0 ∧
      R'.Holds behaviors (gates ++ newGates behaviors lib gates) (signals ++ before) constants ∧
      (R' = R ↔ newGates behaviors lib gates = [] ∧
        ∃ s ∈ (lib.signals.getD []).head?, SignalRefused signalName signals s) := by
  obtain ⟨A', errors₂, hgates, hA', hA, hfits₂, -⟩ := loadGates_spec behaviors hR lib hfits hpaths
  obtain ⟨ret, S', errors₃, hsignals, -, -, -, hres⟩ :=
    (registers_signals signalName).registerUntilClash_spec (fun s => some (signalName s))
      "Signal already registered." (fun _ => trivial) (lib.signals.getD []) hR.signals hfits₂
  obtain ⟨hret, before, -, hS', hhead, hsame⟩ := hres hclash
  have hS : S' = R.registeredSignals ↔ before = [] :=
    ⟨fun he => Packed.eq_nil_of_append hR.signals (he ▸ hS'), hsame⟩
  refine ⟨ret, { R with accounting := A', registeredSignals := S' }, errors₃, before, ?_, hret,
    ⟨hA', hS', hR.constants⟩, ?_⟩
  · simp only [lxcLoadLibrary, hgates, hsignals, Option.bind_eq_bind, Option.bind_some, ne_eq,
      hret, not_false_eq_true, if_true]
    rfl
  · rw [hhead, ← hA, ← hS]
    cases R
    simp

/-- Otherwise everything new is registered, whatever the operation returns in the end. -/
theorem lxcLoadLibrary_of_no_clash
    (hno : clashes (SignalRefused signalName) signals (lib.signals.getD []) = []) :
    ∃ R' errors', lxcLoadLibrary behaviors signalName constantName (some lib) maxlength errors R =
        some (lib.afterLoaded, R', errors') ∧
      Loaded behaviors signalName constantName lib gates signals constants maxlength R' errors' ∧
      (R' = R ↔ newGates behaviors lib gates = [] ∧ lib.signals.getD [] = [] ∧
        newConstants constantName lib constants = []) := by
  obtain ⟨A', errors₂, hgates, hA', hA, hfits₂, hrepA⟩ :=
    loadGates_spec behaviors hR lib hfits hpaths
  obtain ⟨ret, S', errors₃, hsignals, hgrown₃, hnil, hall, -⟩ :=
    (registers_signals signalName).registerUntilClash_spec (fun s => some (signalName s))
      "Signal already registered." (fun _ => trivial) (lib.signals.getD []) hR.signals hfits₂
  obtain ⟨rfl, hS'⟩ := hall hno
  obtain ⟨C', errors₄, hconstants, hC', hsame, hgrown₄, hrepC⟩ :=
    (registers_constants constantName).registerAll_spec (fun c => some (constantName c))
      "Constant already registered." (lib.constants.getD []) hR.constants (hfits₂.grown hgrown₃)
      fun _ _ => trivial
  have hC : C' = R.registeredConstantValues ↔ newConstants constantName lib constants = [] :=
    ⟨fun he => Packed.eq_nil_of_append hR.constants (he ▸ hC'), hsame⟩
  have hS : S' = R.registeredSignals ↔ lib.signals.getD [] = [] :=
    ⟨fun he => Packed.eq_nil_of_append hR.signals (he ▸ hS'), hnil⟩
  have hnew : newSignals signalName lib signals = lib.signals.getD [] :=
    (clashes_eq_nil_iff _).mp hno
  have hgrown₅ := lib.grown_operate .afterLoaded errors₄
  refine ⟨⟨A', S', C'⟩, lib.operate .afterLoaded errors₄, ?_, ⟨⟨hA', hnew ▸ hS', hC'⟩,
    hrepA.grown ((hgrown₃.trans hgrown₄).trans hgrown₅), ?_, hrepC.grown hgrown₅⟩, ?_⟩
  · simp only [lxcLoadLibrary, hgates, hsignals, hconstants, Option.bind_eq_bind,
      Option.bind_some, ne_eq, not_true_eq_false, if_false]
    unfold LxcLoadableLibrary.afterLoaded
    cases hop : lib.libraryOperation with
    | none =>
      have hkept : lib.operate .afterLoaded errors₄ = errors₄ := by
        rw [LxcLoadableLibrary.operate, hop]
      rw [hkept]
      rfl
    | some libop => rfl
  · rw [hno]
    rintro s ⟨⟩
  · rw [← hA, ← hS, ← hC]
    cases R
    simp

end Results

/-- `lxc_load_library` returns, leaves everything as it was when its result is not zero and loads
    the library when it is, exactly when the library is NULL or `LoadsAtomically`. -/
theorem lxcLoadLibrary_atomic_iff {R : Registries} {gates : List BehaviorId} {signals : List Signal}
    {constants : List ConstantId} (hR : R.Holds behaviors gates signals constants)
    (lib : Option LxcLoadableLibrary) {maxlength : Nat} {errors : ErrorArray}
    (hfits : Fits maxlength errors) :
    (∃ ret R' errors', lxcLoadLibrary behaviors signalName constantName lib maxlength errors R =
        some (ret, R', errors') ∧ (ret ≠ 0 → R' = R) ∧
      (ret = 0 → ∃ lib', lib = some lib' ∧ Loaded behaviors signalName constantName lib' gates
        signals constants maxlength R' errors')) ↔
    ∀ lib', lib = some lib' →
      LoadsAtomically behaviors signalName constantName lib' gates signals constants := by
  cases lib with
  | none =>
    obtain ⟨b, errors', hres, -⟩ :=
      arrayFixTryAddLastNull_reports hfits (some "Library reference is NULL.")
    refine iff_of_true ⟨LxcErrno.badCall.code, R, errors', ?_, fun _ => rfl, fun h => ?_⟩ (by simp)
    · simp only [lxcLoadLibrary, hres, Option.bind_eq_bind, Option.bind_some]
      rfl
    · exact absurd h (by decide)
  | some lib =>
    simp only [Option.some.injEq, forall_eq', exists_eq_left']
    by_cases hpaths : ∀ g ∈ newGates behaviors lib gates, [] ∉ (behaviors g).paths.getD []
    swap
    · refine iff_of_false ?_ fun h => hpaths h.1
      push Not at hpaths
      obtain ⟨g, hg, hbad⟩ := hpaths
      rw [lxcLoadLibrary_eq_none behaviors signalName constantName hR lib hfits hg hbad]
      simp
    by_cases hno : clashes (SignalRefused signalName) signals (lib.signals.getD []) = []
    · obtain ⟨R', errors', hload, hloaded, hsame⟩ :=
        lxcLoadLibrary_of_no_clash behaviors signalName constantName hR lib hfits hpaths hno
      have hhead : ¬ ∃ s ∈ (lib.signals.getD []).head?, SignalRefused signalName signals s := by
        rintro ⟨s, hs, hrefused⟩
        obtain ⟨rest, hrest⟩ := List.head?_eq_some_iff.mp hs
        rw [hrest, clashes_of_refused hrefused] at hno
        cases hno
      rw [hload]
      simp only [Option.some.injEq, Prod.mk.injEq, LoadsAtomically]
      constructor
      · rintro ⟨ret, R₁, errors₁, ⟨rfl, rfl, rfl⟩, hunchanged, -⟩
        refine ⟨hpaths, .inr ⟨hno, ?_⟩⟩
        by_cases hzero : lib.afterLoaded = 0
        · exact .inl hzero
        · exact .inr (hsame.mp (hunchanged hzero))
      · rintro ⟨-, ⟨-, hrefused⟩ | ⟨-, hend⟩⟩
        · exact absurd hrefused hhead
        · exact ⟨_, _, _, ⟨rfl, rfl, rfl⟩, fun hne => hsame.mpr (hend.resolve_left hne),
            fun _ => hloaded⟩
    · obtain ⟨ret, R', errors', before, hload, hret, -, hsame⟩ :=
        lxcLoadLibrary_of_clash behaviors signalName constantName hR lib hfits hpaths hno
      rw [hload]
      simp only [Option.some.injEq, Prod.mk.injEq, LoadsAtomically]
      constructor
      · rintro ⟨ret, R₁, errors₁, ⟨rfl, rfl, rfl⟩, hunchanged, -⟩
        exact ⟨hpaths, .inl (hsame.mp (hunchanged hret))⟩
      · rintro ⟨-, hnothing | ⟨hnil, -⟩⟩
        · exact ⟨_, _, _, ⟨rfl, rfl, rfl⟩, fun _ => hsame.mpr hnothing,
            fun hzero => absurd hzero hret⟩
        · exact absurd hnil hno

/-- Nothing is registered. -/
def emptyRegistries : Registries :=
  { accounting := Accounting.empty, registeredSignals := none, registeredConstantValues := none }

theorem holds_emptyRegistries : emptyRegistries.Holds behaviors [] [] [] :=
  ⟨⟨_, Accounting.reached_empty⟩, .inl ⟨rfl, rfl⟩, .inl ⟨rfl, rfl⟩⟩

/-- Whatever a load returns, the registries are in order afterwards. -/
theorem lxcLoadLibrary_holds {R R' : Registries} {gates : List BehaviorId} {signals : List Signal}
    {constants : List ConstantId} (hR : R.Holds behaviors gates signals constants)
    (lib : Option LxcLoadableLibrary) {maxlength : Nat} {errors errors' : ErrorArray}
    (hfits : Fits maxlength errors) {ret : Int}
    (hload : lxcLoadLibrary behaviors signalName constantName lib maxlength errors R =
      some (ret, R', errors')) :
    ∃ gates' signals' constants', R'.Holds behaviors gates' signals' constants' := by
  cases lib with
  | none =>
    obtain ⟨added, -, hload⟩ := Option.bind_eq_some_iff.mp hload
    obtain ⟨-, hload⟩ := Prod.mk.inj (Option.some.inj hload)
    exact ⟨gates, signals, constants, (Prod.mk.inj hload).1 ▸ hR⟩
  | some lib =>
    have hpaths : ∀ g ∈ newGates behaviors lib gates, [] ∉ (behaviors g).paths.getD [] := by
      intro g hg hbad
      rw [lxcLoadLibrary_eq_none behaviors signalName constantName hR lib hfits hg hbad] at hload
      cases hload
    by_cases hno : clashes (SignalRefused signalName) signals (lib.signals.getD []) = []
    · obtain ⟨R₁, errors₁, hload₁, hloaded, -⟩ :=
        lxcLoadLibrary_of_no_clash behaviors signalName constantName hR lib hfits hpaths hno
      rw [hload₁, Option.some.injEq, Prod.mk.injEq, Prod.mk.injEq] at hload
      exact ⟨_, _, _, hload.2.1 ▸ hloaded.holds⟩
    · obtain ⟨ret₁, R₁, errors₁, before, hload₁, -, hholds, -⟩ :=
        lxcLoadLibrary_of_clash behaviors signalName constantName hR lib hfits hpaths hno
      rw [hload₁, Option.some.injEq, Prod.mk.injEq, Prod.mk.injEq] at hload
      exact ⟨_, _, _, hload.2.1 ▸ hholds⟩

/-- A library with a gate and a signal. -/
def sampleLibrary : LxcLoadableLibrary :=
  { libraryOperation := none, gates := some [0], signals := some [.bool], constants := none }

theorem lxcLoadLibrary_atomic_sample :
    (∃ ret R' errors', lxcLoadLibrary sampleBehaviors (fun _ => "bool") (fun _ => "")
        (some sampleLibrary) 2 (some [none, none]) emptyRegistries = some (ret, R', errors') ∧
      (ret ≠ 0 → R' = emptyRegistries) ∧
      (ret = 0 → ∃ lib', some sampleLibrary = some lib' ∧ Loaded sampleBehaviors
        (fun _ => "bool") (fun _ => "") lib' [] [] [] 2 R' errors')) ↔
    ∀ lib', some sampleLibrary = some lib' → LoadsAtomically sampleBehaviors
      (fun _ => "bool") (fun _ => "") lib' [] [] [] :=
  lxcLoadLibrary_atomic_iff sampleBehaviors (fun _ => "bool") (fun _ => "")
    (holds_emptyRegistries _) (some sampleLibrary) fun _ hblock =>
      Option.some.inj hblock ▸ le_rfl

/-- The name of the signal is taken: the call fails, and the gate is registered. -/
theorem lxcLoadLibrary_half_loaded : ∃ ret R' errors',
    lxcLoadLibrary sampleBehaviors (fun _ => "bool") (fun _ => "") (some sampleLibrary) 2
      (some [none, none]) { emptyRegistries with registeredSignals := some [some .bool, none] } =
        some (ret, R', errors') ∧
    ret ≠ 0 ∧ emptyRegistries.accounting.registeredBehaviors = none ∧
    R'.accounting.registeredBehaviors = some [some 0, none] :=
  ⟨_, _, _, rfl, by decide, rfl, rfl⟩

end LogxControll
