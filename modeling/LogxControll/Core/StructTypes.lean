/-
  `core/accounting.c`: the registry of struct subtypes.

  The registry is an array of pointers to descriptors, but the look-up takes the first pointer and
  counts that one up: behind the first descriptor, the placeholder, it reads whatever the memory
  holds there (`behind`), and it never comes to a NULL pointer. So it does not return before it
  finds the name somewhere (`searchStruct_finds`), and no structure is ever registered
  (`struct_types_round_trip_iff`).
-/
import LogxControll.Core.Types
import LogxControll.Core.Utils

namespace LogxControll

/-- `struct lxc_struct_entry` -/
structure LxcStructEntry where
  fieldName : String
  type : Signal
  subtype : Int
  deriving DecidableEq, Repr

/-- `struct lxc_struct_descriptor` -/
structure LxcStructDescriptor where
  ordinal : Int
  name : String
  entrysArrayPnt : PntArray LxcStructEntry
  deriving DecidableEq, Repr

/-- An allocated descriptor. -/
abbrev DescriptorId := Nat

/-- A `struct lxc_struct_descriptor*`: as many descriptors behind an allocated one. -/
structure DescriptorPtr where
  base : DescriptorId
  offset : Nat
  deriving DecidableEq, Repr

/-- `REGISTERED_STRUCT_SUBTYPES` and the allocated descriptors. -/
structure StructSubtypes where
  registered : PntArray DescriptorId
  descriptors : DescriptorId → Option LxcStructDescriptor
  nextDescriptor : DescriptorId

namespace StructSubtypes

/-- The registry before the first structure. -/
def empty : StructSubtypes :=
  { registered := none, descriptors := fun _ => none, nextDescriptor := 0 }

variable (behind : DescriptorPtr → Option LxcStructDescriptor)

/-- What a pointer points to. -/
def read (R : StructSubtypes) (ptr : DescriptorPtr) : Option LxcStructDescriptor :=
  if ptr.offset = 0 then R.descriptors ptr.base else behind ptr

/-- The copy of an entry array, with its terminator. -/
def cloneEntries (entrysArrayPnt : PntArray LxcStructEntry) :
    Option (List (Option LxcStructEntry)) := do
  let len ← arrayPntPopulation entrysArrayPnt
  let into ← (List.range len.toNat).mapM fun i => do
    let block ← entrysArrayPnt
    let src ← (← block[i]?)
    return { fieldName := src.fieldName, type := src.type, subtype := src.subtype }
  return into.map some ++ [none]

/-- The copy of the entries is stored nowhere: `entrys_array_pnt` stays as `malloc_zero` left it. -/
def lxcDoRegisterStructure (name : String) (entrysArrayPnt : PntArray LxcStructEntry)
    (R : StructSubtypes) : Option (DescriptorPtr × StructSubtypes) := do
  let _into ← cloneEntries entrysArrayPnt
  let d := R.nextDescriptor
  let (ordinal, registered) ← arrayPntAppendElement R.registered (some d)
  let descriptor : LxcStructDescriptor :=
    { ordinal := -ordinal, name := name, entrysArrayPnt := none }
  return ({ base := d, offset := 0 },
    { registered := registered, descriptors := Function.update R.descriptors d (some descriptor),
      nextDescriptor := d + 1 })

/-- The loop of `lxc_get_struct_subtype_by_name`, at most `fuel` rounds of it: `++ptr` makes no NULL
    pointer. -/
def searchStruct (R : StructSubtypes) (name : String) :
    Nat → DescriptorPtr → Option (Option DescriptorPtr)
  | 0, _ => none
  | fuel + 1, ptr => do
    let descriptor ← R.read behind ptr
    if name = descriptor.name then return some ptr
    else searchStruct R name fuel { ptr with offset := ptr.offset + 1 }

/-- `lxc_get_struct_subtype_by_name`: the search starts at the first descriptor. -/
def lxcGetStructSubtypeByName (fuel : Nat) (name : String) (R : StructSubtypes) :
    Option (Option DescriptorPtr) :=
  match R.registered with
  | none => some none
  | some block => do
    match ← block[0]? with
    | none => return none
    | some d => searchStruct behind R name fuel { base := d, offset := 0 }

/-- The placeholder of ordinal 0 comes before everything else. -/
def registerPlaceholder (R : StructSubtypes) : Option StructSubtypes :=
  match R.registered with
  | some _ => some R
  | none => (lxcDoRegisterStructure "\r\n" (some [none]) R).map Prod.snd

/-- The result, and what was written to `*error`. -/
def lxcRegisterStructType (fuel : Nat) (name : String) (entrysArrayPnt : PntArray LxcStructEntry)
    (R : StructSubtypes) : Option (Option DescriptorPtr × Option Int × StructSubtypes) := do
  let R ← registerPlaceholder R
  match ← lxcGetStructSubtypeByName behind fuel name R with
  | some _ => return (none, some LxcErrno.entityAlreadyRegistered.code, R)
  | none =>
    let (d, R) ← lxcDoRegisterStructure name entrysArrayPnt R
    return (some d, none, R)

/-! ## A registered structure -/

theorem mapM_range_eq {α : Type} (l : List α) (f : Nat → Option α)
    (h : ∀ i (hi : i < l.length), f i = some l[i]) : (List.range l.length).mapM f = some l := by
  induction l using List.reverseRecOn with
  | nil => rfl
  | append_singleton l x ih =>
    have hprefix : (List.range l.length).mapM f = some l := by
      refine ih fun i hi => ?_
      rw [h i (by simp; omega), List.getElem_append_left hi]
    have hlast : f l.length = some x := by
      rw [h l.length (by simp)]
      simp
    rw [List.length_append, List.length_singleton, List.range_succ, List.mapM_append, hprefix]
    simp [hlast]

theorem cloneEntries_of_packed {entrys : PntArray LxcStructEntry} {l : List LxcStructEntry}
    (h : Packed entrys l) : cloneEntries entrys = some (l.map some ++ [none]) := by
  unfold cloneEntries
  rw [arrayPntPopulation_of_packed h, Option.bind_eq_bind, Option.bind_some, Int.toNat_natCast,
    mapM_range_eq l]
  · rfl
  · intro i hi
    rcases h with ⟨-, rfl⟩ | rfl
    · cases hi
    · simp [List.getElem?_append_left, hi]

/-- The descriptor is at the end of the array, with the negated position as its ordinal, and
    without the entries. -/
theorem lxcDoRegisterStructure_of_packed {R : StructSubtypes} {l : List DescriptorId}
    (hR : Packed R.registered l) (name : String) {entrys : PntArray LxcStructEntry}
    {entries : List LxcStructEntry} (hentries : Packed entrys entries) :
    ∃ R', lxcDoRegisterStructure name entrys R = some ({ base := R.nextDescriptor, offset := 0 }, R') ∧
      Packed R'.registered (l ++ [R.nextDescriptor]) ∧
      R'.read behind { base := R.nextDescriptor, offset := 0 } =
        some { ordinal := -l.length, name := name, entrysArrayPnt := none } := by
  unfold lxcDoRegisterStructure
  simp only [cloneEntries_of_packed hentries, arrayPntAppendElement_of_packed hR,
    Option.bind_eq_bind, Option.bind_some]
  exact ⟨_, rfl, packed_block _, Function.update_self ..⟩

/-! ## What the calls should do -/

/-- A call of `lxc_register_struct_type`. -/
structure StructCall where
  name : String
  entries : List LxcStructEntry
  deriving DecidableEq, Repr

/-- The registered descriptor of an earlier call is found, and nothing else. -/
def Found (R : StructSubtypes) (accepted : List (StructCall × DescriptorPtr)) : Prop :=
  ∀ name, ∃ fuel r, lxcGetStructSubtypeByName behind fuel name R = some r ∧
    ∀ ptr, r = some ptr ↔ ∃ call, (call, ptr) ∈ accepted ∧ call.name = name

/-- `ptr` points to a descriptor as the call asks for it, with an ordinal that no earlier one
    has. -/
def Describes (R : StructSubtypes) (accepted : List (StructCall × DescriptorPtr)) (call : StructCall)
    (ptr : DescriptorPtr) : Prop :=
  ∃ descriptor, R.read behind ptr = some descriptor ∧ descriptor.name = call.name ∧
    descriptor.ordinal < 0 ∧ Packed descriptor.entrysArrayPnt call.entries ∧
    ∀ earlier ∈ accepted, ∀ other, R.read behind earlier.2 = some other →
      other.ordinal ≠ descriptor.ordinal

/-- Every further call returns: NULL and the error when its name is registered, a descriptor
    otherwise. In the end the look-up finds what was registered. -/
def StructRoundTrip :
    StructSubtypes → List (StructCall × DescriptorPtr) → List StructCall → Prop
  | R, accepted, [] => Found behind R accepted
  | R, accepted, call :: calls => ∃ fuel r error R',
      lxcRegisterStructType behind fuel call.name (some (call.entries.map some ++ [none])) R =
        some (r, error, R') ∧
      ((∃ earlier ∈ accepted, earlier.1.name = call.name) →
        r = none ∧ error = some LxcErrno.entityAlreadyRegistered.code ∧ R' = R ∧
          StructRoundTrip R' accepted calls) ∧
      ((¬ ∃ earlier ∈ accepted, earlier.1.name = call.name) →
        ∃ ptr, r = some ptr ∧ Describes behind R' accepted call ptr ∧
          StructRoundTrip R' (accepted ++ [(call, ptr)]) calls)

/-! ## The search does not end without a result -/

theorem searchStruct_finds (R : StructSubtypes) (name : String) (fuel : Nat) :
    ∀ {ptr : DescriptorPtr} {r : Option DescriptorPtr},
      searchStruct behind R name fuel ptr = some r → ∃ found, r = some found := by
  induction fuel with
  | zero =>
    intro ptr r h
    cases h
  | succ fuel ih =>
    intro ptr r h
    rw [searchStruct] at h
    obtain ⟨descriptor, -, h⟩ := Option.bind_eq_some_iff.mp h
    split at h
    · exact ⟨ptr, (Option.some.inj h).symm⟩
    · exact ih h

/-- Whatever a first call returns, it is NULL. -/
theorem lxcRegisterStructType_empty {fuel : Nat} {name : String} {entrys : PntArray LxcStructEntry}
    {r : Option DescriptorPtr} {error : Option Int} {R : StructSubtypes}
    (h : lxcRegisterStructType behind fuel name entrys empty = some (r, error, R)) : r = none := by
  unfold lxcRegisterStructType at h
  obtain ⟨placeholder, hplaceholder, h⟩ := Option.bind_eq_some_iff.mp h
  obtain ⟨found, hfound, h⟩ := Option.bind_eq_some_iff.mp h
  -- the array holds the placeholder by now
  have hregistered : placeholder.registered = some [some 0, none] := by
    obtain rfl := Option.some.inj hplaceholder
    rfl
  unfold lxcGetStructSubtypeByName at hfound
  rw [hregistered] at hfound
  obtain ⟨ptr, rfl⟩ := searchStruct_finds behind placeholder name fuel hfound
  exact (Prod.mk.inj (Option.some.inj h)).1.symm

end StructSubtypes

open StructSubtypes

/-- Whatever lies behind the descriptors, a sequence of registrations does what it should only if it
    is empty. -/
theorem struct_types_round_trip_iff (behind : DescriptorPtr → Option LxcStructDescriptor)
    (calls : List StructCall) : StructRoundTrip behind empty [] calls ↔ calls = [] := by
  cases calls with
  | nil =>
    refine iff_of_true (fun name => ⟨0, none, rfl, fun ptr => ?_⟩) rfl
    simp
  | cons call calls =>
    refine iff_of_false ?_ (List.cons_ne_nil _ _)
    rintro ⟨fuel, r, error, R', hres, -, hnew⟩
    obtain ⟨ptr, rfl, -⟩ := hnew (by simp)
    cases lxcRegisterStructType_empty behind hres

/-- When nothing can be read behind the placeholder, the registration of a first structure does not
    return. -/
theorem struct_types_not_round_trip : ¬ StructRoundTrip (fun _ => none) empty []
    [{ name := "point", entries := [{ fieldName := "x", type := .int, subtype := 0 }] }] := by
  rintro ⟨fuel, r, error, R', hres, -⟩
  rcases fuel with _ | _ | fuel <;> cases hres

end LogxControll
