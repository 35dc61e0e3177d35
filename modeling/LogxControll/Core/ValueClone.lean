/-
  Value objects with all their fields, and their copies: `lxc_clone_primitive_value`
  (`core/builtins/builtin.c`), `generic_value_clone` (`core/builtins/gate_generic.c`) and
  `lxc_refdiff_value` (`core/facet.c`).

  A primitive value is copied byte by byte, with its reference count; a generic value is created
  anew, with its data but without its subtype. `clone_contract_iff` says when the copy is what
  `struct lxc_value_operation` promises.
-/
import LogxControll.Core.Types
import LogxControll.Lib.Run
import Mathlib.Tactic

namespace LogxControll

/-- `primitive_variable_value_operations`, `primitive_constant_value_operations` -/
inductive PrimitiveOperations where
  | variableValue
  | constantValue
  deriving DecidableEq, Repr

/-- `struct lxc_primitive_value`, the union as its bytes. -/
structure PrimitiveValue where
  type : Signal
  subtypeInfo : Int
  operations : PrimitiveOperations
  refcount : Int
  payload : Vector UInt8 8
  deriving DecidableEq, Repr

/-- `struct lxc_generic_value`; its operations are `lxc_generic_value_operations`. -/
structure GenericValue where
  type : Signal
  subtypeInfo : Int
  refcount : Int
  size : Nat
  data : Vector UInt8 size
  deriving DecidableEq, Repr

/-- An object that an `LxcValue` may point to. -/
inductive ValueObject where
  | primitive (value : PrimitiveValue)
  | generic (value : GenericValue)
  deriving DecidableEq, Repr

namespace ValueObject

/-- `value->type` -/
def type : ValueObject → Signal
  | primitive value => value.type
  | generic value => value.type

/-- `value->subtype_info` -/
def subtypeInfo : ValueObject → Int
  | primitive value => value.subtypeInfo
  | generic value => value.subtypeInfo

/-- `value->refcount` -/
def refcount : ValueObject → Int
  | primitive value => value.refcount
  | generic value => value.refcount

/-- `lxc_size_primitive_value`, `generic_value_size` -/
def size : ValueObject → Nat
  | primitive _ => 8
  | generic value => value.size

/-- The bytes at the data address. -/
def data : ValueObject → List UInt8
  | primitive value => value.payload.toList
  | generic value => value.data.toList

/-- `operations->free` is not NULL. -/
def hasFree : ValueObject → Bool
  | primitive value => value.operations = .variableValue
  | generic _ => true

/-- `operations->ref_diff`, no result for NULL; the count is an `int`. -/
def refDiff (n : Int) : ValueObject → Option ValueObject
  | primitive value =>
    match value.operations with
    | .variableValue =>
      some (.primitive { value with refcount := Int.bmod (value.refcount + n) (2 ^ 32) })
    | .constantValue => none
  | generic value =>
    some (.generic { value with refcount := Int.bmod (value.refcount + n) (2 ^ 32) })

end ValueObject

/-- `payload` is what `malloc` left in the union. -/
def lxcCreatePrimitiveValue (type : Signal) (payload : Vector UInt8 8) : PrimitiveValue :=
  { type := type, subtypeInfo := 0, operations := .variableValue, refcount := 1,
    payload := payload }

/-- `lxc_create_generic_value`, which is not told a subtype. -/
def lxcCreateGenericValue (type : Signal) (size : Nat) : GenericValue :=
  { type := type, subtypeInfo := 0, refcount := 1, size := size, data := .replicate size 0 }

/-- `lxc_clone_primitive_value`: a copy of the whole object, which is variable. -/
def lxcClonePrimitiveValue (value : PrimitiveValue) : PrimitiveValue :=
  { value with operations := .variableValue }

/-- `generic_value_clone`: a new value with the type, the size and the bytes of the old one. -/
def genericValueClone (value : GenericValue) : GenericValue :=
  let ret := lxcCreateGenericValue value.type value.size
  { ret with size := value.size, data := value.data }

/-- `operations->clone`, what the new object holds. -/
def ValueObject.clone : ValueObject → ValueObject
  | primitive value => .primitive (lxcClonePrimitiveValue value)
  | generic value => .generic (genericValueClone value)

/-! ## Memory -/

/-- The objects at their addresses; from `next` on nothing was allocated yet. -/
structure ValueHeap where
  objects : Nat → Option ValueObject
  next : Nat
  fresh : ∀ v, next ≤ v → objects v = none

namespace ValueHeap

/-- An object at a new address. -/
def alloc (h : ValueHeap) (obj : ValueObject) : Nat × ValueHeap :=
  (h.next,
   { objects := Function.update h.objects h.next (some obj)
     next := h.next + 1
     fresh := fun v hv => by
       rw [Function.update_of_ne (by omega)]
       exact h.fresh v (by omega) })

/-- What an address that is in use holds now. -/
def store (h : ValueHeap) (v : Nat) (obj : Option ValueObject) (hv : (h.objects v).isSome) :
    ValueHeap where
  objects := Function.update h.objects v obj
  next := h.next
  fresh := fun u hu => by
    have hne : u ≠ v := by
      rintro rfl
      rw [h.fresh u hu] at hv
      cases hv
    rw [Function.update_of_ne hne]
    exact h.fresh u hu

end ValueHeap

/-- `value->operations->clone(value)` -/
def cloneValue (v : Nat) (h : ValueHeap) : Option (Nat × ValueHeap) :=
  (h.objects v).map fun obj => h.alloc obj.clone

/-- `lxc_refdiff_value` of a value that is not NULL. -/
def refdiffValue (v : Nat) (count : Int) (h : ValueHeap) : Option (Int × ValueHeap) :=
  match hv : h.objects v with
  | none => none
  | some obj =>
    match obj.refDiff count with
    | none => some (1024, h)
    | some obj' =>
      have hsome : (h.objects v).isSome := by rw [hv]; rfl
      if obj'.refcount ≤ 0 ∧ obj.hasFree then some (obj'.refcount, h.store v none hsome)
      else some (obj'.refcount, h.store v (some obj') hsome)

/-- What a holder of a value calls. -/
inductive ValueCall where
  | refdiff (v : Nat) (count : Int)
  | free (v : Nat)

/-- The value that a call is about. -/
def ValueCall.target : ValueCall → Nat
  | refdiff v _ => v
  | free v => v

/-- The memory after a call; a value that has no `free` cannot be freed. -/
def ValueCall.step (h : ValueHeap) : ValueCall → Option ValueHeap
  | refdiff v count => (refdiffValue v count h).map Prod.snd
  | free v =>
    match hv : h.objects v with
    | none => none
    | some obj => if obj.hasFree then some (h.store v none (by rw [hv]; rfl)) else none

theorem ValueCall.step_frame {h h' : ValueHeap} {call : ValueCall}
    (hstep : call.step h = some h') {u : Nat} (hu : u ≠ call.target) :
    h'.objects u = h.objects u := by
  cases call with
  | refdiff v count =>
    obtain ⟨⟨r, h₁⟩, hcall, rfl⟩ := Option.map_eq_some_iff.mp hstep
    unfold refdiffValue at hcall
    split at hcall
    · cases hcall
    · split at hcall
      · cases hcall
        rfl
      · split at hcall
        · cases hcall
          exact Function.update_of_ne hu _ _
        · cases hcall
          exact Function.update_of_ne hu _ _
  | free v =>
    simp only [step] at hstep
    split at hstep
    · cases hstep
    · split at hstep
      · cases hstep
        exact Function.update_of_ne hu _ _
      · cases hstep

/-- Calls on some values leave the others alone. -/
theorem ValueCall.run_frame {calls : List ValueCall} {h h' : ValueHeap} {u : Nat}
    (hrun : Run.run ValueCall.step h calls = some h') (hu : ∀ call ∈ calls, u ≠ call.target) :
    h'.objects u = h.objects u := by
  induction calls generalizing h with
  | nil =>
    obtain rfl := Option.some.inj hrun
    rfl
  | cons call calls ih =>
    obtain ⟨h₁, hstep, hrun⟩ := Option.bind_eq_some_iff.mp hrun
    rw [List.forall_mem_cons] at hu
    exact (ih hrun hu.2).trans (step_frame hstep hu.1)

/-! ## The contract -/

/-- Object `c` is an exact copy of `obj` with one reference of its own, and what is done with
    the one does not change the other. -/
structure CloneContract (h : ValueHeap) (v : Nat) (obj : ValueObject) (c : Nat) (h' : ValueHeap) :
    Prop where
  fresh : h.objects c = none
  others : ∀ u, u ≠ c → h'.objects u = h.objects u
  copy : ∃ obj', h'.objects c = some obj' ∧ obj'.type = obj.type ∧
    obj'.subtypeInfo = obj.subtypeInfo ∧ obj'.size = obj.size ∧ obj'.data = obj.data
  oneReference : (h'.objects c).map ValueObject.refcount = some 1
  freed : ∃ r h'', refdiffValue c (-1) h' = some (r, h'') ∧ h''.objects c = none
  sourceKept : ∀ calls h'', (∀ call ∈ calls, call.target = c) →
    Run.run ValueCall.step h' calls = some h'' → h''.objects v = h'.objects v
  cloneKept : ∀ calls h'', (∀ call ∈ calls, call.target ≠ c) →
    Run.run ValueCall.step h' calls = some h'' → h''.objects c = h'.objects c

/-- A primitive value with exactly one reference, or a generic value without a subtype. -/
def ValueObject.CopiesWell : ValueObject → Prop
  | primitive value => value.refcount = 1
  | generic value => value.subtypeInfo = 0

theorem refdiffValue_last {h : ValueHeap} {c : Nat} {obj obj' : ValueObject}
    (hobj : h.objects c = some obj) (hdiff : obj.refDiff (-1) = some obj')
    (hcount : obj'.refcount ≤ 0) (hfree : obj.hasFree = true) :
    ∃ r h', refdiffValue c (-1) h = some (r, h') ∧ h'.objects c = none := by
  unfold refdiffValue
  split
  · next hnone =>
    rw [hobj] at hnone
    cases hnone
  · next obj₁ hobj₁ =>
    obtain rfl : obj = obj₁ := Option.some.inj (hobj.symm.trans hobj₁)
    rw [hdiff]
    exact ⟨_, _, if_pos ⟨hcount, hfree⟩, Function.update_self ..⟩

/-- The clone of a value is an independent exact copy exactly if the value is primitive and has
    one reference, or is generic and has subtype 0. -/
theorem clone_contract_iff (h : ValueHeap) {v : Nat} {obj : ValueObject}
    (hv : h.objects v = some obj) :
    ∃ c h', cloneValue v h = some (c, h') ∧ (CloneContract h v obj c h' ↔ obj.CopiesWell) := by
  have hnew : ((h.alloc obj.clone).2).objects h.next = some obj.clone := Function.update_self ..
  have hother : ∀ u, u ≠ h.next → ((h.alloc obj.clone).2).objects u = h.objects u :=
    fun u hu => Function.update_of_ne hu _ _
  have hne : v ≠ h.next := by
    rintro rfl
    rw [h.fresh _ le_rfl] at hv
    cases hv
  refine ⟨h.next, (h.alloc obj.clone).2, by rw [cloneValue, hv]; rfl, ?_⟩
  constructor
  · intro hc
    obtain ⟨obj', hobj', -, hsubtype, -⟩ := hc.copy
    obtain rfl := Option.some.inj (hnew.symm.trans hobj')
    cases obj with
    | primitive value =>
      have hone := hc.oneReference
      rw [hnew] at hone
      exact Option.some.inj hone
    | generic value => exact hsubtype.symm
  · intro hwell
    have hone : obj.clone.refcount = 1 := by
      cases obj with
      | primitive value => exact hwell
      | generic value => rfl
    refine ⟨h.fresh _ le_rfl, hother, ⟨_, hnew, ?_, ?_, ?_, ?_⟩,
      by rw [hnew, Option.map_some, hone], ?_, fun calls h'' htarget hrun => ?_,
      fun calls h'' htarget hrun => ?_⟩
    · cases obj <;> rfl
    · cases obj with
      | primitive value => rfl
      | generic value => exact Eq.symm hwell
    · cases obj <;> rfl
    · cases obj <;> rfl
    · cases obj with
      | primitive value =>
        refine refdiffValue_last hnew rfl ?_ rfl
        have hcount : value.refcount = 1 := hone
        simp [ValueObject.refcount, lxcClonePrimitiveValue, hcount]
      | generic value =>
        refine refdiffValue_last hnew rfl ?_ rfl
        simp [ValueObject.refcount, genericValueClone, lxcCreateGenericValue]
    · exact ValueCall.run_frame hrun fun call hcall => by rw [htarget call hcall]; exact hne
    · exact ValueCall.run_frame hrun fun call hcall => (htarget call hcall).symm

/-- A heap with one object, at address 0. -/
def ValueHeap.single (obj : ValueObject) : ValueHeap where
  objects := fun v => if v = 0 then some obj else none
  next := 1
  fresh := fun v hv => if_neg (by omega)

/-- An int that was just created is copied as promised. -/
theorem clone_contract_created :
    let obj := ValueObject.primitive (lxcCreatePrimitiveValue .int (.replicate 8 7))
    ∃ c h', cloneValue 0 (ValueHeap.single obj) = some (c, h') ∧
      CloneContract (ValueHeap.single obj) 0 obj c h' := by
  intro obj
  obtain ⟨c, h', hclone, hiff⟩ := clone_contract_iff (ValueHeap.single obj) (v := 0) rfl
  exact ⟨c, h', hclone, hiff.mpr rfl⟩

/-- The same int, referenced once more before: the copy is born with two references. -/
theorem not_clone_contract :
    ¬ ∀ (h : ValueHeap) (v : Nat) (obj : ValueObject), h.objects v = some obj →
      ∀ c h', cloneValue v h = some (c, h') → CloneContract h v obj c h' := by
  intro hall
  have hc := hall (ValueHeap.single (.primitive
    { lxcCreatePrimitiveValue .int (.replicate 8 7) with refcount := 2 })) 0 _ rfl 1 _ rfl
  have hone := hc.oneReference
  revert hone
  decide

end LogxControll
