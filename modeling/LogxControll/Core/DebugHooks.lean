/-
  `core/facet.c`: the debug hooks of a wire, `lxc_wire_add_debug_hook`,
  `lxc_wire_remove_debug_hook` and `lxc_wire_get_debug_hook`.

  A hook is stored in a box, `struct key_value`, and the array of the wire holds the boxes. A box
  is filled before it is put into the array and never written or freed afterwards, so a pointer
  to it carries its contents. The hook objects are the caller's, `data` says what they hold.

  The abstract registry is a finite map from ids to hooks, `AList`, the newest entry first.
-/
import LogxControll.Core.World
import LogxControll.Core.Types
import Mathlib.Data.List.AList

namespace LogxControll

/-- The address of a hook. -/
abbrev HookId := Nat

/-- `struct lxc_wire_debug_hook_data`; of the function pointer only whether it is set. -/
structure WireDebugHookData where
  id : Option String
  wireDebugHook : Bool
  deriving DecidableEq, Repr

/-- An entry of the list of hooks of a wire. -/
structure KeyValue where
  key : String
  value : HookId
  deriving DecidableEq, Repr

/-- What a `struct lxc_wire_debug_hook_data*` may point to. -/
inductive HookPointer where
  | hook (hook : HookId)
  | keyValue (box : KeyValue)
  deriving DecidableEq, Repr

/-- `wire->wire_debug_hooks` of every wire. -/
abbrev WireDebugHooks := WireId → PntArray KeyValue

/-- The loop of the three functions: the first box with the given key. -/
def findDebugHook (entries : PntArray KeyValue) (id : String) : Option (Option Nat) :=
  match entries with
  | none => some none
  | some entries => scanUntilNull (fun box => id == box.key) entries

variable (data : HookId → WireDebugHookData)

/-- `lxc_wire_add_debug_hook`. An id that is listed is refused, as is a hook without a function. -/
def lxcWireAddDebugHook (hooks : WireDebugHooks) (wire : Option WireId) (hook : Option HookId) :
    Option (Int × WireDebugHooks) :=
  match wire, hook with
  | some wire, some hook =>
    match (data hook).id with
    | none => some (LxcErrno.badCall.code, hooks)
    | some id =>
      if (data hook).wireDebugHook then do
        match ← findDebugHook (hooks wire) id with
        | some _ => return (LxcErrno.entityByNameAlreadyRegistered.code, hooks)
        | none =>
          let (_, entries) ← arrayPntAppendElement (hooks wire) (some ⟨id, hook⟩)
          return (0, Function.update hooks wire entries)
      else some (LxcErrno.badCall.code, hooks)
  | _, _ => some (LxcErrno.badCall.code, hooks)

/-- The element popped from the array is a box. -/
def lxcWireRemoveDebugHook (hooks : WireDebugHooks) (wire : Option WireId) (id : Option String) :
    Option (Option HookPointer × WireDebugHooks) :=
  match wire, id with
  | some wire, some id => do
    match ← findDebugHook (hooks wire) id with
    | none => return (none, hooks)
    | some i =>
      let (box, entries) ← arrayPntPopElement (hooks wire) i
      return (box.map .keyValue, Function.update hooks wire entries)
  | _, _ => some (none, hooks)

/-- Neither pointer is checked: `strcmp` has no result on a NULL id. -/
def lxcWireGetDebugHook (hooks : WireDebugHooks) (wire : Option WireId) (id : Option String) :
    Option (Option HookPointer) := do
  match hooks (← wire) with
  | none => return none
  | some entries =>
    match id with
    | none => if entries.head? = some none then some none else none
    | some id =>
      match ← findDebugHook (some entries) id with
      | none => return none
      | some i => return (entries.getD i none).map fun box => .hook box.value

/-! ## The registry as a map -/

/-- A hook that `lxc_wire_add_debug_hook` accepts. -/
structure ValidHook where
  hook : HookId
  id : String
  id_eq : (data hook).id = some id
  isSet : (data hook).wireDebugHook = true

/-- A call that the registry of a wire takes. -/
inductive HookCall where
  | add (wire : WireId) (hook : ValidHook data)
  | remove (wire : WireId) (id : String)
  | get (wire : WireId) (id : String)

/-- What such a call returns. -/
inductive HookResult where
  | code (code : Int)
  | pointer (pointer : Option HookPointer)
  deriving DecidableEq, Repr

/-- The calls as coded. -/
def hookCall (hooks : WireDebugHooks) : HookCall data → Option (HookResult × WireDebugHooks)
  | .add wire hook =>
    (lxcWireAddDebugHook data hooks (some wire) (some hook.hook)).map fun r => (.code r.1, r.2)
  | .remove wire id =>
    (lxcWireRemoveDebugHook hooks (some wire) (some id)).map fun r => (.pointer r.1, r.2)
  | .get wire id =>
    (lxcWireGetDebugHook hooks (some wire) (some id)).map fun r => (.pointer r, hooks)

/-- The hooks registered on each wire, by id. -/
abbrev HookRegistry := WireId → AList fun _ : String => HookId

namespace HookRegistry

variable {data} (r : HookRegistry)

/-- What a call on the map results in. -/
def result : HookCall data → HookResult
  | .add wire hook =>
    .code (if hook.id ∈ r wire then LxcErrno.entityByNameAlreadyRegistered.code else 0)
  | .remove wire id => .pointer (((r wire).lookup id).map .hook)
  | .get wire id => .pointer (((r wire).lookup id).map .hook)

/-- The map after a call. -/
def after : HookCall data → HookRegistry
  | .add wire hook =>
    if hook.id ∈ r wire then r
    else Function.update r wire ((r wire).insert hook.id hook.hook)
  | .remove wire id => Function.update r wire ((r wire).erase id)
  | .get _ _ => r

/-- The call removes a registered hook. -/
def Removes : HookCall data → Prop
  | .remove wire id => id ∈ r wire
  | _ => False

end HookRegistry

/-- The boxes of the hooks in the map, the oldest first. -/
def boxes (l : AList fun _ : String => HookId) : List KeyValue :=
  l.entries.reverse.map fun e => ⟨e.1, e.2⟩

/-- The list of every wire boxes the entries of the registry, in order. -/
def Represents (hooks : WireDebugHooks) (r : HookRegistry) : Prop :=
  ∀ wire, Packed (hooks wire) (boxes (r wire))

/-- Every call has the result it has on the map, and leaves the array with what the map holds. -/
def FormsMap : WireDebugHooks → HookRegistry → List (HookCall data) → Prop
  | hooks, r, [] => Represents hooks r
  | hooks, r, call :: calls =>
    Represents hooks r ∧ ∃ hooks', hookCall data hooks call = some (r.result call, hooks') ∧
      FormsMap hooks' (r.after call) calls

variable {data}

/-- The later call asks for the removal of the hook that the earlier one added. -/
def HookCall.UndoneBy : HookCall data → HookCall data → Prop
  | .add wire hook, .remove wire' id => wire' = wire ∧ id = hook.id
  | _, _ => False

instance (call call' : HookCall data) : Decidable (call.UndoneBy call') := by
  unfold HookCall.UndoneBy
  split <;> infer_instance

/-! ## One call -/

theorem boxes_insert {l : AList fun _ : String => HookId} {id : String} (h : id ∉ l)
    (hook : HookId) : boxes (l.insert id hook) = boxes l ++ [⟨id, hook⟩] := by
  rw [boxes, AList.entries_insert_of_notMem h, List.reverse_cons, List.map_append]
  rfl

theorem mem_iff_boxes {l : AList fun _ : String => HookId} {id : String} :
    id ∈ l ↔ ∃ box ∈ boxes l, id = box.key := by
  rw [AList.mem_keys, AList.keys, List.keys, List.mem_map]
  simp [boxes, eq_comm]

theorem nodup_boxes (l : AList fun _ : String => HookId) : ((boxes l).map KeyValue.key).Nodup := by
  have hkeys : (boxes l).map KeyValue.key = l.keys.reverse := by
    simp [boxes, AList.keys, List.keys, Function.comp_def]
  rw [hkeys]
  exact List.nodup_reverse.mpr l.keys_nodup

/-- The search through the boxes is the look-up in the map. -/
theorem findIdx?_boxes (l : AList fun _ : String => HookId) (id : String) :
    (id ∉ l ∧ (boxes l).findIdx? (fun box => id == box.key) = none) ∨
    ∃ i, (boxes l).findIdx? (fun box => id == box.key) = some i ∧
      ∃ hook, (boxes l)[i]? = some ⟨id, hook⟩ ∧ l.lookup id = some hook := by
  cases hfind : (boxes l).findIdx? fun box => id == box.key with
  | none =>
    refine .inl ⟨fun hmem => ?_, rfl⟩
    obtain ⟨box, hbox, hid⟩ := mem_iff_boxes.mp hmem
    have := List.findIdx?_eq_none_iff.mp hfind box hbox
    simp [hid] at this
  | some i =>
    obtain ⟨hi, hkey, -⟩ := List.findIdx?_eq_some_iff_getElem.mp hfind
    have hid : id = (boxes l)[i].key := by simpa using hkey
    have hget : (boxes l)[i]? = some ⟨id, (boxes l)[i].value⟩ := by
      rw [List.getElem?_eq_getElem hi, hid]
    refine .inr ⟨i, rfl, _, hget, AList.mem_lookup_iff.mpr ?_⟩
    obtain ⟨⟨_, _⟩, he, hbox⟩ := List.mem_map.mp (List.mem_of_getElem? hget)
    rw [KeyValue.mk.injEq] at hbox
    rw [← hbox.1, ← hbox.2]
    exact List.mem_reverse.mp he

section

variable {hooks : WireDebugHooks} {r : HookRegistry}

theorem findDebugHook_eq (h : Represents hooks r) (wire : WireId) (id : String) :
    findDebugHook (hooks wire) id = some ((boxes (r wire)).findIdx? fun box => id == box.key) := by
  rcases h wire with ⟨harray, hnil⟩ | harray
  · rw [harray, hnil]
    rfl
  · rw [harray, findDebugHook, scanUntilNull_packed]

theorem Represents.update (h : Represents hooks r) {wire : WireId} {entries : PntArray KeyValue}
    {l : AList fun _ : String => HookId} (hw : Packed entries (boxes l)) :
    Represents (Function.update hooks wire entries) (Function.update r wire l) := by
  intro wire'
  by_cases hwire : wire' = wire
  · subst hwire
    rw [Function.update_self, Function.update_self]
    exact hw
  · rw [Function.update_of_ne hwire, Function.update_of_ne hwire]
    exact h wire'

theorem add_spec (h : Represents hooks r) (wire : WireId) (hook : ValidHook data) :
    ∃ hooks', lxcWireAddDebugHook data hooks (some wire) (some hook.hook) =
        some (if hook.id ∈ r wire then LxcErrno.entityByNameAlreadyRegistered.code else 0,
          hooks') ∧ Represents hooks' (r.after (.add wire hook)) := by
  simp only [lxcWireAddDebugHook, hook.id_eq, hook.isSet, if_true, findDebugHook_eq h]
  rcases findIdx?_boxes (r wire) hook.id with ⟨habsent, hfind⟩ | ⟨i, hfind, h', -, hlookup⟩
  · rw [hfind, if_neg habsent, HookRegistry.after, if_neg habsent]
    simp only [Option.bind_eq_bind, Option.bind_some, arrayPntAppendElement_of_packed (h wire)]
    refine ⟨_, rfl, h.update ?_⟩
    rw [boxes_insert habsent]
    exact packed_block _
  · have hmem : hook.id ∈ r wire := AList.lookup_isSome.mp (by rw [hlookup]; rfl)
    rw [hfind, if_pos hmem, HookRegistry.after, if_pos hmem]
    exact ⟨hooks, rfl, h⟩

theorem block_of_getElem? {array : PntArray KeyValue} {l : List KeyValue} (h : Packed array l)
    {i : Nat} {box : KeyValue} (hget : l[i]? = some box) :
    array = some (l.map some ++ [none]) := by
  rcases h with ⟨-, rfl⟩ | harray
  · cases hget
  · exact harray

theorem get_spec (h : Represents hooks r) (wire : WireId) (id : String) :
    lxcWireGetDebugHook hooks (some wire) (some id) = some (((r wire).lookup id).map .hook) := by
  have hfound := findDebugHook_eq h wire id
  rcases findIdx?_boxes (r wire) id with ⟨habsent, hfind⟩ | ⟨i, hfind, hook, hget, hlookup⟩
  · rw [hfind] at hfound
    rw [AList.lookup_eq_none.mpr habsent]
    cases harray : hooks wire with
    | none => simp [lxcWireGetDebugHook, harray]
    | some entries =>
      rw [harray] at hfound
      simp [lxcWireGetDebugHook, harray, hfound]
  · have hblock := block_of_getElem? (h wire) hget
    obtain ⟨hi, hget⟩ := List.getElem?_eq_some_iff.mp hget
    rw [hblock, hfind] at hfound
    have hbox : ((boxes (r wire)).map some ++ [none]).getD i none = some ⟨id, hook⟩ := by
      simp [List.getD_eq_getElem?_getD, List.getElem?_append_left, hi, hget]
    simp only [lxcWireGetDebugHook, hblock, hfound, hbox, hlookup, Option.bind_eq_bind,
      Option.bind_some]
    rfl

/-- Removing an id nobody registered. -/
theorem remove_spec (h : Represents hooks r) {wire : WireId} {id : String} (hid : id ∉ r wire) :
    lxcWireRemoveDebugHook hooks (some wire) (some id) = some (none, hooks) := by
  rcases findIdx?_boxes (r wire) id with ⟨-, hfind⟩ | ⟨i, hfind, hook, hget, hlookup⟩
  · simp [lxcWireRemoveDebugHook, findDebugHook_eq h, hfind]
  · exact absurd (AList.lookup_isSome.mp (by rw [hlookup]; rfl)) hid

/-- A registered hook is not what its removal returns. -/
theorem remove_ne_hook {wire : WireId} {id : String}
    (hid : id ∈ r wire) (hooks' : WireDebugHooks) :
    lxcWireRemoveDebugHook hooks (some wire) (some id) ≠
      some (((r wire).lookup id).map .hook, hooks') := by
  intro hremove
  obtain ⟨hook, hlookup⟩ := Option.isSome_iff_exists.mp (AList.lookup_isSome.mpr hid)
  rw [hlookup] at hremove
  simp only [lxcWireRemoveDebugHook, Option.bind_eq_bind, Option.bind_eq_some_iff] at hremove
  obtain ⟨found, -, hremove⟩ := hremove
  cases found with
  | none => simp at hremove
  | some i =>
    obtain ⟨⟨box, entries⟩, -, hremove⟩ := Option.bind_eq_some_iff.mp hremove
    cases box <;> simp at hremove

/-- What the removal of a registered hook does instead: it returns the box, and the box of the
    newest hook stays where it was. -/
theorem remove_registered (h : Represents hooks r) {wire : WireId} {id : String} {hook : HookId}
    (hid : (r wire).lookup id = some hook) (hfits : (boxes (r wire)).length < 2 ^ 31) :
    ∃ i entries, lxcWireRemoveDebugHook hooks (some wire) (some id) =
        some (some (.keyValue ⟨id, hook⟩), Function.update hooks wire entries) ∧
      (boxes (r wire))[i]? = some ⟨id, hook⟩ ∧
      Packed entries ((boxes (r wire)).eraseIdx i ++ (boxes (r wire)).getLast?.toList) := by
  rcases findIdx?_boxes (r wire) id with ⟨habsent, -⟩ | ⟨i, hfind, hook', hget, hlookup⟩
  · rw [AList.lookup_eq_none.mpr habsent] at hid
    cases hid
  · obtain rfl : hook' = hook := Option.some.inj (hlookup.symm.trans hid)
    obtain ⟨hi, hbox⟩ := List.getElem?_eq_some_iff.mp hget
    have hlast : (boxes (r wire)).getLast?.toList =
        [(boxes (r wire))[(boxes (r wire)).length - 1]] := by
      rw [List.getLast?_eq_getElem?, List.getElem?_eq_getElem (by omega)]
      rfl
    have hpop := arrayPntPopElement_packed hi (by omega)
    rw [← block_of_getElem? (h wire) hget, hbox] at hpop
    rw [hlast]
    refine ⟨i, _, ?_, hget, packed_block _⟩
    simp only [lxcWireRemoveDebugHook, findDebugHook_eq h, hfind, hpop, Option.bind_eq_bind,
      Option.bind_some]
    rfl

/-- The newest hook is still registered after its removal. -/
theorem remove_newest (h : Represents hooks r) {wire : WireId} {id : String} {hook : HookId}
    {older : List KeyValue} (hboxes : boxes (r wire) = older ++ [⟨id, hook⟩])
    (hid : (r wire).lookup id = some hook) (hfits : (boxes (r wire)).length < 2 ^ 31) :
    ∃ hooks', lxcWireRemoveDebugHook hooks (some wire) (some id) =
        some (some (.keyValue ⟨id, hook⟩), hooks') ∧ Represents hooks' r := by
  obtain ⟨i, entries, hremove, hget, hpacked⟩ := remove_registered h hid hfits
  have hi : i = older.length := by
    rw [hboxes] at hget
    have hle : i < older.length + 1 := by simpa using (List.getElem?_eq_some_iff.mp hget).1
    by_contra hne
    rw [List.getElem?_append_left (by omega)] at hget
    have hnodup := nodup_boxes (r wire)
    rw [hboxes, List.map_append] at hnodup
    exact (List.nodup_append.mp hnodup).2.2 id
      (List.mem_map_of_mem (f := KeyValue.key) (List.mem_of_getElem? hget)) id (by simp) rfl
  have hsame : (boxes (r wire)).eraseIdx i ++ (boxes (r wire)).getLast?.toList =
      boxes (r wire) := by
    rw [hboxes, hi, List.eraseIdx_append_of_length_le le_rfl]
    simp
  refine ⟨_, hremove, ?_⟩
  rw [hsame] at hpacked
  have hrep : Represents (Function.update _ wire _) (Function.update r wire _) := h.update hpacked
  rwa [Function.update_eq_self] at hrep

end

/-! ## Every sequence of calls -/

/-- A call that removes no registered hook does on the array what it does on the map. -/
theorem call_spec {hooks : WireDebugHooks} {r : HookRegistry} (h : Represents hooks r)
    {call : HookCall data} (hcall : ¬ r.Removes call) :
    ∃ hooks', hookCall data hooks call = some (r.result call, hooks') ∧
      Represents hooks' (r.after call) := by
  cases call with
  | add wire hook =>
    obtain ⟨hooks', hadd, hrep⟩ := add_spec h wire hook
    exact ⟨hooks', by rw [hookCall, hadd]; rfl, hrep⟩
  | remove wire id =>
    refine ⟨hooks, ?_, ?_⟩
    · rw [hookCall, remove_spec h hcall, HookRegistry.result, AList.lookup_eq_none.mpr hcall]
      rfl
    · have herase : (r wire).erase id = r wire :=
        AList.ext (List.kerase_of_notMem_keys hcall)
      rwa [HookRegistry.after, herase, Function.update_eq_self]
  | get wire id => exact ⟨hooks, by rw [hookCall, get_spec h]; rfl, h⟩

/-- What is registered after a call. -/
theorem removes_after {r : HookRegistry} {call : HookCall data} (hcall : ¬ r.Removes call)
    (later : HookCall data) :
    (r.after call).Removes later ↔ r.Removes later ∨ call.UndoneBy later := by
  cases later with
  | add _ _ | get _ _ => cases call <;> simp [HookRegistry.Removes, HookCall.UndoneBy]
  | remove wire id =>
    cases call with
    | add wire' hook =>
      simp only [HookRegistry.Removes, HookRegistry.after, HookCall.UndoneBy]
      by_cases hmem : hook.id ∈ r wire'
      · rw [if_pos hmem]
        exact ⟨.inl, fun h => h.elim (fun h => h) fun h => h.1 ▸ h.2 ▸ hmem⟩
      · rw [if_neg hmem]
        by_cases hw : wire = wire'
        · subst hw
          rw [Function.update_self, AList.mem_insert]
          simp [or_comm]
        · simp [hw]
    | remove wire' id' =>
      have herase : (r wire').erase id' = r wire' :=
        AList.ext (List.kerase_of_notMem_keys hcall)
      simp [HookRegistry.Removes, HookRegistry.after, HookCall.UndoneBy, herase]
    | get _ _ => simp [HookRegistry.Removes, HookRegistry.after, HookCall.UndoneBy]

/-- The calls agree with the map as long as none removes what is registered at the start or was
    added on the way. -/
theorem formsMap_iff (calls : List (HookCall data)) {hooks : WireDebugHooks} {r : HookRegistry}
    (h : Represents hooks r) : FormsMap data hooks r calls ↔
      (∀ call ∈ calls, ¬ r.Removes call) ∧
        calls.Pairwise fun call later => ¬ call.UndoneBy later := by
  induction calls generalizing hooks r with
  | nil => simpa [FormsMap] using h
  | cons call calls ih =>
    rw [List.forall_mem_cons, List.pairwise_cons]
    by_cases hcall : r.Removes call
    · refine iff_of_false ?_ fun h => h.1.1 hcall
      rintro ⟨-, hooks', hresult, -⟩
      cases call with
      | add _ _ | get _ _ => exact hcall
      | remove wire id =>
        obtain ⟨⟨pointer, hooks''⟩, hremove, hpair⟩ := Option.map_eq_some_iff.mp hresult
        cases hpair
        exact remove_ne_hook hcall _ hremove
    · obtain ⟨hooks', hresult, hrep⟩ := call_spec h hcall
      have hnext : FormsMap data hooks r (call :: calls) ↔
          FormsMap data hooks' (r.after call) calls := by
        refine ⟨fun ⟨_, hooks'', hresult', hforms⟩ => ?_, fun hforms => ⟨h, _, hresult, hforms⟩⟩
        rw [hresult] at hresult'
        cases hresult'
        exact hforms
      rw [hnext, ih hrep]
      simp only [removes_after hcall, not_or, forall_and]
      tauto

theorem represents_empty : Represents (fun _ => none) (fun _ => ∅) := fun _ => .inl ⟨rfl, rfl⟩

/-- The debug hooks of the wires form a map exactly in the sequences that never ask for the
    removal of a hook that was added before. -/
theorem debug_hooks_form_map_iff (calls : List (HookCall data)) :
    FormsMap data (fun _ => none) (fun _ => ∅) calls ↔
      calls.Pairwise fun call later => ¬ call.UndoneBy later := by
  rw [formsMap_iff calls represents_empty]
  refine and_iff_right fun call _ => ?_
  cases call with
  | add _ _ | get _ _ => exact fun h => h
  | remove wire id => exact AList.notMem_empty id

/-- A hook is added and removed. -/
theorem not_debug_hooks_form_map : ¬ FormsMap (fun _ => ⟨some "dbg", true⟩) (fun _ => none)
    (fun _ => ∅) [.add 0 ⟨7, "dbg", rfl, rfl⟩, .remove 0 "dbg"] := by
  intro h
  have hpairwise := ((formsMap_iff _ represents_empty).mp h).2
  exact absurd hpairwise (by decide)

end LogxControll
