/-
  `core/builtins/gate_generic.c`, `struct lxc_port_manager`: the ports of one direction of a
  gate, listed per (type, subtype) group, each with its absolute index.

  `to_abs[ti]` is a block of 32-bit indices allocated 8 bytes (two cells) a port, so it has
  cells past the indices in use. Their contents are whatever `realloc` left there: the
  `junk` argument of the functions that grow a block.

  `lxc_port_empty_name` is recognised by its address, `PortName.empty`; the names handed in
  by callers are `PortName.chars`.
-/
import LogxControll.Core.Types
import LogxControll.Core.Utils

namespace LogxControll

/-- `struct full_signal_type` -/
structure FullSignalType where
  signal : Signal
  subtype : Int
  deriving DecidableEq, Repr

/-- A pointer to a name: `lxc_port_empty_name`, or what a caller handed in. -/
inductive PortName where
  | empty
  | chars (s : String)
  deriving DecidableEq, Repr

/-- What `strcmp` sees of a name. -/
def PortName.text : PortName → String
  | empty => ""
  | chars s => s

/-- A block of 32-bit indices. -/
abbrev UintBlock := List Nat

/-- `managedTypes` lists the entries before the terminating NULL signal; `none` is NULL. -/
structure PortManager where
  maxSize : Int
  managedTypes : Option (List FullSignalType)
  toAbs : PntArray UintBlock
  portNames : PntArray PortName
  toAbsSize : Option UintBlock
  deriving DecidableEq, Repr

/-- A manager in zeroed memory. -/
def PortManager.zeroed : PortManager :=
  { maxSize := 0, managedTypes := none, toAbs := none, portNames := none, toAbsSize := none }

/-- `lxc_port_init_port_manager_factory` -/
def lxcPortInitPortManagerFactory : PortManager :=
  { maxSize := 0
    managedTypes := some []
    toAbs := arrayPntInit none
    portNames := arrayPntInit none
    -- `array_pnt_init`: one NULL pointer, which is two zero cells
    toAbsSize := some [0, 0] }

/-- `realloc` of an index block to `n` pointers' worth of memory. -/
def reallocUints (junk : Nat → Nat) (block : UintBlock) (n : Nat) : UintBlock :=
  (List.range (2 * n)).map fun i => block.getD i (junk i)

/-- The search for (type, subtype) in `managed_types`, by the loop every function repeats. -/
def PortManager.findType (fact : PortManager) (type : Signal) (subtype : Int) : Option Nat :=
  match fact.managedTypes with
  | none => none
  | some types => types.findIdx? fun t => t.signal = type ∧ t.subtype = subtype

/-- The read `fact->to_abs_size[ti]`. -/
def PortManager.sizeAt (fact : PortManager) (ti : Nat) : Option Nat := do
  let sizes ← fact.toAbsSize
  sizes[ti]?

/-- The read `fact->to_abs[ti]`. -/
def PortManager.blockAt (fact : PortManager) (ti : Nat) : Option UintBlock := do
  let blocks ← fact.toAbs
  let block ← blocks[ti]?
  block

/-- The write `fact->to_abs[ti] = block`. -/
def PortManager.setBlock (fact : PortManager) (ti : Nat) (block : UintBlock) : PortManager :=
  { fact with toAbs := fact.toAbs.map fun blocks => blocks.set ti (some block) }

/-- The write `fact->to_abs_size[ti] = size`. -/
def PortManager.setSize (fact : PortManager) (ti : Nat) (size : Nat) : PortManager :=
  { fact with toAbsSize := fact.toAbsSize.map fun sizes => sizes.set ti size }

/-- `lxc_port_get_absindex`: -1 where there is no such port. -/
def lxcPortGetAbsindex (fact : PortManager) (type : Signal) (subtype : Int) (index : Nat) :
    Option Int :=
  match fact.findType type subtype with
  | none => some (-1)
  | some tindex => do
    let len ← fact.sizeAt tindex
    if index < len then
      let block ← fact.blockAt tindex
      let abs ← block[index]?
      return (abs : Int)
    else
      return -1

/-! ## Adding a port -/

/-- The slot `lxc_port_unchecked_add_new_port` takes: a freed one if there is one (`true`),
    else the next free absolute index. -/
def nextAbsSlot (names : PntArray PortName) : Option (Bool × Nat) :=
  match names with
  | none => some (false, 0)
  | some b => do
    match ← scanUntilNull (fun n => n = PortName.empty) b with
    | some i => return (true, i)
    | none =>
      let population ← arrayPntPopulation names
      return (false, population.toNat)

/-- A managed type that lost all its ports and can be replaced. -/
def PortManager.emptyTypeSlot (factory : PortManager) : Option Nat :=
  match factory.managedTypes, factory.toAbsSize with
  | some mt, some lengths => (List.range mt.length).find? fun i => lengths[i]? = some 0
  | _, _ => none

/-- The branch for a (type, subtype) not yet managed: replace an emptied entry, or append an
    entry with a new `to_abs` block. -/
def registerType (junk : Nat → Nat) (factory : PortManager) (type : Signal) (subtype : Int) :
    Option (Nat × PortManager) :=
  match factory.emptyTypeSlot with
  | some ti =>
    let types := factory.managedTypes.map fun mt => mt.set ti (FullSignalType.mk type subtype)
    some (ti, { factory with managedTypes := types }.setSize ti 0)
  | none => do
    let mt := factory.managedTypes.getD []
    let ti := mt.length
    let (_, toAbs) ← arrayPntAppendElement factory.toAbs (some [0, 0])
    let sizes := reallocUints junk (factory.toAbsSize.getD []) (ti + 1)
    return (ti, { factory with
      managedTypes := some (mt ++ [FullSignalType.mk type subtype])
      toAbs := toAbs
      toAbsSize := some sizes }.setSize ti 0)

/-- The entry of (type, subtype), which is registered when it is not yet managed. -/
def typeEntry (junk : Nat → Nat) (factory : PortManager) (type : Signal) (subtype : Int) :
    Option (Nat × PortManager) :=
  match factory.findType type subtype with
  | some ti => some (ti, factory)
  | none => registerType junk factory type subtype

/-- Returns the function's own result, `*index_in_type_group`, and the manager. -/
def lxcPortUncheckedAddNewPort (junk : Nat → Nat) (factory : PortManager) (portName : PortName)
    (type : Signal) (subtype : Int) : Option (Int × Nat × PortManager) := do
  let (intermediate, nextAbs) ← nextAbsSlot factory.portNames
  let (ti, factory) ← typeEntry junk factory type subtype
  let size ← factory.sizeAt ti
  let block ← factory.blockAt ti
  let factory := factory.setBlock ti ((reallocUints junk block (size + 1)).set size nextAbs)
  let factory := factory.setSize ti (size + 1)
  if intermediate then
    let names := factory.portNames.map fun b => b.set nextAbs (some portName)
    let population ← arrayPntPopulation names
    return (nextAbs, size, { factory with portNames := names, maxSize := population })
  else
    let (ni, names) ← arrayPntAppendElement factory.portNames (some portName)
    return (ni + 1, size, { factory with portNames := names, maxSize := ni + 1 })

/-- `lxc_port_count`: the length of the name table, freed places included. -/
def lxcPortCount (factory : PortManager) : Int := factory.maxSize

/-! ## Removing a port -/

/-- What `array_pnt_pop_element` sees of a block of 32-bit indices: every two cells are a
    pointer, NULL when both are zero. -/
def asPointers : UintBlock → List (Option (Nat × Nat))
  | low :: high :: cells => (if low = 0 ∧ high = 0 then none else some (low, high)) ::
      asPointers cells
  | _ => []

/-- The cells of such pointers. -/
def asUints : List (Option (Nat × Nat)) → UintBlock
  | [] => []
  | none :: words => 0 :: 0 :: asUints words
  | some (low, high) :: words => low :: high :: asUints words

/-- `lxc_port_remove_port`. The name becomes the empty one, and the index is popped from the block
    of its group as a pointer would be. -/
def lxcPortRemovePort (factory : PortManager) (type : Signal) (subtype : Int) (index : Nat) :
    Option PortManager :=
  match factory.findType type subtype with
  | none => some factory
  | some ti => do
    let abs ← lxcPortGetAbsindex factory type subtype index
    if abs < 0 then
      return factory
    else
      let names ← factory.portNames
      if names.length ≤ abs.toNat then
        none
      else
        let names := names.set abs.toNat (some PortName.empty)
        let size ← factory.sizeAt ti
        let block ← factory.blockAt ti
        -- the block holds `unsigned int`s and is handed over as an array of pointers
        let (_, words) ← arrayPntPopElement (some (asPointers block)) index
        let population ← arrayPntPopulation (some names)
        return { (factory.setBlock ti (asUints (words.getD []))).setSize ti (size - 1) with
          portNames := some names, maxSize := population }

/-- The loop over the first `n` slots. -/
def anyWired : List (Option Nat) → Nat → Option Bool
  | _, 0 => some false
  | [], _ + 1 => none
  | some _ :: _, _ + 1 => some true
  | none :: wires, n + 1 => anyWired wires n

/-- `lxc_port_is_any_wire_connected`: one of the first cells of the array, as many as there are
    ports and cells, is not NULL. -/
def lxcPortIsAnyWireConnected (mngr : PortManager) (wires : List (Option Nat)) (maxLength : Nat) :
    Option Bool :=
  let size := lxcPortCount mngr
  let size := if intOfUint maxLength < size then intOfUint maxLength else size
  anyWired wires size.toNat

/-- What the manager held is freed. -/
def lxcPortWipeAll (_fact : PortManager) : PortManager := lxcPortInitPortManagerFactory

/-! ## Lookups -/

/-- What `lxc_port_get_type_and_index_by_absindex` writes; a NULL `type` is `none`. -/
structure PortByAbsindex where
  type : Option Signal
  subtype : Int
  managedTypeIndex : Int
  index : Int
  deriving DecidableEq, Repr

/-- One round of the inner loop after the other: the first of the cells `a, …, a + n - 1` of
    the block that holds `absindex`. A cell outside the block cannot be read. -/
def findAbsindex (arr : UintBlock) (absindex : Nat) (a : Nat) : Nat → Option (Option Nat)
  | 0 => some none
  | n + 1 => do
    let cell ← arr[a]?
    if absindex = cell then return (some a) else findAbsindex arr absindex (a + 1) n

/-- The outer loop, from block `i` on. Every block is searched as far as the first group is
    long. -/
def findAbsindexInBlocks (fact : PortManager) (absindex : Nat) :
    List (Option UintBlock) → Nat → Option (Option (Nat × Nat))
  | [], _ => none
  | none :: _, _ => some none
  | some arr :: blocks, i => do
    let max ← fact.sizeAt 0
    match ← findAbsindex arr absindex 0 max with
    | some a => return (some (i, a))
    | none => findAbsindexInBlocks fact absindex blocks (i + 1)

/-- `subtype` is what `*subtype` holds before the call: it is not written when there is no such
    port. -/
def lxcPortGetTypeAndIndexByAbsindex (fact : PortManager) (absindex : Nat) (subtype : Int) :
    Option PortByAbsindex := do
  let blocks ← fact.toAbs
  match ← findAbsindexInBlocks fact absindex blocks 0 with
  | some (i, a) =>
    let types ← fact.managedTypes
    let t ← types[i]?
    return ⟨some t.signal, t.subtype, i, a⟩
  | none => return ⟨none, subtype, -1, -1⟩

/-- The walk over the name table, whose condition `NULL != arr` is about the moving pointer and
    not about the name it points to: it ends at an equal name or with `strcmp` of NULL. -/
def findName (name : String) : List (Option PortName) → Option Int
  | [] => none
  | none :: _ => none
  | some x :: arr => if x.text = name then some 0 else (findName name arr).map (· + 1)

/-- `lxc_port_get_absindex_by_name` -/
def lxcPortGetAbsindexByName (fact : PortManager) (name : String) : Option Int :=
  match fact.portNames with
  | none => some (-1)
  | some arr => findName name arr

/-- The entries copied into the destination arrays, and the return value. -/
def lxcPortFillTypes (fact : PortManager) (maxLength : Nat) : Int × List FullSignalType :=
  match fact.managedTypes with
  | none => (0, [])
  | some src => if maxLength < src.length then (-src.length, []) else (src.length, src)

/-- `lxc_port_get_wire_safe` -/
def lxcPortGetWireSafe (fact : PortManager) (type : Signal) (subtype : Int) (index : Nat)
    (arr : List (Option Nat)) (portSize : Int) : Option (Option Nat) := do
  let abs ← lxcPortGetAbsindex fact type subtype index
  if abs < 0 ∨ portSize ≤ abs then
    return none
  else
    arr[abs.toNat]?

/-- `lxc_port_wiring`: the cell of a port is written, NULL included. -/
def lxcPortWiring (fact : PortManager) (type : Signal) (subtype : Int) (index : Nat)
    (arr : List (Option Nat)) (w : Option Nat) : Option (Int × List (Option Nat)) := do
  let abs ← lxcPortGetAbsindex fact type subtype index
  if abs < 0 then
    return (LxcErrno.entityOutOfRange.code, arr)
  else if abs.toNat < arr.length then
    return (0, arr.set abs.toNat w)
  else
    none

/-- `lxc_generic_get_port_label` -/
def lxcGenericGetPortLabel (fact : PortManager) (type : Signal) (subtype : Int) (index : Nat) :
    Option (Option PortName) := do
  let abs ← lxcPortGetAbsindex fact type subtype index
  if abs < 0 then
    return none
  else
    let names ← fact.portNames
    names[abs.toNat]?

/-- The count is kept as an `unsigned int` and returned as an `int`. -/
def lxcGenericGetTypeMaxIndex (fact : PortManager) (type : Signal) (subtype : Int) :
    Option Int :=
  match fact.findType type subtype with
  | none => some (-1)
  | some i => do
    let size ← fact.sizeAt i
    return intOfUint size

end LogxControll
