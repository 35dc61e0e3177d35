/-
  `core/accounting.c`: the registered gate behaviors, and the tree of library paths under which
  they are listed.

  Behaviors and tree nodes are numbers, their addresses. The behaviors are constant, so a table
  gives what is stored there; the nodes are allocated by `get_or_create_library_path` and never
  freed.
-/
import LogxControll.Core.Types
import LogxControll.Core.Utils

namespace LogxControll

/-- The address of a `lxc_gate_behavior`. -/
abbrev BehaviorId := Nat

/-- The address of a `library_tree_node`. -/
abbrev NodeId := Nat

/-- What `struct lxc_gate_behavior` has for the registry: `gate_name` and `paths`, either of which
    may be NULL. -/
structure LxcGateBehavior where
  gateName : Option String
  paths : Option (List (List String))
  deriving DecidableEq, Repr

/-- A part of a library path: the gates listed under it and the parts that may follow. -/
structure LibraryTreeNode where
  name : String
  gates : PntArray BehaviorId
  subnodes : PntArray NodeId
  deriving DecidableEq, Repr

/-- `REGISTERED_BEHAVIORS`, `ROOT_NODES`, and the allocated nodes. -/
structure Accounting where
  registeredBehaviors : PntArray BehaviorId
  rootNodes : PntArray NodeId
  nodes : NodeId → Option LibraryTreeNode
  nextNode : NodeId

namespace Accounting

/-- The state before anything is registered. -/
def empty : Accounting :=
  { registeredBehaviors := none, rootNodes := none, nodes := fun _ => none, nextNode := 0 }

/-- The memory after a write to a node. -/
def setNode (A : Accounting) (n : NodeId) (node : LibraryTreeNode) : Accounting :=
  { A with nodes := Function.update A.nodes n (some node) }

@[simp] theorem nodes_setNode_self (A : Accounting) (n : NodeId) (node : LibraryTreeNode) :
    (A.setNode n node).nodes n = some node := Function.update_self ..

theorem nodes_setNode_of_ne (A : Accounting) {n m : NodeId} (h : m ≠ n) (node : LibraryTreeNode) :
    (A.setNode n node).nodes m = A.nodes m := Function.update_of_ne h ..

end Accounting

/-! ## The registered behaviors -/

/-- The loop of `get_gate_entry_by_name`. -/
def findBehavior (behaviors : BehaviorId → LxcGateBehavior) (name : String) :
    List (Option BehaviorId) → Option (Option BehaviorId)
  | [] => none
  | none :: _ => some none
  | some b :: rest => do
    let gateName ← (behaviors b).gateName
    if name = gateName then return some b else findBehavior behaviors name rest

/-- `get_gate_entry_by_name`. Without an array of registered gates it returns NULL. -/
def getGateEntryByName (behaviors : BehaviorId → LxcGateBehavior) (name : String)
    (A : Accounting) : Option (Option BehaviorId) :=
  match A.registeredBehaviors with
  | none => some none
  | some block => findBehavior behaviors name block

/-! ## The library tree -/

/-- The loop of `recursive_search_ahead_lib_tree`: the node with the name. -/
def findNode (A : Accounting) (name : String) : List (Option NodeId) → Option (Option NodeId)
  | [] => none
  | none :: _ => some none
  | some n :: rest => do
    let node ← A.nodes n
    if name = node.name then return some n else findNode A name rest

/-- `path` is what is left of the path from `lvl` on; the result is the level reached and the
    last node found. -/
def recursiveSearchAheadLibTree (A : Accounting) :
    List String → Nat → PntArray NodeId → Option NodeId → Option (Nat × Option NodeId)
  | [], lvl, _, last => some (lvl, last)
  | _ :: _, lvl, none, last => some (lvl, last)
  | name :: path, lvl, some crnt, last => do
    match ← findNode A name crnt with
    | none => return (lvl, last)
    | some n =>
      let node ← A.nodes n
      recursiveSearchAheadLibTree A path (lvl + 1) node.subnodes (some n)

/-- `search_ahead_library_path`: how many parts of a path the tree has already, and the node of the
    last of them. -/
def searchAheadLibraryPath (A : Accounting) (path : List String) : Option (Nat × Option NodeId) :=
  match A.rootNodes with
  | none => some (0, none)
  | some roots => recursiveSearchAheadLibTree A path 0 (some roots) none

/-- A new node, appended to the subnodes of `node`, or to the roots when `node` is NULL. -/
def appendNode (A : Accounting) (node : Option NodeId) (name : String) :
    Option (NodeId × Accounting) := do
  let new := A.nextNode
  let A := { A.setNode new { name := name, gates := none, subnodes := none } with
    nextNode := new + 1 }
  match node with
  | none =>
    let (_, roots) ← arrayPntAppendElement A.rootNodes (some new)
    return (new, { A with rootNodes := roots })
  | some n =>
    let parent ← A.nodes n
    let (_, subnodes) ← arrayPntAppendElement parent.subnodes (some new)
    return (new, A.setNode n { parent with subnodes := subnodes })

/-- The loop of `get_or_create_library_path` over the rest of the path. -/
def createNodes : List String → Option NodeId → Accounting → Option (Option NodeId × Accounting)
  | [], node, A => some (node, A)
  | name :: path, node, A => do
    let (new, A) ← appendNode A node name
    createNodes path (some new) A

/-- `get_or_create_library_path`. Only the parts behind those that were found get a node. -/
def getOrCreateLibraryPath (path : List String) (A : Accounting) :
    Option (Option NodeId × Accounting) := do
  let (lvl, node) ← searchAheadLibraryPath A path
  if path.length = lvl then
    return (node, A)
  else
    createNodes (path.drop lvl) node A

/-- The loop of `recursive_search_lib_tree`. `strcmp` is not 0 for the first node with another
    name. -/
def findOther (A : Accounting) (name : String) : List (Option NodeId) → Option (Option NodeId)
  | [] => none
  | none :: _ => some none
  | some n :: rest => do
    let node ← A.nodes n
    if name ≠ node.name then return some n else findOther A name rest

/-- `path` is what is left of the path from `lvl` on. -/
def recursiveSearchLibTree (A : Accounting) :
    List String → PntArray NodeId → Option (Option NodeId)
  | _, none => some none
  | [], some crnt => crnt[0]?
  | name :: path, some crnt => do
    match ← findOther A name crnt with
    | none => return none
    | some n =>
      let node ← A.nodes n
      recursiveSearchLibTree A path node.subnodes

/-- `get_library_tree_node_by_path`: the search starts at the root nodes. -/
def getLibraryTreeNodeByPath (path : List String) (A : Accounting) : Option (Option NodeId) :=
  recursiveSearchLibTree A path A.rootNodes

/-! ## Registration -/

/-- The loop of `lxc_register_gate` over the paths. -/
def listGate (entry : BehaviorId) : List (List String) → Accounting → Option Accounting
  | [], A => some A
  | path :: paths, A => do
    let (node, A) ← getOrCreateLibraryPath path A
    let n ← node
    let node ← A.nodes n
    let (_, gates) ← arrayPntAppendElement node.gates (some entry)
    listGate entry paths (A.setNode n { node with gates := gates })

/-- `lxc_register_gate`. A name that is registered is refused; the gate is listed in the tree behind
    its entry in the array. -/
def lxcRegisterGate (behaviors : BehaviorId → LxcGateBehavior) (entry : BehaviorId)
    (A : Accounting) : Option (Int × Accounting) :=
  match (behaviors entry).gateName with
  | none => return (LxcErrno.badCall.code, A)
  | some name => do
    match ← getGateEntryByName behaviors name A with
    | some _ => return (LxcErrno.entityByNameAlreadyRegistered.code, A)
    | none =>
      let (_, registered) ← arrayPntAppendElement A.registeredBehaviors (some entry)
      let A := { A with registeredBehaviors := registered }
      match (behaviors entry).paths with
      | none => return (0, A)
      | some paths =>
        let A ← listGate entry paths A
        return (0, A)

end LogxControll
