/-
  Looking a library path up.

  `recursive_search_lib_tree` goes down at the first node whose name is not the part of the path,
  and returns the first node below the last one. The nodes of a level are in the order of creation,
  so what is returned can be told from the created paths (`Decoy`). It is one level too deep: looking
  a path up is right only where nothing should be found and there is no decoy
  (`getLibraryTreeNodeByPath_correct_iff`).
-/
import LogxControll.Core.LibraryTree

namespace LogxControll

namespace Accounting

/-- The name of a node. -/
def nodeName (A : Accounting) (n : NodeId) : Option String :=
  (A.nodes n).map LibraryTreeNode.name

/-! ## The order of the nodes -/

/-- The parts that the created paths have behind `p`, in the order of the calls. -/
def nextParts (paths : List (List String)) (p : List String) : List String :=
  paths.filterMap fun q => if p <+: q then q[p.length]? else none

/-- The array of the nodes one level below the path: that of the roots below the empty path. -/
def Level (A : Accounting) (t : PathTable) (p : List String) (array : PntArray NodeId) : Prop :=
  p = [] ∧ array = A.rootNodes ∨
    ∃ n node, t p = some n ∧ A.nodes n = some node ∧ array = node.subnodes

/-- On every level, the first node whose name satisfies a condition has the name of the first part
    that does. -/
def Ordered (A : Accounting) (t : PathTable) (paths : List (List String)) : Prop :=
  ∀ p array l, A.Level t p array → Packed array l → ∀ f : String → Bool,
    (l.filterMap A.nodeName).find? f = (nextParts paths p).find? f

variable {A A' : Accounting} {t t' : PathTable} {paths : List (List String)}

theorem Tree.children (h : A.Tree t) {p : List String} {array : PntArray NodeId}
    (hlevel : A.Level t p array) : Children t p array := by
  rcases hlevel with ⟨rfl, rfl⟩ | ⟨n, node, hp, hnode, rfl⟩
  · exact h.roots
  · exact h.subnodes p n node hp hnode

theorem Tree.nodeName_eq (h : A.Tree t) {p : List String} {x : String} {n : NodeId}
    (ht : t (p ++ [x]) = some n) : A.nodeName n = some x := by
  obtain ⟨node, hnode, rfl⟩ := h.node p x n ht
  rw [nodeName, hnode, Option.map_some]

theorem mem_nextParts {p : List String} {x : String} :
    x ∈ nextParts paths p ↔ ∃ q ∈ paths, p ++ [x] <+: q := by
  unfold nextParts
  rw [List.mem_filterMap]
  refine exists_congr fun q => and_congr_right fun _ => ?_
  split
  · next hpre =>
    obtain ⟨rest, rfl⟩ := hpre
    rw [List.getElem?_append_right le_rfl, Nat.sub_self, List.prefix_append_right_inj]
    cases rest <;> simp [eq_comm]
  · next hno =>
    exact iff_of_false (by simp) fun hpre => hno ((List.prefix_append p [x]).trans hpre)

theorem nextParts_append (paths paths' : List (List String)) (p : List String) :
    nextParts (paths ++ paths') p = nextParts paths p ++ nextParts paths' p :=
  List.filterMap_append

theorem nextParts_singleton {path p : List String} {x : String} (h : p ++ [x] <+: path) :
    nextParts [path] p = [x] := by
  obtain ⟨rest, rfl⟩ := h
  simp [nextParts]

theorem next_unique {path p : List String} {x y : String} (hx : p ++ [x] <+: path)
    (hy : p ++ [y] <+: path) : y = x := by
  have heq := List.prefix_of_prefix_length_le hy hx (by simp)
  simpa using (List.prefix_append_right_inj p).mp heq

theorem find?_append_singleton_of_mem {α : Type*} {l : List α} {x : α} (hx : x ∈ l) (f : α → Bool) :
    (l ++ [x]).find? f = l.find? f := by
  rw [List.find?_append]
  cases hf : l.find? f with
  | some y => rfl
  | none =>
    rw [Option.none_or, List.find?_cons_of_neg (List.find?_eq_none.mp hf x hx), List.find?_nil]

/-- The paths of the tree are the created ones and their parts. -/
def Parts (t : PathTable) (paths : List (List String)) : Prop :=
  ∀ p, (∃ n, t p = some n) ↔ p ≠ [] ∧ ∃ q ∈ paths, p <+: q

/-- The nodes that a level had before are at its beginning, in the same order. -/
theorem Ordered.old_nodes (h : A.Tree t) (ho : A.Ordered t paths) (hparts : Parts t paths)
    (hext : Extends A t A' t') {p : List String} {array : PntArray NodeId} {l' : List NodeId}
    (hlevel : A'.Level t' p array) (hl' : Packed array l') :
    ∃ l l₂, l' = l ++ l₂ ∧ (∀ n, n ∈ l ↔ ∃ x, t (p ++ [x]) = some n) ∧
      ∀ f, (l.filterMap A'.nodeName).find? f = (nextParts paths p).find? f := by
  have hsame {l : List NodeId} (hmem : ∀ n, n ∈ l ↔ ∃ x, t (p ++ [x]) = some n) :
      l.filterMap A'.nodeName = l.filterMap A.nodeName := by
    refine List.filterMap_congr fun n hn => ?_
    obtain ⟨x, hx⟩ := (hmem n).mp hn
    rw [hext.tree.nodeName_eq (hext.keeps _ _ hx), h.nodeName_eq hx]
  rcases hlevel with ⟨rfl, rfl⟩ | ⟨n, node', hp', hnode', rfl⟩
  · obtain ⟨l, hl, -, hmem⟩ := h.roots
    obtain ⟨l₂, hl₂⟩ := hext.grows.roots l hl
    refine ⟨l, l₂, hl'.unique hl₂, hmem, fun f => ?_⟩
    rw [hsame hmem]
    exact ho [] _ l (.inl ⟨rfl, rfl⟩) hl f
  cases hp : t p with
  | some m =>
    obtain rfl := Option.some.inj ((hext.keeps p m hp).symm.trans hp')
    obtain ⟨node, hnode⟩ := h.exists_node hp
    obtain ⟨l, hl, -, hmem⟩ := h.subnodes p m node hp hnode
    obtain ⟨node₁, hnode₁, -, -, hsub⟩ := hext.grows.nodes m node hnode
    obtain rfl := Option.some.inj (hnode'.symm.trans hnode₁)
    obtain ⟨l₂, hl₂⟩ := hsub l hl
    refine ⟨l, l₂, hl'.unique hl₂, hmem, fun f => ?_⟩
    rw [hsame hmem]
    exact ho p _ l (.inr ⟨m, node, hp, hnode, rfl⟩) hl f
  | none =>
    -- a new node, below which there was nothing
    have hne : p ≠ [] := hext.tree.ne_nil hp'
    have hno (x : String) : t (p ++ [x]) = none := by
      cases hx : t (p ++ [x]) with
      | none => rfl
      | some m =>
        obtain ⟨m', hm'⟩ := h.closed p x m hne hx
        cases hp.symm.trans hm'
    have hnil : nextParts paths p = [] := by
      refine List.eq_nil_iff_forall_not_mem.mpr fun x hx => ?_
      obtain ⟨q, hq, hpre⟩ := mem_nextParts.mp hx
      obtain ⟨m, hm⟩ := (hparts p).mpr ⟨hne, q, hq, (List.prefix_append p [x]).trans hpre⟩
      cases hp.symm.trans hm
    exact ⟨[], l', rfl, fun n => by simp [hno], fun f => by rw [hnil]; rfl⟩

/-- The nodes that a level got lie on the created path. -/
theorem Ordered.new_nodes (h : A.Tree t) (ho : A.Ordered t paths) (hparts : Parts t paths)
    (hext : Extends A t A' t') {path : List String}
    (hdomain : ∀ q, (∃ n, t' q = some n) ↔ (∃ n, t q = some n) ∨ (q ≠ [] ∧ q <+: path))
    {p : List String} {array : PntArray NodeId} {l' : List NodeId} (hlevel : A'.Level t' p array)
    (hl' : Packed array l') :
    ∃ l l₂, l' = l ++ l₂ ∧ l₂.Nodup ∧
      (∀ f, (l.filterMap A'.nodeName).find? f = (nextParts paths p).find? f) ∧
      ∀ n, n ∈ l₂ ↔ ∃ x, p ++ [x] <+: path ∧ t (p ++ [x]) = none ∧ t' (p ++ [x]) = some n := by
  obtain ⟨l, l₂, rfl, hold, hfind⟩ := ho.old_nodes h hparts hext hlevel hl'
  obtain ⟨l'', hl'', hnodup, hmem⟩ := hext.tree.children hlevel
  obtain rfl := hl'.unique hl''
  obtain ⟨-, hnodup₂, hdisjoint⟩ := List.nodup_append.mp hnodup
  refine ⟨l, l₂, rfl, hnodup₂, hfind, fun n => ⟨fun hn => ?_, ?_⟩⟩
  · obtain ⟨x, hx⟩ := (hmem n).mp (List.mem_append_right l hn)
    have hnone : t (p ++ [x]) = none := by
      cases ht : t (p ++ [x]) with
      | none => rfl
      | some m =>
        obtain rfl := Option.some.inj ((hext.keeps _ _ ht).symm.trans hx)
        exact absurd rfl (hdisjoint m ((hold m).mpr ⟨x, ht⟩) m hn)
    rcases (hdomain _).mp ⟨n, hx⟩ with ⟨m, hm⟩ | ⟨-, hpre⟩
    · cases hnone.symm.trans hm
    · exact ⟨x, hpre, hnone, hx⟩
  · rintro ⟨x, -, hnone, hx⟩
    have hnl : n ∉ l := fun hnl => by
      obtain ⟨y, hy⟩ := (hold n).mp hnl
      rw [hext.tree.inj _ _ n (hext.keeps _ _ hy) hx, hnone] at hy
      cases hy
    exact (List.mem_append.mp ((hmem n).mpr ⟨x, hx⟩)).resolve_left hnl

/-- One more created path: at most one node is new on a level, and it is the last one. -/
theorem Ordered.step (h : A.Tree t) (ho : A.Ordered t paths) (hparts : Parts t paths)
    (hext : Extends A t A' t') {path : List String}
    (hdomain : ∀ q, (∃ n, t' q = some n) ↔ (∃ n, t q = some n) ∨ (q ≠ [] ∧ q <+: path)) :
    A'.Ordered t' (paths ++ [path]) := by
  intro p array l' hlevel hl' f
  obtain ⟨l, l₂, rfl, hnodup, hfind, hnew⟩ := ho.new_nodes h hparts hext hdomain hlevel hl'
  rw [List.filterMap_append, nextParts_append]
  by_cases hpath : ∃ x, p ++ [x] <+: path
  swap
  · -- the path does not come by here
    have hl₂ : l₂ = [] := List.eq_nil_iff_forall_not_mem.mpr fun n hn => by
      obtain ⟨x, hx, -⟩ := (hnew n).mp hn
      exact hpath ⟨x, hx⟩
    have hparts' : nextParts [path] p = [] := List.eq_nil_iff_forall_not_mem.mpr fun x hx => by
      obtain ⟨q, hq, hpre⟩ := mem_nextParts.mp hx
      obtain rfl := List.mem_singleton.mp hq
      exact hpath ⟨x, hpre⟩
    rw [hl₂, hparts', List.filterMap_nil, List.append_nil, List.append_nil]
    exact hfind f
  obtain ⟨x, hx⟩ := hpath
  rw [nextParts_singleton hx]
  cases ht : t (p ++ [x]) with
  | some m =>
    have hl₂ : l₂ = [] := List.eq_nil_iff_forall_not_mem.mpr fun n hn => by
      obtain ⟨y, hy, hnone, -⟩ := (hnew n).mp hn
      rw [next_unique hx hy, ht] at hnone
      cases hnone
    obtain ⟨-, q, hq, hpre⟩ := (hparts _).mp ⟨m, ht⟩
    rw [hl₂, List.filterMap_nil, List.append_nil, hfind,
      find?_append_singleton_of_mem (mem_nextParts.mpr ⟨q, hq, hpre⟩)]
  | none =>
    obtain ⟨n, hn⟩ := (hdomain (p ++ [x])).mpr (.inr ⟨by simp, hx⟩)
    have hmem (m : NodeId) : m ∈ l₂ ↔ m ∈ [n] := by
      rw [hnew, List.mem_singleton]
      constructor
      · rintro ⟨y, hy, -, hm⟩
        rw [next_unique hx hy, hn] at hm
        exact (Option.some.inj hm).symm
      · rintro rfl
        exact ⟨x, hx, ht, hn⟩
    have hl₂ : l₂ = [n] := List.perm_singleton.mp
      ((List.perm_ext_iff_of_nodup hnodup (List.nodup_singleton n)).mpr hmem)
    have hname : [n].filterMap A'.nodeName = [x] := by
      rw [List.filterMap_cons_some (hext.tree.nodeName_eq hn), List.filterMap_nil]
    rw [hl₂, hname, List.find?_append, List.find?_append, hfind]

/-! ## Searching the tree -/

/-- From `base` on, `s` goes one part further than `p`, and has at each part of `p` the first other
    part that a created path has there. -/
structure DecoyFrom (paths : List (List String)) (base p s : List String) : Prop where
  starts : base <+: s
  length : s.length = base.length + p.length + 1
  created : ∃ q ∈ paths, s <+: q
  turns : ∀ i x, p[i]? = some x →
    (nextParts paths (s.take (base.length + i))).find? (· ≠ x) = s[base.length + i]?

theorem DecoyFrom.next {base p s : List String} {x : String}
    (h : DecoyFrom paths base (x :: p) s) : ∃ y, (nextParts paths base).find? (· ≠ x) = some y ∧
      DecoyFrom paths (base ++ [y]) p s := by
  obtain ⟨rest, rfl⟩ := h.starts
  have hfirst := h.turns 0 x rfl
  have hlen := h.length
  cases rest with
  | nil =>
    simp only [List.append_nil, List.length_cons] at hlen
    omega
  | cons y rest =>
    rw [Nat.add_zero, List.take_left, List.getElem?_append_right le_rfl, Nat.sub_self] at hfirst
    refine ⟨y, hfirst, ⟨rest, by simp⟩, ?_, h.created, fun i z hz => ?_⟩
    · simp only [List.length_append, List.length_cons, List.length_nil] at hlen ⊢
      omega
    · have hturn := h.turns (i + 1) z hz
      rw [List.length_append, List.length_singleton, Nat.add_right_comm, Nat.add_assoc]
      exact hturn

theorem DecoyFrom.prev {base p s : List String} {x y : String}
    (hy : (nextParts paths base).find? (· ≠ x) = some y) (h : DecoyFrom paths (base ++ [y]) p s) :
    DecoyFrom paths base (x :: p) s := by
  obtain ⟨rest, rfl⟩ := h.starts
  refine ⟨⟨y :: rest, by simp⟩, ?_, h.created, fun i z hz => ?_⟩
  · have hlen := h.length
    simp only [List.length_append, List.length_cons, List.length_nil] at hlen ⊢
    omega
  · cases i with
    | zero =>
      obtain rfl : x = z := Option.some.inj hz
      simpa using hy
    | succ i =>
      have hturn := h.turns i z hz
      rw [List.length_append, List.length_singleton, Nat.add_right_comm, Nat.add_assoc] at hturn
      exact hturn

theorem findOther_eq (name : String) : ∀ {l : List NodeId}, (∀ n ∈ l, ∃ node, A.nodes n = some node) →
    findOther A name (l.map some ++ [none]) =
      some (l.find? fun n => (A.nodeName n).any (· ≠ name))
  | [], _ => rfl
  | n :: l, hlive => by
      obtain ⟨node, hnode⟩ := hlive n List.mem_cons_self
      rw [List.map_cons, List.cons_append, findOther, hnode]
      simp only [Option.bind_eq_bind, Option.bind_some]
      by_cases he : name = node.name
      · rw [if_neg (not_not.mpr he), List.find?_cons_of_neg (by simp [nodeName, hnode, he])]
        exact findOther_eq name fun m hm => hlive m (List.mem_cons_of_mem _ hm)
      · rw [if_pos he, List.find?_cons_of_pos (by simp [nodeName, hnode, Ne.symm he])]
        rfl

/-- The search goes on below the first node that is called otherwise, if there is one. -/
theorem Tree.recursiveSearchLibTree_cons (h : A.Tree t) (ho : A.Ordered t paths)
    {base : List String} {array : PntArray NodeId} (hlevel : A.Level t base array) (x : String)
    (p : List String) :
    ((nextParts paths base).find? (· ≠ x) = none ∧
        recursiveSearchLibTree A (x :: p) array = some none) ∨
      ∃ n node, (nextParts paths base).find? (· ≠ x) = some node.name ∧
        t (base ++ [node.name]) = some n ∧ A.nodes n = some node ∧
        recursiveSearchLibTree A (x :: p) array = recursiveSearchLibTree A p node.subnodes := by
  obtain ⟨l, hl, -, hmem⟩ := h.children hlevel
  have hlive : ∀ n ∈ l, ∃ node, A.nodes n = some node ∧ t (base ++ [node.name]) = some n := by
    intro n hn
    obtain ⟨y, hy⟩ := (hmem n).mp hn
    obtain ⟨node, hnode, rfl⟩ := h.node base y n hy
    exact ⟨node, hnode, hy⟩
  have hfind := ho base array l hlevel hl (· ≠ x)
  rw [List.find?_filterMap] at hfind
  have hother := @findOther_eq A x l fun n hn => (hlive n hn).imp fun _ hnode => hnode.1
  cases hfirst : l.find? fun n => (A.nodeName n).any (· ≠ x) with
  | none =>
    rw [hfirst] at hfind hother
    refine .inl ⟨hfind.symm, ?_⟩
    rcases hl with ⟨rfl, rfl⟩ | rfl
    · rfl
    · rw [recursiveSearchLibTree, hother]
      rfl
  | some m =>
    rw [hfirst] at hfind hother
    obtain ⟨node, hnode, hm⟩ := hlive m (List.mem_of_find?_eq_some hfirst)
    rw [Option.bind_some, h.nodeName_eq hm] at hfind
    refine .inr ⟨m, node, hfind.symm, hm, hnode, ?_⟩
    rcases hl with ⟨rfl, rfl⟩ | rfl
    · cases hfirst
    · rw [recursiveSearchLibTree, hother]
      simp only [Option.bind_eq_bind, Option.bind_some, hnode]

/-- At the end of the path the first node of the level is returned. -/
theorem Tree.recursiveSearchLibTree_nil (h : A.Tree t) {base : List String}
    {array : PntArray NodeId} (hlevel : A.Level t base array) :
    ∃ r, recursiveSearchLibTree A [] array = some r ∧
      (∀ n, r = some n → ∃ x, t (base ++ [x]) = some n) ∧
      (r = none → ∀ x, t (base ++ [x]) = none) := by
  obtain ⟨l, hl, -, hmem⟩ := h.children hlevel
  have hsearch : recursiveSearchLibTree A [] array = some l.head? := by
    rcases hl with ⟨rfl, rfl⟩ | rfl
    · rfl
    · cases l <;> rfl
  refine ⟨l.head?, hsearch, fun n hn => (hmem n).mp (List.mem_of_mem_head? hn), fun hnone x => ?_⟩
  obtain rfl := List.head?_eq_none_iff.mp hnone
  cases hx : t (base ++ [x]) with
  | none => rfl
  | some n => cases (hmem n).mpr ⟨x, hx⟩

/-- From the nodes below `base`, the search finds the node of a decoy, or NULL when there is none. -/
theorem Tree.recursiveSearchLibTree_eq (h : A.Tree t) (ho : A.Ordered t paths)
    (hparts : Parts t paths) (p : List String) :
    ∀ {base : List String} {array : PntArray NodeId}, A.Level t base array →
      ∃ r, recursiveSearchLibTree A p array = some r ∧
        (∀ n, r = some n → ∃ s, DecoyFrom paths base p s ∧ t s = some n) ∧
        (r = none → ∀ s, ¬ DecoyFrom paths base p s) := by
  induction p with
  | nil =>
    intro base array hlevel
    obtain ⟨r, hsearch, hfound, hnull⟩ := h.recursiveSearchLibTree_nil hlevel
    refine ⟨r, hsearch, fun n hn => ?_, fun hnone s hs => ?_⟩
    · obtain ⟨x, hx⟩ := hfound n hn
      obtain ⟨-, hcreated⟩ := (hparts _).mp ⟨n, hx⟩
      exact ⟨base ++ [x], ⟨List.prefix_append .., by simp, hcreated, by simp⟩, hx⟩
    · obtain ⟨rest, rfl⟩ := hs.starts
      have hlen := hs.length
      obtain ⟨x, rfl⟩ : ∃ x, rest = [x] := List.length_eq_one_iff.mp (by
        simp only [List.length_append, List.length_nil] at hlen
        omega)
      obtain ⟨n, hn⟩ := (hparts (base ++ [x])).mpr ⟨by simp, hs.created⟩
      cases (hnull hnone x).symm.trans hn
  | cons x p ih =>
    intro base array hlevel
    rcases h.recursiveSearchLibTree_cons ho hlevel x p with
      ⟨hfind, hsearch⟩ | ⟨m, node, hfind, hm, hnode, hsearch⟩
    · refine ⟨none, hsearch, nofun, fun _ s hs => ?_⟩
      obtain ⟨y, hy, -⟩ := hs.next
      cases hfind.symm.trans hy
    · obtain ⟨r, hr, hdecoy, hnone⟩ := ih (.inr ⟨m, node, hm, hnode, rfl⟩)
      refine ⟨r, hsearch.trans hr, fun n hn => ?_, fun hrn s hs => ?_⟩
      · obtain ⟨s, hs, ht⟩ := hdecoy n hn
        exact ⟨s, hs.prev hfind, ht⟩
      · obtain ⟨y, hy, hs⟩ := hs.next
        obtain rfl := Option.some.inj (hfind.symm.trans hy)
        exact hnone hrn s hs

/-- A path of the tree that goes one part further than `p`, and has at each part of `p` the first
    other part that a created path has there. -/
structure Decoy (paths : List (List String)) (p s : List String) : Prop where
  created : ∃ q ∈ paths, s <+: q
  length : s.length = p.length + 1
  turns : ∀ i x, p[i]? = some x → (nextParts paths (s.take i)).find? (· ≠ x) = s[i]?

theorem decoyFrom_nil_iff {p s : List String} : DecoyFrom paths [] p s ↔ Decoy paths p s := by
  constructor
  · rintro ⟨-, hlen, hcreated, hturns⟩
    exact ⟨hcreated, by simpa using hlen, by simpa using hturns⟩
  · rintro ⟨hcreated, hlen, hturns⟩
    exact ⟨List.nil_prefix, by simpa using hlen, hcreated, by simpa using hturns⟩

/-! ## Histories -/

/-- A call of `get_or_create_library_path`; the paths so far and the nodes returned for them. -/
def createStep (S : Accounting × List (List String × NodeId)) (path : List String) :
    Option (Accounting × List (List String × NodeId)) := do
  let (node, A) ← getOrCreateLibraryPath path S.1
  let n ← node
  return (A, S.2 ++ [(path, n)])

/-- The tree after a log of creations: its parts are those of the paths in the log, ordered as these
    came, and each creation returned the node at the end of its path. -/
structure CreatedTree (A : Accounting) (log : List (List String × NodeId)) (t : PathTable) : Prop where
  tree : A.Tree t
  parts : Parts t (log.map Prod.fst)
  ordered : A.Ordered t (log.map Prod.fst)
  returned : ∀ q n, (q, n) ∈ log → t q = some n

theorem createdTree_empty : CreatedTree empty [] fun _ => none := by
  refine ⟨tree_empty, by simp [Parts], ?_, by simp⟩
  rintro p array l (⟨-, rfl⟩ | ⟨n, node, hp, -⟩) hl f
  · obtain rfl := hl.unique (.inl ⟨rfl, rfl⟩)
    rfl
  · cases hp

theorem CreatedTree.step {log : List (List String × NodeId)} (h : CreatedTree A log t)
    {path : List String} (hpath : path ≠ []) :
    ∃ n A' t', createStep (A, log) path = some (A', log ++ [(path, n)]) ∧
      CreatedTree A' (log ++ [(path, n)]) t' := by
  obtain ⟨A', t', hres, hext, hdomain, -⟩ := h.tree.getOrCreate_extends path
  obtain ⟨n, hn⟩ := (hdomain path).mpr (.inr ⟨hpath, List.prefix_refl path⟩)
  rw [hn] at hres
  have hordered := h.ordered.step h.tree h.parts hext hdomain
  refine ⟨n, A', t', by simp [createStep, hres], hext.tree, fun p => ?_, by simpa using hordered,
    fun q m hmem => ?_⟩
  · rw [hdomain, h.parts]
    simp only [List.map_append, List.map_cons, List.map_nil, List.mem_append, List.mem_singleton]
    grind
  · rcases List.mem_append.mp hmem with hold | hnew
    · exact hext.keeps q m (h.returned q m hold)
    · rw [List.mem_singleton, Prod.mk.injEq] at hnew
      rw [hnew.1, hnew.2, hn]

theorem CreatedTree.run (paths : List (List String)) :
    ∀ {A : Accounting} {log : List (List String × NodeId)} {t : PathTable}, CreatedTree A log t →
      [] ∉ paths → ∃ A' log' t', Run.run createStep (A, log) paths = some (A', log ++ log') ∧
        log'.map Prod.fst = paths ∧ CreatedTree A' (log ++ log') t' := by
  induction paths with
  | nil =>
    intro A log t h _
    exact ⟨A, [], t, by simp [Run.run], rfl, by simpa using h⟩
  | cons path paths ih =>
    intro A log t h hpaths
    rw [List.mem_cons, not_or] at hpaths
    obtain ⟨n, A₁, t₁, hstep, h₁⟩ := h.step (Ne.symm hpaths.1)
    obtain ⟨A', log', t', hrun, hlog, h'⟩ := ih h₁ hpaths.2
    refine ⟨A', (path, n) :: log', t', ?_, by simp [hlog], by simpa using h'⟩
    rw [Run.run_cons, hstep]
    simpa using hrun

end Accounting

open Accounting

/-- After every sequence of calls of `get_or_create_library_path`, which would return the same nodes
    again, looking a path up gives the node of the path, or NULL when it is none of the tree, exactly
    when it is none of the tree and has no decoy among the created paths. -/
theorem getLibraryTreeNodeByPath_correct_iff {paths : List (List String)} (hpaths : [] ∉ paths) :
    ∃ A log, Run.run createStep (empty, []) paths = some (A, log) ∧ log.map Prod.fst = paths ∧
      (∀ q n, (q, n) ∈ log → getOrCreateLibraryPath q A = some (some n, A)) ∧
      ∀ p, p ≠ [] →
        ((∃ r, getLibraryTreeNodeByPath p A = some r ∧
          ((∃ q ∈ paths, p <+: q) →
            ∃ n, r = some n ∧ getOrCreateLibraryPath p A = some (some n, A)) ∧
          ((¬ ∃ q ∈ paths, p <+: q) → r = none)) ↔
        (¬ ∃ q ∈ paths, p <+: q) ∧ ∀ s, ¬ Decoy paths p s) := by
  obtain ⟨A, log, t, hrun, hlog, h⟩ := CreatedTree.run paths createdTree_empty hpaths
  rw [List.nil_append] at hrun h
  have hagain : ∀ p n, t p = some n → getOrCreateLibraryPath p A = some (some n, A) := by
    intro p n hp
    obtain ⟨A', t', hres, hext, -, hsame⟩ := h.tree.getOrCreate_extends p
    obtain rfl := hsame ⟨n, hp⟩
    rw [hres, hext.keeps p n hp]
  refine ⟨A, log, hrun, hlog, fun q n hq => hagain q n (h.returned q n hq), fun p hp => ?_⟩
  have hordered := h.ordered
  have hparts := h.parts
  rw [hlog] at hordered hparts
  obtain ⟨r, hr, hdecoy, hnull⟩ := h.tree.recursiveSearchLibTree_eq hordered hparts p
    (.inl ⟨rfl, rfl⟩)
  simp only [decoyFrom_nil_iff] at hdecoy hnull
  constructor
  · rintro ⟨r', hr', hfound, hmissing⟩
    obtain rfl := Option.some.inj (hr'.symm.trans hr)
    have hnone : ¬ ∃ q ∈ paths, p <+: q := by
      intro hq
      obtain ⟨n, rfl, hn⟩ := hfound hq
      -- the node found is one level below the node of the path
      obtain ⟨m, hm⟩ := (hparts p).mpr ⟨hp, hq⟩
      obtain ⟨s, hs, hsn⟩ := hdecoy n rfl
      rw [hagain p m hm, Option.some.injEq, Prod.mk.injEq, Option.some.injEq] at hn
      obtain rfl := h.tree.inj p s n (hn.1 ▸ hm) hsn
      have hlen := hs.length
      omega
    exact ⟨hnone, hnull (hmissing hnone)⟩
  · rintro ⟨hnone, hno⟩
    refine ⟨r, hr, fun hq => absurd hq hnone, fun _ => ?_⟩
    cases hr' : r with
    | none => rfl
    | some n =>
      obtain ⟨s, hs, -⟩ := hdecoy n hr'
      exact absurd hs (hno s)

/-- Below `posix`, the only root that is not called `builtin`, there is nothing. -/
theorem getLibraryTreeNodeByPath_correct_iff_sample : ∃ A log,
    Run.run createStep (empty, []) [["builtin", "bool"], ["posix"]] = some (A, log) ∧
    ((∃ r, getLibraryTreeNodeByPath ["builtin", "gates"] A = some r ∧
      ((∃ q ∈ [["builtin", "bool"], ["posix"]], ["builtin", "gates"] <+: q) →
        ∃ n, r = some n ∧ getOrCreateLibraryPath ["builtin", "gates"] A = some (some n, A)) ∧
      ((¬ ∃ q ∈ [["builtin", "bool"], ["posix"]], ["builtin", "gates"] <+: q) → r = none)) ↔
    (¬ ∃ q ∈ [["builtin", "bool"], ["posix"]], ["builtin", "gates"] <+: q) ∧
      ∀ s, ¬ Decoy [["builtin", "bool"], ["posix"]] ["builtin", "gates"] s) ∧
    (¬ ∃ q ∈ [["builtin", "bool"], ["posix"]], ["builtin", "gates"] <+: q) ∧
      ∀ s, ¬ Decoy [["builtin", "bool"], ["posix"]] ["builtin", "gates"] s := by
  have hpaths : [] ∉ [["builtin", "bool"], ["posix"]] := by decide
  obtain ⟨A, log, hrun, -, -, hall⟩ := getLibraryTreeNodeByPath_correct_iff hpaths
  refine ⟨A, log, hrun, hall ["builtin", "gates"] (by decide), by decide, fun s hs => ?_⟩
  -- no created path has three parts
  obtain ⟨q, hq, hpre⟩ := hs.created
  have hshort : ∀ q ∈ [["builtin", "bool"], ["posix"]], q.length ≤ 2 := by decide
  have hlen := hs.length
  have hle := hpre.length_le.trans (hshort q hq)
  simp only [List.length_cons, List.length_nil] at hlen
  omega

/-- A path that was just created is not found. -/
theorem getLibraryTreeNodeByPath_misses : ∃ A n,
    getOrCreateLibraryPath ["builtin", "bool"] empty = some (some n, A) ∧
    getLibraryTreeNodeByPath ["builtin", "bool"] A = some none :=
  ⟨_, _, rfl, rfl⟩

end LogxControll
