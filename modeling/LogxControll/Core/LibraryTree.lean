/-
  The library tree and the registered behaviors agree.

  `At` reads the tree: a node is at a path when the names from the root to it spell the path.
  `Tree A t` says that a table `t` from paths to nodes has the same content; growing the tree by
  one node (`Tree.grow`) is one more entry of the table. Searching the tree comes to the longest
  part of the path that the table knows (`Tree.search`), so `get_or_create_library_path` adds the
  entries of the missing parts (`Tree.getOrCreate_extends`). The lists of gates are a second table
  (`Lists`), which registration appends to.
-/
import LogxControll.Core.Accounting
import LogxControll.Lib.Run

namespace LogxControll

namespace Accounting

/-- The names from the root to the node spell the path. -/
inductive At (A : Accounting) : List String → NodeId → Prop
  | root {block : List (Option NodeId)} {n : NodeId} {node : LibraryTreeNode}
      (hroots : A.rootNodes = some block) (hn : some n ∈ block) (hnode : A.nodes n = some node) :
      A.At [node.name] n
  | sub {p : List String} {m n : NodeId} {parent node : LibraryTreeNode}
      {block : List (Option NodeId)} (hp : A.At p m) (hm : A.nodes m = some parent)
      (hblock : parent.subnodes = some block) (hn : some n ∈ block)
      (hnode : A.nodes n = some node) : A.At (p ++ [node.name]) n

/-- The node at the end of a path. -/
abbrev PathTable := List String → Option NodeId

/-- The array holds the nodes one level below the path, each once. -/
def Children (t : PathTable) (p : List String) (array : PntArray NodeId) : Prop :=
  ∃ l, Packed array l ∧ l.Nodup ∧ ∀ n, n ∈ l ↔ ∃ x, t (p ++ [x]) = some n

/-- The nodes are the paths of a table, one for each, linked from their parents. -/
structure Tree (A : Accounting) (t : PathTable) : Prop where
  root : t [] = none
  inj : ∀ p q n, t p = some n → t q = some n → p = q
  node : ∀ p x n, t (p ++ [x]) = some n → ∃ node, A.nodes n = some node ∧ node.name = x
  roots : Children t [] A.rootNodes
  subnodes : ∀ p n node, t p = some n → A.nodes n = some node → Children t p node.subnodes
  closed : ∀ p x n, p ≠ [] → t (p ++ [x]) = some n → ∃ m, t p = some m
  live : ∀ n node, A.nodes n = some node → ∃ p, t p = some n
  fresh : ∀ n, A.nextNode ≤ n → A.nodes n = none

theorem tree_empty : empty.Tree fun _ => none where
  root := rfl
  inj := by simp
  node := by simp
  roots := ⟨[], .inl ⟨rfl, rfl⟩, List.nodup_nil, by simp⟩
  subnodes := by simp
  closed := by simp
  live := by simp [empty]
  fresh := by simp [empty]

/-! ## Reading the tree -/

namespace Tree

variable {A : Accounting} {t : PathTable} {p q : List String} {n : NodeId}

theorem ne_nil (h : A.Tree t) (hp : t p = some n) : p ≠ [] := by
  rintro rfl
  rw [h.root] at hp
  cases hp

theorem mem_block_iff {array : PntArray NodeId} {block : List (Option NodeId)}
    (hc : Children t p array) (hb : array = some block) (n : NodeId) :
    some n ∈ block ↔ ∃ x, t (p ++ [x]) = some n := by
  obtain ⟨l, hl, -, hmem⟩ := hc
  rcases hl with ⟨he, -⟩ | he
  · rw [he] at hb
    cases hb
  · obtain rfl := Option.some.inj (he.symm.trans hb)
    rw [← hmem]
    simp

theorem at_iff (h : A.Tree t) : A.At p n ↔ t p = some n := by
  constructor
  · intro hat
    induction hat with
    | root hroots hn hnode =>
      obtain ⟨x, hx⟩ := (mem_block_iff h.roots hroots _).mp hn
      obtain ⟨node', hnode', rfl⟩ := h.node [] x _ hx
      obtain rfl := Option.some.inj (hnode.symm.trans hnode')
      exact hx
    | sub hp hm hblock hn hnode ih =>
      obtain ⟨x, hx⟩ := (mem_block_iff (h.subnodes _ _ _ ih hm) hblock _).mp hn
      obtain ⟨node', hnode', rfl⟩ := h.node _ x _ hx
      obtain rfl := Option.some.inj (hnode.symm.trans hnode')
      exact hx
  · intro ht
    induction p using List.reverseRecOn generalizing n with
    | nil => exact absurd rfl (h.ne_nil ht)
    | append_singleton p x ih =>
      obtain ⟨node, hnode, rfl⟩ := h.node p x n ht
      by_cases hp : p = []
      · subst hp
        obtain ⟨l, hl, -, hmem⟩ := h.roots
        have hn : n ∈ l := (hmem n).mpr ⟨node.name, ht⟩
        rcases hl with ⟨-, rfl⟩ | hl
        · cases hn
        · exact .root hl (by simp [hn]) hnode
      · obtain ⟨m, hm⟩ := h.closed p node.name n hp ht
        obtain ⟨y, p', rfl⟩ : ∃ y p', p = p' ++ [y] :=
          ⟨_, _, (List.dropLast_append_getLast hp).symm⟩
        obtain ⟨parent, hparent, -⟩ := h.node p' y m hm
        obtain ⟨l, hl, -, hmem⟩ := h.subnodes _ m parent hm hparent
        have hn : n ∈ l := (hmem n).mpr ⟨node.name, ht⟩
        rcases hl with ⟨-, rfl⟩ | hl
        · cases hn
        · exact .sub (ih hm) hparent hl (by simp [hn]) hnode

/-- The nodes in one array have different names. -/
theorem nodup_names (h : A.Tree t) {array : PntArray NodeId} {l : List NodeId}
    (hc : Children t p array) (hl : Packed array l) :
    (l.map fun n => (A.nodes n).map LibraryTreeNode.name).Nodup := by
  obtain ⟨l', hl', hnodup, hmem⟩ := hc
  obtain rfl := hl.unique hl'
  refine (List.nodup_map_iff_inj_on hnodup).mpr fun n hn m hm he => ?_
  obtain ⟨x, hx⟩ := (hmem n).mp hn
  obtain ⟨y, hy⟩ := (hmem m).mp hm
  obtain ⟨node, hnode, rfl⟩ := h.node p x n hx
  obtain ⟨node', hnode', rfl⟩ := h.node p y m hy
  rw [hnode, hnode', Option.map_some, Option.map_some, Option.some.injEq] at he
  rw [he] at hx
  exact Option.some.inj (hx.symm.trans hy)

/-! ## Searching the tree -/

/-- The loop over the nodes of one array finds the node one level below the path. -/
theorem findNode_eq (h : A.Tree t) {array : PntArray NodeId} {block : List (Option NodeId)}
    (hc : Children t p array) (hb : array = some block) (name : String) :
    findNode A name block = some (t (p ++ [name])) := by
  obtain ⟨l, hl, -, hmem⟩ := hc
  obtain rfl : block = l.map some ++ [none] := by
    rcases hl with ⟨he, -⟩ | he
    · rw [he] at hb
      cases hb
    · exact Option.some.inj (hb.symm.trans he)
  have hnodes : ∀ n ∈ l, ∃ node, A.nodes n = some node ∧
      (name = node.name ↔ t (p ++ [name]) = some n) := by
    intro n hn
    obtain ⟨x, hx⟩ := (hmem n).mp hn
    obtain ⟨node, hnode, rfl⟩ := h.node p x n hx
    refine ⟨node, hnode, fun he => he ▸ hx, fun ht => ?_⟩
    have := h.inj _ _ n ht hx
    simpa using this
  have hmiss : (∀ n ∈ l, t (p ++ [name]) ≠ some n) → t (p ++ [name]) = none := by
    intro hno
    cases ht : t (p ++ [name]) with
    | none => rfl
    | some n => exact absurd ht (hno n ((hmem n).mpr ⟨name, ht⟩))
  clear hmem hb hl
  induction l with
  | nil => exact congrArg some (hmiss (by simp)).symm
  | cons n l ih =>
    obtain ⟨node, hnode, hname⟩ := hnodes n List.mem_cons_self
    rw [List.map_cons, List.cons_append, findNode, hnode]
    simp only [Option.bind_eq_bind, Option.bind_some]
    split
    · next he => exact congrArg some (hname.mp he).symm
    · next hne =>
      refine ih (fun m hm => hnodes m (List.mem_cons_of_mem _ hm)) fun hno => hmiss fun m hm => ?_
      rcases List.mem_cons.mp hm with rfl | hm
      · exact fun ht => hne (hname.mpr ht)
      · exact hno m hm

/-- From the node at `p` on, the search comes to the longest part of the path in the table. -/
theorem recursiveSearchAheadLibTree_eq (h : A.Tree t) (path : List String) :
    ∀ {p : List String} (lvl : Nat) {crnt : PntArray NodeId}, Children t p crnt →
      ∃ k ≤ path.length, recursiveSearchAheadLibTree A path lvl crnt (t p) =
          some (lvl + k, t (p ++ path.take k)) ∧
        (0 < k → ∃ n, t (p ++ path.take k) = some n) ∧
        (k < path.length → t (p ++ path.take (k + 1)) = none) := by
  induction path with
  | nil =>
    intro p lvl crnt _
    exact ⟨0, le_rfl, by simp [recursiveSearchAheadLibTree], fun hk => absurd hk (lt_irrefl 0),
      fun hk => absurd hk (lt_irrefl 0)⟩
  | cons name path ih =>
    intro p lvl crnt hc
    have hstop : t (p ++ [name]) = none → ∀ res, res = some (lvl, t p) →
        ∃ k ≤ (name :: path).length, res = some (lvl + k, t (p ++ (name :: path).take k)) ∧
          (0 < k → ∃ n, t (p ++ (name :: path).take k) = some n) ∧
          (k < (name :: path).length → t (p ++ (name :: path).take (k + 1)) = none) := by
      intro hnone res hres
      exact ⟨0, Nat.zero_le _, by simp [hres], fun hk => absurd hk (lt_irrefl 0),
        fun _ => by simpa using hnone⟩
    cases hcrnt : crnt with
    | none =>
      rw [hcrnt] at hc
      obtain ⟨l, hl, -, hmem⟩ := hc
      have hnil : l = [] := by
        rcases hl with ⟨-, hl⟩ | hl
        · exact hl
        · cases hl
      refine hstop ?_ _ rfl
      cases ht : t (p ++ [name]) with
      | none => rfl
      | some n =>
        have := (hmem n).mpr ⟨name, ht⟩
        rw [hnil] at this
        cases this
    | some block =>
      rw [recursiveSearchAheadLibTree, h.findNode_eq hc hcrnt]
      simp only [Option.bind_eq_bind, Option.bind_some]
      cases ht : t (p ++ [name]) with
      | none => exact hstop ht _ rfl
      | some n =>
        obtain ⟨node, hnode, -⟩ := h.node p name n ht
        simp only [hnode, Option.bind_some]
        have hc' := h.subnodes _ n node ht hnode
        obtain ⟨k, hk, hres, hfound, hmiss⟩ := ih (lvl + 1) hc'
        rw [ht] at hres
        refine ⟨k + 1, Nat.succ_le_succ hk, ?_, fun _ => ?_, fun hlt => ?_⟩
        · rw [hres]
          simp [Nat.add_comm, Nat.add_left_comm]
        · rcases Nat.eq_zero_or_pos k with rfl | hpos
          · exact ⟨n, by simpa using ht⟩
          · simpa using hfound hpos
        · have hlt' : k < path.length := Nat.lt_of_succ_lt_succ hlt
          simpa using hmiss hlt'

theorem searchAheadLibraryPath_eq (h : A.Tree t) (path : List String) :
    ∃ k ≤ path.length, searchAheadLibraryPath A path = some (k, t (path.take k)) ∧
      (0 < k → ∃ n, t (path.take k) = some n) ∧
      (k < path.length → t (path.take (k + 1)) = none) := by
  obtain ⟨k, hk, hres, hfound, hmiss⟩ := h.recursiveSearchAheadLibTree_eq path 0 h.roots
  simp only [List.nil_append, Nat.zero_add, h.root] at hres hfound hmiss
  refine ⟨k, hk, ?_, hfound, hmiss⟩
  unfold searchAheadLibraryPath
  cases hroots : A.rootNodes with
  | none =>
    rw [hroots] at hres
    rw [← hres]
    cases path <;> rfl
  | some roots =>
    rw [hroots] at hres
    exact hres

end Tree

/-! ## Growing the tree -/

/-- The nodes, and the root array, are as they were but for nodes appended to the arrays. -/
structure Grows (A A' : Accounting) : Prop where
  registered : A'.registeredBehaviors = A.registeredBehaviors
  roots : ∀ l, Packed A.rootNodes l → ∃ l', Packed A'.rootNodes (l ++ l')
  nodes : ∀ n node, A.nodes n = some node → ∃ node', A'.nodes n = some node' ∧
    node'.name = node.name ∧ node'.gates = node.gates ∧
    ∀ l, Packed node.subnodes l → ∃ l', Packed node'.subnodes (l ++ l')

theorem Grows.refl (A : Accounting) : A.Grows A where
  registered := rfl
  roots := fun l hl => ⟨[], by simpa using hl⟩
  nodes := fun n node hn => ⟨node, hn, rfl, rfl, fun l hl => ⟨[], by simpa using hl⟩⟩

theorem Grows.trans {A A₁ A' : Accounting} (h : A.Grows A₁) (h' : A₁.Grows A') : A.Grows A' where
  registered := h'.registered.trans h.registered
  roots := by
    intro l hl
    obtain ⟨l₁, hl₁⟩ := h.roots l hl
    obtain ⟨l₂, hl₂⟩ := h'.roots _ hl₁
    exact ⟨l₁ ++ l₂, by simpa using hl₂⟩
  nodes := by
    intro n node hn
    obtain ⟨node₁, hn₁, hname₁, hgates₁, hsub₁⟩ := h.nodes n node hn
    obtain ⟨node₂, hn₂, hname₂, hgates₂, hsub₂⟩ := h'.nodes n node₁ hn₁
    refine ⟨node₂, hn₂, hname₂.trans hname₁, hgates₂.trans hgates₁, fun l hl => ?_⟩
    obtain ⟨l₁, hl₁⟩ := hsub₁ l hl
    obtain ⟨l₂, hl₂⟩ := hsub₂ _ hl₁
    exact ⟨l₁ ++ l₂, by simpa using hl₂⟩

/-- The table with one more entry. -/
def enter (t : PathTable) (p : List String) (n : NodeId) : PathTable :=
  Function.update t p (some n)

theorem enter_self (t : PathTable) (p : List String) (n : NodeId) : enter t p n p = some n :=
  Function.update_self ..

theorem enter_of_ne {t : PathTable} {p q : List String} (h : q ≠ p) (n : NodeId) :
    enter t p n q = t q := Function.update_of_ne h _ _

/-- The array of the level below the new node's parent, with the new node at its end. -/
theorem Children.append {t : PathTable} {p : List String} {x : String} {new : NodeId}
    {array : PntArray NodeId} (hc : Children t p array) (hnone : t (p ++ [x]) = none)
    (hnew : ∀ q, t q ≠ some new) :
    ∃ i array', arrayPntAppendElement array (some new) = some (i, array') ∧
      Children (enter t (p ++ [x]) new) p array' ∧
      ∀ l, Packed array l → ∃ l', Packed array' (l ++ l') := by
  obtain ⟨l, hl, hnodup, hmem⟩ := hc
  refine ⟨_, _, arrayPntAppendElement_of_packed hl new, ⟨_, packed_block _, ?_, ?_⟩, ?_⟩
  · refine List.nodup_append.mpr ⟨hnodup, List.nodup_singleton new, ?_⟩
    intro n hn m hm
    obtain rfl := List.mem_singleton.mp hm
    rintro rfl
    obtain ⟨y, hy⟩ := (hmem n).mp hn
    exact hnew _ hy
  · intro n
    rw [List.mem_append, List.mem_singleton, hmem]
    constructor
    · rintro (⟨y, hy⟩ | rfl)
      · refine ⟨y, ?_⟩
        rw [enter_of_ne ?_, hy]
        intro he
        rw [he, hnone] at hy
        cases hy
      · exact ⟨x, enter_self ..⟩
    · rintro ⟨y, hy⟩
      by_cases he : p ++ [y] = p ++ [x]
      · rw [he, enter_self] at hy
        exact .inr (Option.some.inj hy).symm
      · rw [enter_of_ne he] at hy
        exact .inl ⟨y, hy⟩
  · intro l' hl'
    obtain rfl := hl.unique hl'
    exact ⟨[new], packed_block _⟩

/-- A level that the new node is not on. -/
theorem Children.enter {t : PathTable} {p q : List String} {new : NodeId}
    {array : PntArray NodeId} (hc : Children t q array) (hne : ∀ x, q ++ [x] ≠ p) :
    Children (enter t p new) q array := by
  obtain ⟨l, hl, hnodup, hmem⟩ := hc
  refine ⟨l, hl, hnodup, fun n => ?_⟩
  rw [hmem]
  exact exists_congr fun x => by rw [enter_of_ne (hne x)]

namespace Tree

variable {A A' : Accounting} {t : PathTable} {p q : List String} {x : String} {n : NodeId}

theorem exists_node (h : A.Tree t) (hp : t p = some n) : ∃ node, A.nodes n = some node := by
  obtain ⟨y, p', rfl⟩ : ∃ y p', p = p' ++ [y] :=
    ⟨_, _, (List.dropLast_append_getLast (h.ne_nil hp)).symm⟩
  obtain ⟨node, hnode, -⟩ := h.node p' y n hp
  exact ⟨node, hnode⟩

theorem ne_nextNode (h : A.Tree t) (hp : t p = some n) : n ≠ A.nextNode := by
  rintro rfl
  obtain ⟨node, hnode⟩ := h.exists_node hp
  rw [h.fresh _ le_rfl] at hnode
  cases hnode

/-- One more node, below a node of the tree or among the roots, is one more entry. -/
theorem of_enter (h : A.Tree t) (hnone : t (p ++ [x]) = none) (hp : p ≠ [] → ∃ n, t p = some n)
    (hnew : A'.nodes A.nextNode = some { name := x, gates := none, subnodes := none })
    (hnext : A'.nextNode = A.nextNode + 1)
    (hold : ∀ m, m ≠ A.nextNode →
      (A'.nodes m).map LibraryTreeNode.name = (A.nodes m).map LibraryTreeNode.name)
    (hroots : Children (enter t (p ++ [x]) A.nextNode) [] A'.rootNodes)
    (hsubs : ∀ q m node, t q = some m → A'.nodes m = some node →
      Children (enter t (p ++ [x]) A.nextNode) q node.subnodes) :
    A'.Tree (enter t (p ++ [x]) A.nextNode) where
  root := by
    rw [enter_of_ne (by simp)]
    exact h.root
  inj := by
    intro q q' n hq hq'
    by_cases he : q = p ++ [x] <;> by_cases he' : q' = p ++ [x]
    · rw [he, he']
    · rw [he, enter_self] at hq
      rw [enter_of_ne he'] at hq'
      exact absurd (Option.some.inj hq).symm (h.ne_nextNode hq')
    · rw [enter_of_ne he] at hq
      rw [he', enter_self] at hq'
      exact absurd (Option.some.inj hq').symm (h.ne_nextNode hq)
    · rw [enter_of_ne he] at hq
      rw [enter_of_ne he'] at hq'
      exact h.inj q q' n hq hq'
  node := by
    intro q y n hq
    by_cases he : q ++ [y] = p ++ [x]
    · rw [he, enter_self] at hq
      obtain rfl := Option.some.inj hq
      exact ⟨_, hnew, (by simpa using he : q = p ∧ y = x).2.symm⟩
    · rw [enter_of_ne he] at hq
      obtain ⟨node, hnode, hname⟩ := h.node q y n hq
      have hm := hold n (h.ne_nextNode hq)
      rw [hnode, Option.map_some, Option.map_eq_some_iff] at hm
      obtain ⟨node', hnode', hname'⟩ := hm
      exact ⟨node', hnode', hname'.trans hname⟩
  roots := hroots
  subnodes := by
    intro q m node hq hnode
    by_cases he : q = p ++ [x]
    · rw [he, enter_self] at hq
      obtain rfl := Option.some.inj hq
      obtain rfl := Option.some.inj (hnew.symm.trans hnode)
      refine ⟨[], .inl ⟨rfl, rfl⟩, List.nodup_nil, fun n => ?_⟩
      -- nothing is below a path that is not in the table
      have hnothing : ∀ y, enter t (p ++ [x]) A.nextNode (q ++ [y]) ≠ some n := by
        intro y hy
        rw [he, enter_of_ne (by simp)] at hy
        obtain ⟨m, hm⟩ := h.closed (p ++ [x]) y n (by simp) hy
        rw [hnone] at hm
        cases hm
      simpa using hnothing
    · rw [enter_of_ne he] at hq
      exact hsubs q m node hq hnode
  closed := by
    intro q y n hne hq
    have hparent : ∃ m, t q = some m := by
      by_cases he : q ++ [y] = p ++ [x]
      · obtain ⟨rfl, -⟩ : q = p ∧ y = x := by simpa using he
        exact hp hne
      · rw [enter_of_ne he] at hq
        exact h.closed q y n hne hq
    by_cases he : q = p ++ [x]
    · exact ⟨A.nextNode, by rw [he, enter_self]⟩
    · rw [enter_of_ne he]
      exact hparent
  live := by
    intro n node hnode
    by_cases hn : n = A.nextNode
    · exact ⟨p ++ [x], hn ▸ enter_self t (p ++ [x]) A.nextNode⟩
    · have hm := hold n hn
      rw [hnode, Option.map_some, eq_comm, Option.map_eq_some_iff] at hm
      obtain ⟨node', hnode', -⟩ := hm
      obtain ⟨q, hq⟩ := h.live n node' hnode'
      refine ⟨q, ?_⟩
      rw [enter_of_ne ?_, hq]
      rintro rfl
      rw [hnone] at hq
      cases hq
  fresh := by
    intro n hn
    rw [hnext] at hn
    have hm := hold n (Nat.ne_of_gt hn)
    rw [h.fresh n (Nat.le_of_succ_le hn)] at hm
    exact Option.map_eq_none_iff.mp hm

theorem grow (h : A.Tree t) (hp : p ≠ [] → ∃ n, t p = some n) (hnone : t (p ++ [x]) = none) :
    ∃ A', appendNode A (t p) x = some (A.nextNode, A') ∧
      A'.Tree (enter t (p ++ [x]) A.nextNode) ∧ A.Grows A' ∧
      ∃ node, A'.nodes A.nextNode = some node ∧ node.gates = none := by
  have hnew : ∀ q, t q ≠ some A.nextNode := fun q hq => h.ne_nextNode hq rfl
  have hne : ∀ q, q ≠ p → ∀ y, q ++ [y] ≠ p ++ [x] := by
    intro q hq y he
    exact hq (by simpa using he : q = p ∧ y = x).1
  unfold appendNode
  by_cases hnil : p = []
  · subst hnil
    obtain ⟨i, array', happend, hchildren, hgrow⟩ := h.roots.append hnone hnew
    rw [h.root]
    simp only [setNode, happend, Option.bind_eq_bind, Option.bind_some]
    have hself : Function.update A.nodes A.nextNode
        (some { name := x, gates := none, subnodes := none }) A.nextNode =
        some { name := x, gates := none, subnodes := none } := Function.update_self ..
    refine ⟨_, rfl, h.of_enter hnone hp hself rfl ?_ hchildren ?_, ⟨rfl, hgrow, ?_⟩, _, hself, rfl⟩
    · intro m hm
      exact congrArg _ (Function.update_of_ne hm ..)
    · intro q m node hq hnode
      dsimp only at hnode
      rw [Function.update_of_ne (h.ne_nextNode hq)] at hnode
      exact (h.subnodes q m node hq hnode).enter (hne q (h.ne_nil hq))
    · intro m node hm
      have hmne : m ≠ A.nextNode := by
        rintro rfl
        rw [h.fresh _ le_rfl] at hm
        cases hm
      exact ⟨node, (Function.update_of_ne hmne ..).trans hm, rfl, rfl,
        fun l hl => ⟨[], by simpa using hl⟩⟩
  · obtain ⟨n, hn⟩ := hp hnil
    obtain ⟨parent, hparent⟩ := h.exists_node hn
    obtain ⟨i, array', happend, hchildren, hgrow⟩ :=
      (h.subnodes p n parent hn hparent).append hnone hnew
    have hnn := h.ne_nextNode hn
    have hparent₁ : Function.update A.nodes A.nextNode
        (some { name := x, gates := none, subnodes := none }) n = some parent :=
      (Function.update_of_ne hnn ..).trans hparent
    rw [hn]
    simp only [setNode, hparent₁, happend, Option.bind_eq_bind, Option.bind_some]
    have hself : Function.update (Function.update A.nodes A.nextNode
        (some { name := x, gates := none, subnodes := none })) n
        (some { parent with subnodes := array' }) A.nextNode =
        some { name := x, gates := none, subnodes := none } := by
      rw [Function.update_of_ne hnn.symm, Function.update_self]
    have hother : ∀ m, m ≠ A.nextNode → m ≠ n → Function.update (Function.update A.nodes A.nextNode
        (some { name := x, gates := none, subnodes := none })) n
        (some { parent with subnodes := array' }) m = A.nodes m := by
      intro m hm hmn
      rw [Function.update_of_ne hmn, Function.update_of_ne hm]
    refine ⟨_, rfl, h.of_enter hnone hp hself rfl ?_ ?_ ?_, ⟨rfl, ?_, ?_⟩, _, hself, rfl⟩
    · intro m hm
      dsimp only
      by_cases hmn : m = n
      · subst hmn
        rw [Function.update_self, hparent]
        rfl
      · rw [hother m hm hmn]
    · exact h.roots.enter (hne [] (Ne.symm hnil))
    · intro q m node hq hnode
      dsimp only at hnode
      by_cases hmn : m = n
      · subst hmn
        obtain rfl := h.inj q p m hq hn
        rw [Function.update_self, Option.some.injEq] at hnode
        rw [← hnode]
        exact hchildren
      · rw [hother m (h.ne_nextNode hq) hmn] at hnode
        refine (h.subnodes q m node hq hnode).enter (hne q ?_)
        rintro rfl
        exact hmn (Option.some.inj (hq.symm.trans hn))
    · exact fun l hl => ⟨[], by simpa using hl⟩
    · intro m node hm
      have hmne : m ≠ A.nextNode := by
        rintro rfl
        rw [h.fresh _ le_rfl] at hm
        cases hm
      by_cases hmn : m = n
      · subst hmn
        obtain rfl := Option.some.inj (hparent.symm.trans hm)
        exact ⟨_, Function.update_self .., rfl, rfl, hgrow⟩
      · exact ⟨node, (hother m hmne hmn).trans hm, rfl, rfl, fun l hl => ⟨[], by simpa using hl⟩⟩

theorem exists_of_prefix (h : A.Tree t) (hq : q ≠ []) :
    ∀ (s : List String) {n : NodeId}, t (q ++ s) = some n → ∃ m, t q = some m := by
  intro s
  induction s using List.reverseRecOn with
  | nil =>
    intro n hn
    exact ⟨n, by simpa using hn⟩
  | append_singleton s x ih =>
    intro n hn
    rw [← List.append_assoc] at hn
    obtain ⟨m, hm⟩ := h.closed (q ++ s) x n (by simp [hq]) hn
    exact ih hm

end Tree

/-- The tree has grown by nodes that no gate is listed under. -/
structure Extends (A : Accounting) (t : PathTable) (A' : Accounting) (t' : PathTable) : Prop where
  tree : A'.Tree t'
  grows : A.Grows A'
  keeps : ∀ q n, t q = some n → t' q = some n
  gates : ∀ q n node, t q = none → t' q = some n → A'.nodes n = some node → node.gates = none

namespace Tree

variable {A A' : Accounting} {t : PathTable} {p q : List String} {x : String} {n : NodeId}

/-- The loop adds the rest of the path, every part of it. -/
theorem createNodes_extends (path : List String) :
    ∀ {A : Accounting} {t : PathTable} {p : List String}, A.Tree t →
      (p ≠ [] → ∃ n, t p = some n) → (path ≠ [] → t (p ++ path.take 1) = none) →
      ∃ A' t', createNodes path (t p) A = some (t' (p ++ path), A') ∧ Extends A t A' t' ∧
        ∀ q, (∃ n, t' q = some n) ↔
          (∃ n, t q = some n) ∨ ∃ r, r ≠ [] ∧ r <+: path ∧ q = p ++ r := by
  induction path with
  | nil =>
    intro A t p h _ _
    refine ⟨A, t, by simp [createNodes], ⟨h, .refl A, fun _ _ hq => hq, ?_⟩, ?_⟩
    · intro q n node hq hq'
      rw [hq] at hq'
      cases hq'
    · intro q
      simp
  | cons x path ih =>
    intro A t p h hp hnone
    have hx : t (p ++ [x]) = none := hnone (List.cons_ne_nil x path)
    obtain ⟨A₁, happend, htree, hgrows, node₁, hnode₁, hgates₁⟩ := h.grow hp hx
    have hself : enter t (p ++ [x]) A.nextNode (p ++ [x]) = some A.nextNode := enter_self ..
    have hbelow : path ≠ [] → enter t (p ++ [x]) A.nextNode ((p ++ [x]) ++ path.take 1) = none := by
      intro hpath
      obtain ⟨y, path', rfl⟩ := List.exists_cons_of_ne_nil hpath
      rw [enter_of_ne (by simp)]
      cases ht : t ((p ++ [x]) ++ (y :: path').take 1) with
      | none => rfl
      | some m =>
        obtain ⟨m', hm'⟩ := h.closed (p ++ [x]) y m (by simp) ht
        rw [hx] at hm'
        cases hm'
    obtain ⟨A', t', hres, hext, hdomain⟩ := ih htree (fun _ => ⟨_, hself⟩) hbelow
    rw [hself] at hres
    refine ⟨A', t', ?_, ⟨hext.tree, hgrows.trans hext.grows, ?_, ?_⟩, ?_⟩
    · rw [createNodes, happend]
      simp only [Option.bind_eq_bind, Option.bind_some]
      rw [hres, List.append_assoc]
      rfl
    · intro q n hq
      refine hext.keeps q n ?_
      rw [enter_of_ne ?_, hq]
      rintro rfl
      rw [hx] at hq
      cases hq
    · intro q n node hq hq' hnode
      by_cases he : q = p ++ [x]
      · subst he
        obtain rfl := Option.some.inj ((hext.keeps _ _ hself).symm.trans hq')
        obtain ⟨node', hnode', -, hsame, -⟩ := hext.grows.nodes _ node₁ hnode₁
        obtain rfl := Option.some.inj (hnode'.symm.trans hnode)
        rw [hsame, hgates₁]
      · exact hext.gates q n node (by rw [enter_of_ne he, hq]) hq' hnode
    · intro q
      rw [hdomain]
      constructor
      · rintro (⟨n, hn⟩ | ⟨r, -, hr, rfl⟩)
        · by_cases he : q = p ++ [x]
          · exact .inr ⟨[x], by simp, by simp, he⟩
          · rw [enter_of_ne he] at hn
            exact .inl ⟨n, hn⟩
        · exact .inr ⟨x :: r, by simp, by simpa using hr, by simp⟩
      · rintro (⟨n, hn⟩ | ⟨r, hr, hpre, rfl⟩)
        · refine .inl ⟨n, ?_⟩
          rw [enter_of_ne ?_, hn]
          rintro rfl
          rw [hx] at hn
          cases hn
        · obtain ⟨y, r, rfl⟩ := List.exists_cons_of_ne_nil hr
          obtain ⟨hy, hrest⟩ := List.cons_prefix_cons.mp hpre
          subst hy
          by_cases hnil : r = []
          · subst hnil
            exact .inl ⟨_, hself⟩
          · exact .inr ⟨r, hnil, hrest, by simp⟩

/-- `get_or_create_library_path` returns the node at the path, and adds the missing parts. -/
theorem getOrCreate_extends (h : A.Tree t) (path : List String) :
    ∃ A' t', getOrCreateLibraryPath path A = some (t' path, A') ∧ Extends A t A' t' ∧
      (∀ q, (∃ n, t' q = some n) ↔ (∃ n, t q = some n) ∨ (q ≠ [] ∧ q <+: path)) ∧
      ((∃ n, t path = some n) → A' = A) := by
  obtain ⟨k, hk, hsearch, hfound, hmiss⟩ := h.searchAheadLibraryPath_eq path
  have hparts : ∀ q, q ≠ [] → q <+: path.take k → ∃ n, t q = some n := by
    rintro q hq ⟨s, hs⟩
    have hpos : 0 < k := by
      rcases Nat.eq_zero_or_pos k with rfl | hpos
      · exact absurd (List.append_eq_nil_iff.mp hs).1 hq
      · exact hpos
    obtain ⟨n, hn⟩ := hfound hpos
    rw [← hs] at hn
    exact h.exists_of_prefix hq s hn
  unfold getOrCreateLibraryPath
  simp only [hsearch, Option.bind_eq_bind, Option.bind_some]
  by_cases hall : path.length = k
  · rw [if_pos hall, ← hall, List.take_length]
    rw [← hall, List.take_length] at hparts
    refine ⟨A, t, rfl, ⟨h, .refl A, fun _ _ hq => hq, ?_⟩, fun q => ?_, fun _ => rfl⟩
    · intro q n node hq hq'
      rw [hq] at hq'
      cases hq'
    · exact ⟨.inl, fun hq => hq.elim id fun hq => hparts q hq.1 hq.2⟩
  · have hlt : k < path.length := lt_of_le_of_ne hk (Ne.symm hall)
    have hp : path.take k ≠ [] → ∃ n, t (path.take k) = some n :=
      fun hne => hparts _ hne (List.prefix_refl _)
    have hnone : path.drop k ≠ [] → t (path.take k ++ (path.drop k).take 1) = none := by
      intro _
      rw [← List.take_add]
      exact hmiss hlt
    obtain ⟨A', t', hres, hext, hdomain⟩ := Tree.createNodes_extends (path.drop k) h hp hnone
    rw [List.take_append_drop] at hres
    rw [if_neg hall]
    refine ⟨A', t', hres, hext, fun q => ?_, ?_⟩
    · rw [hdomain]
      constructor
      · rintro (hq | ⟨r, hr, ⟨s, hs⟩, rfl⟩)
        · exact .inl hq
        · refine .inr ⟨by simp [hr], s, ?_⟩
          rw [List.append_assoc, hs, List.take_append_drop]
      · rintro (hq | ⟨hq, hpre⟩)
        · exact .inl hq
        · rcases List.prefix_or_prefix_of_prefix hpre (List.take_prefix k path) with hshort | hlong
          · exact .inl (hparts q hq hshort)
          · obtain ⟨r, rfl⟩ := hlong
            by_cases hr : r = []
            · subst hr
              rw [List.append_nil] at hq ⊢
              exact .inl (hp hq)
            · refine .inr ⟨r, hr, ?_, rfl⟩
              obtain ⟨s, hs⟩ := hpre
              refine ⟨s, ?_⟩
              have := (List.take_append_drop k path).trans hs.symm
              rw [List.append_assoc] at this
              exact (List.append_cancel_left this).symm
    · rintro ⟨n, hn⟩
      have hne : path.take (k + 1) ≠ [] := by
        intro he
        have := congrArg List.length he
        rw [List.length_take, List.length_nil] at this
        omega
      rw [← List.take_append_drop (k + 1) path] at hn
      obtain ⟨m, hm⟩ := h.exists_of_prefix hne _ hn
      rw [hmiss hlt] at hm
      cases hm

end Tree

/-! ## The gates listed at the nodes -/

/-- Under each path of the table are listed the gates that `f` has there, and it has none
    elsewhere. -/
structure Lists (A : Accounting) (t : PathTable) (f : List String → List BehaviorId) : Prop where
  gates : ∀ p n node, t p = some n → A.nodes n = some node → Packed node.gates (f p)
  missing : ∀ p, t p = none → f p = []

theorem Lists.extend {A A' : Accounting} {t t' : PathTable} {f : List String → List BehaviorId}
    (h : A.Lists t f) (ht : A.Tree t) (he : Extends A t A' t') : A'.Lists t' f where
  gates := by
    intro p n node hp hnode
    cases htp : t p with
    | none =>
      rw [he.gates p n node htp hp hnode, h.missing p htp]
      exact .inl ⟨rfl, rfl⟩
    | some m =>
      obtain rfl := Option.some.inj ((he.keeps p m htp).symm.trans hp)
      obtain ⟨node₀, hnode₀⟩ := ht.exists_node htp
      obtain ⟨node', hnode', -, hgates, -⟩ := he.grows.nodes m node₀ hnode₀
      obtain rfl := Option.some.inj (hnode'.symm.trans hnode)
      rw [hgates]
      exact h.gates p m node₀ htp hnode₀
  missing := by
    intro p hp
    refine h.missing p ?_
    cases htp : t p with
    | none => rfl
    | some m =>
      rw [he.keeps p m htp] at hp
      cases hp

theorem Tree.setRegistered {A : Accounting} {t : PathTable} (h : A.Tree t)
    (registered : PntArray BehaviorId) :
    ({ A with registeredBehaviors := registered } : Accounting).Tree t :=
  ⟨h.root, h.inj, h.node, h.roots, h.subnodes, h.closed, h.live, h.fresh⟩

theorem Lists.setRegistered {A : Accounting} {t : PathTable} {f : List String → List BehaviorId}
    (h : A.Lists t f) (registered : PntArray BehaviorId) :
    ({ A with registeredBehaviors := registered } : Accounting).Lists t f := ⟨h.gates, h.missing⟩

section SetGates

variable {A : Accounting} {t : PathTable} {n : NodeId} {node : LibraryTreeNode}

/-- What the nodes list has no part in the shape of the tree. -/
theorem Tree.setGates (h : A.Tree t) (hn : A.nodes n = some node) (gates : PntArray BehaviorId) :
    (A.setNode n { node with gates := gates }).Tree t := by
  have hnodes : ∀ m node', (A.setNode n { node with gates := gates }).nodes m = some node' →
      ∃ node₀, A.nodes m = some node₀ ∧ node₀.name = node'.name ∧
        node₀.subnodes = node'.subnodes := by
    intro m node' hm
    by_cases hmn : m = n
    · subst hmn
      rw [nodes_setNode_self, Option.some.injEq] at hm
      subst hm
      exact ⟨node, hn, rfl, rfl⟩
    · exact ⟨node', (A.nodes_setNode_of_ne hmn _).symm.trans hm, rfl, rfl⟩
  exact {
    root := h.root
    inj := h.inj
    node := by
      intro p x m hp
      obtain ⟨node₀, hm, hname⟩ := h.node p x m hp
      by_cases hmn : m = n
      · subst hmn
        obtain rfl := Option.some.inj (hn.symm.trans hm)
        exact ⟨_, A.nodes_setNode_self m _, hname⟩
      · exact ⟨node₀, (A.nodes_setNode_of_ne hmn _).trans hm, hname⟩
    roots := h.roots
    subnodes := by
      intro p m node' hp hm
      obtain ⟨node₀, hm₀, -, hsub⟩ := hnodes m node' hm
      exact hsub ▸ h.subnodes p m node₀ hp hm₀
    closed := h.closed
    live := by
      intro m node' hm
      obtain ⟨node₀, hm₀, -⟩ := hnodes m node' hm
      exact h.live m node₀ hm₀
    fresh := by
      intro m hm
      cases hm' : (A.setNode n { node with gates := gates }).nodes m with
      | none => rfl
      | some node' =>
        obtain ⟨node₀, hm₀, -⟩ := hnodes m node' hm'
        rw [h.fresh m hm] at hm₀
        cases hm₀ }

theorem Lists.append {f : List String → List BehaviorId} (h : A.Lists t f) (ht : A.Tree t)
    {p : List String} (hp : t p = some n) (hn : A.nodes n = some node) (entry : BehaviorId) :
    ∃ i gates, arrayPntAppendElement node.gates (some entry) = some (i, gates) ∧
      (A.setNode n { node with gates := gates }).Lists t
        fun q => f q ++ if q = p then [entry] else [] := by
  refine ⟨_, _, arrayPntAppendElement_of_packed (h.gates p n node hp hn) entry, ?_, ?_⟩
  · intro q m node' hq hm
    by_cases hqp : q = p
    · subst hqp
      obtain rfl := Option.some.inj (hp.symm.trans hq)
      rw [nodes_setNode_self, Option.some.injEq] at hm
      subst hm
      rw [if_pos rfl]
      exact packed_block _
    · have hmn : m ≠ n := by
        rintro rfl
        exact hqp (ht.inj q p m hq hp)
      rw [if_neg hqp, List.append_nil]
      exact h.gates q m node' hq ((A.nodes_setNode_of_ne hmn _).symm.trans hm)
  · intro q hq
    have hqp : q ≠ p := by
      rintro rfl
      rw [hp] at hq
      cases hq
    rw [if_neg hqp, List.append_nil]
    exact h.missing q hq

end SetGates

theorem listGate_spec (entry : BehaviorId) (paths : List (List String)) (hpaths : [] ∉ paths) :
    ∀ {A : Accounting} {t : PathTable} {f : List String → List BehaviorId}, A.Tree t →
      A.Lists t f → ∃ A' t', listGate entry paths A = some A' ∧ A'.Tree t' ∧
        A'.Lists t' (fun p => f p ++ List.replicate (paths.count p) entry) ∧
        (∀ q n, t q = some n → t' q = some n) ∧ A'.registeredBehaviors = A.registeredBehaviors := by
  induction paths with
  | nil =>
    intro A t f h hl
    exact ⟨A, t, rfl, h, by simpa using hl, fun _ _ hq => hq, rfl⟩
  | cons path paths ih =>
    intro A t f h hl
    obtain ⟨hne, hrest⟩ := not_or.mp (List.mem_cons.not.mp hpaths)
    obtain ⟨A₁, t₁, hres, hext, hdomain, -⟩ := h.getOrCreate_extends path
    obtain ⟨n, hn⟩ := (hdomain path).mpr (.inr ⟨Ne.symm hne, List.prefix_refl path⟩)
    obtain ⟨node, hnode⟩ := hext.tree.exists_node hn
    obtain ⟨i, gates, happend, hlists⟩ := (hl.extend h hext).append hext.tree hn hnode entry
    obtain ⟨A', t', hlist, htree, hlists', hkeeps, hreg⟩ :=
      ih hrest (hext.tree.setGates hnode gates) hlists
    refine ⟨A', t', ?_, htree, ?_, fun q m hq => hkeeps q m (hext.keeps q m hq),
      hreg.trans hext.grows.registered⟩
    · simp only [listGate, hres, hn, hnode, happend, Option.bind_eq_bind, Option.bind_some]
      exact hlist
    · have hcount : ∀ p, (f p ++ if p = path then [entry] else []) ++
          List.replicate (paths.count p) entry =
          f p ++ List.replicate ((path :: paths).count p) entry := by
        intro p
        by_cases hp : p = path
        · subst hp
          rw [if_pos rfl, List.count_cons_self, List.replicate_succ, List.append_assoc]
          rfl
        · rw [if_neg hp, List.count_cons_of_ne (Ne.symm hp), List.append_nil]
      simpa only [hcount] using hlists'

/-- The empty path has no node to list the gate at. -/
theorem listGate_eq_none (entry : BehaviorId) {paths : List (List String)} (hpaths : [] ∈ paths) :
    ∀ {A : Accounting} {t : PathTable}, A.Tree t → listGate entry paths A = none := by
  induction paths with
  | nil => cases hpaths
  | cons path paths ih =>
    intro A t h
    obtain ⟨A₁, t₁, hres, hext, hdomain, -⟩ := h.getOrCreate_extends path
    by_cases hpath : path = []
    · subst hpath
      simp only [listGate, hres, hext.tree.root, Option.bind_eq_bind, Option.bind_some,
        Option.bind_none]
    · obtain ⟨n, hn⟩ := (hdomain path).mpr (.inr ⟨hpath, List.prefix_refl path⟩)
      obtain ⟨node, hnode⟩ := hext.tree.exists_node hn
      simp only [listGate, hres, hn, hnode, Option.bind_eq_bind, Option.bind_some]
      cases happend : arrayPntAppendElement node.gates (some entry) with
      | none => rfl
      | some gates =>
        exact ih ((List.mem_cons.mp hpaths).resolve_left (Ne.symm hpath))
          (hext.tree.setGates hnode gates.2)

/-! ## Histories -/

/-- The gates that registration lists under a path. -/
def listedUnder (behaviors : BehaviorId → LxcGateBehavior) (accepted : List BehaviorId)
    (p : List String) : List BehaviorId :=
  accepted.flatMap fun b => List.replicate (((behaviors b).paths.getD []).count p) b

/-- A call that adds to the registry or to the tree. -/
inductive Op where
  | register (entry : BehaviorId)
  | getOrCreate (path : List String)
  deriving DecidableEq, Repr

/-- A call, and the behaviors accepted so far: those for which `lxc_register_gate` returned 0. -/
def Op.step (behaviors : BehaviorId → LxcGateBehavior) (S : Accounting × List BehaviorId) :
    Op → Option (Accounting × List BehaviorId)
  | .register entry => do
    let (r, A) ← lxcRegisterGate behaviors entry S.1
    return (A, if r = 0 then S.2 ++ [entry] else S.2)
  | .getOrCreate path => do
    let (_, A) ← getOrCreateLibraryPath path S.1
    return (A, S.2)

/-- Registry, tree and accepted behaviors agree. -/
structure Agree (behaviors : BehaviorId → LxcGateBehavior) (A : Accounting)
    (accepted : List BehaviorId) : Prop where
  registered : Packed A.registeredBehaviors accepted
  names : accepted.Pairwise fun b b' => (behaviors b).gateName ≠ (behaviors b').gateName
  lookup : ∀ name, ∃ r, getGateEntryByName behaviors name A = some r ∧
    ∀ b, r = some b ↔ b ∈ accepted ∧ (behaviors b).gateName = some name
  roots : ∀ l, Packed A.rootNodes l →
    (l.map fun n => (A.nodes n).map LibraryTreeNode.name).Nodup
  siblings : ∀ n node l, A.nodes n = some node → Packed node.subnodes l →
    (l.map fun n => (A.nodes n).map LibraryTreeNode.name).Nodup
  paths : ∀ p q n m, A.At p n → A.At q m → (p = q ↔ n = m)
  gates : ∀ p n node, A.At p n → A.nodes n = some node →
    Packed node.gates (listedUnder behaviors accepted p)

/-- `A'` is `A` with the missing parts of the path, and `n` is the node at the path. -/
structure Created (A : Accounting) (p : List String) (n : NodeId) (A' : Accounting) : Prop where
  node : A'.At p n
  grows : A.Grows A'
  keeps : ∀ q m, A.At q m → A'.At q m
  parts : ∀ q, (∃ m, A'.At q m) ↔ (∃ m, A.At q m) ∨ (q ≠ [] ∧ q <+: p)
  all : ∀ m node, A'.nodes m = some node → ∃ q, A'.At q m
  existing : (∃ m, A.At p m) → A' = A

section Histories

variable {behaviors : BehaviorId → LxcGateBehavior} {A A' : Accounting}
  {accepted : List BehaviorId} {t : PathTable}

/-- What holds of every state of a history. -/
structure Reached (behaviors : BehaviorId → LxcGateBehavior) (A : Accounting)
    (accepted : List BehaviorId) (t : PathTable) : Prop where
  tree : A.Tree t
  lists : A.Lists t (listedUnder behaviors accepted)
  registered : Packed A.registeredBehaviors accepted
  named : ∀ b ∈ accepted, ∃ name, (behaviors b).gateName = some name
  names : accepted.Pairwise fun b b' => (behaviors b).gateName ≠ (behaviors b').gateName

theorem reached_empty : Reached behaviors empty [] fun _ => none where
  tree := tree_empty
  lists := ⟨by simp, by simp [listedUnder]⟩
  registered := .inl ⟨rfl, rfl⟩
  named := by simp
  names := .nil

theorem findBehavior_eq (name : String) :
    ∀ {l : List BehaviorId}, (∀ b ∈ l, ∃ name, (behaviors b).gateName = some name) →
      findBehavior behaviors name (l.map some ++ [none]) =
        some (l.find? fun b => (behaviors b).gateName = some name)
  | [], _ => rfl
  | b :: l, hnamed => by
      obtain ⟨gateName, hb⟩ := hnamed b List.mem_cons_self
      rw [List.map_cons, List.cons_append, findBehavior, hb]
      simp only [Option.bind_eq_bind, Option.bind_some]
      by_cases he : name = gateName
      · rw [if_pos he, List.find?_cons_of_pos (by simp [hb, he])]
        rfl
      · rw [if_neg he, List.find?_cons_of_neg (by simpa [hb] using Ne.symm he)]
        exact findBehavior_eq name fun b hb => hnamed b (List.mem_cons_of_mem _ hb)

theorem Reached.getGateEntryByName_eq (h : Reached behaviors A accepted t) (name : String) :
    getGateEntryByName behaviors name A =
      some (accepted.find? fun b => (behaviors b).gateName = some name) := by
  unfold getGateEntryByName
  rcases h.registered with ⟨hnone, rfl⟩ | hsome
  · rw [hnone]
    rfl
  · rw [hsome]
    exact findBehavior_eq name h.named

/-- A behavior without a name, or with the name of an accepted one, is refused. -/
theorem Reached.register_refused (h : Reached behaviors A accepted t) {entry : BehaviorId}
    (hold : ∀ name, (behaviors entry).gateName = some name →
      some name ∈ accepted.map fun b => (behaviors b).gateName) :
    ∃ r, r ≠ 0 ∧ lxcRegisterGate behaviors entry A = some (r, A) := by
  unfold lxcRegisterGate
  cases hname : (behaviors entry).gateName with
  | none => exact ⟨_, by decide, rfl⟩
  | some name =>
    simp only [h.getGateEntryByName_eq, Option.bind_eq_bind, Option.bind_some]
    cases hfind : accepted.find? fun b => (behaviors b).gateName = some name with
    | some b => exact ⟨_, by decide, rfl⟩
    | none =>
      obtain ⟨b, hb, hbname⟩ := List.mem_map.mp (hold name hname)
      have := List.find?_eq_none.mp hfind b hb
      simp [hbname] at this

/-- A behavior with a new name is appended before it is listed at its paths. -/
theorem Reached.lxcRegisterGate_eq (h : Reached behaviors A accepted t) {entry : BehaviorId}
    {name : String} (hname : (behaviors entry).gateName = some name)
    (hnew : some name ∉ accepted.map fun b => (behaviors b).gateName) :
    lxcRegisterGate behaviors entry A = (listGate entry ((behaviors entry).paths.getD [])
      { A with registeredBehaviors := some ((accepted ++ [entry]).map some ++ [none]) }).map
        fun A' => (0, A') := by
  have hfind : accepted.find? (fun b => (behaviors b).gateName = some name) = none := by
    refine List.find?_eq_none.mpr fun b hb he => hnew ?_
    exact List.mem_map.mpr ⟨b, hb, by simpa using he⟩
  unfold lxcRegisterGate
  simp only [hname, h.getGateEntryByName_eq, hfind, arrayPntAppendElement_of_packed h.registered,
    Option.bind_eq_bind, Option.bind_some]
  cases (behaviors entry).paths with
  | none => rfl
  | some paths =>
    rw [Option.getD_some, Option.map_eq_bind]
    rfl

theorem Reached.register_new (h : Reached behaviors A accepted t) {entry : BehaviorId}
    {name : String} (hname : (behaviors entry).gateName = some name)
    (hnew : some name ∉ accepted.map fun b => (behaviors b).gateName)
    (hpaths : [] ∉ (behaviors entry).paths.getD []) :
    ∃ A' t', lxcRegisterGate behaviors entry A = some (0, A') ∧
      Reached behaviors A' (accepted ++ [entry]) t' ∧ ∀ q n, t q = some n → t' q = some n := by
  have hnamed : ∀ b ∈ accepted ++ [entry], ∃ name, (behaviors b).gateName = some name := by
    intro b hb
    rcases List.mem_append.mp hb with hb | hb
    · exact h.named b hb
    · exact ⟨name, List.mem_singleton.mp hb ▸ hname⟩
  have hnames : (accepted ++ [entry]).Pairwise fun b b' =>
      (behaviors b).gateName ≠ (behaviors b').gateName := by
    refine List.pairwise_append.mpr ⟨h.names, List.pairwise_singleton .., fun b hb b' hb' => ?_⟩
    rw [List.mem_singleton.mp hb', hname]
    exact fun he => hnew (List.mem_map.mpr ⟨b, hb, he⟩)
  have hlisted : ∀ p, listedUnder behaviors accepted p ++
      List.replicate (((behaviors entry).paths.getD []).count p) entry =
      listedUnder behaviors (accepted ++ [entry]) p := by
    intro p
    simp [listedUnder]
  obtain ⟨A', t', hlist, htree', hlists', hkeeps, hreg⟩ :=
    listGate_spec entry ((behaviors entry).paths.getD []) hpaths
      (h.tree.setRegistered _) (h.lists.setRegistered _)
  simp only [hlisted] at hlists'
  refine ⟨A', t', ?_, ⟨htree', hlists', hreg ▸ packed_block _, hnamed, hnames⟩, hkeeps⟩
  rw [h.lxcRegisterGate_eq hname hnew, hlist]
  rfl

/-- What a call of `lxc_register_gate` comes to. -/
theorem Reached.register (h : Reached behaviors A accepted t)
    (hpaths : ∀ b, [] ∉ (behaviors b).paths.getD []) (entry : BehaviorId) :
    (∃ r, r ≠ 0 ∧ lxcRegisterGate behaviors entry A = some (r, A)) ∨
    ∃ A' t', lxcRegisterGate behaviors entry A = some (0, A') ∧
      Reached behaviors A' (accepted ++ [entry]) t' ∧ ∀ q n, t q = some n → t' q = some n := by
  by_cases hold : ∀ name, (behaviors entry).gateName = some name →
      some name ∈ accepted.map fun b => (behaviors b).gateName
  · exact .inl (h.register_refused hold)
  · push Not at hold
    obtain ⟨name, hname, hnew⟩ := hold
    exact .inr (h.register_new hname hnew (hpaths entry))

theorem Reached.step (h : Reached behaviors A accepted t)
    (hpaths : ∀ b, [] ∉ (behaviors b).paths.getD []) (op : Op) :
    ∃ A' accepted' t', op.step behaviors (A, accepted) = some (A', accepted') ∧
      Reached behaviors A' accepted' t' ∧ ∀ q n, t q = some n → t' q = some n := by
  cases op with
  | register entry =>
    rcases h.register hpaths entry with ⟨r, hr, hres⟩ | ⟨A', t', hres, hreached, hkeeps⟩
    · refine ⟨A, accepted, t, ?_, h, fun _ _ hq => hq⟩
      simp [Op.step, hres, hr]
    · refine ⟨A', accepted ++ [entry], t', ?_, hreached, hkeeps⟩
      simp [Op.step, hres]
  | getOrCreate path =>
    obtain ⟨A', t', hres, hext, -⟩ := h.tree.getOrCreate_extends path
    refine ⟨A', accepted, t', ?_, ⟨hext.tree, h.lists.extend h.tree hext,
      hext.grows.registered.symm ▸ h.registered, h.named, h.names⟩, hext.keeps⟩
    simp [Op.step, hres]

theorem Reached.run (hpaths : ∀ b, [] ∉ (behaviors b).paths.getD []) (ops : List Op) :
    ∀ {A : Accounting} {accepted : List BehaviorId} {t : PathTable},
      Reached behaviors A accepted t →
      ∃ A' accepted' t', Run.run (Op.step behaviors) (A, accepted) ops = some (A', accepted') ∧
        Reached behaviors A' accepted' t' ∧ ∀ q n, t q = some n → t' q = some n := by
  induction ops with
  | nil =>
    intro A accepted t h
    exact ⟨A, accepted, t, rfl, h, fun _ _ hq => hq⟩
  | cons op ops ih =>
    intro A accepted t h
    obtain ⟨A₁, accepted₁, t₁, hstep, h₁, hkeeps₁⟩ := h.step hpaths op
    obtain ⟨A', accepted', t', hrun, h', hkeeps⟩ := ih h₁
    refine ⟨A', accepted', t', ?_, h', fun q n hq => hkeeps q n (hkeeps₁ q n hq)⟩
    rw [Run.run_cons, hstep]
    exact hrun

theorem Reached.agree (h : Reached behaviors A accepted t) : A.Agree behaviors accepted where
  registered := h.registered
  names := h.names
  lookup := by
    intro name
    refine ⟨_, h.getGateEntryByName_eq name, fun b => ?_⟩
    constructor
    · intro hfind
      exact ⟨List.mem_of_find?_eq_some hfind, by simpa using List.find?_some hfind⟩
    · rintro ⟨hb, hname⟩
      cases hfind : accepted.find? fun b => (behaviors b).gateName = some name with
      | none =>
        have := List.find?_eq_none.mp hfind b hb
        simp [hname] at this
      | some b' =>
        have hb' := List.mem_of_find?_eq_some hfind
        have hname' : (behaviors b').gateName = some name := by simpa using List.find?_some hfind
        by_contra hne
        have hne' : b' ≠ b := fun he => hne (he ▸ rfl)
        have hsymm : Std.Symm fun b b' => (behaviors b).gateName ≠ (behaviors b').gateName :=
          ⟨fun _ _ => Ne.symm⟩
        exact h.names.forall hb' hb hne' (hname'.trans hname.symm)
  roots := fun l hl => h.tree.nodup_names h.tree.roots hl
  siblings := by
    intro n node l hn hl
    obtain ⟨p, hp⟩ := h.tree.live n node hn
    exact h.tree.nodup_names (h.tree.subnodes p n node hp hn) hl
  paths := by
    intro p q n m hp hq
    rw [h.tree.at_iff] at hp hq
    constructor
    · rintro rfl
      exact Option.some.inj (hp.symm.trans hq)
    · rintro rfl
      exact h.tree.inj p q n hp hq
  gates := by
    intro p n node hp hn
    exact h.lists.gates p n node (h.tree.at_iff.mp hp) hn

theorem Tree.created (h : A.Tree t) {p : List String} (hp : p ≠ []) :
    ∃ n A' t', getOrCreateLibraryPath p A = some (some n, A') ∧ A.Created p n A' ∧
      Extends A t A' t' := by
  obtain ⟨A', t', hres, hext, hdomain, hexisting⟩ := h.getOrCreate_extends p
  obtain ⟨n, hn⟩ := (hdomain p).mpr (.inr ⟨hp, List.prefix_refl p⟩)
  rw [hn] at hres
  refine ⟨n, A', t', hres, ⟨hext.tree.at_iff.mpr hn, hext.grows, ?_, ?_, ?_, ?_⟩, hext⟩
  · intro q m hq
    exact hext.tree.at_iff.mpr (hext.keeps q m (h.at_iff.mp hq))
  · intro q
    simpa only [h.at_iff, hext.tree.at_iff] using hdomain q
  · intro m node hm
    obtain ⟨q, hq⟩ := hext.tree.live m node hm
    exact ⟨q, hext.tree.at_iff.mpr hq⟩
  · simpa only [h.at_iff] using hexisting

end Histories

end Accounting

open Accounting

/-- After every history of registrations (and calls of `get_or_create_library_path`), registry and
    tree agree; a behavior is accepted exactly when it has a name that no accepted one has, and
    rejected registrations change nothing; `get_or_create_library_path` adds the missing parts of its
    path, and two calls return the same node exactly when their paths are equal, whatever happens
    between them. -/
theorem registry_and_tree_agree {behaviors : BehaviorId → LxcGateBehavior}
    (hpaths : ∀ b, [] ∉ (behaviors b).paths.getD []) (ops : List Op) :
    ∃ A accepted, Run.run (Op.step behaviors) (empty, []) ops = some (A, accepted) ∧
      A.Agree behaviors accepted ∧
      (∀ entry, ∃ r A', lxcRegisterGate behaviors entry A = some (r, A') ∧ (r ≠ 0 → A' = A) ∧
        (r = 0 ↔ ∃ name, (behaviors entry).gateName = some name ∧
          ∀ b ∈ accepted, (behaviors b).gateName ≠ some name)) ∧
      ∀ p, p ≠ [] → ∃ n A', getOrCreateLibraryPath p A = some (some n, A') ∧ A.Created p n A' ∧
        ∀ later q, q ≠ [] → ∃ A₁ accepted₁ m A₂,
          Run.run (Op.step behaviors) (A', accepted) later = some (A₁, accepted₁) ∧
          getOrCreateLibraryPath q A₁ = some (some m, A₂) ∧ (p = q ↔ n = m) := by
  obtain ⟨A, accepted, t, hrun, h, -⟩ := Reached.run hpaths ops reached_empty
  refine ⟨A, accepted, hrun, h.agree, fun entry => ?_, fun p hp => ?_⟩
  · by_cases hnew : ∃ name, (behaviors entry).gateName = some name ∧
        ∀ b ∈ accepted, (behaviors b).gateName ≠ some name
    · obtain ⟨name, hname, hother⟩ := hnew
      obtain ⟨A', t', hres, -⟩ := h.register_new hname (by simpa using hother) (hpaths entry)
      exact ⟨0, A', hres, fun hne => absurd rfl hne, iff_of_true rfl ⟨name, hname, hother⟩⟩
    · obtain ⟨r, hr, hres⟩ := @Reached.register_refused _ _ _ _ h entry fun name hname => by
        by_contra hno
        exact hnew ⟨name, hname, by simpa using hno⟩
      exact ⟨r, A, hres, fun _ => rfl, iff_of_false hr hnew⟩
  · obtain ⟨n, A', t', hres, hcreated, hext⟩ := h.tree.created hp
    refine ⟨n, A', hres, hcreated, fun later q hq => ?_⟩
    have h' : Reached behaviors A' accepted t' :=
      ⟨hext.tree, h.lists.extend h.tree hext, hext.grows.registered.symm ▸ h.registered, h.named,
        h.names⟩
    obtain ⟨A₁, accepted₁, t₁, hrun₁, h₁, hkeeps⟩ := Reached.run hpaths later h'
    obtain ⟨m, A₂, t₂, hres₂, hcreated₂, hext₂⟩ := h₁.tree.created hq
    refine ⟨A₁, accepted₁, m, A₂, hrun₁, hres₂, ?_⟩
    have hpn := hext₂.keeps p n (hkeeps p n (hext.tree.at_iff.mp hcreated.node))
    have hqm := hext₂.tree.at_iff.mp hcreated₂.node
    constructor
    · rintro rfl
      exact Option.some.inj (hpn.symm.trans hqm)
    · rintro rfl
      exact hext₂.tree.inj p q n hpn hqm

/-- Two behaviors under nested paths, the second listed twice under one of them. -/
def sampleBehaviors : BehaviorId → LxcGateBehavior
  | 0 => { gateName := some "bool and", paths := some [["builtin", "bool"], ["builtin"]] }
  | 1 => { gateName := some "bool or", paths := some [["builtin", "bool"], ["builtin", "bool"]] }
  | _ => { gateName := none, paths := none }

theorem registry_and_tree_agree_sample : ∃ A accepted,
    Run.run (Op.step sampleBehaviors) (empty, [])
      [.register 0, .register 1, .register 0, .register 2] = some (A, accepted) ∧
    A.Agree sampleBehaviors accepted := by
  have hpaths : ∀ b, [] ∉ (sampleBehaviors b).paths.getD [] := by
    intro b
    match b with
    | 0 => decide
    | 1 => decide
    | _ + 2 => simp [sampleBehaviors]
  obtain ⟨A, accepted, hrun, hagree, -⟩ := registry_and_tree_agree hpaths
    [.register 0, .register 1, .register 0, .register 2]
  exact ⟨A, accepted, hrun, hagree⟩

end LogxControll
