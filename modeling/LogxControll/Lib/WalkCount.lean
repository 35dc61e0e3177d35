/-
  Walks of a graph, and computations that go along all of them.

  A relation without cycles on a finite set is well-founded, and has a rank (`Acyclic.exists_rank`).

  A walk is given by the choices made on it: the index of the next node among the successors. In a
  graph without infinite walks `visits`, the number of walks from a node to `m`, is what is counted
  at the node plus the visits of its successors (`visits_eq`).

  `Adds` is about a computation that raises a counter by a fixed amount; one that goes from a node
  to all its successors, one after the other, raises it by the visits of the node.
-/
import Mathlib.Data.Set.Card
import Mathlib.Logic.Relation
import Mathlib.Order.WellFoundedSet
import Mathlib.Algebra.BigOperators.Fin
import Mathlib.Data.Finite.Sigma
import Mathlib.SetTheory.Cardinal.Finite

namespace Acyclic

variable {α : Type*} {r : α → α → Prop} {s : Set α}

/-- Without cycles there are no infinite chains in a finite set. -/
theorem wellFounded_of_acyclic (hs : s.Finite) (hr : ∀ a b, r a b → a ∈ s ∧ b ∈ s)
    (hacyclic : ∀ a, ¬ Relation.TransGen r a a) : WellFounded r := by
  have : IsStrictOrder α (Relation.TransGen r) :=
    { irrefl := hacyclic, trans := fun _ _ _ => Relation.TransGen.trans }
  have hwf := Set.wellFoundedOn_iff.mp (hs.wellFoundedOn (r := Relation.TransGen r))
  exact hwf.mono fun a b h => ⟨.single h, hr a b h⟩

/-- The number of elements that can be reached goes down along the relation. -/
theorem exists_rank (hs : s.Finite) (hr : ∀ a b, r a b → b ∈ s)
    (hacyclic : ∀ a, ¬ Relation.TransGen r a a) :
    ∃ rank : α → Nat, (∀ a b, r a b → rank b < rank a) ∧ ∀ a, rank a ≤ s.ncard := by
  have hreach : ∀ a, {b | Relation.TransGen r a b} ⊆ s := by
    intro a b hab
    obtain ⟨c, -, hcb⟩ := Relation.TransGen.tail'_iff.mp hab
    exact hr c b hcb
  refine ⟨fun a => {b | Relation.TransGen r a b}.ncard, fun a b hab => ?_, fun a => ?_⟩
  · apply Set.ncard_lt_ncard _ (hs.subset (hreach a))
    refine ⟨fun c hbc => Relation.TransGen.head hab hbc, fun hsub => ?_⟩
    exact hacyclic b (hsub (Relation.TransGen.single hab))
  · exact Set.ncard_le_ncard (hreach a) hs

end Acyclic

namespace WalkCount

variable {N : Type*} (next : N → List N)

/-- The choices `is`, the first one among `ns`, end in `m`. -/
def Leads : List N → List ℕ → N → Prop
  | _, [], _ => False
  | ns, i :: is, m => ∃ n, ns[i]? = some n ∧ (is = [] ∧ n = m ∨ Leads (next n) is m)

/-- The ways to go on from `n` and end in `m`, the empty one included. -/
def Onwards (n m : N) : Set (List ℕ) := {is | is = [] ∧ n = m ∨ Leads next (next n) is m}

/-- How often the walks from `n` come to `m`. -/
noncomputable def visits (m n : N) : ℕ := (Onwards next n m).ncard

variable {next} {n m : N} {ns : List N}

/-- A walk is a first choice and a way to go on. -/
def leadsEquiv (ns : List N) (m : N) :
    {is | Leads next ns is m} ≃ Σ i : Fin ns.length, Onwards next (ns.get i) m where
  toFun
    | ⟨[], h⟩ => h.elim
    | ⟨i :: is, h⟩ =>
      have hi : i < ns.length := by
        obtain ⟨n, hn, -⟩ := h
        exact (List.getElem?_eq_some_iff.mp hn).1
      ⟨⟨i, hi⟩, is, by
        obtain ⟨n, hn, hrest⟩ := h
        have he : ns.get ⟨i, hi⟩ = n := (List.getElem?_eq_some_iff.mp hn).2
        rw [he]
        exact hrest⟩
  invFun := fun ⟨i, is, h⟩ => ⟨i :: is, ns.get i, List.getElem?_eq_getElem i.2, h⟩
  left_inv := by
    rintro ⟨is, h⟩
    cases is with
    | nil => exact h.elim
    | cons i is => rfl
  right_inv := fun ⟨i, is, h⟩ => rfl

theorem onwards_eq : Onwards next n m = {is | is = [] ∧ n = m} ∪ {is | Leads next (next n) is m} :=
  rfl

theorem finite_leads (h : ∀ n ∈ ns, (Onwards next n m).Finite) :
    {is | Leads next ns is m}.Finite := by
  have hfin : ∀ i : Fin ns.length, Finite (Onwards next (ns.get i) m) :=
    fun i => (h (ns.get i) (List.get_mem ns i)).to_subtype
  exact Set.finite_coe_iff.mp (Finite.of_equiv _ (leadsEquiv ns m).symm)

theorem finite_onwards (hwf : WellFounded fun n' n => n' ∈ next n) (n m : N) :
    (Onwards next n m).Finite := by
  induction n using hwf.induction with
  | _ n ih =>
    rw [onwards_eq]
    refine Set.Finite.union ((Set.finite_singleton []).subset ?_) (finite_leads ih)
    rintro is ⟨rfl, -⟩
    rfl

/-- The walks whose first node is one of a list. -/
theorem ncard_leads (hwf : WellFounded fun n' n => n' ∈ next n) (ns : List N) (m : N) :
    {is | Leads next ns is m}.ncard = (ns.map (visits next m)).sum := by
  have hfin : ∀ i : Fin ns.length, Finite (Onwards next (ns.get i) m) :=
    fun i => (finite_onwards hwf (ns.get i) m).to_subtype
  calc {is | Leads next ns is m}.ncard
      = Nat.card (Σ i : Fin ns.length, Onwards next (ns.get i) m) := Nat.card_congr (leadsEquiv ns m)
    _ = ∑ i : Fin ns.length, visits next m (ns.get i) := Nat.card_sigma
    _ = (ns.map (visits next m)).sum := Fin.sum_univ_fun_getElem ns (visits next m)

theorem visits_eq [DecidableEq N] (hwf : WellFounded fun n' n => n' ∈ next n) (m n : N) :
    visits next m n = (if n = m then 1 else 0) + ((next n).map (visits next m)).sum := by
  have hdisjoint : Disjoint {is : List ℕ | is = [] ∧ n = m} {is | Leads next (next n) is m} := by
    rw [Set.disjoint_left]
    rintro is ⟨rfl, -⟩ h
    exact h
  have hempty : {is : List ℕ | is = [] ∧ n = m}.ncard = if n = m then 1 else 0 := by
    split
    · next h => simp [h]
    · next h => simp [h]
  have hfin : {is : List ℕ | is = [] ∧ n = m}.Finite := by
    refine (Set.finite_singleton []).subset ?_
    rintro is ⟨rfl, -⟩
    rfl
  rw [visits, onwards_eq, Set.ncard_union_eq hdisjoint hfin
    (finite_leads fun n' _ => finite_onwards hwf n' m), hempty, ncard_leads hwf]

/-! ## Raising a counter -/

variable {σ : Type*} {Inv : σ → Prop} {counter : σ → ℕ}

/-- Whenever `f` has a result, the invariant is kept and the counter is `k` higher. -/
def Adds (Inv : σ → Prop) (counter : σ → ℕ) (f : σ → Option σ) (k : ℕ) : Prop :=
  ∀ s s', Inv s → f s = some s' → Inv s' ∧ counter s' = counter s + k

theorem Adds.pure : Adds Inv counter some 0 := by
  intro s s' hs h
  obtain rfl := Option.some.inj h
  exact ⟨hs, rfl⟩

theorem Adds.bind {f g : σ → Option σ} {k l : ℕ} (hf : Adds Inv counter f k)
    (hg : Adds Inv counter g l) : Adds Inv counter (fun s => (f s).bind g) (k + l) := by
  intro s s' hs h
  obtain ⟨s₁, h₁, h₂⟩ := Option.bind_eq_some_iff.mp h
  obtain ⟨hs₁, hk⟩ := hf s s₁ hs h₁
  obtain ⟨hs', hl⟩ := hg s₁ s' hs₁ h₂
  exact ⟨hs', by omega⟩

theorem Adds.congr {f g : σ → Option σ} {k : ℕ} (hf : Adds Inv counter f k)
    (h : ∀ s, Inv s → g s = f s) : Adds Inv counter g k :=
  fun s s' hs hg => hf s s' hs ((h s hs).symm.trans hg)

end WalkCount
