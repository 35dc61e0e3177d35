/-
  `core/utils/utils.c`: the intrusive queues of the loopbreaker and the worker pool. The links
  stand in the elements, so the elements of all queues are one memory.

  `IsQueue E q l`: the elements from the head of `q` to its tail are `l`. Adding an element
  appends it, popping one removes it from wherever it stands, and elements of other queues are
  not touched.
-/
import Mathlib.Data.List.Nodup
import Mathlib.Data.List.GetD
import Mathlib.Logic.Function.Basic

namespace LogxControll

/-- The address of an element. -/
abbrev ElementId := Nat

/-- `struct queue_element` -/
structure QueueElement where
  prev : Option ElementId
  next : Option ElementId
  deriving DecidableEq, Repr

/-- The elements that are allocated. -/
abbrev Elements := ElementId → Option QueueElement

/-- The head and the tail pointer of a queue. -/
structure QueueEnds where
  head : Option ElementId
  tail : Option ElementId
  deriving DecidableEq, Repr

/-- `e->next = next` -/
def Elements.setNext (E : Elements) (e : ElementId) (next : Option ElementId) : Option Elements :=
  (E e).map fun x => Function.update E e (some { x with next := next })

/-- `e->prev = prev` -/
def Elements.setPrev (E : Elements) (e : ElementId) (prev : Option ElementId) : Option Elements :=
  (E e).map fun x => Function.update E e (some { x with prev := prev })

/-- `queue_add_element`: at the tail. -/
def queueAddElement (E : Elements) (q : QueueEnds) (elem : ElementId) :
    Option (Elements × QueueEnds) := do
  -- `elem->prev = NULL` of an empty queue is overwritten at once
  let head := if q.head.isNone then some elem else q.head
  let E ← E.setPrev elem q.tail
  let E ← E.setNext elem none
  let E ← match q.tail with
    | none => some E
    | some t => E.setNext t (some elem)
  return (E, { head := head, tail := some elem })

/-- The first branch of `queue_pop_intermediate_element`, on `intermediate->prev`: the new links
    and the new head. -/
def unlinkPrev (E : Elements) (q : QueueEnds) (x : QueueElement) :
    Option (Elements × Option ElementId) :=
  match x.prev, x.next with
  | some p, _ => (E.setNext p x.next).map fun E => (E, q.head)
  | none, some n => (E.setPrev n none).map fun E => (E, x.next)
  | none, none => some (E, x.next)

/-- The second branch, on `intermediate->next`: the new links and the new tail. -/
def unlinkNext (E : Elements) (q : QueueEnds) (x : QueueElement) :
    Option (Elements × Option ElementId) :=
  match x.next, x.prev with
  | some n, _ => (E.setPrev n x.prev).map fun E => (E, q.tail)
  | none, some p => (E.setNext p none).map fun E => (E, x.prev)
  | none, none => some (E, x.prev)

/-- `queue_pop_intermediate_element`. The element keeps its own links. -/
def queuePopIntermediateElement (E : Elements) (q : QueueEnds) (intermediate : ElementId) :
    Option (Elements × QueueEnds) := do
  let (E, head) ← unlinkPrev E q (← E intermediate)
  let (E, tail) ← unlinkNext E q (← E intermediate)
  return (E, { head := head, tail := tail })

/-- The popped element, NULL from an empty queue. -/
def queuePopTailElement (E : Elements) (q : QueueEnds) :
    Option (Option ElementId × Elements × QueueEnds) :=
  match q.tail with
  | none => some (none, E, q)
  | some t => (queuePopIntermediateElement E q t).map fun r => (some t, r)

/-- `queue_pop_head_element`; NULL of an empty queue. -/
def queuePopHeadElement (E : Elements) (q : QueueEnds) :
    Option (Option ElementId × Elements × QueueEnds) :=
  match q.head with
  | none => some (none, E, q)
  | some h => (queuePopIntermediateElement E q h).map fun r => (some h, r)

/-! ## The elements of a queue -/

/-- The elements are linked in this order, between `prev` and `next`. -/
def Linked (E : Elements) : Option ElementId → List ElementId → Option ElementId → Prop
  | _, [], _ => True
  | prev, x :: l, next => E x = some ⟨prev, l.head?.or next⟩ ∧ Linked E (some x) l next

/-- From the head on the elements of the list follow one another, each linked back to the one before
    it. -/
structure IsQueue (E : Elements) (q : QueueEnds) (l : List ElementId) : Prop where
  nodup : l.Nodup
  head : q.head = l.head?
  tail : q.tail = l.getLast?
  linked : Linked E none l none

theorem isQueue_nil (E : Elements) : IsQueue E ⟨none, none⟩ [] :=
  ⟨List.nodup_nil, rfl, rfl, trivial⟩

variable {E E' : Elements} {q : QueueEnds} {l l₁ l₂ : List ElementId}
  {prev next : Option ElementId} {x : ElementId}

theorem Linked.congr (h : Linked E prev l next) (hc : ∀ x ∈ l, E' x = E x) :
    Linked E' prev l next := by
  induction l generalizing prev with
  | nil => trivial
  | cons x l ih =>
    refine ⟨?_, ih h.2 fun y hy => hc y (List.mem_cons_of_mem x hy)⟩
    rw [hc x List.mem_cons_self]
    exact h.1

theorem linked_append : Linked E prev (l₁ ++ l₂) next ↔
    Linked E prev l₁ (l₂.head?.or next) ∧ Linked E (l₁.getLast?.or prev) l₂ next := by
  induction l₁ generalizing prev with
  | nil => simp [Linked]
  | cons x l ih =>
    have hhead : (l ++ l₂).head?.or next = l.head?.or (l₂.head?.or next) := by
      rw [List.head?_append, Option.or_assoc]
    have hlast : (x :: l).getLast?.or prev = l.getLast?.or (some x) := by
      rw [List.getLast?_cons]
      cases l.getLast? <;> rfl
    simp only [List.cons_append, Linked, hhead, hlast, ih, and_assoc]

/-- Writing the `next` of the last element. -/
theorem Linked.setNext (h : Linked E prev (l ++ [x]) next) (hn : (l ++ [x]).Nodup)
    (next' : Option ElementId) :
    ∃ E', E.setNext x next' = some E' ∧ Linked E' prev (l ++ [x]) next' ∧
      ∀ y, y ≠ x → E' y = E y := by
  obtain ⟨hl, hx⟩ := linked_append.mp h
  have hnot : ∀ y ∈ l, y ≠ x := fun y hy he =>
    (List.nodup_append.mp hn).2.2 y hy x (List.mem_singleton_self x) he
  refine ⟨Function.update E x (some ⟨l.getLast?.or prev, next'⟩), ?_, ?_, fun y hy =>
    Function.update_of_ne hy _ _⟩
  · rw [Elements.setNext, hx.1]
    rfl
  · refine linked_append.mpr ⟨hl.congr fun y hy => Function.update_of_ne (hnot y hy) _ _, ?_⟩
    exact ⟨Function.update_self x _ E, trivial⟩

/-- Writing the `prev` of the first element. -/
theorem Linked.setPrev (h : Linked E prev (x :: l) next) (hn : (x :: l).Nodup)
    (prev' : Option ElementId) :
    ∃ E', E.setPrev x prev' = some E' ∧ Linked E' prev' (x :: l) next ∧
      ∀ y, y ≠ x → E' y = E y := by
  refine ⟨Function.update E x (some ⟨prev', l.head?.or next⟩), ?_, ?_, fun y hy =>
    Function.update_of_ne hy _ _⟩
  · rw [Elements.setPrev, h.1]
    rfl
  · refine ⟨Function.update_self x _ E, h.2.congr fun y hy => Function.update_of_ne ?_ _ _⟩
    rintro rfl
    exact (List.nodup_cons.mp hn).1 hy

theorem IsQueue.allocated (h : IsQueue E q l) (hx : x ∈ l) : (E x).isSome := by
  obtain ⟨l₁, l₂, rfl⟩ := List.append_of_mem hx
  rw [((linked_append.mp h.linked).2).1]
  rfl

/-- The elements of a queue are only found through the elements themselves. -/
theorem IsQueue.congr (h : IsQueue E q l) (hc : ∀ x ∈ l, E' x = E x) : IsQueue E' q l :=
  ⟨h.nodup, h.head, h.tail, h.linked.congr hc⟩

theorem queueAddElement_spec (h : IsQueue E q l) (hx : (E x).isSome) (hnot : x ∉ l) :
    ∃ E' q', queueAddElement E q x = some (E', q') ∧ IsQueue E' q' (l ++ [x]) ∧
      ∀ y, y ∉ l → y ≠ x → E' y = E y := by
  obtain ⟨e, he⟩ := Option.isSome_iff_exists.mp hx
  have hne : ∀ y ∈ l, y ≠ x := fun y hy hyx => hnot (hyx ▸ hy)
  have hn : (l ++ [x]).Nodup := by
    refine List.nodup_append.mpr ⟨h.nodup, List.nodup_singleton x, fun y hy z hz => ?_⟩
    rw [List.mem_singleton.mp hz]
    exact hne y hy
  have hset : (E.setPrev x q.tail).bind (fun E => E.setNext x none) =
      some (Function.update E x (some ⟨q.tail, none⟩)) := by
    simp [Elements.setPrev, Elements.setNext, he]
  have hlinked : Linked (Function.update E x (some ⟨q.tail, none⟩)) none l none :=
    h.linked.congr fun y hy => Function.update_of_ne (hne y hy) _ _
  have hself : Function.update E x (some ⟨q.tail, none⟩) x = some ⟨q.tail, none⟩ :=
    Function.update_self x _ E
  have hother : ∀ y, y ≠ x → Function.update E x (some ⟨q.tail, none⟩) y = E y :=
    fun y hy => Function.update_of_ne hy _ E
  unfold queueAddElement
  simp only [Option.bind_eq_bind]
  rw [← Option.bind_assoc, hset, Option.bind_some]
  generalize Function.update E x (some ⟨q.tail, none⟩) = E₁ at hlinked hself hother
  rcases List.eq_nil_or_concat' l with rfl | ⟨l', t, rfl⟩
  · have hhead := h.head
    have htail := h.tail
    simp only [List.head?_nil, List.getLast?_nil] at hhead htail
    rw [htail] at hself
    rw [htail, hhead]
    exact ⟨E₁, ⟨some x, some x⟩, rfl, ⟨hn, rfl, rfl, hself, trivial⟩,
      fun y _ hy => hother y hy⟩
  · have htail : q.tail = some t := h.tail.trans (by simp)
    have hhead : q.head.isNone = false := by
      rw [h.head]
      cases l' <;> rfl
    obtain ⟨E₂, hstep, hlinked₂, hother₂⟩ := hlinked.setNext h.nodup (some x)
    have htx : x ≠ t := fun hxt => hnot (by simp [hxt])
    rw [htail] at hself ⊢
    simp only [hstep, Option.bind_some, hhead, Bool.false_eq_true, if_false]
    refine ⟨E₂, ⟨q.head, some x⟩, rfl, ⟨hn, ?_, by simp, ?_⟩, fun y hy hyx => ?_⟩
    · rw [h.head]
      cases l' <;> rfl
    · refine linked_append.mpr ⟨hlinked₂, ?_, trivial⟩
      rw [hother₂ x htx, hself]
      simp
    · rw [hother₂ y fun hyt => hy (by simp [hyt]), hother y hyx]

section Pop

variable (h : IsQueue E q (l₁ ++ x :: l₂))
include h

theorem IsQueue.popped_element : E x = some ⟨l₁.getLast?, l₂.head?⟩ := by
  rw [((linked_append.mp h.linked).2).1]
  simp

/-- The elements before `x` are linked to those behind it. -/
theorem IsQueue.unlinkPrev_spec :
    ∃ E₁, unlinkPrev E q ⟨l₁.getLast?, l₂.head?⟩ = some (E₁, (l₁ ++ l₂).head?) ∧
      Linked E₁ none l₁ l₂.head? ∧ (∃ prev, Linked E₁ prev l₂ none) ∧
      ∀ y, y ∉ l₁ ++ l₂ → E₁ y = E y := by
  obtain ⟨hl₁, hx, hl₂⟩ := linked_append.mp h.linked
  obtain ⟨hn₁, hn₂, hdisj⟩ := List.nodup_append.mp h.nodup
  rcases List.eq_nil_or_concat' l₁ with rfl | ⟨l₁', p, rfl⟩
  · cases l₂ with
    | nil => exact ⟨E, rfl, trivial, ⟨none, trivial⟩, fun _ _ => rfl⟩
    | cons n l₂ =>
      obtain ⟨E₁, hstep, hlinked, hother⟩ := hl₂.setPrev (List.nodup_cons.mp hn₂).2 none
      refine ⟨E₁, by simp [unlinkPrev, hstep], trivial, ⟨none, hlinked⟩, fun y hy => ?_⟩
      exact hother y fun hyn => hy (by simp [hyn])
  · obtain ⟨E₁, hstep, hlinked, hother⟩ := hl₁.setNext hn₁ l₂.head?
    have hhead : q.head = (l₁' ++ [p] ++ l₂).head? := by
      rw [h.head]
      cases l₁' <;> rfl
    refine ⟨E₁, by simp [unlinkPrev, hstep, hhead], hlinked, ⟨some x, ?_⟩, fun y hy => ?_⟩
    · refine hl₂.congr fun y hy => hother y fun hyp => ?_
      exact hdisj p (by simp) y (List.mem_cons_of_mem x hy) hyp.symm
    · exact hother y fun hyp => hy (by simp [hyp])

omit h in
/-- The elements behind `x` are linked to those before it. -/
theorem unlinkNext_spec {E₁ : Elements} (hl₁ : Linked E₁ none l₁ l₂.head?)
    (hl₂ : ∃ prev, Linked E₁ prev l₂ none) (hnodup : (l₁ ++ l₂).Nodup)
    (htail : l₂ ≠ [] → q.tail = (l₁ ++ l₂).getLast?) :
    ∃ E₂, unlinkNext E₁ q ⟨l₁.getLast?, l₂.head?⟩ = some (E₂, (l₁ ++ l₂).getLast?) ∧
      Linked E₂ none (l₁ ++ l₂) none ∧ ∀ y, y ∉ l₁ ++ l₂ → E₂ y = E₁ y := by
  obtain ⟨hn₁, hn₂, hdisj⟩ := List.nodup_append.mp hnodup
  cases l₂ with
  | nil =>
    simp only [List.append_nil]
    rcases List.eq_nil_or_concat' l₁ with rfl | ⟨l₁', p, rfl⟩
    · exact ⟨E₁, rfl, trivial, fun _ _ => rfl⟩
    · obtain ⟨E₂, hstep, hlinked, hother⟩ := hl₁.setNext hn₁ none
      refine ⟨E₂, by simp [unlinkNext, hstep], hlinked, fun y hy => ?_⟩
      exact hother y fun hyp => hy (by simp [hyp])
  | cons n l₂ =>
    obtain ⟨prev, hl₂⟩ := hl₂
    obtain ⟨E₂, hstep, hlinked, hother⟩ := hl₂.setPrev hn₂ l₁.getLast?
    have hkeep : ∀ y ∈ l₁, E₂ y = E₁ y := fun y hy =>
      hother y fun hyn => hdisj y hy n List.mem_cons_self hyn
    refine ⟨E₂, by simp [unlinkNext, hstep, htail], linked_append.mpr ⟨hl₁.congr hkeep, ?_⟩,
      fun y hy => hother y fun hyn => hy (by simp [hyn])⟩
    rwa [Option.or_none]

/-- Popping an element removes it, wherever it stands. -/
theorem queuePopIntermediateElement_spec :
    ∃ E' q', queuePopIntermediateElement E q x = some (E', q') ∧ IsQueue E' q' (l₁ ++ l₂) ∧
      ∀ y, y ∉ l₁ ++ l₂ → E' y = E y := by
  have hx := h.popped_element
  have hnodup : (l₁ ++ l₂).Nodup :=
    h.nodup.sublist ((List.Sublist.refl l₁).append (List.sublist_cons_self x l₂))
  have hnot : x ∉ l₁ ++ l₂ := (List.nodup_cons.mp (List.nodup_middle.mp h.nodup)).1
  have htail : l₂ ≠ [] → q.tail = (l₁ ++ l₂).getLast? := by
    intro hne
    obtain ⟨n, l₂, rfl⟩ := List.exists_cons_of_ne_nil hne
    rw [h.tail, List.getLast?_append_cons, List.getLast?_append_cons, List.getLast?_cons_cons]
  obtain ⟨E₁, hstep₁, hl₁, hl₂, hother₁⟩ := h.unlinkPrev_spec
  obtain ⟨E₂, hstep₂, hlinked, hother₂⟩ := unlinkNext_spec hl₁ hl₂ hnodup htail
  refine ⟨E₂, ⟨(l₁ ++ l₂).head?, (l₁ ++ l₂).getLast?⟩, ?_, ⟨hnodup, rfl, rfl, hlinked⟩,
    fun y hy => (hother₂ y hy).trans (hother₁ y hy)⟩
  simp only [queuePopIntermediateElement, hx, hother₁ x hnot, hstep₁, hstep₂, Option.bind_eq_bind,
    Option.bind_some]
  rfl

end Pop

theorem queuePopHeadElement_spec (h : IsQueue E q l) :
    ∃ E' q', queuePopHeadElement E q = some (l.head?, E', q') ∧ IsQueue E' q' l.tail ∧
      ∀ y, y ∉ l.tail → E' y = E y := by
  unfold queuePopHeadElement
  cases l with
  | nil =>
    rw [h.head]
    exact ⟨E, q, rfl, h, fun _ _ => rfl⟩
  | cons x l =>
    have h' : IsQueue E q ([] ++ x :: l) := h
    obtain ⟨E', q', hpop, hq, hother⟩ := queuePopIntermediateElement_spec h'
    rw [h.head, List.head?_cons]
    exact ⟨E', q', by simp only [hpop, Option.map_some], hq, hother⟩

theorem queuePopTailElement_spec (h : IsQueue E q l) :
    ∃ E' q', queuePopTailElement E q = some (l.getLast?, E', q') ∧ IsQueue E' q' l.dropLast ∧
      ∀ y, y ∉ l.dropLast → E' y = E y := by
  unfold queuePopTailElement
  rcases List.eq_nil_or_concat' l with rfl | ⟨l, x, rfl⟩
  · rw [h.tail]
    exact ⟨E, q, rfl, h, fun _ _ => rfl⟩
  · obtain ⟨E', q', hpop, hq, hother⟩ := queuePopIntermediateElement_spec h
    rw [List.append_nil] at hq hother
    rw [h.tail, List.getLast?_concat, List.dropLast_concat]
    exact ⟨E', q', by simp only [hpop, Option.map_some], hq, hother⟩

end LogxControll
