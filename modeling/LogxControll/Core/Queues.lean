/-
  `core/utils/utils.c`: any number of intrusive queues over one memory of elements, and whole runs
  of the four queue functions.

  Each queue is a sequence of elements (`PointsTo`) and an element is in one queue at most. An
  operation does to the sequence of its queue what its name says, answers the removed element, and
  leaves every element outside that queue and every other queue's ends alone (`queues_follow`).
  A removed element keeps its old links until it is added again.
-/
import LogxControll.Core.Queue
import LogxControll.Lib.Refinement

namespace LogxControll

open Simulation

variable {κ : Type} [DecidableEq κ]

/-- The queues of the ids `κ`, and the elements of all of them. -/
structure Queues (κ : Type) where
  elements : Elements
  ends : κ → QueueEnds

/-- A call on one of the queues. -/
inductive QueueOp (κ : Type)
  | add (queue : κ) (elem : ElementId)
  | popHead (queue : κ)
  | popTail (queue : κ)
  | popIntermediate (queue : κ) (elem : ElementId)
  deriving DecidableEq

/-- The queue that is called. -/
def QueueOp.queue : QueueOp κ → κ
  | .add q _ => q
  | .popHead q => q
  | .popTail q => q
  | .popIntermediate q _ => q

/-- Put back what an operation on one queue has left. -/
def Queues.put (s : Queues κ) (q : κ) (E : Elements) (ends : QueueEnds) : Queues κ where
  elements := E
  ends := Function.update s.ends q ends

/-- The functions without a result answer NULL. -/
def queueStep (s : Queues κ) : QueueOp κ → Option (Option ElementId × Queues κ)
  | .add q elem => (queueAddElement s.elements (s.ends q) elem).map fun r =>
      (none, s.put q r.1 r.2)
  | .popHead q => (queuePopHeadElement s.elements (s.ends q)).map fun r =>
      (r.1, s.put q r.2.1 r.2.2)
  | .popTail q => (queuePopTailElement s.elements (s.ends q)).map fun r =>
      (r.1, s.put q r.2.1 r.2.2)
  | .popIntermediate q elem => (queuePopIntermediateElement s.elements (s.ends q) elem).map fun r =>
      (none, s.put q r.1 r.2)

/-- What the call does to the lists: only that of the queue changes. -/
def queueSpec (t : κ → List ElementId) : QueueOp κ → Option ElementId × (κ → List ElementId)
  | .add q elem => (none, Function.update t q (t q ++ [elem]))
  | .popHead q => ((t q).head?, Function.update t q (t q).tail)
  | .popTail q => ((t q).getLast?, Function.update t q (t q).dropLast)
  | .popIntermediate q elem => (none, Function.update t q ((t q).erase elem))

/-- An element that is added is allocated and in no queue, an element that is removed by its
    address is in the queue. -/
def QueueOp.Legal (allocated : ElementId → Prop) (t : κ → List ElementId) : QueueOp κ → Prop
  | .add _ elem => allocated elem ∧ ∀ q, elem ∉ t q
  | .popIntermediate q elem => elem ∈ t q
  | _ => True

/-! ## The pointers of one queue -/

/-- The links of an element, by its place. -/
theorem IsQueue.links {E : Elements} {q : QueueEnds} {l : List ElementId} (h : IsQueue E q l)
    {i : Nat} (hi : i < l.length) : E l[i] = some ⟨(l.take i).getLast?, l[i + 1]?⟩ := by
  have hsplit : l.take i ++ l[i] :: l.drop (i + 1) = l := by
    rw [List.getElem_cons_drop, List.take_append_drop]
  have hmiddle : IsQueue E q (l.take i ++ l[i] :: l.drop (i + 1)) := by rwa [hsplit]
  rw [hmiddle.popped_element, List.head?_drop]

/-- What a queue's pointers say of the sequence. -/
structure PointsTo (E : Elements) (q : QueueEnds) (l : List ElementId) : Prop where
  queue : IsQueue E q l
  null : q.head = none ↔ q.tail = none
  head : ∀ x, q.head = some x → l.head? = some x ∧ ∃ e, E x = some e ∧ e.prev = none
  tail : ∀ x, q.tail = some x → l.getLast? = some x ∧ ∃ e, E x = some e ∧ e.next = none
  inverse : ∀ x ∈ l, ∀ y ∈ l, (E x).bind QueueElement.next = some y ↔
    (E y).bind QueueElement.prev = some x

theorem getLast?_take {l : List ElementId} {i : Nat} (hi : i < l.length) :
    (l.take (i + 1)).getLast? = some l[i] := by
  rw [List.take_succ_eq_append_getElem hi, List.getLast?_concat]

theorem IsQueue.pointsTo {E : Elements} {q : QueueEnds} {l : List ElementId}
    (h : IsQueue E q l) : PointsTo E q l := by
  refine ⟨h, ?_, fun x hx => ?_, fun x hx => ?_, fun x hx y hy => ?_⟩
  · rw [h.head, h.tail, List.head?_eq_none_iff, List.getLast?_eq_none_iff]
  · rw [h.head] at hx
    obtain ⟨l, rfl⟩ : ∃ l', l = x :: l' := List.head?_eq_some_iff.mp hx
    exact ⟨rfl, _, h.linked.1, rfl⟩
  · rw [h.tail] at hx
    obtain ⟨l, rfl⟩ := List.getLast?_eq_some_iff.mp hx
    exact ⟨hx, _, ((linked_append.mp h.linked).2).1, rfl⟩
  · obtain ⟨i, hi, rfl⟩ := List.getElem_of_mem hx
    obtain ⟨j, hj, rfl⟩ := List.getElem_of_mem hy
    rw [h.links hi, h.links hj]
    show l[i + 1]? = some l[j] ↔ (l.take j).getLast? = some l[i]
    have hnext : l[i + 1]? = some l[j] ↔ i + 1 = j := by
      rw [List.getElem?_eq_some_iff]
      refine ⟨fun ⟨hlt, heq⟩ => (h.nodup.getElem_inj_iff).mp heq, ?_⟩
      rintro rfl
      exact ⟨hj, rfl⟩
    rw [hnext]
    cases j with
    | zero => simp
    | succ j =>
      have hlt : j < l.length := by omega
      rw [getLast?_take hlt, Option.some.injEq, h.nodup.getElem_inj_iff]
      omega

/-! ## All queues -/

/-- Every queue holds its list, and no element is in two of them. -/
structure QueuesHold (s : Queues κ) (t : κ → List ElementId) : Prop where
  queue : ∀ q, PointsTo s.elements (s.ends q) (t q)
  apart : ∀ x q q', x ∈ t q → x ∈ t q' → q = q'

/-- The elements outside the queue of the operation, the added one aside, and the ends of the other
    queues. -/
structure QueueFrame (s : Queues κ) (t : κ → List ElementId) (op : QueueOp κ) (s' : Queues κ) :
    Prop where
  elements : ∀ x, x ∉ t op.queue → op ≠ .add op.queue x → s'.elements x = s.elements x
  ends : ∀ q, q ≠ op.queue → s'.ends q = s.ends q

/-- The queues are held and the allocated elements still are. -/
def QueuesInv (allocated : ElementId → Prop) (s : Queues κ) (t : κ → List ElementId) : Prop :=
  QueuesHold s t ∧ ∀ x, allocated x → (s.elements x).isSome

/-- One queue changes, and with it only elements that are in no other. -/
theorem QueuesInv.put {allocated : ElementId → Prop} {s : Queues κ} {t : κ → List ElementId}
    (h : QueuesInv allocated s t) {q : κ} {E : Elements} {ends : QueueEnds} {l : List ElementId}
    (hq : IsQueue E ends l) (hapart : ∀ x ∈ l, ∀ q', q' ≠ q → x ∉ t q')
    (hother : ∀ x, x ∉ l → E x = s.elements x) :
    QueuesInv allocated (s.put q E ends) (Function.update t q l) := by
  refine ⟨⟨fun q' => ?_, fun x q₁ q₂ hx₁ hx₂ => ?_⟩, fun x hx => ?_⟩
  · show PointsTo E (Function.update s.ends q ends q') (Function.update t q l q')
    by_cases hne : q' = q
    · subst hne
      rw [Function.update_self, Function.update_self]
      exact hq.pointsTo
    · rw [Function.update_of_ne hne, Function.update_of_ne hne]
      exact ((h.1.queue q').queue.congr fun x hx => hother x fun hl =>
        hapart x hl q' hne hx).pointsTo
  · by_cases hne₁ : q₁ = q
    · by_cases hne₂ : q₂ = q
      · rw [hne₁, hne₂]
      · rw [hne₁, Function.update_self] at hx₁
        rw [Function.update_of_ne hne₂] at hx₂
        exact absurd hx₂ (hapart x hx₁ q₂ hne₂)
    · rw [Function.update_of_ne hne₁] at hx₁
      by_cases hne₂ : q₂ = q
      · rw [hne₂, Function.update_self] at hx₂
        exact absurd hx₁ (hapart x hx₂ q₁ hne₁)
      · rw [Function.update_of_ne hne₂] at hx₂
        exact h.1.apart x q₁ q₂ hx₁ hx₂
  · by_cases hl : x ∈ l
    · exact hq.allocated hl
    · show (E x).isSome
      rw [hother x hl]
      exact h.2 x hx

section Step

variable {allocated : ElementId → Prop} {s : Queues κ} {t : κ → List ElementId}
  (h : QueuesInv allocated s t)
include h

omit [DecidableEq κ] in
theorem QueuesInv.apart {q q' : κ} {x : ElementId} (hx : x ∈ t q) (hne : q' ≠ q) : x ∉ t q' :=
  fun hx' => hne (h.1.apart x q' q hx' hx)

theorem QueuesInv.add {q : κ} {elem : ElementId} (hlegal : (QueueOp.add q elem).Legal allocated t) :
    ∃ s', queueStep s (.add q elem) = some (none, s') ∧ QueueFrame s t (.add q elem) s' ∧
      QueuesInv allocated s' (Function.update t q (t q ++ [elem])) := by
  obtain ⟨E, ends, hadd, hq, hother⟩ :=
    queueAddElement_spec (h.1.queue q).queue (h.2 elem hlegal.1) (hlegal.2 q)
  refine ⟨s.put q E ends, ?_, ⟨fun x hx hne => ?_, fun q' hne => ?_⟩, h.put hq ?_ ?_⟩
  · rw [queueStep, hadd]
    rfl
  · exact hother x hx fun hxe => hne (hxe ▸ rfl)
  · exact Function.update_of_ne hne _ _
  · intro x hx q' hne
    rcases List.mem_append.mp hx with hx | hx
    · exact h.apart hx hne
    · rw [List.mem_singleton.mp hx]
      exact hlegal.2 q'
  · intro x hx
    rw [List.mem_append, List.mem_singleton, not_or] at hx
    exact hother x hx.1 hx.2

/-- A removal leaves a part of the queue and answers what it says. -/
theorem QueuesInv.remove {op : QueueOp κ} {E : Elements} {ends : QueueEnds} {l : List ElementId}
    {answer : Option ElementId} (hq : IsQueue E ends l) (hsub : ∀ x ∈ l, x ∈ t op.queue)
    (hother : ∀ x, x ∉ l → E x = s.elements x)
    (hstep : queueStep s op = some (answer, s.put op.queue E ends)) :
    ∃ s', queueStep s op = some (answer, s') ∧ QueueFrame s t op s' ∧
      QueuesInv allocated s' (Function.update t op.queue l) :=
  ⟨s.put op.queue E ends, hstep,
    ⟨fun x hx _ => hother x fun hl => hx (hsub x hl), fun _ hne => Function.update_of_ne hne _ _⟩,
    h.put hq (fun x hx _ hne => h.apart (hsub x hx) hne) hother⟩

theorem QueuesInv.popHead (q : κ) :
    ∃ s', queueStep s (.popHead q) = some ((t q).head?, s') ∧ QueueFrame s t (.popHead q) s' ∧
      QueuesInv allocated s' (Function.update t q (t q).tail) := by
  obtain ⟨E, ends, hpop, hq, hother⟩ := queuePopHeadElement_spec (h.1.queue q).queue
  refine h.remove hq (fun x hx => List.mem_of_mem_tail hx) hother ?_
  rw [queueStep, hpop]
  rfl

theorem QueuesInv.popTail (q : κ) :
    ∃ s', queueStep s (.popTail q) = some ((t q).getLast?, s') ∧ QueueFrame s t (.popTail q) s' ∧
      QueuesInv allocated s' (Function.update t q (t q).dropLast) := by
  obtain ⟨E, ends, hpop, hq, hother⟩ := queuePopTailElement_spec (h.1.queue q).queue
  refine h.remove hq (fun x hx => List.dropLast_subset (t q) hx) hother ?_
  rw [queueStep, hpop]
  rfl

theorem QueuesInv.popIntermediate {q : κ} {elem : ElementId} (hmem : elem ∈ t q) :
    ∃ s', queueStep s (.popIntermediate q elem) = some (none, s') ∧
      QueueFrame s t (.popIntermediate q elem) s' ∧
      QueuesInv allocated s' (Function.update t q ((t q).erase elem)) := by
  have hqueue := (h.1.queue q).queue
  obtain ⟨l₁, l₂, hnot, hl, herase⟩ := List.exists_erase_eq hmem
  rw [hl] at hqueue
  obtain ⟨E, ends, hpop, hq, hother⟩ := queuePopIntermediateElement_spec hqueue
  rw [← herase] at hq hother
  refine h.remove hq (fun x hx => List.mem_of_mem_erase hx) hother ?_
  rw [queueStep, hpop]
  rfl

end Step

theorem queueStep_spec {allocated : ElementId → Prop} (s : Queues κ) (t : κ → List ElementId)
    (op : QueueOp κ) (h : QueuesInv allocated s t) (hlegal : op.Legal allocated t) :
    ∃ s', queueStep s op = some ((queueSpec t op).1, s') ∧ QueueFrame s t op s' ∧
      QueuesInv allocated s' (queueSpec t op).2 := by
  cases op with
  | add q elem => exact h.add hlegal
  | popHead q => exact h.popHead q
  | popTail q => exact h.popTail q
  | popIntermediate q elem => exact h.popIntermediate hlegal

/-- Over every run the queues are their sequences. The elements start with any links. -/
theorem queues_follow (E : Elements) (ops : List (QueueOp κ))
    (hlegal : Run.Meets (after queueSpec) (fun t op => op.Legal (fun x => (E x).isSome) t)
      (fun _ => []) ops) :
    Follows queueStep queueSpec QueuesHold QueueFrame
      { elements := E, ends := fun _ => ⟨none, none⟩ } (fun _ => []) ops := by
  have hinit : QueuesInv (fun x => (E x).isSome)
      { elements := E, ends := fun _ : κ => ⟨none, none⟩ } fun _ => [] :=
    ⟨⟨fun _ => (isQueue_nil E).pointsTo, fun _ _ _ hx => by cases hx⟩, fun _ hx => hx⟩
  exact .of_meets (QueuesInv fun x => (E x).isSome) (fun _ _ => And.left) queueStep_spec hinit
    hlegal

/-- The middle one of three elements moves to another queue. -/
theorem queues_follow_move :
    Follows queueStep queueSpec QueuesHold QueueFrame
      { elements := fun x => if x < 3 then some ⟨some 7, some 8⟩ else none,
        ends := fun _ : Bool => ⟨none, none⟩ } (fun _ => [])
      [.add true 0, .add true 1, .add true 2, .popIntermediate true 1, .add false 1,
        .popHead true, .popTail true, .popTail true] := by
  refine queues_follow _ _ ?_
  simp only [Run.Meets, after, Option.some.injEq, forall_eq', QueueOp.Legal, queueSpec]
  decide

end LogxControll
