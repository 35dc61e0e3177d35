/-
  The loopbreaker as a trampoline: `lxc_execution_loopbreaker` takes up the tasks it gets one at
  a time, in their order, and never from within the execution of another one.

  `Trampoline.step` runs a call and keeps the books: every submission gets a new `struct qe_task`,
  whose address is its number, and the queue of these is the linked queue of `utils.c`. The
  invariant `Trampoline.Sound` ties the linked queue to the list of `World.loopBreaker`; what a
  call does to the loop is split once, in `Memory.step_cases`.
-/
import LogxControll.Core.References
import LogxControll.Core.Queue
import LogxControll.Execution.Network
import LogxControll.Lib.Run

namespace LogxControll

namespace Memory

/-- The frame of the running loop, if there is one. -/
def loops (m : Memory) : List RunningCall := m.running.filter RunningCall.isLoopbreaker

/-- The task that the call submits to the loopbreaker. -/
def submission (m : Memory) : RefCall → Option QeTask
  | .loopbreaker c => some ⟨c.gate, c.value, c.index⟩
  | .next =>
    match m.running with
    | .propagate w i value :: _ => do
      let wire ← m.world.wires w
      let p ← (wire.drivens[i]?).join
      let tp ← m.world.tokenports p
      let gate ← m.world.gates tp.gate
      if gate.enabled ∧ gate.executionBehavior = some .loopbreaker then
        some ⟨tp.gate, value, tp.index⟩
      else none
    | _ => none
  | _ => none

/-- The frames of a task whose turn it is: its execute function is entered if the gate is
    enabled. -/
def entered (m : Memory) (t : QeTask) : List RunningCall :=
  if (m.world.gates t.instance_).any Gate.enabled then
    [.execute { gate := t.instance_, type := t.value.map LxcValue.type,
                subtype := (t.value.map LxcValue.subtypeInfo).getD 0,
                value := t.value, index := t.index }, .loopbreaker t]
  else [.loopbreaker t]

/-- Nothing happened to the loop. -/
structure SameLoop (m m' : Memory) : Prop where
  loopBreaker : m'.world.loopBreaker = m.world.loopBreaker
  loops : m'.loops = m.loops

theorem SameLoop.refl (m : Memory) : SameLoop m m := ⟨rfl, rfl⟩

theorem SameLoop.trans {m m' m'' : Memory} (h : SameLoop m m') (h' : SameLoop m' m'') :
    SameLoop m m'' :=
  ⟨h'.loopBreaker.trans h.loopBreaker, h'.loops.trans h.loops⟩

section Frame

variable {m m' : Memory} {value : Option LxcValue}

theorem lxcRefdiffValue_cases {n : Int} (h : m.lxcRefdiffValue value n = some m') :
    ∃ heap, m' = { m with heap := heap } := by
  cases value with
  | none => exact ⟨m.heap, (Option.some.inj h).symm⟩
  | some v =>
    simp only [lxcRefdiffValue, Option.bind_eq_bind, Option.bind_eq_some_iff] at h
    obtain ⟨heap, -, h⟩ := h
    exact ⟨heap, (Option.some.inj h).symm⟩

theorem lxcRefdiffValue_sameLoop {n : Int} (h : m.lxcRefdiffValue value n = some m') :
    SameLoop m m' := by
  obtain ⟨heap, rfl⟩ := lxcRefdiffValue_cases h
  exact ⟨rfl, rfl⟩

theorem write_sameLoop {place : Place} (h : m.write value place = some m') : SameLoop m m' := by
  cases place with
  | wire w =>
    simp only [write, Option.bind_eq_bind, Option.bind_eq_some_iff] at h
    obtain ⟨wire, -, h⟩ := h
    obtain rfl := Option.some.inj h
    exact ⟨rfl, rfl⟩
  | location l =>
    simp only [write] at h
    split at h
    · obtain rfl := Option.some.inj h
      exact ⟨rfl, rfl⟩
    · cases h

theorem lxcImportNewValue_sameLoop {place : Place}
    (h : m.lxcImportNewValue value place = some m') : SameLoop m m' := by
  simp only [lxcImportNewValue, Option.bind_eq_bind, Option.bind_eq_some_iff] at h
  obtain ⟨old, -, h⟩ := h
  split at h
  · obtain rfl := Option.some.inj h
    exact .refl m
  · obtain ⟨m₁, href, h⟩ := Option.bind_eq_some_iff.mp h
    obtain ⟨m₂, hunref, h⟩ := Option.bind_eq_some_iff.mp h
    exact ((lxcRefdiffValue_sameLoop href).trans (lxcRefdiffValue_sameLoop hunref)).trans
      (write_sameLoop h)

theorem lxcWipeValue_sameLoop {place : Place} (h : m.lxcWipeValue place = some m') :
    SameLoop m m' := by
  simp only [lxcWipeValue, Option.bind_eq_bind, Option.bind_eq_some_iff] at h
  obtain ⟨old, -, h⟩ := h
  cases old with
  | none =>
    obtain rfl := Option.some.inj h
    exact .refl m
  | some v =>
    obtain ⟨m₁, hunref, h⟩ := Option.bind_eq_some_iff.mp h
    exact (lxcRefdiffValue_sameLoop hunref).trans (write_sameLoop h)

theorem call_sameLoop {c : RunningCall} (hc : c.isLoopbreaker = false) : SameLoop m (m.call c) :=
  ⟨rfl, List.filter_cons_of_neg (by rw [hc]; exact Bool.false_ne_true)⟩

theorem lxcDriveWireValue_sameLoop {w : Option WireId}
    (h : m.lxcDriveWireValue w value = some m') : SameLoop m m' := by
  rcases w with _ | w
  · obtain rfl := Option.some.inj h
    exact .refl m
  rcases value with _ | v
  · obtain rfl := Option.some.inj h
    exact .refl m
  simp only [lxcDriveWireValue, Option.bind_eq_bind, Option.bind_eq_some_iff] at h
  obtain ⟨wire, -, h⟩ := h
  split at h
  · obtain ⟨m₁, himport, h⟩ := Option.bind_eq_some_iff.mp h
    obtain rfl := Option.some.inj h
    exact (lxcImportNewValue_sameLoop himport).trans (call_sameLoop rfl)
  · cases h

theorem lxcWireDestroy_sameLoop {w : WireId} (h : m.lxcWireDestroy w = some m') :
    SameLoop m m' := by
  simp only [lxcWireDestroy, Option.bind_eq_bind, Option.bind_eq_some_iff] at h
  obtain ⟨m₁, himport, h⟩ := h
  obtain rfl := Option.some.inj h
  exact ⟨(lxcImportNewValue_sameLoop himport).loopBreaker,
    (lxcImportNewValue_sameLoop himport).loops⟩

theorem lxcCreateTask_sameLoop {g : GateId} {index : Nat}
    (h : m.lxcCreateTask g value index = some m') : SameLoop m m' := by
  simp only [lxcCreateTask, Option.bind_eq_bind, Option.bind_eq_some_iff] at h
  obtain ⟨m₁, href, h⟩ := h
  obtain rfl := Option.some.inj h
  exact ⟨(lxcRefdiffValue_sameLoop href).loopBreaker, (lxcRefdiffValue_sameLoop href).loops⟩

theorem lxcDoExecute_sameLoop {t : QeTask} (h : m.lxcDoExecute t = some m') : SameLoop m m' := by
  simp only [lxcDoExecute, Option.bind_eq_bind, Option.bind_eq_some_iff] at h
  obtain ⟨gate, -, h⟩ := h
  split at h
  · obtain rfl := Option.some.inj h
    exact call_sameLoop rfl
  · obtain rfl := Option.some.inj h
    exact .refl m

theorem lxcExecuteThenRelease_sameLoop {i : Nat} (h : m.lxcExecuteThenRelease i = some m') :
    SameLoop m m' := by
  simp only [lxcExecuteThenRelease, Option.bind_eq_bind, Option.bind_eq_some_iff] at h
  obtain ⟨t, -, h⟩ := h
  have hcall : SameLoop m (({ m with tasks := m.tasks.eraseIdx i } : Memory).call
      (.executeThenRelease t)) := ⟨rfl, (call_sameLoop rfl).loops⟩
  exact hcall.trans (lxcDoExecute_sameLoop h)

theorem lxcGateSetEnabled_sameLoop {g : GateId} {enabled : Bool}
    (h : m.lxcGateSetEnabled g enabled = some m') : SameLoop m m' := by
  simp only [lxcGateSetEnabled, Option.bind_eq_bind, Option.bind_eq_some_iff] at h
  obtain ⟨gate, -, h⟩ := h
  obtain rfl := Option.some.inj h
  exact ⟨rfl, rfl⟩

end Frame

/-! ## What a call does to the loop -/

section Cases

variable {m m' : Memory}

theorem lxcDoExecute_cases {t : QeTask} {rest : List RunningCall}
    (hrun : m.running = .loopbreaker t :: rest) (h : m.lxcDoExecute t = some m') :
    m'.heap = m.heap ∧ m'.world = m.world ∧ m'.running = m.entered t ++ rest := by
  simp only [lxcDoExecute, Option.bind_eq_bind, Option.bind_eq_some_iff] at h
  obtain ⟨gate, hg, h⟩ := h
  by_cases he : gate.enabled = true
  · rw [if_pos he] at h
    obtain rfl := Option.some.inj h
    refine ⟨rfl, rfl, ?_⟩
    rw [entered, hg, Option.any_some, if_pos he, call, hrun]
    rfl
  · rw [if_neg he] at h
    obtain rfl := Option.some.inj h
    refine ⟨rfl, rfl, ?_⟩
    rw [entered, hg, Option.any_some, if_neg he, hrun]
    rfl

/-- A submission is referenced; it gets its turn at once when no loop is running, and is queued
    otherwise. -/
theorem lxcExecutionLoopbreaker_cases {c : ExecCall} (h : m.lxcExecutionLoopbreaker c = some m') :
    m.lxcReferenceValue c.value = some { m with heap := m'.heap } ∧
    ((m.world.loopBreaker = none ∧ m'.world.loopBreaker = some [] ∧
        m'.running = m.entered ⟨c.gate, c.value, c.index⟩ ++ m.running) ∨
      ∃ queue, m.world.loopBreaker = some queue ∧
        m'.world.loopBreaker = some (queue ++ [⟨c.gate, c.value, c.index⟩]) ∧
        m'.running = m.running) := by
  simp only [lxcExecutionLoopbreaker, Option.bind_eq_bind, Option.bind_eq_some_iff] at h
  obtain ⟨m₁, href, h⟩ := h
  obtain ⟨heap, rfl⟩ := lxcRefdiffValue_cases href
  cases hqueue : m.world.loopBreaker with
  | none =>
    simp only [hqueue] at h
    obtain ⟨hheap, hworld, hrun⟩ := lxcDoExecute_cases rfl h
    refine ⟨?_, .inl ⟨rfl, ?_, ?_⟩⟩
    · rw [hheap]
      exact href
    · rw [hworld]
      rfl
    · rw [hrun]
      rfl
  | some queue =>
    simp only [hqueue] at h
    obtain rfl := Option.some.inj h
    exact ⟨href, .inr ⟨queue, rfl, rfl, rfl⟩⟩

/-- The loop gives back the reference of its task, and takes up the next one or ends. -/
theorem next_loopbreaker_cases {crnt : QeTask} {rest : List RunningCall}
    (h : m.next rest (.loopbreaker crnt) = some m') :
    m.lxcUnreferenceValue crnt.value = some { m with heap := m'.heap } ∧
    ((m.world.loopBreaker = some [] ∧ m'.world.loopBreaker = none ∧ m'.running = rest) ∨
      ∃ t queue, m.world.loopBreaker = some (t :: queue) ∧ m'.world.loopBreaker = some queue ∧
        m'.running = m.entered t ++ rest) := by
  simp only [next, Option.bind_eq_bind, Option.bind_eq_some_iff] at h
  obtain ⟨m₁, hunref, h⟩ := h
  obtain ⟨heap, rfl⟩ := lxcRefdiffValue_cases hunref
  rcases hqueue : m.world.loopBreaker with _ | _ | ⟨t, queue⟩
  · simp [hqueue] at h
  · simp only [hqueue, Option.some.injEq, exists_eq_left'] at h
    obtain rfl := Option.some.inj h
    exact ⟨hunref, .inl ⟨rfl, rfl, rfl⟩⟩
  · simp only [hqueue, Option.some.injEq, exists_eq_left'] at h
    obtain ⟨hheap, hworld, hrun⟩ := lxcDoExecute_cases rfl h
    refine ⟨?_, .inr ⟨t, queue, rfl, ?_, ?_⟩⟩
    · rw [hheap]
      exact hunref
    · rw [hworld]
    · rw [hrun]
      rfl

/-- A call submits a task to the loopbreaker, or is the next step of the loop, or leaves the
    loop alone. -/
theorem step_cases {c : RefCall} (h : m.step c = some m') :
    (∃ e m₁, m.submission c = some ⟨e.gate, e.value, e.index⟩ ∧ SameLoop m m₁ ∧
      m₁.heap = m.heap ∧ m₁.world.gates = m.world.gates ∧
      m₁.lxcExecutionLoopbreaker e = some m') ∨
    (∃ crnt rest, c = .next ∧ m.submission c = none ∧ m.running = .loopbreaker crnt :: rest ∧
      m.next rest (.loopbreaker crnt) = some m') ∨
    (m.submission c = none ∧ (c = .next → ∀ crnt rest, m.running ≠ .loopbreaker crnt :: rest) ∧
      SameLoop m m') := by
  cases c with
  | createValue type data =>
    obtain rfl := Option.some.inj h
    exact .inr (.inr ⟨rfl, fun he => (by cases he), ⟨rfl, rfl⟩⟩)
  | reference value =>
    obtain ⟨m₁, hm₁, rfl⟩ := Option.map_eq_some_iff.mp h
    have hs := lxcRefdiffValue_sameLoop hm₁
    exact .inr (.inr ⟨rfl, fun he => (by cases he), ⟨hs.loopBreaker, hs.loops⟩⟩)
  | unreference value =>
    obtain ⟨m₁, hm₁, rfl⟩ := Option.map_eq_some_iff.mp h
    have hs := lxcRefdiffValue_sameLoop hm₁
    exact .inr (.inr ⟨rfl, fun he => (by cases he), ⟨hs.loopBreaker, hs.loops⟩⟩)
  | importNewValue newVal place =>
    exact .inr (.inr ⟨rfl, fun he => (by cases he), lxcImportNewValue_sameLoop h⟩)
  | wipeValue place => exact .inr (.inr ⟨rfl, fun he => (by cases he), lxcWipeValue_sameLoop h⟩)
  | driveWire w value =>
    exact .inr (.inr ⟨rfl, fun he => (by cases he), lxcDriveWireValue_sameLoop h⟩)
  | wireDestroy w => exact .inr (.inr ⟨rfl, fun he => (by cases he), lxcWireDestroy_sameLoop h⟩)
  | createTask g value index =>
    exact .inr (.inr ⟨rfl, fun he => (by cases he), lxcCreateTask_sameLoop h⟩)
  | executeThenRelease i =>
    exact .inr (.inr ⟨rfl, fun he => (by cases he), lxcExecuteThenRelease_sameLoop h⟩)
  | loopbreaker e => exact .inl ⟨e, m, rfl, .refl m, rfl, rfl, h⟩
  | setEnabled g enabled =>
    exact .inr (.inr ⟨rfl, fun he => (by cases he), lxcGateSetEnabled_sameLoop h⟩)
  | next =>
    unfold step at h
    rcases hrun : m.running with _ | ⟨c, rest⟩
    · rw [hrun] at h
      cases h
    rw [hrun] at h
    have hpop : ∀ m₁ : Memory, m₁.loops = m.loops → c.isLoopbreaker = false →
        m₁.running = m.running → ({ m₁ with running := rest } : Memory).loops = m.loops := by
      intro m₁ _ hc _
      rw [loops, loops, hrun, List.filter_cons_of_neg (by rw [hc]; exact Bool.false_ne_true)]
    cases c with
    | execute e =>
      obtain rfl := Option.some.inj h
      exact .inr (.inr ⟨by rw [submission, hrun], fun _ crnt rest' he => (by cases he),
        ⟨rfl, hpop _ rfl rfl rfl⟩⟩)
    | executeThenRelease t =>
      obtain ⟨m₁, hunref, h⟩ := Option.bind_eq_some_iff.mp h
      obtain ⟨heap, rfl⟩ := lxcRefdiffValue_cases hunref
      obtain rfl := Option.some.inj h
      exact .inr (.inr ⟨by rw [submission, hrun], fun _ crnt rest' he => (by cases he),
        ⟨rfl, hpop m rfl rfl rfl⟩⟩)
    | loopbreaker crnt => exact .inr (.inl ⟨crnt, rest, rfl, by rw [submission, hrun], rfl, h⟩)
    | propagate w i v =>
      have hnot : RefCall.next = .next → ∀ crnt rest',
          RunningCall.propagate w i v :: rest ≠ .loopbreaker crnt :: rest' :=
        fun _ crnt rest' he => by cases he
      simp only [next, Option.bind_eq_bind, Option.bind_eq_some_iff] at h
      obtain ⟨wire, hw, h⟩ := h
      rcases hentry : wire.drivens[i]? with _ | _ | p
      · simp only [hentry] at h
        obtain rfl := Option.some.inj h
        exact .inr (.inr ⟨by simp [submission, hrun, hw, hentry], hnot, ⟨rfl, hpop _ rfl rfl rfl⟩⟩)
      · simp only [hentry] at h
        obtain rfl := Option.some.inj h
        exact .inr (.inr ⟨by simp [submission, hrun, hw, hentry], hnot, ⟨rfl, hpop _ rfl rfl rfl⟩⟩)
      · simp only [hentry] at h
        obtain ⟨tp, htp, h⟩ := Option.bind_eq_some_iff.mp h
        obtain ⟨gate, hg, h⟩ := Option.bind_eq_some_iff.mp h
        have hon : SameLoop m { m with running := .propagate w (i + 1) v :: rest } := by
          refine ⟨rfl, ?_⟩
          rw [loops, loops, hrun, List.filter_cons_of_neg (by simp [RunningCall.isLoopbreaker]),
            List.filter_cons_of_neg (by simp [RunningCall.isLoopbreaker])]
        split at h
        · next b henabled hb =>
          cases b with
          | default =>
            obtain rfl := Option.some.inj h
            refine .inr (.inr ⟨?_, hnot, hon.trans (call_sameLoop rfl)⟩)
            simp [submission, hrun, hw, hentry, htp, hg, hb]
          | loopbreaker =>
            refine .inl ⟨_, _, ?_, hon, rfl, rfl, h⟩
            simp [submission, hrun, hw, hentry, htp, hg, hb, henabled]
        · next hoff =>
          obtain rfl := Option.some.inj h
          refine .inr (.inr ⟨?_, hnot, hon⟩)
          simp only [submission, hrun, hw, hentry, htp, hg, Option.bind_eq_bind, Option.bind_some,
            Option.join_some]
          rw [if_neg]
          rintro ⟨henabled, hb⟩
          exact hoff _ henabled hb

end Cases

end Memory

/-! ## The books -/

/-- `submitted` are the submissions, `taken` the elements whose turn came, in order; `released`
    counts the tasks that gave their reference back. -/
structure Trampoline where
  memory : Memory
  elements : Elements
  queue : QueueEnds
  submitted : List QeTask
  taken : List ElementId
  released : Nat

namespace Trampoline

/-- Nothing was submitted. -/
def start (m : Memory) : Trampoline where
  memory := m
  elements := fun _ => none
  queue := ⟨none, none⟩
  submitted := []
  taken := []
  released := 0

/-- `create_qe_task` of the next submission. -/
def malloc (s : Trampoline) : Elements :=
  Function.update s.elements s.submitted.length (some ⟨none, none⟩)

/-- A call, with the queue functions it uses. -/
def step (s : Trampoline) (c : RefCall) : Option Trampoline := do
  let memory ← s.memory.step c
  match s.memory.submission c, s.memory.world.loopBreaker with
  | some t, none =>
    return { s with
      memory := memory, elements := s.malloc, queue := ⟨none, none⟩,
      submitted := s.submitted ++ [t], taken := s.taken ++ [s.submitted.length] }
  | some t, some _ =>
    let (elements, queue) ← queueAddElement s.malloc s.queue s.submitted.length
    return { s with
      memory := memory, elements := elements, queue := queue, submitted := s.submitted ++ [t] }
  | none, _ =>
    match c, s.memory.running with
    | .next, .loopbreaker _ :: _ =>
      let (e, elements, queue) ← queuePopHeadElement s.elements s.queue
      return { s with
        memory := memory, elements := elements, queue := queue,
        taken := s.taken ++ e.toList, released := s.released + 1 }
    | _, _ => return { s with memory := memory }

/-- The elements that wait are those that were not taken up. -/
structure Sound (s : Trampoline) : Prop where
  order : s.taken = List.range s.taken.length
  le : s.taken.length ≤ s.submitted.length
  allocated : ∀ e < s.submitted.length, (s.elements e).isSome
  loop : (s.memory.world.loopBreaker = none ∧ s.memory.loops = [] ∧
      s.taken.length = s.submitted.length ∧ s.released = s.submitted.length) ∨
    ∃ t, s.memory.world.loopBreaker = some (s.submitted.drop s.taken.length) ∧
      s.memory.loops = [.loopbreaker t] ∧ s.taken.length = s.released + 1 ∧
      s.submitted[s.released]? = some t ∧
      IsQueue s.elements s.queue
        (List.range' s.taken.length (s.submitted.length - s.taken.length))

/-- The submissions are taken up one at a time, in the order in which they were made; when the
    outermost call has returned, all of them were, and none keeps a reference. -/
structure Fifo (s : Trampoline) : Prop where
  order : s.taken = List.range s.taken.length
  le : s.taken.length ≤ s.submitted.length
  depth : s.memory.loops.length ≤ 1
  current : ∀ t, .loopbreaker t ∈ s.memory.running →
    s.taken.length = s.released + 1 ∧ s.submitted[s.released]? = some t
  null : s.memory.world.loopBreaker = none ↔ s.memory.loops = []
  returned : s.memory.loops = [] →
    s.taken.length = s.submitted.length ∧ s.released = s.submitted.length

/-- What the books say of one call: a submission is referenced; a turn comes in order, when no
    other task is being executed, and enters the execute function if the gate is enabled; a task
    is released when its turn is over. -/
structure Booked (s : Trampoline) (c : RefCall) (s' : Trampoline) : Prop where
  submitted : s'.submitted = s.submitted ++ (s.memory.submission c).toList
  referenced : ∀ t, s.memory.submission c = some t →
    (s.memory.lxcReferenceValue t.value).map Memory.heap = some s'.memory.heap
  turn : s'.taken = s.taken ∨ ∃ t rest, s'.taken = s.taken ++ [s.taken.length] ∧
    s'.submitted[s.taken.length]? = some t ∧ s'.memory.running = s.memory.entered t ++ rest ∧
    rest.filter RunningCall.isLoopbreaker = []
  released : s'.released = s.released ∨ ∃ t rest, s'.released = s.released + 1 ∧
    s.submitted[s.released]? = some t ∧ s.memory.running = .loopbreaker t :: rest ∧
    (s.memory.lxcUnreferenceValue t.value).map Memory.heap = some s'.memory.heap

end Trampoline

section Step

open Memory

variable {s : Trampoline} {c : RefCall} {m : Memory}

theorem lxcReferenceValue_heap {m m₁ : Memory} {value : Option LxcValue} {heap}
    (hheap : m₁.heap = m.heap) (h : m₁.lxcReferenceValue value = some { m₁ with heap := heap }) :
    (m.lxcReferenceValue value).map Memory.heap = some heap := by
  cases value with
  | none =>
    have := congrArg Memory.heap (Option.some.inj h)
    exact congrArg some (hheap.symm.trans this)
  | some v =>
    simp only [lxcReferenceValue, lxcRefdiffValue, Option.bind_eq_bind,
      Option.bind_eq_some_iff] at h ⊢
    obtain ⟨heap', hadjust, h⟩ := h
    have := congrArg Memory.heap (Option.some.inj h)
    rw [← hheap, hadjust]
    exact congrArg some this

theorem malloc_allocated (h : s.Sound) : ∀ e < s.submitted.length + 1, (s.malloc e).isSome := by
  intro e he
  unfold Trampoline.malloc
  by_cases heq : e = s.submitted.length
  · rw [heq, Function.update_self]
    rfl
  · rw [Function.update_of_ne heq]
    exact h.allocated e (by omega)

theorem entered_filter (m : Memory) (t : QeTask) :
    (m.entered t).filter RunningCall.isLoopbreaker = [.loopbreaker t] := by
  unfold entered
  split <;> rfl

/-- A submission while no loop runs: its turn comes at once. -/
theorem step_first (h : s.Sound) {t : QeTask} (hsub : s.memory.submission c = some t)
    (hstep : s.memory.step c = some m) (hqueue : s.memory.world.loopBreaker = none)
    (hrun : ∃ rest, m.running = s.memory.entered t ++ rest ∧
      rest.filter RunningCall.isLoopbreaker = s.memory.loops)
    (hempty : m.world.loopBreaker = some [])
    (href : (s.memory.lxcReferenceValue t.value).map Memory.heap = some m.heap) :
    ∃ s', s.step c = some s' ∧ s'.memory = m ∧ s'.Sound ∧ s.Booked c s' := by
  have hloop := h.loop
  simp only [hqueue, reduceCtorEq, false_and, exists_false, or_false, true_and] at hloop
  obtain ⟨hloops, hlen, hrel⟩ := hloop
  obtain ⟨rest, hrun, hrest⟩ := hrun
  rw [hloops] at hrest
  refine ⟨{ s with
    memory := m, elements := s.malloc, queue := ⟨none, none⟩, submitted := s.submitted ++ [t],
    taken := s.taken ++ [s.submitted.length] }, ?_, rfl, ?_, ?_⟩
  · simp only [Trampoline.step, hstep, hsub, hqueue, Option.bind_eq_bind, Option.bind_some]
    rfl
  · refine ⟨?_, ?_, ?_, .inr ⟨t, ?_, ?_, ?_, ?_, ?_⟩⟩
    · rw [List.length_append, List.length_singleton, List.range_succ, ← h.order, hlen]
    · simp [hlen]
    · intro e he
      exact malloc_allocated h e (by simpa using he)
    · rw [hempty, List.length_append, List.length_singleton, hlen,
        List.drop_eq_nil_of_le (by simp)]
    · rw [Memory.loops, hrun, List.filter_append, entered_filter, hrest]
      rfl
    · simp [hlen, hrel]
    · simp [hrel]
    · simp only [List.length_append, List.length_singleton, hlen, Nat.sub_self]
      exact isQueue_nil _
  · refine ⟨by rw [hsub]; rfl, fun t' ht' => ?_, .inr ⟨t, rest, ?_, ?_, hrun, hrest⟩, .inl rfl⟩
    · obtain rfl := Option.some.inj (hsub.symm.trans ht')
      exact href
    · rw [hlen]
    · simp [hlen]

/-- A submission while a loop runs: it is queued. -/
theorem step_enqueue (h : s.Sound) {t : QeTask} {queue : List QeTask}
    (hsub : s.memory.submission c = some t) (hstep : s.memory.step c = some m)
    (hqueue : s.memory.world.loopBreaker = some queue)
    (hqueue' : m.world.loopBreaker = some (queue ++ [t])) (hloops : m.loops = s.memory.loops)
    (href : (s.memory.lxcReferenceValue t.value).map Memory.heap = some m.heap) :
    ∃ s', s.step c = some s' ∧ s'.memory = m ∧ s'.Sound ∧ s.Booked c s' := by
  have hloop := h.loop
  simp only [hqueue, reduceCtorEq, false_and, false_or, Option.some.injEq] at hloop
  obtain ⟨crnt, rfl, hcrnt, hlen, hget, hq⟩ := hloop
  have hle := h.le
  have hq' : IsQueue s.malloc s.queue
      (List.range' s.taken.length (s.submitted.length - s.taken.length)) := by
    refine hq.congr fun e he => Function.update_of_ne (Nat.ne_of_lt ?_) _ _
    have := (List.mem_range'_1.mp he).2
    omega
  obtain ⟨elements, q, hadd, hadded, hother⟩ := queueAddElement_spec (x := s.submitted.length) hq'
    (malloc_allocated h _ (Nat.lt_succ_self _))
    (fun he => by have := (List.mem_range'_1.mp he).2; omega)
  have hrange : List.range' s.taken.length (s.submitted.length - s.taken.length) ++
      [s.submitted.length] =
        List.range' s.taken.length (s.submitted.length + 1 - s.taken.length) := by
    rw [show s.submitted.length + 1 - s.taken.length =
      s.submitted.length - s.taken.length + 1 by omega, List.range'_concat]
    congr 2
    omega
  rw [hrange] at hadded
  refine ⟨{ s with
    memory := m, elements := elements, queue := q, submitted := s.submitted ++ [t] }, ?_, rfl,
    ?_, ?_⟩
  · simp only [Trampoline.step, hstep, hsub, hqueue, hadd, Option.bind_eq_bind, Option.bind_some]
    rfl
  · refine ⟨h.order, ?_, ?_, .inr ⟨crnt, ?_, hloops.trans hcrnt, hlen, ?_, ?_⟩⟩
    · show s.taken.length ≤ (s.submitted ++ [t]).length
      rw [List.length_append]
      omega
    · intro e he
      show (elements e).isSome
      by_cases hmem : e ∈ List.range' s.taken.length (s.submitted.length + 1 - s.taken.length)
      · exact hadded.allocated hmem
      · have hne : e ≠ s.submitted.length := by
          rintro rfl
          exact hmem (List.mem_range'_1.mpr (by omega))
        have hnot : e ∉ List.range' s.taken.length (s.submitted.length - s.taken.length) := by
          intro hmem'
          have := List.mem_range'_1.mp hmem'
          exact hmem (List.mem_range'_1.mpr (by omega))
        rw [hother e hnot hne]
        exact malloc_allocated h e (by simpa using he)
    · rw [hqueue', List.drop_append_of_le_length hle]
    · show (s.submitted ++ [t])[s.released]? = some crnt
      rw [List.getElem?_append_left (by omega)]
      exact hget
    · simp only [List.length_append, List.length_singleton]
      exact hadded
  · refine ⟨by rw [hsub]; rfl, fun t' ht' => ?_, .inl rfl, .inl rfl⟩
    obtain rfl := Option.some.inj (hsub.symm.trans ht')
    exact href

/-- The next step of the loop: its task is released, and the next one is taken up. -/
theorem step_loop (h : s.Sound) {crnt : QeTask} {rest : List RunningCall}
    (hrun : s.memory.running = .loopbreaker crnt :: rest)
    (hstep : s.memory.step .next = some m)
    (hnext : s.memory.next rest (.loopbreaker crnt) = some m) :
    ∃ s', s.step .next = some s' ∧ s'.memory = m ∧ s'.Sound ∧ s.Booked .next s' := by
  have hloops : s.memory.loops = .loopbreaker crnt :: rest.filter RunningCall.isLoopbreaker := by
    rw [Memory.loops, hrun]
    exact List.filter_cons_of_pos rfl
  have hsub : s.memory.submission .next = none := by
    simp [submission, hrun]
  obtain ⟨hunref, hnext⟩ := next_loopbreaker_cases hnext
  have hreleased : (s.memory.lxcUnreferenceValue crnt.value).map Memory.heap = some m.heap := by
    rw [hunref]
    rfl
  obtain ⟨-, hnil, -⟩ | ⟨t, hqueue, hloop, hlen, hget, hq⟩ := h.loop
  · rw [hloops] at hnil
    cases hnil
  rw [hloops] at hloop
  obtain ⟨ht, hrest⟩ := List.cons.inj hloop
  obtain rfl : crnt = t := RunningCall.loopbreaker.inj ht
  have hle := h.le
  obtain ⟨elements, q, hpop, hpopped, hother⟩ := queuePopHeadElement_spec hq
  have hallocated : ∀ e < s.submitted.length, (elements e).isSome := by
    intro e he
    by_cases hmem : e ∈ (List.range' s.taken.length
        (s.submitted.length - s.taken.length)).tail
    · exact hpopped.allocated hmem
    · rw [hother e hmem]
      exact h.allocated e he
  rcases hnext with ⟨hempty, hnull, hrun'⟩ | ⟨t', queue, hnonempty, hqueue', hrun'⟩
  · rw [hempty, Option.some.injEq, eq_comm, List.drop_eq_nil_iff] at hqueue
    have hall : s.taken.length = s.submitted.length := by omega
    rw [hall, Nat.sub_self] at hpop
    refine ⟨{ s with
      memory := m, elements := elements, queue := q, released := s.released + 1 }, ?_, rfl, ?_, ?_⟩
    · simp only [Trampoline.step, hstep, hsub, hrun, hpop, Option.bind_eq_bind, Option.bind_some]
      simp
    · refine ⟨h.order, hle, hallocated, .inl ⟨hnull, ?_, hall, ?_⟩⟩
      · rw [Memory.loops, hrun', hrest]
      · show s.released + 1 = s.submitted.length
        omega
    · exact ⟨by simp [hsub], fun t' ht' => (by rw [hsub] at ht'; cases ht'), .inl rfl,
        .inr ⟨crnt, rest, rfl, hget, hrun, hreleased⟩⟩
  · have hlt : s.taken.length < s.submitted.length := by
      by_contra hge
      rw [hnonempty, List.drop_eq_nil_of_le (by omega)] at hqueue
      cases hqueue
    rw [hnonempty, Option.some.injEq, List.drop_eq_getElem_cons hlt] at hqueue
    obtain ⟨ht', hdrop⟩ := List.cons.inj hqueue
    obtain ⟨k, hk⟩ : ∃ k, s.submitted.length - s.taken.length = k + 1 := ⟨_, by
      exact (Nat.sub_add_cancel (Nat.sub_pos_of_lt hlt)).symm⟩
    rw [hk, List.range'_succ] at hpop hpopped
    refine ⟨{ s with
      memory := m, elements := elements, queue := q, taken := s.taken ++ [s.taken.length],
      released := s.released + 1 }, ?_, rfl, ?_, ?_⟩
    · simp only [Trampoline.step, hstep, hsub, hrun, hpop, Option.bind_eq_bind, Option.bind_some]
      rfl
    · refine ⟨?_, ?_, hallocated, .inr ⟨t', ?_, ?_, ?_, ?_, ?_⟩⟩
      · rw [List.length_append, List.length_singleton, List.range_succ, ← h.order]
      · simpa using hlt
      · rw [hqueue', hdrop]
        simp
      · rw [Memory.loops, hrun', List.filter_append, entered_filter, hrest]
        rfl
      · simp [hlen]
      · show s.submitted[s.released + 1]? = some t'
        rw [← hlen, List.getElem?_eq_getElem hlt, ht']
      · simp only [List.length_append, List.length_singleton]
        rw [show s.submitted.length - (s.taken.length + 1) = k by omega]
        exact hpopped
    · refine ⟨by simp [hsub], fun t' ht' => (by rw [hsub] at ht'; cases ht'),
        .inr ⟨t', rest, rfl, ?_, hrun', hrest⟩, .inr ⟨crnt, rest, rfl, hget, hrun, hreleased⟩⟩
      rw [List.getElem?_eq_getElem hlt, ht']

/-- Every call of the memory keeps the books sound. -/
theorem step_sound (h : s.Sound) (hstep : s.memory.step c = some m) :
    ∃ s', s.step c = some s' ∧ s'.memory = m ∧ s'.Sound ∧ s.Booked c s' := by
  rcases step_cases hstep with ⟨e, m₁, hsub, hsame, hheap, hgates, hcall⟩ |
    ⟨crnt, rest, rfl, hsub, hrun, hnext⟩ | ⟨hsub, hnot, hsame⟩
  · obtain ⟨href, ⟨hqueue, hqueue', hrun⟩ | ⟨queue, hqueue, hqueue', hrun⟩⟩ :=
      lxcExecutionLoopbreaker_cases hcall
    · refine step_first h hsub hstep (hsame.loopBreaker ▸ hqueue) ⟨m₁.running, ?_, hsame.loops⟩
        hqueue' (lxcReferenceValue_heap hheap href)
      rw [hrun, entered, entered, hgates]
    · refine step_enqueue h hsub hstep (hsame.loopBreaker ▸ hqueue) hqueue' ?_
        (lxcReferenceValue_heap hheap href)
      rw [Memory.loops, hrun]
      exact hsame.loops
  · exact step_loop h hrun hstep hnext
  · refine ⟨{ s with memory := m }, ?_, rfl, ⟨h.order, h.le, h.allocated, ?_⟩, ?_⟩
    · simp only [Trampoline.step, hstep, hsub, Option.bind_eq_bind, Option.bind_some]
      split
      · next crnt rest hrun => exact absurd hrun (hnot rfl crnt rest)
      · rfl
    · simp only [hsame.loopBreaker, hsame.loops]
      exact h.loop
    · exact ⟨by simp [hsub], fun t' ht' => (by rw [hsub] at ht'; cases ht'), .inl rfl, .inl rfl⟩

theorem Trampoline.Sound.fifo (h : s.Sound) : s.Fifo := by
  have hcurrent : ∀ t, .loopbreaker t ∈ s.memory.running → .loopbreaker t ∈ s.memory.loops :=
    fun t ht => List.mem_filter.mpr ⟨ht, rfl⟩
  rcases h.loop with ⟨hnull, hloops, hlen, hrel⟩ | ⟨t, hsome, hloops, hlen, hget, -⟩
  · refine ⟨h.order, h.le, ?_, fun t ht => ?_, ?_, fun _ => ⟨hlen, hrel⟩⟩
    · rw [hloops]
      exact Nat.zero_le 1
    · have := hcurrent t ht
      rw [hloops] at this
      cases this
    · rw [hnull, hloops]
      exact iff_of_true rfl rfl
  · refine ⟨h.order, h.le, ?_, fun t' ht' => ?_, ?_, fun hnil => ?_⟩
    · rw [hloops]
      exact Nat.le_refl 1
    · have := hcurrent t' ht'
      rw [hloops, List.mem_singleton] at this
      rw [RunningCall.loopbreaker.inj this]
      exact ⟨hlen, hget⟩
    · rw [hsome, hloops]
      exact iff_of_false (Option.some_ne_none _) (List.cons_ne_nil _ _)
    · rw [hloops] at hnil
      cases hnil

theorem start_sound {m : Memory} (hq : m.world.loopBreaker = none) (hl : m.loops = []) :
    (Trampoline.start m).Sound :=
  ⟨rfl, Nat.le_refl 0, fun e he => absurd he (Nat.not_lt_zero e), .inl ⟨hq, hl, rfl, rfl⟩⟩

theorem run_sound {calls : List RefCall} :
    ∀ {s : Trampoline} {m : Memory}, s.Sound → Run.run Memory.step s.memory calls = some m →
      ∃ s', Run.run Trampoline.step s calls = some s' ∧ s'.memory = m ∧ s'.Sound := by
  induction calls with
  | nil =>
    intro s m h hrun
    exact ⟨s, rfl, Option.some.inj hrun, h⟩
  | cons c calls ih =>
    intro s m h hrun
    rw [Run.run_cons, Option.bind_eq_some_iff] at hrun
    obtain ⟨m₁, hstep, hrun⟩ := hrun
    obtain ⟨s₁, hstep₁, rfl, h₁, -⟩ := step_sound h hstep
    obtain ⟨s', hrun', hm, h'⟩ := ih h₁ hrun
    exact ⟨s', by rw [Run.run_cons, hstep₁]; exact hrun', hm, h'⟩

/-- Every run of calls can be booked, with the linked queue, and the books show a FIFO. -/
theorem loopbreaker_fifo {m m' : Memory} (hq : m.world.loopBreaker = none) (hl : m.loops = [])
    {calls : List RefCall} (hrun : Run.run Memory.step m calls = some m') :
    ∃ s, Run.run Trampoline.step (Trampoline.start m) calls = some s ∧ s.memory = m' ∧ s.Fifo ∧
      ∀ c m'', m'.step c = some m'' → ∃ s', s.step c = some s' ∧ s'.memory = m'' ∧
        s.Booked c s' := by
  obtain ⟨s, hrun', rfl, h⟩ := run_sound (start_sound hq hl) hrun
  refine ⟨s, hrun', rfl, h.fifo, fun c m'' hstep => ?_⟩
  obtain ⟨s', hstep', hm, -, hbooked⟩ := step_sound h hstep
  exact ⟨s', hstep', hm, hbooked⟩

end Step

/-- The inverter is executed by the loopbreaker and submits itself once more. -/
def resubmitCalls : List RefCall :=
  let c := ⟨1, some .bool, 0, some lxcBoolConstantValueTrue, 0⟩
  [.loopbreaker c, .loopbreaker c, .next, .next, .next, .next]

theorem loopbreaker_fifo_nandNot :
    ∃ s, Run.run Trampoline.step
        (Trampoline.start (nandNot .directPropagateValue .loopbreaker).memory) resubmitCalls =
          some s ∧ s.Fifo ∧ s.taken = [0, 1] ∧ s.released = 2 := by
  obtain ⟨m, hrun⟩ : ∃ m, Run.run Memory.step
      (nandNot .directPropagateValue .loopbreaker).memory resubmitCalls = some m := ⟨_, rfl⟩
  obtain ⟨s, hrun', -, hfifo, -⟩ := loopbreaker_fifo rfl rfl hrun
  refine ⟨s, hrun', hfifo, ?_, ?_⟩
  · obtain rfl := Option.some.inj hrun'
    rfl
  · obtain rfl := Option.some.inj hrun'
    rfl

end LogxControll
