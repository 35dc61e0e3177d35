/-
  How many threads a worker pool has: as many as were in the list of the busy ones at once.

  No thread of a pool ends before the shutdown, and `wp_submit_task` makes a new one only when the
  list of the free ones is empty. The count is of threads in the list: a thread that became idle
  stays in it until it gets `pool_lock` in its callback, and a submission that comes first makes a
  new thread.
-/
import LogxControll.Threads.PoolExit

namespace LogxControll

namespace WorkerPool

/-- The length of the list of the busy threads. -/
def busyThreads (pool : WorkerPool) : Option Nat :=
  (elementsFrom pool.elements pool.nextThread pool.busy.head).map List.length

variable {pool pool' : WorkerPool}

theorem shutdownNext_nextThread {busy : Bool} {el : ElementId}
    (hstep : pool.shutdownNext busy el = some pool') : pool'.nextThread = pool.nextThread := by
  obtain ⟨e, -, hstep⟩ := Option.bind_eq_some_iff.mp hstep
  obtain rfl := Option.some.inj hstep
  rfl

theorem holder_nextThread (hstep : pool.holder = some pool') :
    pool'.nextThread = pool.nextThread := by
  unfold WorkerPool.holder at hstep
  split at hstep
  · cases hstep
  · obtain ⟨th, -, hstep⟩ := Option.bind_eq_some_iff.mp hstep
    split at hstep <;> obtain rfl := Option.some.inj hstep <;> rfl
  · simp only [Option.bind_eq_bind, Option.bind_eq_some_iff] at hstep
    obtain ⟨th, -, thread, -, hstep⟩ := hstep
    obtain rfl := Option.some.inj hstep
    rfl
  · obtain rfl := Option.some.inj hstep
    rfl
  · obtain rfl := Option.some.inj hstep
    rfl
  · obtain rfl := Option.some.inj hstep
    rfl
  · split at hstep
    · obtain ⟨th, -, hstep⟩ := Option.bind_eq_some_iff.mp hstep
      split at hstep
      · obtain rfl := Option.some.inj hstep
        rfl
      · obtain rfl := Option.some.inj hstep
        rfl
      · have hnext := shutdownNext_nextThread hstep
        exact hnext
    · exact shutdownNext_nextThread hstep
  · simp only [Option.bind_eq_bind, Option.bind_eq_some_iff] at hstep
    obtain ⟨th, -, thread, -, hstep⟩ := hstep
    have hnext := shutdownNext_nextThread hstep
    exact hnext

theorem submitTo_nextThread {use : ElementId} {task : Task}
    (hstep : submitTo use task pool = some pool') : pool'.nextThread = pool.nextThread := by
  simp only [submitTo, Option.bind_eq_bind, Option.bind_eq_some_iff] at hstep
  obtain ⟨r, -, th, -, hstep⟩ := hstep
  obtain rfl := Option.some.inj hstep
  rfl

end WorkerPool

namespace PoolSound

variable {pool pool' : WorkerPool} {fl bl : List ElementId}

theorem length_add (h : PoolSound pool fl bl) : fl.length + bl.length = pool.nextThread := by
  rw [← List.length_append, h.listed.length_eq, List.length_range]

theorem busyThreads_eq (h : PoolSound pool fl bl) : pool.busyThreads = some bl.length := by
  have hle : bl.length ≤ pool.nextThread := by
    rw [← h.length_add]
    exact Nat.le_add_left ..
  have hbusy := elementsFrom_spec h.busy.linked hle
  rw [← h.busy.head] at hbusy
  rw [WorkerPool.busyThreads, hbusy]
  rfl

/-- A thread is created when no thread is free, and is busy at once. -/
theorem wpSubmitTask_nextThread (h : PoolSound pool fl bl) (hlock : pool.lock = .free)
    {task : Task} {created : Bool} (hstep : pool.wpSubmitTask task created = some pool') :
    pool'.nextThread = pool.nextThread ∨
      pool'.nextThread = pool.nextThread + 1 ∧ pool'.busyThreads = some pool'.nextThread := by
  unfold WorkerPool.wpSubmitTask at hstep
  split at hstep
  · obtain rfl := Option.some.inj hstep
    exact .inl rfl
  · next havailable =>
    rw [not_not] at havailable
    obtain ⟨E₁, free, hpop, -, -⟩ := queuePopTailElement_spec h.free
    simp only [hpop, Option.bind_eq_bind, Option.bind_some] at hstep
    rcases List.eq_nil_or_concat' fl with rfl | ⟨l, use, rfl⟩
    · rw [List.getLast?_nil] at hstep
      cases created with
      | false =>
        obtain rfl := Option.some.inj hstep
        exact .inl rfl
      | true =>
        have h' := h.submitNew havailable hlock hstep
        refine .inr ⟨WorkerPool.submitTo_nextThread hstep, ?_⟩
        rw [h'.busyThreads_eq, ← h'.length_add, List.length_nil, Nat.zero_add]
    · rw [List.getLast?_concat] at hstep
      have hnext := WorkerPool.submitTo_nextThread hstep
      exact .inl hnext

theorem step_nextThread (h : PoolSound pool fl bl) {c : PoolSection} (hc : c ≠ .destroy)
    (hstep : pool.step c = some pool') :
    pool'.nextThread = pool.nextThread ∨
      pool'.nextThread = pool.nextThread + 1 ∧ pool'.busyThreads = some pool'.nextThread := by
  cases c with
  | submit task created =>
    obtain ⟨hlock, -, hstep⟩ := WorkerPool.locked_eq_some hstep
    exact h.wpSubmitTask_nextThread hlock hstep
  | shutdown =>
    obtain ⟨-, -, hstep⟩ := WorkerPool.locked_eq_some hstep
    obtain rfl := Option.some.inj hstep
    unfold WorkerPool.wpShutdown
    split <;> exact .inl rfl
  | holder => exact .inl (WorkerPool.holder_nextThread hstep)
  | executor k =>
    obtain ⟨th, th', -, -, -, -, -, -, -, hnext, -⟩ := WorkerPool.executor_threads hstep
    exact .inl hnext
  | getStatus =>
    obtain ⟨-, -, hstep⟩ := WorkerPool.locked_eq_some hstep
    obtain rfl := Option.some.inj hstep
    exact .inl rfl
  | waitExit =>
    obtain ⟨-, -, hstep⟩ := WorkerPool.locked_eq_some hstep
    unfold WorkerPool.wpWaitExit at hstep
    split at hstep
    · obtain rfl := Option.some.inj hstep
      exact .inl rfl
    · obtain ⟨exited, -, rfl⟩ := WorkerPool.waitExitPoll_eq_some hstep
      exact .inl rfl
  | poll =>
    obtain ⟨-, -, hstep⟩ := WorkerPool.locked_eq_some hstep
    split at hstep
    · obtain ⟨exited, -, rfl⟩ := WorkerPool.waitExitPoll_eq_some hstep
      exact .inl rfl
    · cases hstep
  | destroy => exact absurd rfl hc

end PoolSound

/-- The number of the threads that a pool has created is the greatest number of threads that were
    in the list of the busy ones, along every run. -/
theorem pool_threads_needed {sections : List PoolSection} {pool : WorkerPool}
    (hsections : .destroy ∉ sections)
    (hrun : Run.run WorkerPool.step .wpInit sections = some pool) :
    IsGreatest {n | ∃ before pool₁, before <+: sections ∧
      Run.run WorkerPool.step .wpInit before = some pool₁ ∧ pool₁.busyThreads = some n}
      pool.nextThread := by
  have hok : ∀ c ∈ sections, c ≠ .destroy := fun _ hc => ne_of_mem_of_not_mem hc hsections
  refine (Run.run_isGreatest (fun pool => ∃ fl bl, PoolSound pool fl bl) ?_ ?_
    ⟨[], [], wpInit_sound⟩ rfl hok hrun).2
  · rintro pool₁ n ⟨fl, bl, h⟩ hn
    obtain rfl := Option.some.inj (h.busyThreads_eq.symm.trans hn)
    rw [← h.length_add]
    exact Nat.le_add_left ..
  · rintro pool₁ c pool₂ ⟨fl, bl, h⟩ hc hstep
    refine ⟨h.step hc hstep, ?_⟩
    rcases h.step_nextThread hc hstep with heq | ⟨hrise, hbusy⟩
    · exact .inl heq
    · exact .inr ⟨hrise ▸ Nat.le_succ _, hbusy⟩

/-- A second task is submitted before the thread of the first has come back to the free list, and a
    third one after. -/
def threeTasks : List PoolSection :=
  [.submit (7, some 42) true] ++ List.replicate 3 .holder ++ List.replicate 8 (.executor 0) ++
    [.submit (8, none) true] ++ List.replicate 3 .holder ++ List.replicate 2 (.executor 0) ++
    [.submit (9, none) true]

theorem pool_threads_needed_threeTasks :
    ∃ pool, Run.run WorkerPool.step .wpInit threeTasks = some pool ∧
      IsGreatest {n | ∃ before pool₁, before <+: threeTasks ∧
        Run.run WorkerPool.step .wpInit before = some pool₁ ∧ pool₁.busyThreads = some n}
        pool.nextThread ∧ pool.nextThread = 2 := by
  have hend : (Run.run WorkerPool.step .wpInit threeTasks).map WorkerPool.nextThread = some 2 := rfl
  obtain ⟨pool, hrun, hnext⟩ := Option.map_eq_some_iff.mp hend
  exact ⟨pool, hrun, pool_threads_needed (by decide) hrun, hnext⟩

end LogxControll
