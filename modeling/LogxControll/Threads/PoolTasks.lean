/-
  No task of a worker pool is lost or called twice, whichever threads submit and whoever gets
  `pool_lock` next.

  `PoolSound` is the invariant of a pool whose lists are `fl` and `bl`. It says of every thread
  which of its tasks was not called yet, and of the holder of the lock what it relies on. A thread
  that became idle keeps waiting for the lock in its callback, so the notification of a task never
  finds its thread in the next wait.
-/
import LogxControll.Threads.WorkerPool

namespace LogxControll

/-! ## One thread of a pool -/

/-- The executor is in none of the sections of a job. -/
def Executor.Resting : Executor → Prop
  | .waitForJob | .checkState | .aboutToWait | .waiting | .notified | .aboutToUnlock | .woken
  | .leaving | .exited => True
  | _ => False

/-- The executor does not wait any more. -/
def Executor.Woken : Executor → Prop
  | .notified | .aboutToUnlock | .woken => True
  | _ => False

/-- The local `param` of an executor that is in a job, or behind it. -/
def Executor.current : Executor → Option (Option Nat)
  | .inJob _ p | .clearRun _ p | .clearParameter _ p | .afterJob _ p | .becameIdle _ p => some p
  | _ => none

/-- The call of a task. -/
def taskCall (task : Task) : Option Nat × Option Nat := (some task.1, task.2)

namespace PoolThread

/-- Of the tasks that thread `k` was given, the last is `job`, which was not called, or all were
    called. -/
def Owes (th : PoolThread) (k : ElementId) (tasks : List Task) : Option Job → Prop
  | none => tasks.map taskCall = th.called
  | some job => job = (.workerPoolExecFunction, some k) ∧ ∃ task : Task,
      th.executor = some task.1 ∧ th.param = task.2 ∧
      tasks.map taskCall = th.called ++ [taskCall task]

/-- Thread `k` was given `tasks`. -/
structure Sound (th : PoolThread) (k : ElementId) (tasks : List Task) : Prop where
  job : ∃ job, Phase th.thread job ∧ th.Owes k tasks job
  started : th.thread.status ≠ .initalized
  current : ∀ p, th.thread.executor.current = some p → p = some k
  woken : th.thread.executor.Woken → th.thread.status ≠ .idle
  becameIdle : ∀ f p, th.thread.executor = .becameIdle f p → Phase th.thread none

/-- The thread has nothing to do. -/
structure Resting (th : PoolThread) : Prop where
  executor : th.thread.executor.Resting
  phase : Phase th.thread none

variable {th : PoolThread} {k : ElementId} {tasks : List Task} {thread : RerunnableThread}

theorem Sound.owes_none (h : th.Sound k tasks) (hphase : Phase th.thread none) :
    tasks.map taskCall = th.called := by
  obtain ⟨job, hjob, howes⟩ := h.job
  obtain rfl : job = none := hjob.job_eq.trans hphase.job_eq.symm
  exact howes

end PoolThread

namespace Phase

variable {rrt rrt' : RerunnableThread} {job : Option Job}

theorem ended (h : Phase rrt job) : rrt.Ended := by
  intro hs
  cases h with
  | fresh | free | poisoned | leaving => cases hs
  | exited => rfl
  | assigned _ hstatus _ | read hstatus _ | working hstatus | clearRun hstatus
  | clearParameter hstatus | afterJob hstatus =>
    rcases hstatus with rfl | rfl <;> cases hs

theorem none_of_exited (h : Phase rrt job) (hs : rrt.status = .exited) : job = none := by
  cases h with
  | fresh | free | poisoned | leaving => cases hs
  | exited => rfl
  | working | clearRun | clearParameter | afterJob => rfl
  | assigned _ hstatus _ | read hstatus _ => rcases hstatus with rfl | rfl <;> cases hs

theorem eq_of_beforeJob (h : Phase rrt job) {f : Option JobFunction} {p : Option Nat}
    (he : rrt.executor = .beforeJob f p) :
    ∃ g, f = some g ∧ job = some (g, p) ∧ rrt.status.Taken := by
  cases h with
  | fresh => cases he
  | free hout | poisoned hout | assigned hout =>
    obtain rfl : _ = Executor.beforeJob f p := he
    exact hout.elim
  | read hstatus _ =>
    obtain ⟨rfl, rfl⟩ := Executor.beforeJob.inj he
    exact ⟨_, rfl, rfl, hstatus⟩
  | working | clearRun | clearParameter | afterJob | leaving | exited => cases he

/-- What a step of the executor does to the status. -/
theorem executorFunction_status (h : Phase rrt job) (hstep : rrt.executorFunction = some rrt') :
    rrt'.status = rrt.status ∨
    (rrt.status = .busy ∧ rrt'.status = .idle ∧ ∃ f p, rrt'.executor = .becameIdle f p) ∨
    (rrt.status = .shutdownRequested ∧ rrt'.status = .exited) := by
  unfold RerunnableThread.executorFunction at hstep
  cases h with
  | fresh | exited => cases hstep
  | free | assigned | poisoned | afterJob =>
    grind [RerunnableThreadState.Taken, Executor.Outside]
  | read | working | clearRun | clearParameter =>
    obtain rfl := Option.some.inj hstep
    exact .inl rfl
  | leaving =>
    obtain rfl := Option.some.inj hstep
    exact .inr (.inr ⟨rfl, rfl⟩)

/-- Behind the job, the executor makes no call. -/
theorem executorFunction_of_no_call (h : Phase rrt job)
    (hstep : rrt.executorFunction = some rrt') (hwoken : rrt.executor.Woken → rrt.status ≠ .idle)
    (hno : ∀ f p, rrt.executor ≠ .beforeJob f p) : Phase rrt' job := by
  have hcalls : rrt.calls = [] := by
    unfold RerunnableThread.calls
    split
    · next he => exact absurd he (hno _ _)
    · rfl
  rcases h.executorFunction hstep with ⟨job', hphase', heq⟩ | ⟨he, hidle, -, -⟩
  · rw [hcalls, List.nil_append] at heq
    obtain rfl : job' = job := by
      cases job' <;> cases job <;> simp_all [Prod.ext_iff]
    exact hphase'
  · exact absurd hidle (hwoken (he ▸ trivial))

end Phase

namespace RerunnableThread

variable {rrt rrt' : RerunnableThread}

theorem executorFunction_current (hstep : rrt.executorFunction = some rrt') {p : Option Nat}
    (hp : rrt'.executor.current = some p) :
    rrt.executor.current = some p ∨ ∃ f, rrt.executor = .beforeJob (some f) p := by
  unfold executorFunction at hstep
  split at hstep <;> grind [Executor.current]

/-- An executor that does not wait finds that the thread is not idle, or was woken before. -/
theorem executorFunction_woken (hwoken : rrt.executor.Woken → rrt.status ≠ .idle)
    (hstep : rrt.executorFunction = some rrt') (he : rrt'.executor.Woken) :
    rrt'.status ≠ .idle := by
  unfold executorFunction at hstep
  split at hstep <;> grind [Executor.Woken]

theorem executorFunction_becameIdle (hstep : rrt.executorFunction = some rrt')
    {f : JobFunction} {p : Option Nat} (he : rrt'.executor = .becameIdle f p) :
    rrt.executor = .afterJob f p := by
  unfold executorFunction at hstep
  split at hstep <;> grind

/-- From one wait to the next without a job, or to the end. -/
theorem executorFunction_resting (hstep : rrt.executorFunction = some rrt')
    (hrest : rrt.executor.Resting) :
    rrt'.executor.Resting ∨ ∃ f p, rrt'.executor = .beforeJob f p := by
  unfold executorFunction at hstep
  split at hstep <;> grind [Executor.Resting]

/-- A thread is notified when it waits, or the notification is lost. -/
theorem notifyJob_cases (hstep : rrt.notifyJob = some rrt') :
    rrt' = rrt ∨ rrt.executor = .waiting ∧ rrt' = { rrt with executor := .notified } := by
  unfold notifyJob at hstep
  grind

end RerunnableThread

namespace PoolThread

variable {th : PoolThread} {k : ElementId} {tasks : List Task} {thread : RerunnableThread}

/-- A step of the executor that is no call. -/
theorem Sound.executorFunction (h : th.Sound k tasks)
    (hstep : th.thread.executorFunction = some thread)
    (hno : ∀ f p, th.thread.executor ≠ .beforeJob f p) :
    { th with thread := thread }.Sound k tasks := by
  obtain ⟨job, hphase, howes⟩ := h.job
  have hphase' := hphase.executorFunction_of_no_call hstep h.woken hno
  refine ⟨⟨job, hphase', by cases job <;> exact howes⟩, fun hs => ?_, fun p hp => ?_,
    RerunnableThread.executorFunction_woken h.woken hstep, fun f p he => ?_⟩
  · rcases hphase.executorFunction_status hstep with heq | ⟨-, heq, -⟩ | ⟨-, heq⟩
    · exact h.started (heq.symm.trans hs)
    · cases heq.symm.trans hs
    · cases heq.symm.trans hs
  · rcases RerunnableThread.executorFunction_current hstep hp with hp | ⟨f, he⟩
    · exact h.current p hp
    · exact absurd he (hno _ _)
  · have hafter := RerunnableThread.executorFunction_becameIdle hstep he
    have hjob := hphase.job_eq
    simp only [RerunnableThread.job, hafter] at hjob
    exact hjob ▸ hphase'

/-- The executor calls its task. -/
theorem Sound.calls (h : th.Sound k tasks) {f : Option JobFunction} {p : Option Nat}
    (he : th.thread.executor = .beforeJob f p) :
    f = some .workerPoolExecFunction ∧ p = some k ∧ th.executor.isSome ∧
    ({ th with thread := { th.thread with executor := .inJob .workerPoolExecFunction (some k) }
               called := th.called ++ [(th.executor, th.param)] } : PoolThread).Sound k tasks := by
  obtain ⟨job, hphase, howes⟩ := h.job
  obtain ⟨g, rfl, rfl, hstatus⟩ := hphase.eq_of_beforeJob he
  obtain ⟨hjob, task, htask, hparam, htasks⟩ := howes
  obtain ⟨rfl, rfl⟩ := Prod.mk.inj hjob
  refine ⟨rfl, rfl, by rw [htask]; rfl, ⟨none, ?_, ?_⟩, h.started, fun p hp => ?_,
    fun he => he.elim, fun f p he => ?_⟩
  · exact .working hstatus
  · show tasks.map taskCall = th.called ++ [(th.executor, th.param)]
    rw [htasks, htask, hparam]
    rfl
  · exact (Option.some.inj hp).symm
  · cases he

theorem Resting.executorFunction (hr : th.Resting) (h : th.Sound k tasks)
    (hstep : th.thread.executorFunction = some thread) : { th with thread := thread }.Resting := by
  have hno : ∀ f p, th.thread.executor ≠ .beforeJob f p := fun f p he =>
    (he ▸ hr.executor : (Executor.beforeJob f p).Resting)
  have hphase' := hr.phase.executorFunction_of_no_call hstep h.woken hno
  refine ⟨(RerunnableThread.executorFunction_resting hstep hr.executor).resolve_right ?_, hphase'⟩
  intro ⟨f, p, he⟩
  obtain ⟨g, -, hjob, -⟩ := hphase'.eq_of_beforeJob he
  cases hjob

/-- A resting thread of an available pool is idle. -/
theorem Resting.idle (hr : th.Resting)
    (hs : th.thread.status = .idle ∨ th.thread.status = .busy) : th.thread.status = .idle := by
  obtain ⟨hexecutor, hphase⟩ := hr
  revert hexecutor hs
  generalize th.thread = rrt at hphase
  intro hs hexecutor
  cases hphase with
  | fresh | free | poisoned | leaving | exited =>
    rcases hs with hs | hs
    · exact hs
    · cases hs
  | working | clearRun | clearParameter | afterJob => exact hexecutor.elim

theorem Sound.setTask (h : th.Sound k tasks) (hr : th.Resting) (executor param : Option Nat) :
    { th with executor := executor, param := param }.Sound k tasks :=
  ⟨⟨none, hr.phase, h.owes_none hr.phase⟩, h.started, h.current, h.woken, h.becameIdle⟩

theorem Sound.notifyJob (h : th.Sound k tasks) (hstep : th.thread.notifyJob = some thread)
    (hwait : th.thread.executor = .waiting → th.thread.status ≠ .idle) :
    { th with thread := thread }.Sound k tasks := by
  rcases RerunnableThread.notifyJob_cases hstep with rfl | ⟨he, rfl⟩
  · exact h
  · obtain ⟨job, hphase, howes⟩ := h.job
    refine ⟨⟨job, hphase.notifyJob hstep, by cases job <;> exact howes⟩, h.started,
      fun p hp => ?_, fun _ => hwait he, fun f p he => ?_⟩
    · cases hp
    · cases he

theorem Resting.notifyJob (hr : th.Resting) (hstep : th.thread.notifyJob = some thread) :
    { th with thread := thread }.Resting := by
  refine ⟨?_, hr.phase.notifyJob hstep⟩
  rcases RerunnableThread.notifyJob_cases hstep with rfl | ⟨-, rfl⟩
  · exact hr.executor
  · trivial

theorem Sound.rrtGracefulShutdown (h : th.Sound k tasks) :
    { th with thread := th.thread.rrtGracefulShutdown.2 }.Sound k tasks := by
  obtain ⟨job, hphase, howes⟩ := h.job
  refine ⟨⟨job, hphase.rrtGracefulShutdown, by cases job <;> exact howes⟩,
    RerunnableThread.rrtGracefulShutdown_started h.started, fun p hp => ?_, fun he => ?_,
    fun f p he => (h.becameIdle f p ?_).rrtGracefulShutdown⟩
  · rw [RerunnableThread.rrtGracefulShutdown_executor] at hp
    exact h.current p hp
  · rw [RerunnableThread.rrtGracefulShutdown_executor] at he
    rcases th.thread.rrtGracefulShutdown_status with heq | heq
    · rw [heq]
      exact h.woken he
    · rw [heq]
      simp
  · rwa [RerunnableThread.rrtGracefulShutdown_executor] at he

theorem Resting.rrtGracefulShutdown (hr : th.Resting) :
    { th with thread := th.thread.rrtGracefulShutdown.2 }.Resting := by
  refine ⟨?_, hr.phase.rrtGracefulShutdown⟩
  rw [RerunnableThread.rrtGracefulShutdown_executor]
  exact hr.executor

/-- A resting thread that is idle takes the task. -/
theorem Sound.rrtTryRerunIfFree (h : th.Sound k tasks) (hr : th.Resting) {task : Task}
    (hexecutor : th.executor = some task.1) (hparam : th.param = task.2)
    (hidle : th.thread.status = .idle) :
    ∃ thread, th.thread.rrtTryRerunIfFree .workerPoolExecFunction (some k) = (true, thread) ∧
      thread.status = .busy ∧ { th with thread := thread }.Sound k (tasks ++ [task]) := by
  have htry : th.thread.rrtTryRerunIfFree .workerPoolExecFunction (some k) =
      (true, ⟨.busy, some .workerPoolExecFunction, some k, th.thread.executor⟩) := by
    rw [RerunnableThread.rrtTryRerunIfFree, if_pos hidle]
  obtain ⟨-, hphase⟩ := hr.phase.rrtTryRerunIfFree (by simp) htry
  refine ⟨_, htry, rfl, ⟨_, hphase, rfl, task, hexecutor, hparam, ?_⟩, ?_, ?_, ?_, ?_⟩
  · rw [List.map_append, h.owes_none hr.phase]
    rfl
  · simp
  · exact h.current
  · intro _
    simp
  · intro f p he
    exact absurd hr.executor (by rw [show th.thread.executor = _ from he]; exact id)

end PoolThread

/-! ## The pool -/

/-- The thread that is given a task, but is idle still. -/
def PoolLock.rerunning : PoolLock → Option ElementId
  | .submitRerun use _ => some use
  | _ => none

/-- The accepted task whose submission has not returned. -/
def PoolLock.returning : PoolLock → List Task
  | .submitNotify _ task | .submitReturn task true => [task]
  | _ => []

namespace WorkerPool

/-- The tasks that were assigned to thread `k`. -/
def tasksOf (pool : WorkerPool) (k : ElementId) : List Task :=
  pool.assigned.filterMap fun a => if a.1 = k then some a.2 else none

/-- The tasks of the submissions that returned 0. -/
def succeeded (pool : WorkerPool) : List Task :=
  pool.returned.filterMap fun r => if r.2 = .success then some r.1 else none

theorem locked_eq_some {pool pool' : WorkerPool} {x : Option WorkerPool}
    (h : pool.locked x = some pool') :
    pool.lock = .free ∧ pool.destroyed = false ∧ x = some pool' := by
  unfold locked at h
  split at h
  · next hfree => exact ⟨hfree.1, by simpa using hfree.2, h⟩
  · cases h

theorem waitExitPoll_eq_some {pool pool' : WorkerPool} (h : waitExitPoll pool = some pool') :
    ∃ exited, pool.isAllExited = some exited ∧ pool' = { pool with polling := !exited } := by
  obtain ⟨exited, hexited, h⟩ := Option.bind_eq_some_iff.mp h
  exact ⟨exited, hexited, (Option.some.inj h).symm⟩

/-- What the holder of the lock relies on. -/
def LockSound (pool : WorkerPool) (bl : List ElementId) : Prop :=
  match pool.lock with
  | .free => True
  | .submitRerun use task => pool.status = .available ∧ use ∈ bl ∧ ∃ th,
      pool.threads use = some th ∧ th.Resting ∧ th.executor = some task.1 ∧ th.param = task.2
  | .submitNotify use _ => use ∈ bl
  | .submitReturn _ ret => ret = true
  | .shutdown _ _ _ => pool.status ≠ .available
  | .shutdownNotify _ el => pool.status ≠ .available ∧ ∀ th, pool.threads el = some th →
      th.thread.status ≠ .idle ∧ th.thread.status ≠ .busy

end WorkerPool

/-- Thread `k` in a pool with the lists `fl` and `bl`. -/
structure ThreadSound (pool : WorkerPool) (fl bl : List ElementId) (k : ElementId)
    (th : PoolThread) : Prop where
  sound : th.Sound k (pool.tasksOf k)
  resting : k ∈ fl → th.Resting
  working : k ∈ bl → th.thread.status = .idle → pool.lock.rerunning ≠ some k →
    ∃ f p, th.thread.executor = .becameIdle f p
  available : pool.status = .available → th.thread.status = .idle ∨ th.thread.status = .busy

/-- The lists hold every thread once, each thread has a job its list allows, and the calls that
    returned say what happened. -/
structure PoolSound (pool : WorkerPool) (fl bl : List ElementId) : Prop where
  free : IsQueue pool.elements pool.free fl
  busy : IsQueue pool.elements pool.busy bl
  listed : (fl ++ bl).Perm (List.range pool.nextThread)
  created : ∀ k, (pool.threads k).isSome ↔ k < pool.nextThread
  threads : ∀ k th, pool.threads k = some th → ThreadSound pool fl bl k th
  lock : pool.LockSound bl
  assigned : ∀ a ∈ pool.assigned, a.1 < pool.nextThread
  submitted : pool.assigned.map Prod.snd = pool.succeeded ++ pool.lock.returning
  returned : ∀ r ∈ pool.returned, r.2 ≠ .resourceBusy

theorem ThreadSound.congr {pool pool' : WorkerPool} {fl bl fl' bl' : List ElementId}
    {k : ElementId} {th : PoolThread} (h : ThreadSound pool fl bl k th)
    (htasks : pool'.tasksOf k = pool.tasksOf k) (hfl : k ∈ fl' → k ∈ fl) (hbl : k ∈ bl' → k ∈ bl)
    (hlock : pool.lock.rerunning = some k → pool'.lock.rerunning = some k)
    (hstatus : pool'.status = .available → pool.status = .available) :
    ThreadSound pool' fl' bl' k th where
  sound := htasks ▸ h.sound
  resting := fun hk => h.resting (hfl hk)
  working := fun hk hidle hne => h.working (hbl hk) hidle fun heq => hne (hlock heq)
  available := fun ha => h.available (hstatus ha)

theorem wpInit_sound : PoolSound .wpInit [] [] where
  free := isQueue_nil _
  busy := isQueue_nil _
  listed := .refl _
  created := fun _ => ⟨fun h => (by cases h), fun h => absurd h (Nat.not_lt_zero _)⟩
  threads := fun _ _ h => (by cases h)
  lock := trivial
  assigned := fun _ h => (by cases h)
  submitted := rfl
  returned := fun _ h => (by cases h)

namespace PoolSound

variable {pool pool' : WorkerPool} {fl bl fl' bl' : List ElementId} {k : ElementId}
  {th th' : PoolThread}

theorem nodup (h : PoolSound pool fl bl) : (fl ++ bl).Nodup :=
  h.listed.nodup_iff.mpr List.nodup_range

theorem mem_iff (h : PoolSound pool fl bl) : k ∈ fl ∨ k ∈ bl ↔ (pool.threads k).isSome := by
  rw [← List.mem_append, h.listed.mem_iff, List.mem_range, h.created]

theorem mem_busy (h : PoolSound pool fl bl) (hk : pool.threads k = some th)
    (hrest : ¬ th.Resting) : k ∈ bl := by
  have hmem := h.mem_iff.mpr (by rw [hk]; rfl)
  exact hmem.resolve_left fun hfl => hrest ((h.threads k th hk).resting hfl)

/-- One thread is written, created or moved, and the lock handed on. -/
theorem update (h : PoolSound pool fl bl) {elements : Elements} {free busy : QueueEnds}
    {nextThread : ElementId} {lock : PoolLock} {assigned : List (ElementId × Task)}
    (hpool : pool' = { pool with elements := elements, free := free, busy := busy
                                 threads := Function.update pool.threads k (some th')
                                 nextThread := nextThread, lock := lock, assigned := assigned })
    (hfree : IsQueue elements free fl') (hbusy : IsQueue elements busy bl')
    (hlisted : (fl' ++ bl').Perm (List.range nextThread))
    (hcreated : ∀ j, j = k ∨ j < pool.nextThread ↔ j < nextThread)
    (hth : ThreadSound pool' fl' bl' k th')
    (hother : ∀ j, j ≠ k → (j ∈ fl' → j ∈ fl) ∧ (j ∈ bl' → j ∈ bl) ∧
      pool'.tasksOf j = pool.tasksOf j ∧
      (pool.lock.rerunning = some j → lock.rerunning = some j))
    (hsound : pool'.LockSound bl') (hassigned : ∀ a ∈ assigned, a.1 < nextThread)
    (hsubmitted : assigned.map Prod.snd = pool.succeeded ++ lock.returning) :
    PoolSound pool' fl' bl' := by
  subst hpool
  refine ⟨hfree, hbusy, hlisted, fun j => ?_, fun j x hj => ?_, hsound, hassigned, hsubmitted,
    h.returned⟩
  · dsimp only
    rw [← hcreated, ← h.created]
    by_cases hjk : j = k
    · simp [hjk]
    · simp [hjk]
  · by_cases hjk : j = k
    · subst hjk
      obtain rfl : th' = x := by simpa using hj
      exact hth
    · have hj' : pool.threads j = some x := by simpa [hjk] using hj
      obtain ⟨hfl, hbl, htasks, hlock⟩ := hother j hjk
      exact (h.threads j x hj').congr htasks hfl hbl hlock id

/-- One thread is written, and the lock handed on. -/
theorem setThread (h : PoolSound pool fl bl) (hk : pool.threads k = some th)
    {lock : PoolLock} {assigned : List (ElementId × Task)}
    (hpool : pool' = { pool with threads := Function.update pool.threads k (some th')
                                 lock := lock, assigned := assigned })
    (hth : ThreadSound pool' fl bl k th')
    (hother : ∀ j, j ≠ k → pool'.tasksOf j = pool.tasksOf j ∧
      (pool.lock.rerunning = some j → lock.rerunning = some j))
    (hsound : pool'.LockSound bl) (hassigned : ∀ a ∈ assigned, a.1 < pool.nextThread)
    (hsubmitted : assigned.map Prod.snd = pool.succeeded ++ lock.returning) :
    PoolSound pool' fl bl := by
  refine h.update hpool h.free h.busy h.listed (fun j => ?_) hth
    (fun j hj => ⟨id, id, hother j hj⟩) hsound hassigned hsubmitted
  refine ⟨fun hj => ?_, .inr⟩
  rcases hj with rfl | hj
  · exact (h.created j).mp (by rw [hk]; rfl)
  · exact hj

/-- No list and no thread is written. -/
theorem congr (h : PoolSound pool fl bl) {status : WorkerPoolStatus} {lock : PoolLock}
    {polling : Bool} {returned : List (Task × SubmitResult)}
    {reported : List (WorkerPoolStatus × Bool)}
    (hpool : pool' = { pool with status := status, lock := lock, polling := polling
                                 returned := returned, reported := reported })
    (hstatus : status = .available → pool.status = .available)
    (hlock : ∀ j, pool.lock.rerunning = some j → lock.rerunning = some j)
    (hsound : pool'.LockSound bl)
    (hsubmitted : pool.assigned.map Prod.snd = pool'.succeeded ++ lock.returning)
    (hreturned : ∀ r ∈ returned, r.2 ≠ .resourceBusy) : PoolSound pool' fl bl := by
  subst hpool
  exact ⟨h.free, h.busy, h.listed, h.created,
    fun j x hj => (h.threads j x hj).congr rfl id id (hlock j) hstatus, hsound, h.assigned,
    hsubmitted, hreturned⟩

/-! ### The executors -/

/-- What the holder of the lock relies on, when an executor goes on. -/
theorem lockSound_setThread (h : PoolSound pool fl bl) (hk : pool.threads k = some th)
    (hexecutor : th'.executor = th.executor) (hparam : th'.param = th.param)
    (hrest : th.Resting → th'.Resting)
    (hstopped : th.thread.status ≠ .idle ∧ th.thread.status ≠ .busy →
      th'.thread.status ≠ .idle ∧ th'.thread.status ≠ .busy) :
    (pool.setThread k th').LockSound bl := by
  have hsound := h.lock
  cases hlock : pool.lock with
  | free => simp [WorkerPool.LockSound, WorkerPool.setThread, hlock]
  | submitRerun use task =>
    simp only [WorkerPool.LockSound, WorkerPool.setThread, hlock] at hsound ⊢
    obtain ⟨havailable, huse, x, hx, hxrest, hxexecutor, hxparam⟩ := hsound
    refine ⟨havailable, huse, ?_⟩
    by_cases hku : use = k
    · subst hku
      obtain rfl : th = x := Option.some.inj (hk.symm.trans hx)
      exact ⟨th', Function.update_self .., hrest hxrest, hexecutor.trans hxexecutor,
        hparam.trans hxparam⟩
    · exact ⟨x, (Function.update_of_ne hku ..).trans hx, hxrest, hxexecutor, hxparam⟩
  | submitNotify use task =>
    simpa only [WorkerPool.LockSound, WorkerPool.setThread, hlock] using hsound
  | submitReturn task ret =>
    simpa only [WorkerPool.LockSound, WorkerPool.setThread, hlock] using hsound
  | shutdown busy el i =>
    simpa only [WorkerPool.LockSound, WorkerPool.setThread, hlock] using hsound
  | shutdownNotify busy el =>
    simp only [WorkerPool.LockSound, WorkerPool.setThread, hlock] at hsound ⊢
    refine ⟨hsound.1, fun x hx => ?_⟩
    by_cases hke : el = k
    · subst hke
      obtain rfl : th' = x := by simpa using hx
      exact hstopped (hsound.2 th hk)
    · exact hsound.2 x (by simpa [hke] using hx)

/-- What a step of the executor of a thread must keep, beside its own soundness. -/
theorem setExecutor (h : PoolSound pool fl bl) (hk : pool.threads k = some th)
    (hsound : th'.Sound k (pool.tasksOf k)) (hexecutor : th'.executor = th.executor)
    (hparam : th'.param = th.param) (hrest : th.Resting → th'.Resting)
    (hno : ∀ f p, th.thread.executor ≠ .becameIdle f p)
    (hstatus : th'.thread.status = th.thread.status ∨
      (th.thread.status = .busy ∧ th'.thread.status = .idle ∧
        ∃ f p, th'.thread.executor = .becameIdle f p) ∨
      (th.thread.status = .shutdownRequested ∧ th'.thread.status = .exited)) :
    PoolSound (pool.setThread k th') fl bl := by
  have hth := h.threads k th hk
  refine h.setThread hk rfl
    ⟨hsound, fun hfl => hrest (hth.resting hfl), fun hbl hs hne => ?_, fun ha => ?_⟩
    (fun j _ => ⟨rfl, id⟩) (h.lockSound_setThread hk hexecutor hparam hrest ?_) h.assigned
    h.submitted
  · rcases hstatus with hsame | ⟨-, -, hbecame⟩ | ⟨-, hexited⟩
    · obtain ⟨f, p, he⟩ := hth.working hbl (hsame ▸ hs) hne
      exact absurd he (hno f p)
    · exact hbecame
    · cases hs.symm.trans hexited
  · have hav := hth.available ha
    grind
  · grind

/-- `on_release` moves a thread that became idle from the busy list to the free one. -/
theorem onRelease (h : PoolSound pool fl bl) (hk : pool.threads k = some th)
    {f : JobFunction} {p : Option Nat} (he : th.thread.executor = .becameIdle f p)
    (hlock : pool.lock = .free) (hstep : pool.onRelease k th p = some pool') :
    ∃ fl' bl', PoolSound pool' fl' bl' := by
  have hth := h.threads k th hk
  obtain rfl : p = some k := hth.sound.current p (by rw [he]; rfl)
  have hbl : k ∈ bl := h.mem_busy hk fun hr => by
    have := hr.executor
    rw [he] at this
    exact this
  obtain ⟨l₁, l₂, rfl⟩ := List.append_of_mem hbl
  obtain ⟨hnfl, hnbl, hdisj⟩ := List.nodup_append.mp h.nodup
  have hnk : k ∉ l₁ ++ l₂ := (List.nodup_cons.mp (List.nodup_middle.mp hnbl)).1
  have hkfl : k ∉ fl := fun hkfl => hdisj k hkfl k (by simp) rfl
  have hdisj' : ∀ y ∈ fl, y ∉ l₁ ++ l₂ := fun y hy hy' =>
    hdisj y hy y (List.mem_append.mpr ((List.mem_append.mp hy').imp_right (List.mem_cons_of_mem k)))
      rfl
  -- out of the busy list
  obtain ⟨E₁, busy, hpop, hbusy, hother₁⟩ := queuePopIntermediateElement_spec h.busy
  have hfree₁ : IsQueue E₁ pool.free fl := h.free.congr fun y hy => hother₁ y (hdisj' y hy)
  have halloc : (E₁ k).isSome := by
    rw [hother₁ k hnk]
    exact h.busy.allocated hbl
  -- into the free list
  obtain ⟨E₂, free, hadd, hfree, hother₂⟩ := queueAddElement_spec hfree₁ halloc hkfl
  have hbusy₂ : IsQueue E₂ busy (l₁ ++ l₂) := hbusy.congr fun y hy =>
    hother₂ y (fun hyfl => hdisj' y hyfl hy) fun hyk => hnk (hyk ▸ hy)
  have hexec : th.thread.executorFunction = some { th.thread with executor := .waitForJob } := by
    rw [RerunnableThread.executorFunction, he]
  simp only [WorkerPool.onRelease, hpop, hadd, hexec, Option.bind_eq_bind, Option.bind_some]
    at hstep
  obtain rfl := Option.some.inj hstep
  have hno : ∀ f p, th.thread.executor ≠ .beforeJob f p := fun f p hbefore => by
    rw [he] at hbefore
    cases hbefore
  have hphase := (hth.sound.becameIdle f _ he).executorFunction_of_no_call hexec hth.sound.woken hno
  have hperm : (fl ++ [k] ++ (l₁ ++ l₂)).Perm (fl ++ (l₁ ++ k :: l₂)) := by
    have hmiddle : (k :: (l₁ ++ l₂)).Perm (l₁ ++ k :: l₂) := List.perm_middle.symm
    rw [List.append_assoc]
    exact hmiddle.append_left fl
  refine ⟨fl ++ [k], l₁ ++ l₂, h.update (k := k) rfl hfree hbusy₂ (hperm.trans h.listed)
    (fun j => ⟨?_, .inr⟩) ⟨?_, fun _ => ⟨trivial, hphase⟩, fun hkbl => absurd hkbl hnk,
      hth.available⟩ (fun j hj => ⟨?_, ?_, rfl, id⟩) ?_ h.assigned h.submitted⟩
  · rintro (rfl | hj)
    · exact (h.created j).mp (by rw [hk]; rfl)
    · exact hj
  · exact hth.sound.executorFunction hexec hno
  · intro hjfl
    exact (List.mem_append.mp hjfl).resolve_right fun hjk => hj (List.mem_singleton.mp hjk)
  · intro hjbl
    exact List.mem_append.mpr ((List.mem_append.mp hjbl).imp_right (List.mem_cons_of_mem k))
  · simp only [WorkerPool.LockSound, WorkerPool.setThread, hlock]

/-- The lists stay as they are while the lock is held. -/
theorem executor (h : PoolSound pool fl bl) (hstep : pool.executor k = some pool') :
    ∃ fl' bl', PoolSound pool' fl' bl' ∧ (pool.lock ≠ .free → fl' = fl ∧ bl' = bl) := by
  simp only [WorkerPool.executor, Option.bind_eq_bind, Option.bind_eq_some_iff] at hstep
  obtain ⟨th, hk, hstep⟩ := hstep
  have hth := h.threads k th hk
  split at hstep
  · next p he =>
    obtain ⟨-, rfl, hisSome, hsound⟩ := hth.sound.calls he
    have hexec : th.thread.executorFunction =
        some { th.thread with executor := .inJob .workerPoolExecFunction (some k) } := by
      rw [RerunnableThread.executorFunction, he]
    simp only [WorkerPool.workerPoolExecFunction, Option.bind_eq_bind, Option.bind_some, hk,
      hisSome, if_true, hexec] at hstep
    obtain rfl := Option.some.inj hstep
    refine ⟨fl, bl, h.setExecutor hk hsound rfl rfl (fun hr => ?_) (fun f p hbecame => ?_)
      (.inl rfl), fun _ => ⟨rfl, rfl⟩⟩
    · have hexecutor := hr.executor
      rw [he] at hexecutor
      exact hexecutor.elim
    · rw [he] at hbecame
      cases hbecame
  · next f p he =>
    split at hstep
    · next hlock =>
      obtain ⟨fl', bl', h'⟩ := h.onRelease hk he hlock hstep
      exact ⟨fl', bl', h', fun hne => absurd hlock hne⟩
    · cases hstep
  · next hnocall hnobecame =>
    obtain ⟨thread, hexec, hstep⟩ := Option.bind_eq_some_iff.mp hstep
    obtain rfl := Option.some.inj hstep
    have hno : ∀ f p, th.thread.executor ≠ .beforeJob f p := fun f p he => by
      obtain ⟨rfl, -⟩ := hth.sound.calls he
      exact hnocall p he
    obtain ⟨job, hphase, -⟩ := hth.sound.job
    exact ⟨fl, bl, h.setExecutor hk (hth.sound.executorFunction hexec hno) rfl rfl
      (fun hr => hr.executorFunction hth.sound hexec) hnobecame
      (hphase.executorFunction_status hexec), fun _ => ⟨rfl, rfl⟩⟩

/-! ### Submission -/

/-- A thread of the free list, or a new one, is given a task. -/
theorem submitTo (h : PoolSound pool fl bl) {elements : Elements} {free : QueueEnds}
    {threads : ElementId → Option PoolThread} {nextThread : ElementId} {use : ElementId}
    {task : Task} {x : PoolThread} (hfree : IsQueue elements free fl')
    (hbusy : IsQueue elements pool.busy bl) (halloc : (elements use).isSome)
    (hlisted : (fl' ++ (bl ++ [use])).Perm (List.range nextThread))
    (hthreads : ∀ th, Function.update threads use (some th) =
      Function.update pool.threads use (some th))
    (hcreated : ∀ j, j = use ∨ j < pool.nextThread ↔ j < nextThread)
    (huse : threads use = some x) (hsound : x.Sound use (pool.tasksOf use)) (hrest : x.Resting)
    (hidle : x.thread.status = .idle) (hsub : ∀ j ∈ fl', j ∈ fl)
    (havailable : pool.status = .available) (hlock : pool.lock = .free)
    (hstep : WorkerPool.submitTo use task { pool with elements := elements, free := free
                                                      threads := threads
                                                      nextThread := nextThread } = some pool') :
    PoolSound pool' fl' (bl ++ [use]) := by
  have hnodup : (fl' ++ (bl ++ [use])).Nodup := hlisted.nodup_iff.mpr List.nodup_range
  obtain ⟨hnfl, hnbl, hdisj⟩ := List.nodup_append.mp hnodup
  have hubl : use ∉ bl := fun hubl => (List.nodup_append.mp hnbl).2.2 use hubl use (by simp) rfl
  have hufl : use ∉ fl' := fun hufl => hdisj use hufl use (by simp) rfl
  obtain ⟨E, busy, hadd, hbusy', hother⟩ := queueAddElement_spec hbusy halloc hubl
  have hfree' : IsQueue E free fl' := hfree.congr fun y hy =>
    hother y (fun hybl => hdisj y hy y (List.mem_append_left _ hybl) rfl) fun hyu => hufl (hyu ▸ hy)
  simp only [WorkerPool.submitTo, hadd, huse, Option.bind_eq_bind, Option.bind_some] at hstep
  have hpool : pool' = { pool with
      elements := E, free := free, busy := busy
      threads := Function.update pool.threads use
        (some { x with executor := some task.1, param := task.2 })
      nextThread := nextThread, lock := .submitRerun use task, assigned := pool.assigned } := by
    rw [← Option.some.inj hstep]
    simp only [WorkerPool.setThread, hthreads]
  subst hpool
  refine h.update rfl hfree' hbusy' hlisted hcreated
    ⟨hsound.setTask hrest _ _, fun hu => absurd hu hufl, fun _ _ hne => absurd rfl hne,
      fun _ => .inl hidle⟩ (fun j hj => ⟨hsub j, fun hjbl => ?_, rfl, fun hj' => ?_⟩) ?_
    (fun a ha => (hcreated _).mp (.inr (h.assigned a ha))) ?_
  · exact (List.mem_append.mp hjbl).resolve_right fun hju => hj (List.mem_singleton.mp hju)
  · rw [hlock] at hj'
    cases hj'
  · exact ⟨havailable, by simp, _, Function.update_self .., ⟨hrest.executor, hrest.phase⟩, rfl, rfl⟩
  · rw [h.submitted, hlock]
    rfl

theorem tasksOf_nextThread (h : PoolSound pool fl bl) : pool.tasksOf pool.nextThread = [] := by
  refine List.filterMap_eq_nil_iff.mpr fun a ha => if_neg fun heq => ?_
  exact absurd (h.assigned a ha) (by rw [heq]; exact Nat.lt_irrefl _)

/-- The free list is empty, and a new thread gets the task. -/
theorem submitNew (h : PoolSound pool [] bl) (havailable : pool.status = .available)
    (hlock : pool.lock = .free) {task : Task}
    (hstep : WorkerPool.submitTo pool.nextThread task (WorkerPool.newPoolThread true pool).2 =
      some pool') : PoolSound pool' [] (bl ++ [pool.nextThread]) := by
  have hnew : ∀ y ∈ bl, y ≠ pool.nextThread := fun y hy heq => by
    have hlt := List.mem_range.mp (h.listed.mem_iff.mp (List.mem_append_right [] hy))
    exact absurd hlt (by rw [heq]; exact Nat.lt_irrefl _)
  have hbusy : IsQueue (Function.update pool.elements pool.nextThread (some ⟨none, none⟩))
      pool.busy bl := h.busy.congr fun y hy => Function.update_of_ne (hnew y hy) _ _
  let new : PoolThread :=
    { thread := ⟨.idle, none, none, .waitForJob⟩, executor := none, param := none, called := [] }
  have hrest : new.Resting := ⟨trivial, .free trivial⟩
  have hsound : new.Sound pool.nextThread (pool.tasksOf pool.nextThread) := by
    rw [h.tasksOf_nextThread]
    exact ⟨⟨none, hrest.phase, rfl⟩, fun hs => (by cases hs), fun p hp => (by cases hp),
      fun he => he.elim, fun f p he => (by cases he)⟩
  refine h.submitTo (h.free.congr fun y hy => (by cases hy)) hbusy ?_ ?_ (fun th => ?_)
    (fun j => ?_) (Function.update_self ..) hsound hrest rfl (fun j hj => hj) havailable hlock hstep
  · simp
  · rw [List.range_succ]
    exact h.listed.append_right [pool.nextThread]
  · exact Function.update_idem ..
  · exact or_comm.trans Nat.lt_succ_iff_lt_or_eq.symm

theorem wpSubmitTask (h : PoolSound pool fl bl) (hlock : pool.lock = .free) {task : Task}
    {created : Bool} (hstep : pool.wpSubmitTask task created = some pool') :
    ∃ fl' bl', PoolSound pool' fl' bl' := by
  unfold WorkerPool.wpSubmitTask at hstep
  have hrejected {ret : SubmitResult} (hne : ret ≠ .success) (hne' : ret ≠ .resourceBusy) :
      PoolSound { pool with returned := pool.returned ++ [(task, ret)] } fl bl := by
    refine h.congr rfl id (fun _ hj => hj) (by rw [WorkerPool.LockSound, hlock]; trivial) ?_ ?_
    · rw [h.submitted]
      simp [WorkerPool.succeeded, hne]
    · intro r hr
      rcases List.mem_append.mp hr with hr | hr
      · exact h.returned r hr
      · rw [List.mem_singleton.mp hr]
        exact hne'
  split at hstep
  · obtain rfl := Option.some.inj hstep
    exact ⟨fl, bl, hrejected (by simp) (by simp)⟩
  · next havailable =>
    rw [not_not] at havailable
    obtain ⟨E₁, free, hpop, hfree, hother⟩ := queuePopTailElement_spec h.free
    obtain ⟨hnfl, hnbl, hdisj⟩ := List.nodup_append.mp h.nodup
    simp only [hpop, Option.bind_eq_bind, Option.bind_some] at hstep
    rcases List.eq_nil_or_concat' fl with rfl | ⟨l, use, rfl⟩
    · -- a new thread
      rw [List.getLast?_nil] at hstep
      cases created with
      | false =>
        obtain rfl := Option.some.inj hstep
        exact ⟨[], bl, hrejected (by simp) (by simp)⟩
      | true => exact ⟨[], bl ++ [pool.nextThread], h.submitNew havailable hlock hstep⟩
    · -- the last thread of the free list
      rw [List.getLast?_concat] at hstep
      rw [List.dropLast_concat] at hfree hother
      obtain ⟨x, hx⟩ := Option.isSome_iff_exists.mp
        (h.mem_iff.mp (.inl (List.mem_append_right l (List.mem_singleton_self use))))
      have hth := h.threads use x hx
      have hrest := hth.resting (by simp)
      have hul : use ∉ l := fun hul => (List.nodup_append.mp hnfl).2.2 use hul use (by simp) rfl
      have hbusy : IsQueue E₁ pool.busy bl := h.busy.congr fun y hy => hother y fun hyl =>
        hdisj y (List.mem_append_left _ hyl) y hy rfl
      have halloc : (E₁ use).isSome := by
        rw [hother use hul]
        exact h.free.allocated (by simp)
      have hlisted : (l ++ (bl ++ [use])).Perm (List.range pool.nextThread) := by
        refine .trans ?_ h.listed
        rw [List.append_assoc]
        exact List.perm_append_comm.append_left l
      refine ⟨l, bl ++ [use], h.submitTo hfree hbusy halloc hlisted (fun _ => rfl) (fun j => ?_) hx
        hth.sound hrest (hrest.idle (hth.available havailable))
        (fun j hj => List.mem_append_left _ hj) havailable hlock hstep⟩
      refine ⟨fun hj => ?_, .inr⟩
      rcases hj with rfl | hj
      · exact (h.created j).mp (by rw [hx]; rfl)
      · exact hj

/-- The thread of `wp_submit_task` is free. -/
theorem submitRerun (h : PoolSound pool fl bl) {use : ElementId} {task : Task}
    (hlock : pool.lock = .submitRerun use task) (hstep : pool.holder = some pool') :
    PoolSound pool' fl bl := by
  have hsound := h.lock
  simp only [WorkerPool.LockSound, hlock] at hsound
  obtain ⟨havailable, huse, th, hth, hrest, hexecutor, hparam⟩ := hsound
  have hsound := h.threads use th hth
  have hidle := hrest.idle (hsound.available havailable)
  obtain ⟨thread, htry, hbusy, hsound'⟩ :=
    hsound.sound.rrtTryRerunIfFree hrest hexecutor hparam hidle
  have hufl : use ∉ fl := fun hufl => (List.nodup_append.mp h.nodup).2.2 use hufl use huse rfl
  have htasks (j : ElementId) : (pool.assigned ++ [(use, task)]).filterMap
      (fun a => if a.1 = j then some a.2 else none) =
      pool.tasksOf j ++ if use = j then [task] else [] := by
    rw [List.filterMap_append]
    by_cases hj : use = j
    · simp [hj, WorkerPool.tasksOf]
    · simp [hj, WorkerPool.tasksOf]
  simp only [WorkerPool.holder, hlock, hth, htry, Option.bind_eq_bind, Option.bind_some] at hstep
  obtain rfl := Option.some.inj hstep
  refine h.setThread hth rfl ⟨?_, fun hu => absurd hu hufl, fun _ hs _ => ?_, fun _ => .inr hbusy⟩
    (fun j hj => ⟨?_, fun hj' => ?_⟩) ?_ (fun a ha => ?_) ?_
  · have htasks' := htasks use
    rw [if_pos rfl] at htasks'
    rw [← htasks'] at hsound'
    exact hsound'
  · cases hs.symm.trans hbusy
  · exact (htasks j).trans (by rw [if_neg (Ne.symm hj), List.append_nil])
  · rw [hlock] at hj'
    exact absurd (Option.some.inj hj').symm hj
  · exact huse
  · rcases List.mem_append.mp ha with ha | ha
    · exact h.assigned a ha
    · rw [List.mem_singleton.mp ha]
      exact (h.created use).mp (by rw [hth]; rfl)
  · rw [List.map_append, h.submitted, hlock]
    simp [PoolLock.returning]

/-- The executor of the thread has not waited again. -/
theorem submitNotify (h : PoolSound pool fl bl) {use : ElementId} {task : Task}
    (hlock : pool.lock = .submitNotify use task) (hstep : pool.holder = some pool') :
    PoolSound pool' fl bl := by
  have hsound := h.lock
  simp only [WorkerPool.LockSound, hlock] at hsound
  simp only [WorkerPool.holder, hlock, Option.bind_eq_bind, Option.bind_eq_some_iff] at hstep
  obtain ⟨th, hk, thread, hnotify, hstep⟩ := hstep
  obtain rfl := Option.some.inj hstep
  have hth := h.threads use th hk
  have hbecame : th.thread.status = .idle → ∃ f p, th.thread.executor = .becameIdle f p :=
    fun hs => hth.working hsound hs (by rw [hlock]; simp [PoolLock.rerunning])
  have hwait : th.thread.executor = .waiting → th.thread.status ≠ .idle := fun he hs => by
    obtain ⟨f, p, hbecame⟩ := hbecame hs
    rw [he] at hbecame
    cases hbecame
  have hstatus : thread.status = th.thread.status ∧
      (th.thread.executor ≠ .waiting → thread.executor = th.thread.executor) := by
    rcases RerunnableThread.notifyJob_cases hnotify with rfl | ⟨he, rfl⟩
    · exact ⟨rfl, fun _ => rfl⟩
    · exact ⟨rfl, fun hne => absurd he hne⟩
  refine h.setThread hk rfl ⟨hth.sound.notifyJob hnotify hwait,
    fun hfl => (hth.resting hfl).notifyJob hnotify, fun _ hs _ => ?_, fun ha => ?_⟩
    (fun j _ => ⟨rfl, fun hj' => ?_⟩) rfl h.assigned ?_
  · have hs' := hstatus.1.symm.trans hs
    obtain ⟨f, p, he⟩ := hbecame hs'
    exact ⟨f, p, (hstatus.2 (by rw [he]; simp)).trans he⟩
  · rw [show PoolThread.thread _ = thread from rfl, hstatus.1]
    exact hth.available ha
  · rw [hlock] at hj'
    cases hj'
  · exact h.submitted.trans (by rw [hlock]; rfl)

theorem submitReturn (h : PoolSound pool fl bl) {task : Task} {ret : Bool}
    (hlock : pool.lock = .submitReturn task ret) (hstep : pool.holder = some pool') :
    PoolSound pool' fl bl := by
  have hsound := h.lock
  simp only [WorkerPool.LockSound, hlock] at hsound
  subst hsound
  simp only [WorkerPool.holder, hlock] at hstep
  obtain rfl := Option.some.inj hstep
  refine h.congr rfl id (fun j hj => ?_) trivial ?_ fun r hr => ?_
  · rw [hlock] at hj
    cases hj
  · rw [h.submitted, hlock]
    simp [WorkerPool.succeeded, PoolLock.returning]
  · rcases List.mem_append.mp hr with hr | hr
    · exact h.returned r hr
    · rw [List.mem_singleton.mp hr]
      simp

/-! ### Shutdown -/

/-- The lock is handed on, and no submission is on its way. -/
theorem handOn (h : PoolSound pool fl bl) (hlock : pool.lock.rerunning = none)
    (hreturning : pool.lock.returning = []) {lock : PoolLock} (hlock' : lock.returning = [])
    (hsound : WorkerPool.LockSound { pool with lock := lock } bl) :
    PoolSound { pool with lock := lock } fl bl := by
  refine h.congr rfl id (fun j hj => ?_) hsound ?_ h.returned
  · rw [hlock] at hj
    cases hj
  · rw [h.submitted, hreturning, hlock']
    rfl

theorem shutdownNext (h : PoolSound pool fl bl) (havailable : pool.status ≠ .available)
    (hlock : pool.lock.rerunning = none) (hreturning : pool.lock.returning = [])
    {busy : Bool} {el : ElementId} (hstep : pool.shutdownNext busy el = some pool') :
    PoolSound pool' fl bl := by
  obtain ⟨e, -, hstep⟩ := Option.bind_eq_some_iff.mp hstep
  obtain rfl := Option.some.inj hstep
  exact h.handOn hlock hreturning rfl havailable

/-- A thread is written while the pool is shut down. -/
theorem shutdownThread (h : PoolSound pool fl bl) (havailable : pool.status ≠ .available)
    (hlock : pool.lock.rerunning = none) (hreturning : pool.lock.returning = [])
    (hk : pool.threads k = some th) {thread : RerunnableThread}
    (hsound : { th with thread := thread }.Sound k (pool.tasksOf k))
    (hrest : th.Resting → { th with thread := thread }.Resting)
    (hstatus : thread.status = .idle →
      th.thread.status = .idle ∧ thread.executor = th.thread.executor)
    {lock : PoolLock} (hlock' : lock.returning = [])
    (hpool : pool' = { pool.setThread k { th with thread := thread } with lock := lock })
    (hlockSound : pool'.LockSound bl) : PoolSound pool' fl bl := by
  subst hpool
  have hth := h.threads k th hk
  refine h.setThread hk rfl ⟨hsound, fun hfl => hrest (hth.resting hfl), fun hbl hs _ => ?_,
    fun ha => absurd ha havailable⟩ (fun j _ => ⟨rfl, fun hj => ?_⟩) hlockSound h.assigned ?_
  · obtain ⟨hs', he⟩ := hstatus hs
    obtain ⟨f, p, hbecame⟩ := hth.working hbl hs' (by rw [hlock]; simp)
    exact ⟨f, p, he.trans hbecame⟩
  · rw [hlock] at hj
    cases hj
  · rw [hlock']
    exact h.submitted.trans (by rw [hreturning])

theorem shutdownHolder (h : PoolSound pool fl bl) {busy : Bool} {el : Option ElementId} {i : Nat}
    (hlock : pool.lock = .shutdown busy el i) (hstep : pool.holder = some pool') :
    PoolSound pool' fl bl := by
  have havailable := h.lock
  simp only [WorkerPool.LockSound, hlock] at havailable
  have hrerunning : pool.lock.rerunning = none := by rw [hlock]; rfl
  have hreturning : pool.lock.returning = [] := by rw [hlock]; rfl
  cases el with
  | none =>
    cases busy with
    | false =>
      simp only [WorkerPool.holder, hlock] at hstep
      obtain rfl := Option.some.inj hstep
      exact h.handOn hrerunning hreturning rfl havailable
    | true =>
      simp only [WorkerPool.holder, hlock] at hstep
      obtain rfl := Option.some.inj hstep
      exact h.handOn hrerunning hreturning rfl trivial
  | some el =>
    simp only [WorkerPool.holder, hlock] at hstep
    split at hstep
    · obtain ⟨th, hk, hstep⟩ := Option.bind_eq_some_iff.mp hstep
      have hth := h.threads el th hk
      have hwritten {lock : PoolLock} (hlock' : lock.returning = [])
          (hsound : WorkerPool.LockSound { pool.setThread el
            { th with thread := th.thread.rrtGracefulShutdown.2 } with lock := lock } bl) :=
        h.shutdownThread havailable hrerunning hreturning hk hth.sound.rrtGracefulShutdown
          (fun hr => hr.rrtGracefulShutdown)
          (fun hs => ⟨(th.thread.rrtGracefulShutdown_status.resolve_right
            (by rw [hs]; simp)).symm.trans hs, RerunnableThread.rrtGracefulShutdown_executor⟩)
          hlock' rfl hsound
      split at hstep
      · obtain rfl := Option.some.inj hstep
        exact h.handOn hrerunning hreturning rfl havailable
      · next thread heq =>
        obtain rfl := Option.some.inj hstep
        obtain rfl : th.thread.rrtGracefulShutdown.2 = thread := by rw [heq]
        refine hwritten rfl ⟨havailable, fun x hx => ?_⟩
        obtain rfl : PoolThread.mk _ _ _ _ = x := by simpa [WorkerPool.setThread] using hx
        rw [RerunnableThread.rrtGracefulShutdown_notifies (by rw [heq])]
        simp
      · next thread _ _ heq =>
        obtain rfl : th.thread.rrtGracefulShutdown.2 = thread := by rw [heq]
        have hsound : WorkerPool.LockSound { pool.setThread el
            { th with thread := th.thread.rrtGracefulShutdown.2 } with lock := pool.lock } bl := by
          simp only [WorkerPool.LockSound, hlock]
          exact havailable
        exact (hwritten hreturning hsound).shutdownNext havailable hrerunning hreturning hstep
    · exact h.shutdownNext havailable hrerunning hreturning hstep

theorem shutdownNotify (h : PoolSound pool fl bl) {busy : Bool} {el : ElementId}
    (hlock : pool.lock = .shutdownNotify busy el) (hstep : pool.holder = some pool') :
    PoolSound pool' fl bl := by
  have hsound := h.lock
  simp only [WorkerPool.LockSound, hlock] at hsound
  obtain ⟨havailable, hstopped⟩ := hsound
  have hrerunning : pool.lock.rerunning = none := by rw [hlock]; rfl
  have hreturning : pool.lock.returning = [] := by rw [hlock]; rfl
  simp only [WorkerPool.holder, hlock, Option.bind_eq_bind, Option.bind_eq_some_iff] at hstep
  obtain ⟨th, hk, thread, hnotify, hstep⟩ := hstep
  have hth := h.threads el th hk
  have hstatus : thread.status = th.thread.status := by
    rcases RerunnableThread.notifyJob_cases hnotify with rfl | ⟨-, rfl⟩ <;> rfl
  have hwritten : PoolSound (pool.setThread el { th with thread := thread }) fl bl := by
    refine h.shutdownThread havailable hrerunning hreturning hk
      (hth.sound.notifyJob hnotify fun _ => (hstopped th hk).1) (fun hr => hr.notifyJob hnotify)
      (fun hs => absurd (hstatus.symm.trans hs) (hstopped th hk).1) hreturning rfl ?_
    simp only [WorkerPool.LockSound, WorkerPool.setThread, hlock]
    refine ⟨havailable, fun x hx => ?_⟩
    obtain rfl : PoolThread.mk _ _ _ _ = x := by simpa using hx
    rw [hstatus]
    exact hstopped th hk
  exact hwritten.shutdownNext havailable hrerunning hreturning hstep

theorem holder (h : PoolSound pool fl bl) (hstep : pool.holder = some pool') :
    PoolSound pool' fl bl := by
  cases hlock : pool.lock with
  | free =>
    rw [WorkerPool.holder, hlock] at hstep
    cases hstep
  | submitRerun use task => exact h.submitRerun hlock hstep
  | submitNotify use task => exact h.submitNotify hlock hstep
  | submitReturn task ret => exact h.submitReturn hlock hstep
  | shutdown busy el i => exact h.shutdownHolder hlock hstep
  | shutdownNotify busy el => exact h.shutdownNotify hlock hstep

/-! ### Every section -/

/-- A section that writes neither a list nor a thread, and lets the lock go. -/
theorem observed (h : PoolSound pool fl bl) (hlock : pool.lock = .free)
    {status : WorkerPoolStatus} (hstatus : status = .available → pool.status = .available)
    (polling : Bool) (reported : List (WorkerPoolStatus × Bool)) :
    PoolSound { pool with status := status, polling := polling, reported := reported } fl bl := by
  refine h.congr rfl hstatus (fun j hj => hj) ?_ h.submitted h.returned
  simp only [WorkerPool.LockSound, hlock]

theorem wpShutdown (h : PoolSound pool fl bl) (hlock : pool.lock = .free) :
    PoolSound pool.wpShutdown fl bl := by
  unfold WorkerPool.wpShutdown
  split
  · refine h.congr rfl (fun hs => by cases hs) (fun j hj => ?_) ?_ ?_ h.returned
    · rw [hlock] at hj
      cases hj
    · simp [WorkerPool.LockSound]
    · exact h.submitted.trans (by rw [hlock]; rfl)
  · exact h

theorem step (h : PoolSound pool fl bl) {c : PoolSection} (hc : c ≠ .destroy)
    (hstep : pool.step c = some pool') : ∃ fl' bl', PoolSound pool' fl' bl' := by
  cases c with
  | submit task created =>
    obtain ⟨hlock, -, hstep⟩ := WorkerPool.locked_eq_some hstep
    exact h.wpSubmitTask hlock hstep
  | shutdown =>
    obtain ⟨hlock, -, hstep⟩ := WorkerPool.locked_eq_some hstep
    obtain rfl := Option.some.inj hstep
    exact ⟨fl, bl, h.wpShutdown hlock⟩
  | holder => exact ⟨fl, bl, h.holder hstep⟩
  | executor k =>
    obtain ⟨fl', bl', h', -⟩ := h.executor hstep
    exact ⟨fl', bl', h'⟩
  | getStatus =>
    obtain ⟨hlock, -, hstep⟩ := WorkerPool.locked_eq_some hstep
    obtain rfl := Option.some.inj hstep
    exact ⟨fl, bl, h.observed hlock id ..⟩
  | waitExit =>
    obtain ⟨hlock, -, hstep⟩ := WorkerPool.locked_eq_some hstep
    unfold WorkerPool.wpWaitExit at hstep
    split at hstep
    · obtain rfl := Option.some.inj hstep
      exact ⟨fl, bl, h⟩
    · obtain ⟨exited, -, rfl⟩ := WorkerPool.waitExitPoll_eq_some hstep
      exact ⟨fl, bl, h.observed hlock (fun hs => by cases hs) ..⟩
  | poll =>
    obtain ⟨hlock, -, hstep⟩ := WorkerPool.locked_eq_some hstep
    split at hstep
    · obtain ⟨exited, -, rfl⟩ := WorkerPool.waitExitPoll_eq_some hstep
      exact ⟨fl, bl, h.observed hlock id ..⟩
    · cases hstep
  | destroy => exact absurd rfl hc

theorem run {sections : List PoolSection} (hsections : .destroy ∉ sections)
    (hrun : Run.run WorkerPool.step .wpInit sections = some pool) :
    ∃ fl bl, PoolSound pool fl bl := by
  have hmeets : Run.Meets WorkerPool.step (fun _ c => c ≠ .destroy) .wpInit sections :=
    Run.meets_of_forall fun _ hc _ => ne_of_mem_of_not_mem hc hsections
  exact Run.run_invariant_of_meets (fun pool => ∃ fl bl, PoolSound pool fl bl)
    (fun _ _ _ ⟨_, _, h⟩ hc hstep => h.step hc hstep) sections .wpInit pool
    ⟨[], [], wpInit_sound⟩ hmeets hrun

end PoolSound

/-! ## The tasks of a pool -/

/-- The threads of a pool call the tasks of the submissions that returned 0, each once and with its
    own parameter, and in the order in which the thread was given them. -/
structure WorkerPool.KeepsTasks (pool : WorkerPool) : Prop where
  /-- Every thread that was created stands once in one of the lists; in the free list it has no
      task that was not called, and is in none. -/
  lists : ∃ free busy, IsQueue pool.elements pool.free free ∧
    IsQueue pool.elements pool.busy busy ∧ (free ++ busy).Perm (List.range pool.nextThread) ∧
    ∀ k ∈ free, ∀ th, pool.threads k = some th →
      (pool.tasksOf k).map taskCall = th.called ∧ th.thread.executor.Resting
  created : ∀ k, (pool.threads k).isSome ↔ k < pool.nextThread
  /-- Of the assigned tasks, the submission of the last may not have returned. -/
  returned : ∃ tasks, pool.assigned.map Prod.snd = pool.succeeded ++ tasks ∧ tasks.length ≤ 1
  rerun : ∀ use task th, pool.lock = .submitRerun use task → pool.threads use = some th →
    (th.thread.rrtTryRerunIfFree .workerPoolExecFunction (some use)).1
  notBusy : ∀ r ∈ pool.returned, r.2 ≠ .resourceBusy
  called : ∀ k th, pool.threads k = some th →
    ∃ tasks, (pool.tasksOf k).map taskCall = th.called ++ tasks ∧ tasks.length ≤ 1
  notNull : ∀ k th, pool.threads k = some th →
    th.thread.executor ≠ .crashed ∧ ∀ p, (none, p) ∉ th.called
  exited : ∀ k th, pool.threads k = some th → th.thread.status = .exited →
    (pool.tasksOf k).map taskCall = th.called

namespace PoolThread.Sound

variable {th : PoolThread} {k : ElementId} {tasks : List Task}

theorem called (h : th.Sound k tasks) :
    ∃ rest, tasks.map taskCall = th.called ++ rest ∧ rest.length ≤ 1 := by
  obtain ⟨job, -, howes⟩ := h.job
  cases job with
  | none => exact ⟨[], by rw [List.append_nil]; exact howes, Nat.zero_le 1⟩
  | some job =>
    obtain ⟨-, task, -, -, htasks⟩ := howes
    exact ⟨[taskCall task], htasks, Nat.le_refl 1⟩

theorem notNull (h : th.Sound k tasks) (p : Option Nat) : (none, p) ∉ th.called := by
  intro hp
  obtain ⟨rest, htasks, -⟩ := h.called
  have hmem : (none, p) ∈ tasks.map taskCall := by
    rw [htasks]
    exact List.mem_append_left _ hp
  obtain ⟨task, -, htask⟩ := List.mem_map.mp hmem
  cases (Prod.mk.inj htask).1

theorem not_crashed (h : th.Sound k tasks) : th.thread.executor ≠ .crashed := by
  obtain ⟨job, hphase, -⟩ := h.job
  intro he
  revert he
  generalize th.thread = rrt at hphase
  intro he
  cases hphase with
  | free hout | poisoned hout | assigned hout =>
    obtain rfl : _ = Executor.crashed := he
    exact hout.elim
  | fresh | read | working | clearRun | clearParameter | afterJob | leaving | exited => cases he

theorem exited (h : th.Sound k tasks) (hs : th.thread.status = .exited) :
    tasks.map taskCall = th.called := by
  obtain ⟨job, hphase, howes⟩ := h.job
  obtain rfl := hphase.none_of_exited hs
  exact howes

end PoolThread.Sound

theorem PoolSound.keepsTasks {pool : WorkerPool} {fl bl : List ElementId}
    (h : PoolSound pool fl bl) : pool.KeepsTasks where
  lists := ⟨fl, bl, h.free, h.busy, h.listed, fun k hk th hth =>
    have hrest := (h.threads k th hth).resting hk
    ⟨(h.threads k th hth).sound.owes_none hrest.phase, hrest.executor⟩⟩
  created := h.created
  returned := by
    refine ⟨_, h.submitted, ?_⟩
    unfold PoolLock.returning
    split <;> simp
  rerun := by
    intro use task th hlock hth
    have hsound := h.lock
    simp only [WorkerPool.LockSound, hlock] at hsound
    obtain ⟨havailable, -, x, hx, hrest, -, -⟩ := hsound
    obtain rfl := Option.some.inj (hth.symm.trans hx)
    rw [RerunnableThread.rrtTryRerunIfFree,
      if_pos (hrest.idle ((h.threads use th hth).available havailable))]
  notBusy := h.returned
  called := fun k th hth => (h.threads k th hth).sound.called
  notNull := fun k th hth =>
    ⟨(h.threads k th hth).sound.not_crashed, (h.threads k th hth).sound.notNull⟩
  exited := fun k th hth hs => (h.threads k th hth).sound.exited hs

/-- Along every run of submissions, executors, shutdowns, waits and reports. -/
theorem pool_keeps_tasks {sections : List PoolSection} {pool : WorkerPool}
    (hsections : .destroy ∉ sections)
    (hrun : Run.run WorkerPool.step .wpInit sections = some pool) : pool.KeepsTasks := by
  obtain ⟨fl, bl, h⟩ := PoolSound.run hsections hrun
  exact h.keepsTasks

/-- A task is submitted, and the pool shut down while the thread is in it. -/
def shutdownInTask : List PoolSection :=
  [.submit (7, some 42) true] ++ List.replicate 3 .holder ++ List.replicate 5 (.executor 0) ++
    [.shutdown, .holder, .holder, .holder] ++ List.replicate 5 (.executor 0)

theorem pool_keeps_tasks_shutdownInTask :
    ∃ pool, Run.run WorkerPool.step .wpInit shutdownInTask = some pool ∧ pool.KeepsTasks ∧
      pool.returned = [((7, some 42), .success)] ∧
      (pool.threads 0).map (fun th => (th.thread.status, th.called)) =
        some (.exited, [(some 7, some 42)]) := by
  obtain ⟨pool, hrun⟩ : ∃ pool, Run.run WorkerPool.step .wpInit shutdownInTask = some pool :=
    ⟨_, rfl⟩
  refine ⟨pool, hrun, pool_keeps_tasks (by decide) hrun, ?_⟩
  obtain rfl := Option.some.inj hrun
  exact ⟨rfl, rfl⟩

end LogxControll
