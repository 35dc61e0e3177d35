/-
  `core/utils/worker_pool.c`: threads that run submitted tasks, one task each, and stand in the
  list of the free ones or the list of the busy ones.

  A step is a section between locking and unlocking one lock. `pool_lock` stays locked over
  several of them: `PoolLock` is where its holder stands, and every other section that needs it
  waits until it is free. The executors of the threads go on meanwhile, up to a callback.
-/
import LogxControll.Core.Queue
import LogxControll.Threads.RerunnableThread

namespace LogxControll

/-- `enum worker_pool_status` -/
inductive WorkerPoolStatus where
  | available | shuttingDown | exited
  deriving DecidableEq, Repr

/-- A submitted task: a function that is not NULL, and its parameter. -/
abbrev Task := Nat × Option Nat

/-- `struct pool_thread` without its links; `called` are the calls that its executor made, in
    order. -/
structure PoolThread where
  thread : RerunnableThread
  executor : Option Nat
  param : Option Nat
  called : List (Option Nat × Option Nat)
  deriving DecidableEq, Repr

/-- Who holds `pool_lock`, and before which section. -/
inductive PoolLock where
  | free
  /-- `wp_submit_task`, before the first section of `rrt_try_rerun_if_free` -/
  | submitRerun (use : ElementId) (task : Task)
  /-- `wp_submit_task`, before `notify_job` -/
  | submitNotify (use : ElementId) (task : Task)
  /-- `wp_submit_task`, before it unlocks and returns -/
  | submitReturn (task : Task) (ret : Bool)
  /-- `shutdown_all` of the free or the busy list at `el`, after `i` turns of the loop of
      `rrt_graceful_shutdown` -/
  | shutdown (busy : Bool) (el : Option ElementId) (i : Nat)
  /-- the same, before `notify_job` -/
  | shutdownNotify (busy : Bool) (el : ElementId)
  deriving DecidableEq, Repr

/-- What `wp_submit_task` returns. -/
inductive SubmitResult where
  | success
  | underShutdown
  | ebusy
  | resourceBusy
  deriving DecidableEq, Repr

/-- `polling` while a call of `wp_wait_exit` sleeps between two polls. `assigned` are the tasks that
    `rrt_try_rerun_if_free` took, with the thread. `returned`, `reported` and `freed` are the results
    of `wp_submit_task` and `wp_get_status`, and the states of the threads that `wp_destroy` freed;
    a report says also whether all threads had exited. -/
structure WorkerPool where
  status : WorkerPoolStatus
  lock : PoolLock
  elements : Elements
  free : QueueEnds
  busy : QueueEnds
  threads : ElementId → Option PoolThread
  nextThread : ElementId
  polling : Bool
  destroyed : Bool
  assigned : List (ElementId × Task)
  returned : List (Task × SubmitResult)
  reported : List (WorkerPoolStatus × Bool)
  freed : List RerunnableThreadState

/-- What happens next in the pool: a call begins, or something that was begun goes on. -/
inductive PoolSection where
  /-- the first section of `wp_submit_task`; `created` is whether a new thread could be started -/
  | submit (task : Task) (created : Bool)
  /-- the first section of `wp_shutdown` -/
  | shutdown
  /-- the next section of the holder of `pool_lock` -/
  | holder
  /-- the next step of the executor of a thread -/
  | executor (k : ElementId)
  | getStatus
  /-- `wp_wait_exit` up to its first sleep -/
  | waitExit
  /-- the next poll of `wp_wait_exit` -/
  | poll
  | destroy
  deriving DecidableEq, Repr

namespace WorkerPool

/-- `wp_init` -/
def wpInit : WorkerPool where
  status := .available
  lock := .free
  elements := fun _ => none
  free := ⟨none, none⟩
  busy := ⟨none, none⟩
  threads := fun _ => none
  nextThread := 0
  polling := false
  destroyed := false
  assigned := []
  returned := []
  reported := []
  freed := []

/-- A write to a thread of the pool. -/
def setThread (pool : WorkerPool) (k : ElementId) (th : PoolThread) : WorkerPool :=
  { pool with threads := Function.update pool.threads k (some th) }

/-- `new_pool_thread`: the new thread, or NULL. -/
def newPoolThread (created : Bool) (pool : WorkerPool) : Option ElementId × WorkerPool :=
  match rrtInit.rrtStart created with
  | (true, thread) =>
    let k := pool.nextThread
    (some k, { pool with
      elements := Function.update pool.elements k (some ⟨none, none⟩)
      threads := Function.update pool.threads k
        (some { thread := thread, executor := none, param := none, called := [] })
      nextThread := k + 1 })
  | (false, _) => (none, pool)

/-- `wp_submit_task` with the thread `use`, up to `rrt_try_rerun_if_free`. -/
def submitTo (use : ElementId) (task : Task) (pool : WorkerPool) : Option WorkerPool := do
  let (elements, busy) ← queueAddElement pool.elements pool.busy use
  let th ← pool.threads use
  return { pool.setThread use { th with executor := some task.1, param := task.2 } with
    elements := elements, busy := busy, lock := .submitRerun use task }

/-- `wp_submit_task` up to its first call: the thread is the last of the free list, or a new one. -/
def wpSubmitTask (task : Task) (created : Bool) (pool : WorkerPool) : Option WorkerPool :=
  if pool.status ≠ .available then
    some { pool with returned := pool.returned ++ [(task, .underShutdown)] }
  else do
    let (use, elements, free) ← queuePopTailElement pool.elements pool.free
    match use with
    | some use => submitTo use task { pool with elements := elements, free := free }
    | none =>
      match newPoolThread created pool with
      | (some use, pool) => submitTo use task pool
      | (none, pool) => return { pool with returned := pool.returned ++ [(task, .ebusy)] }

/-- `wp_shutdown` up to the first thread it stops. -/
def wpShutdown (pool : WorkerPool) : WorkerPool :=
  if pool.status = .available then
    { pool with status := .shuttingDown, lock := .shutdown false pool.free.head 0 }
  else pool

/-- `shutdown_all` goes on to the next element. -/
def shutdownNext (busy : Bool) (el : ElementId) (pool : WorkerPool) : Option WorkerPool := do
  let e ← pool.elements el
  return { pool with lock := .shutdown busy e.next 0 }

/-- The next section of the holder of `pool_lock`. -/
def holder (pool : WorkerPool) : Option WorkerPool :=
  match pool.lock with
  | .free => none
  | .submitRerun use task => do
    let th ← pool.threads use
    match th.thread.rrtTryRerunIfFree .workerPoolExecFunction (some use) with
    | (true, thread) =>
      return { pool.setThread use { th with thread := thread } with
               assigned := pool.assigned ++ [(use, task)], lock := .submitNotify use task }
    | (false, _) => return { pool with lock := .submitReturn task false }
  | .submitNotify use task => do
    let th ← pool.threads use
    let thread ← th.thread.notifyJob
    return { pool.setThread use { th with thread := thread } with lock := .submitReturn task true }
  | .submitReturn task ret =>
    some { pool with
      returned := pool.returned ++ [(task, if ret then .success else .resourceBusy)]
      lock := .free }
  | .shutdown false none _ => some { pool with lock := .shutdown true pool.busy.head 0 }
  | .shutdown true none _ => some { pool with lock := .free }
  | .shutdown busy (some el) i =>
    if i < 149 then do
      let th ← pool.threads el
      match th.thread.rrtGracefulShutdown with
      | (.tryAgain, _) => return { pool with lock := .shutdown busy (some el) (i + 1) }
      | (.notifyThenSuccess, thread) =>
        return { pool.setThread el { th with thread := thread } with
                 lock := .shutdownNotify busy el }
      | (_, thread) => shutdownNext busy el (pool.setThread el { th with thread := thread })
    else shutdownNext busy el pool
  | .shutdownNotify busy el => do
    let th ← pool.threads el
    let thread ← th.thread.notifyJob
    shutdownNext busy el (pool.setThread el { th with thread := thread })

/-- `worker_pool_exec_function` of the task of thread `task`, called by the executor of `k`. -/
def workerPoolExecFunction (k : ElementId) (th : PoolThread) (task : Option ElementId)
    (pool : WorkerPool) : Option WorkerPool := do
  let pt ← pool.threads (← task)
  let thread ← if pt.executor.isSome then th.thread.executorFunction
    else some { th.thread with executor := .crashed }
  return pool.setThread k
    { th with thread := thread, called := th.called ++ [(pt.executor, pt.param)] }

/-- `on_release` at the point `rrt_after_become_idle`, called by the executor of `k`. -/
def onRelease (k : ElementId) (th : PoolThread) (task : Option ElementId) (pool : WorkerPool) :
    Option WorkerPool := do
  let elem ← task
  let (elements, busy) ← queuePopIntermediateElement pool.elements pool.busy elem
  let (elements, free) ← queueAddElement elements pool.free elem
  let thread ← th.thread.executorFunction
  return { pool.setThread k { th with thread := thread } with
    elements := elements, busy := busy, free := free }

/-- The next step of the executor of a thread. -/
def executor (k : ElementId) (pool : WorkerPool) : Option WorkerPool := do
  let th ← pool.threads k
  match th.thread.executor with
  | .beforeJob (some .workerPoolExecFunction) param => workerPoolExecFunction k th param pool
  | .becameIdle _ param => if pool.lock = .free then onRelease k th param pool else none
  | _ =>
    let thread ← th.thread.executorFunction
    return pool.setThread k { th with thread := thread }

/-- The elements from `el` on. -/
def elementsFrom (elements : Elements) : Nat → Option ElementId → Option (List ElementId)
  | _, none => some []
  | 0, some _ => none
  | n + 1, some el => do
    let e ← elements el
    let rest ← elementsFrom elements n e.next
    return el :: rest

/-- The elements of the busy and then of the free list, for at most as many as there are. -/
def listed (pool : WorkerPool) : Option (List ElementId) := do
  let busy ← elementsFrom pool.elements pool.nextThread pool.busy.head
  let free ← elementsFrom pool.elements pool.nextThread pool.free.head
  return busy ++ free

/-- `is_all_exited` of both lists. -/
def isAllExited (pool : WorkerPool) : Option Bool := do
  let threads ← (← pool.listed).mapM pool.threads
  return threads.all fun th => th.thread.status = .exited

/-- A poll of `wp_wait_exit`. -/
def waitExitPoll (pool : WorkerPool) : Option WorkerPool := do
  let exited ← pool.isAllExited
  return { pool with polling := !exited }

/-- `wp_wait_exit` up to its first sleep. The status says exited before anything is polled. -/
def wpWaitExit (pool : WorkerPool) : Option WorkerPool :=
  if pool.status ≠ .shuttingDown then some pool
  else waitExitPoll { pool with status := .exited }

/-- `wp_get_status`; the report also has whether all threads of the pool have exited. -/
def wpGetStatus (pool : WorkerPool) : WorkerPool :=
  { pool with reported := pool.reported ++ [(pool.status,
      (List.range pool.nextThread).all fun k =>
        (pool.threads k).all fun th => th.thread.status = .exited)] }

/-- `wp_destroy`: all threads in the lists are freed, whatever they do. -/
def wpDestroy (pool : WorkerPool) : Option WorkerPool :=
  if pool.status ≠ .exited then some pool
  else do
    let all ← pool.listed
    let threads ← all.mapM pool.threads
    return { pool with
      threads := fun k => if k ∈ all then none else pool.threads k
      freed := pool.freed ++ threads.map fun th => th.thread.status
      destroyed := true }

/-- A section that begins with locking `pool_lock`. -/
def locked (pool : WorkerPool) (section_ : Option WorkerPool) : Option WorkerPool :=
  if pool.lock = .free ∧ ¬ pool.destroyed then section_ else none

/-- The pool after a section; calls wait for the lock. -/
def step (pool : WorkerPool) : PoolSection → Option WorkerPool
  | .submit task created => pool.locked (wpSubmitTask task created pool)
  | .shutdown => pool.locked (some (wpShutdown pool))
  | .holder => pool.holder
  | .executor k => pool.executor k
  | .getStatus => pool.locked (some (wpGetStatus pool))
  | .waitExit => pool.locked (wpWaitExit pool)
  | .poll => pool.locked (if pool.polling then waitExitPoll pool else none)
  | .destroy => pool.locked (wpDestroy pool)

end WorkerPool

end LogxControll
