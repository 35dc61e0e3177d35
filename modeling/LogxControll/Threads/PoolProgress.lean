/-
  A worker pool makes progress: what its threads and the holder of `pool_lock` have to do comes to an
  end, and then all accepted tasks were called.

  `Notified` rules out that a thread waits for a notification that nobody will send. `due` bounds
  the steps that are left: a thread that was given a job, or told to exit, has more of them, and the
  holder of the lock pays for that.
-/
import LogxControll.Threads.PoolShutdown
import Mathlib.Algebra.BigOperators.Group.Finset.Basic

namespace LogxControll

/-! ## One thread -/

/-- The steps from here to the wait, or to the end of the thread. -/
def Executor.rank : Executor → ℕ
  | .notified => 12
  | .aboutToUnlock => 11
  | .woken => 10
  | .beforeJob _ _ => 9
  | .inJob _ _ => 8
  | .clearRun _ _ => 7
  | .clearParameter _ _ => 6
  | .afterJob _ _ => 5
  | .becameIdle _ _ => 4
  | .waitForJob => 3
  | .checkState => 2
  | .aboutToWait | .leaving => 1
  | .notStarted | .waiting | .exited | .crashed => 0

/-- The executor will look for a job. -/
def Executor.coming : Executor → Bool
  | .becameIdle _ _ | .waitForJob | .checkState | .aboutToWait | .waiting => true
  | _ => false

/-- The executor does not look at the status any more before it waits. -/
def Executor.Waits (e : Executor) : Prop := e = .aboutToWait ∨ e = .waiting

namespace RerunnableThread

variable {rrt rrt' : RerunnableThread} {job : Option Job}

/-- The steps to the next wait, or to the end, when a job that was given counts as one more
    round. -/
def due (rrt : RerunnableThread) : ℕ :=
  rrt.executor.rank + if rrt.status ≠ .idle ∧ rrt.executor.coming then 14 else 0

theorem executorFunction_due (h : Phase rrt job)
    (hwoken : rrt.executor.Woken → rrt.status ≠ .idle)
    (hstep : rrt.executorFunction = some rrt') : rrt'.due < rrt.due := by
  unfold executorFunction at hstep
  unfold due
  cases h with
  | fresh | exited => cases hstep
  | free he | assigned he hstatus | poisoned he =>
    grind [Executor.Outside, Executor.Woken, Executor.rank, Executor.coming,
      RerunnableThreadState.Taken]
  | read | working | clearRun | clearParameter | afterJob | leaving =>
    grind [Executor.rank, Executor.coming, RerunnableThreadState.Taken]

theorem rrtTryRerunIfFree_due (f : JobFunction) (p : Option ℕ) :
    (rrt.rrtTryRerunIfFree f p).2.due ≤ rrt.due + 14 := by
  unfold rrtTryRerunIfFree due
  grind

theorem rrtGracefulShutdown_due : rrt.rrtGracefulShutdown.2.due ≤ rrt.due + 14 ∧
    (rrt.rrtGracefulShutdown.1 ≠ .notifyThenSuccess → rrt.rrtGracefulShutdown.2.due ≤ rrt.due) := by
  unfold rrtGracefulShutdown due
  grind

theorem notifyJob_due (hwait : rrt.executor = .waiting → rrt.status ≠ .idle)
    (hstep : rrt.notifyJob = some rrt') : rrt'.due ≤ rrt.due := by
  rcases notifyJob_cases hstep with rfl | ⟨he, rfl⟩
  · exact le_rfl
  · simp [due, he, Executor.rank, Executor.coming, hwait he]

/-- An executor comes to wait only if the thread is idle. -/
theorem executorFunction_waits (hstep : rrt.executorFunction = some rrt')
    (hwaits : rrt'.executor.Waits) : rrt'.status = .idle ∨
      rrt.executor = .aboutToWait ∧ rrt'.status = rrt.status := by
  unfold executorFunction at hstep
  unfold Executor.Waits at hwaits
  split at hstep <;> grind

theorem executorFunction_started (hstep : rrt.executorFunction = some rrt') :
    rrt'.executor ≠ .notStarted := by
  unfold executorFunction at hstep
  split at hstep <;> grind

theorem executorFunction_eq_none (hstep : rrt.executorFunction = none) :
    rrt.executor = .notStarted ∨ rrt.executor = .waiting ∨ rrt.executor = .exited ∨
      rrt.executor = .crashed := by
  unfold executorFunction at hstep
  split at hstep <;> grind

theorem rrtGracefulShutdown_of_idle (h : rrt.status = .idle) :
    rrt.rrtGracefulShutdown.1 = .tryAgain ∨ rrt.rrtGracefulShutdown.1 = .notifyThenSuccess := by
  unfold rrtGracefulShutdown
  grind

/-- A thread that is notified does not wait. -/
theorem notifyJob_waits (hstep : rrt.notifyJob = some rrt') : ¬ rrt'.executor.Waits := by
  unfold notifyJob holdsMutex at hstep
  unfold Executor.Waits
  grind

end RerunnableThread

/-! ## The pool -/

/-- The thread that is about to be notified. -/
def PoolLock.notifying : PoolLock → Option ElementId
  | .submitNotify use _ => some use
  | .shutdownNotify _ el => some el
  | _ => none

/-- A section that does not begin a call. -/
def PoolSection.Internal : PoolSection → Prop
  | .holder | .executor _ => True
  | _ => False

/-- The elements of the list that `shutdown_all` is at, and those of the list after it. -/
def shutdownLists (busy : Bool) (fl bl : List ElementId) : List ElementId × List ElementId :=
  if busy then (bl, []) else (fl, bl)

namespace WorkerPool

/-- A thread that waits without being idle is about to be notified. -/
def Notified (pool : WorkerPool) : Prop := ∀ k th, pool.threads k = some th →
  th.thread.executor ≠ .notStarted ∧ (th.thread.executor.Waits → th.thread.status ≠ .idle →
    pool.lock.notifying = some k)

/-- The steps that the holder of the lock has left, with what it adds to those of the threads. -/
def LockDue (pool : WorkerPool) (fl bl : List ElementId) (n : ℕ) : Prop :=
  match pool.lock with
  | .free => n = 0
  | .submitRerun _ _ => n = 17
  | .submitNotify _ _ => n = 2
  | .submitReturn _ _ => n = 1
  | .shutdown busy el i => i ≤ 149 ∧ (el = none → i = 0) ∧ ∃ done rest,
      (shutdownLists busy fl bl).1 = done ++ rest ∧ el = rest.head? ∧
      n + i = 200 * (rest.length + (shutdownLists busy fl bl).2.length) + if busy then 1 else 2
  | .shutdownNotify busy el => ∃ done rest, (shutdownLists busy fl bl).1 = done ++ el :: rest ∧
      n = 200 * (rest.length + (shutdownLists busy fl bl).2.length) + 30

/-- The same of a thread of the pool. -/
def dueOf (pool : WorkerPool) (k : ElementId) : ℕ :=
  (pool.threads k).elim 0 fun th => th.thread.due

/-- The same of all of them. -/
def threadsDue (pool : WorkerPool) : ℕ := ∑ k ∈ Finset.range pool.nextThread, pool.dueOf k

/-- `n` steps are left at most. -/
def Going (n : ℕ) (pool : WorkerPool) : Prop :=
  ∃ fl bl m, PoolSound pool fl bl ∧ pool.Notified ∧ pool.LockDue fl bl m ∧
    n = m + pool.threadsDue

variable {pool pool' : WorkerPool} {fl bl : List ElementId} {k : ElementId} {th th' : PoolThread}

/-- One thread is written. -/
theorem threadsDue_update (pool' : WorkerPool) (hk : pool.threads k = some th) (hlt : k < pool.nextThread)
    (hthreads : pool'.threads = Function.update pool.threads k (some th'))
    (hnext : pool'.nextThread = pool.nextThread) :
    pool'.threadsDue + th.thread.due = pool.threadsDue + th'.thread.due := by
  have hmem : k ∈ Finset.range pool.nextThread := Finset.mem_range.mpr hlt
  have hnew : pool'.dueOf k + ∑ j ∈ (Finset.range pool.nextThread).erase k, pool'.dueOf j =
      ∑ j ∈ Finset.range pool.nextThread, pool'.dueOf j := Finset.add_sum_erase _ _ hmem
  have hold : pool.dueOf k + ∑ j ∈ (Finset.range pool.nextThread).erase k, pool.dueOf j =
      ∑ j ∈ Finset.range pool.nextThread, pool.dueOf j := Finset.add_sum_erase _ _ hmem
  have hother : ∑ j ∈ (Finset.range pool.nextThread).erase k, pool'.dueOf j =
      ∑ j ∈ (Finset.range pool.nextThread).erase k, pool.dueOf j := by
    refine Finset.sum_congr rfl fun j hj => ?_
    rw [dueOf, hthreads, Function.update_of_ne (Finset.ne_of_mem_erase hj)]
    rfl
  have hk' : pool'.dueOf k = th'.thread.due := by
    rw [dueOf, hthreads, Function.update_self]
    rfl
  have hk₀ : pool.dueOf k = th.thread.due := by
    rw [dueOf, hk]
    rfl
  unfold threadsDue
  rw [hnext]
  omega

/-- One thread is written, and the lock handed on. -/
theorem Notified.update (h : pool.Notified)
    (hthreads : pool'.threads = Function.update pool.threads k (some th'))
    (hth : th'.thread.executor ≠ .notStarted ∧ (th'.thread.executor.Waits →
      th'.thread.status ≠ .idle → pool'.lock.notifying = some k))
    (hlock : ∀ j, j ≠ k → pool.lock.notifying = some j → pool'.lock.notifying = some j) :
    pool'.Notified := by
  intro j x hx
  rw [hthreads] at hx
  by_cases hj : j = k
  · subst hj
    obtain rfl : th' = x := by simpa using hx
    exact hth
  · obtain ⟨hstarted, hwaits⟩ := h j x (by simpa [hj] using hx)
    exact ⟨hstarted, fun hw hs => hlock j hj (hwaits hw hs)⟩

/-- The lock is handed on. -/
theorem Notified.handOn (h : pool.Notified) (hthreads : pool'.threads = pool.threads)
    (hlock : ∀ j, pool.lock.notifying = some j → pool'.lock.notifying = some j) :
    pool'.Notified := by
  intro j x hx
  rw [hthreads] at hx
  obtain ⟨hstarted, hwaits⟩ := h j x hx
  exact ⟨hstarted, fun hw hs => hlock j (hwaits hw hs)⟩

/-! ### The executors -/

/-- What a step of an executor does to its thread, which does not crash. -/
theorem executor_thread (hpool : PoolSound pool fl bl) (hstep : pool.executor k = some pool') :
    ∃ th th', pool.threads k = some th ∧ th.thread.executorFunction = some th'.thread ∧
      pool'.threads = Function.update pool.threads k (some th') ∧ pool'.lock = pool.lock ∧
      pool'.nextThread = pool.nextThread := by
  obtain ⟨th, th', hk, hthreads, hexec, hlock, -, -, -, hnext, -⟩ := executor_threads hstep
  refine ⟨th, th', hk, hexec.resolve_right fun hcrash => ?_, hthreads, hlock, hnext⟩
  obtain ⟨fl', bl', hpool', -⟩ := hpool.executor hstep
  have hth' := hpool'.threads k th' (by rw [hthreads, Function.update_self])
  exact hth'.sound.not_crashed (by rw [hcrash])

theorem Notified.executor (h : pool.Notified) (hpool : PoolSound pool fl bl)
    (hstep : pool.executor k = some pool') : pool'.Notified := by
  obtain ⟨th, th', hk, hexec, hthreads, hlock, -⟩ := executor_thread hpool hstep
  refine h.update hthreads ⟨RerunnableThread.executorFunction_started hexec, fun hwaits hs => ?_⟩
    fun j _ hj => by rw [hlock]; exact hj
  rcases RerunnableThread.executorFunction_waits hexec hwaits with hidle | ⟨he, heq⟩
  · exact absurd hidle hs
  · rw [hlock]
    exact (h k th hk).2 (.inl he) (heq ▸ hs)

theorem executor_due (hpool : PoolSound pool fl bl) (hstep : pool.executor k = some pool') :
    pool'.threadsDue < pool.threadsDue := by
  obtain ⟨th, th', hk, hexec, hthreads, -, hnext⟩ := executor_thread hpool hstep
  have hth := (hpool.threads k th hk).sound
  have hlt : k < pool.nextThread := (hpool.created k).mp (by rw [hk]; rfl)
  have hsum := threadsDue_update _ hk hlt hthreads hnext
  obtain ⟨job, hphase, -⟩ := hth.job
  have hdue := RerunnableThread.executorFunction_due hphase hth.woken hexec
  omega

theorem LockDue.congr {n : ℕ} (h : pool.LockDue fl bl n) (hlock : pool'.lock = pool.lock) :
    pool'.LockDue fl bl n := by
  unfold LockDue at h ⊢
  rw [hlock]
  exact h

theorem Going.executor {n : ℕ} (h : pool.Going n) (hstep : pool.executor k = some pool') :
    ∃ n' < n, pool'.Going n' := by
  obtain ⟨fl, bl, m, hpool, hnotified, hdue, rfl⟩ := h
  obtain ⟨-, -, -, -, -, hlock, -⟩ := executor_thread hpool hstep
  have hlt := executor_due hpool hstep
  obtain ⟨fl', bl', hpool', hlists⟩ := hpool.executor hstep
  refine ⟨m + pool'.threadsDue, by omega, fl', bl', m, hpool', hnotified.executor hpool hstep, ?_, rfl⟩
  by_cases hfree : pool.lock = .free
  · unfold LockDue at hdue ⊢
    rw [hlock, hfree]
    rwa [hfree] at hdue
  · obtain ⟨rfl, rfl⟩ := hlists hfree
    exact hdue.congr hlock

/-! ### The holder of the lock -/

/-- The element after `el` in its list. -/
theorem shutdownLists_next (hpool : PoolSound pool fl bl) {busy : Bool} {el : ElementId}
    {done rest : List ElementId} (hlist : (shutdownLists busy fl bl).1 = done ++ el :: rest) :
    pool.elements el = some ⟨done.getLast?, rest.head?⟩ := by
  cases busy with
  | false =>
    have hq : IsQueue pool.elements pool.free (done ++ el :: rest) := hlist ▸ hpool.free
    exact hq.popped_element
  | true =>
    have hq : IsQueue pool.elements pool.busy (done ++ el :: rest) := hlist ▸ hpool.busy
    exact hq.popped_element

theorem shutdownLists_thread (hpool : PoolSound pool fl bl) {busy : Bool} {el : ElementId}
    (hmem : el ∈ (shutdownLists busy fl bl).1) : ∃ th, pool.threads el = some th := by
  apply Option.isSome_iff_exists.mp
  cases busy with
  | false => exact hpool.mem_iff.mp (.inl hmem)
  | true => exact hpool.mem_iff.mp (.inr hmem)

/-- `shutdown_all` goes on to the next element. -/
theorem shutdownNext_due {busy : Bool} {el : ElementId} {done rest : List ElementId}
    (hel : pool.elements el = some ⟨done.getLast?, rest.head?⟩)
    (hlist : (shutdownLists busy fl bl).1 = done ++ el :: rest) :
    ∃ pool', pool.shutdownNext busy el = some pool' ∧ pool'.threads = pool.threads ∧
      pool'.nextThread = pool.nextThread ∧ pool'.lock.notifying = none ∧
      pool'.LockDue fl bl (200 * (rest.length + (shutdownLists busy fl bl).2.length) +
        if busy then 1 else 2) := by
  refine ⟨{ pool with lock := .shutdown busy rest.head? 0 }, ?_, rfl, rfl, rfl, ?_⟩
  · rw [shutdownNext, hel]
    rfl
  · refine ⟨by decide, fun _ => rfl, done ++ [el], rest, ?_, rfl, rfl⟩
    rw [hlist, List.append_assoc]
    rfl

/-- The holder writes a thread. -/
theorem going_setThread {m m' : ℕ} (hpool : PoolSound pool fl bl)
    (hstep : pool.holder = some pool') (hk : pool.threads k = some th)
    (hthreads : pool'.threads = Function.update pool.threads k (some th'))
    (hnext : pool'.nextThread = pool.nextThread) (hnotified : pool'.Notified)
    (hdue : pool'.LockDue fl bl m') (hlt : m' + th'.thread.due < m + th.thread.due) :
    ∃ n' < m + pool.threadsDue, pool'.Going n' := by
  have hsum := threadsDue_update pool' hk ((hpool.created k).mp (by rw [hk]; rfl)) hthreads hnext
  exact ⟨m' + pool'.threadsDue, by omega, fl, bl, m', hpool.holder hstep, hnotified, hdue, rfl⟩

/-- The holder writes a thread, and `shutdown_all` goes on to the next element. -/
theorem going_shutdownNext {m : ℕ} {busy : Bool} {el : ElementId} {done rest : List ElementId}
    {thread : RerunnableThread} (hpool : PoolSound pool fl bl)
    (hlist : (shutdownLists busy fl bl).1 = done ++ el :: rest) (hk : pool.threads el = some th)
    (hholder : pool.holder = (pool.setThread el { th with thread := thread }).shutdownNext busy el)
    (hnotified : ∀ pool' : WorkerPool, pool'.threads =
      Function.update pool.threads el (some { th with thread := thread }) → pool'.Notified)
    (hlt : 200 * (rest.length + (shutdownLists busy fl bl).2.length) + (if busy then 1 else 2) +
      thread.due < m + th.thread.due) :
    ∃ pool', pool.holder = some pool' ∧ ∃ n' < m + pool.threadsDue, pool'.Going n' := by
  have hel : (pool.setThread el { th with thread := thread }).elements el =
      some ⟨done.getLast?, rest.head?⟩ := shutdownLists_next hpool hlist
  obtain ⟨pool', hnext, hthreads, hnextThread, -, hdue⟩ := shutdownNext_due hel hlist
  have hstep : pool.holder = some pool' := hholder.trans hnext
  exact ⟨pool', hstep, going_setThread hpool hstep hk hthreads hnextThread (hnotified pool' hthreads)
    hdue hlt⟩

/-- The holder writes no thread. -/
theorem going_handOn {m m' : ℕ} (hpool : PoolSound pool fl bl) (hstep : pool.holder = some pool')
    (hthreads : pool'.threads = pool.threads) (hnext : pool'.nextThread = pool.nextThread)
    (hnotified : pool'.Notified) (hdue : pool'.LockDue fl bl m') (hlt : m' < m) :
    ∃ n' < m + pool.threadsDue, pool'.Going n' := by
  have hsame : pool'.threadsDue = pool.threadsDue := by
    unfold threadsDue dueOf
    rw [hthreads, hnext]
  exact ⟨m' + pool'.threadsDue, by omega, fl, bl, m', hpool.holder hstep, hnotified, hdue, rfl⟩

theorem Going.shutdownHolder {n i : ℕ} {busy : Bool} {el : ElementId} (h : pool.Going n)
    (hlock : pool.lock = .shutdown busy (some el) i) :
    ∃ pool', pool.holder = some pool' ∧ ∃ n' < n, pool'.Going n' := by
  obtain ⟨fl, bl, m, hpool, hnotified, hdue, rfl⟩ := h
  simp only [LockDue, hlock] at hdue
  obtain ⟨hi, -, done, rest', hlist, hel, hm⟩ := hdue
  obtain ⟨rest, rfl⟩ : ∃ rest, rest' = el :: rest := by
    cases rest' with
    | nil => cases hel
    | cons x rest =>
      obtain rfl := Option.some.inj hel
      exact ⟨rest, rfl⟩
  rw [List.length_cons] at hm
  have hmem : el ∈ (shutdownLists busy fl bl).1 := by
    rw [hlist]
    simp
  obtain ⟨th, hk⟩ := shutdownLists_thread hpool hmem
  have hel := shutdownLists_next hpool hlist
  have hsome : ∀ j, pool.lock.notifying ≠ some j := fun j hj => by
    rw [hlock] at hj
    cases hj
  obtain ⟨hstarted, hwaits⟩ := hnotified el th hk
  have hconst : (if busy then 1 else 2 : ℕ) ≤ 2 := by split <;> omega
  -- `shutdown_all` goes on, behind a turn that wrote the thread
  have hskip {thread : RerunnableThread} (hthread : thread.executor = th.thread.executor)
      (hdue : thread.due ≤ th.thread.due) (hidle : th.thread.status ≠ .idle)
      (hholder : pool.holder = (pool.setThread el { th with thread := thread }).shutdownNext busy el) :
      ∃ pool', pool.holder = some pool' ∧ ∃ n' < m + pool.threadsDue, pool'.Going n' := by
    refine going_shutdownNext hpool hlist hk hholder (fun pool' hthreads => ?_) (by omega)
    refine hnotified.update hthreads ⟨by rw [hthread]; exact hstarted, fun hw _ => ?_⟩
      fun j _ hj => absurd hj (hsome j)
    rw [hthread] at hw
    exact absurd (hwaits hw hidle) (hsome el)
  by_cases hlast : i < 149
  · cases hturn : th.thread.rrtGracefulShutdown with
    | mk result thread =>
      have hexecutor : thread.executor = th.thread.executor := by
        have he : th.thread.rrtGracefulShutdown.2.executor = th.thread.executor :=
          RerunnableThread.rrtGracefulShutdown_executor
        rwa [hturn] at he
      have hmore : thread.due ≤ th.thread.due + 14 ∧
          (result ≠ .notifyThenSuccess → thread.due ≤ th.thread.due) := by
        have hdue := @RerunnableThread.rrtGracefulShutdown_due th.thread
        rwa [hturn] at hdue
      have hidle (he : th.thread.status = .idle) :
          result = .tryAgain ∨ result = .notifyThenSuccess := by
        have hresult := RerunnableThread.rrtGracefulShutdown_of_idle he
        rwa [hturn] at hresult
      cases result with
      | tryAgain =>
        have hstep : pool.holder = some { pool with lock := .shutdown busy (some el) (i + 1) } := by
          simp only [holder, hlock, if_pos hlast, hk, hturn, Option.bind_eq_bind, Option.bind_some]
          rfl
        have hdue' : LockDue { pool with lock := .shutdown busy (some el) (i + 1) } fl bl (m - 1) := by
          refine ⟨hlast, fun he => (by cases he), done, el :: rest, hlist, rfl, ?_⟩
          rw [List.length_cons]
          omega
        exact ⟨_, hstep, going_handOn hpool hstep rfl rfl
          (hnotified.handOn rfl fun j hj => absurd hj (hsome j)) hdue' (by omega)⟩
      | notifyThenSuccess =>
        have hstep : pool.holder = some { pool.setThread el { th with thread := thread } with
            lock := .shutdownNotify busy el } := by
          simp only [holder, hlock, if_pos hlast, hk, hturn, Option.bind_eq_bind, Option.bind_some]
          rfl
        refine ⟨_, hstep, going_setThread hpool hstep hk rfl rfl ?_ ⟨done, rest, hlist, rfl⟩ ?_⟩
        · exact hnotified.update rfl ⟨by rw [hexecutor]; exact hstarted, fun _ _ => rfl⟩
            fun j _ hj => absurd hj (hsome j)
        · show _ + thread.due < _
          omega
      | success =>
        have hholder : pool.holder =
            (pool.setThread el { th with thread := thread }).shutdownNext busy el := by
          simp only [holder, hlock, if_pos hlast, hk, hturn, Option.bind_eq_bind, Option.bind_some]
        exact hskip hexecutor (hmore.2 (by simp)) (fun he => by simpa using hidle he) hholder
      | illegalRequest =>
        have hholder : pool.holder =
            (pool.setThread el { th with thread := thread }).shutdownNext busy el := by
          simp only [holder, hlock, if_pos hlast, hk, hturn, Option.bind_eq_bind, Option.bind_some]
        exact hskip hexecutor (hmore.2 (by simp)) (fun he => by simpa using hidle he) hholder
  · obtain ⟨pool₁, hnext, hthreads, hnextThread, -, hdue⟩ := shutdownNext_due hel hlist
    have hstep : pool.holder = some pool₁ := by
      rw [← hnext]
      simp only [holder, hlock, if_neg hlast]
    exact ⟨pool₁, hstep, going_handOn hpool hstep hthreads hnextThread
      (hnotified.handOn hthreads fun j hj => absurd hj (hsome j)) hdue (by omega)⟩

/-- `shutdown_all` is through with a list. -/
theorem Going.shutdownEnd {n i : ℕ} {busy : Bool} (h : pool.Going n)
    (hlock : pool.lock = .shutdown busy none i) :
    ∃ pool', pool.holder = some pool' ∧ ∃ n' < n, pool'.Going n' := by
  obtain ⟨fl, bl, m, hpool, hnotified, hdue, rfl⟩ := h
  simp only [LockDue, hlock] at hdue
  obtain ⟨-, hi, done, rest, hlist, hel, hm⟩ := hdue
  obtain rfl := hi trivial
  obtain rfl : rest = [] := List.head?_eq_none_iff.mp hel.symm
  have hsome : ∀ j, pool.lock.notifying ≠ some j := fun j hj => by
    rw [hlock] at hj
    cases hj
  cases busy with
  | false =>
    have hstep : pool.holder = some { pool with lock := .shutdown true pool.busy.head 0 } := by
      simp only [holder, hlock]
    have hdue : LockDue { pool with lock := .shutdown true pool.busy.head 0 } fl bl
        (200 * bl.length + 1) :=
      ⟨by decide, fun _ => rfl, [], bl, rfl, hpool.busy.head, rfl⟩
    refine ⟨_, hstep, going_handOn hpool hstep rfl rfl
      (hnotified.handOn rfl fun j hj => absurd hj (hsome j)) hdue ?_⟩
    simp [shutdownLists] at hm
    omega
  | true =>
    have hstep : pool.holder = some { pool with lock := .free } := by
      simp only [holder, hlock]
    have hdue : LockDue { pool with lock := .free } fl bl 0 := rfl
    refine ⟨_, hstep, going_handOn hpool hstep rfl rfl
      (hnotified.handOn rfl fun j hj => absurd hj (hsome j)) hdue ?_⟩
    simp [shutdownLists] at hm
    omega

theorem Going.submitRerun {n : ℕ} {use : ElementId} {task : Task} (h : pool.Going n)
    (hlock : pool.lock = .submitRerun use task) :
    ∃ pool', pool.holder = some pool' ∧ ∃ n' < n, pool'.Going n' := by
  obtain ⟨fl, bl, m, hpool, hnotified, hdue, rfl⟩ := h
  have hsound := hpool.lock
  simp only [LockSound, hlock] at hsound
  simp only [LockDue, hlock] at hdue
  obtain ⟨havailable, -, th, hk, hrest, hexecutor, hparam⟩ := hsound
  have hth := hpool.threads use th hk
  obtain ⟨thread, htry, hbusy, -⟩ := hth.sound.rrtTryRerunIfFree hrest hexecutor hparam
    (hrest.idle (hth.available havailable))
  have hthread : thread.executor = th.thread.executor ∧ thread.due ≤ th.thread.due + 14 := by
    have he := @RerunnableThread.rrtTryRerunIfFree_executor th.thread .workerPoolExecFunction (some use)
    have hmore := @RerunnableThread.rrtTryRerunIfFree_due th.thread .workerPoolExecFunction (some use)
    rw [htry] at he hmore
    exact ⟨he, hmore⟩
  have hstep : pool.holder = some { pool.setThread use { th with thread := thread } with
      assigned := pool.assigned ++ [(use, task)], lock := .submitNotify use task } := by
    simp only [holder, hlock, hk, htry, Option.bind_eq_bind, Option.bind_some]
    rfl
  have hdue' : LockDue { pool.setThread use { th with thread := thread } with
      assigned := pool.assigned ++ [(use, task)], lock := .submitNotify use task } fl bl 2 := rfl
  refine ⟨_, hstep, going_setThread hpool hstep hk rfl rfl ?_ hdue' ?_⟩
  · refine hnotified.update rfl ⟨by rw [hthread.1]; exact (hnotified use th hk).1, fun _ _ => rfl⟩
      fun j _ hj => ?_
    rw [hlock] at hj
    cases hj
  · show 2 + thread.due < _
    omega

theorem Going.submitReturn {n : ℕ} {task : Task} {ret : Bool} (h : pool.Going n)
    (hlock : pool.lock = .submitReturn task ret) :
    ∃ pool', pool.holder = some pool' ∧ ∃ n' < n, pool'.Going n' := by
  obtain ⟨fl, bl, m, hpool, hnotified, hdue, rfl⟩ := h
  simp only [LockDue, hlock] at hdue
  subst hdue
  have hstep : pool.holder = some { pool with
      returned := pool.returned ++ [(task, if ret then .success else .resourceBusy)]
      lock := .free } := by
    simp only [holder, hlock]
  have hdue : LockDue { pool with
      returned := pool.returned ++ [(task, if ret then .success else .resourceBusy)]
      lock := .free } fl bl 0 := rfl
  refine ⟨_, hstep, going_handOn hpool hstep rfl rfl (hnotified.handOn rfl fun j hj => ?_)
    hdue Nat.zero_lt_one⟩
  rw [hlock] at hj
  cases hj

/-- The holder is about to notify a thread that it has just written. -/
theorem Going.notifying {n : ℕ} {k : ElementId} (h : pool.Going n)
    (hlock : pool.lock.notifying = some k) :
    ∃ th, pool.threads k = some th ∧
      (th.thread.holdsMutex = false → ∃ pool', pool.holder = some pool') ∧
      ∀ pool', pool.holder = some pool' → ∃ n' < n, pool'.Going n' := by
  obtain ⟨fl, bl, m, hpool, hnotified, hdue, rfl⟩ := h
  have hsound := hpool.lock
  have hnotify {th : PoolThread} (hmutex : th.thread.holdsMutex = false) :
      ∃ thread, th.thread.notifyJob = some thread := by
    rw [RerunnableThread.notifyJob, if_neg (by simp [hmutex])]
    exact ⟨_, rfl⟩
  -- the notified thread does not wait any more
  have hupdate {th : PoolThread} {thread : RerunnableThread} {pool' : WorkerPool}
      (hk : pool.threads k = some th) (hnotify : th.thread.notifyJob = some thread)
      (hthreads : pool'.threads = Function.update pool.threads k (some { th with thread := thread })) :
      pool'.Notified := by
    refine hnotified.update hthreads ⟨?_, fun hw => ?_⟩ fun j hj hother => ?_
    · rcases RerunnableThread.notifyJob_cases hnotify with rfl | ⟨-, rfl⟩
      · exact (hnotified k th hk).1
      · simp
    · exact absurd hw (RerunnableThread.notifyJob_waits hnotify)
    · exact absurd (Option.some.inj (hother.symm.trans hlock)) hj
  cases hl : pool.lock with
  | submitNotify use task =>
    obtain rfl : use = k := by simpa [hl, PoolLock.notifying] using hlock
    simp only [LockSound, hl] at hsound
    simp only [LockDue, hl] at hdue
    obtain ⟨th, hk⟩ := Option.isSome_iff_exists.mp (hpool.mem_iff.mp (.inr hsound))
    have hth := hpool.threads use th hk
    have hwait : th.thread.executor = .waiting → th.thread.status ≠ .idle := fun he hs => by
      obtain ⟨f, p, hbecame⟩ := hth.working hsound hs (by rw [hl]; simp [PoolLock.rerunning])
      cases he.symm.trans hbecame
    refine ⟨th, hk, fun hmutex => ?_, fun pool' hstep => ?_⟩
    · obtain ⟨thread, hthread⟩ := hnotify hmutex
      simp only [holder, hl, hk, hthread, Option.bind_eq_bind, Option.bind_some]
      exact ⟨_, rfl⟩
    · have hstep' := hstep
      simp only [holder, hl, hk, Option.bind_eq_bind, Option.bind_some,
        Option.bind_eq_some_iff] at hstep'
      obtain ⟨thread, hthread, hpool'⟩ := hstep'
      obtain rfl := Option.some.inj hpool'
      have hdue' : LockDue { pool.setThread use { th with thread := thread } with
          lock := .submitReturn task true } fl bl 1 := rfl
      refine going_setThread hpool hstep hk rfl rfl (hupdate hk hthread rfl) hdue' ?_
      have hless := RerunnableThread.notifyJob_due hwait hthread
      show 1 + thread.due < _
      omega
  | shutdownNotify busy el =>
    obtain rfl : el = k := by simpa [hl, PoolLock.notifying] using hlock
    simp only [LockSound, hl] at hsound
    simp only [LockDue, hl] at hdue
    obtain ⟨done, rest, hlist, rfl⟩ := hdue
    have hmem : el ∈ (shutdownLists busy fl bl).1 := by
      rw [hlist]
      simp
    obtain ⟨th, hk⟩ := shutdownLists_thread hpool hmem
    have hnext {thread : RerunnableThread} (hthread : th.thread.notifyJob = some thread) :
        ∃ pool', pool.holder = some pool' ∧
          ∃ n' < 200 * (rest.length + (shutdownLists busy fl bl).2.length) + 30 + pool.threadsDue,
            pool'.Going n' := by
      have hholder : pool.holder =
          (pool.setThread el { th with thread := thread }).shutdownNext busy el := by
        simp only [holder, hl, hk, hthread, Option.bind_eq_bind, Option.bind_some]
      have hless := RerunnableThread.notifyJob_due (fun _ => (hsound.2 th hk).1) hthread
      have hconst : (if busy then 1 else 2 : ℕ) ≤ 2 := by split <;> omega
      exact going_shutdownNext hpool hlist hk hholder (fun _ hthreads => hupdate hk hthread hthreads)
        (by omega)
    refine ⟨th, hk, fun hmutex => ?_, fun pool' hstep => ?_⟩
    · obtain ⟨thread, hthread⟩ := hnotify hmutex
      obtain ⟨pool', hstep, -⟩ := hnext hthread
      exact ⟨pool', hstep⟩
    · have hstep' := hstep
      simp only [holder, hl, hk, Option.bind_eq_bind, Option.bind_some,
        Option.bind_eq_some_iff] at hstep'
      obtain ⟨thread, hthread, -⟩ := hstep'
      obtain ⟨pool₁, hstep₁, hgoing⟩ := hnext hthread
      obtain rfl := Option.some.inj (hstep.symm.trans hstep₁)
      exact hgoing
  | free | submitRerun | submitReturn | shutdown =>
    rw [hl] at hlock
    cases hlock

theorem Going.holder {n : ℕ} (h : pool.Going n) (hstep : pool.holder = some pool') :
    ∃ n' < n, pool'.Going n' := by
  have hstepped (hdoes : ∃ pool₁, pool.holder = some pool₁ ∧ ∃ n' < n, pool₁.Going n') :
      ∃ n' < n, pool'.Going n' := by
    obtain ⟨pool₁, hstep₁, hgoing⟩ := hdoes
    obtain rfl := Option.some.inj (hstep₁.symm.trans hstep)
    exact hgoing
  cases hlock : pool.lock with
  | free =>
    rw [WorkerPool.holder, hlock] at hstep
    cases hstep
  | submitRerun use task => exact hstepped (h.submitRerun hlock)
  | submitReturn task ret => exact hstepped (h.submitReturn hlock)
  | shutdown busy el i =>
    cases el with
    | none => exact hstepped (h.shutdownEnd hlock)
    | some el => exact hstepped (h.shutdownHolder hlock)
  | submitNotify use task | shutdownNotify busy el =>
    obtain ⟨th, -, -, hgoing⟩ := h.notifying (by rw [hlock]; rfl)
    exact hgoing pool' hstep

theorem Going.step {n : ℕ} {c : PoolSection} (h : pool.Going n) (hc : c.Internal)
    (hstep : pool.step c = some pool') : ∃ n' < n, pool'.Going n' := by
  cases c with
  | holder => exact h.holder hstep
  | executor k => exact h.executor hstep
  | submit | shutdown | getStatus | waitExit | poll | destroy => exact hc.elim

/-! ### The calls -/

/-- Where the section that begins a call leaves the lock. -/
theorem LockDue.begins (hpool : PoolSound pool fl bl) (hlock : pool.lock = .free ∨
    (∃ use task, pool.lock = .submitRerun use task) ∨
    pool.lock = .shutdown false pool.free.head 0) : ∃ m, pool.LockDue fl bl m := by
  rcases hlock with hl | ⟨use, task, hl⟩ | hl
  · exact ⟨0, by rw [LockDue, hl]⟩
  · exact ⟨17, by rw [LockDue, hl]⟩
  · refine ⟨200 * (fl.length + bl.length) + 2, ?_⟩
    rw [LockDue, hl]
    exact ⟨by decide, fun _ => rfl, [], fl, rfl, hpool.free.head, rfl⟩

theorem submitTo_begins {use : ElementId} {task : Task} (h : pool.Notified)
    (hlock : pool.lock = .free) (hstep : submitTo use task pool = some pool') :
    pool'.Notified ∧ ∃ use task, pool'.lock = .submitRerun use task := by
  simp only [submitTo, Option.bind_eq_bind, Option.bind_eq_some_iff] at hstep
  obtain ⟨r, -, th, hk, hstep⟩ := hstep
  obtain rfl := Option.some.inj hstep
  have hnone {j : ElementId} (hj : pool.lock.notifying = some j) : False := by
    rw [hlock] at hj
    cases hj
  obtain ⟨hstarted, hwaits⟩ := h use th hk
  exact ⟨h.update rfl ⟨hstarted, fun hw hs => (hnone (hwaits hw hs)).elim⟩
    fun j _ hj => (hnone hj).elim, use, task, rfl⟩

theorem newPoolThread_notified (h : pool.Notified) : (newPoolThread true pool).2.Notified := by
  have hnew : (⟨.idle, none, none, .waitForJob⟩ : RerunnableThread).executor ≠ .notStarted := by
    simp
  exact h.update rfl ⟨hnew, fun _ hs => absurd rfl hs⟩ fun _ _ hj => hj

theorem wpSubmitTask_begins {task : Task} {created : Bool} (h : pool.Notified)
    (hlock : pool.lock = .free) (hstep : pool.wpSubmitTask task created = some pool') :
    pool'.Notified ∧ (pool'.lock = .free ∨ ∃ use task, pool'.lock = .submitRerun use task) := by
  unfold wpSubmitTask at hstep
  split at hstep
  · obtain rfl := Option.some.inj hstep
    exact ⟨h, .inl hlock⟩
  · simp only [Option.bind_eq_bind, Option.bind_eq_some_iff] at hstep
    obtain ⟨⟨use, elements, free⟩, -, hstep⟩ := hstep
    cases use with
    | some use =>
      have hstep : submitTo use task { pool with elements := elements, free := free } =
          some pool' := hstep
      have hpopped : Notified { pool with elements := elements, free := free } :=
        h.handOn rfl fun _ hj => hj
      obtain ⟨h', hlock'⟩ := submitTo_begins hpopped hlock hstep
      exact ⟨h', .inr hlock'⟩
    | none =>
      cases created with
      | true =>
        have hstep : submitTo pool.nextThread task (newPoolThread true pool).2 = some pool' := hstep
        obtain ⟨h', hlock'⟩ := submitTo_begins (newPoolThread_notified h) hlock hstep
        exact ⟨h', .inr hlock'⟩
      | false =>
        obtain rfl := Option.some.inj hstep
        exact ⟨h, .inl hlock⟩

theorem waitExitPoll_begins (h : pool.Notified) (hstep : waitExitPoll pool = some pool') :
    pool'.Notified ∧ pool'.lock = pool.lock := by
  obtain ⟨exited, -, rfl⟩ := waitExitPoll_eq_some hstep
  exact ⟨h, rfl⟩

theorem Notified.begins {c : PoolSection} (h : pool.Notified) (hc : ¬ c.Internal)
    (hdestroy : c ≠ .destroy) (hstep : pool.step c = some pool') :
    pool'.Notified ∧ (pool'.lock = .free ∨ (∃ use task, pool'.lock = .submitRerun use task) ∨
      pool'.lock = .shutdown false pool'.free.head 0) := by
  cases c with
  | holder => exact absurd trivial hc
  | executor k => exact absurd trivial hc
  | destroy => exact absurd rfl hdestroy
  | submit task created =>
    obtain ⟨hlock, -, hstep⟩ := locked_eq_some hstep
    obtain ⟨h', hlock'⟩ := wpSubmitTask_begins h hlock hstep
    exact ⟨h', hlock'.imp_right .inl⟩
  | shutdown =>
    obtain ⟨hlock, -, hstep⟩ := locked_eq_some hstep
    obtain rfl := Option.some.inj hstep
    unfold wpShutdown
    split
    · refine ⟨h.handOn rfl fun j hj => ?_, .inr (.inr rfl)⟩
      rw [hlock] at hj
      cases hj
    · exact ⟨h, .inl hlock⟩
  | getStatus =>
    obtain ⟨hlock, -, hstep⟩ := locked_eq_some hstep
    obtain rfl := Option.some.inj hstep
    exact ⟨h, .inl hlock⟩
  | waitExit =>
    obtain ⟨hlock, -, hstep⟩ := locked_eq_some hstep
    unfold wpWaitExit at hstep
    split at hstep
    · obtain rfl := Option.some.inj hstep
      exact ⟨h, .inl hlock⟩
    · have hexited : Notified { pool with status := .exited } := h.handOn rfl fun _ hj => hj
      obtain ⟨h', hlock'⟩ := waitExitPoll_begins hexited hstep
      exact ⟨h', .inl (hlock'.trans hlock)⟩
  | poll =>
    obtain ⟨hlock, -, hstep⟩ := locked_eq_some hstep
    split at hstep
    · obtain ⟨h', hlock'⟩ := waitExitPoll_begins h hstep
      exact ⟨h', .inl (hlock'.trans hlock)⟩
    · cases hstep

theorem going_begins {n : ℕ} {c : PoolSection} (h : pool.Going n) (hdestroy : c ≠ .destroy)
    (hstep : pool.step c = some pool') : ∃ n', pool'.Going n' := by
  by_cases hc : c.Internal
  · obtain ⟨n', -, hgoing⟩ := h.step hc hstep
    exact ⟨n', hgoing⟩
  · obtain ⟨fl, bl, m, hpool, hnotified, -, -⟩ := h
    obtain ⟨fl', bl', hpool'⟩ := hpool.step hdestroy hstep
    obtain ⟨hnotified', hlock'⟩ := hnotified.begins hc hdestroy hstep
    obtain ⟨m', hdue'⟩ := LockDue.begins hpool' hlock'
    exact ⟨_, fl', bl', m', hpool', hnotified', hdue', rfl⟩

theorem wpInit_going : WorkerPool.wpInit.Going 0 :=
  ⟨[], [], 0, wpInit_sound, fun _ _ hk => (by cases hk), rfl, rfl⟩

theorem run_going {sections : List PoolSection} (hsections : .destroy ∉ sections)
    (hrun : Run.run step .wpInit sections = some pool) : ∃ n, pool.Going n := by
  have hmeets : Run.Meets step (fun _ c => c ≠ .destroy) .wpInit sections :=
    Run.meets_of_forall fun _ hc _ => ne_of_mem_of_not_mem hc hsections
  exact Run.run_invariant_of_meets (fun pool => ∃ n, pool.Going n)
    (fun _ _ _ ⟨_, h⟩ hc hstep => going_begins h hc hstep) sections .wpInit pool
    ⟨0, wpInit_going⟩ hmeets hrun

/-! ### When nobody can go on -/

/-- A thread that became idle gets into the free list. -/
theorem onRelease_enabled (hpool : PoolSound pool fl bl) (hk : pool.threads k = some th)
    {f : JobFunction} {p : Option ℕ} (he : th.thread.executor = .becameIdle f p) :
    ∃ pool', pool.onRelease k th p = some pool' := by
  obtain rfl : p = some k := (hpool.threads k th hk).sound.current p (by rw [he]; rfl)
  have hbl : k ∈ bl := hpool.mem_busy hk fun hr => by
    have hresting := hr.executor
    rw [he] at hresting
    exact hresting
  obtain ⟨l₁, l₂, rfl⟩ := List.append_of_mem hbl
  obtain ⟨-, hnbl, hdisj⟩ := List.nodup_append.mp hpool.nodup
  have hnk : k ∉ l₁ ++ l₂ := (List.nodup_cons.mp (List.nodup_middle.mp hnbl)).1
  obtain ⟨E₁, busy, hpop, -, hother₁⟩ := queuePopIntermediateElement_spec hpool.busy
  have hfree₁ : IsQueue E₁ pool.free fl := by
    refine hpool.free.congr fun y hy => hother₁ y fun hy' => hdisj y hy y ?_ rfl
    exact List.mem_append.mpr ((List.mem_append.mp hy').imp_right (List.mem_cons_of_mem k))
  have halloc : (E₁ k).isSome := by
    rw [hother₁ k hnk]
    exact hpool.busy.allocated hbl
  obtain ⟨E₂, free, hadd, -, -⟩ :=
    queueAddElement_spec hfree₁ halloc fun hkfl => hdisj k hkfl k hbl rfl
  have hexec : th.thread.executorFunction = some { th.thread with executor := .waitForJob } := by
    rw [RerunnableThread.executorFunction, he]
  simp only [onRelease, hpop, hadd, hexec, Option.bind_eq_bind, Option.bind_some]
  exact ⟨_, rfl⟩

/-- An executor that is stuck waits, has exited, or needs the lock. -/
theorem executor_enabled (hpool : PoolSound pool fl bl) (hk : pool.threads k = some th)
    (hstuck : pool.executor k = none) (hstarted : th.thread.executor ≠ .notStarted) :
    th.thread.executor = .waiting ∨ th.thread.executor = .exited ∨
    pool.lock ≠ .free ∧ ∃ f p, th.thread.executor = .becameIdle f p := by
  have hth := hpool.threads k th hk
  by_contra hgoes
  rw [not_or, not_or] at hgoes
  obtain ⟨hwaiting, hexited, hidle⟩ := hgoes
  obtain ⟨thread, hexec⟩ : ∃ thread, th.thread.executorFunction = some thread := by
    refine Option.ne_none_iff_exists'.mp fun hnone => ?_
    rcases RerunnableThread.executorFunction_eq_none hnone with he | he | he | he
    · exact hstarted he
    · exact hwaiting he
    · exact hexited he
    · exact hth.sound.not_crashed he
  simp only [executor, hk, Option.bind_eq_bind, Option.bind_some] at hstuck
  split at hstuck
  · next p he =>
    obtain ⟨-, rfl, hsome, -⟩ := hth.sound.calls he
    simp [workerPoolExecFunction, hk, hsome, hexec] at hstuck
  · next f p he =>
    by_cases hlock : pool.lock = .free
    · obtain ⟨pool', hrelease⟩ := onRelease_enabled hpool hk he
      rw [if_pos hlock, hrelease] at hstuck
      cases hstuck
    · exact hidle ⟨hlock, f, p, he⟩
  · rw [hexec] at hstuck
    cases hstuck

/-- The holder of the lock, or the executor it waits for, can go on. -/
theorem Going.free_of_stuck {n : ℕ} (h : pool.Going n) (hholder : pool.holder = none)
    (hexecutor : ∀ k, pool.executor k = none) : pool.lock = .free := by
  have hgoes (hdoes : ∃ pool', pool.holder = some pool' ∧ ∃ n' < n, pool'.Going n') : False := by
    obtain ⟨pool', hstep, -⟩ := hdoes
    cases hholder.symm.trans hstep
  cases hlock : pool.lock with
  | free => rfl
  | submitRerun use task => exact (hgoes (h.submitRerun hlock)).elim
  | submitReturn task ret => exact (hgoes (h.submitReturn hlock)).elim
  | shutdown busy el i =>
    cases el with
    | none => exact (hgoes (h.shutdownEnd hlock)).elim
    | some el => exact (hgoes (h.shutdownHolder hlock)).elim
  | submitNotify | shutdownNotify =>
    obtain ⟨th, hk, henabled, -⟩ := h.notifying (by rw [hlock]; rfl)
    cases hmutex : th.thread.holdsMutex with
    | false =>
      obtain ⟨pool', hstep⟩ := henabled hmutex
      cases hholder.symm.trans hstep
    | true =>
      -- the executor lets the mutex go
      obtain ⟨fl, bl, m, hpool, hnotified, -, -⟩ := h
      have hstuck := executor_enabled hpool hk (hexecutor _) (hnotified _ th hk).1
      unfold RerunnableThread.holdsMutex at hmutex
      grind

end WorkerPool

/-- Nothing is left to do: the lock is free, every thread waits for a task or has exited, and each
    has called its tasks, which are those of the submissions that returned 0. -/
structure WorkerPool.Settled (pool : WorkerPool) : Prop where
  lock : pool.lock = .free
  threads : ∀ k th, pool.threads k = some th →
    th.thread.status = .idle ∧ th.thread.executor = .waiting ∨
    th.thread.status = .exited ∧ th.thread.executor = .exited
  called : ∀ k th, pool.threads k = some th → (pool.tasksOf k).map taskCall = th.called
  succeeded : pool.assigned.map Prod.snd = pool.succeeded

theorem WorkerPool.Going.settled {pool : WorkerPool} {n : ℕ} (h : pool.Going n)
    (hstuck : ∀ c : PoolSection, c.Internal → pool.step c = none) : pool.Settled := by
  have hlock := h.free_of_stuck (hstuck .holder trivial) fun k => hstuck (.executor k) trivial
  obtain ⟨fl, bl, m, hpool, hnotified, -, -⟩ := h
  have hthreads {k : ElementId} {th : PoolThread} (hk : pool.threads k = some th) :
      (th.thread.status = .idle ∧ th.thread.executor = .waiting ∨
        th.thread.status = .exited ∧ th.thread.executor = .exited) ∧ Phase th.thread none := by
    obtain ⟨hstarted, hwaits⟩ := hnotified k th hk
    obtain ⟨job, hphase, -⟩ := (hpool.threads k th hk).sound.job
    rcases executor_enabled hpool hk (hstuck (.executor k) trivial) hstarted with he | he | hheld
    · have hidle : th.thread.status = .idle := by
        by_contra hidle
        have hnotifying := hwaits (.inr he) hidle
        rw [hlock] at hnotifying
        cases hnotifying
      obtain ⟨-, -, rfl⟩ := hphase.eq_of_idle hidle
      exact ⟨.inl ⟨hidle, he⟩, hphase⟩
    · have hexited : th.thread.status = .exited ∧ job = none := by
        generalize th.thread = rrt at hphase he
        cases hphase with
        | free hout | poisoned hout | assigned hout =>
          obtain rfl : _ = Executor.exited := he
          exact hout.elim
        | fresh | read | working | clearRun | clearParameter | afterJob | leaving => cases he
        | exited => exact ⟨rfl, rfl⟩
      obtain ⟨hs, rfl⟩ := hexited
      exact ⟨.inr ⟨hs, he⟩, hphase⟩
    · exact absurd hlock hheld.1
  refine ⟨hlock, fun k th hk => (hthreads hk).1,
    fun k th hk => (hpool.threads k th hk).sound.owes_none (hthreads hk).2, ?_⟩
  rw [hpool.submitted, hlock]
  exact List.append_nil _

/-- From every pool that is reached, with tasks that return, the threads and the holder of the lock
    come to an end, and then nothing is left to do. -/
theorem pool_makes_progress {sections : List PoolSection} {pool : WorkerPool}
    (hsections : .destroy ∉ sections)
    (hrun : Run.run WorkerPool.step .wpInit sections = some pool) :
    (∃ n, ∀ internal : List PoolSection, (∀ c ∈ internal, c.Internal) →
      (Run.run WorkerPool.step pool internal).isSome → internal.length ≤ n) ∧
    ∀ (internal : List PoolSection) (pool' : WorkerPool), (∀ c ∈ internal, c.Internal) →
      Run.run WorkerPool.step pool internal = some pool' →
      (∀ c : PoolSection, c.Internal → pool'.step c = none) → pool'.Settled := by
  obtain ⟨n, hgoing⟩ := WorkerPool.run_going hsections hrun
  refine ⟨⟨n, fun internal hinternal hsome => ?_⟩, fun internal pool' hinternal hrun' hstuck => ?_⟩
  · exact Run.length_le_of_decreases (fun n pool => WorkerPool.Going n pool)
      (fun _ _ _ _ h hc hstep => h.step hc hstep) internal n pool hgoing hinternal hsome
  · have hdestroy : .destroy ∉ sections ++ internal := by
      rw [List.mem_append, not_or]
      exact ⟨hsections, fun hmem => hinternal _ hmem⟩
    have hrun'' : Run.run WorkerPool.step .wpInit (sections ++ internal) = some pool' := by
      rw [Run.run_append, hrun]
      exact hrun'
    obtain ⟨n', hgoing'⟩ := WorkerPool.run_going hdestroy hrun''
    exact hgoing'.settled hstuck

/-- A pool with one thread. -/
theorem PoolSound.stuck_of_one {pool : WorkerPool} {fl bl : List ElementId}
    (hpool : PoolSound pool fl bl) (hnext : pool.nextThread = 1) (hholder : pool.holder = none)
    (hexecutor : pool.executor 0 = none) (c : PoolSection) (hc : c.Internal) :
    pool.step c = none := by
  cases c with
  | holder => exact hholder
  | executor k =>
    by_cases hk : k = 0
    · rw [hk]
      exact hexecutor
    · have hnone : pool.threads k = none := by
        rw [← Option.not_isSome_iff_eq_none, hpool.created, hnext]
        exact fun hlt => hk (Nat.lt_one_iff.mp hlt)
      rw [WorkerPool.step, WorkerPool.executor, hnone]
      rfl
  | submit | shutdown | getStatus | waitExit | poll | destroy => exact hc.elim

/-- What follows the submission of one task. -/
def oneTask : List PoolSection := List.replicate 3 .holder ++ List.replicate 13 (.executor 0)

theorem pool_makes_progress_oneTask :
    ∃ pool pool', Run.run WorkerPool.step .wpInit [.submit (7, some 42) true] = some pool ∧
      Run.run WorkerPool.step pool oneTask = some pool' ∧ pool'.Settled ∧
      (pool'.threads 0).map PoolThread.called = some [(some 7, some 42)] := by
  -- what is seen of the pool in the end
  have hend : (Run.run WorkerPool.step .wpInit ([.submit (7, some 42) true] ++ oneTask)).map
      (fun pool => (pool.nextThread, pool.holder.isNone, (pool.executor 0).isNone,
        (pool.threads 0).map PoolThread.called)) =
      some (1, true, true, some [(some 7, some 42)]) := rfl
  obtain ⟨pool', hboth, hseen⟩ := Option.map_eq_some_iff.mp hend
  have hsplit := hboth
  rw [Run.run_append, Option.bind_eq_some_iff] at hsplit
  obtain ⟨pool, hrun, hrun'⟩ := hsplit
  simp only [Prod.mk.injEq, Option.isNone_iff_eq_none] at hseen
  obtain ⟨hnext, hholder, hexecutor, hcalled⟩ := hseen
  obtain ⟨fl, bl, hpool⟩ := PoolSound.run (by decide) hboth
  refine ⟨pool, pool', hrun, hrun', (pool_makes_progress (by decide) hrun).2 oneTask pool' ?_ hrun'
    (hpool.stuck_of_one hnext hholder hexecutor), hcalled⟩
  intro c hc
  rcases List.mem_append.mp hc with hc | hc
  · rw [List.eq_of_mem_replicate hc]
    trivial
  · rw [List.eq_of_mem_replicate hc]
    trivial

end LogxControll
