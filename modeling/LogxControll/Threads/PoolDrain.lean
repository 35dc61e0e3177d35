/-
  A worker pool that was shut down drains: its threads call the tasks that were accepted, and exit,
  and `wp_wait_exit` returns.
-/
import LogxControll.Threads.PoolProgress
import LogxControll.Threads.PoolExit

namespace LogxControll

namespace WorkerPool

/-- When `wp_shutdown` has let the lock go, all threads were told to exit; a task is only accepted
    before it. -/
def Closed (pool : WorkerPool) : Prop :=
  match pool.lock with
  | .submitNotify _ _ | .submitReturn _ _ => pool.status = .available
  | .free => pool.status ≠ .available → ∀ k th, pool.threads k = some th → th.thread.Stopped
  | _ => True

variable {pool pool' : WorkerPool} {fl bl : List ElementId} {k : ElementId}

theorem closed_of_free (hlock : pool.lock = .free) (hstopped : pool.status ≠ .available →
    ∀ k th, pool.threads k = some th → th.thread.Stopped) : pool.Closed := by
  rw [Closed, hlock]
  exact hstopped

theorem Closed.stopped (h : pool.Closed) (hlock : pool.lock = .free)
    (hstatus : pool.status ≠ .available) {th : PoolThread} (hk : pool.threads k = some th) :
    th.thread.Stopped := by
  rw [Closed, hlock] at h
  exact h hstatus k th hk

theorem Closed.executor (h : pool.Closed) (hpool : PoolSound pool fl bl)
    (hstep : pool.executor k = some pool') : pool'.Closed := by
  obtain ⟨th, th', hk, hexec, hthreads, hlock, -⟩ := executor_thread hpool hstep
  have hstatus : pool'.status = pool.status := by
    obtain ⟨-, -, -, -, -, -, hstatus, -⟩ := executor_threads hstep
    exact hstatus
  obtain ⟨job, hphase, -⟩ := (hpool.threads k th hk).sound.job
  unfold Closed at h ⊢
  rw [hlock, hstatus]
  split at h
  · exact h
  · exact h
  · refine fun havailable j x hj => ?_
    rw [hthreads] at hj
    by_cases hjk : j = k
    · subst hjk
      obtain rfl : th' = x := by simpa using hj
      exact (h havailable j th hk).executorFunction hphase.ended hexec
    · exact h havailable j x (by simpa [hjk] using hj)
  · trivial

theorem shutdownNext_closed {busy : Bool} {el : ElementId}
    (hstep : pool.shutdownNext busy el = some pool') : pool'.Closed := by
  obtain ⟨e, -, hstep⟩ := Option.bind_eq_some_iff.mp hstep
  obtain rfl := Option.some.inj hstep
  trivial

/-- All threads were told to exit when `wp_shutdown` returns. -/
theorem ShutdownSound.stopped {i : ℕ} (h : pool.ShutdownSound fl bl) (hpool : PoolSound pool fl bl)
    (hlock : pool.lock = .shutdown true none i) {th : PoolThread} (hk : pool.threads k = some th) :
    th.thread.Stopped := by
  simp only [ShutdownSound, hlock] at h
  obtain ⟨-, rest, hrest, hfree, told, hbl, htold⟩ := h
  obtain rfl : rest = [] := List.head?_eq_none_iff.mp hrest.symm
  rw [List.append_nil] at hbl
  rcases hpool.mem_iff.mpr (by rw [hk]; rfl) with hkfl | hkbl
  · exact hfree k hkfl th hk
  · exact htold k (hbl ▸ hkbl) th hk

theorem Closed.holder (h : pool.Closed) (hpool : PoolSound pool fl bl)
    (hshutdown : pool.ShutdownSound fl bl) (hstep : pool.holder = some pool') : pool'.Closed := by
  have hsound := hpool.lock
  cases hlock : pool.lock with
  | free =>
    rw [WorkerPool.holder, hlock] at hstep
    cases hstep
  | submitRerun use task =>
    simp only [LockSound, hlock] at hsound
    simp only [WorkerPool.holder, hlock, Option.bind_eq_bind, Option.bind_eq_some_iff] at hstep
    obtain ⟨th, -, hstep⟩ := hstep
    split at hstep <;> obtain rfl := Option.some.inj hstep <;> exact hsound.1
  | submitNotify use task =>
    rw [Closed, hlock] at h
    simp only [WorkerPool.holder, hlock, Option.bind_eq_bind, Option.bind_eq_some_iff] at hstep
    obtain ⟨th, -, thread, -, hstep⟩ := hstep
    obtain rfl := Option.some.inj hstep
    exact h
  | submitReturn task ret =>
    rw [Closed, hlock] at h
    simp only [WorkerPool.holder, hlock] at hstep
    obtain rfl := Option.some.inj hstep
    exact fun havailable => absurd h havailable
  | shutdown busy el i =>
    cases el with
    | none =>
      simp only [WorkerPool.holder, hlock] at hstep
      cases busy with
      | false =>
        obtain rfl := Option.some.inj hstep
        trivial
      | true =>
        obtain rfl := Option.some.inj hstep
        exact fun _ k th hk => hshutdown.stopped hpool hlock hk
    | some el =>
      simp only [WorkerPool.holder, hlock] at hstep
      split at hstep
      · obtain ⟨th, -, hstep⟩ := Option.bind_eq_some_iff.mp hstep
        split at hstep
        · obtain rfl := Option.some.inj hstep
          trivial
        · obtain rfl := Option.some.inj hstep
          trivial
        · exact shutdownNext_closed hstep
      · exact shutdownNext_closed hstep
  | shutdownNotify busy el =>
    simp only [WorkerPool.holder, hlock, Option.bind_eq_bind, Option.bind_eq_some_iff] at hstep
    obtain ⟨th, -, thread, -, hstep⟩ := hstep
    exact shutdownNext_closed hstep

theorem Closed.wpSubmitTask {task : Task} {created : Bool} (h : pool.Closed)
    (hlock : pool.lock = .free) (hstep : pool.wpSubmitTask task created = some pool') :
    pool'.Closed := by
  have hsubmitTo {pool₁ : WorkerPool} {use : ElementId}
      (hstep : submitTo use task pool₁ = some pool') : pool'.Closed := by
    simp only [submitTo, Option.bind_eq_bind, Option.bind_eq_some_iff] at hstep
    obtain ⟨r, -, th, -, hstep⟩ := hstep
    obtain rfl := Option.some.inj hstep
    trivial
  unfold WorkerPool.wpSubmitTask at hstep
  split at hstep
  · obtain rfl := Option.some.inj hstep
    exact closed_of_free hlock fun havailable _ _ hk => h.stopped hlock havailable hk
  · next havailable =>
    simp only [Option.bind_eq_bind, Option.bind_eq_some_iff] at hstep
    obtain ⟨⟨use, elements, free⟩, -, hstep⟩ := hstep
    cases use with
    | some use => exact hsubmitTo hstep
    | none =>
      cases created with
      | true => exact hsubmitTo hstep
      | false =>
        obtain rfl := Option.some.inj hstep
        exact closed_of_free hlock fun hno => absurd hno havailable

/-- The status goes on, and no thread is written. -/
theorem Closed.congr (h : pool.Closed) (hlock : pool.lock = .free) (hlock' : pool'.lock = .free)
    (hstatus : pool'.status ≠ .available → pool.status ≠ .available)
    (hthreads : pool'.threads = pool.threads) : pool'.Closed := by
  refine closed_of_free hlock' fun havailable k th hk => ?_
  rw [hthreads] at hk
  exact h.stopped hlock (hstatus havailable) hk

theorem Closed.step {c : PoolSection} (h : pool.Closed) (hpool : PoolSound pool fl bl)
    (hshutdown : pool.ShutdownSound fl bl) (hdestroy : c ≠ .destroy)
    (hstep : pool.step c = some pool') : pool'.Closed := by
  cases c with
  | holder => exact h.holder hpool hshutdown hstep
  | executor k => exact h.executor hpool hstep
  | destroy => exact absurd rfl hdestroy
  | submit task created =>
    obtain ⟨hlock, -, hstep⟩ := locked_eq_some hstep
    exact h.wpSubmitTask hlock hstep
  | shutdown =>
    obtain ⟨hlock, -, hstep⟩ := locked_eq_some hstep
    obtain rfl := Option.some.inj hstep
    unfold wpShutdown
    split
    · trivial
    · exact h
  | getStatus =>
    obtain ⟨hlock, -, hstep⟩ := locked_eq_some hstep
    obtain rfl := Option.some.inj hstep
    exact h.congr hlock hlock id rfl
  | waitExit =>
    obtain ⟨hlock, -, hstep⟩ := locked_eq_some hstep
    unfold wpWaitExit at hstep
    split at hstep
    · obtain rfl := Option.some.inj hstep
      exact h
    · next hstatus =>
      rw [not_not] at hstatus
      obtain ⟨exited, -, rfl⟩ := waitExitPoll_eq_some hstep
      exact h.congr hlock hlock (fun _ => by rw [hstatus]; simp) rfl
  | poll =>
    obtain ⟨hlock, -, hstep⟩ := locked_eq_some hstep
    split at hstep
    · obtain ⟨exited, -, rfl⟩ := waitExitPoll_eq_some hstep
      exact h.congr hlock hlock id rfl
    · cases hstep

end WorkerPool

/-- All threads have exited, the next poll of `wp_wait_exit` finds that, and the tasks of the
    submissions that returned 0 were called. -/
structure WorkerPool.Drained (pool : WorkerPool) : Prop where
  exited : pool.AllExited
  found : pool.isAllExited = some true
  called : ∀ k th, pool.threads k = some th → (pool.tasksOf k).map taskCall = th.called
  succeeded : pool.assigned.map Prod.snd = pool.succeeded

/-- After a shutdown that skips no thread, the pool is drained when nobody can go on. -/
theorem pool_drains {sections : List PoolSection} {pool : WorkerPool}
    (hsections : .destroy ∉ sections)
    (hrun : Run.run WorkerPool.step .wpInit sections = some pool)
    (hmeets : Run.Meets WorkerPool.step WorkerPool.NotSkipped .wpInit sections)
    (hshutdown : pool.status ≠ .available)
    (hstuck : ∀ c : PoolSection, c.Internal → pool.step c = none) : pool.Drained := by
  have hdestroy : Run.Meets WorkerPool.step (fun _ c => c ≠ .destroy) .wpInit sections :=
    Run.meets_of_forall fun _ hc _ => ne_of_mem_of_not_mem hc hsections
  obtain ⟨fl, bl, hpool, -, hclosed⟩ := Run.run_invariant_of_meets
    (fun pool => ∃ fl bl, PoolSound pool fl bl ∧ pool.ShutdownSound fl bl ∧ pool.Closed)
    (fun _ _ _ ⟨_, _, hpool, hsound, hclosed⟩ hok hstep => by
      obtain ⟨fl', bl', hpool', hsound'⟩ := hpool.shutdown_step hsound hok.1 hok.2 hstep
      exact ⟨fl', bl', hpool', hsound', hclosed.step hpool hsound hok.1 hstep⟩)
    sections .wpInit pool
    ⟨[], [], wpInit_sound, trivial, fun _ _ _ hk => (by cases hk)⟩ (hdestroy.and hmeets) hrun
  obtain ⟨n, hgoing⟩ := WorkerPool.run_going hsections hrun
  have hsettled := hgoing.settled hstuck
  have hexited : pool.AllExited := by
    intro k th hk
    rcases hsettled.threads k th hk with ⟨hidle, -⟩ | ⟨hs, -⟩
    · rcases hclosed.stopped hsettled.lock hshutdown hk with hs | hs <;> cases hidle.symm.trans hs
    · exact hs
  obtain ⟨exited, hfound, hiff⟩ := hpool.isAllExited_iff
  refine ⟨hexited, ?_, hsettled.called, hsettled.succeeded⟩
  rw [hfound, hiff.mpr hexited]

theorem pool_drains_inTask :
    ∃ pool, Run.run WorkerPool.step .wpInit shutdownInTask = some pool ∧ pool.Drained ∧
      (pool.threads 0).map PoolThread.called = some [(some 7, some 42)] := by
  obtain ⟨pool, hrun⟩ : ∃ pool, Run.run WorkerPool.step .wpInit shutdownInTask = some pool :=
    ⟨_, rfl⟩
  obtain ⟨fl, bl, hpool⟩ := PoolSound.run (by decide) hrun
  obtain ⟨hnext, hholder, hexecutor, hstatus, hcalled⟩ : pool.nextThread = 1 ∧
      pool.holder = none ∧ pool.executor 0 = none ∧ pool.status ≠ .available ∧
      (pool.threads 0).map PoolThread.called = some [(some 7, some 42)] := by
    obtain rfl := Option.some.inj hrun
    exact ⟨rfl, rfl, rfl, by decide, rfl⟩
  exact ⟨pool, hrun, pool_drains (by decide) hrun (by decide) hstatus
    (hpool.stuck_of_one hnext hholder hexecutor), hcalled⟩

end LogxControll
