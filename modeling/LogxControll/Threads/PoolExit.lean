/-
  `wp_wait_exit`, `wp_get_status` and `wp_destroy`: what the status `wp_exited` of a pool means.

  `wp_wait_exit` writes it before its first poll, so another thread can see it, and destroy the
  pool, while threads of the pool run (`not_destroys_exited`). Once the polling is over, all threads
  have exited; `destroys_exited_iff` says that only the time between is dangerous.
-/
import LogxControll.Threads.PoolShutdown

namespace LogxControll

/-! ## The elements of the lists -/

theorem elementsFrom_spec {E : Elements} {prev : Option ElementId} :
    ∀ {l : List ElementId} {n : Nat}, Linked E prev l none → l.length ≤ n →
      WorkerPool.elementsFrom E n l.head? = some l
  | [], _, _, _ => by
      rw [List.head?_nil]
      unfold WorkerPool.elementsFrom
      rfl
  | x :: l, 0, _, hn => absurd hn (Nat.not_succ_le_zero _)
  | x :: l, n + 1, h, hn => by
      have hrest := elementsFrom_spec h.2 (Nat.le_of_succ_le_succ hn)
      simp only [List.head?_cons, WorkerPool.elementsFrom, h.1, Option.or_none, Option.bind_eq_bind,
        Option.bind_some, hrest]
      rfl

theorem mapM_of_isSome {α β : Type} {f : α → Option β} :
    ∀ {l : List α}, (∀ a ∈ l, (f a).isSome) →
      ∃ bs, l.mapM f = some bs ∧ ∀ b, b ∈ bs ↔ ∃ a ∈ l, f a = some b
  | [], _ => ⟨[], rfl, fun b => by simp⟩
  | a :: l, h => by
      obtain ⟨b, hb⟩ := Option.isSome_iff_exists.mp (h a List.mem_cons_self)
      obtain ⟨bs, hbs, hmem⟩ := mapM_of_isSome fun c hc => h c (List.mem_cons_of_mem a hc)
      refine ⟨b :: bs, by simp [List.mapM_cons, hb, hbs], fun c => ?_⟩
      simp [hmem, hb, eq_comm]

namespace WorkerPool

/-- All threads of the pool have exited. -/
def AllExited (pool : WorkerPool) : Prop :=
  ∀ k th, pool.threads k = some th → th.thread.status = .exited

end WorkerPool

namespace PoolSound

variable {pool pool' : WorkerPool} {fl bl : List ElementId} {k : ElementId}

theorem listed_eq (h : PoolSound pool fl bl) : pool.listed = some (bl ++ fl) := by
  have hlength : (fl ++ bl).length = pool.nextThread := by
    rw [h.listed.length_eq, List.length_range]
  rw [List.length_append] at hlength
  have hbusy := elementsFrom_spec h.busy.linked (show bl.length ≤ pool.nextThread by omega)
  have hfree := elementsFrom_spec h.free.linked (show fl.length ≤ pool.nextThread by omega)
  rw [← h.busy.head] at hbusy
  rw [← h.free.head] at hfree
  simp only [WorkerPool.listed, hbusy, hfree, Option.bind_eq_bind, Option.bind_some]
  rfl

/-- The threads that are found through the lists are all threads of the pool. -/
theorem mapM_threads (h : PoolSound pool fl bl) :
    ∃ threads, (bl ++ fl).mapM pool.threads = some threads ∧
      ∀ th, th ∈ threads ↔ ∃ k, pool.threads k = some th := by
  have hmem (k : ElementId) : k ∈ bl ++ fl ↔ (pool.threads k).isSome := by
    rw [List.mem_append, or_comm]
    exact h.mem_iff
  obtain ⟨threads, hthreads, hiff⟩ := mapM_of_isSome fun k hk => (hmem k).mp hk
  refine ⟨threads, hthreads, fun th => (hiff th).trans ⟨fun ⟨k, _, hk⟩ => ⟨k, hk⟩, fun ⟨k, hk⟩ => ?_⟩⟩
  exact ⟨k, (hmem k).mpr (by rw [hk]; rfl), hk⟩

theorem isAllExited_iff (h : PoolSound pool fl bl) :
    ∃ exited, pool.isAllExited = some exited ∧ (exited = true ↔ pool.AllExited) := by
  obtain ⟨threads, hthreads, hmem⟩ := h.mapM_threads
  refine ⟨_, by simp only [WorkerPool.isAllExited, h.listed_eq, Option.bind_eq_bind,
    Option.bind_some, hthreads]; rfl, ?_⟩
  simp only [List.all_eq_true, decide_eq_true_eq]
  exact ⟨fun hall k th hk => hall th ((hmem th).mpr ⟨k, hk⟩), fun hall th hth => by
    obtain ⟨k, hk⟩ := (hmem th).mp hth
    exact hall k th hk⟩

/-- The report of `wp_get_status` says whether all threads have exited. -/
theorem report_iff (h : PoolSound pool fl bl) :
    ((List.range pool.nextThread).all fun k =>
      (pool.threads k).all fun th => th.thread.status = .exited) = true ↔ pool.AllExited := by
  simp only [List.all_eq_true, List.mem_range, Option.all_eq_true, decide_eq_true_eq]
  exact ⟨fun hall k th hk => hall k ((h.created k).mp (by rw [hk]; rfl)) th hk,
    fun hall k _ th hk => hall k th hk⟩

end PoolSound

/-! ## The end of a pool -/

namespace WorkerPool

/-- What was freed had exited, and so had all threads when `wp_exited` was reported. -/
structure Safe (pool : WorkerPool) : Prop where
  freed : ∀ status ∈ pool.freed, status = .exited
  reported : ∀ report ∈ pool.reported, report.1 = .exited → report.2 = true

/-- The pool from its creation to its destruction. -/
structure ExitSound (pool : WorkerPool) : Prop where
  alive : pool.destroyed = false → ∃ fl bl, PoolSound pool fl bl
  dead : pool.destroyed = true → pool.lock = .free ∧ ∀ k, pool.threads k = none
  polling : pool.polling = true → pool.status = .exited
  lock : pool.status = .exited → pool.lock = .free
  exited : pool.status = .exited → pool.polling = false → pool.AllExited

/-- Nobody destroys the pool or asks for its status while `wp_wait_exit` polls threads that have not
    exited. -/
def WaitedFor (pool : WorkerPool) (c : PoolSection) : Prop :=
  c = .destroy ∨ c = .getStatus → pool.polling = true → pool.AllExited

/-- What the sections of one thread leave alone. -/
structure Kept (pool pool' : WorkerPool) : Prop where
  status : pool'.status = pool.status
  polling : pool'.polling = pool.polling
  destroyed : pool'.destroyed = pool.destroyed
  reported : pool'.reported = pool.reported
  freed : pool'.freed = pool.freed

variable {pool pool' pool'' : WorkerPool} {c : PoolSection}

theorem Kept.safe (h : Kept pool pool') (hsafe : pool.Safe) : pool'.Safe :=
  ⟨h.freed.symm ▸ hsafe.freed, h.reported.symm ▸ hsafe.reported⟩

theorem shutdownNext_kept {busy : Bool} {el : ElementId}
    (hstep : pool.shutdownNext busy el = some pool') : Kept pool pool' := by
  obtain ⟨e, -, hstep⟩ := Option.bind_eq_some_iff.mp hstep
  obtain rfl := Option.some.inj hstep
  exact ⟨rfl, rfl, rfl, rfl, rfl⟩

theorem holder_kept (hstep : pool.holder = some pool') : Kept pool pool' := by
  unfold WorkerPool.holder at hstep
  split at hstep
  · cases hstep
  · obtain ⟨th, -, hstep⟩ := Option.bind_eq_some_iff.mp hstep
    split at hstep <;> obtain rfl := Option.some.inj hstep <;> exact ⟨rfl, rfl, rfl, rfl, rfl⟩
  · simp only [Option.bind_eq_bind, Option.bind_eq_some_iff] at hstep
    obtain ⟨th, -, thread, -, hstep⟩ := hstep
    obtain rfl := Option.some.inj hstep
    exact ⟨rfl, rfl, rfl, rfl, rfl⟩
  · obtain rfl := Option.some.inj hstep
    exact ⟨rfl, rfl, rfl, rfl, rfl⟩
  · obtain rfl := Option.some.inj hstep
    exact ⟨rfl, rfl, rfl, rfl, rfl⟩
  · obtain rfl := Option.some.inj hstep
    exact ⟨rfl, rfl, rfl, rfl, rfl⟩
  · split at hstep
    · obtain ⟨th, -, hstep⟩ := Option.bind_eq_some_iff.mp hstep
      split at hstep
      · obtain rfl := Option.some.inj hstep
        exact ⟨rfl, rfl, rfl, rfl, rfl⟩
      · obtain rfl := Option.some.inj hstep
        exact ⟨rfl, rfl, rfl, rfl, rfl⟩
      · have hnext := shutdownNext_kept hstep
        exact ⟨hnext.status, hnext.polling, hnext.destroyed, hnext.reported, hnext.freed⟩
    · exact shutdownNext_kept hstep
  · simp only [Option.bind_eq_bind, Option.bind_eq_some_iff] at hstep
    obtain ⟨th, -, thread, -, hstep⟩ := hstep
    have hnext := shutdownNext_kept hstep
    exact ⟨hnext.status, hnext.polling, hnext.destroyed, hnext.reported, hnext.freed⟩

theorem executor_kept {k : ElementId} (hstep : pool.executor k = some pool') :
    Kept pool pool' := by
  obtain ⟨th, th', -, -, -, -, hstatus, hpolling, hdestroyed, -, hreported, hfreed, -⟩ :=
    executor_threads hstep
  exact ⟨hstatus, hpolling, hdestroyed, hreported, hfreed⟩

theorem submitTo_kept {use : ElementId} {task : Task} (hstep : submitTo use task pool = some pool') :
    Kept pool pool' := by
  simp only [submitTo, Option.bind_eq_bind, Option.bind_eq_some_iff] at hstep
  obtain ⟨r, -, th, -, hstep⟩ := hstep
  obtain rfl := Option.some.inj hstep
  exact ⟨rfl, rfl, rfl, rfl, rfl⟩

/-- A submission to a pool that is shut down is rejected. -/
theorem wpSubmitTask_kept {task : Task} {created : Bool}
    (hstep : pool.wpSubmitTask task created = some pool') :
    Kept pool pool' ∧ (pool.status ≠ .available →
      pool'.threads = pool.threads ∧ pool'.lock = pool.lock) := by
  unfold wpSubmitTask at hstep
  split at hstep
  · obtain rfl := Option.some.inj hstep
    exact ⟨⟨rfl, rfl, rfl, rfl, rfl⟩, fun _ => ⟨rfl, rfl⟩⟩
  · next havailable =>
    refine ⟨?_, fun hne => absurd hne havailable⟩
    simp only [Option.bind_eq_bind, Option.bind_eq_some_iff] at hstep
    obtain ⟨⟨use, elements, free⟩, -, hstep⟩ := hstep
    cases use with
    | some use =>
      have hto := submitTo_kept hstep
      exact ⟨hto.status, hto.polling, hto.destroyed, hto.reported, hto.freed⟩
    | none =>
      cases created with
      | true =>
        have hto := submitTo_kept hstep
        exact ⟨hto.status, hto.polling, hto.destroyed, hto.reported, hto.freed⟩
      | false =>
        obtain rfl := Option.some.inj hstep
        exact ⟨rfl, rfl, rfl, rfl, rfl⟩

/-- Threads that have exited do nothing. -/
theorem AllExited.executor {fl bl : List ElementId} (h : pool.AllExited)
    (hpool : PoolSound pool fl bl) {k : ElementId} (hstep : pool.executor k = some pool') :
    pool'.AllExited := by
  obtain ⟨th, th', hk, hthreads, hexec, -⟩ := executor_threads hstep
  have hth' : th'.thread.status = .exited := by
    rcases hexec with hexec | hexec
    · obtain ⟨job, hphase, -⟩ := (hpool.threads k th hk).sound.job
      rw [RerunnableThread.executorFunction, hphase.ended (h k th hk)] at hexec
      cases hexec
    · rw [hexec]
      exact h k th hk
  intro j x hx
  rw [hthreads] at hx
  by_cases hjk : j = k
  · subst hjk
    obtain rfl : th' = x := by simpa using hx
    exact hth'
  · exact h j x (by simpa [hjk] using hx)

/-- A section that leaves status and polling alone. -/
theorem ExitSound.of_kept (h : pool.ExitSound) (hkept : Kept pool pool')
    (hdestroyed : pool.destroyed = false) {fl bl : List ElementId} (hpool' : PoolSound pool' fl bl)
    (hexited : pool.status = .exited → pool'.lock = .free ∧
      (pool.AllExited → pool'.AllExited)) : pool'.ExitSound where
  alive := fun _ => ⟨fl, bl, hpool'⟩
  dead := fun hdead => by
    rw [hkept.destroyed, hdestroyed] at hdead
    cases hdead
  polling := fun hp => hkept.status.trans (h.polling (hkept.polling ▸ hp))
  lock := fun hs => (hexited (hkept.status ▸ hs)).1
  exited := fun hs hp => (hexited (hkept.status ▸ hs)).2
    (h.exited (hkept.status ▸ hs) (hkept.polling ▸ hp))

/-- A poll ends `wp_wait_exit` when all threads have exited. -/
theorem exitSound_of_poll {fl bl : List ElementId} (hpool : PoolSound pool fl bl)
    (hlock : pool.lock = .free) (hdestroyed : pool.destroyed = false) (hs : pool.status = .exited)
    {pool' : WorkerPool} (hstep : waitExitPoll pool = some pool') : pool'.ExitSound := by
  obtain ⟨exited, hexited, rfl⟩ := waitExitPoll_eq_some hstep
  obtain ⟨exited', hexited', hiff⟩ := hpool.isAllExited_iff
  obtain rfl := Option.some.inj (hexited.symm.trans hexited')
  refine ⟨fun _ => ⟨fl, bl, hpool.observed hlock id ..⟩, fun hdead => ?_, fun _ => hs,
    fun _ => hlock, fun _ hp => ?_⟩
  · rw [hdestroyed] at hdead
    cases hdead
  · exact hiff.mp (by simpa using hp)

/-- After the destruction nothing can be done. -/
theorem ExitSound.step_dead (h : pool.ExitSound) (hdestroyed : pool.destroyed = true)
    (hstep : pool.step c = some pool') : False := by
  obtain ⟨hlock, hnone⟩ := h.dead hdestroyed
  have hlocked {x : Option WorkerPool} (hx : pool.locked x = some pool') : False := by
    obtain ⟨-, hnot, -⟩ := locked_eq_some hx
    rw [hdestroyed] at hnot
    cases hnot
  cases c with
  | holder =>
    simp only [WorkerPool.step, WorkerPool.holder, hlock] at hstep
    cases hstep
  | executor k =>
    simp only [WorkerPool.step, WorkerPool.executor, hnone k] at hstep
    cases hstep
  | submit | shutdown | getStatus | waitExit | poll | destroy => exact hlocked hstep

theorem ExitSound.destroy (h : pool.ExitSound) {fl bl : List ElementId}
    (hpool : PoolSound pool fl bl) (hlock : pool.lock = .free)
    (hstep : pool.wpDestroy = some pool') :
    pool'.ExitSound ∧ (pool.Safe → (pool.WaitedFor .destroy ↔ pool'.Safe)) := by
  unfold wpDestroy at hstep
  split at hstep
  · next hs =>
    obtain rfl := Option.some.inj hstep
    exact ⟨h, fun hsafe => ⟨fun _ => hsafe, fun _ _ hp => absurd (h.polling hp) hs⟩⟩
  · next hs =>
    rw [not_not] at hs
    obtain ⟨threads, hthreads, hmem⟩ := hpool.mapM_threads
    simp only [hpool.listed_eq, Option.bind_eq_bind, Option.bind_some, hthreads] at hstep
    obtain rfl := Option.some.inj hstep
    have hnone (k : ElementId) : (if k ∈ bl ++ fl then none else pool.threads k) = none := by
      split
      · rfl
      · next hnot =>
        rw [List.mem_append, or_comm] at hnot
        exact Option.not_isSome_iff_eq_none.mp fun hk => hnot (hpool.mem_iff.mpr hk)
    refine ⟨⟨fun hdead => (by cases hdead), fun _ => ⟨hlock, hnone⟩, h.polling, h.lock,
      fun _ _ k th hk => ?_⟩, fun hsafe => ⟨fun hwait => ⟨?_, hsafe.reported⟩, fun hsafe' _ _ => ?_⟩⟩
    · cases (hnone k).symm.trans hk
    · have hall : pool.AllExited := by
        cases hp : pool.polling with
        | false => exact h.exited hs hp
        | true => exact hwait (.inl rfl) hp
      intro status hstatus
      rcases List.mem_append.mp hstatus with hstatus | hstatus
      · exact hsafe.freed status hstatus
      · obtain ⟨th, hth, rfl⟩ := List.mem_map.mp hstatus
        obtain ⟨k, hk⟩ := (hmem th).mp hth
        exact hall k th hk
    · exact fun k th hk => hsafe'.freed _ (List.mem_append_right _
        (List.mem_map.mpr ⟨th, (hmem th).mpr ⟨k, hk⟩, rfl⟩))

theorem ExitSound.getStatus (h : pool.ExitSound) {fl bl : List ElementId}
    (hpool : PoolSound pool fl bl) (hlock : pool.lock = .free)
    (hdestroyed : pool.destroyed = false) :
    pool.wpGetStatus.ExitSound ∧ (pool.Safe → (pool.WaitedFor .getStatus ↔ pool.wpGetStatus.Safe)) := by
  refine ⟨⟨fun _ => ⟨fl, bl, hpool.observed hlock id ..⟩, fun hdead => ?_, h.polling, h.lock,
    h.exited⟩, fun hsafe => ⟨fun hwait => ⟨hsafe.freed, fun report hreport hs => ?_⟩,
      fun hsafe' _ hp => ?_⟩⟩
  · exact absurd hdead (by rw [show pool.wpGetStatus.destroyed = _ from hdestroyed]; simp)
  · rcases List.mem_append.mp hreport with hreport | hreport
    · exact hsafe.reported report hreport hs
    · rw [List.mem_singleton.mp hreport] at hs ⊢
      refine hpool.report_iff.mpr ?_
      cases hp : pool.polling with
      | false => exact h.exited hs hp
      | true => exact hwait (.inr rfl) hp
  · exact hpool.report_iff.mp (hsafe'.reported _ (List.mem_append_right _
      (List.mem_singleton_self _)) (h.polling hp))

theorem ExitSound.shutdown (h : pool.ExitSound) {fl bl : List ElementId}
    (hpool : PoolSound pool fl bl) (hlock : pool.lock = .free)
    (hdestroyed : pool.destroyed = false) :
    pool.wpShutdown.ExitSound ∧
      (pool.Safe → (pool.WaitedFor .shutdown ↔ pool.wpShutdown.Safe)) := by
  have hwait : pool.WaitedFor .shutdown := fun hc => by simp at hc
  have hpool' := hpool.wpShutdown hlock
  unfold wpShutdown at hpool' ⊢
  split
  · next hs =>
    rw [if_pos hs] at hpool'
    have hne : pool.polling ≠ true := fun hp => by cases hs.symm.trans (h.polling hp)
    refine ⟨⟨fun _ => ⟨fl, bl, hpool'⟩, fun hdead => ?_, fun hp => absurd hp hne,
      fun hs => (by cases hs), fun hs => (by cases hs)⟩,
      fun hsafe => ⟨fun _ => ⟨hsafe.freed, hsafe.reported⟩, fun _ => hwait⟩⟩
    exact absurd hdead (by rw [hdestroyed]; simp)
  · exact ⟨h, fun hsafe => ⟨fun _ => hsafe, fun _ => hwait⟩⟩

/-- Only the two sections of `WaitedFor` can do harm. -/
theorem waitedFor_of_ne (hdestroy : c ≠ .destroy) (hget : c ≠ .getStatus) : pool.WaitedFor c :=
  fun hc => absurd hc (not_or.mpr ⟨hdestroy, hget⟩)

theorem ExitSound.step (h : pool.ExitSound) (hstep : pool.step c = some pool') :
    pool'.ExitSound ∧ (pool.Safe → (pool.WaitedFor c ↔ pool'.Safe)) := by
  cases hdestroyed : pool.destroyed with
  | true => exact (h.step_dead hdestroyed hstep).elim
  | false =>
    obtain ⟨fl, bl, hpool⟩ := h.alive hdestroyed
    have hsafe_of_kept (hkept : Kept pool pool') (hd : c ≠ .destroy) (hg : c ≠ .getStatus) :
        pool.Safe → (pool.WaitedFor c ↔ pool'.Safe) := fun hsafe =>
      ⟨fun _ => hkept.safe hsafe, fun _ => waitedFor_of_ne hd hg⟩
    cases c with
    | submit task created =>
      obtain ⟨fl', bl', hpool'⟩ := hpool.step (by simp) hstep
      obtain ⟨hlock, -, hstep⟩ := locked_eq_some hstep
      obtain ⟨hkept, hrejected⟩ := wpSubmitTask_kept hstep
      refine ⟨h.of_kept hkept hdestroyed hpool' fun hs => ?_, hsafe_of_kept hkept (by simp) (by simp)⟩
      obtain ⟨hthreads, hlock'⟩ := hrejected (by rw [hs]; simp)
      exact ⟨hlock'.trans hlock, fun hall k th hk => hall k th (hthreads ▸ hk)⟩
    | shutdown =>
      obtain ⟨hlock, -, hstep⟩ := locked_eq_some hstep
      obtain rfl := Option.some.inj hstep
      exact h.shutdown hpool hlock hdestroyed
    | holder =>
      have hkept := holder_kept hstep
      refine ⟨h.of_kept hkept hdestroyed (hpool.holder hstep) fun hs => ?_,
        hsafe_of_kept hkept (by simp) (by simp)⟩
      simp only [WorkerPool.step, WorkerPool.holder, h.lock hs] at hstep
      cases hstep
    | executor k =>
      have hkept := executor_kept hstep
      obtain ⟨fl', bl', hpool', -⟩ := hpool.executor hstep
      refine ⟨h.of_kept hkept hdestroyed hpool' fun hs => ⟨?_, fun hall => hall.executor hpool hstep⟩,
        hsafe_of_kept hkept (by simp) (by simp)⟩
      obtain ⟨th, th', -, -, -, hlock, -⟩ := executor_threads hstep
      exact hlock.trans (h.lock hs)
    | getStatus =>
      obtain ⟨hlock, -, hstep⟩ := locked_eq_some hstep
      obtain rfl := Option.some.inj hstep
      exact h.getStatus hpool hlock hdestroyed
    | waitExit =>
      obtain ⟨hlock, -, hstep⟩ := locked_eq_some hstep
      unfold wpWaitExit at hstep
      split at hstep
      · obtain rfl := Option.some.inj hstep
        exact ⟨h, fun hsafe => ⟨fun _ => hsafe, fun _ => waitedFor_of_ne (by simp) (by simp)⟩⟩
      · have hwaiting : PoolSound { pool with status := .exited } fl bl :=
          hpool.observed hlock (fun hs => by cases hs) ..
        refine ⟨exitSound_of_poll hwaiting hlock hdestroyed rfl hstep, ?_⟩
        obtain ⟨exited, -, rfl⟩ := waitExitPoll_eq_some hstep
        exact fun hsafe => ⟨fun _ => ⟨hsafe.freed, hsafe.reported⟩,
          fun _ => waitedFor_of_ne (by simp) (by simp)⟩
    | poll =>
      obtain ⟨hlock, -, hstep⟩ := locked_eq_some hstep
      split at hstep
      · next hpolling =>
        refine ⟨exitSound_of_poll hpool hlock hdestroyed (h.polling hpolling) hstep, ?_⟩
        obtain ⟨exited, -, rfl⟩ := waitExitPoll_eq_some hstep
        exact fun hsafe => ⟨fun _ => ⟨hsafe.freed, hsafe.reported⟩,
          fun _ => waitedFor_of_ne (by simp) (by simp)⟩
      · cases hstep
    | destroy =>
      obtain ⟨hlock, -, hstep⟩ := locked_eq_some hstep
      exact h.destroy hpool hlock hstep

end WorkerPool

theorem wpInit_exitSound : WorkerPool.wpInit.ExitSound where
  alive := fun _ => ⟨[], [], wpInit_sound⟩
  dead := fun hdead => (by cases hdead)
  polling := fun hp => (by cases hp)
  lock := fun hs => (by cases hs)
  exited := fun hs => (by cases hs)

/-- Along a run, only threads that have exited are freed, and `wp_exited` is only reported when all
    have exited, exactly when nobody destroys the pool or asks for its status while `wp_wait_exit`
    still polls. -/
theorem destroys_exited_iff (sections : List PoolSection) :
    Run.Meets WorkerPool.step
      (fun pool c => ∀ pool', pool.step c = some pool' → pool'.Safe) .wpInit sections ↔
    Run.Meets WorkerPool.step
      (fun pool c => (pool.step c).isSome → pool.WaitedFor c) .wpInit sections := by
  refine Run.meets_iff (fun pool => pool.ExitSound ∧ pool.Safe) (fun pool c ⟨h, hsafe⟩ => ?_)
    (fun pool c pool' ⟨h, _⟩ hok hstep => ⟨(h.step hstep).1, hok pool' hstep⟩)
    ⟨wpInit_exitSound, ⟨fun _ h => (by cases h), fun _ h => (by cases h)⟩⟩
  constructor
  · intro hok hstep
    obtain ⟨pool', hstep⟩ := Option.isSome_iff_exists.mp hstep
    exact ((h.step hstep).2 hsafe).mpr (hok pool' hstep)
  · intro hwait pool' hstep
    exact ((h.step hstep).2 hsafe).mp (hwait (by rw [hstep]; rfl))

/-- A task is submitted, the pool shut down, and destroyed by another thread while `wp_wait_exit`
    polls. -/
def destroyedTooEarly : List PoolSection :=
  [.submit (7, none) true] ++ List.replicate 3 .holder ++ [.shutdown] ++
    List.replicate 3 .holder ++ [.waitExit, .getStatus, .destroy]

/-- The memory of a thread that has not exited is freed. -/
theorem not_destroys_exited :
    ¬ ∀ sections pool, Run.run WorkerPool.step .wpInit sections = some pool → pool.Safe := by
  intro h
  obtain ⟨pool, hrun, hfreed⟩ : ∃ pool,
      Run.run WorkerPool.step .wpInit destroyedTooEarly = some pool ∧
      pool.freed = [.shutdownRequested] := ⟨_, rfl, rfl⟩
  have hexited := (h destroyedTooEarly pool hrun).freed .shutdownRequested (by simp [hfreed])
  cases hexited

end LogxControll
