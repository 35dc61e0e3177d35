/-
  `wp_shutdown` tells the threads of both lists to exit, one after the other under the lock.

  A thread is skipped when its executor has the mutex of `has_job_cw` at the last of the 149 turns
  of `rrt_graceful_shutdown` (`not_shutdown_reaches`), and otherwise told (`shutdown_reaches`).
-/
import LogxControll.Threads.PoolTasks

namespace LogxControll

namespace WorkerPool

/-- What a step of an executor does to the threads of the pool. -/
theorem executor_threads {pool pool' : WorkerPool} {k : ElementId}
    (hstep : pool.executor k = some pool') :
    ∃ th th', pool.threads k = some th ∧
      pool'.threads = Function.update pool.threads k (some th') ∧
      (th.thread.executorFunction = some th'.thread ∨
        th'.thread = { th.thread with executor := .crashed }) ∧
      pool'.lock = pool.lock ∧ pool'.status = pool.status ∧ pool'.polling = pool.polling ∧
      pool'.destroyed = pool.destroyed ∧ pool'.nextThread = pool.nextThread ∧
      pool'.reported = pool.reported ∧ pool'.freed = pool.freed ∧
      (pool.lock ≠ .free → pool'.elements = pool.elements ∧ pool'.busy = pool.busy) := by
  simp only [WorkerPool.executor, Option.bind_eq_bind, Option.bind_eq_some_iff] at hstep
  obtain ⟨th, hk, hstep⟩ := hstep
  split at hstep
  · simp only [workerPoolExecFunction, Option.bind_eq_bind, Option.bind_eq_some_iff] at hstep
    obtain ⟨task, -, pt, -, hstep⟩ := hstep
    split at hstep
    · obtain ⟨thread, hthread, hstep⟩ := Option.bind_eq_some_iff.mp hstep
      obtain rfl := Option.some.inj hstep
      exact ⟨th, _, hk, rfl, .inl hthread, rfl, rfl, rfl, rfl, rfl, rfl, rfl, fun _ => ⟨rfl, rfl⟩⟩
    · obtain rfl := Option.some.inj hstep
      exact ⟨th, _, hk, rfl, .inr rfl, rfl, rfl, rfl, rfl, rfl, rfl, rfl, fun _ => ⟨rfl, rfl⟩⟩
  · split at hstep
    · next hlock =>
      simp only [WorkerPool.onRelease, Option.bind_eq_bind, Option.bind_eq_some_iff] at hstep
      obtain ⟨elem, -, r, -, r', -, thread, hthread, hstep⟩ := hstep
      obtain rfl := Option.some.inj hstep
      exact ⟨th, _, hk, rfl, .inl hthread, rfl, rfl, rfl, rfl, rfl, rfl, rfl,
        fun hne => absurd hlock hne⟩
    · cases hstep
  · obtain ⟨thread, hthread, hstep⟩ := Option.bind_eq_some_iff.mp hstep
    obtain rfl := Option.some.inj hstep
    exact ⟨th, _, hk, rfl, .inl hthread, rfl, rfl, rfl, rfl, rfl, rfl, rfl, fun _ => ⟨rfl, rfl⟩⟩

/-- The threads were told to exit. -/
def AllStopped (pool : WorkerPool) (l : List ElementId) : Prop :=
  ∀ k ∈ l, ∀ th, pool.threads k = some th → th.thread.Stopped

/-- `shutdown_all` has told the threads before `rest`, in the busy list or in the free one. -/
def Told (pool : WorkerPool) (fl bl : List ElementId) : Bool → List ElementId → Prop
  | false, rest => ∃ told, fl = told ++ rest ∧ pool.AllStopped told
  | true, rest => pool.AllStopped fl ∧ ∃ told, bl = told ++ rest ∧ pool.AllStopped told

/-- How far `wp_shutdown` has come. -/
def ShutdownSound (pool : WorkerPool) (fl bl : List ElementId) : Prop :=
  match pool.lock with
  | .shutdown busy el i => i < 149 ∧ ∃ rest, el = rest.head? ∧ pool.Told fl bl busy rest
  | .shutdownNotify busy el => ∃ rest, pool.Told fl bl busy rest ∧
      ∀ e, pool.elements el = some e → e.next = rest.head?
  | _ => True

variable {pool pool' : WorkerPool} {fl bl l : List ElementId} {busy : Bool} {rest : List ElementId}
  {k el : ElementId} {th th' : PoolThread}

theorem AllStopped.congr (h : pool.AllStopped l)
    (hthreads : pool'.threads = Function.update pool.threads k (some th'))
    (hth : ∀ th, pool.threads k = some th → th.thread.Stopped → th'.thread.Stopped)
    (hk : pool.threads k = some th) : pool'.AllStopped l := by
  intro j hj x hx
  rw [hthreads] at hx
  by_cases hjk : j = k
  · subst hjk
    obtain rfl : th' = x := by simpa using hx
    exact hth th hk (h j hj th hk)
  · exact h j hj x (by simpa [hjk] using hx)

theorem Told.congr (h : pool.Told fl bl busy rest)
    (hthreads : pool'.threads = Function.update pool.threads k (some th'))
    (hth : ∀ th, pool.threads k = some th → th.thread.Stopped → th'.thread.Stopped)
    (hk : pool.threads k = some th) : pool'.Told fl bl busy rest := by
  cases busy with
  | false =>
    obtain ⟨told, hfl, htold⟩ := h
    exact ⟨told, hfl, htold.congr hthreads hth hk⟩
  | true =>
    obtain ⟨hall, told, hbl, htold⟩ := h
    exact ⟨hall.congr hthreads hth hk, told, hbl, htold.congr hthreads hth hk⟩

/-- The next thread was told, too. -/
theorem Told.tail (h : pool.Told fl bl busy (el :: rest))
    (hel : ∀ th, pool.threads el = some th → th.thread.Stopped) : pool.Told fl bl busy rest := by
  have hsnoc {told : List ElementId} (htold : pool.AllStopped told) :
      pool.AllStopped (told ++ [el]) := by
    intro j hj
    rcases List.mem_append.mp hj with hj | hj
    · exact htold j hj
    · rw [List.mem_singleton.mp hj]
      exact hel
  cases busy with
  | false =>
    obtain ⟨told, hfl, htold⟩ := h
    exact ⟨told ++ [el], by rw [hfl, List.append_assoc]; rfl, hsnoc htold⟩
  | true =>
    obtain ⟨hall, told, hbl, htold⟩ := h
    exact ⟨hall, told ++ [el], by rw [hbl, List.append_assoc]; rfl, hsnoc htold⟩

theorem Told.next (h : pool.Told fl bl busy (el :: rest)) (hpool : PoolSound pool fl bl)
    {e : QueueElement} (he : pool.elements el = some e) : e.next = rest.head? := by
  have hqueue : ∃ q told, IsQueue pool.elements q (told ++ el :: rest) := by
    cases busy with
    | false =>
      obtain ⟨told, hfl, -⟩ := h
      exact ⟨pool.free, told, hfl ▸ hpool.free⟩
    | true =>
      obtain ⟨-, told, hbl, -⟩ := h
      exact ⟨pool.busy, told, hbl ▸ hpool.busy⟩
  obtain ⟨q, told, hq⟩ := hqueue
  obtain rfl := Option.some.inj (hq.popped_element.symm.trans he)
  rfl

theorem ShutdownSound.executor (h : pool.ShutdownSound fl bl) (hpool : PoolSound pool fl bl)
    (hlock : pool.lock ≠ .free) (hstep : pool.executor k = some pool') :
    pool'.ShutdownSound fl bl := by
  obtain ⟨th, th', hk, hthreads, hexec, hlock', -, -, -, -, -, -, hlists⟩ := executor_threads hstep
  have hth : ∀ x, pool.threads k = some x → x.thread.Stopped → th'.thread.Stopped := by
    intro x hx hstopped
    obtain rfl := Option.some.inj (hk.symm.trans hx)
    obtain ⟨job, hphase, -⟩ := (hpool.threads k th hk).sound.job
    rcases hexec with hexec | hexec
    · exact hstopped.executorFunction hphase.ended hexec
    · rw [hexec]
      exact hstopped
  unfold ShutdownSound at h ⊢
  rw [hlock']
  cases hl : pool.lock with
  | free | submitRerun | submitNotify | submitReturn => trivial
  | shutdown busy el i =>
    simp only [hl] at h ⊢
    obtain ⟨hi, rest, hel, htold⟩ := h
    exact ⟨hi, rest, hel, htold.congr hthreads hth hk⟩
  | shutdownNotify busy el =>
    simp only [hl] at h ⊢
    obtain ⟨rest, htold, hnext⟩ := h
    exact ⟨rest, htold.congr hthreads hth hk, by rw [(hlists hlock).1]; exact hnext⟩

/-- At the last turn of `rrt_graceful_shutdown`, the executor does not have the mutex: not before it
    waits, and not after it was woken. -/
def NotSkipped (pool : WorkerPool) (c : PoolSection) : Prop :=
  c = .holder → match pool.lock with
    | .shutdown _ (some el) i => i = 148 → ∀ th ∈ pool.threads el, ¬ th.thread.holdsMutex
    | _ => True

instance (pool : WorkerPool) (c : PoolSection) : Decidable (pool.NotSkipped c) :=
  @instDecidableForall _ _ _ (match pool.lock with
    | .shutdown _ (some el) i =>
      inferInstanceAs (Decidable (i = 148 → ∀ th ∈ pool.threads el, ¬ th.thread.holdsMutex))
    | .shutdown _ none _ | .free | .submitRerun .. | .submitNotify .. | .submitReturn ..
    | .shutdownNotify .. => .isTrue trivial)

/-- `shutdown_all` goes on to the next thread. -/
theorem ShutdownSound.shutdownNext (htold : pool.Told fl bl busy rest)
    (hnext : ∀ e, pool.elements el = some e → e.next = rest.head?)
    (hstep : pool.shutdownNext busy el = some pool') : pool'.ShutdownSound fl bl := by
  obtain ⟨e, he, hstep⟩ := Option.bind_eq_some_iff.mp hstep
  obtain rfl := Option.some.inj hstep
  exact ⟨by decide, rest, hnext e he, htold⟩

/-- A thread that was started is told to exit when its executor does not have the mutex. -/
theorem stopped_of_not_holdsMutex (hstarted : th.thread.status ≠ .initalized)
    (hmutex : ¬ th.thread.holdsMutex) : th.thread.rrtGracefulShutdown.2.Stopped := by
  unfold RerunnableThread.rrtGracefulShutdown
  rw [if_neg hmutex]
  unfold RerunnableThread.Stopped
  split
  · exact .inl rfl
  · exact .inl rfl
  · next hidle hbusy =>
    cases hs : th.thread.status with
    | initalized => exact absurd hs hstarted
    | idle => exact absurd hs hidle
    | busy => exact absurd hs hbusy
    | shutdownRequested => exact .inl rfl
    | exited => exact .inr rfl

/-- A turn of `rrt_graceful_shutdown`. -/
theorem ShutdownSound.shutdownHolder (h : pool.ShutdownSound fl bl) (hpool : PoolSound pool fl bl)
    (hok : pool.NotSkipped .holder) {i : Nat} (hlock : pool.lock = .shutdown busy (some el) i)
    (hstep : pool.holder = some pool') : pool'.ShutdownSound fl bl := by
  simp only [ShutdownSound, hlock] at h
  obtain ⟨hi, rest, hel, htold⟩ := h
  obtain ⟨rest', rfl⟩ : ∃ rest', rest = el :: rest' := by
    cases rest with
    | nil => cases hel
    | cons x rest' =>
      obtain rfl := Option.some.inj hel
      exact ⟨rest', rfl⟩
  simp only [WorkerPool.holder, hlock, if_pos hi, Option.bind_eq_bind,
    Option.bind_eq_some_iff] at hstep
  obtain ⟨th, hk, hstep⟩ := hstep
  have hth := hpool.threads el th hk
  by_cases hmutex : th.thread.holdsMutex
  · have hturn : th.thread.rrtGracefulShutdown = (.tryAgain, th.thread) := by
      rw [RerunnableThread.rrtGracefulShutdown, if_pos hmutex]
    rw [hturn] at hstep
    obtain rfl := Option.some.inj hstep
    have hne : i ≠ 148 := fun h148 => by
      have hlast := hok rfl
      simp only [hlock] at hlast
      exact hlast h148 th hk hmutex
    exact ⟨by omega, el :: rest', rfl, htold⟩
  · have hstopped := stopped_of_not_holdsMutex hth.sound.started hmutex
    have htold' : (pool.setThread el { th with thread := th.thread.rrtGracefulShutdown.2 }).Told
        fl bl busy rest' := by
      refine (htold.congr rfl (fun _ _ _ => hstopped) hk).tail fun x hx => ?_
      obtain rfl : PoolThread.mk _ _ _ _ = x := by simpa [WorkerPool.setThread] using hx
      exact hstopped
    have hnext : ∀ e, pool.elements el = some e → e.next = rest'.head? :=
      fun e he => htold.next hpool he
    split at hstep
    · next heq =>
      unfold RerunnableThread.rrtGracefulShutdown at heq
      rw [if_neg hmutex] at heq
      split at heq <;> cases heq
    · next thread heq =>
      obtain rfl := Option.some.inj hstep
      obtain rfl : th.thread.rrtGracefulShutdown.2 = thread := by rw [heq]
      exact ⟨rest', htold', hnext⟩
    · next thread _ _ heq =>
      obtain rfl : th.thread.rrtGracefulShutdown.2 = thread := by rw [heq]
      exact ShutdownSound.shutdownNext htold' hnext hstep

theorem ShutdownSound.holder (h : pool.ShutdownSound fl bl) (hpool : PoolSound pool fl bl)
    (hok : pool.NotSkipped .holder) (hstep : pool.holder = some pool') :
    pool'.ShutdownSound fl bl := by
  cases hlock : pool.lock with
  | free =>
    rw [WorkerPool.holder, hlock] at hstep
    cases hstep
  | submitRerun use task =>
    simp only [WorkerPool.holder, hlock, Option.bind_eq_bind, Option.bind_eq_some_iff] at hstep
    obtain ⟨th, -, hstep⟩ := hstep
    split at hstep <;> obtain rfl := Option.some.inj hstep <;> trivial
  | submitNotify use task =>
    simp only [WorkerPool.holder, hlock, Option.bind_eq_bind, Option.bind_eq_some_iff] at hstep
    obtain ⟨th, -, thread, -, hstep⟩ := hstep
    obtain rfl := Option.some.inj hstep
    trivial
  | submitReturn task ret =>
    simp only [WorkerPool.holder, hlock] at hstep
    obtain rfl := Option.some.inj hstep
    trivial
  | shutdown busy el i =>
    cases el with
    | some el => exact h.shutdownHolder hpool hok hlock hstep
    | none =>
      cases busy with
      | false =>
        simp only [ShutdownSound, hlock] at h
        obtain ⟨-, rest, hrest, told, hfl, htold⟩ := h
        obtain rfl : rest = [] := List.head?_eq_none_iff.mp hrest.symm
        rw [List.append_nil] at hfl
        simp only [WorkerPool.holder, hlock] at hstep
        obtain rfl := Option.some.inj hstep
        exact ⟨by decide, bl, hpool.busy.head, hfl ▸ htold, [], rfl, fun _ hj => by cases hj⟩
      | true =>
        simp only [WorkerPool.holder, hlock] at hstep
        obtain rfl := Option.some.inj hstep
        trivial
  | shutdownNotify busy el =>
    simp only [ShutdownSound, hlock] at h
    obtain ⟨rest, htold, hnext⟩ := h
    simp only [WorkerPool.holder, hlock, Option.bind_eq_bind, Option.bind_eq_some_iff] at hstep
    obtain ⟨th, hk, thread, hnotify, hstep⟩ := hstep
    have htold' : (pool.setThread el { th with thread := thread }).Told fl bl busy rest := by
      refine htold.congr rfl (fun x hx hstopped => ?_) hk
      obtain rfl := Option.some.inj (hk.symm.trans hx)
      exact hstopped.notifyJob hnotify
    exact ShutdownSound.shutdownNext htold' hnext hstep

theorem shutdownSound_of_free (hlock : pool.lock = .free) : pool.ShutdownSound fl bl := by
  simp only [ShutdownSound, hlock]

theorem submitTo_shutdownSound {use : ElementId} {task : Task}
    (hstep : submitTo use task pool = some pool') : pool'.ShutdownSound fl bl := by
  simp only [submitTo, Option.bind_eq_bind, Option.bind_eq_some_iff] at hstep
  obtain ⟨r, -, th, -, hstep⟩ := hstep
  obtain rfl := Option.some.inj hstep
  trivial

theorem wpSubmitTask_shutdownSound {task : Task} {created : Bool} (hlock : pool.lock = .free)
    (hstep : pool.wpSubmitTask task created = some pool') : pool'.ShutdownSound fl bl := by
  unfold wpSubmitTask at hstep
  split at hstep
  · obtain rfl := Option.some.inj hstep
    exact shutdownSound_of_free hlock
  · simp only [Option.bind_eq_bind, Option.bind_eq_some_iff] at hstep
    obtain ⟨⟨use, elements, free⟩, -, hstep⟩ := hstep
    cases use with
    | some use => exact submitTo_shutdownSound hstep
    | none =>
      cases created with
      | true => exact submitTo_shutdownSound hstep
      | false =>
        obtain rfl := Option.some.inj hstep
        exact shutdownSound_of_free hlock

end WorkerPool

/-- When `wp_shutdown` is about to return 0, all threads of the pool were told to exit. -/
def WorkerPool.ShutdownReaches (pool : WorkerPool) : Prop :=
  ∀ i, pool.lock = .shutdown true none i → ∀ k th, pool.threads k = some th →
    th.thread.status = .shutdownRequested ∨ th.thread.status = .exited

open WorkerPool in
theorem PoolSound.shutdown_step {pool pool' : WorkerPool} {fl bl : List ElementId}
    {c : PoolSection} (h : PoolSound pool fl bl) (hshutdown : pool.ShutdownSound fl bl)
    (hc : c ≠ .destroy) (hok : pool.NotSkipped c) (hstep : pool.step c = some pool') :
    ∃ fl' bl', PoolSound pool' fl' bl' ∧ pool'.ShutdownSound fl' bl' := by
  cases c with
  | holder => exact ⟨fl, bl, h.holder hstep, hshutdown.holder h hok hstep⟩
  | executor k =>
    obtain ⟨fl', bl', h', hlists⟩ := h.executor hstep
    refine ⟨fl', bl', h', ?_⟩
    by_cases hlock : pool.lock = .free
    · obtain ⟨th, th', -, -, -, hlock', -⟩ := executor_threads hstep
      simp only [ShutdownSound, hlock', hlock]
    · obtain ⟨rfl, rfl⟩ := hlists hlock
      exact hshutdown.executor h hlock hstep
  | shutdown =>
    obtain ⟨hlock, -, hstep⟩ := locked_eq_some hstep
    obtain rfl := Option.some.inj hstep
    refine ⟨fl, bl, h.wpShutdown hlock, ?_⟩
    unfold WorkerPool.wpShutdown
    split
    · exact ⟨by decide, fl, h.free.head, [], rfl, fun _ hj => by cases hj⟩
    · exact hshutdown
  | submit task created =>
    obtain ⟨hlock, -, hstep⟩ := locked_eq_some hstep
    obtain ⟨fl', bl', h'⟩ := h.wpSubmitTask hlock hstep
    exact ⟨fl', bl', h', wpSubmitTask_shutdownSound hlock hstep⟩
  | getStatus =>
    obtain ⟨fl', bl', h'⟩ := h.step hc hstep
    obtain ⟨hlock, -, hstep⟩ := locked_eq_some hstep
    obtain rfl := Option.some.inj hstep
    exact ⟨fl', bl', h', shutdownSound_of_free hlock⟩
  | waitExit =>
    obtain ⟨fl', bl', h'⟩ := h.step hc hstep
    obtain ⟨hlock, -, hstep⟩ := locked_eq_some hstep
    refine ⟨fl', bl', h', shutdownSound_of_free ?_⟩
    unfold wpWaitExit at hstep
    split at hstep
    · obtain rfl := Option.some.inj hstep
      exact hlock
    · obtain ⟨exited, -, rfl⟩ := waitExitPoll_eq_some hstep
      exact hlock
  | poll =>
    obtain ⟨fl', bl', h'⟩ := h.step hc hstep
    obtain ⟨hlock, -, hstep⟩ := locked_eq_some hstep
    refine ⟨fl', bl', h', shutdownSound_of_free ?_⟩
    split at hstep
    · obtain ⟨exited, -, rfl⟩ := waitExitPoll_eq_some hstep
      exact hlock
    · cases hstep
  | destroy => exact absurd rfl hc

/-- Along every run in which no executor has the mutex of its thread at the last turn,
    `wp_shutdown` tells all threads to exit before it returns 0. -/
theorem shutdown_reaches {sections : List PoolSection} {pool : WorkerPool}
    (hsections : .destroy ∉ sections)
    (hrun : Run.run WorkerPool.step .wpInit sections = some pool)
    (hmeets : Run.Meets WorkerPool.step WorkerPool.NotSkipped .wpInit sections) :
    pool.ShutdownReaches := by
  have hdestroy : Run.Meets WorkerPool.step (fun _ c => c ≠ .destroy) .wpInit sections :=
    Run.meets_of_forall fun _ hc _ => ne_of_mem_of_not_mem hc hsections
  obtain ⟨fl, bl, h, hshutdown⟩ := Run.run_invariant_of_meets
    (fun pool => ∃ fl bl, PoolSound pool fl bl ∧ pool.ShutdownSound fl bl)
    (fun _ _ _ ⟨_, _, h, hshutdown⟩ hok hstep => h.shutdown_step hshutdown hok.1 hok.2 hstep)
    sections .wpInit pool ⟨[], [], wpInit_sound, trivial⟩ (hdestroy.and hmeets) hrun
  intro i hlock k th hk
  simp only [WorkerPool.ShutdownSound, hlock] at hshutdown
  obtain ⟨-, rest, hrest, hfree, told, hbl, htold⟩ := hshutdown
  obtain rfl : rest = [] := List.head?_eq_none_iff.mp hrest.symm
  rw [List.append_nil] at hbl
  rcases h.mem_iff.mpr (by rw [hk]; rfl) with hfl | hkbl
  · exact hfree k hfl th hk
  · exact htold k (hbl ▸ hkbl) th hk

/-- The executor of the only thread waits when `wp_shutdown` comes to it. -/
def shutdownWaiting : List PoolSection :=
  [.submit (7, none) true] ++ List.replicate 3 .holder ++ List.replicate 13 (.executor 0) ++
    [.shutdown, .holder, .holder, .holder]

theorem shutdown_reaches_waiting :
    ∃ pool, Run.run WorkerPool.step .wpInit shutdownWaiting = some pool ∧ pool.ShutdownReaches ∧
      pool.lock = .shutdown true none 0 := by
  obtain ⟨pool, hrun⟩ : ∃ pool, Run.run WorkerPool.step .wpInit shutdownWaiting = some pool :=
    ⟨_, rfl⟩
  refine ⟨pool, hrun, shutdown_reaches (by decide) hrun (by decide), ?_⟩
  obtain rfl := Option.some.inj hrun
  rfl

/-- While the executor has the mutex, `rrt_graceful_shutdown` uses up its turns. -/
theorem run_turns {busy : Bool} {el : ElementId} {th : PoolThread} (hmutex : th.thread.holdsMutex)
    (n : Nat) {pool : WorkerPool} {i : Nat} (hk : pool.threads el = some th)
    (hlock : pool.lock = .shutdown busy (some el) i) (hi : i + n ≤ 149) :
    Run.run WorkerPool.step pool (List.replicate n .holder) =
      some { pool with lock := .shutdown busy (some el) (i + n) } := by
  induction n generalizing i pool with
  | zero =>
    rw [Nat.add_zero, ← hlock]
    rfl
  | succ n ih =>
    have hturn : th.thread.rrtGracefulShutdown = (.tryAgain, th.thread) := by
      rw [RerunnableThread.rrtGracefulShutdown, if_pos hmutex]
    have hstep : pool.step .holder =
        some { pool with lock := .shutdown busy (some el) (i + 1) } := by
      simp only [WorkerPool.step, WorkerPool.holder, hlock, if_pos (show i < 149 by omega), hk,
        Option.bind_eq_bind, Option.bind_some, hturn]
      rfl
    rw [List.replicate_succ, Run.run_cons, hstep, Option.bind_some,
      show i + (n + 1) = i + 1 + n by omega]
    exact @ih { pool with lock := .shutdown busy (some el) (i + 1) } (i + 1) hk rfl (by omega)

/-- A task is submitted, the executor takes the mutex, and `wp_shutdown` comes to its thread. -/
def mutexTaken : List PoolSection :=
  [.submit (7, none) true] ++ List.replicate 3 .holder ++ [.executor 0, .shutdown, .holder]

/-- The executor of the only thread has the mutex at all turns. -/
theorem not_shutdown_reaches :
    ¬ ∀ sections pool, .destroy ∉ sections →
      Run.run WorkerPool.step .wpInit sections = some pool → pool.ShutdownReaches := by
  intro h
  obtain ⟨pool, th, hrun, hlock, hk, hmutex, hstatus, hel⟩ :
      ∃ pool th, Run.run WorkerPool.step .wpInit mutexTaken = some pool ∧
        pool.lock = .shutdown true (some 0) 0 ∧ pool.threads 0 = some th ∧
        th.thread.holdsMutex ∧ th.thread.status = .busy ∧
        pool.elements 0 = some ⟨none, none⟩ := ⟨_, _, rfl, rfl, rfl, rfl, rfl, rfl⟩
  have hskip : WorkerPool.step { pool with lock := .shutdown true (some 0) (0 + 149) } .holder =
      some { pool with lock := .shutdown true none 0 } := by
    simp only [WorkerPool.step, WorkerPool.holder, WorkerPool.shutdownNext, hel]
    rfl
  have hreturns : Run.run WorkerPool.step .wpInit
      (mutexTaken ++ (List.replicate 149 .holder ++ [.holder])) =
      some { pool with lock := .shutdown true none 0 } := by
    rw [Run.run_append, hrun, Option.bind_some, Run.run_append,
      run_turns hmutex 149 hk hlock (by decide), Option.bind_some, Run.run_cons, hskip]
    rfl
  rcases h _ _ (by decide) hreturns 0 rfl 0 th hk with hs | hs
  · cases hstatus.symm.trans hs
  · cases hstatus.symm.trans hs

end LogxControll
