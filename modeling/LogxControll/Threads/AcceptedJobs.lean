/-
  A rerunnable thread between any number of threads that submit jobs to it: which jobs it runs.

  The notification of an accepted job is a section of its own. It can come when the job was done
  already and the executor waits for the next one, which it then looks for in vain
  (`not_runs_accepted_jobs`). `runs_accepted_jobs` says that this is the only way to go wrong.
-/
import LogxControll.Threads.RerunnableThread

namespace LogxControll

/-- `notifying` are the threads between the two sections of `rrt_try_rerun_if_free` or of
    `rrt_graceful_shutdown`, `accepted` the submissions that got true, `called` the calls that the
    executor made, in order. -/
structure SharedThread where
  thread : RerunnableThread
  notifying : Nat → Bool
  accepted : List Job
  called : List (Option JobFunction × Option Nat)

/-- The sections of thread `t`, and the steps of the executor. A turn of the loop of
    `rrt_graceful_shutdown` is a step, so that the calls that give up are covered. -/
inductive ThreadSection where
  | start (created : Bool)
  | tryRerun (t : Nat) (function : Nat) (param : Option Nat)
  | shutdown (t : Nat)
  | notify (t : Nat)
  | executor
  deriving DecidableEq, Repr

namespace SharedThread

/-- Nobody has called the thread. -/
def init : SharedThread :=
  { thread := rrtInit, notifying := fun _ => false, accepted := [], called := [] }

/-- A section of one of the threads; who still has to notify calls nothing else. -/
def step (s : SharedThread) : ThreadSection → Option SharedThread
  | .start created => some { s with thread := (s.thread.rrtStart created).2 }
  | .tryRerun t function param =>
    if s.notifying t then none
    else
      match s.thread.rrtTryRerunIfFree (.client function) param with
      | (true, thread) =>
        some { s with thread := thread, notifying := Function.update s.notifying t true
                      accepted := s.accepted ++ [(.client function, param)] }
      | (false, thread) => some { s with thread := thread }
  | .shutdown t =>
    if s.notifying t then none
    else
      match s.thread.rrtGracefulShutdown with
      | (.notifyThenSuccess, thread) =>
        some { s with thread := thread, notifying := Function.update s.notifying t true }
      | (_, thread) => some { s with thread := thread }
  | .notify t =>
    if s.notifying t then
      s.thread.notifyJob.map fun thread =>
        { s with thread := thread, notifying := Function.update s.notifying t false }
    else none
  | .executor =>
    s.thread.executorFunction.map fun thread =>
      { s with thread := thread, called := s.called ++ s.thread.calls }

/-- The call of a job. -/
def jobCall (job : Job) : Option JobFunction × Option Nat := (some job.1, job.2)

/-- The executor calls the accepted jobs with their parameters, in their order and each once; one
    that it has not called is kept, and the thread is not free. -/
structure RunsAccepted (s : SharedThread) : Prop where
  called : ∃ jobs, s.accepted.map jobCall = s.called ++ jobs ∧ jobs.length ≤ 1
  kept : ∀ f p, s.accepted.map jobCall = s.called ++ [(some f, p)] →
    s.thread.run = some f ∧ s.thread.parameter = p ∧
      (s.thread.status = .busy ∨ s.thread.status = .shutdownRequested)
  notNull : ∀ p, (none, p) ∉ s.called

/-- The executor does not come out of `wait_for_job` while the thread is idle. -/
def WokenForJob (s : SharedThread) (c : ThreadSection) : Prop :=
  c = .executor → s.thread.executor = .woken → s.thread.status ≠ .idle

instance (s : SharedThread) (c : ThreadSection) : Decidable (s.WokenForJob c) :=
  inferInstanceAs (Decidable (_ → _ → _))

/-- What was accepted was called, but for the job of the thread. -/
def Sound (s : SharedThread) : Prop :=
  ∃ job, Phase s.thread job ∧ s.accepted.map jobCall = s.called ++ (job.map jobCall).toList

/-- The executor is about to call NULL, or did. -/
def Doomed (s : SharedThread) : Prop := s.thread.Doomed ∧ s.thread.status ≠ .initalized

variable {s s' : SharedThread} {c : ThreadSection}

/-- What a section does to the thread. -/
theorem step_thread (hstep : s.step c = some s') :
    (∃ created, c = .start created ∧ s'.thread = (s.thread.rrtStart created).2) ∨
    (∃ f p, s'.thread = (s.thread.rrtTryRerunIfFree f p).2) ∨
    (∃ t, c = .shutdown t ∧ s'.thread = s.thread.rrtGracefulShutdown.2) ∨
    s.thread.notifyJob = some s'.thread ∨ s.thread.executorFunction = some s'.thread := by
  cases c with
  | start created =>
    obtain rfl := Option.some.inj hstep
    exact .inl ⟨created, rfl, rfl⟩
  | tryRerun t function param =>
    refine .inr (.inl ⟨.client function, param, ?_⟩)
    simp only [SharedThread.step] at hstep
    split at hstep
    · cases hstep
    split at hstep <;> next heq => obtain rfl := Option.some.inj hstep; rw [heq]
  | shutdown t =>
    refine .inr (.inr (.inl ⟨t, rfl, ?_⟩))
    simp only [SharedThread.step] at hstep
    split at hstep
    · cases hstep
    split at hstep <;> next heq => obtain rfl := Option.some.inj hstep; rw [heq]
  | notify t =>
    simp only [SharedThread.step] at hstep
    split at hstep
    · obtain ⟨thread, hnotify, rfl⟩ := Option.map_eq_some_iff.mp hstep
      exact .inr (.inr (.inr (.inl hnotify)))
    · cases hstep
  | executor =>
    obtain ⟨thread, hexec, rfl⟩ := Option.map_eq_some_iff.mp hstep
    exact .inr (.inr (.inr (.inr hexec)))

theorem Sound.step (h : s.Sound) (hstep : s.step c = some s') :
    s'.Sound ∨ (¬ s.WokenForJob c ∧ s'.Doomed) := by
  obtain ⟨job, hphase, hjobs⟩ := h
  cases c with
  | start created =>
    obtain rfl := Option.some.inj hstep
    exact .inl ⟨job, hphase.rrtStart created, hjobs⟩
  | tryRerun t function param =>
    simp only [SharedThread.step] at hstep
    split at hstep
    · cases hstep
    rcases htry : s.thread.rrtTryRerunIfFree (.client function) param with ⟨accepted, thread⟩
    rw [htry] at hstep
    cases accepted with
    | true =>
      obtain rfl := Option.some.inj hstep
      obtain ⟨rfl, hphase'⟩ := hphase.rrtTryRerunIfFree (by simp) htry
      refine .inl ⟨_, hphase', ?_⟩
      rw [List.map_append, hjobs, Option.map_none, Option.toList_none, List.append_nil]
      rfl
    | false =>
      obtain rfl := Option.some.inj hstep
      have hsame : thread = s.thread := by
        unfold RerunnableThread.rrtTryRerunIfFree at htry
        split at htry <;> cases htry
        rfl
      exact .inl ⟨job, hsame ▸ hphase, hjobs⟩
  | shutdown t =>
    simp only [SharedThread.step] at hstep
    split at hstep
    · cases hstep
    have hphase' := hphase.rrtGracefulShutdown
    split at hstep
    · next thread heq =>
      obtain rfl := Option.some.inj hstep
      exact .inl ⟨job, by rw [heq] at hphase'; exact hphase', hjobs⟩
    · next thread heq =>
      obtain rfl := Option.some.inj hstep
      exact .inl ⟨job, by rw [heq] at hphase'; exact hphase', hjobs⟩
  | notify t =>
    simp only [SharedThread.step] at hstep
    split at hstep
    · obtain ⟨thread, hnotify, rfl⟩ := Option.map_eq_some_iff.mp hstep
      exact .inl ⟨job, hphase.notifyJob hnotify, hjobs⟩
    · cases hstep
  | executor =>
    obtain ⟨thread, hexec, rfl⟩ := Option.map_eq_some_iff.mp hstep
    rcases hphase.executorFunction hexec with ⟨job', hphase', hcalls⟩ | ⟨hwoken, hidle, hdoomed, -⟩
    · refine .inl ⟨job', hphase', ?_⟩
      rw [hjobs, List.append_assoc]
      exact congrArg (s.called ++ ·) hcalls.symm
    · refine .inr ⟨fun h => h rfl hwoken hidle, hdoomed, ?_⟩
      obtain ⟨heq, -, -⟩ := hphase.eq_of_idle hidle
      rw [heq, hwoken] at hexec
      obtain rfl := Option.some.inj hexec
      show RerunnableThreadState.idle ≠ .initalized
      decide

/-- Nothing helps a thread that read NULL. -/
theorem Doomed.step (h : s.Doomed) (hstep : s.step c = some s') : s'.Doomed := by
  obtain ⟨hdoomed, hstatus⟩ := h
  have hkept {thread : RerunnableThread} (he : thread.executor = s.thread.executor) :
      thread.Doomed := by
    unfold RerunnableThread.Doomed
    rw [he]
    exact hdoomed
  rcases step_thread hstep with ⟨created, -, heq⟩ | ⟨f, p, heq⟩ | ⟨-, -, heq⟩ | hnotify | hexec
  · rw [RerunnableThread.rrtStart, if_neg hstatus] at heq
    exact ⟨hkept (congrArg _ heq), heq ▸ hstatus⟩
  · refine ⟨hkept ?_, ?_⟩ <;> rw [heq]
    · exact RerunnableThread.rrtTryRerunIfFree_executor _ _
    · exact RerunnableThread.rrtTryRerunIfFree_started hstatus _ _
  · refine ⟨hkept ?_, ?_⟩ <;> rw [heq]
    · exact RerunnableThread.rrtGracefulShutdown_executor
    · exact RerunnableThread.rrtGracefulShutdown_started hstatus
  · have hsame := hdoomed.notifyJob hnotify
    exact ⟨hkept (congrArg _ hsame), hsame ▸ hstatus⟩
  · obtain ⟨hdoomed', hsame⟩ := hdoomed.executorFunction hexec
    exact ⟨hdoomed', hsame ▸ hstatus⟩

theorem init_sound : init.Sound := ⟨none, .fresh, rfl⟩

theorem jobCall_injective : Function.Injective jobCall := by
  rintro ⟨f, p⟩ ⟨f', p'⟩ h
  obtain ⟨hf, hp⟩ := Prod.mk.inj h
  obtain rfl := Option.some.inj hf
  obtain rfl : p = p' := hp
  rfl

/-- The job that was not called yet is the one the thread holds. -/
theorem Sound.runsAccepted (h : s.Sound) : s.RunsAccepted := by
  obtain ⟨job, hphase, hjobs⟩ := h
  refine ⟨⟨_, hjobs, by cases job <;> simp⟩, fun f p heq => ?_, fun p hp => ?_⟩
  · obtain rfl : job = some (f, p) := by
      have hlast := List.append_cancel_left (hjobs.symm.trans heq)
      cases job with
      | none => cases hlast
      | some job => exact congrArg some (jobCall_injective (List.singleton_inj.mp hlast))
    exact hphase.holds
  · have hmem : (none, p) ∈ s.accepted.map jobCall := by
      rw [hjobs]
      exact List.mem_append_left _ hp
    obtain ⟨job, -, hjob⟩ := List.mem_map.mp hmem
    cases (Prod.mk.inj hjob).1

theorem sound_of_run {sections : List ThreadSection}
    (hrun : Run.run SharedThread.step init sections = some s)
    (hwoken : Run.Meets SharedThread.step WokenForJob init sections) : s.Sound :=
  Run.run_invariant_of_meets Sound
    (fun _ _ _ h hok hstep => (h.step hstep).resolve_right fun hbad => hbad.1 hok)
    sections init s init_sound hwoken hrun

theorem sound_or_doomed_of_run {sections : List ThreadSection}
    (hrun : Run.run SharedThread.step init sections = some s) : s.Sound ∨ s.Doomed := by
  refine Run.run_invariant (fun s => s.Sound ∨ s.Doomed) (fun s c s' h hstep => ?_) sections init s
    (.inl init_sound) hrun
  rcases h with h | h
  · exact (h.step hstep).imp_right And.right
  · exact .inr (h.step hstep)

/-- An executor that is woken for nothing calls NULL. -/
theorem Sound.calls_null (h : s.Sound) (hbad : ¬ s.WokenForJob .executor) :
    ∃ s', Run.run SharedThread.step s [.executor, .executor] = some s' ∧ ¬ s'.RunsAccepted := by
  obtain ⟨hwoken, hidle⟩ : s.thread.executor = .woken ∧ s.thread.status = .idle := by
    simpa [WokenForJob] using hbad
  obtain ⟨job, hphase, -⟩ := h
  obtain ⟨heq, -, -⟩ := hphase.eq_of_idle hidle
  rw [hwoken] at heq
  have hfirst : s.step .executor =
      some { s with thread := ⟨.idle, none, none, .beforeJob none none⟩ } := by
    simp only [SharedThread.step, heq, RerunnableThread.executorFunction, RerunnableThread.calls]
    simp
  refine ⟨{ s with thread := ⟨.idle, none, none, .crashed⟩, called := s.called ++ [(none, none)] },
    ?_, fun hruns => hruns.notNull none (by simp)⟩
  rw [Run.run_cons, hfirst]
  rfl

end SharedThread

/-- Along every run in which the executor never comes out of `wait_for_job` while the thread is
    idle, exactly the accepted jobs are run. When it does so, it calls NULL next. -/
theorem runs_accepted_jobs {sections : List ThreadSection} {s : SharedThread}
    (hrun : Run.run SharedThread.step .init sections = some s) :
    (Run.Meets SharedThread.step SharedThread.WokenForJob .init sections → s.RunsAccepted) ∧
    (¬ s.WokenForJob .executor →
      ∃ s', Run.run SharedThread.step s [.executor, .executor] = some s' ∧ ¬ s'.RunsAccepted) := by
  refine ⟨fun hwoken => (SharedThread.sound_of_run hrun hwoken).runsAccepted, fun hbad => ?_⟩
  refine SharedThread.Sound.calls_null ?_ hbad
  refine (SharedThread.sound_or_doomed_of_run hrun).resolve_right fun hdoomed => hbad ?_
  intro _ hwoken
  rcases hdoomed.1 with ⟨p, he⟩ | he <;> rw [he] at hwoken <;> cases hwoken

/-- The executor waits, two threads submit a job, and the accepted one is run. -/
def contendedSections : List ThreadSection :=
  [.start true, .executor, .executor, .executor, .tryRerun 0 7 (some 42), .tryRerun 1 8 none,
    .notify 0] ++ List.replicate 4 .executor

theorem runs_accepted_jobs_contended :
    ∃ s, Run.run SharedThread.step .init contendedSections = some s ∧ s.RunsAccepted ∧
      s.called = [(some (.client 7), some 42)] := by
  obtain ⟨s, hrun⟩ : ∃ s, Run.run SharedThread.step .init contendedSections = some s := ⟨_, rfl⟩
  refine ⟨s, hrun, (runs_accepted_jobs hrun).1 (by decide), ?_⟩
  obtain rfl := Option.some.inj hrun
  rfl

/-- A job is accepted before the executor waits, which runs it and waits then; the notification of
    the job comes last, and wakes the executor. -/
def lateNotification : List ThreadSection :=
  [.start true, .tryRerun 0 7 (some 42)] ++ List.replicate 13 .executor ++ [.notify 0] ++
    List.replicate 4 .executor

/-- The late notification lets the executor call NULL. -/
theorem not_runs_accepted_jobs :
    ¬ ∀ sections s, Run.run SharedThread.step .init sections = some s → s.RunsAccepted := by
  intro h
  obtain ⟨s, hrun, hcalled⟩ : ∃ s, Run.run SharedThread.step .init lateNotification = some s ∧
      s.called = [(some (.client 7), some 42), (none, none)] := ⟨_, rfl, rfl⟩
  exact (h lateNotification s hrun).notNull none (by simp [hcalled])

end LogxControll
