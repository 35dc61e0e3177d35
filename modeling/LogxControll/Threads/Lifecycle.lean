/-
  The life of a rerunnable thread from `rrt_init` to `rrt_destroy_thread`.

  A thread that was asked to shut down stays so until it exits (`shutdown_is_final`). A thread
  object whose thread could not be created is idle nevertheless: it takes jobs and is not destroyed
  (`failed_start_iff`).
-/
import LogxControll.Threads.AcceptedJobs

namespace LogxControll

/-! ## Shutdown -/

namespace SharedThread

variable {s s' : SharedThread} {c : ThreadSection}

theorem ended_step (h : s.thread.Ended) (hstep : s.step c = some s') : s'.thread.Ended := by
  rcases step_thread hstep with ⟨created, -, heq⟩ | ⟨f, p, heq⟩ | ⟨-, -, heq⟩ | hnotify | hexec
  · exact heq ▸ h.rrtStart created
  · exact heq ▸ h.rrtTryRerunIfFree f p
  · exact heq ▸ h.rrtGracefulShutdown
  · exact h.notifyJob hnotify
  · exact h.executorFunction hexec

/-- A thread stays stopped, and one that exited does not change its status. -/
theorem stopped_step (hended : s.thread.Ended) (h : s.thread.Stopped)
    (hstep : s.step c = some s') :
    s'.thread.Stopped ∧ (s.thread.status = .exited → s'.thread.status = .exited) := by
  rcases step_thread hstep with ⟨created, -, heq⟩ | ⟨f, p, heq⟩ | ⟨-, -, heq⟩ | hnotify | hexec
  · rw [h.rrtStart] at heq
    rw [heq]
    exact ⟨h, id⟩
  · rw [h.rrtTryRerunIfFree] at heq
    rw [heq]
    exact ⟨h, id⟩
  · rw [h.rrtGracefulShutdown.2] at heq
    rw [heq]
    exact ⟨h, id⟩
  · refine ⟨h.notifyJob hnotify, fun hs => ?_⟩
    have he := hended hs
    unfold RerunnableThread.notifyJob at hnotify
    grind
  · refine ⟨h.executorFunction hended hexec, fun hs => ?_⟩
    rw [RerunnableThread.executorFunction, hended hs] at hexec
    cases hexec

theorem ended_of_run {sections : List ThreadSection}
    (hrun : Run.run SharedThread.step init sections = some s) : s.thread.Ended :=
  Run.run_invariant (fun s => s.thread.Ended) (fun _ _ _ h hstep => ended_step h hstep) sections
    init s (fun hs => by cases hs) hrun

theorem stopped_of_run {later : List ThreadSection} (hended : s.thread.Ended)
    (h : s.thread.Stopped) (hrun : Run.run SharedThread.step s later = some s') :
    s'.thread.Stopped ∧ (s.thread.status = .exited → s'.thread.status = .exited) := by
  obtain ⟨-, hstopped, hexited⟩ := Run.run_invariant
    (fun x => x.thread.Ended ∧ x.thread.Stopped ∧
      (s.thread.status = .exited → x.thread.status = .exited))
    (fun x c x' ⟨hended, hstopped, hexited⟩ hstep =>
      have hkept := stopped_step hended hstopped hstep
      ⟨ended_step hended hstep, hkept.1, fun hs => hkept.2 (hexited hs)⟩)
    later s s' ⟨hended, h, id⟩ hrun
  exact ⟨hstopped, hexited⟩

/-- The thread is told to exit, and takes no job, no other request and no start. -/
structure ShutDown (s : SharedThread) : Prop where
  status : s.thread.status = .shutdownRequested ∨ s.thread.status = .exited
  rerun : ∀ f p, (s.thread.rrtTryRerunIfFree f p).1 = false
  shutdown : s.thread.rrtGracefulShutdown.1 = .tryAgain ∨
    s.thread.rrtGracefulShutdown.1 = .illegalRequest
  start : ∀ created, (s.thread.rrtStart created).1 = false

end SharedThread

/-- Whatever happens after the section in which a shutdown request succeeds, the thread is told to
    exit, and it stays exited. It accepts a job only when it is idle. -/
theorem shutdown_is_final {sections : List ThreadSection} {s : SharedThread}
    (hrun : Run.run SharedThread.step .init sections = some s) :
    (∀ t s', s.step (.shutdown t) = some s' →
      s.thread.rrtGracefulShutdown.1 = .success ∨
        s.thread.rrtGracefulShutdown.1 = .notifyThenSuccess →
      ∀ later s'', Run.run SharedThread.step s' later = some s'' → s''.ShutDown) ∧
    (s.thread.status = .exited → ∀ later s', Run.run SharedThread.step s later = some s' →
      s'.thread.status = .exited) ∧
    (∀ f p, (s.thread.rrtTryRerunIfFree f p).1 = true → s.thread.status = .idle) := by
  have hended := SharedThread.ended_of_run hrun
  refine ⟨fun t s' hstep hsuccess later s'' hlater => ?_, fun hexited later s' hlater =>
    (SharedThread.stopped_of_run hended (.inr hexited) hlater).2 hexited, fun f p htry => ?_⟩
  · have hstopped : s'.thread.Stopped := by
      have hthread : s'.thread = s.thread.rrtGracefulShutdown.2 := by
        simp only [SharedThread.step] at hstep
        split at hstep
        · cases hstep
        split at hstep <;> next heq => obtain rfl := Option.some.inj hstep; rw [heq]
      rw [hthread]
      exact RerunnableThread.stopped_of_success hsuccess
    have h := (SharedThread.stopped_of_run (SharedThread.ended_step hended hstep) hstopped hlater).1
    exact ⟨h, fun f p => by rw [h.rrtTryRerunIfFree], h.rrtGracefulShutdown.1,
      fun created => by rw [h.rrtStart]⟩
  · unfold RerunnableThread.rrtTryRerunIfFree at htry
    split at htry
    · assumption
    · cases htry

/-- A job is accepted, and the executor starts it. -/
def jobStarted : List ThreadSection :=
  [.start true, .tryRerun 0 7 none, .notify 0] ++ List.replicate 5 .executor

/-- A request during the job: the executor exits behind it. -/
theorem shutdown_is_final_in_job :
    ∃ s s' s'', Run.run SharedThread.step .init jobStarted = some s ∧
      s.step (.shutdown 1) = some s' ∧
      Run.run SharedThread.step s' (List.replicate 5 .executor) = some s'' ∧
      s''.ShutDown ∧ s''.thread.status = .exited := by
  obtain ⟨s, s', s'', hrun, hstep, hsuccess, hlater, hexited⟩ :
      ∃ s s' s'', Run.run SharedThread.step .init jobStarted = some s ∧
        s.step (.shutdown 1) = some s' ∧ s.thread.rrtGracefulShutdown.1 = .success ∧
        Run.run SharedThread.step s' (List.replicate 5 .executor) = some s'' ∧
        s''.thread.status = .exited := ⟨_, _, _, rfl, rfl, rfl, rfl, rfl⟩
  exact ⟨s, s', s'', hrun, hstep, hlater,
    (shutdown_is_final hrun).1 1 s' hstep (.inl hsuccess) _ s'' hlater, hexited⟩

/-! ## Start and destruction -/

/-- `rrt_destroy_thread`: does it return 0? Then the locks of the thread are gone. -/
def rrtDestroyThread (rrt : RerunnableThread) : Bool :=
  rrt.status = .exited ∨ rrt.status = .initalized

/-- The memory of a thread. `live` is whether its locks are initialised, `created` whether a thread
    was ever created for it. -/
structure ThreadObject where
  shared : SharedThread
  live : Bool
  created : Bool

/-- A section of the life of one thread object. -/
inductive ObjectCall where
  | init
  | call (c : ThreadSection)
  | destroy
  deriving DecidableEq, Repr

namespace ThreadObject

/-- Memory that no function has written yet. -/
def fresh : ThreadObject := { shared := .init, live := false, created := false }

/-- A call on locks that are not initialised, and the initialisation under a thread that runs, are
    undefined behaviour. -/
def step (o : ThreadObject) : ObjectCall → Option ThreadObject
  | .init =>
    if o.shared.thread.executor = .notStarted ∨ o.shared.thread.executor = .exited then
      some { o with shared := .init, live := true }
    else none
  | .call c =>
    if o.live then
      (o.shared.step c).map fun s =>
        { o with shared := s
                 created := o.created || (c == .start true &&
                   (o.shared.thread.rrtStart true).1) }
    else none
  | .destroy =>
    if o.live then some { o with live := !rrtDestroyThread o.shared.thread }
    else none

/-- A start that fails leaves the status as it was, only an object with a thread accepts jobs, and
    one without is destroyed. -/
def LeavesNoTrace (o : ThreadObject) : ObjectCall → Prop
  | .call (.start created) => (o.shared.thread.rrtStart created).1 = false →
      (o.shared.thread.rrtStart created).2.status = o.shared.thread.status
  | .call (.tryRerun _ function param) =>
      (o.shared.thread.rrtTryRerunIfFree (.client function) param).1 = true → o.created
  | .destroy => ¬ o.created → rrtDestroyThread o.shared.thread
  | _ => True

/-- The first `rrt_start` of an object can create the thread. -/
def ThreadCreated (o : ThreadObject) (c : ObjectCall) : Prop :=
  ∀ created, c = .call (.start created) → o.shared.thread.status = .initalized → created

/-- An object without a thread is as `rrt_init` left it. -/
def Untouched (o : ThreadObject) : Prop := ¬ o.created → o.shared.thread = rrtInit

variable {o o' : ThreadObject} {c : ObjectCall}

theorem threadCreated_of_ne (h : ∀ created, c ≠ .call (.start created)) : o.ThreadCreated c :=
  fun created hc => absurd hc (h created)

theorem Untouched.leavesNoTrace_iff (h : o.Untouched) (c : ObjectCall) :
    o.LeavesNoTrace c ↔ o.ThreadCreated c := by
  cases c with
  | init => exact ⟨fun _ => threadCreated_of_ne (by simp), fun _ => trivial⟩
  | destroy =>
    refine ⟨fun _ => threadCreated_of_ne (by simp), fun _ hnot => ?_⟩
    rw [h hnot]
    rfl
  | call c =>
    cases c with
    | start created =>
      simp only [LeavesNoTrace, ThreadCreated, RerunnableThread.rrtStart]
      grind
    | tryRerun t function param =>
      refine ⟨fun _ => threadCreated_of_ne (by simp), fun _ htry => ?_⟩
      by_contra hnot
      rw [h hnot] at htry
      cases htry
    | shutdown | notify | executor =>
      exact ⟨fun _ => threadCreated_of_ne (by simp), fun _ => trivial⟩

/-- No call writes an object without a thread, when `rrt_start` creates it. -/
theorem Untouched.step (h : o.Untouched) (hc : o.ThreadCreated c) (hstep : o.step c = some o') :
    o'.Untouched := by
  cases c with
  | init =>
    simp only [ThreadObject.step] at hstep
    split at hstep
    · obtain rfl := Option.some.inj hstep
      exact fun _ => rfl
    · cases hstep
  | destroy =>
    simp only [ThreadObject.step] at hstep
    split at hstep
    · obtain rfl := Option.some.inj hstep
      exact h
    · cases hstep
  | call c =>
    simp only [ThreadObject.step] at hstep
    split at hstep
    · obtain ⟨s, hs, rfl⟩ := Option.map_eq_some_iff.mp hstep
      intro hnot
      simp only [Bool.or_eq_true, not_or] at hnot
      have hinit := h hnot.1
      rcases SharedThread.step_thread hs with
        ⟨created, rfl, heq⟩ | ⟨f, p, heq⟩ | ⟨t, -, heq⟩ | hnotify | hexec
      · have hcreated := hc created rfl (by rw [hinit]; rfl)
        rw [hinit, hcreated] at hnot
        exact absurd rfl hnot.2
      · rw [hinit] at heq
        exact heq
      · rw [hinit] at heq
        exact heq
      · rw [hinit] at hnotify
        exact (Option.some.inj hnotify).symm
      · rw [hinit] at hexec
        cases hexec
    · cases hstep

end ThreadObject

/-- The calls on a thread object leave no trace exactly when no first `rrt_start` fails to create
    the thread. -/
theorem failed_start_iff (calls : List ObjectCall) :
    Run.Meets ThreadObject.step ThreadObject.LeavesNoTrace .fresh calls ↔
      Run.Meets ThreadObject.step ThreadObject.ThreadCreated .fresh calls :=
  Run.meets_iff ThreadObject.Untouched (fun _ c h => h.leavesNoTrace_iff c)
    (fun _ c _ h hok hstep => h.step ((h.leavesNoTrace_iff c).mp hok) hstep) fun _ => rfl

/-- The start fails, the thread that does not exist accepts a job, and is not destroyed. -/
def startFails : List ObjectCall :=
  [.init, .call (.start false), .call (.tryRerun 0 7 none), .destroy]

theorem not_leaves_no_trace :
    ¬ ∀ calls, Run.Meets ThreadObject.step ThreadObject.LeavesNoTrace .fresh calls := by
  intro h
  obtain ⟨-, hrest⟩ := h startFails
  have hstart := (hrest { ThreadObject.fresh with live := true } rfl).1 rfl
  cases hstart

end LogxControll
