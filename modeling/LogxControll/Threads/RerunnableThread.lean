/-
  `core/utils/rerunnable_thread.c`: a thread that runs one job after the other.

  Every section between locking and unlocking is one step, and so is what the executor does
  between two sections; `rrt_try_rerun_if_free` and `rrt_graceful_shutdown` notify the executor in
  a section of its own. A condition wait ends only when it is notified.

  `Phase` says which jobs a thread can hold; each function has one lemma about it.
-/
import LogxControll.Lib.Run
import Mathlib.Logic.Function.Basic
import Mathlib.Tactic

namespace LogxControll

/-- `enum rerunnable_thread_state` -/
inductive RerunnableThreadState where
  | initalized | idle | busy | shutdownRequested | exited
  deriving DecidableEq, Repr

/-- A `void (*)(void*)` that is not NULL; the last two are static functions of their files. -/
inductive JobFunction where
  | client (id : Nat)
  | workerPoolExecFunction
  | pointerOnShutdownRequest
  deriving DecidableEq, Repr

/-- Where `executor_function` is, with its locals `funct` and `param`. -/
inductive Executor where
  | notStarted
  /-- before `wait_for_job` locks the mutex of `has_job_cw` -/
  | waitForJob
  /-- with the mutex, before `atomic_get_state` -/
  | checkState
  /-- with the mutex, before `lxc_thread_cond_wait_wait` -/
  | aboutToWait
  /-- in `lxc_thread_cond_wait_wait`, which has given the mutex back -/
  | waiting
  /-- notified, before `lxc_thread_cond_wait_wait` has the mutex again -/
  | notified
  /-- with the mutex, before `lxc_thread_cond_wait_unlock` -/
  | aboutToUnlock
  /-- behind `wait_for_job` -/
  | woken
  /-- before `funct(param)` -/
  | beforeJob (funct : Option JobFunction) (param : Option Nat)
  | inJob (funct : JobFunction) (param : Option Nat)
  /-- before `run = NULL` -/
  | clearRun (funct : JobFunction) (param : Option Nat)
  | clearParameter (funct : JobFunction) (param : Option Nat)
  /-- before the section after the job -/
  | afterJob (funct : JobFunction) (param : Option Nat)
  /-- before the callback `rrt_after_become_idle` -/
  | becameIdle (funct : JobFunction) (param : Option Nat)
  /-- behind the loop -/
  | leaving
  | exited
  /-- NULL was called -/
  | crashed
  deriving DecidableEq, Repr

/-- `struct rerunnable_thread`, with the place of its executor for the locks. -/
structure RerunnableThread where
  status : RerunnableThreadState
  run : Option JobFunction
  parameter : Option Nat
  executor : Executor
  deriving DecidableEq, Repr

/-- `rrt_init` -/
def rrtInit : RerunnableThread :=
  { status := .initalized, run := none, parameter := none, executor := .notStarted }

namespace RerunnableThread

/-- `rrt_start`: does it return 0? `created` is whether the new thread could be started. -/
def rrtStart (created : Bool) (rrt : RerunnableThread) : Bool × RerunnableThread :=
  if rrt.status = .initalized then
    (created, { rrt with status := .idle
                         executor := if created then .waitForJob else rrt.executor })
  else (false, rrt)

/-- The executor has the mutex of `has_job_cw`. -/
def holdsMutex (rrt : RerunnableThread) : Bool :=
  match rrt.executor with
  | .checkState | .aboutToWait | .aboutToUnlock => true
  | _ => false

/-- `notify_job`, which waits for the mutex. -/
def notifyJob (rrt : RerunnableThread) : Option RerunnableThread :=
  if rrt.holdsMutex then none
  else some (if rrt.executor = .waiting then { rrt with executor := .notified } else rrt)

/-- The first section of `rrt_try_rerun_if_free`. -/
def rrtTryRerunIfFree (function : JobFunction) (param : Option Nat) (rrt : RerunnableThread) :
    Bool × RerunnableThread :=
  if rrt.status = .idle then
    (true, { rrt with status := .busy, run := some function, parameter := param })
  else (false, rrt)

/-- How one turn of the loop of `rrt_graceful_shutdown` ends. -/
inductive Shutdown where
  | tryAgain
  | notifyThenSuccess
  | success
  | illegalRequest
  deriving DecidableEq, Repr

/-- One turn of the loop of `rrt_graceful_shutdown`: the mutex is tried, not waited for. -/
def rrtGracefulShutdown (rrt : RerunnableThread) : Shutdown × RerunnableThread :=
  if rrt.holdsMutex then (.tryAgain, rrt)
  else
    match rrt.status with
    | .idle => (.notifyThenSuccess, { rrt with status := .shutdownRequested
                                               run := some .pointerOnShutdownRequest })
    | .busy => (.success, { rrt with status := .shutdownRequested })
    | _ => (.illegalRequest, rrt)

/-- The next step of `executor_function`. -/
def executorFunction (rrt : RerunnableThread) : Option RerunnableThread :=
  match rrt.executor with
  | .waitForJob => some { rrt with executor := .checkState }
  | .checkState =>
    some { rrt with executor := if rrt.status = .idle then .aboutToWait else .aboutToUnlock }
  | .aboutToWait => some { rrt with executor := .waiting }
  | .notified => some { rrt with executor := .aboutToUnlock }
  | .aboutToUnlock => some { rrt with executor := .woken }
  | .woken =>
    if rrt.status = .shutdownRequested ∧ rrt.run = some .pointerOnShutdownRequest then
      some { rrt with executor := .leaving }
    else some { rrt with executor := .beforeJob rrt.run rrt.parameter }
  | .beforeJob none _ => some { rrt with executor := .crashed }
  | .beforeJob (some funct) param => some { rrt with executor := .inJob funct param }
  | .inJob funct param => some { rrt with executor := .clearRun funct param }
  | .clearRun funct param =>
    some { rrt with run := none, executor := .clearParameter funct param }
  | .clearParameter funct param =>
    some { rrt with parameter := none, executor := .afterJob funct param }
  | .afterJob funct param =>
    if rrt.status = .shutdownRequested then some { rrt with executor := .leaving }
    else some { rrt with status := .idle, executor := .becameIdle funct param }
  | .becameIdle _ _ => some { rrt with executor := .waitForJob }
  | .leaving => some { rrt with status := .exited, executor := .exited }
  | .notStarted | .waiting | .exited | .crashed => none

/-- The call that the next step of the executor makes. -/
def calls (rrt : RerunnableThread) : List (Option JobFunction × Option Nat) :=
  match rrt.executor with
  | .beforeJob funct param => [(funct, param)]
  | _ => []

end RerunnableThread

/-! ## The job of a thread -/

/-- The executor has not read the job, if there is one. -/
def Executor.Outside : Executor → Prop
  | .notStarted | .waitForJob | .checkState | .aboutToWait | .waiting | .notified | .aboutToUnlock
  | .woken | .becameIdle _ _ => True
  | _ => False

/-- A thread that was given a job and has not finished it. -/
def RerunnableThreadState.Taken (status : RerunnableThreadState) : Prop :=
  status = .busy ∨ status = .shutdownRequested

/-- A function and its parameter. -/
abbrev Job := JobFunction × Option Nat

/-- The states of a thread, with the job that was accepted and not called yet. -/
inductive Phase : RerunnableThread → Option Job → Prop where
  | fresh : Phase rrtInit none
  | free {e : Executor} (he : e.Outside) : Phase ⟨.idle, none, none, e⟩ none
  | assigned {e : Executor} {status : RerunnableThreadState} {f : JobFunction} {p : Option Nat}
      (he : e.Outside) (hstatus : status.Taken) (hf : f ≠ .pointerOnShutdownRequest) :
      Phase ⟨status, some f, p, e⟩ (some (f, p))
  | poisoned {e : Executor} (he : e.Outside) :
      Phase ⟨.shutdownRequested, some .pointerOnShutdownRequest, none, e⟩ none
  | read {status : RerunnableThreadState} {f : JobFunction} {p : Option Nat}
      (hstatus : status.Taken) (hf : f ≠ .pointerOnShutdownRequest) :
      Phase ⟨status, some f, p, .beforeJob (some f) p⟩ (some (f, p))
  | working {status : RerunnableThreadState} {run : Option JobFunction} {param : Option Nat}
      {f : JobFunction} {p : Option Nat} (hstatus : status.Taken) :
      Phase ⟨status, run, param, .inJob f p⟩ none
  | clearRun {status : RerunnableThreadState} {run : Option JobFunction} {param : Option Nat}
      {f : JobFunction} {p : Option Nat} (hstatus : status.Taken) :
      Phase ⟨status, run, param, .clearRun f p⟩ none
  | clearParameter {status : RerunnableThreadState} {param : Option Nat} {f : JobFunction}
      {p : Option Nat} (hstatus : status.Taken) :
      Phase ⟨status, none, param, .clearParameter f p⟩ none
  | afterJob {status : RerunnableThreadState} {f : JobFunction} {p : Option Nat}
      (hstatus : status.Taken) : Phase ⟨status, none, none, .afterJob f p⟩ none
  | leaving {run : Option JobFunction} {param : Option Nat} :
      Phase ⟨.shutdownRequested, run, param, .leaving⟩ none
  | exited {run : Option JobFunction} {param : Option Nat} :
      Phase ⟨.exited, run, param, .exited⟩ none

/-- The job that was accepted and not called. -/
def RerunnableThread.job (rrt : RerunnableThread) : Option Job :=
  match rrt.executor, rrt.run with
  | .inJob .., _ | .clearRun .., _ | .clearParameter .., _ | .afterJob .., _ | .leaving, _
  | .exited, _ => none
  | _, some .pointerOnShutdownRequest => none
  | _, run => run.map fun f => (f, rrt.parameter)

/-- The executor read NULL. -/
def RerunnableThread.Doomed (rrt : RerunnableThread) : Prop :=
  (∃ param, rrt.executor = .beforeJob none param) ∨ rrt.executor = .crashed

namespace Phase

open RerunnableThread

variable {rrt rrt' : RerunnableThread} {job : Option Job}

theorem eq_init (h : Phase rrt job) (hs : rrt.status = .initalized) :
    rrt = rrtInit ∧ job = none := by
  cases h with
  | fresh => exact ⟨rfl, rfl⟩
  | free | poisoned | leaving | exited => cases hs
  | assigned _ hstatus _ | read hstatus _ | working hstatus | clearRun hstatus
  | clearParameter hstatus | afterJob hstatus =>
    rcases hstatus with rfl | rfl <;> cases hs

theorem eq_of_idle (h : Phase rrt job) (hs : rrt.status = .idle) :
    rrt = ⟨.idle, none, none, rrt.executor⟩ ∧ rrt.executor.Outside ∧ job = none := by
  cases h with
  | free he => exact ⟨rfl, he, rfl⟩
  | fresh | poisoned | leaving | exited => cases hs
  | assigned _ hstatus _ | read hstatus _ | working hstatus | clearRun hstatus
  | clearParameter hstatus | afterJob hstatus =>
    rcases hstatus with rfl | rfl <;> cases hs

/-- The job of a thread is found in it. -/
theorem job_eq (h : Phase rrt job) : job = rrt.job := by
  cases h with
  | fresh => rfl
  | free | poisoned =>
    rename_i e _
    cases e <;> rfl
  | assigned he _ hf =>
    rename_i e _ f _ _
    cases e <;> first
      | exact he.elim
      | cases f <;> first | rfl | exact absurd rfl hf
  | read _ hf =>
    rename_i _ f _ _
    cases f <;> first | rfl | exact absurd rfl hf
  | working | clearRun | clearParameter | afterJob | leaving | exited => rfl

/-- A job that was accepted and not called is kept. -/
theorem holds {f : JobFunction} {p : Option Nat} (h : Phase rrt (some (f, p))) :
    rrt.run = some f ∧ rrt.parameter = p ∧ rrt.status.Taken := by
  cases h with
  | assigned _ hstatus _ => exact ⟨rfl, rfl, hstatus⟩
  | read hstatus _ => exact ⟨rfl, rfl, hstatus⟩

/-- The executor moves between two jobs. -/
theorem setExecutor (h : Phase rrt job) (hs : rrt.status ≠ .initalized) {e : Executor}
    (he : rrt.executor.Outside) (he' : e.Outside) : Phase { rrt with executor := e } job := by
  cases h with
  | fresh => exact absurd rfl hs
  | free => exact .free he'
  | assigned _ hstatus hf => exact .assigned he' hstatus hf
  | poisoned => exact .poisoned he'
  | read | working | clearRun | clearParameter | afterJob | leaving | exited => exact he.elim

/-- A busy thread is asked to shut down. -/
theorem requestShutdown (h : Phase rrt job) (hs : rrt.status = .busy) :
    Phase { rrt with status := .shutdownRequested } job := by
  have hstatus : RerunnableThreadState.shutdownRequested.Taken := .inr rfl
  cases h with
  | fresh | free | poisoned | leaving | exited => cases hs
  | assigned he _ hf => exact .assigned he hstatus hf
  | read _ hf => exact .read hstatus hf
  | working => exact .working hstatus
  | clearRun => exact .clearRun hstatus
  | clearParameter => exact .clearParameter hstatus
  | afterJob => exact .afterJob hstatus

theorem rrtStart (h : Phase rrt job) (created : Bool) : Phase (rrt.rrtStart created).2 job := by
  unfold RerunnableThread.rrtStart
  split
  · next hs =>
    obtain ⟨rfl, rfl⟩ := h.eq_init hs
    cases created <;> exact .free trivial
  · exact h

theorem notifyJob (h : Phase rrt job) (hstep : rrt.notifyJob = some rrt') : Phase rrt' job := by
  unfold RerunnableThread.notifyJob at hstep
  split at hstep
  · cases hstep
  · obtain rfl := Option.some.inj hstep
    split
    · next he =>
      refine h.setExecutor (fun hs => ?_) (by rw [he]; trivial) trivial
      obtain ⟨rfl, -⟩ := h.eq_init hs
      cases he
    · exact h

/-- A job is accepted when there is none. -/
theorem rrtTryRerunIfFree (h : Phase rrt job) {f : JobFunction}
    (hf : f ≠ .pointerOnShutdownRequest) {p : Option Nat}
    (hstep : rrt.rrtTryRerunIfFree f p = (true, rrt')) : job = none ∧ Phase rrt' (some (f, p)) := by
  unfold RerunnableThread.rrtTryRerunIfFree at hstep
  split at hstep
  · next hs =>
    obtain ⟨-, rfl⟩ := Prod.mk.inj hstep
    obtain ⟨-, he, rfl⟩ := h.eq_of_idle hs
    exact ⟨rfl, .assigned he (.inl rfl) hf⟩
  · cases hstep

theorem rrtGracefulShutdown (h : Phase rrt job) : Phase rrt.rrtGracefulShutdown.2 job := by
  unfold RerunnableThread.rrtGracefulShutdown
  split
  · exact h
  · split
    · next hs =>
      obtain ⟨heq, he, rfl⟩ := h.eq_of_idle hs
      rw [heq]
      exact .poisoned he
    · next hs => exact h.requestShutdown hs
    · exact h

/-- The executor finishes its job, or goes on with the one it was given; when it is woken without
    one, it reads NULL. -/
theorem executorFunction (h : Phase rrt job) (hstep : rrt.executorFunction = some rrt') :
    (∃ job', Phase rrt' job' ∧ rrt.calls ++ (job'.map fun j => (some j.1, j.2)).toList =
      (job.map fun j => (some j.1, j.2)).toList) ∨
    (rrt.executor = .woken ∧ rrt.status = .idle ∧ rrt'.Doomed ∧ rrt.calls = []) := by
  cases h with
  | fresh => cases hstep
  | free he =>
    rename_i e
    cases e with
    | notStarted | waiting => cases hstep
    | waitForJob | checkState | aboutToWait | notified | aboutToUnlock | becameIdle =>
      obtain rfl := Option.some.inj hstep
      exact .inl ⟨none, .free trivial, rfl⟩
    | woken =>
      obtain rfl := Option.some.inj hstep
      exact .inr ⟨rfl, rfl, .inl ⟨none, rfl⟩, rfl⟩
    | beforeJob | inJob | clearRun | clearParameter | afterJob | leaving | exited | crashed =>
      exact he.elim
  | assigned he hstatus hf =>
    rename_i e status f p
    cases e with
    | notStarted | waiting => cases hstep
    | waitForJob | aboutToWait | notified | aboutToUnlock | becameIdle =>
      obtain rfl := Option.some.inj hstep
      exact .inl ⟨some (f, p), .assigned trivial hstatus hf, rfl⟩
    | checkState =>
      obtain rfl := Option.some.inj hstep
      have hne : status ≠ .idle := by rcases hstatus with rfl | rfl <;> simp
      rw [if_neg hne]
      exact .inl ⟨some (f, p), .assigned trivial hstatus hf, rfl⟩
    | woken =>
      have hne : ¬ (status = .shutdownRequested ∧ some f = some .pointerOnShutdownRequest) :=
        fun hpoison => hf (Option.some.inj hpoison.2)
      simp only [RerunnableThread.executorFunction, if_neg hne] at hstep
      obtain rfl := Option.some.inj hstep
      exact .inl ⟨some (f, p), .read hstatus hf, rfl⟩
    | beforeJob | inJob | clearRun | clearParameter | afterJob | leaving | exited | crashed =>
      exact he.elim
  | poisoned he =>
    rename_i e
    cases e with
    | notStarted | waiting => cases hstep
    | waitForJob | checkState | aboutToWait | notified | aboutToUnlock | becameIdle =>
      obtain rfl := Option.some.inj hstep
      exact .inl ⟨none, .poisoned trivial, rfl⟩
    | woken =>
      obtain rfl := Option.some.inj hstep
      exact .inl ⟨none, .leaving, rfl⟩
    | beforeJob | inJob | clearRun | clearParameter | afterJob | leaving | exited | crashed =>
      exact he.elim
  | read hstatus hf =>
    obtain rfl := Option.some.inj hstep
    exact .inl ⟨none, .working hstatus, rfl⟩
  | working hstatus =>
    obtain rfl := Option.some.inj hstep
    exact .inl ⟨none, .clearRun hstatus, rfl⟩
  | clearRun hstatus =>
    obtain rfl := Option.some.inj hstep
    exact .inl ⟨none, .clearParameter hstatus, rfl⟩
  | clearParameter hstatus =>
    obtain rfl := Option.some.inj hstep
    exact .inl ⟨none, .afterJob hstatus, rfl⟩
  | afterJob hstatus =>
    rcases hstatus with rfl | rfl
    · obtain rfl := Option.some.inj hstep
      exact .inl ⟨none, .free trivial, rfl⟩
    · obtain rfl := Option.some.inj hstep
      exact .inl ⟨none, .leaving, rfl⟩
  | leaving =>
    obtain rfl := Option.some.inj hstep
    exact .inl ⟨none, .exited, rfl⟩
  | exited => cases hstep

end Phase

namespace RerunnableThread

variable {rrt rrt' : RerunnableThread}

@[simp] theorem rrtTryRerunIfFree_executor (f : JobFunction) (p : Option Nat) :
    (rrt.rrtTryRerunIfFree f p).2.executor = rrt.executor := by
  unfold rrtTryRerunIfFree
  split <;> rfl

@[simp] theorem rrtGracefulShutdown_executor :
    rrt.rrtGracefulShutdown.2.executor = rrt.executor := by
  unfold rrtGracefulShutdown
  split
  · rfl
  · split <;> rfl

theorem rrtTryRerunIfFree_started (hs : rrt.status ≠ .initalized) (f : JobFunction)
    (p : Option Nat) : (rrt.rrtTryRerunIfFree f p).2.status ≠ .initalized := by
  unfold rrtTryRerunIfFree
  split
  · simp
  · exact hs

theorem rrtGracefulShutdown_started (hs : rrt.status ≠ .initalized) :
    rrt.rrtGracefulShutdown.2.status ≠ .initalized := by
  unfold rrtGracefulShutdown
  split
  · exact hs
  · split
    · simp
    · simp
    · exact hs

/-- Nobody wakes a thread that read NULL. -/
theorem Doomed.notifyJob (h : rrt.Doomed) (hstep : rrt.notifyJob = some rrt') : rrt' = rrt := by
  have hne : rrt.executor ≠ .waiting := by
    rcases h with ⟨p, he⟩ | he <;> rw [he] <;> simp
  unfold RerunnableThread.notifyJob at hstep
  split at hstep
  · cases hstep
  · exact (Option.some.inj hstep).symm

theorem Doomed.executorFunction (h : rrt.Doomed) (hstep : rrt.executorFunction = some rrt') :
    rrt'.Doomed ∧ rrt'.status = rrt.status := by
  rcases h with ⟨p, he⟩ | he
  · simp only [RerunnableThread.executorFunction, he] at hstep
    obtain rfl := Option.some.inj hstep
    exact ⟨.inr rfl, rfl⟩
  · simp only [RerunnableThread.executorFunction, he] at hstep
    cases hstep

theorem rrtGracefulShutdown_status :
    rrt.rrtGracefulShutdown.2.status = rrt.status ∨
    rrt.rrtGracefulShutdown.2.status = .shutdownRequested := by
  unfold rrtGracefulShutdown
  grind

theorem rrtGracefulShutdown_notifies (h : rrt.rrtGracefulShutdown.1 = .notifyThenSuccess) :
    rrt.rrtGracefulShutdown.2.status = .shutdownRequested := by
  unfold rrtGracefulShutdown at h ⊢
  grind

/-! ### Shutdown -/

/-- The thread was asked to shut down. -/
def Stopped (rrt : RerunnableThread) : Prop :=
  rrt.status = .shutdownRequested ∨ rrt.status = .exited

/-- Only the executor that is behind everything has exited. -/
def Ended (rrt : RerunnableThread) : Prop := rrt.status = .exited → rrt.executor = .exited

theorem Stopped.rrtStart (h : rrt.Stopped) (created : Bool) :
    rrt.rrtStart created = (false, rrt) := by
  rw [RerunnableThread.rrtStart, if_neg]
  rcases h with h | h <;> rw [h] <;> simp

theorem Stopped.rrtTryRerunIfFree (h : rrt.Stopped) (f : JobFunction) (p : Option Nat) :
    rrt.rrtTryRerunIfFree f p = (false, rrt) := by
  rw [RerunnableThread.rrtTryRerunIfFree, if_neg]
  rcases h with h | h <;> rw [h] <;> simp

theorem Stopped.rrtGracefulShutdown (h : rrt.Stopped) :
    (rrt.rrtGracefulShutdown.1 = .tryAgain ∨ rrt.rrtGracefulShutdown.1 = .illegalRequest) ∧
    rrt.rrtGracefulShutdown.2 = rrt := by
  unfold RerunnableThread.rrtGracefulShutdown
  split
  · exact ⟨.inl rfl, rfl⟩
  · rcases h with h | h <;> rw [h] <;> exact ⟨.inr rfl, rfl⟩

theorem Stopped.notifyJob (h : rrt.Stopped) (hstep : rrt.notifyJob = some rrt') :
    rrt'.Stopped := by
  unfold RerunnableThread.notifyJob at hstep
  split at hstep
  · cases hstep
  · obtain rfl := Option.some.inj hstep
    split <;> exact h

/-- The executor looks for the request before it becomes idle. -/
theorem Stopped.executorFunction (h : rrt.Stopped) (hended : rrt.Ended)
    (hstep : rrt.executorFunction = some rrt') : rrt'.Stopped := by
  have hexited : rrt.status ≠ .exited := fun hs => by
    rw [RerunnableThread.executorFunction, hended hs] at hstep
    cases hstep
  have hs := h.resolve_right hexited
  unfold RerunnableThread.executorFunction at hstep
  unfold Stopped
  split at hstep <;> grind

theorem stopped_of_success (h : rrt.rrtGracefulShutdown.1 = .success ∨
    rrt.rrtGracefulShutdown.1 = .notifyThenSuccess) : rrt.rrtGracefulShutdown.2.Stopped := by
  unfold RerunnableThread.rrtGracefulShutdown at h ⊢
  unfold Stopped
  grind

theorem Ended.rrtStart (h : rrt.Ended) (created : Bool) : (rrt.rrtStart created).2.Ended := by
  unfold RerunnableThread.rrtStart
  split
  · intro hs
    cases hs
  · exact h

theorem Ended.rrtTryRerunIfFree (h : rrt.Ended) (f : JobFunction) (p : Option Nat) :
    (rrt.rrtTryRerunIfFree f p).2.Ended := by
  unfold RerunnableThread.rrtTryRerunIfFree
  split
  · intro hs
    cases hs
  · exact h

theorem Ended.rrtGracefulShutdown (h : rrt.Ended) : rrt.rrtGracefulShutdown.2.Ended := by
  unfold Ended RerunnableThread.rrtGracefulShutdown at *
  grind

theorem Ended.notifyJob (h : rrt.Ended) (hstep : rrt.notifyJob = some rrt') : rrt'.Ended := by
  unfold Ended RerunnableThread.notifyJob at *
  grind

theorem Ended.executorFunction (h : rrt.Ended) (hstep : rrt.executorFunction = some rrt') :
    rrt'.Ended := by
  unfold RerunnableThread.executorFunction at hstep
  unfold Ended at *
  split at hstep <;> grind

end RerunnableThread

end LogxControll
