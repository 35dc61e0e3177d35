/-
  Direct and deferred execution. `lxc_execution_default_behavior` passes on the four arguments it
  gets; `lxc_execution_loopbreaker` and `lxc_create_task` store the value and the index only, and
  `lxc_do_execute` reads the type and the subtype from the value. So a deferred call is the
  direct one just when its type and subtype are those of its value (`ExecCall.SelfTyped`):
  a notification without a value, or with a value of another subtype, is changed.
-/
import LogxControll.Core.References
import LogxControll.Execution.Network

namespace LogxControll

/-- The type and the subtype are those of the value, NULL and 0 without one. -/
def ExecCall.SelfTyped (c : ExecCall) : Prop :=
  c.type = c.value.map LxcValue.type ∧ c.subtype = (c.value.map LxcValue.subtypeInfo).getD 0

namespace Memory

/-- The execute function of a gate is entered with the arguments of `c`. -/
def Enters (result : Option Memory) (c : ExecCall) : Prop :=
  ∃ m rest, result = some m ∧ m.running = .execute c :: rest

variable {m : Memory} {c : ExecCall}

/-- `lxc_do_execute` of what was stored of a call. -/
theorem enters_lxcDoExecute_iff {gate : Gate} (hg : m.world.gates c.gate = some gate)
    (he : gate.enabled = true) :
    Enters (m.lxcDoExecute ⟨c.gate, c.value, c.index⟩) c ↔ c.SelfTyped := by
  simp only [lxcDoExecute, hg, he, if_true, Option.bind_eq_bind, Option.bind_some]
  constructor
  · rintro ⟨m', rest, hm', hrun⟩
    obtain rfl := Option.some.inj hm'
    obtain ⟨hc, -⟩ := List.cons.inj hrun
    have hc := RunningCall.execute.inj hc
    exact ⟨congrArg ExecCall.type hc.symm, congrArg ExecCall.subtype hc.symm⟩
  · rintro ⟨htype, hsubtype⟩
    refine ⟨_, m.running, rfl, ?_⟩
    rw [← htype, ← hsubtype]
    rfl

/-- For every enabled gate: the default behavior enters its execute function with the arguments
    of the call, the loopbreaker and a task do so when their turn comes if and only if the type
    and the subtype are those of the value. -/
theorem deferred_same_call_iff {gate : Gate} (hg : m.world.gates c.gate = some gate)
    (he : gate.enabled = true) (hlive : m.Live c.value) :
    Enters (m.startBehavior .default c) c ∧
    (m.world.loopBreaker = none → (Enters (m.lxcExecutionLoopbreaker c) c ↔ c.SelfTyped)) ∧
    (∀ queue, m.world.loopBreaker = some queue →
      ∃ m₁ t, m.lxcExecutionLoopbreaker c = some m₁ ∧
        m₁.world.loopBreaker = some (queue ++ [t]) ∧
        ∀ (m₂ : Memory) rest crnt later, m₂.world.loopBreaker = some (t :: later) →
          m₂.world.gates c.gate = some gate → m₂.Live crnt.value →
            (Enters (m₂.next rest (.loopbreaker crnt)) c ↔ c.SelfTyped)) ∧
    ∃ m₁ t, m.lxcCreateTask c.gate c.value c.index = some m₁ ∧ m₁.tasks = m.tasks ++ [t] ∧
      ∀ (m₂ : Memory) i, m₂.tasks[i]? = some t → m₂.world.gates c.gate = some gate →
        (Enters (m₂.lxcExecuteThenRelease i) c ↔ c.SelfTyped) := by
  obtain ⟨heap, href, -, -, -⟩ := lxcRefdiffValue_spec hlive 1
  have href : m.lxcReferenceValue c.value = some { m with heap := heap } := href
  refine ⟨⟨_, _, rfl, rfl⟩, ?_, ?_, ?_⟩
  · intro hqueue
    simp only [lxcExecutionLoopbreaker, href, hqueue, Option.bind_eq_bind, Option.bind_some]
    exact enters_lxcDoExecute_iff hg he
  · intro queue hqueue
    refine ⟨{ m with heap := heap
                     world := { m.world with
                       loopBreaker := some (queue ++ [⟨c.gate, c.value, c.index⟩]) } },
      ⟨c.gate, c.value, c.index⟩, ?_, rfl, ?_⟩
    · simp only [lxcExecutionLoopbreaker, href, hqueue, Option.bind_eq_bind, Option.bind_some]
      rfl
    · intro m₂ rest crnt later hqueue₂ hg₂ hlive₂
      obtain ⟨heap₂, hunref, -, -, -⟩ := lxcRefdiffValue_spec hlive₂ (-1)
      have hunref : m₂.lxcUnreferenceValue crnt.value = some { m₂ with heap := heap₂ } := hunref
      simp only [next, hunref, hqueue₂, Option.bind_eq_bind, Option.bind_some]
      exact enters_lxcDoExecute_iff hg₂ he
  · refine ⟨{ m with heap := heap, tasks := m.tasks ++ [⟨c.gate, c.value, c.index⟩] },
      ⟨c.gate, c.value, c.index⟩, ?_, rfl, ?_⟩
    · simp only [lxcCreateTask, href, Option.bind_eq_bind, Option.bind_some]
      rfl
    · intro m₂ i hi hg₂
      simp only [lxcExecuteThenRelease, hi, Option.bind_eq_bind, Option.bind_some]
      exact enters_lxcDoExecute_iff hg₂ he

end Memory

open Memory

/-- A wire with a bool constant notifies the inverter: the loopbreaker enters the same call. -/
theorem deferred_same_call_nandNot :
    let c : ExecCall := ⟨1, some .bool, 0, some lxcBoolConstantValueTrue, 0⟩
    Enters ((nandNot .directPropagateValue .loopbreaker).memory.lxcExecutionLoopbreaker c) c := by
  intro c
  have hlive : (nandNot .directPropagateValue .loopbreaker).memory.Live c.value := by
    intro v hv
    obtain rfl := Option.some.inj hv
    rfl
  have hgate : (nandNot .directPropagateValue .loopbreaker).memory.world.gates c.gate =
      some (wiredBoolGate .not .loopbreaker [2] 3) := rfl
  exact ((deferred_same_call_iff hgate rfl hlive).2.1 rfl).mpr ⟨rfl, rfl⟩

/-- The notification that an input of the inverter was unwired has no value: the loopbreaker
    enters the execute function with the NULL type. -/
theorem not_deferred_same_call :
    ¬ ∀ (m : Memory) (c : ExecCall) (gate : Gate), m.world.gates c.gate = some gate →
      gate.enabled = true → m.Live c.value → m.world.loopBreaker = none →
        Enters (m.startBehavior .default c) c ∧ Enters (m.lxcExecutionLoopbreaker c) c := by
  intro hall
  obtain ⟨-, m, rest, hm, hrun⟩ := hall (nandNot .directPropagateValue .loopbreaker).memory
    ⟨1, some .bool, 0, none, 0⟩ (wiredBoolGate .not .loopbreaker [2] 3) rfl rfl
    (fun v hv => by cases hv) rfl
  obtain rfl := Option.some.inj hm
  obtain ⟨hc, -⟩ := List.cons.inj hrun
  cases congrArg ExecCall.type (RunningCall.execute.inj hc)

end LogxControll
