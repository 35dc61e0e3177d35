/-
  Conservation of references: in every run of client calls the count of a value is the number
  of its holders (`Memory.holders`), and it is freed when the last of them lets go.

  The invariant is `Memory.Reached`. Every function gets one lemma that says what it does to the
  heap, given the holders before it; `step_reached` assembles them. A running call may pass on a
  value it has no reference to, so the stack has an invariant of its own: whatever a call passes
  on is a constant, or held by a client, or owned by a call further down (`Backed`).
-/
import LogxControll.Core.References
import LogxControll.Execution.Network
import LogxControll.Lib.Run

namespace LogxControll

open RefCount

namespace Memory

/-- What the wires store. -/
def wireValues (W : World) : List (Option ValueId) :=
  (List.range W.nextWire).map fun w => addressOf ((W.wires w).bind Wire.currentValue)

/-- The tasks that wait in the queue of the loopbreaker. -/
def queued (m : Memory) : List QeTask := m.world.loopBreaker.getD []

/-- The client references, and the wires, locations and tasks that store a value; a task that is
    being executed is owned by the call that executes it. -/
def holders (m : Memory) : ValueId → Nat :=
  m.held + pointers (wireValues m.world) + pointers (m.locations.map addressOf) +
    pointers (m.tasks.map fun t => addressOf t.value) +
    pointers (m.queued.map fun t => addressOf t.value) +
    pointers (m.running.map fun c => addressOf c.owned)

/-- A constant, or held by a client. -/
def Kept (m : Memory) (v : ValueId) : Prop := m.heap.IsConstant v ∨ 0 < m.held v

end Memory

/-- The calls of the stack own `v`. -/
def Owned (running : List RunningCall) (v : ValueId) : Prop :=
  ∃ c ∈ running, addressOf c.owned = some v

/-- What a call passes on is kept, or owned by a call further down. -/
def Backed (kept : ValueId → Prop) : List RunningCall → Prop
  | [] => True
  | c :: rest => (∀ v, c.passed = some v → kept v.id ∨ Owned rest v.id) ∧ Backed kept rest

namespace Memory

/-- No call is running but execute functions, which leave the next call to a client. -/
def ClientTurn (m : Memory) : Prop :=
  ∀ c rest, m.running = c :: rest → ∃ e, c = .execute e

/-- The calls a client makes: with pointers to live objects, to wires, gates and locations that
    are there, of `lxc_unreference_value` with a reference it holds and no running call relies
    on, of `lxc_drive_wire_value` with a reference somebody in the calls up to this one holds. -/
def Allowed (m : Memory) : RefCall → Prop
  | .createValue .. => m.ClientTurn
  | .reference value => m.ClientTurn ∧ m.Live value
  | .unreference value => m.ClientTurn ∧ (∀ v, value = some v → 0 < m.held v.id) ∧
      Backed (m.giveUp value).Kept m.running
  | .importNewValue newVal internalLocation =>
      m.ClientTurn ∧ m.Live newVal ∧ (m.read internalLocation).isSome
  | .wipeValue val => m.ClientTurn ∧ (m.read val).isSome
  | .driveWire w value => m.ClientTurn ∧ ∀ w', w = some w' → ∀ v, value = some v →
      (∃ wire, m.world.wires w' = some wire ∧ wire.handler = .directPropagateValue) ∧
        (m.Kept v.id ∨ ∃ c ∈ m.running, ∃ u,
          (c.owned = some u ∨ c.passed = some u) ∧ u.id = v.id)
  | .wireDestroy w => m.ClientTurn ∧ (m.world.wires w).isSome
  | .createTask instance_ value _ =>
      m.ClientTurn ∧ m.Live value ∧ (m.world.gates instance_).isSome
  | .executeThenRelease i => m.ClientTurn ∧ i < m.tasks.length
  | .loopbreaker c => m.ClientTurn ∧ m.Live c.value ∧ (m.world.gates c.gate).isSome
  | .setEnabled g _ => m.ClientTurn ∧ (m.world.gates g).isSome
  | .next => m.running ≠ []

/-- The wire was destroyed while its new value is propagated. -/
def Dangling (m : Memory) : Prop :=
  ∃ w i v rest, m.running = .propagate w i v :: rest ∧ m.world.wires w = none

/-- Only constants in memory, and no call or task that waits. -/
structure Initial (m : Memory) : Prop where
  constants : ∀ v obj, m.heap.objects v = some obj → obj.constant = true ∧ v < m.world.nextValue
  freed : m.heap.freed = []
  held : m.held = 0
  tasks : m.tasks = []
  running : m.running = []
  loopBreaker : m.world.loopBreaker = none
  live : ∀ v, 0 < m.holders v → (m.heap.objects v).isSome
  wires : ∀ w, (m.world.wires w).isSome → w < m.world.nextWire
  drivens : ∀ w wire, m.world.wires w = some wire → ∀ p, some p ∈ wire.drivens →
    ∃ tp, m.world.tokenports p = some tp ∧ (m.world.gates tp.gate).isSome

/-- What became of the heap of `m₀`, in which everything is constant, while values were created up
    to `next`. -/
structure HeapSince (m₀ : Memory) (heap : Store ValueId) (next : Nat) : Prop where
  constants : ∀ v, v < m₀.world.nextValue → heap.objects v = m₀.heap.objects v
  created : ∀ v, m₀.world.nextValue ≤ v → ¬ heap.IsConstant v
  freed : ∀ v, v ∈ heap.freed ↔
    m₀.world.nextValue ≤ v ∧ v < next ∧ heap.objects v = none
  fresh : ∀ v, next ≤ v → heap.objects v = none
  later : m₀.world.nextValue ≤ next

/-- Wires change their values, and are destroyed; gates are enabled and disabled. -/
structure WorldSince (W₀ W : World) : Prop where
  gates : ∀ g, (W.gates g).isSome = (W₀.gates g).isSome
  tokenports : W.tokenports = W₀.tokenports
  nextWire : W.nextWire = W₀.nextWire
  wires : ∀ w wire, W.wires w = some wire →
    ∃ wire₀, W₀.wires w = some wire₀ ∧ wire.drivens = wire₀.drivens

/-- What holds between the calls of a run. -/
structure Reached (m₀ m : Memory) : Prop where
  counted : m.heap.Counted m.holders
  heap : HeapSince m₀ m.heap m.world.nextValue
  world : WorldSince m₀.world m.world
  backed : Backed m.Kept m.running
  loopbreakers : m.running.countP RunningCall.isLoopbreaker =
    if m.world.loopBreaker.isSome then 1 else 0
  tasks : ∀ t ∈ m.tasks ++ m.queued, (m₀.world.gates t.instance_).isSome

/-- No value created since `m₀` has more holders than its count can express. -/
def Bounded (m₀ m : Memory) : Prop :=
  ∀ v, m₀.world.nextValue ≤ v → m.holders v < 2 ^ 31

end Memory

/-! ## The stack -/

theorem Backed.mono {kept kept' : ValueId → Prop} (hk : ∀ v, kept v → kept' v)
    {running : List RunningCall} (h : Backed kept running) : Backed kept' running := by
  induction running with
  | nil => trivial
  | cons c rest ih => exact ⟨fun v hv => (h.1 v hv).imp_left (hk v.id), ih h.2⟩

theorem Owned.cons {running : List RunningCall} {v : ValueId} (h : Owned running v)
    (c : RunningCall) : Owned (c :: running) v := by
  obtain ⟨c', hc', ho⟩ := h
  exact ⟨c', List.mem_cons_of_mem c hc', ho⟩

theorem Backed.resolve {kept : ValueId → Prop} {running : List RunningCall}
    (h : Backed kept running) {c : RunningCall} (hc : c ∈ running) {u : LxcValue}
    (hu : c.owned = some u ∨ c.passed = some u) : kept u.id ∨ Owned running u.id := by
  induction running with
  | nil => cases hc
  | cons c' rest ih =>
    rcases List.mem_cons.mp hc with rfl | hc
    · rcases hu with hu | hu
      · exact .inr ⟨c, List.mem_cons_self, by rw [hu]; rfl⟩
      · exact (h.1 u hu).imp_right fun ho => ho.cons c
    · exact (ih h.2 hc).imp_right fun ho => ho.cons c'

theorem Owned.pointers_pos {running : List RunningCall} {v : ValueId} (h : Owned running v) :
    0 < pointers (running.map fun c => addressOf c.owned) v := by
  obtain ⟨c, hc, ho⟩ := h
  exact List.count_pos_iff.mpr (List.mem_map.mpr ⟨c, hc, ho⟩)

namespace Memory

variable {m₀ m m' : Memory} {value : Option LxcValue}

/-! ## The heap -/

section Heap

variable (hinit : Initial m₀)
include hinit

theorem HeapSince.ages {heap heap' : Store ValueId} {next : Nat} (h : HeapSince m₀ heap next)
    (ha : heap.Ages heap') : HeapSince m₀ heap' next where
  constants := by
    intro v hv
    rw [← h.constants v hv]
    cases hobj : heap.objects v with
    | none => exact ha.gone hobj
    | some obj =>
      have hc := (hinit.constants v obj ((h.constants v hv).symm.trans hobj)).1
      exact ha.constant v obj hobj hc
  created := fun v hv hc => h.created v hv ((ha.isConstant_iff v).mp hc)
  freed := by
    intro v
    constructor
    · intro hv
      rcases ha.fresh v hv with hv | ⟨hsome, hnone⟩
      · obtain ⟨hle, hlt, hnone⟩ := (h.freed v).mp hv
        exact ⟨hle, hlt, ha.gone hnone⟩
      · obtain ⟨obj, hobj⟩ := Option.isSome_iff_exists.mp hsome
        refine ⟨?_, ?_, hnone⟩
        · by_contra hlt
          have hobj₀ := (h.constants v (Nat.lt_of_not_le hlt)).symm.trans hobj
          have := ha.constant v obj hobj (hinit.constants v obj hobj₀).1
          rw [hnone] at this
          cases this
        · by_contra hle
          rw [h.fresh v (Nat.le_of_not_lt hle)] at hobj
          cases hobj
    · rintro ⟨hle, hlt, hnone⟩
      rcases ha.lost v hnone with hv | hv
      · exact ha.freed v ((h.freed v).mpr ⟨hle, hlt, hv⟩)
      · exact hv
  fresh := fun v hv => ha.gone (h.fresh v hv)
  later := h.later

omit hinit in
theorem HeapSince.create {heap : Store ValueId} {next : Nat} (h : HeapSince m₀ heap next) :
    HeapSince m₀ (heap.create next) (next + 1) where
  constants := by
    intro v hv
    rw [← h.constants v hv]
    exact Function.update_of_ne (Nat.ne_of_lt (Nat.lt_of_lt_of_le hv h.later)) _ _
  created := by
    rintro v hv ⟨obj, hobj, hc⟩
    by_cases he : v = next
    · subst he
      obtain rfl := Option.some.inj ((Function.update_self v _ heap.objects).symm.trans hobj)
      cases hc
    · exact h.created v hv ⟨obj, (Function.update_of_ne he _ _).symm.trans hobj, hc⟩
  freed := by
    intro v
    refine (h.freed v).trans ?_
    by_cases he : v = next
    · subst he
      have : (heap.create v).objects v ≠ none := by
        rw [show (heap.create v).objects v = _ from Function.update_self v _ heap.objects]
        exact Option.some_ne_none _
      simp [this]
    · rw [show (heap.create next).objects v = _ from Function.update_of_ne he _ heap.objects]
      have hlt : v < next + 1 ↔ v < next := Nat.lt_succ_iff_lt_or_eq.trans (or_iff_left he)
      rw [hlt]
  fresh := by
    intro v hv
    exact (Function.update_of_ne (Nat.ne_of_gt hv) _ _).trans
      (h.fresh v (Nat.le_of_succ_le hv))
  later := Nat.le_succ_of_le h.later

/-- Room in the count for one more holder, or no count. -/
theorem HeapSince.room {next : Nat} {holders : ValueId → Nat} (h : HeapSince m₀ m.heap next)
    (hlive : m.Live value) (hb : ∀ v, m₀.world.nextValue ≤ v →
      (holders + one (addressOf value)) v < 2 ^ 31) {v : LxcValue} (hv : value = some v) :
    m.heap.IsConstant v.id ∨ 2 * (holders v.id + 1) < 2 ^ 32 := by
  subst hv
  by_cases hlt : v.id < m₀.world.nextValue
  · left
    obtain ⟨obj, hobj⟩ := Option.isSome_iff_exists.mp (hlive v rfl)
    exact ⟨obj, hobj, (hinit.constants v.id obj ((h.constants v.id hlt).symm.trans hobj)).1⟩
  · right
    have := hb v.id (Nat.le_of_not_lt hlt)
    simp only [Option.map_some, Pi.add_apply, one_some_self] at this
    omega

end Heap

/-! ## References -/

theorem lxcReferenceValue_spec (hlive : m.Live value) :
    ∃ heap, m.lxcReferenceValue value = some { m with heap := heap } ∧ m.heap.Ages heap ∧
      (∀ u, addressOf value ≠ some u → heap.objects u = m.heap.objects u) ∧
      ∀ holders, m.heap.Counted holders →
        (∀ v, value = some v → m.heap.IsConstant v.id ∨ 2 * (holders v.id + 1) < 2 ^ 32) →
        heap.Counted (holders + one (addressOf value)) := by
  obtain ⟨heap, hstep, hages, hoff, hadjust⟩ := lxcRefdiffValue_spec hlive 1
  refine ⟨heap, hstep, hages, hoff, fun holders hc hroom => ?_⟩
  cases value with
  | none =>
    obtain rfl : m.heap = heap := by
      have := Option.some.inj hstep
      exact congrArg Memory.heap this
    simpa using hc
  | some v =>
    obtain ⟨heap', hheap', hc'⟩ := hc.acquire (hlive v rfl) (hroom v rfl)
    obtain rfl := Option.some.inj ((hadjust v rfl).symm.trans hheap')
    exact hc'

theorem lxcUnreferenceValue_spec (hlive : m.Live value) :
    ∃ heap, m.lxcUnreferenceValue value = some { m with heap := heap } ∧ m.heap.Ages heap ∧
      ∀ holders, m.heap.Counted (holders + one (addressOf value)) →
        (∀ v, value = some v → m.heap.IsConstant v.id ∨ 2 * (holders v.id + 1) < 2 ^ 32) →
        heap.Counted holders := by
  obtain ⟨heap, hstep, hages, -, hadjust⟩ := lxcRefdiffValue_spec hlive (-1)
  refine ⟨heap, hstep, hages, fun holders hc hroom => ?_⟩
  cases value with
  | none =>
    obtain rfl : m.heap = heap := by
      have := Option.some.inj hstep
      exact congrArg Memory.heap this
    simpa using hc
  | some v =>
    obtain ⟨heap', hheap', hc'⟩ := hc.release (hroom v rfl)
    obtain rfl := Option.some.inj ((hadjust v rfl).symm.trans hheap')
    exact hc'

/-! ## Places -/

/-- The calls, tasks and client references, and the world but for the values of its wires, are
    as they were. -/
structure SameCalls (m m' : Memory) : Prop where
  held : m'.held = m.held
  tasks : m'.tasks = m.tasks
  running : m'.running = m.running
  loopBreaker : m'.world.loopBreaker = m.world.loopBreaker
  nextValue : m'.world.nextValue = m.world.nextValue
  world : WorldSince m.world m'.world
  ages : m.heap.Ages m'.heap

theorem WorldSince.refl (W : World) : WorldSince W W :=
  ⟨fun _ => rfl, rfl, rfl, fun _ wire hw => ⟨wire, hw, rfl⟩⟩

theorem WorldSince.trans {W₀ W W' : World} (h : WorldSince W₀ W) (h' : WorldSince W W') :
    WorldSince W₀ W' where
  gates := fun g => (h'.gates g).trans (h.gates g)
  tokenports := h'.tokenports.trans h.tokenports
  nextWire := h'.nextWire.trans h.nextWire
  wires := by
    intro w wire' hw
    obtain ⟨wire, hw, he'⟩ := h'.wires w wire' hw
    obtain ⟨wire₀, hw₀, he⟩ := h.wires w wire hw
    exact ⟨wire₀, hw₀, he'.trans he⟩

theorem wireValues_update {W W' : World} {w : WireId} {wire : Option Wire}
    (hn : W'.nextWire = W.nextWire) (hw : W'.wires = Function.update W.wires w wire) :
    wireValues W' = (wireValues W).set w (addressOf (wire.bind Wire.currentValue)) := by
  unfold wireValues
  rw [hn, hw]
  apply List.ext_getElem?
  intro i
  rw [List.getElem?_set]
  by_cases he : w = i
  · subst he
    by_cases hlt : w < W.nextWire
    · simp [hlt]
    · simp [hlt]
  · rw [if_neg he, List.getElem?_map, List.getElem?_map]
    by_cases hlt : i < W.nextWire
    · rw [List.getElem?_range hlt, Option.map_some, Option.map_some,
        Function.update_of_ne (Ne.symm he)]
    · simp [hlt]

theorem wireValues_getElem? {W : World} {w : WireId} (hw : w < W.nextWire) :
    (wireValues W)[w]? = some (addressOf ((W.wires w).bind Wire.currentValue)) := by
  simp [wireValues, hw]

/-- Overwriting a place. -/
theorem write_spec (value : Option LxcValue) {place : Place} {old : Option LxcValue}
    (hread : m.read place = some old)
    (hwires : ∀ w, (m.world.wires w).isSome → w < m.world.nextWire) :
    ∃ m', m.write value place = some m' ∧ SameCalls m m' ∧ m'.heap = m.heap ∧
      m'.read place = some value ∧
      m'.holders + one (addressOf old) = m.holders + one (addressOf value) := by
  cases place with
  | wire w =>
    obtain ⟨wire, hw, rfl⟩ := Option.map_eq_some_iff.mp hread
    have hlt := hwires w (by rw [hw]; rfl)
    refine ⟨{ m with world := m.world.setWire w { wire with currentValue := value } }, ?_, ?_, rfl,
      ?_, ?_⟩
    · simp only [write, hw, Option.bind_eq_bind, Option.bind_some]
      rfl
    · refine ⟨rfl, rfl, rfl, rfl, rfl, ⟨fun _ => rfl, rfl, rfl, ?_⟩, .refl _⟩
      intro w' wire' hw'
      by_cases he : w' = w
      · subst he
        obtain rfl := Option.some.inj ((Function.update_self w' _ m.world.wires).symm.trans hw')
        exact ⟨wire, hw, rfl⟩
      · exact ⟨wire', (Function.update_of_ne he _ _).symm.trans hw', rfl⟩
    · show (Function.update m.world.wires w _ w).map _ = _
      rw [Function.update_self]
      rfl
    · have hvalues : wireValues (m.world.setWire w { wire with currentValue := value }) =
          (wireValues m.world).set w
            (addressOf ((some { wire with currentValue := value }).bind Wire.currentValue)) :=
        wireValues_update rfl rfl
      have hold := wireValues_getElem? hlt
      rw [hw] at hold
      have hset := pointers_set hold (addressOf value)
      have hset' : pointers (wireValues (m.world.setWire w { wire with currentValue := value })) +
          one (addressOf wire.currentValue) =
            pointers (wireValues m.world) + one (addressOf value) := by
        rw [hvalues]
        exact hset
      funext v
      have := congrFun hset' v
      simp only [Pi.add_apply] at this
      simp only [holders, queued, Pi.add_apply]
      simp only [World.setWire] at this ⊢
      omega
  | location l =>
    have hlt : l < m.locations.length := (List.getElem?_eq_some_iff.mp hread).1
    refine ⟨{ m with locations := m.locations.set l value }, ?_, ?_, rfl, ?_, ?_⟩
    · rw [write, if_pos hlt]
    · exact ⟨rfl, rfl, rfl, rfl, rfl, .refl _, .refl _⟩
    · exact List.getElem?_set_self hlt
    · have hold : (m.locations.map addressOf)[l]? = some (addressOf old) := by
        rw [List.getElem?_map, show m.locations[l]? = some old from hread]
        rfl
      have hset := pointers_set hold (addressOf value)
      rw [← List.map_set] at hset
      funext v
      have := congrFun hset v
      simp only [Pi.add_apply] at this
      simp only [holders, queued, Pi.add_apply]
      omega

section Reached

variable (hinit : Initial m₀)
include hinit

theorem Reached.wires_lt (h : Reached m₀ m) {w : WireId} (hw : (m.world.wires w).isSome) :
    w < m.world.nextWire := by
  obtain ⟨wire, hw⟩ := Option.isSome_iff_exists.mp hw
  obtain ⟨wire₀, hw₀, -⟩ := h.world.wires w wire hw
  rw [h.world.nextWire]
  exact hinit.wires w (by rw [hw₀]; rfl)

omit hinit in
theorem Reached.live (h : Reached m₀ m) {v : ValueId} (hv : m.Kept v ∨ Owned m.running v) :
    (m.heap.objects v).isSome := by
  rcases hv with (⟨obj, hobj, -⟩ | hv) | hv
  · rw [hobj]
    rfl
  · apply h.counted.isSome
    simp only [holders, Pi.add_apply]
    omega
  · have := hv.pointers_pos
    apply h.counted.isSome
    simp only [holders, Pi.add_apply]
    omega

omit hinit in
/-- What a place stores is live. -/
theorem Reached.read_live (h : Reached m₀ m)
    (hwires : ∀ w, (m.world.wires w).isSome → w < m.world.nextWire) {place : Place}
    (hread : m.read place = some value) : m.Live value := by
  rintro v rfl
  obtain ⟨m', -, -, -, -, hholders⟩ := write_spec none hread hwires
  have := congrFun hholders v.id
  simp only [Option.map_some, Option.map_none, Pi.add_apply, one_some_self, one_none,
    Pi.zero_apply] at this
  exact h.counted.isSome (by omega)

omit hinit in
theorem Kept.ages {v : ValueId} (hv : m.Kept v) (ha : m.heap.Ages m'.heap)
    (hheld : m'.held = m.held) : m'.Kept v := by
  unfold Kept
  rw [ha.isConstant_iff, hheld]
  exact hv

/-- The invariant, when only places and counts changed. -/
theorem Reached.sameCalls (h : Reached m₀ m) (hs : SameCalls m m')
    (hc : m'.heap.Counted m'.holders) : Reached m₀ m' where
  counted := hc
  heap := by
    rw [hs.nextValue]
    exact h.heap.ages hinit hs.ages
  world := h.world.trans hs.world
  backed := by
    rw [hs.running]
    exact h.backed.mono fun v hv => hv.ages hs.ages hs.held
  loopbreakers := by
    rw [hs.running, hs.loopBreaker]
    exact h.loopbreakers
  tasks := by
    rw [hs.tasks, show m'.queued = m.queued by unfold queued; rw [hs.loopBreaker]]
    exact h.tasks

theorem lxcImportNewValue_spec (h : Reached m₀ m) (hb : Bounded m₀ m) (hlive : m.Live value)
    {place : Place} (hread : (m.read place).isSome) :
    ∃ m', m.lxcImportNewValue value place = some m' ∧ SameCalls m m' ∧
      (m'.read place).map addressOf = some (addressOf value) ∧
      (Bounded m₀ m' → m'.heap.Counted m'.holders) := by
  obtain ⟨old, hread⟩ := Option.isSome_iff_exists.mp hread
  have hwires := fun w => h.wires_lt hinit (w := w)
  have hold := h.read_live hwires hread
  unfold lxcImportNewValue
  simp only [hread, Option.bind_eq_bind, Option.bind_some]
  by_cases heq : addressOf value = addressOf old
  · rw [if_pos heq]
    refine ⟨m, rfl, ⟨rfl, rfl, rfl, rfl, rfl, .refl _, .refl _⟩, ?_, fun _ => h.counted⟩
    rw [hread, Option.map_some]
    exact congrArg some heq.symm
  · rw [if_neg heq]
    obtain ⟨heap₁, href, hages₁, hoff₁, hcount₁⟩ := lxcReferenceValue_spec hlive
    rw [href, Option.bind_some]
    have hold₁ : ({ m with heap := heap₁ } : Memory).Live old := by
      intro v hv
      have hne : addressOf value ≠ some v.id := by
        rw [hv] at heq
        exact heq
      show (heap₁.objects v.id).isSome
      rw [hoff₁ v.id hne]
      exact hold v hv
    obtain ⟨heap₂, hunref, hages₂, hcount₂⟩ := lxcUnreferenceValue_spec hold₁
    rw [hunref, Option.bind_some]
    obtain ⟨m', hwrite, hs, hheap, hread', hholders⟩ :=
      write_spec (m := { m with heap := heap₂ }) value hread hwires
    refine ⟨m', hwrite, ?_, by rw [hread', Option.map_some], fun hb' => ?_⟩
    · refine ⟨hs.held, hs.tasks, hs.running, hs.loopBreaker, hs.nextValue, hs.world, ?_⟩
      rw [hheap]
      exact hages₁.trans hages₂
    · have hholders : m'.holders + one (addressOf old) = m.holders + one (addressOf value) :=
        hholders
      have hroom : ∀ u, m₀.world.nextValue ≤ u →
          (m.holders + one (addressOf value)) u < 2 ^ 31 := by
        intro u hu
        have hsum := congrFun hholders u
        simp only [Pi.add_apply] at hsum ⊢
        by_cases hone : addressOf value = some u
        · have hother : one (addressOf old) u = 0 := if_neg fun he => heq (hone.trans he.symm)
          have := hb' u hu
          omega
        · have hother : one (addressOf value) u = 0 := if_neg hone
          have := hb u hu
          omega
      rw [hheap]
      refine hcount₂ _ ?_ fun v hv => ?_
      · rw [hholders]
        exact hcount₁ _ h.counted fun v hv => h.heap.room hinit hlive hroom hv
      · refine (h.heap.ages hinit hages₁).room hinit hold₁ (fun u hu => ?_) hv
        rw [hholders]
        exact hroom u hu

omit hinit in
theorem lxcWipeValue_eq (place : Place) : m.lxcWipeValue place = m.lxcImportNewValue none place := by
  unfold lxcWipeValue lxcImportNewValue
  cases hread : m.read place with
  | none => rfl
  | some old =>
    cases old with
    | none => rfl
    | some v => rfl

/-! ## Calls -/

omit hinit in
theorem holders_call {c : RunningCall} (howned : c.owned = none) :
    (m.call c).holders = m.holders := by
  simp only [holders, Memory.call, queued, List.map_cons, howned, Option.map_none, pointers_cons,
    one_none, add_zero]

omit hinit in
/-- A call is entered that owns nothing and passes on what is kept. -/
theorem Reached.call (h : Reached m₀ m) {c : RunningCall} (howned : c.owned = none)
    (hnot : c.isLoopbreaker = false)
    (hpassed : ∀ v, c.passed = some v → m.Kept v.id ∨ Owned m.running v.id) :
    Reached m₀ (m.call c) where
  counted := by
    rw [holders_call howned]
    exact h.counted
  heap := h.heap
  world := h.world
  backed := ⟨hpassed, h.backed⟩
  loopbreakers := by
    simp only [Memory.call, List.countP_cons, hnot, Bool.false_eq_true, if_false, Nat.add_zero]
    exact h.loopbreakers
  tasks := h.tasks

omit hinit in
/-- `lxc_do_execute` of a task that a running call owns. -/
theorem lxcDoExecute_spec {t : QeTask} (hgate : (m.world.gates t.instance_).isSome) :
    ∃ m', m.lxcDoExecute t = some m' ∧ m'.holders = m.holders ∧
      (Reached m₀ m → (∀ v, t.value = some v → Owned m.running v.id) → Reached m₀ m') := by
  obtain ⟨gate, hgate⟩ := Option.isSome_iff_exists.mp hgate
  unfold lxcDoExecute
  simp only [hgate, Option.bind_eq_bind, Option.bind_some]
  split
  · exact ⟨_, rfl, holders_call rfl, fun h ho => h.call rfl rfl fun v hv => .inr (ho v hv)⟩
  · exact ⟨m, rfl, rfl, fun h _ => h⟩

/-- The count of a value that gets one more holder. -/
theorem Reached.acquired {heap : Store ValueId} {holders : ValueId → Nat}
    (h : Reached m₀ m) (hlive : m.Live value)
    (hcount : ∀ holders, m.heap.Counted holders →
      (∀ v, value = some v → m.heap.IsConstant v.id ∨ 2 * (holders v.id + 1) < 2 ^ 32) →
      heap.Counted (holders + one (addressOf value)))
    (hholders : holders = m.holders + one (addressOf value))
    (hb : ∀ v, m₀.world.nextValue ≤ v → holders v < 2 ^ 31) : heap.Counted holders := by
  subst hholders
  exact hcount _ h.counted fun v hv => h.heap.room hinit hlive hb hv

/-- The count of a value that loses one holder. -/
theorem Reached.released {heap : Store ValueId} {holders : ValueId → Nat}
    (h : Reached m₀ m) (hb : Bounded m₀ m) (hlive : m.Live value)
    (hcount : ∀ holders, m.heap.Counted (holders + one (addressOf value)) →
      (∀ v, value = some v → m.heap.IsConstant v.id ∨ 2 * (holders v.id + 1) < 2 ^ 32) →
      heap.Counted holders)
    (hholders : holders + one (addressOf value) = m.holders) : heap.Counted holders := by
  refine hcount holders (hholders ▸ h.counted) fun v hv => ?_
  exact h.heap.room hinit hlive (fun u hu => hholders ▸ hb u hu) hv

section Queue

variable (h : Reached m₀ m) {heap : Store ValueId} (hages : m.heap.Ages heap) {t : QeTask}
include h hages

/-- The loop of the loopbreaker is entered with its first task. -/
theorem Reached.startLoop (hqueue : m.world.loopBreaker = none) :
    ∃ m₁ : Memory, m₁ = ({ m with heap := heap, world := { m.world with loopBreaker := some [] } } :
        Memory).call (.loopbreaker t) ∧
      m₁.holders = m.holders + one (addressOf t.value) ∧
      (heap.Counted m₁.holders → Reached m₀ m₁) := by
  refine ⟨_, rfl, ?_, fun hc => ⟨hc, h.heap.ages hinit hages,
    ⟨h.world.gates, h.world.tokenports, h.world.nextWire, h.world.wires⟩,
    ⟨fun v hv => (by cases hv), h.backed.mono fun v hv => hv.ages hages rfl⟩, ?_, ?_⟩⟩
  · have hempty : pointers (m.queued.map fun t => addressOf t.value) = 0 := by
      rw [queued, hqueue]
      rfl
    simp only [holders, hempty]
    simp only [Memory.call, queued, Option.getD_some, List.map_nil, pointers_nil, List.map_cons,
      RunningCall.owned_loopbreaker, pointers_cons, wireValues]
    abel
  · have := h.loopbreakers
    rw [hqueue] at this
    simp only [Memory.call, List.countP_cons]
    rw [this]
    rfl
  · intro t' ht
    apply h.tasks
    rw [List.mem_append] at ht ⊢
    rcases ht with ht | ht
    · exact .inl ht
    · cases ht

/-- A task is added to the queue. -/
theorem Reached.enqueue {queue : List QeTask} (hqueue : m.world.loopBreaker = some queue)
    (hgate : (m₀.world.gates t.instance_).isSome) :
    ∃ m₁ : Memory, m₁ = { m with heap := heap,
                                 world := { m.world with loopBreaker := some (queue ++ [t]) } } ∧
      m₁.holders = m.holders + one (addressOf t.value) ∧
      (heap.Counted m₁.holders → Reached m₀ m₁) := by
  have hqueued : m.queued = queue := by
    rw [queued, hqueue]
    rfl
  refine ⟨_, rfl, ?_, fun hc => ⟨hc, h.heap.ages hinit hages,
    ⟨h.world.gates, h.world.tokenports, h.world.nextWire, h.world.wires⟩,
    h.backed.mono fun v hv => hv.ages hages rfl, ?_, ?_⟩⟩
  · simp only [holders, hqueued]
    simp only [queued, Option.getD_some, List.map_append, pointers_append, List.map_cons,
      List.map_nil, pointers_cons, pointers_nil, zero_add, wireValues]
    abel
  · have := h.loopbreakers
    rw [hqueue] at this
    exact this
  · intro t' ht
    have hmem : t' ∈ m.tasks ++ m.queued ∨ t' = t := by
      rw [hqueued]
      simp only [queued, Option.getD_some, List.mem_append, List.mem_singleton] at ht
      rw [List.mem_append]
      tauto
    rcases hmem with ht | rfl
    · exact h.tasks t' ht
    · exact hgate

end Queue

theorem lxcExecutionLoopbreaker_spec (h : Reached m₀ m) {c : ExecCall} (hlive : m.Live c.value)
    (hgate : (m₀.world.gates c.gate).isSome) :
    ∃ m', m.lxcExecutionLoopbreaker c = some m' ∧ (Bounded m₀ m' → Reached m₀ m') := by
  obtain ⟨heap, href, hages, -, hcount⟩ := lxcReferenceValue_spec hlive
  unfold lxcExecutionLoopbreaker
  simp only [href, Option.bind_eq_bind, Option.bind_some]
  cases hqueue : m.world.loopBreaker with
  | none =>
    obtain ⟨m₁, hm₁, hone, hreached₁⟩ :=
      h.startLoop hinit hages (t := ⟨c.gate, c.value, c.index⟩) hqueue
    have hgate₁ : (m₁.world.gates c.gate).isSome := by
      rw [hm₁]
      exact (h.world.gates c.gate).trans hgate
    obtain ⟨m', hstep, hholders, hreached⟩ :=
      lxcDoExecute_spec (t := ⟨c.gate, c.value, c.index⟩) hgate₁
    refine ⟨m', hm₁ ▸ hstep, fun hb => hreached (hreached₁ ?_) fun v hv => ?_⟩
    · refine h.acquired hinit hlive hcount hone ?_
      rw [← hholders]
      exact hb
    · rw [hm₁]
      exact ⟨_, List.mem_cons_self, congrArg addressOf hv⟩
  | some queue =>
    obtain ⟨m₁, hm₁, hone, hreached₁⟩ :=
      h.enqueue hinit hages (t := ⟨c.gate, c.value, c.index⟩) hqueue hgate
    exact ⟨m₁, hm₁ ▸ rfl, fun hb => hreached₁ (h.acquired hinit hlive hcount hone hb)⟩

section Next

variable {c : RunningCall} {rest : List RunningCall} (h : Reached m₀ m)
  (hrun : m.running = c :: rest)
include h hrun

omit hinit in
/-- A call that owns nothing returns, or goes on with the same value. -/
theorem Reached.goOn (howned : c.owned = none) (hnot : c.isLoopbreaker = false)
    {calls : List RunningCall} (hcalls : calls = [] ∨ ∃ c', calls = [c'] ∧ c'.owned = none ∧
      c'.isLoopbreaker = false ∧ c'.passed = c.passed) :
    Reached m₀ { m with running := calls ++ rest } := by
  have hbacked := h.backed
  have hloop := h.loopbreakers
  have hcounted := h.counted
  rw [hrun] at hbacked hloop
  have hrest : m.holders = ({ m with running := rest } : Memory).holders := by
    simp only [holders, queued, hrun, List.map_cons, howned, Option.map_none, pointers_cons,
      one_none, add_zero]
  rw [List.countP_cons_of_neg (by rw [hnot]; exact Bool.false_ne_true)] at hloop
  rcases hcalls with rfl | ⟨c', rfl, howned', hnot', hpassed⟩
  · exact ⟨hrest ▸ hcounted, h.heap, h.world, hbacked.2, hloop, h.tasks⟩
  · refine ⟨?_, h.heap, h.world, ⟨?_, hbacked.2⟩, ?_, h.tasks⟩
    · have : ({ m with running := [c'] ++ rest } : Memory).holders = m.holders := by
        rw [hrest]
        simp only [holders, queued, List.singleton_append, List.map_cons, howned', Option.map_none,
          pointers_cons, one_none, add_zero]
      rw [this]
      exact hcounted
    · intro v hv
      exact hbacked.1 v (hpassed ▸ hv)
    · show (c' :: rest).countP _ = _
      rw [List.countP_cons_of_neg (by rw [hnot']; exact Bool.false_ne_true)]
      exact hloop

/-- The loop over the driven ports calls the next gate, or ends. -/
theorem next_propagate_spec {w : WireId} {i : Nat} {v : LxcValue} (hc : c = .propagate w i v)
    (hw : (m.world.wires w).isSome) :
    ∃ m', m.next rest c = some m' ∧ (Bounded m₀ m' → Reached m₀ m') := by
  subst hc
  obtain ⟨wire, hw⟩ := Option.isSome_iff_exists.mp hw
  simp only [next, hw, Option.bind_eq_bind, Option.bind_some]
  rcases hentry : wire.drivens[i]? with _ | _ | p
  · exact ⟨_, rfl, fun _ => h.goOn hrun rfl rfl (.inl rfl)⟩
  · exact ⟨_, rfl, fun _ => h.goOn hrun rfl rfl (.inl rfl)⟩
  · have hmem : some p ∈ wire.drivens := List.mem_of_getElem? hentry
    obtain ⟨wire₀, hw₀, hdrivens⟩ := h.world.wires w wire hw
    obtain ⟨tp, htp, hgate⟩ := hinit.drivens w wire₀ hw₀ p (hdrivens ▸ hmem)
    obtain ⟨gate, hg⟩ := Option.isSome_iff_exists.mp ((h.world.gates tp.gate).trans hgate)
    have hon := h.goOn hrun rfl rfl (.inr ⟨.propagate w (i + 1) v, rfl, rfl, rfl, rfl⟩)
    have hkept := hon.backed.resolve List.mem_cons_self (.inr rfl)
    simp only [h.world.tokenports, htp, hg, Option.bind_some]
    split
    · next b henabled hb =>
      cases b with
      | default =>
        refine ⟨_, rfl, fun _ => hon.call rfl rfl fun u hu => ?_⟩
        obtain rfl := Option.some.inj hu
        exact hkept
      | loopbreaker =>
        refine lxcExecutionLoopbreaker_spec hinit hon (fun u hu => ?_) hgate
        obtain rfl := Option.some.inj hu
        exact hon.live hkept
    · exact ⟨_, rfl, fun _ => hon⟩

variable (hb : Bounded m₀ m)
include hb

/-- A task that was executed is released. -/
theorem next_executeThenRelease_spec {t : QeTask} (hc : c = .executeThenRelease t) :
    ∃ m', m.next rest c = some m' ∧ (Bounded m₀ m' → Reached m₀ m') := by
  subst hc
  have hlive : m.Live t.value := fun v hv =>
    h.live (.inr (hrun ▸ ⟨_, List.mem_cons_self, congrArg addressOf hv⟩))
  obtain ⟨heap, hunref, hages, hcount⟩ := lxcUnreferenceValue_spec hlive
  simp only [next, hunref, Option.bind_eq_bind, Option.bind_some]
  have hbacked := h.backed
  have hloop := h.loopbreakers
  rw [hrun] at hbacked hloop
  refine ⟨_, rfl, fun _ => ⟨h.released hinit hb hlive hcount ?_, h.heap.ages hinit hages, h.world,
    hbacked.2.mono fun v hv => hv.ages hages rfl, hloop, h.tasks⟩⟩
  simp only [holders, queued, hrun, List.map_cons, RunningCall.owned_executeThenRelease,
    pointers_cons]
  abel

/-- A task of the loopbreaker is released; the next one is taken from the queue. -/
theorem next_loopbreaker_spec {t : QeTask} (hc : c = .loopbreaker t) :
    ∃ m', m.next rest c = some m' ∧ (Bounded m₀ m' → Reached m₀ m') := by
  subst hc
  have hlive : m.Live t.value := fun v hv =>
    h.live (.inr (hrun ▸ ⟨_, List.mem_cons_self, congrArg addressOf hv⟩))
  obtain ⟨heap, hunref, hages, hcount⟩ := lxcUnreferenceValue_spec hlive
  simp only [next, hunref, Option.bind_eq_bind, Option.bind_some]
  have hbacked := h.backed
  have hloop := h.loopbreakers
  rw [hrun] at hbacked hloop
  have hheap := h.heap.ages hinit hages
  have hworld := h.world
  have hkept : ∀ v, m.Kept v → heap.IsConstant v ∨ 0 < m.held v := fun v hv => by
    rw [hages.isConstant_iff]
    exact hv
  rcases hqueue : m.world.loopBreaker with _ | _ | ⟨t', queue⟩
  · rw [hqueue] at hloop
    simp [RunningCall.isLoopbreaker] at hloop
  · have hqueued : m.queued = [] := by rw [queued, hqueue]; rfl
    have hempty : pointers (m.queued.map fun t => addressOf t.value) = 0 := by rw [hqueued]; rfl
    refine ⟨_, rfl, fun _ => ⟨h.released hinit hb hlive hcount ?_, hheap,
      ⟨hworld.gates, hworld.tokenports, hworld.nextWire, hworld.wires⟩, hbacked.2.mono hkept, ?_,
      ?_⟩⟩
    · simp only [holders, hempty]
      simp only [queued, hrun, List.map_cons, RunningCall.owned_loopbreaker, pointers_cons,
        Option.getD_none, List.map_nil, pointers_nil, wireValues]
      abel
    · rw [hqueue] at hloop
      simpa [List.countP_cons, RunningCall.isLoopbreaker] using hloop
    · intro t ht
      apply h.tasks
      rw [hqueued]
      exact ht
  · have hqueued : m.queued = t' :: queue := by rw [queued, hqueue]; rfl
    have hgate := h.tasks t' (by rw [hqueued]; simp)
    obtain ⟨m₁, hm₁⟩ : ∃ m₁ : Memory, m₁ = { m with
        running := .loopbreaker t' :: rest, heap := heap,
        world := { m.world with loopBreaker := some queue } } := ⟨_, rfl⟩
    have hgate₁ : (m₁.world.gates t'.instance_).isSome := by
      rw [hm₁]
      exact (hworld.gates t'.instance_).trans hgate
    obtain ⟨m', hstep, hholders, hreached⟩ := lxcDoExecute_spec hgate₁
    refine ⟨m', ?_, fun _ => hreached ?_ fun v hv => ?_⟩
    · rw [hm₁] at hstep
      exact hstep
    · have hsum : m₁.holders + one (addressOf t.value) = m.holders := by
        rw [hm₁]
        simp only [holders, hqueued]
        simp only [queued, hrun, List.map_cons, RunningCall.owned_loopbreaker, pointers_cons,
          Option.getD_some, wireValues]
        abel
      have hcounted := h.released hinit hb hlive hcount hsum
      subst hm₁
      refine ⟨hcounted, hheap, ⟨hworld.gates, hworld.tokenports, hworld.nextWire, hworld.wires⟩,
        ⟨fun v hv => (by cases hv), hbacked.2.mono hkept⟩, ?_, ?_⟩
      · rw [hqueue] at hloop
        simpa [List.countP_cons, RunningCall.isLoopbreaker] using hloop
      · intro t ht
        apply h.tasks
        rw [hqueued]
        rw [List.mem_append] at ht ⊢
        exact ht.imp_right fun ht => List.mem_cons_of_mem t' ht
    · rw [hm₁]
      exact ⟨_, List.mem_cons_self, congrArg addressOf hv⟩

theorem next_spec (hnot : ¬ m.Dangling) :
    ∃ m', m.next rest c = some m' ∧ (Bounded m₀ m' → Reached m₀ m') := by
  cases hc : c with
  | propagate w i v =>
    rw [← hc]
    refine next_propagate_spec hinit h hrun hc ?_
    by_contra hnone
    exact hnot ⟨w, i, v, rest, hc ▸ hrun, Option.not_isSome_iff_eq_none.mp hnone⟩
  | execute e =>
    rw [hc] at hrun
    exact ⟨_, rfl, fun _ => h.goOn hrun rfl rfl (.inl rfl)⟩
  | executeThenRelease t => exact hc ▸ next_executeThenRelease_spec hinit h hrun hb hc
  | loopbreaker t => exact hc ▸ next_loopbreaker_spec hinit h hrun hb hc

end Next

/-! ## One call -/

theorem lxcDriveWireValue_spec (h : Reached m₀ m) (hb : Bounded m₀ m) {w : Option WireId}
    (ha : m.Allowed (.driveWire w value)) :
    ∃ m', m.lxcDriveWireValue w value = some m' ∧ (Bounded m₀ m' → Reached m₀ m') := by
  rcases w with _ | w
  · exact ⟨m, rfl, fun _ => h⟩
  rcases value with _ | v
  · exact ⟨m, rfl, fun _ => h⟩
  obtain ⟨⟨wire, hw, hhandler⟩, hkept⟩ := ha.2 w rfl v rfl
  have hkept : m.Kept v.id ∨ Owned m.running v.id := by
    rcases hkept with hkept | ⟨c, hc, u, hu, he⟩
    · exact .inl hkept
    · exact he ▸ h.backed.resolve hc hu
  have hlive : m.Live (some v) := fun u hu => by
    obtain rfl := Option.some.inj hu
    exact h.live hkept
  have hread : (m.read (.wire w)).isSome := by
    rw [read, hw]
    rfl
  obtain ⟨m₁, himport, hs, -, hcount⟩ := lxcImportNewValue_spec hinit h hb hlive hread
  simp only [lxcDriveWireValue, hw, hhandler, himport, Option.bind_eq_bind, Option.bind_some]
  refine ⟨_, rfl, fun hb' => ?_⟩
  have hb₁ : Bounded m₀ m₁ := fun u hu => by
    have := hb' u hu
    rwa [holders_call rfl] at this
  refine (h.sameCalls hinit hs (hcount hb₁)).call rfl rfl fun u hu => ?_
  obtain rfl := Option.some.inj hu
  rw [hs.running]
  exact hkept.imp_left fun hk => hk.ages hs.ages hs.held

theorem lxcWireDestroy_spec (h : Reached m₀ m) (hb : Bounded m₀ m) {w : WireId}
    (hw : (m.world.wires w).isSome) :
    ∃ m', m.lxcWireDestroy w = some m' ∧ (Bounded m₀ m' → Reached m₀ m') := by
  have hread : (m.read (.wire w)).isSome := by
    rw [read, Option.isSome_map]
    exact hw
  have hnull : m.Live none := fun v hv => by cases hv
  obtain ⟨m₁, himport, hs, hread₁, hcount⟩ := lxcImportNewValue_spec hinit h hb hnull hread
  simp only [lxcWireDestroy, himport, Option.bind_eq_bind, Option.bind_some]
  refine ⟨_, rfl, fun hb' => ?_⟩
  have hvalues : wireValues (LogxControll.lxcWireDestroy w m₁.world) = wireValues m₁.world := by
    have hempty : (wireValues m₁.world)[w]? = some none := by
      have hlt := h.wires_lt hinit hw
      rw [← hs.world.nextWire] at hlt
      rw [wireValues_getElem? hlt]
      cases hwire : m₁.world.wires w with
      | none => rfl
      | some wire =>
        rw [read, hwire] at hread₁
        exact hread₁
    have hupdate : wireValues (LogxControll.lxcWireDestroy w m₁.world) =
        (wireValues m₁.world).set w (addressOf ((none : Option Wire).bind Wire.currentValue)) :=
      wireValues_update rfl rfl
    obtain ⟨hlt, hget⟩ := List.getElem?_eq_some_iff.mp hempty
    have hset := List.set_getElem_self hlt
    rw [hget] at hset
    exact hupdate.trans hset
  have hholders : ({ m₁ with world := LogxControll.lxcWireDestroy w m₁.world } : Memory).holders =
      m₁.holders := by
    simp only [holders, hvalues]
    rfl
  have h₁ := h.sameCalls hinit hs (hcount fun v hv => hholders ▸ hb' v hv)
  refine ⟨hholders ▸ h₁.counted, h₁.heap, h₁.world.trans ⟨fun _ => rfl, rfl, rfl, ?_⟩, h₁.backed,
    h₁.loopbreakers, h₁.tasks⟩
  intro w' wire hw'
  have hne : w' ≠ w := by
    rintro rfl
    cases (Function.update_self w' _ m₁.world.wires).symm.trans hw'
  exact ⟨wire, (Function.update_of_ne hne _ _).symm.trans hw', rfl⟩

theorem lxcCreateTask_spec (h : Reached m₀ m) {g : GateId} {index : Nat} (hlive : m.Live value)
    (hgate : (m.world.gates g).isSome) :
    ∃ m', m.lxcCreateTask g value index = some m' ∧ (Bounded m₀ m' → Reached m₀ m') := by
  obtain ⟨heap, href, hages, -, hcount⟩ := lxcReferenceValue_spec hlive
  simp only [lxcCreateTask, href, Option.bind_eq_bind, Option.bind_some]
  refine ⟨_, rfl, fun hb => ⟨h.acquired hinit hlive hcount ?_ hb, h.heap.ages hinit hages, h.world,
    h.backed.mono fun v hv => hv.ages hages rfl, h.loopbreakers, ?_⟩⟩
  · simp only [holders, queued, List.map_append, pointers_append, List.map_cons, List.map_nil,
      pointers_cons, pointers_nil, zero_add]
    abel
  · intro t ht
    have hmem : t ∈ m.tasks ++ m.queued ∨ t = ⟨g, value, index⟩ := by
      simp only [List.mem_append, List.mem_singleton] at ht ⊢
      tauto
    rcases hmem with ht | rfl
    · exact h.tasks t ht
    · exact (h.world.gates g).symm.trans hgate

omit hinit in
theorem lxcExecuteThenRelease_spec (h : Reached m₀ m) {i : Nat} (hi : i < m.tasks.length) :
    ∃ m', m.lxcExecuteThenRelease i = some m' ∧ Reached m₀ m' := by
  obtain ⟨t, ht⟩ : ∃ t, m.tasks[i]? = some t := ⟨_, List.getElem?_eq_getElem hi⟩
  have hgate := h.tasks t (List.mem_append_left _ (List.mem_of_getElem? ht))
  have hmoved : ((m.tasks.eraseIdx i).map fun t => addressOf t.value) =
      (m.tasks.map fun t => addressOf t.value).eraseIdx i := by
    rw [List.eraseIdx_map]
  have hpointers := pointers_eraseIdx
    (show (m.tasks.map fun t => addressOf t.value)[i]? = some (addressOf t.value) by
      rw [List.getElem?_map, ht]; rfl)
  have h₁ : Reached m₀ (({ m with tasks := m.tasks.eraseIdx i } : Memory).call
      (.executeThenRelease t)) := by
    refine ⟨?_, h.heap, h.world, ⟨fun v hv => (by cases hv), h.backed⟩, ?_, ?_⟩
    · have hholders : (({ m with tasks := m.tasks.eraseIdx i } : Memory).call
          (.executeThenRelease t)).holders = m.holders := by
        simp only [holders, Memory.call, queued, List.map_cons, hmoved, pointers_cons,
          RunningCall.owned_executeThenRelease, ← hpointers]
        abel
      rw [hholders]
      exact h.counted
    · simp only [Memory.call]
      rw [List.countP_cons_of_neg (by simp [RunningCall.isLoopbreaker])]
      exact h.loopbreakers
    · intro t' ht'
      apply h.tasks
      rw [List.mem_append] at ht' ⊢
      exact ht'.imp_left fun ht' => List.mem_of_mem_eraseIdx ht'
  obtain ⟨m', hstep, -, hreached⟩ := lxcDoExecute_spec ((h₁.world.gates t.instance_).trans hgate)
  refine ⟨m', ?_, hreached h₁ fun v hv => ⟨_, List.mem_cons_self, congrArg addressOf hv⟩⟩
  simp only [lxcExecuteThenRelease, ht, Option.bind_eq_bind, Option.bind_some]
  exact hstep

omit hinit in
theorem lxcCreateValue_spec (h : Reached m₀ m) (type : Signal) (data : Data) :
    Reached m₀ ((m.lxcCreateValue type data).2.keep (some (m.lxcCreateValue type data).1)) where
  counted := by
    have hnone := h.heap.fresh m.world.nextValue (Nat.le_refl _)
    have hnot : m.world.nextValue ∉ m.heap.freed := fun hmem =>
      Nat.lt_irrefl _ ((h.heap.freed m.world.nextValue).mp hmem).2.1
    have hcreate := h.counted.create hnone hnot
    have hholders : ((m.lxcCreateValue type data).2.keep
        (some (m.lxcCreateValue type data).1)).holders =
          m.holders + one (some m.world.nextValue) := by
      simp only [holders, keep, lxcCreateValue, queued, wireValues, Option.map_some]
      abel
    rw [hholders]
    exact hcreate
  heap := h.heap.create
  world := ⟨h.world.gates, h.world.tokenports, h.world.nextWire, h.world.wires⟩
  backed := by
    refine h.backed.mono fun v hv => ?_
    rcases hv with ⟨obj, hobj, hc⟩ | hv
    · have hne : v ≠ m.world.nextValue := by
        rintro rfl
        rw [h.heap.fresh m.world.nextValue (Nat.le_refl _)] at hobj
        cases hobj
      exact .inl ⟨obj, (Function.update_of_ne hne _ _).trans hobj, hc⟩
    · exact .inr (Nat.lt_of_lt_of_le hv (Nat.le_add_right _ _))
  loopbreakers := h.loopbreakers
  tasks := h.tasks

/-- What a call does to the invariant; only the loop of a destroyed wire cannot go on. -/
theorem step_spec (h : Reached m₀ m) (hb : Bounded m₀ m) {call : RefCall} (ha : m.Allowed call)
    (hnot : call = .next → ¬ m.Dangling) :
    ∃ m', m.step call = some m' ∧ (Bounded m₀ m' → Reached m₀ m') := by
  cases call with
  | createValue type data => exact ⟨_, rfl, fun _ => lxcCreateValue_spec h type data⟩
  | reference value =>
    obtain ⟨heap, href, hages, -, hcount⟩ := lxcReferenceValue_spec ha.2
    refine ⟨_, congrArg (Option.map _) href, fun hb' => ?_⟩
    refine ⟨h.acquired hinit ha.2 hcount ?_ hb', h.heap.ages hinit hages, h.world,
      h.backed.mono fun v hv => ?_, h.loopbreakers, h.tasks⟩
    · simp only [holders, keep, queued]
      abel
    · have hkept : ({ m with heap := heap } : Memory).Kept v := hv.ages hages rfl
      exact hkept.imp_right fun hv => Nat.lt_of_lt_of_le hv (Nat.le_add_right _ _)
  | unreference value =>
    obtain ⟨-, hheld, hbacked⟩ := ha
    have hlive : m.Live value := fun v hv => h.live (.inl (.inr (hheld v hv)))
    obtain ⟨heap, hunref, hages, hcount⟩ := lxcUnreferenceValue_spec hlive
    refine ⟨_, congrArg (Option.map _) hunref, fun _ => ?_⟩
    refine ⟨h.released hinit hb hlive hcount ?_, h.heap.ages hinit hages, h.world,
      hbacked.mono fun v hv => ?_, h.loopbreakers, h.tasks⟩
    · have hback : (m.held - one (addressOf value)) + one (addressOf value) = m.held := by
        funext u
        simp only [Pi.add_apply, Pi.sub_apply, one]
        split
        · next he =>
          obtain ⟨v, hv, rfl⟩ := Option.map_eq_some_iff.mp he
          have := hheld v hv
          omega
        · rfl
      funext u
      have := congrFun hback u
      simp only [Pi.add_apply] at this
      simp only [holders, giveUp, queued, Pi.add_apply]
      omega
    · exact hv.imp_left (hages.isConstant_iff v).mpr
  | importNewValue newVal internalLocation =>
    obtain ⟨m', himport, hs, -, hcount⟩ := lxcImportNewValue_spec hinit h hb ha.2.1 ha.2.2
    exact ⟨m', himport, fun hb' => h.sameCalls hinit hs (hcount hb')⟩
  | wipeValue val =>
    have hnull : m.Live none := fun v hv => by cases hv
    obtain ⟨m', himport, hs, -, hcount⟩ := lxcImportNewValue_spec hinit h hb hnull ha.2
    exact ⟨m', (lxcWipeValue_eq val).trans himport, fun hb' => h.sameCalls hinit hs (hcount hb')⟩
  | driveWire w value => exact lxcDriveWireValue_spec hinit h hb ha
  | wireDestroy w => exact lxcWireDestroy_spec hinit h hb ha.2
  | createTask instance_ value index => exact lxcCreateTask_spec hinit h ha.2.1 ha.2.2
  | executeThenRelease i =>
    obtain ⟨m', hstep, hreached⟩ := lxcExecuteThenRelease_spec h ha.2
    exact ⟨m', hstep, fun _ => hreached⟩
  | loopbreaker c =>
    exact lxcExecutionLoopbreaker_spec hinit h ha.2.1 ((h.world.gates c.gate).symm.trans ha.2.2)
  | setEnabled g enabled =>
    obtain ⟨gate, hg⟩ := Option.isSome_iff_exists.mp ha.2
    simp only [step, lxcGateSetEnabled, hg, Option.bind_eq_bind, Option.bind_some]
    refine ⟨_, rfl, fun _ => ⟨h.counted, h.heap,
      ⟨fun g' => ?_, h.world.tokenports, h.world.nextWire, h.world.wires⟩, h.backed,
      h.loopbreakers, h.tasks⟩⟩
    rw [← h.world.gates g']
    by_cases he : g' = g
    · subst he
      rw [hg, Option.isSome_some]
      exact congrArg Option.isSome (Function.update_self g' (some _) m.world.gates)
    · exact congrArg Option.isSome (Function.update_of_ne he _ m.world.gates)
  | next =>
    unfold step
    cases hrun : m.running with
    | nil => exact absurd hrun ha
    | cons c rest => exact next_spec hinit h hrun hb (hnot rfl)

/-! ## Runs -/

/-- References are conserved: what holds of the memory `m` reached from `m₀`. -/
structure Conserved (m₀ m : Memory) : Prop where
  count : ∀ v obj, m.heap.objects v = some obj → obj.constant = false →
    obj.count = m.holders v ∧ 0 < m.holders v
  once : m.heap.freed.Nodup
  freed : ∀ v, v ∈ m.heap.freed ↔
    m₀.world.nextValue ≤ v ∧ v < m.world.nextValue ∧ m.holders v = 0
  places : ∀ place value, m.read place = some value → m.Live value
  tasks : ∀ t ∈ m.tasks ++ m.queued, m.Live t.value
  passed : ∀ c ∈ m.running, m.Live c.owned ∧ m.Live c.passed
  constants : ∀ v obj, m₀.heap.objects v = some obj → m.heap.objects v = some obj

theorem Reached.conserved (h : Reached m₀ m) : Conserved m₀ m where
  count := h.counted.counted
  once := h.counted.once
  freed := by
    intro v
    rw [h.heap.freed v]
    refine and_congr_right fun hle => and_congr_right fun _ => ⟨h.counted.gone v, fun hzero => ?_⟩
    by_contra hobj
    obtain ⟨obj, hobj⟩ := Option.ne_none_iff_exists'.mp hobj
    cases hc : obj.constant with
    | true => exact h.heap.created v hle ⟨obj, hobj, hc⟩
    | false =>
      have := (h.counted.counted v obj hobj hc).2
      omega
  places := fun place value hread => h.read_live (fun w => h.wires_lt hinit) hread
  tasks := by
    intro t ht v hv
    apply h.counted.isSome
    rcases List.mem_append.mp ht with ht | ht
    · have : 0 < pointers (m.tasks.map fun t => addressOf t.value) v.id :=
        List.count_pos_iff.mpr (List.mem_map.mpr ⟨t, ht, congrArg addressOf hv⟩)
      simp only [holders, Pi.add_apply]
      omega
    · have : 0 < pointers (m.queued.map fun t => addressOf t.value) v.id :=
        List.count_pos_iff.mpr (List.mem_map.mpr ⟨t, ht, congrArg addressOf hv⟩)
      simp only [holders, Pi.add_apply]
      omega
  passed := fun c hc => ⟨fun v hv => h.live (h.backed.resolve hc (.inl hv)),
    fun v hv => h.live (h.backed.resolve hc (.inr hv))⟩
  constants := by
    intro v obj hobj
    rw [h.heap.constants v (hinit.constants v obj hobj).2]
    exact hobj

theorem Initial.reached : Reached m₀ m₀ where
  counted := by
    refine ⟨fun v obj hobj hc => ?_, fun v hnone => ?_, ?_, fun v hv => ?_⟩
    · rw [(hinit.constants v obj hobj).1] at hc
      cases hc
    · by_contra hpos
      have := hinit.live v (Nat.pos_of_ne_zero hpos)
      rw [hnone] at this
      cases this
    · rw [hinit.freed]
      exact List.nodup_nil
    · rw [hinit.freed] at hv
      cases hv
  heap := by
    have hnone : ∀ v, m₀.world.nextValue ≤ v → m₀.heap.objects v = none := by
      intro v hv
      cases hobj : m₀.heap.objects v with
      | none => rfl
      | some obj => exact absurd (hinit.constants v obj hobj).2 (Nat.not_lt_of_le hv)
    refine ⟨fun _ _ => rfl, fun v hv hc => ?_, fun v => ?_, hnone, Nat.le_refl _⟩
    · obtain ⟨obj, hobj, -⟩ := hc
      rw [hnone v hv] at hobj
      cases hobj
    · rw [hinit.freed]
      constructor
      · intro hv
        cases hv
      · rintro ⟨hle, hlt, -⟩
        exact absurd hlt (Nat.not_lt_of_le hle)
  world := .refl _
  backed := by
    rw [hinit.running]
    trivial
  loopbreakers := by
    rw [hinit.running, hinit.loopBreaker]
    rfl
  tasks := by
    rw [hinit.tasks, queued, hinit.loopBreaker]
    intro t ht
    cases ht

theorem Initial.bounded : Bounded m₀ m₀ := by
  intro v hv
  have h := hinit.reached
  have := h.counted.gone v (h.heap.fresh v hv)
  omega

/-- In every run of allowed calls in which no created value ever has `2 ^ 31` holders, references
    are conserved, and every further call that is allowed has what it needs. -/
theorem references_conserved {calls : List RefCall}
    (hok : Run.Meets step
      (fun m call => m.Allowed call ∧ ∀ m', m.step call = some m' → Bounded m₀ m') m₀ calls)
    (hrun : Run.run step m₀ calls = some m) :
    Conserved m₀ m ∧
      ∀ call, m.Allowed call → (m.step call).isSome ∨ (call = .next ∧ m.Dangling) := by
  have hinv : Reached m₀ m ∧ Bounded m₀ m := by
    refine Run.run_invariant_of_meets (fun m => Reached m₀ m ∧ Bounded m₀ m) ?_ calls m₀ m
      ⟨hinit.reached, hinit.bounded⟩ hok hrun
    rintro m call m' ⟨h, hb⟩ ⟨ha, hb'⟩ hstep
    have hnot : call = .next → ¬ m.Dangling := by
      rintro rfl ⟨w, i, v, rest, hrun, hw⟩
      simp [step, hrun, next, hw] at hstep
    obtain ⟨m₁, hstep₁, hreached⟩ := step_spec hinit h hb ha hnot
    obtain rfl := Option.some.inj (hstep₁.symm.trans hstep)
    exact ⟨hreached (hb' m₁ hstep), hb' m₁ hstep⟩
  refine ⟨hinv.1.conserved hinit, fun call ha => ?_⟩
  by_cases hnot : call = .next ∧ m.Dangling
  · exact .inr hnot
  · obtain ⟨m', hstep, -⟩ :=
      step_spec hinit hinv.1 hinv.2 ha fun he hd => hnot ⟨he, hd⟩
    rw [hstep]
    exact .inl rfl

end Reached

/-- A bound on the number of holders that does not look at what is stored. -/
theorem bounded_of_held_le {n : Nat} (hheld : ∀ v, m.held v ≤ n)
    (hn : n + m.world.nextWire + m.locations.length + m.tasks.length + m.queued.length +
      m.running.length < 2 ^ 31) : Bounded m₀ m := by
  intro v _
  have hwires := pointers_le_length (wireValues m.world) v
  have hlocations := pointers_le_length (m.locations.map addressOf) v
  have htasks := pointers_le_length (m.tasks.map fun t => addressOf t.value) v
  have hqueued := pointers_le_length (m.queued.map fun t => addressOf t.value) v
  have hrunning := pointers_le_length (m.running.map fun c => addressOf c.owned) v
  rw [List.length_map] at hlocations htasks hqueued hrunning
  rw [wireValues, List.length_map, List.length_range] at hwires
  have := hheld v
  simp only [holders, wireValues, Pi.add_apply]
  omega

end Memory

theorem nandNot_initial (handler : WireHandler) (behavior : ExecutionBehavior) :
    (nandNot handler behavior).memory.Initial where
  constants := by
    intro v obj hobj
    have hobj : (if v < 2 then some (Object.mk 1024 true) else none) = some obj := hobj
    split at hobj
    · next hlt => exact ⟨(Option.some.inj hobj) ▸ rfl, hlt⟩
    · cases hobj
  freed := rfl
  held := rfl
  tasks := rfl
  running := rfl
  loopBreaker := rfl
  live := by
    intro v hv
    exact absurd hv (Nat.lt_irrefl 0)
  wires := by
    intro w hw
    obtain ⟨wire, hw⟩ := Option.isSome_iff_exists.mp hw
    show w < 4
    rcases nandNot_wire hw with ⟨rfl, -⟩ | ⟨rfl, -⟩ | ⟨rfl, -⟩ | ⟨rfl, -⟩ <;> decide
  drivens := by
    intro w wire hw p hp
    obtain ⟨l, ⟨k, hl⟩, hall⟩ := (nandNot_boolNetwork handler behavior).network.drivens w wire hw
    have hmem : p ∈ l := by
      rw [hl] at hp
      simpa using hp
    obtain ⟨tp, gate, htp, -, hg, -⟩ := hall p hmem
    exact ⟨tp, htp, Option.isSome_iff_exists.mpr ⟨gate, hg⟩⟩

/-- A value is created, driven on the output of the inverter, and wiped out of the wire after the
    client gave up its reference. -/
def nandNotCalls : List RefCall :=
  let v := { id := 2, type := .bool, subtypeInfo := 0, data := .bool true }
  [.createValue .bool (.bool true), .driveWire (some 3) (some v), .next, .unreference (some v),
    .wipeValue (.wire 3)]

open Memory in
theorem references_conserved_nandNot :
    ∃ m, Run.run step (nandNot .directPropagateValue .loopbreaker).memory nandNotCalls = some m ∧
      m.heap.freed = [2] ∧ Conserved (nandNot .directPropagateValue .loopbreaker).memory m := by
  obtain ⟨m, hrun⟩ : ∃ m, Run.run step (nandNot .directPropagateValue .loopbreaker).memory
      nandNotCalls = some m := ⟨_, rfl⟩
  refine ⟨m, hrun, ?_, (references_conserved (nandNot_initial _ _) ?_ hrun).1⟩
  · obtain rfl := Option.some.inj hrun
    rfl
  · have hturn : ∀ m : Memory, m.running = [] → m.ClientTurn := by
      intro m hm c rest hrun
      rw [hm] at hrun
      cases hrun
    have hone : ∀ v, (0 + one (addressOf (some ⟨2, .bool, 0, .bool true⟩)) : ValueId → Nat) v ≤ 1 :=
      fun v => by simpa using one_le_one _ v
    refine Run.Meets.cons rfl ⟨hturn _ rfl, fun m' h => ?_⟩ ?_
    · obtain rfl := Option.some.inj h
      exact bounded_of_held_le hone (by decide)
    refine Run.Meets.cons rfl ⟨⟨hturn _ rfl, fun w hw v hv => ?_⟩, fun m' h => ?_⟩ ?_
    · obtain rfl := Option.some.inj hw
      obtain rfl := Option.some.inj hv
      exact ⟨⟨_, rfl, rfl⟩, .inl (.inr (by decide))⟩
    · obtain rfl := Option.some.inj h
      exact bounded_of_held_le hone (by decide)
    refine Run.Meets.cons rfl ⟨List.cons_ne_nil _ _, fun m' h => ?_⟩ ?_
    · obtain rfl := Option.some.inj h
      exact bounded_of_held_le hone (by decide)
    refine Run.Meets.cons rfl ⟨⟨hturn _ rfl, fun v hv => ?_, trivial⟩, fun m' h => ?_⟩ ?_
    · obtain rfl := Option.some.inj hv
      decide
    · obtain rfl := Option.some.inj h
      exact bounded_of_held_le (fun v => (Nat.sub_le _ _).trans (hone v)) (by decide)
    refine Run.Meets.cons rfl ⟨⟨hturn _ rfl, rfl⟩, fun m' h => ?_⟩ trivial
    obtain rfl := Option.some.inj h
    exact bounded_of_held_le (fun v => (Nat.sub_le _ _).trans (hone v)) (by decide)

/-! ## The count wraps around -/

section Overflow

open Memory

/-- The first value a client creates in an empty world. -/
def firstValue : LxcValue := { id := 2, type := .bool, subtypeInfo := 0, data := .bool true }

/-- Clients hold `n` references to the only value. -/
def heldTimes (n : Nat) : Memory :=
  { (World.ofLists [] [] []).memory with
    world := { World.ofLists [] [] [] with nextValue := 3 }
    heap := { objects := Function.update (World.ofLists [] [] []).memory.heap.objects 2
                (some { count := n, constant := false })
              freed := [] }
    held := n • one (some 2) }

theorem emptyWorld_initial : (World.ofLists [] [] []).memory.Initial where
  constants := by
    intro v obj hobj
    have hobj : (if v < 2 then some (Object.mk 1024 true) else none) = some obj := hobj
    split at hobj
    · next hlt => exact ⟨(Option.some.inj hobj) ▸ rfl, hlt⟩
    · cases hobj
  freed := rfl
  held := rfl
  tasks := rfl
  running := rfl
  loopBreaker := rfl
  live := fun v hv => absurd hv (Nat.lt_irrefl 0)
  wires := fun w hw => by cases hw
  drivens := fun w wire hw => by cases hw

theorem step_createValue_empty :
    (World.ofLists [] [] []).memory.step (.createValue .bool (.bool true)) =
      some (heldTimes 1) := by
  have hheld : (0 : ValueId → Nat) + one (some 2) = 1 • one (some 2) := by rw [zero_add, one_nsmul]
  exact congrArg (fun held => some { heldTimes 1 with held := held }) hheld

theorem allowed_reference (n : Nat) : (heldTimes n).Allowed (.reference (some firstValue)) := by
  refine ⟨fun c rest hrun => (by cases hrun), fun v hv => ?_⟩
  obtain rfl := Option.some.inj hv
  rfl

theorem step_reference {n : Nat} (hn : n + 1 < 2 ^ 31) :
    (heldTimes n).step (.reference (some firstValue)) = some (heldTimes (n + 1)) := by
  have hcount : Int.bmod ((n : Int) + 1) (2 ^ 32) = ((n + 1 : Nat) : Int) := by
    rw [Int.bmod_eq_of_le] <;> omega
  have hadjust : (heldTimes n).heap.adjust (2 ^ 32) 2 1 = some (heldTimes (n + 1)).heap := by
    have hlive : (heldTimes n).heap.objects 2 = some { count := n, constant := false } := by
      simp [heldTimes]
    have hpos : ¬ ((n + 1 : Nat) : Int) ≤ 0 := by omega
    unfold Store.adjust
    simp only [hlive, Bool.false_eq_true, if_false, hcount, hpos]
    simp only [heldTimes, Function.update_idem]
  have hheld : (heldTimes n).held + one (some 2) = (heldTimes (n + 1)).held :=
    (succ_nsmul (one (some 2) : ValueId → Nat) n).symm
  simp only [step, lxcReferenceValue, lxcRefdiffValue]
  rw [show firstValue.id = 2 from rfl, hadjust]
  exact congrArg (fun held => some { heldTimes (n + 1) with held := held }) hheld

/-- The reference that is one too many: the value is freed. -/
theorem step_reference_overflow {n : Nat} (hn : n + 1 = 2 ^ 31) :
    ∃ m, (heldTimes n).step (.reference (some firstValue)) = some m ∧ m.heap.freed = [2] ∧
      0 < m.held 2 := by
  have hcount : Int.bmod ((n : Int) + 1) (2 ^ 32) = -(2 ^ 31) := by
    rw [show (n : Int) + 1 = 2 ^ 31 by omega]
    decide
  have hadjust : (heldTimes n).heap.adjust (2 ^ 32) 2 1 =
      some { objects := Function.update (heldTimes n).heap.objects 2 none, freed := [2] } := by
    have hlive : (heldTimes n).heap.objects 2 = some { count := n, constant := false } := by
      simp [heldTimes]
    unfold Store.adjust
    simp only [hlive, Bool.false_eq_true, if_false, hcount]
    rfl
  refine ⟨{ heldTimes n with
            heap := { objects := Function.update (heldTimes n).heap.objects 2 none, freed := [2] }
            held := (heldTimes n).held + one (some 2) }, ?_, rfl, ?_⟩
  · simp only [step, lxcReferenceValue, lxcRefdiffValue]
    rw [show firstValue.id = 2 from rfl, hadjust]
    rfl
  · exact Nat.lt_of_lt_of_le Nat.zero_lt_one (Nat.le_add_left _ _)

theorem meets_references (k : Nat) :
    ∀ n, n + k < 2 ^ 31 → Run.Meets step Allowed (heldTimes n)
      (List.replicate (k + 1) (.reference (some firstValue))) := by
  induction k with
  | zero => exact fun n _ => ⟨allowed_reference n, fun _ _ => trivial⟩
  | succ k ih =>
    intro n hn
    exact Run.Meets.cons (step_reference (by omega)) (allowed_reference n) (ih (n + 1) (by omega))

theorem run_references (k : Nat) :
    ∀ n, n + k + 1 = 2 ^ 31 → ∃ m, Run.run step (heldTimes n)
      (List.replicate (k + 1) (.reference (some firstValue))) = some m ∧ m.heap.freed = [2] ∧
        0 < m.held 2 := by
  induction k with
  | zero =>
    intro n hn
    obtain ⟨m, hstep, hfreed, hheld⟩ := step_reference_overflow hn
    exact ⟨m, by rw [List.replicate_one, Run.run_cons, hstep]; rfl, hfreed, hheld⟩
  | succ k ih =>
    intro n hn
    obtain ⟨m, hrun, hm⟩ := ih (n + 1) (by omega)
    refine ⟨m, ?_, hm⟩
    rw [List.replicate_succ, Run.run_cons, step_reference (by omega), Option.bind_some]
    exact hrun

/-- Without the bound: after a creation and `2 ^ 31 - 1` references the value is freed, and all of
    the references are still held. -/
theorem not_references_conserved :
    ¬ ∀ m₀ m : Memory, m₀.Initial → ∀ calls, Run.Meets step Allowed m₀ calls →
      Run.run step m₀ calls = some m → Conserved m₀ m := by
  intro hall
  have hk : ∃ k, 1 + k + 1 = 2 ^ 31 := by
    refine ⟨2 ^ 31 - 2, ?_⟩
    omega
  obtain ⟨k, hk⟩ := hk
  obtain ⟨m, hrun, hfreed, hheld⟩ := run_references k 1 hk
  have hconserved := hall (World.ofLists [] [] []).memory m emptyWorld_initial
    (.createValue .bool (.bool true) :: List.replicate (k + 1) (.reference (some firstValue)))
    (Run.Meets.cons step_createValue_empty (fun c rest hrun => by cases hrun)
      (meets_references k 1 (by omega)))
    (by rw [Run.run_cons, step_createValue_empty, Option.bind_some]; exact hrun)
  have hzero := ((hconserved.freed 2).mp (by rw [hfreed]; exact List.mem_singleton_self 2)).2.2
  simp only [holders, Pi.add_apply] at hzero
  omega

end Overflow

end LogxControll
