/-
  Networks of gates: what the results on whole networks assume of the world, and how its
  gates are wired to each other.
-/
import LogxControll.Core.Creation
import LogxControll.Wiring.Gates

namespace LogxControll

/-- All gates are enabled, all wires have the same handler, the slots of the gates and the
    entries of the wires agree, and no wire is bound to outputs of two gates. -/
structure World.Network (W : World) (handler : WireHandler) : Prop where
  enabled : ∀ g gate, W.gates g = some gate →
    gate.enabled = true ∧ gate.executionBehavior.isSome
  handler : ∀ w wire, W.wires w = some wire → wire.handler = handler
  drivens : ∀ w wire, W.wires w = some wire → ∃ l, IsNt wire.drivens l ∧
    ∀ p ∈ l, ∃ tp gate, W.tokenports p = some tp ∧ tp.owner = w ∧ W.gates tp.gate = some gate ∧
      some p ∈ gate.input.slots
  inputs : ∀ g gate p, W.gates g = some gate → some p ∈ gate.input.slots →
    ∃ tp wire, W.tokenports p = some tp ∧ tp.gate = g ∧ W.wires tp.owner = some wire ∧
      p ∈ entries wire.drivens
  outputs : ∀ g gate w, W.gates g = some gate → some w ∈ gate.output.slots →
    ∃ wire, W.wires w = some wire
  driver : ∀ g g' gate gate' w, W.gates g = some gate → W.gates g' = some gate' →
    some w ∈ gate.output.slots → some w ∈ gate'.output.slots → g = g'

/-- The wires of the wired ports, in the order of the slots. -/
def World.wiresOf (W : World) (dir : Direction) (slots : List (Option Nat)) : List WireId :=
  slots.filterMap fun c => c.bind (slotOwner W dir)

theorem wiresOf_output (W : World) (slots : List (Option Nat)) :
    W.wiresOf .output slots = slots.filterMap id := by
  unfold World.wiresOf
  congr 1
  funext c
  cases c <;> rfl

/-- The tokenports in the slots and their wires are live. -/
def ListedIn (W : World) (slots : List (Option TokenportId)) : Prop :=
  ∀ p, some p ∈ slots → ∃ tp wire, W.tokenports p = some tp ∧ W.wires tp.owner = some wire

theorem World.Network.listedIn {W : World} {handler : WireHandler} (h : W.Network handler)
    {g : GateId} {gate : Gate} (hg : W.gates g = some gate) : ListedIn W gate.input.slots := by
  intro p hp
  obtain ⟨tp, wire, htp, -, hw, -⟩ := h.inputs g gate p hg hp
  exact ⟨tp, wire, htp, hw⟩

theorem ListedIn.tail {W : World} {s : Option TokenportId} {slots : List (Option TokenportId)}
    (h : ListedIn W (s :: slots)) : ListedIn W slots :=
  fun p hp => h p (List.mem_cons_of_mem _ hp)

/-- An input of `g'` is wired to the output of `g`. -/
def World.Feeds (W : World) (g g' : GateId) : Prop :=
  ∃ gate gate' w p tp, W.gates g = some gate ∧ W.gates g' = some gate' ∧
    some w ∈ gate.output.slots ∧ some p ∈ gate'.input.slots ∧ W.tokenports p = some tp ∧
    tp.owner = w

/-- A wire no gate drives. -/
def World.PrimaryWire (W : World) (w : WireId) : Prop :=
  (W.wires w).isSome ∧ ∀ g gate, W.gates g = some gate → some w ∉ gate.output.slots

/-- A gate of `lxc_bool_gates.c`: `inputs[21]` and one output. -/
structure Gate.IsBool (gate : Gate) : Prop where
  gateClass : gate.gateClass = .bool
  execute : ∃ f, gate.execute = .bool f
  input : gate.input.slots.length = 21
  output : gate.output.slots.length = 1

/-- Nothing was driven yet. -/
structure World.Fresh (W : World) : Prop where
  values : ∀ w wire, W.wires w = some wire → wire.currentValue = none
  loopBreaker : W.loopBreaker = none

/-- The value on a wire. -/
def World.valueOn (W : World) (w : WireId) : Option LxcValue := (W.wires w).bind Wire.currentValue

theorem World.Fresh.valueOn {W : World} (h : W.Fresh) (w : WireId) : W.valueOn w = none := by
  unfold World.valueOn
  cases hw : W.wires w with
  | none => rfl
  | some wire => exact h.values w wire hw

/-- A network all of whose gates are bool gates. -/
structure World.BoolNetwork (W : World) (handler : WireHandler) : Prop where
  network : W.Network handler
  bool : ∀ g gate, W.gates g = some gate → gate.IsBool

/-- The one output slot of a bool gate. -/
theorem Gate.IsBool.output_eq {gate : Gate} (h : gate.IsBool) :
    gate.output.slots = [slotAt gate.output.slots 0] := by
  obtain ⟨c, hc⟩ := List.length_eq_one_iff.mp h.output
  rw [hc]
  rfl

/-! ## A small network -/

/-- An enabled bool gate with its first inputs and its output wired. -/
def wiredBoolGate (f : LogicFunction) (behavior : ExecutionBehavior) (inputs : List TokenportId)
    (output : WireId) : Gate :=
  { logxBoolCreate f with
    enabled := true
    executionBehavior := some behavior
    input := { manager := .zeroed,
               slots := inputs.map some ++ List.replicate (21 - inputs.length) none }
    output := { manager := .zeroed, slots := [some output] } }

/-- A wire for bools without a value. -/
def boolWire (handler : WireHandler) (drivers drivens : List TokenportId) : Wire :=
  { type := .bool, subtype := 0, currentValue := none, refDes := none,
    drivers := drivers.map some ++ [none], drivens := drivens.map some ++ [none],
    handler := handler }

/-- Gates, wires and tokenports at the addresses 0, 1, …; nothing was driven. -/
def World.ofLists (gates : List Gate) (wires : List Wire) (tokenports : List Tokenport) :
    World where
  gates g := gates[g]?
  wires w := wires[w]?
  tokenports p := tokenports[p]?
  nextWire := wires.length
  nextTokenport := tokenports.length
  nextValue := 2
  loopBreaker := none
  driven := []

/-- A nand gate on the wires 0 and 1, and an inverter on its output, with the given behavior. -/
def nandNot (handler : WireHandler) (behavior : ExecutionBehavior) : World :=
  .ofLists
    [wiredBoolGate .nand .default [0, 1] 2, wiredBoolGate .not behavior [2] 3]
    [boolWire handler [] [0], boolWire handler [] [1], boolWire handler [3] [2],
      boolWire handler [4] []]
    [.zeroed 0 0 0, .zeroed 1 0 1, .zeroed 2 1 0, .zeroed 2 0 0, .zeroed 3 1 0]

section NandNot

variable {handler : WireHandler} {behavior : ExecutionBehavior}

theorem nandNot_gate {g : GateId} {gate : Gate}
    (h : (nandNot handler behavior).gates g = some gate) :
    (g = 0 ∧ gate = wiredBoolGate .nand .default [0, 1] 2) ∨
      (g = 1 ∧ gate = wiredBoolGate .not behavior [2] 3) := by
  match g, h with
  | 0, h => exact .inl ⟨rfl, (Option.some.inj h).symm⟩
  | 1, h => exact .inr ⟨rfl, (Option.some.inj h).symm⟩

theorem nandNot_wire {w : WireId} {wire : Wire}
    (h : (nandNot handler behavior).wires w = some wire) :
    (w = 0 ∧ wire = boolWire handler [] [0]) ∨ (w = 1 ∧ wire = boolWire handler [] [1]) ∨
      (w = 2 ∧ wire = boolWire handler [3] [2]) ∨ (w = 3 ∧ wire = boolWire handler [4] []) := by
  match w, h with
  | 0, h => exact .inl ⟨rfl, (Option.some.inj h).symm⟩
  | 1, h => exact .inr (.inl ⟨rfl, (Option.some.inj h).symm⟩)
  | 2, h => exact .inr (.inr (.inl ⟨rfl, (Option.some.inj h).symm⟩))
  | 3, h => exact .inr (.inr (.inr ⟨rfl, (Option.some.inj h).symm⟩))

theorem mem_wiredBoolGate {f : LogicFunction} {inputs : List TokenportId} {output : WireId}
    {p : TokenportId} :
    some p ∈ (wiredBoolGate f behavior inputs output).input.slots ↔ p ∈ inputs := by
  simp [wiredBoolGate]

theorem nandNot_boolNetwork (handler : WireHandler) (behavior : ExecutionBehavior) :
    (nandNot handler behavior).BoolNetwork handler where
  bool := by
    intro g gate h
    rcases nandNot_gate h with ⟨rfl, rfl⟩ | ⟨rfl, rfl⟩
    · exact ⟨rfl, ⟨_, rfl⟩, rfl, rfl⟩
    · exact ⟨rfl, ⟨_, rfl⟩, rfl, rfl⟩
  network := by
    refine ⟨?_, ?_, ?_, ?_, ?_, ?_⟩
    · intro g gate h
      rcases nandNot_gate h with ⟨rfl, rfl⟩ | ⟨rfl, rfl⟩ <;> exact ⟨rfl, rfl⟩
    · intro w wire h
      rcases nandNot_wire h with ⟨rfl, rfl⟩ | ⟨rfl, rfl⟩ | ⟨rfl, rfl⟩ | ⟨rfl, rfl⟩ <;> rfl
    · intro w wire h
      rcases nandNot_wire h with ⟨rfl, rfl⟩ | ⟨rfl, rfl⟩ | ⟨rfl, rfl⟩ | ⟨rfl, rfl⟩
      · refine ⟨[0], ⟨1, rfl⟩, fun p hp => ?_⟩
        obtain rfl := List.mem_singleton.mp hp
        exact ⟨_, _, rfl, rfl, rfl, mem_wiredBoolGate.mpr (by decide)⟩
      · refine ⟨[1], ⟨1, rfl⟩, fun p hp => ?_⟩
        obtain rfl := List.mem_singleton.mp hp
        exact ⟨_, _, rfl, rfl, rfl, mem_wiredBoolGate.mpr (by decide)⟩
      · refine ⟨[2], ⟨1, rfl⟩, fun p hp => ?_⟩
        obtain rfl := List.mem_singleton.mp hp
        exact ⟨_, _, rfl, rfl, rfl, mem_wiredBoolGate.mpr (by decide)⟩
      · exact ⟨[], ⟨1, rfl⟩, fun p hp => absurd hp List.not_mem_nil⟩
    · intro g gate p h hp
      rcases nandNot_gate h with ⟨rfl, rfl⟩ | ⟨rfl, rfl⟩
      · rcases List.mem_pair.mp (mem_wiredBoolGate.mp hp) with rfl | rfl
        · exact ⟨_, _, rfl, rfl, rfl, List.mem_singleton_self 0⟩
        · exact ⟨_, _, rfl, rfl, rfl, List.mem_singleton_self 1⟩
      · obtain rfl := List.mem_singleton.mp (mem_wiredBoolGate.mp hp)
        exact ⟨_, _, rfl, rfl, rfl, List.mem_singleton_self 2⟩
    · intro g gate w h hw
      rcases nandNot_gate h with ⟨rfl, rfl⟩ | ⟨rfl, rfl⟩
      · obtain rfl := Option.some.inj (List.mem_singleton.mp hw)
        exact ⟨_, rfl⟩
      · obtain rfl := Option.some.inj (List.mem_singleton.mp hw)
        exact ⟨_, rfl⟩
    · intro g g' gate gate' w h h' hw hw'
      rcases nandNot_gate h with ⟨rfl, rfl⟩ | ⟨rfl, rfl⟩ <;>
        rcases nandNot_gate h' with ⟨rfl, rfl⟩ | ⟨rfl, rfl⟩
      · rfl
      · cases List.mem_singleton.mp hw
        cases List.mem_singleton.mp hw'
      · cases List.mem_singleton.mp hw
        cases List.mem_singleton.mp hw'
      · rfl

theorem nandNot_primaryWire (w : WireId) (hw : w < 2) :
    (nandNot handler behavior).PrimaryWire w := by
  refine ⟨?_, fun g gate h hslot => ?_⟩
  · interval_cases w <;> rfl
  · rcases nandNot_gate h with ⟨rfl, rfl⟩ | ⟨rfl, rfl⟩
    · obtain rfl := Option.some.inj (List.mem_singleton.mp hslot)
      exact absurd hw (by decide)
    · obtain rfl := Option.some.inj (List.mem_singleton.mp hslot)
      exact absurd hw (by decide)

theorem nandNot_finite : {g | ((nandNot handler behavior).gates g).isSome}.Finite := by
  apply (Set.finite_Iio 2).subset
  intro g hg
  obtain ⟨gate, h⟩ := Option.isSome_iff_exists.mp hg
  rcases nandNot_gate h with ⟨rfl, -⟩ | ⟨rfl, -⟩ <;> decide

theorem nandNot_acyclic (g : GateId) :
    ¬ Relation.TransGen (nandNot handler behavior).Feeds g g := by
  have hless : ∀ g g', (nandNot handler behavior).Feeds g g' → g < g' := by
    rintro g g' ⟨gate, gate', w, p, tp, hg, hg', hslot, hp, htp, rfl⟩
    rcases nandNot_gate hg with ⟨rfl, rfl⟩ | ⟨rfl, rfl⟩ <;>
      rcases nandNot_gate hg' with ⟨rfl, rfl⟩ | ⟨rfl, rfl⟩
    · rcases List.mem_pair.mp (mem_wiredBoolGate.mp hp) with rfl | rfl <;>
        obtain rfl := Option.some.inj htp <;> cases List.mem_singleton.mp hslot
    · exact Nat.zero_lt_one
    · rcases List.mem_pair.mp (mem_wiredBoolGate.mp hp) with rfl | rfl <;>
        obtain rfl := Option.some.inj htp <;> cases List.mem_singleton.mp hslot
    · obtain rfl := List.mem_singleton.mp (mem_wiredBoolGate.mp hp)
      obtain rfl := Option.some.inj htp
      cases List.mem_singleton.mp hslot
  intro h
  have htrans : ∀ g', Relation.TransGen (nandNot handler behavior).Feeds g g' → g < g' := by
    intro g' h
    induction h with
    | single hf => exact hless _ _ hf
    | tail _ hf ih => exact ih.trans (hless _ _ hf)
  exact lt_irrefl g (htrans g h)

end NandNot

end LogxControll
