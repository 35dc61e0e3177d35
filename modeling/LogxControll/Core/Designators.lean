/-
  Reference designators (`core/facet.c`): naming gates and wires, and registering them in a circuit.

  A circuit finds its gates and wires by the designators they had when they were added.
  `lxc_gate_set_refdes` and `lxc_wire_set_refdes` give an object another one without a look at the
  circuit, so the designators are unique and lead to their objects exactly as long as nothing
  registered is given another one (`designators_resolvable_iff`).
-/
import LogxControll.Core.Circuit
import LogxControll.Lib.Directory
import LogxControll.Lib.Run

namespace LogxControll

open Directory

/-- A circuit, the memory with the wires, and `ref_des` of the gates. -/
structure Designators where
  memory : World
  gateRefDes : GateId → Option String
  circ : IOCircuit

namespace Designators

/-- The reference designator of a wire. -/
def wireRefDes (S : Designators) (w : WireId) : Option String := (S.memory.wires w).bind Wire.refDes

/-- `lxc_gate_set_refdes`. -/
def lxcGateSetRefdes (g : GateId) (name : String) (S : Designators) : Designators :=
  { S with gateRefDes := Function.update S.gateRefDes g (some name) }

/-- The look-up of a gate without a designator has no result: its name is NULL. -/
def lxcCircuitAddGate (g : GateId) (S : Designators) : Option (Int × Designators) := do
  let name ← S.gateRefDes g
  if (lxcCircuitGetGateByRefdes S.circ name).isSome then
    return (LxcErrno.entityByNameAlreadyRegistered.code, S)
  else
    return (0, { S with circ :=
      { S.circ with gates := Function.update S.circ.gates name (some g) } })

/-- The result is the wire that is there or was created, NULL when the one that is there has another
    type. -/
def lxcCircuitGetOrCreateWire (name : String) (sig : Signal) (S : Designators) :
    Option (Option WireId × Designators) :=
  match lxcCircuitGetWireByRefdes S.circ name with
  | none => do
    let (w, W) := lxcWireCreate sig S.memory
    let W ← lxcWireSetRefdes w name W
    let (_, circ) ← lxcCircuitAddWire S.circ w W
    return (some w, { S with memory := W, circ := circ })
  | some w => do
    let wire ← S.memory.wires w
    if sig ≠ wire.type then return (none, S) else return (some w, S)

/-- A call that gives a designator or registers under it. -/
inductive Op where
  | gateSetRefdes (g : GateId) (name : String)
  | wireSetRefdes (w : WireId) (name : String)
  | addGate (g : GateId)
  | addWire (w : WireId)
  | getOrCreateWire (name : String) (sig : Signal)
  deriving DecidableEq, Repr

/-- The calls, on string maps. -/
def Op.step (S : Designators) : Op → Option Designators
  | .gateSetRefdes g name => some (lxcGateSetRefdes g name S)
  | .wireSetRefdes w name => do
    let W ← lxcWireSetRefdes w name S.memory
    return { S with memory := W }
  | .addGate g => do
    let (_, S) ← lxcCircuitAddGate g S
    return S
  | .addWire w => do
    let (_, circ) ← lxcCircuitAddWire S.circ w S.memory
    return { S with circ := circ }
  | .getOrCreateWire name sig => do
    let (_, S) ← lxcCircuitGetOrCreateWire name sig S
    return S

/-- Of the registered gates no two have the same designator, and each is found by its own; likewise
    the wires. -/
def AllResolvable (S : Designators) : Prop :=
  Resolvable S.gateRefDes S.circ.gates ∧ Resolvable S.wireRefDes S.circ.wires

/-- A registered object is not given another designator. That the one it has may be given again holds
    of a map of strings: a hashmap that keeps pointers has the freed text for its key then. -/
def KeepsNames (S : Designators) : Op → Prop
  | .gateSetRefdes g name => Registered S.circ.gates g → S.gateRefDes g = some name
  | .wireSetRefdes w name => Registered S.circ.wires w → S.wireRefDes w = some name
  | .addGate _ | .addWire _ | .getOrCreateWire _ _ => True

/-- What is found under a name has that designator, and no wire lies beyond the allocated ones. -/
structure Sound (S : Designators) : Prop where
  gates : Agrees S.gateRefDes S.circ.gates
  wires : Agrees S.wireRefDes S.circ.wires
  freshWire : ∀ w, S.memory.nextWire ≤ w → S.memory.wires w = none

theorem Sound.allResolvable {S : Designators} (h : S.Sound) : S.AllResolvable :=
  ⟨h.gates.resolvable, h.wires.resolvable⟩

/-- The designators after a wire was stored. -/
theorem wireRefDes_setWire (S : Designators) (w : WireId) (wire : Wire) :
    { S with memory := S.memory.setWire w wire }.wireRefDes =
      Function.update S.wireRefDes w wire.refDes := by
  funext w'
  show Option.bind (Function.update S.memory.wires w (some wire) w') Wire.refDes = _
  by_cases he : w' = w
  · subst he
    rw [Function.update_self, Function.update_self]
    rfl
  · rw [Function.update_of_ne he, Function.update_of_ne he]
    rfl

theorem lxcWireSetRefdes_eq {S : Designators} {w : WireId} {name : String} {W : World}
    (hres : lxcWireSetRefdes w name S.memory = some W) :
    { S with memory := W }.wireRefDes = Function.update S.wireRefDes w (some name) ∧
      W.nextWire = S.memory.nextWire ∧ ∀ w', S.memory.wires w' = none → W.wires w' = none := by
  obtain ⟨wire, hwire, hW⟩ := Option.bind_eq_some_iff.mp hres
  obtain rfl := Option.some.inj hW
  refine ⟨wireRefDes_setWire S w _, rfl, fun w' hw' => ?_⟩
  have hne : w' ≠ w := by
    rintro rfl
    rw [hwire] at hw'
    cases hw'
  exact (Function.update_of_ne hne _ _).trans hw'

theorem lxcCircuitAddWire_agrees {S : Designators} (h : Agrees S.wireRefDes S.circ.wires) {w : WireId}
    {failed : Bool} {circ : IOCircuit}
    (hres : lxcCircuitAddWire S.circ w S.memory = some (failed, circ)) :
    Agrees S.wireRefDes circ.wires ∧ circ.gates = S.circ.gates := by
  obtain ⟨wire, hwire, hres⟩ := Option.bind_eq_some_iff.mp hres
  cases hname : wire.refDes with
  | none =>
    rw [hname] at hres
    obtain ⟨-, rfl⟩ := Prod.mk.inj (Option.some.inj hres)
    exact ⟨h, rfl⟩
  | some name =>
    rw [hname] at hres
    dsimp only at hres
    split at hres
    · obtain ⟨-, rfl⟩ := Prod.mk.inj (Option.some.inj hres)
      exact ⟨h, rfl⟩
    · obtain ⟨-, rfl⟩ := Prod.mk.inj (Option.some.inj hres)
      refine ⟨h.register ?_, rfl⟩
      rw [wireRefDes, hwire]
      exact hname

/-- A wire at a fresh address is not registered. -/
theorem Sound.not_registered {S : Designators} (h : S.Sound) {w : WireId}
    (hw : S.memory.nextWire ≤ w) : ¬ Registered S.circ.wires w := by
  rintro ⟨n, hn⟩
  have hname := h.wires n w hn
  rw [wireRefDes, h.freshWire w hw] at hname
  cases hname

/-- The new wire, before it is named. -/
theorem Sound.create {S : Designators} (h : S.Sound) (sig : Signal) :
    { S with memory := (lxcWireCreate sig S.memory).2 }.Sound where
  gates := h.gates
  wires := by
    intro n w hn
    have hne : w ≠ S.memory.nextWire := by
      rintro rfl
      exact h.not_registered le_rfl ⟨n, hn⟩
    have hname := h.wires n w hn
    show Option.bind (Function.update S.memory.wires S.memory.nextWire _ w) Wire.refDes = some n
    rw [Function.update_of_ne hne]
    exact hname
  freshWire := by
    intro w hw
    have hle : S.memory.nextWire + 1 ≤ w := hw
    have hne : w ≠ S.memory.nextWire := by omega
    exact (Function.update_of_ne hne _ _).trans (h.freshWire w (by omega))

/-- Naming a wire that is not registered, or naming it as it is called. -/
theorem Sound.setWireRefdes {S : Designators} (h : S.Sound) {w : WireId} {name : String} {W : World}
    (hres : lxcWireSetRefdes w name S.memory = some W)
    (hkeeps : Registered S.circ.wires w → S.wireRefDes w = some name) :
    { S with memory := W }.Sound := by
  obtain ⟨hnames, hnext, hdead⟩ := lxcWireSetRefdes_eq hres
  refine ⟨h.gates, ?_, fun w' hw' => hdead w' (h.freshWire w' (hnext ▸ hw'))⟩
  rw [hnames]
  exact h.wires.rename hkeeps

/-- Registering a wire, or refusing it. -/
theorem Sound.addWire {S : Designators} (h : S.Sound) {w : WireId} {failed : Bool} {circ : IOCircuit}
    (hres : lxcCircuitAddWire S.circ w S.memory = some (failed, circ)) :
    { S with circ := circ }.Sound := by
  obtain ⟨hwires, hgates⟩ := lxcCircuitAddWire_agrees h.wires hres
  refine ⟨?_, hwires, h.freshWire⟩
  show Agrees S.gateRefDes circ.gates
  rw [hgates]
  exact h.gates

theorem Sound.getOrCreateWire {S S' : Designators} (h : S.Sound) {name : String} {sig : Signal}
    {r : Option WireId} (hres : lxcCircuitGetOrCreateWire name sig S = some (r, S')) : S'.Sound := by
  unfold lxcCircuitGetOrCreateWire at hres
  split at hres
  · obtain ⟨W, hW, hres⟩ := Option.bind_eq_some_iff.mp hres
    obtain ⟨⟨failed, circ⟩, hadd, hres⟩ := Option.bind_eq_some_iff.mp hres
    obtain ⟨-, rfl⟩ := Prod.mk.inj (Option.some.inj hres)
    have hnamed : { S with memory := W }.Sound := by
      refine (h.create sig).setWireRefdes hW fun hreg => ?_
      exact absurd hreg (h.not_registered le_rfl)
    exact hnamed.addWire hadd
  · obtain ⟨wire, -, hres⟩ := Option.bind_eq_some_iff.mp hres
    split at hres
    all_goals
      obtain ⟨-, rfl⟩ := Prod.mk.inj (Option.some.inj hres)
      exact h

theorem Sound.step {S S' : Designators} (h : S.Sound) {op : Op} (hok : S.KeepsNames op)
    (hstep : op.step S = some S') : S'.Sound := by
  cases op with
  | gateSetRefdes g name =>
    obtain rfl := Option.some.inj hstep
    exact ⟨h.gates.rename hok, h.wires, h.freshWire⟩
  | wireSetRefdes w name =>
    obtain ⟨W, hW, hS⟩ := Option.bind_eq_some_iff.mp hstep
    obtain rfl := Option.some.inj hS
    exact h.setWireRefdes hW hok
  | addGate g =>
    obtain ⟨⟨r, S₁⟩, hres, hS⟩ := Option.bind_eq_some_iff.mp hstep
    obtain rfl := Option.some.inj hS
    obtain ⟨name, hname, hres⟩ := Option.bind_eq_some_iff.mp hres
    split at hres
    · obtain ⟨-, rfl⟩ := Prod.mk.inj (Option.some.inj hres)
      exact h
    · obtain ⟨-, rfl⟩ := Prod.mk.inj (Option.some.inj hres)
      exact ⟨h.gates.register hname, h.wires, h.freshWire⟩
  | addWire w =>
    obtain ⟨⟨failed, circ⟩, hres, hS⟩ := Option.bind_eq_some_iff.mp hstep
    obtain rfl := Option.some.inj hS
    exact h.addWire hres
  | getOrCreateWire name sig =>
    obtain ⟨⟨r, S₁⟩, hres, hS⟩ := Option.bind_eq_some_iff.mp hstep
    obtain rfl := Option.some.inj hS
    exact h.getOrCreateWire hres

/-- Another designator for a registered object. -/
theorem Sound.breaks {S : Designators} (h : S.Sound) {op : Op} (hbad : ¬ S.KeepsNames op) :
    ∃ S', op.step S = some S' ∧ ¬ S'.AllResolvable := by
  cases op with
  | gateSetRefdes g name =>
    obtain ⟨hreg, hne⟩ := Classical.not_imp.mp hbad
    exact ⟨_, rfl, fun hres => not_resolvable_of_rename h.gates hreg hne hres.1⟩
  | wireSetRefdes w name =>
    obtain ⟨hreg, hne⟩ := Classical.not_imp.mp hbad
    obtain ⟨wire, hwire⟩ : ∃ wire, S.memory.wires w = some wire := by
      obtain ⟨n, hn⟩ := hreg
      obtain ⟨wire, hwire, -⟩ := Option.bind_eq_some_iff.mp (h.wires n w hn)
      exact ⟨wire, hwire⟩
    have hres : lxcWireSetRefdes w name S.memory =
        some (S.memory.setWire w { wire with refDes := some name }) := by
      rw [lxcWireSetRefdes, hwire]
      rfl
    refine ⟨_, by rw [Op.step, hres]; rfl, fun hall => ?_⟩
    have hwires := hall.2
    rw [(lxcWireSetRefdes_eq hres).1] at hwires
    exact not_resolvable_of_rename h.wires hreg hne hwires
  | addGate g => exact absurd trivial hbad
  | addWire w => exact absurd trivial hbad
  | getOrCreateWire name sig => exact absurd trivial hbad

end Designators

open Designators

/-- In a run from a new circuit, with whatever gates and wires there are by then, all designators are
    unique and lead to their objects in every state, exactly when no step of the run gives an object
    that is registered another designator. -/
theorem designators_resolvable_iff {S : Designators} (hgates : S.circ.gates = fun _ => none)
    (hwires : S.circ.wires = fun _ => none)
    (hfresh : ∀ w, S.memory.nextWire ≤ w → S.memory.wires w = none) (ops : List Op) :
    Run.Always Op.step AllResolvable S ops ↔ Run.Meets Op.step KeepsNames S ops := by
  refine Run.always_iff_meets Sound (fun _ h => h.allResolvable)
    (fun _ _ _ h hok hstep => h.step hok hstep) (fun _ _ h hbad => h.breaks hbad)
    ⟨?_, ?_, hfresh⟩
  · rw [hgates]
    exact agrees_empty
  · rw [hwires]
    exact agrees_empty

/-- An empty memory, and a new circuit. -/
def emptyDesignators : Designators :=
  { memory :=
      { gates := fun _ => none, wires := fun _ => none, tokenports := fun _ => none, nextWire := 0,
        nextTokenport := 0, nextValue := 0, loopBreaker := none, driven := [] }
    gateRefDes := fun _ => none
    circ := { gates := fun _ => none, wires := fun _ => none } }

theorem designators_resolvable_iff_wire :
    Run.Always Op.step AllResolvable emptyDesignators
        [.getOrCreateWire "Y" .bool, .wireSetRefdes 0 "Z"] ↔
      Run.Meets Op.step KeepsNames emptyDesignators
        [.getOrCreateWire "Y" .bool, .wireSetRefdes 0 "Z"] :=
  designators_resolvable_iff rfl rfl (fun _ _ => rfl) _

/-- A registered gate gets another designator, by which it is not found. That the old one still leads
    to it is what a map of strings does, too. -/
theorem designators_not_resolvable : ∃ S, Run.run Op.step emptyDesignators
      [.gateSetRefdes 0 "G", .addGate 0, .gateSetRefdes 0 "H"] = some S ∧
    S.circ.gates "G" = some 0 ∧ S.gateRefDes 0 = some "H" ∧
    lxcCircuitGetGateByRefdes S.circ "H" = none :=
  ⟨_, rfl, rfl, rfl, rfl⟩

end LogxControll
