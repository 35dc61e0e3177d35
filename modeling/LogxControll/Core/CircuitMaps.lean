/-
  `core/facet.c`, circuits again, with the hash maps that they keep their gates and wires in.

  A hash map stores the string that `ref_des` points to as its key, so giving a registered object
  another designator frees a key: such a step has no result here. `circuit_maps_refine` is the bridge
  to circuits whose registries are maps from strings, which the rest of the development works with.
-/
import LogxControll.Core.ComputerphileSort
import LogxControll.Core.Designators
import LogxControll.Core.HashmapRuns

namespace LogxControll

open Directory HashmapMap

/-- `struct circuit` -/
structure HashedCircuit where
  gates : HashmapMap GateId
  wires : HashmapMap WireId

namespace HashedCircuit

/-- `lxc_circuit_create`. -/
def lxcCircuitCreate : HashedCircuit := { gates := hashmapNew, wires := hashmapNew }

/-- `lxc_circuit_get_wire_by_refdes` looks into the hash map. -/
def lxcCircuitGetWireByRefdes (circ : HashedCircuit) (name : String) : Option WireId :=
  (hashmapGet circ.wires name).2

/-- `lxc_circuit_get_gate_by_refdes` -/
def lxcCircuitGetGateByRefdes (circ : HashedCircuit) (name : String) : Option GateId :=
  (hashmapGet circ.gates name).2

/-- Whether it failed, as in `Core/Circuit.lean`. -/
def lxcCircuitAddWire (limit : Fin (2 ^ 31)) (circ : HashedCircuit) (w : WireId) (W : World) :
    Option (Bool × HashedCircuit) := do
  let wire ← W.wires w
  match wire.refDes with
  | none => return (true, circ)
  | some name =>
    if (circ.lxcCircuitGetWireByRefdes name).isSome then
      return (true, circ)
    else
      let (status, wires) := hashmapPut limit circ.wires name w
      return (decide (status ≠ .ok), { circ with wires := wires })

/-- `lxc_circuit_set_all_gate_enable`: the function that is called for every gate returns 0. -/
def lxcCircuitSetAllGateEnable (circ : HashedCircuit) (enable : Bool) (W : World) : Option World :=
  (hashmapIterate circ.gates
    (fun g (W : Option World) => (0, W.bind fun W => lxcGateSetEnabled enable W g)) (some W)).2

/-- The registries as maps from strings. -/
def toMaps (circ : HashedCircuit) : IOCircuit := { gates := circ.gates.toMap, wires := circ.wires.toMap }

/-- Both maps are solid, so they find every key they hold. -/
structure Solid (circ : HashedCircuit) : Prop where
  gates : circ.gates.Solid
  wires : circ.wires.Solid

/-- The lengths of both maps count at least the keys they hold. -/
structure Counted (circ : HashedCircuit) : Prop where
  gates : circ.gates.Counted
  wires : circ.wires.Counted

end HashedCircuit

/-- Like `Designators`. -/
structure HashedDesignators where
  memory : World
  gateRefDes : GateId → Option String
  circ : HashedCircuit

/-- The object is stored in the map, with the string of its designator as the key. -/
def HashmapMap.Keeps {α : Type} (m : HashmapMap α) (x : α) : Prop := ∃ e ∈ m.entries, e.2 = x

instance {α : Type} [DecidableEq α] (m : HashmapMap α) (x : α) : Decidable (m.Keeps x) :=
  inferInstanceAs (Decidable (∃ e ∈ m.entries, e.2 = x))

namespace HashedDesignators

/-- `lxc_gate_set_refdes`. It frees the old designator, so a gate whose designator is a key of the
    map must not get another one. -/
def lxcGateSetRefdes (g : GateId) (name : String) (H : HashedDesignators) :
    Option HashedDesignators :=
  if H.circ.gates.Keeps g then none
  else some { H with gateRefDes := Function.update H.gateRefDes g (some name) }

/-- `lxc_wire_set_refdes`, under the same condition. -/
def lxcWireSetRefdes (w : WireId) (name : String) (H : HashedDesignators) :
    Option HashedDesignators :=
  if H.circ.wires.Keeps w then none
  else (LogxControll.lxcWireSetRefdes w name H.memory).map fun W => { H with memory := W }

/-- The status of `hashmap_put` is not looked at. -/
def lxcCircuitAddGate (limit : Fin (2 ^ 31)) (g : GateId) (H : HashedDesignators) :
    Option (Int × HashedDesignators) := do
  let name ← H.gateRefDes g
  if (H.circ.lxcCircuitGetGateByRefdes name).isSome then
    return (LxcErrno.entityByNameAlreadyRegistered.code, H)
  else
    return (0, { H with circ := { H.circ with gates := (hashmapPut limit H.circ.gates name g).2 } })

/-- `lxc_circuit_get_or_create_wire`: a new wire has its designator before it is added. -/
def lxcCircuitGetOrCreateWire (limit : Fin (2 ^ 31)) (name : String) (sig : Signal)
    (H : HashedDesignators) : Option (Option WireId × HashedDesignators) :=
  match H.circ.lxcCircuitGetWireByRefdes name with
  | none => do
    let (w, W) := lxcWireCreate sig H.memory
    let W ← LogxControll.lxcWireSetRefdes w name W
    let (_, circ) ← H.circ.lxcCircuitAddWire limit w W
    return (some w, { H with memory := W, circ := circ })
  | some w => do
    let wire ← H.memory.wires w
    if sig ≠ wire.type then return (none, H) else return (some w, H)

/-- A call that names something or registers it. -/
def step (limit : Fin (2 ^ 31)) (H : HashedDesignators) :
    Designators.Op → Option HashedDesignators
  | .gateSetRefdes g name => H.lxcGateSetRefdes g name
  | .wireSetRefdes w name => H.lxcWireSetRefdes w name
  | .addGate g => do
    let (_, H) ← H.lxcCircuitAddGate limit g
    return H
  | .addWire w => do
    let (_, circ) ← H.circ.lxcCircuitAddWire limit w H.memory
    return { H with circ := circ }
  | .getOrCreateWire name sig => do
    let (_, H) ← H.lxcCircuitGetOrCreateWire limit name sig
    return H

/-- The circuit with string maps for its hash maps, and the same objects. -/
def toMaps (H : HashedDesignators) : Designators where
  memory := H.memory
  gateRefDes := H.gateRefDes
  circ := H.circ.toMaps

/-- Registered objects keep their designators, and the memory is enough for the tables. -/
def Allowed (limit : Fin (2 ^ 31)) (H : HashedDesignators) : Designators.Op → Prop
  | .gateSetRefdes g _ => ¬ H.circ.gates.Keeps g
  | .wireSetRefdes w _ => ¬ H.circ.wires.Keeps w
  | .addGate g => ∀ name ∈ H.gateRefDes g,
      H.circ.gates.toMap name = none → (hashmapPut limit H.circ.gates name g).1 = .ok
  | .addWire w => ∀ name ∈ H.toMaps.wireRefDes w,
      H.circ.wires.toMap name = none → (hashmapPut limit H.circ.wires name w).1 = .ok
  | .getOrCreateWire name _ => H.circ.wires.toMap name = none →
      (hashmapPut limit H.circ.wires name H.memory.nextWire).1 = .ok

instance (limit : Fin (2 ^ 31)) (H : HashedDesignators) :
    ∀ op, Decidable (H.Allowed limit op)
  | .gateSetRefdes g _ => inferInstanceAs (Decidable (¬ H.circ.gates.Keeps g))
  | .wireSetRefdes w _ => inferInstanceAs (Decidable (¬ H.circ.wires.Keeps w))
  | .addGate g => inferInstanceAs (Decidable (∀ name ∈ H.gateRefDes g,
      H.circ.gates.toMap name = none → (hashmapPut limit H.circ.gates name g).1 = .ok))
  | .addWire w => inferInstanceAs (Decidable (∀ name ∈ H.toMaps.wireRefDes w,
      H.circ.wires.toMap name = none → (hashmapPut limit H.circ.wires name w).1 = .ok))
  | .getOrCreateWire name _ => inferInstanceAs (Decidable (H.circ.wires.toMap name = none →
      (hashmapPut limit H.circ.wires name H.memory.nextWire).1 = .ok))

theorem keeps_iff {α : Type} {m : HashmapMap α} (hm : m.Solid) {x : α} :
    m.Keeps x ↔ Registered m.toMap x := by
  constructor
  · rintro ⟨⟨name, y⟩, he, rfl⟩
    exact ⟨name, hm.tidy.mem_entries_iff.mp he⟩
  · rintro ⟨name, h⟩
    exact ⟨(name, x), hm.tidy.mem_entries_iff.mpr h, rfl⟩

/-- Putting an object under a free name. -/
theorem put_free {α : Type} {m : HashmapMap α} (hm : m.Solid) {limit : Fin (2 ^ 31)} {name : String}
    {x : α} (hok : (hashmapPut limit m name x).1 = .ok) :
    (hashmapPut limit m name x).2.Solid ∧
      (hashmapPut limit m name x).2.toMap = Function.update m.toMap name (some x) :=
  ⟨(hm.put name x).inv, (hm.put name x).stored hok⟩

theorem lxcCircuitAddWire_refines {circ : HashedCircuit} (hcirc : circ.Solid) (limit : Fin (2 ^ 31))
    {w : WireId} (W : World)
    (hok : ∀ name, (W.wires w).bind Wire.refDes = some name → circ.wires.toMap name = none →
      (hashmapPut limit circ.wires name w).1 = .ok) :
    (circ.lxcCircuitAddWire limit w W).map (fun r => (r.1, r.2.toMaps)) =
      LogxControll.lxcCircuitAddWire circ.toMaps w W ∧
    ∀ r, circ.lxcCircuitAddWire limit w W = some r → r.2.Solid := by
  unfold HashedCircuit.lxcCircuitAddWire LogxControll.lxcCircuitAddWire
  cases hwire : W.wires w with
  | none => exact ⟨rfl, fun r hr => by cases hr⟩
  | some wire =>
    rw [hwire] at hok
    simp only [Option.bind_eq_bind, Option.bind_some] at hok ⊢
    cases hname : wire.refDes with
    | none =>
      refine ⟨rfl, fun r hr => ?_⟩
      obtain rfl := Option.some.inj hr
      exact hcirc
    | some name =>
      have hget : circ.lxcCircuitGetWireByRefdes name =
          LogxControll.lxcCircuitGetWireByRefdes circ.toMaps name := rfl
      dsimp only
      rw [hget]
      split
      · refine ⟨rfl, fun r hr => ?_⟩
        obtain rfl := Option.some.inj hr
        exact hcirc
      · next hnone =>
        have hfree : circ.wires.toMap name = none := by
          rwa [Option.not_isSome_iff_eq_none] at hnone
        have hput := hok name hname hfree
        obtain ⟨hsolid, hmap⟩ := put_free hcirc.wires hput
        refine ⟨?_, fun r hr => ?_⟩
        · show some (decide ((hashmapPut limit circ.wires name w).1 ≠ .ok),
            ({ gates := circ.gates.toMap, wires := (hashmapPut limit circ.wires name w).2.toMap } :
              IOCircuit)) = _
          rw [hput, hmap]
          rfl
        · obtain rfl := Option.some.inj hr
          exact ⟨hcirc.gates, hsolid⟩

/-- The maps count their elements, and those that were put twice again. -/
theorem lxcCircuitAddWire_counted {circ : HashedCircuit} (hcirc : circ.Solid)
    (hc : circ.Counted) {limit : Fin (2 ^ 31)} {w : WireId} {W : World} {r : Bool × HashedCircuit}
    (hres : circ.lxcCircuitAddWire limit w W = some r) : r.2.Counted := by
  obtain ⟨wire, -, hres⟩ := Option.bind_eq_some_iff.mp hres
  cases hname : wire.refDes with
  | none =>
    rw [hname] at hres
    obtain rfl := Option.some.inj hres
    exact hc
  | some name =>
    rw [hname] at hres
    dsimp only at hres
    split at hres
    · obtain rfl := Option.some.inj hres
      exact hc
    · obtain rfl := Option.some.inj hres
      exact ⟨hc.gates, (hcirc.wires.put name w).counted hc.wires⟩

variable {H : HashedDesignators} {limit : Fin (2 ^ 31)}

theorem lxcCircuitAddGate_refines (hH : H.circ.Solid) {g : GateId}
    (hok : H.Allowed limit (.addGate g)) :
    (H.lxcCircuitAddGate limit g).map (fun r => (r.1, r.2.toMaps)) =
      H.toMaps.lxcCircuitAddGate g ∧
    ∀ r, H.lxcCircuitAddGate limit g = some r → r.2.circ.Solid := by
  unfold lxcCircuitAddGate Designators.lxcCircuitAddGate
  have hname' : H.toMaps.gateRefDes g = H.gateRefDes g := rfl
  rw [hname']
  cases hname : H.gateRefDes g with
  | none => exact ⟨rfl, fun r hr => by cases hr⟩
  | some name =>
    have hget : H.circ.lxcCircuitGetGateByRefdes name =
        LogxControll.lxcCircuitGetGateByRefdes H.toMaps.circ name := rfl
    simp only [Option.bind_eq_bind, Option.bind_some]
    rw [hget]
    split
    · refine ⟨rfl, fun r hr => ?_⟩
      obtain rfl := Option.some.inj hr
      exact hH
    · next hnone =>
      have hfree : H.circ.gates.toMap name = none := by
        rwa [Option.not_isSome_iff_eq_none] at hnone
      obtain ⟨hsolid, hmap⟩ := put_free hH.gates (hok name hname hfree)
      refine ⟨?_, fun r hr => ?_⟩
      · show some ((0 : Int), { H.toMaps with circ := { H.toMaps.circ with
          gates := (hashmapPut limit H.circ.gates name g).2.toMap } }) = _
        rw [hmap]
        rfl
      · obtain rfl := Option.some.inj hr
        exact ⟨hsolid, hH.wires⟩

theorem lxcCircuitGetOrCreateWire_refines (hH : H.circ.Solid) {name : String} {sig : Signal}
    (hok : H.Allowed limit (.getOrCreateWire name sig)) :
    (H.lxcCircuitGetOrCreateWire limit name sig).map (fun r => (r.1, r.2.toMaps)) =
      H.toMaps.lxcCircuitGetOrCreateWire name sig ∧
    ∀ r, H.lxcCircuitGetOrCreateWire limit name sig = some r → r.2.circ.Solid := by
  unfold lxcCircuitGetOrCreateWire Designators.lxcCircuitGetOrCreateWire
  have hget : H.circ.lxcCircuitGetWireByRefdes name =
      LogxControll.lxcCircuitGetWireByRefdes H.toMaps.circ name := rfl
  rw [hget]
  cases hw : LogxControll.lxcCircuitGetWireByRefdes H.toMaps.circ name with
  | some w =>
    show ((H.memory.wires w).bind _).map _ = (H.memory.wires w).bind _ ∧ _
    cases hwire : H.memory.wires w with
    | none => exact ⟨rfl, fun r hr => by simp [hwire] at hr⟩
    | some wire =>
      simp only [Option.bind_eq_bind, Option.bind_some, hwire]
      split
      all_goals
        refine ⟨rfl, fun r hr => ?_⟩
        obtain rfl := Option.some.inj hr
        exact hH
  | none =>
    have hmemory : H.toMaps.memory = H.memory := rfl
    have hnext : (lxcWireCreate sig H.memory).1 = H.memory.nextWire := rfl
    cases hW : LogxControll.lxcWireSetRefdes (lxcWireCreate sig H.memory).1 name
        (lxcWireCreate sig H.memory).2 with
    | none =>
      simp only [Option.bind_eq_bind, hmemory, hW]
      exact ⟨rfl, fun r hr => by cases hr⟩
    | some W =>
      have hnamed : (W.wires H.memory.nextWire).bind Wire.refDes = some name := by
        obtain ⟨wire, -, hset⟩ := Option.bind_eq_some_iff.mp hW
        obtain rfl := Option.some.inj hset
        show (Function.update (lxcWireCreate sig H.memory).2.wires H.memory.nextWire _
          H.memory.nextWire).bind Wire.refDes = some name
        rw [Function.update_self]
        rfl
      have hfree : H.circ.wires.toMap name = none := hw
      obtain ⟨hmap, hsolid⟩ := lxcCircuitAddWire_refines hH limit W
        (w := H.memory.nextWire) fun name' hname' _ => by
          obtain rfl := Option.some.inj (hnamed.symm.trans hname')
          exact hok hfree
      simp only [Option.bind_eq_bind, hmemory, hW, Option.bind_some]
      have hcirc : H.toMaps.circ = H.circ.toMaps := rfl
      rw [hcirc, hnext, ← hmap]
      cases hadd : H.circ.lxcCircuitAddWire limit H.memory.nextWire W with
      | none => exact ⟨rfl, fun r hr => by cases hr⟩
      | some r₁ =>
        refine ⟨rfl, fun r hr => ?_⟩
        obtain rfl := Option.some.inj hr
        exact hsolid r₁ hadd

/-- One step on the hash maps is the step on the maps that they stand for. -/
theorem step_refines (hH : H.circ.Solid) {op : Designators.Op} (hop : H.Allowed limit op) :
    (H.step limit op).map toMaps = op.step H.toMaps ∧
      ∀ H', H.step limit op = some H' → H'.circ.Solid := by
  cases op with
  | gateSetRefdes g name =>
    rw [step, lxcGateSetRefdes, if_neg hop]
    refine ⟨rfl, fun H' h => ?_⟩
    obtain rfl := Option.some.inj h
    exact hH
  | wireSetRefdes w name =>
    rw [step, lxcWireSetRefdes, if_neg hop, Designators.Op.step]
    have hmemory : H.toMaps.memory = H.memory := rfl
    rw [hmemory]
    cases LogxControll.lxcWireSetRefdes w name H.memory with
    | none => exact ⟨rfl, fun H' h => by cases h⟩
    | some W =>
      refine ⟨rfl, fun H' h => ?_⟩
      obtain rfl := Option.some.inj h
      exact hH
  | addGate g =>
    obtain ⟨hmap, hsolid⟩ := lxcCircuitAddGate_refines hH hop
    rw [step, Designators.Op.step, ← hmap]
    cases hadd : H.lxcCircuitAddGate limit g with
    | none => exact ⟨rfl, fun H' h => by cases h⟩
    | some r =>
      refine ⟨rfl, fun H' h => ?_⟩
      obtain rfl := Option.some.inj h
      exact hsolid r hadd
  | addWire w =>
    have hcirc : H.toMaps.circ = H.circ.toMaps := rfl
    have hmemory : H.toMaps.memory = H.memory := rfl
    obtain ⟨hmap, hsolid⟩ := lxcCircuitAddWire_refines hH limit H.memory hop
    rw [step, Designators.Op.step, hcirc, hmemory, ← hmap]
    cases hadd : H.circ.lxcCircuitAddWire limit w H.memory with
    | none => exact ⟨rfl, fun H' h => by cases h⟩
    | some r =>
      refine ⟨rfl, fun H' h => ?_⟩
      obtain rfl := Option.some.inj h
      exact hsolid r hadd
  | getOrCreateWire name sig =>
    obtain ⟨hmap, hsolid⟩ := lxcCircuitGetOrCreateWire_refines hH hop
    rw [step, Designators.Op.step, ← hmap]
    cases hadd : H.lxcCircuitGetOrCreateWire limit name sig with
    | none => exact ⟨rfl, fun H' h => by cases h⟩
    | some r =>
      refine ⟨rfl, fun H' h => ?_⟩
      obtain rfl := Option.some.inj h
      exact hsolid r hadd

theorem Allowed.keepsNames (hH : H.circ.Solid) {op : Designators.Op} (hop : H.Allowed limit op) :
    H.toMaps.KeepsNames op := by
  cases op with
  | gateSetRefdes g name => exact fun hreg => absurd ((keeps_iff hH.gates).mpr hreg) hop
  | wireSetRefdes w name => exact fun hreg => absurd ((keeps_iff hH.wires).mpr hreg) hop
  | addGate g => trivial
  | addWire w => trivial
  | getOrCreateWire name sig => trivial

theorem counted_step (hH : H.circ.Solid) (hc : H.circ.Counted) {op : Designators.Op}
    {H' : HashedDesignators} (hstep : H.step limit op = some H') : H'.circ.Counted := by
  cases op with
  | gateSetRefdes g name =>
    rw [step, lxcGateSetRefdes] at hstep
    split at hstep
    · cases hstep
    · obtain rfl := Option.some.inj hstep
      exact hc
  | wireSetRefdes w name =>
    rw [step, lxcWireSetRefdes] at hstep
    split at hstep
    · cases hstep
    · obtain ⟨W, -, rfl⟩ := Option.map_eq_some_iff.mp hstep
      exact hc
  | addGate g =>
    obtain ⟨r, hres, hr⟩ := Option.bind_eq_some_iff.mp hstep
    obtain rfl := Option.some.inj hr
    obtain ⟨name, -, hres⟩ := Option.bind_eq_some_iff.mp hres
    split at hres
    · obtain rfl := Option.some.inj hres
      exact hc
    · obtain rfl := Option.some.inj hres
      exact ⟨(hH.gates.put name g).counted hc.gates, hc.wires⟩
  | addWire w =>
    obtain ⟨r, hres, hr⟩ := Option.bind_eq_some_iff.mp hstep
    obtain rfl := Option.some.inj hr
    exact lxcCircuitAddWire_counted hH hc hres
  | getOrCreateWire name sig =>
    obtain ⟨r, hres, hr⟩ := Option.bind_eq_some_iff.mp hstep
    obtain rfl := Option.some.inj hr
    unfold lxcCircuitGetOrCreateWire at hres
    split at hres
    · obtain ⟨W, -, hres⟩ := Option.bind_eq_some_iff.mp hres
      obtain ⟨r', hadd, hres⟩ := Option.bind_eq_some_iff.mp hres
      obtain rfl := Option.some.inj hres
      exact lxcCircuitAddWire_counted hH hc hadd
    · obtain ⟨wire, -, hres⟩ := Option.bind_eq_some_iff.mp hres
      split at hres
      all_goals
        obtain rfl := Option.some.inj hres
        exact hc

/-- What holds of the circuit and its memory in a run of allowed steps. -/
structure Kept (H : HashedDesignators) : Prop where
  solid : H.circ.Solid
  counted : H.circ.Counted
  sound : H.toMaps.Sound

theorem Kept.step (h : H.Kept) {op : Designators.Op} (hop : H.Allowed limit op)
    {H' : HashedDesignators} (hstep : H.step limit op = some H') : H'.Kept := by
  obtain ⟨hmap, hsolid⟩ := step_refines h.solid hop
  rw [hstep] at hmap
  exact ⟨hsolid H' hstep, counted_step h.solid h.counted hstep,
    h.sound.step (hop.keepsNames h.solid) hmap.symm⟩

theorem run_refines : ∀ {ops : List Designators.Op} {H : HashedDesignators}, H.Kept →
    Run.Meets (step limit) (Allowed limit) H ops →
      (Run.run (step limit) H ops).map toMaps = Run.run Designators.Op.step H.toMaps ops
  | [], H, _, _ => rfl
  | op :: ops, H, hH, hops => by
      obtain ⟨hmap, -⟩ := step_refines hH.solid hops.1
      rw [Run.run_cons, Run.run_cons, ← hmap]
      cases hstep : H.step limit op with
      | none => rfl
      | some H₁ => exact run_refines (hH.step hops.1 hstep) (hops.2 H₁ hstep)

/-- Objects that bear their keys are stored once. -/
theorem nodup_values {α : Type} {m : HashmapMap α} (hm : m.Solid) {name : α → Option String}
    (h : ∀ n x, m.toMap n = some x → name x = some n) : (m.entries.map Prod.snd).Nodup := by
  refine List.Nodup.map_on ?_ (List.Nodup.of_map Prod.fst hm.tidy.nodup_keys)
  rintro ⟨n, x⟩ hn ⟨n', x'⟩ hn' he
  obtain rfl : x = x' := he
  have hname := h n x (hm.tidy.mem_entries_iff.mp hn)
  have hname' := h n' x (hm.tidy.mem_entries_iff.mp hn')
  rw [Option.some.inj (hname.symm.trans hname')]

theorem mem_values_iff {α : Type} {m : HashmapMap α} (hm : m.Solid) {x : α} :
    x ∈ m.entries.map Prod.snd ↔ ∃ name, (hashmapGet m name).2 = some x := by
  rw [List.mem_map]
  constructor
  · rintro ⟨⟨name, x⟩, he, rfl⟩
    exact ⟨name, hm.tidy.mem_entries_iff.mp he⟩
  · rintro ⟨name, h⟩
    exact ⟨(name, x), hm.tidy.mem_entries_iff.mpr h, rfl⟩

theorem created_kept {H : HashedDesignators} (hcirc : H.circ = HashedCircuit.lxcCircuitCreate)
    (hfresh : ∀ w, H.memory.nextWire ≤ w → H.memory.wires w = none) : H.Kept := by
  have hnone : ∀ {α : Type}, (hashmapNew : HashmapMap α).toMap = fun _ => none :=
    toMap_emptyTable _
  refine ⟨?_, ?_, ?_, ?_, hfresh⟩
  · rw [hcirc]
    exact ⟨hashmapNew_solid, hashmapNew_solid⟩
  · rw [hcirc]
    exact ⟨hashmapNew_exact.ge, hashmapNew_exact.ge⟩
  · intro n x hx
    have hx' : H.circ.gates.toMap n = some x := hx
    rw [hcirc, HashedCircuit.lxcCircuitCreate, hnone] at hx'
    cases hx'
  · intro n x hx
    have hx' : H.circ.wires.toMap n = some x := hx
    rw [hcirc, HashedCircuit.lxcCircuitCreate, hnone] at hx'
    cases hx'

theorem run_kept {ops : List Designators.Op} {H H' : HashedDesignators} (h : H.Kept)
    (hops : Run.Meets (step limit) (Allowed limit) H ops)
    (hrun : Run.run (step limit) H ops = some H') : H'.Kept :=
  Run.run_invariant_of_meets Kept (fun _ _ _ h hop hstep => h.step hop hstep) ops H H' h hops hrun

end HashedDesignators

theorem hashmapIterate_visit {α σ : Type} {m : HashmapMap α} (hc : m.Counted)
    (f : α → σ → Int × σ) (s : σ) :
    (hashmapIterate m f s).2 = (visit f (m.entries.map Prod.snd) s).2 := by
  unfold hashmapIterate
  split
  · next hsize =>
    have hlen := m.length_entries
    have hempty : m.entries = [] := by
      have hle : m.size ≤ 0 := hsize
      unfold HashmapMap.Counted at hc
      rw [← List.length_eq_zero_iff]
      omega
    rw [hempty]
    rfl
  · rw [iterateElements_eq]
    rfl

/-- Visiting all elements, with a function that returns 0. -/
theorem visit_foldlM {α : Type} (f : World → α → Option World) : ∀ (as : List α) (W : Option World),
    (visit (fun a (W : Option World) => (0, W.bind fun W => f W a)) as W).2 =
      W.bind fun W => as.foldlM f W
  | [], W => by cases W <;> rfl
  | a :: as, W => by
      have hrest := visit_foldlM f as (W.bind fun W => f W a)
      rw [Option.bind_assoc] at hrest
      exact hrest

/-- In a run of allowed steps from a new circuit the hash maps do what maps from strings do, every
    designator leads to its object, and all gates are enabled or disabled, each once. -/
theorem circuit_maps_refine (limit : Fin (2 ^ 31)) {H : HashedDesignators}
    (hcirc : H.circ = HashedCircuit.lxcCircuitCreate)
    (hfresh : ∀ w, H.memory.nextWire ≤ w → H.memory.wires w = none) (ops : List Designators.Op)
    (hops : Run.Meets (HashedDesignators.step limit) (HashedDesignators.Allowed limit) H ops) :
    (Run.run (HashedDesignators.step limit) H ops).map HashedDesignators.toMaps =
      Run.run Designators.Op.step H.toMaps ops ∧
    ∀ H', Run.run (HashedDesignators.step limit) H ops = some H' →
      H'.toMaps.AllResolvable ∧
      ∃ gates : List GateId, gates.Nodup ∧
        (∀ g, g ∈ gates ↔ ∃ name, H'.circ.lxcCircuitGetGateByRefdes name = some g) ∧
        ∀ enable W, H'.circ.lxcCircuitSetAllGateEnable enable W =
          lxcCircuitSetAllGateEnable gates enable W := by
  have hkept := HashedDesignators.created_kept hcirc hfresh
  refine ⟨HashedDesignators.run_refines hkept hops, fun H' hrun => ?_⟩
  have hkept' := HashedDesignators.run_kept hkept hops hrun
  refine ⟨hkept'.sound.allResolvable, H'.circ.gates.entries.map Prod.snd,
    HashedDesignators.nodup_values hkept'.solid.gates hkept'.sound.gates,
    fun g => HashedDesignators.mem_values_iff hkept'.solid.gates, fun enable W => ?_⟩
  rw [HashedCircuit.lxcCircuitSetAllGateEnable, hashmapIterate_visit hkept'.counted.gates,
    visit_foldlM]
  rfl

/-- A new circuit in an empty memory. -/
def emptyHashed : HashedDesignators where
  memory := emptyDesignators.memory
  gateRefDes := fun _ => none
  circ := HashedCircuit.lxcCircuitCreate

/-- Two gates with one designator: the second is not registered. -/
def sameDesignator : List Designators.Op :=
  [.gateSetRefdes 0 "G1", .gateSetRefdes 1 "G1", .addGate 0, .addGate 1]

theorem circuit_maps_refine_same :
    (Run.run (HashedDesignators.step 512) emptyHashed sameDesignator).map HashedDesignators.toMaps =
      Run.run Designators.Op.step emptyHashed.toMaps sameDesignator :=
  (circuit_maps_refine 512 rfl (fun _ _ => rfl) sameDesignator (by decide +kernel)).1

end LogxControll
