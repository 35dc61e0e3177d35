/-
  What wiring calls leave of a portb gate, whatever the other gates are.

  A call changes a gate's ports by one write to a slot at most (`lxcWireGate_writes`). A gate with
  its ports in the behavior keeps its managers and the length of its slot arrays
  (`lxcWireGate_keepsPortb`); no assumption on the other gates of the world is made, which may
  be bool gates or special boxes.
-/
import LogxControll.Wiring.Consistency

namespace LogxControll

/-- What no call changes of a portb gate. -/
def Gate.shape (g : Gate) : (GateClass × Execute × PortManager × PortManager) × Nat × Nat :=
  (g.managers, g.input.slots.length, g.output.slots.length)

/-- Every gate is still there, with its ports. -/
def KeepsPorts (W W' : World) : Prop :=
  ∀ g gate, W.gates g = some gate → ∃ gate', W'.gates g = some gate' ∧ gate'.ports = gate.ports

/-- Every portb gate is still there, with its managers and its number of slots. -/
def KeepsPortb (W W' : World) : Prop :=
  ∀ g gate, W.gates g = some gate → gate.gateClass = .portb →
    ∃ gate', W'.gates g = some gate' ∧ gate'.shape = gate.shape

/-- Every wire is still there, with its type and subtype. -/
def KeepsTypes (W W' : World) : Prop :=
  ∀ w wire, W.wires w = some wire →
    ∃ wire', W'.wires w = some wire' ∧ wire'.type = wire.type ∧ wire'.subtype = wire.subtype

theorem Gate.gateClass_of_shape {g g' : Gate} (h : g'.shape = g.shape) :
    g'.gateClass = g.gateClass := congrArg (fun s => s.1.1) h

namespace KeepsPorts

variable {W W' : World}

theorem refl (W : World) : KeepsPorts W W := fun _ gate hg => ⟨gate, hg, rfl⟩

theorem of_gates (h : W'.gates = W.gates) : KeepsPorts W W' :=
  fun _ gate hg => ⟨gate, by rw [h, hg], rfl⟩

theorem trans {W'' : World} (h : KeepsPorts W W') (h' : KeepsPorts W' W'') : KeepsPorts W W'' := by
  intro g gate hg
  obtain ⟨gate', hg', hp⟩ := h g gate hg
  obtain ⟨gate'', hg'', hp'⟩ := h' g gate' hg'
  exact ⟨gate'', hg'', hp'.trans hp⟩

theorem of_sameWiring (h : SameWiring W W') : KeepsPorts W W' := by
  intro g gate hg
  have := h.gates g
  rwa [hg, Option.map_some, Option.map_eq_some_iff] at this

end KeepsPorts

namespace KeepsPortb

variable {W W' W'' : World}

theorem refl (W : World) : KeepsPortb W W := fun _ gate hg _ => ⟨gate, hg, rfl⟩

theorem trans (h : KeepsPortb W W') (h' : KeepsPortb W' W'') : KeepsPortb W W'' := by
  intro g gate hg hc
  obtain ⟨gate', hg', hs⟩ := h g gate hg hc
  obtain ⟨gate'', hg'', hs'⟩ := h' g gate' hg' (by rw [Gate.gateClass_of_shape hs, hc])
  exact ⟨gate'', hg'', hs'.trans hs⟩

theorem of_ports (h : KeepsPorts W W') : KeepsPortb W W' := by
  intro g gate hg _
  obtain ⟨gate', hg', hp⟩ := h g gate hg
  have hin : gate'.input = gate.input := Gate.side_of_ports hp .input
  have hout : gate'.output = gate.output := Gate.side_of_ports hp .output
  exact ⟨gate', hg', by rw [Gate.shape, Gate.shape, Gate.managers_of_ports hp, hin, hout]⟩

theorem of_sameWiring (h : SameWiring W W') : KeepsPortb W W' := of_ports (.of_sameWiring h)

end KeepsPortb

namespace KeepsTypes

variable {W W' W'' : World}

theorem refl (W : World) : KeepsTypes W W := fun _ wire hw => ⟨wire, hw, rfl, rfl⟩

theorem of_wires (h : W'.wires = W.wires) : KeepsTypes W W' :=
  fun _ wire hw => ⟨wire, by rw [h, hw], rfl, rfl⟩

theorem trans (h : KeepsTypes W W') (h' : KeepsTypes W' W'') : KeepsTypes W W'' := by
  intro w wire hw
  obtain ⟨wire', hw', ht, hs⟩ := h w wire hw
  obtain ⟨wire'', hw'', ht', hs'⟩ := h' w wire' hw'
  exact ⟨wire'', hw'', ht'.trans ht, hs'.trans hs⟩

theorem of_sameWiring (h : SameWiring W W') : KeepsTypes W W' := by
  intro w wire hw
  have hbare := h.wires w
  rw [hw, Option.map_some, Option.map_eq_some_iff] at hbare
  obtain ⟨wire', hw', he⟩ := hbare
  have ht : wire'.bare.type = wire.bare.type := congrArg Wire.type he
  have hs : wire'.bare.subtype = wire.bare.subtype := congrArg Wire.subtype he
  exact ⟨wire', hw', ht, hs⟩

theorem setPorts {w : WireId} {wire : Wire} (hw : W.wires w = some wire) (dir : Direction)
    (ports : NtArray TokenportId) : KeepsTypes W (W.setWire w (wire.setPorts dir ports)) := by
  intro w' wire' hw'
  by_cases he : w' = w
  · subst he
    obtain rfl := Option.some.inj (hw.symm.trans hw')
    refine ⟨_, Function.update_self .., ?_, ?_⟩ <;> cases dir <;> rfl
  · exact ⟨wire', (Function.update_of_ne he _ W.wires).trans hw', rfl, rfl⟩

end KeepsTypes

section Calls

variable {ex : ExecCall → World → Option World} {W W' : World} {dir : Direction} {type : Signal}
  {subtype r : Int} {g : GateId} {gate : Gate} {index : Nat}

theorem lxcGenericPortbWire_keeps {side side' : PortSide} {c : Option Nat}
    (h : lxcGenericPortbWire side type subtype index c = some (r, side')) :
    side'.manager = side.manager ∧ side'.slots.length = side.slots.length := by
  simp only [lxcGenericPortbWire, lxcPortWiring, Option.bind_eq_bind, Option.bind_eq_some_iff] at h
  obtain ⟨⟨ret, slots⟩, ⟨abs, -, h₁⟩, h₂⟩ := h
  simp only [pure, Option.some.injEq, Prod.mk.injEq] at h₂
  obtain ⟨-, rfl⟩ := h₂
  refine ⟨rfl, ?_⟩
  split at h₁
  · simp only [pure, Option.some.injEq, Prod.mk.injEq] at h₁
    rw [← h₁.2]
  · split at h₁
    · simp only [pure, Option.some.injEq, Prod.mk.injEq] at h₁
      rw [← h₁.2, List.length_set]
    · cases h₁

/-- Writing a slot of a portb gate keeps its shape. -/
theorem Gate.wire_shape (hc : gate.gateClass = .portb) {c : Option Nat} {side : PortSide}
    (h : gate.wire dir type subtype index c = some (r, side)) :
    (gate.setSide dir side).shape = gate.shape := by
  simp only [Gate.wire, hc] at h
  obtain ⟨hm, hlen⟩ := lxcGenericPortbWire_keeps h
  rw [Gate.shape, Gate.shape, Gate.managers_setSide hm]
  cases dir
  · exact congrArg (fun n => (gate.managers, n, gate.output.slots.length)) hlen
  · exact congrArg (fun n => (gate.managers, gate.input.slots.length, n)) hlen

/-- Writing a slot of a porti gate grows the array to the number of ports at most. -/
theorem Gate.wire_porti (hc : gate.gateClass = .porti) {c : Option Nat} {side : PortSide}
    (h : gate.wire dir type subtype index c = some (r, side)) :
    side.manager = (gate.side dir).manager ∧
      side.slots.length ≤ max (gate.side dir).slots.length
        (lxcPortCount (gate.side dir).manager).toNat := by
  simp only [Gate.wire, hc] at h
  obtain ⟨hm, hlen⟩ := lxcGenericPortbWire_keeps h
  refine ⟨hm.trans (PortSide.Sound.forceIndexAvailable_manager _), ?_⟩
  rw [hlen]
  unfold forceIndexAvailable
  dsimp only
  split
  · rw [List.length_append, List.length_replicate]
    omega
  · exact Nat.le_max_left _ _

theorem KeepsPortb.setGate (hg : W.gates g = some gate) {c : Option Nat} {side : PortSide}
    (h : gate.wire dir type subtype index c = some (r, side)) :
    KeepsPortb W (W.setGate g (gate.setSide dir side)) := by
  intro g' gate' hg' hc
  by_cases he : g' = g
  · subst he
    rw [hg, Option.some.injEq] at hg'
    subst hg'
    exact ⟨_, Function.update_self .., Gate.wire_shape hc h⟩
  · exact ⟨gate', (Function.update_of_ne he _ W.gates).trans hg', rfl⟩

theorem removePort_gates {w : WireId} {found : Bool}
    (h : removePort W g index w dir = some (found, W')) : W'.gates = W.gates := by
  simp only [removePort, Option.bind_eq_bind, Option.bind_eq_some_iff] at h
  obtain ⟨wire, -, h⟩ := h
  split at h
  · cases h
  · simp only [pure, Option.some.injEq, Prod.mk.injEq] at h
    rw [← h.2]
  · rw [Option.bind_eq_some_iff] at h
    obtain ⟨found', -, h⟩ := h
    split at h
    · simp only [pure, Option.some.injEq, Prod.mk.injEq] at h
      rw [← h.2]
    · rw [Option.bind_eq_some_iff] at h
      obtain ⟨p, -, h⟩ := h
      simp only [pure, Option.some.injEq, Prod.mk.injEq] at h
      rw [← h.2]
      rfl

theorem addPort_gates {w : WireId} {p : TokenportId} (h : addPort W p w dir = some W') :
    W'.gates = W.gates ∧ W'.tokenports = W.tokenports := by
  simp only [addPort, Option.bind_eq_bind, Option.bind_eq_some_iff] at h
  obtain ⟨wire, -, h⟩ := h
  obtain rfl := Option.some.inj h
  exact ⟨rfl, rfl⟩

/-- The entry of an input goes to the wire that the new tokenport names, and stays with it. -/
theorem onSuccessfullInputWiring_gates {p : TokenportId} {tp : Tokenport}
    (hp : W.tokenports p = some tp)
    (h : onSuccessfullInputWiring ex type subtype (some p) g index W = some W') :
    W'.gates = W.gates ∧ slotOwner W' .input p = some tp.owner := by
  simp only [onSuccessfullInputWiring, hp, Option.bind_eq_bind, Option.bind_some,
    Option.bind_eq_some_iff] at h
  obtain ⟨W₁, hadd, wire, -, h⟩ := h
  obtain rfl := Option.some.inj h
  refine ⟨(addPort_gates hadd).1, ?_⟩
  simp [slotOwner, World.setTokenport]

theorem onSuccessfullOutputWiring_keepsPorts (hex : KeepsWiring ex) {w : Option WireId}
    (h : onSuccessfullOutputWiring ex type subtype w g index W = some W') : KeepsPorts W W' := by
  intro g' gate' hg'
  cases w with
  | none =>
    obtain rfl := Option.some.inj h
    exact ⟨gate', hg', rfl⟩
  | some w =>
    simp only [onSuccessfullOutputWiring, Option.bind_eq_bind, Option.bind_eq_some_iff] at h
    obtain ⟨W₁, hadd, gate₁, -, h⟩ := h
    have hgates : W₁.gates = W.gates := (addPort_gates hadd).1
    split at h
    · have hsame := (hex _ _ _ h).gates g'
      change (W'.gates g').map Gate.ports = (W₁.gates g').map Gate.ports at hsame
      rw [hgates, hg', Option.map_some, Option.map_eq_some_iff] at hsame
      exact hsame
    · obtain rfl := Option.some.inj h
      exact ⟨gate', by rw [hgates, hg'], rfl⟩

theorem onSuccessfullInputWiring_none (hex : KeepsWiring ex)
    (h : onSuccessfullInputWiring ex type subtype none g index W = some W') : SameWiring W W' := by
  simp only [onSuccessfullInputWiring, Option.bind_eq_bind, Option.bind_eq_some_iff] at h
  obtain ⟨gate, -, h⟩ := h
  split at h
  · exact hex _ _ _ h
  · obtain rfl := Option.some.inj h
    exact .refl W

/-- The world after one write to a slot of the gate, but for what is not a port. -/
def WritesSlot (W W' : World) (g : GateId) (dir : Direction) : Prop :=
  ∃ gate sig sub i c ret side, W.gates g = some gate ∧
    gate.wire dir sig sub i c = some (ret, side) ∧ KeepsPorts (W.setGate g (gate.setSide dir side)) W'

/-- After a port was unwired, the slot has been freed, and nothing later touched it. -/
theorem unwirePort_freed (hex : KeepsWiring ex) {c : Nat} (hg : W.gates g = some gate)
    (h : unwirePort ex dir type subtype g index c W = some (r, W')) :
    ∃ ret side, gate.wire dir type subtype index none = some (ret, side) ∧
      KeepsPorts (W.setGate g (gate.setSide dir side)) W' := by
  simp only [unwirePort, Option.bind_eq_bind, Option.bind_eq_some_iff] at h
  obtain ⟨gate', hg', ⟨ret, side⟩, hwire, w, -, ⟨found, W₁⟩, hremove, h⟩ := h
  obtain rfl : gate = gate' := Option.some.inj (hg.symm.trans hg')
  refine ⟨ret, side, hwire, ?_⟩
  have hkeep : KeepsPorts (W.setGate g (gate.setSide dir side)) W₁ :=
    .of_gates (removePort_gates hremove)
  split at h
  · rw [Option.bind_eq_some_iff] at h
    obtain ⟨W₂, hdone, h⟩ := h
    simp only [pure, Option.some.injEq, Prod.mk.injEq] at h
    obtain ⟨-, rfl⟩ := h
    cases dir with
    | input =>
      have hsame := KeepsPorts.of_sameWiring (onSuccessfullInputWiring_none hex hdone)
      exact hkeep.trans hsame
    | output =>
      obtain rfl := Option.some.inj hdone
      exact hkeep
  · simp only [pure, Option.some.injEq, Prod.mk.injEq] at h
    obtain ⟨-, rfl⟩ := h
    exact hkeep

/-- After a wire was tied to an input, the slot has been written and leads to the wire. -/
theorem tieInput_tied {w : WireId} (hg : W.gates g = some gate)
    (h : tieInput ex type subtype g index w W = some (r, W')) :
    ∃ side p, gate.wire .input type subtype index (some p) = some (r, side) ∧
      W'.gates = (W.setGate g (gate.setSide .input side)).gates ∧
      (r = 0 → slotOwner W' .input p = some w) := by
  simp only [tieInput, Option.bind_eq_bind, Option.bind_eq_some_iff] at h
  obtain ⟨gate', hg', ⟨ret, side⟩, hwire, h⟩ := h
  obtain rfl : gate = gate' := Option.some.inj (hg.symm.trans hg')
  split at h
  · next hne =>
    simp only [pure, Option.some.injEq, Prod.mk.injEq] at h
    obtain ⟨rfl, rfl⟩ := h
    exact ⟨side, _, hwire, rfl, fun e => absurd e hne⟩
  · next hz =>
    rw [Option.bind_eq_some_iff] at h
    obtain ⟨W₁, hdone, h⟩ := h
    simp only [pure, Option.some.injEq, Prod.mk.injEq] at h
    obtain ⟨rfl, rfl⟩ := h
    obtain rfl : ret = 0 := not_not.mp hz
    have hdone' : onSuccessfullInputWiring ex type subtype (some W.nextTokenport) g index
        ((W.allocTokenport (Tokenport.zeroed w g index)).setGate g
          (gate.setSide .input side)) = some W₁ := hdone
    obtain ⟨hgates, howner⟩ := onSuccessfullInputWiring_gates (Function.update_self ..) hdone'
    exact ⟨side, _, hwire, hgates, fun _ => howner⟩

/-- After a wire was tied to an output, the slot has been written, and nothing later touched it. -/
theorem tieOutput_tied (hex : KeepsWiring ex) {w : WireId} (hg : W.gates g = some gate)
    (h : tieOutput ex type subtype g index w W = some (r, W')) :
    ∃ side, gate.wire .output type subtype index (some w) = some (r, side) ∧
      ∀ g' gate', (W.setGate g (gate.setSide .output side)).gates g' = some gate' →
        ∃ gate'', W'.gates g' = some gate'' ∧ gate''.ports = gate'.ports := by
  simp only [tieOutput, Option.bind_eq_bind, Option.bind_eq_some_iff] at h
  obtain ⟨gate', hg', ⟨ret, side⟩, hwire, h⟩ := h
  obtain rfl : gate = gate' := Option.some.inj (hg.symm.trans hg')
  split at h
  · simp only [pure, Option.some.injEq, Prod.mk.injEq] at h
    obtain ⟨rfl, rfl⟩ := h
    exact ⟨side, hwire, fun g' gate' hgate => ⟨gate', hgate, rfl⟩⟩
  · next hz =>
    rw [Option.bind_eq_some_iff] at h
    obtain ⟨W₁, hdone, h⟩ := h
    simp only [pure, Option.some.injEq, Prod.mk.injEq] at h
    obtain ⟨rfl, rfl⟩ := h
    obtain rfl : ret = 0 := not_not.mp hz
    have hdone' : onSuccessfullOutputWiring ex type subtype (some w) g index
        (W.setGate g (gate.setSide .output side)) = some W₁ := hdone
    exact ⟨side, hwire, onSuccessfullOutputWiring_keepsPorts hex hdone'⟩

/-- Every wiring call, on any gate and with any arguments. -/
theorem lxcWireGate_writes (hex : KeepsWiring ex) {type : Option Signal} {wire : Option WireId}
    (h : lxcWireGate ex dir type subtype wire g index W = some (r, W')) :
    W' = W ∨ WritesSlot W W' g dir := by
  have hcall : privateGenericWiring ex dir type subtype wire g (intOfUint index) W =
      some (r, W') := by cases dir <;> exact h
  rcases privateGenericWiring_cases hcall with ⟨-, -, rfl⟩ | ⟨sig, gate, wired, -, hg, -, -, hcases⟩
  · exact .inl rfl
  rcases hcases with ⟨c, -, -, hunwire⟩ | ⟨w, -, -, htie⟩
  · obtain ⟨ret, side, hwire, hkeep⟩ := unwirePort_freed hex hg hunwire
    exact .inr ⟨gate, sig, subtype, (intOfUint index).toNat, none, ret, side, hg, hwire, hkeep⟩
  refine .inr ⟨gate, sig, subtype, (intOfUint index).toNat, ?_⟩
  cases dir with
  | input =>
    obtain ⟨side, p, hwire, hgates, -⟩ := tieInput_tied hg htie
    exact ⟨_, _, side, hg, hwire, .of_gates hgates⟩
  | output =>
    obtain ⟨side, hwire, hgates⟩ := tieOutput_tied hex hg htie
    exact ⟨_, _, side, hg, hwire, hgates⟩

theorem removePort_keepsTypes {w : WireId} {found : Bool}
    (h : removePort W g index w dir = some (found, W')) : KeepsTypes W W' := by
  simp only [removePort, Option.bind_eq_bind, Option.bind_eq_some_iff] at h
  obtain ⟨wire, hw, h⟩ := h
  split at h
  · cases h
  · simp only [pure, Option.some.injEq, Prod.mk.injEq] at h
    exact h.2 ▸ .refl W
  · rw [Option.bind_eq_some_iff] at h
    obtain ⟨found', -, h⟩ := h
    split at h
    · simp only [pure, Option.some.injEq, Prod.mk.injEq] at h
      exact h.2 ▸ .refl W
    · rw [Option.bind_eq_some_iff] at h
      obtain ⟨p, -, h⟩ := h
      simp only [pure, Option.some.injEq, Prod.mk.injEq] at h
      obtain ⟨-, rfl⟩ := h
      exact KeepsTypes.setPorts hw dir _

theorem addPort_keepsTypes {w : WireId} {p : TokenportId} (h : addPort W p w dir = some W') :
    KeepsTypes W W' := by
  simp only [addPort, Option.bind_eq_bind, Option.bind_eq_some_iff] at h
  obtain ⟨wire, hw, h⟩ := h
  obtain rfl := Option.some.inj h
  exact .setPorts hw dir _

/-- What is done after a slot was written. -/
theorem onSuccessfullWiring_keepsTypes (hex : KeepsWiring ex) {c : Option Nat}
    (h : onSuccessfullWiring ex dir type subtype c g index W = some W') : KeepsTypes W W' := by
  cases dir with
  | input =>
    cases c with
    | none => exact .of_sameWiring (onSuccessfullInputWiring_none hex h)
    | some p =>
      simp only [onSuccessfullWiring, onSuccessfullInputWiring, Option.bind_eq_bind,
        Option.bind_eq_some_iff] at h
      obtain ⟨port, -, W₁, hadd, wire, -, h⟩ := h
      obtain rfl := Option.some.inj h
      have hadd' := addPort_keepsTypes hadd
      exact hadd'
  | output =>
    cases c with
    | none =>
      obtain rfl := Option.some.inj h
      exact .refl W
    | some w =>
      simp only [onSuccessfullWiring, onSuccessfullOutputWiring, Option.bind_eq_bind,
        Option.bind_eq_some_iff] at h
      obtain ⟨W₁, hadd, gate₁, -, h⟩ := h
      have hadd' := addPort_keepsTypes hadd
      split at h
      · have hsame := KeepsTypes.of_sameWiring (hex _ _ _ h)
        exact hadd'.trans hsame
      · obtain rfl := Option.some.inj h
        exact hadd'

/-- No wiring call changes a type or a subtype of a wire. -/
theorem lxcWireGate_keepsTypes (hex : KeepsWiring ex) {type : Option Signal} {wire : Option WireId}
    (h : lxcWireGate ex dir type subtype wire g index W = some (r, W')) : KeepsTypes W W' := by
  have hcall : privateGenericWiring ex dir type subtype wire g (intOfUint index) W =
      some (r, W') := by cases dir <;> exact h
  rcases privateGenericWiring_cases hcall with ⟨-, -, rfl⟩ | ⟨sig, gate, wired, -, -, -, -, hcases⟩
  · exact .refl W'
  rcases hcases with ⟨c, -, -, hunwire⟩ | ⟨w, -, -, htie⟩
  · simp only [unwirePort, Option.bind_eq_bind, Option.bind_eq_some_iff] at hunwire
    obtain ⟨gate', -, ⟨ret, side⟩, -, owner, -, ⟨found, W₁⟩, hremove, hrest⟩ := hunwire
    have hremoved := removePort_keepsTypes hremove
    split at hrest
    · rw [Option.bind_eq_some_iff] at hrest
      obtain ⟨W₂, hdone, hrest⟩ := hrest
      obtain ⟨-, rfl⟩ := Prod.mk.inj (Option.some.inj hrest)
      exact hremoved.trans (onSuccessfullWiring_keepsTypes hex hdone)
    · obtain ⟨-, rfl⟩ := Prod.mk.inj (Option.some.inj hrest)
      exact hremoved
  · cases dir with
    | input =>
      simp only [tieInput, Option.bind_eq_bind, Option.bind_eq_some_iff] at htie
      obtain ⟨gate', -, ⟨ret, side⟩, -, htie⟩ := htie
      split at htie
      · obtain ⟨-, rfl⟩ := Prod.mk.inj (Option.some.inj htie)
        exact .of_wires rfl
      · rw [Option.bind_eq_some_iff] at htie
        obtain ⟨W₁, hdone, htie⟩ := htie
        obtain ⟨-, rfl⟩ := Prod.mk.inj (Option.some.inj htie)
        have hkeep := onSuccessfullWiring_keepsTypes hex hdone
        exact hkeep
    | output =>
      simp only [tieOutput, Option.bind_eq_bind, Option.bind_eq_some_iff] at htie
      obtain ⟨gate', -, ⟨ret, side⟩, -, htie⟩ := htie
      split at htie
      · obtain ⟨-, rfl⟩ := Prod.mk.inj (Option.some.inj htie)
        exact .of_wires rfl
      · rw [Option.bind_eq_some_iff] at htie
        obtain ⟨W₁, hdone, htie⟩ := htie
        obtain ⟨-, rfl⟩ := Prod.mk.inj (Option.some.inj htie)
        have hkeep := onSuccessfullWiring_keepsTypes hex hdone
        exact hkeep

theorem lxcWireGate_keepsPortb (hex : KeepsWiring ex) {type : Option Signal}
    {wire : Option WireId}
    (h : lxcWireGate ex dir type subtype wire g index W = some (r, W')) : KeepsPortb W W' := by
  rcases lxcWireGate_writes hex h with rfl | ⟨gate, sig, sub, i, c, ret, side, hg, hwire, hports⟩
  · exact .refl W'
  · exact (KeepsPortb.setGate hg hwire).trans (.of_ports hports)

/-- A call that ties a wire and succeeds is past its checks. -/
theorem lxcWireGate_tied {w : WireId} (hindex : index < 2 ^ 31)
    (h : lxcWireGate ex dir (some type) subtype (some w) g index W = some (0, W')) :
    (match dir with
      | .input => tieInput ex type subtype g index w W
      | .output => tieOutput ex type subtype g index w W) = some (0, W') := by
  have hcall : privateGenericWiring ex dir (some type) subtype (some w) g (intOfUint index) W =
      some (0, W') := by cases dir <;> exact h
  rw [intOfUint_of_lt hindex] at hcall
  rcases privateGenericWiring_cases hcall with ⟨hne, -⟩ | ⟨sig, gate, wired, hsig, -, -, -, hcases⟩
  · exact absurd rfl hne
  obtain rfl : type = sig := by
    rcases (wiringSignal_some hsig).1 with hs | ⟨hs, -⟩
    · exact Option.some.inj hs
    · cases hs
  rw [Int.toNat_natCast] at hcases
  rcases hcases with ⟨c, hwire, -⟩ | ⟨w', hwire, -, htie⟩
  · cases hwire
  · obtain rfl := Option.some.inj hwire
    cases dir <;> exact htie

theorem addPortiPort_keepsPortb {junk : Nat → Nat} {name : String}
    (h : addPortiPort W g dir junk name type subtype = some W') : KeepsPortb W W' := by
  simp only [addPortiPort, Option.bind_eq_bind, Option.bind_eq_some_iff] at h
  obtain ⟨gate, hg, h⟩ := h
  split at h
  · next hporti =>
    rw [Option.bind_eq_some_iff] at h
    obtain ⟨⟨ret, idx, manager⟩, -, h⟩ := h
    obtain rfl := Option.some.inj h
    intro g' gate' hg' hc
    have hne : g' ≠ g := by
      intro he
      rw [he, hg, Option.some.injEq] at hg'
      rw [← hg', hporti] at hc
      cases hc
    exact ⟨gate', (Function.update_of_ne hne _ W.gates).trans hg', rfl⟩
  · cases h

end Calls

end LogxControll
