/-
  What one wiring call does to the wiring of the world.

  `Outcome` lists every outcome of a call: refused, a port tied, a port untied, or a slot cleared
  although the wire has no entry for it. The last one is excluded when the wiring is consistent
  (`Outcome.consistent`). Every call on regular gates has one of them
  (`privateGenericWiring_step`), but for a call that ties a wire to output 1 of a bool gate: the
  range check lets it through, and it writes the slot of output 0.
-/
import LogxControll.Wiring.Gates

namespace LogxControll

/-- The behavior of a gate and its ports: all but its enable flag and its way of execution. -/
def Gate.ports (g : Gate) : GateClass × Execute × PortSide × PortSide :=
  (g.gateClass, g.execute, g.input, g.output)

/-- The part of a gate no wiring call changes. -/
def Gate.managers (g : Gate) : GateClass × Execute × PortManager × PortManager :=
  (g.gateClass, g.execute, g.input.manager, g.output.manager)

/-- The two worlds differ in values, tokens and enable flags only. -/
structure SameWiring (W W' : World) : Prop where
  gates : ∀ g, (W'.gates g).map Gate.ports = (W.gates g).map Gate.ports
  wires : ∀ w, (W'.wires w).map Wire.bare = (W.wires w).map Wire.bare
  tokenports : ∀ p, (W'.tokenports p).map Tokenport.bare = (W.tokenports p).map Tokenport.bare
  nextWire : W'.nextWire = W.nextWire
  nextTokenport : W'.nextTokenport = W.nextTokenport

/-- An execution behavior that calls no wiring function. -/
def KeepsWiring (ex : ExecCall → World → Option World) : Prop :=
  ∀ c W W', ex c W = some W' → SameWiring W W'

/-- Every gate is a sound generic gate, the addresses to be given out are free, and the arrays
    of the wires are well formed. -/
structure World.Sound (W : World) : Prop where
  gates : ∀ g gt, W.gates g = some gt → gt.Sound
  freshTokenport : ∀ p, W.nextTokenport ≤ p → W.tokenports p = none
  freshWire : ∀ w, W.nextWire ≤ w → W.wires w = none
  arrays : W.wiring.Arrays

/-- The same with bool gates among them. -/
structure World.Regular (W : World) : Prop where
  gates : ∀ g gt, W.gates g = some gt → gt.Regular
  freshTokenport : ∀ p, W.nextTokenport ≤ p → W.tokenports p = none
  freshWire : ∀ w, W.nextWire ≤ w → W.wires w = none
  arrays : W.wiring.Arrays

theorem World.Sound.regular {W : World} (h : W.Sound) : W.Regular :=
  ⟨fun g gt hg => (h.gates g gt hg).regular, h.freshTokenport, h.freshWire, h.arrays⟩

/-- The gates have the ports they had. -/
def SamePorts (W W' : World) : Prop :=
  ∀ g, (W'.gates g).map Gate.managers = (W.gates g).map Gate.managers

/-- The gate of the port exists and has the port. -/
def World.HasPort (W : World) (q : Port) : Prop :=
  ∃ g, W.gates q.gate = some g ∧ g.Owns q.dir q.type q.subtype q.index

/-! ## Gates with the same ports -/

theorem Gate.side_of_ports {g g' : Gate} (h : g'.ports = g.ports) (dir : Direction) :
    g'.side dir = g.side dir := by
  simp only [Gate.ports, Prod.mk.injEq] at h
  cases dir
  · exact h.2.2.1
  · exact h.2.2.2

theorem Gate.gateClass_of_ports {g g' : Gate} (h : g'.ports = g.ports) :
    g'.gateClass = g.gateClass := congrArg Prod.fst h

theorem Gate.boundAt_of_ports {g g' : Gate} (h : g'.ports = g.ports) (dir : Direction)
    (type : Signal) (subtype : Int) (index : Nat) :
    g'.boundAt dir type subtype index = g.boundAt dir type subtype index := by
  unfold Gate.boundAt Gate.getWire
  rw [Gate.side_of_ports h dir, Gate.gateClass_of_ports h]

theorem Gate.Sound.of_ports {g g' : Gate} (h : g'.ports = g.ports) (hg : g.Sound) :
    g'.Sound where
  generic := by rw [Gate.gateClass_of_ports h]; exact hg.generic
  side := by
    intro dir
    rw [Gate.side_of_ports h dir, Gate.gateClass_of_ports h]
    exact hg.side dir

theorem Gate.Regular.of_ports {g g' : Gate} (h : g'.ports = g.ports) (hg : g.Regular) :
    g'.Regular where
  generic := by
    rw [Gate.gateClass_of_ports h]
    exact fun hc => (hg.generic hc).of_ports h
  bool := by
    rw [Gate.gateClass_of_ports h, show g'.input = g.input from Gate.side_of_ports h .input,
      show g'.output = g.output from Gate.side_of_ports h .output]
    exact hg.bool

theorem Gate.managers_of_ports {g g' : Gate} (h : g'.ports = g.ports) :
    g'.managers = g.managers := by
  simp only [Gate.ports, Prod.mk.injEq] at h
  simp [Gate.managers, h.1, h.2.1, h.2.2.1, h.2.2.2]

theorem Gate.managers_setSide {g : Gate} {dir : Direction} {side : PortSide}
    (h : side.manager = (g.side dir).manager) : (g.setSide dir side).managers = g.managers := by
  cases dir
  · exact congrArg (fun m => (g.gateClass, g.execute, m, g.output.manager)) h
  · exact congrArg (fun m => (g.gateClass, g.execute, g.input.manager, m)) h

theorem SamePorts.refl (W : World) : SamePorts W W := fun _ => rfl

theorem SamePorts.trans {W W' W'' : World} (h : SamePorts W W') (h' : SamePorts W' W'') :
    SamePorts W W'' := fun g => (h' g).trans (h g)

theorem SameWiring.refl (W : World) : SameWiring W W :=
  ⟨fun _ => rfl, fun _ => rfl, fun _ => rfl, rfl, rfl⟩

theorem SameWiring.trans {W W' W'' : World} (h : SameWiring W W') (h' : SameWiring W' W'') :
    SameWiring W W'' where
  gates := fun g => (h'.gates g).trans (h.gates g)
  wires := fun w => (h'.wires w).trans (h.wires w)
  tokenports := fun p => (h'.tokenports p).trans (h.tokenports p)
  nextWire := h'.nextWire.trans h.nextWire
  nextTokenport := h'.nextTokenport.trans h.nextTokenport

/-- Gates that have the same ports are found at the same addresses. -/
theorem SameWiring.gate {W W' : World} (h : SameWiring W W') {g : GateId} {gt' : Gate}
    (hg : W'.gates g = some gt') : ∃ gt, W.gates g = some gt ∧ gt'.ports = gt.ports := by
  have := h.gates g
  rw [hg, Option.map_some, eq_comm, Option.map_eq_some_iff] at this
  obtain ⟨gt, hgt, he⟩ := this
  exact ⟨gt, hgt, he.symm⟩

theorem SameWiring.samePorts {W W' : World} (h : SameWiring W W') : SamePorts W W' := by
  intro g
  have := h.gates g
  cases hg : W.gates g with
  | none => simpa [hg] using this
  | some gt =>
    rw [hg, Option.map_some, Option.map_eq_some_iff] at this
    obtain ⟨gt', hgt', he⟩ := this
    rw [hgt', Option.map_some, Option.map_some, Gate.managers_of_ports he]

theorem SameWiring.wiring_eq {W W' : World} (h : SameWiring W W') : W'.wiring = W.wiring := by
  unfold World.wiring
  congr 1
  · funext q
    have := h.gates q.gate
    cases hg : W.gates q.gate with
    | none =>
      rw [hg, Option.map_none, Option.map_eq_none_iff] at this
      rw [this]
    | some gt =>
      rw [hg, Option.map_some, Option.map_eq_some_iff] at this
      obtain ⟨gt', hgt', he⟩ := this
      rw [hgt', Option.bind_some, Option.bind_some, Gate.boundAt_of_ports he]
  · funext w
    exact h.wires w
  · funext p
    exact h.tokenports p

theorem World.Regular.of_sameWiring {W W' : World} (h : SameWiring W W') (hW : W.Regular) :
    W'.Regular where
  gates := by
    intro g gt' hg
    obtain ⟨gt, hgt, he⟩ := h.gate hg
    exact (hW.gates g gt hgt).of_ports he
  freshTokenport := by
    intro p hp
    have := h.tokenports p
    rw [hW.freshTokenport p (by rw [← h.nextTokenport]; exact hp), Option.map_none,
      Option.map_eq_none_iff] at this
    exact this
  freshWire := by
    intro w hw
    have := h.wires w
    rw [hW.freshWire w (by rw [← h.nextWire]; exact hw), Option.map_none,
      Option.map_eq_none_iff] at this
    exact this
  arrays := by rw [h.wiring_eq]; exact hW.arrays

/-- Sound gates stay sound when they keep their ports. -/
theorem World.Sound.of_samePorts {W W' : World} (h : W.Sound) (hr : W'.Regular)
    (hp : SamePorts W W') : W'.Sound where
  gates := by
    intro g gt' hg
    have hm := hp g
    rw [hg, Option.map_some, eq_comm, Option.map_eq_some_iff] at hm
    obtain ⟨gt, hgt, hm⟩ := hm
    have hc : gt'.gateClass = gt.gateClass := (congrArg Prod.fst hm).symm
    exact (hr.gates g gt' hg).generic (hc ▸ (h.gates g gt hgt).not_bool)
  freshTokenport := hr.freshTokenport
  freshWire := hr.freshWire
  arrays := hr.arrays

/-! ## The wiring after a change of one object -/

namespace World

variable {W : World}

theorem wiring_slot (W : World) {q : Port} {g : Gate} (hg : W.gates q.gate = some g) :
    W.wiring.slot q = g.boundAt q.dir q.type q.subtype q.index := by
  simp [wiring, hg]

theorem wiring_wire (W : World) {w : WireId} {wr : Wire} (hw : W.wires w = some wr) :
    W.wiring.wire w = some wr.bare := by simp [wiring, hw]

theorem wiring_token (W : World) {p : TokenportId} {tp : Tokenport}
    (hp : W.tokenports p = some tp) : W.wiring.token p = some tp.bare := by simp [wiring, hp]

theorem wiring_token_none (W : World) {p : TokenportId} (hp : W.tokenports p = none) :
    W.wiring.token p = none := by simp [wiring, hp]

theorem wiring_setGate {q : Port} {g g' : Gate} {c : Option Nat}
    (hg : W.gates q.gate = some g)
    (hb : ∀ dir type subtype index, g'.boundAt dir type subtype index =
      if dir = q.dir ∧ type = q.type ∧ subtype = q.subtype ∧ index = q.index then c
      else g.boundAt dir type subtype index) :
    (W.setGate q.gate g').wiring =
      { W.wiring with slot := Function.update W.wiring.slot q c } := by
  unfold wiring setGate
  congr 1
  funext q'
  change (Function.update W.gates q.gate (some g') q'.gate).bind _ =
    Function.update W.wiring.slot q c q'
  by_cases he : q'.gate = q.gate
  · rw [he, Function.update_self, Option.bind_some, hb]
    by_cases hq : q' = q
    · subst hq
      simp
    · rw [Function.update_of_ne hq, if_neg]
      · rw [World.wiring_slot W (he ▸ hg)]
      rintro ⟨h1, h2, h3, h4⟩
      exact hq (by cases q; cases q'; simp_all)
  · have hq : q' ≠ q := fun e => he (by rw [e])
    rw [Function.update_of_ne he, Function.update_of_ne hq]
    rfl

theorem wiring_setGate_same {i : GateId} {g g' : Gate} (hg : W.gates i = some g)
    (hb : ∀ dir type subtype index, g'.boundAt dir type subtype index =
      g.boundAt dir type subtype index) : (W.setGate i g').wiring = W.wiring := by
  unfold wiring setGate
  congr 1
  funext q'
  change (Function.update W.gates i (some g') q'.gate).bind _ = (W.gates q'.gate).bind _
  by_cases he : q'.gate = i
  · rw [he, Function.update_self, Option.bind_some, hb, hg, Option.bind_some]
  · rw [Function.update_of_ne he]

theorem wiring_setWire (W : World) (w : WireId) (wr : Wire) :
    (W.setWire w wr).wiring =
      { W.wiring with wire := Function.update W.wiring.wire w (some wr.bare) } := by
  unfold wiring setWire
  congr 1
  funext w'
  by_cases he : w' = w
  · subst he; simp
  · simp [he]

theorem wiring_setTokenport (W : World) (p : TokenportId) (tp : Tokenport) :
    (W.setTokenport p tp).wiring =
      { W.wiring with token := Function.update W.wiring.token p (some tp.bare) } := by
  unfold wiring setTokenport
  congr 1
  funext p'
  by_cases he : p' = p
  · subst he; simp
  · simp [he]

theorem wiring_freeTokenport (W : World) (p : TokenportId) :
    (W.freeTokenport p).wiring =
      { W.wiring with token := Function.update W.wiring.token p none } := by
  unfold wiring freeTokenport
  congr 1
  funext p'
  by_cases he : p' = p
  · subst he; simp
  · simp [he]

end World

/-! ## The search for an entry -/

/-- The entry of a wire for (instance, index). -/
def Tokenport.IsFor (tp : Tokenport) (instance_ : GateId) (index : Nat) : Prop :=
  tp.gate = instance_ ∧ tp.index = index

theorem findPort_some {W : World} {g : GateId} {index i : Nat} :
    ∀ {array : NtArray TokenportId}, findPort W g index array = some (some i) →
      ∃ p tp, array[i]? = some (some p) ∧ W.tokenports p = some tp ∧ tp.IsFor g index
  | [], h => by simp [findPort] at h
  | none :: _, h => by simp [findPort] at h
  | some p :: rest, h => by
      simp only [findPort, Option.bind_eq_bind, Option.bind_eq_some_iff] at h
      obtain ⟨tp, htp, h⟩ := h
      split at h
      · next hm =>
        obtain rfl : 0 = i := by simpa using h
        exact ⟨p, tp, rfl, htp, hm.1.symm, hm.2.symm⟩
      · rw [Option.bind_eq_some_iff] at h
        obtain ⟨r, hr, h⟩ := h
        cases r with
        | none => simp at h
        | some j =>
          obtain rfl : j + 1 = i := by simpa using h
          obtain ⟨p', tp', hp', htp', hf⟩ := findPort_some hr
          exact ⟨p', tp', hp', htp', hf⟩

theorem findPort_none {W : World} {g : GateId} {index : Nat} :
    ∀ {array : NtArray TokenportId}, findPort W g index array = some none →
      ∀ p ∈ entries array, ∃ tp, W.tokenports p = some tp ∧ ¬ tp.IsFor g index
  | [], _, p, hp => by simp [entries] at hp
  | none :: _, h, _, _ => by simp [findPort] at h
  | some p :: rest, h, p', hp' => by
      simp only [findPort, Option.bind_eq_bind, Option.bind_eq_some_iff] at h
      obtain ⟨tp, htp, h⟩ := h
      split at h
      · simp at h
      · next hm =>
        rw [Option.bind_eq_some_iff] at h
        obtain ⟨r, hr, h⟩ := h
        cases r with
        | some j => simp at h
        | none =>
          have hcons : entries (some p :: rest) = p :: entries rest := by simp [entries]
          rw [hcons, List.mem_cons] at hp'
          rcases hp' with rfl | hp'
          · exact ⟨tp, htp, fun e => hm ⟨e.1.symm, e.2.symm⟩⟩
          · exact findPort_none hr p' hp'

/-- The search finds the entry when there is one. -/
theorem findPort_of_mem {W : World} {g : GateId} {index : Nat} {l : List TokenportId} {k : Nat}
    (hall : ∀ p ∈ l, (W.tokenports p).isSome) {p : TokenportId} {tp : Tokenport} (hp : p ∈ l)
    (htp : W.tokenports p = some tp) (hf : tp.IsFor g index) :
    ∃ i, findPort W g index (l.map some ++ List.replicate k none) = some (some i) := by
  induction l with
  | nil => simp at hp
  | cons p' l ih =>
    obtain ⟨tp', htp'⟩ := Option.isSome_iff_exists.mp (hall p' List.mem_cons_self)
    simp only [List.map_cons, List.cons_append, findPort, htp', Option.bind_eq_bind,
      Option.bind_some]
    by_cases hm : g = tp'.gate ∧ index = tp'.index
    · exact ⟨0, if_pos hm⟩
    · rw [if_neg hm]
      rcases List.mem_cons.mp hp with rfl | hp
      · rw [htp, Option.some.injEq] at htp'
        subst htp'
        exact absurd ⟨hf.1.symm, hf.2.symm⟩ hm
      · obtain ⟨i, hi⟩ := ih (fun p' h => hall p' (List.mem_cons_of_mem _ h)) hp
        exact ⟨i + 1, by simp [hi]⟩

theorem entries_getElem? {array : NtArray TokenportId} {l : List TokenportId} (h : IsNt array l)
    {i : Nat} {p : TokenportId} (hi : array[i]? = some (some p)) : l[i]? = some p := by
  obtain ⟨k, rfl⟩ := h
  by_cases hlt : i < l.length
  · rw [List.getElem?_append_left (by simpa using hlt), List.getElem?_map] at hi
    simpa using hi
  · rw [List.getElem?_append_right (by simpa using Nat.le_of_not_lt hlt),
      List.getElem?_replicate] at hi
    split at hi <;> simp at hi

/-! ## Outcomes -/

/-- The wire that lists what the slot of an output, or of an input, holds. -/
def Wiring.ownerOf (v : Wiring) (dir : Direction) (c : Nat) : Option WireId :=
  match dir with
  | .input => (v.token c).map Tokenport.owner
  | .output => some c

/-- What a call for port `q` and wire `wire` can do. -/
inductive Outcome (v : Wiring) (hasPort : Prop) (q : Port) (wire : Option WireId) :
    Int → Wiring → Prop
  | refused {r : Int} (hr : r ≠ 0) (hwire : wire ≠ none) : Outcome v hasPort q wire r v
  | tied {w : WireId} {p : TokenportId} {wr : Wire} (hwire : wire = some w) (hport : hasPort)
      (hfree : v.slot q = none) (hw : v.wire w = some wr) (ht : wr.type = q.type)
      (hp : v.token p = none) : Outcome v hasPort q wire 0 (v.tie q w p)
  | untied {c w : Nat} {wr : Wire} {p : TokenportId} {tp : Tokenport} {i : Nat}
      (hwire : wire = none) (hport : hasPort) (hslot : v.slot q = some c)
      (hown : v.ownerOf q.dir c = some w) (hw : v.wire w = some wr)
      (hi : (entries (wr.ports q.dir))[i]? = some p) (htp : v.token p = some tp)
      (hfor : tp.IsFor q.gate q.index) : Outcome v hasPort q wire 0 (v.untie q w p i)
  | cleared {c w : Nat} {wr : Wire} (hwire : wire = none) (hslot : v.slot q = some c)
      (hown : v.ownerOf q.dir c = some w) (hw : v.wire w = some wr)
      (hno : ∀ p ∈ entries (wr.ports q.dir), ∃ tp, v.token p = some tp ∧
        ¬ tp.IsFor q.gate q.index) :
      Outcome v hasPort q wire LxcErrno.notConnectedUnwiring.code
        { v with slot := Function.update v.slot q none }

/-- In a consistent wiring the entry found for a port is the one that its slot stands for. -/
theorem Wiring.Consistent.entry_of_slot {v : Wiring} (h : v.Consistent) {q : Port} {c w : Nat}
    (hslot : v.slot q = some c) (hown : v.ownerOf q.dir c = some w) :
    ∃ p, v.Lists w p q ∧ ∀ wr p' tp, v.wire w = some wr → p' ∈ entries (wr.ports q.dir) →
      v.token p' = some tp → tp.IsFor q.gate q.index → p' = p := by
  obtain ⟨w', p, rfl, hl⟩ := h.listed q c hslot
  have hw : w' = w := by
    cases hd : q.dir with
    | input =>
      rw [hd] at hown
      simp only [Wiring.ownerOf, Wiring.content, hl.token, Option.map_some,
        Option.some.injEq] at hown
      exact hown
    | output =>
      rw [hd] at hown
      exact Option.some.inj hown
  subst hw
  refine ⟨p, hl, ?_⟩
  intro wr p' tp hwr hmem htp hfor
  obtain ⟨q', hd, hl', -⟩ := h.held w' wr q.dir p' hwr hmem
  obtain ⟨wr₁, hw₁, ht₁, hs₁, -⟩ := hl.wire
  obtain ⟨wr₂, hw₂, ht₂, hs₂, -⟩ := hl'.wire
  rw [hwr, Option.some.injEq] at hw₁ hw₂
  subst hw₁ hw₂
  have htok := Option.some.inj (htp.symm.trans hl'.token)
  subst htok
  have hq : q' = q := by
    cases q
    cases q'
    simp_all [Tokenport.IsFor, Wiring.tokenOf, Tokenport.zeroed]
  subst hq
  exact h.unique w' p' p q' hl' hl

/-- Calls that tie wires to ports of their own subtype only keep the wiring consistent. -/
theorem Outcome.consistent {v v' : Wiring} {hasPort : Prop} {q : Port} {wire : Option WireId}
    {r : Int} (h : v.Consistent)
    (hsub : ∀ w wr, r = 0 → wire = some w → v.wire w = some wr → wr.subtype = q.subtype)
    (ho : Outcome v hasPort q wire r v') : v'.Consistent := by
  cases ho with
  | refused => exact h
  | tied hwire hport hfree hw ht hp => exact h.tie hw ht (hsub _ _ rfl hwire hw) hp hfree
  | untied hwire hport hslot hown hw hi htp hfor =>
    obtain ⟨p, hl, huniq⟩ := h.entry_of_slot hslot hown
    obtain rfl := huniq _ _ _ hw (List.mem_of_getElem? hi) htp hfor
    exact h.untie hw hi hl
  | cleared hwire hslot hown hw hno =>
    obtain ⟨p, hl, -⟩ := h.entry_of_slot hslot hown
    obtain ⟨wr, hw', -, -, hmem⟩ := hl.wire
    rw [hw, Option.some.injEq] at hw'
    subst hw'
    obtain ⟨tp, htp, hnot⟩ := hno p hmem
    rw [hl.token, Option.some.injEq] at htp
    subst htp
    exact absurd ⟨rfl, rfl⟩ hnot

/-! ## The wiring functions -/

/-- A call on regular gates leaves them regular, with the ports they had. -/
structure Step (W W' : World) (q : Port) (wire : Option WireId) (r : Int) : Prop where
  regular : W'.Regular
  ports : SamePorts W W'
  accepted : wire ≠ none → W.HasPort q → r = 0
  outcome : Outcome W.wiring (W.HasPort q) q wire r W'.wiring

theorem Step.sound {W W' : World} {q : Port} {wire : Option WireId} {r : Int}
    (hs : Step W W' q wire r) (h : W.Sound) : W'.Sound := h.of_samePorts hs.regular hs.ports

theorem addPort_eq {W : World} {w : WireId} {wr : Wire} (hw : W.wires w = some wr)
    (p : TokenportId) (dir : Direction) :
    addPort W p w dir =
      some (W.setWire w (wr.setPorts dir (arrayNtAppendElement (wr.ports dir) (some p)).2)) := by
  simp [addPort, hw]

namespace World

variable {W : World} {q : Port} {gt : Gate}

theorem hasPort_iff (hg : W.gates q.gate = some gt) :
    W.HasPort q ↔ gt.Owns q.dir q.type q.subtype q.index := by
  simp [World.HasPort, hg]

theorem Sound.hasPort_iff (h : W.Sound) (hg : W.gates q.gate = some gt) :
    W.HasPort q ↔ gt.HasPort q.dir q.type q.subtype q.index := by
  rw [World.hasPort_iff hg, Gate.owns_of_generic (h.gates q.gate gt hg).not_bool]

/-- Reading a port gives what the view has for its slot. -/
theorem Sound.getWire_eq (h : W.Sound) (hg : W.gates q.gate = some gt) :
    gt.getWire q.dir q.type q.subtype q.index = some (W.wiring.slot q) := by
  rw [(h.gates q.gate gt hg).getWire_eq, W.wiring_slot hg]

/-- Writing a slot: it changes when the gate has the port, and is refused when not. -/
theorem Regular.write_slot (h : W.Regular) (hg : W.gates q.gate = some gt)
    (hbool : gt.gateClass = .bool → W.HasPort q) (c : Option Nat) :
    ∃ r side, gt.wire q.dir q.type q.subtype q.index c = some (r, side) ∧
      (∀ g gt', (W.setGate q.gate (gt.setSide q.dir side)).gates g = some gt' → gt'.Regular) ∧
      SamePorts W (W.setGate q.gate (gt.setSide q.dir side)) ∧
      ((W.HasPort q ∧ r = 0 ∧ (W.setGate q.gate (gt.setSide q.dir side)).wiring =
          { W.wiring with slot := Function.update W.wiring.slot q c }) ∨
        (¬ W.HasPort q ∧ r ≠ 0 ∧
          (W.setGate q.gate (gt.setSide q.dir side)).wiring = W.wiring)) := by
  have hgt := h.gates q.gate gt hg
  have hgates : ∀ {side : PortSide}, (gt.setSide q.dir side).Regular →
      ∀ g gt', (W.setGate q.gate (gt.setSide q.dir side)).gates g = some gt' → gt'.Regular := by
    intro side hs g gt' hg'
    by_cases he : g = q.gate
    · subst he
      rw [show (W.setGate q.gate (gt.setSide q.dir side)).gates q.gate =
        some (gt.setSide q.dir side) from Function.update_self .., Option.some.injEq] at hg'
      exact hg' ▸ hs
    · exact h.gates g gt' ((Function.update_of_ne he _ W.gates).symm.trans hg')
  have hports : ∀ {side : PortSide}, side.manager = (gt.side q.dir).manager →
      SamePorts W (W.setGate q.gate (gt.setSide q.dir side)) := by
    intro side hm g
    by_cases he : g = q.gate
    · subst he
      rw [show (W.setGate q.gate (gt.setSide q.dir side)).gates q.gate =
        some (gt.setSide q.dir side) from Function.update_self .., hg, Option.map_some,
        Option.map_some, Gate.managers_setSide hm]
    · exact congrArg _ (Function.update_of_ne he _ W.gates)
  by_cases hp : gt.Owns q.dir q.type q.subtype q.index
  · obtain ⟨side, hw, hm, hs, hb⟩ := hgt.wire_of_port hp c
    exact ⟨0, side, hw, hgates hs, hports hm,
      .inl ⟨(hasPort_iff hg).mpr hp, rfl, World.wiring_setGate hg hb⟩⟩
  · have hc : gt.gateClass ≠ .bool := fun hc => hp ((hasPort_iff hg).mp (hbool hc))
    obtain ⟨side, hw, hm, hs, hb⟩ := hgt.wire_of_not_owned hc hp c
    exact ⟨_, side, hw, hgates hs, hports hm,
      .inr ⟨fun e => hp ((hasPort_iff hg).mp e), by decide, World.wiring_setGate_same hg hb⟩⟩

end World

theorem Wiring.tie_eq {v : Wiring} {w : WireId} {wr : Wire} (hw : v.wire w = some wr) (q : Port)
    (p : TokenportId) :
    v.tie q w p =
      { slot := Function.update v.slot q (some (Wiring.content q.dir w p))
        wire := Function.update v.wire w
          (some (wr.setPorts q.dir (arrayNtAppendElement (wr.ports q.dir) (some p)).2))
        token := Function.update v.token p (some (Wiring.tokenOf q w)) } := by
  simp [Wiring.tie, hw]

/-- A world whose wiring is `tie` of a regular one is regular when it gave out the address `p`. -/
theorem World.Regular.of_tie {W W' : World} {q : Port} {w : WireId} {wr : Wire} (h : W.Regular)
    (hw : W.wires w = some wr) (hgates : ∀ g gt, W'.gates g = some gt → gt.Regular)
    (hnext : W'.nextTokenport = W.nextTokenport + 1) (hnw : W'.nextWire = W.nextWire)
    (hwiring : W'.wiring = W.wiring.tie q w W.nextTokenport) : W'.Regular where
  gates := hgates
  freshTokenport := by
    intro p hp
    have hne : p ≠ W.nextTokenport := by omega
    have : W'.wiring.token p = none := by
      rw [hwiring, show (W.wiring.tie q w W.nextTokenport).token p = W.wiring.token p from
        Function.update_of_ne hne _ _]
      exact W.wiring_token_none (h.freshTokenport p (by omega))
    exact Option.map_eq_none_iff.mp this
  freshWire := by
    intro w' hw'
    rw [hnw] at hw'
    have hlt : w < W.nextWire := by
      by_contra hge
      have := h.freshWire w (Nat.le_of_not_lt hge)
      simp [hw] at this
    have hne : w' ≠ w := (Nat.lt_of_lt_of_le hlt hw').ne'
    have : W'.wiring.wire w' = none := by
      rw [hwiring, show (W.wiring.tie q w W.nextTokenport).wire w' = W.wiring.wire w' from
        Function.update_of_ne hne _ _]
      exact Option.map_eq_none_iff.mpr (h.freshWire w' hw')
    exact Option.map_eq_none_iff.mp this
  arrays := by
    rw [hwiring]
    exact h.arrays.tie (W.wiring_wire hw) (W.wiring_token_none (h.freshTokenport _ le_rfl))

/-- A new tokenport that no wire lists. -/
theorem Wiring.Arrays.setToken {v : Wiring} (h : v.Arrays) (p : TokenportId) (tp : Tokenport) :
    ({ v with token := Function.update v.token p (some tp) } : Wiring).Arrays where
  isNt := by
    intro w wr dir hw
    obtain ⟨l, hl, hnd, hall⟩ := h.isNt w wr dir hw
    refine ⟨l, hl, hnd, ?_⟩
    intro p' hp'
    by_cases he : p' = p
    · simp [he]
    · simpa [he] using hall p' hp'
  disjoint := h.disjoint

@[simp] theorem World.allocTokenport_gates (W : World) (tp : Tokenport) :
    (W.allocTokenport tp).gates = W.gates := rfl

@[simp] theorem World.allocTokenport_wires (W : World) (tp : Tokenport) :
    (W.allocTokenport tp).wires = W.wires := rfl

theorem World.wiring_allocTokenport (W : World) (tp : Tokenport) :
    (W.allocTokenport tp).wiring =
      { W.wiring with token := Function.update W.wiring.token W.nextTokenport (some tp.bare) } :=
  World.wiring_setTokenport W W.nextTokenport tp

theorem World.Regular.allocTokenport {W : World} (h : W.Regular) (tp : Tokenport) :
    (W.allocTokenport tp).Regular where
  gates := h.gates
  freshTokenport := by
    intro p hp
    have hlt : W.nextTokenport < p := hp
    rw [show (W.allocTokenport tp).tokenports p = W.tokenports p from
      Function.update_of_ne hlt.ne' _ _]
    exact h.freshTokenport p hlt.le
  freshWire := h.freshWire
  arrays := by
    rw [World.wiring_allocTokenport]
    exact h.arrays.setToken _ _

/-- Listing a new tokenport as a driven of its wire. -/
theorem onSuccessfullInputWiring_some (ex : ExecCall → World → Option World) {W : World}
    {p : TokenportId} {tp : Tokenport} {wr : Wire} (hp : W.tokenports p = some tp)
    (hw : W.wires tp.owner = some wr) (type : Signal) (subtype : Int) (g : GateId) (index : Nat) :
    ∃ i, onSuccessfullInputWiring ex type subtype (some p) g index W =
      some ((W.setWire tp.owner (wr.setPorts .input
        (arrayNtAppendElement (wr.ports .input) (some p)).2)).setTokenport p
          { tp with wireIndex := i }) := by
  refine ⟨arrayNtContains (arrayNtAppendElement (wr.ports .input) (some p)).2 p, ?_⟩
  simp only [onSuccessfullInputWiring, hp, addPort_eq hw, Option.bind_eq_bind, Option.bind_some]
  simp only [World.setWire, Function.update_self, Option.bind_some]
  rfl

section Calls

variable {ex : ExecCall → World → Option World} {W W' : World} {g : GateId} {gt : Gate}
  {type : Signal} {subtype : Int} {index : Nat} {w : WireId} {wr : Wire} {r : Int}

theorem tieInput_step (h : W.Regular) (hg : W.gates g = some gt)
    (hbool : gt.gateClass = .bool → W.HasPort ⟨g, .input, type, subtype, index⟩)
    (hw : W.wires w = some wr) (ht : wr.type = type) (hfree : W.wiring.slot ⟨g, .input, type, subtype, index⟩ = none)
    (hcall : tieInput ex type subtype g index w W = some (r, W')) :
    Step W W' ⟨g, .input, type, subtype, index⟩ (some w) r := by
  have htok := W.wiring_token_none (h.freshTokenport W.nextTokenport le_rfl)
  obtain ⟨ret, side, hwire, hgates, hports, hres⟩ :=
    (h.allocTokenport (Tokenport.zeroed w g index)).write_slot
      (q := ⟨g, .input, type, subtype, index⟩) hg hbool (some W.nextTokenport)
  simp only [tieInput, World.allocTokenport_gates, hg, hwire, Option.bind_eq_bind,
    Option.bind_some, onSuccessfullWiring] at hcall
  rw [World.wiring_allocTokenport] at hres
  set W₁ := (W.allocTokenport (Tokenport.zeroed w g index)).setGate g (gt.setSide .input side)
  have htp : W₁.tokenports W.nextTokenport = some (Tokenport.zeroed w g index) :=
    Function.update_self ..
  have hw₁ : W₁.wires w = some wr := hw
  rcases hres with ⟨hp, rfl, hwiring⟩ | ⟨hp, hr, hwiring⟩
  · -- the slot holds the new tokenport, which is now put into the wire's array
    obtain ⟨i, hsucc⟩ := onSuccessfullInputWiring_some ex htp hw₁ type subtype g index
    rw [if_neg (by simp), hsucc, Option.bind_some] at hcall
    obtain ⟨rfl, rfl⟩ : 0 = r ∧ _ = W' := by simpa using hcall
    have htie : ((W₁.setWire w (wr.setPorts .input
        (arrayNtAppendElement (wr.ports .input) (some W.nextTokenport)).2)).setTokenport
          W.nextTokenport { Tokenport.zeroed w g index with wireIndex := i }).wiring =
        W.wiring.tie ⟨g, .input, type, subtype, index⟩ w W.nextTokenport := by
      rw [World.wiring_setTokenport, World.wiring_setWire, hwiring,
        Wiring.tie_eq (W.wiring_wire hw)]
      simp [Wiring.content, Wiring.tokenOf, Tokenport.bare, Tokenport.zeroed]
    refine ⟨h.of_tie hw hgates rfl rfl htie, hports, fun _ _ => rfl, ?_⟩
    exact htie ▸ .tied rfl hp hfree (W.wiring_wire hw) ht htok
  · -- the gate does not have the port: the tokenport is freed again
    rw [if_pos hr] at hcall
    obtain ⟨rfl, rfl⟩ : ret = r ∧ _ = W' := by simpa using hcall
    have hsame : (W₁.freeTokenport W.nextTokenport).wiring = W.wiring := by
      rw [World.wiring_freeTokenport, hwiring]
      simp only [Function.update_idem]
      rw [← htok, Function.update_eq_self]
    refine ⟨⟨hgates, ?_, h.freshWire, by rw [hsame]; exact h.arrays⟩, hports,
      fun _ hp' => absurd hp' hp, ?_⟩
    · intro p hp
      have hlt : W.nextTokenport < p := hp
      have := (h.allocTokenport (Tokenport.zeroed w g index)).freshTokenport p hlt
      exact (Function.update_of_ne hlt.ne' _ _).trans this
    · rw [hsame]
      exact .refused hr (by simp)

/-- Listing a new tokenport as a driver of its wire, and telling the gate. -/
theorem onSuccessfullOutputWiring_some (hex : KeepsWiring ex) (hw : W.wires w = some wr)
    (h : onSuccessfullOutputWiring ex type subtype (some w) g index W = some W') :
    SameWiring ((W.allocTokenport (Tokenport.zeroed w g index)).setWire w
      (wr.setPorts .output
        (arrayNtAppendElement (wr.ports .output) (some W.nextTokenport)).2)) W' := by
  have hw' : (W.allocTokenport (Tokenport.zeroed w g index)).wires w = some wr := hw
  simp only [onSuccessfullOutputWiring, addPort_eq hw', Option.bind_eq_bind, Option.bind_some,
    Option.bind_eq_some_iff] at h
  obtain ⟨gate, -, h⟩ := h
  split at h
  · have hsame := hex _ _ _ h
    exact ⟨hsame.gates, hsame.wires, hsame.tokenports, hsame.nextWire, hsame.nextTokenport⟩
  · obtain rfl := Option.some.inj h
    exact ⟨fun _ => rfl, fun _ => rfl, fun _ => rfl, rfl, rfl⟩

theorem tieOutput_step (hex : KeepsWiring ex) (h : W.Regular) (hg : W.gates g = some gt)
    (hbool : gt.gateClass = .bool → W.HasPort ⟨g, .output, type, subtype, index⟩)
    (hw : W.wires w = some wr) (ht : wr.type = type)
    (hfree : W.wiring.slot ⟨g, .output, type, subtype, index⟩ = none)
    (hcall : tieOutput ex type subtype g index w W = some (r, W')) :
    Step W W' ⟨g, .output, type, subtype, index⟩ (some w) r := by
  have htok := W.wiring_token_none (h.freshTokenport W.nextTokenport le_rfl)
  obtain ⟨ret, side, hwire, hgates, hports, hres⟩ :=
    h.write_slot (q := ⟨g, .output, type, subtype, index⟩) hg hbool (some w)
  simp only [tieOutput, hg, hwire, Option.bind_eq_bind, Option.bind_some,
    onSuccessfullWiring] at hcall
  set W₁ := W.setGate g (gt.setSide .output side)
  have hw₁ : W₁.wires w = some wr := hw
  rcases hres with ⟨hp, rfl, hwiring⟩ | ⟨hp, hr, hwiring⟩
  · -- the slot holds the wire, whose array now gets a new tokenport
    rw [if_neg (by simp), Option.bind_eq_some_iff] at hcall
    obtain ⟨W₂, hsucc, hcall⟩ := hcall
    obtain ⟨rfl, rfl⟩ : 0 = r ∧ W₂ = W' := by simpa using hcall
    have hsame := onSuccessfullOutputWiring_some hex hw₁ hsucc
    set W₃ := (W₁.allocTokenport (Tokenport.zeroed w g index)).setWire w
      (wr.setPorts .output (arrayNtAppendElement (wr.ports .output) (some W₁.nextTokenport)).2)
    have htie : W₃.wiring =
        W.wiring.tie ⟨g, .output, type, subtype, index⟩ w W.nextTokenport := by
      rw [World.wiring_setWire, World.wiring_allocTokenport, hwiring,
        Wiring.tie_eq (W.wiring_wire hw)]
      simp only [Wire.bare_setPorts, Wire.bare_ports]
      rfl
    have hregular : W₃.Regular := h.of_tie hw hgates rfl rfl htie
    refine ⟨hregular.of_sameWiring hsame, hports.trans hsame.samePorts, fun _ _ => rfl, ?_⟩
    rw [hsame.wiring_eq, htie]
    exact .tied rfl hp hfree (W.wiring_wire hw) ht htok
  · rw [if_pos hr] at hcall
    obtain ⟨rfl, rfl⟩ : ret = r ∧ _ = W' := by simpa using hcall
    refine ⟨⟨hgates, h.freshTokenport, h.freshWire, by rw [hwiring]; exact h.arrays⟩, hports,
      fun _ hp' => absurd hp' hp, ?_⟩
    rw [hwiring]
    exact .refused hr (by simp)

theorem removePort_cases {W₂ : World} {dir : Direction} {found : Bool} (hA : W.wiring.Arrays)
    (h : removePort W g index w dir = some (found, W₂)) : ∃ wr, W.wires w = some wr ∧
      (found = false ∧ W₂ = W ∧ (∀ p ∈ entries (wr.ports dir), ∃ tp,
          W.tokenports p = some tp ∧ ¬ tp.IsFor g index) ∨
        found = true ∧ ∃ i p tp, (entries (wr.ports dir))[i]? = some p ∧
          W.tokenports p = some tp ∧ tp.IsFor g index ∧
          W₂ = (W.setWire w
            (wr.setPorts dir (arrayNtPopElement (wr.ports dir) i).2)).freeTokenport p) := by
  simp only [removePort, Option.bind_eq_bind, Option.bind_eq_some_iff] at h
  obtain ⟨wr, hw, h⟩ := h
  refine ⟨wr, hw, ?_⟩
  have hnt : IsNt (wr.ports dir) (entries (wr.ports dir)) := by
    have := (hA.isNt_entries (W.wiring_wire hw) dir).1
    rwa [Wire.bare_ports] at this
  split at h
  · simp at h
  · next hnil =>
    -- the array starts with its terminator
    obtain ⟨rfl, rfl⟩ : false = found ∧ W = W₂ := by simpa using h
    have hempty : entries (wr.ports dir) = [] := by
      cases he : entries (wr.ports dir) with
      | nil => rfl
      | cons p l =>
        rw [he] at hnt
        obtain ⟨k, hk⟩ := hnt
        simp [hk] at hnil
    exact .inl ⟨rfl, rfl, by simp [hempty]⟩
  · rw [Option.bind_eq_some_iff] at h
    obtain ⟨res, hres, h⟩ := h
    cases res with
    | none =>
      obtain ⟨rfl, rfl⟩ : false = found ∧ W = W₂ := by simpa using h
      exact .inl ⟨rfl, rfl, findPort_none hres⟩
    | some i =>
      obtain ⟨p, tp, hp, htp, hfor⟩ := findPort_some hres
      have hlt := (List.getElem?_eq_some_iff.mp hp).1
      have hpop : (arrayNtPopElement (wr.ports dir) i).1 = some p := by
        rw [arrayNtPopElement, if_neg (Nat.not_le.mpr hlt), List.getD_eq_getElem?_getD, hp]
        rfl
      simp only [hpop, Option.bind_some] at h
      obtain ⟨rfl, rfl⟩ : true = found ∧ _ = W₂ := by simpa using h
      exact .inr ⟨rfl, i, p, tp, entries_getElem? hnt hp, htp, hfor, rfl⟩

theorem onSuccessfullWiring_none {dir : Direction} (hex : KeepsWiring ex)
    (h : onSuccessfullWiring ex dir type subtype none g index W = some W') :
    SameWiring W W' := by
  have hrefl : SameWiring W W := ⟨fun _ => rfl, fun _ => rfl, fun _ => rfl, rfl, rfl⟩
  cases dir with
  | input =>
    simp only [onSuccessfullWiring, onSuccessfullInputWiring, Option.bind_eq_bind,
      Option.bind_eq_some_iff] at h
    obtain ⟨gate, -, h⟩ := h
    split at h
    · exact hex _ _ _ h
    · obtain rfl := Option.some.inj h
      exact hrefl
  | output =>
    obtain rfl := Option.some.inj h
    exact hrefl

theorem unwirePort_step {dir : Direction} {c : Nat} (hex : KeepsWiring ex) (h : W.Regular)
    (hg : W.gates g = some gt) (hslot : W.wiring.slot ⟨g, dir, type, subtype, index⟩ = some c)
    (hcall : unwirePort ex dir type subtype g index c W = some (r, W')) :
    Step W W' ⟨g, dir, type, subtype, index⟩ none r := by
  -- a slot that holds something belongs to a port of the gate
  have hp : W.HasPort ⟨g, dir, type, subtype, index⟩ := by
    by_contra hno
    rw [World.hasPort_iff hg] at hno
    have := (h.gates g gt hg).boundAt_of_not_owned hno
    rw [← W.wiring_slot (q := ⟨g, dir, type, subtype, index⟩) hg] at this
    rw [this] at hslot
    cases hslot
  obtain ⟨ret, side, hwire, hgates, hports, hres⟩ :=
    h.write_slot (q := ⟨g, dir, type, subtype, index⟩) hg (fun _ => hp) none
  simp only [unwirePort, hg, hwire, Option.bind_eq_bind, Option.bind_some] at hcall
  set W₁ := W.setGate g (gt.setSide dir side)
  obtain ⟨-, -, hwiring⟩ | ⟨hno, -⟩ := hres
  swap
  · exact absurd hp hno
  have hA₁ : W₁.wiring.Arrays := by
    rw [hwiring]
    exact ⟨h.arrays.isNt, h.arrays.disjoint⟩
  rw [Option.bind_eq_some_iff] at hcall
  obtain ⟨w, hown, hcall⟩ := hcall
  have hown' : W.wiring.ownerOf dir c = some w := by
    cases dir with
    | input =>
      obtain ⟨tp, htp, rfl⟩ := Option.map_eq_some_iff.mp hown
      have htp' : W.tokenports c = some tp := htp
      simp [Wiring.ownerOf, W.wiring_token htp', Tokenport.bare]
    | output => exact hown
  rw [Option.bind_eq_some_iff] at hcall
  obtain ⟨⟨found, W₂⟩, hrem, hcall⟩ := hcall
  obtain ⟨wr, hw, hcases⟩ := removePort_cases hA₁ hrem
  have hw' : W.wiring.wire w = some wr.bare := W.wiring_wire hw
  rcases hcases with ⟨rfl, rfl, hno⟩ | ⟨rfl, i, p, tp, hi, htp, hfor, rfl⟩
  · obtain ⟨rfl, rfl⟩ : LxcErrno.notConnectedUnwiring.code = r ∧ W₁ = W' := by simpa using hcall
    refine ⟨⟨hgates, h.freshTokenport, h.freshWire, hA₁⟩, hports, fun hn => absurd rfl hn, ?_⟩
    rw [hwiring]
    refine .cleared rfl hslot hown' hw' ?_
    rw [Wire.bare_ports]
    intro p hp
    obtain ⟨tp, htp, hnot⟩ := hno p hp
    exact ⟨tp.bare, W.wiring_token htp, hnot⟩
  · simp only [if_true, Option.bind_eq_some_iff] at hcall
    obtain ⟨W₃, hsucc, hcall⟩ := hcall
    obtain ⟨rfl, rfl⟩ : 0 = r ∧ W₃ = W' := by simpa using hcall
    have hsame := onSuccessfullWiring_none hex hsucc
    set W₂ := (W₁.setWire w
      (wr.setPorts dir (arrayNtPopElement (wr.ports dir) i).2)).freeTokenport p
    have huntie : W₂.wiring = W.wiring.untie ⟨g, dir, type, subtype, index⟩ w p i := by
      rw [World.wiring_freeTokenport, World.wiring_setWire, hwiring]
      simp [Wiring.untie, hw']
    have hi' : (entries (wr.bare.ports dir))[i]? = some p := by
      rw [Wire.bare_ports]
      exact hi
    have hregular : W₂.Regular := by
      refine ⟨hgates, ?_, ?_, ?_⟩
      · intro p' hp'
        by_cases he : p' = p
        · subst he; exact Function.update_self ..
        · exact (Function.update_of_ne he _ _).trans (h.freshTokenport p' hp')
      · intro w' hw''
        have hne : w' ≠ w := by
          rintro rfl
          have := h.freshWire w' hw''
          rw [show W.wires w' = some wr from hw] at this
          cases this
        exact (Function.update_of_ne hne _ _).trans (h.freshWire w' hw'')
      · rw [huntie]
        exact h.arrays.untie hw' hi'
    refine ⟨hregular.of_sameWiring hsame, hports.trans hsame.samePorts, fun hn => absurd rfl hn, ?_⟩
    rw [hsame.wiring_eq, huntie]
    exact .untied rfl hp hslot hown' hw' hi' (W.wiring_token htp) hfor

/-- The signal a call is about: the one it names, else that of its wire. -/
def CallSignal (W : World) (signal : Option Signal) (wire : Option WireId) (type : Signal) :
    Prop :=
  signal = some type ∨ (signal = none ∧ ∃ w wr, wire = some w ∧ W.wires w = some wr ∧
    wr.type = type)

theorem wiringSignal_some {signal : Option Signal} {wire : Option WireId}
    (h : wiringSignal signal wire W = some (some type)) : CallSignal W signal wire type ∧
      ∀ w, wire = some w → ∃ wr, W.wires w = some wr ∧ wr.type = type := by
  cases signal with
  | none =>
    cases wire with
    | none => simp [wiringSignal] at h
    | some w =>
      simp only [wiringSignal, Option.bind_eq_bind, Option.bind_eq_some_iff] at h
      obtain ⟨wr, hw, h⟩ := h
      obtain rfl : wr.type = type := by simpa using h
      refine ⟨.inr ⟨rfl, w, wr, rfl, hw, rfl⟩, ?_⟩
      rintro w' hw'
      obtain rfl := Option.some.inj hw'
      exact ⟨wr, hw, rfl⟩
  | some s =>
    cases wire with
    | none =>
      obtain rfl : s = type := by simpa [wiringSignal] using h
      exact ⟨.inl rfl, by simp⟩
    | some w =>
      simp only [wiringSignal, Option.bind_eq_bind, Option.bind_eq_some_iff] at h
      obtain ⟨wr, hw, h⟩ := h
      by_cases hs : s = wr.type
      · rw [if_neg (by simpa using hs)] at h
        obtain rfl : s = type := by simpa using h
        refine ⟨.inl rfl, ?_⟩
        rintro w' hw'
        obtain rfl := Option.some.inj hw'
        exact ⟨wr, hw, hs.symm⟩
      · rw [if_pos hs] at h
        simp at h

/-- What a call checks of the gate before it reads the slot. -/
structure Gate.Checked (gt : Gate) (dir : Direction) (type : Signal) (subtype : Int)
    (i : Int) : Prop where
  count : ¬ (gt.getTypes dir).1 < -(lxcGateMaxIoTypeCount : Int)
  supported : ⟨type, subtype⟩ ∈ (gt.getTypes dir).2
  nonneg : 0 ≤ i
  inRange : ∃ max, gt.getMaxIndex dir type subtype = some max ∧ i ≤ max

/-- The port passes the checks, and the gate has it. -/
structure Gate.Accepts (gt : Gate) (dir : Direction) (type : Signal) (subtype : Int)
    (index : Nat) : Prop where
  checked : gt.Checked dir type subtype index
  port : gt.HasPort dir type subtype index

/-- Reading a port that passes the checks gives what the view has for its slot. -/
theorem World.Regular.getWire_checked (h : W.Regular) (hg : W.gates g = some gt)
    {dir : Direction} (hs : ⟨type, subtype⟩ ∈ (gt.getTypes dir).2) (index : Nat) :
    gt.getWire dir type subtype index = some (W.wiring.slot ⟨g, dir, type, subtype, index⟩) := by
  rw [(h.gates g gt hg).getWire_eq hs, W.wiring_slot (q := ⟨g, dir, type, subtype, index⟩) hg]

/-- The call ties a wire to output 1 of a bool gate. -/
def World.TiesSecondOutput (W : World) (dir : Direction) (subtype : Int) (wire : Option WireId)
    (g : GateId) (i : Int) : Prop :=
  dir = .output ∧ wire ≠ none ∧ i = 1 ∧ subtype = 0 ∧
    ∃ gt, W.gates g = some gt ∧ gt.gateClass = .bool

theorem World.Sound.not_tiesSecondOutput (h : W.Sound) {dir : Direction} {wire : Option WireId}
    {i : Int} : ¬ W.TiesSecondOutput dir subtype wire g i := by
  rintro ⟨-, -, -, -, gt, hg, hc⟩
  exact (h.gates g gt hg).not_bool hc

/-- But for output 1, what passes the checks of a bool gate is one of its ports. -/
theorem World.Regular.hasPort_of_checked {dir : Direction} {wire : Option WireId} {i : Int}
    (hg : W.gates g = some gt) (hck : gt.Checked dir type subtype i) (hwire : wire ≠ none)
    (hok : ¬ W.TiesSecondOutput dir subtype wire g i) (hc : gt.gateClass = .bool) :
    W.HasPort ⟨g, dir, type, subtype, i.toNat⟩ := by
  rw [World.hasPort_iff hg, Gate.owns_of_bool hc]
  obtain ⟨rfl, rfl⟩ : type = .bool ∧ subtype = 0 := by
    simpa [Gate.getTypes, hc] using hck.supported
  obtain ⟨max, hmax, hle⟩ := hck.inRange
  have hnonneg := hck.nonneg
  refine ⟨rfl, rfl, ?_⟩
  cases dir with
  | input =>
    obtain rfl : 20 = max := by simpa [Gate.getMaxIndex, hc, returnConst] using hmax
    show i.toNat ≤ 20
    omega
  | output =>
    obtain rfl : 1 = max := by simpa [Gate.getMaxIndex, hc, returnConst] using hmax
    have hne : i ≠ 1 := fun hi => hok ⟨rfl, hwire, hi, rfl, gt, hg, hc⟩
    show i.toNat ≤ 0
    omega

/-- A wiring call that is refused before it touches anything, or is past its checks. -/
theorem privateGenericWiring_cases {dir : Direction} {signal : Option Signal}
    {wire : Option WireId} {i : Int}
    (hcall : privateGenericWiring ex dir signal subtype wire g i W = some (r, W')) :
    (r ≠ 0 ∧ r ≠ LxcErrno.notConnectedUnwiring.code ∧ W' = W) ∨
      ∃ type gt wired, wiringSignal signal wire W = some (some type) ∧ W.gates g = some gt ∧
      gt.Checked dir type subtype i ∧ gt.getWire dir type subtype i.toNat = some wired ∧
      ((∃ c, wire = none ∧ wired = some c ∧
          unwirePort ex dir type subtype g i.toNat c W = some (r, W')) ∨
        ∃ w, wire = some w ∧ wired = none ∧
          (match dir with
            | .input => tieInput ex type subtype g i.toNat w W
            | .output => tieOutput ex type subtype g i.toNat w W) = some (r, W')) := by
  simp only [privateGenericWiring, Option.bind_eq_bind, Option.bind_eq_some_iff] at hcall
  obtain ⟨sig, hsig, hcall⟩ := hcall
  have hrefuse : ∀ {e : LxcErrno}, e.code ≠ 0 ∧ e.code ≠ LxcErrno.notConnectedUnwiring.code →
      (pure (e.code, W) : Option (Int × World)) = some (r, W') →
        r ≠ 0 ∧ r ≠ LxcErrno.notConnectedUnwiring.code ∧ W' = W := by
    intro e he hr
    obtain ⟨rfl, rfl⟩ : e.code = r ∧ W = W' := by simpa using hr
    exact ⟨he.1, he.2, rfl⟩
  cases sig with
  | none => exact .inl (hrefuse (by decide) hcall)
  | some type =>
    simp only [Option.bind_eq_some_iff] at hcall
    obtain ⟨gt, hg, hcall⟩ := hcall
    split at hcall
    · exact .inl (hrefuse (by decide) hcall)
    next hcount =>
    split at hcall
    · exact .inl (hrefuse (by decide) hcall)
    next hsupp =>
    rw [Option.bind_eq_some_iff] at hcall
    obtain ⟨maxIndex, hmax, hcall⟩ := hcall
    split at hcall
    · exact .inl (hrefuse (by decide) hcall)
    next hrange =>
    have hchecked : gt.Checked dir type subtype i :=
      ⟨hcount, not_not.mp hsupp, by omega, maxIndex, hmax, by omega⟩
    rw [Option.bind_eq_some_iff] at hcall
    obtain ⟨wired, hwired, hcall⟩ := hcall
    cases wire with
    | none =>
      cases wired with
      | none => exact .inl (hrefuse (by decide) hcall)
      | some c => exact .inr ⟨type, gt, _, hsig, hg, hchecked, hwired, .inl ⟨c, rfl, rfl, hcall⟩⟩
    | some w =>
      cases wired with
      | some c => exact .inl (hrefuse (by decide) hcall)
      | none =>
        refine .inr ⟨type, gt, _, hsig, hg, hchecked, hwired, .inr ⟨w, rfl, rfl, ?_⟩⟩
        cases dir <;> exact hcall

/-- Every wiring call: it is refused before it touches anything, or it is a step for the port of
    its signal, subtype and index. -/
theorem privateGenericWiring_step {dir : Direction} {signal : Option Signal}
    {wire : Option WireId} {i : Int} (hex : KeepsWiring ex) (h : W.Regular)
    (hok : ¬ W.TiesSecondOutput dir subtype wire g i)
    (hcall : privateGenericWiring ex dir signal subtype wire g i W = some (r, W')) :
    (r ≠ 0 ∧ r ≠ LxcErrno.notConnectedUnwiring.code ∧ W' = W) ∨
      ∃ type gt, CallSignal W signal wire type ∧
      (∀ w, wire = some w → ∃ wr, W.wires w = some wr ∧ wr.type = type) ∧
      W.gates g = some gt ∧ gt.Checked dir type subtype i ∧
      Step W W' ⟨g, dir, type, subtype, i.toNat⟩ wire r := by
  rcases privateGenericWiring_cases hcall with hrefused | ⟨type, gt, wired, hsig, hg, hchecked,
    hwired, hcases⟩
  · exact .inl hrefused
  obtain ⟨hsigs, hwires⟩ := wiringSignal_some hsig
  have hslot : W.wiring.slot ⟨g, dir, type, subtype, i.toNat⟩ = wired :=
    Option.some.inj ((h.getWire_checked hg hchecked.supported _).symm.trans hwired)
  refine .inr ⟨type, gt, hsigs, hwires, hg, hchecked, ?_⟩
  rcases hcases with ⟨c, rfl, rfl, hunwire⟩ | ⟨w, rfl, rfl, htie⟩
  · exact unwirePort_step hex h hg hslot hunwire
  · obtain ⟨wr, hw, ht⟩ := hwires w rfl
    have hbool := World.Regular.hasPort_of_checked hg hchecked (by simp) hok
    cases dir with
    | input => exact tieInput_step h hg hbool hw ht hslot htie
    | output => exact tieOutput_step hex h hg hbool hw ht hslot htie

/-- A wire of the right type at a free port that passes the checks is tied. -/
theorem privateGenericWiring_of_free {dir : Direction} (hg : W.gates g = some gt)
    (hck : gt.Checked dir type subtype index) (hw : W.wires w = some wr) (ht : wr.type = type)
    (hget : gt.getWire dir type subtype index = some none) :
    privateGenericWiring ex dir (some type) subtype (some w) g index W =
      match dir with
      | .input => tieInput ex type subtype g index w W
      | .output => tieOutput ex type subtype g index w W := by
  obtain ⟨max, hmax, hle⟩ := hck.inRange
  have hsig : wiringSignal (some type) (some w) W = some (some type) := by
    simp [wiringSignal, hw, ht]
  have hrange : ¬ ((index : Int) < 0 ∨ max < index) := by omega
  simp only [privateGenericWiring, hsig, hg, Option.bind_eq_bind, Option.bind_some,
    if_neg hck.count, if_neg (not_not.mpr hck.supported), hmax, if_neg hrange, Int.toNat_natCast,
    hget]
  cases dir <;> rfl

/-- Nothing refuses a wire of the right type at a free port that is accepted. -/
theorem privateGenericWiring_tie {dir : Direction} (hex : KeepsWiring ex) (h : W.Sound)
    (hg : W.gates g = some gt) (hacc : gt.Accepts dir type subtype index)
    (hw : W.wires w = some wr) (ht : wr.type = type)
    (hfree : W.wiring.slot ⟨g, dir, type, subtype, index⟩ = none)
    (hcall : privateGenericWiring ex dir (some type) subtype (some w) g index W =
      some (r, W')) :
    r = 0 ∧ W'.Sound ∧ SamePorts W W' ∧ ∃ p, W.wiring.token p = none ∧
      W'.wiring = W.wiring.tie ⟨g, dir, type, subtype, index⟩ w p := by
  have hget : gt.getWire dir type subtype index = some none := by
    rw [← hfree]
    exact h.getWire_eq (q := ⟨g, dir, type, subtype, index⟩) hg
  have hport : W.HasPort ⟨g, dir, type, subtype, index⟩ :=
    (h.hasPort_iff (q := ⟨g, dir, type, subtype, index⟩) hg).mpr hacc.port
  have hstep : Step W W' ⟨g, dir, type, subtype, index⟩ (some w) r := by
    rw [privateGenericWiring_of_free hg hacc.checked hw ht hget] at hcall
    cases dir with
    | input => exact tieInput_step h.regular hg (fun _ => hport) hw ht hfree hcall
    | output => exact tieOutput_step hex h.regular hg (fun _ => hport) hw ht hfree hcall
  have hr := hstep.accepted (by simp) hport
  subst hr
  refine ⟨rfl, hstep.sound h, hstep.ports, ?_⟩
  have ho := hstep.outcome
  generalize W'.wiring = v' at ho
  cases ho with
  | refused hr => exact absurd rfl hr
  | tied hwire hport hfree' hw' ht' hp =>
    obtain rfl := Option.some.inj hwire
    exact ⟨_, hp, rfl⟩
  | untied hwire => cases hwire

end Calls

end LogxControll
