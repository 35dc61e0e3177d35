/-
  `lxc_circuit_destroy`: the ports of all gates are released, then the gates are freed, then the
  wires.

  Gates and wires of other circuits stay. `circuit_destroy_iff` is about what still points to the
  freed memory then: the tokenports of input 20 of the bool gates, which are not released, and
  those of wires that lead out of the circuit.
-/
import LogxControll.Core.CircuitMaps
import LogxControll.Wiring.Release

namespace LogxControll

/-- What was freed cannot be freed again. -/
def iterateDestroyGate (W : World) (g : GateId) : Option World := do
  let _ ← W.gates g
  return { W with gates := Function.update W.gates g none }

/-- `iterate_wire_destroy`; a wire that is gone cannot be destroyed again. -/
def iterateWireDestroy (W : World) (w : WireId) : Option World := do
  let _ ← W.wires w
  return lxcWireDestroy w W

/-- The functions that are called for every gate and every wire return 0. -/
def HashedCircuit.lxcCircuitDestroy (ex : ExecCall → World → Option World) (circ : HashedCircuit)
    (W : World) : Option World :=
  let released := (hashmapIterate circ.gates
    (fun g (W : Option World) => (0, W.bind fun W => iterateReleaseAllPort ex W g)) (some W)).2
  let destroyed := (hashmapIterate circ.gates
    (fun g (W : Option World) => (0, W.bind fun W => iterateDestroyGate W g)) released).2
  (hashmapIterate circ.wires
    (fun w (W : Option World) => (0, W.bind fun W => iterateWireDestroy W w)) destroyed).2

/-- What points to a gate, a wire or a tokenport points to one that was not freed. -/
structure World.NoDangling (W : World) : Prop where
  slot : ∀ q c, W.wiring.slot q = some c →
    match q.dir with
    | .input => (W.tokenports c).isSome
    | .output => (W.wires c).isSome
  entry : ∀ w wire dir, W.wires w = some wire →
    ∀ p ∈ entries (wire.ports dir), (W.tokenports p).isSome
  tokenport : ∀ p tp, W.tokenports p = some tp →
    (W.gates tp.gate).isSome ∧ (W.wires tp.owner).isSome

/-! ## The release takes only tokenports away -/

section Sheds

variable {ex : ExecCall → World → Option World} {W W₁ W' : World} {g : GateId} {dir : Direction}

/-- Ports have been released. -/
structure Sheds (W W' : World) : Prop where
  wired : W'.Wired
  wires : ∀ w, (W'.wires w).isSome ↔ (W.wires w).isSome
  tokens : ∀ p tp, W'.wiring.token p = some tp → W.wiring.token p = some tp

theorem World.Wired.sheds (h : W.Wired) : Sheds W W := ⟨h, fun _ => Iff.rfl, fun _ _ => id⟩

theorem Sheds.trans (h : Sheds W W₁) (h' : Sheds W₁ W') : Sheds W W' where
  wired := h'.wired
  wires := fun w => (h'.wires w).trans (h.wires w)
  tokens := fun p tp htp => h.tokens p tp (h'.tokens p tp htp)

theorem World.isSome_wiring_wire (W : World) (w : WireId) :
    (W.wiring.wire w).isSome ↔ (W.wires w).isSome := by
  show ((W.wires w).map Wire.bare).isSome ↔ _
  rw [Option.isSome_map]

theorem unwire_sheds (hex : KeepsWiring ex) (h : W.Wired) {sig : Signal} {sub : Int} {m : Nat}
    {r : Int} (hcall : lxcWireGate ex dir (some sig) sub none g m W = some (r, W')) :
    Sheds W W' := by
  obtain ⟨B, hL⟩ := h.ledger
  have hok : ¬ W.TiesSecondOutput dir sub none g (intOfUint m) := fun hties => hties.2.1 rfl
  have hresult := WiringCall.step_ledger hex h.regular hL ⟨dir, some sig, sub, none, g, m⟩ hok
    (fun w type hw => by cases hw) hcall
  have hcall' : privateGenericWiring ex dir (some sig) sub none g (intOfUint m) W =
      some (r, W') := by
    cases dir <;> exact hcall
  have hwired : W'.Wired := ⟨hresult.regular, hresult.ledger⟩
  rcases privateGenericWiring_step hex h.regular hok hcall' with
    ⟨-, -, rfl⟩ | ⟨type, gt, -, -, -, -, hstep⟩
  · exact hwired.sheds
  · obtain ⟨-, ⟨w, p, i, hv⟩, -⟩ := hstep.outcome.unbind hL
    refine ⟨hwired, fun w' => ?_, fun p' tp htp => ?_⟩
    · rw [← W'.isSome_wiring_wire, ← W.isSome_wiring_wire, hv]
      show (Function.update W.wiring.wire w _ w').isSome ↔ _
      by_cases he : w' = w
      · rw [he, Function.update_self, Option.isSome_map]
      · rw [Function.update_of_ne he]
    · rw [hv] at htp
      have htp' : Function.update W.wiring.token p none p' = some tp := htp
      by_cases he : p' = p
      · rw [he, Function.update_self] at htp'
        cases htp'
      · rwa [Function.update_of_ne he] at htp'

theorem releaseIndices_sheds (hex : KeepsWiring ex) {sig : Signal} {sub : Int} (n : Nat) :
    ∀ {m : Nat} {W : World}, W.Wired →
      releaseIndices ex g dir sig sub n m W = some W' → Sheds W W' := by
  induction n with
  | zero =>
    intro m W h hres
    obtain rfl := Option.some.inj hres
    exact h.sheds
  | succ n ih =>
    intro m W h hres
    obtain ⟨gate, -, hres⟩ := Option.bind_eq_some_iff.mp hres
    obtain ⟨c, -, hres⟩ := Option.bind_eq_some_iff.mp hres
    cases c with
    | none => exact ih h hres
    | some c =>
      obtain ⟨⟨r, W₁⟩, hcall, hres⟩ := Option.bind_eq_some_iff.mp hres
      have h₁ := unwire_sheds hex h hcall
      exact h₁.trans (ih h₁.wired hres)

theorem releaseTypes_sheds (hex : KeepsWiring ex) (types : List FullSignalType) :
    ∀ {W : World}, W.Wired → releaseTypes ex g dir types W = some W' → Sheds W W' := by
  induction types with
  | nil =>
    intro W h hres
    obtain rfl := Option.some.inj hres
    exact h.sheds
  | cons t types ih =>
    intro W h hres
    obtain ⟨gate, -, hres⟩ := Option.bind_eq_some_iff.mp hres
    obtain ⟨max, -, hres⟩ := Option.bind_eq_some_iff.mp hres
    obtain ⟨W₁, hindices, hres⟩ := Option.bind_eq_some_iff.mp hres
    have h₁ := releaseIndices_sheds hex _ h hindices
    exact h₁.trans (ih h₁.wired hres)

theorem releasePortGeneric_sheds (hex : KeepsWiring ex) (h : W.Wired)
    (hres : releasePortGeneric ex g dir W = some W') : Sheds W W' := by
  obtain ⟨gate, -, hres⟩ := Option.bind_eq_some_iff.mp hres
  exact releaseTypes_sheds hex _ h hres

theorem releaseAllPorts_sheds (hex : KeepsWiring ex) (gates : List GateId) :
    ∀ {W : World}, W.Wired → releaseAllPorts ex gates W = some W' → Sheds W W' := by
  induction gates with
  | nil =>
    intro W h hres
    obtain rfl := Option.some.inj hres
    exact h.sheds
  | cons g gates ih =>
    intro W h hres
    rw [releaseAllPorts, List.foldlM_cons] at hres
    obtain ⟨W₂, hgate, hres⟩ := Option.bind_eq_some_iff.mp hres
    obtain ⟨W₁, hin, hout⟩ := Option.bind_eq_some_iff.mp hgate
    have h₁ := releasePortGeneric_sheds hex h hin
    have h₂ := h₁.trans (releasePortGeneric_sheds hex h₁.wired hout)
    exact h₂.trans (ih h₂.wired hres)

end Sheds

/-! ## Freeing -/

section Freeing

/-- What is left after the objects at the addresses were freed. -/
def freed {α : Type} (objects : Nat → Option α) (l : List Nat) (i : Nat) : Option α :=
  if i ∈ l then none else objects i

theorem freed_nil {α : Type} (objects : Nat → Option α) : freed objects [] = objects := by
  funext i
  exact if_neg List.not_mem_nil

theorem freed_update {α : Type} (objects : Nat → Option α) (i : Nat) (l : List Nat) :
    freed (Function.update objects i none) l = freed objects (i :: l) := by
  funext j
  unfold freed
  by_cases hj : j ∈ l
  · rw [if_pos hj, if_pos (List.mem_cons_of_mem _ hj)]
  · rw [if_neg hj]
    by_cases he : j = i
    · rw [he, Function.update_self, if_pos List.mem_cons_self]
    · rw [Function.update_of_ne he, if_neg fun hmem => (List.mem_cons.mp hmem).elim he hj]

theorem isSome_freed {α : Type} {objects : Nat → Option α} {l : List Nat} {i : Nat} :
    (freed objects l i).isSome ↔ (objects i).isSome ∧ i ∉ l := by
  unfold freed
  split
  · next h => exact iff_of_false Bool.false_ne_true fun hi => hi.2 h
  · next h => exact (and_iff_left h).symm

theorem freed_of_isSome {α : Type} {objects : Nat → Option α} {l : List Nat} {i : Nat} {x : α}
    (h : freed objects l i = some x) : objects i = some x ∧ i ∉ l := by
  unfold freed at h
  split at h
  · cases h
  · next hi => exact ⟨h, hi⟩

/-- Objects that are there, each once in the list, can be freed. -/
theorem foldlM_iterateDestroyGate (gates : List GateId) : ∀ {W : World}, gates.Nodup →
    (∀ g ∈ gates, (W.gates g).isSome) →
      gates.foldlM iterateDestroyGate W = some { W with gates := freed W.gates gates } := by
  induction gates with
  | nil =>
    intro W _ _
    rw [freed_nil]
    rfl
  | cons g gates ih =>
    intro W hnodup hlive
    obtain ⟨hg, hnodup⟩ := List.nodup_cons.mp hnodup
    obtain ⟨gate, hgate⟩ := Option.isSome_iff_exists.mp (hlive g List.mem_cons_self)
    have hstep : iterateDestroyGate W g = some { W with gates := Function.update W.gates g none } := by
      rw [iterateDestroyGate, hgate]
      rfl
    rw [List.foldlM_cons, hstep, Option.bind_eq_bind, Option.bind_some, ih hnodup, freed_update]
    intro g' hg'
    have hne : g' ≠ g := fun he => hg (he ▸ hg')
    show (Function.update W.gates g none g').isSome
    rw [Function.update_of_ne hne]
    exact hlive g' (List.mem_cons_of_mem _ hg')

theorem foldlM_iterateWireDestroy (wires : List WireId) : ∀ {W : World}, wires.Nodup →
    (∀ w ∈ wires, (W.wires w).isSome) →
      wires.foldlM iterateWireDestroy W = some { W with wires := freed W.wires wires } := by
  induction wires with
  | nil =>
    intro W _ _
    rw [freed_nil]
    rfl
  | cons w wires ih =>
    intro W hnodup hlive
    obtain ⟨hw, hnodup⟩ := List.nodup_cons.mp hnodup
    obtain ⟨wire, hwire⟩ := Option.isSome_iff_exists.mp (hlive w List.mem_cons_self)
    have hstep : iterateWireDestroy W w = some { W with wires := Function.update W.wires w none } := by
      rw [iterateWireDestroy, hwire]
      rfl
    rw [List.foldlM_cons, hstep, Option.bind_eq_bind, Option.bind_some, ih hnodup, freed_update]
    intro w' hw'
    have hne : w' ≠ w := fun he => hw (he ▸ hw')
    show (Function.update W.wires w none w').isSome
    rw [Function.update_of_ne hne]
    exact hlive w' (List.mem_cons_of_mem _ hw')

end Freeing

/-! ## What is left -/

/-- After the destruction of gates and wires: their ports were released, and they were freed. -/
def Destroyed (gates : List GateId) (wires : List WireId) (W W' : World) : Prop :=
  ∃ W₁, Frees (fun q => q.gate ∈ gates ∧ W.Visits q) W W₁ ∧ Sheds W W₁ ∧
    W' = { W₁ with gates := freed W₁.gates gates, wires := freed W₁.wires wires }

section Left

variable {ex : ExecCall → World → Option World} {W W' : World} {gates : List GateId}
  {wires : List WireId}

theorem HashedCircuit.lxcCircuitDestroy_eq (hex : KeepsWiring ex) (hreturns : Returns ex)
    {circ : HashedCircuit} (hc : circ.Counted)
    (hgates : (circ.gates.entries.map Prod.snd).Nodup)
    (hwires : (circ.wires.entries.map Prod.snd).Nodup) (h : W.Wired)
    (hfits : ∀ g gt, W.gates g = some gt → gt.Fits)
    (hlive : ∀ g ∈ circ.gates.entries.map Prod.snd, (W.gates g).isSome)
    (hlive' : ∀ w ∈ circ.wires.entries.map Prod.snd, (W.wires w).isSome) :
    ∃ W', circ.lxcCircuitDestroy ex W = some W' ∧
      Destroyed (circ.gates.entries.map Prod.snd) (circ.wires.entries.map Prod.snd) W W' := by
  generalize hgs : circ.gates.entries.map Prod.snd = gates at *
  generalize hws : circ.wires.entries.map Prod.snd = wires at *
  have hrelease := releaseAllPorts_frees hex gates h hfits fun g hg =>
    Option.isSome_iff_exists.mp (hlive g hg)
  obtain ⟨W₁, hres⟩ := hrelease.returns hreturns
  have hfrees := hrelease.sound W₁ hres
  have hsheds := releaseAllPorts_sheds hex gates h hres
  have hgates₁ : ∀ g ∈ gates, (W₁.gates g).isSome := by
    intro g hg
    obtain ⟨gt, hgt⟩ := Option.isSome_iff_exists.mp (hlive g hg)
    obtain ⟨gt₁, hgt₁, -⟩ := hfrees.ports.gate hgt
    exact Option.isSome_iff_exists.mpr ⟨gt₁, hgt₁⟩
  refine ⟨_, ?_, ⟨W₁, hfrees, hsheds, rfl⟩⟩
  unfold lxcCircuitDestroy
  dsimp only
  rw [hashmapIterate_visit hc.gates, hashmapIterate_visit hc.gates, hashmapIterate_visit hc.wires,
    visit_foldlM, visit_foldlM, visit_foldlM, hgs, hws, Option.bind_some]
  have hall : gates.foldlM (iterateReleaseAllPort ex) W = some W₁ := hres
  rw [hall, Option.bind_some, foldlM_iterateDestroyGate gates hgates hgates₁, Option.bind_some]
  exact foldlM_iterateWireDestroy wires hwires fun w hw => (hsheds.wires w).mpr (hlive' w hw)

/-- A tokenport lists a port of its gate, which is bound to its wire. -/
theorem World.Wired.port_of_tokenport (h : W.Wired) {p : TokenportId} {tp : Tokenport}
    (htp : W.tokenports p = some tp) : ∃ q : Port, q.gate = tp.gate ∧ q.index = tp.index ∧
      W.wiring.slot q = some (Wiring.content q.dir tp.owner p) ∧ (W.wires tp.owner).isSome := by
  obtain ⟨B, hL⟩ := h.ledger
  obtain ⟨q, w, hB⟩ := hL.live p _ (W.wiring_token htp)
  have htok : tp.bare = Wiring.tokenOf q w :=
    Option.some.inj ((W.wiring_token htp).symm.trans (hL.token q w p hB))
  refine ⟨q, (congrArg Tokenport.gate htok).symm, (congrArg Tokenport.index htok).symm, ?_⟩
  rw [show tp.owner = w from congrArg Tokenport.owner htok]
  refine ⟨(hL.slot q _).mpr ⟨w, p, hB, rfl⟩, ?_⟩
  rw [← W.isSome_wiring_wire, Option.isSome_iff_exists]
  exact hL.wire q w p hB

/-- What a slot holds is listed by a tokenport. -/
theorem World.Wired.tokenport_of_slot (h : W.Wired) {q : Port} {c : Nat}
    (hslot : W.wiring.slot q = some c) : ∃ p tp, W.tokenports p = some tp ∧ tp.gate = q.gate ∧
      c = Wiring.content q.dir tp.owner p := by
  obtain ⟨B, hL⟩ := h.ledger
  obtain ⟨w, p, hB, rfl⟩ := (hL.slot q c).mp hslot
  obtain ⟨tp, htp, hbare⟩ := Option.map_eq_some_iff.mp (hL.token q w p hB)
  have howner : tp.owner = w := congrArg Tokenport.owner hbare
  exact ⟨p, tp, htp, congrArg Tokenport.gate hbare, howner ▸ rfl⟩

theorem Gate.Visits.index_lt_of_bool {gt : Gate} {dir : Direction} {type : Signal} {subtype : Int}
    {index : Nat} (h : gt.Visits dir type subtype index) (hc : gt.gateClass = .bool) :
    index < 20 := by
  obtain ⟨-, max, hmax, hlt⟩ := h
  have hle : max ≤ 20 := by
    cases dir <;> simp only [Gate.getMaxIndex, hc, Option.some.injEq] at hmax <;> subst hmax <;>
      unfold returnConst <;> split <;> omega
  omega

/-- The tokenports of these gates are not those of input 20 of a bool gate, and these wires lead to
    no other gates. -/
def Encloses (gates : GateId → Prop) (wires : WireId → Prop) (W : World) : Prop :=
  ∀ p tp, W.tokenports p = some tp →
    (gates tp.gate ∧ ∀ gt, W.gates tp.gate = some gt → gt.gateClass = .bool → tp.index ≠ 20) ∨
    (¬ gates tp.gate ∧ ¬ wires tp.owner)

/-- The tokenports that are left are those of objects that are left. -/
theorem Encloses.outside {W₁ : World} (henc : Encloses (· ∈ gates) (· ∈ wires) W)
    (hfits : ∀ g gt, W.gates g = some gt → gt.Fits)
    (hfrees : Frees (fun q => q.gate ∈ gates ∧ W.Visits q) W W₁) (hsheds : Sheds W W₁)
    {p : TokenportId} {tp : Tokenport} (htp : W₁.tokenports p = some tp) :
    ((W₁.gates tp.gate).isSome ∧ tp.gate ∉ gates) ∧
      (W₁.wires tp.owner).isSome ∧ tp.owner ∉ wires := by
  obtain ⟨q, hgate, hindex, hslot, hwire₁⟩ := hsheds.wired.port_of_tokenport htp
  have hnot : ¬ (q.gate ∈ gates ∧ W.Visits q) := fun hS => by
    rw [hfrees.freed q hS] at hslot
    cases hslot
  have hthere : (W₁.gates tp.gate).isSome := by
    obtain ⟨gt, hgt, -⟩ := Option.bind_eq_some_iff.mp hslot
    rw [← hgate, hgt]
    rfl
  obtain ⟨tp₀, htp₀, hbare⟩ :=
    Option.map_eq_some_iff.mp (hsheds.tokens p _ (W₁.wiring_token htp))
  have hgate₀ : tp₀.gate = tp.gate := (congrArg Tokenport.gate hbare :)
  have hindex₀ : tp₀.index = tp.index := (congrArg Tokenport.index hbare :)
  have howner₀ : tp₀.owner = tp.owner := (congrArg Tokenport.owner hbare :)
  rcases henc p tp₀ htp₀ with ⟨hmem, hlast⟩ | ⟨hout, hwire⟩
  · -- a port of the circuit that the release does not come to
    rw [hfrees.kept q hnot] at hslot
    obtain ⟨gt, hgt, hbound⟩ := Option.bind_eq_some_iff.mp hslot
    have howns : gt.Owns q.dir q.type q.subtype q.index := by
      by_contra hno
      rw [(hfits q.gate gt hgt).regular.boundAt_of_not_owned hno] at hbound
      cases hbound
    have hmem' : q.gate ∈ gates := by rwa [hgate, ← hgate₀]
    rcases (hfits q.gate gt hgt).visits_of_owns howns with hv | ⟨hc, -, h20⟩
    · exact absurd ⟨hmem', gt, hgt, hv⟩ hnot
    · refine absurd ?_ (hlast gt (by rw [hgate₀, ← hgate]; exact hgt) hc)
      rw [hindex₀, ← hindex, h20]
  · exact ⟨⟨hthere, hgate₀ ▸ hout⟩, hwire₁, howner₀ ▸ hwire⟩

theorem Destroyed.noDangling_iff (hd : Destroyed gates wires W W') (h : W.Wired)
    (hfits : ∀ g gt, W.gates g = some gt → gt.Fits) :
    W'.NoDangling ↔ Encloses (· ∈ gates) (· ∈ wires) W := by
  obtain ⟨W₁, hfrees, hsheds, rfl⟩ := hd
  constructor
  · intro hnone p tp htp
    obtain ⟨q, hgate, hindex, hslot, -⟩ := h.port_of_tokenport htp
    by_cases hS : q.gate ∈ gates ∧ W.Visits q
    · refine .inl ⟨hgate ▸ hS.1, fun gt hgt hc h20 => ?_⟩
      obtain ⟨gt', hgt', hv⟩ := hS.2
      obtain rfl : gt = gt' := Option.some.inj (hgt.symm.trans (hgate ▸ hgt'))
      have hlt := hv.index_lt_of_bool hc
      omega
    · rw [← hfrees.kept q hS] at hslot
      obtain ⟨p₁, tp₁, htp₁, hgate₁, hcontent⟩ := hsheds.wired.tokenport_of_slot hslot
      have howner : tp₁.owner = tp.owner := by
        cases hdir : q.dir with
        | output =>
          rw [hdir] at hcontent
          exact hcontent.symm
        | input =>
          rw [hdir] at hcontent
          obtain rfl : p = p₁ := hcontent
          have hsame := hsheds.tokens p _ (W₁.wiring_token htp₁)
          rw [W.wiring_token htp, Option.some.injEq] at hsame
          exact (congrArg Tokenport.owner hsame).symm
      obtain ⟨hg, hw⟩ := hnone.tokenport p₁ tp₁ htp₁
      rw [hgate₁, hgate] at hg
      rw [howner] at hw
      exact .inr ⟨(isSome_freed.mp hg).2, (isSome_freed.mp hw).2⟩
  · intro henc
    refine ⟨fun q c hslot => ?_, fun w wire dir hw p hp => ?_, fun p tp htp => ?_⟩
    · obtain ⟨gt, hgt, hbound⟩ := Option.bind_eq_some_iff.mp hslot
      have hslot₁ : W₁.wiring.slot q = some c :=
        Option.bind_eq_some_iff.mpr ⟨gt, (freed_of_isSome hgt).1, hbound⟩
      obtain ⟨p, tp, htp, -, rfl⟩ := hsheds.wired.tokenport_of_slot hslot₁
      cases q.dir with
      | input =>
        show (W₁.tokenports p).isSome
        rw [htp]
        rfl
      | output => exact isSome_freed.mpr (henc.outside hfits hfrees hsheds htp).2
    · have hw₁ := (freed_of_isSome hw).1
      have hp' : p ∈ entries (wire.bare.ports dir) := by rwa [Wire.bare_ports]
      have htoken := (hsheds.wired.regular.arrays.isNt_entries (W₁.wiring_wire hw₁) dir).2.2 p hp'
      have htoken' : ((W₁.tokenports p).map Tokenport.bare).isSome := htoken
      rwa [Option.isSome_map] at htoken'
    · obtain ⟨hg, hw⟩ := henc.outside hfits hfrees hsheds htp
      exact ⟨isSome_freed.mpr hg, isSome_freed.mpr hw⟩

end Left

/-! ## The circuits that can be reached -/

/-- The gate is found under some name. -/
def HashedCircuit.HasGate (circ : HashedCircuit) (g : GateId) : Prop :=
  ∃ name, circ.lxcCircuitGetGateByRefdes name = some g

/-- The wire is found under some name. -/
def HashedCircuit.HasWire (circ : HashedCircuit) (w : WireId) : Prop :=
  ∃ name, circ.lxcCircuitGetWireByRefdes name = some w

/-- The destruction of a circuit follows no pointer to freed memory. It frees the gates and the
    wires of the circuit, each once, and nothing that is left points to one of them exactly when
    none of its bool gates has its input 20 tied and none of its wires leads to another gate. -/
theorem circuit_destroy_iff (limit : Fin (2 ^ 31)) {H : HashedDesignators}
    (hcirc : H.circ = HashedCircuit.lxcCircuitCreate)
    (hfresh : ∀ w, H.memory.nextWire ≤ w → H.memory.wires w = none) {ops : List Designators.Op}
    (hops : Run.Meets (HashedDesignators.step limit) (HashedDesignators.Allowed limit) H ops)
    {H' : HashedDesignators} (hrun : Run.run (HashedDesignators.step limit) H ops = some H')
    {ex : ExecCall → World → Option World} (hex : KeepsWiring ex) (hreturns : Returns ex)
    {W₀ W : World} (hW₀ : W₀.Untied) (hfits : ∀ g gt, W₀.gates g = some gt → gt.Fits)
    {calls : List WiringCall}
    (hplain : Run.Meets (WiringCall.succeed ex) (fun W c => c.Plain W) W₀ calls)
    (hcalls : Run.run (WiringCall.succeed ex) W₀ calls = some W)
    (hgates : ∀ g, H'.circ.HasGate g → (W.gates g).isSome)
    (hwires : ∀ w, H'.circ.HasWire w → (W.wires w).isSome) :
    ∃ W', H'.circ.lxcCircuitDestroy ex W = some W' ∧
      (∀ g, (W'.gates g).isSome ↔ (W.gates g).isSome ∧ ¬ H'.circ.HasGate g) ∧
      (∀ w, (W'.wires w).isSome ↔ (W.wires w).isSome ∧ ¬ H'.circ.HasWire w) ∧
      (W'.NoDangling ↔ Encloses H'.circ.HasGate H'.circ.HasWire W) := by
  have hkept := HashedDesignators.run_kept (HashedDesignators.created_kept hcirc hfresh) hops hrun
  have hmem : ∀ g, g ∈ H'.circ.gates.entries.map Prod.snd ↔ H'.circ.HasGate g :=
    fun g => HashedDesignators.mem_values_iff hkept.solid.gates
  have hmem' : ∀ w, w ∈ H'.circ.wires.entries.map Prod.snd ↔ H'.circ.HasWire w :=
    fun w => HashedDesignators.mem_values_iff hkept.solid.wires
  have hcalled : ∀ c ∈ calls, c.gate ∈ calls.map WiringCall.gate :=
    fun c hc => List.mem_map_of_mem hc
  have hgrown := WiringCall.run_grown hex hcalled ⟨hW₀.wired, .refl W₀, fun _ _ => rfl⟩ hplain hcalls
  have hfitsW : ∀ g gt, W.gates g = some gt → gt.Fits := by
    intro g gt hg
    have hm := hgrown.ports g
    rw [hg, Option.map_some, eq_comm, Option.map_eq_some_iff] at hm
    obtain ⟨gt₀, hg₀, hm⟩ := hm
    exact (hfits g gt₀ hg₀).of_managers hm.symm (hgrown.wired.regular.gates g gt hg)
  obtain ⟨W', hres, hd⟩ := HashedCircuit.lxcCircuitDestroy_eq hex hreturns hkept.counted
    (HashedDesignators.nodup_values hkept.solid.gates hkept.sound.gates)
    (HashedDesignators.nodup_values hkept.solid.wires hkept.sound.wires) hgrown.wired hfitsW
    (fun g hg => hgates g ((hmem g).mp hg)) fun w hw => hwires w ((hmem' w).mp hw)
  have hiff := hd.noDangling_iff hgrown.wired hfitsW
  simp only [hmem, hmem'] at hiff
  obtain ⟨W₁, hfrees, hsheds, rfl⟩ := hd
  refine ⟨_, hres, fun g => ?_, fun w => ?_, hiff⟩
  · rw [isSome_freed, hmem]
    have hm := congrArg Option.isSome (hfrees.ports g)
    rw [Option.isSome_map, Option.isSome_map] at hm
    rw [hm]
  · rw [isSome_freed, hmem', hsheds.wires]

/-- The bool gate and its two wires, to be registered. -/
def boolDesignators : HashedDesignators where
  memory := boolWorld
  gateRefDes := fun _ => none
  circ := HashedCircuit.lxcCircuitCreate

/-- The inverter and its two wires get names and join a circuit. -/
def boolRegistered : List Designators.Op :=
  [.gateSetRefdes 0 "g", .addGate 0, .wireSetRefdes 0 "w0", .addWire 0, .wireSetRefdes 1 "w1",
    .addWire 1]

theorem circuit_destroy_iff_boolCircuit :
    ∃ H' W W', Run.run (HashedDesignators.step 512) boolDesignators boolRegistered = some H' ∧
      Run.run (WiringCall.succeed fun _ W => some W) boolWorld boolCircuitHistory = some W ∧
      H'.circ.lxcCircuitDestroy (fun _ W => some W) W = some W' ∧ W'.NoDangling := by
  have hregistered : (Run.run (HashedDesignators.step 512) boolDesignators boolRegistered).any
      (fun H' => decide (H'.circ.gates.entries = [("g", 0)] ∧
        ∀ e ∈ H'.circ.wires.entries, e.2 < 2)) = true := by
    decide +kernel
  obtain ⟨H', hrun, hentries⟩ := (Option.any_eq_true _ _).mp hregistered
  have htied : (Run.run (WiringCall.succeed fun _ W => some W) boolWorld boolCircuitHistory).any
      (fun W => decide (W.nextTokenport = 3 ∧ (W.gates 0).isSome ∧
        (∀ w ∈ List.range 2, (W.wires w).isSome) ∧ ∀ p ∈ List.range 3,
          (W.tokenports p).all (fun tp => tp.gate = 0 ∧ tp.index ≠ 20) = true)) = true := by
    decide
  obtain ⟨W, hcalls, htokens⟩ := (Option.any_eq_true _ _).mp htied
  obtain ⟨hgate, hwires⟩ := of_decide_eq_true hentries
  obtain ⟨hnext, hlive, hlive', htokens⟩ := of_decide_eq_true htokens
  have hops : Run.Meets (HashedDesignators.step 512) (HashedDesignators.Allowed 512)
      boolDesignators boolRegistered := by decide +kernel
  have hfresh : ∀ w, boolDesignators.memory.nextWire ≤ w → boolDesignators.memory.wires w = none :=
    fun w hw => if_neg (Nat.not_lt.mpr hw)
  have hkept := HashedDesignators.run_kept (HashedDesignators.created_kept rfl hfresh) hops hrun
  have hmem : ∀ g, H'.circ.HasGate g ↔ g = 0 := by
    intro g
    refine (HashedDesignators.mem_values_iff hkept.solid.gates).symm.trans ?_
    rw [hgate]
    exact List.mem_singleton
  have hmem' : ∀ w, H'.circ.HasWire w → w < 2 := by
    intro w hw
    obtain ⟨e, he, rfl⟩ := List.mem_map.mp
      ((HashedDesignators.mem_values_iff hkept.solid.wires).mpr hw)
    exact hwires e he
  obtain ⟨W', hres, -, -, hiff⟩ := circuit_destroy_iff 512 rfl hfresh hops hrun keepsWiring_some
    (fun _ W => ⟨W, rfl⟩) boolUnwired_boolWorld.untied boolWorld_fits (by decide) hcalls
    (fun g hg => (hmem g).mp hg ▸ hlive)
    fun w hw => hlive' w (List.mem_range.mpr (hmem' w hw))
  refine ⟨H', W, W', hrun, hcalls, hres, hiff.mpr fun p tp htp => .inl ?_⟩
  have hp : p < 3 := by
    have hgates : ∀ c ∈ boolCircuitHistory, c.gate ∈ [0] := by decide
    have hgrown := WiringCall.run_grown keepsWiring_some hgates
      ⟨boolUnwired_boolWorld.untied.wired, .refl boolWorld, fun _ _ => rfl⟩ (by decide) hcalls
    by_contra hle
    rw [hgrown.wired.regular.freshTokenport p (hnext ▸ Nat.not_lt.mp hle)] at htp
    cases htp
  have htoken := htokens p (List.mem_range.mpr hp)
  rw [htp] at htoken
  obtain ⟨hgate, hindex⟩ := of_decide_eq_true htoken
  exact ⟨(hmem _).mpr hgate, fun _ _ _ => hindex⟩

end LogxControll
