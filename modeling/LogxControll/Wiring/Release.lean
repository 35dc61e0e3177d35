/-
  The release of all ports that `lxc_circuit_destroy` begins with.

  `release_port_generic` goes through the types of a gate and the indices below the largest index
  the gate reports (`Gate.Visits`). For the generic gates these are all ports. `return_20` makes
  it stop short of input 20 of a bool gate, which can be wired; `release_all_ports_iff` is about
  what is left.
-/
import LogxControll.Core.Circuit
import LogxControll.Wiring.BoolWiring

namespace LogxControll

/-- The loops of `release_port_generic` come to the port. -/
def Gate.Visits (gt : Gate) (dir : Direction) (type : Signal) (subtype : Int) (index : Nat) :
    Prop :=
  ⟨type, subtype⟩ ∈ (gt.getTypes dir).2 ∧
    ∃ max, gt.getMaxIndex dir type subtype = some max ∧ (index : Int) < max

/-- A gate with at most `LXC_GATE_MAX_IO_TYPE_COUNT` types in each direction, and with as many
    ports as an `int` can count. -/
structure Gate.Fits (gt : Gate) : Prop where
  regular : gt.Regular
  types : ∀ dir, 0 ≤ (gt.getTypes dir).1
  ports : ∀ dir, (gt.side dir).manager.maxSize < 2 ^ 31

/-! ## The ports that are visited -/

namespace Gate

variable {gt gt' : Gate} {dir : Direction} {type : Signal} {subtype : Int} {index : Nat}

theorem manager_of_managers (h : gt'.managers = gt.managers) (dir : Direction) :
    (gt'.side dir).manager = (gt.side dir).manager := by
  simp only [managers, Prod.mk.injEq] at h
  cases dir
  · exact h.2.2.1
  · exact h.2.2.2

theorem getTypes_of_managers (h : gt'.managers = gt.managers) (dir : Direction) :
    gt'.getTypes dir = gt.getTypes dir := by
  unfold getTypes
  rw [show gt'.gateClass = gt.gateClass from congrArg Prod.fst h, manager_of_managers h]

theorem getMaxIndex_of_managers (h : gt'.managers = gt.managers) (dir : Direction) (type : Signal)
    (subtype : Int) : gt'.getMaxIndex dir type subtype = gt.getMaxIndex dir type subtype := by
  unfold getMaxIndex
  rw [show gt'.gateClass = gt.gateClass from congrArg Prod.fst h, manager_of_managers h]

theorem Fits.of_managers (hf : gt.Fits) (h : gt'.managers = gt.managers) (hreg : gt'.Regular) :
    gt'.Fits where
  regular := hreg
  types := fun dir => by rw [getTypes_of_managers h]; exact hf.types dir
  ports := fun dir => by rw [manager_of_managers h]; exact hf.ports dir

/-- What is visited passes the checks of the wiring functions. -/
theorem Fits.checked_of_visits (hf : gt.Fits) (hv : gt.Visits dir type subtype index) :
    gt.Checked dir type subtype index := by
  obtain ⟨hmem, max, hmax, hlt⟩ := hv
  have := hf.types dir
  refine ⟨?_, hmem, Int.natCast_nonneg index, max, hmax, le_of_lt hlt⟩
  rw [lxcGateMaxIoTypeCount]
  omega

/-- The loops come to every port but input 20 of a bool gate. -/
theorem Fits.visits_of_owns (hf : gt.Fits) (ho : gt.Owns dir type subtype index) :
    gt.Visits dir type subtype index ∨ (gt.gateClass = .bool ∧ dir = .input ∧ index = 20) := by
  by_cases hc : gt.gateClass = .bool
  · obtain ⟨rfl, rfl, hi⟩ := (owns_of_bool hc type subtype index).mp ho
    have hmem : (⟨.bool, 0⟩ : FullSignalType) ∈ (gt.getTypes dir).2 := by simp [getTypes, hc]
    cases dir with
    | input =>
      by_cases h20 : index = 20
      · exact .inr ⟨hc, rfl, h20⟩
      · have hlt : index < 20 := lt_of_le_of_ne hi h20
        exact .inl ⟨hmem, 20, by simp [getMaxIndex, hc, returnConst], by exact_mod_cast hlt⟩
    | output =>
      have hlt : index < 1 := Nat.lt_succ_of_le hi
      exact .inl ⟨hmem, 1, by simp [getMaxIndex, hc, returnConst], by exact_mod_cast hlt⟩
  · have hs := hf.regular.generic hc
    obtain ⟨gs, names, hside⟩ := hs.side dir
    obtain ⟨a, ha⟩ := (hasPort_iff hside type subtype index).mp
      ((owns_of_generic hc type subtype index).mp ho)
    have hmem : (⟨type, subtype⟩ : FullSignalType) ∈ gs.map Prod.fst := by
      by_contra hn
      rw [absList_of_notMem hn] at ha
      cases ha
    have htypes := hf.types dir
    rw [hs.getTypes_eq, hside.represents.lxcPortFillTypes_eq] at htypes
    have hcount := hf.ports dir
    rw [hside.represents.maxSize] at hcount
    have hlength := hside.represents.length_absList_le ⟨type, subtype⟩
    have hlt := (List.getElem?_eq_some_iff.mp ha).1
    have hsmall : (absList gs ⟨type, subtype⟩).length < 2 ^ 31 := by omega
    refine .inl ⟨?_, _, ?_, Int.ofNat_lt.mpr hlt⟩
    · rw [hs.getTypes_eq, hside.represents.lxcPortFillTypes_eq]
      by_cases hbig : lxcGateMaxIoTypeCount < gs.length
      · rw [if_pos hbig] at htypes
        have : gs.length ≤ 0 := by simpa using htypes
        omega
      · rw [if_neg hbig]
        exact hmem
    · rw [hs.getMaxIndex_eq, hside.represents.lxcGenericGetTypeMaxIndex_eq, if_pos hmem,
        intOfUint_of_lt hsmall]

theorem Fits.lt_of_visits (hf : gt.Fits) (hv : gt.Visits dir type subtype index) :
    index < 2 ^ 31 := by
  obtain ⟨-, max, hmax, hlt⟩ := hv
  by_cases hc : gt.gateClass = .bool
  · have hle : max ≤ 20 := by
      cases dir <;> simp only [getMaxIndex, hc, Option.some.injEq] at hmax <;> subst hmax <;>
        unfold returnConst <;> split <;> omega
    omega
  · exact ((hf.regular.generic hc).hasPort_of_lt_max hmax hlt).2

end Gate

/-! ## The loops -/

/-- The ports in `S` have been freed, and no others. -/
structure Frees (S : Port → Prop) (W W' : World) : Prop where
  wired : W'.Wired
  ports : SamePorts W W'
  freed : ∀ q, S q → W'.wiring.slot q = none
  kept : ∀ q, ¬ S q → W'.wiring.slot q = W.wiring.slot q

/-- Every call of an execution behavior returns. -/
def Returns (ex : ExecCall → World → Option World) : Prop := ∀ c W, ∃ W', ex c W = some W'

section Loops

variable {ex : ExecCall → World → Option World} {W W₁ W' : World} {S T : Port → Prop} {g : GateId}
  {gt : Gate} {dir : Direction}

theorem Frees.trans (h : Frees S W W₁) (h' : Frees T W₁ W') : Frees (fun q => S q ∨ T q) W W' where
  wired := h'.wired
  ports := h.ports.trans h'.ports
  freed := by
    intro q hq
    by_cases ht : T q
    · exact h'.freed q ht
    · rw [h'.kept q ht]
      exact h.freed q (hq.resolve_right ht)
  kept := by
    intro q hq
    rw [h'.kept q fun ht => hq (.inr ht), h.kept q fun hs => hq (.inl hs)]

/-- Ports that were free already count as freed. -/
theorem Frees.congr (h : Frees S W W') (hST : ∀ q, S q → T q)
    (hfree : ∀ q, T q → ¬ S q → W.wiring.slot q = none) : Frees T W W' where
  wired := h.wired
  ports := h.ports
  freed := by
    intro q ht
    by_cases hs : S q
    · exact h.freed q hs
    · rw [h.kept q hs]
      exact hfree q ht hs
  kept := fun q ht => h.kept q fun hs => ht (hST q hs)

theorem World.Wired.frees_none (h : W.Wired) (hfree : ∀ q, S q → W.wiring.slot q = none) :
    Frees S W W :=
  ⟨h, .refl W, hfree, fun _ _ => rfl⟩

theorem SamePorts.gate (h : SamePorts W W') (hg : W.gates g = some gt) :
    ∃ gt', W'.gates g = some gt' ∧ gt'.managers = gt.managers := by
  have hm := h g
  rwa [hg, Option.map_some, Option.map_eq_some_iff] at hm

/-- The gate is there after the ports have been freed, and visits the same ports. -/
theorem Frees.gate (h : Frees S W W') (hg : W.gates g = some gt) (hf : gt.Fits) :
    ∃ gt', W'.gates g = some gt' ∧ gt'.Fits ∧ gt'.managers = gt.managers := by
  obtain ⟨gt', hg', hm⟩ := h.ports.gate hg
  exact ⟨gt', hg', hf.of_managers hm (h.wired.regular.gates g gt' hg'), hm⟩

/-- Unwiring a visited port that is not free frees it. -/
theorem unwire_frees (hex : KeepsWiring ex) (h : W.Wired) {q : Port} (hg : W.gates q.gate = some gt)
    (hf : gt.Fits) (hv : gt.Visits q.dir q.type q.subtype q.index) {c : Nat}
    (hslot : W.wiring.slot q = some c) :
    Run.Ensures (Returns ex)
      (lxcWireGate ex q.dir (some q.type) q.subtype none q.gate q.index W)
      fun res => Frees (· = q) W res.2 := by
  obtain ⟨B, hL⟩ := h.ledger
  have hcall : lxcWireGate ex q.dir (some q.type) q.subtype none q.gate q.index W =
      unwirePort ex q.dir q.type q.subtype q.gate q.index c W := by
    have hgeneric : lxcWireGate ex q.dir (some q.type) q.subtype none q.gate q.index W =
        privateGenericWiring ex q.dir (some q.type) q.subtype none q.gate q.index W := by
      unfold lxcWireGate lxcWireGateInput lxcWireGateOutput
      rw [intOfUint_of_lt (hf.lt_of_visits hv)]
      cases q.dir <;> rfl
    rw [hgeneric, privateGenericWiring_unwire h.regular hg (hf.checked_of_visits hv),
      Int.toNat_natCast, hslot]
  rw [hcall]
  refine ⟨?_, fun hreturns => ?_⟩
  · rintro ⟨r, W'⟩ hres
    have hstep := unwirePort_step hex h.regular hg hslot hres
    obtain ⟨-, ⟨w, p, i, hv'⟩, hledger⟩ := hstep.outcome.unbind hL
    refine ⟨⟨hstep.regular, hledger⟩, hstep.ports, ?_, ?_⟩
    · rintro q' rfl
      rw [hv']
      exact Function.update_self ..
    · intro q' hne
      rw [hv']
      exact Function.update_of_ne hne _ _
  · obtain ⟨r, W', hres⟩ := unwirePort_returns hreturns h.regular hL hg hslot
    exact ⟨(r, W'), hres⟩

theorem releaseIndices_frees (hex : KeepsWiring ex) {sig : Signal} {sub : Int} (n : Nat) :
    ∀ {m : Nat} {W : World} {gt : Gate}, W.Wired → W.gates g = some gt → gt.Fits →
      (∀ i < m + n, gt.Visits dir sig sub i) →
      Run.Ensures (Returns ex) (releaseIndices ex g dir sig sub n m W)
        (Frees (fun q => q = ⟨g, dir, sig, sub, q.index⟩ ∧ m ≤ q.index ∧ q.index < m + n) W) := by
  induction n with
  | zero =>
    intro m W gt h _ _ _
    exact .some (h.frees_none fun q hq => absurd hq.2.1 (by omega))
  | succ n ih =>
    intro m W gt h hg hf hv
    have hvm : gt.Visits dir sig sub m := hv m (by omega)
    have hrest : ∀ i < m + 1 + n, gt.Visits dir sig sub i := fun i hi => hv i (by omega)
    unfold releaseIndices
    simp only [hg, h.regular.getWire_checked hg hvm.1, Option.bind_eq_bind, Option.bind_some]
    cases hslot : W.wiring.slot ⟨g, dir, sig, sub, m⟩ with
    | none =>
      refine (ih h hg hf hrest).mono fun W' hW' => hW'.congr ?_ ?_
      · rintro q ⟨hq, hle, hlt⟩
        exact ⟨hq, by omega, by omega⟩
      · rintro q ⟨hq, hle, hlt⟩ hnot
        have hindex : q.index = m := by
          by_contra hne
          exact hnot ⟨hq, by omega, by omega⟩
        rw [hq, hindex]
        exact hslot
    | some c =>
      have hunwire := unwire_frees hex h (q := ⟨g, dir, sig, sub, m⟩) hg hf hvm hslot
      refine hunwire.bind ?_
      rintro ⟨r, W₁⟩ h₁
      obtain ⟨gt₁, hg₁, hf₁, hm⟩ := h₁.gate hg hf
      have hrest₁ : ∀ i < m + 1 + n, gt₁.Visits dir sig sub i := by
        intro i hi
        rw [Gate.Visits, Gate.getTypes_of_managers hm, Gate.getMaxIndex_of_managers hm]
        exact hrest i hi
      refine (ih h₁.wired hg₁ hf₁ hrest₁).mono fun W' hW' => (h₁.trans hW').congr ?_ ?_
      · rintro q (rfl | ⟨hq, hle, hlt⟩)
        · exact ⟨rfl, le_rfl, by simp⟩
        · exact ⟨hq, by omega, by omega⟩
      · rintro q ⟨hq, hle, hlt⟩ hnot
        refine absurd ?_ hnot
        by_cases hindex : q.index = m
        · exact .inl (hindex ▸ hq)
        · exact .inr ⟨hq, by omega, by omega⟩

theorem releaseTypes_frees (hex : KeepsWiring ex) (types : List FullSignalType) :
    ∀ {W : World} {gt : Gate}, W.Wired → W.gates g = some gt → gt.Fits →
      types ⊆ (gt.getTypes dir).2 →
      Run.Ensures (Returns ex) (releaseTypes ex g dir types W)
        (Frees (fun q => q.gate = g ∧ q.dir = dir ∧ ⟨q.type, q.subtype⟩ ∈ types ∧
          gt.Visits dir q.type q.subtype q.index) W) := by
  induction types with
  | nil =>
    intro W gt h _ _ _
    exact .some (h.frees_none fun q hq => absurd hq.2.2.1 List.not_mem_nil)
  | cons t types ih =>
    intro W gt h hg hf hsub
    obtain ⟨sig, sub⟩ := t
    obtain ⟨max, hmax⟩ := hf.regular.getMaxIndex_returns dir sig sub
    have hmem : (⟨sig, sub⟩ : FullSignalType) ∈ (gt.getTypes dir).2 := hsub List.mem_cons_self
    have hv : ∀ i < 0 + max.toNat, gt.Visits dir sig sub i :=
      fun i hi => ⟨hmem, max, hmax, by omega⟩
    unfold releaseTypes
    simp only [hg, hmax, Option.bind_eq_bind, Option.bind_some]
    refine (releaseIndices_frees hex _ h hg hf hv).bind fun W₁ h₁ => ?_
    obtain ⟨gt₁, hg₁, hf₁, hm⟩ := h₁.gate hg hf
    have hsub₁ : types ⊆ (gt₁.getTypes dir).2 := by
      rw [Gate.getTypes_of_managers hm]
      exact fun t ht => hsub (List.mem_cons_of_mem _ ht)
    refine (ih h₁.wired hg₁ hf₁ hsub₁).mono fun W' hW' => (h₁.trans hW').congr ?_ ?_
    · rintro q (⟨hq, -, hlt⟩ | ⟨hgate, hdir, ht, hvis⟩)
      · rw [hq]
        exact ⟨rfl, rfl, List.mem_cons_self, hv q.index hlt⟩
      · rw [Gate.Visits, Gate.getTypes_of_managers hm, Gate.getMaxIndex_of_managers hm] at hvis
        exact ⟨hgate, hdir, List.mem_cons_of_mem _ ht, hvis⟩
    · rintro ⟨g', dir', sig', sub', index⟩ ⟨hgate, hdir, ht, hvis⟩ hnot
      dsimp only at hgate hdir ht hvis
      subst hgate hdir
      refine absurd ?_ hnot
      rcases List.mem_cons.mp ht with he | ht
      · obtain ⟨rfl, rfl⟩ : sig' = sig ∧ sub' = sub := by simpa using he
        obtain ⟨-, max', hmax', hlt⟩ := hvis
        obtain rfl : max = max' := Option.some.inj (hmax.symm.trans hmax')
        exact .inl ⟨rfl, Nat.zero_le _, by dsimp only; omega⟩
      · refine .inr ⟨rfl, rfl, ht, ?_⟩
        rw [Gate.Visits, Gate.getTypes_of_managers hm, Gate.getMaxIndex_of_managers hm]
        exact hvis

/-- The loops for the gate of the port come to the port. -/
def World.Visits (W : World) (q : Port) : Prop :=
  ∃ gt, W.gates q.gate = some gt ∧ gt.Visits q.dir q.type q.subtype q.index

theorem SamePorts.visits_iff (h : SamePorts W W') (q : Port) : W'.Visits q ↔ W.Visits q := by
  have hm := h q.gate
  unfold World.Visits
  cases hg : W.gates q.gate with
  | none =>
    rw [hg, Option.map_none, Option.map_eq_none_iff] at hm
    simp [hm]
  | some gt =>
    obtain ⟨gt', hg', hm'⟩ := h.gate hg
    simp only [hg', Option.some.injEq, exists_eq_left']
    rw [Gate.Visits, Gate.getTypes_of_managers hm', Gate.getMaxIndex_of_managers hm']
    rfl

theorem releasePortGeneric_frees (hex : KeepsWiring ex) (h : W.Wired) (hg : W.gates g = some gt)
    (hf : gt.Fits) (dir : Direction) :
    Run.Ensures (Returns ex) (releasePortGeneric ex g dir W)
      (Frees (fun q => q.gate = g ∧ q.dir = dir ∧ W.Visits q) W) := by
  unfold releasePortGeneric
  rw [hg]
  refine (releaseTypes_frees hex _ h hg hf (List.Subset.refl _)).mono fun W' hW' =>
    hW'.congr ?_ ?_
  · rintro q ⟨rfl, hdir, -, hv⟩
    exact ⟨rfl, hdir, gt, hg, hdir ▸ hv⟩
  · rintro q ⟨rfl, rfl, gt', hg', hv⟩ hnot
    obtain rfl : gt = gt' := Option.some.inj (hg.symm.trans hg')
    exact absurd ⟨rfl, rfl, hv.1, hv⟩ hnot

theorem iterateReleaseAllPort_frees (hex : KeepsWiring ex) (h : W.Wired)
    (hg : W.gates g = some gt) (hf : gt.Fits) :
    Run.Ensures (Returns ex) (iterateReleaseAllPort ex W g)
      (Frees (fun q => q.gate = g ∧ W.Visits q) W) := by
  refine (releasePortGeneric_frees hex h hg hf .input).bind fun W₁ h₁ => ?_
  obtain ⟨gt₁, hg₁, hf₁, -⟩ := h₁.gate hg hf
  refine (releasePortGeneric_frees hex h₁.wired hg₁ hf₁ .output).mono fun W' hW' =>
    (h₁.trans hW').congr ?_ ?_
  · rintro q (⟨hgate, -, hv⟩ | ⟨hgate, -, hv⟩)
    · exact ⟨hgate, hv⟩
    · exact ⟨hgate, (h₁.ports.visits_iff q).mp hv⟩
  · rintro q ⟨hgate, hv⟩ hnot
    refine absurd ?_ hnot
    cases hdir : q.dir with
    | input => exact .inl ⟨hgate, rfl, hv⟩
    | output => exact .inr ⟨hgate, rfl, (h₁.ports.visits_iff q).mpr hv⟩

theorem releaseAllPorts_frees (hex : KeepsWiring ex) (gates : List GateId) :
    ∀ {W : World}, W.Wired → (∀ g gt, W.gates g = some gt → gt.Fits) →
      (∀ g ∈ gates, ∃ gt, W.gates g = some gt) →
      Run.Ensures (Returns ex) (releaseAllPorts ex gates W)
        (Frees (fun q => q.gate ∈ gates ∧ W.Visits q) W) := by
  induction gates with
  | nil =>
    intro W h _ _
    exact .some (h.frees_none fun q hq => absurd hq.1 List.not_mem_nil)
  | cons g gates ih =>
    intro W h hfits hlive
    obtain ⟨gt, hg⟩ := hlive g List.mem_cons_self
    unfold releaseAllPorts
    rw [List.foldlM_cons]
    refine (iterateReleaseAllPort_frees hex h hg (hfits g gt hg)).bind fun W₁ h₁ => ?_
    have hfits₁ : ∀ g' gt', W₁.gates g' = some gt' → gt'.Fits := by
      intro g' gt₁ hg₁
      have hm := h₁.ports g'
      rw [hg₁, Option.map_some, eq_comm, Option.map_eq_some_iff] at hm
      obtain ⟨gt', hg', hm⟩ := hm
      exact (hfits g' gt' hg').of_managers hm.symm (h₁.wired.regular.gates g' gt₁ hg₁)
    have hlive₁ : ∀ g' ∈ gates, ∃ gt', W₁.gates g' = some gt' := by
      intro g' hg'
      obtain ⟨gt', hgt'⟩ := hlive g' (List.mem_cons_of_mem _ hg')
      obtain ⟨gt₁, hg₁, -⟩ := h₁.ports.gate hgt'
      exact ⟨gt₁, hg₁⟩
    refine (ih h₁.wired hfits₁ hlive₁).mono fun W' hW' => (h₁.trans hW').congr ?_ ?_
    · rintro q (⟨rfl, hv⟩ | ⟨hmem, hv⟩)
      · exact ⟨List.mem_cons_self, hv⟩
      · exact ⟨List.mem_cons_of_mem _ hmem, (h₁.ports.visits_iff q).mp hv⟩
    · rintro q ⟨hmem, hv⟩ hnot
      refine absurd ?_ hnot
      rcases List.mem_cons.mp hmem with rfl | hmem
      · exact .inl ⟨rfl, hv⟩
      · exact .inr ⟨hmem, (h₁.ports.visits_iff q).mpr hv⟩

end Loops

/-! ## Histories -/

/-- A call that returns 0. -/
def WiringCall.succeed (ex : ExecCall → World → Option World) (W : World) (c : WiringCall) :
    Option World := do
  let (r, W) ← c.step ex W
  if r = 0 then return W else none

/-- The call ties nothing to output 1 of a bool gate, and no wire to an input whose gate and
    index the wire drives already: `remove_port` does not look at the types of ports. -/
def WiringCall.Plain (c : WiringCall) (W : World) : Prop :=
  ¬ W.TiesSecondOutput c.dir c.subtype c.wire c.gate (intOfUint c.index) ∧
    (c.dir = .input → ∀ w wire, c.wire = some w → W.wires w = some wire →
      W.entriesFor wire .input c.gate (intOfUint c.index).toNat = [])

instance (c : WiringCall) (W : World) : Decidable (c.Plain W) :=
  decidable_of_iff
    (¬ (c.dir = .output ∧ c.wire ≠ none ∧ intOfUint c.index = 1 ∧ c.subtype = 0 ∧
        (W.gates c.gate).any (fun gt => gt.gateClass = .bool) = true) ∧
      (c.dir = .input → (c.wire.bind W.wires).all (fun wire =>
        W.entriesFor wire .input c.gate (intOfUint c.index).toNat = []) = true))
    (by
      refine and_congr (not_congr ?_) (imp_congr_right fun _ => ?_)
      · simp [World.TiesSecondOutput, Option.any_eq_true]
      · rw [Option.all_eq_true]
        constructor
        · intro h w wire hw hwire
          exact of_decide_eq_true (h wire (by rw [hw]; exact hwire))
        · intro h wire hbind
          obtain ⟨w, hw, hwire⟩ := Option.bind_eq_some_iff.mp hbind
          exact decide_eq_true (h w wire hw hwire))

/-- Every port of the circuit's gates reads as free, no wire has an entry, and no tokenport is
    left. -/
structure World.Released (W : World) (circ : IOCircuit) : Prop where
  slots : ∀ name g gate, circ.gates name = some g → W.gates g = some gate →
    ∀ dir type subtype index, gate.getWire dir type subtype index = some none
  entries : ∀ w wire dir, W.wires w = some wire → entries (wire.ports dir) = []
  tokenports : ∀ p, W.tokenports p = none

section Histories

variable {ex : ExecCall → World → Option World} {W W' : World} {circ : IOCircuit}

/-- What a history leaves as it was. -/
structure World.Grown (W W' : World) (gates : List GateId) : Prop where
  wired : W'.Wired
  ports : SamePorts W W'
  frame : ∀ q : Port, q.gate ∉ gates → W'.wiring.slot q = W.wiring.slot q

theorem WiringCall.succeed_grown (hex : KeepsWiring ex) {gates : List GateId} {W₀ : World}
    (h : W₀.Grown W gates) {c : WiringCall} (hplain : c.Plain W) (hgate : c.gate ∈ gates)
    (hcall : c.succeed ex W = some W') : W₀.Grown W' gates := by
  obtain ⟨B, hL⟩ := h.wired.ledger
  obtain ⟨⟨r, W₁⟩, hstep, hres⟩ := Option.bind_eq_some_iff.mp hcall
  have hun : ∀ w type, c.wire = some w → c.dir = .input → W.HasPort (c.port type) →
      W.wiring.slot (c.port type) = none → W.wiring.Unlisted w (c.port type) := by
    intro w type hw hdir _ _ wr hwr p hp tp htp hfor
    obtain ⟨wire, hwire, rfl⟩ := Option.map_eq_some_iff.mp hwr
    obtain ⟨tp', htp', rfl⟩ := Option.map_eq_some_iff.mp htp
    rw [show (c.port type).dir = .input from hdir, Wire.bare_ports] at hp
    have hnone := hplain.2 hdir w wire hw hwire
    have hindex : (c.port type).index = (intOfUint c.index).toNat := by
      rw [WiringCall.port]
    rw [← hindex] at hnone
    generalize (c.port type).index = i at hnone hfor
    have hfor' : tp'.gate = c.gate ∧ tp'.index = i := hfor
    have hmem : p ∈ W.entriesFor wire .input c.gate i :=
      List.mem_filter.mpr ⟨hp, by simpa [htp'] using hfor'⟩
    rw [hnone] at hmem
    cases hmem
  have hresult := c.step_ledger hex h.wired.regular hL hplain.1 hun hstep
  dsimp only at hres
  split at hres
  · obtain rfl := Option.some.inj hres
    refine ⟨⟨hresult.regular, hresult.ledger⟩, h.ports.trans hresult.ports, fun q hq => ?_⟩
    have hne : q.gate ≠ c.gate := fun he => hq (he ▸ hgate)
    rw [hresult.frame q hne, h.frame q hq]
  · cases hres

theorem Gate.Regular.getWire_none {gt : Gate} (h : gt.Regular)
    (hfree : ∀ dir type subtype index, gt.boundAt dir type subtype index = none)
    (dir : Direction) (type : Signal) (subtype : Int) (index : Nat) :
    gt.getWire dir type subtype index = some none := by
  by_cases hc : gt.gateClass = .bool
  · have hread : ∀ dir i, i ≤ Gate.lastBoolIndex dir → (gt.side dir).slots[i]? = some none := by
      intro dir i hi
      have hlen := h.slots_length hc dir
      have hbound := hfree dir .bool 0 i
      rw [h.boundAt_of_bool hc, if_pos ⟨rfl, rfl, hi⟩] at hbound
      rw [slotAt_eq (by omega), hbound]
    cases dir with
    | input =>
      simp only [getWire, hc]
      split
      · rfl
      next hport => exact hread .input index (by rw [Gate.lastBoolIndex]; omega)
    | output =>
      simp only [getWire, hc]
      split
      · rfl
      · exact hread .output 0 (Nat.zero_le _)
  · rw [(h.generic hc).getWire_eq, hfree]

theorem WiringCall.run_grown (hex : KeepsWiring ex) {gates : List GateId} {W₀ : World}
    {calls : List WiringCall} (hcalls : ∀ c ∈ calls, c.gate ∈ gates) (h : W₀.Grown W gates)
    (hplain : Run.Meets (WiringCall.succeed ex) (fun W c => c.Plain W) W calls)
    (hrun : Run.run (WiringCall.succeed ex) W calls = some W') : W₀.Grown W' gates := by
  induction calls generalizing W with
  | nil => exact Option.some.inj hrun ▸ h
  | cons c calls ih =>
    obtain ⟨W₁, hcall, hrest⟩ := Option.bind_eq_some_iff.mp hrun
    have h₁ := succeed_grown hex h hplain.1 (hcalls c List.mem_cons_self) hcall
    exact ih (fun c' hc' => hcalls c' (List.mem_cons_of_mem _ hc')) h₁ (hplain.2 W₁ hcall) hrest

/-- The ports are released when no slot is left that holds something. -/
theorem World.Wired.released (h : W.Wired) (hslot : ∀ q, W.wiring.slot q = none) :
    W.Released circ := by
  obtain ⟨B, hL⟩ := h.ledger
  have hnone : ∀ q w p, ¬ B q w p := by
    intro q w p hB
    have := (hL.slot q _).mpr ⟨w, p, hB, rfl⟩
    rw [hslot q] at this
    cases this
  refine ⟨fun name g gate _ hg => ?_, fun w wire dir hw => ?_, fun p => ?_⟩
  · refine (h.regular.gates g gate hg).getWire_none fun dir type subtype index => ?_
    rw [← W.wiring_slot (q := ⟨g, dir, type, subtype, index⟩) hg]
    exact hslot _
  · refine List.eq_nil_iff_forall_not_mem.mpr fun p hp => ?_
    have hp' : p ∈ entries (wire.bare.ports dir) := by rwa [Wire.bare_ports]
    obtain ⟨q, hB, -⟩ := (hL.entry w wire.bare dir p (W.wiring_wire hw)).mp hp'
    exact hnone q w p hB
  · cases htp : W.tokenports p with
    | none => rfl
    | some tp =>
      obtain ⟨q, w, hB⟩ := hL.live p _ (W.wiring_token htp)
      exact absurd hB (hnone q w p)

end Histories

/-- In a history of successful plain calls on a circuit, the release of all ports leaves nothing
    tied exactly when no bool gate of the circuit has its input 20 tied. -/
theorem release_all_ports_iff {ex : ExecCall → World → Option World} (hex : KeepsWiring ex)
    {W : World} (h : W.Untied) (hfits : ∀ g gt, W.gates g = some gt → gt.Fits) {circ : IOCircuit}
    (hcirc : ∀ name g, circ.gates name = some g → ∃ gt, W.gates g = some gt)
    {gates : List GateId} (hgates : ∀ g, g ∈ gates ↔ ∃ name, circ.gates name = some g)
    {calls : List WiringCall} (hcalls : ∀ c ∈ calls, c.gate ∈ gates)
    (hplain : Run.Meets (WiringCall.succeed ex) (fun W c => c.Plain W) W calls) {W' : World}
    (hrun : Run.run (WiringCall.succeed ex) W calls = some W') :
    (∀ W'', releaseAllPorts ex gates W' = some W'' →
      (W''.Released circ ↔ ∀ g ∈ gates, ∀ gate, W'.gates g = some gate →
        gate.gateClass = .bool → gate.input.slots[20]? = some none)) ∧
      (Returns ex → ∃ W'', releaseAllPorts ex gates W' = some W'') := by
  have hstart : W.Grown W gates := ⟨h.wired, .refl W, fun _ _ => rfl⟩
  have hgrown := WiringCall.run_grown hex hcalls hstart hplain hrun
  have hfits' : ∀ g gt', W'.gates g = some gt' → gt'.Fits := by
    intro g gt' hg'
    have hm := hgrown.ports g
    rw [hg', Option.map_some, eq_comm, Option.map_eq_some_iff] at hm
    obtain ⟨gt, hg, hm⟩ := hm
    exact (hfits g gt hg).of_managers hm.symm (hgrown.wired.regular.gates g gt' hg')
  have hlive : ∀ g ∈ gates, ∃ gt', W'.gates g = some gt' := by
    intro g hg
    obtain ⟨name, hname⟩ := (hgates g).mp hg
    obtain ⟨gt, hgt⟩ := hcirc name g hname
    obtain ⟨gt', hgt', -⟩ := hgrown.ports.gate hgt
    exact ⟨gt', hgt'⟩
  have hrelease := releaseAllPorts_frees hex gates hgrown.wired hfits' hlive
  refine ⟨fun W'' hres => ?_, hrelease.returns⟩
  have hfrees := hrelease.sound W'' hres
  constructor
  · -- input 20 is not visited, so what it holds was there before
    intro hreleased g hg gate hgate hc
    obtain ⟨gate', hgate', hm⟩ := hfrees.ports.gate hgate
    have hreg := hgrown.wired.regular.gates g gate hgate
    have hslot : W''.wiring.slot ⟨g, .input, .bool, 0, 20⟩ = none := by
      obtain ⟨name, hname⟩ := (hgates g).mp hg
      have hread := hreleased.slots name g gate' hname hgate' .input .bool 0 20
      have hc' : gate'.gateClass = .bool := (congrArg Prod.fst hm).trans hc
      have hreg' := hfrees.wired.regular.gates g gate' hgate'
      rw [W''.wiring_slot (q := ⟨g, .input, .bool, 0, 20⟩) hgate', Gate.boundAt, hread]
      simp
    rw [hfrees.kept _ ?_, W'.wiring_slot (q := ⟨g, .input, .bool, 0, 20⟩) hgate,
      hreg.boundAt_of_bool hc] at hslot
    · rw [if_pos ⟨rfl, rfl, le_rfl⟩] at hslot
      have hlen : gate.input.slots.length = 21 := (hreg.bool hc).1
      rw [slotAt_eq (by omega), show slotAt gate.input.slots 20 = none from hslot]
    · rintro ⟨-, gt, hgt, hv⟩
      obtain rfl : gate = gt := Option.some.inj (hgate.symm.trans hgt)
      obtain ⟨-, max, hmax, hlt⟩ := hv
      obtain rfl : 20 = max := by simpa [Gate.getMaxIndex, hc, returnConst] using hmax
      have hlt' : (20 : Int) < 20 := hlt
      omega
  · intro hlast
    refine hfrees.wired.released fun q => ?_
    by_contra hq
    have hnot : ¬ (q.gate ∈ gates ∧ W'.Visits q) := fun hv => hq (hfrees.freed q hv)
    rw [hfrees.kept q hnot] at hq
    have hmem : q.gate ∈ gates := by
      by_contra hout
      exact hq ((hgrown.frame q hout).trans (h.slot_none q))
    obtain ⟨gt, hg⟩ := hlive q.gate hmem
    have hreg := hgrown.wired.regular.gates q.gate gt hg
    rw [W'.wiring_slot hg] at hq
    have howns : gt.Owns q.dir q.type q.subtype q.index := by
      by_contra hno
      exact hq (hreg.boundAt_of_not_owned hno)
    rcases (hfits' q.gate gt hg).visits_of_owns howns with hv | ⟨hc, hdir, hindex⟩
    · exact hnot ⟨hmem, gt, hg, hv⟩
    · have hslot := hlast q.gate hmem gt hg hc
      refine hq ?_
      rw [hreg.boundAt_of_bool hc, hdir, hindex]
      split
      · rw [slotAt, show (gt.side .input).slots[20]? = some none from hslot]
        rfl
      · rfl

/-- The circuit of the one bool gate and the two wires. -/
def boolCircuit : IOCircuit where
  gates name := if name = "g" then some 0 else none
  wires name := if name = "w0" then some 0 else if name = "w1" then some 1 else none

theorem boolWorld_fits : ∀ g gt, boolWorld.gates g = some gt → gt.Fits := by
  intro g gt hg
  have hreg := (boolUnwired_boolWorld.untied.gates g gt hg).1
  simp only [boolWorld, Option.ite_none_right_eq_some, Option.some.injEq] at hg
  obtain ⟨-, rfl⟩ := hg
  refine ⟨hreg, fun dir => ?_, fun dir => ?_⟩
  · cases dir <;> decide
  · cases dir <;> decide

/-- Inputs 20, 3 and output 0 are tied, input 20 is untied again. -/
def boolCircuitHistory : List WiringCall :=
  [⟨.input, some .bool, 0, some 0, 0, 20⟩, ⟨.input, some .bool, 0, some 0, 0, 3⟩,
    ⟨.output, some .bool, 0, some 1, 0, 0⟩, ⟨.input, some .bool, 0, none, 0, 20⟩]

theorem release_all_ports_iff_boolCircuit :
    ∃ W' W'', Run.run (WiringCall.succeed fun _ W => some W) boolWorld boolCircuitHistory =
      some W' ∧ releaseAllPorts (fun _ W => some W) [0] W' = some W'' ∧
      W''.Released boolCircuit := by
  have hgates : ∀ g, g ∈ [0] ↔ ∃ name, boolCircuit.gates name = some g := by
    intro g
    simp [boolCircuit, eq_comm]
  have hcirc : ∀ name g, boolCircuit.gates name = some g → ∃ gt, boolWorld.gates g = some gt := by
    intro name g hname
    have hg : g = 0 := by simpa using (hgates g).mpr ⟨name, hname⟩
    exact ⟨logxBoolCreate .not, by rw [hg]; rfl⟩
  have hlast : (Run.run (WiringCall.succeed fun _ W => some W) boolWorld boolCircuitHistory).any
      (fun W' => (W'.gates 0).all fun gate => gate.input.slots[20]? = some none) = true := by
    decide
  obtain ⟨W', hrun, hlast⟩ := (Option.any_eq_true _ _).mp hlast
  have hcalls : ∀ c ∈ boolCircuitHistory, c.gate ∈ [0] := by decide
  obtain ⟨hiff, hreturns⟩ := release_all_ports_iff keepsWiring_some boolUnwired_boolWorld.untied
    boolWorld_fits hcirc hgates hcalls (by decide) hrun
  obtain ⟨W'', hres⟩ := hreturns fun _ W => ⟨W, rfl⟩
  refine ⟨W', W'', hrun, hres, (hiff W'' hres).mpr fun g hg gate hgate _ => ?_⟩
  obtain rfl := List.mem_singleton.mp hg
  simpa [hgate] using hlast

/-- Input 20 keeps its tokenport. -/
theorem not_release_all_ports : ¬ ∀ (calls : List WiringCall) (W' W'' : World),
    Run.run (WiringCall.succeed fun _ W => some W) boolWorld calls = some W' →
      releaseAllPorts (fun _ W => some W) [0] W' = some W'' → W''.Released boolCircuit := by
  intro h
  have hrun : ((Run.run (WiringCall.succeed fun _ W => some W) boolWorld
      [⟨.input, some .bool, 0, some 0, 0, 20⟩]).bind
        (releaseAllPorts (fun _ W => some W) [0])).any
      (fun W'' => (W''.tokenports 0).isSome) = true := by decide
  obtain ⟨W'', hrelease, htp⟩ := (Option.any_eq_true _ _).mp hrun
  obtain ⟨W', hrun, hrelease⟩ := Option.bind_eq_some_iff.mp hrelease
  have hnone := (h _ W' W'' hrun hrelease).tokenports 0
  rw [hnone] at htp
  cases htp

end LogxControll
