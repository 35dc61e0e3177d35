/-
  The sorting network sorts.

  `Placed.sortNetwork`: the circuit that `create_computerphile_sort_network` builds, with its
  gates enabled, is a network of sorter boxes without cycles, whose wires are those of `pins`.
  At rest its wires form an `Insertion.Triangle` (`SortNetwork.triangle`), and every call from
  outside leaves it at rest, so that the last values driven come out in order
  (`computerphileSort_sorts`).
-/
import LogxControll.Execution.Locality
import LogxControll.Wiring.SortTriangle

namespace LogxControll

open Propagation

/-! ## The network and its values -/

/-- The wire at a port of the gate at place `j` of row `i`. -/
def pinWire (n : Nat) (circ : IOCircuit) (i j : Nat) (dir : Direction) (k : Nat) : Option WireId :=
  (pins n i j dir k).bind fun l => circ.wires l.text

/-- `S` is the sorting network with the wires of `circ`, at rest and without values. -/
structure SortNetwork (n : Nat) (circ : IOCircuit) (S : World) : Prop where
  network : S.SorterNetwork
  fresh : S.Fresh
  finite : {g | (S.gates g).isSome}.Finite
  acyclic : ∀ g, ¬ Relation.TransGen S.Feeds g g
  input : ∀ i, i < n → ∃ w, circ.wires (WireLabel.input i).text = some w ∧ S.PrimaryWire w
  input_injective : ∀ i i' w, circ.wires (WireLabel.input i).text = some w →
    circ.wires (WireLabel.input i').text = some w → i = i'
  wire : ∀ i j dir k l, j ≤ i → i < n → pins n i j dir k = some l →
    ∃ w, circ.wires l.text = some w
  box : ∀ i j, j ≤ i → i < n → ∃ g gate, S.gates g = some gate ∧
    ∀ k, portWire S (slotAt gate.input.slots k) = pinWire n circ i j .input k ∧
      slotAt gate.output.slots k = pinWire n circ i j .output k

/-- The value on a wire of the network. -/
def labelValue (circ : IOCircuit) (W : World) (l : WireLabel) : Option LxcValue :=
  (circ.wires l.text).bind W.valueOn

/-- The wire down from a place, and the wire that comes in there from the left. -/
def downLabel (n i j : Nat) : WireLabel := if i + 1 = n then .output j else .down i j

/-- The wire that comes to a comparator from the left. -/
def leftLabel (i j : Nat) : WireLabel := if j = 0 then .input i else .right i (j - 1)

/-- At rest every row inserts the value that comes in from the left. -/
theorem SortNetwork.triangle {n : Nat} {circ : IOCircuit} {S W : World}
    (h : SortNetwork n circ S) (hW : SorterRest S W) :
    Insertion.Triangle LxcValue.int n (fun i j => labelValue circ W (downLabel n i j))
      fun i j => labelValue circ W (leftLabel i j) where
  inner := by
    intro i j u c hi hj hu hc
    have hj' : j ≤ i + 1 := Nat.le_succ_of_le hj
    have hne : ¬ i + 1 = j := (Nat.lt_succ_of_le hj).ne'
    obtain ⟨g, gate, hg, hpins⟩ := h.box (i + 1) j hj' hi
    obtain ⟨w₀, hw₀, hu⟩ := Option.bind_eq_some_iff.mp hu
    obtain ⟨w₁, hw₁, hc⟩ := Option.bind_eq_some_iff.mp hc
    have hup : portWire S (slotAt gate.input.slots 0) = some w₀ := by
      rw [(hpins 0).1, ← hw₀]
      simp [pinWire, pins, downLabel, hne, hi.ne]
    have hleft : portWire S (slotAt gate.input.slots 1) = some w₁ := by
      rw [(hpins 1).1, ← hw₁]
      simp [pinWire, pins, leftLabel]
    obtain ⟨hdown, hright⟩ := hW.comparator h.network hg hup hleft hu hc
    constructor
    · have hpin : pins n (i + 1) j .output 0 = some (downLabel n (i + 1) j) := rfl
      obtain ⟨w, hw⟩ := h.wire (i + 1) j .output 0 _ hj' hi hpin
      have hslot : slotAt gate.output.slots 0 = some w := by
        rw [(hpins 0).2, pinWire, hpin, Option.bind_some, hw]
      rw [labelValue, hw, Option.bind_some, hdown w hslot]
    · have hpin : pins n (i + 1) j .output 1 = some (leftLabel (i + 1) (j + 1)) := by
        simp [pins, hne, leftLabel]
      obtain ⟨w, hw⟩ := h.wire (i + 1) j .output 1 _ hj' hi hpin
      have hslot : slotAt gate.output.slots 1 = some w := by
        rw [(hpins 1).2, pinWire, hpin, Option.bind_some, hw]
      rw [labelValue, hw, Option.bind_some, hright w hslot]
  diagonal := by
    intro i c hi hc
    obtain ⟨g, gate, hg, hpins⟩ := h.box i i le_rfl hi
    obtain ⟨w₁, hw₁, hc⟩ := Option.bind_eq_some_iff.mp hc
    have hup : slotAt gate.input.slots 0 = none := by
      have hnone : portWire S (slotAt gate.input.slots 0) = none := by
        rw [(hpins 0).1]
        simp [pinWire, pins]
      cases hp : slotAt gate.input.slots 0 with
      | none => rfl
      | some p =>
        obtain ⟨tp, -, htp, -⟩ := h.network.live hg 0 p hp
        simp [portWire, hp, htp] at hnone
    have hleft : portWire S (slotAt gate.input.slots 1) = some w₁ := by
      rw [(hpins 1).1, ← hw₁]
      simp [pinWire, pins, leftLabel]
    have hpin : pins n i i .output 0 = some (downLabel n i i) := rfl
    obtain ⟨w, hw⟩ := h.wire i i .output 0 _ le_rfl hi hpin
    have hslot : slotAt gate.output.slots 0 = some w := by
      rw [(hpins 0).2, pinWire, hpin, Option.bind_some, hw]
    rw [labelValue, hw, Option.bind_some, hW.diagonal h.network hg hup hleft hc hslot]

/-! ## Driving the inputs -/

/-- A call of `lxc_drive_wire_value` on the wire of an input. -/
structure Drive where
  instance_ : Option GateId
  input : Nat
  value : LxcValue

/-- A drive of one of the wires `i0`, `i1` and so on, found by its name. -/
def driveInput (fuel : Nat) (circ : IOCircuit) (W : World) (d : Drive) : Option World := do
  let w ← circ.wires (numbered "i" d.input)
  lxcDriveWireValue (callBehavior fuel) d.instance_ (some w) (some d.value) W

/-- The last value driven on an input. -/
def lastInput (drives : List Drive) (i : Nat) : Option LxcValue :=
  ((drives.filter fun d => d.input = i).getLast?).map Drive.value

@[simp] theorem lastInput_nil (i : Nat) : lastInput [] i = none := rfl

theorem lastInput_cons (d : Drive) (ds : List Drive) (i : Nat) :
    lastInput (d :: ds) i = (lastInput ds i).or (if d.input = i then some d.value else none) := by
  unfold lastInput
  by_cases hd : d.input = i
  · rw [List.filter_cons_of_pos (by simpa using hd), if_pos hd, List.getLast?_cons]
    cases (ds.filter fun d => d.input = i).getLast? <;> rfl
  · rw [List.filter_cons_of_neg (by simpa using hd), if_neg hd, Option.or_none]

theorem lastInput_isSome {drives : List Drive} {i : Nat} (h : ∃ d ∈ drives, d.input = i) :
    (lastInput drives i).isSome := by
  obtain ⟨d, hd, hi⟩ := h
  have hmem : d ∈ drives.filter fun d => d.input = i := List.mem_filter.mpr ⟨hd, by simpa using hi⟩
  rw [lastInput, Option.isSome_map, List.getLast?_isSome]
  exact List.ne_nil_of_mem hmem

namespace SortNetwork

variable {n : Nat} {circ : IOCircuit} {S : World}

/-- One call: the network is at rest again, and the value is on its input. -/
theorem drive (h : SortNetwork n circ S) {fuel : Nat} {W W' : World} (hW : SorterRest S W)
    {d : Drive} (hd : d.input < n) (hv : IsInt d.value)
    (hcall : driveInput fuel circ W d = some W') :
    SorterRest S W' ∧ ∀ i, i < n → labelValue circ W' (.input i) =
      if d.input = i then some d.value else labelValue circ W (.input i) := by
  obtain ⟨w, hw, hprimary⟩ := h.input d.input hd
  have hdrive : lxcDriveWireValue (callBehavior fuel) d.instance_ (some w) (some d.value) W =
      some W' := by
    rw [← hcall, driveInput, show circ.wires (numbered "i" d.input) = some w from hw]
    rfl
  obtain ⟨hrest, hvalues⟩ := hW.drive h.network h.acyclic hprimary hv hdrive
  refine ⟨hrest, fun i hi => ?_⟩
  obtain ⟨w', hw', hprimary'⟩ := h.input i hi
  rw [labelValue, labelValue, hw', Option.bind_some, Option.bind_some, hvalues w' hprimary']
  by_cases he : d.input = i
  · have hsame : w' = w := by
      subst he
      exact Option.some.inj (hw'.symm.trans hw)
    rw [if_pos hsame, if_pos he]
  · have hne : w' ≠ w := by
      rintro rfl
      exact he (h.input_injective _ _ w' hw hw')
    rw [if_neg hne, if_neg he]

/-- With enough fuel every sequence of calls returns and leaves the network at rest, with the last
    values on its inputs. -/
theorem run (h : SortNetwork n circ S) : ∃ depth, ∀ fuel, depth ≤ fuel → ∀ drives : List Drive,
    (∀ d ∈ drives, d.input < n ∧ IsInt d.value) → ∀ W, SorterRest S W →
      ∃ W', Run.run (driveInput fuel circ) W drives = some W' ∧ SorterRest S W' ∧
        ∀ i, i < n → labelValue circ W' (.input i) =
          (lastInput drives i).or (labelValue circ W (.input i)) := by
  obtain ⟨depth, hreturns⟩ := SorterRest.returns h.network h.finite h.acyclic
  refine ⟨depth, fun fuel hfuel drives => ?_⟩
  induction drives with
  | nil =>
    intro _ W hW
    exact ⟨W, rfl, hW, fun i _ => rfl⟩
  | cons d ds ih =>
    intro hall W hW
    obtain ⟨hd, hv⟩ := hall d List.mem_cons_self
    obtain ⟨w, hw, hprimary⟩ := h.input d.input hd
    obtain ⟨W₁, hcall⟩ := hreturns fuel hfuel W w d.value d.instance_ hW hprimary hv
    have hstep : driveInput fuel circ W d = some W₁ := by
      rw [← hcall, driveInput, show circ.wires (numbered "i" d.input) = some w from hw]
      rfl
    obtain ⟨hrest, hvalues⟩ := h.drive hW hd hv hstep
    obtain ⟨W', hrun, hrest', hlast⟩ := ih (fun d hd => hall d (List.mem_cons_of_mem _ hd)) W₁ hrest
    refine ⟨W', ?_, hrest', fun i hi => ?_⟩
    · rw [Run.run_cons, hstep]
      exact hrun
    · rw [hlast i hi, hvalues i hi, lastInput_cons, Option.or_assoc]
      split <;> rfl

/-- The values of a network at rest, all of whose inputs have values. -/
theorem sorted (h : SortNetwork n circ S) {W : World} (hW : SorterRest S W) {values : List LxcValue}
    (hlen : values.length = n)
    (hin : ∀ i, i < n → labelValue circ W (.input i) = values[i]?) {j : Nat} (hj : j < n) :
    labelValue circ W (.output j) = (Insertion.sortRows LxcValue.int values)[j]? := by
  have hlast := (h.triangle hW).last hlen (fun i hi => hin i hi) hj
  rw [← hlast]
  simp [downLabel, Nat.sub_add_cancel (Nat.one_le_of_lt hj)]

end SortNetwork

/-! ## The circuit that is built -/

/-- The flags of some gates set. -/
def World.withEnabled (W : World) (gates : List GateId) (enabled : Bool) : World :=
  { W with gates := fun g => if g ∈ gates then
      (W.gates g).map fun gate => { gate with enabled := enabled } else W.gates g }

theorem lxcCircuitSetAllGateEnable_eq (enable : Bool) :
    ∀ (gates : List GateId) (W : World), (∀ g ∈ gates, (W.gates g).isSome) →
      lxcCircuitSetAllGateEnable gates enable W = some (W.withEnabled gates enable)
  | [], W, _ => by simp [lxcCircuitSetAllGateEnable, World.withEnabled]
  | g :: gates, W, hlive => by
      obtain ⟨gate, hg⟩ := Option.isSome_iff_exists.mp (hlive g List.mem_cons_self)
      have hstep : lxcGateSetEnabled enable W g =
          some (W.setGate g { gate with enabled := enable }) := by
        simp [lxcGateSetEnabled, hg]
      have hrest := lxcCircuitSetAllGateEnable_eq enable gates
        (W.setGate g { gate with enabled := enable }) fun g' hg' => by
          by_cases he : g' = g
          · simp [World.setGate, he]
          · simpa [World.setGate, he] using hlive g' (List.mem_cons_of_mem _ hg')
      unfold lxcCircuitSetAllGateEnable at hrest ⊢
      rw [List.foldlM_cons, hstep, Option.bind_eq_bind, Option.bind_some, hrest]
      unfold World.withEnabled
      congr 2
      funext g'
      by_cases he : g' = g
      · subst he
        simp [World.setGate, hg]
      · simp [World.setGate, he]

theorem Gate.IsComparator.isSorter {box : SorterBox} {gate : Gate} (h : gate.IsComparator box) :
    gate.IsSorter where
  execute := by
    rw [h.execute]
    cases box
    · exact .inl rfl
    · exact .inr (.inl rfl)
    · exact .inr (.inr rfl)
  places := h.places
  fixed := by
    intro hne
    apply h.fixed
    rintro rfl
    exact hne h.execute

namespace Placed

variable {box : SorterBox} {base : Base} {n i j : Nat} {s : Building} {gates : List GateId}

/-- `gates` are the gates of the circuit. -/
def Lists (s : Building) (gates : List GateId) : Prop :=
  ∀ g, g ∈ gates ↔ ∃ name, s.circ.gates name = some g

theorem mem_gates (h : Placed box base n (tri n) s) (hgates : Lists s gates) {g : GateId} :
    g ∈ gates ↔ ∃ i j, j ≤ i ∧ i < n ∧ g = base.gate + (tri i + j) := by
  rw [hgates g]
  constructor
  · rintro ⟨name, hname⟩
    obtain ⟨i, j, hj, hlt, -, rfl⟩ := (h.names name g).mp hname
    refine ⟨i, j, hj, ?_, rfl⟩
    by_contra hi
    have := tri_mono (Nat.not_lt.mp hi)
    omega
  · rintro ⟨i, j, hj, hi, rfl⟩
    exact ⟨_, (h.names _ _).mpr ⟨i, j, hj, number_lt hj hi, rfl, rfl⟩⟩

/-- The gates of the circuit are enabled, and nothing else about them changes. -/
theorem enabled_gates (h : Placed box base n (tri n) s) (hgates : Lists s gates) {g : GateId}
    (hg : base.gate ≤ g) : (s.memory.withEnabled gates true).gates g =
      (s.memory.gates g).map fun gate => { gate with enabled := true } := by
  by_cases hmem : g ∈ gates
  · exact if_pos hmem
  · cases hgate : s.memory.gates g with
    | none => exact (if_neg hmem).trans hgate
    | some gate => exact absurd ((h.mem_gates hgates).mpr (h.place hg hgate)) hmem

/-- A gate of the circuit at its place. -/
theorem enabled_gate (h : Placed box base n (tri n) s) (hgates : Lists s gates) {g : GateId}
    {gate : Gate} (hgate : ((s.memory.withEnabled gates true).part base).gates g = some gate) :
    ∃ i j gate₀, j ≤ i ∧ i < n ∧ g = base.gate + (tri i + j) ∧
      s.memory.gates (base.gate + (tri i + j)) = some gate₀ ∧ gate₀.IsComparator box ∧
      gate = { gate₀ with enabled := true } := by
  obtain ⟨hg, hgate⟩ := World.part_gates_some.mp hgate
  rw [h.enabled_gates hgates hg, Option.map_eq_some_iff] at hgate
  obtain ⟨gate₀, hgate₀, rfl⟩ := hgate
  obtain ⟨i, j, hj, hi, rfl⟩ := h.place hg hgate₀
  obtain ⟨gate₁, hgate₁, hcmp⟩ := h.gate hj hi
  obtain rfl := Option.some.inj (hgate₀.symm.trans hgate₁)
  exact ⟨i, j, gate₀, hj, hi, rfl, hgate₀, hcmp, rfl⟩

/-- What is among the slots of a gate is the wire of one of its pins. -/
theorem mem_slot (h : Placed box base n (tri n) s) (hj : j ≤ i) (hi : i < n) {gate : Gate}
    (hgate : s.memory.gates (base.gate + (tri i + j)) = some gate) (dir : Direction) {c : Nat}
    (hc : some c ∈ (gate.side dir).slots) :
    ∃ k l w p, pins n i j dir k = some l ∧ s.circ.wires l.text = some w ∧
      BoundBy base s.memory (base.gate + (tri i + j)) dir k c w p := by
  obtain ⟨gate', hgate', hcmp⟩ := h.gate hj hi
  obtain rfl := Option.some.inj (hgate.symm.trans hgate')
  rcases mem_slots hc (hcmp.places dir) with hslot | hslot
  · exact ⟨0, h.slot hj hi hgate dir hslot⟩
  · exact ⟨1, h.slot hj hi hgate dir hslot⟩

theorem network (h : Placed box base n (tri n) s) (hn : tri n < 2 ^ 31) (hgates : Lists s gates) :
    ((s.memory.withEnabled gates true).part base).DirectNetwork := by
  obtain ⟨ties, hwired, -⟩ := h.wired
  refine ⟨?_, ?_, ?_, ?_, ?_, ?_⟩
  · intro g gate hgate
    obtain ⟨i, j, gate₀, -, -, -, -, hcmp, rfl⟩ := h.enabled_gate hgates hgate
    exact ⟨rfl, by rw [show gate₀.executionBehavior = _ from hcmp.executionBehavior]; rfl⟩
  · intro w wire hw
    obtain ⟨hbase, hw⟩ := World.part_wires_some.mp hw
    obtain ⟨name, hname⟩ := hwired.name w wire hbase hw
    obtain ⟨-, wire', hw', -, hdirect, -⟩ := hwired.wire name w hname
    obtain rfl := Option.some.inj (hw.symm.trans hw')
    exact hdirect
  · intro w wire hw
    obtain ⟨hbase, hw⟩ := World.part_wires_some.mp hw
    obtain ⟨l, hl, hall⟩ := hwired.entry w wire .input hbase hw
    refine ⟨l, hl, fun p hp => ?_⟩
    obtain ⟨hmine, tp, gate₀, htp, howner, hg, hgate₀, hslot⟩ := hall p hp
    refine ⟨tp, { gate₀ with enabled := true }, World.part_tokenports_some.mpr ⟨hmine, htp⟩, howner,
      World.part_gates_some.mpr ⟨hg, ?_⟩, mem_of_slotAt hslot⟩
    rw [h.enabled_gates hgates hg, hgate₀]
    rfl
  · intro g gate p hgate hp
    obtain ⟨i, j, gate₀, hj, hi, rfl, hgate₀, -, rfl⟩ := h.enabled_gate hgates hgate
    obtain ⟨k, l, w, p', -, hw, hbound⟩ := h.mem_slot hj hi hgate₀ .input hp
    obtain rfl : p = p' := hbound.content
    obtain ⟨tp, htp, rfl, htgate, -⟩ := hbound.tokenport
    obtain ⟨wire, hwire, hentry⟩ := hbound.entry
    exact ⟨tp, wire, World.part_tokenports_some.mpr ⟨hbound.mine, htp⟩, htgate,
      World.part_wires_some.mpr ⟨(hwired.wire _ _ hw).1, hwire⟩, hentry⟩
  · intro g gate w hgate hw
    obtain ⟨i, j, gate₀, hj, hi, rfl, hgate₀, -, rfl⟩ := h.enabled_gate hgates hgate
    obtain ⟨k, l, w', p, -, hname, hbound⟩ := h.mem_slot hj hi hgate₀ .output hw
    obtain rfl : w = w' := hbound.content
    obtain ⟨wire, hwire, -⟩ := hbound.entry
    exact ⟨wire, World.part_wires_some.mpr ⟨(hwired.wire _ _ hname).1, hwire⟩⟩
  · intro g g' gate gate' w hgate hgate' hw hw'
    obtain ⟨i, j, gate₀, hj, hi, rfl, hgate₀, -, rfl⟩ := h.enabled_gate hgates hgate
    obtain ⟨i', j', gate₁, hj', hi', rfl, hgate₁, -, rfl⟩ := h.enabled_gate hgates hgate'
    obtain ⟨k, l, w₀, p, hl, hname, hbound⟩ := h.mem_slot hj hi hgate₀ .output hw
    obtain ⟨k', l', w₁, p', hl', hname', hbound'⟩ :=
      h.mem_slot hj' hi' hgate₁ .output hw'
    obtain rfl : w = w₀ := hbound.content
    obtain rfl : w = w₁ := hbound'.content
    obtain rfl := h.label_injective hn (pins_valid hi hj hl) (pins_valid hi' hj' hl') hname hname'
    obtain ⟨rfl, rfl, -⟩ := pins_output_injective hl hl'
    rfl

theorem sorterNetwork (h : Placed box base n (tri n) s) (hn : tri n < 2 ^ 31)
    (hgates : Lists s gates) :
    ((s.memory.withEnabled gates true).part base).SorterNetwork where
  network := h.network hn hgates
  sorter := by
    intro g gate hgate
    obtain ⟨i, j, gate₀, -, -, -, -, hcmp, rfl⟩ := h.enabled_gate hgates hgate
    exact ⟨hcmp.isSorter.execute, hcmp.isSorter.places, hcmp.isSorter.fixed⟩
  distinct := by
    intro g gate w hgate hw hw'
    obtain ⟨i, j, gate₀, hj, hi, rfl, hgate₀, -, rfl⟩ := h.enabled_gate hgates hgate
    obtain ⟨l, w₀, p, hl, hname, hbound⟩ := h.slot hj hi hgate₀ .output hw
    obtain ⟨l', w₁, p', hl', hname', hbound'⟩ := h.slot hj hi hgate₀ .output hw'
    obtain rfl : w = w₀ := hbound.content
    obtain rfl : w = w₁ := hbound'.content
    obtain rfl := h.label_injective hn (pins_valid hi hj hl) (pins_valid hi hj hl') hname hname'
    obtain ⟨-, -, hk⟩ := pins_output_injective hl hl'
    cases hk

theorem fresh (h : Placed box base n (tri n) s) :
    ((s.memory.withEnabled gates true).part base).Fresh where
  values := by
    intro w wire hw
    obtain ⟨ties, hwired, -⟩ := h.wired
    obtain ⟨hbase, hw⟩ := World.part_wires_some.mp hw
    obtain ⟨name, hname⟩ := hwired.name w wire hbase hw
    obtain ⟨-, wire', hw', -, -, hvalue⟩ := hwired.wire name w hname
    obtain rfl := Option.some.inj (hw.symm.trans hw')
    exact hvalue
  loopBreaker := rfl

/-- A gate feeds gates that were created later. -/
theorem feeds_lt (h : Placed box base n (tri n) s) (hn : tri n < 2 ^ 31) (hgates : Lists s gates)
    {g g' : GateId} (hfeeds : ((s.memory.withEnabled gates true).part base).Feeds g g') : g < g' := by
  obtain ⟨gate, gate', w, p, tp, hgate, hgate', hw, hp, htp, rfl⟩ := hfeeds
  obtain ⟨i, j, gate₀, hj, hi, rfl, hgate₀, -, rfl⟩ := h.enabled_gate hgates hgate
  obtain ⟨i', j', gate₁, hj', hi', rfl, hgate₁, -, rfl⟩ := h.enabled_gate hgates hgate'
  obtain ⟨k, l, w₀, p₀, hl, hname, hbound⟩ := h.mem_slot hj hi hgate₀ .output hw
  obtain ⟨k', l', w₁, p₁, hl', hname', hbound'⟩ := h.mem_slot hj' hi' hgate₁ .input hp
  obtain rfl : tp.owner = w₀ := hbound.content
  obtain rfl : p = p₁ := hbound'.content
  obtain ⟨tp', htp', rfl, -⟩ := hbound'.tokenport
  obtain rfl := Option.some.inj ((World.part_tokenports_some.mp htp).2.symm.trans htp')
  obtain rfl := h.label_injective hn (pins_valid hi hj hl) (pins_valid hi' hj' hl') hname hname'
  exact Nat.add_lt_add_left (pins_output_lt hj hj' hl hl') _

theorem acyclic (h : Placed box base n (tri n) s) (hn : tri n < 2 ^ 31) (hgates : Lists s gates)
    (g : GateId) :
    ¬ Relation.TransGen ((s.memory.withEnabled gates true).part base).Feeds g g := by
  intro hcycle
  have hlt : Relation.TransGen (· < · : Nat → Nat → Prop) g g :=
    Relation.TransGen.mono (fun g g' => h.feeds_lt hn hgates) g g hcycle
  rw [Relation.transGen_eq_self] at hlt
  exact Nat.lt_irrefl g hlt

theorem finite (h : Placed box base n (tri n) s) (hgates : Lists s gates) :
    {g | (((s.memory.withEnabled gates true).part base).gates g).isSome}.Finite := by
  apply (Set.finite_Iio (base.gate + tri n)).subset
  intro g hg
  obtain ⟨gate, hgate⟩ := Option.isSome_iff_exists.mp hg
  obtain ⟨i, j, -, hj, hi, rfl, -⟩ := h.enabled_gate hgates hgate
  exact Nat.add_lt_add_left (number_lt hj hi) _

/-- No gate drives the wire of an input. -/
theorem input_primary (h : Placed box base n (tri n) s) (hn : tri n < 2 ^ 31)
    (hgates : Lists s gates) {i : Nat} (hi : i < n) :
    ∃ w, s.circ.wires (WireLabel.input i).text = some w ∧
      ((s.memory.withEnabled gates true).part base).PrimaryWire w := by
  obtain ⟨ties, hwired, -⟩ := h.wired
  obtain ⟨gate, hgate, -⟩ := h.gate (Nat.zero_le i) hi
  obtain ⟨c, w, p, -, hw, hbound⟩ := h.pin (Nat.zero_le i) hi hgate .input (k := 1) rfl
  refine ⟨w, hw, ?_, fun g gate' hgate' hslot => ?_⟩
  · obtain ⟨hbase, wire, hwire, -⟩ := hwired.wire _ w hw
    rw [World.part_wires hbase]
    exact Option.isSome_iff_exists.mpr ⟨wire, hwire⟩
  · obtain ⟨i', j', gate₀, hj', hi', rfl, hgate₀, -, rfl⟩ := h.enabled_gate hgates hgate'
    obtain ⟨k, l, w', p', hl, hname, hbound'⟩ := h.mem_slot hj' hi' hgate₀ .output hslot
    obtain rfl : w = w' := hbound'.content
    obtain rfl := h.label_injective hn (pins_valid hi' hj' hl)
      (WireLabel.valid_input n i) hname hw
    simp [pins_output_iff] at hl

/-- The circuit, with its gates enabled and alone in memory, is the sorting network. -/
theorem sortNetwork (h : Placed box base n (tri n) s) (hn : tri n < 2 ^ 31)
    (hgates : Lists s gates) :
    SortNetwork n s.circ ((s.memory.withEnabled gates true).part base) where
  network := h.sorterNetwork hn hgates
  fresh := h.fresh
  finite := h.finite hgates
  acyclic := h.acyclic hn hgates
  input := fun i => h.input_primary hn hgates
  input_injective := by
    intro i i' w hw hw'
    have hl := h.label_injective hn (WireLabel.valid_input n i) (WireLabel.valid_input n i') hw hw'
    exact WireLabel.input.inj hl
  wire := by
    intro i j dir k l hj hi hl
    obtain ⟨gate, hgate, -⟩ := h.gate hj hi
    obtain ⟨c, w, p, -, hw, -⟩ := h.pin hj hi hgate dir hl
    exact ⟨w, hw⟩
  box := by
    intro i j hj hi
    obtain ⟨gate₀, hgate₀, -⟩ := h.gate hj hi
    refine ⟨base.gate + (tri i + j), { gate₀ with enabled := true }, ?_, fun k => ⟨?_, ?_⟩⟩
    · apply World.part_gates_some.mpr
      refine ⟨Nat.le_add_right _ _, ?_⟩
      rw [h.enabled_gates hgates (Nat.le_add_right _ _), hgate₀]
      rfl
    · cases hc : slotAt gate₀.input.slots k with
      | none =>
        rw [pinWire, h.pin_none hj hi hgate₀ .input hc]
        rfl
      | some p =>
        obtain ⟨l, w, p', hl, hw, hbound⟩ := h.slot hj hi hgate₀ .input hc
        obtain rfl : p = p' := hbound.content
        obtain ⟨tp, htp, rfl, -⟩ := hbound.tokenport
        rw [pinWire, hl, Option.bind_some, hw, portWire, Option.bind_some,
          World.part_tokenports hbound.mine]
        exact congrArg (Option.map Tokenport.owner) htp
    · cases hc : slotAt gate₀.output.slots k with
      | none =>
        rw [pinWire, h.pin_none hj hi hgate₀ .output hc]
        rfl
      | some w =>
        obtain ⟨l, w', p, hl, hw, hbound⟩ := h.slot hj hi hgate₀ .output hc
        obtain rfl : w = w' := hbound.content
        rw [pinWire, hl, Option.bind_some, hw]

/-- No port of the circuit leads out of it. -/
theorem apart (h : Placed box base n (tri n) s) (hgates : Lists s gates) :
    Apart base (s.memory.withEnabled gates true) := by
  obtain ⟨ties, hwired, -⟩ := h.wired
  refine ⟨?_, ?_, ?_, hwired.tokenport, ?_⟩
  · intro g gate hg hgate
    obtain ⟨i, j, gate₀, -, -, -, -, hcmp, rfl⟩ :=
      h.enabled_gate hgates (World.part_gates_some.mpr ⟨hg, hgate⟩)
    have hsorter := hcmp.isSorter
    exact ⟨⟨hsorter.execute, hsorter.places, hsorter.fixed⟩, hcmp.executionBehavior⟩
  · intro g gate p hg hgate hp
    obtain ⟨i, j, gate₀, hj, hi, rfl, hgate₀, -, rfl⟩ :=
      h.enabled_gate hgates (World.part_gates_some.mpr ⟨hg, hgate⟩)
    obtain ⟨k, l, w, p', -, -, hbound⟩ := h.mem_slot hj hi hgate₀ .input hp
    obtain rfl : p = p' := hbound.content
    exact hbound.mine
  · intro g gate w hg hgate hw
    obtain ⟨i, j, gate₀, hj, hi, rfl, hgate₀, -, rfl⟩ :=
      h.enabled_gate hgates (World.part_gates_some.mpr ⟨hg, hgate⟩)
    obtain ⟨k, l, w', p, -, hname, hbound⟩ := h.mem_slot hj hi hgate₀ .output hw
    obtain rfl : w = w' := hbound.content
    exact (hwired.wire _ _ hname).1
  · intro w wire hbase hw
    obtain ⟨name, hname⟩ := hwired.name w wire hbase hw
    obtain ⟨-, wire', hw', -, hdirect, -⟩ := hwired.wire name w hname
    obtain rfl := Option.some.inj (hw.symm.trans hw')
    refine ⟨hdirect, fun p hp => ?_⟩
    obtain ⟨l, ⟨k, hl⟩, hall⟩ := hwired.entry w wire .input hbase hw
    rw [show wire.drivens = l.map some ++ List.replicate k none from hl] at hp
    rcases List.mem_append.mp hp with hp | hp
    · obtain ⟨p', hp', he⟩ := List.mem_map.mp hp
      exact (hall p (Option.some.inj he ▸ hp')).1
    · cases (List.mem_replicate.mp hp).2

/-- Driving the inputs does in the whole memory what it does in the part. -/
theorem driveInput_local (h : Placed box base n (tri n) s) (fuel : Nat) (d : Drive) :
    Local base fun W => driveInput fuel s.circ W d := by
  obtain ⟨ties, hwired, -⟩ := h.wired
  refine Refinement.Refines.read (f := fun _ : World => s.circ.wires (numbered "i" d.input))
    (fun _ _ => rfl) fun _ w _ hw => ?_
  apply Local.lxcDriveWireValue (Local.callBehavior fuel)
  intro w' hw'
  obtain rfl := Option.some.inj hw'
  exact (hwired.wire _ _ hw).1

theorem exists_lists (h : Placed box base n (tri n) s) : ∃ gates, Lists s gates := by
  refine ⟨(List.range (tri n)).map (base.gate + ·), fun g => ?_⟩
  rw [List.mem_map]
  constructor
  · rintro ⟨m, hm, rfl⟩
    obtain ⟨i, j, hj, rfl⟩ := exists_place m
    exact ⟨_, (h.names _ _).mpr ⟨i, j, hj, List.mem_range.mp hm, rfl, rfl⟩⟩
  · rintro ⟨name, hname⟩
    obtain ⟨i, j, hj, hlt, -, rfl⟩ := (h.names name g).mp hname
    exact ⟨tri i + j, List.mem_range.mpr hlt, rfl⟩

end Placed

/-! ## The network sorts -/

/-- When every input was driven, the last values come out in order. -/
theorem SortNetwork.sorts {n : Nat} {circ : IOCircuit} {S : World} (h : SortNetwork n circ S) :
    ∃ depth, ∀ fuel, depth ≤ fuel → ∀ drives : List Drive,
      (∀ d ∈ drives, d.input < n ∧ IsInt d.value) → (∀ i, i < n → ∃ d ∈ drives, d.input = i) →
      ∃ W', Run.run (driveInput fuel circ) S drives = some W' ∧ ∃ outs : List LxcValue,
        outs.length = n ∧ (∀ j, j < n → labelValue circ W' (.output j) = outs[j]?) ∧
        outs.Pairwise (fun v v' => v.int ≤ v'.int) ∧
        (outs.map some).Perm ((List.range n).map (lastInput drives)) := by
  obtain ⟨depth, hrun⟩ := h.run
  refine ⟨depth, fun fuel hfuel drives hall hdriven => ?_⟩
  obtain ⟨W', hW', hrest, hlast⟩ := hrun fuel hfuel drives hall S h.fresh.sorterRest
  have hinput : ∀ i, i < n → labelValue circ W' (.input i) = lastInput drives i := by
    intro i hi
    obtain ⟨w, hw, -⟩ := h.input i hi
    rw [hlast i hi, labelValue, hw, Option.bind_some, h.fresh.valueOn, Option.or_none]
  -- the last values, without the `some`s
  obtain ⟨values, hvalues⟩ : ∃ values : List LxcValue,
      values.map some = (List.range n).map (lastInput drives) := by
    have hmem : (List.range n).map (lastInput drives) ∈ Set.range (List.map some) := by
      rw [Set.range_list_map]
      intro o ho
      obtain ⟨i, hi, rfl⟩ := List.mem_map.mp ho
      have hsome := lastInput_isSome (hdriven i (List.mem_range.mp hi))
      exact ⟨_, Option.some_get hsome⟩
    exact hmem
  have hlen : values.length = n := by
    simpa using congrArg List.length hvalues
  have hin : ∀ i, i < n → labelValue circ W' (.input i) = values[i]? := by
    intro i hi
    have hget := congrArg (fun l : List (Option LxcValue) => l[i]?) hvalues
    simp only [List.getElem?_map, List.getElem?_range hi, Option.map_some] at hget
    rw [hinput i hi, List.getElem?_eq_getElem (hlen ▸ hi)]
    rw [List.getElem?_eq_getElem (hlen ▸ hi), Option.map_some, Option.some.injEq] at hget
    exact hget.symm
  refine ⟨W', hW', Insertion.sortRows LxcValue.int values, ?_, ?_, Insertion.sortRows_pairwise _, ?_⟩
  · rw [(Insertion.sortRows_perm values).length_eq, hlen]
  · exact fun j hj => h.sorted hrest hlen hin hj
  · rw [← hvalues]
    exact (Insertion.sortRows_perm values).map some

/-- The network of `n` rows, built in memory that is allocated at fresh addresses, whatever else
    is there. `drives` are the calls of `lxc_drive_wire_value`; every recursion that they start
    ends within `depth`. -/
theorem computerphileSort_sorts (ex : ExecCall → World → Option World) (box : SorterBox)
    (junk : Nat → Nat) {n : Nat} (hn : n * (n + 1) / 2 < 2 ^ 31) {W : World} {nextGate : GateId}
    (hgates : ∀ g, nextGate ≤ g → W.gates g = none)
    (hwires : ∀ w, W.nextWire ≤ w → W.wires w = none)
    (htokenports : ∀ p, W.nextTokenport ≤ p → W.tokenports p = none) :
    ∃ s, createComputerphileSortNetwork ex (box.creator junk) n nextGate W = some s ∧
      (∃ gates : List GateId, ∀ g, g ∈ gates ↔ ∃ name, s.circ.gates name = some g) ∧
      ∀ gates : List GateId, (∀ g, g ∈ gates ↔ ∃ name, s.circ.gates name = some g) →
        ∃ W₀, lxcCircuitSetAllGateEnable gates true s.memory = some W₀ ∧
        ∃ depth, ∀ fuel, depth ≤ fuel → ∀ drives : List Drive,
          (∀ d ∈ drives, d.input < n ∧ IsInt d.value) →
          (∀ i, i < n → ∃ d ∈ drives, d.input = i) →
          ∃ W', Run.run (driveInput fuel s.circ) W₀ drives = some W' ∧
          ∃ outs : List LxcValue, outs.length = n ∧
            (∀ j, j < n → ∃ w, s.circ.wires (numbered "o" j) = some w ∧ W'.valueOn w = outs[j]?) ∧
            outs.Pairwise (fun v v' => v.int ≤ v'.int) ∧
            (outs.map some).Perm ((List.range n).map (lastInput drives)) := by
  rw [← tri_eq] at hn
  obtain ⟨s, hcreate, hplaced⟩ :=
    createComputerphileSortNetwork_placed ex box junk hn.le hgates hwires htokenports
  refine ⟨s, hcreate, hplaced.exists_lists, fun gates hlists => ?_⟩
  have hlive : ∀ g ∈ gates, (s.memory.gates g).isSome := by
    intro g hg
    obtain ⟨i, j, hj, hi, rfl⟩ := (hplaced.mem_gates hlists).mp hg
    obtain ⟨gate, hgate, -⟩ := hplaced.gate hj hi
    rw [hgate]
    rfl
  refine ⟨_, lxcCircuitSetAllGateEnable_eq true gates s.memory hlive, ?_⟩
  have hnet := hplaced.sortNetwork hn hlists
  obtain ⟨depth, hsorts⟩ := hnet.sorts
  refine ⟨depth, fun fuel hfuel drives hall hdriven => ?_⟩
  obtain ⟨S', hS', outs, hlen, houts, hpairwise, hperm⟩ := hsorts fuel hfuel drives hall hdriven
  -- the same run in the whole memory
  have hlocal := Refinement.Refines.run drives
    fun d _ => hplaced.driveInput_local fuel d
  obtain ⟨W', hW', rfl, -⟩ := hlocal.returns (hplaced.apart hlists) hS'
  refine ⟨W', hW', outs, hlen, fun j hj => ?_, hpairwise, hperm⟩
  have hvalue := houts j hj
  rw [List.getElem?_eq_getElem (hlen ▸ hj)] at hvalue ⊢
  obtain ⟨w, hw, hv⟩ := Option.bind_eq_some_iff.mp hvalue
  obtain ⟨ties, hwired, -⟩ := hplaced.wired
  refine ⟨w, hw, ?_⟩
  rw [← hv, World.valueOn, World.valueOn, World.part_wires (hwired.wire _ w hw).1]

/-- A value object of type `int`. -/
def intValue (id : Nat) (i : Int) : LxcValue :=
  { id := id, type := .int, subtypeInfo := 0, data := .int i }

/-- A network of two rows of special boxes in empty memory; the second input is driven twice. -/
theorem computerphileSort_sorts_two :
    ∃ s, createComputerphileSortNetwork (callBehavior 1) (SorterBox.spec.creator fun _ => 0) 2 0
        (World.ofLists [] [] []) = some s ∧
      ∃ gates W₀ fuel W', lxcCircuitSetAllGateEnable gates true s.memory = some W₀ ∧
        Run.run (driveInput fuel s.circ) W₀
          [⟨none, 0, intValue 2 5⟩, ⟨none, 1, intValue 3 7⟩, ⟨none, 1, intValue 4 3⟩] = some W' ∧
        ∃ outs : List LxcValue,
          (outs.map some).Perm [some (intValue 2 5), some (intValue 4 3)] ∧
          outs.Pairwise (fun v v' => v.int ≤ v'.int) ∧
          ∀ j : Nat, j < 2 → ∃ w, s.circ.wires (numbered "o" j) = some w ∧
            W'.valueOn w = outs[j]? := by
  obtain ⟨s, hcreate, ⟨gates, hlists⟩, hall⟩ := computerphileSort_sorts (callBehavior 1) .spec
    (fun _ => 0) (n := 2) (by decide) (W := World.ofLists [] [] [])
    (fun _ _ => rfl : ∀ g, 0 ≤ g → (World.ofLists [] [] []).gates g = none)
    (fun _ _ => rfl) (fun _ _ => rfl)
  obtain ⟨W₀, henable, depth, hsorts⟩ := hall gates hlists
  obtain ⟨W', hrun, outs, -, houts, hpairwise, hperm⟩ := hsorts depth le_rfl
    [⟨none, 0, intValue 2 5⟩, ⟨none, 1, intValue 3 7⟩, ⟨none, 1, intValue 4 3⟩]
    (by
      intro d hd
      simp only [List.mem_cons, List.not_mem_nil, or_false] at hd
      rcases hd with rfl | rfl | rfl
      · exact ⟨by decide, 5, rfl⟩
      · exact ⟨by decide, 7, rfl⟩
      · exact ⟨by decide, 3, rfl⟩)
    (by
      intro i hi
      interval_cases i
      · exact ⟨_, List.mem_cons_self, rfl⟩
      · exact ⟨_, List.mem_cons_of_mem _ List.mem_cons_self, rfl⟩)
  exact ⟨s, hcreate, gates, W₀, depth, W', henable, hrun, outs, hperm, hpairwise, houts⟩

end LogxControll
