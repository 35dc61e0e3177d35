/-
  Networks of sorter boxes with direct propagation.

  The three sorter boxes execute alike (`World.SorterNetwork.executesAs`): a box waits until every
  wired input has a value, and drives its outputs then. A network of them without cycles comes to
  rest after every call from outside (`SorterRest.drive`), and what is on the output wires of a
  box is what `Insertion.comparator` makes of its inputs (`SorterRest.comparator`).
-/
import LogxControll.Lib.Confinement
import LogxControll.Lib.Insertion
import LogxControll.Execution.DirectNetwork

namespace LogxControll

open Propagation Refinement

/-! ## Sorter boxes as nodes -/

/-- A sorter box with its places on either side: two, or in a porti gate those it has grown. -/
structure Gate.IsSorter (gate : Gate) : Prop where
  execute : gate.execute = .portiSorter ∨ gate.execute = .portbSorter ∨
    gate.execute = .specSorter
  places : ∀ dir, (gate.side dir).slots.length ≤ 2
  fixed : gate.execute ≠ .portiSorter → ∀ dir, (gate.side dir).slots.length = 2

/-- `int` values. -/
def IsInt (v : LxcValue) : Prop := ∃ i, v.data = .int i

/-- What `*(int*) lxc_get_value(v)` reads of such a value. -/
def LxcValue.int (v : LxcValue) : Int := v.data.asInt.getD 0

/-- The values a box compares, of the values on its wired inputs; `none` when one is missing. -/
def sorterArguments (up left : Option TokenportId) (values : List (Option LxcValue)) :
    Option (Option LxcValue × Option LxcValue) :=
  match up, left, values with
  | some _, some _, [some a, some b] => some (some a, some b)
  | some _, none, [some a] => some (some a, none)
  | none, some _, [some b] => some (none, some b)
  | _, _, _ => none

/-- A call of `lxc_drive_wire_value` that drives something. -/
def drives (w : Option WireId) (value : Option LxcValue) : List (WireId × LxcValue) :=
  match w, value with
  | some w, some value => [(w, value)]
  | _, _ => []

/-- What a box drives. -/
def sorterActions : Actions := fun gate values =>
  match (sorterArguments (slotAt gate.input.slots 0) (slotAt gate.input.slots 1) values).bind
      fun args => compareValues args.1 args.2 with
  | some (goDown, goRight) =>
    drives (slotAt gate.output.slots 0) goDown ++ drives (slotAt gate.output.slots 1) goRight
  | none => []

/-- A network of sorter boxes, whose two outputs are never wired together. -/
structure World.SorterNetwork (W : World) : Prop where
  network : W.DirectNetwork
  sorter : ∀ g gate, W.gates g = some gate → gate.IsSorter
  distinct : ∀ g gate w, W.gates g = some gate → slotAt gate.output.slots 0 = some w →
    slotAt gate.output.slots 1 ≠ some w

section Slots

variable {slots : List (Option Nat)}

theorem arrayFixTryGet_of_le {length index : Nat} (h : length ≤ slots.length)
    (hall : index < length ∨ slots.length ≤ index) :
    arrayFixTryGet slots length index = some (slotAt slots index) := by
  unfold arrayFixTryGet
  rcases hall with hi | hi
  · rw [if_neg (Nat.not_le.mpr hi), slotAt_eq (hi.trans_le h)]
  · rw [if_pos (h.trans hi), slotAt_of_le hi]

/-- The wired places are the wired ones of the first two. -/
theorem filterMap_slots {α : Type} (h : slots.length ≤ 2) (f : Nat → Option α) :
    slots.filterMap (fun c => c.bind f) =
      ((slotAt slots 0).bind f).toList ++ ((slotAt slots 1).bind f).toList := by
  match slots, h with
  | [], _ => rfl
  | [a], _ =>
    cases ha : a.bind f <;> simp [slotAt, ha]
  | [a, b], _ =>
    cases ha : a.bind f <;> cases hb : b.bind f <;> simp [slotAt, ha, hb]

theorem mem_slots {c : Nat} (h : some c ∈ slots) (hlen : slots.length ≤ 2) :
    slotAt slots 0 = some c ∨ slotAt slots 1 = some c := by
  match slots, hlen, h with
  | [a], _, h => exact .inl (List.mem_singleton.mp h).symm
  | [a, b], _, h => exact (List.mem_pair.mp h).imp Eq.symm Eq.symm

theorem mem_of_slotAt {i c : Nat} (h : slotAt slots i = some c) : some c ∈ slots := by
  have hlt : i < slots.length := by
    by_contra hle
    rw [slotAt_of_le (Nat.not_lt.mp hle)] at h
    cases h
  rw [← h]
  exact List.mem_of_getElem? (slotAt_eq hlt)

theorem twoSlots_eq {side : PortSide} {length : Nat} (hlen : length = side.slots.length) :
    twoSlots side length = some (slotAt side.slots 0, slotAt side.slots 1) := by
  have hget : ∀ i, arrayFixTryGet side.slots length i = some (slotAt side.slots i) :=
    fun i => arrayFixTryGet_of_le hlen.le (by omega)
  simp [twoSlots, hget]

end Slots

namespace Gate.IsSorter

variable {gate : Gate}

/-- The three execute functions have one text, but for the fetching of the ports. -/
theorem run_eq (h : gate.IsSorter) {W : World} {g : GateId} (hg : W.gates g = some gate)
    (call : ExecCall → World → Option World) :
    ∃ outputs : Gate → Option (Option WireId × Option WireId),
      outputs gate = some (slotAt gate.output.slots 0, slotAt gate.output.slots 1) ∧
      gate.execute.run call g W =
        sorterExec call g (slotAt gate.input.slots 0) (slotAt gate.input.slots 1) outputs W := by
  rcases h.execute with he | he | he
  · refine ⟨fun g => twoSlots g.output g.output.slots.length, twoSlots_eq rfl, ?_⟩
    have hin : twoSlots gate.input gate.input.slots.length = _ := twoSlots_eq rfl
    simp [he, Execute.run, portiSorterExec, hg, hin]
  · have hfixed := h.fixed (by rw [he]; simp)
    refine ⟨fun g => twoSlots g.output 2, twoSlots_eq (hfixed .output).symm, ?_⟩
    have hin : twoSlots gate.input 2 = _ := twoSlots_eq (hfixed .input).symm
    simp [he, Execute.run, portbSorterExec, hg, hin]
  · have hfixed := h.fixed (by rw [he]; simp)
    refine ⟨fun g => twoSlots g.output 2, twoSlots_eq (hfixed .output).symm, ?_⟩
    have hin : twoSlots gate.input 2 = _ := twoSlots_eq (hfixed .input).symm
    simp [he, Execute.run, specSorterExec, hg, hin]

end Gate.IsSorter

/-! ## What a box reads -/

section Reading

variable {W₀ W : World} {ok : LxcValue → Prop} {up left : Option TokenportId}

/-- The port is unwired, or its tokenport and its wire are live. -/
def Live (W₀ : World) (port : Option TokenportId) : Prop :=
  ∀ p, port = some p → ∃ tp wire, W₀.tokenports p = some tp ∧ W₀.wires tp.owner = some wire

/-- The wire of a port. -/
def portWire (W₀ : World) (port : Option TokenportId) : Option WireId :=
  port.bind fun p => (W₀.tokenports p).map Tokenport.owner

@[simp] theorem portWire_none (W₀ : World) : portWire W₀ none = none := rfl

/-- The value on the wire of a port. -/
def portValue (W₀ W : World) (port : Option TokenportId) : Option LxcValue :=
  (portWire W₀ port).bind W.state.value

/-- The values on the wires of the wired ports. -/
def portValues (W₀ W : World) (up left : Option TokenportId) : List (Option LxcValue) :=
  ((portWire W₀ up).toList ++ (portWire W₀ left).toList).map W.state.value

theorem Live.wire (h : Live W₀ up) (hW : AtWork W₀ ok W) (hnet : W₀.DirectNetwork)
    {p : TokenportId} (hp : up = some p) :
    ∃ tp wire, W.tokenports p = some tp ∧ W.wires tp.owner = some wire ∧
      wire.handler = .directPropagateValue ∧
      lxcGetTokenValue W p = some (portValue W₀ W up) := by
  obtain ⟨tp, wire₀, htp, hw⟩ := h p hp
  obtain ⟨wire, hw', he⟩ := hW.wire hw
  have hdirect : wire.handler = wire₀.handler := by simpa [Wire.bare] using congrArg Wire.handler he
  refine ⟨tp, wire, by rw [hW.tokenports, htp], hw', by rw [hdirect, hnet.handler _ _ hw], ?_⟩
  rw [hW.token_eq hnet htp hw, hp]
  simp [portValue, portWire, htp]

theorem tokenValue?_eq (h : Live W₀ up) (hW : AtWork W₀ ok W) (hnet : W₀.DirectNetwork) :
    tokenValue? W up = some (portValue W₀ W up) := by
  cases hp : up with
  | none => rfl
  | some p =>
    obtain ⟨tp, wire, -, -, -, htoken⟩ := h.wire hW hnet hp
    rw [← hp, ← htoken, hp]
    rfl

theorem lxcWireTokenAvailable_eq (h : Live W₀ up) (hW : AtWork W₀ ok W)
    (hnet : W₀.DirectNetwork) :
    lxcWireTokenAvailable W up = some (portValue W₀ W up).isSome := by
  cases hp : up with
  | none => rfl
  | some p =>
    obtain ⟨tp, wire, -, -, -, htoken⟩ := h.wire hW hnet hp
    rw [← hp]
    simp [lxcWireTokenAvailable, hp ▸ htoken, hp]

theorem lxcWireReleaseToken_live (h : Live W₀ up) (hW : AtWork W₀ ok W)
    (hnet : W₀.DirectNetwork) : lxcWireReleaseToken up W = some W := by
  cases hp : up with
  | none => rfl
  | some p =>
    obtain ⟨tp, wire, htp, hw, -, -⟩ := h.wire hW hnet hp
    simp [lxcWireReleaseToken, htp, hw]

theorem absorbIf_live (h : Live W₀ up) (hW : AtWork W₀ ok W) (hnet : W₀.DirectNetwork) :
    absorbIf (portValue W₀ W up) up W = some W := by
  cases hp : up with
  | none => rfl
  | some p =>
    obtain ⟨tp, wire, htp, hw, hdirect, -⟩ := h.wire hW hnet hp
    cases hv : portValue W₀ W (some p) with
    | none => rfl
    | some v => simp [absorbIf, lxcAbsorbToken, htp, hw, hdirect]

/-- Its arguments are complete when every wired port has a value. -/
theorem sorterArguments_eq (hup : Live W₀ up) (hleft : Live W₀ left) :
    sorterArguments up left (portValues W₀ W up left) =
      if (portValue W₀ W up = none ∧ portValue W₀ W left = none) ∨
          (up.isSome ∧ portValue W₀ W up = none) ∨ (left.isSome ∧ portValue W₀ W left = none) then
        none
      else some (portValue W₀ W up, portValue W₀ W left) := by
  have hlive : ∀ port p, Live W₀ port → port = some p → ∃ w, portWire W₀ port = some w := by
    intro port p hport hp
    obtain ⟨tp, wire, htp, -⟩ := hport p hp
    exact ⟨tp.owner, by simp [portWire, hp, htp]⟩
  cases hp : up with
  | none =>
    cases hq : left with
    | none => rfl
    | some q =>
      obtain ⟨w, hw⟩ := hlive left q hleft hq
      rw [hq] at hw
      cases hv : W.state.value w <;>
        simp [sorterArguments, portValues, portValue, hw, hv]
  | some p =>
    obtain ⟨w, hw⟩ := hlive up p hup hp
    rw [hp] at hw
    cases hq : left with
    | none =>
      cases hv : W.state.value w <;>
        simp [sorterArguments, portValues, portValue, hw, hv]
    | some q =>
      obtain ⟨w', hw'⟩ := hlive left q hleft hq
      rw [hq] at hw'
      cases hv : W.state.value w <;> cases hv' : W.state.value w' <;>
        simp [sorterArguments, portValues, portValue, hw, hv, hw', hv']

end Reading

/-! ## Executing a box -/

section Executing

variable {W₀ : World} {actions : Actions} {ok : LxcValue → Prop}
  {call : ExecCall → World → Option World}
  {notify : GateId → State GateId WireId LxcValue → Option (State GateId WireId LxcValue)}

/-- Driving an output that may be unwired, with a value that may be NULL. -/
theorem drives_refines (hnet : W₀.DirectNetwork) (hcall : CallRefines W₀ ok call notify)
    {w : Option WireId} {value : Option LxcValue}
    (hw : ∀ w', w = some w' → ∃ wire, W₀.wires w' = some wire)
    (hvalue : ∀ v, value = some v → ok v) (g : GateId) {m : World → Option World}
    {acts : List (WireId × LxcValue)}
    (hm : Refines (AtWork W₀ ok) World.state m ((W₀.net actions).driveAll notify acts)) :
    Refines (AtWork W₀ ok) World.state
      (fun W => (lxcDriveWireValue call (some g) w value W).bind m)
      ((W₀.net actions).driveAll notify (drives w value ++ acts)) := by
  cases hw' : w with
  | none => exact hm
  | some w' =>
    cases hv : value with
    | none => exact hm
    | some v =>
      obtain ⟨wire, hwire⟩ := hw w' hw'
      exact (lxcDriveWireValue_refines hnet hcall hwire (hvalue v hv) (some g)).bind hm

theorem compareValues_int {a b : Option LxcValue} (ha : ∀ v, a = some v → IsInt v)
    (hb : ∀ v, b = some v → IsInt v) :
    ∃ goDown goRight, compareValues a b = some (goDown, goRight) ∧
      (∀ v, goDown = some v → IsInt v) ∧ ∀ v, goRight = some v → IsInt v := by
  cases a with
  | none => exact ⟨b, none, rfl, hb, by simp⟩
  | some v =>
    cases b with
    | none => exact ⟨some v, none, rfl, ha, by simp⟩
    | some v' =>
      obtain ⟨i, hi⟩ := ha v rfl
      obtain ⟨i', hi'⟩ := hb v' rfl
      by_cases hlt : i < i'
      · exact ⟨some v, some v', by simp [compareValues, hi, hi', Data.asInt, hlt], ha, hb⟩
      · exact ⟨some v', some v, by simp [compareValues, hi, hi', Data.asInt, hlt], hb, ha⟩

theorem World.SorterNetwork.live (h : W₀.SorterNetwork) {g : GateId} {gate : Gate}
    (hg : W₀.gates g = some gate) (i : Nat) : Live W₀ (slotAt gate.input.slots i) :=
  fun p hp => h.network.listedIn hg p (mem_of_slotAt hp)

/-- The values on the inputs of a box. -/
theorem World.SorterNetwork.read_eq (h : W₀.SorterNetwork) {g : GateId} {gate : Gate}
    (hg : W₀.gates g = some gate) (W : World) :
    (W₀.net actions).read W.state g =
      portValues W₀ W (slotAt gate.input.slots 0) (slotAt gate.input.slots 1) := by
  have hlen : gate.input.slots.length ≤ 2 := (h.sorter g gate hg).places .input
  unfold Net.read portValues
  rw [(net_gate hg).1, World.wiresOf, filterMap_slots hlen]
  rfl

/-- A box drives when its arguments are complete, and does nothing otherwise. -/
theorem sorterExec_eq {W : World} {up left : Option TokenportId} {g : GateId} {gate : Gate}
    {outputs : Gate → Option (Option WireId × Option WireId)} {down right : Option WireId}
    (hnet : W₀.DirectNetwork) (hW : AtWork W₀ ok W) (hup : Live W₀ up) (hleft : Live W₀ left)
    (hg : W₀.gates g = some gate) (hout : outputs gate = some (down, right)) :
    sorterExec call g up left outputs W =
      match sorterArguments up left (portValues W₀ W up left) with
      | none => some W
      | some (a, b) => (compareValues a b).bind fun r =>
        (lxcDriveWireValue call (some g) down r.1 W).bind fun W =>
          (lxcDriveWireValue call (some g) right r.2 W).bind fun W =>
            (lxcWireReleaseToken up W).bind (lxcWireReleaseToken left) := by
  unfold sorterExec
  simp only [lxcWireTokenAvailable_eq hup hW hnet, lxcWireTokenAvailable_eq hleft hW hnet,
    tokenValue?_eq hup hW hnet, tokenValue?_eq hleft hW hnet,
    lxcWireReleaseToken_live hup hW hnet, lxcWireReleaseToken_live hleft hW hnet,
    absorbIf_live hup hW hnet, absorbIf_live hleft hW hnet, hW.gates, hg, hout,
    sorterArguments_eq hup hleft, Option.bind_eq_bind, Option.bind_some,
    Option.not_isSome_iff_eq_none, Option.isNone_iff_eq_none]
  by_cases hnone : portValue W₀ W up = none ∧ portValue W₀ W left = none
  · rw [if_pos hnone, if_pos (.inl hnone)]
    rfl
  rw [if_neg hnone]
  by_cases hmissing : (up.isSome ∧ portValue W₀ W up = none) ∨
      (left.isSome ∧ portValue W₀ W left = none)
  · rw [if_pos hmissing, if_pos (.inr hmissing)]
  · rw [if_neg hmissing, if_neg (not_or.mpr ⟨hnone, hmissing⟩)]

/-- Releasing the tokens of direct wires changes nothing. -/
theorem releaseTokens_refines {up left : Option TokenportId} (hnet : W₀.DirectNetwork)
    (hup : Live W₀ up) (hleft : Live W₀ left) :
    Refines (AtWork W₀ ok) World.state
      (fun W => (lxcWireReleaseToken up W).bind (lxcWireReleaseToken left))
      ((W₀.net actions).driveAll notify []) := by
  apply Refines.pure.congr
  · intro W hW
    rw [lxcWireReleaseToken_live hup hW hnet, Option.bind_some,
      lxcWireReleaseToken_live hleft hW hnet]
  · intro _ _
    rfl

/-- Executing a box is what its node does. -/
theorem World.SorterNetwork.executesAs (h : W₀.SorterNetwork) :
    ExecutesAs W₀ IsInt sorterActions := by
  intro call notify hcall g gate hg W hW
  obtain ⟨outputs, hout, hrun⟩ :=
    (h.sorter g gate hg).run_eq (by rw [hW.gates, hg] : W.gates g = some gate) call
  have hup := h.live hg 0
  have hleft := h.live hg 1
  have hread : (W₀.net sorterActions).read W.state g = _ := h.read_eq hg W
  have hwire : ∀ i w, slotAt gate.output.slots i = some w → ∃ wire, W₀.wires w = some wire :=
    fun i w hw => h.network.outputs g gate w hg (mem_of_slotAt hw)
  unfold Net.fire
  beta_reduce
  rw [hread, (net_gate hg).2.2, hrun, sorterExec_eq h.network hW hup hleft hg hout]
  unfold sorterActions
  cases hargs : sorterArguments (slotAt gate.input.slots 0) (slotAt gate.input.slots 1)
      (portValues W₀ W (slotAt gate.input.slots 0) (slotAt gate.input.slots 1)) with
  | none => exact Refines.pure W hW
  | some args =>
    have hvalue : ∀ port v, portValue W₀ W port = some v → IsInt v := by
      intro port v hv
      obtain ⟨w, -, hv⟩ := Option.bind_eq_some_iff.mp hv
      exact hW.values w v hv
    rw [sorterArguments_eq hup hleft, Option.ite_none_left_eq_some, Option.some.injEq] at hargs
    obtain ⟨-, rfl⟩ := hargs
    obtain ⟨goDown, goRight, hcompare, hdown, hright⟩ :=
      compareValues_int (hvalue (slotAt gate.input.slots 0)) (hvalue (slotAt gate.input.slots 1))
    simp only [Option.bind_some, hcompare]
    have hrelease : Refines (AtWork W₀ IsInt) World.state _
        ((W₀.net sorterActions).driveAll notify []) :=
      releaseTokens_refines h.network hup hleft
    have hboth := drives_refines h.network hcall (hwire 0) hdown g
      (drives_refines h.network hcall (hwire 1) hright g hrelease)
    rw [List.append_nil] at hboth
    exact hboth W hW

end Executing

/-! ## Networks of boxes without cycles -/

section Rest

variable {W₀ W W' : World}

theorem drives_sublist (w : Option WireId) (value : Option LxcValue) :
    ((drives w value).map Prod.fst).Sublist w.toList := by
  cases w <;> cases value <;> simp [drives]

theorem World.SorterNetwork.wellFormed (h : W₀.SorterNetwork) :
    (W₀.net sorterActions).WellFormed := by
  apply h.network.wellFormed
  intro g gate l hg
  have hlen : gate.output.slots.length ≤ 2 := (h.sorter g gate hg).places .output
  have houts : gate.output.slots.filterMap id =
      (slotAt gate.output.slots 0).toList ++ (slotAt gate.output.slots 1).toList := by
    have hsome := filterMap_slots hlen some
    simp only [Option.bind_fun_some] at hsome
    exact hsome
  rw [houts]
  unfold sorterActions
  split
  · rw [List.map_append]
    exact (drives_sublist _ _).append (drives_sublist _ _)
  · exact List.nil_sublist _

theorem World.SorterNetwork.nodup (h : W₀.SorterNetwork) (g : GateId)
    (l : List (Option LxcValue)) :
    (((W₀.net sorterActions).actions g l).map Prod.fst).Nodup := by
  cases hg : W₀.gates g with
  | none => simp [World.net, hg]
  | some gate =>
    rw [(net_gate hg).2.2]
    unfold sorterActions
    split
    · next goDown goRight _ =>
      cases hd : slotAt gate.output.slots 0 with
      | none => cases slotAt gate.output.slots 1 <;> cases goRight <;> simp [drives]
      | some w =>
        have hne := h.distinct g gate w hg hd
        cases hr : slotAt gate.output.slots 1 with
        | none => cases goDown <;> simp [drives]
        | some w' =>
          have hne' : w ≠ w' := fun e => hne (by rw [hr, e])
          cases goDown <;> cases goRight <;> simp [drives, hne']
    · exact List.nodup_nil

/-- The state between two calls from outside: every box has its result on its wires. -/
structure SorterRest (W₀ W : World) : Prop where
  work : AtWork W₀ IsInt W
  idle : W.loopBreaker = none
  settled : ∀ g, (W₀.net sorterActions).Settled W.state g

theorem World.Fresh.sorterRest (h : W₀.Fresh) : SorterRest W₀ W₀ := by
  have hnone : ∀ w, W₀.state.value w = none := h.valueOn
  refine ⟨⟨rfl, rfl, fun _ => rfl, ?_, ?_⟩, h.loopBreaker, ?_⟩
  · intro w v hv
    rw [hnone w] at hv
    cases hv
  · intro q t hq
    rw [h.loopBreaker] at hq
    cases hq
  · intro g hlive
    obtain ⟨w, -, hv⟩ := hlive
    rw [hnone w] at hv
    cases hv

theorem lxcDriveWireValue_sorter (h : W₀.SorterNetwork) {w : WireId} (hw : W₀.PrimaryWire w)
    {v : LxcValue} (hv : IsInt v) (n : Nat) (instance_ : Option GateId) :
    Refines (AtWork W₀ IsInt) World.state (lxcDriveWireValue (callBehavior n) instance_ w v)
      ((W₀.net sorterActions).drive ((W₀.net sorterActions).notify n) w v) := by
  obtain ⟨wire, hwire⟩ := Option.isSome_iff_exists.mp hw.1
  exact lxcDriveWireValue_refines h.network (callBehavior_refines h.network h.executesAs n) hwire
    hv instance_

/-- A call from outside on a wire that no box drives, when it returns, leaves everything at rest,
    and of these wires it changed the one that it drove. -/
theorem SorterRest.drive (h : W₀.SorterNetwork)
    (hacyclic : ∀ g, ¬ Relation.TransGen W₀.Feeds g g) (hW : SorterRest W₀ W) {w : WireId}
    (hw : W₀.PrimaryWire w) {v : LxcValue} (hv : IsInt v) {n : Nat} {instance_ : Option GateId}
    (hcall : lxcDriveWireValue (callBehavior n) instance_ w v W = some W') :
    SorterRest W₀ W' ∧ ∀ w', W₀.PrimaryWire w' →
      W'.valueOn w' = if w' = w then some v else W.valueOn w' := by
  obtain ⟨hdrive, hwork⟩ := (lxcDriveWireValue_sorter h hw hv n instance_).result hW.work hcall
  have hidle : W.state.queue = none := by rw [World.state, hW.idle]; rfl
  have hno : ∀ g, ¬ (W₀.net sorterActions).After g g :=
    fun g hg => hacyclic g (h.network.transGen_feeds hg)
  have hsettles := drive_primary_settles h.wellFormed
    (notify_settles_of_acyclic h.wellFormed hno h.nodup n) hw.primary hdrive
  have hconfined : (W₀.net sorterActions).Confined (fun _ => True) (W.state.set w v) W'.state :=
    drive_confined (notify_confined h.wellFormed (fun _ _ _ _ => trivial) n)
      (fun _ _ => trivial) hdrive
  have hqueue := hsettles.idle hidle
  refine ⟨⟨hwork, Option.map_eq_none_iff.mp hqueue, fun g => ?_⟩, fun w' hw' => ?_⟩
  · by_contra hg
    rcases hsettles.unsettled g hg with ⟨-, hg'⟩ | hp
    · exact hg' (hW.settled g)
    · rw [State.pending, hqueue] at hp
      cases hp
  · have hkept : W'.valueOn w' = (W.state.set w v).value w' :=
      hconfined.kept w' fun g _ => hw'.primary g
    rw [hkept]
    split
    · next he => rw [he, State.set_value_self]
    · next he => exact W.state.set_value_ne he v

/-- With enough fuel every call from outside returns. -/
theorem SorterRest.returns (h : W₀.SorterNetwork) (hfinite : {g | (W₀.gates g).isSome}.Finite)
    (hacyclic : ∀ g, ¬ Relation.TransGen W₀.Feeds g g) :
    ∃ depth, ∀ n, depth ≤ n → ∀ W w v instance_, SorterRest W₀ W → W₀.PrimaryWire w → IsInt v →
      ∃ W', lxcDriveWireValue (callBehavior n) instance_ (some w) (some v) W = some W' := by
  obtain ⟨cost, hcost⟩ :=
    exists_budget (W₀.net sorterActions) (h.network.wellFounded hfinite hacyclic).2
  obtain ⟨bound, hbound⟩ := (hfinite.image cost).bddAbove
  refine ⟨bound + 1, fun n hn W w v instance_ hW hw hv => ?_⟩
  have hall : ∀ g ∈ (W₀.net sorterActions).readers w, ∀ s, ∃ s',
      (W₀.net sorterActions).notify n g s = some s' ∧ Spends cost (cost g) s s' := by
    intro g hg
    obtain ⟨gate, -, -, hgate, -⟩ := mem_inputs_iff.mp (h.network.mem_readers_iff.mp hg)
    have hsome : (W₀.gates g).isSome := by rw [hgate]; rfl
    have hle : cost g ≤ bound := hbound (Set.mem_image_of_mem cost hsome)
    exact notify_returns h.wellFormed hcost n g (by omega)
  obtain ⟨s', hdrive, -⟩ := drive_returns v W.state hall
  obtain ⟨W', hcall, -⟩ := (lxcDriveWireValue_sorter h hw hv n instance_).returns hW.work hdrive
  exact ⟨W', hcall⟩

/-! ## What a box at rest has on its wires -/

section Results

variable {g : GateId} {gate : Gate}

/-- What a box drives, when its arguments are complete, is on its wires. -/
theorem SorterRest.result (h : W₀.SorterNetwork) (hW : SorterRest W₀ W)
    (hg : W₀.gates g = some gate) {args r : Option LxcValue × Option LxcValue}
    (hargs : sorterArguments (slotAt gate.input.slots 0) (slotAt gate.input.slots 1)
      (portValues W₀ W (slotAt gate.input.slots 0) (slotAt gate.input.slots 1)) = some args)
    (hr : compareValues args.1 args.2 = some r) {w : WireId} {v : LxcValue}
    (hdrives : (w, v) ∈ drives (slotAt gate.output.slots 0) r.1 ++
      drives (slotAt gate.output.slots 1) r.2) : W.valueOn w = some v := by
  have hacts : (W₀.net sorterActions).actions g ((W₀.net sorterActions).read W.state g) =
      drives (slotAt gate.output.slots 0) r.1 ++ drives (slotAt gate.output.slots 1) r.2 := by
    rw [h.read_eq hg, (net_gate hg).2.2, sorterActions, hargs, Option.bind_some, hr]
  have hlive : (W₀.net sorterActions).Live W.state g := by
    rw [sorterArguments_eq (h.live hg 0) (h.live hg 1), Option.ite_none_left_eq_some] at hargs
    obtain ⟨hsome, -⟩ := hargs
    have hport : ∀ i, portValue W₀ W (slotAt gate.input.slots i) ≠ none →
        (W₀.net sorterActions).Live W.state g := by
      intro i hvalue
      obtain ⟨v, hv⟩ := Option.ne_none_iff_exists'.mp hvalue
      obtain ⟨w, hw, hv⟩ := Option.bind_eq_some_iff.mp hv
      obtain ⟨p, hp, hw⟩ := Option.bind_eq_some_iff.mp hw
      obtain ⟨tp, htp, howner⟩ := Option.map_eq_some_iff.mp hw
      exact ⟨w, mem_inputs_iff.mpr ⟨gate, p, tp, hg, mem_of_slotAt hp, htp, howner⟩, by rw [hv]; rfl⟩
    by_cases hup : portValue W₀ W (slotAt gate.input.slots 0) = none
    · exact hport 1 fun hleft => hsome (.inl ⟨hup, hleft⟩)
    · exact hport 0 hup
  exact hW.settled g hlive (w, v) (hacts ▸ hdrives)

theorem compareValues_comparator {a b : LxcValue} (ha : IsInt a) (hb : IsInt b) :
    compareValues (some a) (some b) =
      some (some (Insertion.comparator LxcValue.int a b).1,
        some (Insertion.comparator LxcValue.int a b).2) := by
  obtain ⟨i, hi⟩ := ha
  obtain ⟨j, hj⟩ := hb
  by_cases hlt : i < j <;>
    simp [compareValues, Insertion.comparator, LxcValue.int, hi, hj, Data.asInt, hlt]

/-- A box with two values lets them out in order. -/
theorem SorterRest.comparator (h : W₀.SorterNetwork) (hW : SorterRest W₀ W)
    (hg : W₀.gates g = some gate) {w₀ w₁ : WireId} {u c : LxcValue}
    (hup : portWire W₀ (slotAt gate.input.slots 0) = some w₀)
    (hleft : portWire W₀ (slotAt gate.input.slots 1) = some w₁)
    (hu : W.valueOn w₀ = some u) (hc : W.valueOn w₁ = some c) :
    (∀ w, slotAt gate.output.slots 0 = some w →
      W.valueOn w = some (Insertion.comparator LxcValue.int u c).1) ∧
    ∀ w, slotAt gate.output.slots 1 = some w →
      W.valueOn w = some (Insertion.comparator LxcValue.int u c).2 := by
  have hvalues : portValues W₀ W (slotAt gate.input.slots 0) (slotAt gate.input.slots 1) =
      [some u, some c] := by
    simp only [portValues, hup, hleft]
    exact congrArg₂ (fun a b => [a, b]) hu hc
  have hargs : sorterArguments (slotAt gate.input.slots 0) (slotAt gate.input.slots 1)
      (portValues W₀ W (slotAt gate.input.slots 0) (slotAt gate.input.slots 1)) =
        some (some u, some c) := by
    obtain ⟨p, hp, -⟩ := Option.bind_eq_some_iff.mp hup
    obtain ⟨q, hq, -⟩ := Option.bind_eq_some_iff.mp hleft
    rw [hvalues, hp, hq]
    rfl
  have hcompare := compareValues_comparator (hW.work.values w₀ u hu) (hW.work.values w₁ c hc)
  refine ⟨fun w hw => ?_, fun w hw => ?_⟩
  · apply hW.result h hg hargs hcompare
    rw [hw]
    exact List.mem_append_left _ (List.mem_singleton_self _)
  · apply hW.result h hg hargs hcompare
    rw [hw]
    exact List.mem_append_right _ (List.mem_singleton_self _)

/-- A box without an upper wire lets its value down. -/
theorem SorterRest.diagonal (h : W₀.SorterNetwork) (hW : SorterRest W₀ W)
    (hg : W₀.gates g = some gate) {w₁ : WireId} {c : LxcValue}
    (hup : slotAt gate.input.slots 0 = none)
    (hleft : portWire W₀ (slotAt gate.input.slots 1) = some w₁) (hc : W.valueOn w₁ = some c)
    {w : WireId} (hw : slotAt gate.output.slots 0 = some w) : W.valueOn w = some c := by
  have hvalues : portValues W₀ W (slotAt gate.input.slots 0) (slotAt gate.input.slots 1) =
      [some c] := by
    simp only [portValues, hup, hleft]
    exact congrArg (fun a => [a]) hc
  have hargs : sorterArguments (slotAt gate.input.slots 0) (slotAt gate.input.slots 1)
      (portValues W₀ W (slotAt gate.input.slots 0) (slotAt gate.input.slots 1)) =
        some (none, some c) := by
    obtain ⟨q, hq, -⟩ := Option.bind_eq_some_iff.mp hleft
    rw [hvalues, hup, hq]
    rfl
  apply hW.result h hg hargs (r := (some c, none)) rfl
  rw [hw]
  exact List.mem_append_left _ (List.mem_singleton_self _)

end Results

end Rest

end LogxControll
