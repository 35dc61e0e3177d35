/-
  The slots of the generic gates (portb, porti), read and written through the port manager.

  `PortSide.Sound` fits the slot array to the ports of the manager. On such a side reading a
  port gives what its slot holds (`Gate.getWire_eq`) and writing a port changes that slot and
  no other (`Gate.wire_of_port`); a port the gate does not have reads as free and cannot be
  written (`Gate.wire_of_no_port`).
-/
import LogxControll.Core.PortLists
import LogxControll.Wiring.View

namespace LogxControll

/-- No port was ever removed, and the slot array fits the ports: exactly, or at most, in a gate
    that grows its array on demand. -/
structure PortSide.Sound (gateClass : GateClass) (side : PortSide) (gs : Groups)
    (names : List PortName) : Prop where
  represents : side.manager.Represents gs names
  noEmpty : PortName.empty ∉ names
  portb : gateClass = .portb → side.slots.length = names.length
  porti : gateClass = .porti → side.slots.length ≤ names.length

/-- A generic gate with sound sides. -/
structure Gate.Sound (g : Gate) : Prop where
  generic : g.gateClass = .portb ∨ g.gateClass = .porti
  side : ∀ dir, ∃ gs names, (g.side dir).Sound g.gateClass gs names

/-- The gate has the port: its manager knows an absolute index for it. -/
def Gate.HasPort (g : Gate) (dir : Direction) (type : Signal) (subtype : Int) (index : Nat) :
    Prop :=
  ∃ abs : Nat, lxcPortGetAbsindex (g.side dir).manager type subtype index = some (abs : Int)

@[simp] theorem Gate.side_setSide_self (g : Gate) (dir : Direction) (side : PortSide) :
    (g.setSide dir side).side dir = side := by cases dir <;> rfl

theorem Gate.side_setSide_ne (g : Gate) {dir dir' : Direction} (h : dir' ≠ dir)
    (side : PortSide) : (g.setSide dir side).side dir' = g.side dir' := by
  cases dir <;> cases dir' <;> first | rfl | exact absurd rfl h

@[simp] theorem Gate.setSide_gateClass (g : Gate) (dir : Direction) (side : PortSide) :
    (g.setSide dir side).gateClass = g.gateClass := by cases dir <;> rfl

@[simp] theorem Gate.setSide_enabled (g : Gate) (dir : Direction) (side : PortSide) :
    (g.setSide dir side).enabled = g.enabled := by cases dir <;> rfl

/-- What slot `abs` holds; a slot past the end is one that was never written. -/
def slotAt (slots : List (Option Nat)) (abs : Nat) : Option Nat := (slots[abs]?).join

theorem slotAt_eq {slots : List (Option Nat)} {abs : Nat} (h : abs < slots.length) :
    slots[abs]? = some (slotAt slots abs) := by
  simp [slotAt, List.getElem?_eq_getElem h]

theorem slotAt_of_le {slots : List (Option Nat)} {abs : Nat} (h : slots.length ≤ abs) :
    slotAt slots abs = none := by
  simp [slotAt, List.getElem?_eq_none h]

theorem slotAt_set {slots : List (Option Nat)} {abs : Nat} (h : abs < slots.length)
    (c : Option Nat) (abs' : Nat) :
    slotAt (slots.set abs c) abs' = if abs' = abs then c else slotAt slots abs' := by
  by_cases he : abs' = abs
  · subst he; simp [slotAt, h]
  · simp [slotAt, List.getElem?_set_ne (Ne.symm he), he]

namespace PortSide.Sound

variable {side : PortSide} {gs : Groups} {names : List PortName} {cls : GateClass}

theorem abs_lt (h : side.Sound cls gs names) {type : Signal} {subtype : Int} {index a : Nat}
    (ha : (absList gs ⟨type, subtype⟩)[index]? = some a) : a < names.length :=
  h.represents.getElem?_lt ha

/-- The read of both generic classes, with the bound that the class checks. -/
theorem lxcPortGetWireSafe_eq (h : side.Sound cls gs names)
    (type : Signal) (subtype : Int) (index : Nat) :
    lxcPortGetWireSafe side.manager type subtype index side.slots
        (if cls = .portb then side.manager.maxSize else side.slots.length) =
      some ((absList gs ⟨type, subtype⟩)[index]?.bind fun a => slotAt side.slots a) := by
  unfold lxcPortGetWireSafe
  rw [h.represents.lxcPortGetAbsindex_eq]
  cases ha : (absList gs ⟨type, subtype⟩)[index]? with
  | none => simp [absAt_of_none ha]
  | some a =>
    have hlt := h.abs_lt ha
    have hneg : ¬ (a : Int) < 0 := by omega
    simp only [absAt_of_getElem? ha, Option.bind_eq_bind, Option.bind_some]
    by_cases hs : a < side.slots.length
    · have hmax : ¬ (if cls = .portb then side.manager.maxSize else side.slots.length) ≤
          (a : Int) := by
        have hm := h.represents.maxSize
        split <;> omega
      rw [if_neg (by omega), Int.toNat_natCast, slotAt_eq hs]
    · -- only a porti gate has fewer slots than ports
      have hcls' : cls ≠ .portb := by
        intro e
        have := h.portb e
        omega
      rw [if_neg hcls', if_pos (by omega), slotAt_of_le (by omega)]
      rfl

/-- Growing the array on demand does not change what the slots hold. -/
theorem forceIndexAvailable_slotAt (side : PortSide) (abs : Nat) :
    slotAt (forceIndexAvailable side).slots abs = slotAt side.slots abs := by
  unfold forceIndexAvailable
  simp only
  split
  · by_cases ha : abs < side.slots.length
    · simp [slotAt, List.getElem?_append_left ha]
    · rw [slotAt_of_le (by omega : side.slots.length ≤ abs)]
      simp only [slotAt, List.getElem?_append_right (by omega : side.slots.length ≤ abs)]
      rw [List.getElem?_replicate]
      split <;> rfl
  · rfl

@[simp] theorem forceIndexAvailable_manager (side : PortSide) :
    (forceIndexAvailable side).manager = side.manager := by
  unfold forceIndexAvailable
  simp only
  split <;> rfl

theorem forceIndexAvailable_length (h : side.Sound .porti gs names) :
    (forceIndexAvailable side).slots.length = names.length := by
  have hle := h.porti rfl
  have hm := h.represents.maxSize
  unfold forceIndexAvailable lxcPortCount
  rw [hm, Int.toNat_natCast]
  simp only
  split
  · simp only [List.length_append, List.length_replicate]; omega
  · omega

theorem lxcGenericPortbWire_of_port (h : side.manager.Represents gs names)
    (hlen : side.slots.length = names.length) {type : Signal} {subtype : Int} {index a : Nat}
    (ha : (absList gs ⟨type, subtype⟩)[index]? = some a) (c : Option Nat) :
    lxcGenericPortbWire side type subtype index c =
      some (0, { side with slots := side.slots.set a c }) := by
  have hlt := h.getElem?_lt ha
  have hneg : ¬ (a : Int) < 0 := by omega
  have hlt' : a < side.slots.length := by omega
  simp [lxcGenericPortbWire, lxcPortWiring, h.lxcPortGetAbsindex_eq, absAt_of_getElem? ha,
    hneg, hlt']

theorem lxcGenericPortbWire_of_no_port (h : side.manager.Represents gs names) {type : Signal}
    {subtype : Int} {index : Nat} (ha : (absList gs ⟨type, subtype⟩)[index]? = none)
    (c : Option Nat) :
    lxcGenericPortbWire side type subtype index c =
      some (LxcErrno.entityOutOfRange.code, side) := by
  simp [lxcGenericPortbWire, lxcPortWiring, h.lxcPortGetAbsindex_eq, absAt_of_none ha]

end PortSide.Sound

namespace Gate

variable {g : Gate} {dir : Direction} {gs : Groups} {names : List PortName}

theorem getWire_of_sound (hg : g.gateClass = .portb ∨ g.gateClass = .porti)
    (h : (g.side dir).Sound g.gateClass gs names) (type : Signal) (subtype : Int) (index : Nat) :
    g.getWire dir type subtype index =
      some ((absList gs ⟨type, subtype⟩)[index]?.bind fun a => slotAt (g.side dir).slots a) := by
  have := h.lxcPortGetWireSafe_eq type subtype index
  unfold Gate.getWire
  rcases hg with hg | hg
  · simpa [hg] using this
  · simpa [hg] using this

theorem boundAt_of_sound (hg : g.gateClass = .portb ∨ g.gateClass = .porti)
    (h : (g.side dir).Sound g.gateClass gs names) (type : Signal) (subtype : Int) (index : Nat) :
    g.boundAt dir type subtype index =
      (absList gs ⟨type, subtype⟩)[index]?.bind fun a => slotAt (g.side dir).slots a := by
  have hbool : ¬ (g.gateClass = .bool ∧ subtype ≠ 0) := by
    rcases hg with hg | hg <;> simp [hg]
  rw [Gate.boundAt, if_neg hbool, getWire_of_sound hg h, Option.getD_some]

/-- Reading a port of a sound gate gives what its slot holds. -/
theorem Sound.getWire_eq (h : g.Sound) (dir : Direction) (type : Signal) (subtype : Int)
    (index : Nat) :
    g.getWire dir type subtype index = some (g.boundAt dir type subtype index) := by
  obtain ⟨gs, names, hs⟩ := h.side dir
  rw [boundAt_of_sound h.generic hs, getWire_of_sound h.generic hs]

theorem hasPort_iff (h : (g.side dir).Sound g.gateClass gs names) (type : Signal) (subtype : Int)
    (index : Nat) :
    g.HasPort dir type subtype index ↔ ∃ a, (absList gs ⟨type, subtype⟩)[index]? = some a := by
  unfold HasPort
  rw [h.represents.lxcPortGetAbsindex_eq]
  cases ha : (absList gs ⟨type, subtype⟩)[index]? with
  | none =>
    rw [absAt_of_none ha]
    refine ⟨?_, fun ⟨a, h⟩ => by simp at h⟩
    rintro ⟨a, h⟩
    rw [Option.some.injEq] at h
    omega
  | some a => exact ⟨fun _ => ⟨a, rfl⟩, fun _ => ⟨a, by rw [absAt_of_getElem? ha]⟩⟩

theorem Sound.boundAt_of_no_port (h : g.Sound) {type : Signal} {subtype : Int} {index : Nat}
    (hp : ¬ g.HasPort dir type subtype index) : g.boundAt dir type subtype index = none := by
  obtain ⟨gs, names, hs⟩ := h.side dir
  rw [boundAt_of_sound h.generic hs]
  cases ha : (absList gs ⟨type, subtype⟩)[index]? with
  | none => rfl
  | some a => exact absurd ((hasPort_iff hs type subtype index).mpr ⟨a, ha⟩) hp

/-- Replacing a side by one with the same manager. -/
theorem Sound.setSide (h : g.Sound) {side : PortSide} (hs : side.Sound g.gateClass gs names) :
    (g.setSide dir side).Sound where
  generic := by rw [setSide_gateClass]; exact h.generic
  side := by
    intro dir'
    rw [setSide_gateClass]
    by_cases hd : dir' = dir
    · subst hd; exact ⟨gs, names, by rw [side_setSide_self]; exact hs⟩
    · rw [side_setSide_ne g hd]; exact h.side dir'

/-- The other direction of the gate does not see the change of a side. -/
theorem boundAt_setSide_ne (g : Gate) {dir' : Direction} (hd : dir' ≠ dir) (side : PortSide)
    (type : Signal) (subtype : Int) (index : Nat) :
    (g.setSide dir side).boundAt dir' type subtype index = g.boundAt dir' type subtype index := by
  unfold boundAt Gate.getWire
  simp only [setSide_gateClass, side_setSide_ne g hd]

/-- The array a write works on: porti gates grow theirs first. -/
def ready (g : Gate) (dir : Direction) : PortSide :=
  if g.gateClass = .porti then forceIndexAvailable (g.side dir) else g.side dir

theorem ready_slotAt (g : Gate) (dir : Direction) (abs : Nat) :
    slotAt (g.ready dir).slots abs = slotAt (g.side dir).slots abs := by
  unfold ready
  split
  · exact PortSide.Sound.forceIndexAvailable_slotAt _ _
  · rfl

@[simp] theorem ready_manager (g : Gate) (dir : Direction) :
    (g.ready dir).manager = (g.side dir).manager := by
  unfold ready
  split
  · exact PortSide.Sound.forceIndexAvailable_manager _
  · rfl

theorem ready_length (hg : g.gateClass = .portb ∨ g.gateClass = .porti)
    (h : (g.side dir).Sound g.gateClass gs names) :
    (g.ready dir).slots.length = names.length := by
  unfold ready
  rcases hg with hg | hg
  · rw [if_neg (by simp [hg])]
    exact h.portb hg
  · rw [if_pos hg]
    rw [hg] at h
    exact PortSide.Sound.forceIndexAvailable_length h

theorem wire_eq_ready (hg : g.gateClass = .portb ∨ g.gateClass = .porti) (type : Signal)
    (subtype : Int) (index : Nat) (c : Option Nat) :
    g.wire dir type subtype index c = lxcGenericPortbWire (g.ready dir) type subtype index c := by
  unfold Gate.wire ready
  rcases hg with hg | hg <;> simp [hg]

/-- A side with its slots replaced by as many slots as there are ports. -/
theorem sound_ready_slots (h : (g.side dir).Sound g.gateClass gs names)
    (slots : List (Option Nat)) (hlen : slots.length = names.length) :
    ({ g.ready dir with slots := slots } : PortSide).Sound g.gateClass gs names where
  represents := by rw [ready_manager]; exact h.represents
  noEmpty := h.noEmpty
  portb := fun _ => hlen
  porti := fun _ => hlen.le

/-- A write to a port of a sound gate succeeds, and changes what that port holds. -/
theorem Sound.wire_of_port (h : g.Sound) {type : Signal} {subtype : Int} {index : Nat}
    (hp : g.HasPort dir type subtype index) (c : Option Nat) :
    ∃ side, g.wire dir type subtype index c = some (0, side) ∧
      side.manager = (g.side dir).manager ∧ (g.setSide dir side).Sound ∧
      ∀ dir' type' subtype' index', (g.setSide dir side).boundAt dir' type' subtype' index' =
        if dir' = dir ∧ type' = type ∧ subtype' = subtype ∧ index' = index then c
        else g.boundAt dir' type' subtype' index' := by
  obtain ⟨gs, names, hs⟩ := h.side dir
  obtain ⟨a, ha⟩ := (hasPort_iff hs type subtype index).mp hp
  have hlt := hs.abs_lt ha
  have hlen := ready_length h.generic hs
  have hs' := sound_ready_slots hs ((g.ready dir).slots.set a c)
    (by rw [List.length_set, hlen])
  refine ⟨{ g.ready dir with slots := (g.ready dir).slots.set a c }, ?_, ready_manager g dir,
    h.setSide hs', ?_⟩
  · rw [wire_eq_ready h.generic]
    exact PortSide.Sound.lxcGenericPortbWire_of_port (by rw [ready_manager]; exact hs.represents)
      hlen ha c
  intro dir' type' subtype' index'
  by_cases hd : dir' = dir
  · subst hd
    rw [boundAt_of_sound (by rw [setSide_gateClass]; exact h.generic)
        (by rw [side_setSide_self, setSide_gateClass]; exact hs'), side_setSide_self,
      boundAt_of_sound h.generic hs]
    by_cases he : type' = type ∧ subtype' = subtype ∧ index' = index
    · obtain ⟨rfl, rfl, rfl⟩ := he
      simp only [ha, Option.bind_some, and_self, if_true]
      rw [slotAt_set (by omega), if_pos rfl]
    · rw [if_neg (fun e => he e.2)]
      cases ha' : (absList gs ⟨type', subtype'⟩)[index']? with
      | none => rfl
      | some a' =>
        have hne : a' ≠ a := by
          rintro rfl
          obtain ⟨hk, hi⟩ := hs.represents.indexed.inj ha' ha
          simp only [FullSignalType.mk.injEq] at hk
          exact he ⟨hk.1, hk.2, hi⟩
        rw [Option.bind_some, Option.bind_some, slotAt_set (by omega), if_neg hne, ready_slotAt]
  · rw [boundAt_setSide_ne g hd, if_neg (fun e => hd e.1)]

/-- A write to a port the gate does not have is refused and leaves the ports as they are. -/
theorem Sound.wire_of_no_port (h : g.Sound) {type : Signal} {subtype : Int} {index : Nat}
    (hp : ¬ g.HasPort dir type subtype index) (c : Option Nat) :
    ∃ side, g.wire dir type subtype index c = some (LxcErrno.entityOutOfRange.code, side) ∧
      side.manager = (g.side dir).manager ∧ (g.setSide dir side).Sound ∧
      ∀ dir' type' subtype' index', (g.setSide dir side).boundAt dir' type' subtype' index' =
        g.boundAt dir' type' subtype' index' := by
  obtain ⟨gs, names, hs⟩ := h.side dir
  have ha : (absList gs ⟨type, subtype⟩)[index]? = none := by
    cases ha : (absList gs ⟨type, subtype⟩)[index]? with
    | none => rfl
    | some a => exact absurd ((hasPort_iff hs type subtype index).mpr ⟨a, ha⟩) hp
  have hs' := sound_ready_slots hs _ (ready_length h.generic hs)
  refine ⟨g.ready dir, ?_, ready_manager g dir, h.setSide hs', ?_⟩
  · rw [wire_eq_ready h.generic]
    exact PortSide.Sound.lxcGenericPortbWire_of_no_port
      (by rw [ready_manager]; exact hs.represents) ha c
  intro dir' type' subtype' index'
  by_cases hd : dir' = dir
  · subst hd
    rw [boundAt_of_sound (by rw [setSide_gateClass]; exact h.generic)
        (by rw [side_setSide_self, setSide_gateClass]; exact hs'), side_setSide_self,
      boundAt_of_sound h.generic hs]
    congr 1
    funext a
    exact ready_slotAt g dir' a
  · rw [boundAt_setSide_ne g hd]

/-! ## Bool gates -/

/-- The last index of the ports of a bool gate. -/
def lastBoolIndex : Direction → Nat
  | .input => 20
  | .output => 0

/-- A bool gate has 21 inputs and one output, a generic gate the ports its managers know. -/
def Owns (g : Gate) (dir : Direction) (type : Signal) (subtype : Int) (index : Nat) : Prop :=
  if g.gateClass = .bool then type = .bool ∧ subtype = 0 ∧ index ≤ lastBoolIndex dir
  else g.HasPort dir type subtype index

/-- A sound generic gate, or a bool gate with the arrays it is created with. -/
structure Regular (g : Gate) : Prop where
  generic : g.gateClass ≠ .bool → g.Sound
  bool : g.gateClass = .bool → g.input.slots.length = 21 ∧ g.output.slots.length = 1

theorem Sound.not_bool (h : g.Sound) : g.gateClass ≠ .bool := by
  rcases h.generic with hc | hc <;> simp [hc]

theorem Sound.regular (h : g.Sound) : g.Regular :=
  ⟨fun _ => h, fun hc => absurd hc h.not_bool⟩

theorem owns_of_bool (hc : g.gateClass = .bool) (type : Signal) (subtype : Int) (index : Nat) :
    g.Owns dir type subtype index ↔ type = .bool ∧ subtype = 0 ∧ index ≤ lastBoolIndex dir := by
  rw [Owns, if_pos hc]

theorem owns_of_generic (hc : g.gateClass ≠ .bool) (type : Signal) (subtype : Int) (index : Nat) :
    g.Owns dir type subtype index ↔ g.HasPort dir type subtype index := by
  rw [Owns, if_neg hc]

theorem Regular.slots_length (h : g.Regular) (hc : g.gateClass = .bool) (dir : Direction) :
    (g.side dir).slots.length = lastBoolIndex dir + 1 := by
  cases dir
  · exact (h.bool hc).1
  · exact (h.bool hc).2

theorem Regular.getWire_of_bool (h : g.Regular) (hc : g.gateClass = .bool) (dir : Direction)
    (index : Nat) :
    g.getWire dir .bool 0 index =
      some (if index ≤ lastBoolIndex dir then slotAt (g.side dir).slots index else none) := by
  have hlen := h.slots_length hc dir
  unfold getWire
  by_cases hi : index ≤ lastBoolIndex dir
  · have hslot : (g.side dir).slots[index]? = some (slotAt (g.side dir).slots index) :=
      slotAt_eq (by omega)
    cases dir with
    | input =>
      have hi' : ¬ 20 < index := Nat.not_lt.mpr hi
      simp [hc, hi, hi', hslot]
    | output =>
      obtain rfl : index = 0 := Nat.le_zero.mp hi
      simp [hc, hi, hslot]
  · cases dir with
    | input =>
      have hi' : 20 < index := Nat.lt_of_not_le hi
      simp [hc, hi, hi']
    | output =>
      have hi' : index ≠ 0 := fun he => hi (by rw [he]; exact Nat.zero_le _)
      simp [hc, hi, hi']

theorem Regular.boundAt_of_bool (h : g.Regular) (hc : g.gateClass = .bool) (dir : Direction)
    (type : Signal) (subtype : Int) (index : Nat) :
    g.boundAt dir type subtype index =
      if type = .bool ∧ subtype = 0 ∧ index ≤ lastBoolIndex dir then
        slotAt (g.side dir).slots index
      else none := by
  unfold boundAt
  by_cases hs : subtype = 0
  · subst hs
    by_cases ht : type = .bool
    · subst ht
      simp [h.getWire_of_bool hc]
    · unfold getWire
      cases dir <;> simp [hc, ht]
  · simp [hc, hs]

/-- Reading a port of a type the gate supports gives what its slot holds. -/
theorem Regular.getWire_eq (h : g.Regular) {type : Signal} {subtype : Int}
    (hs : ⟨type, subtype⟩ ∈ (g.getTypes dir).2) (index : Nat) :
    g.getWire dir type subtype index = some (g.boundAt dir type subtype index) := by
  by_cases hc : g.gateClass = .bool
  · obtain ⟨rfl, rfl⟩ : type = .bool ∧ subtype = 0 := by
      simpa [getTypes, hc] using hs
    rw [h.getWire_of_bool hc, h.boundAt_of_bool hc]
    simp
  · exact (h.generic hc).getWire_eq dir type subtype index

theorem Regular.boundAt_of_not_owned (h : g.Regular) {type : Signal} {subtype : Int}
    {index : Nat} (hp : ¬ g.Owns dir type subtype index) :
    g.boundAt dir type subtype index = none := by
  by_cases hc : g.gateClass = .bool
  · rw [h.boundAt_of_bool hc, if_neg ((owns_of_bool hc type subtype index).not.mp hp)]
  · exact (h.generic hc).boundAt_of_no_port ((owns_of_generic hc type subtype index).not.mp hp)

theorem Regular.boundAt_of_empty (h : g.Regular) (hall : ∀ dir, ∀ c ∈ (g.side dir).slots, c = none)
    (dir : Direction) (type : Signal) (subtype : Int) (index : Nat) :
    g.boundAt dir type subtype index = none := by
  have hslot : ∀ a, slotAt (g.side dir).slots a = none := by
    intro a
    by_cases ha : a < (g.side dir).slots.length
    · have := hall dir _ (List.getElem_mem ha)
      simp [slotAt, ha, this]
    · simp [slotAt, ha]
  by_cases hc : g.gateClass = .bool
  · rw [h.boundAt_of_bool hc, hslot, ite_self]
  · obtain ⟨gs, names, hs⟩ := (h.generic hc).side dir
    rw [boundAt_of_sound (h.generic hc).generic hs]
    cases (absList gs ⟨type, subtype⟩)[index]? with
    | none => rfl
    | some a => exact hslot a

/-- A write to a port of a regular gate succeeds, and changes what that port holds. -/
theorem Regular.wire_of_port (h : g.Regular) {type : Signal} {subtype : Int} {index : Nat}
    (hp : g.Owns dir type subtype index) (c : Option Nat) :
    ∃ side, g.wire dir type subtype index c = some (0, side) ∧
      side.manager = (g.side dir).manager ∧ (g.setSide dir side).Regular ∧
      ∀ dir' type' subtype' index', (g.setSide dir side).boundAt dir' type' subtype' index' =
        if dir' = dir ∧ type' = type ∧ subtype' = subtype ∧ index' = index then c
        else g.boundAt dir' type' subtype' index' := by
  by_cases hc : g.gateClass = .bool
  swap
  · obtain ⟨side, hw, hm, hs, hb⟩ :=
      (h.generic hc).wire_of_port ((owns_of_generic hc type subtype index).mp hp) c
    exact ⟨side, hw, hm, hs.regular, hb⟩
  obtain ⟨rfl, rfl, hi⟩ := (owns_of_bool hc type subtype index).mp hp
  have hlen := h.slots_length hc dir
  have hlt : index < (g.side dir).slots.length := by omega
  have hc' : (g.setSide dir { g.side dir with slots := (g.side dir).slots.set index c }).gateClass =
      .bool := by rw [setSide_gateClass]; exact hc
  have hreg : (g.setSide dir { g.side dir with slots := (g.side dir).slots.set index c }).Regular := by
    refine ⟨fun hn => absurd hc' hn, fun _ => ?_⟩
    obtain ⟨h1, h2⟩ := h.bool hc
    cases dir <;> simp [setSide, side, h1, h2]
  refine ⟨{ g.side dir with slots := (g.side dir).slots.set index c }, ?_, rfl, hreg, ?_⟩
  · unfold wire
    cases dir with
    | input => simp [hc, storeSlot, hlt]
    | output =>
      obtain rfl : index = 0 := Nat.le_zero.mp hi
      simp [hc, storeSlot, hlt]
  intro dir' type' subtype' index'
  rw [hreg.boundAt_of_bool hc', h.boundAt_of_bool hc]
  by_cases hd : dir' = dir
  · subst hd
    rw [side_setSide_self, slotAt_set hlt]
    by_cases hq : type' = .bool ∧ subtype' = 0 ∧ index' ≤ lastBoolIndex dir'
    · obtain ⟨rfl, rfl, hi'⟩ := hq
      simp [hi']
    · rw [if_neg hq, if_neg hq, if_neg]
      rintro ⟨-, rfl, rfl, rfl⟩
      exact hq ⟨rfl, rfl, hi⟩
  · have hne : ¬ (dir' = dir ∧ type' = .bool ∧ subtype' = 0 ∧ index' = index) := fun e => hd e.1
    rw [side_setSide_ne g hd, if_neg hne]

/-- A write to a port a generic gate does not have is refused. -/
theorem Regular.wire_of_not_owned (h : g.Regular) (hc : g.gateClass ≠ .bool) {type : Signal}
    {subtype : Int} {index : Nat} (hp : ¬ g.Owns dir type subtype index) (c : Option Nat) :
    ∃ side, g.wire dir type subtype index c = some (LxcErrno.entityOutOfRange.code, side) ∧
      side.manager = (g.side dir).manager ∧ (g.setSide dir side).Regular ∧
      ∀ dir' type' subtype' index', (g.setSide dir side).boundAt dir' type' subtype' index' =
        g.boundAt dir' type' subtype' index' := by
  obtain ⟨side, hw, hm, hs, hb⟩ :=
    (h.generic hc).wire_of_no_port ((owns_of_generic hc type subtype index).not.mp hp) c
  exact ⟨side, hw, hm, hs.regular, hb⟩

end Gate

end LogxControll
