/-
  The functions that enumerate into an array of the caller: `lxc_port_fill_types` and
  `generic_enumerate_properties` (`core/builtins/gate_generic.c`), `lxc_gate_get_input_labels` and
  `lxc_gate_get_output_labels` (`core/facet.c`), and `lxc_gate_enumerate_input_labels_into` and
  `lxc_gate_enumerate_output_labels_into`, which append to an array of their own.

  A destination array is the memory from its address on (`Cells`). None of the functions stores a
  terminator, and two of them refuse an array that just fits, so each obeys the contract of the
  destination arrays for some lengths only (`enumerations_obey_iff`).
-/
import LogxControll.Core.Creation
import LogxControll.Core.PortLists
import LogxControll.Lib.Stores

namespace LogxControll

open Stores

/-! ## The functions -/

/-- `lxc_port_fill_types` with its two destination arrays. -/
def lxcPortFillTypesInto (fact : PortManager) (dstArr : Cells (Option Signal))
    (subtypes : Cells Int) (maxLength : Nat) : Int × Cells (Option Signal) × Cells Int :=
  let (ret, types) := lxcPortFillTypes fact maxLength
  (ret, storeAll dstArr 0 (types.map fun t => some t.signal),
    storeAll subtypes 0 (types.map FullSignalType.subtype))

/-- The loop of `generic_enumerate_properties`. -/
def copyNames : List (Option String) → Nat → Cells (Option String) → Option (Cells (Option String))
  | [], _, _ => none
  | none :: _, _, arr => some arr
  | some name :: props, i, arr => copyNames props (i + 1) (Function.update arr i (some name))

/-- `properties` are the names of the properties of the manager. -/
def genericEnumerateProperties (properties : PntArray String) (arr : Cells (Option String))
    (maxIndex : Nat) : Option (Int × Cells (Option String)) := do
  let popul ← arrayPntPopulation properties
  if popul = 0 then return (0, arr)
  else if (maxIndex : Int) ≤ popul then return (-popul, arr)
  else
    let props ← properties
    let arr ← copyNames props 0 arr
    return (popul, arr)

/-- The rounds of the loop of `fill_labels` from `i` on; `permit` is what is left of the array. -/
def fillLabels (getLabel : Nat → Option (Option PortName)) (lastFree : Nat) :
    Nat → Nat → Int → Cells (Option PortName) → Option (Nat × Cells (Option PortName))
  | 0, i, _, arr => some (i, arr)
  | n + 1, i, permit, arr => do
    let c ← getLabel i
    let arr := Function.update arr (lastFree + i) c
    if permit - 1 = 0 then return (i, arr)
    else fillLabels getLabel lastFree n (i + 1) (permit - 1) arr

/-- The first loop of `get_labels`. -/
def requiredLength (g : Gate) (dir : Direction) : List FullSignalType → Int → Option Int
  | [], reqLength => some reqLength
  | t :: types, reqLength => do
    let req ← g.getMaxIndex dir t.signal t.subtype
    requiredLength g dir types (if 0 < req then reqLength + req else reqLength)

/-- The second loop of `get_labels`. -/
def fillAllLabels (g : Gate) (dir : Direction) (maxLength : Int) :
    List FullSignalType → Nat → Cells (Option PortName) → Option (Nat × Cells (Option PortName))
  | [], sum, arr => some (sum, arr)
  | t :: types, sum, arr => do
    let req ← g.getMaxIndex dir t.signal t.subtype
    if req ≤ 0 then fillAllLabels g dir maxLength types sum arr
    else
      let (n, arr) ← fillLabels (g.getLabel dir t.signal t.subtype) sum req.toNat 0
        (maxLength - sum) arr
      fillAllLabels g dir maxLength types (sum + n) arr

/-- `get_labels`: the names of the ports of all types, if the array has more room than they take. -/
def getLabels (g : Gate) (dir : Direction) (arr : Cells (Option PortName)) (maxLength : Int) :
    Option (Int × Cells (Option PortName)) := do
  let (len, types) := g.getTypes dir
  if len = 0 then return (0, arr)
  else if len < 0 then return (LxcErrno.tooManyTypes.code, arr)
  else
    let reqLength ← requiredLength g dir types 0
    if maxLength ≤ reqLength then return (-reqLength, arr)
    else
      let (sum, arr) ← fillAllLabels g dir maxLength types 0 arr
      return (sum, arr)

/-- `lxc_gate_get_input_labels`, `lxc_gate_get_output_labels` -/
def lxcGateGetLabels (dir : Direction) (gate : Option Gate) (arr : Cells (Option PortName))
    (maxLength : Int) : Option (Int × Cells (Option PortName)) :=
  match gate with
  | none => some (0, arr)
  | some g => getLabels g dir arr maxLength

/-- The inner loop of `enumerate_io_names`, from `t` on. -/
def appendLabels (label : Nat → Option (Option PortName)) :
    Nat → Nat → PntArray PortName → Option (PntArray PortName)
  | 0, _, dst => some dst
  | n + 1, t, dst => do
    let (_, dst) ← arrayPntAppendElement dst (← label t)
    appendLabels label n (t + 1) dst

/-- The outer loop of `enumerate_io_names`. -/
def appendAllLabels (g : Gate) (dir : Direction) :
    List FullSignalType → PntArray PortName → Option (PntArray PortName)
  | [], dst => some dst
  | t :: types, dst => do
    let tmax ← g.getMaxIndex dir t.signal t.subtype
    let dst ← appendLabels (g.getLabel dir t.signal t.subtype) tmax.toNat 0 dst
    appendAllLabels g dir types dst

/-- `lxc_gate_enumerate_input_labels_into`, `lxc_gate_enumerate_output_labels_into`. When there are
    too many types the size is negative and no type is written. -/
def lxcGateEnumerateLabelsInto (dir : Direction) (dst : PntArray PortName) (g : Gate) :
    Option (PntArray PortName) :=
  appendAllLabels g dir (g.getTypes dir).2 (arrayPntInit dst)

/-! ## The labels of a gate -/

/-- As many labels of the type as the gate says it has ports of it, in the order of their
    indices. -/
def Gate.LabelsOf (g : Gate) (dir : Direction) (t : FullSignalType) (ls : List PortName) : Prop :=
  ∃ max, g.getMaxIndex dir t.signal t.subtype = some max ∧ ls.length = max.toNat ∧
    ∀ k (hk : k < ls.length), g.getLabel dir t.signal t.subtype k = some (some ls[k])

/-- The types the gate has ports of. -/
def Gate.portTypes (g : Gate) (dir : Direction) : List FullSignalType :=
  match g.gateClass with
  | .bool => [⟨.bool, 0⟩]
  | .portb | .porti | .spec => (g.side dir).manager.managedTypes.getD []

/-- The labels to enumerate, grouped by type. -/
def Gate.Enumerates (g : Gate) (dir : Direction) (items : List PortName) : Prop :=
  ∃ lss, List.Forall₂ (g.LabelsOf dir) (g.portTypes dir) lss ∧ items = lss.flatten

section Labels

variable {g : Gate} {dir : Direction}

theorem Gate.getTypes_eq : g.getTypes dir =
    if lxcGateMaxIoTypeCount < (g.portTypes dir).length then (-((g.portTypes dir).length : Int), [])
    else ((g.portTypes dir).length, g.portTypes dir) := by
  unfold Gate.getTypes Gate.portTypes
  cases g.gateClass with
  | bool => rfl
  | portb | porti | spec =>
    simp only [lxcPortFillTypes]
    cases (g.side dir).manager.managedTypes <;> rfl

/-- A gate whose manager represents groups of ports has the labels of the groups. -/
theorem Gate.labelsOf_of_represents (hc : g.gateClass ≠ .bool) {gs : Groups} {names : List PortName}
    (h : (g.side dir).manager.Represents gs names) {k : FullSignalType} (hk : k ∈ gs.map Prod.fst) :
    g.LabelsOf dir k (((absList gs k).take (intOfUint (absList gs k).length).toNat).map
      fun a => names.getD a .empty) := by
  have hmax : g.getMaxIndex dir k.signal k.subtype =
      some (intOfUint (absList gs k).length) := by
    have heq : g.getMaxIndex dir k.signal k.subtype =
        lxcGenericGetTypeMaxIndex (g.side dir).manager k.signal k.subtype := by
      unfold Gate.getMaxIndex
      cases hcls : g.gateClass <;> first | exact absurd hcls hc | rfl
    rw [heq, h.lxcGenericGetTypeMaxIndex_eq, if_pos hk]
  have hlabel : ∀ i, g.getLabel dir k.signal k.subtype i =
      some ((absList gs k)[i]?.bind fun a => names[a]?) := by
    intro i
    have heq : g.getLabel dir k.signal k.subtype i =
        lxcGenericGetPortLabel (g.side dir).manager k.signal k.subtype i := by
      unfold Gate.getLabel
      cases hcls : g.gateClass <;> first | exact absurd hcls hc | rfl
    rw [heq, h.lxcGenericGetPortLabel_eq]
  refine ⟨_, hmax, ?_, fun i hi => ?_⟩
  · rw [List.length_map, List.length_take]
    exact min_eq_left (toNat_intOfUint_le _)
  · rw [List.length_map, List.length_take] at hi
    obtain ⟨a, ha⟩ : ∃ a, (absList gs k)[i]? = some a :=
      ⟨_, List.getElem?_eq_getElem (lt_of_lt_of_le hi (min_le_right _ _))⟩
    have hlt := h.getElem?_lt ha
    have hget := (List.getElem?_eq_some_iff.mp ha).2
    rw [hlabel, ha, Option.bind_some, List.getElem?_eq_getElem hlt, List.getElem_map,
      List.getElem_take, hget, List.getD_eq_getElem?_getD, List.getElem?_eq_getElem hlt,
      Option.getD_some]

theorem Gate.enumerates_of_represents (hc : g.gateClass ≠ .bool) {gs : Groups}
    {names : List PortName} (h : (g.side dir).manager.Represents gs names) :
    g.Enumerates dir ((gs.map Prod.fst).flatMap fun k =>
      ((absList gs k).take (intOfUint (absList gs k).length).toNat).map
        fun a => names.getD a .empty) := by
  have htypes : g.portTypes dir = gs.map Prod.fst := by
    rw [← h.types]
    unfold Gate.portTypes
    cases hcls : g.gateClass <;> first | exact absurd hcls hc | rfl
  refine ⟨_, ?_, List.flatMap_def ..⟩
  rw [htypes, List.forall₂_map_right_iff]
  exact List.forall₂_same.mpr fun k hk => Gate.labelsOf_of_represents hc h hk

/-- The labels of a bool gate, as many as its ports are said to be. -/
def boolLabels : Direction → List PortName
  | .input => ((boolNames "I").take 20).map PortName.chars
  | .output => [.chars "Q0"]

theorem Gate.enumerates_of_bool (hc : g.gateClass = .bool) :
    g.Enumerates dir (boolLabels dir) := by
  refine ⟨[boolLabels dir], ?_, (List.append_nil _).symm⟩
  have htypes : g.portTypes dir = [⟨.bool, 0⟩] := by simp only [Gate.portTypes, hc]
  rw [htypes]
  refine .cons ?_ .nil
  cases dir with
  | input =>
    refine ⟨20, by simp only [Gate.getMaxIndex, hc]; rfl, rfl, fun k hk => ?_⟩
    simp only [Gate.getLabel, hc]
    have hk' : k < 20 := hk
    interval_cases k <;> rfl
  | output =>
    refine ⟨1, by simp only [Gate.getMaxIndex, hc]; rfl, rfl, fun k hk => ?_⟩
    simp only [Gate.getLabel, hc]
    have hk' : k < 1 := hk
    interval_cases k
    rfl

theorem fillLabels_eq {getLabel : Nat → Option (Option PortName)} {lastFree : Nat}
    (ls : List PortName) : ∀ {i : Nat} {permit : Int} (arr : Cells (Option PortName)),
      (∀ k (hk : k < ls.length), getLabel (i + k) = some (some ls[k])) → ls.length < permit →
      fillLabels getLabel lastFree ls.length i permit arr =
        some (i + ls.length, storeAll arr (lastFree + i) (ls.map some)) := by
  induction ls with
  | nil => exact fun _ _ _ => rfl
  | cons c ls ih =>
    intro i permit arr hlabel hpermit
    have hfirst : getLabel i = some (some c) := hlabel 0 (Nat.succ_pos _)
    have hrest : ∀ k (hk : k < ls.length), getLabel (i + 1 + k) = some (some ls[k]) := by
      intro k hk
      rw [Nat.add_right_comm]
      exact hlabel (k + 1) (Nat.succ_lt_succ hk)
    rw [List.length_cons] at hpermit ⊢
    rw [fillLabels, hfirst, Option.bind_eq_bind, Option.bind_some, if_neg (by omega),
      ih _ hrest (by omega), List.map_cons, storeAll, Nat.add_right_comm]
    rfl

theorem requiredLength_eq {types : List FullSignalType} {lss : List (List PortName)}
    (h : List.Forall₂ (g.LabelsOf dir) types lss) :
    ∀ r : Int, requiredLength g dir types r = some (r + lss.flatten.length) := by
  induction h with
  | nil => simp [requiredLength]
  | @cons t ls types lss hls _ ih =>
    intro r
    obtain ⟨max, hmax, hlen, -⟩ := hls
    rw [requiredLength, hmax, Option.bind_eq_bind, Option.bind_some, ih, List.flatten_cons,
      List.length_append]
    congr 1
    split <;> omega

theorem fillAllLabels_eq {maxLength : Int} {types : List FullSignalType}
    {lss : List (List PortName)} (h : List.Forall₂ (g.LabelsOf dir) types lss) :
    ∀ {sum : Nat} (arr : Cells (Option PortName)), (sum : Int) + lss.flatten.length < maxLength →
      fillAllLabels g dir maxLength types sum arr =
        some (sum + lss.flatten.length, storeAll arr sum (lss.flatten.map some)) := by
  induction h with
  | nil => exact fun _ _ => rfl
  | @cons t ls types lss hls _ ih =>
    intro sum arr hlt
    obtain ⟨max, hmax, hlen, hlabel⟩ := hls
    rw [List.flatten_cons, List.length_append, Nat.cast_add] at hlt
    rw [fillAllLabels, hmax, Option.bind_eq_bind, Option.bind_some]
    by_cases hpos : max ≤ 0
    · obtain rfl : ls = [] := List.length_eq_zero_iff.mp (by omega)
      rw [if_pos hpos, ih arr (by simpa using hlt)]
      rfl
    · rw [if_neg hpos, ← hlen, fillLabels_eq ls arr (by simpa using hlabel) (by omega),
        Option.bind_eq_bind, Option.bind_some, Nat.zero_add, Nat.add_zero]
      dsimp only
      rw [ih _ (by push_cast; omega), List.flatten_cons, List.map_append, storeAll_append,
        List.length_map, List.length_append, Nat.add_assoc]

/-- What `get_labels` does with the labels of a gate. -/
theorem getLabels_eq {items : List PortName} (h : g.Enumerates dir items)
    (arr : Cells (Option PortName)) (maxLength : Int) :
    getLabels g dir arr maxLength =
      some (if lxcGateMaxIoTypeCount < (g.portTypes dir).length then
          (LxcErrno.tooManyTypes.code, arr)
        else if maxLength ≤ items.length then (-(items.length : Int), arr)
        else ((items.length : Int), storeAll arr 0 (items.map some))) := by
  obtain ⟨lss, hlss, rfl⟩ := h
  unfold getLabels
  rw [Gate.getTypes_eq]
  by_cases hmany : lxcGateMaxIoTypeCount < (g.portTypes dir).length
  · rw [if_pos hmany, if_pos hmany]
    dsimp only
    rw [if_neg (by omega), if_pos (by omega)]
    rfl
  · rw [if_neg hmany, if_neg hmany]
    dsimp only
    by_cases hnil : (g.portTypes dir).length = 0
    · rw [if_pos (by exact_mod_cast hnil)]
      rw [List.length_eq_zero_iff.mp hnil] at hlss
      cases hlss
      split <;> rfl
    · rw [if_neg (by exact_mod_cast hnil), if_neg (by omega), requiredLength_eq hlss,
        Option.bind_eq_bind, Option.bind_some, Int.zero_add]
      by_cases hle : maxLength ≤ lss.flatten.length
      · rw [if_pos hle, if_pos hle]
        rfl
      · rw [if_neg hle, if_neg hle, fillAllLabels_eq hlss arr (by push_cast; omega),
          Option.bind_eq_bind, Option.bind_some, Nat.zero_add]
        rfl

end Labels

/-! ## The contract of the destination arrays -/

theorem fillTypesInto_obeys_iff (fact : PortManager) (m : Nat) :
    ((∀ subtypes, Obeys m ((fact.managedTypes.getD []).map FullSignalType.signal) fun dst =>
        some ((lxcPortFillTypesInto fact dst subtypes m).1,
          (lxcPortFillTypesInto fact dst subtypes m).2.1)) ∧
      ∀ dst subtypes, (lxcPortFillTypesInto fact dst subtypes m).2.2 =
        if m < (fact.managedTypes.getD []).length then subtypes
        else storeAll subtypes 0 ((fact.managedTypes.getD []).map FullSignalType.subtype)) ↔
    m ≤ (fact.managedTypes.getD []).length := by
  have hfill : lxcPortFillTypes fact m = if m < (fact.managedTypes.getD []).length then
      (-((fact.managedTypes.getD []).length : Int), [])
      else ((fact.managedTypes.getD []).length, fact.managedTypes.getD []) := by
    unfold lxcPortFillTypes
    cases fact.managedTypes <;> rfl
  generalize fact.managedTypes.getD [] = types at hfill ⊢
  have hrefuse : m < types.length → ∀ dst subtypes, lxcPortFillTypesInto fact dst subtypes m =
      (-((types.map FullSignalType.signal).length : Int), dst, subtypes) := by
    intro hlt dst subtypes
    rw [lxcPortFillTypesInto, hfill, if_pos hlt, List.length_map]
    rfl
  have hcopy : ¬ m < types.length → ∀ dst subtypes, lxcPortFillTypesInto fact dst subtypes m =
      (((types.map FullSignalType.signal).length : Int),
        storeAll dst 0 ((types.map FullSignalType.signal).map some),
        storeAll subtypes 0 (types.map FullSignalType.subtype)) := by
    intro hlt dst subtypes
    rw [lxcPortFillTypesInto, hfill, if_neg hlt, List.length_map, List.map_map]
    rfl
  constructor
  · rintro ⟨h, -⟩
    by_contra hlt
    rw [not_le] at hlt
    refine not_obeys_of_copy (fun dst => ?_) ?_ .bool (h fun _ => 0)
    · rw [hcopy (by omega)]
    · rw [List.length_map]
      exact_mod_cast hlt
  · intro hle
    refine ⟨fun subtypes => ?_, fun dst subtypes => ?_⟩
    · by_cases hlt : m < types.length
      · refine obeys_of_refuse (fun dst => ?_) (.inl ?_)
        · rw [hrefuse hlt]
        · rw [List.length_map]
          exact_mod_cast hlt
      · refine obeys_of_copy (fun dst => ?_) ?_
        · rw [hcopy hlt]
        · rw [List.length_map]
          exact_mod_cast le_antisymm hle (not_lt.mp hlt)
    · by_cases hlt : m < types.length
      · rw [hrefuse hlt, if_pos hlt]
      · rw [hcopy hlt, if_neg hlt]

theorem copyNames_eq (names : List String) : ∀ (i : Nat) (arr : Cells (Option String)),
    copyNames (names.map some ++ [none]) i arr = some (storeAll arr i (names.map some)) := by
  induction names with
  | nil => exact fun _ _ => rfl
  | cons name names ih => exact fun i arr => ih (i + 1) _

/-- A copy for the lengths above the number of items, a refusal for the others. -/
theorem obeys_iff_of_strict {α : Type} {m : Int} {items : List α}
    {f : Cells (Option α) → Option (Int × Cells (Option α))} (x : α)
    (hf : ∀ arr, f arr = some (if m ≤ items.length then (-(items.length : Int), arr)
      else ((items.length : Int), storeAll arr 0 (items.map some)))) :
    Obeys m items f ↔ m < items.length ∨ m = 0 ∧ items = [] := by
  by_cases hle : m ≤ items.length
  · simp only [if_pos hle] at hf
    refine ⟨fun h => ?_, obeys_of_refuse hf⟩
    by_contra hno
    have hm : m = items.length := by omega
    refine not_obeys_of_refuse hf hm (fun hnil => ?_) (fun _ => none) h
    subst hnil
    exact hno (.inr ⟨by simpa using hm, rfl⟩)
  · simp only [if_neg hle] at hf
    refine iff_of_false (not_obeys_of_copy hf (by omega) x) ?_
    rintro (hlt | ⟨rfl, rfl⟩)
    · omega
    · exact hle (le_refl 0)

theorem genericEnumerateProperties_obeys_iff {properties : PntArray String} {names : List String}
    (h : Packed properties names) (m : Nat) :
    Obeys m names (genericEnumerateProperties properties · m) ↔
      m < names.length ∨ m = 0 ∧ names = [] := by
  have hf : ∀ arr, genericEnumerateProperties properties arr m =
      some (if (m : Int) ≤ names.length then (-(names.length : Int), arr)
        else ((names.length : Int), storeAll arr 0 (names.map some))) := by
    intro arr
    rw [genericEnumerateProperties, arrayPntPopulation_of_packed h, Option.bind_eq_bind,
      Option.bind_some]
    by_cases hnil : (names.length : Int) = 0
    · obtain rfl : names = [] := List.length_eq_zero_iff.mp (by exact_mod_cast hnil)
      rw [if_pos hnil]
      split <;> rfl
    · rw [if_neg hnil]
      by_cases hle : (m : Int) ≤ names.length
      · rw [if_pos hle, if_pos hle]
        rfl
      · rw [if_neg hle, if_neg hle]
        rcases h with ⟨-, rfl⟩ | rfl
        · exact absurd rfl hnil
        · rw [Option.bind_eq_bind, Option.bind_some, copyNames_eq]
          rfl
  rw [obeys_iff_of_strict "" hf]
  simp

/-- Too many types are reported instead of the labels: right when there happen to be as many labels
    as the error has, and no room for them. -/
theorem lxcGateGetLabels_obeys_iff {g : Gate} {dir : Direction} {items : List PortName}
    (h : g.Enumerates dir items) (m : Int) :
    Obeys m items (lxcGateGetLabels dir (some g) · m) ↔
      if lxcGateMaxIoTypeCount < (g.portTypes dir).length then items.length = 1024 ∧ m < 1024
      else m < items.length ∨ m = 0 ∧ items = [] := by
  have hf := fun arr => getLabels_eq h arr m
  by_cases hmany : lxcGateMaxIoTypeCount < (g.portTypes dir).length
  · simp only [if_pos hmany] at hf ⊢
    constructor
    · intro hobeys
      obtain ⟨ret, arr', hres, hshort, hfits, -⟩ := hobeys fun _ => none
      obtain ⟨rfl, -⟩ := Prod.mk.inj (Option.some.inj ((hf _).symm.trans hres))
      by_cases hlt : m < items.length
      · have hret : (-1024 : Int) = -items.length := (hshort hlt).1
        omega
      · have hret : (-1024 : Int) = items.length := (hfits (by omega)).1
        omega
    · rintro ⟨hlen, hm⟩
      refine obeys_of_refuse (fun arr => ?_) (.inl (by omega))
      rw [hlen]
      exact hf arr
  · simp only [if_neg hmany] at hf ⊢
    exact obeys_iff_of_strict .empty hf

/-- The lengths of a destination array for which the enumerating functions obey its contract: any
    port manager, any properties, and the labels of any gate. -/
theorem enumerations_obey_iff (fact : PortManager) {properties : PntArray String}
    {names : List String} (hnames : Packed properties names) {g : Gate} {dir : Direction}
    {items : List PortName} (hitems : g.Enumerates dir items) (m : Nat) (maxLength : Int) :
    (((∀ subtypes, Obeys m ((fact.managedTypes.getD []).map FullSignalType.signal) fun dst =>
          some ((lxcPortFillTypesInto fact dst subtypes m).1,
            (lxcPortFillTypesInto fact dst subtypes m).2.1)) ∧
        ∀ dst subtypes, (lxcPortFillTypesInto fact dst subtypes m).2.2 =
          if m < (fact.managedTypes.getD []).length then subtypes
          else storeAll subtypes 0 ((fact.managedTypes.getD []).map FullSignalType.subtype)) ↔
      m ≤ (fact.managedTypes.getD []).length) ∧
    (Obeys m names (genericEnumerateProperties properties · m) ↔
      m < names.length ∨ m = 0 ∧ names = []) ∧
    (Obeys maxLength items (lxcGateGetLabels dir (some g) · maxLength) ↔
      if lxcGateMaxIoTypeCount < (g.portTypes dir).length then items.length = 1024 ∧ maxLength < 1024
      else maxLength < items.length ∨ maxLength = 0 ∧ items = []) :=
  ⟨fillTypesInto_obeys_iff fact m, genericEnumerateProperties_obeys_iff hnames m,
    lxcGateGetLabels_obeys_iff hitems maxLength⟩

/-- An array without room for the only property. -/
theorem enumerations_obey_iff_property :
    Obeys 0 ["family"] (genericEnumerateProperties (some [some "family", none]) · 0) ↔
      0 < ["family"].length ∨ 0 = 0 ∧ ["family"] = [] :=
  (enumerations_obey_iff .zeroed (packed_block ["family"])
    (@Gate.enumerates_of_bool (logxBoolCreate .not) .output rfl) 0 0).2.1

/-- An array that just fits the property is refused. -/
theorem enumerations_refuse_fitting :
    ¬ Obeys 1 ["family"] (genericEnumerateProperties (some [some "family", none]) · 1) := by
  intro h
  obtain ⟨ret, arr', hres, -, hfits, -⟩ := h fun _ => none
  obtain ⟨rfl, -⟩ := Prod.mk.inj (Option.some.inj hres)
  exact absurd (hfits (by decide)).1 (by decide)

end LogxControll
