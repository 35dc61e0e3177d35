/-
  The two enumerations of the labels of a gate.

  `get_labels` counts the ports and then copies their labels to an array of the caller, with a
  running offset and what is left of the array; `enumerate_io_names` appends them to an array of its
  own. For a gate whose ports were added and never removed both give the labels grouped by type
  (`label_enumerations_agree`).
-/
import LogxControll.Core.Enumeration
import LogxControll.Lib.Run
import LogxControll.Wiring.Declarations

namespace LogxControll

open Stores

/-! ## The growing array -/

theorem appendLabels_eq {label : Nat → Option (Option PortName)} (ls : List PortName) :
    ∀ {t : Nat} {dst : PntArray PortName} {l : List PortName}, Packed dst l →
      (∀ k (hk : k < ls.length), label (t + k) = some (some ls[k])) →
      ∃ dst', appendLabels label ls.length t dst = some dst' ∧ Packed dst' (l ++ ls) := by
  induction ls with
  | nil => exact fun {t dst l} h _ => ⟨dst, rfl, by simpa using h⟩
  | cons c ls ih =>
    intro t dst l h hlabel
    have hfirst : label t = some (some c) := hlabel 0 (Nat.succ_pos _)
    have hrest : ∀ k (hk : k < ls.length), label (t + 1 + k) = some (some ls[k]) := by
      intro k hk
      rw [Nat.add_right_comm]
      exact hlabel (k + 1) (Nat.succ_lt_succ hk)
    obtain ⟨dst', hres, h'⟩ := ih (packed_block (l ++ [c])) hrest
    refine ⟨dst', ?_, by simpa using h'⟩
    rw [List.length_cons, appendLabels, hfirst, Option.bind_eq_bind, Option.bind_some,
      arrayPntAppendElement_of_packed h]
    exact hres

section Gates

variable {g : Gate} {dir : Direction}

theorem appendAllLabels_eq {types : List FullSignalType} {lss : List (List PortName)}
    (h : List.Forall₂ (g.LabelsOf dir) types lss) :
    ∀ {dst : PntArray PortName} {l : List PortName}, Packed dst l →
      ∃ dst', appendAllLabels g dir types dst = some dst' ∧ Packed dst' (l ++ lss.flatten) := by
  induction h with
  | nil => exact fun {dst l} h => ⟨dst, rfl, by simpa using h⟩
  | @cons t ls types lss hls _ ih =>
    intro dst l hdst
    obtain ⟨max, hmax, hlen, hlabel⟩ := hls
    obtain ⟨dst₁, hres₁, h₁⟩ := appendLabels_eq ls hdst (t := 0) (by simpa using hlabel)
    obtain ⟨dst', hres, h'⟩ := ih h₁
    refine ⟨dst', ?_, by simpa using h'⟩
    rw [appendAllLabels, hmax, Option.bind_eq_bind, Option.bind_some, ← hlen, hres₁]
    exact hres

theorem lxcGateEnumerateLabelsInto_eq {items : List PortName} (h : g.Enumerates dir items)
    (htypes : (g.portTypes dir).length ≤ lxcGateMaxIoTypeCount) {dst : PntArray PortName}
    {l : List PortName} (hdst : Packed dst l) :
    ∃ dst', lxcGateEnumerateLabelsInto dir dst g = some dst' ∧ Packed dst' (l ++ items) := by
  obtain ⟨lss, hlss, rfl⟩ := h
  have hinit : Packed (arrayPntInit dst) l := by
    rcases hdst with ⟨rfl, rfl⟩ | rfl
    · exact packed_block []
    · exact packed_block l
  rw [lxcGateEnumerateLabelsInto, Gate.getTypes_eq, if_neg (not_lt.mpr htypes)]
  exact appendAllLabels_eq hlss hinit

end Gates

/-! ## Declared ports, grouped by type -/

/-- The names of the declarations of one type, in the order of their declaration. -/
def namesOf (defs : List PortDefinition) (k : FullSignalType) : List PortName :=
  declaredNames (defs.filter fun d => d.key = k)

theorem map_positionsFrom (k : FullSignalType) (defs : List PortDefinition) :
    ∀ (before : List PortName),
      (positionsFrom k before.length (defs.map PortDefinition.key)).map
        (fun a => (before ++ declaredNames defs).getD a .empty) = namesOf defs k := by
  induction defs with
  | nil => exact fun _ => rfl
  | cons d defs ih =>
    intro before
    have hlist : before ++ declaredNames (d :: defs) =
        before ++ [.chars d.name] ++ declaredNames defs := by simp [declaredNames]
    have hrest := ih (before ++ [.chars d.name])
    rw [List.length_append, List.length_singleton, ← hlist] at hrest
    rw [List.map_cons, positionsFrom]
    by_cases hk : d.key = k
    · rw [if_pos hk, List.map_cons, hrest, namesOf, namesOf, List.filter_cons_of_pos (by simpa using hk)]
      simp [declaredNames, List.getD_eq_getElem?_getD]
    · rw [if_neg hk, hrest, namesOf, namesOf, List.filter_cons_of_neg (by simpa using hk)]

/-- Grouping is a permutation when every key has its group. -/
theorem perm_flatMap_filter {α κ : Type} [DecidableEq κ] (key : α → κ) (keys : List κ) :
    ∀ (xs : List α), keys.Nodup → (∀ x ∈ xs, key x ∈ keys) →
      (keys.flatMap fun k => xs.filter fun x => key x = k).Perm xs := by
  induction keys with
  | nil =>
    intro xs _ hall
    obtain rfl : xs = [] := List.eq_nil_iff_forall_not_mem.mpr fun x hx => by cases hall x hx
    exact .refl _
  | cons k keys ih =>
    intro xs hnodup hall
    obtain ⟨hk, hnodup⟩ := List.nodup_cons.mp hnodup
    have hothers : (keys.flatMap fun k' => xs.filter fun x => key x = k') =
        keys.flatMap fun k' => (xs.filter fun x => !decide (key x = k)).filter
          fun x => key x = k' := by
      refine List.flatMap_congr fun k' hk' => ?_
      rw [List.filter_filter]
      refine List.filter_congr fun x _ => ?_
      by_cases hx : key x = k'
      · have hne : k' ≠ k := fun he => hk (he ▸ hk')
        simp [hx, hne]
      · simp [hx]
    rw [List.flatMap_cons, hothers]
    refine (List.Perm.append_left _ (ih _ hnodup fun x hx => ?_)).trans
      (List.filter_append_perm _ xs)
    obtain ⟨hx, hne⟩ := List.mem_filter.mp hx
    exact (List.mem_cons.mp (hall x hx)).resolve_left (by simpa using hne)

/-! ## Gates built by additions -/

/-- The addition of a port; with it goes what the reallocated blocks happen to hold. -/
def declarePort (m : PortManager) (call : (Nat → Nat) × PortDefinition) : Option PortManager := do
  let (_, _, m) ←
    lxcPortUncheckedAddNewPort call.1 m (.chars call.2.name) call.2.type call.2.subtype
  return m

theorem Declared.run (calls : List ((Nat → Nat) × PortDefinition)) :
    ∀ {m : PortManager} {before : List PortDefinition} {gs : Groups}, Declared m before gs →
      ∃ m' gs', Run.run declarePort m calls = some m' ∧
        Declared m' (before ++ calls.map Prod.snd) gs' := by
  induction calls with
  | nil => exact fun {m before gs} h => ⟨m, gs, rfl, by simpa using h⟩
  | cons call calls ih =>
    intro m before gs h
    obtain ⟨index, m₁, gs₁, hadd, h₁⟩ := h.add call.1 call.2
    obtain ⟨m', gs', hrest, h'⟩ := ih h₁
    refine ⟨m', gs', ?_, by simpa using h'⟩
    rw [Run.run_cons, declarePort, hadd]
    exact hrest

theorem Declared.enumerates {g : Gate} {dir : Direction} {defs : List PortDefinition} {gs : Groups}
    (hc : g.gateClass ≠ .bool) (h : Declared (g.side dir).manager defs gs)
    (hlen : defs.length < 2 ^ 31) :
    g.Enumerates dir ((gs.map Prod.fst).flatMap (namesOf defs)) := by
  have hnames : ∀ k, ((absList gs k).take (intOfUint (absList gs k).length).toNat).map
      (fun a => (declaredNames defs).getD a .empty) = namesOf defs k := by
    intro k
    have hle : (absList gs k).length ≤ defs.length := by
      rw [h.lists]
      simpa using length_positionsFrom_le k (defs.map PortDefinition.key) 0
    rw [intOfUint_of_lt (lt_of_le_of_lt hle hlen), Int.toNat_natCast, List.take_length, h.lists]
    exact map_positionsFrom k defs []
  have henum := Gate.enumerates_of_represents hc h.represents
  simpa only [hnames] using henum

/-- Every declaration is in the group of its type. -/
theorem perm_namesOf {m : PortManager} {defs : List PortDefinition} {gs : Groups}
    (h : Declared m defs gs) : ((gs.map Prod.fst).flatMap (namesOf defs)).Perm (declaredNames defs) := by
  have hperm := perm_flatMap_filter PortDefinition.key (gs.map Prod.fst) defs h.represents.keys
    fun d hd => (h.mem_keys_iff d.key).mpr (List.mem_map_of_mem hd)
  have hmap := hperm.map fun d => PortName.chars d.name
  rw [List.map_flatMap] at hmap
  exact hmap

/-- For a generic gate whose ports were only added, and of at most 20 types: copying the labels to
    an array of any length writes nothing at this length or behind it; and when the array is longer
    than there are ports, it gets what the other enumeration appends to an array, every label once
    and grouped by type. -/
theorem label_enumerations_agree {g : Gate} {dir : Direction} {m₀ : PortManager}
    (hclass : g.gateClass = .portb ∨ g.gateClass = .porti)
    (hm₀ : m₀ = .zeroed ∨ m₀ = lxcPortInitPortManagerFactory)
    {calls : List ((Nat → Nat) × PortDefinition)}
    (hbuilt : Run.run declarePort m₀ calls = some (g.side dir).manager)
    (htypes : ((calls.map Prod.snd).map PortDefinition.key).dedup.length ≤ lxcGateMaxIoTypeCount)
    {maxLength : Int} (hint : maxLength < 2 ^ 31) (arr : Cells (Option PortName)) :
    ∃ ret arr', lxcGateGetLabels dir (some g) arr maxLength = some (ret, arr') ∧
      (∀ i : Nat, maxLength ≤ i → arr' i = arr i) ∧
      (calls.length < maxLength → ret = calls.length ∧
        ∃ labels : List PortName, labels.length = calls.length ∧
          (∀ i : Nat, arr' i = if i < calls.length then labels[i]? else arr i) ∧
          (∀ dst l, Packed dst l → ∃ dst',
            lxcGateEnumerateLabelsInto dir dst g = some dst' ∧ Packed dst' (l ++ labels)) ∧
          labels.Perm (declaredNames (calls.map Prod.snd)) ∧
          ∃ types : List FullSignalType, types.Nodup ∧
            labels = types.flatMap (namesOf (calls.map Prod.snd))) := by
  have hc : g.gateClass ≠ .bool := by
    rcases hclass with hc | hc <;> simp [hc]
  obtain ⟨m, gs, hrun, hdeclared⟩ : ∃ m gs, Run.run declarePort m₀ calls = some m ∧
      Declared m (calls.map Prod.snd) gs := by
    rcases hm₀ with rfl | rfl
    · exact declared_zeroed.run calls
    · exact declared_init.run calls
  obtain rfl := Option.some.inj (hrun.symm.trans hbuilt)
  have hports : (g.portTypes dir).length ≤ lxcGateMaxIoTypeCount := by
    have heq : g.portTypes dir = (g.side dir).manager.managedTypes.getD [] := by
      rcases hclass with hc | hc <;> simp only [Gate.portTypes, hc]
    rw [heq, hdeclared.represents.types, List.length_map]
    exact hdeclared.length_le.trans htypes
  by_cases hlong : calls.length < maxLength
  · have henum := hdeclared.enumerates hc (by rw [List.length_map]; omega)
    have hperm := perm_namesOf hdeclared
    have hlen := hperm.length_eq
    rw [declaredNames, List.length_map, List.length_map] at hlen
    have hres := getLabels_eq henum arr maxLength
    rw [if_neg (not_lt.mpr hports), if_neg (by omega), hlen] at hres
    refine ⟨calls.length, _, hres, fun i hi => ?_, fun _ => ⟨rfl, _, hlen, fun i => ?_,
      fun dst l hdst => lxcGateEnumerateLabelsInto_eq henum hports hdst, hperm, gs.map Prod.fst,
      hdeclared.represents.keys, rfl⟩⟩
    · exact storeAll_of_le _ _ (by rw [List.length_map]; omega)
    · by_cases hi : i < calls.length
      · have hcell := storeAll_get (((gs.map Prod.fst).flatMap (namesOf (calls.map Prod.snd))).map some)
          arr 0 (show i < _ by rw [List.length_map]; omega)
        rw [Nat.zero_add] at hcell
        rw [if_pos hi, hcell, List.getElem_map, List.getElem?_eq_getElem]
      · rw [if_neg hi]
        exact storeAll_of_le _ _ (by rw [List.length_map]; omega)
  · obtain ⟨items, henum⟩ : ∃ items, g.Enumerates dir items :=
      ⟨_, Gate.enumerates_of_represents hc hdeclared.represents⟩
    have hres := getLabels_eq henum arr maxLength
    rw [if_neg (not_lt.mpr hports)] at hres
    by_cases hle : maxLength ≤ items.length
    · rw [if_pos hle] at hres
      exact ⟨_, arr, hres, fun _ _ => rfl, fun hlt => absurd hlt hlong⟩
    · rw [if_neg hle] at hres
      exact ⟨_, _, hres, fun i hi => storeAll_of_le _ _ (by rw [List.length_map]; omega),
        fun hlt => absurd hlt hlong⟩

/-- A gate with two types of inputs. -/
def sampleGate (input : PortManager) : Gate :=
  { gateClass := .porti, execute := .other, enabled := true, executionBehavior := none,
    input := { manager := input, slots := [] }, output := { manager := .zeroed, slots := [] } }

theorem label_enumerations_agree_sample : ∃ m,
    Run.run declarePort .zeroed [((fun _ => 0), ⟨"a", .bool, 0⟩), ((fun _ => 0), ⟨"b", .int, 0⟩),
      ((fun _ => 0), ⟨"c", .bool, 0⟩)] = some m ∧
    ∃ arr', lxcGateGetLabels .input (some (sampleGate m)) (fun _ => none) 5 = some (3, arr') := by
  refine ⟨_, rfl, ?_⟩
  obtain ⟨ret, arr', hres, -, hlong⟩ := @label_enumerations_agree (sampleGate _) .input .zeroed
    (.inr rfl) (.inl rfl) [((fun _ => 0), ⟨"a", .bool, 0⟩), ((fun _ => 0), ⟨"b", .int, 0⟩),
      ((fun _ => 0), ⟨"c", .bool, 0⟩)] rfl (by decide) 5 (by decide) fun _ => none
  obtain ⟨rfl, -⟩ := hlong (by decide)
  exact ⟨arr', hres⟩

end LogxControll
