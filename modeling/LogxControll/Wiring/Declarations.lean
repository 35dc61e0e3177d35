/-
  The ports of a gate whose behavior declares them in a list.

  Four numberings of the ports meet: the order of the declarations, the index inside a type
  group, the absolute index and the order of the labels. `Declared` says that a manager holds
  the declarations with the position of each as its absolute index; the search by label then
  finds every declared port (`lookup_declared`, `lookup_succeeds`).
-/
import LogxControll.Core.Creation
import LogxControll.Wiring.Together

namespace LogxControll

/-! ## The positions of a key -/

/-- The positions, counted from `n`, at which `k` stands in the list. -/
def positionsFrom (k : FullSignalType) : Nat → List FullSignalType → List Nat
  | _, [] => []
  | n, k' :: keys =>
    if k' = k then n :: positionsFrom k (n + 1) keys else positionsFrom k (n + 1) keys

theorem positionsFrom_append (k k' : FullSignalType) (keys : List FullSignalType) :
    ∀ n, positionsFrom k n (keys ++ [k']) =
      positionsFrom k n keys ++ if k' = k then [n + keys.length] else [] := by
  induction keys with
  | nil => intro n; simp [positionsFrom]
  | cons k'' keys ih =>
    intro n
    have e : n + 1 + keys.length = n + (k'' :: keys).length := by
      rw [List.length_cons]; omega
    simp only [List.cons_append, positionsFrom, ih (n + 1), e]
    split <;> rfl

/-- The entry of position `i` stands behind those of the earlier positions of its key. -/
theorem positionsFrom_getElem? {k : FullSignalType} :
    ∀ {keys : List FullSignalType} {i : Nat} (n : Nat), keys[i]? = some k →
      (positionsFrom k n keys)[(keys.take i).count k]? = some (n + i)
  | [], i, n, h => by simp at h
  | k' :: keys, 0, n, h => by
      obtain rfl : k' = k := by simpa using h
      simp [positionsFrom]
  | k' :: keys, i + 1, n, h => by
      rw [List.getElem?_cons_succ] at h
      have ih := positionsFrom_getElem? (n + 1) h
      have e : n + 1 + i = n + (i + 1) := by omega
      rw [e] at ih
      rw [List.take_succ_cons]
      by_cases hk : k' = k
      · subst hk
        simpa [positionsFrom] using ih
      · simpa [positionsFrom, hk] using ih

theorem length_positionsFrom_le (k : FullSignalType) :
    ∀ (keys : List FullSignalType) (n : Nat), (positionsFrom k n keys).length ≤ keys.length
  | [], _ => le_rfl
  | k' :: keys, n => by
      have := length_positionsFrom_le k keys (n + 1)
      unfold positionsFrom
      split
      · simpa using this
      · exact this.trans (Nat.le_succ _)

/-! ## A manager that holds declarations -/

/-- The names of the declarations, in order. -/
def declaredNames (defs : List PortDefinition) : List PortName := defs.map fun d => .chars d.name

/-- The manager holds the declarations: the `i`-th has the absolute index `i`. -/
structure Declared (m : PortManager) (defs : List PortDefinition) (gs : Groups) : Prop where
  represents : m.Represents gs (declaredNames defs)
  lists : absList gs = fun k => positionsFrom k 0 (defs.map PortDefinition.key)
  keys : ∀ g ∈ gs, g.1 ∈ defs.map PortDefinition.key

theorem declared_zeroed : Declared PortManager.zeroed [] [] where
  represents := represents_zeroed
  lists := rfl
  keys := by simp

theorem declared_init : Declared lxcPortInitPortManagerFactory [] [] where
  represents := represents_init
  lists := rfl
  keys := by simp

theorem not_mem_declaredNames (defs : List PortDefinition) :
    PortName.empty ∉ declaredNames defs := by simp [declaredNames]

/-- One more port is one more declaration. -/
theorem Declared.add {m : PortManager} {before : List PortDefinition} {gs : Groups}
    (h : Declared m before gs) (junk : Nat → Nat) (d : PortDefinition) :
    ∃ (index : Nat) (m₁ : PortManager) (gs₁ : Groups),
      lxcPortUncheckedAddNewPort junk m (.chars d.name) d.type d.subtype =
        some ((before.length : Int) + 1, index, m₁) ∧
      Declared m₁ (before ++ [d]) gs₁ := by
  obtain ⟨m₁, gs₁, hadd, hrep, habs, hkeys⟩ :=
    lxcPortUncheckedAddNewPort_represents h.represents junk d.name d.type d.subtype
  have hne := not_mem_declaredNames before
  rw [show placeName (declaredNames before) (.chars d.name) = declaredNames (before ++ [d]) by
    rw [placeName, if_neg hne]; simp [declaredNames]] at hrep
  rw [if_neg hne, nextSlot_of_notMem hne, declaredNames, List.length_map] at hadd
  refine ⟨_, m₁, gs₁, hadd, hrep, ?_, ?_⟩
  · rw [habs, nextSlot_of_notMem hne, h.lists]
    funext k
    rw [List.map_append, List.map_singleton, positionsFrom_append]
    by_cases hk : k = d.key
    · subst hk
      rw [show (⟨d.type, d.subtype⟩ : FullSignalType) = d.key from rfl, Function.update_self]
      simp [declaredNames]
    · rw [show (⟨d.type, d.subtype⟩ : FullSignalType) = d.key from rfl,
        Function.update_of_ne hk, if_neg (Ne.symm hk), List.append_nil]
  · intro g hg
    rw [List.map_append, List.mem_append]
    rcases hkeys g hg with hg | hg
    · exact .inl (h.keys g hg)
    · exact .inr (by rw [hg]; exact List.mem_singleton.mpr rfl)

/-- What the calls return is one more than the absolute index of the port. -/
def returnedNumbers (n : Nat) : List PortDefinition → List Int
  | [] => []
  | _ :: defs => ((n : Int) + 1) :: returnedNumbers (n + 1) defs

theorem addNewPorts_declared (junk : Nat → Nat) :
    ∀ (defs : List PortDefinition) {m : PortManager} {before : List PortDefinition} {gs : Groups},
      Declared m before gs →
        ∃ m' gs', addNewPorts junk m defs = some (returnedNumbers before.length defs, m') ∧
          Declared m' (before ++ defs) gs'
  | [], m, before, gs, h => ⟨m, gs, rfl, by rwa [List.append_nil]⟩
  | d :: defs, m, before, gs, h => by
      obtain ⟨index, m₁, gs₁, hadd, h₁⟩ := h.add junk d
      obtain ⟨m', gs', hrest, h'⟩ := addNewPorts_declared junk defs h₁
      refine ⟨m', gs', ?_, by rwa [List.append_assoc] at h'⟩
      rw [List.length_append, List.length_singleton] at hrest
      simp only [addNewPorts, hadd, Option.bind_eq_bind, Option.bind_some, hrest]
      rfl

theorem addPortDefinitions_eq (junk : Nat → Nat) (defs : List PortDefinition) (m : PortManager) :
    addPortDefinitions junk m defs = (addNewPorts junk m defs).map Prod.snd := by
  induction defs generalizing m with
  | nil => rfl
  | cons d defs ih =>
    simp only [addPortDefinitions, addNewPorts, Option.bind_eq_bind, Option.map_bind]
    refine Option.bind_congr fun added _ => ?_
    rw [ih, Function.comp_apply, Option.map_bind, Option.map_eq_bind]
    rfl

theorem addPortDefinitions_declared (junk : Nat → Nat) (defs : List PortDefinition)
    {m : PortManager} {before : List PortDefinition} {gs : Groups} (h : Declared m before gs) :
    ∃ m' gs', addPortDefinitions junk m defs = some m' ∧ Declared m' (before ++ defs) gs' := by
  obtain ⟨m', gs', hadd, h'⟩ := addNewPorts_declared junk defs h
  exact ⟨m', gs', by rw [addPortDefinitions_eq, hadd]; rfl, h'⟩

/-- Type, subtype and index of the `i`-th declared port: the index counts the earlier
    declarations of the same type and subtype. -/
def declaredPort (defs : List PortDefinition) (i : Nat) : Option (Signal × Int × Nat) :=
  defs[i]?.map fun d =>
    (d.type, d.subtype, ((defs.map PortDefinition.key).take i).count d.key)

namespace Declared

variable {m : PortManager} {defs : List PortDefinition} {gs : Groups}

theorem absList_getElem? (h : Declared m defs gs) {i : Nat} {d : PortDefinition}
    (hd : defs[i]? = some d) :
    (absList gs d.key)[((defs.map PortDefinition.key).take i).count d.key]? = some i := by
  rw [h.lists]
  have := positionsFrom_getElem? (k := d.key) (i := i) 0
    (by rw [List.getElem?_map, hd]; rfl)
  rwa [Nat.zero_add] at this

theorem names_getElem? {i : Nat} {name : PortName} (h : (declaredNames defs)[i]? = some name) :
    ∃ d, defs[i]? = some d ∧ name = .chars d.name := by
  rw [declaredNames, List.getElem?_map, Option.map_eq_some_iff] at h
  obtain ⟨d, hd, rfl⟩ := h
  exact ⟨d, hd, rfl⟩

/-- A label that reads like the name of declaration `i` belongs to the `i`-th declared port. -/
theorem port_of_label (h : Declared m defs gs)
    (hnd : (defs.map PortDefinition.name).Nodup) {i : Nat} {d : PortDefinition}
    (hd : defs[i]? = some d) {sig : Signal} {sub : Int} {index : Nat} {name : PortName}
    (hlabel : lxcGenericGetPortLabel m sig sub index = some (some name))
    (htext : name.text = d.name) :
    declaredPort defs i = some (sig, sub, index) := by
  rw [h.represents.lxcGenericGetPortLabel_eq, Option.some.injEq, Option.bind_eq_some_iff] at hlabel
  obtain ⟨a, ha, hname⟩ := hlabel
  obtain ⟨d', hd', rfl⟩ := names_getElem? hname
  have hai : a = i := by
    have h1 : (defs.map PortDefinition.name)[a]? = some d.name := by
      rw [List.getElem?_map, hd', Option.map_some, ← htext]
      rfl
    have h2 : (defs.map PortDefinition.name)[i]? = some d.name := by
      rw [List.getElem?_map, hd, Option.map_some]
    obtain ⟨ha', h1⟩ := List.getElem?_eq_some_iff.mp h1
    obtain ⟨hi', h2⟩ := List.getElem?_eq_some_iff.mp h2
    exact hnd.getElem_inj_iff.mp (h1.trans h2.symm)
  subst hai
  obtain ⟨hk, hi⟩ := h.represents.indexed.inj ha (h.absList_getElem? hd)
  have hk' : d.type = sig ∧ d.subtype = sub := by
    simpa [PortDefinition.key, eq_comm] using hk
  simp [declaredPort, hd, hi, hk'.1, hk'.2]

/-- Every key of a declaration is managed, and no other. -/
theorem mem_keys_iff (h : Declared m defs gs) (k : FullSignalType) :
    k ∈ gs.map Prod.fst ↔ k ∈ defs.map PortDefinition.key := by
  constructor
  · intro hk
    obtain ⟨g, hg, rfl⟩ := List.mem_map.mp hk
    exact h.keys g hg
  · intro hk
    by_contra hn
    obtain ⟨d, hd, rfl⟩ := List.mem_map.mp hk
    obtain ⟨i, hi⟩ := List.mem_iff_getElem?.mp hd
    have := h.absList_getElem? hi
    simp [absList_of_notMem hn] at this

/-- There are as many managed types as different keys. -/
theorem length_le (h : Declared m defs gs) :
    gs.length ≤ (defs.map PortDefinition.key).dedup.length := by
  have hsub : gs.map Prod.fst ⊆ (defs.map PortDefinition.key).dedup := by
    intro k hk
    exact List.mem_dedup.mpr ((h.mem_keys_iff k).mp hk)
  have := (List.subperm_of_subset h.represents.keys hsub).length_le
  rwa [List.length_map] at this

end Declared

/-! ## The search by label finds the declared port -/

section Search

variable {g : Gate} (dir : Direction) (sig : Signal) (sub : Int) (portName : String)

/-- The inner loop ends, and overlooks no label. -/
theorem findLabel_total (h : g.Sound) : ∀ n t, ∃ r, findLabel g dir sig sub portName n t = some r ∧
    ∀ i name, t ≤ i → i < t + n → g.getLabel dir sig sub i = some (some name) →
      name.text = portName → r.isSome
  | 0, t => ⟨none, rfl, by omega⟩
  | n + 1, t => by
      obtain ⟨gs, names, hs⟩ := h.side dir
      obtain ⟨r, hr, hall⟩ := findLabel_total h n (t + 1)
      have hlabel : ∃ name, g.getLabel dir sig sub t = some name :=
        ⟨_, by rw [h.getLabel_eq, hs.represents.lxcGenericGetPortLabel_eq]⟩
      obtain ⟨name, hname⟩ := hlabel
      simp only [findLabel, hname, Option.bind_eq_bind, Option.bind_some]
      by_cases hm : name.map PortName.text = some portName
      · exact ⟨some t, by rw [if_pos hm]; rfl, by simp⟩
      · refine ⟨r, by rw [if_neg hm, hr], ?_⟩
        intro i name' hle hlt hi htext
        by_cases he : i = t
        · subst he
          rw [hname, Option.some.injEq] at hi
          exact absurd (by rw [hi, Option.map_some, htext]) hm
        · exact hall i name' (by omega) (by omega) hi htext

/-- So does the outer loop. -/
theorem findPortInfo_total (h : g.Sound) : ∀ types : List FullSignalType,
    ∃ r, findPortInfo g dir portName types = some r ∧
      ∀ sig sub max (i : Nat) name, ⟨sig, sub⟩ ∈ types →
        g.getMaxIndex dir sig sub = some max → (i : Int) < max →
        g.getLabel dir sig sub i = some (some name) → name.text = portName → r.isSome
  | [] => ⟨none, rfl, by simp⟩
  | ⟨sig, sub⟩ :: types => by
      obtain ⟨gs, names, hs⟩ := h.side dir
      obtain ⟨r, hr, hall⟩ := findPortInfo_total h types
      have hmax : ∃ max, g.getMaxIndex dir sig sub = some max :=
        ⟨_, by rw [h.getMaxIndex_eq, hs.represents.lxcGenericGetTypeMaxIndex_eq]⟩
      obtain ⟨max, hmax⟩ := hmax
      obtain ⟨found, hfound, hinner⟩ :=
        findLabel_total dir sig sub portName h max.toNat 0
      simp only [findPortInfo, hmax, hfound, Option.bind_eq_bind, Option.bind_some]
      cases found with
      | some t => exact ⟨some (sig, sub, t), rfl, by simp⟩
      | none =>
        refine ⟨r, hr, ?_⟩
        intro sig' sub' max' i name hmem hmax' hlt hi htext
        rcases List.mem_cons.mp hmem with he | hmem
        · simp only [FullSignalType.mk.injEq] at he
          obtain ⟨rfl, rfl⟩ := he
          rw [hmax, Option.some.injEq] at hmax'
          subst hmax'
          have := hinner i name (by omega) (by omega) hi htext
          simp at this
        · exact hall sig' sub' max' i name hmem hmax' hlt hi htext

end Search

section Lookup

variable {g : Gate} {dir : Direction} {defs : List PortDefinition} {gs : Groups} {i : Nat}
  {d : PortDefinition}

/-- What is found under the name of a declaration is the declared port. -/
theorem lookup_declared (hg : g.Sound) (h : Declared (g.side dir).manager defs gs)
    (hnd : (defs.map PortDefinition.name).Nodup) (hd : defs[i]? = some d)
    {sig : Signal} {sub : Int} {index : Nat}
    (hfind : lxcGateGetPortinfoByName g dir d.name = some (.ok (sig, sub, index))) :
    declaredPort defs i = some (sig, sub, index) := by
  simp only [lxcGateGetPortinfoByName, Option.bind_eq_bind] at hfind
  split at hfind
  · simp at hfind
  rw [Option.bind_eq_some_iff] at hfind
  obtain ⟨found, hfound, hfind⟩ := hfind
  cases found with
  | none => simp at hfind
  | some info =>
    obtain rfl : info = (sig, sub, index) := by simpa using hfind
    obtain ⟨-, -, name, hname, htext⟩ := findPortInfo_some hfound
    rw [hg.getLabel_eq] at hname
    exact h.port_of_label hnd hd hname htext

/-- The search does not fail, if the number of ports is an `int`. -/
theorem lookup_succeeds (hg : g.Sound) (h : Declared (g.side dir).manager defs gs)
    (htypes : (defs.map PortDefinition.key).dedup.length ≤ lxcGateMaxIoTypeCount)
    (hlen : defs.length < 2 ^ 31) (hd : defs[i]? = some d) :
    ∃ info, lxcGateGetPortinfoByName g dir d.name = some (.ok info) := by
  have hle := h.length_le
  have hidx := h.absList_getElem? hd
  have hkey : d.key ∈ gs.map Prod.fst := (h.mem_keys_iff d.key).mpr
    (List.mem_map.mpr ⟨d, List.mem_of_getElem? hd, rfl⟩)
  have hpos : 0 < gs.length := by
    have := List.length_pos_of_mem hkey
    rwa [List.length_map] at this
  have htypes' : g.getTypes dir = ((gs.length : Int), gs.map Prod.fst) := by
    rw [hg.getTypes_eq, h.represents.lxcPortFillTypes_eq, if_neg (by omega)]
  -- the port is below the count of its group, which is an `int`
  have hbelow := (List.getElem?_eq_some_iff.mp hidx).1
  have hgroup : (absList gs d.key).length ≤ defs.length := by
    rw [h.lists]
    exact (length_positionsFrom_le _ _ _).trans_eq (List.length_map ..)
  have hmax : g.getMaxIndex dir d.type d.subtype = some ((absList gs d.key).length : Int) := by
    rw [hg.getMaxIndex_eq, h.represents.lxcGenericGetTypeMaxIndex_eq,
      show (⟨d.type, d.subtype⟩ : FullSignalType) = d.key from rfl, if_pos hkey]
    exact congrArg some (intOfUint_of_lt (by omega))
  have hlabel : g.getLabel dir d.type d.subtype
      (((defs.map PortDefinition.key).take i).count d.key) = some (some (.chars d.name)) := by
    rw [hg.getLabel_eq, h.represents.lxcGenericGetPortLabel_eq]
    change some ((absList gs d.key)[_]?.bind _) = _
    rw [hidx, Option.bind_some, declaredNames, List.getElem?_map, hd]
    rfl
  obtain ⟨r, hr, hall⟩ := findPortInfo_total dir d.name hg (gs.map Prod.fst)
  have hsome := hall d.type d.subtype _ _ _ hkey hmax (by exact_mod_cast hbelow) hlabel rfl
  obtain ⟨info, rfl⟩ := Option.isSome_iff_exists.mp hsome
  refine ⟨info, ?_⟩
  simp only [lxcGateGetPortinfoByName, htypes', if_neg (show ¬ (gs.length : Int) < 1 by omega), hr,
    Option.bind_eq_bind, Option.bind_some]
  rfl

end Lookup

end LogxControll
