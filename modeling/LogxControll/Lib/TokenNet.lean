/-
  Token networks: a wire that is driven puts a token into every port that listens to it, and a
  node whose ports all hold tokens consumes them and drives its own wire.

  Delivery is depth first: after each token the node of its port is notified, and what that
  sets off is done before the next port gets its token. In a network without cycles, driving
  every wire that no node drives once makes a round, in which every node fires once and no
  token is left (`round_fires_once`). The argument follows the set of ports that got their
  token: `Round` reads the tokens and the log off that set, and `Grows` says how one drive
  changes it.
-/
import Mathlib.Data.List.Basic
import Mathlib.Tactic
import LogxControll.Lib.Run
import LogxControll.Lib.WalkCount

namespace TokenNet

variable {N W P V : Type*}

/-- `ports n` are the ports of node `n` in the order in which they are read, `listeners w` those
    that wire `w` puts tokens into. What a node drives is a function of its tokens. -/
structure Net (N W P V : Type*) where
  ports : N → List P
  node : P → N
  source : P → W
  out : N → Option W
  listeners : W → List P
  result : N → List V → Option V

/-- `log` has an entry for every drive that a node made. -/
structure State (N P V : Type*) where
  token : P → Option V
  log : List (N × V)

/-! ## Execution -/

section Execution

variable [DecidableEq P]

/-- A port gets a token. -/
def State.put (s : State N P V) (p : P) (v : V) : State N P V :=
  { s with token := Function.update s.token p (some v) }

/-- The tokens in the ports, if none is missing. -/
def State.collect (s : State N P V) : List P → Option (List V)
  | [] => some []
  | p :: ps => (s.token p).bind fun v => (s.collect ps).map (v :: ·)

/-- The tokens of some ports are taken away. -/
def State.clear (s : State N P V) (ps : List P) : State N P V :=
  { s with token := fun p => if p ∈ ps then none else s.token p }

variable (net : Net N W P V)

/-- Deliver `v` to the ports, and notify the node of each. -/
def Net.deliver (notify : N → State N P V → Option (State N P V)) (v : V) :
    List P → State N P V → Option (State N P V)
  | [], s => some s
  | p :: ps, s => (notify (net.node p) (s.put p v)).bind (Net.deliver notify v ps)

/-- Each listener of the wire gets a token and is notified. -/
def Net.drive (notify : N → State N P V → Option (State N P V)) (w : W) (v : V) :
    State N P V → Option (State N P V) :=
  net.deliver notify v (net.listeners w)

/-- Consume the tokens of the node, when it has them all, and drive its wire. -/
def Net.fire (notify : N → State N P V → Option (State N P V)) (n : N) (s : State N P V) :
    Option (State N P V) :=
  match s.collect (net.ports n) with
  | none => some s
  | some vs =>
    let s := s.clear (net.ports n)
    match net.result n vs, net.out n with
    | some v, some w => net.drive notify w v { s with log := s.log ++ [(n, v)] }
    | _, _ => some s

section Fire

variable {net} {notify : N → State N P V → Option (State N P V)} {n : N} {s : State N P V}
  {vs : List V}

theorem fire_of_missing (h : s.collect (net.ports n) = none) : net.fire notify n s = some s := by
  simp only [Net.fire, h]

theorem fire_of_unwired (h : s.collect (net.ports n) = some vs) (hout : net.out n = none) :
    net.fire notify n s = some (s.clear (net.ports n)) := by
  simp only [Net.fire, h, hout]
  cases net.result n vs <;> rfl

theorem fire_of_result (h : s.collect (net.ports n) = some vs) {v : V} {w : W}
    (hresult : net.result n vs = some v) (hout : net.out n = some w) :
    net.fire notify n s = net.drive notify w v
      { s.clear (net.ports n) with log := s.log ++ [(n, v)] } := by
  simp only [Net.fire, h, hresult, hout]
  rfl

end Fire

/-- A node fires with the tokens it has. -/
def Net.notify : Nat → N → State N P V → Option (State N P V)
  | 0, _, _ => none
  | k + 1, n, s => net.fire (Net.notify k) n s

end Execution

/-- What node `n` drove, according to the log. -/
def drives [DecidableEq N] (n : N) (log : List (N × V)) : List V :=
  log.filterMap fun e => if e.1 = n then some e.2 else none

/-! ## Networks -/

/-- A port belongs to one node and listens to one wire, and no two nodes drive the same wire. A
    node with ports has a result when all its tokens are there. -/
structure Net.WellFormed (net : Net N W P V) : Prop where
  node : ∀ n p, p ∈ net.ports n → net.node p = n
  listener : ∀ w p, p ∈ net.listeners w ↔ p ∈ net.ports (net.node p) ∧ net.source p = w
  nodup : ∀ w, (net.listeners w).Nodup
  driver : ∀ n n' w, net.out n = some w → net.out n' = some w → n = n'
  total : ∀ n vs, net.ports n ≠ [] → vs.length = (net.ports n).length → (net.result n vs).isSome

/-- A port of `m` listens to the wire of `n`. -/
def Net.Feeds (net : Net N W P V) (n m : N) : Prop :=
  ∃ p ∈ net.ports m, net.out n = some (net.source p)

/-- No node drives the wire. -/
def Net.Primary (net : Net N W P V) (w : W) : Prop := ∀ n, net.out n ≠ some w

/-- `val` has the result of every node on its wire. -/
def Net.Consistent (net : Net N W P V) (val : W → V) : Prop :=
  ∀ n w, net.out n = some w → net.ports n ≠ [] →
    net.result n ((net.ports n).map fun p => val (net.source p)) = some (val w)

section Values

variable {net : Net N W P V}

theorem feeds_of_listener (hwf : net.WellFormed) {n : N} {w : W} {p : P} (hout : net.out n = some w)
    (hp : p ∈ net.listeners w) : net.Feeds n (net.node p) := by
  obtain ⟨hmem, hsource⟩ := (hwf.listener w p).mp hp
  exact ⟨p, hmem, by rw [hsource, hout]⟩

/-- Without cycles, the values on the primary wires determine consistent values. -/
theorem exists_consistent (hwf : net.WellFormed) (hacyclic : WellFounded net.Feeds)
    (input : W → V) :
    ∃ val : W → V, net.Consistent val ∧ ∀ w, net.Primary w → val w = input w := by
  classical
  -- the value of a wire whose node has the result given by `rec`
  let wire (rec : N → Option V) (w : W) : V :=
    if h : ∃ n, net.out n = some w then (rec h.choose).getD (input w) else input w
  let node : N → Option V := hacyclic.fix fun n rec =>
    net.result n ((net.ports n).map fun p =>
      wire (fun m => if h : net.Feeds m n then rec m h else none) (net.source p))
  have hnode : ∀ n, node n = net.result n ((net.ports n).map fun p =>
      wire node (net.source p)) := by
    intro n
    have hfix : node n = _ := hacyclic.fix_eq _ n
    rw [hfix]
    congr 1
    apply List.map_congr_left
    intro p hp
    by_cases h : ∃ m, net.out m = some (net.source p)
    · have hfeeds : net.Feeds h.choose n := ⟨p, hp, h.choose_spec⟩
      simp only [wire, dif_pos h, dif_pos hfeeds]
      rfl
    · simp only [wire, dif_neg h]
  refine ⟨wire node, ?_, ?_⟩
  · intro n w hout hports
    have h : ∃ m, net.out m = some w := ⟨n, hout⟩
    have hchoose : h.choose = n := hwf.driver h.choose n w h.choose_spec hout
    have htotal := hwf.total n ((net.ports n).map fun p => wire node (net.source p)) hports
      (List.length_map _)
    rw [← hnode] at htotal ⊢
    obtain ⟨v, hv⟩ := Option.isSome_iff_exists.mp htotal
    simp only [wire, dif_pos h, hchoose, hv, Option.getD_some]
  · intro w hw
    have h : ¬ ∃ n, net.out n = some w := fun ⟨n, hn⟩ => hw n hn
    simp only [wire, dif_neg h]

end Values

/-! ## Tokens -/

section Tokens

variable {s : State N P V} {p : P} {ps : List P}

theorem State.collect_eq_none (hp : p ∈ ps) (hs : s.token p = none) :
    s.collect ps = none := by
  induction ps with
  | nil => cases hp
  | cons q ps ih =>
    rcases List.mem_cons.mp hp with rfl | hp
    · rw [State.collect, hs, Option.bind_none]
    · rw [State.collect, ih hp]
      cases s.token q <;> rfl

theorem State.collect_eq_some {f : P → V} (h : ∀ p ∈ ps, s.token p = some (f p)) :
    s.collect ps = some (ps.map f) := by
  induction ps with
  | nil => rfl
  | cons q ps ih =>
    rw [State.collect, h q List.mem_cons_self, ih fun p hp => h p (List.mem_cons_of_mem _ hp)]
    rfl

theorem State.map_token_of_collect {vs : List V} (h : s.collect ps = some vs) :
    ps.map s.token = vs.map some := by
  induction ps generalizing vs with
  | nil =>
    obtain rfl := Option.some.inj h
    rfl
  | cons q ps ih =>
    obtain ⟨v, hv, h⟩ := Option.bind_eq_some_iff.mp h
    obtain ⟨rest, hrest, rfl⟩ := Option.map_eq_some_iff.mp h
    rw [List.map_cons, List.map_cons, hv, ih hrest]

theorem State.exists_of_collect_eq_none (h : s.collect ps = none) :
    ∃ p ∈ ps, s.token p = none := by
  by_contra hall
  push Not at hall
  have hsome : ∀ p ∈ ps, ∃ v, s.token p = some v := fun p hp =>
    Option.ne_none_iff_exists'.mp (hall p hp)
  choose f hf using hsome
  have : (s.collect ps).isSome := by
    clear h hall
    induction ps with
    | nil => rfl
    | cons q ps ih =>
      have hrest := ih (fun p hp => f p (List.mem_cons_of_mem _ hp))
        fun p hp => hf p (List.mem_cons_of_mem _ hp)
      rw [State.collect, hf q List.mem_cons_self, Option.bind_some, Option.isSome_map]
      exact hrest
  rw [h] at this
  cases this

variable [DecidableEq P]

theorem State.clear_nil : s.clear [] = s := by
  simp [State.clear]

theorem State.clear_cons : (s.clear [p]).clear ps = s.clear (p :: ps) := by
  unfold State.clear
  congr 1
  funext q
  by_cases hq : q ∈ ps
  · simp [hq]
  · simp [hq]

theorem State.put_token_self (s : State N P V) (p : P) (v : V) : (s.put p v).token p = some v :=
  Function.update_self p _ s.token

theorem State.put_token_ne (s : State N P V) {p q : P} (h : q ≠ p) (v : V) :
    (s.put p v).token q = s.token q :=
  Function.update_of_ne h _ s.token

theorem State.clear_token_of_mem (hp : p ∈ ps) :
    (s.clear ps).token p = none := if_pos hp

theorem State.clear_token_of_notMem (hp : p ∉ ps) :
    (s.clear ps).token p = s.token p := if_neg hp

end Tokens

section Log

variable [DecidableEq N]

theorem drives_append (n : N) (log log' : List (N × V)) :
    drives n (log ++ log') = drives n log ++ drives n log' := List.filterMap_append

theorem drives_self (n : N) (v : V) : drives n [(n, v)] = [v] := by simp [drives]

theorem drives_other {n m : N} (h : m ≠ n) (v : V) : drives n [(m, v)] = [] := by
  simp [drives, h]

end Log

/-! ## Ports that got their tokens -/

section Delivered

variable {net : Net N W P V} {D D' : Set P}

/-- All ports of the node got their tokens. -/
def Net.Complete (net : Net N W P V) (D : Set P) (n : N) : Prop :=
  net.ports n ≠ [] ∧ ∀ p ∈ net.ports n, p ∈ D

/-- From `D`, delivering to the ports in `L` and all that this sets off leads to `D'`. -/
structure Net.Grows (net : Net N W P V) (D L D' : Set P) : Prop where
  mono : D ⊆ D'
  given : L ⊆ D'
  spread : ∀ n w, net.out n = some w → net.Complete D' n → ¬ net.Complete D n →
    ∀ p ∈ net.listeners w, p ∈ D'
  reason : ∀ p ∈ D', p ∈ D ∨ p ∈ L ∨
    ∃ n, net.out n = some (net.source p) ∧ net.Complete D' n ∧ ¬ net.Complete D n

theorem Net.Complete.mono {n : N} (h : net.Complete D n) (hD : D ⊆ D') : net.Complete D' n :=
  ⟨h.1, fun p hp => hD (h.2 p hp)⟩

theorem Net.Grows.refl : net.Grows D ∅ D where
  mono := subset_rfl
  given := Set.empty_subset D
  spread := fun _ _ _ hc hn => absurd hc hn
  reason := fun _ hp => .inl hp

theorem Net.Grows.trans {L L' D'' : Set P} (h : net.Grows D L D') (h' : net.Grows D' L' D'') :
    net.Grows D (L ∪ L') D'' where
  mono := h.mono.trans h'.mono
  given := Set.union_subset (h.given.trans h'.mono) h'.given
  spread := by
    intro n w hout hc hn p hp
    by_cases hmid : net.Complete D' n
    · exact h'.mono (h.spread n w hout hmid hn p hp)
    · exact h'.spread n w hout hc hmid p hp
  reason := by
    intro p hp
    rcases h'.reason p hp with hp | hp | ⟨n, hout, hc, hn⟩
    · rcases h.reason p hp with hp | hp | ⟨n, hout, hc, hn⟩
      · exact .inl hp
      · exact .inr (.inl (.inl hp))
      · exact .inr (.inr ⟨n, hout, hc.mono h'.mono, hn⟩)
    · exact .inr (.inl (.inr hp))
    · exact .inr (.inr ⟨n, hout, hc, fun hn' => hn (hn'.mono h.mono)⟩)

/-- One more port completes at most its own node. -/
theorem complete_insert (hwf : net.WellFormed) {p : P} {n : N} (hn : n ≠ net.node p) :
    net.Complete (insert p D) n ↔ net.Complete D n := by
  constructor
  · rintro ⟨hne, hall⟩
    refine ⟨hne, fun q hq => (hall q hq).resolve_left ?_⟩
    rintro rfl
    exact hn (hwf.node n q hq).symm
  · intro h
    exact h.mono (Set.subset_insert p D)

theorem not_complete_of_notMem {p : P} (hp : p ∉ D) (hmem : p ∈ net.ports (net.node p)) :
    ¬ net.Complete D (net.node p) := fun h => hp (h.2 p hmem)

/-- The wires `ws` were driven in this round. -/
structure Net.Driven (net : Net N W P V) (ws : List W) (D : Set P) : Prop where
  given : ∀ w ∈ ws, ∀ p ∈ net.listeners w, p ∈ D
  spread : ∀ n w, net.out n = some w → net.Complete D n → ∀ p ∈ net.listeners w, p ∈ D
  reason : ∀ p ∈ D, net.source p ∈ ws ∨ ∃ n, net.out n = some (net.source p)

theorem Net.Driven.grows (hwf : net.WellFormed) {ws : List W} {w : W} (h : net.Driven ws D)
    (hgrows : net.Grows D {p | p ∈ net.listeners w} D') : net.Driven (ws ++ [w]) D' where
  given := by
    intro w' hw' p hp
    rcases List.mem_append.mp hw' with hw' | hw'
    · exact hgrows.mono (h.given w' hw' p hp)
    · obtain rfl := List.mem_singleton.mp hw'
      exact hgrows.given hp
  spread := by
    intro n w' hout hc p hp
    by_cases hbefore : net.Complete D n
    · exact hgrows.mono (h.spread n w' hout hbefore p hp)
    · exact hgrows.spread n w' hout hc hbefore p hp
  reason := by
    intro p hp
    rcases hgrows.reason p hp with hp | hp | ⟨n, hout, -⟩
    · exact (h.reason p hp).imp_left fun hp => List.mem_append_left _ hp
    · have hsource := ((hwf.listener w p).mp hp).2
      exact .inl (List.mem_append_right _ (List.mem_singleton.mpr hsource))
    · exact .inr ⟨n, hout⟩

theorem driven_nil : net.Driven [] (∅ : Set P) where
  given := fun _ hw => absurd hw List.not_mem_nil
  spread := by
    rintro n w - ⟨hne, hall⟩
    obtain ⟨p, hp⟩ := List.exists_mem_of_ne_nil _ hne
    exact absurd (hall p hp) (Set.notMem_empty p)
  reason := fun _ hp => absurd hp (Set.notMem_empty _)

/-- All wires without a node were driven, so every node is complete. -/
theorem Net.Driven.complete (hwf : net.WellFormed) (hacyclic : WellFounded net.Feeds) {ws : List W}
    (h : net.Driven ws D) (hsource : ∀ n, ∀ p ∈ net.ports n, net.source p ∈ ws ∨
      ∃ m, net.out m = some (net.source p) ∧ net.ports m ≠ []) (n : N) (hn : net.ports n ≠ []) :
    net.Complete D n := by
  induction n using hacyclic.induction with
  | _ n ih =>
    refine ⟨hn, fun p hp => ?_⟩
    have hlistens : ∀ w, net.source p = w → p ∈ net.listeners w := by
      intro w hw
      exact (hwf.listener w p).mpr ⟨by rw [hwf.node n p hp]; exact hp, hw⟩
    rcases hsource n p hp with hmem | ⟨m, hout, hm⟩
    · exact h.given _ hmem p (hlistens _ rfl)
    · exact h.spread m _ hout (ih m ⟨p, hp, hout⟩ hm) p (hlistens _ rfl)

end Delivered

/-! ## One round -/

section Rounds

variable [DecidableEq N] {net : Net N W P V} {val : W → V} {D D' : Set P}
  {s : State N P V} {log₀ : List (N × V)}

/-- The state when the ports in `D` got their tokens of this round. -/
structure Net.Round (net : Net N W P V) (val : W → V) (log₀ : List (N × V)) (D : Set P)
    (s : State N P V) : Prop where
  held : ∀ p ∈ D, ¬ net.Complete D (net.node p) → s.token p = some (val (net.source p))
  consumed : ∀ p ∈ D, net.Complete D (net.node p) → s.token p = none
  empty : ∀ p, p ∉ D → s.token p = none
  fired : ∀ n, net.Complete D n → drives n s.log = drives n log₀ ++ (net.out n).toList.map val
  waiting : ∀ n, ¬ net.Complete D n → drives n s.log = drives n log₀
  ports : ∀ p ∈ D, p ∈ net.ports (net.node p)
  caused : ∀ p ∈ D, ∀ n, net.out n = some (net.source p) → net.Complete D n

/-- No port holds a token. -/
def State.Empty (s : State N P V) : Prop := ∀ p, s.token p = none

theorem State.Empty.round (h : s.Empty) : net.Round val s.log ∅ s where
  held := fun _ hp => absurd hp (Set.notMem_empty _)
  consumed := fun _ hp => absurd hp (Set.notMem_empty _)
  empty := fun p _ => h p
  fired := by
    rintro n ⟨hne, hall⟩
    obtain ⟨p, hp⟩ := List.exists_mem_of_ne_nil _ hne
    exact absurd (hall p hp) (Set.notMem_empty p)
  waiting := fun _ _ => rfl
  ports := fun _ hp => absurd hp (Set.notMem_empty _)
  caused := fun _ hp => absurd hp (Set.notMem_empty _)

variable [DecidableEq P]

/-! ### A port gets its token -/

/-- The node still waits for other ports. -/
theorem Net.Round.put (hwf : net.WellFormed) (h : net.Round val log₀ D s) {p : P} (hp : p ∉ D)
    (hmem : p ∈ net.ports (net.node p))
    (hcause : ∀ n, net.out n = some (net.source p) → net.Complete D n)
    (hwait : ¬ net.Complete (insert p D) (net.node p)) :
    net.Round val log₀ (insert p D) (s.put p (val (net.source p))) := by
  have hsame : ∀ n, net.Complete (insert p D) n ↔ net.Complete D n := by
    intro n
    by_cases hn : n = net.node p
    · subst hn
      exact iff_of_false hwait (not_complete_of_notMem hp hmem)
    · exact complete_insert hwf hn
  refine ⟨?_, ?_, ?_, ?_, ?_, ?_, ?_⟩
  · intro q hq hc
    by_cases he : q = p
    · rw [he, State.put_token_self]
    · rw [State.put_token_ne s he]
      exact h.held q (hq.resolve_left he) fun hc' => hc ((hsame _).mpr hc')
  · intro q hq hc
    have he : q ≠ p := by
      rintro rfl
      exact hwait hc
    rw [State.put_token_ne s he]
    exact h.consumed q (hq.resolve_left he) ((hsame _).mp hc)
  · intro q hq
    have he : q ≠ p := fun he => hq (.inl he)
    rw [State.put_token_ne s he]
    exact h.empty q fun hq' => hq (.inr hq')
  · exact fun n hc => h.fired n ((hsame n).mp hc)
  · exact fun n hc => h.waiting n fun hc' => hc ((hsame n).mpr hc')
  · rintro q (rfl | hq)
    · exact hmem
    · exact h.ports q hq
  · rintro q (rfl | hq) n hout
    · exact (hsame n).mpr (hcause n hout)
    · exact (hsame n).mpr (h.caused q hq n hout)

/-- The tokens of the completed node are consumed and its drive is logged. -/
theorem Net.Round.fire (hwf : net.WellFormed) (h : net.Round val log₀ D s) {p : P} (hp : p ∉ D)
    (hmem : p ∈ net.ports (net.node p))
    (hcause : ∀ n, net.out n = some (net.source p) → net.Complete D n)
    (hc : net.Complete (insert p D) (net.node p)) {log : List (N × V)}
    (hself : drives (net.node p) log =
      drives (net.node p) s.log ++ (net.out (net.node p)).toList.map val)
    (hother : ∀ n, n ≠ net.node p → drives n log = drives n s.log) :
    net.Round val log₀ (insert p D)
      { (s.put p (val (net.source p))).clear (net.ports (net.node p)) with log := log } := by
  have hbefore := not_complete_of_notMem hp hmem
  refine ⟨?_, ?_, ?_, ?_, ?_, ?_, ?_⟩
  · intro q hq hc'
    have hn : net.node q ≠ net.node p := fun he => hc' (he ▸ hc)
    have hq' : q ∉ net.ports (net.node p) := fun hq' => hn (hwf.node _ q hq')
    have he : q ≠ p := fun he => hn (congrArg net.node he)
    show ((s.put p _).clear _).token q = _
    rw [State.clear_token_of_notMem hq', State.put_token_ne s he]
    exact h.held q (hq.resolve_left he) fun hc'' => hc' ((complete_insert hwf hn).mpr hc'')
  · intro q hq hc'
    show ((s.put p _).clear _).token q = _
    by_cases hn : net.node q = net.node p
    · apply State.clear_token_of_mem
      rcases hq with rfl | hq
      · exact hmem
      · exact hn ▸ h.ports q hq
    · have hq' : q ∉ net.ports (net.node p) := fun hq' => hn (hwf.node _ q hq')
      have he : q ≠ p := fun he => hn (congrArg net.node he)
      rw [State.clear_token_of_notMem hq', State.put_token_ne s he]
      exact h.consumed q (hq.resolve_left he) ((complete_insert hwf hn).mp hc')
  · intro q hq
    have he : q ≠ p := fun he => hq (.inl he)
    show ((s.put p _).clear _).token q = _
    by_cases hq' : q ∈ net.ports (net.node p)
    · exact State.clear_token_of_mem hq'
    · rw [State.clear_token_of_notMem hq', State.put_token_ne s he]
      exact h.empty q fun hq'' => hq (.inr hq'')
  · intro n hc'
    by_cases hn : n = net.node p
    · subst hn
      rw [hself, h.waiting _ hbefore]
    · rw [hother n hn]
      exact h.fired n ((complete_insert hwf hn).mp hc')
  · intro n hc'
    have hn : n ≠ net.node p := fun he => hc' (he ▸ hc)
    rw [hother n hn]
    exact h.waiting n fun hc'' => hc' ((complete_insert hwf hn).mpr hc'')
  · rintro q (rfl | hq)
    · exact hmem
    · exact h.ports q hq
  · rintro q (rfl | hq) n hout
    · exact (hcause n hout).mono (Set.subset_insert q D)
    · exact (h.caused q hq n hout).mono (Set.subset_insert p D)

/-! ### Driving a wire -/

/-- What notifying node `n` does when its port `p` got its token. -/
def Net.NotifyGrows (net : Net N W P V) (val : W → V) (log₀ : List (N × V))
    (notify : N → State N P V → Option (State N P V)) (n : N) : Prop :=
  ∀ D s p, net.node p = n → net.Round val log₀ D s → p ∉ D → p ∈ net.ports n →
    (∀ m, net.out m = some (net.source p) → net.Complete D m) →
    ∃ D' s', notify n (s.put p (val (net.source p))) = some s' ∧ net.Round val log₀ D' s' ∧
      net.Grows D {p} D'

/-- Delivering to the rest of a wire's listeners. The wire's own node has fired before, so that
    nothing set off meanwhile delivers to them. -/
theorem deliver_grows (hwf : net.WellFormed) {notify : N → State N P V → Option (State N P V)}
    {w : W} : ∀ (ps : List P) (D : Set P) (s : State N P V), ps ⊆ net.listeners w → ps.Nodup →
      (∀ p ∈ ps, p ∉ D) → (∀ p ∈ ps, net.NotifyGrows val log₀ notify (net.node p)) →
      (∀ n, net.out n = some w → net.Complete D n) → net.Round val log₀ D s →
      ∃ D' s', net.deliver notify (val w) ps s = some s' ∧ net.Round val log₀ D' s' ∧
        net.Grows D {p | p ∈ ps} D' := by
  intro ps
  induction ps with
  | nil =>
    intro D s _ _ _ _ _ h
    refine ⟨D, s, rfl, h, ?_⟩
    have hempty : {p : P | p ∈ []} = ∅ := by simp
    rw [hempty]
    exact .refl
  | cons p ps ih =>
    intro D s hsub hnodup hnot hnotify hcause h
    obtain ⟨hmem, hsource⟩ := (hwf.listener w p).mp (hsub List.mem_cons_self)
    obtain ⟨hfresh, hnodup⟩ := List.nodup_cons.mp hnodup
    obtain ⟨D₁, s₁, hstep, hround, hgrows⟩ := hnotify p List.mem_cons_self D s p rfl h
      (hnot p List.mem_cons_self) hmem (by rw [hsource]; exact hcause)
    have hnot₁ : ∀ q ∈ ps, q ∉ D₁ := by
      intro q hq hq₁
      have hsource' := ((hwf.listener w q).mp (hsub (List.mem_cons_of_mem _ hq))).2
      rcases hgrows.reason q hq₁ with hq' | rfl | ⟨n, hout, -, hn⟩
      · exact hnot q (List.mem_cons_of_mem _ hq) hq'
      · exact hfresh hq
      · exact hn (hcause n (by rw [hout, hsource']))
    obtain ⟨D', s', hrest, hround', hgrows'⟩ := ih D₁ s₁
      (fun q hq => hsub (List.mem_cons_of_mem _ hq)) hnodup hnot₁
      (fun q hq => hnotify q (List.mem_cons_of_mem _ hq))
      (fun n hout => (hcause n hout).mono hgrows.mono) hround
    refine ⟨D', s', ?_, hround', ?_⟩
    · rw [Net.deliver, ← hsource, hstep, Option.bind_some, hsource, hrest]
    · have hunion : {q | q ∈ p :: ps} = {p} ∪ {q | q ∈ ps} := by
        ext q
        simp
      rw [hunion]
      exact hgrows.trans hgrows'

/-- By induction on the fuel, which the rank of the node bounds. -/
theorem notify_grows (hwf : net.WellFormed) (hval : net.Consistent val) {rank : N → Nat}
    (hrank : ∀ n m, net.Feeds n m → rank m < rank n) :
    ∀ k n, rank n < k → net.NotifyGrows val log₀ (net.notify k) n := by
  intro k
  induction k with
  | zero =>
    intro n hn
    exact absurd hn (Nat.not_lt_zero _)
  | succ k ih =>
    rintro n hk D s p rfl h hp hmem hcause
    have hbefore := not_complete_of_notMem hp hmem
    show ∃ D' s', net.fire (net.notify k) (net.node p) (s.put p (val (net.source p))) = some s' ∧ _
    by_cases hc : net.Complete (insert p D) (net.node p)
    · have hcollect : (s.put p (val (net.source p))).collect (net.ports (net.node p)) =
          some ((net.ports (net.node p)).map fun q => val (net.source q)) := by
        apply State.collect_eq_some
        intro q hq
        by_cases he : q = p
        · rw [he, State.put_token_self]
        · rw [State.put_token_ne s he]
          exact h.held q ((hc.2 q hq).resolve_left he) (by rw [hwf.node _ q hq]; exact hbefore)
      cases hout : net.out (net.node p) with
      | none =>
        have hlog : drives (net.node p) s.log =
            drives (net.node p) s.log ++ (net.out (net.node p)).toList.map val := by
          rw [hout]
          exact (List.append_nil _).symm
        refine ⟨insert p D, _, fire_of_unwired hcollect hout,
          h.fire hwf hp hmem hcause hc hlog fun _ _ => rfl, ?_⟩
        · refine ⟨Set.subset_insert p D, Set.singleton_subset_iff.mpr (.inl rfl), ?_, ?_⟩
          · intro n w hout' hc' hn
            by_cases he : n = net.node p
            · subst he
              rw [hout] at hout'
              cases hout'
            · exact absurd ((complete_insert hwf he).mp hc') hn
          · rintro q (rfl | hq)
            · exact .inr (.inl rfl)
            · exact .inl hq
      | some w =>
        have hresult := hval (net.node p) w hout hc.1
        have hself : drives (net.node p) (s.log ++ [(net.node p, val w)]) =
            drives (net.node p) s.log ++ (net.out (net.node p)).toList.map val := by
          rw [drives_append, drives_self, hout]
          rfl
        have hother : ∀ n, n ≠ net.node p →
            drives n (s.log ++ [(net.node p, val w)]) = drives n s.log := by
          intro n hn
          rw [drives_append, drives_other hn.symm, List.append_nil]
        have hround := h.fire hwf hp hmem hcause hc hself hother
        have hnot : ∀ q ∈ net.listeners w, q ∉ insert p D := by
          rintro q hq (rfl | hq')
          · have hsource := ((hwf.listener w q).mp hq).2
            exact hbefore (hcause _ (by rw [hout, hsource]))
          · have hsource := ((hwf.listener w q).mp hq).2
            exact hbefore (h.caused q hq' _ (by rw [hout, hsource]))
        have hnotify : ∀ q ∈ net.listeners w,
            net.NotifyGrows val log₀ (net.notify k) (net.node q) := by
          intro q hq
          have := hrank _ _ (feeds_of_listener hwf hout hq)
          exact ih (net.node q) (by omega)
        have hfired : ∀ n, net.out n = some w → net.Complete (insert p D) n := by
          intro n hout'
          rw [hwf.driver n (net.node p) w hout' hout]
          exact hc
        obtain ⟨D', s', hdrive, hround', hgrows⟩ := deliver_grows hwf (net.listeners w)
          (insert p D) _ (List.Subset.refl _) (hwf.nodup w) hnot hnotify hfired hround
        refine ⟨D', s', ?_, hround', ?_⟩
        · rw [fire_of_result hcollect hresult hout]
          exact hdrive
        · refine ⟨(Set.subset_insert p D).trans hgrows.mono,
            Set.singleton_subset_iff.mpr (hgrows.mono (.inl rfl)), ?_, ?_⟩
          · intro n w' hout' hc' hn q hq
            by_cases he : n = net.node p
            · subst he
              obtain rfl := Option.some.inj (hout.symm.trans hout')
              exact hgrows.given hq
            · exact hgrows.spread n w' hout' hc' (fun hc'' => hn ((complete_insert hwf he).mp hc''))
                q hq
          · intro q hq
            rcases hgrows.reason q hq with (rfl | hq) | hq | ⟨n, hout', hc', hn⟩
            · exact .inr (.inl rfl)
            · exact .inl hq
            · have hsource := ((hwf.listener w q).mp hq).2
              exact .inr (.inr ⟨net.node p, by rw [hout, hsource], hc.mono hgrows.mono, hbefore⟩)
            · exact .inr (.inr ⟨n, hout', hc', fun hn' => hn (hn'.mono (Set.subset_insert p D))⟩)
    · have hcollect : (s.put p (val (net.source p))).collect (net.ports (net.node p)) = none := by
        have hmissing : ∃ q ∈ net.ports (net.node p), q ∉ insert p D := by
          by_contra hall
          push Not at hall
          exact hc ⟨List.ne_nil_of_mem hmem, hall⟩
        obtain ⟨q, hq, hq'⟩ := hmissing
        apply State.collect_eq_none hq
        rw [State.put_token_ne s fun he => hq' (.inl he)]
        exact h.empty q fun hq'' => hq' (.inr hq'')
      refine ⟨insert p D, _, fire_of_missing hcollect, h.put hwf hp hmem hcause hc, ?_⟩
      refine ⟨Set.subset_insert p D, Set.singleton_subset_iff.mpr (.inl rfl), ?_, ?_⟩
      · intro n w hout hc' hn
        by_cases he : n = net.node p
        · subst he
          exact absurd hc' hc
        · exact absurd ((complete_insert hwf he).mp hc') hn
      · rintro q (rfl | hq)
        · exact .inr (.inl rfl)
        · exact .inl hq

/-- Driving a primary wire for the first time in a round. -/
theorem drive_primary_grows (hwf : net.WellFormed) (hval : net.Consistent val) {rank : N → Nat}
    (hrank : ∀ n m, net.Feeds n m → rank m < rank n) {k : Nat}
    {w : W} (hk : ∀ p ∈ net.listeners w, rank (net.node p) < k) (hw : net.Primary w)
    (hnot : ∀ p ∈ net.listeners w, p ∉ D) (h : net.Round val log₀ D s) :
    ∃ D' s', net.drive (net.notify k) w (val w) s = some s' ∧ net.Round val log₀ D' s' ∧
      net.Grows D {p | p ∈ net.listeners w} D' :=
  deliver_grows hwf (net.listeners w) D s (List.Subset.refl _) (hwf.nodup w) hnot
    (fun p hp => notify_grows hwf hval hrank k (net.node p) (hk p hp))
    (fun n hout => absurd hout (hw n)) h

/-- After driving primary wires, each once. -/
theorem run_driven (hwf : net.WellFormed) (hval : net.Consistent val) {rank : N → Nat}
    (hrank : ∀ n m, net.Feeds n m → rank m < rank n) {k : Nat} (hk : ∀ n, rank n < k) :
    ∀ (ws' ws : List W) (D : Set P) (s : State N P V), (ws ++ ws').Nodup →
      (∀ w ∈ ws', net.Primary w) → net.Driven ws D → net.Round val log₀ D s →
      ∃ D' s', Run.run (fun s w => net.drive (net.notify k) w (val w) s) s ws' = some s' ∧
        net.Round val log₀ D' s' ∧ net.Driven (ws ++ ws') D' := by
  intro ws'
  induction ws' with
  | nil =>
    intro ws D s _ _ hdriven h
    exact ⟨D, s, rfl, h, by rwa [List.append_nil]⟩
  | cons w ws' ih =>
    intro ws D s hnodup hprimary hdriven h
    have hw := hprimary w List.mem_cons_self
    have hnot : ∀ p ∈ net.listeners w, p ∉ D := by
      intro p hp hp'
      have hsource := ((hwf.listener w p).mp hp).2
      rcases hdriven.reason p hp' with hmem | ⟨n, hout⟩
      · rw [hsource] at hmem
        exact (List.nodup_append.mp hnodup).2.2 w hmem w List.mem_cons_self rfl
      · exact hw n (by rw [hout, hsource])
    obtain ⟨D₁, s₁, hdrive, hround, hgrows⟩ :=
      drive_primary_grows hwf hval hrank (fun p _ => hk (net.node p)) hw hnot h
    have happend : ws ++ w :: ws' = (ws ++ [w]) ++ ws' := by simp
    obtain ⟨D', s', hrun, hround', hdriven'⟩ := ih (ws ++ [w]) D₁ s₁ (happend ▸ hnodup)
      (fun w' hw' => hprimary w' (List.mem_cons_of_mem _ hw')) (hdriven.grows hwf hgrows) hround
    refine ⟨D', s', ?_, hround', happend ▸ hdriven'⟩
    rw [Run.run_cons, hdrive, Option.bind_some, hrun]

/-- In a round every primary wire is driven once: then every node drives its wire once, with its
    result for the values of this round, and no token is left. -/
theorem round_fires_once (hwf : net.WellFormed) (hval : net.Consistent val) {rank : N → Nat}
    (hrank : ∀ n m, net.Feeds n m → rank m < rank n) {k : Nat} (hk : ∀ n, rank n < k)
    (hacyclic : WellFounded net.Feeds) {ws : List W} (hnodup : ws.Nodup)
    (hprimary : ∀ w ∈ ws, net.Primary w)
    (hsource : ∀ n, ∀ p ∈ net.ports n, net.source p ∈ ws ∨
      ∃ m, net.out m = some (net.source p) ∧ net.ports m ≠ []) (hs : s.Empty) :
    ∃ s', Run.run (fun s w => net.drive (net.notify k) w (val w) s) s ws = some s' ∧ s'.Empty ∧
      ∀ n, net.ports n ≠ [] → drives n s'.log = drives n s.log ++ (net.out n).toList.map val := by
  obtain ⟨D, s', hrun, hround, hdriven⟩ := run_driven hwf hval hrank hk ws [] ∅ s
    (by rwa [List.nil_append]) hprimary driven_nil hs.round
  rw [List.nil_append] at hdriven
  have hcomplete := hdriven.complete hwf hacyclic hsource
  refine ⟨s', hrun, fun p => ?_, fun n hn => hround.fired n (hcomplete n hn)⟩
  by_cases hp : p ∈ D
  · have hne := List.ne_nil_of_mem (hround.ports p hp)
    exact hround.consumed p hp (hcomplete _ hne)
  · exact hround.empty p hp

end Rounds

end TokenNet
