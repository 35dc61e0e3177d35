/-
  What the gate of `posix/socket_bring_up.c` does with the constants that it has for its ports.

  They are one more than the absolute indices (`bringUpLibop_declared`). So the gate takes what comes
  in by the port `local` for the socket and what comes in by `remote` for the local address, and it
  never has a remote one (`bring_up_remembers`). The slot in which it looks for the wire of `errno`
  is behind its array: the gate stays within its arrays only while it has nothing to report, whatever
  the operating system and the circuit around it do (`bring_up_in_bounds_iff`).

  What its properties give can be set again (`bring_up_properties`).
-/
import LogxControll.Posix.SocketBringUp

namespace LogxControll

open Decimal
open SocketaddressCreate (lxcPosixSockaddr)

namespace BringUp

/-! ## What the gate keeps track of -/

/-- The properties, and the values on two of the ports. -/
structure Seen where
  mode : ℤ
  backlog : ℤ
  localPort : Option LxcValue
  remotePort : Option LxcValue

/-- What a set of a property writes, when the value is accepted. -/
def accepted (property : String) (value : Option String) : Option (Field × ℤ) :=
  match bringUpAccessProperty property, value with
  | none, _ => none
  | some .mode, none => some (.mode, modeConnect)
  | some .mode, some value =>
    if value = "connect" then some (.mode, modeConnect)
    else if value = "listen" then some (.mode, modeListen)
    else none
  | some .backlog, none => some (.backlog, 128)
  | some .backlog, some value =>
    let n := toInt (strtol value)
    if n < 1 ∨ n > 65536 then none else some (.backlog, n)

namespace Seen

/-- In a new gate. -/
def new : Seen := ⟨modeConnect, 128, none, none⟩

/-- A mode that has a name, and a backlog that is accepted. -/
structure Valid (m : Seen) : Prop where
  mode : m.mode = modeConnect ∨ m.mode = modeListen
  backlog : 1 ≤ m.backlog ∧ m.backlog ≤ 65536

/-- A field is written. -/
def store (m : Seen) (addr : Field) (n : ℤ) : Seen :=
  match addr with
  | .mode => { m with mode := n }
  | .backlog => { m with backlog := n }

/-- What the gate knows when it is made to bring up its socket, unless the operation does not make
    it do that. A set that is refused without a buffer for the error counts as done. -/
def attempt (m : Seen) : BringUpOp → Option Seen
  | .execute .gateEnabled | .execute .propertyModified => some m
  | .execute (.value type subtype index value) =>
    if type = lxcPosixSockaddr ∧ subtype = 0 ∧ index = 0 then
      if isNew value m.localPort then some { m with localPort := value } else none
    else if type = lxcPosixSockaddr ∧ subtype = 0 ∧ index = 1 then
      if isNew value m.remotePort then some { m with remotePort := value } else none
    else none
  | .setProperty property value maxLength =>
    match accepted property value with
    | some (addr, n) => some (m.store addr n)
    | none => if bringUpAccessProperty property ≠ none ∧ maxLength = none then some m else none
  | _ => none

/-- What the gate knows after an operation, an attempt or none. -/
def after (m : Seen) (op : BringUpOp) : Seen := (m.attempt op).getD m

/-- There is nothing to report: no value is taken for the socket, or it reads as a number for one,
    and no value is taken for an address to listen on. -/
def Quiet (m : Seen) : Prop :=
  ∀ v, m.localPort = some v → ∃ fd, intAt v = some fd ∧ 0 ≤ fd ∧
    (m.mode = modeListen → m.remotePort = none)

end Seen

/-- The port that is wired exists, and the text of an error has a buffer that is not empty. -/
def Possible : BringUpOp → Prop
  | .setProperty property value maxLength =>
    accepted property value = none → bringUpAccessProperty property ≠ none → maxLength ≠ some 0
  | .wireInput abs _ => abs < inputPorts.length
  | .wireOutput abs _ => abs < outputPorts.length
  | .execute _ => True

/-- The operation is possible, and leaves nothing to report. -/
def Seen.InBounds (m : Seen) (op : BringUpOp) : Prop :=
  Possible op ∧ ((m.attempt op).isSome → (m.after op).Quiet)

variable {E : Surroundings} {b : Loaded} {drive : Drive} {S S' : BringUp} {m : Seen}

/-! ## The ports -/

/-- The constants are one more than the absolute indices, which the managers have for the ports. -/
structure Loaded.Sound (b : Loaded) : Prop where
  inAbsSocketFd : b.inAbsSocketFd = 1
  inAbsLocal : b.inAbsLocal = 2
  inAbsRemote : b.inAbsRemote = 3
  outAbsFd : b.outAbsFd = 1
  outAbsErrno : b.outAbsErrno = 2
  inputs : ∃ gs, Declared b.behavior.inputPorts inputPorts gs
  outputs : ∃ gs, Declared b.behavior.outputPorts outputPorts gs

theorem bringUpLibop_declared (junk : ℕ → ℕ) : ∃ b, bringUpLibop junk = some b ∧ b.Sound := by
  obtain ⟨ins, gs, hins, hgs⟩ := addNewPorts_declared junk inputPorts declared_init
  obtain ⟨outs, gs', houts, hgs'⟩ := addNewPorts_declared junk outputPorts declared_init
  refine ⟨⟨⟨.other, ins, outs⟩, 1, 2, 3, 1, 2⟩, ?_, rfl, rfl, rfl, rfl, rfl, ⟨gs, hgs⟩, ⟨gs', hgs'⟩⟩
  rw [bringUpLibop, hins, Option.bind_eq_bind, Option.bind_some, houts]
  rfl

theorem sound_of_bringUpLibop {junk : ℕ → ℕ} (hb : bringUpLibop junk = some b) : b.Sound := by
  obtain ⟨b', hb', h⟩ := bringUpLibop_declared junk
  obtain rfl := Option.some.inj (hb.symm.trans hb')
  exact h

/-- The port of a declared index is the one that was declared there. -/
theorem absAt_eq_iff {m : PortManager} {defs : List PortDefinition} {gs : Groups}
    (h : Declared m defs gs) {i : ℕ} {d : PortDefinition} (hd : defs[i]? = some d) {type : Signal}
    {subtype : ℤ} {index : ℕ} :
    absAt gs ⟨type, subtype⟩ index = i ↔ type = d.type ∧ subtype = d.subtype ∧
      index = ((defs.map PortDefinition.key).take i).count d.key := by
  have hport := h.absList_getElem? hd
  constructor
  · intro habs
    cases hget : (absList gs ⟨type, subtype⟩)[index]? with
    | none =>
      rw [absAt_of_none hget] at habs
      omega
    | some a =>
      rw [absAt_of_getElem? hget, Nat.cast_inj] at habs
      subst habs
      obtain ⟨hkey, hindex⟩ := h.represents.indexed.inj hget hport
      exact ⟨congrArg FullSignalType.signal hkey, congrArg FullSignalType.subtype hkey, hindex⟩
  · rintro ⟨rfl, rfl, rfl⟩
    exact absAt_of_getElem? hport

/-- No port has an index behind the declarations. -/
theorem absAt_lt {m : PortManager} {defs : List PortDefinition} {gs : Groups}
    (h : Declared m defs gs) {key : FullSignalType} {index : ℕ} : absAt gs key index < defs.length := by
  cases hget : (absList gs key)[index]? with
  | none =>
    rw [absAt_of_none hget]
    omega
  | some a =>
    have hlt := h.represents.getElem?_lt hget
    rw [declaredNames, List.length_map] at hlt
    rw [absAt_of_getElem? hget]
    exact_mod_cast hlt

/-! ## A gate without results -/

/-- The gate has what `m` keeps track of, and nothing else. -/
structure Idle (m : Seen) (S : BringUp) : Prop where
  mode : S.mode = m.mode
  backlog : S.backlog = m.backlog
  socketFd : S.socketFd = m.localPort
  local_ : S.local_ = m.remotePort
  remote : S.remote = none
  outFd : S.outFd = none
  outErrno : S.outErrno = none
  inputs : S.inputs.length = inputPorts.length
  outputs : S.outputs.length = outputPorts.length
  valid : m.Valid

theorem Idle.logged (h : Idle m S) (l : List BringUpEntry) : Idle m { S with log := l } :=
  ⟨h.mode, h.backlog, h.socketFd, h.local_, h.remote, h.outFd, h.outErrno, h.inputs, h.outputs,
    h.valid⟩

/-- NULL drives nothing, and a gate without results has none after a value was driven. -/
structure Drive.Good (drive : Drive) : Prop where
  null : ∀ outIndex w S, drive outIndex w none S = some S
  value : ∀ outIndex w v m S S', Idle m S → drive outIndex w (some v) S = some S' →
    ∃ m', Idle m' S'

/-- An attempt that has nothing to report makes no call. -/
theorem doBringUp_of_quiet (h : Idle m S) (hquiet : m.Quiet) : doBringUp E S =
    some (LxcErrno.nothingChanged.code, S.note (.tried S.socketFd none S.local_)) := by
  unfold doBringUp
  simp only [note, h.remote, h.socketFd, h.local_, h.mode]
  cases hv : m.localPort with
  | none => rfl
  | some v =>
    obtain ⟨fd, hfd, hpos, hlisten⟩ := hquiet v hv
    have hneg : ¬ fd < 0 := by omega
    simp only [hfd, Option.bind_eq_bind, Option.bind_some, hneg, if_false]
    rcases h.valid.mode with hmode | hmode
    · rw [if_pos hmode]
      rfl
    · have hne : ¬ m.mode = modeConnect := by rw [hmode]; decide
      rw [if_neg hne, if_pos hmode, hlisten hmode]
      rfl

/-- Any other attempt that comes to an end has a result, and leaves the gate as it was. -/
theorem doBringUp_of_not_quiet (h : Idle m S) (hloud : ¬ m.Quiet) {ret : ℤ}
    (hstep : doBringUp E S = some (ret, S')) :
    ret ≠ LxcErrno.nothingChanged.code ∧ Idle m S' ∧ ∃ v, S'.socketFd = some v := by
  simp only [Seen.Quiet, not_forall, not_exists] at hloud
  obtain ⟨v, hv, hloud⟩ := hloud
  have hanswer (n : ℕ) : (n : ℤ) ≠ LxcErrno.nothingChanged.code := fun he => by
    have hcode : LxcErrno.nothingChanged.code = -11 := rfl
    omega
  have hlogged := h.logged
  obtain ⟨mode, backlog, socketFd, local_, remote, outFd, outErrno, ins, outs, next, log⟩ := S
  obtain ⟨rfl, rfl, rfl, rfl, rfl, rfl, rfl, -, -, -⟩ := h
  simp only [doBringUp, note, hv] at hstep
  obtain ⟨fd, hfd, hstep⟩ := Option.bind_eq_some_iff.mp hstep
  by_cases hneg : fd < 0
  · rw [if_pos hneg] at hstep
    obtain ⟨rfl, rfl⟩ := Prod.mk.inj (Option.some.inj hstep)
    exact ⟨by decide, hv ▸ hlogged _, v, rfl⟩
  -- the gate listens, on the address of the other port
  have hlisten : m.mode = modeListen ∧ m.remotePort ≠ none := by
    have hno := hloud fd
    simp only [hfd, true_and, not_and, Classical.not_imp] at hno
    exact hno (by omega)
  obtain ⟨lv, hlv⟩ := Option.ne_none_iff_exists'.mp hlisten.2
  have hconnect : ¬ modeListen = modeConnect := by decide
  rw [if_neg hneg, hlisten.1, if_neg hconnect, if_pos rfl] at hstep
  simp only [hlv, osCall, note] at hstep
  rw [if_neg (by decide)] at hstep
  split at hstep
  all_goals
    obtain ⟨rfl, rfl⟩ := Prod.mk.inj (Option.some.inj hstep)
    refine ⟨hanswer _, ?_, v, rfl⟩
    rw [← hlisten.1, ← hv, ← hlv]
    exact hlogged _

theorem bringUp_of_quiet (h : Idle m S) (hquiet : m.Quiet) :
    bringUp E b drive S = some (S.note (.tried S.socketFd none S.local_)) := by
  unfold bringUp
  rw [doBringUp_of_quiet h hquiet]
  rfl

/-- The slot of the constant for `errno` is behind the array. -/
theorem publishErrno_of_idle (hb : b.Sound) (h : Idle m S) (n : ℤ) :
    publishErrno b drive n S = none := by
  have hslot : slot S.outputs b.outAbsErrno = none := by
    rw [hb.outAbsErrno, slot, if_neg (by decide)]
    exact List.getElem?_eq_none h.outputs.le
  have hnew : ¬ S.outErrno.bind intAt = some n := by
    rw [h.outErrno]
    exact nofun
  unfold publishErrno
  rw [if_neg hnew]
  simp only [hslot, Option.bind_eq_bind, Option.bind_none]

/-- The wire of `errno` may get the socket first. -/
theorem passThroughFd_idle (hdrive : drive.Good) (h : Idle m S) {v : LxcValue}
    (hv : S.socketFd = some v) (hstep : passThroughFd b drive S = some S') : ∃ m', Idle m' S' := by
  obtain ⟨out, -, hstep⟩ := Option.bind_eq_some_iff.mp hstep
  cases out with
  | none =>
    obtain rfl := Option.some.inj hstep
    exact ⟨m, h⟩
  | some out =>
    rw [hv] at hstep
    exact hdrive.value _ _ _ _ _ _ h hstep

theorem bringUp_of_not_quiet (hb : b.Sound) (hdrive : drive.Good) (h : Idle m S)
    (hloud : ¬ m.Quiet) : bringUp E b drive S = none := by
  unfold bringUp
  cases htry : doBringUp E S with
  | none => rfl
  | some tried =>
    obtain ⟨ret, S₁⟩ := tried
    obtain ⟨hne, h₁, v, hv⟩ := doBringUp_of_not_quiet h hloud htry
    simp only [Option.bind_eq_bind, Option.bind_some, hne, if_false]
    refine Option.bind_eq_none_iff.mpr fun S₂ hpass => ?_
    have h₂ : ∃ m', Idle m' S₂ := by
      split at hpass
      · exact passThroughFd_idle hdrive h₁ hv hpass
      · obtain rfl := Option.some.inj hpass
        exact ⟨m, h₁⟩
    obtain ⟨m', h₂⟩ := h₂
    exact publishErrno_of_idle hb h₂ ret

/-! ## Operations on a gate without results -/

theorem Idle.bringDown (h : Idle m S) : Idle m S.bringDown :=
  ⟨h.mode, h.backlog, h.socketFd, h.local_, h.remote, rfl, rfl, h.inputs, h.outputs, h.valid⟩

/-- The constant for `fd` is the index of `errno`, and there is no value for it. -/
theorem republish_of_idle (hb : b.Sound) (hdrive : drive.Good) (h : Idle m S) (signal : Signal)
    (subtype : ℤ) (index : ℕ) : republish b drive signal subtype index S = some S := by
  obtain ⟨gs, hout⟩ := hb.outputs
  have hlt := @absAt_lt _ _ _ hout ⟨signal, subtype⟩ index
  unfold republish
  rw [hout.represents.lxcPortGetAbsindex_eq, Option.bind_eq_bind, Option.bind_some]
  generalize absAt gs ⟨signal, subtype⟩ index = abs at hlt
  split
  · rfl
  · next hneg =>
    have hlen : outputPorts.length = 2 := rfl
    obtain rfl | rfl : abs = 0 ∨ abs = 1 := by omega
    · simp only [accessInternalVariable, hb.outAbsFd, hb.outAbsErrno]
      rfl
    · simp only [accessInternalVariable, hb.outAbsFd, h.outFd]
      have hslot : 1 < S.inputs.length := by
        rw [h.inputs]
        decide
      cases hget : S.inputs[1] with
      | none => simp [List.getElem?_eq_getElem hslot, hget]
      | some out => simp [List.getElem?_eq_getElem hslot, hget, hdrive.null]

/-- What an operation does before the gate is brought up, if the operation makes it do that. -/
def Prepares (E : Surroundings) (b : Loaded) (drive : Drive) (m : Seen) (S : BringUp)
    (op : BringUpOp) (result : Option BringUp) : Prop :=
  ∃ S₁, Idle (m.after op) S₁ ∧ S₁.log = S.log ∧
    result = if (m.attempt op).isSome then bringUp E b drive S₁ else some S₁

theorem prepares_attempt {S₁ : BringUp} {m₁ : Seen} {op : BringUpOp} (hm : m.attempt op = some m₁)
    (h₁ : Idle m₁ S₁) (hlog : S₁.log = S.log) :
    Prepares E b drive m S op (bringUp E b drive S₁) := by
  refine ⟨S₁, ?_, hlog, ?_⟩
  · rw [Seen.after, hm]
    exact h₁
  · rw [hm]
    rfl

theorem prepares_done {S₁ : BringUp} {op : BringUpOp} (hm : m.attempt op = none) (h₁ : Idle m S₁)
    (hlog : S₁.log = S.log) : Prepares E b drive m S op (some S₁) := by
  refine ⟨S₁, ?_, hlog, ?_⟩
  · rw [Seen.after, hm]
    exact h₁
  · rw [hm]
    rfl

/-- The port `local` has the index that the gate takes for its socket, `remote` the one that it
    takes for `local`. -/
theorem value_prepares (hb : b.Sound) (h : Idle m S) (type : Signal) (subtype : ℤ) (index : ℕ)
    (value : Option LxcValue) : Prepares E b drive m S (.execute (.value type subtype index value))
      (bringUpExecute E b drive (.value type subtype index value) S) := by
  obtain ⟨gs, hin⟩ := hb.inputs
  have hlt := @absAt_lt _ _ _ hin ⟨type, subtype⟩ index
  have hlocal := @absAt_eq_iff _ _ _ hin 1 ⟨"local", lxcPosixSockaddr, 0⟩ rfl type subtype index
  have hremote := @absAt_eq_iff _ _ _ hin 2 ⟨"remote", lxcPosixSockaddr, 0⟩ rfl type subtype index
  have hexecute : bringUpExecute E b drive (.value type subtype index value) S =
      importValue E b drive (absAt gs ⟨type, subtype⟩ index) value S := by
    rw [bringUpExecute, hin.represents.lxcPortGetAbsindex_eq]
    rfl
  have hthree : ¬ absAt gs ⟨type, subtype⟩ index = 3 := by
    have hlen : inputPorts.length = 3 := rfl
    omega
  rw [hexecute, importValue, hb.inAbsSocketFd, hb.inAbsLocal, hb.inAbsRemote]
  by_cases hfd : type = lxcPosixSockaddr ∧ subtype = 0 ∧ index = 0
  · have hone : absAt gs ⟨type, subtype⟩ index = 1 := hlocal.mpr hfd
    rw [if_pos hone, h.socketFd]
    by_cases hnew : isNew value m.localPort
    · rw [if_pos hnew]
      refine @prepares_attempt _ _ _ _ _ (bringDown { S with socketFd := value })
        { m with localPort := value } _ (by simp [Seen.attempt, hfd, hnew]) ?_ rfl
      exact ⟨h.mode, h.backlog, rfl, h.local_, h.remote, rfl, rfl, h.inputs, h.outputs,
        ⟨h.valid.mode, h.valid.backlog⟩⟩
    · rw [if_neg hnew]
      exact prepares_done (by simp [Seen.attempt, hfd, hnew]) h rfl
  have hone : ¬ absAt gs ⟨type, subtype⟩ index = 1 := fun habs => hfd (hlocal.mp habs)
  by_cases hlo : type = lxcPosixSockaddr ∧ subtype = 0 ∧ index = 1
  · have htwo : absAt gs ⟨type, subtype⟩ index = 2 := hremote.mpr hlo
    rw [if_neg hone, if_pos htwo, h.local_]
    by_cases hnew : isNew value m.remotePort
    · rw [if_pos hnew]
      refine @prepares_attempt _ _ _ _ _ (bringDown { S with local_ := value })
        { m with remotePort := value } _ (by simp [Seen.attempt, hlo, hnew]) ?_ rfl
      exact ⟨h.mode, h.backlog, h.socketFd, rfl, h.remote, rfl, rfl, h.inputs, h.outputs,
        ⟨h.valid.mode, h.valid.backlog⟩⟩
    · rw [if_neg hnew]
      exact prepares_done (by simp [Seen.attempt, hlo, hnew]) h rfl
  have htwo : ¬ absAt gs ⟨type, subtype⟩ index = 2 := fun habs => hlo (hremote.mp habs)
  rw [if_neg hone, if_neg htwo, if_neg hthree]
  exact prepares_done (by simp [Seen.attempt, hfd, hlo]) h rfl

@[simp] theorem bringUpAccessProperty_mode : bringUpAccessProperty "mode" = some .mode := if_pos rfl

@[simp] theorem bringUpAccessProperty_backlog :
    bringUpAccessProperty "backlog" = some .backlog := by
  rw [bringUpAccessProperty, if_neg (by decide), if_pos rfl]

/-- The text of the error for a value that is refused; what is no property has none. -/
def refusal (property : String) : Option String :=
  (bringUpAccessProperty property).map fun
    | .mode => "Mode can be only \"connect\" or \"listen\"."
    | .backlog => "backlog must be between 1 and 65535"

/-- A property has its field, and its validator. -/
theorem genericPropOperation_cases (direction : Direction) (property : String)
    (value : Option String) (maxLength : Option ℕ) (S : BringUp) :
    genericPropOperation direction property value maxLength S =
      if property = "mode" then modeValidation direction (some .mode) value maxLength S
      else if property = "backlog" then
        backlogValidation direction (some .backlog) value maxLength S
      else some (LxcErrno.entityNotFound.code, none, S) := by
  unfold genericPropOperation properties bringUpAccessProperty
  by_cases hmode : property = "mode"
  · simp [hmode]
  · by_cases hbacklog : property = "backlog"
    · simp [hbacklog]
    · simp [hmode, hbacklog]

/-- A set writes what is accepted, or nothing. -/
theorem genericPropOperation_input (property : String) (value : Option String)
    (maxLength : Option ℕ) (S : BringUp) :
    genericPropOperation .input property value maxLength S =
      match accepted property value, refusal property with
      | some (addr, n), _ => some (0, none, S.store addr n)
      | none, some text => (safeStrcpy maxLength text).map fun r => (r.1, r.2, S)
      | none, none => some (LxcErrno.entityNotFound.code, none, S) := by
  rw [genericPropOperation_cases]
  unfold accepted refusal bringUpAccessProperty
  by_cases hmode : property = "mode"
  · cases value with
    | none => simp [hmode, modeValidation]
    | some value =>
      by_cases hconnect : value = "connect"
      · simp [hmode, hconnect, modeValidation]
      · by_cases hlisten : value = "listen"
        · simp [hmode, hlisten, modeValidation]
        · simp [hmode, hconnect, hlisten, modeValidation, Option.map_eq_bind]
  · by_cases hbacklog : property = "backlog"
    · cases value with
      | none => simp [hbacklog, backlogValidation]
      | some value =>
        by_cases hrange : toInt (strtol value) < 1 ∨ toInt (strtol value) > 65536
        · simp [hbacklog, hrange, backlogValidation, Option.map_eq_bind]
        · simp [hbacklog, hrange, backlogValidation]
    · simp [hmode, hbacklog]

theorem genericPropOperation_of_accepted {property : String} {value : Option String} {addr : Field}
    {n : ℤ} (h : accepted property value = some (addr, n)) (maxLength : Option ℕ) (S : BringUp) :
    genericPropOperation .input property value maxLength S = some (0, none, S.store addr n) := by
  rw [genericPropOperation_input, h]

theorem length_refusal {property text : String} (h : refusal property = some text) :
    0 < text.length := by
  obtain ⟨addr, -, rfl⟩ := Option.map_eq_some_iff.mp h
  cases addr <;> decide

/-- Without a buffer the error is lost, and an empty one is written to all the same. -/
theorem safeStrcpy_cases {src : String} (hsrc : 0 < src.length) (maxLength : Option ℕ) :
    maxLength = none ∧ safeStrcpy maxLength src = some (0, none) ∨
    maxLength = some 0 ∧ safeStrcpy maxLength src = none ∨
    maxLength ≠ none ∧ maxLength ≠ some 0 ∧ ∃ ret text, ret ≠ 0 ∧
      safeStrcpy maxLength src = some (ret, text) := by
  cases maxLength with
  | none => exact .inl ⟨rfl, rfl⟩
  | some n =>
    by_cases hn : n = 0
    · subst hn
      exact .inr (.inl ⟨rfl, by simp [safeStrcpy]⟩)
    · have hret : (src.length : ℤ) ≠ 0 := by omega
      refine .inr (.inr ⟨Option.some_ne_none n, fun he => hn (Option.some.inj he), src.length, ?_⟩)
      by_cases hfits : src.length < n
      · exact ⟨_, hret, if_pos hfits⟩
      · exact ⟨_, hret, (if_neg hfits).trans (if_neg hn)⟩

/-- An accepted value. -/
theorem Seen.Valid.store (h : m.Valid) {property : String} {value : Option String} {addr : Field}
    {n : ℤ} (hn : accepted property value = some (addr, n)) : (m.store addr n).Valid := by
  have hmode {k : ℤ} (hk : k = modeConnect ∨ k = modeListen) : (m.store .mode k).Valid :=
    ⟨hk, h.backlog⟩
  unfold accepted at hn
  split at hn
  · cases hn
  · cases hn
    exact hmode (.inl rfl)
  · split at hn
    · cases hn
      exact hmode (.inl rfl)
    split at hn
    · cases hn
      exact hmode (.inr rfl)
    · cases hn
  · cases hn
    have hdefault : (1 : ℤ) ≤ 128 ∧ (128 : ℤ) ≤ 65536 := by decide
    exact ⟨h.mode, hdefault⟩
  · dsimp only at hn
    split at hn
    · cases hn
    · next hrange =>
      cases hn
      exact ⟨h.mode, by simp only [Seen.store]; omega⟩

theorem Idle.store (h : Idle m S) {addr : Field} {n : ℤ} (hvalid : (m.store addr n).Valid) :
    Idle (m.store addr n) (S.store addr n) := by
  cases addr with
  | mode => exact ⟨rfl, h.backlog, h.socketFd, h.local_, h.remote, h.outFd, h.outErrno, h.inputs,
      h.outputs, hvalid⟩
  | backlog => exact ⟨h.mode, rfl, h.socketFd, h.local_, h.remote, h.outFd, h.outErrno, h.inputs,
      h.outputs, hvalid⟩

theorem log_store (S : BringUp) (addr : Field) (n : ℤ) : (S.store addr n).log = S.log := by
  cases addr <;> rfl

section Set

variable {property : String} {value text : Option String} {maxLength : Option ℕ} {S₁ : BringUp}

theorem apply_set_of_zero
    (hset : genericPropOperation .input property value maxLength S = some (0, text, S₁)) :
    apply E b drive S (.setProperty property value maxLength) = bringUp E b drive S₁.bringDown := by
  rw [apply, lxcGateSetPropertyValue, hset]
  show ((bringUp E b drive S₁.bringDown).bind fun S => some (0, text, S)).bind
    (fun r => some r.2.2) = _
  cases bringUp E b drive S₁.bringDown <;> rfl

theorem apply_set_of_ne {ret : ℤ}
    (hset : genericPropOperation .input property value maxLength S = some (ret, text, S₁))
    (hret : ret ≠ 0) : apply E b drive S (.setProperty property value maxLength) = some S₁ := by
  have hresult : lxcGateSetPropertyValue E b drive property value maxLength S =
      some (ret, text, S₁) := by
    rw [lxcGateSetPropertyValue, hset]
    exact if_neg hret
  rw [apply, hresult]
  rfl

/-- Setting a property: what is accepted is written, and then the gate is brought up. -/
theorem set_prepares (h : Idle m S) (hpossible : Possible (.setProperty property value maxLength)) :
    Prepares E b drive m S (.setProperty property value maxLength)
      (apply E b drive S (.setProperty property value maxLength)) := by
  have hset := genericPropOperation_input property value maxLength S
  cases haccepted : accepted property value with
  | some write =>
    obtain ⟨addr, n⟩ := write
    rw [haccepted] at hset
    rw [apply_set_of_zero hset]
    exact prepares_attempt (by simp [Seen.attempt, haccepted])
      (h.store (h.valid.store haccepted)).bringDown (log_store S addr n)
  | none =>
    rw [haccepted] at hset
    cases hrefusal : refusal property with
    | none =>
      rw [hrefusal] at hset
      have hunknown : bringUpAccessProperty property = none := Option.map_eq_none_iff.mp hrefusal
      rw [apply_set_of_ne hset (by decide)]
      exact prepares_done (by simp [Seen.attempt, haccepted, hunknown]) h rfl
    | some text =>
      rw [hrefusal] at hset
      dsimp only at hset
      have hknown : bringUpAccessProperty property ≠ none := fun hnone => by
        rw [refusal, hnone] at hrefusal
        cases hrefusal
      rcases safeStrcpy_cases (length_refusal hrefusal) maxLength with
        ⟨hnone, hcopy⟩ | ⟨hzero, -⟩ | ⟨hbuffer, -, ret, error, hret, hcopy⟩
      · rw [hcopy] at hset
        rw [apply_set_of_zero hset]
        exact prepares_attempt (by simp [Seen.attempt, haccepted, hknown, hnone]) h.bringDown rfl
      · exact absurd hzero (hpossible haccepted hknown)
      · rw [hcopy] at hset
        rw [apply_set_of_ne hset hret]
        exact prepares_done (by simp [Seen.attempt, haccepted, hbuffer]) h rfl

end Set

theorem apply_prepares (hb : b.Sound) (hdrive : drive.Good) (h : Idle m S) {op : BringUpOp}
    (hpossible : Possible op) : Prepares E b drive m S op (apply E b drive S op) := by
  cases op with
  | execute event =>
    cases event with
    | gateDisabled => exact prepares_done rfl h.bringDown rfl
    | gateEnabled => exact prepares_attempt rfl h rfl
    | propertyModified => exact prepares_attempt rfl h.bringDown rfl
    | outputWireAdded signal subtype index =>
      rw [apply, bringUpExecute, republish_of_idle hb hdrive h]
      exact prepares_done rfl h rfl
    | otherSystemEvent => exact prepares_done rfl h rfl
    | value type subtype index value => exact value_prepares hb h type subtype index value
  | setProperty property value maxLength => exact set_prepares h hpossible
  | wireInput abs wire =>
    have hlt : abs < S.inputs.length := h.inputs ▸ hpossible
    exact ⟨{ S with inputs := S.inputs.set abs wire },
      ⟨h.mode, h.backlog, h.socketFd, h.local_, h.remote, h.outFd, h.outErrno,
        (List.length_set ..).trans h.inputs, h.outputs, h.valid⟩, rfl, if_pos hlt⟩
  | wireOutput abs wire =>
    have hlt : abs < S.outputs.length := h.outputs ▸ hpossible
    exact ⟨{ S with outputs := S.outputs.set abs wire },
      ⟨h.mode, h.backlog, h.socketFd, h.local_, h.remote, h.outFd, h.outErrno, h.inputs,
        (List.length_set ..).trans h.outputs, h.valid⟩, rfl, if_pos hlt⟩

theorem apply_of_not_possible (h : Idle m S) {op : BringUpOp} (hno : ¬ Possible op) :
    apply E b drive S op = none := by
  cases op with
  | execute event => exact absurd trivial hno
  | setProperty property value maxLength =>
    obtain ⟨haccepted, hno⟩ := Classical.not_imp.mp hno
    obtain ⟨hknown, hzero⟩ := Classical.not_imp.mp hno
    obtain rfl := not_not.mp hzero
    have hset := genericPropOperation_input property value (some 0) S
    obtain ⟨text, hrefusal⟩ := Option.ne_none_iff_exists'.mp
      (fun hnone => hknown (Option.map_eq_none_iff.mp hnone) : refusal property ≠ none)
    have hcopy : safeStrcpy (some 0) text = none := by simp [safeStrcpy]
    rw [haccepted, hrefusal] at hset
    dsimp only at hset
    rw [hcopy] at hset
    rw [apply, lxcGateSetPropertyValue, hset]
    rfl
  | wireInput abs wire =>
    have hge : ¬ abs < S.inputs.length := by rwa [h.inputs]
    exact if_neg hge
  | wireOutput abs wire =>
    have hge : ¬ abs < S.outputs.length := by rwa [h.outputs]
    exact if_neg hge

/-- In bounds, the operation does nothing but fail to bring up a socket. -/
theorem apply_of_inBounds (hb : b.Sound) (hdrive : drive.Good) (h : Idle m S) {op : BringUpOp}
    (hop : m.InBounds op) : ∃ S', apply E b drive S op = some S' ∧ Idle (m.after op) S' ∧
      (S'.log = S.log ∨ ∃ fd lv, S'.log = S.log ++ [.tried fd none lv]) := by
  obtain ⟨S₁, h₁, hlog, hresult⟩ := @apply_prepares E b drive S m hb hdrive h op hop.1
  rw [hresult]
  by_cases hattempt : (m.attempt op).isSome
  · rw [if_pos hattempt, bringUp_of_quiet h₁ (hop.2 hattempt)]
    exact ⟨_, rfl, h₁.logged _, .inr ⟨S₁.socketFd, S₁.local_, by rw [note, hlog]⟩⟩
  · rw [if_neg hattempt]
    exact ⟨S₁, rfl, h₁, .inl hlog⟩

theorem apply_of_not_inBounds (hb : b.Sound) (hdrive : drive.Good) (h : Idle m S) {op : BringUpOp}
    (hop : ¬ m.InBounds op) : apply E b drive S op = none := by
  by_cases hpossible : Possible op
  · obtain ⟨hattempt, hloud⟩ := Classical.not_imp.mp fun hquiet => hop ⟨hpossible, hquiet⟩
    obtain ⟨S₁, h₁, -, hresult⟩ := @apply_prepares E b drive S m hb hdrive h op hpossible
    rw [hresult, if_pos hattempt, bringUp_of_not_quiet hb hdrive h₁ hloud]
  · exact apply_of_not_possible h hpossible

/-! ## Runs -/

theorem foldlM_idle (hb : b.Sound) (hdrive : drive.Good) : ∀ {ops : List BringUpOp} {m : Seen}
    {S : BringUp}, Idle m S → ops.foldlM (apply E b drive) S = some S' → ∃ m', Idle m' S'
  | [], m, S, h, hstep => by
      obtain rfl := Option.some.inj hstep
      exact ⟨m, h⟩
  | op :: ops, m, S, h, hstep => by
      rw [List.foldlM_cons] at hstep
      obtain ⟨S₁, hop, hstep⟩ := Option.bind_eq_some_iff.mp hstep
      by_cases hin : m.InBounds op
      · obtain ⟨S₂, hS₂, h₂, -⟩ := @apply_of_inBounds E b drive S m hb hdrive h op hin
        obtain rfl := Option.some.inj (hop.symm.trans hS₂)
        exact foldlM_idle hb hdrive h₂ hstep
      · rw [apply_of_not_inBounds hb hdrive h hin] at hop
        cases hop

/-- The calls that come back while a wire is driven, by induction on their depth. -/
theorem driveWire_good (hb : b.Sound) : ∀ fuel, (driveWire E b fuel).Good
  | 0 => ⟨fun _ _ _ => rfl, fun _ _ _ _ _ _ _ hstep => by cases hstep⟩
  | fuel + 1 => ⟨fun _ _ _ => rfl, fun _ _ _ _ _ _ h hstep =>
      foldlM_idle hb (driveWire_good hb fuel) (h.logged _) hstep⟩

/-- Attempts without a remote address are all that was seen. -/
def OnlyTried (l : List BringUpEntry) : Prop := ∀ e ∈ l, ∃ fd lv, e = .tried fd none lv

/-- The gate in a run. -/
def Runs (S : BringUp) (m : Seen) : Prop := Idle m S ∧ OnlyTried S.log

theorem step_runs (hb : b.Sound) (h : Runs S m) {op : ℕ × BringUpOp} (hop : m.InBounds op.2) :
    ∃ S', step E b S op = some S' ∧ Runs S' (m.after op.2) := by
  obtain ⟨S', hS', hidle, hlog⟩ := apply_of_inBounds hb (driveWire_good hb op.1) h.1 hop
  refine ⟨S', hS', hidle, ?_⟩
  rcases hlog with hlog | ⟨fd, lv, hlog⟩
  · rw [hlog]
    exact h.2
  · rw [hlog]
    intro e he
    rcases List.mem_append.mp he with he | he
    · exact h.2 e he
    · exact ⟨fd, lv, List.mem_singleton.mp he⟩

theorem step_eq_none (hb : b.Sound) (h : Runs S m) {op : ℕ × BringUpOp} (hop : ¬ m.InBounds op.2) :
    step E b S op = none := apply_of_not_inBounds hb (driveWire_good hb op.1) h.1 hop

/-- A new gate, which made an attempt for each of its properties. -/
def created : BringUp :=
  { mode := 0, backlog := 128, socketFd := none, local_ := none, remote := none, outFd := none
    outErrno := none, inputs := [none, none, none], outputs := [none, none], nextValue := 0
    log := [.tried none none none, .tried none none none] }

theorem lxcGenericPortbPropbGateCreate_eq (E : Surroundings) (b : Loaded) (drive : Drive) :
    lxcGenericPortbPropbGateCreate E b drive = some created := by
  have h128 : toInt (strtol "128") = 128 := by
    rw [show "128" = Nat.repr 128 from rfl, strtol_repr (by decide), toInt_of_lt (by decide)]
    rfl
  have hmode : accepted "mode" (some "connect") = some (.mode, modeConnect) := by
    unfold accepted
    rw [bringUpAccessProperty_mode]
    exact if_pos rfl
  have hbacklog : accepted "backlog" (some "128") = some (.backlog, 128) := by
    unfold accepted
    rw [bringUpAccessProperty_backlog]
    dsimp only
    rw [h128]
    rfl
  simp only [lxcGenericPortbPropbGateCreate, properties, List.foldlM_cons, List.foldlM_nil,
    lxcGateSetPropertyValue, genericPropOperation_of_accepted hmode,
    genericPropOperation_of_accepted hbacklog, Option.bind_eq_bind, Option.bind_some, if_true,
    bringUpExecute]
  rfl

theorem created_runs : Runs created .new := by
  refine ⟨⟨rfl, rfl, rfl, rfl, rfl, rfl, rfl, rfl, rfl, .inl rfl, by decide⟩, fun e he => ?_⟩
  simp only [created, List.mem_cons, List.not_mem_nil, or_false, or_self] at he
  exact ⟨none, none, he⟩

theorem run_runs {junk : ℕ → ℕ} (hb : bringUpLibop junk = some b) {fuel : ℕ} {S₀ : BringUp}
    (hcreate : lxcGenericPortbPropbGateCreate E b (driveWire E b fuel) = some S₀)
    {ops : List (ℕ × BringUpOp)} (hrun : Run.run (step E b) S₀ ops = some S) :
    Runs S (ops.foldl (fun m op => m.after op.2) .new) := by
  have hsound := sound_of_bringUpLibop hb
  rw [lxcGenericPortbPropbGateCreate_eq] at hcreate
  obtain rfl := Option.some.inj hcreate
  refine Run.related_of_run Runs (fun S m op S' h hstep => ?_) created_runs hrun
  by_cases hop : m.InBounds op.2
  · obtain ⟨S₁, hS₁, h₁⟩ := @step_runs E b S m hsound h op hop
    obtain rfl := Option.some.inj (hstep.symm.trans hS₁)
    exact h₁
  · rw [step_eq_none hsound h hop] at hstep
    cases hstep

/-- A run stays within the arrays of the gate exactly when all its operations are possible, and
    leave nothing to report when they make the gate bring up its socket. -/
theorem bring_up_in_bounds_iff {E : Surroundings} {junk : ℕ → ℕ} {b : Loaded}
    (hb : bringUpLibop junk = some b) {fuel : ℕ} {S₀ : BringUp}
    (hcreate : lxcGenericPortbPropbGateCreate E b (driveWire E b fuel) = some S₀)
    (ops : List (ℕ × BringUpOp)) :
    (∃ S, Run.run (step E b) S₀ ops = some S) ↔
      Run.Meets (fun m op => some (m.after op.2)) (fun m op => m.InBounds op.2) Seen.new ops := by
  have hsound := sound_of_bringUpLibop hb
  rw [lxcGenericPortbPropbGateCreate_eq] at hcreate
  obtain rfl := Option.some.inj hcreate
  exact Run.run_iff_meets Runs (fun _ _ op h hop => @step_runs E b _ _ hsound h op hop)
    (fun _ _ op h hop => @step_eq_none E b _ _ hsound h op hop) created_runs

/-- An operating system where all calls succeed, and a circuit that does not react. -/
def quiet : Surroundings := ⟨fun _ _ => 0, fun _ => []⟩

/-- An address of the internet, of the host 127.0.0.1. -/
def loopback (port : ℕ) : LxcValue :=
  ⟨port, lxcPosixSockaddr, 0, .other [2, 0, port / 256, port % 256, 127, 0, 0, 1]⟩

/-- A wire to the output, and both addresses. -/
def connecting : List (ℕ × BringUpOp) :=
  [(1, .wireOutput 1 (some 5)), (1, .execute (.value lxcPosixSockaddr 0 0 (some (loopback 80)))),
    (1, .execute (.value lxcPosixSockaddr 0 1 (some (loopback 8080))))]

/-- The number of the port 80 is positive, that of the port 8080 is negative. -/
theorem bring_up_in_bounds_iff_loopback : ∃ b, bringUpLibop (fun _ => 0) = some b ∧
    (∃ S, Run.run (step quiet b) created connecting = some S) ∧
    ¬ ∃ S, Run.run (step quiet b) created
      [(1, .execute (.value lxcPosixSockaddr 0 0 (some (loopback 8080))))] = some S := by
  obtain ⟨b, hb, -⟩ := bringUpLibop_declared fun _ => 0
  have hcreate := lxcGenericPortbPropbGateCreate_eq quiet b (driveWire quiet b 1)
  have hpositive : intAt (loopback 80) = some 1342177282 := by decide
  have hnegative : intAt (loopback 8080) = some (-1877016574) := by decide
  have hmode : ¬ modeConnect = modeListen := by decide
  refine ⟨b, hb, (bring_up_in_bounds_iff hb hcreate _).mpr ?_, fun hrun => ?_⟩
  · simp [connecting, Run.Meets, Seen.InBounds, Possible, Seen.attempt, Seen.after, Seen.Quiet,
      Seen.new, outputPorts, isNew, hpositive, hmode]
  · have hmeets := (bring_up_in_bounds_iff hb hcreate _).mp hrun
    simp [Run.Meets, Seen.InBounds, Seen.attempt, Seen.after, Seen.Quiet, Seen.new, isNew,
      hnegative] at hmeets

/-- The gate has the value of the port `local` for its socket and that of `remote` for its local
    address, and it made no call, drove no wire and has no result. -/
theorem bring_up_remembers {E : Surroundings} {junk : ℕ → ℕ} {b : Loaded}
    (hb : bringUpLibop junk = some b) {fuel : ℕ} {S₀ S : BringUp}
    (hcreate : lxcGenericPortbPropbGateCreate E b (driveWire E b fuel) = some S₀)
    {ops : List (ℕ × BringUpOp)} (hrun : Run.run (step E b) S₀ ops = some S) :
    Idle (ops.foldl (fun m op => m.after op.2) .new) S ∧ OnlyTried S.log :=
  run_runs hb hcreate hrun

/-- The state after these operations: the attempts have no remote address. -/
def connected : BringUp :=
  { created with
    socketFd := some (loopback 80), local_ := some (loopback 8080), outputs := [none, some 5]
    log := created.log ++ [.tried (some (loopback 80)) none none,
      .tried (some (loopback 80)) none (some (loopback 8080))] }

theorem run_connecting : ∃ b, bringUpLibop (fun _ => 0) = some b ∧
    Run.run (step quiet b) created connecting = some connected := by
  have hrun : ((bringUpLibop fun _ => 0).bind fun b => Run.run (step quiet b) created connecting) =
      some connected := by decide
  exact Option.bind_eq_some_iff.mp hrun

theorem bring_up_remembers_connecting : ∃ b, bringUpLibop (fun _ => 0) = some b ∧
    Run.run (step quiet b) created connecting = some connected ∧
    Idle (connecting.foldl (fun m op => m.after op.2) .new) connected ∧
    OnlyTried connected.log := by
  obtain ⟨b, hb, hrun⟩ := run_connecting
  exact ⟨b, hb, hrun, bring_up_remembers hb
    (lxcGenericPortbPropbGateCreate_eq quiet b (driveWire quiet b 1)) hrun⟩

/-! ## What the properties give back -/

/-- The property that writes a field. -/
def Field.name : Field → String
  | .mode => "mode"
  | .backlog => "backlog"

/-- A mode is read back from its name. -/
theorem get_mode (hmode : S.mode = modeConnect ∨ S.mode = modeListen) {maxLength : ℕ}
    (hlen : 8 ≤ maxLength) :
    ∃ ret text, lxcGateGetPropertyValue "mode" (some maxLength) S = some (ret, some text, S) ∧
      accepted "mode" (some text) = some (.mode, S.mode) := by
  simp only [lxcGateGetPropertyValue, genericPropOperation_cases, if_true]
  unfold accepted
  rw [bringUpAccessProperty_mode]
  rcases hmode with hmode | hmode
  · have hfits : "connect".length < maxLength := hlen
    refine ⟨"connect".length, "connect", ?_, ?_⟩
    · simp [modeValidation, load, hmode, safeStrcpy, hfits]
    · simp [hmode]
  · have hfits : "listen".length < maxLength := by
      have hsize : "listen".length = 6 := rfl
      omega
    refine ⟨"listen".length, "listen", ?_, ?_⟩
    · simp [modeValidation, load, hmode, safeStrcpy, hfits, modeConnect, modeListen]
    · simp [hmode]

/-- An accepted backlog is read back from its digits. -/
theorem get_backlog (hbounds : 1 ≤ S.backlog ∧ S.backlog ≤ 65536) {maxLength : ℕ}
    (hlen : 8 ≤ maxLength) :
    ∃ ret text, lxcGateGetPropertyValue "backlog" (some maxLength) S = some (ret, some text, S) ∧
      accepted "backlog" (some text) = some (.backlog, S.backlog) := by
  obtain ⟨n, hn⟩ := Int.eq_ofNat_of_zero_le (by omega : 0 ≤ S.backlog)
  rw [hn] at hbounds
  have hdigits : n.repr.length ≤ 5 := Nat.repr_length n 5 (by decide) (by omega)
  have hprint : snprintf (some maxLength) S.backlog = some (some n.repr) := by
    rw [← String.length_toList] at hdigits
    have hpos : maxLength ≠ 0 := by omega
    have htake : n.repr.toList.take (maxLength - 1) = n.repr.toList :=
      List.take_of_length_le (by omega)
    have hrepr : toString S.backlog = n.repr := by rw [hn]; rfl
    rw [snprintf, Option.bind_eq_bind, Option.bind_some, if_neg hpos, hrepr, htake,
      String.ofList_toList]
    rfl
  refine ⟨0, n.repr, ?_, ?_⟩
  · rw [lxcGateGetPropertyValue, genericPropOperation_cases, if_neg (by decide), if_pos rfl]
    simp only [backlogValidation, load, Option.bind_eq_bind, Option.bind_some, hprint]
    rfl
  · have hread : toInt (strtol n.repr) = n := by
      rw [strtol_repr (by omega), toInt_of_lt (by omega)]
    have hrange : ¬ ((n : ℤ) < 1 ∨ (n : ℤ) > 65536) := by omega
    unfold accepted
    rw [bringUpAccessProperty_backlog]
    dsimp only
    rw [hread, if_neg hrange, hn]

/-- What a gate in use gives as a property, in a buffer of 8 characters, any gate takes: it then has
    the same field, and brings up its socket again. -/
theorem bring_up_properties {E : Surroundings} {junk : ℕ → ℕ} {b : Loaded}
    (hb : bringUpLibop junk = some b) {fuel : ℕ} {S₀ S : BringUp}
    (hcreate : lxcGenericPortbPropbGateCreate E b (driveWire E b fuel) = some S₀)
    {ops : List (ℕ × BringUpOp)} (hrun : Run.run (step E b) S₀ ops = some S) (addr : Field)
    {maxLength : ℕ} (hlen : 8 ≤ maxLength) :
    ∃ ret text,
      lxcGateGetPropertyValue addr.name (some maxLength) S = some (ret, some text, S) ∧
      ∀ E' b' drive buffer T,
        lxcGateSetPropertyValue E' b' drive addr.name (some text) buffer T =
          (bringUpExecute E' b' drive .propertyModified (T.store addr (S.load addr))).map
            (0, none, ·) := by
  have hidle := (run_runs hb hcreate hrun).1
  obtain ⟨ret, text, hget, haccepted⟩ : ∃ ret text,
      lxcGateGetPropertyValue addr.name (some maxLength) S = some (ret, some text, S) ∧
      accepted addr.name (some text) = some (addr, S.load addr) := by
    cases addr with
    | mode => exact get_mode (hidle.mode ▸ hidle.valid.mode) hlen
    | backlog => exact get_backlog (hidle.backlog ▸ hidle.valid.backlog) hlen
  refine ⟨ret, text, hget, fun E' b' drive buffer T => ?_⟩
  rw [lxcGateSetPropertyValue, genericPropOperation_of_accepted haccepted, Option.bind_eq_bind,
    Option.bind_some]
  dsimp only
  rw [if_pos rfl]
  cases bringUpExecute E' b' drive .propertyModified (T.store addr (S.load addr)) <;> rfl

theorem bring_up_properties_connecting : ∃ b, bringUpLibop (fun _ => 0) = some b ∧
    Run.run (step quiet b) created connecting = some connected ∧ ∃ ret text,
      lxcGateGetPropertyValue Field.backlog.name (some 8) connected =
        some (ret, some text, connected) ∧
      ∀ E' b' drive buffer T,
        lxcGateSetPropertyValue E' b' drive Field.backlog.name (some text) buffer T =
          (bringUpExecute E' b' drive .propertyModified
            (T.store .backlog (connected.load .backlog))).map (0, none, ·) := by
  obtain ⟨b, hb, hrun⟩ := run_connecting
  exact ⟨b, hb, hrun, bring_up_properties hb
    (lxcGenericPortbPropbGateCreate_eq quiet b (driveWire quiet b 1)) hrun .backlog (le_refl 8)⟩

end BringUp

end LogxControll
