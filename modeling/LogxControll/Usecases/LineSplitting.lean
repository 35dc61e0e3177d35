/-
  `experiment/usecases/line_processor.c`: the `read_all_line` gate reads a chunk into its buffer and
  then pops lines from it until there is none.

  A pop moves `*ep + 1` bytes to the front of the buffer and sets `*ep` to that number, so `*ep`
  grows by one with every line instead of shrinking by its length (`popLineFromBuffer_ep`). So no
  stream that has a line is split as it should be (`splits_iff`).
-/
import Mathlib.Tactic

namespace LogxControll

/-- `MAX_LINE_LENGTH` -/
def maxLineLength : Nat := 20000

/-- The buffer, NULL until the first read, and the end of the bytes in it. -/
structure LineBuffer where
  buff : Option (List UInt8)
  ep : Nat
  deriving DecidableEq

/-- The byte `'\r'`. -/
def carriageReturn : UInt8 := 13

/-- The byte `'\n'`. -/
def newline : UInt8 := 10

/-- `fresh` is what `malloc` leaves in the buffer and `received` what `read` delivers, at most what
    it is asked for; `none` is an error of it. The answer comes first. -/
def readIntoBufferSingle (fresh : Fin (maxLineLength + 1) → UInt8) (s : LineBuffer)
    (received : Option (List UInt8)) : Option (Int × LineBuffer) :=
  let buff := s.buff.getD (List.ofFn fresh)
  if s.ep < maxLineLength then
    match received with
    | none => some (-1, { s with buff := some buff })
    | some bytes =>
      if maxLineLength - s.ep < bytes.length then none
      else some (bytes.length, {
        buff := some (buff.take s.ep ++ bytes ++ buff.drop (s.ep + bytes.length))
        ep := s.ep + bytes.length })
  else some (0, { s with buff := some buff })

/-- Where the scanning loop of the `n` bytes from `i` ends: the index, whether the last byte was a
    carriage return, and whether it jumped to `pop`. -/
def scanLine (b : List UInt8) : Nat → Bool → Nat → Option (Nat × Bool × Bool)
  | i, r, 0 => some (i, r, false)
  | i, r, n + 1 => (b[i]?).bind fun c =>
    if c = carriageReturn then
      if r then some (i, r, true) else scanLine b (i + 1) true n
    else if c = newline then some (i, r, true)
    else if r then some (i, r, true)
    else scanLine b (i + 1) r n

/-- The loop moving the rest of the buffer to its front: `n` bytes from `i` to `e`. -/
def compact (b : List UInt8) : Nat → Nat → Nat → Option (List UInt8)
  | _, _, 0 => some b
  | e, i, n + 1 => (b[i]?).bind fun c =>
    if e < b.length then compact (b.set e c) (e + 1) (i + 1) n else none

/-- `strdup` -/
def cString (b : List UInt8) : List UInt8 := b.takeWhile (· ≠ 0)

/-- From the label `pop` on, with the scanning loop left at `i`. -/
def popAt (b : List UInt8) (ep : Nat) (i : Nat) (r : Bool) :
    Option (Option (List UInt8) × LineBuffer) := do
  let i := if r then i - 1 else i
  if b.length ≤ i then none
  else
    let b := b.set i 0
    let ret := cString b
    let i := i + 1
    let i := if r then i + 1 else i
    let b ← compact b 0 i (ep + 1)
    return (some ret, { buff := some b, ep := ep + 1 })

/-- A full buffer without a line end would be popped as a whole, but `*buff[MAX_LINE_LENGTH]` is
    a pointer behind the gate instance that is followed. -/
def popLineFromBuffer (s : LineBuffer) : Option (Option (List UInt8) × LineBuffer) := do
  let b ← s.buff
  let (i, r, jumped) ← scanLine b 0 false (s.ep + 1)
  if !jumped && !r then
    if s.ep = maxLineLength then none
    else return (none, s)
  else
    popAt b s.ep i r

/-! ## What is asked for -/

/-- The lines of a stream, without their ends, and what follows the last of them. -/
def splitLines (cur : List UInt8) : List UInt8 → List (List UInt8) × List UInt8
  | [] => ([], cur)
  | c :: stream =>
    if c = newline then
      let r := splitLines [] stream
      (cur :: r.1, r.2)
    else splitLines (cur ++ [c]) stream

/-- The chunks are not empty, and not longer than what `read` is asked for while `tail` is the
    unfinished line in the buffer. -/
def Fit (tail : List UInt8) : List (List UInt8) → Prop
  | [] => True
  | chunk :: chunks => chunk ≠ [] ∧ chunk.length ≤ maxLineLength - tail.length ∧
      Fit (splitLines tail chunk).2 chunks

/-- The stream that the chunks deliver has no NUL and no carriage return, and consists of lines
    that end and are shorter than `MAX_LINE_LENGTH`. -/
structure LineChunks (chunks : List (List UInt8)) : Prop where
  fit : Fit [] chunks
  noNul : 0 ∉ chunks.flatten
  noReturn : carriageReturn ∉ chunks.flatten
  ended : (splitLines [] chunks.flatten).2 = []
  short : ∀ line ∈ (splitLines [] chunks.flatten).1, line.length < maxLineLength

/-- Popping until NULL returns the lines; `pending` bytes are received and not returned, of which
    a pop returns a line and its end, and `*ep` is what is left. -/
inductive Pops : LineBuffer → Nat → List (List UInt8) → LineBuffer → Prop
  | null {s s' : LineBuffer} {pending : Nat} :
      popLineFromBuffer s = some (none, s') → s'.ep = pending → Pops s pending [] s'
  | line {s s₁ s' : LineBuffer} {pending : Nat} {l : List UInt8} {ls : List (List UInt8)} :
      popLineFromBuffer s = some (some l, s₁) → s₁.ep + (l.length + 1) = pending →
      Pops s₁ s₁.ep ls s' → Pops s pending (l :: ls) s'

/-- Reading each chunk and then popping until NULL returns the lines. -/
inductive Splits (fresh : Fin (maxLineLength + 1) → UInt8) :
    LineBuffer → List (List UInt8) → List (List UInt8) → Prop
  | nil {s : LineBuffer} : Splits fresh s [] []
  | chunk {s s₁ s₂ : LineBuffer} {bytes : List UInt8} {chunks ls ls' : List (List UInt8)} :
      readIntoBufferSingle fresh s (some bytes) = some ((bytes.length : Int), s₁) →
      Pops s₁ (s.ep + bytes.length) ls s₂ → Splits fresh s₂ chunks ls' →
      Splits fresh s (bytes :: chunks) (ls ++ ls')

/-! ## What the pops do -/

theorem popAt_ep {b : List UInt8} {ep i : Nat} {r : Bool} {l : Option (List UInt8)}
    {s' : LineBuffer} (h : popAt b ep i r = some (l, s')) : s'.ep = ep + 1 := by
  unfold popAt at h
  dsimp only at h
  by_cases hin : b.length ≤ if r then i - 1 else i
  · rw [if_pos hin] at h
    cases h
  · rw [if_neg hin, Option.bind_eq_bind, Option.bind_eq_some_iff] at h
    obtain ⟨b', -, h⟩ := h
    cases h
    rfl

/-- Every line that is popped makes `*ep` one larger. -/
theorem popLineFromBuffer_ep {s s' : LineBuffer} {l : List UInt8}
    (h : popLineFromBuffer s = some (some l, s')) : s'.ep = s.ep + 1 := by
  unfold popLineFromBuffer at h
  rw [Option.bind_eq_bind, Option.bind_eq_some_iff] at h
  obtain ⟨b, -, h⟩ := h
  rw [Option.bind_eq_bind, Option.bind_eq_some_iff] at h
  obtain ⟨⟨i, r, jumped⟩, -, h⟩ := h
  dsimp only at h
  by_cases hnull : (!jumped && !r) = true
  · rw [if_pos hnull] at h
    split at h <;> cases h
  · rw [if_neg hnull] at h
    exact popAt_ep h

theorem readIntoBufferSingle_ep {fresh : Fin (maxLineLength + 1) → UInt8} {s s' : LineBuffer}
    {bytes : List UInt8}
    (h : readIntoBufferSingle fresh s (some bytes) = some ((bytes.length : Int), s')) :
    s'.ep = s.ep + bytes.length := by
  unfold readIntoBufferSingle at h
  dsimp only at h
  split at h
  · split at h
    · cases h
    · cases h
      rfl
  · obtain ⟨hlen, rfl⟩ := Prod.mk.inj (Option.some.inj h)
    show s.ep = s.ep + bytes.length
    omega

/-- As long as `*ep` counts the bytes that are left, no line has been popped. -/
theorem Pops.nil_of_ep {s s' : LineBuffer} {ls : List (List UInt8)} (h : Pops s s.ep ls s') :
    ls = [] := by
  cases h with
  | null _ _ => rfl
  | line hpop hleft _ =>
    rw [popLineFromBuffer_ep hpop] at hleft
    omega

theorem Splits.nil_of_run {fresh : Fin (maxLineLength + 1) → UInt8} {s : LineBuffer}
    {chunks ls : List (List UInt8)} (h : Splits fresh s chunks ls) : ls = [] := by
  induction h with
  | nil => rfl
  | chunk hread hpops _ ih =>
    rw [← readIntoBufferSingle_ep hread] at hpops
    rw [hpops.nil_of_ep, ih]
    rfl

/-- Without a line everything is unfinished. -/
theorem splitLines_tail {stream : List UInt8} {cur : List UInt8}
    (h : (splitLines cur stream).1 = []) : (splitLines cur stream).2 = cur ++ stream := by
  induction stream generalizing cur with
  | nil => simp [splitLines]
  | cons c stream ih =>
    unfold splitLines at h ⊢
    by_cases hc : c = newline
    · rw [if_pos hc] at h
      cases h
    · rw [if_neg hc] at h ⊢
      rw [ih h, List.append_assoc]
      rfl

/-- Chunks that are split into the lines of their stream deliver an empty one. -/
theorem LineChunks.nil_of_splits {fresh : Fin (maxLineLength + 1) → UInt8} {s : LineBuffer}
    {chunks : List (List UInt8)} (h : LineChunks chunks)
    (hs : Splits fresh s chunks (splitLines [] chunks.flatten).1) : chunks = [] := by
  have hstream : chunks.flatten = [] := by
    have := splitLines_tail hs.nil_of_run
    rw [h.ended] at this
    exact this.symm
  cases chunks with
  | nil => rfl
  | cons chunk chunks =>
    have hne : chunk ≠ [] := h.fit.1
    exact absurd (List.flatten_eq_nil_iff.mp hstream chunk List.mem_cons_self) hne

/-- Only the empty stream is split into its lines. -/
theorem splits_iff (fresh : Fin (maxLineLength + 1) → UInt8) {chunks : List (List UInt8)}
    (h : LineChunks chunks) :
    Splits fresh { buff := none, ep := 0 } chunks (splitLines [] chunks.flatten).1 ↔
      chunks.flatten = [] := by
  refine ⟨fun hs => by rw [h.nil_of_splits hs]; rfl, fun hstream => ?_⟩
  cases chunks with
  | nil => exact .nil
  | cons chunk chunks =>
    have hne : chunk ≠ [] := h.fit.1
    exact absurd (List.flatten_eq_nil_iff.mp hstream chunk List.mem_cons_self) hne

/-- A line in two chunks. -/
theorem not_splits_two :
    ¬ Splits (fun _ => 0) { buff := none, ep := 0 } [[97], [newline]] [[97]] := by
  have hchunks : LineChunks [[97], [newline]] := by
    constructor
    · simp only [Fit]; decide
    all_goals decide
  exact fun h => by cases (splits_iff _ hchunks).mp h

/-- After the only line of the stream one byte more is left than was received. -/
theorem not_splits_one :
    ¬ Splits (fun _ => 0) { buff := none, ep := 0 } [[97, newline]]
      (splitLines [] [97, newline]).1 := by
  intro h
  have hlines : (splitLines [] [97, newline]).1 = [[97]] := by decide
  rw [hlines] at h
  cases h.nil_of_run

end LogxControll
