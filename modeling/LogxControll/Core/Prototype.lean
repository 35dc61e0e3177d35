/-
  `lxc_init_from_prototype` of `core/builtins/gate_generic.c`, on a flat memory of bytes.

  The whole prototype is copied, also into a smaller destination. In a larger one the rest should
  be zeroed, but the zeros start `dst_len` bytes after the destination's address, which is behind
  its end. So it writes exactly the destination when the sizes are equal, and otherwise only where
  the bytes it misses or reaches by mistake are already what they should be
  (`lxcInitFromPrototype_iff`).
-/
import Mathlib.Tactic
import LogxControll.Core.Utils

namespace LogxControll

/-- The byte at each address. -/
abbrev ByteMemory := Int → UInt8

/-- The `n` bytes from `start`. -/
def InBytes (start : Int) (n : Nat) (a : Int) : Prop := start ≤ a ∧ a < start + n

instance (start : Int) (n : Nat) (a : Int) : Decidable (InBytes start n a) :=
  inferInstanceAs (Decidable (_ ∧ _))

/-- Two ranges of `n` bytes. -/
def Overlapping (dst src : Int) (n : Nat) : Prop := dst < src + n ∧ src < dst + n

instance (dst src : Int) (n : Nat) : Decidable (Overlapping dst src n) :=
  inferInstanceAs (Decidable (_ ∧ _))

/-- The copy is undefined where the ranges overlap. -/
def memcpy (m : ByteMemory) (dst src : Int) (n : Nat) : Option ByteMemory :=
  if Overlapping dst src n then none
  else some fun a => if InBytes dst n a then m (src + (a - dst)) else m a

/-- `memset` -/
def memset (m : ByteMemory) (dst : Int) (c : UInt8) (n : Nat) : ByteMemory :=
  fun a => if InBytes dst n a then c else m a

/-- `offset_bytes`; the offset is an `int`. -/
def offsetBytes (addr bytes : Int) : Int := addr + bytes

/-- The offset is passed as an `int`, which keeps the low 32 bits of the size. -/
def lxcInitFromPrototype (m : ByteMemory) (dst : Int) (dstLen : Nat) (src : Int) (srcLen : Nat) :
    Option ByteMemory := do
  let m ← memcpy m dst src srcLen
  if srcLen < dstLen then
    return memset m (offsetBytes dst (intOfUint dstLen)) 0 (dstLen - srcLen)
  else
    return m

/-- The destination holds as much of the source as fits, then zeros; no other byte differs. -/
structure InitializedFrom (m : ByteMemory) (dst : Int) (dstLen : Nat) (src : Int) (srcLen : Nat)
    (m' : ByteMemory) : Prop where
  copied : ∀ i : Nat, i < min dstLen srcLen → m' (dst + i) = m (src + i)
  zeroed : ∀ i : Nat, min dstLen srcLen ≤ i → i < dstLen → m' (dst + i) = 0
  kept : ∀ a, ¬ InBytes dst dstLen a → m' a = m a

/-- Of a larger destination: the bytes behind the copy are zero already where the zeros miss them,
    and where the zeros go instead there are zeros to be, in the source's bytes and outside the
    destination. -/
structure LargerSpared (m : ByteMemory) (dst : Int) (dstLen : Nat) (src : Int) (srcLen : Nat) :
    Prop where
  larger : srcLen < dstLen
  rest : ∀ i : Nat, srcLen ≤ i → i < dstLen →
    ¬ InBytes (intOfUint dstLen) (dstLen - srcLen) i → m (dst + i) = 0
  source : ∀ i : Nat, i < srcLen → InBytes (intOfUint dstLen) (dstLen - srcLen) i →
    m (src + i) = 0
  outside : ∀ j : Int, InBytes (intOfUint dstLen) (dstLen - srcLen) j → ¬ InBytes 0 dstLen j →
    m (dst + j) = 0

/-- Of a smaller destination: the bytes behind it are those of the source already. -/
structure SmallerSpared (m : ByteMemory) (dst : Int) (dstLen : Nat) (src : Int) (srcLen : Nat) :
    Prop where
  smaller : dstLen < srcLen
  apart : ¬ Overlapping dst src srcLen
  behind : ∀ i : Nat, dstLen ≤ i → i < srcLen → m (dst + i) = m (src + i)

variable {m : ByteMemory} {dst src : Int} {dstLen srcLen : Nat}

theorem memset_apply (c : UInt8) (n : Nat) (a : Int) :
    memset m dst c n a = if InBytes dst n a then c else m a := rfl

theorem inBytes_offset (start j : Int) (n : Nat) : InBytes (dst + start) n (dst + j) ↔
    InBytes start n j := by
  unfold InBytes
  omega

theorem inBytes_dst {j : Int} {n : Nat} : InBytes dst n (dst + j) ↔ InBytes 0 n j := by
  unfold InBytes
  omega

theorem inBytes_nat {i n : Nat} : InBytes 0 n i ↔ i < n := by
  unfold InBytes
  omega

/-- A byte is named by its distance from the destination. -/
theorem forall_offset {P : Int → Prop} (dst : Int) : (∀ a, P a) ↔ ∀ j, P (dst + j) := by
  refine ⟨fun h j => h _, fun h a => ?_⟩
  have := h (a - dst)
  rwa [add_sub_cancel] at this

/-- The memory after the copy. -/
theorem memcpy_of_apart (h : ¬ Overlapping dst src srcLen) :
    ∃ m', memcpy m dst src srcLen = some m' ∧
      ∀ j, m' (dst + j) = if InBytes 0 srcLen j then m (src + j) else m (dst + j) := by
  refine ⟨_, if_neg h, fun j => ?_⟩
  show (if InBytes dst srcLen (dst + j) then _ else _) = _
  rw [add_sub_cancel_left]
  exact if_congr inBytes_dst rfl rfl

/-- The two blocks share no byte. -/
def BlocksApart (dst : Int) (dstLen : Nat) (src : Int) (srcLen : Nat) : Prop :=
  ∀ a, InBytes dst dstLen a → ¬ InBytes src srcLen a

theorem BlocksApart.not_overlapping (h : BlocksApart dst dstLen src srcLen)
    (hle : srcLen ≤ dstLen) : ¬ Overlapping dst src srcLen := by
  rintro ⟨h₁, h₂⟩
  have := h (max dst src)
  unfold InBytes at this
  omega

/-- What is asked for, by the distance from the destination. -/
theorem initializedFrom_iff {m' : ByteMemory} : InitializedFrom m dst dstLen src srcLen m' ↔
    (∀ i : Nat, i < min dstLen srcLen → m' (dst + i) = m (src + i)) ∧
      (∀ i : Nat, min dstLen srcLen ≤ i → i < dstLen → m' (dst + i) = 0) ∧
      ∀ j : Int, ¬ InBytes 0 dstLen j → m' (dst + j) = m (dst + j) := by
  have hkept : (∀ a, ¬ InBytes dst dstLen a → m' a = m a) ↔
      ∀ j : Int, ¬ InBytes 0 dstLen j → m' (dst + j) = m (dst + j) := by
    rw [forall_offset dst]
    exact forall_congr' fun j => by rw [inBytes_dst]
  rw [← hkept]
  exact ⟨fun h => ⟨h.copied, h.zeroed, h.kept⟩, fun ⟨h₁, h₂, h₃⟩ => ⟨h₁, h₂, h₃⟩⟩

/-! ## The three sizes -/

theorem lxcInitFromPrototype_equal (h : BlocksApart dst dstLen src dstLen) :
    ∃ m', lxcInitFromPrototype m dst dstLen src dstLen = some m' ∧
      InitializedFrom m dst dstLen src dstLen m' := by
  obtain ⟨m', hcopy, hm'⟩ := memcpy_of_apart (m := m) (h.not_overlapping (Nat.le_refl dstLen))
  refine ⟨m', ?_, initializedFrom_iff.mpr ⟨fun i hi => ?_, fun i hle hlt => ?_, fun j hj => ?_⟩⟩
  · rw [lxcInitFromPrototype, hcopy, Option.bind_eq_bind, Option.bind_some,
      if_neg (Nat.lt_irrefl dstLen)]
    rfl
  · rw [hm', if_pos (inBytes_nat.mpr (by omega))]
  · omega
  · rw [hm', if_neg hj]

theorem lxcInitFromPrototype_larger (h : BlocksApart dst dstLen src srcLen)
    (hlt : srcLen < dstLen) :
    (∃ m', lxcInitFromPrototype m dst dstLen src srcLen = some m' ∧
      InitializedFrom m dst dstLen src srcLen m') ↔ LargerSpared m dst dstLen src srcLen := by
  obtain ⟨m₁, hcopy, hm₁⟩ := memcpy_of_apart (m := m) (h.not_overlapping (Nat.le_of_lt hlt))
  have hinit : lxcInitFromPrototype m dst dstLen src srcLen =
      some (memset m₁ (dst + intOfUint dstLen) 0 (dstLen - srcLen)) := by
    rw [lxcInitFromPrototype, hcopy, Option.bind_eq_bind, Option.bind_some, if_pos hlt]
    rfl
  have hbyte : ∀ j, memset m₁ (dst + intOfUint dstLen) 0 (dstLen - srcLen) (dst + j) =
      if InBytes (intOfUint dstLen) (dstLen - srcLen) j then 0
      else if InBytes 0 srcLen j then m (src + j) else m (dst + j) := by
    intro j
    rw [memset_apply, hm₁]
    exact if_congr (inBytes_offset _ _ _) rfl rfl
  rw [hinit]
  generalize memset m₁ (dst + intOfUint dstLen) 0 (dstLen - srcLen) = m' at hbyte
  simp only [Option.some.injEq, exists_eq_left', initializedFrom_iff, Nat.min_eq_right hlt.le,
    hbyte, inBytes_nat]
  constructor
  · rintro ⟨hcopied, hzeroed, hkept⟩
    refine ⟨hlt, fun i hle hi hnot => ?_, fun i hi hin => ?_, fun j hin hnot => ?_⟩
    · have := hzeroed i hle hi
      rwa [if_neg hnot, if_neg (Nat.not_lt.mpr hle)] at this
    · have := hcopied i hi
      rw [if_pos hin] at this
      exact this.symm
    · have := hkept j hnot
      rw [if_pos hin] at this
      exact this.symm
  · rintro ⟨-, hrest, hsource, houtside⟩
    refine ⟨fun i hi => ?_, fun i hle hi => ?_, fun j hnot => ?_⟩
    · by_cases hin : InBytes (intOfUint dstLen) (dstLen - srcLen) i
      · rw [if_pos hin, hsource i hi hin]
      · rw [if_neg hin, if_pos hi]
    · by_cases hin : InBytes (intOfUint dstLen) (dstLen - srcLen) i
      · rw [if_pos hin]
      · rw [if_neg hin, if_neg (Nat.not_lt.mpr hle), hrest i hle hi hin]
    · by_cases hin : InBytes (intOfUint dstLen) (dstLen - srcLen) j
      · rw [if_pos hin, houtside j hin hnot]
      · rw [if_neg hin, if_neg fun hcopy => hnot ?_]
        unfold InBytes at hcopy ⊢
        omega

/-- Below `2^31` bytes the zeros start right behind the destination: there have to be zeros there,
    and in the rest of the destination. -/
theorem largerSpared_iff (hint : dstLen < 2 ^ 31) (hlt : srcLen < dstLen) :
    LargerSpared m dst dstLen src srcLen ↔
      (∀ i : Nat, srcLen ≤ i → i < dstLen → m (dst + i) = 0) ∧
        ∀ i : Nat, dstLen ≤ i → i < dstLen + (dstLen - srcLen) → m (dst + i) = 0 := by
  have hzeros : ∀ j : Int, InBytes (intOfUint dstLen) (dstLen - srcLen) j ↔
      (dstLen : Int) ≤ j ∧ j < dstLen + (dstLen - srcLen : Nat) := by
    intro j
    rw [intOfUint_of_lt hint]
    rfl
  constructor
  · rintro ⟨-, hrest, -, houtside⟩
    refine ⟨fun i hle hi => hrest i hle hi fun hin => ?_, fun i hle hi => houtside i ?_ ?_⟩
    · have := (hzeros i).mp hin
      omega
    · exact (hzeros i).mpr (by omega)
    · exact fun hin => Nat.not_lt.mpr hle (inBytes_nat.mp hin)
  · rintro ⟨hrest, hbehind⟩
    refine ⟨hlt, fun i hle hi _ => hrest i hle hi, fun i hi hin => ?_, fun j hin _ => ?_⟩
    · have := (hzeros i).mp hin
      omega
    · obtain ⟨hle, hlt⟩ := (hzeros j).mp hin
      obtain ⟨i, rfl⟩ := Int.eq_ofNat_of_zero_le (show 0 ≤ j by omega)
      exact hbehind i (by omega) (by omega)

theorem lxcInitFromPrototype_smaller (hlt : dstLen < srcLen) :
    (∃ m', lxcInitFromPrototype m dst dstLen src srcLen = some m' ∧
      InitializedFrom m dst dstLen src srcLen m') ↔ SmallerSpared m dst dstLen src srcLen := by
  by_cases hover : Overlapping dst src srcLen
  · refine iff_of_false (fun ⟨m', hinit, _⟩ => ?_) fun h => h.apart hover
    rw [lxcInitFromPrototype, memcpy, if_pos hover] at hinit
    cases hinit
  obtain ⟨m', hcopy, hm'⟩ := memcpy_of_apart (m := m) hover
  have hinit : lxcInitFromPrototype m dst dstLen src srcLen = some m' := by
    rw [lxcInitFromPrototype, hcopy, Option.bind_eq_bind, Option.bind_some,
      if_neg (Nat.not_lt.mpr hlt.le)]
    rfl
  rw [hinit]
  simp only [Option.some.injEq, exists_eq_left', initializedFrom_iff, Nat.min_eq_left hlt.le, hm',
    inBytes_nat]
  constructor
  · rintro ⟨-, -, hkept⟩
    refine ⟨hlt, hover, fun i hle hi => ?_⟩
    have := hkept i fun hin => Nat.not_lt.mpr hle (inBytes_nat.mp hin)
    rw [if_pos (inBytes_nat.mpr hi)] at this
    exact this.symm
  · rintro ⟨-, -, hbehind⟩
    refine ⟨fun i hi => by rw [if_pos (by omega)], fun i hle hi => by omega, fun j hnot => ?_⟩
    by_cases hin : InBytes 0 srcLen j
    · obtain ⟨i, rfl⟩ := Int.eq_ofNat_of_zero_le hin.1
      rw [if_pos hin]
      exact (hbehind i (Nat.not_lt.mp fun hi => hnot (inBytes_nat.mpr hi))
        (inBytes_nat.mp hin)).symm
    · rw [if_neg hin]

/-- The prototype is written to exactly the destination when the sizes are equal, or the bytes
    that are missed and hit by mistake are right already. -/
theorem lxcInitFromPrototype_iff (h : BlocksApart dst dstLen src srcLen) :
    (∃ m', lxcInitFromPrototype m dst dstLen src srcLen = some m' ∧
      InitializedFrom m dst dstLen src srcLen m') ↔
      dstLen = srcLen ∨ LargerSpared m dst dstLen src srcLen ∨
        SmallerSpared m dst dstLen src srcLen := by
  rcases Nat.lt_trichotomy dstLen srcLen with hlt | rfl | hlt
  · rw [lxcInitFromPrototype_smaller hlt]
    refine ⟨fun hs => .inr (.inr hs), fun hs => ?_⟩
    rcases hs with heq | hl | hs
    · exact absurd heq hlt.ne
    · exact absurd hl.larger (Nat.not_lt.mpr hlt.le)
    · exact hs
  · exact iff_of_true (lxcInitFromPrototype_equal h) (.inl rfl)
  · rw [lxcInitFromPrototype_larger h hlt]
    refine ⟨fun hl => .inr (.inl hl), fun hl => ?_⟩
    rcases hl with heq | hl | hs
    · exact absurd heq.symm hlt.ne
    · exact hl
    · exact absurd hs.smaller (Nat.not_lt.mpr hlt.le)

/-- A block of four bytes at 0 from one at 8. -/
theorem lxcInitFromPrototype_four :
    ∃ m', lxcInitFromPrototype (fun _ => 5) 0 4 8 4 = some m' ∧
      InitializedFrom (fun _ => 5) 0 4 8 4 m' :=
  (lxcInitFromPrototype_iff fun a h₁ h₂ => by unfold InBytes at *; omega).mpr (.inl rfl)

/-- Of four bytes two are copied, and the zeros go to the two bytes behind the block. -/
theorem lxcInitFromPrototype_overwrites :
    ¬ ∃ m', lxcInitFromPrototype (fun _ => 5) 0 4 8 2 = some m' ∧
      InitializedFrom (fun _ => 5) 0 4 8 2 m' := by
  rintro ⟨m', hinit, hm'⟩
  obtain rfl := Option.some.inj hinit
  have := hm'.kept 4 (by decide)
  revert this
  decide

end LogxControll
