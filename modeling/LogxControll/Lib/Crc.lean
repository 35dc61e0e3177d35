/-
  Cyclic redundancy checks, least significant bit first: a bit at a time, and a byte at a time from a
  table.

  One step divides by a polynomial (`shift`). It is linear in exclusive or (`shift_xor`), so eight of
  them are the table's word for the low byte and the rest moved down (`shifts_eight`), and the two
  ways of computing agree on every message (`byTable_eq_byBits`).
-/
import Mathlib.Data.List.Basic
import Mathlib.Logic.Function.Iterate

namespace Crc

variable {n : ℕ} (poly : BitVec n)

/-- The lowest bit is divided out. -/
def shift (c : BitVec n) : BitVec n := if c.getLsbD 0 then (c >>> 1) ^^^ poly else c >>> 1

/-- As many bits. -/
def shifts (k : ℕ) : BitVec n → BitVec n := (shift poly)^[k]

/-- Each byte is added to the remainder, which is then divided eight times. -/
def byBits (bytes : List (BitVec n)) (c : BitVec n) : BitVec n :=
  bytes.foldl (fun c b => shifts poly 8 (c ^^^ b)) c

/-- `table` has the word for each low byte; the other bytes move down. -/
def byTable (table : BitVec n → BitVec n) (bytes : List (BitVec n)) (c : BitVec n) : BitVec n :=
  bytes.foldl (fun c b => table ((c ^^^ b) &&& 255#n) ^^^ (c >>> 8)) c

theorem shift_xor (a b : BitVec n) : shift poly (a ^^^ b) = shift poly a ^^^ shift poly b := by
  unfold shift
  rw [BitVec.getLsbD_xor, BitVec.ushiftRight_xor_distrib]
  cases a.getLsbD 0 <;> cases b.getLsbD 0
  · rfl
  · exact BitVec.xor_assoc _ _ _
  · show a >>> 1 ^^^ b >>> 1 ^^^ poly = a >>> 1 ^^^ poly ^^^ b >>> 1
    rw [BitVec.xor_assoc, BitVec.xor_comm (b >>> 1), ← BitVec.xor_assoc]
  · show a >>> 1 ^^^ b >>> 1 = a >>> 1 ^^^ poly ^^^ (b >>> 1 ^^^ poly)
    rw [BitVec.xor_comm (b >>> 1) poly, ← BitVec.xor_assoc, BitVec.xor_assoc (a >>> 1) poly poly,
      BitVec.xor_self, BitVec.xor_zero]

theorem shifts_xor (k : ℕ) (a b : BitVec n) :
    shifts poly k (a ^^^ b) = shifts poly k a ^^^ shifts poly k b := by
  induction k generalizing a b with
  | zero => rfl
  | succ k ih =>
    simp only [shifts, Function.iterate_succ_apply] at ih ⊢
    rw [shift_xor, ih]

/-- With its low bits clear a remainder only moves down. -/
theorem shifts_of_clear {k : ℕ} {c : BitVec n} (h : ∀ i, i < k → c.getLsbD i = false) :
    shifts poly k c = c >>> k := by
  induction k with
  | zero => exact (BitVec.ushiftRight_zero c).symm
  | succ k ih =>
    have hbit : (c >>> k).getLsbD 0 = false := by
      rw [BitVec.getLsbD_ushiftRight]
      exact h k (Nat.lt_succ_self k)
    have hk := ih fun i hi => h i (Nat.lt_succ_of_lt hi)
    simp only [shifts] at hk
    rw [shifts, Function.iterate_succ_apply', hk, shift, hbit, BitVec.shiftRight_add]
    rfl

/-- The low byte. -/
theorem getLsbD_low (c : BitVec n) (i : ℕ) :
    (c &&& 255#n).getLsbD i = (c.getLsbD i && decide (i < 8)) := by
  rw [BitVec.getLsbD_and, BitVec.getLsbD_ofNat, show (255 : ℕ) = 2 ^ 8 - 1 from rfl,
    Nat.testBit_two_pow_sub_one]
  by_cases hi : i < n
  · rw [decide_eq_true hi, Bool.true_and]
  · rw [BitVec.getLsbD_of_ge c i (Nat.le_of_not_lt hi), Bool.false_and, Bool.false_and]

/-- The remainder without its low byte. -/
theorem getLsbD_xor_low (c : BitVec n) (i : ℕ) :
    (c ^^^ (c &&& 255#n)).getLsbD i = (c.getLsbD i && decide (8 ≤ i)) := by
  rw [BitVec.getLsbD_xor, getLsbD_low]
  by_cases hi : i < 8
  · simp [hi]
  · simp [hi, Nat.le_of_not_lt hi]

theorem shifts_eight (c : BitVec n) :
    shifts poly 8 c = shifts poly 8 (c &&& 255#n) ^^^ (c >>> 8) := by
  have hsplit : c = (c &&& 255#n) ^^^ (c ^^^ (c &&& 255#n)) := by
    rw [BitVec.xor_comm c, ← BitVec.xor_assoc, BitVec.xor_self, BitVec.zero_xor]
  have hclear : shifts poly 8 (c ^^^ (c &&& 255#n)) = c >>> 8 := by
    rw [shifts_of_clear]
    · apply BitVec.eq_of_getLsbD_eq
      intro i _
      rw [BitVec.getLsbD_ushiftRight, BitVec.getLsbD_ushiftRight, getLsbD_xor_low]
      simp
    · intro i hi
      rw [getLsbD_xor_low]
      simp [Nat.not_le_of_lt hi]
  calc shifts poly 8 c
      = shifts poly 8 ((c &&& 255#n) ^^^ (c ^^^ (c &&& 255#n))) := congrArg _ hsplit
    _ = shifts poly 8 (c &&& 255#n) ^^^ (c >>> 8) := by rw [shifts_xor, hclear]

/-- A byte concerns the low bits alone. -/
theorem xor_ushiftRight_of_lt {b : BitVec n} (hb : b.toNat < 256) (c : BitVec n) :
    (c ^^^ b) >>> 8 = c >>> 8 := by
  rw [BitVec.ushiftRight_xor_distrib]
  have hzero : b >>> 8 = 0#n := by
    apply BitVec.eq_of_toNat_eq
    rw [BitVec.toNat_ushiftRight, BitVec.toNat_ofNat, Nat.zero_mod, Nat.shiftRight_eq_div_pow]
    exact Nat.div_eq_of_lt hb
  rw [hzero, BitVec.xor_zero]

/-- A table of the remainders of all bytes computes the same, a byte at a time. -/
theorem byTable_eq_byBits {table : BitVec n → BitVec n}
    (htable : ∀ i : BitVec n, i.toNat < 256 → table i = shifts poly 8 i) {bytes : List (BitVec n)}
    (hbytes : ∀ b ∈ bytes, b.toNat < 256) (c : BitVec n) :
    byTable table bytes c = byBits poly bytes c := by
  have hlow : ∀ c : BitVec n, (c &&& 255#n).toNat < 256 := by
    intro c
    have hle : (c &&& 255#n).toNat ≤ (255#n).toNat := by
      rw [BitVec.toNat_and]
      exact Nat.and_le_right
    have hmod : (255#n).toNat ≤ 255 := by
      rw [BitVec.toNat_ofNat]
      exact Nat.mod_le _ _
    omega
  induction bytes generalizing c with
  | nil => rfl
  | cons b bytes ih =>
    have hb : b.toNat < 256 := hbytes b List.mem_cons_self
    show byTable table bytes (table ((c ^^^ b) &&& 255#n) ^^^ (c >>> 8)) =
      byBits poly bytes (shifts poly 8 (c ^^^ b))
    rw [ih (fun b' hb' => hbytes b' (List.mem_cons_of_mem b hb')), htable _ (hlow _),
      ← xor_ushiftRight_of_lt hb c, ← shifts_eight]

end Crc
