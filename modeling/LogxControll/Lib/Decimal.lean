/-
  Numbers in texts: what `strtol` reads from a text in base 10, and that it reads back the decimal
  text of a number. A `long` has 64 bits, an `int` 32.
-/
import Mathlib.Data.List.TakeWhile
import Mathlib.Tactic

namespace Decimal

/-- `isspace` -/
def isSpace (c : Char) : Bool := c = ' ' ∨ ('\t' ≤ c ∧ c ≤ '\r')

/-- The digits a text begins with. -/
def magnitude (cs : List Char) : ℕ := Nat.ofDigitChars 10 (cs.takeWhile Char.isDigit) 0

/-- With its sign. -/
def signed : List Char → ℤ
  | '-' :: cs => -(magnitude cs : ℤ)
  | '+' :: cs => magnitude cs
  | cs => magnitude cs

/-- `strtol(text, NULL, 10)`, which stops at the limits of its type. -/
def strtol (text : String) : ℤ :=
  max (-2 ^ 63) (min (signed (text.toList.dropWhile isSpace)) (2 ^ 63 - 1))

/-- A `long` that is stored in an `int`. -/
def toInt (n : ℤ) : ℤ := n.bmod (2 ^ 32)

theorem toInt_of_lt {n : ℕ} (h : n < 2 ^ 31) : toInt n = n := by
  rw [toInt, Int.bmod_def]
  omega

theorem not_isSpace_of_isDigit {c : Char} (h : c.isDigit) : isSpace c = false := by
  have hbounds : '0'.val ≤ c.val ∧ c.val ≤ '9'.val := by
    simpa [Char.isDigit] using h
  have hlow : ¬ c ≤ '\r' := fun hle => by
    have hval : c.val ≤ '\r'.val := hle
    exact absurd (UInt32.le_trans hbounds.1 hval) (by decide)
  have hne : c ≠ ' ' := by
    rintro rfl
    exact absurd h (by decide)
  simp [isSpace, hlow, hne]

theorem magnitude_toDigits (n : ℕ) : magnitude (Nat.toDigits 10 n) = n := by
  have hall : (Nat.toDigits 10 n).takeWhile Char.isDigit = Nat.toDigits 10 n :=
    List.takeWhile_eq_self_iff.mpr fun c hc =>
      Nat.isDigit_of_mem_toDigits (by decide) (by decide) hc
  rw [magnitude, hall, Nat.ofDigitChars_ten_toDigits]

theorem signed_toDigits (n : ℕ) : signed (Nat.toDigits 10 n) = n := by
  have hdigit : ∀ c ∈ Nat.toDigits 10 n, c.isDigit := fun c hc =>
    Nat.isDigit_of_mem_toDigits (by decide) (by decide) hc
  have hmagnitude := magnitude_toDigits n
  revert hdigit hmagnitude
  generalize Nat.toDigits 10 n = cs
  intro hdigit hmagnitude
  unfold signed
  split
  · exact absurd (hdigit '-' List.mem_cons_self) (by decide)
  · exact absurd (hdigit '+' List.mem_cons_self) (by decide)
  · rw [hmagnitude]

/-- `strtol` reads back what `%d` prints. -/
theorem strtol_repr {n : ℕ} (h : n < 2 ^ 63) : strtol n.repr = n := by
  have hdrop : (Nat.toDigits 10 n).dropWhile isSpace = Nat.toDigits 10 n := by
    refine List.dropWhile_eq_self_iff.mpr fun hlen => ?_
    have hdigit := Nat.isDigit_of_mem_toDigits (by decide) (by decide)
      (List.getElem_mem hlen : _ ∈ Nat.toDigits 10 n)
    simp [not_isSpace_of_isDigit hdigit]
  rw [strtol, Nat.toList_repr, hdrop, signed_toDigits]
  omega

end Decimal
