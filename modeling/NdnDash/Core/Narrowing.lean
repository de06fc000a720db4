/-
Signed types that are too small for a number keep its low bits: `int` those of a `size_t`, of a position or of a
difference of two sizes, `int64_t` those of an unsigned number.
-/
import Mathlib.Tactic

namespace NdnDash

/-- a number put into an `int` -/
def toInt (n : ℤ) : ℤ := Int.bmod n (2 ^ 32)

/-- a number put into an `int64_t` -/
def toInt64 (n : ℤ) : ℤ := Int.bmod n (2 ^ 64)

/-- what an `int` holds stays as it is -/
theorem toInt_eq {n : ℤ} (hlo : -2 ^ 31 ≤ n) (hhi : n < 2 ^ 31) : toInt n = n := by
  unfold toInt
  rw [Int.bmod_eq_of_le] <;> push_cast <;> omega

theorem toInt_of_lt {n : ℕ} (h : n < 2 ^ 31) : toInt n = n := toInt_eq (by omega) (by omega)

/-- the difference of two sizes that an `int` holds -/
theorem toInt_sub {m n : ℕ} (hm : m < 2 ^ 31) (hn : n < 2 ^ 31) : toInt (m - n) = m - n :=
  toInt_eq (by omega) (by omega)

/-- from 2^31 up to 2^32 the `int` is negative -/
theorem toInt_neg {n : ℤ} (hlo : 2 ^ 31 ≤ n) (hhi : n < 2 ^ 32) : toInt n < 0 := by
  rw [toInt, Int.bmod_def]
  omega

/-- from 2^31 on the `int` holds less -/
theorem toInt_lt {n : ℤ} (h : 2 ^ 31 ≤ n) : toInt n < n := by
  rw [toInt, Int.bmod_def]
  omega

theorem toInt64_of_lt {n : ℕ} (h : n < 2 ^ 63) : toInt64 n = n := by
  unfold toInt64
  rw [Int.bmod_eq_of_le] <;> push_cast <;> omega

end NdnDash
