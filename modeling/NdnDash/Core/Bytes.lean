/-
Byte strings, and the little-endian and big-endian bytes of an unsigned number of a fixed width.
-/
import Mathlib.Tactic

namespace NdnDash

abbrev Bytes := List UInt8

/-- the `k` low bytes of `n`, lowest first -/
def leBytes : ℕ → ℕ → Bytes
  | 0, _ => []
  | k + 1, n => UInt8.ofNat n :: leBytes k (n / 256)

/-- the number the bytes denote, lowest first -/
def leValue : Bytes → ℕ
  | [] => 0
  | b :: bs => b.toNat + 256 * leValue bs

@[simp] theorem length_leBytes (k n : ℕ) : (leBytes k n).length = k := by
  induction k generalizing n with
  | zero => rfl
  | succ k ih => simp [leBytes, ih]

theorem leValue_leBytes {k n : ℕ} (h : n < 256 ^ k) : leValue (leBytes k n) = n := by
  induction k generalizing n with
  | zero => simp only [pow_zero, Nat.lt_one_iff] at h; simp [leBytes, leValue, h]
  | succ k ih =>
    have hdiv : n / 256 < 256 ^ k := Nat.div_lt_of_lt_mul (by rw [pow_succ] at h; omega)
    simp only [leBytes, leValue, ih hdiv, UInt8.toNat_ofNat']
    omega

/-- the bytes above the `k` lowest do not matter -/
theorem leBytes_mod (k n : ℕ) : leBytes k (n % 256 ^ k) = leBytes k n := by
  induction k generalizing n with
  | zero => rfl
  | succ k ih =>
    have hlow : UInt8.ofNat (n % 256 ^ (k + 1)) = UInt8.ofNat n := by
      apply UInt8.toNat_inj.mp
      rw [UInt8.toNat_ofNat', UInt8.toNat_ofNat', Nat.mod_mod_of_dvd n (Dvd.intro_left (256 ^ k) (pow_succ 256 k).symm)]
    have hhigh : n % 256 ^ (k + 1) / 256 = n / 256 % 256 ^ k := by
      rw [pow_succ, Nat.mul_comm, Nat.mod_mul_right_div_self]
    rw [leBytes, leBytes, hlow, hhigh, ih]

theorem leValue_lt (bs : Bytes) : leValue bs < 256 ^ bs.length := by
  induction bs with
  | nil => simp [leValue]
  | cons b bs ih =>
    have hb := b.toNat_lt
    rw [leValue, List.length_cons, pow_succ]
    omega

/-- the bytes of a number are determined by its value and their count -/
theorem leBytes_leValue (bs : Bytes) : leBytes bs.length (leValue bs) = bs := by
  induction bs with
  | nil => rfl
  | cons b bs ih =>
    have hb := b.toNat_lt
    have hlow : UInt8.ofNat (b.toNat + 256 * leValue bs) = b := by
      apply UInt8.toNat_inj.mp
      rw [UInt8.toNat_ofNat']
      omega
    have hhigh : (b.toNat + 256 * leValue bs) / 256 = leValue bs := by omega
    rw [List.length_cons, leValue, leBytes, hlow, hhigh, ih]

theorem leValue_append_singleton (bs : Bytes) (b : UInt8) :
    leValue (bs ++ [b]) = b.toNat * 256 ^ bs.length + leValue bs := by
  induction bs with
  | nil => simp [leValue]
  | cons c bs ih =>
    rw [List.cons_append, leValue, leValue, ih, List.length_cons, pow_succ]
    ring

/-! ## Highest byte first -/

/-- the `k` low bytes of `n`, highest first -/
def beBytes (k n : ℕ) : Bytes := (leBytes k n).reverse

/-- the number the bytes denote, highest first -/
def beValue (bs : Bytes) : ℕ := leValue bs.reverse

@[simp] theorem length_beBytes (k n : ℕ) : (beBytes k n).length = k := by
  rw [beBytes, List.length_reverse, length_leBytes]

theorem beValue_beBytes {k n : ℕ} (h : n < 256 ^ k) : beValue (beBytes k n) = n := by
  rw [beValue, beBytes, List.reverse_reverse, leValue_leBytes h]

theorem beBytes_beValue (bs : Bytes) : beBytes bs.length (beValue bs) = bs := by
  rw [beBytes, beValue, ← bs.length_reverse, leBytes_leValue, List.reverse_reverse]

theorem beValue_lt (bs : Bytes) : beValue bs < 256 ^ bs.length := by
  rw [← bs.length_reverse]
  exact leValue_lt bs.reverse

@[simp] theorem beValue_nil : beValue [] = 0 := rfl

theorem beValue_cons (b : UInt8) (bs : Bytes) : beValue (b :: bs) = b.toNat * 256 ^ bs.length + beValue bs := by
  rw [beValue, List.reverse_cons, leValue_append_singleton, List.length_reverse, ← beValue]

end NdnDash
