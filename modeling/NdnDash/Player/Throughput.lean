/-
The measured throughput of a segment: `DASHReceiver::UpdateThroughput` (`DASHReceiver.cpp`).

Eight thousand times the size is formed in 32 bits, its quotient by the milliseconds in a `double` is taken exactly (the
rounded one is on the same side of every integer) and cut to 32 bits. `none` is undefined behaviour: a quotient by zero,
which is infinite or not a number, or a value that a `uint32_t` cannot hold.

- `updateThroughput_eq`: for a positive interval the rate is the quotient of the wrapped product.
- `mod_div_eq_iff`: when the wrapped product has the same quotient.
- `throughput_exact_iff`: for every size and interval, the rate is exact exactly when the interval is positive and the
  product does not wrap or is less than the interval.
-/
import Mathlib.Algebra.Order.Floor.Semifield
import Mathlib.Data.Rat.Floor
import Mathlib.Tactic

namespace NdnDash.Player

/-! ## Model -/

structure ThroughputTrace where
  beginTime : ℤ
  endTime : ℤ
  segmentLength : UInt32
  bitRate : UInt32
deriving DecidableEq, Repr

/-- the conversion of a `double` -/
def toUInt32 (x : ℚ) : Option UInt32 := if -1 < x ∧ x < 2 ^ 32 then some (UInt32.ofNat ⌊x⌋₊) else none

/-- `UpdateThroughput`. An interval of 0 stays 0: `time == 1` only compares. -/
def updateThroughput (beginTime endTime : ℤ) (size : UInt32) : Option ThroughputTrace :=
  let time : ℚ := (endTime - beginTime : ℤ)
  if time = 0 then none
  else
    (toUInt32 ((size * 8 * 1000).toNat / time)).map fun bitRate =>
      { beginTime := beginTime, endTime := endTime, segmentLength := size, bitRate := bitRate }

/-! ## What it is for -/

/-- bits per second, an interval of 0 counted as one millisecond -/
def expectedRate (beginTime endTime : ℤ) (size : UInt32) : ℕ :=
  size.toNat * 8 * 1000 / max 1 (endTime - beginTime).toNat

/-- a trace with the exact rate is stored -/
def StoresExact (beginTime endTime : ℤ) (size : UInt32) : Prop :=
  ∃ trace, updateThroughput beginTime endTime size = some trace ∧
    trace.bitRate.toNat = expectedRate beginTime endTime size

/-- a rate that a `uint32_t` holds is stored exactly -/
def ThroughputExact (beginTime endTime : ℤ) (size : UInt32) : Prop :=
  expectedRate beginTime endTime size < 2 ^ 32 → StoresExact beginTime endTime size

/-! ## The rate -/

variable {beginTime endTime : ℤ} {size : UInt32}

theorem toNat_product (size : UInt32) : (size * 8 * 1000).toNat = size.toNat * 8 * 1000 % 2 ^ 32 := by
  rw [UInt32.toNat_mul, UInt32.toNat_mul]
  have h8 : (8 : UInt32).toNat = 8 := rfl
  have h1000 : (1000 : UInt32).toNat = 1000 := rfl
  rw [h8, h1000, Nat.mod_mul_mod]

theorem toUInt32_div {m n : ℕ} (h : m / n < 2 ^ 32) (hn : 0 < n) :
    toUInt32 ((m : ℚ) / n) = some (UInt32.ofNat (m / n)) := by
  have hn' : (0 : ℚ) < n := by exact_mod_cast hn
  have hnonneg : (0 : ℚ) ≤ (m : ℚ) / n := by positivity
  have hlt : (m : ℚ) / n < 2 ^ 32 := by
    rw [div_lt_iff₀ hn']
    exact_mod_cast (Nat.div_lt_iff_lt_mul hn).1 h
  rw [toUInt32, if_pos ⟨by linarith, hlt⟩, Nat.floor_div_eq_div]

/-- **The rate.** For a positive interval it is the quotient of the wrapped product. -/
theorem updateThroughput_eq (h : beginTime < endTime) :
    updateThroughput beginTime endTime size = some
      { beginTime := beginTime
        endTime := endTime
        segmentLength := size
        bitRate := UInt32.ofNat (size.toNat * 8 * 1000 % 2 ^ 32 / (endTime - beginTime).toNat) } := by
  have hn : 0 < (endTime - beginTime).toNat := by omega
  have htime : ((endTime - beginTime : ℤ) : ℚ) = ((endTime - beginTime).toNat : ℚ) := by
    exact_mod_cast (Int.toNat_of_nonneg (by omega : 0 ≤ endTime - beginTime)).symm
  have hne : ((endTime - beginTime).toNat : ℚ) ≠ 0 := by exact_mod_cast hn.ne'
  have hlt : size.toNat * 8 * 1000 % 2 ^ 32 / (endTime - beginTime).toNat < 2 ^ 32 :=
    (Nat.div_le_self _ _).trans_lt (Nat.mod_lt _ (by decide))
  simp only [updateThroughput, htime, if_neg hne]
  rw [toNat_product, toUInt32_div hlt hn, Option.map_some]

theorem updateThroughput_zero (h : beginTime = endTime) : updateThroughput beginTime endTime size = none := by
  rw [updateThroughput, h]
  simp

/-- the wrapped product has the same quotient if it does not wrap or both quotients are zero -/
theorem mod_div_eq_iff {x m n : ℕ} (hn : 0 < n) (hm : 0 < m) : x % m / n = x / n ↔ x < m ∨ x < n := by
  constructor
  · intro h
    by_contra hboth
    rw [not_or, not_lt, not_lt] at hboth
    obtain ⟨hxm, hxn⟩ := hboth
    have hone : 1 ≤ x / n := (Nat.one_le_div_iff hn).2 hxn
    -- the part that is cut off is less than `n`, so `m` is, so the rest is
    have hupper : x < (x / n + 1) * n := Nat.lt_mul_of_div_lt (Nat.lt_succ_self _) hn
    have hlower : x / n * n ≤ x % m := by
      rw [← h]
      exact Nat.div_mul_le_self _ _
    have hcut : m ≤ x - x % m := by
      have hdiv : m * 1 ≤ m * (x / m) := Nat.mul_le_mul_left _ ((Nat.one_le_div_iff hm).2 hxm)
      have hsum := Nat.mod_add_div x m
      omega
    have hrest := Nat.mod_lt x hm
    have hn' : n ≤ x / n * n := Nat.le_mul_of_pos_left n hone
    rw [Nat.add_mul, Nat.one_mul] at hupper
    omega
  · intro h
    rcases h with hxm | hxn
    · rw [Nat.mod_eq_of_lt hxm]
    · rw [Nat.div_eq_of_lt hxn, Nat.div_eq_of_lt ((Nat.mod_le _ _).trans_lt hxn)]

theorem storesExact_iff (h : beginTime ≤ endTime) :
    StoresExact beginTime endTime size ↔
      beginTime < endTime ∧
        (size.toNat * 8 * 1000 < 2 ^ 32 ∨ size.toNat * 8 * 1000 < (endTime - beginTime).toNat) := by
  rcases h.eq_or_lt with heq | hlt
  · -- no time has passed
    rw [StoresExact, updateThroughput_zero heq]
    exact iff_of_false (fun h => by simp at h) fun h => absurd heq h.1.ne
  · have hn : 0 < (endTime - beginTime).toNat := by omega
    have hexpected : expectedRate beginTime endTime size = size.toNat * 8 * 1000 / (endTime - beginTime).toNat := by
      rw [expectedRate, max_eq_right hn]
    have hfits : size.toNat * 8 * 1000 % 2 ^ 32 / (endTime - beginTime).toNat < 2 ^ 32 :=
      (Nat.div_le_self _ _).trans_lt (Nat.mod_lt _ (by decide))
    rw [StoresExact, updateThroughput_eq hlt, hexpected, ← mod_div_eq_iff hn (by decide), and_iff_right hlt]
    simp only [Option.some.injEq, exists_eq_left', UInt32.toNat_ofNat', Nat.mod_eq_of_lt hfits]

/-- **The throughput.** For every size and interval, a rate that fits is stored exactly if and only if the interval is
positive and the product does not wrap or is less than the interval. -/
theorem throughput_exact_iff (h : beginTime ≤ endTime) :
    ThroughputExact beginTime endTime size ↔ (expectedRate beginTime endTime size < 2 ^ 32 →
      beginTime < endTime ∧
        (size.toNat * 8 * 1000 < 2 ^ 32 ∨ size.toNat * 8 * 1000 < (endTime - beginTime).toNat)) :=
  imp_congr_right fun _ => storesExact_iff h

theorem throughput_half_megabyte : expectedRate 0 1000 500000 = 4000000 ∧ ThroughputExact 0 1000 500000 := by
  refine ⟨by decide, (throughput_exact_iff (by decide)).mpr fun _ => ⟨by decide, .inl (by decide)⟩⟩

/-- a segment of 600000 bytes in a second is measured as half a megabit, and one that took no time is not measured -/
theorem throughput_wraps :
    (updateThroughput 0 1000 600000).map (·.bitRate) = some 505032 ∧ expectedRate 0 1000 600000 = 4800000 ∧
      ¬ ThroughputExact 0 1000 600000 ∧ ¬ ThroughputExact 0 0 1 := by
  have hrate : (updateThroughput 0 1000 600000).map (·.bitRate) = some 505032 := by
    rw [updateThroughput_eq (by decide), Option.map_some]
    decide
  refine ⟨hrate, by decide, ?_, ?_⟩
  · intro h
    obtain ⟨trace, htrace, heq⟩ := h (by decide)
    rw [htrace, Option.map_some, Option.some.injEq] at hrate
    rw [hrate] at heq
    exact absurd heq (by decide)
  · intro h
    obtain ⟨trace, htrace, -⟩ := h (by decide)
    rw [updateThroughput_zero rfl] at htrace
    exact absurd htrace (by simp)

end NdnDash.Player
