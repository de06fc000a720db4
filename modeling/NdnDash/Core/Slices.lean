/-
Cutting a list into pieces of a fixed width `w`, over any element type.

- `packets w n`: how many pieces a list of length `n` has, the least `k` with `n ≤ w * k`.
- `slice w i xs`: piece number `i`; all pieces but the last have length `w`.
- `slices_flatten`: the pieces, in order, are the list.
-/
import Mathlib.Tactic

namespace NdnDash.Slices

variable {α : Type}

/-- the number of pieces of width `w` of a list of length `n`, rounded up -/
def packets (w n : ℕ) : ℕ := (n + (w - 1)) / w

/-- piece number `i` -/
def slice (w i : ℕ) (xs : List α) : List α := (xs.drop (w * i)).take w

theorem lt_packets {w n i : ℕ} (hw : 0 < w) : i < packets w n ↔ w * i < n := by
  rw [packets, Nat.lt_iff_add_one_le, Nat.le_div_iff_mul_le hw, add_mul, mul_comm i w]
  omega

theorem packets_le {w n k : ℕ} (hw : 0 < w) : packets w n ≤ k ↔ n ≤ w * k := by
  have := lt_packets (n := n) (i := k) hw
  omega

/-- division and remainder compute the number of pieces -/
theorem packets_eq_div (w n : ℕ) (hw : 0 < w) : packets w n = n / w + if n % w = 0 then 0 else 1 := by
  have hn := Nat.div_add_mod n w
  have hr := Nat.mod_lt n hw
  have hle : packets w n ≤ n / w + if n % w = 0 then 0 else 1 := by
    rw [packets_le hw]
    split_ifs with h <;> rw [mul_add] <;> omega
  rcases Nat.eq_or_lt_of_le hle with h | h
  · exact h
  · exfalso
    have hnot := (lt_packets (i := packets w n) (n := n) hw).not.1 (lt_irrefl _)
    split_ifs at h with h0
    · have : w * packets w n ≤ w * (n / w - 1) := Nat.mul_le_mul_left _ (by omega)
      have : w * (n / w - 1) + w = w * (n / w) := by rw [← Nat.mul_succ]; congr 1; omega
      omega
    · have : w * packets w n ≤ w * (n / w) := Nat.mul_le_mul_left _ (by omega)
      omega

theorem length_slice (w i : ℕ) (xs : List α) : (slice w i xs).length = min w (xs.length - w * i) := by
  simp [slice]

theorem take_succ_slice (w k : ℕ) (xs : List α) : xs.take (w * (k + 1)) = xs.take (w * k) ++ slice w k xs := by
  rw [mul_add, mul_one, List.take_add]
  rfl

theorem slices_take (w k : ℕ) (xs : List α) : (List.range k).flatMap (slice w · xs) = xs.take (w * k) := by
  induction k with
  | zero => simp
  | succ k ih => rw [List.range_succ, List.flatMap_append, ih, take_succ_slice]; simp

/-- **The pieces cover the list exactly once, in order.** -/
theorem slices_flatten {w : ℕ} (hw : 0 < w) (xs : List α) :
    (List.range (packets w xs.length)).flatMap (slice w · xs) = xs := by
  rw [slices_take, List.take_of_length_le ((packets_le hw).1 le_rfl)]

end NdnDash.Slices
