/-
Means of finitely many numbers, over any linearly ordered field: the harmonic mean of positive numbers lies between the
least and the greatest; and their squared deviations from a number.

- `le_harmonic`, `harmonic_le`: the bounds of the harmonic mean; `exists_bounds`: they are reached.
- `squares_nonneg`: the squared deviations add up to no negative number.
-/
import Mathlib.Algebra.Order.BigOperators.Group.List
import Mathlib.Algebra.Order.Field.Basic
import Mathlib.Tactic

namespace NdnDash.Mean

variable {K : Type} [Field K] [LinearOrder K] [IsStrictOrderedRing K] {xs : List K} {lo hi : K}

/-! ## The harmonic mean -/

/-- the reciprocals added up -/
def reciprocals (xs : List K) : K := (xs.map fun x => 1 / x).sum

theorem reciprocals_pos (hne : xs ≠ []) (hpos : ∀ x ∈ xs, 0 < x) : 0 < reciprocals xs := by
  apply List.sum_pos
  · intro y hy
    obtain ⟨x, hx, rfl⟩ := List.mem_map.1 hy
    exact one_div_pos.2 (hpos x hx)
  · simpa using hne

/-- numbers of at least `lo` have reciprocals of at most its own -/
theorem reciprocals_le (hlo : 0 < lo) (h : ∀ x ∈ xs, lo ≤ x) : reciprocals xs ≤ xs.length / lo := by
  have hterm : ∀ y ∈ xs.map fun x => 1 / x, y ≤ 1 / lo := by
    intro y hy
    obtain ⟨x, hx, rfl⟩ := List.mem_map.1 hy
    exact one_div_le_one_div_of_le hlo (h x hx)
  calc reciprocals xs ≤ (xs.map fun x => 1 / x).length • (1 / lo) := List.sum_le_card_nsmul _ _ hterm
    _ = xs.length / lo := by rw [List.length_map, nsmul_eq_mul, mul_one_div]

/-- numbers of at most `hi` have reciprocals of at least its own -/
theorem le_reciprocals (hpos : ∀ x ∈ xs, 0 < x) (h : ∀ x ∈ xs, x ≤ hi) : xs.length / hi ≤ reciprocals xs := by
  have hterm : ∀ y ∈ xs.map fun x => 1 / x, 1 / hi ≤ y := by
    intro y hy
    obtain ⟨x, hx, rfl⟩ := List.mem_map.1 hy
    exact one_div_le_one_div_of_le (hpos x hx) (h x hx)
  calc xs.length / hi = (xs.map fun x => 1 / x).length • (1 / hi) := by
        rw [List.length_map, nsmul_eq_mul, mul_one_div]
    _ ≤ reciprocals xs := List.card_nsmul_le_sum _ _ hterm

theorem le_harmonic (hne : xs ≠ []) (hlo : 0 < lo) (h : ∀ x ∈ xs, lo ≤ x) : lo ≤ xs.length / reciprocals xs := by
  have hpos := reciprocals_pos hne fun x hx => hlo.trans_le (h x hx)
  have hsum := reciprocals_le hlo h
  rw [le_div_iff₀ hlo] at hsum
  rw [le_div_iff₀ hpos, mul_comm]
  exact hsum

theorem harmonic_le (hne : xs ≠ []) (hpos : ∀ x ∈ xs, 0 < x) (h : ∀ x ∈ xs, x ≤ hi) : xs.length / reciprocals xs ≤ hi := by
  have hsumpos := reciprocals_pos hne hpos
  obtain ⟨x, hx⟩ := List.exists_mem_of_ne_nil xs hne
  have hhi : 0 < hi := (hpos x hx).trans_le (h x hx)
  have hsum := le_reciprocals hpos h
  rw [div_le_iff₀ hhi] at hsum
  rw [div_le_iff₀ hsumpos, mul_comm]
  exact hsum

omit [Field K] [IsStrictOrderedRing K] in
/-- the least and the greatest are among them -/
theorem exists_bounds (hne : xs ≠ []) : ∃ lo ∈ xs, ∃ hi ∈ xs, ∀ x ∈ xs, lo ≤ x ∧ x ≤ hi := by
  have hne' : xs.toFinset.Nonempty := by simpa using hne
  obtain ⟨lo, hlo, hleast⟩ := xs.toFinset.exists_min_image id hne'
  obtain ⟨hi, hhi, hgreatest⟩ := xs.toFinset.exists_max_image id hne'
  refine ⟨lo, List.mem_toFinset.1 hlo, hi, List.mem_toFinset.1 hhi, fun x hx => ⟨?_, ?_⟩⟩
  · exact hleast x (List.mem_toFinset.2 hx)
  · exact hgreatest x (List.mem_toFinset.2 hx)

/-! ## Deviations from the arithmetic mean -/

/-- the squared deviations from a value added up -/
def squares (xs : List K) (m : K) : K := (xs.map fun x => (x - m) * (x - m)).sum

theorem squares_nonneg (xs : List K) (m : K) : 0 ≤ squares xs m := by
  apply List.sum_nonneg
  intro y hy
  obtain ⟨x, _, rfl⟩ := List.mem_map.1 hy
  exact mul_self_nonneg _

end NdnDash.Mean
