/-
The weights 1, 4, 2, 4, …, 4, 1 of the composite Simpson rule, at equidistant points.

- `weighted_pairs`: over an even number of intervals the sum splits into one sum for each pair of intervals.
- `pair_exact`, `weighted_exact`: one pair, and with it every even number of intervals, integrates the polynomials of
  degree at most 3 exactly.
- `weighted_one`: over an odd number of intervals the weights do not add up to the length of the interval.
- `exact_iff_even`: the rule is exact for these polynomials exactly when the number of intervals is even.
-/
import Mathlib.Analysis.SpecialFunctions.Integrals.Basic
import Mathlib.Analysis.Calculus.Deriv.Polynomial
import Mathlib.Tactic

namespace NdnDash.Simpson

open Polynomial

/-! ## The weighted sum -/

section Weighted

variable {K : Type} [Field K]

/-- the weight of the inner point `i` -/
def weight (i : ℕ) : K := if i % 2 = 0 then 2 else 4

/-- the weighted sum over `n` intervals -/
def weighted (n : ℕ) (f : ℕ → K) : K := f 0 + f n + ∑ i ∈ Finset.Ico 1 n, weight i * f i

theorem weight_even (m : ℕ) : (weight (2 * m) : K) = 2 := if_pos (by omega)

theorem weight_odd (m : ℕ) : (weight (2 * m + 1) : K) = 4 := if_neg (by omega)

theorem weighted_add_two (m : ℕ) (f : ℕ → K) :
    weighted (2 * (m + 1) + 2) f =
      weighted (2 * (m + 1)) f + (f (2 * (m + 1)) + 4 * f (2 * (m + 1) + 1) + f (2 * (m + 1) + 2)) := by
  have hfirst : ∑ i ∈ Finset.Ico 1 (2 * (m + 1) + 2), weight i * f i =
      ∑ i ∈ Finset.Ico 1 (2 * (m + 1)), weight i * f i + 2 * f (2 * (m + 1)) + 4 * f (2 * (m + 1) + 1) := by
    rw [Finset.sum_Ico_succ_top (by omega), Finset.sum_Ico_succ_top (by omega), weight_even, weight_odd]
  rw [weighted, weighted, hfirst]
  ring

/-- **The pairs.** Over an even number of intervals the sum is one of `1, 4, 1` for each pair. -/
theorem weighted_pairs (m : ℕ) (f : ℕ → K) :
    weighted (2 * (m + 1)) f = ∑ j ∈ Finset.range (m + 1), (f (2 * j) + 4 * f (2 * j + 1) + f (2 * j + 2)) := by
  induction m with
  | zero =>
    have hone : Finset.Ico 1 2 = {1} := rfl
    rw [zero_add, mul_one, weighted, hone, Finset.sum_singleton, weight_odd 0, Finset.sum_range_one]
    ring
  | succ m ih =>
    rw [Finset.sum_range_succ, ← ih]
    exact weighted_add_two m f

theorem weighted_one (m : ℕ) : weighted (2 * m + 1) (fun _ => (1 : K)) = 6 * m + 2 := by
  induction m with
  | zero => norm_num [weighted]
  | succ m ih =>
    have hsucc : ∑ i ∈ Finset.Ico 1 (2 * (m + 1) + 1), (weight i : K) * 1 =
        ∑ i ∈ Finset.Ico 1 (2 * m + 1), (weight i : K) * 1 + 4 + 2 := by
      rw [Nat.mul_succ, Finset.sum_Ico_succ_top (by omega), Finset.sum_Ico_succ_top (by omega), weight_odd,
        ← Nat.mul_succ, weight_even]
      ring
    rw [weighted, hsucc]
    rw [weighted] at ih
    push_cast
    linear_combination ih

/-! ## Exactness -/

variable [CharZero K]

/-- one pair of intervals: the difference of the antiderivative -/
theorem pair_exact {P : K[X]} (hP : P.natDegree ≤ 4) (x h : K) :
    (P.derivative.eval x + 4 * P.derivative.eval (x + h) + P.derivative.eval (x + 2 * h)) * h / 3 =
      P.eval (x + 2 * h) - P.eval x := by
  have hderivative : P.derivative.natDegree < 4 := by
    have := natDegree_derivative_le P
    omega
  have heval : ∀ y, P.eval y = P.coeff 0 + P.coeff 1 * y + P.coeff 2 * y ^ 2 + P.coeff 3 * y ^ 3 + P.coeff 4 * y ^ 4 := by
    intro y
    rw [eval_eq_sum_range' (show P.natDegree < 5 by omega)]
    simp only [Finset.sum_range_succ, Finset.sum_range_zero]
    ring
  have hderiv : ∀ y, P.derivative.eval y =
      P.coeff 1 + 2 * P.coeff 2 * y + 3 * P.coeff 3 * y ^ 2 + 4 * P.coeff 4 * y ^ 3 := by
    intro y
    rw [eval_eq_sum_range' hderivative]
    simp only [Finset.sum_range_succ, Finset.sum_range_zero, coeff_derivative]
    push_cast
    ring
  rw [heval, heval, hderiv, hderiv, hderiv]
  have hthree : (3 : K) ≠ 0 := by norm_num
  field_simp
  ring

/-- **An even number of intervals.** The rule integrates a derivative of degree at most 3 exactly. -/
theorem weighted_exact {P : K[X]} (hP : P.natDegree ≤ 4) (a h : K) (m : ℕ) :
    weighted (2 * (m + 1)) (fun i => P.derivative.eval (a + i * h)) * h / 3 =
      P.eval (a + (2 * (m + 1) : ℕ) * h) - P.eval a := by
  have hpair : ∀ j : ℕ, (P.derivative.eval (a + (2 * j : ℕ) * h) + 4 * P.derivative.eval (a + (2 * j + 1 : ℕ) * h) +
      P.derivative.eval (a + (2 * j + 2 : ℕ) * h)) * h / 3 =
        P.eval (a + (2 * (j + 1) : ℕ) * h) - P.eval (a + (2 * j : ℕ) * h) := by
    intro j
    have hnext : a + (2 * j + 1 : ℕ) * h = a + (2 * j : ℕ) * h + h := by
      push_cast
      ring
    have hlast : a + (2 * j + 2 : ℕ) * h = a + (2 * j : ℕ) * h + 2 * h := by
      push_cast
      ring
    rw [show 2 * (j + 1) = 2 * j + 2 from rfl, hnext, hlast]
    exact pair_exact hP _ h
  calc weighted (2 * (m + 1)) (fun i => P.derivative.eval (a + i * h)) * h / 3
      = ∑ j ∈ Finset.range (m + 1), (P.derivative.eval (a + (2 * j : ℕ) * h) +
          4 * P.derivative.eval (a + (2 * j + 1 : ℕ) * h) + P.derivative.eval (a + (2 * j + 2 : ℕ) * h)) * h / 3 := by
        rw [weighted_pairs, Finset.sum_mul, Finset.sum_div]
    _ = ∑ j ∈ Finset.range (m + 1), (P.eval (a + (2 * (j + 1) : ℕ) * h) - P.eval (a + (2 * j : ℕ) * h)) :=
        Finset.sum_congr rfl fun j _ => hpair j
    _ = P.eval (a + (2 * (m + 1) : ℕ) * h) - P.eval (a + (2 * 0 : ℕ) * h) :=
        Finset.sum_range_sub (fun j => P.eval (a + (2 * j : ℕ) * h)) _
    _ = P.eval (a + (2 * (m + 1) : ℕ) * h) - P.eval a := by rw [Nat.mul_zero, Nat.cast_zero, zero_mul, add_zero]

end Weighted

/-! ## The integral -/

section Integral

/-- the integral of a polynomial with rational coefficients -/
noncomputable def integral (p : ℚ[X]) (a b : ℚ) : ℝ := ∫ x in (a : ℝ)..b, aeval x p

/-- every polynomial of degree at most 3 is the derivative of one of degree at most 4 -/
theorem exists_antiderivative {p : ℚ[X]} (hp : p.natDegree ≤ 3) : ∃ P : ℚ[X], P.natDegree ≤ 4 ∧ P.derivative = p := by
  refine ⟨∑ i ∈ Finset.range 4, C (p.coeff i / (i + 1)) * X ^ (i + 1), ?_, ?_⟩
  · refine natDegree_sum_le_of_forall_le _ _ fun i hi => ?_
    have hi' := Finset.mem_range.1 hi
    exact (natDegree_C_mul_X_pow_le _ _).trans (by omega)
  · conv_rhs => rw [p.as_sum_range_C_mul_X_pow' (show p.natDegree < 4 by omega)]
    rw [derivative_sum]
    refine Finset.sum_congr rfl fun i _ => ?_
    have hi : ((i : ℚ) + 1) ≠ 0 := by positivity
    rw [derivative_C_mul_X_pow, Nat.add_sub_cancel]
    push_cast
    rw [div_mul_cancel₀ _ hi]

theorem integral_derivative (P : ℚ[X]) (a b : ℚ) : integral P.derivative a b = ((P.eval b - P.eval a : ℚ) : ℝ) := by
  have heval : ∀ q : ℚ, aeval (q : ℝ) P = ((P.eval q : ℚ) : ℝ) := fun q => aeval_algebraMap_apply_eq_algebraMap_eval q P
  rw [integral, intervalIntegral.integral_eq_sub_of_hasDerivAt (fun x _ => P.hasDerivAt_aeval x)
    ((P.derivative.continuous_aeval).intervalIntegrable _ _), heval, heval, Rat.cast_sub]

/-- the rule over `n` intervals of length `h` from `a` on integrates every polynomial of degree at most 3 exactly -/
def Exact (n : ℕ) (a h : ℚ) : Prop :=
  ∀ p : ℚ[X], p.natDegree ≤ 3 →
    ((weighted n (fun i => p.eval (a + i * h)) * h / 3 : ℚ) : ℝ) = integral p a (a + n * h)

variable {n : ℕ} {a h : ℚ}

/-- **Exactness.** The rule is exact for these polynomials exactly when the number of intervals is even. -/
theorem exact_iff_even (hn : 0 < n) (hh : h ≠ 0) : Exact n a h ↔ Even n := by
  constructor
  · intro hexact
    by_contra hodd
    obtain ⟨m, rfl⟩ := Nat.not_even_iff_odd.1 hodd
    -- the constant 1 is the derivative of the identity
    have hone := hexact 1 (by simp)
    have hlength : integral 1 a (a + (2 * m + 1 : ℕ) * h) = (((2 * m + 1 : ℕ) * h : ℚ) : ℝ) := by
      have hderiv := integral_derivative X a (a + (2 * m + 1 : ℕ) * h)
      rw [derivative_X, eval_X, eval_X, add_sub_cancel_left] at hderiv
      exact hderiv
    rw [hlength, Rat.cast_inj] at hone
    simp only [eval_one, weighted_one] at hone
    push_cast at hone
    exact hh (by linarith)
  · rintro ⟨m, rfl⟩ p hp
    obtain ⟨P, hP, rfl⟩ := exists_antiderivative hp
    obtain ⟨k, rfl⟩ : ∃ k, m = k + 1 := ⟨m - 1, by omega⟩
    rw [integral_derivative, ← two_mul, Rat.cast_inj]
    exact weighted_exact hP a h k

end Integral

end NdnDash.Simpson
