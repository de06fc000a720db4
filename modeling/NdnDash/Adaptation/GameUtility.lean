/-
The integral in `GameAdaptation::calculate_u_1`: its samples, and when its weights are those of a Simpson rule.

The samples lie at 0.05, 0.25, …, and the last one at most at the upper limit, so the number of intervals between them
is what fits into the limit; the weights 1, 4, 2, …, 4, 1 need it to be even.

- `samples_eq`: the samples for every upper limit; more turns of the loop find no more of them.
- `weightedSum_eq`: for numbers, the sum is the one of the rule.
- `exactUpTo_iff`: from 5 on, exactness for the polynomials of degree at most 3 is evenness of the number of intervals.
- `integral_exact_iff`: so it is for every limit that measured throughputs lead to.
-/
import NdnDash.Adaptation.Game
import NdnDash.Core.Simpson

namespace NdnDash.Adaptation.Game

open NdnDash.Simpson Polynomial

/-! ## The samples -/

/-- how often the step fits between a value and the limit -/
def intervalsFrom (up t : ℚ) : ℤ := ⌊(up - t) / 0.2⌋

theorem intervalsFrom_nonneg {up t : ℚ} (h : t ≤ up) : 0 ≤ intervalsFrom up t :=
  Int.floor_nonneg.2 (div_nonneg (sub_nonneg.2 h) (by norm_num))

theorem intervalsFrom_neg {up t : ℚ} (h : up < t) : intervalsFrom up t < 0 :=
  Int.floor_lt.2 (by rw [Int.cast_zero]; exact div_neg_of_neg_of_pos (sub_neg.2 h) (by norm_num))

theorem intervalsFrom_step (up t : ℚ) : intervalsFrom up (t + 0.2) = intervalsFrom up t - 1 := by
  have hstep : (up - (t + 0.2)) / 0.2 = (up - t) / 0.2 - 1 := by
    ring
  rw [intervalsFrom, hstep, Int.floor_sub_one, intervalsFrom]

/-- the loop, with enough turns -/
theorem samplesFrom_eq (up : ℚ) (turns : ℕ) (t : ℚ) (hturns : (intervalsFrom up t + 1).toNat ≤ turns) :
    samplesFrom up turns t = (List.range (intervalsFrom up t + 1).toNat).map fun i : ℕ => t + i * 0.2 := by
  induction turns generalizing t with
  | zero =>
    rw [Nat.le_zero.1 hturns]
    rfl
  | succ turns ih =>
    rw [samplesFrom]
    split_ifs with hle
    · have hnonneg := intervalsFrom_nonneg hle
      have hstep := intervalsFrom_step up t
      have hcount : (intervalsFrom up t + 1).toNat = (intervalsFrom up (t + 0.2) + 1).toNat + 1 := by omega
      rw [ih (t + 0.2) (by omega), hcount, List.range_succ_eq_map, List.map_cons, List.map_map]
      congr 1
      · simp
      · refine List.map_congr_left fun i _ => ?_
        simp only [Function.comp_apply]
        push_cast
        ring
    · have hneg := intervalsFrom_neg (not_le.1 hle)
      rw [Int.toNat_of_nonpos (by omega)]
      rfl

/-- the number of intervals between the samples -/
def intervals (up : ℚ) : ℤ := intervalsFrom up 0.05

/-- **The samples.** With the turns that the loop is given it ends by its own condition. -/
theorem samples_eq (up : ℚ) : samples up = (List.range (intervals up + 1).toNat).map fun i : ℕ => (0.05 : ℚ) + i * 0.2 := by
  have hsmall : (up - 0.05) / 0.2 ≤ 5 * up := by
    have hquotient : (up - 0.05) / 0.2 = 5 * up - 0.25 := by ring
    rw [hquotient]
    linarith
  have hmono : intervalsFrom up 0.05 ≤ ⌊5 * up⌋ := Int.floor_mono hsmall
  exact samplesFrom_eq up _ 0.05 (by omega)

/-! ## The weighted sum -/

section Sum

variable {f : List Double} {g : ℕ → ℚ} {n : ℕ}

theorem inner_finite (hf : ∀ i ≤ n, f[i]?.getD .nan = .finite (g i)) (sum : ℚ) :
    (List.range' 1 n).foldl (fun sum i =>
        if i % 2 = 0 then sum + 2 * f[i]?.getD .nan else sum + 4 * f[i]?.getD .nan) (.finite sum) =
      .finite (sum + ∑ i ∈ Finset.Ico 1 (n + 1), weight i * g i) := by
  induction n with
  | zero => simp
  | succ n ih =>
    have htop : ∑ i ∈ Finset.Ico 1 (n + 1 + 1), weight i * g i =
        ∑ i ∈ Finset.Ico 1 (n + 1), weight i * g i + weight (n + 1) * g (n + 1) :=
      Finset.sum_Ico_succ_top (Nat.le_add_left 1 n) _
    rw [List.range'_1_concat, List.foldl_append, ih fun i hi => hf i (by omega), List.foldl_cons, List.foldl_nil,
      add_comm 1 n, hf (n + 1) (le_refl _), htop, ← add_assoc, weight]
    split_ifs
    · rfl
    · rfl

/-- **The weighted sum.** For numbers it is the sum of the rule over the intervals between them. -/
theorem weightedSum_eq (hlength : f.length = n + 1) (hf : ∀ i ≤ n, f[i]?.getD .nan = .finite (g i)) :
    weightedSum f = .finite (weighted n g * 0.2 / 3) := by
  have hfirst := hf 0 (Nat.zero_le n)
  have hlast := hf n (le_refl n)
  have hinner := inner_finite (fun i (hi : i ≤ n - 1) => hf i (by omega)) (g 0 + g n)
  have hinterval : Finset.Ico 1 (n - 1 + 1) = Finset.Ico 1 n := by
    ext i
    rw [Finset.mem_Ico, Finset.mem_Ico]
    omega
  have hindex : f.length - 1 = n := by
    omega
  simp only [weightedSum, hindex, hfirst, hlast, Double.finite_add, hinner, hinterval]
  exact Double.finite_div _ (by norm_num)

end Sum

theorem weightedSum_samples {up : ℚ} (hup : 0.05 ≤ up) (g : ℚ → ℚ) :
    weightedSum ((samples up).map fun t => .finite (g t)) =
      .finite (weighted (intervals up).toNat (fun i => g (0.05 + i * 0.2)) * 0.2 / 3) := by
  have hnonneg : 0 ≤ intervals up := intervalsFrom_nonneg hup
  have hcount : (intervals up + 1).toNat = (intervals up).toNat + 1 := by
    omega
  apply weightedSum_eq
  · rw [List.length_map, samples_eq, List.length_map, List.length_range, hcount]
  · intro i hi
    rw [samples_eq, List.map_map, List.getElem?_map, List.getElem?_range (by omega)]
    rfl

/-! ## Exactness -/

/-- over the samples up to a limit, the sum integrates every polynomial of degree at most 3 exactly between the first
and the last sample -/
def ExactUpTo (up : ℚ) : Prop :=
  ∀ p : ℚ[X], p.natDegree ≤ 3 → ∃ first ∈ (samples up).head?, ∃ last ∈ (samples up).getLast?, ∃ sum : ℚ,
    weightedSum ((samples up).map fun t => .finite (p.eval t)) = .finite sum ∧
      (sum : ℝ) = integral p first last

theorem samples_ends {up : ℚ} (hup : 0.05 ≤ up) :
    (samples up).head? = some (0.05 : ℚ) ∧
      (samples up).getLast? = some ((0.05 : ℚ) + (intervals up).toNat * 0.2) := by
  have hnonneg : 0 ≤ intervals up := intervalsFrom_nonneg hup
  have hcount : (intervals up + 1).toNat = (intervals up).toNat + 1 := by
    omega
  rw [samples_eq, hcount]
  constructor
  · rw [List.range_succ_eq_map]
    norm_num
  · rw [List.range_succ, List.map_append, List.map_singleton, List.getLast?_append]
    rfl

theorem exactUpTo_iff_exact {up : ℚ} (hup : 0.05 ≤ up) : ExactUpTo up ↔ Exact (intervals up).toNat 0.05 0.2 := by
  obtain ⟨hhead, hlast⟩ := samples_ends hup
  unfold ExactUpTo Exact
  refine forall_congr' fun p => imp_congr_right fun hp => ?_
  rw [hhead, hlast, weightedSum_samples hup]
  constructor
  · intro h
    obtain ⟨first, hfirst, last, hlast, sum, hsum, hintegral⟩ := h
    cases hfirst
    cases hlast
    cases hsum
    exact hintegral
  · intro h
    exact ⟨_, rfl, _, rfl, _, rfl, h⟩

/-- **Exactness.** From 5 on there are intervals, and the sum is exact exactly when their number is even. -/
theorem exactUpTo_iff {up : ℚ} (hup : 5 ≤ up) : ExactUpTo up ↔ Even (intervals up) := by
  have hfirst : (0.05 : ℚ) ≤ up := by
    linarith
  have htwo : (2 : ℚ) ≤ (up - 0.05) / 0.2 := by
    rw [le_div_iff₀ (by norm_num)]
    linarith
  have hpos : 2 ≤ intervals up := Int.le_floor.2 htwo
  have hnat : ((intervals up).toNat : ℤ) = intervals up := Int.toNat_of_nonneg (by omega)
  rw [exactUpTo_iff_exact hfirst, exact_iff_even (by omega) (by norm_num), ← Int.even_coe_nat, hnat]

/-- **The integral.** For every limit that measured throughputs lead to, it is exact for the polynomials of degree at
most 3 exactly when an even number of steps of 0.2 fits between 0.05 and the limit. -/
theorem integral_exact_iff (rates : List ℚ) :
    ExactUpTo (rates.foldl set_up construct).get_up ↔
      Even ⌊((rates.foldl set_up construct).get_up - 0.05) / 0.2⌋ :=
  exactUpTo_iff (five_le_get_up rates)

/-- after a throughput of 5.1 megabits per second there are 25 intervals -/
theorem integral_odd_intervals :
    (set_up construct 5.1).get_up = 5.1 ∧ ¬ ExactUpTo (set_up construct 5.1).get_up := by
  have hup : (set_up construct 5.1).get_up = 5.1 := by decide +kernel
  refine ⟨hup, ?_⟩
  rw [hup, exactUpTo_iff (by norm_num)]
  have hintervals : intervals 5.1 = 25 := by decide +kernel
  rw [hintervals]
  decide

end NdnDash.Adaptation.Game
