/-
When the deviation of `GameAdaptation::Set_t` can be divided by. Samples and results are numbers of double precision, as
in the source, so that equal samples need not be equal to their mean, and small squares vanish.

- `toStatistics_run`: the statistics of the game logic are the moving statistics.
- `lost_iff`: from 1e-100 on, the deviations are lost exactly when every sample is the mean.
- `divisor_iff`: when the quotients of `GetRepresentation` are defined, for all positive samples; from 1e-100 on, when two
  of the last samples differ, or they are the same but not their own mean.
-/
import NdnDash.Adaptation.Game
import NdnDash.Core.Binary64

namespace NdnDash.Adaptation

theorem Game.toStatistics_run (m : Libm) (ts : List ℚ) :
    (ts.foldl (Game.set_t m) Game.construct).toStatistics = ts.foldl (Statistics.set_t m.sqrt) Statistics.construct :=
  (List.foldl_hom Game.toStatistics fun _ _ => rfl).symm

namespace Statistics

open Binary64

variable {sqrt : Float → Float} {s : Statistics Float} {ts w : List Float} {k : ℤ} {m : Float}

/-! ## Sums of numbers that are rounded -/

theorem foldl_atLeast {term : Float → Float} (hmin : -1074 ≤ k) (hterm : ∀ x, Nonnegative (term x)) {sum : Float}
    (hsum : AtLeast k sum) : AtLeast k (w.foldl (fun sum x => sum + term x) sum) := by
  induction w generalizing sum with
  | nil => exact hsum
  | cons x xs ih =>
    rw [List.foldl_cons]
    exact ih (hsum.add_right hmin (hterm x))

/-- one term bounds the sum -/
theorem foldl_atLeast_of_mem {term : Float → Float} (hmin : -1074 ≤ k) (hterm : ∀ x, Nonnegative (term x)) {sum : Float}
    (hsum : Nonnegative sum) (h : ∃ x ∈ w, AtLeast k (term x)) :
    AtLeast k (w.foldl (fun sum x => sum + term x) sum) := by
  induction w generalizing sum with
  | nil =>
    obtain ⟨x, hx, -⟩ := h
    cases hx
  | cons y ys ih =>
    obtain ⟨x, hx, hk⟩ := h
    rw [List.foldl_cons]
    rcases List.mem_cons.1 hx with rfl | hx
    · exact foldl_atLeast hmin hterm (hk.add_left hmin hsum)
    · exact ih (hsum.add (hterm y)) ⟨x, hx, hk⟩

/-- one squared deviation bounds their sum -/
theorem deviations_atLeast (hmin : -1074 ≤ k) (h : ∃ x ∈ w, AtLeast k ((x - m) * (x - m))) : AtLeast k (deviations w m) := by
  have hterm : ∀ x : Float, Nonnegative ((x - m) * (x - m)) := fun x => nonnegative_mul_self (x - m)
  exact foldl_atLeast_of_mem hmin hterm trivial h

theorem total_atLeast (hmin : -1074 ≤ k) (hne : w ≠ []) (h : ∀ x ∈ w, AtLeast k x) : AtLeast k (total w) := by
  cases w with
  | nil => exact absurd rfl hne
  | cons newest older =>
    have hsum : ∀ (xs : List Float) (sum : Float), AtLeast k sum → (∀ x ∈ xs, AtLeast k x) →
        AtLeast k (xs.foldl (· + ·) sum) := by
      intro xs
      induction xs with
      | nil => exact fun _ hsum _ => hsum
      | cons x xs ih =>
        intro sum hsum hxs
        rw [List.foldl_cons]
        refine ih _ (hsum.add_right hmin ?_) fun y hy => hxs y (List.mem_cons_of_mem _ hy)
        exact (hxs x (List.mem_cons_self ..)).nonnegative
    refine hsum older.reverse newest (h newest (List.mem_cons_self ..)) fun x hx => ?_
    exact h x (List.mem_cons_of_mem _ (List.mem_reverse.1 hx))

theorem below_count {n : ℕ} (hpos : 0 < n) (hn : n ≤ 5) : Below 3 (n : Float) := by
  interval_cases n
  · exact ⟨2 ^ 52, -52, by decide, rfl, by decide⟩
  · exact ⟨2 ^ 52, -51, by decide, rfl, by decide⟩
  · exact ⟨3 * 2 ^ 51, -51, by decide, rfl, by decide⟩
  · exact ⟨2 ^ 52, -50, by decide, rfl, by decide⟩
  · exact ⟨5 * 2 ^ 50, -50, by decide, rfl, by decide⟩

/-! ## Lost deviations -/

/-- the squared deviations of some samples from their mean, added up and divided, are zero -/
def Lost (w : List Float) : Prop := deviations w (mean w) / ((w.length - 1 : ℕ) : Float) == 0

/-- a number whose square is not too small to be one -/
structure Ordinary (x : Float) : Prop where
  least : 1e-100 ≤ x
  finite : x.isFinite = true

instance (x : Float) : Decidable (Ordinary x) :=
  decidable_of_iff (1e-100 ≤ x ∧ x.isFinite = true) ⟨fun h => ⟨h.1, h.2⟩, fun h => ⟨h.least, h.finite⟩⟩

theorem Ordinary.atLeast {x : Float} (h : Ordinary x) : AtLeast (-333) x := by
  have hleast : AtLeast (-333) 1e-100 := by decide +kernel
  exact hleast.trans_le (by decide +kernel) h.least

theorem not_lost_of_ne (hcount : 2 ≤ w.length) (hcount' : w.length ≤ 5) (h : ∀ x ∈ w, Ordinary x) {x : Float} (hx : x ∈ w)
    (hne : x ≠ mean w) : ¬ Lost w := by
  have hw : w ≠ [] := List.ne_nil_of_mem hx
  have htotal : AtLeast (-333) (total w) := total_atLeast (by norm_num) hw fun y hy => (h y hy).atLeast
  have hmean : AtLeast (-336) (mean w) := htotal.div (by norm_num) (below_count (by omega) hcount')
  have hx' : AtLeast (-336) x := (h x hx).atLeast.mono (by norm_num)
  have hsquare : AtLeast (-776) ((x - mean w) * (x - mean w)) := hx'.sq_sub (by norm_num) hmean hne
  have hsum := deviations_atLeast (by norm_num) ⟨x, hx, hsquare⟩
  have hquotient : AtLeast (-779) (deviations w (mean w) / ((w.length - 1 : ℕ) : Float)) :=
    hsum.div (by norm_num) (below_count (by omega) (by omega))
  rw [Lost, hquotient.ne_zero]
  exact Bool.false_ne_true

theorem lost_of_eq (hcount : 2 ≤ w.length) (hcount' : w.length ≤ 5) (h : ∀ x ∈ w, Ordinary x) (heq : ∀ x ∈ w, x = mean w) :
    Lost w := by
  have hzero : deviations w (mean w) = 0 := by
    rw [deviations]
    have hturns : ∀ xs : List Float, (∀ x ∈ xs, x ∈ w) →
        xs.foldl (fun sum x => sum + (x - mean w) * (x - mean w)) (0 : Float) = 0 := by
      intro xs
      induction xs with
      | nil => exact fun _ => rfl
      | cons x xs ih =>
        intro hxs
        have hx := hxs x (List.mem_cons_self ..)
        have hterm : (0 : Float) + (x - mean w) * (x - mean w) = 0 := by
          rw [← heq x hx, sub_self (h x hx).finite]
          decide +kernel
        rw [List.foldl_cons, hterm]
        exact ih fun y hy => hxs y (List.mem_cons_of_mem _ hy)
    exact hturns w fun x hx => hx
  have hdivided : ∀ n : ℕ, n < 5 → n ≠ 0 → ((0 : Float) / (n : Float) == 0) = true := by decide +kernel
  rw [Lost, hzero]
  exact hdivided _ (by omega) (by omega)

/-- **Lost deviations.** They are lost exactly when every sample is the mean. -/
theorem lost_iff (hcount : 2 ≤ w.length) (hcount' : w.length ≤ 5) (h : ∀ x ∈ w, Ordinary x) :
    Lost w ↔ ∀ x ∈ w, x = mean w := by
  constructor
  · intro hlost x hx
    by_contra hne
    exact not_lost_of_ne hcount hcount' h hx hne hlost
  · exact lost_of_eq hcount hcount' h

/-- some samples are their mean when they are one number, and this number is the mean of so many of it -/
theorem eq_mean_iff (w : List Float) :
    (∀ x ∈ w, x = mean w) ↔
      (∀ x ∈ w, ∀ y ∈ w, x = y) ∧ ∀ x ∈ w, mean (List.replicate w.length x) = x := by
  constructor
  · intro h
    have hall : ∀ x ∈ w, ∀ y ∈ w, x = y := fun x hx y hy => (h x hx).trans (h y hy).symm
    refine ⟨hall, fun x hx => ?_⟩
    rw [← List.eq_replicate_of_mem fun y hy => hall y hy x hx]
    exact (h x hx).symm
  · rintro ⟨hall, hmean⟩ x hx
    have hw' := List.eq_replicate_of_mem fun y hy => hall y hy x hx
    rw [hw', hmean x hx]

/-! ## The deviation as a divisor -/

/-- the quotient of two numbers, which is not defined for a divisor of zero -/
def quotient (x y : Float) : Option Float := if y == 0 then none else some (x / y)

/-- what `GetRepresentation` divides by the deviation -/
structure Divides (s : Statistics Float) (up : Float) : Prop where
  divisor : (s.var_t == 0) = false
  x2 : (quotient (up - s.averg_t) s.var_t).isSome
  x1 : (quotient (0 - s.averg_t) s.var_t).isSome

theorem divides_iff (up : Float) : Divides s up ↔ (s.var_t == 0) = false := by
  constructor
  · intro h
    exact h.divisor
  · intro h
    refine ⟨h, ?_, ?_⟩ <;>
      · rw [quotient, h]
        rfl

/-- the deviation after some positive samples -/
theorem var_t_eq_zero_iff (hsqrt : ∀ x, sqrt x == 0 ↔ x == 0) (h : Holds sqrt s ts) :
    s.var_t == 0 ↔ 2 ≤ ts.length ∧ Lost (recent ts) := by
  by_cases hk : 2 ≤ ts.length
  · rw [h.var_t hk, hsqrt, and_iff_right hk, Lost]
  · rw [h.var_t_initial (not_le.1 hk)]
    exact iff_of_false (by decide +kernel) fun hlost => hk hlost.1

/-- **The divisor.** For all positive samples and every upper limit, the quotients by the deviation are defined exactly
when there is one sample at most, or the squared deviations of the last ones, at most five, are not lost. Where these
samples are at least 1e-100, they are lost when all are one number and the mean of so many of it is that number. -/
theorem divisor_iff (hsqrt : ∀ x, sqrt x == 0 ↔ x == 0) (hpos : ∀ t ∈ ts, 0 < t) (up : Float) :
    let s := ts.foldl (set_t sqrt) construct
    (Divides s up ↔ ts.length < 2 ∨ ¬ Lost (recent ts)) ∧
      ((∀ x ∈ recent ts, Ordinary x) →
        (Divides s up ↔ ts.length < 2 ∨ (∃ x ∈ recent ts, ∃ y ∈ recent ts, x ≠ y) ∨
          ∃ x ∈ recent ts, mean (List.replicate (recent ts).length x) ≠ x)) := by
  have hdivides : Divides (ts.foldl (set_t sqrt) construct) up ↔ ts.length < 2 ∨ ¬ Lost (recent ts) := by
    have hrun := var_t_eq_zero_iff hsqrt (holds_run sqrt (by decide +kernel) hpos)
    rw [divides_iff, Bool.eq_false_iff, ne_eq, hrun, not_and_or, not_le]
  refine ⟨hdivides, fun hordinary => ?_⟩
  rw [hdivides]
  by_cases hk : ts.length < 2
  · exact iff_of_true (Or.inl hk) (Or.inl hk)
  have hlength := length_recent ts
  rw [or_iff_right hk, or_iff_right hk, lost_iff (by omega) (by omega) hordinary, eq_mean_iff, not_and_or]
  simp only [not_forall, exists_prop, ne_eq]

theorem divisor_four_samples : Divides ([1, 1, 1, 3].foldl (set_t Float.sqrt) construct) 5 := by
  have hpos : ∀ t ∈ [(1 : Float), 1, 1, 3], 0 < t := by decide +kernel
  have hordinary : ∀ x ∈ recent [(1 : Float), 1, 1, 3], Ordinary x := by decide +kernel
  have hlast : recent [(1 : Float), 1, 1, 3] = [3, 1, 1, 1] := rfl
  have hdiffer : ∃ x ∈ recent [(1 : Float), 1, 1, 3], ∃ y ∈ recent [(1 : Float), 1, 1, 3], x ≠ y := by
    rw [hlast]
    exact ⟨3, by simp, 1, by simp, by decide +kernel⟩
  exact ((divisor_iff sqrt_eq_zero_iff hpos 5).2 hordinary).2 (Or.inr (Or.inl hdiffer))

/-- after two equal samples the deviation is 0 -/
theorem divisor_vanishes :
    ([1, 1].foldl (set_t Float.sqrt) construct).var_t = 0 ∧ ¬ Divides ([1, 1].foldl (set_t Float.sqrt) construct) 5 := by
  have hvar : ([1, 1].foldl (set_t Float.sqrt) construct).var_t = 0 := by decide +kernel
  refine ⟨hvar, ?_⟩
  rw [divides_iff, hvar]
  decide +kernel

/-- three equal samples that are not their mean -/
example : ([0.1, 0.1, 0.1].foldl (set_t Float.sqrt) construct).var_t ≠ 0 := by decide +kernel

/-- two samples that differ, and are too small -/
example : ([1e-200, 3e-200].foldl (set_t Float.sqrt) construct).var_t = 0 := by decide +kernel

end Statistics

end NdnDash.Adaptation
