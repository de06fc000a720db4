/-
The moving statistics of `GameAdaptation::Set_t`, over whatever numbers: the additions are made in the order of the
source, so that the model is also that of numbers that are rounded. The square root is given from outside.

- `shift_loop`, `set_t_spec`: one sample. It becomes the newest value, and mean and deviation are those of the positive
  values.
- `holds_run`: after any positive samples these are the last ones, at most five.
- `moving_statistics`: in exact arithmetic, the window, the mean and the squared deviation after two or more samples.
-/
import NdnDash.Core.Mean
import Mathlib.Analysis.Real.Sqrt
import Mathlib.Data.List.DropRight

namespace NdnDash.Adaptation

/-- the members that `Set_t` reads and writes -/
structure Statistics (K : Type) where
  m_t : Fin 5 → K
  averg_t : K
  var_t : K
deriving DecidableEq

namespace Statistics

section Model

variable {K : Type} [OfNat K 0] [Add K] [Sub K] [Mul K] [Div K] [NatCast K] [OfScientific K] [LT K] [DecidableLT K]

/-- the constructor, with the initial value of `m_t` -/
def construct : Statistics K where
  m_t := fun _ => 0
  averg_t := (2 : ℕ)
  var_t := 0.75

/-- the variables of the first loop of `Set_t` -/
structure Shift (K : Type) where
  m_t : Fin 5 → K
  sum : K
  count : ℕ

/-- its body: the value moves up by one place, and is counted if it is positive -/
def shift (s : Shift K) (i : Fin 4) : Shift K :=
  let m_t := Function.update s.m_t i.succ (s.m_t i.castSucc)
  if m_t i.castSucc > 0 then { m_t := m_t, sum := s.sum + m_t i.castSucc, count := s.count + 1 }
  else { s with m_t := m_t }

/-- the second loop of `Set_t` -/
def sum_of_var (m_t : Fin 5 → K) (averg_t : K) : K :=
  (List.finRange 5).foldl (fun sum_of_var i =>
    if m_t i > 0 then sum_of_var + (m_t i - averg_t) * (m_t i - averg_t) else sum_of_var) 0

def set_t (sqrt : K → K) (s : Statistics K) (t : K) : Statistics K :=
  let loop := (List.finRange 4).reverse.foldl shift { m_t := s.m_t, sum := t, count := 1 }
  let m_t := Function.update loop.m_t ⟨0, Nat.succ_pos 4⟩ t
  let averg_t := if loop.count > 1 then loop.sum / loop.count else s.averg_t
  { m_t := m_t
    averg_t := averg_t
    var_t := if loop.count > 1 then sqrt (sum_of_var m_t averg_t / (loop.count - 1 : ℕ)) else s.var_t }

/-! ## One sample -/

/-- the values that count -/
def positives (xs : List K) : List K := xs.filter (0 < ·)

omit [Add K] [Sub K] [Mul K] [Div K] [NatCast K] [OfScientific K] in
theorem positives_append (xs ys : List K) : positives (xs ++ ys) = positives xs ++ positives ys := List.filter_append ..

/-- the sum, beginning with the newest number and then from the oldest on -/
def total : List K → K
  | [] => 0
  | newest :: older => older.reverse.foldl (· + ·) newest

def mean (xs : List K) : K := total xs / xs.length

/-- the squared deviations added up -/
def deviations (xs : List K) (m : K) : K := xs.foldl (fun sum x => sum + (x - m) * (x - m)) 0

omit [Sub K] [Mul K] [Div K] [NatCast K] [OfScientific K] in
theorem shift_eq (s : Shift K) (i : Fin 4) : shift s i =
    { m_t := Function.update s.m_t i.succ (s.m_t i.castSucc)
      sum := (positives [s.m_t i.castSucc]).foldl (· + ·) s.sum
      count := s.count + (positives [s.m_t i.castSucc]).length } := by
  have hread : Function.update s.m_t i.succ (s.m_t i.castSucc) i.castSucc = s.m_t i.castSucc :=
    Function.update_of_ne i.castSucc_lt_succ.ne _ _
  rw [shift, positives, List.filter_singleton]
  simp only [hread]
  split_ifs with h
  · simp [h]
  · simp [h]

omit [Sub K] [Mul K] [Div K] [NatCast K] [OfScientific K] in
/-- the loop: every value has moved up, and the positive ones among them are counted, from the oldest on -/
theorem shift_loop (m_t : Fin 5 → K) (sum : K) (count : ℕ) :
    (List.finRange 4).reverse.foldl shift { m_t := m_t, sum := sum, count := count } =
      { m_t := Fin.cons (m_t 0) (Fin.init m_t)
        sum := (positives (List.ofFn (Fin.init m_t))).reverse.foldl (· + ·) sum
        count := count + (positives (List.ofFn (Fin.init m_t))).length } := by
  have hturns : (List.finRange 4).reverse = [3, 2, 1, 0] := rfl
  have hvalues : List.ofFn (Fin.init m_t) = [m_t 0] ++ ([m_t 1] ++ ([m_t 2] ++ [m_t 3])) := rfl
  have hone : ∀ x : K, (positives [x]).reverse = positives [x] := by
    intro x
    rw [positives, List.filter_singleton]
    cases decide (0 < x) <;> rfl
  rw [hturns, hvalues]
  simp only [List.foldl_cons, List.foldl_nil, shift_eq, positives_append, List.reverse_append, List.foldl_append,
    List.length_append, hone]
  congr 1
  · funext k
    fin_cases k <;> rfl
  · simp
    ring

omit [OfScientific K] [Div K] [NatCast K] in
/-- the second loop: the squared deviations of the positive values -/
theorem sum_of_var_eq (m_t : Fin 5 → K) (averg_t : K) :
    sum_of_var m_t averg_t = deviations (positives (List.ofFn m_t)) averg_t := by
  have hcount : ∀ (sum x : K), (if decide (0 < x) = true then sum + (x - averg_t) * (x - averg_t) else sum) =
      if x > 0 then sum + (x - averg_t) * (x - averg_t) else sum := by
    intro sum x
    simp only [decide_eq_true_eq, gt_iff_lt]
  rw [deviations, positives, List.foldl_filter, List.ofFn_eq_map, List.foldl_map]
  simp only [hcount]
  rfl

/-- the values after one sample -/
def shifted (m_t : Fin 5 → K) (t : K) : Fin 5 → K := Fin.cons t (Fin.init m_t)

omit [OfNat K 0] [Add K] [Sub K] [Mul K] [Div K] [NatCast K] [OfScientific K] [LT K] [DecidableLT K] in
theorem ofFn_shifted (m_t : Fin 5 → K) (t : K) : List.ofFn (shifted m_t t) = t :: List.ofFn (Fin.init m_t) := by
  rw [List.ofFn_succ]
  rfl

omit [OfScientific K] in
/-- **One sample.** Mean and deviation are those of the positive values, from two of them on. -/
theorem set_t_spec (sqrt : K → K) (s : Statistics K) {t : K} (ht : 0 < t) :
    let values := positives (List.ofFn (shifted s.m_t t))
    let averg_t := if values.length > 1 then mean values else s.averg_t
    s.set_t sqrt t =
      { m_t := shifted s.m_t t
        averg_t := averg_t
        var_t := if values.length > 1 then sqrt (deviations values averg_t / (values.length - 1 : ℕ)) else s.var_t } := by
  have hvalues : positives (List.ofFn (shifted s.m_t t)) = t :: positives (List.ofFn (Fin.init s.m_t)) := by
    rw [ofFn_shifted, positives, List.filter_cons_of_pos (by simpa using ht), positives]
  have hcount : 1 + (positives (List.ofFn (Fin.init s.m_t))).length =
      (positives (List.ofFn (shifted s.m_t t))).length := by
    rw [hvalues, List.length_cons, add_comm]
  have hsum : (positives (List.ofFn (Fin.init s.m_t))).reverse.foldl (· + ·) t =
      total (positives (List.ofFn (shifted s.m_t t))) := by
    rw [hvalues, total]
  have hnewest : Function.update (Fin.cons (s.m_t 0) (Fin.init s.m_t) : Fin 5 → K) ⟨0, Nat.succ_pos 4⟩ t =
      shifted s.m_t t := Fin.update_cons_zero _ _ _
  simp only [set_t, shift_loop, hnewest, hsum, hcount, sum_of_var_eq, mean]

/-! ## All samples -/

variable {sqrt : K → K} {s : Statistics K} {ts : List K}

/-- the last samples, at most five, the newest first -/
def recent (ts : List K) : List K := ts.reverse.take 5

omit [OfNat K 0] [Add K] [Sub K] [Mul K] [Div K] [NatCast K] [OfScientific K] [LT K] [DecidableLT K] in
theorem length_recent (ts : List K) : (recent ts).length = min 5 ts.length := by
  rw [recent, List.length_take, List.length_reverse]

/-- the state after some samples -/
structure Holds (sqrt : K → K) (s : Statistics K) (ts : List K) : Prop where
  window : List.ofFn s.m_t = (ts.reverse ++ List.replicate 5 0).take 5
  averg_t : 2 ≤ ts.length → s.averg_t = mean (recent ts)
  var_t : 2 ≤ ts.length → s.var_t = sqrt (deviations (recent ts) (mean (recent ts)) / ((recent ts).length - 1 : ℕ))
  var_t_initial : ts.length < 2 → s.var_t = 0.75

omit [LT K] [DecidableLT K] in
theorem holds_construct (sqrt : K → K) : Holds sqrt construct [] where
  window := by simp [construct]
  averg_t := fun h => absurd h (by simp)
  var_t := fun h => absurd h (by simp)
  var_t_initial := fun _ => rfl

omit [Add K] [Sub K] [Mul K] [Div K] [NatCast K] [OfScientific K] in
/-- the zeros that the window begins with do not count -/
theorem positives_window (hzero : ¬ (0 : K) < 0) (hpos : ∀ t ∈ ts, 0 < t) :
    positives ((ts.reverse ++ List.replicate 5 0).take 5) = recent ts := by
  have hsamples : positives (ts.reverse.take 5) = ts.reverse.take 5 := by
    refine List.filter_eq_self.2 fun t ht => ?_
    exact decide_eq_true (hpos t (List.mem_reverse.1 (List.mem_of_mem_take ht)))
  have hzeros : positives ((List.replicate 5 (0 : K)).take (5 - ts.reverse.length)) = [] := by
    refine List.filter_eq_nil_iff.2 fun t ht => ?_
    rw [List.eq_of_mem_replicate (List.mem_of_mem_take ht)]
    simpa using hzero
  rw [List.take_append, positives_append, hsamples, hzeros, List.append_nil, recent]

/-- one more sample -/
theorem Holds.set_t {t : K} (hzero : ¬ (0 : K) < 0) (h : Holds sqrt s ts) (hpos : ∀ x ∈ ts, 0 < x) (ht : 0 < t) :
    Holds sqrt (s.set_t sqrt t) (ts ++ [t]) := by
  have hpos' : ∀ x ∈ ts ++ [t], 0 < x := by
    intro x hx
    rcases List.mem_append.1 hx with hx | hx
    · exact hpos x hx
    · rw [List.mem_singleton.1 hx]
      exact ht
  have hwindow : List.ofFn (shifted s.m_t t) = ((ts ++ [t]).reverse ++ List.replicate 5 0).take 5 := by
    have hinit : List.ofFn (Fin.init s.m_t) = (List.ofFn s.m_t).take 4 := rfl
    rw [ofFn_shifted, hinit, h.window, List.take_take, List.reverse_append]
    rfl
  have hvalues : positives (List.ofFn (shifted s.m_t t)) = recent (ts ++ [t]) := by
    rw [hwindow, positives_window hzero hpos']
  have hlength := length_recent (ts ++ [t])
  have hspec := set_t_spec sqrt s ht
  simp only [hvalues] at hspec
  rw [hspec]
  refine ⟨hwindow, ?_, ?_, ?_⟩
  · intro hk
    exact if_pos (by omega)
  · intro hk
    have hcount : (recent (ts ++ [t])).length > 1 := by omega
    simp only [if_pos hcount]
  · intro hk
    have hcount : ¬ (recent (ts ++ [t])).length > 1 := by omega
    have hnil : ts.length < 2 := by
      rw [List.length_append] at hk
      omega
    simp only [if_neg hcount]
    exact h.var_t_initial hnil

/-- **All samples.** The window holds the last ones, and mean and deviation are theirs from the second on. -/
theorem holds_run (sqrt : K → K) (hzero : ¬ (0 : K) < 0) (hpos : ∀ t ∈ ts, 0 < t) :
    Holds sqrt (ts.foldl (set_t sqrt) construct) ts := by
  induction ts using List.reverseRecOn with
  | nil => exact holds_construct sqrt
  | append_singleton ts t ih =>
    have hpos' : ∀ x ∈ ts, 0 < x := fun x hx => hpos x (List.mem_append_left _ hx)
    rw [List.foldl_append, List.foldl_cons, List.foldl_nil]
    exact (ih hpos').set_t hzero hpos' (hpos t (by simp))

end Model

/-! ## Exact arithmetic -/

section Exact

variable {K : Type} [Field K] [LinearOrder K] {sqrt : K → K} {ts : List K}

omit [LinearOrder K] in
/-- the order of the additions does not matter -/
theorem total_eq (xs : List K) : total xs = xs.sum := by
  cases xs with
  | nil => rfl
  | cons newest older =>
    have hsum : ∀ (ys : List K) (y : K), ys.foldl (· + ·) y = y + ys.sum := by
      intro ys y
      induction ys generalizing y with
      | nil => simp
      | cons z zs ih => rw [List.foldl_cons, ih, List.sum_cons, add_assoc]
    rw [total, hsum, List.sum_reverse, List.sum_cons]

omit [LinearOrder K] in
theorem deviations_eq (xs : List K) (m : K) : deviations xs m = Mean.squares xs m := by
  rw [deviations, Mean.squares, List.sum_eq_foldl, List.foldl_map]

/-- **The statistics of the last samples.** For an exact root and two or more positive samples: the window holds the last
five, the newest first, with zeros where there are fewer; the mean is theirs, and the squared deviation, times one less
than their number, is the sum of their squared deviations from the mean. -/
theorem moving_statistics [IsStrictOrderedRing K] (hsqrt : ∀ x, 0 ≤ x → sqrt x * sqrt x = x) (hpos : ∀ t ∈ ts, 0 < t)
    (hk : 2 ≤ ts.length) :
    let s := ts.foldl (set_t sqrt) construct
    let count := min ts.length 5
    List.ofFn s.m_t = (ts.reverse ++ List.replicate 5 0).take 5 ∧
    s.averg_t = (ts.rtake 5).sum / count ∧
    ((count : K) - 1) * s.var_t ^ 2 = ((ts.rtake 5).map fun t => (t - s.averg_t) ^ 2).sum := by
  have hrun := holds_run sqrt (lt_irrefl 0) hpos
  generalize ts.foldl (set_t sqrt) construct = s at hrun ⊢
  have hlength : (recent ts).length = min ts.length 5 := (length_recent ts).trans (min_comm ..)
  have hperm : (recent ts).Perm (ts.rtake 5) := by
    rw [List.rtake_eq_reverse_take_reverse]
    exact (List.reverse_perm _).symm
  have haverage := hrun.averg_t hk
  have hdeviation := hrun.var_t hk
  rw [← haverage, deviations_eq, hlength] at hdeviation
  rw [mean, total_eq, hlength] at haverage
  refine ⟨hrun.window, haverage.trans (by rw [hperm.sum_eq]), ?_⟩
  have hcount : (((min ts.length 5 - 1 : ℕ) : K)) = (min ts.length 5 : ℕ) - 1 := Nat.cast_pred (by omega)
  have hne : ((min ts.length 5 - 1 : ℕ) : K) ≠ 0 := Nat.cast_ne_zero.2 (by omega)
  have hnonneg := div_nonneg (Mean.squares_nonneg (recent ts) s.averg_t)
    (Nat.cast_nonneg (α := K) (min ts.length 5 - 1))
  calc ((min ts.length 5 : ℕ) - 1 : K) * s.var_t ^ 2
      = (min ts.length 5 - 1 : ℕ) * (Mean.squares (recent ts) s.averg_t / (min ts.length 5 - 1 : ℕ)) := by
        rw [hdeviation, pow_two, hsqrt _ hnonneg, hcount]
    _ = Mean.squares (recent ts) s.averg_t := mul_div_cancel₀ _ hne
    _ = ((ts.rtake 5).map fun t => (t - s.averg_t) ^ 2).sum := by
        simp only [Mean.squares, pow_two]
        exact (hperm.map _).sum_eq

/-- two real samples -/
theorem moving_statistics_two :
    let s := [1, 3].foldl (set_t Real.sqrt) construct
    List.ofFn s.m_t = [3, 1, 0, 0, 0] ∧ s.averg_t = 2 ∧ s.var_t ^ 2 = 2 := by
  have hsqrt : ∀ x : ℝ, 0 ≤ x → Real.sqrt x * Real.sqrt x = x := fun x hx => Real.mul_self_sqrt hx
  have hpos : ∀ t ∈ [(1 : ℝ), 3], 0 < t := by simp
  obtain ⟨hwindow, haverage, hdeviation⟩ := moving_statistics hsqrt hpos (by decide)
  have hlast : [(1 : ℝ), 3].rtake 5 = [1, 3] := by simp [List.rtake]
  have hmean : ([1, 3].foldl (set_t Real.sqrt) construct).averg_t = 2 := by
    rw [haverage, hlast]
    norm_num
  rw [hmean, hlast] at hdeviation
  refine ⟨by simpa using hwindow, hmean, ?_⟩
  norm_num at hdeviation
  exact hdeviation

end Exact

end Statistics

end NdnDash.Adaptation
