/-
Model of `GameAdaptation` (`GameAdaptation.cpp`): the throughput is taken to be normally distributed, and the choice is
the representation with the greatest expected utility up to the largest throughput seen.

The prediction and the statistics are exact rationals. From the first quotient by the deviation on, values are
`Double`s, since it can be infinite or not a number; the conversion to `int` in `myexp` is undefined for those and
counts as not a number.

- `get_up_set_up`, `five_le_get_up`: the upper limit of the integral is the greatest value seen, at least 5.
- `getRepresentation_eq`: for a valid last index and a measured segment the choice returns, with a valid index.
-/
import NdnDash.Adaptation.Logic
import NdnDash.Adaptation.MovingStatistics
import NdnDash.Core.Double
import NdnDash.Core.Search

namespace NdnDash.Adaptation

open NdnDash.Search NdnDash.Player

/-! ## Model -/

structure Game extends Logic, Statistics ℚ where
  buffersize : UInt32
  last_index : ℤ
  max_band : ℚ
deriving DecidableEq

namespace Game

/-- the constructor; `BUFFER_SIZE` is 30 -/
def construct : Game :=
  { Logic.construct, (Statistics.construct : Statistics ℚ) with
    buffersize := 30
    last_index := 0
    max_band := 5 }

def set_up (l : Game) (max : ℚ) : Game := if max > l.max_band then { l with max_band := max } else l

def get_up (l : Game) : ℚ := l.max_band

/-- `Set_t`, which is the one of the statistics -/
def set_t (m : Libm) (l : Game) (t : ℚ) : Game := { l with toStatistics := l.toStatistics.set_t m.sqrt t }

/-! ### The expected utility -/

/-- `(int)x`, which truncates -/
def truncate (x : ℚ) : ℤ := x.num.tdiv x.den

/-- the nine terms of the series -/
def series (sub : ℚ) : ℚ :=
  ((List.range' 1 9).foldl (fun (s : ℚ × ℚ × ℚ) i =>
    let (m, z, sum) := s
    (m * i, z * sub, sum + z * sub / (m * i))) (1, 1, 1)).2.2

def myexp (x : Double) : Double :=
  match x with
  | .finite x =>
    let xm := truncate x
    -- neither the conversion nor the change of sign overflows
    if |xm| < 2 ^ 31 then
      let e : ℚ := if xm < 0 then 1 / 2.718281 ^ xm.natAbs else 2.718281 ^ xm.natAbs
      .finite (series (x - xm) * e)
    else .nan
  | _ => .nan

def erf (x : Double) : Double :=
  let sign : Double := if x < 0 then .finite (-1) else 1
  let x := x.abs
  let t := 1.0 / (1.0 + 0.3275911 * x)
  let y := 1.0 - (((((1.061405429 * t + .finite (-1.453152027)) * t) + 1.421413741) * t + .finite (-0.284496736)) * t +
    0.254829592) * t * myexp (-x * x)
  sign * y

/-- the arguments of `calculate_u_1` that it uses -/
structure Arguments where
  currentrate : ℚ
  up : ℚ
  last_download_rate : ℚ
  averg : Double
  var : Double
  lambda : ℚ
  bufferlevel : ℚ

def sqrt (m : Libm) : Double → Double
  | .finite x => if x < 0 then .nan else .finite (m.sqrt x)
  | .inf false => .inf false
  | _ => .nan

/-- the quotient by what the distribution has between 0 and `up` -/
def adjust (m : Libm) (a : Arguments) : Double :=
  let x2 := (a.up - a.averg) / a.var
  let x1 := (0 - a.averg) / a.var
  1 / (0.5 * a.var * (erf (x2 / sqrt m 2) - erf (x1 / sqrt m 2)))

/-- the body of the loop over the samples -/
def integrand (m : Libm) (a : Arguments) (t : ℚ) : Double :=
  let tmp_t := (t - a.averg) / a.var
  let stalling := if a.currentrate * 2 / t - a.bufferlevel < 0 then 0 else a.currentrate * 2 / t - a.bufferlevel
  let qoe := m.pow a.currentrate 0.6 - 0.05 * |a.currentrate - a.last_download_rate| - 0.5 * stalling
  adjust m a * 0.39895 * myexp (.finite (-0.5) * tmp_t * tmp_t) * qoe /
    (1 + myexp (.finite (a.currentrate - a.lambda * t)))

/-- the loop `for(double t = 0.05; t <= up; t += step)`, with a bound on its turns -/
def samplesFrom (up : ℚ) : ℕ → ℚ → List ℚ
  | 0, _ => []
  | turns + 1, t => if t ≤ up then t :: samplesFrom up turns (t + 0.2) else []

/-- the samples; no more than five in a unit -/
def samples (up : ℚ) : List ℚ := samplesFrom up (⌊5 * up⌋.toNat + 1) 0.05

/-- the weighted sum; the samples begin below 5, so `f` is not empty and every index below is one of its own -/
def weightedSum (f : List Double) : Double :=
  let n := f.length - 1
  let sum := (List.range' 1 (n - 1)).foldl (fun sum i =>
    if i % 2 = 0 then sum + 2 * f[i]?.getD .nan else sum + 4 * f[i]?.getD .nan) (f[0]?.getD .nan + f[n]?.getD .nan)
  sum * 0.2 / 3

def calculate_u_1 (m : Libm) (a : Arguments) : Double := weightedSum ((samples a.up).map (integrand m a))

/-! ### The choice -/

/-- mean and deviation of the distribution between 0 and `up` -/
def truncated (m : Libm) (up averg_t var_t : ℚ) : Double × Double :=
  let x2 : Double := .finite (up - averg_t) / .finite var_t
  let x1 : Double := .finite (0 - averg_t) / .finite var_t
  let t1 := 0.39894 * myexp (.finite (-0.5) * (x1 * x1))
  let t2 := 0.39894 * myexp (.finite (-0.5) * (x2 * x2))
  let t3 := 0.5 * (erf x2 - erf x1)
  let averg := averg_t + var_t * (t1 - t2) / t3
  let t4 := (x1 * t1 - x2 * t2) / t3
  let var := var_t * var_t * (1 + t4 - (t1 - t2) / t3 * ((t1 - t2) / t3))
  (averg, sqrt m var)

/-- the loop over the representations; -1 when no utility is above -10000 -/
def chosenIndex (utility : UInt32 → Double) (bandwidths : List UInt32) : ℤ :=
  -- the representations count from 1, so that 0 is the initial index
  (search (fun bandwidth u_1 => u_1 < utility bandwidth) utility bandwidths 1 (0, .finite (-10000))).1 - 1

/-- the utility of a representation, after the updates of the statistics -/
def utility (m : Libm) (l : Game) (up : ℚ) (last bandwidth : UInt32) : Double :=
  let averg_var := truncated m up l.averg_t l.var_t
  calculate_u_1 m
    { currentrate := bandwidth.toNat / 1000000
      up := up
      last_download_rate := last.toNat / 1000000
      averg := averg_var.1
      var := averg_var.2
      lambda := if l.currentSegmentBufferfillPercent < 33 then 0.8 else 1
      bufferlevel := (l.currentSegmentBufferfillPercent * l.buffersize).toNat / 100 }

/-- the updates of the prediction, the limit and the statistics -/
def measure (m : Libm) (l : Game) (newest : ThroughputTrace) (predictBandwidth : ℚ) : Game :=
  let l := { l with toLogic := l.toLogic.predict }
  (l.set_up (newest.bitRate.toNat / 1000000)).set_t m (predictBandwidth / 1000000)

/-- `GetRepresentation`; `none` is the exception of `at`. The limit is read before its update, and the prediction is
absent only when nothing was measured. -/
def getRepresentation (m : Libm) (bandwidths : List UInt32) (l : Game) : Option (ℕ × Game) :=
  let up := l.get_up
  l.throughputTrace.getLast?.bind fun newest =>
    l.toLogic.predict.predictBandwidth.bind fun predictBandwidth =>
      (at? bandwidths l.last_index).bind fun last =>
        let l := l.measure m newest predictBandwidth
        let chosen := chosenIndex (utility m l up last) bandwidths
        let index := if chosen = -1 then if l.currentSegmentBufferfillPercent < 5 then 0 else l.last_index else chosen
        (at? bandwidths index).map fun _ => (index.toNat, { l with last_index := index })

/-! ## The upper limit -/

@[simp] theorem set_up_toLogic (l : Game) (max : ℚ) : (l.set_up max).toLogic = l.toLogic := by
  unfold set_up
  split_ifs <;> rfl

@[simp] theorem set_up_last_index (l : Game) (max : ℚ) : (l.set_up max).last_index = l.last_index := by
  unfold set_up
  split_ifs <;> rfl

/-- one measured throughput: the limit never decreases -/
theorem get_up_set_up (l : Game) (rate : ℚ) : (l.set_up rate).get_up = max l.get_up rate := by
  unfold set_up get_up
  split_ifs with h
  · exact (max_eq_right h.le).symm
  · exact (max_eq_left (not_lt.1 h)).symm

/-- **The upper limit.** Whatever was measured, it is at least 5. -/
theorem five_le_get_up (rates : List ℚ) : 5 ≤ (rates.foldl set_up construct).get_up := by
  induction rates using List.reverseRecOn with
  | nil => exact le_refl (5 : ℚ)
  | append_singleton rates rate ih =>
    rw [List.foldl_append, List.foldl_cons, List.foldl_nil, get_up_set_up]
    exact ih.trans (le_max_left _ _)

/-! ## The choice -/

section Choice

variable {bandwidths : List UInt32} {l : Game} {last : UInt32}

@[simp] theorem measure_last_index (m : Libm) (l : Game) (newest : ThroughputTrace) (p : ℚ) :
    (l.measure m newest p).last_index = l.last_index :=
  set_up_last_index _ _

@[simp] theorem measure_toLogic (m : Libm) (l : Game) (newest : ThroughputTrace) (p : ℚ) :
    (l.measure m newest p).toLogic = l.toLogic.predict :=
  set_up_toLogic _ _

/-- the loop ends at a representation or at -1 -/
theorem chosenIndex_lt (utility : UInt32 → Double) (bandwidths : List UInt32) :
    chosenIndex utility bandwidths = -1 ∨ ∃ i < bandwidths.length, chosenIndex utility bandwidths = i := by
  have hindex := search_index (fun bandwidth u_1 => u_1 < utility bandwidth) utility bandwidths 1 (0, .finite (-10000))
  unfold chosenIndex
  rcases hindex with h | ⟨i, hi, h⟩
  · rw [h]
    exact Or.inl rfl
  · refine Or.inr ⟨i, hi, ?_⟩
    rw [h]
    omega

/-- the fall-back for -1 is the first representation or the last one -/
theorem fallback_lt (hne : bandwidths ≠ []) (hlast : at? bandwidths l.last_index = some last) {chosen : ℤ}
    (hchosen : chosen = -1 ∨ ∃ i < bandwidths.length, chosen = i) (percent : UInt32) :
    ∃ i < bandwidths.length,
      (if chosen = -1 then if percent < 5 then 0 else l.last_index else chosen) = (i : ℤ) := by
  obtain ⟨i, hi, hlast'⟩ := exists_of_at? hlast
  rcases hchosen with h | ⟨j, hj, h⟩
  · rw [if_pos h]
    split_ifs
    · exact ⟨0, List.length_pos_iff.2 hne, rfl⟩
    · exact ⟨i, hi, hlast'⟩
  · rw [if_neg (by omega)]
    exact ⟨j, hj, h⟩

/-- **One call.** From a valid last index and with a prediction, it returns, with the index of a representation. -/
theorem getRepresentation_eq (m : Libm) (hne : bandwidths ≠ []) (hlast : at? bandwidths l.last_index = some last)
    {newest : ThroughputTrace} {p : ℚ} (hnewest : l.throughputTrace.getLast? = some newest)
    (hp : Logic.predictOf l.throughputTrace = some p) :
    ∃ index < bandwidths.length,
      getRepresentation m bandwidths l = some (index, { l.measure m newest p with last_index := index }) := by
  have hpredict : l.toLogic.predict.predictBandwidth = some p := hp
  set measured := l.measure m newest p with hmeasured
  have hlast' : at? bandwidths measured.last_index = some last := by
    rw [hmeasured, measure_last_index]
    exact hlast
  obtain ⟨i, hi, hindex⟩ := fallback_lt hne hlast'
    (chosenIndex_lt (utility m measured l.get_up last) bandwidths) measured.currentSegmentBufferfillPercent
  refine ⟨i, hi, ?_⟩
  simp only [getRepresentation, hnewest, hpredict, Option.bind_some, hlast, ← hmeasured, hindex, at?_of_lt hi,
    Option.map_some, Int.toNat_natCast]

end Choice

end Game

end NdnDash.Adaptation
