/-
Model of `QoeFairAdaptation` (`QoeFairAdaptation.cpp`): the representation with the greatest utility, which a download
that would stall lowers.

Rates are in megabits per second, but the prediction is handed on in bits per second. An absent value is one that is
infinite or not a number; no comparison `utility > currentutility` with it holds, since the infinite ones are negative.

- `getRepresentation_eq`: for a valid last index the choice returns, with a valid index.
- `stallingtime_eq`: the stalling time that is used is that of a download a million times as short.
- `stalling_iff`: for every bandwidth, prediction and buffer level, the stalling time is right exactly when there is none.
-/
import NdnDash.Adaptation.Logic
import NdnDash.Core.Search

namespace NdnDash.Adaptation

open NdnDash.Search

/-! ## Model -/

structure QoeFair extends Logic where
  buffersize : UInt32
  last_index : ℤ
deriving DecidableEq

namespace QoeFair

/-- the constructor; `BUFFER_SIZE` is 30 -/
def construct : QoeFair := { Logic.construct with buffersize := 30, last_index := 0 }

/-- the arguments of `calculateytility` -/
structure Arguments where
  currentrate : ℚ
  last_download_speed : ℚ
  bufferlevel : ℚ
  last_download_rate : ℚ
  cachehitrate : ℚ
deriving DecidableEq

/-- the stalling time. With a speed of 0 the quotient is infinite, or 0 / 0, which is not above 0. -/
def stallingtime (a : Arguments) : Option ℚ :=
  if a.last_download_speed = 0 then if a.currentrate = 0 then some 0 else none
  else if 2 * a.currentrate / a.last_download_speed - a.bufferlevel > 0 then
    some (2 * a.currentrate / a.last_download_speed - a.bufferlevel)
  else some 0

def fbuffer (bufferlevel : ℚ) : ℚ :=
  if bufferlevel < 6 then 1.4 else if bufferlevel ≥ 6 ∧ bufferlevel ≤ 20 then 1.0 else 0.7

def fcache (a : Arguments) : ℚ := if a.currentrate = a.cachehitrate then 0.6 else 1.0

def calculateytility (m : Libm) (a : Arguments) : Option ℚ :=
  (stallingtime a).map fun stallingtime =>
    let qoe := m.pow a.currentrate 0.6 - 0.05 * |a.currentrate - a.last_download_rate| - 2 * stallingtime
    let cost := fbuffer a.bufferlevel * fcache a * m.exp (a.currentrate - a.last_download_speed)
    qoe - 0.7 * cost

/-- a bandwidth in megabits per second -/
def megabits (bandwidth : UInt32) : ℚ := bandwidth.toNat / 1000000

/-- `currentSegmentBufferfillPercent*buffersize/100` -/
def bufferlevel (l : QoeFair) : ℚ := (l.currentSegmentBufferfillPercent * l.buffersize / 100).toNat

/-- what `GetRepresentation` passes for a representation; `cachehitrate` is never set -/
def arguments (bandwidth : UInt32) (predictBandwidth bufferlevel last_download_rate : ℚ) : Arguments where
  currentrate := megabits bandwidth
  last_download_speed := predictBandwidth
  bufferlevel := bufferlevel
  last_download_rate := last_download_rate
  cachehitrate := 0

/-- the utility of a representation -/
def utility (m : Libm) (l : QoeFair) (last_download_rate : ℚ) (bandwidth : UInt32) : Option ℚ :=
  l.predictBandwidth.bind fun predictBandwidth =>
    calculateytility m (arguments bandwidth predictBandwidth l.bufferlevel last_download_rate)

/-- the loop over the representations -/
def chosenIndex (utility : UInt32 → Option ℚ) (bandwidths : List UInt32) : ℕ :=
  (search (fun bandwidth (currentutility : ℚ) => ∃ u ∈ utility bandwidth, currentutility < u)
    (fun bandwidth => (utility bandwidth).getD 0) bandwidths 0 (0, -99999999)).1

/-- `GetRepresentation`; `none` is the exception of `at` -/
def getRepresentation (m : Libm) (bandwidths : List UInt32) (l : QoeFair) : Option (ℕ × QoeFair) :=
  let l := { l with toLogic := l.toLogic.predict }
  (at? bandwidths l.last_index).bind fun last =>
    let index := chosenIndex (utility m l (megabits last)) bandwidths
    (bandwidths[index]?).map fun _ => (index, { l with last_index := index })

/-! ## The choice -/

variable {bandwidths : List UInt32}

theorem chosenIndex_lt (hne : bandwidths ≠ []) (utility : UInt32 → Option ℚ) :
    chosenIndex utility bandwidths < bandwidths.length := by
  have hindex := search_index (fun bandwidth (currentutility : ℚ) => ∃ u ∈ utility bandwidth, currentutility < u)
    (fun bandwidth => (utility bandwidth).getD 0) bandwidths 0 (0, -99999999)
  unfold chosenIndex
  rcases hindex with h | ⟨j, hj, h⟩
  · rw [h]
    exact List.length_pos_iff.2 hne
  · rw [h, zero_add]
    exact hj

/-- **One call.** From a valid last index it returns, with the index of a representation. -/
theorem getRepresentation_eq (m : Libm) (hne : bandwidths ≠ []) {l : QoeFair} {last : UInt32}
    (hlast : at? bandwidths l.last_index = some last) :
    ∃ index < bandwidths.length, getRepresentation m bandwidths l =
      some (index, { l with toLogic := l.toLogic.predict, last_index := index }) := by
  have hlt := chosenIndex_lt hne (utility m { l with toLogic := l.toLogic.predict } (megabits last))
  refine ⟨_, hlt, ?_⟩
  rw [getRepresentation, hlast, Option.bind_some]
  exact Option.map_eq_some_iff.2 ⟨_, List.getElem?_eq_getElem hlt, rfl⟩

/-! ## The stalling time -/

/-- how long a two-second segment stalls: what its download takes longer than the buffered time -/
def expectedStalling (bandwidth : UInt32) (predictBandwidth bufferlevel : ℚ) : ℚ :=
  max 0 (2 * bandwidth.toNat / predictBandwidth - bufferlevel)

variable {P b : ℚ}

/-- what is used is the time of a download a million times as short -/
theorem stallingtime_eq (bandwidth : UInt32) (hP : 0 < P) (b last_download_rate : ℚ) :
    stallingtime (arguments bandwidth P b last_download_rate) =
      some (max 0 (2 * bandwidth.toNat / P / 1000000 - b)) := by
  have hquotient : 2 * megabits bandwidth / P = 2 * bandwidth.toNat / P / 1000000 := by
    rw [megabits]
    ring
  simp only [stallingtime, arguments, if_neg hP.ne', hquotient]
  split_ifs with hpos
  · rw [max_eq_right hpos.le]
  · rw [max_eq_left (not_lt.1 hpos)]

/-- **The stalling time.** For every bandwidth, prediction and buffer level, it is right exactly when there is none: the
bandwidth is 0, or the download takes no longer than the buffered time. -/
theorem stalling_iff (bandwidth : UInt32) (hP : 0 < P) (b last_download_rate : ℚ) :
    stallingtime (arguments bandwidth P b last_download_rate) = some (expectedStalling bandwidth P b) ↔
      bandwidth = 0 ∨ 2 * (bandwidth.toNat : ℚ) / P ≤ b := by
  rw [stallingtime_eq bandwidth hP, expectedStalling, Option.some.injEq]
  have hnonneg : 0 ≤ 2 * (bandwidth.toNat : ℚ) / P := by positivity
  have hzero : bandwidth = 0 ↔ 2 * (bandwidth.toNat : ℚ) / P = 0 := by
    rw [div_eq_zero_iff, or_iff_left hP.ne', mul_eq_zero, or_iff_right (by norm_num), Nat.cast_eq_zero,
      ← UInt32.toNat_inj]
    rfl
  rw [hzero]
  generalize 2 * (bandwidth.toNat : ℚ) / P = time at *
  have hshort : time / 1000000 ≤ time := div_le_self hnonneg (by norm_num)
  constructor
  · intro h
    by_contra hboth
    rw [not_or, not_le] at hboth
    obtain ⟨hne, hlong⟩ := hboth
    -- a download that takes longer has a positive stalling time, so the times agree
    rw [max_eq_right (by linarith : 0 ≤ time - b)] at h
    rcases max_cases 0 (time / 1000000 - b) with ⟨hmax, -⟩ | ⟨hmax, -⟩
    · rw [hmax] at h
      linarith
    · rw [hmax] at h
      exact hne (by linarith)
  · intro h
    rcases h with h | h
    · rw [h, zero_div]
    · rw [max_eq_left (by linarith), max_eq_left (by linarith)]

theorem stalling_none :
    stallingtime (arguments 1000000 2000000 4 0) = some (expectedStalling 1000000 2000000 4) :=
  (stalling_iff 1000000 (by norm_num) 4 0).2 (Or.inr (by decide +kernel))

/-- two seconds of three megabits, at one megabit per second with an empty buffer: they stall for six seconds, and six
microseconds are used -/
theorem stalling_too_short :
    stallingtime (arguments 3000000 1000000 0 0) = some (6 / 1000000) ∧ expectedStalling 3000000 1000000 0 = 6 ∧
      stallingtime (arguments 3000000 1000000 0 0) ≠ some (expectedStalling 3000000 1000000 0) := by
  decide +kernel

end QoeFair

end NdnDash.Adaptation
