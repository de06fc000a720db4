/-
The live edge of a dynamic presentation: `GetFirstSegmentNumber` and `GetCurrentSegmentNumber`
(`AbstractRepresentationStream.cpp`), `GetAverageSegmentDuration` (`SegmentTemplateStream.cpp`) and
`CalculateSegmentOffset` (`DASHReceiver.cpp`).

Times are whole seconds in a `uint32_t`, as `TimeResolver` returns them; the time shift depth is a `double` and is
converted. All subtractions are those of `uint32_t`. `none` is undefined behaviour: a division by zero, or a depth that
a `uint32_t` cannot hold.

- `getFirstSegmentNumber_eq`, `getCurrentSegmentNumber_eq`: the numbers when nothing wraps.
- `liveEdge_of_fits`: the offset then lies in the window and the current segment is complete, for any timescale.
- `liveEdge_iff`: the live edge is right exactly when the duration (not divided by the timescale), the start and the
  depth fit before the current time and twice the buffer size fits before the current segment; the duration used is the
  duration in seconds exactly when the timescale is 1.
- `short_stream_wraps`: ten seconds into a stream, an offset near 2^32.
-/
import Mathlib.Data.NNRat.Floor
import NdnDash.Core.Text

namespace NdnDash.Mpd

/-! ## Model -/

/-- what the computation reads: of the MPD, of its number-based `SegmentTemplate`, and of the receiver -/
structure LiveTemplate where
  type : Str
  currentTime : UInt32
  availabilityStarttime : UInt32
  timeShiftBufferDepth : ℚ≥0
  duration : UInt32
  timescale : UInt32
  bufferSize : UInt32
deriving DecidableEq

namespace LiveTemplate

/-- the conversion of a `double` that is not negative -/
def toUInt32 (seconds : ℚ≥0) : Option UInt32 :=
  if ⌊seconds⌋₊ < 2 ^ 32 then some (UInt32.ofNat ⌊seconds⌋₊) else none

/-- `SegmentTemplateStream::GetAverageSegmentDuration` -/
def getAverageSegmentDuration (t : LiveTemplate) : UInt32 := t.duration

def getFirstSegmentNumber (t : LiveTemplate) : Option UInt32 :=
  if t.type = "dynamic".toList then
    let duration := t.getAverageSegmentDuration
    (toUInt32 t.timeShiftBufferDepth).bind fun timeshift =>
      if duration = 0 then none
      else some ((t.currentTime - duration - t.availabilityStarttime - timeshift) / duration)
  else some 0

def getCurrentSegmentNumber (t : LiveTemplate) : Option UInt32 :=
  if t.type = "dynamic".toList then
    let duration := t.getAverageSegmentDuration
    if duration = 0 then none else some ((t.currentTime - duration - t.availabilityStarttime) / duration)
  else some 0

/-- `DASHReceiver::CalculateSegmentOffset` -/
def calculateSegmentOffset (t : LiveTemplate) : Option UInt32 :=
  if t.type = "static".toList then some 0
  else
    t.getFirstSegmentNumber.bind fun firstSegNum => t.getCurrentSegmentNumber.map fun currSegNum =>
      let startSegNum := currSegNum - 2 * t.bufferSize
      if startSegNum > firstSegNum then startSegNum else firstSegNum

/-! ## What it is for -/

/-- the subtractions made on the way to the offset, minuend first -/
def subtractions (t : LiveTemplate) (timeshift currSegNum : UInt32) : List (UInt32 × UInt32) :=
  [(t.currentTime, t.duration), (t.currentTime - t.duration, t.availabilityStarttime),
    (t.currentTime - t.duration - t.availabilityStarttime, timeshift), (currSegNum, 2 * t.bufferSize)]

/-- the window: first, offset and current number in order, no subtraction wrapped, the current segment complete -/
structure InWindow (t : LiveTemplate) (timeshift firstSegNum currSegNum offset : UInt32) : Prop where
  first_le : firstSegNum ≤ offset
  le_current : offset ≤ currSegNum
  noWrap : ∀ p ∈ t.subtractions timeshift currSegNum, p.2 ≤ p.1
  complete : (t.availabilityStarttime.toNat : ℚ) + (currSegNum.toNat + 1) * t.duration.toNat / t.timescale.toNat ≤
    t.currentTime.toNat

/-- the three functions return, and what they return lies in the window -/
def LiveEdge (t : LiveTemplate) : Prop :=
  ∃ timeshift firstSegNum currSegNum offset, toUInt32 t.timeShiftBufferDepth = some timeshift ∧
    t.getFirstSegmentNumber = some firstSegNum ∧ t.getCurrentSegmentNumber = some currSegNum ∧
    t.calculateSegmentOffset = some offset ∧ t.InWindow timeshift firstSegNum currSegNum offset

/-- the segment duration in use is the duration in seconds -/
def DurationInSeconds (t : LiveTemplate) : Prop :=
  (t.getAverageSegmentDuration.toNat : ℚ) = t.duration.toNat / t.timescale.toNat

/-- the sums that have to fit -/
def Fits (t : LiveTemplate) : Prop :=
  t.availabilityStarttime.toNat + t.duration.toNat + ⌊t.timeShiftBufferDepth⌋₊ ≤ t.currentTime.toNat ∧
    (2 * t.bufferSize).toNat ≤
      (t.currentTime.toNat - t.availabilityStarttime.toNat - t.duration.toNat) / t.duration.toNat

/-! ## The numbers -/

variable {t : LiveTemplate}

theorem toUInt32_eq {seconds : ℚ≥0} (h : ⌊seconds⌋₊ < 2 ^ 32) :
    ∃ timeshift, toUInt32 seconds = some timeshift ∧ timeshift.toNat = ⌊seconds⌋₊ := by
  refine ⟨_, if_pos h, ?_⟩
  rw [UInt32.toNat_ofNat']
  exact Nat.mod_eq_of_lt h

theorem toUInt32_some {seconds : ℚ≥0} {timeshift : UInt32} (h : toUInt32 seconds = some timeshift) :
    timeshift.toNat = ⌊seconds⌋₊ := by
  unfold toUInt32 at h
  split_ifs at h with hlt
  rw [← Option.some.inj h, UInt32.toNat_ofNat']
  exact Nat.mod_eq_of_lt hlt

theorem getCurrentSegmentNumber_eq (htype : t.type = "dynamic".toList) (hd : t.duration ≠ 0) :
    t.getCurrentSegmentNumber = some ((t.currentTime - t.duration - t.availabilityStarttime) / t.duration) := by
  rw [getCurrentSegmentNumber, if_pos htype]
  exact if_neg hd

theorem getFirstSegmentNumber_eq (htype : t.type = "dynamic".toList) (hd : t.duration ≠ 0) {timeshift : UInt32}
    (hshift : toUInt32 t.timeShiftBufferDepth = some timeshift) :
    t.getFirstSegmentNumber =
      some ((t.currentTime - t.duration - t.availabilityStarttime - timeshift) / t.duration) := by
  rw [getFirstSegmentNumber, if_pos htype, hshift, Option.bind_some]
  exact if_neg hd

theorem calculateSegmentOffset_eq (htype : t.type = "dynamic".toList) {firstSegNum currSegNum : UInt32}
    (hfirst : t.getFirstSegmentNumber = some firstSegNum) (hcurr : t.getCurrentSegmentNumber = some currSegNum) :
    t.calculateSegmentOffset =
      some (if currSegNum - 2 * t.bufferSize > firstSegNum then currSegNum - 2 * t.bufferSize else firstSegNum) := by
  have hstatic : t.type ≠ "static".toList := by
    rw [htype]
    decide
  rw [calculateSegmentOffset, if_neg hstatic, hfirst, Option.bind_some, hcurr, Option.map_some]

/-- what has elapsed since the first segment was complete -/
theorem toNat_elapsed (h1 : t.duration ≤ t.currentTime)
    (h2 : t.availabilityStarttime ≤ t.currentTime - t.duration) :
    (t.currentTime - t.duration - t.availabilityStarttime).toNat =
      t.currentTime.toNat - t.availabilityStarttime.toNat - t.duration.toNat := by
  rw [UInt32.toNat_sub_of_le _ _ h2, UInt32.toNat_sub_of_le _ _ h1]
  omega

/-- the current segment is complete when the subtractions do not wrap -/
theorem complete_of_noWrap (hscale : 1 ≤ t.timescale.toNat) (h1 : t.duration ≤ t.currentTime)
    (h2 : t.availabilityStarttime ≤ t.currentTime - t.duration) :
    (t.availabilityStarttime.toNat : ℚ) +
        (((t.currentTime - t.duration - t.availabilityStarttime) / t.duration).toNat + 1) * t.duration.toNat /
          t.timescale.toNat ≤ t.currentTime.toNat := by
  have helapsed := toNat_elapsed h1 h2
  rw [UInt32.toNat_div, helapsed]
  rw [UInt32.le_iff_toNat_le] at h1 h2
  rw [UInt32.toNat_sub_of_le _ _ (UInt32.le_iff_toNat_le.2 h1)] at h2
  generalize t.currentTime.toNat = now at *
  generalize t.availabilityStarttime.toNat = start at *
  generalize t.duration.toNat = duration at *
  -- the whole segments that have elapsed, plus the one before
  have hsegments : ((now - start - duration) / duration + 1) * duration ≤ now - start := by
    calc ((now - start - duration) / duration + 1) * duration
        = (now - start - duration) / duration * duration + duration := by ring
      _ ≤ (now - start - duration) + duration := by
          apply Nat.add_le_add_right
          exact Nat.div_mul_le_self _ _
      _ = now - start := by omega
  have hscale' : (1 : ℚ) ≤ t.timescale.toNat := by exact_mod_cast hscale
  have hnonneg : (0 : ℚ) ≤ ((now - start - duration) / duration + 1 : ℕ) * duration := by positivity
  have hle : start + ((now - start - duration) / duration + 1) * duration ≤ now := by omega
  calc (start : ℚ) + (((now - start - duration) / duration : ℕ) + 1) * duration / t.timescale.toNat
      ≤ start + (((now - start - duration) / duration : ℕ) + 1) * duration := by
        apply add_le_add_right
        apply div_le_self _ hscale'
        exact_mod_cast hnonneg
    _ ≤ now := by exact_mod_cast hle

/-! ## Main result -/

/-- the sums fit exactly when no subtraction wraps -/
theorem noWrap_iff_fits {timeshift : UInt32} (hshift : toUInt32 t.timeShiftBufferDepth = some timeshift) :
    (∀ p ∈ t.subtractions timeshift ((t.currentTime - t.duration - t.availabilityStarttime) / t.duration),
      p.2 ≤ p.1) ↔ t.Fits := by
  have hdepth := toUInt32_some hshift
  simp only [subtractions, List.forall_mem_cons, List.not_mem_nil, IsEmpty.forall_iff, implies_true, and_true]
  unfold Fits
  rw [← hdepth]
  constructor
  · intro h
    obtain ⟨h1, h2, h3, h4⟩ := h
    have helapsed := toNat_elapsed h1 h2
    rw [UInt32.le_iff_toNat_le, helapsed] at h3
    rw [UInt32.le_iff_toNat_le, UInt32.toNat_div, helapsed] at h4
    rw [UInt32.le_iff_toNat_le] at h1
    rw [UInt32.le_iff_toNat_le, UInt32.toNat_sub_of_le _ _ (UInt32.le_iff_toNat_le.2 h1)] at h2
    exact ⟨by omega, h4⟩
  · intro h
    obtain ⟨hsum, hbuffer⟩ := h
    have h1 : t.duration ≤ t.currentTime := UInt32.le_iff_toNat_le.2 (by omega)
    have h2 : t.availabilityStarttime ≤ t.currentTime - t.duration := by
      rw [UInt32.le_iff_toNat_le, UInt32.toNat_sub_of_le _ _ h1]
      omega
    have helapsed := toNat_elapsed h1 h2
    refine ⟨h1, h2, ?_, ?_⟩
    · rw [UInt32.le_iff_toNat_le, helapsed]
      omega
    · rw [UInt32.le_iff_toNat_le, UInt32.toNat_div, helapsed]
      exact hbuffer

/-- **The window.** When the sums fit, the offset lies between the first and the current number and the current segment
is complete, for any timescale. -/
theorem liveEdge_of_fits (htype : t.type = "dynamic".toList) (hd : t.duration ≠ 0) (hscale : 1 ≤ t.timescale.toNat)
    (h : t.Fits) : t.LiveEdge := by
  have hsmall : ⌊t.timeShiftBufferDepth⌋₊ < 2 ^ 32 := by
    have := t.currentTime.toNat_lt
    have := h.1
    omega
  obtain ⟨timeshift, hshift, -⟩ := toUInt32_eq hsmall
  have hfirst := getFirstSegmentNumber_eq htype hd hshift
  have hcurr := getCurrentSegmentNumber_eq htype hd
  have hno := (noWrap_iff_fits hshift).2 h
  have hno' := hno
  simp only [subtractions, List.forall_mem_cons, List.not_mem_nil, IsEmpty.forall_iff, implies_true, and_true] at hno'
  obtain ⟨h1, h2, h3, h4⟩ := hno'
  have hcomplete := complete_of_noWrap hscale h1 h2
  refine ⟨timeshift, _, _, _, hshift, hfirst, hcurr, calculateSegmentOffset_eq htype hfirst hcurr, ?_⟩
  generalize t.currentTime - t.duration - t.availabilityStarttime = x at *
  have hle : (x - timeshift) / t.duration ≤ x / t.duration := by
    rw [UInt32.le_iff_toNat_le, UInt32.toNat_div, UInt32.toNat_div, UInt32.toNat_sub_of_le _ _ h3]
    exact Nat.div_le_div_right (Nat.sub_le _ _)
  have hstart : x / t.duration - 2 * t.bufferSize ≤ x / t.duration := by
    rw [UInt32.le_iff_toNat_le, UInt32.toNat_sub_of_le _ _ h4]
    exact Nat.sub_le _ _
  refine ⟨?_, ?_, hno, hcomplete⟩
  · split_ifs with hlt
    · exact UInt32.le_of_lt hlt
    · exact UInt32.le_refl _
  · split_ifs
    · exact hstart
    · exact hle

theorem fits_of_liveEdge (htype : t.type = "dynamic".toList) (hd : t.duration ≠ 0) (h : t.LiveEdge) : t.Fits := by
  obtain ⟨timeshift, firstSegNum, currSegNum, offset, hshift, -, hcurr, -, hwindow⟩ := h
  rw [getCurrentSegmentNumber_eq htype hd, Option.some.injEq] at hcurr
  apply (noWrap_iff_fits hshift).1
  rw [hcurr]
  exact hwindow.noWrap

/-- the duration in use is @duration itself -/
theorem durationInSeconds_iff (hd : t.duration ≠ 0) (hscale : 1 ≤ t.timescale.toNat) :
    t.DurationInSeconds ↔ t.timescale = 1 := by
  have hd' : (t.duration.toNat : ℚ) ≠ 0 := by
    exact_mod_cast fun h0 => hd (UInt32.toNat_inj.1 h0)
  have hscale' : (t.timescale.toNat : ℚ) ≠ 0 := by
    exact_mod_cast Nat.one_le_iff_ne_zero.1 hscale
  unfold DurationInSeconds getAverageSegmentDuration
  rw [eq_div_iff hscale', mul_eq_left₀ hd']
  constructor
  · intro h
    exact UInt32.toNat_inj.1 (by exact_mod_cast h)
  · intro h
    rw [h]
    rfl

/-- **The live edge.** For every dynamic presentation with a number-based template, the offset is computed inside the
window exactly when the sums fit, and the duration in use is the duration in seconds exactly when the timescale is 1. -/
theorem liveEdge_iff (htype : t.type = "dynamic".toList) (hd : 1 ≤ t.duration.toNat) (hscale : 1 ≤ t.timescale.toNat) :
    (t.LiveEdge ↔ t.Fits) ∧ (t.DurationInSeconds ↔ t.timescale = 1) := by
  have hd' : t.duration ≠ 0 := by
    intro h0
    rw [h0] at hd
    exact absurd hd (by decide)
  exact ⟨⟨fits_of_liveEdge htype hd', liveEdge_of_fits htype hd' hscale⟩, durationInSeconds_iff hd' hscale⟩

/-- ten seconds into a stream of two-second segments, with a buffer of ten segments -/
def shortStream : LiveTemplate where
  type := "dynamic".toList
  currentTime := 10
  availabilityStarttime := 0
  timeShiftBufferDepth := 0
  duration := 2
  timescale := 1
  bufferSize := 10

/-- ninety seconds later the sums fit -/
def laterStream : LiveTemplate := { shortStream with currentTime := 100 }

theorem liveEdge_later : laterStream.LiveEdge ∧ laterStream.DurationInSeconds := by
  have hfits : laterStream.Fits := ⟨by decide +kernel, by decide⟩
  have h := liveEdge_iff (t := laterStream) rfl (by decide) (by decide)
  exact ⟨h.1.2 hfits, h.2.2 rfl⟩

/-- the current segment is number 4, the offset 4 - 20 -/
theorem short_stream_wraps :
    (shortStream.availabilityStarttime.toNat : ℚ) + shortStream.duration.toNat / shortStream.timescale.toNat ≤
        shortStream.currentTime.toNat ∧
      shortStream.getCurrentSegmentNumber = some 4 ∧
      shortStream.calculateSegmentOffset = some 4294967280 ∧ ¬ shortStream.LiveEdge := by
  have hcurr : shortStream.getCurrentSegmentNumber = some 4 := by decide
  have hshift : toUInt32 shortStream.timeShiftBufferDepth = some 0 := by
    change toUInt32 0 = some 0
    rw [toUInt32, Nat.floor_zero, if_pos (by norm_num)]
    rfl
  have hoffset : shortStream.calculateSegmentOffset = some 4294967280 := by
    rw [calculateSegmentOffset_eq rfl (getFirstSegmentNumber_eq rfl (by decide) hshift) hcurr]
    decide
  refine ⟨?_, hcurr, hoffset, ?_⟩
  · change ((0 : ℕ) : ℚ) + ((2 : ℕ) : ℚ) / ((1 : ℕ) : ℚ) ≤ ((10 : ℕ) : ℚ)
    norm_num
  · intro h
    obtain ⟨_, _, currSegNum, offset, -, -, hcurr', hoffset', hwindow⟩ := h
    rw [hcurr, Option.some.injEq] at hcurr'
    rw [hoffset, Option.some.injEq] at hoffset'
    have hle := hwindow.le_current
    rw [← hcurr', ← hoffset'] at hle
    exact absurd hle (by decide)

end LiveTemplate

end NdnDash.Mpd
