/-
The number of segments of a static, number-based template: `SegmentTemplateStream::GetSize` against the least number of
segments of @duration / @timescale seconds that cover the presentation.

`GetSize` divides @duration by @timescale as integers first, so it counts segments whose duration is cut to whole
seconds.

- `covers_iff`: a number of segments covers the presentation exactly from `expectedCount` on.
- `ceil_eq_iff`: cutting the duration of a segment makes no difference exactly when that many cut segments still cover
  the presentation.
- `size_iff`: for every duration of the presentation, @duration and @timescale, the size is exact in exactly this case.
- `coversCut_of_dvd`: it is when the @timescale divides the @duration.
-/
import NdnDash.Mpd.MediaSegments

namespace NdnDash.Mpd.PlayerStream

/-- `GetSize` returns, and what it returns is the least number of segments that cover the presentation -/
def SizeExact (mpd : MpdElement) (template : SegmentTemplateElement) (s : PlayerStream) : Prop :=
  ∃ size, s.getSize mpd = some size ∧
    IsLeast {n : ℕ | mpd.mediaPresentationDuration ≤ n * template.duration.toNat / template.timescale.toNat}
      size.toNat ∧
    size.toNat = ⌈mpd.mediaPresentationDuration * template.timescale.toNat / template.duration.toNat⌉₊

/-- the segments that are needed also cover the presentation when each is cut to whole seconds, and their number fits -/
def CoversCut (mpd : MpdElement) (template : SegmentTemplateElement) : Prop :=
  template.timescale ≤ template.duration ∧
    mpd.mediaPresentationDuration ≤
      expectedCount mpd.mediaPresentationDuration template * (template.duration.toNat / template.timescale.toNat : ℕ) ∧
    expectedCount mpd.mediaPresentationDuration template < 2 ^ 32

section

variable {mpd : MpdElement} {representation : RepresentationElement} {template : SegmentTemplateElement}
  {urls : List BaseUrl}

/-- a number of segments covers the presentation exactly from `expectedCount` on -/
theorem covers_iff (hd : 1 ≤ template.duration.toNat) (hscale : 1 ≤ template.timescale.toNat) (total : ℚ≥0) (n : ℕ) :
    total ≤ n * template.duration.toNat / template.timescale.toNat ↔ expectedCount total template ≤ n := by
  have hd' : (0 : ℚ≥0) < template.duration.toNat := by exact_mod_cast hd
  have hscale' : (0 : ℚ≥0) < template.timescale.toNat := by exact_mod_cast hscale
  rw [expectedCount, Nat.ceil_le, div_le_iff₀ hd', le_div_iff₀ hscale']

theorem isLeast_expectedCount (hd : 1 ≤ template.duration.toNat) (hscale : 1 ≤ template.timescale.toNat) (total : ℚ≥0) :
    IsLeast {n : ℕ | total ≤ n * template.duration.toNat / template.timescale.toNat} (expectedCount total template) := by
  constructor
  · exact (covers_iff hd hscale total _).2 le_rfl
  · intro n hn
    exact (covers_iff hd hscale total n).1 hn

/-- cutting the duration makes no difference when the cut segments still cover the presentation -/
theorem ceil_eq_iff (hd : 1 ≤ template.duration.toNat) (hscale : 1 ≤ template.timescale.toNat)
    (hle : template.timescale.toNat ≤ template.duration.toNat) (total : ℚ≥0) :
    ⌈total / (template.duration.toNat / template.timescale.toNat : ℕ)⌉₊ = expectedCount total template ↔
      total ≤ expectedCount total template * (template.duration.toNat / template.timescale.toNat : ℕ) := by
  have hseconds : 0 < template.duration.toNat / template.timescale.toNat := Nat.div_pos hle hscale
  have hseconds' : (0 : ℚ≥0) < (template.duration.toNat / template.timescale.toNat : ℕ) := by exact_mod_cast hseconds
  have hd' : (0 : ℚ≥0) < template.duration.toNat := by exact_mod_cast hd
  rw [← div_le_iff₀ hseconds', ← Nat.ceil_le]
  constructor
  · exact le_of_eq
  · intro h
    apply le_antisymm h
    -- the cut segments are not longer, so no fewer are needed
    have hcut : ((template.duration.toNat / template.timescale.toNat : ℕ) : ℚ≥0) * template.timescale.toNat ≤
        template.duration.toNat := by
      exact_mod_cast Nat.div_mul_le_self _ _
    apply Nat.ceil_mono
    rw [div_le_div_iff₀ hd' hseconds', mul_assoc, mul_comm (template.timescale.toNat : ℚ≥0)]
    exact mul_le_mul_right hcut total

/-- **The size.** For every duration of the presentation, @duration and @timescale, it is exact exactly when the cut
segments cover the presentation. -/
theorem size_iff (hstatic : mpd.type = "static".toList) (htimeline : template.segmentTimeline = none)
    (hd : 1 ≤ template.duration.toNat) (hscale : 1 ≤ template.timescale.toNat) :
    SizeExact mpd template (segmentTemplate urls representation template
        (calculateSegmentStartTimes template.toSegmentTemplate)) ↔ CoversCut mpd template := by
  have htimes : calculateSegmentStartTimes template.toSegmentTemplate = [] := by
    rw [calculateSegmentStartTimes, htimeline]
  have hquotient : template.duration / template.timescale ≠ 0 ↔ template.timescale ≤ template.duration := by
    rw [← UInt32.toNat_inj.ne, UInt32.toNat_div, UInt32.le_iff_toNat_le]
    exact Nat.div_ne_zero_iff.trans (and_iff_right (Nat.one_le_iff_ne_zero.1 hscale))
  have hsize : (∃ size, (segmentTemplate urls representation template []).getSize mpd = some size ∧
      size.toNat = expectedCount mpd.mediaPresentationDuration template) ↔ _ := getSize_iff hstatic _
  rw [hquotient, UInt32.toNat_div] at hsize
  rw [htimes, CoversCut]
  constructor
  · intro h
    obtain ⟨size, hget, -, heq⟩ := h
    obtain ⟨hle, hceil, hlt⟩ := hsize.1 ⟨size, hget, heq⟩
    exact ⟨hle, (ceil_eq_iff hd hscale (UInt32.le_iff_toNat_le.1 hle) _).1 hceil, hlt⟩
  · intro h
    obtain ⟨hle, hcover, hlt⟩ := h
    obtain ⟨size, hget, heq⟩ :=
      hsize.2 ⟨hle, (ceil_eq_iff hd hscale (UInt32.le_iff_toNat_le.1 hle) _).2 hcover, hlt⟩
    exact ⟨size, hget, heq ▸ isLeast_expectedCount hd hscale _, heq⟩

theorem coversCut_of_dvd (hd : 1 ≤ template.duration.toNat) (hscale : 1 ≤ template.timescale.toNat)
    (hdvd : template.timescale.toNat ∣ template.duration.toNat)
    (hlt : expectedCount mpd.mediaPresentationDuration template < 2 ^ 32) : CoversCut mpd template := by
  have hscale' : (template.timescale.toNat : ℚ≥0) ≠ 0 := by
    exact_mod_cast Nat.one_le_iff_ne_zero.1 hscale
  refine ⟨UInt32.le_iff_toNat_le.2 (Nat.le_of_dvd hd hdvd), ?_, hlt⟩
  have hcover := (covers_iff hd hscale mpd.mediaPresentationDuration _).2 le_rfl
  rw [mul_div_assoc, ← Nat.cast_div hdvd hscale'] at hcover
  exact hcover

end

/-- a template of `duration` units of which `timescale` make a second -/
def numberTemplate (duration timescale : UInt32) : SegmentTemplateElement where
  media := "$Number$.mp4".toList
  startNumber := 1
  segmentTimeline := none
  initializationTemplate := []
  initialization := none
  duration := duration
  timescale := timescale

def numberStream (duration timescale : UInt32) : PlayerStream :=
  segmentTemplate [] ⟨⟨[], none, none, none⟩, [], 0⟩ (numberTemplate duration timescale) []

def staticMpd (seconds : ℚ≥0) : MpdElement where
  baseUrls := []
  mpdPathBaseUrl := ⟨[], []⟩
  type := "static".toList
  mediaPresentationDuration := seconds
  availabilityStarttime := 0
  timeShiftBufferDepth := 0

theorem size_two_seconds :
    SizeExact (staticMpd 9) (numberTemplate 180000 90000) (numberStream 180000 90000) := by
  have hcount : expectedCount (staticMpd 9).mediaPresentationDuration (numberTemplate 180000 90000) < 2 ^ 32 := by
    decide +kernel
  have hcovers : CoversCut (staticMpd 9) (numberTemplate 180000 90000) :=
    coversCut_of_dvd (by decide) (by decide) (by decide) hcount
  exact (size_iff rfl rfl (by decide) (by decide)).2 hcovers

/-- 30 seconds of segments of 1.5 seconds: 20 segments, but the size is 30 -/
theorem size_counts_cut_segments :
    (numberStream 3 2).getSize (staticMpd 30) = some 30 ∧
      ¬ SizeExact (staticMpd 30) (numberTemplate 3 2) (numberStream 3 2) := by
  have hceil : ⌈(30 : ℚ≥0) / ((1 : ℕ) : ℚ≥0)⌉₊ = 30 := by norm_num
  have hsize : (numberStream 3 2).getSize (staticMpd 30) = some 30 := by
    obtain ⟨size, hget, heq⟩ : ∃ size, (numberStream 3 2).getSize (staticMpd 30) = some size ∧ size.toNat = 30 :=
      (getSize_iff rfl 30).2 ⟨by decide, hceil, by decide⟩
    rw [hget, UInt32.toNat_inj.1 (heq.trans rfl : size.toNat = (30 : UInt32).toNat)]
  refine ⟨hsize, fun h => ?_⟩
  obtain ⟨size, hget, hleast, -⟩ := h
  rw [hsize, Option.some.injEq] at hget
  -- 20 segments are enough
  have hle := hleast.2 (show (30 : ℚ≥0) ≤ (20 : ℕ) * ((3 : ℕ) : ℚ≥0) / ((2 : ℕ) : ℚ≥0) by norm_num)
  rw [← hget] at hle
  exact absurd hle (by decide)

end NdnDash.Mpd.PlayerStream
