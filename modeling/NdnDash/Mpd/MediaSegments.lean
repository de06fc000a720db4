/-
The media segments of a Representation in a static MPD: what they are made from (`mediaSegments`), what a stream has to
give of them (`Gives`), and when it does (`Enumerable`).

The number of segments with a `@duration` is that of the Period, in seconds, divided by the duration of a segment and
rounded up.

- `init_iff`: what it takes to make a segment; `resource_init`: what it names.
- `gives_iff`: for a stream of every kind, the segments it gives are those of the Representation exactly when it is
  `Enumerable`. One kind never is.
-/
import NdnDash.Mpd.PlayerStream
import NdnDash.Mpd.SegmentTimeline
import NdnDash.Mpd.TemplateNames

namespace NdnDash.Mpd

open NdnDash.Path

/-! ## Resources -/

/-- the bytes a range names; a range that cannot be read is no range -/
def byteRange (range : Str) : Option (ℕ × ℕ) := if range = [] then none else getStartAndEndBytes range

/-- what a segment is fetched from -/
def Segment.resource (s : Segment) : Str × Option (ℕ × ℕ) :=
  (s.absoluteuri, if s.hasByteRange then some (s.startByte, s.endByte) else none)

/-- a URI that leads to a host and a path behind the base URLs -/
def Fetchable (baseurls : List BaseUrl) (uri : Str) : Prop :=
  uri ≠ [] ∧ ∃ parts, getHostPortAndPath (absoluteUri baseurls uri) 80 = some parts ∧ parts.ok = true

section Resources

variable {baseurls : List BaseUrl} {uri range : Str} {type : HTTPTransactionType} {seg : Segment}

theorem init_iff : (∃ seg, Segment.init baseurls uri range type = some (some seg)) ↔ Fetchable baseurls uri := by
  unfold Fetchable
  constructor
  · intro h
    obtain ⟨seg, h⟩ := h
    have huri := (Segment.init_spec h).1
    rw [Segment.init, if_neg huri] at h
    obtain ⟨parts, hparts, h⟩ := Option.map_eq_some_iff.1 h
    refine ⟨huri, parts, hparts, ?_⟩
    by_contra hok
    rw [if_neg hok] at h
    exact absurd h (by simp)
  · intro h
    obtain ⟨huri, parts, hparts, hok⟩ := h
    rw [Segment.init, if_neg huri, hparts, Option.map_some, if_pos hok]
    split
    · exact ⟨_, rfl⟩
    · exact ⟨_, rfl⟩

theorem resource_init (h : Segment.init baseurls uri range type = some (some seg)) :
    seg.resource = (absoluteUri baseurls uri, byteRange range) := by
  have huri := (Segment.init_spec h).1
  rw [Segment.init, if_neg huri] at h
  obtain ⟨parts, hparts, h⟩ := Option.map_eq_some_iff.1 h
  by_cases hok : parts.ok = true
  · rw [if_pos hok] at h
    have hread : (if range = [] then none else getStartAndEndBytes range) = byteRange range := rfl
    rw [hread] at h
    split at h
    · rename_i startByte endByte hrange
      rw [hrange, ← Option.some.inj h]
      rfl
    · rename_i hrange
      rw [hrange, ← Option.some.inj h]
      rfl
  · rw [if_neg hok] at h
    exact absurd h (by simp)

end Resources

/-! ## The media segments -/

/-- what a media segment is made from; a number or time that is too large has no URI -/
structure Media where
  uri : Option Str
  range : Str

/-- what it names -/
def Media.resource (baseurls : List BaseUrl) (m : Media) : Option Str × Option (ℕ × ℕ) :=
  (m.uri.map (absoluteUri baseurls), byteRange m.range)

namespace PlayerStream

/-- the base URLs of a stream -/
def baseUrls (s : PlayerStream) : List BaseUrl := s.toStream.baseUrls

/-- the URI a template has for a number or a time -/
def uriOf (x : Identifier) (template : SegmentTemplateElement) (representation : RepresentationElement) (value : ℕ) :
    Option Str :=
  if value < 2 ^ 32 then
    segmentUri x template.media representation.id representation.bandwidth (UInt32.ofNat value)
  else none

/-- how many segments of `@duration` the Period takes -/
def expectedCount (duration : ℚ≥0) (template : SegmentTemplateElement) : ℕ :=
  ⌈duration * template.timescale.toNat / template.duration.toNat⌉₊

/-- the media segments of the Representation, in order; without a list or template it is one -/
def mediaSegments (duration : ℚ≥0) : PlayerStream → List Media
  | singleMediaSegment _ representation =>
    [⟨some ((representation.baseURLs.head?.map (·.url)).getD []),
      (representation.baseURLs.head?.map (·.byteRange)).getD []⟩]
  | segmentList _ list => list.segmentURLs.map fun s => ⟨some s.mediaURI, s.mediaRange⟩
  | segmentTemplate _ representation template _ =>
    match template.segmentTimeline with
    | none => (List.range (expectedCount duration template)).map fun n =>
        ⟨uriOf .number template representation (template.startNumber.toNat + n), []⟩
    | some timelines => (expectedStartTimes timelines).map fun time => ⟨uriOf .time template representation time, []⟩

/-- the streams in question: a template names its segments by number, or by the increasing times of its timeline -/
def InScope : PlayerStream → Prop
  | segmentTemplate _ _ template _ =>
    match template.segmentTimeline with
    | none => Names .number template.media
    | some timelines => Names .time template.media ∧ (expectedStartTimes timelines).Pairwise (· < ·)
  | _ => True

/-- the stream has as many segments as the Representation, and each number below gives the segment of the Representation,
no two of them the same -/
structure Gives (mpd : MpdElement) (duration : ℚ≥0) (s : PlayerStream) (segs : List Segment) : Prop where
  size : ∃ size, s.getSize mpd = some size ∧ size.toNat = (s.mediaSegments duration).length
  made : List.Forall₂ (fun m seg => ∃ uri, m.uri = some uri ∧
    Segment.init s.baseUrls uri m.range .mediaSegment = some (some seg)) (s.mediaSegments duration) segs
  given : ∀ n seg, segs[n]? = some seg → s.getMediaSegment n = some (some seg)
  different : segs.Pairwise fun seg seg' => seg.resource ≠ seg'.resource

/-- a number or time whose URI leads to a host and a path -/
def Addressable (x : Identifier) (baseUrls : List BaseUrl) (template : SegmentTemplateElement)
    (representation : RepresentationElement) (value : ℕ) : Prop :=
  ∃ uri, uriOf x template representation value = some uri ∧ Fetchable baseUrls uri

/-- when a stream gives the segments of its Representation:
- a list: its URIs lead somewhere, no two to the same bytes;
- numbers: rounding the duration of a segment down to whole seconds, and taking the duration of the whole presentation,
  makes no difference to their count;
- times: every element of the timeline is explicit, or there is none and the presentation has no duration -/
def Enumerable (mpd : MpdElement) (duration : ℚ≥0) : PlayerStream → Prop
  | singleMediaSegment _ _ => False
  | segmentList baseUrls list =>
    list.segmentURLs.length < 2 ^ 32 ∧ (∀ s ∈ list.segmentURLs, Fetchable baseUrls s.mediaURI) ∧
      list.segmentURLs.Pairwise fun s s' =>
        (absoluteUri baseUrls s.mediaURI, byteRange s.mediaRange) ≠
          (absoluteUri baseUrls s'.mediaURI, byteRange s'.mediaRange)
  | segmentTemplate baseUrls representation template _ =>
    match template.segmentTimeline with
    | none =>
      template.duration / template.timescale ≠ 0 ∧
        ⌈mpd.mediaPresentationDuration / (template.duration / template.timescale).toNat⌉₊ =
          expectedCount duration template ∧
        expectedCount duration template < 2 ^ 32 ∧
        ∀ n < expectedCount duration template,
          Addressable .number baseUrls template representation (template.startNumber.toNat + n)
    | some timelines =>
      AllExplicit 0 timelines ∧ (expectedStartTimes timelines).length < 2 ^ 32 ∧
        (timelines = [] → template.duration / template.timescale ≠ 0 ∧ mpd.mediaPresentationDuration = 0) ∧
        ∀ time ∈ expectedStartTimes timelines, Addressable .time baseUrls template representation time

/-! ## One kind after the other -/

section Kinds

variable {mpd : MpdElement} {duration : ℚ≥0} {s : PlayerStream} {representation : RepresentationElement}
  {template : SegmentTemplateElement} {urls : List BaseUrl}

/-- the segment that is made of a medium -/
def Made (baseUrls : List BaseUrl) (m : Media) (seg : Segment) : Prop :=
  ∃ uri, m.uri = some uri ∧ Segment.init baseUrls uri m.range .mediaSegment = some (some seg)

/-- what corresponds names the same -/
theorem resources_eq {media : List Media} {segs : List Segment} (hmade : List.Forall₂ (Made urls) media segs) :
    media.map (Media.resource urls) = segs.map fun seg => (some seg.resource.1, seg.resource.2) := by
  rw [← List.forall₂_eq_eq_eq, List.forall₂_map_left_iff, List.forall₂_map_right_iff]
  apply hmade.imp
  intro m seg h
  obtain ⟨uri, huri, hinit⟩ := h
  rw [Media.resource, huri, resource_init hinit, Option.map_some]

theorem different_iff {media : List Media} {segs : List Segment} (hmade : List.Forall₂ (Made urls) media segs) :
    (media.Pairwise fun m m' => m.resource urls ≠ m'.resource urls) ↔
      segs.Pairwise fun seg seg' => seg.resource ≠ seg'.resource := by
  rw [← List.pairwise_map (f := Media.resource urls) (R := (· ≠ ·)), resources_eq hmade, List.pairwise_map]
  apply Iff.of_eq
  congr 1
  funext seg seg'
  simp [Prod.ext_iff]

/-- **Every kind.** The size is the number of segments, and each of them can be made, is given under its number, and names
something else than the others. -/
theorem exists_gives_iff :
    (∃ segs, s.Gives mpd duration segs) ↔
      (∃ size, s.getSize mpd = some size ∧ size.toNat = (s.mediaSegments duration).length) ∧
      (∀ m ∈ s.mediaSegments duration, ∃ uri, m.uri = some uri ∧ Fetchable s.baseUrls uri) ∧
      (∀ n m uri, (s.mediaSegments duration)[n]? = some m → m.uri = some uri →
        s.getMediaSegment n = Segment.init s.baseUrls uri m.range .mediaSegment) ∧
      (s.mediaSegments duration).Pairwise fun m m' => m.resource s.baseUrls ≠ m'.resource s.baseUrls := by
  constructor
  · intro h
    obtain ⟨segs, h⟩ := h
    refine ⟨h.size, ?_, ?_, (different_iff h.made).2 h.different⟩
    · intro m hm
      obtain ⟨n, hn⟩ := List.mem_iff_getElem?.1 hm
      obtain ⟨seg, _, uri, huri, hinit⟩ := Pieces.exists_of_forall₂' h.made hn
      exact ⟨uri, huri, init_iff.1 ⟨seg, hinit⟩⟩
    · intro n m uri hn huri
      obtain ⟨seg, hseg, uri', huri', hinit⟩ := Pieces.exists_of_forall₂' h.made hn
      rw [huri, Option.some.injEq] at huri'
      subst huri'
      rw [h.given n seg hseg, hinit]
  · intro h
    obtain ⟨hsize, hfetchable, hgiven, hpairwise⟩ := h
    have hall : ∀ m ∈ s.mediaSegments duration, ∃ seg, Made s.baseUrls m seg := by
      intro m hm
      obtain ⟨uri, huri, hfetch⟩ := hfetchable m hm
      obtain ⟨seg, hseg⟩ := init_iff.2 hfetch
      exact ⟨seg, uri, huri, hseg⟩
    obtain ⟨segs, hmade⟩ := Pieces.exists_forall₂ hall
    refine ⟨segs, hsize, hmade, ?_, (different_iff hmade).1 hpairwise⟩
    intro n seg hseg
    obtain ⟨m, hm, uri, huri, hinit⟩ := Pieces.exists_of_forall₂ hmade hseg
    rw [hgiven n m uri hm huri, hinit]

theorem gives_segmentList {list : SegmentListElement} :
    (∃ segs, (segmentList urls list).Gives mpd duration segs) ↔ (segmentList urls list).Enumerable mpd duration := by
  have hsize : (∃ size, (segmentList urls list).getSize mpd = some size ∧
      size.toNat = ((segmentList urls list).mediaSegments duration).length) ↔ list.segmentURLs.length < 2 ^ 32 := by
    have hlt := (UInt32.ofNat list.segmentURLs.length).toNat_lt
    simp only [getSize, mediaSegments, List.length_map, Option.some.injEq, exists_eq_left']
    rw [UInt32.toNat_ofNat'] at hlt ⊢
    omega
  have hgiven : ∀ n m uri, ((segmentList urls list).mediaSegments duration)[n]? = some m → m.uri = some uri →
      (segmentList urls list).getMediaSegment n = Segment.init urls uri m.range .mediaSegment := by
    intro n m uri hm huri
    rw [mediaSegments, List.getElem?_map] at hm
    obtain ⟨url, hurl, rfl⟩ := Option.map_eq_some_iff.1 hm
    rw [← Option.some.inj huri]
    simp only [getMediaSegment, toStream, RepresentationStream.getMediaSegment, hurl]
    rfl
  have hfetchable : (∀ m ∈ (segmentList urls list).mediaSegments duration, ∃ uri, m.uri = some uri ∧
      Fetchable urls uri) ↔ ∀ url ∈ list.segmentURLs, Fetchable urls url.mediaURI := by
    simp [mediaSegments]
  have hdifferent : (((segmentList urls list).mediaSegments duration).Pairwise fun m m' =>
      m.resource urls ≠ m'.resource urls) ↔
        list.segmentURLs.Pairwise fun url url' => (absoluteUri urls url.mediaURI, byteRange url.mediaRange) ≠
          (absoluteUri urls url'.mediaURI, byteRange url'.mediaRange) := by
    simp [mediaSegments, List.pairwise_map, Media.resource]
  constructor
  · intro h
    obtain ⟨h1, h2, -, h4⟩ := exists_gives_iff.1 h
    exact ⟨hsize.1 h1, hfetchable.1 h2, hdifferent.1 h4⟩
  · intro h
    obtain ⟨h1, h2, h4⟩ := h
    exact exists_gives_iff.2 ⟨hsize.2 h1, hfetchable.2 h2, hgiven, hdifferent.2 h4⟩

/-- the size of a template stream without times -/
theorem getSize_iff (hstatic : mpd.type = "static".toList) (n : ℕ) :
    (∃ size, (segmentTemplate urls representation template []).getSize mpd = some size ∧ size.toNat = n) ↔
      template.duration / template.timescale ≠ 0 ∧
        ⌈mpd.mediaPresentationDuration / (template.duration / template.timescale).toNat⌉₊ = n ∧ n < 2 ^ 32 := by
  simp only [getSize, if_true, if_pos hstatic, ceilSize]
  by_cases hscale : template.timescale = 0
  · rw [if_pos hscale, hscale, UInt32.div_zero]
    simp
  rw [if_neg hscale]
  by_cases hquotient : template.duration / template.timescale = 0
  · simp [hquotient]
  rw [if_neg hquotient]
  split_ifs with hlt
  · simp only [Option.some.injEq, exists_eq_left', UInt32.toNat_ofNat', Nat.mod_eq_of_lt hlt]
    constructor
    · intro h
      exact ⟨hquotient, h, h ▸ hlt⟩
    · intro h
      exact h.2.1
  · constructor
    · intro h
      obtain ⟨size, hsize, -⟩ := h
      exact absurd hsize (by simp)
    · intro h
      exact absurd (h.2.1 ▸ h.2.2) hlt

/-- different values name different resources -/
theorem resource_ne {x : Identifier} (hx : x = .number ∨ x = .time) (hnames : Names x template.media) {v v' : ℕ}
    (hne : v ≠ v') (h : Addressable x urls template representation v)
    (h' : Addressable x urls template representation v') :
    Media.resource urls ⟨uriOf x template representation v, []⟩ ≠
      Media.resource urls ⟨uriOf x template representation v', []⟩ := by
  obtain ⟨uri, huri, hfetch⟩ := h
  obtain ⟨uri', huri', hfetch'⟩ := h'
  intro heq
  simp only [Media.resource, huri, huri', Option.map_some, Prod.mk.injEq, Option.some.injEq, and_true] at heq
  unfold uriOf at huri huri'
  split_ifs at huri huri' with hlt hlt'
  have hvalue := congrArg UInt32.toNat (absoluteUri_inj hx hnames huri huri' hfetch.1 hfetch'.1 heq)
  rw [UInt32.toNat_ofNat', UInt32.toNat_ofNat', Nat.mod_eq_of_lt hlt, Nat.mod_eq_of_lt hlt'] at hvalue
  exact hne hvalue

theorem getMediaSegment_number (htimeline : template.segmentTimeline = none) (n : ℕ) :
    (segmentTemplate urls representation template []).getMediaSegment n =
      (segmentUri .number template.media representation.id representation.bandwidth
        (template.startNumber + UInt32.ofNat n)).bind fun uri => Segment.init urls uri [] .mediaSegment := by
  simp only [getMediaSegment, toStream, RepresentationStream.getMediaSegment, htimeline]
  rfl

theorem gives_number (hstatic : mpd.type = "static".toList) (htimeline : template.segmentTimeline = none)
    (hnames : Names .number template.media) :
    (∃ segs, (segmentTemplate urls representation template []).Gives mpd duration segs) ↔
      (segmentTemplate urls representation template []).Enumerable mpd duration := by
  have hmedia : (segmentTemplate urls representation template []).mediaSegments duration =
      (List.range (expectedCount duration template)).map fun n =>
        ⟨uriOf .number template representation (template.startNumber.toNat + n), []⟩ := by
    simp only [mediaSegments, htimeline]
  have hlength : ((segmentTemplate urls representation template []).mediaSegments duration).length =
      expectedCount duration template := by
    rw [hmedia, List.length_map, List.length_range]
  have hgiven : ∀ n m uri, ((segmentTemplate urls representation template []).mediaSegments duration)[n]? = some m →
      m.uri = some uri → (segmentTemplate urls representation template []).getMediaSegment n =
        Segment.init urls uri m.range .mediaSegment := by
    intro n m uri hm huri
    rw [hmedia, List.getElem?_map] at hm
    obtain ⟨k, hk, rfl⟩ := Option.map_eq_some_iff.1 hm
    obtain ⟨hn, rfl⟩ := List.getElem?_eq_some_iff.1 hk
    unfold uriOf at huri
    split_ifs at huri
    rw [List.getElem_range, UInt32.ofNat_add, UInt32.ofNat_toNat] at huri
    dsimp only at huri ⊢
    rw [getMediaSegment_number htimeline, huri, Option.bind_some]
  have haddressable : (∀ m ∈ (segmentTemplate urls representation template []).mediaSegments duration,
      ∃ uri, m.uri = some uri ∧ Fetchable urls uri) ↔ ∀ n < expectedCount duration template,
        Addressable .number urls template representation (template.startNumber.toNat + n) := by
    simp only [hmedia, List.forall_mem_map, List.mem_range, Addressable]
  constructor
  · intro h
    obtain ⟨h1, h2, -, -⟩ := exists_gives_iff.1 h
    rw [hlength, getSize_iff hstatic] at h1
    simp only [Enumerable, htimeline]
    exact ⟨h1.1, h1.2.1, h1.2.2, haddressable.1 h2⟩
  · intro h
    simp only [Enumerable, htimeline] at h
    obtain ⟨hquotient, hceil, hlt, haddress⟩ := h
    refine exists_gives_iff.2 ⟨?_, haddressable.2 haddress, hgiven, ?_⟩
    · rw [hlength, getSize_iff hstatic]
      exact ⟨hquotient, hceil, hlt⟩
    · rw [hmedia, List.pairwise_map]
      apply List.pairwise_lt_range.imp_of_mem
      intro n n' hn hn' hlt
      exact resource_ne (Or.inl rfl) hnames (by omega) (haddress n (List.mem_range.1 hn))
        (haddress n' (List.mem_range.1 hn'))

theorem getMediaSegment_time {timelines : List Timeline} {times : List UInt32}
    (htimeline : template.segmentTimeline = some timelines) (n : ℕ) :
    (segmentTemplate urls representation template times).getMediaSegment n =
      match times[n]? with
      | some time =>
        (segmentUri .time template.media representation.id representation.bandwidth time).bind fun uri =>
          Segment.init urls uri [] .mediaSegment
      | none => some none := by
  simp only [getMediaSegment, toStream, RepresentationStream.getMediaSegment, htimeline]
  rfl

theorem expectedStartTimes_eq_nil {timelines : List Timeline} : expectedStartTimes timelines = [] ↔ timelines = [] := by
  cases timelines with
  | nil => exact iff_of_true rfl rfl
  | cons s ss => simp [expectedStartTimes, expectedPieces, Timeline.expectedTimes]

section Times

variable {timelines : List Timeline}

/-- the times are those expected if there are as many and each gives the segment of its number -/
theorem times_eq {times : List UInt32} (htimeline : template.segmentTimeline = some timelines)
    (hnames : Names .time template.media) (hlength : times.length = (expectedStartTimes timelines).length)
    (haddress : ∀ time ∈ expectedStartTimes timelines, Addressable .time urls template representation time)
    (hgiven : ∀ n time uri, (expectedStartTimes timelines)[n]? = some time →
      uriOf .time template representation time = some uri →
        (segmentTemplate urls representation template times).getMediaSegment n =
          Segment.init urls uri [] .mediaSegment) :
    times.map (·.toNat) = expectedStartTimes timelines := by
  apply List.ext_getElem (by rw [List.length_map, hlength])
  intro n hn hn'
  rw [List.length_map] at hn
  rw [List.getElem_map]
  obtain ⟨uri, huri, hfetch⟩ := haddress _ (List.getElem_mem hn')
  obtain ⟨seg, hseg⟩ := (init_iff.2 hfetch : ∃ seg, Segment.init urls uri [] .mediaSegment = some (some seg))
  have hmade := hgiven n _ uri (List.getElem?_eq_getElem hn') huri
  rw [getMediaSegment_time htimeline, List.getElem?_eq_getElem hn, hseg] at hmade
  obtain ⟨uri', huri', hseg'⟩ := Option.bind_eq_some_iff.1 hmade
  unfold uriOf at huri
  split_ifs at huri with hlt
  have heq : absoluteUri urls uri' = absoluteUri urls uri := by
    rw [← (Segment.init_spec hseg).2.1, ← (Segment.init_spec hseg').2.1]
  have hvalue := absoluteUri_inj (Or.inr rfl) hnames huri' huri (Segment.init_spec hseg').1 hfetch.1 heq
  rw [hvalue, UInt32.toNat_ofNat', Nat.mod_eq_of_lt hlt]

theorem ceil_eq_zero_iff {seconds : UInt32} {total : ℚ≥0} (h : seconds ≠ 0) : ⌈total / seconds.toNat⌉₊ = 0 ↔ total = 0 := by
  have hne : (seconds.toNat : ℚ≥0) ≠ 0 := by
    exact_mod_cast fun h0 => h (UInt32.toNat_inj.1 h0)
  rw [Nat.ceil_eq_zero, nonpos_iff_eq_zero, div_eq_zero_iff, or_iff_left hne]

/-- if every time has its segment, no time is missing -/
theorem length_eq_of_given {times : List UInt32} (htimeline : template.segmentTimeline = some timelines)
    (hle : times.length ≤ (expectedStartTimes timelines).length)
    (hsize : ∃ size, (segmentTemplate urls representation template times).getSize mpd = some size ∧
      size.toNat = (expectedStartTimes timelines).length)
    (haddress : ∀ time ∈ expectedStartTimes timelines, Addressable .time urls template representation time)
    (hgiven : ∀ n time uri, (expectedStartTimes timelines)[n]? = some time →
      uriOf .time template representation time = some uri →
        (segmentTemplate urls representation template times).getMediaSegment n =
          Segment.init urls uri [] .mediaSegment) :
    times.length = (expectedStartTimes timelines).length := by
  by_cases hnil : times = []
  · -- nothing is given then
    cases htimes : expectedStartTimes timelines with
    | nil => rw [hnil, List.length_nil, List.length_nil]
    | cons time rest =>
      obtain ⟨uri, huri, hfetch⟩ := haddress time (by rw [htimes]; exact List.mem_cons_self)
      obtain ⟨seg, hseg⟩ := (init_iff.2 hfetch : ∃ seg, Segment.init urls uri [] .mediaSegment = some (some seg))
      have hmade := hgiven 0 time uri (by rw [htimes, List.getElem?_cons_zero]) huri
      rw [getMediaSegment_time htimeline, hnil, hseg] at hmade
      exact absurd hmade (by simp)
  · obtain ⟨size, hget, hsize⟩ := hsize
    have hget' : some (UInt32.ofNat times.length) = some size := (if_neg hnil).symm.trans hget
    rw [← Option.some.inj hget', UInt32.toNat_ofNat'] at hsize
    have hmod := Nat.mod_le times.length (2 ^ 32)
    omega

/-- a complete list of times has the right size -/
theorem getSize_of_length (hstatic : mpd.type = "static".toList) {times : List UInt32}
    (hcount : times.length = (expectedStartTimes timelines).length)
    (hlt : (expectedStartTimes timelines).length < 2 ^ 32)
    (hnone : timelines = [] → template.duration / template.timescale ≠ 0 ∧ mpd.mediaPresentationDuration = 0) :
    ∃ size, (segmentTemplate urls representation template times).getSize mpd = some size ∧
      size.toNat = (expectedStartTimes timelines).length := by
  by_cases hnil : times = []
  · rw [hnil, List.length_nil] at hcount
    have htimelines := expectedStartTimes_eq_nil.1 (List.length_eq_zero_iff.1 hcount.symm)
    obtain ⟨hquotient, hduration⟩ := hnone htimelines
    rw [hnil, ← hcount, getSize_iff hstatic]
    exact ⟨hquotient, (ceil_eq_zero_iff hquotient).2 hduration, by decide⟩
  · refine ⟨_, if_neg hnil, ?_⟩
    rw [UInt32.toNat_ofNat', hcount, Nat.mod_eq_of_lt hlt]

/-- the number of one of its times gives the segment of that time -/
theorem getMediaSegment_of_time (htimeline : template.segmentTimeline = some timelines) {times : List UInt32} {n : ℕ}
    {time : UInt32} (htime : times[n]? = some time) {uri : Str}
    (huri : uriOf .time template representation time.toNat = some uri) :
    (segmentTemplate urls representation template times).getMediaSegment n = Segment.init urls uri [] .mediaSegment := by
  rw [uriOf, if_pos time.toNat_lt, UInt32.ofNat_toNat] at huri
  rw [getMediaSegment_time htimeline, htime]
  dsimp only
  rw [huri, Option.bind_some]

theorem gives_time (hstatic : mpd.type = "static".toList) (htimeline : template.segmentTimeline = some timelines)
    (hnames : Names .time template.media) (hincreasing : (expectedStartTimes timelines).Pairwise (· < ·))
    {times : List UInt32} (htimes : times = calculateSegmentStartTimes template.toSegmentTemplate) :
    (∃ segs, (segmentTemplate urls representation template times).Gives mpd duration segs) ↔
      (segmentTemplate urls representation template times).Enumerable mpd duration := by
  have hmedia : (segmentTemplate urls representation template times).mediaSegments duration =
      (expectedStartTimes timelines).map fun time => ⟨uriOf .time template representation time, []⟩ := by
    simp only [mediaSegments, htimeline]
  have hlength : ((segmentTemplate urls representation template times).mediaSegments duration).length =
      (expectedStartTimes timelines).length := by
    rw [hmedia, List.length_map]
  have haddressable : (∀ m ∈ (segmentTemplate urls representation template times).mediaSegments duration,
      ∃ uri, m.uri = some uri ∧ Fetchable urls uri) ↔ ∀ time ∈ expectedStartTimes timelines,
        Addressable .time urls template representation time := by
    simp only [hmedia, List.forall_mem_map, Addressable]
  have hle : times.length ≤ (expectedStartTimes timelines).length := by
    rw [htimes]
    exact length_calculate_le htimeline
  have hexplicit : times.map (·.toNat) = expectedStartTimes timelines ↔ AllExplicit 0 timelines := by
    rw [htimes]
    exact calculateSegmentStartTimes_iff htimeline
  constructor
  · intro h
    obtain ⟨h1, h2, h3, -⟩ := exists_gives_iff.1 h
    rw [hlength] at h1
    have haddress := haddressable.1 h2
    have hgiven : ∀ n time uri, (expectedStartTimes timelines)[n]? = some time →
        uriOf .time template representation time = some uri →
          (segmentTemplate urls representation template times).getMediaSegment n =
            Segment.init urls uri [] .mediaSegment := by
      intro n time uri htime huri
      exact h3 n _ uri (by rw [hmedia, List.getElem?_map, htime, Option.map_some]) huri
    have hcount := length_eq_of_given htimeline hle h1 haddress hgiven
    simp only [Enumerable, htimeline]
    refine ⟨hexplicit.1 (times_eq htimeline hnames hcount haddress hgiven), ?_, ?_, haddress⟩
    · obtain ⟨size, -, hsize⟩ := h1
      rw [← hsize]
      exact size.toNat_lt
    · intro hnone
      rw [expectedStartTimes_eq_nil.2 hnone, List.length_nil] at hcount h1
      rw [List.length_eq_zero_iff.1 hcount, getSize_iff hstatic] at h1
      exact ⟨h1.1, (ceil_eq_zero_iff h1.1).1 h1.2.1⟩
  · intro h
    simp only [Enumerable, htimeline] at h
    obtain ⟨hexp, hlt, hnone, haddress⟩ := h
    have heq := hexplicit.2 hexp
    have hcount : times.length = (expectedStartTimes timelines).length := by
      rw [← heq, List.length_map]
    refine exists_gives_iff.2 ⟨?_, haddressable.2 haddress, ?_, ?_⟩
    · rw [hlength]
      exact getSize_of_length hstatic hcount hlt hnone
    · intro n m uri hm huri
      rw [hmedia, List.getElem?_map, ← heq, List.getElem?_map, Option.map_map] at hm
      obtain ⟨time, htime, rfl⟩ := Option.map_eq_some_iff.1 hm
      exact getMediaSegment_of_time htimeline htime huri
    · rw [hmedia, List.pairwise_map]
      apply hincreasing.imp_of_mem
      intro time time' hmem hmem' hlt
      exact resource_ne (Or.inr rfl) hnames (Nat.ne_of_lt hlt) (haddress time hmem) (haddress time' hmem')

end Times

/-- one file under every number: the size is not 1 -/
theorem not_gives_singleMediaSegment : ¬ ∃ segs, (singleMediaSegment urls representation).Gives mpd duration segs := by
  intro h
  obtain ⟨segs, h⟩ := h
  obtain ⟨size, hget, hsize⟩ := h.size
  have hone : ((singleMediaSegment urls representation).mediaSegments duration).length = 1 := rfl
  rw [← Option.some.inj hget, hone] at hsize
  exact absurd hsize (by decide)

/-- the times of a template stream are those of its template -/
def Built : PlayerStream → Prop
  | segmentTemplate _ _ template times => times = calculateSegmentStartTimes template.toSegmentTemplate
  | _ => True

theorem built_create {type : Option RepresentationStreamType} {period adaptationSet : Level}
    (h : create type mpd period adaptationSet representation = some (some s)) : s.Built := by
  cases type with
  | none => exact absurd h (by simp [create])
  | some type =>
    cases type with
    | singleMediaSegment =>
      rw [← Option.some.inj (Option.some.inj h)]
      trivial
    | segmentList =>
      obtain ⟨l, _, hs⟩ := Option.map_eq_some_iff.1 h
      rw [← Option.some.inj hs]
      trivial
    | segmentTemplate =>
      obtain ⟨t, _, hs⟩ := Option.map_eq_some_iff.1 h
      rw [← Option.some.inj hs]
      rfl

/-- **What a stream gives.** In a static MPD it is the segments of the Representation exactly when it is enumerable. -/
theorem gives_iff (hstatic : mpd.type = "static".toList) (hbuilt : s.Built) (hscope : s.InScope) :
    (∃ segs, s.Gives mpd duration segs) ↔ s.Enumerable mpd duration := by
  cases s with
  | singleMediaSegment urls representation => exact iff_of_false not_gives_singleMediaSegment id
  | segmentList urls list => exact gives_segmentList
  | segmentTemplate urls representation template times =>
    cases htimeline : template.segmentTimeline with
    | none =>
      have hnil : times = [] := by
        rw [hbuilt, calculateSegmentStartTimes, htimeline]
      simp only [InScope, htimeline] at hscope
      subst hnil
      exact gives_number hstatic htimeline hscope
    | some timelines =>
      simp only [InScope, htimeline] at hscope
      exact gives_time hstatic htimeline hscope.1 hscope.2 hbuilt

end Kinds

end PlayerStream

end NdnDash.Mpd
