/-
Model of the representation streams of the player: `BaseUrlResolver.cpp`, `SegmentListStream.cpp`,
`SegmentTemplateStream.cpp`, `SingleMediaSegmentStream.cpp` and their factory, as far as the media segments go.

A result `none` stands for a crash: a NULL list or template that is followed, `at(0)` of an empty vector, and what
`Segment.init` leaves open.
-/
import NdnDash.Mpd.Segment

namespace NdnDash.Mpd

open NdnDash.Path

/-! ## The elements -/

structure SegmentList where
  segmentURLs : List SegmentURL
deriving DecidableEq, Repr

structure MPD where
  baseUrls : List BaseUrl
  mpdPathBaseUrl : BaseUrl
deriving DecidableEq, Repr

structure Period where
  baseURLs : List BaseUrl
  segmentList : Option SegmentList
  segmentTemplate : Option SegmentTemplate
deriving DecidableEq, Repr

structure AdaptationSet where
  baseURLs : List BaseUrl
  segmentList : Option SegmentList
  segmentTemplate : Option SegmentTemplate
deriving DecidableEq, Repr

structure Representation where
  id : Str
  bandwidth : UInt32
  baseURLs : List BaseUrl
  segmentList : Option SegmentList
  segmentTemplate : Option SegmentTemplate
deriving DecidableEq, Repr

/-! ## Base URLs -/

/-- the base URL taken from one level: the one at the index, else the first -/
def urlAt (urls : List BaseUrl) (i : ℕ) : List BaseUrl :=
  match urls with
  | [] => []
  | url :: _ => [urls.getD i url]

/-- `ResolveBaseUrl` -/
def resolveBaseUrl (mpd : MPD) (period : Period) (adaptationSet : AdaptationSet)
    (mpdBaseUrl periodBaseUrl adaptationSetBaseUrl : ℕ) : List BaseUrl :=
  match urlAt mpd.baseUrls mpdBaseUrl ++ urlAt period.baseURLs periodBaseUrl ++
      urlAt adaptationSet.baseURLs adaptationSetBaseUrl with
  | [] => [mpd.mpdPathBaseUrl]
  | url :: urls => if isAbsolute url.url then url :: urls else mpd.mpdPathBaseUrl :: url :: urls

/-! ## Templates -/

namespace SegmentTemplate

/-- `ToSegment` -/
def toSegment (uri : Str) (baseurls : List BaseUrl) (representationID : Str) (bandwidth : UInt32)
    (type : HTTPTransactionType) (number time : UInt32) : Option (Option Segment) :=
  (replaceParameters uri representationID bandwidth number time).bind fun uri => Segment.init baseurls uri [] type

/-- `GetMediaSegmentFromNumber` -/
def getMediaSegmentFromNumber (s : SegmentTemplate) (baseurls : List BaseUrl) (representationID : Str)
    (bandwidth number : UInt32) : Option (Option Segment) :=
  toSegment s.media baseurls representationID bandwidth .mediaSegment number 0

/-- `GetMediaSegmentFromTime` -/
def getMediaSegmentFromTime (s : SegmentTemplate) (baseurls : List BaseUrl) (representationID : Str)
    (bandwidth time : UInt32) : Option (Option Segment) :=
  toSegment s.media baseurls representationID bandwidth .mediaSegment 0 time

end SegmentTemplate

/-- the times one `S` element adds; a repeated one without a start time adds none -/
def Timeline.startTimes (s : Timeline) : List UInt32 :=
  if 0 < s.repeatCount then
    if 0 < s.startTime then
      (List.range (s.repeatCount.toNat + 1)).map fun j => s.startTime + s.duration * UInt32.ofNat j
    else []
  else [s.startTime]

/-- `CalculateSegmentStartTimes` -/
def calculateSegmentStartTimes (s : SegmentTemplate) : List UInt32 :=
  match s.segmentTimeline with
  | none => []
  | some timelines => timelines.flatMap Timeline.startTimes

/-! ## The streams -/

inductive RepresentationStreamType
  | singleMediaSegment
  | segmentList
  | segmentTemplate
deriving DecidableEq, Repr

/-- a stream: the members its class has -/
inductive RepresentationStream
  | singleMediaSegment (baseUrls : List BaseUrl) (representation : Representation)
  | segmentList (baseUrls : List BaseUrl) (segmentList : Option SegmentList)
  | segmentTemplate (baseUrls : List BaseUrl) (representation : Representation) (segmentTemplate : SegmentTemplate)
      (segmentStartTimes : List UInt32)
deriving DecidableEq, Repr

namespace RepresentationStream

/-- `RepresentationStreamFactory::Create` with the constructors; a template that no level has is followed at once -/
def create (type : RepresentationStreamType) (mpd : MPD) (period : Period) (adaptationSet : AdaptationSet)
    (representation : Representation) : Option RepresentationStream :=
  let baseUrls := resolveBaseUrl mpd period adaptationSet 0 0 0
  match type with
  | .singleMediaSegment => some (.singleMediaSegment baseUrls representation)
  | .segmentList =>
    some (.segmentList baseUrls
      ((representation.segmentList.or adaptationSet.segmentList).or period.segmentList))
  | .segmentTemplate =>
    ((representation.segmentTemplate.or adaptationSet.segmentTemplate).or period.segmentTemplate).map
      fun t => .segmentTemplate baseUrls representation t (calculateSegmentStartTimes t)

/-- `GetMediaSegment` -/
def getMediaSegment (segmentNumber : ℕ) : RepresentationStream → Option (Option Segment)
  | .singleMediaSegment baseUrls representation =>
    (urlAt representation.baseURLs segmentNumber).head?.bind (·.toMediaSegment baseUrls)
  | .segmentList _ none => none
  | .segmentList baseUrls (some list) =>
    match list.segmentURLs[segmentNumber]? with
    | some segmentURL => segmentURL.toMediaSegment baseUrls
    | none => some none
  | .segmentTemplate baseUrls representation template segmentStartTimes =>
    if template.segmentTimeline.isSome then
      match segmentStartTimes[segmentNumber]? with
      | some time => template.getMediaSegmentFromTime baseUrls representation.id representation.bandwidth time
      | none => some none
    else
      template.getMediaSegmentFromNumber baseUrls representation.id representation.bandwidth
        (template.startNumber + UInt32.ofNat segmentNumber)

/-- the base URLs of a stream -/
def baseUrls : RepresentationStream → List BaseUrl
  | .singleMediaSegment baseUrls _ => baseUrls
  | .segmentList baseUrls _ => baseUrls
  | .segmentTemplate baseUrls _ _ _ => baseUrls

/-- the URI that a media segment has in the MPD, with the parameters of its template replaced -/
def mediaUri (segmentNumber : ℕ) : RepresentationStream → Option Str
  | .singleMediaSegment _ representation => (urlAt representation.baseURLs segmentNumber).head?.map (·.url)
  | .segmentList _ list => list.bind fun list => list.segmentURLs[segmentNumber]?.map (·.mediaURI)
  | .segmentTemplate _ representation template segmentStartTimes =>
    if template.segmentTimeline.isSome then
      segmentStartTimes[segmentNumber]?.bind fun time =>
        replaceParameters template.media representation.id representation.bandwidth 0 time
    else
      replaceParameters template.media representation.id representation.bandwidth
        (template.startNumber + UInt32.ofNat segmentNumber) 0

/-- every stream is made with the base URLs of the resolver -/
theorem baseUrls_create {type : RepresentationStreamType} {mpd : MPD} {period : Period} {adaptationSet : AdaptationSet}
    {representation : Representation} {stream : RepresentationStream}
    (h : create type mpd period adaptationSet representation = some stream) :
    stream.baseUrls = resolveBaseUrl mpd period adaptationSet 0 0 0 := by
  cases type with
  | singleMediaSegment =>
    rw [← Option.some.inj h]
    rfl
  | segmentList =>
    rw [← Option.some.inj h]
    rfl
  | segmentTemplate =>
    obtain ⟨template, _, rfl⟩ := Option.map_eq_some_iff.1 h
    rfl

/-- a media segment is made from its URI and the base URLs of the stream -/
theorem getMediaSegment_spec {stream : RepresentationStream} {n : ℕ} {seg : Segment}
    (h : stream.getMediaSegment n = some (some seg)) :
    ∃ uri range, stream.mediaUri n = some uri ∧
      Segment.init stream.baseUrls uri range .mediaSegment = some (some seg) := by
  cases stream with
  | singleMediaSegment baseUrls representation =>
    obtain ⟨b, hb, hinit⟩ := Option.bind_eq_some_iff.1 h
    exact ⟨b.url, b.byteRange, by simp [mediaUri, hb], hinit⟩
  | segmentList baseUrls list =>
    cases list with
    | none => exact absurd h (by simp [getMediaSegment])
    | some list =>
      rw [getMediaSegment] at h
      split at h
      · rename_i segmentURL hurl
        exact ⟨segmentURL.mediaURI, segmentURL.mediaRange, by simp [mediaUri, hurl], h⟩
      · exact absurd h (by simp)
  | segmentTemplate baseUrls representation template segmentStartTimes =>
    rw [getMediaSegment] at h
    split_ifs at h with htimeline
    · split at h
      · rename_i time htime
        obtain ⟨uri, huri, hinit⟩ := Option.bind_eq_some_iff.1 h
        exact ⟨uri, [], by simp [mediaUri, htimeline, htime, huri], hinit⟩
      · exact absurd h (by simp)
    · obtain ⟨uri, huri, hinit⟩ := Option.bind_eq_some_iff.1 h
      exact ⟨uri, [], by simp [mediaUri, htimeline, huri], hinit⟩

end RepresentationStream

end NdnDash.Mpd
