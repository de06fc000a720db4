/-
Model of what the player builds for a Representation (`AdaptationSetStream.cpp`): the type of its stream, the stream with
its size and its initialization segment, and the live numbers the receiver asks it for.

The media segments are those of `RepresentationStream`; here the elements have in addition what the size, the
initialization segment and the live numbers read. Durations and dates are in seconds, as `TimeResolver` returns them.
The quotient that `GetSize` rounds up is taken exactly: made as a `double` it is on the same side of every integer.

`none` is a crash or undefined behaviour, as there; `some none` is NULL.

- `create_determine`: the stream of the type that is determined can be built.
- `create_toStream`: it hands out the media segments of `RepresentationStream.create`.
-/
import Mathlib.Data.NNRat.Floor
import NdnDash.Mpd.LiveEdge
import NdnDash.Mpd.RepresentationStream

namespace NdnDash.Mpd

/-! ## The elements -/

/-- a `URLType` element; `Node::ToURLType` sets the type -/
structure URLType where
  sourceURL : Str
  range : Str
  type : HTTPTransactionType
deriving DecidableEq, Repr

/-- `ToSegment` -/
def URLType.toSegment (u : URLType) (baseurls : List BaseUrl) : Option (Option Segment) :=
  Segment.init baseurls u.sourceURL u.range u.type

structure SegmentBaseElement where
  initialization : Option URLType
deriving DecidableEq, Repr

structure SegmentListElement extends SegmentList where
  initialization : Option URLType
  duration : UInt32
deriving DecidableEq, Repr

/-- the attribute `initialization` is `Getinitialization`, the element is `GetInitialization` -/
structure SegmentTemplateElement extends SegmentTemplate where
  initializationTemplate : Str
  initialization : Option URLType
  duration : UInt32
  timescale : UInt32
deriving DecidableEq, Repr

/-- what the player reads of a Period, an AdaptationSet or a Representation -/
structure Level where
  baseURLs : List BaseUrl
  segmentBase : Option SegmentBaseElement
  segmentList : Option SegmentListElement
  segmentTemplate : Option SegmentTemplateElement
deriving DecidableEq, Repr

structure RepresentationElement extends Level where
  id : Str
  bandwidth : UInt32
deriving DecidableEq, Repr

structure MpdElement extends MPD where
  type : Str
  mediaPresentationDuration : ℚ≥0
  availabilityStarttime : UInt32
  timeShiftBufferDepth : ℚ≥0
deriving DecidableEq

namespace Level

def toPeriod (l : Level) : Period :=
  ⟨l.baseURLs, l.segmentList.map (·.toSegmentList), l.segmentTemplate.map (·.toSegmentTemplate)⟩

def toAdaptationSet (l : Level) : AdaptationSet :=
  ⟨l.baseURLs, l.segmentList.map (·.toSegmentList), l.segmentTemplate.map (·.toSegmentTemplate)⟩

end Level

def RepresentationElement.toRepresentation (r : RepresentationElement) : Representation :=
  ⟨r.id, r.bandwidth, r.baseURLs, r.segmentList.map (·.toSegmentList), r.segmentTemplate.map (·.toSegmentTemplate)⟩

/-- what the live numbers read; they use neither the timescale nor the size of the buffer -/
def MpdElement.live (mpd : MpdElement) (currentTime duration : UInt32) : LiveTemplate where
  type := mpd.type
  currentTime := currentTime
  availabilityStarttime := mpd.availabilityStarttime
  timeShiftBufferDepth := mpd.timeShiftBufferDepth
  duration := duration
  timescale := 1
  bufferSize := 0

/-! ## The streams -/

/-- a stream with the members its class has -/
inductive PlayerStream
  | singleMediaSegment (baseUrls : List BaseUrl) (representation : RepresentationElement)
  | segmentList (baseUrls : List BaseUrl) (segmentList : SegmentListElement)
  | segmentTemplate (baseUrls : List BaseUrl) (representation : RepresentationElement)
      (segmentTemplate : SegmentTemplateElement) (segmentStartTimes : List UInt32)
deriving DecidableEq, Repr

/-- `DetermineRepresentationStreamType`; `none` is `UNDEFINED` -/
def determineRepresentationStreamType (period adaptationSet : Level) (representation : RepresentationElement) :
    Option RepresentationStreamType :=
  if representation.segmentList.isSome then some .segmentList
  else if representation.segmentTemplate.isSome then some .segmentTemplate
  else if representation.segmentBase.isSome ∨ 0 < representation.baseURLs.length then some .singleMediaSegment
  else if adaptationSet.segmentList.isSome then some .segmentList
  else if adaptationSet.segmentTemplate.isSome then some .segmentTemplate
  else if adaptationSet.segmentBase.isSome then some .singleMediaSegment
  else if period.segmentList.isSome then some .segmentList
  else if period.segmentTemplate.isSome then some .segmentTemplate
  else if period.segmentBase.isSome then some .singleMediaSegment
  else none

namespace PlayerStream

/-- `RepresentationStreamFactory::Create` with the constructors -/
def create (type : Option RepresentationStreamType) (mpd : MpdElement) (period adaptationSet : Level)
    (representation : RepresentationElement) : Option (Option PlayerStream) :=
  let baseUrls := resolveBaseUrl mpd.toMPD period.toPeriod adaptationSet.toAdaptationSet 0 0 0
  match type with
  | some .singleMediaSegment => some (some (.singleMediaSegment baseUrls representation))
  | some .segmentList =>
    ((representation.segmentList.or adaptationSet.segmentList).or period.segmentList).map
      fun l => some (.segmentList baseUrls l)
  | some .segmentTemplate =>
    ((representation.segmentTemplate.or adaptationSet.segmentTemplate).or period.segmentTemplate).map
      fun t => some (.segmentTemplate baseUrls representation t (calculateSegmentStartTimes t.toSegmentTemplate))
  | none => some none

/-- the part that hands out media segments -/
def toStream : PlayerStream → RepresentationStream
  | singleMediaSegment baseUrls representation => .singleMediaSegment baseUrls representation.toRepresentation
  | segmentList baseUrls list => .segmentList baseUrls (some list.toSegmentList)
  | segmentTemplate baseUrls representation template segmentStartTimes =>
    .segmentTemplate baseUrls representation.toRepresentation template.toSegmentTemplate segmentStartTimes

/-- `GetMediaSegment` -/
def getMediaSegment (segmentNumber : ℕ) (s : PlayerStream) : Option (Option Segment) :=
  s.toStream.getMediaSegment segmentNumber

/-- `GetInitializationSegment` -/
def getInitializationSegment : PlayerStream → Option (Option Segment)
  | singleMediaSegment baseUrls representation =>
    match representation.segmentBase.bind (·.initialization) with
    | some initialization => initialization.toSegment baseUrls
    | none => some none
  | segmentList baseUrls list =>
    match list.initialization with
    | some initialization => initialization.toSegment baseUrls
    | none => some none
  | segmentTemplate baseUrls representation template _ =>
    match template.initialization with
    | some initialization => initialization.toSegment baseUrls
    | none =>
      SegmentTemplate.toSegment template.initializationTemplate baseUrls representation.id representation.bandwidth
        .initializationSegment 0 0

/-- the conversion of `ceil` of a quotient by a number of whole seconds -/
def ceilSize (duration : ℚ≥0) (seconds : UInt32) : Option UInt32 :=
  if seconds = 0 then none
  else if ⌈duration / seconds.toNat⌉₊ < 2 ^ 32 then some (UInt32.ofNat ⌈duration / seconds.toNat⌉₊) else none

/-- `GetSize` -/
def getSize (mpd : MpdElement) : PlayerStream → Option UInt32
  | singleMediaSegment _ _ => some (4294967295 - 1)
  | segmentList _ list => some (UInt32.ofNat list.segmentURLs.length)
  | segmentTemplate _ _ template segmentStartTimes =>
    if segmentStartTimes = [] then
      if mpd.type = "static".toList then
        if template.timescale = 0 then none
        else ceilSize mpd.mediaPresentationDuration (template.duration / template.timescale)
      else some (4294967295 - 1)
    else some (UInt32.ofNat segmentStartTimes.length)

/-- `GetAverageSegmentDuration` -/
def getAverageSegmentDuration : PlayerStream → UInt32
  | singleMediaSegment _ _ => 1
  | segmentList _ list => list.duration
  | segmentTemplate _ _ template _ => template.duration

/-- `GetFirstSegmentNumber` -/
def getFirstSegmentNumber (mpd : MpdElement) (currentTime : UInt32) (s : PlayerStream) : Option UInt32 :=
  match s with
  | singleMediaSegment _ _ => some 0
  | s => (mpd.live currentTime s.getAverageSegmentDuration).getFirstSegmentNumber

/-- `GetCurrentSegmentNumber` -/
def getCurrentSegmentNumber (mpd : MpdElement) (currentTime : UInt32) (s : PlayerStream) : Option UInt32 :=
  match s with
  | singleMediaSegment _ _ => some 0
  | s => (mpd.live currentTime s.getAverageSegmentDuration).getCurrentSegmentNumber

/-! ## What is built -/

variable {type : Option RepresentationStreamType} {mpd : MpdElement} {period adaptationSet : Level}
  {representation : RepresentationElement} {stream : PlayerStream}

theorem isSome_create_segmentList :
    (create (some .segmentList) mpd period adaptationSet representation).isSome =
      (representation.segmentList.isSome || adaptationSet.segmentList.isSome || period.segmentList.isSome) := by
  simp only [create, Option.isSome_map, Option.isSome_or]

theorem isSome_create_segmentTemplate :
    (create (some .segmentTemplate) mpd period adaptationSet representation).isSome =
      (representation.segmentTemplate.isSome || adaptationSet.segmentTemplate.isSome ||
        period.segmentTemplate.isSome) := by
  simp only [create, Option.isSome_map, Option.isSome_or]

/-- a type is determined from an element that is there, so the stream can be built -/
theorem create_determine (mpd : MpdElement) (period adaptationSet : Level) (representation : RepresentationElement) :
    (create (determineRepresentationStreamType period adaptationSet representation) mpd period adaptationSet
      representation).isSome = true := by
  unfold determineRepresentationStreamType
  split_ifs with h1 h2 h3 h4 h5 h6 h7 h8 h9
  · rw [isSome_create_segmentList, h1, Bool.true_or, Bool.true_or]
  · rw [isSome_create_segmentTemplate, h2, Bool.true_or, Bool.true_or]
  · rfl
  · rw [isSome_create_segmentList, h4, Bool.or_true, Bool.true_or]
  · rw [isSome_create_segmentTemplate, h5, Bool.or_true, Bool.true_or]
  · rfl
  · rw [isSome_create_segmentList, h7, Bool.or_true]
  · rw [isSome_create_segmentTemplate, h8, Bool.or_true]
  · rfl
  · rfl

/-- the media segments are those of the streams without the additional members -/
theorem create_toStream {type : RepresentationStreamType}
    (h : create (some type) mpd period adaptationSet representation = some (some stream)) :
    RepresentationStream.create type mpd.toMPD period.toPeriod adaptationSet.toAdaptationSet
      representation.toRepresentation = some stream.toStream := by
  cases type with
  | singleMediaSegment =>
    obtain rfl := Option.some.inj (Option.some.inj h)
    rfl
  | segmentList =>
    obtain ⟨l, hl, hstream⟩ := Option.map_eq_some_iff.1 h
    obtain rfl := Option.some.inj hstream
    have hlist : (((representation.segmentList.map (·.toSegmentList)).or
        (adaptationSet.segmentList.map (·.toSegmentList))).or (period.segmentList.map (·.toSegmentList))) =
          some l.toSegmentList := by
      rw [← Option.map_or, ← Option.map_or, hl, Option.map_some]
    exact congrArg (fun l => some (RepresentationStream.segmentList _ l)) hlist
  | segmentTemplate =>
    obtain ⟨t, ht, hstream⟩ := Option.map_eq_some_iff.1 h
    obtain rfl := Option.some.inj hstream
    have htemplate : (((representation.segmentTemplate.map (·.toSegmentTemplate)).or
        (adaptationSet.segmentTemplate.map (·.toSegmentTemplate))).or
          (period.segmentTemplate.map (·.toSegmentTemplate))) = some t.toSegmentTemplate := by
      rw [← Option.map_or, ← Option.map_or, ht, Option.map_some]
    exact Option.map_eq_some_iff.2 ⟨_, htemplate, rfl⟩

end PlayerStream

end NdnDash.Mpd
