/-
The classes of the MPD object model (`mpd/*.h`), with all the members that `Node` sets and the values that the constructors
give them; other modules of `Mpd` have those members only that the player reads.

A member that a constructor leaves uninitialised is `none` until it is set; its getter finds in it what is there in the
memory of the object (`Memory`). The two `double` members are the text that
`strtod` is given. What the client adds later (`fetchTime`, the connections and transactions) is left out.
-/
import NdnDash.Mpd.Segment
import NdnDash.Xml.DomParser

namespace NdnDash.Mpd.Object

open NdnDash.Xml

/-- `AbstractMPDElement` -/
structure AbstractMPDElement where
  additionalSubNodes : List Node := []
  rawAttributes : Attributes := []
deriving Repr

structure Descriptor extends AbstractMPDElement where
  schemeIdUri : Str := []
  value : Str := []
deriving Repr

structure BaseUrl extends AbstractMPDElement where
  url : Str := []
  serviceLocation : Str := []
  byteRange : Str := []
deriving Repr

structure ContentComponent extends AbstractMPDElement where
  accessibility : List Descriptor := []
  role : List Descriptor := []
  rating : List Descriptor := []
  viewpoint : List Descriptor := []
  id : UInt32 := 0
  lang : Str := []
  contentType : Str := []
  par : Str := []
deriving Repr

structure URLType extends AbstractMPDElement where
  sourceURL : Str := []
  range : Str := []
  type : HTTPTransactionType
deriving Repr

structure Timeline extends AbstractMPDElement where
  startTime : UInt32 := 0
  duration : UInt32 := 0
  repeatCount : UInt32 := 0
deriving Repr

structure SegmentTimeline extends AbstractMPDElement where
  timelines : List Timeline := []
deriving Repr

structure SegmentURL extends AbstractMPDElement where
  mediaURI : Str := []
  mediaRange : Str := []
  indexURI : Str := []
  indexRange : Str := []
deriving Repr

structure SegmentBase extends AbstractMPDElement where
  initialization : Option URLType := none
  representationIndex : Option URLType := none
  timescale : UInt32 := 1
  presentationTimeOffset : UInt32 := 0
  indexRange : Str := []
  indexRangeExact : Bool := false
deriving Repr

structure MultipleSegmentBase extends SegmentBase where
  segmentTimeline : Option SegmentTimeline := none
  bitstreamSwitching : Option URLType := none
  duration : UInt32 := 0
  startNumber : UInt32 := 1
deriving Repr

structure SegmentList extends MultipleSegmentBase where
  segmentURLs : List SegmentURL := []
  xlinkHref : Str := []
  xlinkActuate : Str := "onRequest".toList
deriving Repr

/-- the attributes `initialization` and `bitstreamSwitching` hide the elements of the base classes -/
structure SegmentTemplate extends MultipleSegmentBase where
  media : Str := []
  index : Str := []
  initializationTemplate : Str := []
  bitstreamSwitchingTemplate : Str := []
deriving Repr

structure RepresentationBase extends AbstractMPDElement where
  framePacking : List Descriptor := []
  audioChannelConfiguration : List Descriptor := []
  contentProtection : List Descriptor := []
  profiles : List Str := []
  width : UInt32 := 0
  height : UInt32 := 0
  sar : Str := []
  frameRate : Str := []
  audioSamplingRate : Str := []
  mimeType : Str := []
  segmentProfiles : List Str := []
  codecs : List Str := []
  maximumSAPPeriod : Str := []
  startWithSAP : UInt8 := 0
  maxPlayoutRate : Str := []
  codingDependency : Bool := false
  scanType : Str := []
deriving Repr

structure SubRepresentation extends RepresentationBase where
  level : UInt32 := 0
  dependencyLevel : List UInt32 := []
  bandWidth : UInt32 := 0
  contentComponent : List Str := []
deriving Repr

structure Representation extends RepresentationBase where
  baseURLs : List BaseUrl := []
  subRepresentations : List SubRepresentation := []
  segmentBase : Option SegmentBase := none
  segmentList : Option SegmentList := none
  segmentTemplate : Option SegmentTemplate := none
  id : Str := []
  bandwidth : UInt32 := 0
  qualityRanking : UInt32 := 0
  dependencyId : List Str := []
  mediaStreamStructureId : List Str := []
deriving Repr

/-- the three members for `segmentAlignment` (`segmentAlignmentIsBool`, `usesSegmentAlignment`, `segmentAlignment`), and
the three for `subsegmentAlignment` -/
structure SegmentAlignment where
  isBool : Bool := true
  uses : Bool := false
  number : UInt32 := 0
deriving Repr

structure AdaptationSet extends RepresentationBase where
  accessibility : List Descriptor := []
  role : List Descriptor := []
  rating : List Descriptor := []
  viewpoint : List Descriptor := []
  contentComponent : List ContentComponent := []
  baseURLs : List BaseUrl := []
  segmentBase : Option SegmentBase := none
  segmentList : Option SegmentList := none
  segmentTemplate : Option SegmentTemplate := none
  representation : List Representation := []
  xlinkHref : Str := []
  xlinkActuate : Str := "onRequest".toList
  id : UInt32 := 0
  group : Option UInt32 := none
  lang : Str := []
  contentType : Str := []
  par : Str := []
  minBandwidth : UInt32 := 0
  maxBandwidth : UInt32 := 0
  minWidth : UInt32 := 0
  maxWidth : UInt32 := 0
  minHeight : UInt32 := 0
  maxHeight : UInt32 := 0
  minFramerate : Str := []
  maxFramerate : Str := []
  segmentAlignment : SegmentAlignment := {}
  subsegmentAlignment : SegmentAlignment := {}
  subsegmentStartsWithSAP : Option UInt8 := none
  isBitstreamSwitching : Bool := false
deriving Repr

/-- what is in the memory of an `AdaptationSet` where its constructor writes nothing -/
structure Memory where
  group : UInt32
  subsegmentStartsWithSAP : UInt8
deriving DecidableEq, Repr

namespace AdaptationSet

/-- `GetGroup` -/
def getGroup (memory : Memory) (o : AdaptationSet) : UInt32 := o.group.getD memory.group

/-- `GetSubsegmentStartsWithSAP` -/
def getSubsegmentStartsWithSAP (memory : Memory) (o : AdaptationSet) : UInt8 :=
  o.subsegmentStartsWithSAP.getD memory.subsegmentStartsWithSAP

end AdaptationSet

structure Subset extends AbstractMPDElement where
  subset : List UInt32 := []
deriving Repr

structure Period extends AbstractMPDElement where
  baseURLs : List BaseUrl := []
  segmentBase : Option SegmentBase := none
  segmentList : Option SegmentList := none
  segmentTemplate : Option SegmentTemplate := none
  adaptationSets : List AdaptationSet := []
  subsets : List Subset := []
  xlinkHref : Str := []
  xlinkActuate : Str := "onRequest".toList
  id : Str := []
  start : Str := []
  duration : Str := []
  isBitstreamSwitching : Bool := false
deriving Repr

/-- not an `AbstractMPDElement` -/
structure Range where
  starttime : Str := []
  duration : Str := []
deriving Repr

structure Metrics extends AbstractMPDElement where
  reportings : List Descriptor := []
  ranges : List Range := []
  metrics : Str := []
deriving Repr

structure ProgramInformation extends AbstractMPDElement where
  title : Str := []
  source : Str := []
  copyright : Str := []
  lang : Str := []
  moreInformationURL : Str := []
deriving Repr

structure MPD extends AbstractMPDElement where
  programInformations : List ProgramInformation := []
  baseUrls : List BaseUrl := []
  locations : List Str := []
  periods : List Period := []
  metrics : List Metrics := []
  id : Str := []
  profiles : List Str := []
  type : Str := "static".toList
  availabilityStarttime : Str := []
  availabilityEndtime : Str := []
  mediaPresentationDuration : Str := []
  minimumUpdatePeriod : Str := []
  minBufferTime : Str := []
  timeShiftBufferDepth : Str := []
  suggestedPresentationDelay : Str := []
  maxSegmentDuration : Str := []
  maxSubsegmentDuration : Str := []
  mpdPathBaseUrl : Option BaseUrl := none
deriving Repr

end NdnDash.Mpd.Object
