/-
Model of the conversion of a `Node` tree to the MPD object model (`Node.cpp`).

Each conversion sets the members that have an attribute, hands the children to the branch with their name, adds a copy of
the others to the additional sub nodes, unless their name is one that a helper (`SetCommonValuesFor...`) deals with, and
keeps the attributes. A number is what `strtoul` reads, in 32 bits.
-/
import NdnDash.Core.Dispatch
import NdnDash.Mpd.Objects

namespace NdnDash.Xml

open NdnDash.Text NdnDash.Dispatch NdnDash.Mpd.Object

/-- `String::ToBool` -/
def toBool (s : Str) : Bool :=
  s = "true".toList || s = "True".toList || s = "TRUE".toList

/-- the other `String::Split`, with `strtoul` for each piece -/
def splitNumbers (d : Char) (s : Str) : List UInt32 :=
  (split d s).map fun piece => UInt32.ofNat (strtoul piece)

namespace Node

mutual

/-- the copy constructor, which leaves out `mpdPath` -/
def copy : Node → Node
  | ⟨type, name, text, _, attributes, subNodes⟩ => ⟨type, name, text, [], attributes, copies subNodes⟩

/-- its loop -/
def copies : List Node → List Node
  | [] => []
  | n :: ns => n.copy :: copies ns

end

/-- `GetText` -/
def getText : Node → Str
  | ⟨type, _, text, _, _, []⟩ => if type = textType then text else []
  | ⟨type, _, text, _, _, n :: _⟩ => if type = textType then text else n.getText

/-! ## Attributes -/

/-- `GetAttributeValue`; `none` is an attribute that `HasAttribute` does not find -/
def getAttributeValue (n : Node) (key : String) : Option Str := n.attributes.lookup key.toList

/-- a text that an attribute sets -/
def str (n : Node) (key : String) (unset : Str) : Str := (n.getAttributeValue key).getD unset

/-- a number that an attribute sets -/
def number (n : Node) (key : String) (unset : UInt32) : UInt32 :=
  ((n.getAttributeValue key).map fun v => UInt32.ofNat (strtoul v)).getD unset

/-- a truth value that an attribute sets -/
def flag (n : Node) (key : String) (unset : Bool) : Bool := ((n.getAttributeValue key).map toBool).getD unset

/-- texts that an attribute adds, split at `d` -/
def pieces (n : Node) (key : String) (d : Char) : List Str := ((n.getAttributeValue key).map (split d)).getD []

/-- numbers that an attribute adds -/
def numbers (n : Node) (key : String) : List UInt32 := ((n.getAttributeValue key).map (splitNumbers ' ')).getD []

/-! ## Elements without a typed collection -/

def toBaseUrl (n : Node) : BaseUrl :=
  let baseUrl : BaseUrl := {}
  { baseUrl with
    serviceLocation := n.str "serviceLocation" baseUrl.serviceLocation
    byteRange := n.str "byteRange" baseUrl.byteRange
    url := if n.getText = "./".toList then n.mpdPath else n.getText
    rawAttributes := n.attributes }

def toDescriptor (n : Node) : Descriptor :=
  let descriptor : Descriptor := {}
  { descriptor with
    schemeIdUri := n.str "schemeIdUri" descriptor.schemeIdUri
    value := n.str "value" descriptor.value
    additionalSubNodes := copies n.subNodes
    rawAttributes := n.attributes }

def toURLType (type : Mpd.HTTPTransactionType) (n : Node) : URLType :=
  let urlType : URLType := { type := type }
  { urlType with
    sourceURL := n.str "sourceURL" urlType.sourceURL
    range := n.str "range" urlType.range
    additionalSubNodes := copies n.subNodes
    rawAttributes := n.attributes }

def toTimeline (n : Node) : Timeline :=
  let timeline : Timeline := {}
  { timeline with
    startTime := n.number "t" timeline.startTime
    duration := n.number "d" timeline.duration
    repeatCount := n.number "r" timeline.repeatCount
    rawAttributes := n.attributes }

def toSegmentURL (n : Node) : SegmentURL :=
  let segmentUrl : SegmentURL := {}
  { segmentUrl with
    mediaURI := n.str "media" segmentUrl.mediaURI
    mediaRange := n.str "mediaRange" segmentUrl.mediaRange
    indexURI := n.str "index" segmentUrl.indexURI
    indexRange := n.str "indexRange" segmentUrl.indexRange
    additionalSubNodes := copies n.subNodes
    rawAttributes := n.attributes }

def toSubset (n : Node) : Subset :=
  let subset : Subset := {}
  { subset with
    subset := subset.subset ++ n.numbers "contains"
    rawAttributes := n.attributes }

def toRange (n : Node) : Mpd.Object.Range :=
  let range : Mpd.Object.Range := {}
  { range with
    starttime := n.str "starttime" range.starttime
    duration := n.str "duration" range.duration }

/-! ## Elements with children -/

def programInformationChildren : List (Branch ProgramInformation Node Str) :=
  [⟨"Title".toList, fun c o => { o with title := c.getText }⟩,
   ⟨"Source".toList, fun c o => { o with source := c.getText }⟩,
   ⟨"Copyright".toList, fun c o => { o with copyright := c.getText }⟩]

def toProgramInformation (n : Node) : ProgramInformation :=
  let programInformation : ProgramInformation := {}
  { dispatch name programInformationChildren
      (fun c o => { o with additionalSubNodes := o.additionalSubNodes ++ [c.copy] })
      n.subNodes
      { programInformation with
        lang := n.str "lang" programInformation.lang
        moreInformationURL := n.str "moreInformationURL" programInformation.moreInformationURL } with
    rawAttributes := n.attributes }

def contentComponentChildren : List (Branch ContentComponent Node Str) :=
  [⟨"Accessibility".toList, fun c o => { o with accessibility := o.accessibility ++ [c.toDescriptor] }⟩,
   ⟨"Role".toList, fun c o => { o with role := o.role ++ [c.toDescriptor] }⟩,
   ⟨"Rating".toList, fun c o => { o with rating := o.rating ++ [c.toDescriptor] }⟩,
   ⟨"Viewpoint".toList, fun c o => { o with viewpoint := o.viewpoint ++ [c.toDescriptor] }⟩]

def toContentComponent (n : Node) : ContentComponent :=
  let contentComponent : ContentComponent := {}
  { dispatch name contentComponentChildren
      (fun c o => { o with additionalSubNodes := o.additionalSubNodes ++ [c.copy] })
      n.subNodes
      { contentComponent with
        id := n.number "id" contentComponent.id
        lang := n.str "lang" contentComponent.lang
        contentType := n.str "contentType" contentComponent.contentType
        par := n.str "par" contentComponent.par } with
    rawAttributes := n.attributes }

/-! ## Segments -/

def segmentTimelineChildren : List (Branch SegmentTimeline Node Str) :=
  [⟨"S".toList, fun c o => { o with timelines := o.timelines ++ [c.toTimeline] }⟩]

def toSegmentTimeline (n : Node) : SegmentTimeline :=
  let segmentTimeline : SegmentTimeline := {}
  { dispatch name segmentTimelineChildren
      (fun c o => { o with additionalSubNodes := o.additionalSubNodes ++ [c.copy] })
      n.subNodes segmentTimeline with
    rawAttributes := n.attributes }

def segmentBaseChildren : List (Branch SegmentBase Node Str) :=
  [⟨"Initialization".toList, fun c o => { o with initialization := some (c.toURLType .initializationSegment) }⟩,
   ⟨"RepresentationIndex".toList, fun c o => { o with representationIndex := some (c.toURLType .indexSegment) }⟩]

/-- `SetCommonValuesForSeg` -/
def setCommonValuesForSeg (n : Node) (object : SegmentBase) : SegmentBase :=
  dispatch name segmentBaseChildren (fun _ o => o) n.subNodes
    { object with
      timescale := n.number "timescale" object.timescale
      presentationTimeOffset := n.number "presentationTimeOffset" object.presentationTimeOffset
      indexRange := n.str "indexRange" object.indexRange
      indexRangeExact := n.flag "indexRangeExact" object.indexRangeExact }

def multipleSegmentBaseChildren : List (Branch MultipleSegmentBase Node Str) :=
  [⟨"SegmentTimeline".toList, fun c o => { o with segmentTimeline := some c.toSegmentTimeline }⟩,
   ⟨"BitstreamSwitching".toList,
    fun c o => { o with bitstreamSwitching := some (c.toURLType .bitstreamSwitchingSegment) }⟩]

/-- `SetCommonValuesForMSeg` -/
def setCommonValuesForMSeg (n : Node) (object : MultipleSegmentBase) : MultipleSegmentBase :=
  dispatch name multipleSegmentBaseChildren (fun _ o => o) n.subNodes
    { object with
      toSegmentBase := n.setCommonValuesForSeg object.toSegmentBase
      duration := n.number "duration" object.duration
      startNumber := n.number "startNumber" object.startNumber }

/-- the names that `ToSegmentBase` leaves to its helper -/
def notInSegmentBase : List Str := ["Initialization".toList, "RepresentationIndex".toList]

def toSegmentBase (n : Node) : SegmentBase :=
  let segmentBase : SegmentBase := {}
  { dispatch name []
      (addUnless name notInSegmentBase fun c o => { o with additionalSubNodes := o.additionalSubNodes ++ [c.copy] })
      n.subNodes (n.setCommonValuesForSeg segmentBase) with
    rawAttributes := n.attributes }

/-- the names that `ToSegmentList` leaves to its helpers -/
def notInSegmentList : List Str :=
  ["SegmentTimeline".toList, "BitstreamSwitching".toList, "Initialization".toList, "RepresentationIndex".toList]

def segmentListChildren : List (Branch SegmentList Node Str) :=
  [⟨"SegmentURL".toList, fun c o => { o with segmentURLs := o.segmentURLs ++ [c.toSegmentURL] }⟩]

/-- the members of a `SegmentList` that an attribute sets -/
def setSegmentListAttributes (n : Node) (o : SegmentList) : SegmentList :=
  { o with
    xlinkHref := n.str "xlink:href" o.xlinkHref
    xlinkActuate := n.str "xlink:actuate" o.xlinkActuate }

def toSegmentList (n : Node) : SegmentList :=
  let segmentList : SegmentList := {}
  { dispatch name segmentListChildren
      (addUnless name notInSegmentList fun c o => { o with additionalSubNodes := o.additionalSubNodes ++ [c.copy] })
      n.subNodes
      (n.setSegmentListAttributes
        { segmentList with
          toMultipleSegmentBase := n.setCommonValuesForMSeg segmentList.toMultipleSegmentBase }) with
    rawAttributes := n.attributes }

/-- the names that `ToSegmentTemplate` leaves to its helpers -/
def notInSegmentTemplate : List Str :=
  ["SegmentTimeline".toList, "BitstreamSwitching".toList, "Initialization".toList, "RepresentationIndex".toList]

/-- the members of a `SegmentTemplate` that an attribute sets -/
def setSegmentTemplateAttributes (n : Node) (o : SegmentTemplate) : SegmentTemplate :=
  { o with
    media := n.str "media" o.media
    index := n.str "index" o.index
    initializationTemplate := n.str "initialization" o.initializationTemplate
    bitstreamSwitchingTemplate := n.str "bitstreamSwitching" o.bitstreamSwitchingTemplate }

def toSegmentTemplate (n : Node) : SegmentTemplate :=
  let segmentTemplate : SegmentTemplate := {}
  { dispatch name []
      (addUnless name notInSegmentTemplate fun c o => { o with additionalSubNodes := o.additionalSubNodes ++ [c.copy] })
      n.subNodes
      (n.setSegmentTemplateAttributes
        { segmentTemplate with
          toMultipleSegmentBase := n.setCommonValuesForMSeg segmentTemplate.toMultipleSegmentBase }) with
    rawAttributes := n.attributes }

/-! ## Representations -/

def representationBaseChildren : List (Branch RepresentationBase Node Str) :=
  [⟨"FramePacking".toList, fun c o => { o with framePacking := o.framePacking ++ [c.toDescriptor] }⟩,
   ⟨"AudioChannelConfiguration".toList,
    fun c o => { o with audioChannelConfiguration := o.audioChannelConfiguration ++ [c.toDescriptor] }⟩,
   ⟨"ContentProtection".toList, fun c o => { o with contentProtection := o.contentProtection ++ [c.toDescriptor] }⟩]

/-- `SetCommonValuesForRep` -/
def setCommonValuesForRep (n : Node) (object : RepresentationBase) : RepresentationBase :=
  dispatch name representationBaseChildren (fun _ o => o) n.subNodes
    { object with
      profiles := object.profiles ++ n.pieces "profiles" ','
      width := n.number "width" object.width
      height := n.number "height" object.height
      sar := n.str "sar" object.sar
      frameRate := n.str "frameRate" object.frameRate
      audioSamplingRate := n.str "audioSamplingRate" object.audioSamplingRate
      mimeType := n.str "mimeType" object.mimeType
      segmentProfiles := object.segmentProfiles ++ n.pieces "segmentProfiles" ','
      codecs := object.codecs ++ n.pieces "codecs" ','
      maximumSAPPeriod := n.str "maximumSAPPeriod" object.maximumSAPPeriod
      startWithSAP :=
        ((n.getAttributeValue "startWithSAP").map fun v => UInt8.ofNat (strtoul v)).getD object.startWithSAP
      maxPlayoutRate := n.str "maxPlayoutRate" object.maxPlayoutRate
      codingDependency := n.flag "codingDependency" object.codingDependency
      scanType := n.str "scanType" object.scanType }

/-- the names that `ToSubRepresentation`, `ToRepresentation` and `ToAdaptationSet` leave to their helper -/
def notInRepresentation : List Str :=
  ["FramePacking".toList, "AudioChannelConfiguration".toList, "ContentProtection".toList]

/-- the members of a `SubRepresentation` that an attribute sets -/
def setSubRepresentationAttributes (n : Node) (o : SubRepresentation) : SubRepresentation :=
  { o with
    level := n.number "level" o.level
    dependencyLevel := o.dependencyLevel ++ n.numbers "dependencyLevel"
    bandWidth := n.number "bandwidth" o.bandWidth
    contentComponent := o.contentComponent ++ n.pieces "contentComponent" ' ' }

def toSubRepresentation (n : Node) : SubRepresentation :=
  let subRepresentation : SubRepresentation := {}
  { dispatch name []
      (addUnless name notInRepresentation fun c o => { o with additionalSubNodes := o.additionalSubNodes ++ [c.copy] })
      n.subNodes
      (n.setSubRepresentationAttributes
        { subRepresentation with
          toRepresentationBase := n.setCommonValuesForRep subRepresentation.toRepresentationBase }) with
    rawAttributes := n.attributes }

def representationChildren : List (Branch Representation Node Str) :=
  [⟨"BaseURL".toList, fun c o => { o with baseURLs := o.baseURLs ++ [c.toBaseUrl] }⟩,
   ⟨"SubRepresentation".toList,
    fun c o => { o with subRepresentations := o.subRepresentations ++ [c.toSubRepresentation] }⟩,
   ⟨"SegmentBase".toList, fun c o => { o with segmentBase := some c.toSegmentBase }⟩,
   ⟨"SegmentList".toList, fun c o => { o with segmentList := some c.toSegmentList }⟩,
   ⟨"SegmentTemplate".toList, fun c o => { o with segmentTemplate := some c.toSegmentTemplate }⟩]

/-- the members of a `Representation` that an attribute sets -/
def setRepresentationAttributes (n : Node) (o : Representation) : Representation :=
  { o with
    id := n.str "id" o.id
    bandwidth := n.number "bandwidth" o.bandwidth
    qualityRanking := n.number "qualityRanking" o.qualityRanking
    dependencyId := o.dependencyId ++ n.pieces "dependencyId" ' '
    mediaStreamStructureId := o.mediaStreamStructureId ++ n.pieces "mediaStreamStructureId" ' ' }

def toRepresentation (n : Node) : Representation :=
  let representation : Representation := {}
  { dispatch name representationChildren
      (addUnless name notInRepresentation fun c o => { o with additionalSubNodes := o.additionalSubNodes ++ [c.copy] })
      n.subNodes
      (n.setRepresentationAttributes
        { representation with
          toRepresentationBase := n.setCommonValuesForRep representation.toRepresentationBase }) with
    rawAttributes := n.attributes }

def adaptationSetChildren : List (Branch AdaptationSet Node Str) :=
  [⟨"Accessibility".toList, fun c o => { o with accessibility := o.accessibility ++ [c.toDescriptor] }⟩,
   ⟨"Role".toList, fun c o => { o with role := o.role ++ [c.toDescriptor] }⟩,
   ⟨"Rating".toList, fun c o => { o with rating := o.rating ++ [c.toDescriptor] }⟩,
   ⟨"Viewpoint".toList, fun c o => { o with viewpoint := o.viewpoint ++ [c.toDescriptor] }⟩,
   ⟨"ContentComponent".toList,
    fun c o => { o with contentComponent := o.contentComponent ++ [c.toContentComponent] }⟩,
   ⟨"BaseURL".toList, fun c o => { o with baseURLs := o.baseURLs ++ [c.toBaseUrl] }⟩,
   ⟨"SegmentBase".toList, fun c o => { o with segmentBase := some c.toSegmentBase }⟩,
   ⟨"SegmentList".toList, fun c o => { o with segmentList := some c.toSegmentList }⟩,
   ⟨"SegmentTemplate".toList, fun c o => { o with segmentTemplate := some c.toSegmentTemplate }⟩,
   ⟨"Representation".toList, fun c o => { o with representation := o.representation ++ [c.toRepresentation] }⟩]

/-- `SetSegmentAlignment` and `SetSubsegmentAlignment`, if there is the attribute -/
def setAlignment (s : Option Str) (o : SegmentAlignment) : SegmentAlignment :=
  match s with
  | none => o
  | some s =>
    if toBool s then { o with isBool := true, uses := true }
    else if s = "false".toList ∨ s = "False".toList ∨ s = "FALSE".toList then { o with isBool := true, uses := false }
    else { o with isBool := false, number := UInt32.ofNat (strtoul s) }

/-- the members of an `AdaptationSet` that an attribute sets; the attribute `subsegmentStartsWithSAP` goes through
`SetMaxHeight` -/
def setAdaptationSetAttributes (n : Node) (o : AdaptationSet) : AdaptationSet :=
  { o with
    xlinkHref := n.str "xlink:href" o.xlinkHref
    xlinkActuate := n.str "xlink:actuate" o.xlinkActuate
    id := n.number "id" o.id
    group := ((n.getAttributeValue "group").map fun v => UInt32.ofNat (strtoul v)).or o.group
    lang := n.str "lang" o.lang
    contentType := n.str "contentType" o.contentType
    par := n.str "par" o.par
    minBandwidth := n.number "minBandwidth" o.minBandwidth
    maxBandwidth := n.number "maxBandwidth" o.maxBandwidth
    minWidth := n.number "minWidth" o.minWidth
    maxWidth := n.number "maxWidth" o.maxWidth
    minHeight := n.number "minHeight" o.minHeight
    maxHeight :=
      ((n.getAttributeValue "subsegmentStartsWithSAP").map fun v => (UInt8.ofNat (strtoul v)).toUInt32).getD
        (n.number "maxHeight" o.maxHeight)
    minFramerate := n.str "minFrameRate" o.minFramerate
    maxFramerate := n.str "maxFrameRate" o.maxFramerate
    segmentAlignment := setAlignment (n.getAttributeValue "segmentAlignment") o.segmentAlignment
    subsegmentAlignment := setAlignment (n.getAttributeValue "subsegmentAlignment") o.subsegmentAlignment
    isBitstreamSwitching := n.flag "bitstreamSwitching" o.isBitstreamSwitching }

def toAdaptationSet (n : Node) : AdaptationSet :=
  let adaptationSet : AdaptationSet := {}
  { dispatch name adaptationSetChildren
      (addUnless name notInRepresentation fun c o => { o with additionalSubNodes := o.additionalSubNodes ++ [c.copy] })
      n.subNodes
      (n.setAdaptationSetAttributes
        { adaptationSet with
          toRepresentationBase := n.setCommonValuesForRep adaptationSet.toRepresentationBase }) with
    rawAttributes := n.attributes }

/-! ## The presentation -/

def periodChildren : List (Branch Period Node Str) :=
  [⟨"BaseURL".toList, fun c o => { o with baseURLs := o.baseURLs ++ [c.toBaseUrl] }⟩,
   ⟨"AdaptationSet".toList, fun c o => { o with adaptationSets := o.adaptationSets ++ [c.toAdaptationSet] }⟩,
   ⟨"Subset".toList, fun c o => { o with subsets := o.subsets ++ [c.toSubset] }⟩,
   ⟨"SegmentBase".toList, fun c o => { o with segmentBase := some c.toSegmentBase }⟩,
   ⟨"SegmentList".toList, fun c o => { o with segmentList := some c.toSegmentList }⟩,
   ⟨"SegmentTemplate".toList, fun c o => { o with segmentTemplate := some c.toSegmentTemplate }⟩]

/-- the members of a `Period` that an attribute sets -/
def setPeriodAttributes (n : Node) (o : Period) : Period :=
  { o with
    xlinkHref := n.str "xlink:href" o.xlinkHref
    xlinkActuate := n.str "xlink:actuate" o.xlinkActuate
    id := n.str "id" o.id
    start := n.str "start" o.start
    duration := n.str "duration" o.duration
    isBitstreamSwitching := n.flag "bitstreamSwitching" o.isBitstreamSwitching }

def toPeriod (n : Node) : Period :=
  { dispatch name periodChildren
      (fun c o => { o with additionalSubNodes := o.additionalSubNodes ++ [c.copy] })
      n.subNodes (n.setPeriodAttributes {}) with
    rawAttributes := n.attributes }

def metricsChildren : List (Branch Metrics Node Str) :=
  [⟨"Reporting".toList, fun c o => { o with reportings := o.reportings ++ [c.toDescriptor] }⟩,
   ⟨"Range".toList, fun c o => { o with ranges := o.ranges ++ [c.toRange] }⟩]

def toMetrics (n : Node) : Metrics :=
  let metrics : Metrics := {}
  { dispatch name metricsChildren
      (fun c o => { o with additionalSubNodes := o.additionalSubNodes ++ [c.copy] })
      n.subNodes { metrics with metrics := n.str "metrics" metrics.metrics } with
    rawAttributes := n.attributes }

def mpdChildren : List (Branch MPD Node Str) :=
  [⟨"ProgramInformation".toList,
    fun c o => { o with programInformations := o.programInformations ++ [c.toProgramInformation] }⟩,
   ⟨"BaseURL".toList, fun c o => { o with baseUrls := o.baseUrls ++ [c.toBaseUrl] }⟩,
   ⟨"Location".toList, fun c o => { o with locations := o.locations ++ [c.getText] }⟩,
   ⟨"Period".toList, fun c o => { o with periods := o.periods ++ [c.toPeriod] }⟩,
   ⟨"Metrics".toList, fun c o => { o with metrics := o.metrics ++ [c.toMetrics] }⟩]

/-- the members of an `MPD` that an attribute sets -/
def setMPDAttributes (n : Node) (o : MPD) : MPD :=
  { o with
    id := n.str "id" o.id
    profiles := o.profiles ++ n.pieces "profiles" ','
    type := n.str "type" o.type
    availabilityStarttime := n.str "availabilityStartTime" o.availabilityStarttime
    availabilityEndtime := n.str "availabilityEndTime" o.availabilityEndtime
    mediaPresentationDuration := n.str "mediaPresentationDuration" o.mediaPresentationDuration
    minimumUpdatePeriod := n.str "minimumUpdatePeriod" o.minimumUpdatePeriod
    minBufferTime := n.str "minBufferTime" o.minBufferTime
    timeShiftBufferDepth := n.str "timeShiftBufferDepth" o.timeShiftBufferDepth
    suggestedPresentationDelay := n.str "suggestedPresentationDelay" o.suggestedPresentationDelay
    maxSegmentDuration := n.str "maxSegmentDuration" o.maxSegmentDuration
    maxSubsegmentDuration := n.str "maxSubsegmentDuration" o.maxSubsegmentDuration }

def toMPD (n : Node) : MPD :=
  let mpdPathBaseUrl : BaseUrl := {}
  { dispatch name mpdChildren
      (fun c o => { o with additionalSubNodes := o.additionalSubNodes ++ [c.copy] })
      n.subNodes (n.setMPDAttributes {}) with
    mpdPathBaseUrl := some { mpdPathBaseUrl with url := n.mpdPath }
    rawAttributes := n.attributes }

end Node

end NdnDash.Xml
