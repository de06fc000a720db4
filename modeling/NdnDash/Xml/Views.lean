/-
What the objects of the MPD object model give out, and what it means that they hold every child of their element.

- `Kind` has the classes, `Kind.known` the names of the children that a class keeps, with their classes, and `Kind.convert`
  the conversions; an object of one of the classes in `keeping` gives out its `View`.
- `Keeps`: what an object of a class holds of its element, but for the children it has collections for.
- `Lossless`: the view holds every child once, in the collection of its name or as an additional sub node.
- `Element`: the elements of a tree that are converted, from the MPD down; `Held`: the objects they are converted to, each
  found in the collection of its name where its element is found among the children with that name.
-/
import NdnDash.Xml.Kept

namespace NdnDash.Xml

open NdnDash.Dispatch NdnDash.Mpd.Object

open scoped List

/-! ## Views -/

/-- what a child becomes -/
inductive Converted
  | mpd (o : MPD)
  | period (o : Period)
  | adaptationSet (o : AdaptationSet)
  | representation (o : Representation)
  | subRepresentation (o : SubRepresentation)
  | segmentList (o : SegmentList)
  | segmentTemplate (o : SegmentTemplate)
  | segmentBase (o : SegmentBase)
  | segmentTimeline (o : SegmentTimeline)
  | timeline (o : Timeline)
  | segmentURL (o : SegmentURL)
  | urlType (o : URLType)
  | baseUrl (o : BaseUrl)
  | descriptor (o : Descriptor)
  | contentComponent (o : ContentComponent)
  | subset (o : Subset)
  | range (o : Mpd.Object.Range)
  | programInformation (o : ProgramInformation)
  | metrics (o : Metrics)
  | text (s : Str)
  | node (n : Node)
deriving Repr

/-- the typed collections of an object by the name of their elements -/
abbrev Collections := List (Str × List Converted)

/-- what an object gives out -/
structure View where
  collections : Collections
  additionalSubNodes : List Node
  rawAttributes : Attributes
deriving Repr

def segmentTimelineCollections (o : SegmentTimeline) : Collections :=
  [("S".toList, o.timelines.map .timeline)]

def segmentBaseCollections (o : SegmentBase) : Collections :=
  [("Initialization".toList, o.initialization.toList.map .urlType),
   ("RepresentationIndex".toList, o.representationIndex.toList.map .urlType)]

def multipleSegmentBaseCollections (o : MultipleSegmentBase) : Collections :=
  [("SegmentTimeline".toList, o.segmentTimeline.toList.map .segmentTimeline),
   ("BitstreamSwitching".toList, o.bitstreamSwitching.toList.map .urlType)]

/-- with those of the base class -/
def segmentCollections (o : MultipleSegmentBase) : Collections :=
  segmentBaseCollections o.toSegmentBase ++ multipleSegmentBaseCollections o

def segmentListCollections (o : SegmentList) : Collections :=
  [("SegmentURL".toList, o.segmentURLs.map .segmentURL)]

def representationBaseCollections (o : RepresentationBase) : Collections :=
  [("FramePacking".toList, o.framePacking.map .descriptor),
   ("AudioChannelConfiguration".toList, o.audioChannelConfiguration.map .descriptor),
   ("ContentProtection".toList, o.contentProtection.map .descriptor)]

def representationCollections (o : Representation) : Collections :=
  [("BaseURL".toList, o.baseURLs.map .baseUrl),
   ("SubRepresentation".toList, o.subRepresentations.map .subRepresentation),
   ("SegmentBase".toList, o.segmentBase.toList.map .segmentBase),
   ("SegmentList".toList, o.segmentList.toList.map .segmentList),
   ("SegmentTemplate".toList, o.segmentTemplate.toList.map .segmentTemplate)]

def adaptationSetCollections (o : AdaptationSet) : Collections :=
  [("Accessibility".toList, o.accessibility.map .descriptor),
   ("Role".toList, o.role.map .descriptor),
   ("Rating".toList, o.rating.map .descriptor),
   ("Viewpoint".toList, o.viewpoint.map .descriptor),
   ("ContentComponent".toList, o.contentComponent.map .contentComponent),
   ("BaseURL".toList, o.baseURLs.map .baseUrl),
   ("SegmentBase".toList, o.segmentBase.toList.map .segmentBase),
   ("SegmentList".toList, o.segmentList.toList.map .segmentList),
   ("SegmentTemplate".toList, o.segmentTemplate.toList.map .segmentTemplate),
   ("Representation".toList, o.representation.map .representation)]

def periodCollections (o : Period) : Collections :=
  [("BaseURL".toList, o.baseURLs.map .baseUrl),
   ("AdaptationSet".toList, o.adaptationSets.map .adaptationSet),
   ("Subset".toList, o.subsets.map .subset),
   ("SegmentBase".toList, o.segmentBase.toList.map .segmentBase),
   ("SegmentList".toList, o.segmentList.toList.map .segmentList),
   ("SegmentTemplate".toList, o.segmentTemplate.toList.map .segmentTemplate)]

def contentComponentCollections (o : ContentComponent) : Collections :=
  [("Accessibility".toList, o.accessibility.map .descriptor),
   ("Role".toList, o.role.map .descriptor),
   ("Rating".toList, o.rating.map .descriptor),
   ("Viewpoint".toList, o.viewpoint.map .descriptor)]

def metricsCollections (o : Metrics) : Collections :=
  [("Reporting".toList, o.reportings.map .descriptor),
   ("Range".toList, o.ranges.map .range)]

def mpdCollections (o : MPD) : Collections :=
  [("ProgramInformation".toList, o.programInformations.map .programInformation),
   ("BaseURL".toList, o.baseUrls.map .baseUrl),
   ("Location".toList, o.locations.map .text),
   ("Period".toList, o.periods.map .period),
   ("Metrics".toList, o.metrics.map .metrics)]

/-- an object with typed collections or additional sub nodes for all its children -/
def Converted.view : Converted → Option View
  | mpd o => some ⟨mpdCollections o, o.additionalSubNodes, o.rawAttributes⟩
  | period o => some ⟨periodCollections o, o.additionalSubNodes, o.rawAttributes⟩
  | adaptationSet o =>
    some ⟨representationBaseCollections o.toRepresentationBase ++ adaptationSetCollections o, o.additionalSubNodes,
      o.rawAttributes⟩
  | representation o =>
    some ⟨representationBaseCollections o.toRepresentationBase ++ representationCollections o, o.additionalSubNodes,
      o.rawAttributes⟩
  | subRepresentation o =>
    some ⟨representationBaseCollections o.toRepresentationBase, o.additionalSubNodes, o.rawAttributes⟩
  | segmentList o =>
    some ⟨segmentCollections o.toMultipleSegmentBase ++ segmentListCollections o, o.additionalSubNodes,
      o.rawAttributes⟩
  | segmentTemplate o =>
    some ⟨segmentCollections o.toMultipleSegmentBase, o.additionalSubNodes, o.rawAttributes⟩
  | segmentBase o => some ⟨segmentBaseCollections o, o.additionalSubNodes, o.rawAttributes⟩
  | segmentTimeline o => some ⟨segmentTimelineCollections o, o.additionalSubNodes, o.rawAttributes⟩
  | contentComponent o => some ⟨contentComponentCollections o, o.additionalSubNodes, o.rawAttributes⟩
  | metrics o => some ⟨metricsCollections o, o.additionalSubNodes, o.rawAttributes⟩
  | _ => none

/-! ## Kinds -/

/-- the classes -/
inductive Kind
  | mpd
  | period
  | adaptationSet
  | representation
  | subRepresentation
  | segmentList
  | segmentTemplate
  | segmentBase
  | segmentTimeline
  | timeline
  | segmentURL
  | urlType (type : Mpd.HTTPTransactionType)
  | baseUrl
  | descriptor
  | contentComponent
  | subset
  | range
  | programInformation
  | metrics
  | text
deriving DecidableEq, Repr

/-- the names a child is known by, with its class -/
abbrev Names := List (Str × Kind)

def segmentTimelineNames : Names := [("S".toList, .timeline)]

def segmentBaseNames : Names :=
  [("Initialization".toList, .urlType .initializationSegment),
   ("RepresentationIndex".toList, .urlType .indexSegment)]

def multipleSegmentBaseNames : Names :=
  [("SegmentTimeline".toList, .segmentTimeline),
   ("BitstreamSwitching".toList, .urlType .bitstreamSwitchingSegment)]

def segmentNames : Names := segmentBaseNames ++ multipleSegmentBaseNames

def segmentListNames : Names := [("SegmentURL".toList, .segmentURL)]

def representationBaseNames : Names :=
  [("FramePacking".toList, .descriptor),
   ("AudioChannelConfiguration".toList, .descriptor),
   ("ContentProtection".toList, .descriptor)]

def representationNames : Names :=
  [("BaseURL".toList, .baseUrl),
   ("SubRepresentation".toList, .subRepresentation),
   ("SegmentBase".toList, .segmentBase),
   ("SegmentList".toList, .segmentList),
   ("SegmentTemplate".toList, .segmentTemplate)]

def adaptationSetNames : Names :=
  [("Accessibility".toList, .descriptor),
   ("Role".toList, .descriptor),
   ("Rating".toList, .descriptor),
   ("Viewpoint".toList, .descriptor),
   ("ContentComponent".toList, .contentComponent),
   ("BaseURL".toList, .baseUrl),
   ("SegmentBase".toList, .segmentBase),
   ("SegmentList".toList, .segmentList),
   ("SegmentTemplate".toList, .segmentTemplate),
   ("Representation".toList, .representation)]

def periodNames : Names :=
  [("BaseURL".toList, .baseUrl),
   ("AdaptationSet".toList, .adaptationSet),
   ("Subset".toList, .subset),
   ("SegmentBase".toList, .segmentBase),
   ("SegmentList".toList, .segmentList),
   ("SegmentTemplate".toList, .segmentTemplate)]

def contentComponentNames : Names :=
  [("Accessibility".toList, .descriptor),
   ("Role".toList, .descriptor),
   ("Rating".toList, .descriptor),
   ("Viewpoint".toList, .descriptor)]

def metricsNames : Names :=
  [("Reporting".toList, .descriptor),
   ("Range".toList, .range)]

def mpdNames : Names :=
  [("ProgramInformation".toList, .programInformation),
   ("BaseURL".toList, .baseUrl),
   ("Location".toList, .text),
   ("Period".toList, .period),
   ("Metrics".toList, .metrics)]

/-- the classes that keep every child -/
def keeping : List Kind :=
  [.mpd, .period, .adaptationSet, .representation, .subRepresentation, .segmentList, .segmentTemplate, .segmentBase,
   .segmentTimeline, .contentComponent, .metrics]

namespace Kind

def known : Kind → Names
  | mpd => mpdNames
  | period => periodNames
  | adaptationSet => representationBaseNames ++ adaptationSetNames
  | representation => representationBaseNames ++ representationNames
  | subRepresentation => representationBaseNames
  | segmentList => segmentNames ++ segmentListNames
  | segmentTemplate => segmentNames
  | segmentBase => segmentBaseNames
  | segmentTimeline => segmentTimelineNames
  | contentComponent => contentComponentNames
  | metrics => metricsNames
  | _ => []

def convert : Kind → Node → Converted
  | mpd, n => .mpd n.toMPD
  | period, n => .period n.toPeriod
  | adaptationSet, n => .adaptationSet n.toAdaptationSet
  | representation, n => .representation n.toRepresentation
  | subRepresentation, n => .subRepresentation n.toSubRepresentation
  | segmentList, n => .segmentList n.toSegmentList
  | segmentTemplate, n => .segmentTemplate n.toSegmentTemplate
  | segmentBase, n => .segmentBase n.toSegmentBase
  | segmentTimeline, n => .segmentTimeline n.toSegmentTimeline
  | timeline, n => .timeline n.toTimeline
  | segmentURL, n => .segmentURL n.toSegmentURL
  | urlType type, n => .urlType (n.toURLType type)
  | baseUrl, n => .baseUrl n.toBaseUrl
  | descriptor, n => .descriptor n.toDescriptor
  | contentComponent, n => .contentComponent n.toContentComponent
  | subset, n => .subset n.toSubset
  | range, n => .range n.toRange
  | programInformation, n => .programInformation n.toProgramInformation
  | metrics, n => .metrics n.toMetrics
  | text, n => .text n.getText

end Kind

/-- each name with its conversion -/
def table (names : Names) : List (Str × (Node → Converted)) := names.map fun e => (e.1, e.2.convert)

/-! ## The elements of a tree -/

/-- the names of the children a class has a member for, not a vector -/
def singleValued : List Str :=
  ["SegmentBase".toList, "SegmentList".toList, "SegmentTemplate".toList, "SegmentTimeline".toList,
   "Initialization".toList, "RepresentationIndex".toList, "BitstreamSwitching".toList]

def AtMostOnce (n : Node) : Prop := ∀ k ∈ singleValued, (n.subNodes.filter (·.name = k)).length ≤ 1

/-- an object of a class holds this of its element -/
def Keeps : Kind → Node → Converted → Prop
  | .mpd, n, .mpd o => o.rawAttributes = n.attributes
  | .period, n, .period o => o.rawAttributes = n.attributes
  | .adaptationSet, n, .adaptationSet o => o.rawAttributes = n.attributes
  | .representation, n, .representation o => o.rawAttributes = n.attributes
  | .subRepresentation, n, .subRepresentation o => o.rawAttributes = n.attributes
  | .segmentList, n, .segmentList o => o.rawAttributes = n.attributes
  | .segmentTemplate, n, .segmentTemplate o => o.rawAttributes = n.attributes
  | .segmentBase, n, .segmentBase o => o.rawAttributes = n.attributes
  | .segmentTimeline, n, .segmentTimeline o => o.rawAttributes = n.attributes
  | .contentComponent, n, .contentComponent o =>
    Sets n "id" (fun v => UInt32.ofNat (Text.strtoul v)) 0 o.id ∧ Sets n "lang" id [] o.lang ∧
      Sets n "contentType" id [] o.contentType ∧ Sets n "par" id [] o.par ∧ o.rawAttributes = n.attributes
  | .metrics, n, .metrics o => Sets n "metrics" id [] o.metrics ∧ o.rawAttributes = n.attributes
  | .timeline, n, .timeline o => KeepsTimeline n o
  | .segmentURL, n, .segmentURL o => KeepsSegmentURL n o
  | .urlType type, n, .urlType o => KeepsURLType type n o
  | .baseUrl, n, .baseUrl o => KeepsBaseUrl n o
  | .descriptor, n, .descriptor o => KeepsDescriptor n o
  | .subset, n, .subset o => KeepsSubset n o
  | .range, n, .range o => KeepsRange n o
  | .programInformation, n, .programInformation o => KeepsProgramInformation n o
  | .text, n, .text s => HasText n s
  | _, _, _ => False

/-- what a child becomes: an object of the class that its name is known for, or a copy -/
def Placed (k : Kind) (c : Node) (x : Converted) : Prop :=
  (∃ k', (c.name, k') ∈ k.known ∧ Keeps k' c x) ∨ (c.name ∉ k.known.map Prod.fst ∧ ∃ m, x = .node m ∧ Copied c m)

/-- the view of the object of an element, of a class, holds every child once: converted in the collection of its name, with
the collections in document order, or as a copy in the additional sub nodes, in document order -/
structure Lossless (k : Kind) (n : Node) (v : View) : Prop where
  collections : List.Forall₂ (fun (e : Str × Kind) (c : Str × List Converted) =>
    c.1 = e.1 ∧ List.Forall₂ (Keeps e.2) (n.subNodes.filter (·.name = e.1)) c.2) k.known v.collections
  additionalSubNodes :
    List.Forall₂ Copied (n.subNodes.filter (·.name ∉ k.known.map Prod.fst)) v.additionalSubNodes
  once : ∃ xs, v.collections.flatMap Prod.snd ++ v.additionalSubNodes.map .node ~ xs ∧
    List.Forall₂ (Placed k) n.subNodes xs
  rawAttributes : v.rawAttributes = n.attributes

/-- the elements below an element, and itself -/
inductive InTree (root : Node) : Node → Prop
  | root : InTree root root
  | child {n c : Node} (h : InTree root n) (hc : c ∈ n.subNodes) : InTree root c

/-- the elements that are converted, with their classes: the MPD, and of each the children it knows -/
inductive Element (root : Node) : Kind → Node → Prop
  | root : Element root .mpd root
  | child {k k' : Kind} {n c : Node} (h : Element root k n) (hc : c ∈ n.subNodes) (hk : (c.name, k') ∈ k.known) :
    Element root k' c

/-- the object of an element: the MPD, and for the `i`-th child of a name the `i`-th object in the collection of that
name -/
inductive Held (root : Node) : Kind → Node → Converted → Prop
  | root : Held root .mpd root (.mpd root.toMPD)
  | child {k k' : Kind} {n c : Node} {o x : Converted} {v : View} {name : Str} {xs : List Converted}
    (h : Held root k n o) (hv : o.view = some v) (hxs : (name, xs) ∈ v.collections) (hk : (name, k') ∈ k.known)
    (hx : (c, x) ∈ (n.subNodes.filter (·.name = name)).zip xs) : Held root k' c x

end NdnDash.Xml
