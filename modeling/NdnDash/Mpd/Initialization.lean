/-
The initialization segment of a Representation: what the MPD defines it by, and when the stream that is built for the
Representation makes it (`GetInitializationSegment`).

Segments are described by a SegmentList, a SegmentTemplate or a SegmentBase: that of the Representation, else of the
AdaptationSet, else of the Period. What this element leaves open is given by those of the same kind further out
(`initDefinition`). An initialization segment is defined by an `Initialization` element, whose URL is that of the base
URLs if it has none of its own, or by the attribute of a template.

What the code does: a stream reads the one element it is built from, and one for a single segment that of the
Representation only (`readDefinition`); an element without `sourceURL` is no segment.

- `definition_create`: a stream has the definition that is read.
- `getInitializationSegment_iff`: the segment that is defined is made exactly when its definition is read and can be
  converted.
-/
import NdnDash.Mpd.SegmentReferences

namespace NdnDash.Mpd

/-! ## Definitions -/

/-- what an initialization segment is defined by -/
inductive InitDefinition
  | element (initialization : URLType)
  | template (initialization : Str)
deriving DecidableEq, Repr

/-- the element comes before the attribute -/
def SegmentTemplateElement.initDefinition (t : SegmentTemplateElement) : Option InitDefinition :=
  (t.initialization.map .element).or
    (if t.initializationTemplate = [] then none else some (.template t.initializationTemplate))

namespace Level

/-- the kind of element that describes the segments of a level -/
def describedBy (l : Level) : Option RepresentationStreamType :=
  if l.segmentList.isSome then some .segmentList
  else if l.segmentTemplate.isSome then some .segmentTemplate
  else if l.segmentBase.isSome then some .singleMediaSegment
  else none

/-- what its element of a kind defines -/
def initDefinition (l : Level) : RepresentationStreamType → Option InitDefinition
  | .segmentList => l.segmentList.bind fun list => list.initialization.map .element
  | .segmentTemplate => l.segmentTemplate.bind (·.initDefinition)
  | .singleMediaSegment => l.segmentBase.bind fun base => base.initialization.map .element

end Level

/-- the definition for a Representation -/
def initDefinition (period adaptationSet : Level) (representation : RepresentationElement) : Option InitDefinition :=
  ([representation.toLevel, adaptationSet, period].findSome? (·.describedBy)).bind fun kind =>
    [representation.toLevel, adaptationSet, period].findSome? (·.initDefinition kind)

/-- the definition that is read: in the innermost element, a SegmentBase only in the Representation, and nothing outside of
a Representation that has a BaseURL -/
def readDefinition (period adaptationSet : Level) (representation : RepresentationElement) : Option InitDefinition :=
  match representation.describedBy with
  | some kind => representation.initDefinition kind
  | none =>
    if representation.baseURLs ≠ [] then none
    else
      ([adaptationSet, period].find? (·.describedBy.isSome)).bind fun level =>
        if level.describedBy = some .singleMediaSegment then none else level.describedBy.bind level.initDefinition

namespace InitDefinition

/-- a segment is the one defined, behind these base URLs, for this Representation -/
def Denotes (baseUrls : List BaseUrl) (representation : RepresentationElement) (seg : Segment) : InitDefinition → Prop
  | element u =>
    seg.absoluteuri = absoluteUri baseUrls u.sourceURL ∧ ∀ spec : RangeSpec, u.range = spec.written → spec.Denotes seg
  | template initialization =>
    (∃ uri, replaceParameters initialization representation.id representation.bandwidth 0 0 = some uri ∧
      seg.absoluteuri = absoluteUri baseUrls uri) ∧ seg.hasByteRange = false

/-- what can be converted: a URL of its own that leads to a host and a path, with a range that can be read -/
def Convertible (baseUrls : List BaseUrl) (representation : RepresentationElement) : InitDefinition → Prop
  | element u => Fetchable baseUrls u.sourceURL ∧ ∀ spec : RangeSpec, u.range = spec.written → spec.Readable
  | template initialization =>
    ∃ uri, replaceParameters initialization representation.id representation.bandwidth 0 0 = some uri ∧ Fetchable baseUrls uri

/-- an empty range is none -/
theorem readable_of_nil {spec : RangeSpec} (h : [] = spec.written) : spec.Readable := by
  cases spec with
  | absent => trivial
  | closed first last hle => simp [RangeSpec.written] at h
  | openEnded first => simp [RangeSpec.written] at h

/-- the conversion of a stream -/
def toSegment (baseUrls : List BaseUrl) (representation : RepresentationElement) :
    InitDefinition → Option (Option Segment)
  | element u => u.toSegment baseUrls
  | template initialization =>
    SegmentTemplate.toSegment initialization baseUrls representation.id representation.bandwidth .initializationSegment 0 0

/-- **A conversion.** It makes the segment that is defined exactly when the definition can be converted. -/
theorem toSegment_iff (baseUrls : List BaseUrl) (representation : RepresentationElement) (d : InitDefinition) :
    (∃ seg, d.toSegment baseUrls representation = some (some seg) ∧ d.Denotes baseUrls representation seg) ↔
      d.Convertible baseUrls representation := by
  cases d with
  | element u =>
    constructor
    · intro h
      obtain ⟨seg, hseg, -, hdenotes⟩ := h
      refine ⟨init_iff.1 ⟨seg, hseg⟩, fun spec hspec => ?_⟩
      have hresource := congrArg Prod.snd (resource_init hseg)
      rw [hspec] at hresource
      exact (denotes_iff spec hresource).1 (hdenotes spec hspec)
    · intro h
      obtain ⟨hfetchable, hreadable⟩ := h
      obtain ⟨seg, hseg⟩ : ∃ seg, Segment.init baseUrls u.sourceURL u.range u.type = some (some seg) :=
        init_iff.2 hfetchable
      refine ⟨seg, hseg, (Segment.init_spec hseg).2.1, fun spec hspec => ?_⟩
      have hresource := congrArg Prod.snd (resource_init hseg)
      rw [hspec] at hresource
      exact (denotes_iff spec hresource).2 (hreadable spec hspec)
  | template initialization =>
    constructor
    · intro h
      obtain ⟨seg, hseg, -⟩ := h
      obtain ⟨uri, huri, hinit⟩ := Option.bind_eq_some_iff.1 hseg
      exact ⟨uri, huri, init_iff.1 ⟨seg, hinit⟩⟩
    · intro h
      obtain ⟨uri, huri, hfetchable⟩ := h
      obtain ⟨seg, hseg⟩ : ∃ seg, Segment.init baseUrls uri [] .initializationSegment = some (some seg) :=
        init_iff.2 hfetchable
      refine ⟨seg, Option.bind_eq_some_iff.2 ⟨uri, huri, hseg⟩, ⟨uri, huri, (Segment.init_spec hseg).2.1⟩, ?_⟩
      exact (denotes_iff .absent (congrArg Prod.snd (resource_init hseg))).2 trivial

end InitDefinition

/-! ## The streams -/

section Streams

variable {mpd : MpdElement} {period adaptationSet : Level} {representation : RepresentationElement}
  {stream : PlayerStream} {d : InitDefinition}

namespace PlayerStream

/-- the definition in the members of a stream -/
def definition : PlayerStream → Option InitDefinition
  | singleMediaSegment _ representation => representation.initDefinition .singleMediaSegment
  | segmentList _ list => list.initialization.map .element
  | segmentTemplate _ _ template _ => template.initDefinition

/-- without a definition nothing is made -/
theorem getInitializationSegment_none (h : stream.definition = none) : stream.getInitializationSegment = some none := by
  cases stream with
  | singleMediaSegment baseUrls representation =>
    have hnone : representation.segmentBase.bind (·.initialization) = none := by
      simpa [definition, Level.initDefinition, Option.bind_eq_none_iff] using h
    rw [getInitializationSegment, hnone]
  | segmentList baseUrls list =>
    rw [getInitializationSegment, Option.map_eq_none_iff.1 h]
  | segmentTemplate baseUrls representation template times =>
    obtain ⟨helement, hattribute⟩ := Option.or_eq_none_iff.1 h
    have hempty : template.initializationTemplate = [] := by
      by_contra hne
      rw [if_neg hne] at hattribute
      exact absurd hattribute (by simp)
    rw [getInitializationSegment, Option.map_eq_none_iff.1 helement, hempty]
    rfl

end PlayerStream

theorem describedBy_eq_none {l : Level} (h : l.describedBy = none) :
    l.segmentList = none ∧ l.segmentTemplate = none ∧ l.segmentBase = none := by
  unfold Level.describedBy at h
  split_ifs at h with hlist htemplate hbase
  rw [Option.not_isSome_iff_eq_none] at hlist htemplate hbase
  exact ⟨hlist, htemplate, hbase⟩

theorem describedBy_segmentList {l : Level} (h : l.describedBy = some .segmentList) :
    ∃ list, l.segmentList = some list := by
  by_contra hnone
  have hlist : ¬ l.segmentList.isSome = true := fun hsome => hnone (Option.isSome_iff_exists.1 hsome)
  rw [Level.describedBy, if_neg hlist] at h
  split_ifs at h <;> simp at h

theorem describedBy_segmentTemplate {l : Level} (h : l.describedBy = some .segmentTemplate) :
    ∃ template, l.segmentTemplate = some template := by
  by_contra hnone
  have htemplate : ¬ l.segmentTemplate.isSome = true := fun hsome => hnone (Option.isSome_iff_exists.1 hsome)
  rw [Level.describedBy, if_neg htemplate] at h
  split_ifs at h <;> simp at h

/-- a level that describes nothing defines nothing -/
theorem initDefinition_of_undescribed {l : Level} (h : l.describedBy = none) (kind : RepresentationStreamType) :
    l.initDefinition kind = none := by
  obtain ⟨hlist, htemplate, hbase⟩ := describedBy_eq_none h
  cases kind with
  | segmentList => rw [Level.initDefinition, hlist, Option.bind_none]
  | segmentTemplate => rw [Level.initDefinition, htemplate, Option.bind_none]
  | singleMediaSegment => rw [Level.initDefinition, hbase, Option.bind_none]

/-- the definition that is read is the one of the Representation -/
theorem initDefinition_of_read (h : readDefinition period adaptationSet representation = some d) :
    initDefinition period adaptationSet representation = some d := by
  unfold readDefinition at h
  unfold initDefinition
  cases hrepresentation : representation.describedBy with
  | some kind =>
    rw [hrepresentation] at h
    simp [List.findSome?_cons, hrepresentation, h]
  | none =>
    rw [hrepresentation] at h
    dsimp only at h
    split_ifs at h with hurls
    cases hset : adaptationSet.describedBy with
    | some kind =>
      simp only [List.find?_cons, hset, Option.isSome_some, Option.bind_some, Option.ite_none_left_eq_some] at h
      simp [List.findSome?_cons, hrepresentation, hset, initDefinition_of_undescribed hrepresentation, h.2]
    | none =>
      cases hperiod : period.describedBy with
      | some kind =>
        simp only [List.find?_cons, hset, hperiod, Option.isSome_some, Option.isSome_none, Option.bind_some,
          Option.ite_none_left_eq_some] at h
        simp [List.findSome?_cons, hrepresentation, hset, hperiod, initDefinition_of_undescribed hrepresentation,
          initDefinition_of_undescribed hset, h.2]
      | none => simp [hset, hperiod] at h

theorem baseUrls_create {type : Option RepresentationStreamType}
    (h : PlayerStream.create type mpd period adaptationSet representation = some (some stream)) :
    stream.baseUrls = resolveBaseUrl mpd.toMPD period.toPeriod adaptationSet.toAdaptationSet 0 0 0 := by
  cases type with
  | none => exact absurd h (by simp [PlayerStream.create])
  | some type => exact RepresentationStream.baseUrls_create (PlayerStream.create_toStream h)

/-- the type of the stream is the kind of the innermost level that describes the segments, a BaseURL of the Representation
counting as one -/
theorem determine_eq (period adaptationSet : Level) (representation : RepresentationElement) :
    determineRepresentationStreamType period adaptationSet representation =
      match representation.describedBy with
      | some kind => some kind
      | none =>
        if representation.baseURLs ≠ [] then some .singleMediaSegment
        else adaptationSet.describedBy.or period.describedBy := by
  unfold determineRepresentationStreamType Level.describedBy
  by_cases h1 : representation.segmentList.isSome
  · simp [h1]
  by_cases h2 : representation.segmentTemplate.isSome
  · simp [h1, h2]
  by_cases h3 : representation.segmentBase.isSome
  · simp [h1, h2, h3]
  by_cases hurls : representation.baseURLs = []
  · simp [h1, h2, h3, hurls]
    split_ifs <;> rfl
  · simp [h1, h2, h3, hurls, List.length_pos_iff]

/-- the definition in the element that a stream of a kind is created with -/
def createdWith (period adaptationSet : Level) (representation : RepresentationElement) :
    RepresentationStreamType → Option InitDefinition
  | .segmentList =>
    ((representation.segmentList.or adaptationSet.segmentList).or period.segmentList).bind fun list =>
      list.initialization.map .element
  | .segmentTemplate =>
    ((representation.segmentTemplate.or adaptationSet.segmentTemplate).or period.segmentTemplate).bind (·.initDefinition)
  | .singleMediaSegment => representation.initDefinition .singleMediaSegment

theorem definition_of_kind {kind : RepresentationStreamType}
    (h : PlayerStream.create (some kind) mpd period adaptationSet representation = some (some stream)) :
    stream.definition = createdWith period adaptationSet representation kind := by
  cases kind with
  | segmentList =>
    obtain ⟨list, hlist, hstream⟩ := Option.map_eq_some_iff.1 h
    rw [← Option.some.inj hstream, createdWith, hlist]
    rfl
  | segmentTemplate =>
    obtain ⟨template, htemplate, hstream⟩ := Option.map_eq_some_iff.1 h
    rw [← Option.some.inj hstream, createdWith, htemplate]
    rfl
  | singleMediaSegment =>
    rw [← Option.some.inj (Option.some.inj h)]
    rfl

/-- a stream has the definition that is read -/
theorem definition_create
    (h : PlayerStream.create (determineRepresentationStreamType period adaptationSet representation) mpd period
      adaptationSet representation = some (some stream)) :
    stream.definition = readDefinition period adaptationSet representation := by
  rw [determine_eq] at h
  unfold readDefinition
  cases hrepresentation : representation.describedBy with
  | some kind =>
    rw [hrepresentation] at h
    rw [definition_of_kind h]
    cases kind with
    | segmentList =>
      obtain ⟨list, hlist⟩ := describedBy_segmentList hrepresentation
      simp only [hlist, Option.some_or, createdWith, Level.initDefinition]
    | segmentTemplate =>
      obtain ⟨template, htemplate⟩ := describedBy_segmentTemplate hrepresentation
      simp only [htemplate, Option.some_or, createdWith, Level.initDefinition]
    | singleMediaSegment => rfl
  | none =>
    obtain ⟨hlist, htemplate, hbase⟩ := describedBy_eq_none hrepresentation
    have hsingle : representation.initDefinition .singleMediaSegment = none :=
      initDefinition_of_undescribed hrepresentation _
    rw [hrepresentation] at h
    dsimp only at h ⊢
    split_ifs at h ⊢ with hurls
    · rw [definition_of_kind h, createdWith, hsingle]
    · cases hset : adaptationSet.describedBy with
      | some kind =>
        rw [hset, Option.some_or] at h
        rw [definition_of_kind h]
        cases kind with
        | segmentList =>
          obtain ⟨list, hlist'⟩ := describedBy_segmentList hset
          simp [hlist, hlist', hset, createdWith, Level.initDefinition]
        | segmentTemplate =>
          obtain ⟨template, htemplate'⟩ := describedBy_segmentTemplate hset
          simp [htemplate, htemplate', hset, createdWith, Level.initDefinition]
        | singleMediaSegment => simp [createdWith, hsingle, hset]
      | none =>
        obtain ⟨hlist', htemplate', -⟩ := describedBy_eq_none hset
        rw [hset, Option.none_or] at h
        cases hperiod : period.describedBy with
        | none =>
          rw [hperiod] at h
          exact absurd h (by simp [PlayerStream.create])
        | some kind =>
          rw [hperiod] at h
          rw [definition_of_kind h]
          cases kind with
          | segmentList => simp [hlist, hlist', hset, hperiod, createdWith, Level.initDefinition]
          | segmentTemplate => simp [htemplate, htemplate', hset, hperiod, createdWith, Level.initDefinition]
          | singleMediaSegment => simp [createdWith, hsingle, hset, hperiod]

/-- the segment is converted from the definition, with what the Representation puts into a template -/
theorem getInitializationSegment_of_definition {type : Option RepresentationStreamType}
    (h : PlayerStream.create type mpd period adaptationSet representation = some (some stream))
    (hd : stream.definition = some d) :
    stream.getInitializationSegment = d.toSegment stream.baseUrls representation := by
  cases type with
  | none => exact absurd h (by simp [PlayerStream.create])
  | some kind =>
    cases kind with
    | segmentList =>
      obtain ⟨list, -, hstream⟩ := Option.map_eq_some_iff.1 h
      rw [← Option.some.inj hstream] at hd ⊢
      obtain ⟨u, hu, rfl⟩ := Option.map_eq_some_iff.1 hd
      rw [PlayerStream.getInitializationSegment, hu]
      rfl
    | segmentTemplate =>
      obtain ⟨template, -, hstream⟩ := Option.map_eq_some_iff.1 h
      rw [← Option.some.inj hstream] at hd ⊢
      rw [PlayerStream.definition, SegmentTemplateElement.initDefinition] at hd
      rw [PlayerStream.getInitializationSegment]
      cases hu : template.initialization with
      | some u =>
        rw [hu, Option.map_some, Option.some_or, Option.some.injEq] at hd
        rw [← hd]
        rfl
      | none =>
        rw [hu, Option.map_none, Option.none_or] at hd
        split_ifs at hd
        rw [← Option.some.inj hd]
        rfl
    | singleMediaSegment =>
      rw [← Option.some.inj (Option.some.inj h)] at hd ⊢
      obtain ⟨base, hbase, hd⟩ := Option.bind_eq_some_iff.1 hd
      obtain ⟨u, hu, rfl⟩ := Option.map_eq_some_iff.1 hd
      rw [PlayerStream.getInitializationSegment, hbase, Option.bind_some, hu]
      rfl

/-- **The initialization segment.** The stream of a Representation makes the one that is defined exactly when it reads the
definition and can convert it. -/
theorem getInitializationSegment_iff
    (h : PlayerStream.create (determineRepresentationStreamType period adaptationSet representation) mpd period
      adaptationSet representation = some (some stream))
    (hd : initDefinition period adaptationSet representation = some d) :
    (∃ seg, stream.getInitializationSegment = some (some seg) ∧ d.Denotes stream.baseUrls representation seg) ↔
      readDefinition period adaptationSet representation = some d ∧
        d.Convertible stream.baseUrls representation := by
  have hdefinition := definition_create h
  cases hread : readDefinition period adaptationSet representation with
  | none =>
    rw [hread] at hdefinition
    rw [PlayerStream.getInitializationSegment_none hdefinition]
    simp
  | some d' =>
    obtain rfl : d' = d := Option.some.inj ((initDefinition_of_read hread).symm.trans hd)
    rw [hread] at hdefinition
    rw [getInitializationSegment_of_definition h hdefinition, InitDefinition.toSegment_iff, and_iff_right rfl]

end Streams

end NdnDash.Mpd
