/-
What each attribute of an AdaptationSet element sets (`Node.cpp`, `ToAdaptationSet` and `SetCommonValuesForRep`), as a
statement about two elements with the same children whose attributes differ in one name.

The setter that is called for `subsegmentStartsWithSAP` is `SetMaxHeight`, after that for `maxHeight`; the member
`subsegmentStartsWithSAP` is never set, nor is `group` without its attribute, and the constructor initialises neither. Each
object has its own memory.

- `eq_of_fields`: fields, what comes from the children, and the attributes that are kept are the whole object.
- `fields_toAdaptationSet`: every field is read from the attribute with its name, but for the height and what is found in
  the memory.
- `children_toAdaptationSet`: what is not a field comes from the children.
- `interference_iff`: the two objects differ in the fields of the attribute alone exactly when that is not
  `subsegmentStartsWithSAP`, or it makes no difference to the height, and nothing else is in their memories where a member
  is not set.
-/
import NdnDash.Xml.ToMPD

namespace NdnDash.Xml

open NdnDash.Text NdnDash.Dispatch NdnDash.Mpd.Object

/-! ## Fields -/

/-- the value of a field; the three members for an alignment count as one -/
inductive Field
  | text (s : Str)
  | texts (ss : List Str)
  | number (n : UInt32)
  | byte (b : UInt8)
  | flag (b : Bool)
  | alignment (isBool uses : Bool) (number : UInt32)
deriving DecidableEq, Repr

namespace Field

def ofAlignment (o : SegmentAlignment) : Field := .alignment o.isBool o.uses o.number

@[simp] theorem ofAlignment_inj {o₁ o₂ : SegmentAlignment} : ofAlignment o₁ = ofAlignment o₂ ↔ o₁ = o₂ := by
  cases o₁
  cases o₂
  simp [ofAlignment]

end Field

/-- the fields of an object by the names of their attributes -/
def fields (memory : Memory) (o : AdaptationSet) : List (Str × Field) :=
  [("maxHeight".toList, .number o.maxHeight), ("profiles".toList, .texts o.profiles), ("width".toList, .number o.width),
   ("height".toList, .number o.height), ("sar".toList, .text o.sar), ("frameRate".toList, .text o.frameRate),
   ("audioSamplingRate".toList, .text o.audioSamplingRate), ("mimeType".toList, .text o.mimeType),
   ("segmentProfiles".toList, .texts o.segmentProfiles), ("codecs".toList, .texts o.codecs),
   ("maximumSAPPeriod".toList, .text o.maximumSAPPeriod), ("startWithSAP".toList, .byte o.startWithSAP),
   ("maxPlayoutRate".toList, .text o.maxPlayoutRate), ("codingDependency".toList, .flag o.codingDependency),
   ("scanType".toList, .text o.scanType), ("xlink:href".toList, .text o.xlinkHref),
   ("xlink:actuate".toList, .text o.xlinkActuate), ("id".toList, .number o.id),
   ("group".toList, .number (o.getGroup memory)), ("lang".toList, .text o.lang), ("contentType".toList, .text o.contentType),
   ("par".toList, .text o.par), ("minBandwidth".toList, .number o.minBandwidth),
   ("maxBandwidth".toList, .number o.maxBandwidth), ("minWidth".toList, .number o.minWidth),
   ("maxWidth".toList, .number o.maxWidth), ("minHeight".toList, .number o.minHeight),
   ("minFrameRate".toList, .text o.minFramerate), ("maxFrameRate".toList, .text o.maxFramerate),
   ("segmentAlignment".toList, .ofAlignment o.segmentAlignment),
   ("subsegmentAlignment".toList, .ofAlignment o.subsegmentAlignment),
   ("subsegmentStartsWithSAP".toList, .byte (o.getSubsegmentStartsWithSAP memory)),
   ("bitstreamSwitching".toList, .flag o.isBitstreamSwitching)]

/-- what is not a field: the members of the base class that come from the children -/
def baseChildren (o : RepresentationBase) : RepresentationBase :=
  { additionalSubNodes := o.additionalSubNodes
    framePacking := o.framePacking
    audioChannelConfiguration := o.audioChannelConfiguration
    contentProtection := o.contentProtection }

/-- what is not a field: the members that come from the children -/
def children (o : AdaptationSet) : AdaptationSet :=
  { toRepresentationBase := baseChildren o.toRepresentationBase
    accessibility := o.accessibility
    role := o.role
    rating := o.rating
    viewpoint := o.viewpoint
    contentComponent := o.contentComponent
    baseURLs := o.baseURLs
    segmentBase := o.segmentBase
    segmentList := o.segmentList
    segmentTemplate := o.segmentTemplate
    representation := o.representation }

/-- the objects differ in the fields of one attribute alone, and in the attributes they keep -/
structure DifferOnly (a : Str) (memory₁ : Memory) (o₁ : AdaptationSet) (memory₂ : Memory) (o₂ : AdaptationSet) : Prop where
  fields : ∀ k, k ≠ a → (fields memory₁ o₁).lookup k = (fields memory₂ o₂).lookup k
  children : children o₁ = children o₂

theorem getD_inj {α : Type} {v w : Option α} {zero one : α} (hne : zero ≠ one)
    (h : ∀ unset, v.getD unset = w.getD unset) : v = w := by
  have hset : ∀ {w : Option α} {a : α}, (∀ unset, w.getD unset = a) → w = some a := by
    intro w a hw
    cases w with
    | none => exact absurd ((hw zero).trans (hw one).symm) hne
    | some b => exact congrArg some (hw zero)
  cases v with
  | none =>
    cases w with
    | none => rfl
    | some b => exact hset h
  | some a => exact (hset fun unset => (h unset).symm).symm

/-- fields, whatever is in the memory, children and attributes are the whole object -/
theorem eq_of_fields {o₁ o₂ : AdaptationSet} (hfields : ∀ memory, fields memory o₁ = fields memory o₂)
    (hchildren : children o₁ = children o₂) (hraw : o₁.rawAttributes = o₂.rawAttributes) : o₁ = o₂ := by
  have hgroup : o₁.group = o₂.group := by
    refine getD_inj (by decide : (0 : UInt32) ≠ 1) fun unset => ?_
    have h := congrArg (List.lookup "group".toList) (hfields ⟨unset, 0⟩)
    exact Field.number.inj (Option.some.inj h)
  have hsap : o₁.subsegmentStartsWithSAP = o₂.subsegmentStartsWithSAP := by
    refine getD_inj (by decide : (0 : UInt8) ≠ 1) fun unset => ?_
    have h := congrArg (List.lookup "subsegmentStartsWithSAP".toList) (hfields ⟨0, unset⟩)
    exact Field.byte.inj (Option.some.inj h)
  have h := hfields ⟨0, 0⟩
  rcases o₁ with ⟨⟨⟨⟩⟩⟩
  rcases o₂ with ⟨⟨⟨⟩⟩⟩
  simp_all [fields, children, baseChildren]

/-! ## What is read -/

def sapName : Str := "subsegmentStartsWithSAP".toList

/-- the height that the attributes give, the low byte of `subsegmentStartsWithSAP` before that of `maxHeight` -/
def heightRead (n : Node) : UInt32 :=
  ((n.getAttributeValue "subsegmentStartsWithSAP").map fun v => (UInt8.ofNat (strtoul v)).toUInt32).getD
    (n.number "maxHeight" 0)

def readNumber (v : Option Str) : Field := .number ((v.map fun v => UInt32.ofNat (strtoul v)).getD 0)

def readText (unset : Str) (v : Option Str) : Field := .text (v.getD unset)

def readTexts (v : Option Str) : Field := .texts ((v.map (split ',')).getD [])

def readFlag (v : Option Str) : Field := .flag ((v.map toBool).getD false)

/-- how the other fields are read -/
def reading (memory : Memory) : List (String × (Option Str → Field)) :=
  [("profiles", readTexts), ("width", readNumber), ("height", readNumber), ("sar", readText []),
   ("frameRate", readText []), ("audioSamplingRate", readText []), ("mimeType", readText []),
   ("segmentProfiles", readTexts), ("codecs", readTexts), ("maximumSAPPeriod", readText []),
   ("startWithSAP", fun v => .byte ((v.map fun v => UInt8.ofNat (strtoul v)).getD 0)), ("maxPlayoutRate", readText []),
   ("codingDependency", readFlag), ("scanType", readText []), ("xlink:href", readText []),
   ("xlink:actuate", readText "onRequest".toList), ("id", readNumber),
   ("group", fun v => .number ((v.map fun v => UInt32.ofNat (strtoul v)).getD memory.group)), ("lang", readText []),
   ("contentType", readText []), ("par", readText []), ("minBandwidth", readNumber), ("maxBandwidth", readNumber),
   ("minWidth", readNumber), ("maxWidth", readNumber), ("minHeight", readNumber), ("minFrameRate", readText []),
   ("maxFrameRate", readText []), ("segmentAlignment", fun v => .ofAlignment (Node.setAlignment v {})),
   ("subsegmentAlignment", fun v => .ofAlignment (Node.setAlignment v {})),
   ("subsegmentStartsWithSAP", fun _ => .byte memory.subsegmentStartsWithSAP), ("bitstreamSwitching", readFlag)]

/-- the object that the attributes of the derived class make of one of the base class -/
def ofBase (n : Node) (b : RepresentationBase) : AdaptationSet := n.setAdaptationSetAttributes { toRepresentationBase := b }

section Reading

variable {n n₁ n₂ : Node} {a : Str}

/-- **Fields.** Each is read from its own attribute, and the height from two. -/
theorem fields_toAdaptationSet (memory : Memory) (n : Node) : fields memory n.toAdaptationSet =
    ("maxHeight".toList, .number (heightRead n)) ::
      (reading memory).map fun x => (x.1.toList, x.2 (n.getAttributeValue x.1)) := by
  have hchildren : fields memory n.toAdaptationSet = fields memory (ofBase n (n.setCommonValuesForRep {})) := by
    apply dispatch_kept (g := fields memory)
    · simp [Node.adaptationSetChildren, fields, AdaptationSet.getGroup, AdaptationSet.getSubsegmentStartsWithSAP]
    · apply addUnless_kept
      intro _ _
      rfl
  have hbase : ∀ o, fields memory
      (ofBase n (dispatch Node.name Node.representationBaseChildren (fun _ o => o) n.subNodes o)) =
        fields memory (ofBase n o) := by
    intro o
    apply dispatch_kept (g := fun b : RepresentationBase => fields memory (ofBase n b))
    · simp [Node.representationBaseChildren, fields, ofBase, Node.setAdaptationSetAttributes, AdaptationSet.getGroup,
        AdaptationSet.getSubsegmentStartsWithSAP]
    · intro _ _
      rfl
  rw [hchildren, Node.setCommonValuesForRep, hbase]
  simp [fields, ofBase, Node.setAdaptationSetAttributes, reading, heightRead, readNumber, readText, readTexts, readFlag,
    Node.number, Node.str, Node.pieces, Node.flag, AdaptationSet.getGroup, AdaptationSet.getSubsegmentStartsWithSAP]

/-- **Children.** What is not a field is the same whatever the attributes are. -/
theorem children_toAdaptationSet (h : n₁.subNodes = n₂.subNodes) :
    children n₁.toAdaptationSet = children n₂.toAdaptationSet := by
  have hbase : ∀ n : Node, baseChildren (n.setCommonValuesForRep {}) =
      dispatch Node.name Node.representationBaseChildren (fun _ o => o) n.subNodes {} := by
    intro n
    apply dispatch_commutes (g := baseChildren)
    · simp [Node.representationBaseChildren, baseChildren]
    · intro _ _
      rfl
  have hall : ∀ n : Node, children n.toAdaptationSet =
      dispatch Node.name Node.adaptationSetChildren
        (addUnless Node.name Node.notInRepresentation fun c o =>
          { o with additionalSubNodes := o.additionalSubNodes ++ [c.copy] })
        n.subNodes { toRepresentationBase := baseChildren (n.setCommonValuesForRep {}) } := by
    intro n
    refine (dispatch_commutes (g := children) ?_ ?_ n.subNodes _).trans rfl
    · simp [Node.adaptationSetChildren, children, baseChildren]
    · intro c o
      unfold addUnless
      split_ifs <;> rfl
  rw [hall, hall, hbase, hbase, h]

/-! ## Main result -/

/-- two maps that differ in one name only give the same to a field of another, if what it may find in the memory is -/
theorem lookup_reading (hsame : ∀ k, k ≠ a → n₁.attributes.lookup k = n₂.attributes.lookup k) {k : Str} (hk : k ≠ a)
    {table₁ table₂ : List (String × (Option Str → Field))}
    (htable : List.Forall₂ (fun x y => x.1 = y.1 ∧
      (x.1.toList ≠ a → x.2 (n₁.getAttributeValue x.1) = y.2 (n₁.getAttributeValue x.1))) table₁ table₂) :
    (table₁.map fun x => (x.1.toList, x.2 (n₁.getAttributeValue x.1))).lookup k =
      (table₂.map fun x => (x.1.toList, x.2 (n₂.getAttributeValue x.1))).lookup k := by
  induction htable with
  | nil => rfl
  | @cons x y _ _ h _ ih =>
    obtain ⟨hname, hread⟩ := h
    rw [List.map_cons, List.map_cons, List.lookup_cons, List.lookup_cons, ih, ← hname]
    by_cases hx : k = x.1.toList
    · have hvalue : n₁.getAttributeValue x.1 = n₂.getAttributeValue x.1 := hsame _ (hx ▸ hk)
      rw [hread (hx ▸ hk), hvalue]
    · rw [beq_false_of_ne hx]

def groupName : Str := "group".toList

/-- nothing else is in the two memories where a member of another attribute is not set -/
def SameUnset (a : Str) (memory₁ memory₂ : Memory) (n : Node) : Prop :=
  (a ≠ groupName → n.getAttributeValue "group" = none → memory₁.group = memory₂.group) ∧
    (a ≠ sapName → memory₁.subsegmentStartsWithSAP = memory₂.subsegmentStartsWithSAP)

theorem nodup_reading (memory : Memory) : ((reading memory).map (·.1.toList)).Nodup := by
  change ((reading ⟨0, 0⟩).map (·.1.toList)).Nodup
  decide +kernel

theorem lookup_of_mem {table : List (String × (Option Str → Field))} (hnodup : (table.map (·.1.toList)).Nodup)
    {name : String} {read : Option Str → Field} (h : (name, read) ∈ table) (n : Node) :
    (table.map fun x => (x.1.toList, x.2 (n.getAttributeValue x.1))).lookup name.toList =
      some (read (n.getAttributeValue name)) := by
  induction table with
  | nil => exact absurd h List.not_mem_nil
  | cons x table ih =>
    rw [List.map_cons, List.nodup_cons] at hnodup
    rw [List.map_cons, List.lookup_cons]
    rcases List.mem_cons.1 h with rfl | h
    · rw [beq_self_eq_true]
    · have hne : name.toList ≠ x.1.toList := fun heq => hnodup.1 (heq ▸ List.mem_map_of_mem h)
      rw [beq_false_of_ne hne]
      exact ih hnodup.2 h

theorem lookup_height (memory : Memory) (n : Node) :
    (fields memory n.toAdaptationSet).lookup "maxHeight".toList = some (.number (heightRead n)) := by
  rw [fields_toAdaptationSet]
  rfl

theorem lookup_fields {memory : Memory} {name : String} {read : Option Str → Field} (h : (name, read) ∈ reading memory)
    (hne : name.toList ≠ "maxHeight".toList) (n : Node) :
    (fields memory n.toAdaptationSet).lookup name.toList = some (read (n.getAttributeValue name)) := by
  rw [fields_toAdaptationSet, List.lookup_cons, beq_false_of_ne hne]
  exact lookup_of_mem (nodup_reading memory) h n

theorem lookup_group (memory : Memory) (n : Node) : (fields memory n.toAdaptationSet).lookup groupName =
    some (.number (((n.getAttributeValue "group").map fun v => UInt32.ofNat (strtoul v)).getD memory.group)) := by
  have hmem : ("group", fun v => Field.number ((v.map fun v => UInt32.ofNat (strtoul v)).getD memory.group)) ∈
      reading memory := by
    simp [reading]
  exact lookup_fields hmem (by decide) n

theorem lookup_sap (memory : Memory) (n : Node) : (fields memory n.toAdaptationSet).lookup sapName =
    some (.byte memory.subsegmentStartsWithSAP) := by
  have hmem : ("subsegmentStartsWithSAP", fun _ => Field.byte memory.subsegmentStartsWithSAP) ∈ reading memory := by
    simp [reading]
  exact lookup_fields hmem (by decide) n

/-- **Attributes.** For every two elements with the same children and attributes that differ in one name, and whatever is in
the memory of their objects, these differ in the fields of that name alone exactly when it is not
`subsegmentStartsWithSAP`, or the height that is read is the same, and what is not set is the same. -/
theorem interference_iff (memory₁ memory₂ : Memory)
    (hsame : ∀ k, k ≠ a → n₁.attributes.lookup k = n₂.attributes.lookup k) (hchildren : n₁.subNodes = n₂.subNodes) :
    DifferOnly a memory₁ n₁.toAdaptationSet memory₂ n₂.toAdaptationSet ↔
      (a = sapName → heightRead n₁ = heightRead n₂) ∧ SameUnset a memory₁ memory₂ n₁ := by
  constructor
  · intro h
    refine ⟨fun ha => ?_, fun ha hgroup => ?_, fun ha => ?_⟩
    · have hne : "maxHeight".toList ≠ a := by
        rw [ha]
        decide
      have hfield := h.fields _ hne
      rw [lookup_height, lookup_height, Option.some.injEq] at hfield
      exact Field.number.inj hfield
    · have hgroup' : n₂.getAttributeValue "group" = none := (hsame _ (Ne.symm ha)).symm.trans hgroup
      have hfield := h.fields _ (Ne.symm ha)
      rw [lookup_group, lookup_group, hgroup, hgroup', Option.some.injEq] at hfield
      exact Field.number.inj hfield
    · have hfield := h.fields _ (Ne.symm ha)
      rw [lookup_sap, lookup_sap, Option.some.injEq] at hfield
      exact Field.byte.inj hfield
  · intro h
    obtain ⟨hheight, hgroup, hsap⟩ := h
    refine ⟨fun k hk => ?_, children_toAdaptationSet hchildren⟩
    by_cases hmax : k = "maxHeight".toList
    · subst hmax
      rw [lookup_height, lookup_height]
      by_cases ha : a = sapName
      · rw [hheight ha]
      · -- neither of the two attributes is the one that differs
        have hsap : n₁.getAttributeValue "subsegmentStartsWithSAP" = n₂.getAttributeValue "subsegmentStartsWithSAP" :=
          hsame _ (Ne.symm ha)
        have hown : n₁.getAttributeValue "maxHeight" = n₂.getAttributeValue "maxHeight" := hsame _ hk
        rw [heightRead, heightRead, Node.number, Node.number, hsap, hown]
    · rw [fields_toAdaptationSet, fields_toAdaptationSet, List.lookup_cons, List.lookup_cons, beq_false_of_ne hmax]
      refine lookup_reading hsame hk ?_
      have hmemory : groupName ≠ a → ((n₁.getAttributeValue "group").map fun v => UInt32.ofNat (strtoul v)).getD
          memory₁.group = ((n₁.getAttributeValue "group").map fun v => UInt32.ofNat (strtoul v)).getD memory₂.group := by
        intro hne
        cases hvalue : n₁.getAttributeValue "group" with
        | none => exact hgroup hne.symm hvalue
        | some v => rfl
      simp only [reading, List.forall₂_cons, List.forall₂_nil_left_iff, Field.number.injEq, Field.byte.injEq, implies_true,
        and_true, true_and]
      exact ⟨hmemory, fun hne => hsap (Ne.symm hne)⟩

/-- an AdaptationSet element without children -/
def element (attributes : Attributes) : Node where
  type := 1
  name := "AdaptationSet".toList
  text := []
  mpdPath := []
  attributes := attributes
  subNodes := []

def height1080 : Node := element [("maxHeight".toList, "1080".toList)]

def height720 : Node := element [("maxHeight".toList, "720".toList)]

def height1080SAP : Node :=
  element [("maxHeight".toList, "1080".toList), ("subsegmentStartsWithSAP".toList, "1".toList)]

/-- they differ in the one attribute -/
theorem lookup_heights (k : Str) (hk : k ≠ "maxHeight".toList) :
    height1080.attributes.lookup k = height720.attributes.lookup k := by
  have hmiss : ∀ v : Str, ([("maxHeight".toList, v)] : Attributes).lookup k = none := by
    intro v
    rw [List.lookup_cons, beq_false_of_ne hk]
    rfl
  exact (hmiss _).trans (hmiss _).symm

theorem interference_heights :
    DifferOnly "maxHeight".toList ⟨7, 3⟩ height1080.toAdaptationSet ⟨7, 3⟩ height720.toAdaptationSet :=
  (interference_iff ⟨7, 3⟩ ⟨7, 3⟩ lookup_heights rfl).2
    ⟨fun h => absurd h (by decide), fun _ _ => rfl, fun _ => rfl⟩

/-- an AdaptationSet of height 1080 that starts with a stream access point of type 1 has a height of 1, and what it gives
out as the type is what was in its memory; and a group that is not there differs where the memories do -/
theorem sap_sets_height :
    (∀ k, k ≠ sapName → height1080.attributes.lookup k = height1080SAP.attributes.lookup k) ∧
      height1080.toAdaptationSet.maxHeight = 1080 ∧ height1080SAP.toAdaptationSet.maxHeight = 1 ∧
      height1080SAP.toAdaptationSet.getSubsegmentStartsWithSAP ⟨0, 5⟩ = 5 ∧
      ¬ DifferOnly sapName ⟨0, 0⟩ height1080.toAdaptationSet ⟨0, 0⟩ height1080SAP.toAdaptationSet ∧
      ¬ DifferOnly "maxHeight".toList ⟨0, 0⟩ height1080.toAdaptationSet ⟨1, 0⟩ height720.toAdaptationSet := by
  have h1080 : height1080.toAdaptationSet.maxHeight = 1080 := by decide +kernel
  have h1 : height1080SAP.toAdaptationSet.maxHeight = 1 := by decide +kernel
  refine ⟨fun k hk => ?_, h1080, h1, rfl, fun h => ?_, fun h => ?_⟩
  · change List.lookup k [("maxHeight".toList, "1080".toList)] =
      List.lookup k [("maxHeight".toList, "1080".toList), (sapName, "1".toList)]
    rw [List.lookup_cons, List.lookup_cons, List.lookup_cons, beq_false_of_ne hk]
  · have hfield := h.fields "maxHeight".toList (by decide)
    rw [fields, fields, List.lookup_cons_self, List.lookup_cons_self, h1080, h1] at hfield
    exact absurd hfield (by decide)
  · have hfield := h.fields groupName (by decide)
    rw [lookup_group, lookup_group] at hfield
    exact absurd hfield (by decide)

end Reading

end NdnDash.Xml
