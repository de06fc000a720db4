/-
What a copy of a `Node` and the objects of single elements hold of it, stated on the node.

- `Copied`: type, name, text, attributes, and copies of the children; `copied_copy`: the copy constructor makes one.
- `HasText`: the text of a node; `hasText_getText`: `GetText` finds it.
- `Sets`: a member holds what its attribute says, or else its default.
- `KeepsDescriptor` and the others: the members, the attributes and the children that an object holds of its element, each
  with its conversion.
-/
import NdnDash.Xml.ToMPD

namespace NdnDash.Xml

open NdnDash.Text NdnDash.Dispatch NdnDash.Mpd.Object

/-! ## Copies and texts -/

/-- a copy has what the node has, but for the path of the MPD -/
inductive Copied : Node → Node → Prop
  | node {type : ℕ} {name text path path' : Str} {attributes : Attributes} {ns ms : List Node}
    (h : List.Forall₂ Copied ns ms) :
    Copied ⟨type, name, text, path, attributes, ns⟩ ⟨type, name, text, path', attributes, ms⟩

/-- the text of a node: that of the text node which its first children lead to -/
inductive HasText : Node → Str → Prop
  | own {n : Node} (h : n.type = textType) : HasText n n.text
  | first {n c : Node} {cs : List Node} {s : Str} (h : n.type ≠ textType) (hc : n.subNodes = c :: cs)
    (hs : HasText c s) : HasText n s
  | empty {n : Node} (h : n.type ≠ textType) (hc : n.subNodes = []) : HasText n []

mutual

theorem copied_copy : ∀ n : Node, Copied n n.copy
  | ⟨_, _, _, _, _, subNodes⟩ => .node (copied_copies subNodes)

theorem copied_copies : ∀ ns : List Node, List.Forall₂ Copied ns (Node.copies ns)
  | [] => .nil
  | n :: ns => .cons (copied_copy n) (copied_copies ns)

end

theorem copied_map (ns : List Node) : List.Forall₂ Copied ns (ns.map Node.copy) := by
  rw [List.forall₂_map_right_iff, List.forall₂_same]
  exact fun n _ => copied_copy n

theorem hasText_getText (n : Node) : HasText n n.getText := by
  fun_induction Node.getText n with
  | case1 name text path attributes => exact .own rfl
  | case2 type name text path attributes htype => exact .empty htype rfl
  | case3 name text path attributes c cs => exact .own rfl
  | case4 type name text path attributes c cs htype ih => exact .first htype rfl ih

/-! ## Members -/

/-- a member holds what an attribute says, or its default -/
def Sets {α : Type} (n : Node) (key : String) (read : Str → α) (unset member : α) : Prop :=
  (∀ v, n.attributes.lookup key.toList = some v → member = read v) ∧
    (n.attributes.lookup key.toList = none → member = unset)

section Members

variable {n : Node} {key : String}

theorem sets_getD {α : Type} (read : Str → α) (unset : α) :
    Sets n key read unset (((n.getAttributeValue key).map read).getD unset) := by
  constructor
  · intro v hv
    rw [Node.getAttributeValue, hv]
    rfl
  · intro hnone
    rw [Node.getAttributeValue, hnone]
    rfl

theorem sets_str (unset : Str) : Sets n key id unset (n.str key unset) := by
  have h : Sets n key id unset (((n.getAttributeValue key).map id).getD unset) := sets_getD id unset
  rwa [Option.map_id] at h

theorem sets_number (unset : UInt32) :
    Sets n key (fun v => UInt32.ofNat (strtoul v)) unset (n.number key unset) := sets_getD _ _

theorem sets_numbers : Sets n key (splitNumbers ' ') [] (n.numbers key) := sets_getD _ _

end Members

/-! ## Objects -/

structure KeepsBaseUrl (n : Node) (o : BaseUrl) : Prop where
  serviceLocation : Sets n "serviceLocation" id [] o.serviceLocation
  byteRange : Sets n "byteRange" id [] o.byteRange
  url : ∃ s, HasText n s ∧ o.url = if s = "./".toList then n.mpdPath else s
  rawAttributes : o.rawAttributes = n.attributes

structure KeepsDescriptor (n : Node) (o : Descriptor) : Prop where
  schemeIdUri : Sets n "schemeIdUri" id [] o.schemeIdUri
  value : Sets n "value" id [] o.value
  additionalSubNodes : List.Forall₂ Copied n.subNodes o.additionalSubNodes
  rawAttributes : o.rawAttributes = n.attributes

structure KeepsURLType (type : Mpd.HTTPTransactionType) (n : Node) (o : URLType) : Prop where
  sourceURL : Sets n "sourceURL" id [] o.sourceURL
  range : Sets n "range" id [] o.range
  type : o.type = type
  additionalSubNodes : List.Forall₂ Copied n.subNodes o.additionalSubNodes
  rawAttributes : o.rawAttributes = n.attributes

structure KeepsTimeline (n : Node) (o : Timeline) : Prop where
  startTime : Sets n "t" (fun v => UInt32.ofNat (strtoul v)) 0 o.startTime
  duration : Sets n "d" (fun v => UInt32.ofNat (strtoul v)) 0 o.duration
  repeatCount : Sets n "r" (fun v => UInt32.ofNat (strtoul v)) 0 o.repeatCount
  rawAttributes : o.rawAttributes = n.attributes

structure KeepsSegmentURL (n : Node) (o : SegmentURL) : Prop where
  mediaURI : Sets n "media" id [] o.mediaURI
  mediaRange : Sets n "mediaRange" id [] o.mediaRange
  indexURI : Sets n "index" id [] o.indexURI
  indexRange : Sets n "indexRange" id [] o.indexRange
  additionalSubNodes : List.Forall₂ Copied n.subNodes o.additionalSubNodes
  rawAttributes : o.rawAttributes = n.attributes

structure KeepsSubset (n : Node) (o : Subset) : Prop where
  subset : Sets n "contains" (splitNumbers ' ') [] o.subset
  rawAttributes : o.rawAttributes = n.attributes

structure KeepsRange (n : Node) (o : Mpd.Object.Range) : Prop where
  starttime : Sets n "starttime" id [] o.starttime
  duration : Sets n "duration" id [] o.duration

/-- the text of the last child with a name, if there is one -/
def LastText (n : Node) (name : String) (s : Str) : Prop :=
  (∀ c, (n.subNodes.filter (·.name = name.toList)).getLast? = some c → HasText c s) ∧
    ((n.subNodes.filter (·.name = name.toList)).getLast? = none → s = [])

structure KeepsProgramInformation (n : Node) (o : ProgramInformation) : Prop where
  lang : Sets n "lang" id [] o.lang
  moreInformationURL : Sets n "moreInformationURL" id [] o.moreInformationURL
  title : LastText n "Title" o.title
  source : LastText n "Source" o.source
  copyright : LastText n "Copyright" o.copyright
  additionalSubNodes : List.Forall₂ Copied
    (n.subNodes.filter (·.name ∉ ["Title".toList, "Source".toList, "Copyright".toList])) o.additionalSubNodes
  rawAttributes : o.rawAttributes = n.attributes

section Objects

variable (n : Node)

theorem keepsBaseUrl : KeepsBaseUrl n n.toBaseUrl :=
  ⟨sets_str _, sets_str _, ⟨_, hasText_getText n, rfl⟩, rfl⟩

theorem keepsDescriptor : KeepsDescriptor n n.toDescriptor :=
  ⟨sets_str _, sets_str _, copied_copies _, rfl⟩

theorem keepsURLType (type : Mpd.HTTPTransactionType) : KeepsURLType type n (n.toURLType type) :=
  ⟨sets_str _, sets_str _, rfl, copied_copies _, rfl⟩

theorem keepsTimeline : KeepsTimeline n n.toTimeline :=
  ⟨sets_number _, sets_number _, sets_number _, rfl⟩

theorem keepsSegmentURL : KeepsSegmentURL n n.toSegmentURL :=
  ⟨sets_str _, sets_str _, sets_str _, sets_str _, copied_copies _, rfl⟩

theorem keepsSubset : KeepsSubset n n.toSubset := ⟨sets_numbers, rfl⟩

theorem keepsRange : KeepsRange n n.toRange := ⟨sets_str _, sets_str _⟩

/-- a member that a branch of `ToProgramInformation` sets -/
theorem lastText {g : ProgramInformation → Str} {name : String} {o : ProgramInformation} (hg : g o = [])
    (hset : ∀ b ∈ Node.programInformationChildren, b.name = name.toList → ∀ c o, g (b.add c o) = c.getText)
    (hkeep : ∀ b ∈ Node.programInformationChildren, b.name ≠ name.toList → ∀ c o, g (b.add c o) = g o)
    (hname : name.toList ∈ Node.programInformationChildren.map (·.name))
    (hother : ∀ (c : Node) o, g { o with additionalSubNodes := o.additionalSubNodes ++ [c.copy] } = g o) :
    LastText n name (g (dispatch Node.name Node.programInformationChildren
      (fun c o => { o with additionalSubNodes := o.additionalSubNodes ++ [c.copy] }) n.subNodes o)) := by
  rw [dispatch_last hset hkeep hname hother, hg]
  constructor
  · intro c hc
    rw [hc]
    exact hasText_getText c
  · intro hnone
    rw [hnone]
    rfl

theorem keepsProgramInformation : KeepsProgramInformation n n.toProgramInformation where
  lang := by
    have hkept : n.toProgramInformation.lang = n.str "lang" [] := by
      apply dispatch_kept (g := fun o : ProgramInformation => o.lang)
      · simp [Node.programInformationChildren]
      · intro _ _
        rfl
    rw [hkept]
    exact sets_str _
  moreInformationURL := by
    have hkept : n.toProgramInformation.moreInformationURL = n.str "moreInformationURL" [] := by
      apply dispatch_kept (g := fun o : ProgramInformation => o.moreInformationURL)
      · simp [Node.programInformationChildren]
      · intro _ _
        rfl
    rw [hkept]
    exact sets_str _
  title := lastText n (g := (·.title)) rfl (by simp [Node.programInformationChildren])
    (by simp [Node.programInformationChildren]) (by decide) fun _ _ => rfl
  source := lastText n (g := (·.source)) rfl (by simp [Node.programInformationChildren])
    (by simp [Node.programInformationChildren]) (by decide) fun _ _ => rfl
  copyright := lastText n (g := (·.copyright)) rfl (by simp [Node.programInformationChildren])
    (by simp [Node.programInformationChildren]) (by decide) fun _ _ => rfl
  additionalSubNodes := by
    have hadded : n.toProgramInformation.additionalSubNodes =
        (n.subNodes.filter (·.name ∉ ["Title".toList, "Source".toList, "Copyright".toList])).map Node.copy := by
      change (dispatch Node.name Node.programInformationChildren (addUnless Node.name [] fun c (o : ProgramInformation) =>
        { o with additionalSubNodes := o.additionalSubNodes ++ [c.copy] }) n.subNodes _).additionalSubNodes = _
      rw [dispatch_addUnless (g := fun o : ProgramInformation => o.additionalSubNodes)
        (by simp [Node.programInformationChildren]) (fun _ _ => rfl)]
      refine (List.nil_append _).trans ?_
      congr 1
      apply List.filter_congr
      intro c _
      rw [decide_eq_decide, List.append_nil]
      rfl
    rw [hadded]
    exact copied_map _
  rawAttributes := rfl

end Objects

end NdnDash.Xml
