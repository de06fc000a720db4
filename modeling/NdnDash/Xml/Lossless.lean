/-
The conversion to the MPD object model loses no element.

- `Filled`: what the view of an object has, written with the conversions. `Loop`: the main loop of a conversion with its
  helpers' part; `Loop.filled`: what it leaves is filled.
- `convert_filled`: so is the object of each of the classes that keep every child.
- `keeps_convert`: a conversion keeps what the class holds of its element; `Filled.lossless`.
- `Held.eq_convert`, `Element.held`: the object of an element is its conversion, and every element has one.
- `elements_lossless`: it is of its class and loses nothing, for every element of a tree whose elements have one child at
  most of each name in `singleValued`.
-/
import NdnDash.Xml.Views

namespace NdnDash.Xml

open NdnDash.Dispatch NdnDash.Mpd.Object

open scoped List

/-! ## Filled collections -/

theorem segmentTimeline_fills :
    Fills singleValued segmentTimelineCollections Node.segmentTimelineChildren (table segmentTimelineNames) := by
  simp [Fills, Node.segmentTimelineChildren, table, segmentTimelineNames, segmentTimelineCollections, put, singleValued,
    Kind.convert]

theorem segmentBase_fills :
    Fills singleValued segmentBaseCollections Node.segmentBaseChildren (table segmentBaseNames) := by
  simp [Fills, Node.segmentBaseChildren, table, segmentBaseNames, segmentBaseCollections, put, singleValued,
    Kind.convert]

theorem multipleSegmentBase_fills :
    Fills singleValued multipleSegmentBaseCollections Node.multipleSegmentBaseChildren
      (table multipleSegmentBaseNames) := by
  simp [Fills, Node.multipleSegmentBaseChildren, table, multipleSegmentBaseNames, multipleSegmentBaseCollections, put,
    singleValued, Kind.convert]

theorem segmentList_fills :
    Fills singleValued segmentListCollections Node.segmentListChildren (table segmentListNames) := by
  simp [Fills, Node.segmentListChildren, table, segmentListNames, segmentListCollections, put, singleValued,
    Kind.convert]

theorem representationBase_fills :
    Fills singleValued representationBaseCollections Node.representationBaseChildren
      (table representationBaseNames) := by
  simp [Fills, Node.representationBaseChildren, table, representationBaseNames, representationBaseCollections, put,
    singleValued, Kind.convert]

theorem representation_fills :
    Fills singleValued representationCollections Node.representationChildren (table representationNames) := by
  simp [Fills, Node.representationChildren, table, representationNames, representationCollections, put, singleValued,
    Kind.convert]

theorem adaptationSet_fills :
    Fills singleValued adaptationSetCollections Node.adaptationSetChildren (table adaptationSetNames) := by
  simp [Fills, Node.adaptationSetChildren, table, adaptationSetNames, adaptationSetCollections, put, singleValued,
    Kind.convert]

theorem period_fills : Fills singleValued periodCollections Node.periodChildren (table periodNames) := by
  simp [Fills, Node.periodChildren, table, periodNames, periodCollections, put, singleValued, Kind.convert]

theorem contentComponent_fills :
    Fills singleValued contentComponentCollections Node.contentComponentChildren (table contentComponentNames) := by
  simp [Fills, Node.contentComponentChildren, table, contentComponentNames, contentComponentCollections, put,
    singleValued, Kind.convert]

theorem metrics_fills : Fills singleValued metricsCollections Node.metricsChildren (table metricsNames) := by
  simp [Fills, Node.metricsChildren, table, metricsNames, metricsCollections, put, singleValued, Kind.convert]

theorem mpd_fills : Fills singleValued mpdCollections Node.mpdChildren (table mpdNames) := by
  simp [Fills, Node.mpdChildren, table, mpdNames, mpdCollections, put, singleValued, Kind.convert]

/-! ## Helpers -/

section Helpers

variable {n : Node}

theorem sorted_table_append (names names' : Names) (ns : List Node) :
    sorted Node.name (table (names ++ names')) ns =
      sorted Node.name (table names) ns ++ sorted Node.name (table names') ns := by
  rw [table, List.map_append, sorted, List.map_append]
  rfl

theorem table_names (names : Names) : (table names).map Prod.fst = names.map Prod.fst := by
  rw [table, List.map_map]
  rfl

/-- the loop of a helper, which does nothing with the other children -/
theorem helper_fills {σ : Type} {collections : σ → Collections} {children : List (Branch σ Node Str)} {names : Names}
    (hfills : Fills singleValued collections children (table names)) (hnodup : (names.map Prod.fst).Nodup)
    (h : AtMostOnce n) {o : σ} (ho : collections o = sorted Node.name (table names) []) :
    collections (dispatch Node.name children (fun _ o => o) n.subNodes o) = sorted Node.name (table names) n.subNodes := by
  apply dispatch_fills hfills _ _ ho h
  · intro _ _
    rfl
  · rwa [table_names]

theorem setCommonValuesForSeg_collections (h : AtMostOnce n) {o : SegmentBase}
    (ho : segmentBaseCollections o = sorted Node.name (table segmentBaseNames) []) :
    segmentBaseCollections (n.setCommonValuesForSeg o) = sorted Node.name (table segmentBaseNames) n.subNodes := by
  apply helper_fills segmentBase_fills (by decide) h
  exact ho

theorem setCommonValuesForSeg_additionalSubNodes (n : Node) (o : SegmentBase) :
    (n.setCommonValuesForSeg o).additionalSubNodes = o.additionalSubNodes := by
  apply dispatch_kept (g := fun o : SegmentBase => o.additionalSubNodes)
  · simp [Node.segmentBaseChildren]
  · intro _ _
    rfl

theorem setCommonValuesForMSeg_segmentBase (n : Node) (o : MultipleSegmentBase) :
    (n.setCommonValuesForMSeg o).toSegmentBase = n.setCommonValuesForSeg o.toSegmentBase := by
  apply dispatch_kept (g := fun o : MultipleSegmentBase => o.toSegmentBase)
  · simp [Node.multipleSegmentBaseChildren]
  · intro _ _
    rfl

theorem setCommonValuesForMSeg_collections (h : AtMostOnce n) {o : MultipleSegmentBase}
    (ho : segmentBaseCollections o.toSegmentBase = sorted Node.name (table segmentBaseNames) [])
    (ho' : multipleSegmentBaseCollections o = sorted Node.name (table multipleSegmentBaseNames) []) :
    segmentCollections (n.setCommonValuesForMSeg o) = sorted Node.name (table segmentNames) n.subNodes := by
  have hown : multipleSegmentBaseCollections (n.setCommonValuesForMSeg o) =
      sorted Node.name (table multipleSegmentBaseNames) n.subNodes := by
    apply helper_fills multipleSegmentBase_fills (by decide) h
    exact ho'
  have hbase : segmentBaseCollections (n.setCommonValuesForMSeg o).toSegmentBase =
      sorted Node.name (table segmentBaseNames) n.subNodes := by
    rw [setCommonValuesForMSeg_segmentBase]
    exact setCommonValuesForSeg_collections h ho
  calc segmentCollections (n.setCommonValuesForMSeg o)
      = sorted Node.name (table segmentBaseNames) n.subNodes ++
          sorted Node.name (table multipleSegmentBaseNames) n.subNodes := by rw [segmentCollections, hbase, hown]
    _ = sorted Node.name (table segmentNames) n.subNodes := (sorted_table_append _ _ _).symm

theorem setCommonValuesForMSeg_additionalSubNodes (n : Node) (o : MultipleSegmentBase) :
    (n.setCommonValuesForMSeg o).additionalSubNodes = o.additionalSubNodes := by
  rw [setCommonValuesForMSeg_segmentBase, setCommonValuesForSeg_additionalSubNodes]

theorem setCommonValuesForRep_collections (h : AtMostOnce n) {o : RepresentationBase}
    (ho : representationBaseCollections o = sorted Node.name (table representationBaseNames) []) :
    representationBaseCollections (n.setCommonValuesForRep o) =
      sorted Node.name (table representationBaseNames) n.subNodes := by
  apply helper_fills representationBase_fills (by decide) h
  exact ho

theorem setCommonValuesForRep_additionalSubNodes (n : Node) (o : RepresentationBase) :
    (n.setCommonValuesForRep o).additionalSubNodes = o.additionalSubNodes := by
  apply dispatch_kept (g := fun o : RepresentationBase => o.additionalSubNodes)
  · simp [Node.representationBaseChildren]
  · intro _ _
    rfl

end Helpers

/-! ## The main loops -/

/-- the view of an object has the conversions of the children, sorted by name, and copies of the others -/
structure Filled (k : Kind) (n : Node) (v : View) : Prop where
  collections : v.collections = k.known.map fun e => (e.1, (n.subNodes.filter (·.name = e.1)).map e.2.convert)
  additionalSubNodes :
    v.additionalSubNodes = (n.subNodes.filter (·.name ∉ k.known.map Prod.fst)).map Node.copy
  once : v.collections.flatMap Prod.snd ++ v.additionalSubNodes.map .node ~
    n.subNodes.map (place Node.name (table k.known) fun c => .node c.copy)
  rawAttributes : v.rawAttributes = n.attributes

theorem filled_of_sorted {k : Kind} {n : Node} {v : View} (hnodup : (k.known.map Prod.fst).Nodup)
    (hcollections : v.collections = sorted Node.name (table k.known) n.subNodes)
    (hadditional : v.additionalSubNodes = (n.subNodes.filter (·.name ∉ k.known.map Prod.fst)).map Node.copy)
    (hraw : v.rawAttributes = n.attributes) : Filled k n v where
  collections := by
    rw [hcollections, sorted, table, List.map_map]
    rfl
  additionalSubNodes := hadditional
  once := by
    rw [hcollections, hadditional, List.map_map]
    have hperm : _ ++ _ ~ n.subNodes.map (place Node.name (table k.known) fun c => Converted.node c.copy) :=
      sorted_perm (by rwa [table_names]) n.subNodes
    rw [table_names] at hperm
    convert hperm
    rfl
  rawAttributes := hraw

/-- the main loop of a conversion: its branches, what it does with the other children, the names it skips, the collections
`base` that its helpers have filled for the names in `helped`, and the collections that it fills for the names in `own` -/
structure Loop (σ : Type) where
  helped : Names
  own : Names
  nodup : ((helped ++ own).map Prod.fst).Nodup := by decide
  skipped : List Str
  skipped_perm : skipped ~ helped.map Prod.fst := by decide
  children : List (Branch σ Node Str)
  add : Node → σ → σ
  base : σ → Collections
  collections : σ → Collections
  additional : σ → List Node
  fills : Fills singleValued collections children (table own)
  base_children : ∀ b ∈ children, ∀ c s, base (b.add c s) = base s
  additional_children : ∀ b ∈ children, ∀ c s, additional (b.add c s) = additional s
  base_add : ∀ c s, base (add c s) = base s := by intro _ _; rfl
  collections_add : ∀ c s, collections (add c s) = collections s := by intro _ _; rfl
  additional_add : ∀ c s, additional (add c s) = additional s ++ [c.copy] := by intro _ _; rfl

namespace Loop

variable {σ : Type} (l : Loop σ) {n : Node} {o : σ}

/-- the loop -/
def run (n : Node) (o : σ) : σ := dispatch Node.name l.children (addUnless Node.name l.skipped l.add) n.subNodes o

theorem collections_run (h : AtMostOnce n) (hbase : l.base o = sorted Node.name (table l.helped) n.subNodes)
    (hcollections : l.collections o = sorted Node.name (table l.own) []) :
    l.base (l.run n o) ++ l.collections (l.run n o) =
      sorted Node.name (table (l.helped ++ l.own)) n.subNodes := by
  have hkept : l.base (l.run n o) = l.base o :=
    dispatch_kept l.base_children (addUnless_kept l.base_add) n.subNodes o
  have hfilled : l.collections (l.run n o) = sorted Node.name (table l.own) n.subNodes := by
    apply dispatch_fills l.fills (addUnless_kept l.collections_add) _ hcollections h
    rw [table_names]
    have hnodup := l.nodup
    rw [List.map_append] at hnodup
    exact hnodup.of_append_right
  calc l.base (l.run n o) ++ l.collections (l.run n o)
      = sorted Node.name (table l.helped) n.subNodes ++ sorted Node.name (table l.own) n.subNodes := by
        rw [hkept, hbase, hfilled]
    _ = sorted Node.name (table (l.helped ++ l.own)) n.subNodes := (sorted_table_append l.helped l.own _).symm

theorem additional_run (hadditional : l.additional o = []) :
    l.additional (l.run n o) =
      (n.subNodes.filter (·.name ∉ (l.helped ++ l.own).map Prod.fst)).map Node.copy := by
  rw [run, dispatch_addUnless l.additional_children l.additional_add, hadditional, List.nil_append,
    names_of_fills l.fills, table_names, List.map_append]
  congr 1
  apply List.filter_congr
  intro c _
  rw [decide_eq_decide, List.mem_append, List.mem_append, l.skipped_perm.mem_iff, or_comm]

/-- **The main loop.** If the helpers have filled the collections of `base`, the object it leaves is filled. -/
theorem filled {k : Kind} (hknown : k.known = l.helped ++ l.own) (h : AtMostOnce n)
    (hbase : l.base o = sorted Node.name (table l.helped) n.subNodes)
    (hcollections : l.collections o = sorted Node.name (table l.own) []) (hadditional : l.additional o = []) :
    Filled k n ⟨l.base (l.run n o) ++ l.collections (l.run n o), l.additional (l.run n o), n.attributes⟩ := by
  apply filled_of_sorted
  · rw [hknown]
    exact l.nodup
  · rw [hknown]
    exact l.collections_run h hbase hcollections
  · rw [hknown]
    exact l.additional_run hadditional
  · rfl

end Loop

def segmentTimelineLoop : Loop SegmentTimeline where
  helped := []
  own := segmentTimelineNames
  skipped := []
  children := Node.segmentTimelineChildren
  add := fun c o => { o with additionalSubNodes := o.additionalSubNodes ++ [c.copy] }
  base := fun _ => []
  collections := segmentTimelineCollections
  additional := (·.additionalSubNodes)
  fills := segmentTimeline_fills
  base_children := by simp
  additional_children := by simp [Node.segmentTimelineChildren]

def segmentBaseLoop : Loop SegmentBase where
  helped := segmentBaseNames
  own := []
  skipped := Node.notInSegmentBase
  children := []
  add := fun c o => { o with additionalSubNodes := o.additionalSubNodes ++ [c.copy] }
  base := segmentBaseCollections
  collections := fun _ => []
  additional := (·.additionalSubNodes)
  fills := .nil
  base_children := by simp
  additional_children := by simp

def segmentTemplateLoop : Loop SegmentTemplate where
  helped := segmentNames
  own := []
  skipped := Node.notInSegmentTemplate
  children := []
  add := fun c o => { o with additionalSubNodes := o.additionalSubNodes ++ [c.copy] }
  base := fun o => segmentCollections o.toMultipleSegmentBase
  collections := fun _ => []
  additional := (·.additionalSubNodes)
  fills := .nil
  base_children := by simp
  additional_children := by simp

def segmentListLoop : Loop SegmentList where
  helped := segmentNames
  own := segmentListNames
  skipped := Node.notInSegmentList
  children := Node.segmentListChildren
  add := fun c o => { o with additionalSubNodes := o.additionalSubNodes ++ [c.copy] }
  base := fun o => segmentCollections o.toMultipleSegmentBase
  collections := segmentListCollections
  additional := (·.additionalSubNodes)
  fills := segmentList_fills
  base_children := by simp [Node.segmentListChildren]
  additional_children := by simp [Node.segmentListChildren]

def subRepresentationLoop : Loop SubRepresentation where
  helped := representationBaseNames
  own := []
  skipped := Node.notInRepresentation
  children := []
  add := fun c o => { o with additionalSubNodes := o.additionalSubNodes ++ [c.copy] }
  base := fun o => representationBaseCollections o.toRepresentationBase
  collections := fun _ => []
  additional := (·.additionalSubNodes)
  fills := .nil
  base_children := by simp
  additional_children := by simp

def representationLoop : Loop Representation where
  helped := representationBaseNames
  own := representationNames
  skipped := Node.notInRepresentation
  children := Node.representationChildren
  add := fun c o => { o with additionalSubNodes := o.additionalSubNodes ++ [c.copy] }
  base := fun o => representationBaseCollections o.toRepresentationBase
  collections := representationCollections
  additional := (·.additionalSubNodes)
  fills := representation_fills
  base_children := by simp [Node.representationChildren]
  additional_children := by simp [Node.representationChildren]

def adaptationSetLoop : Loop AdaptationSet where
  helped := representationBaseNames
  own := adaptationSetNames
  skipped := Node.notInRepresentation
  children := Node.adaptationSetChildren
  add := fun c o => { o with additionalSubNodes := o.additionalSubNodes ++ [c.copy] }
  base := fun o => representationBaseCollections o.toRepresentationBase
  collections := adaptationSetCollections
  additional := (·.additionalSubNodes)
  fills := adaptationSet_fills
  base_children := by simp [Node.adaptationSetChildren]
  additional_children := by simp [Node.adaptationSetChildren]

def periodLoop : Loop Period where
  helped := []
  own := periodNames
  skipped := []
  children := Node.periodChildren
  add := fun c o => { o with additionalSubNodes := o.additionalSubNodes ++ [c.copy] }
  base := fun _ => []
  collections := periodCollections
  additional := (·.additionalSubNodes)
  fills := period_fills
  base_children := by simp
  additional_children := by simp [Node.periodChildren]

def mpdLoop : Loop MPD where
  helped := []
  own := mpdNames
  skipped := []
  children := Node.mpdChildren
  add := fun c o => { o with additionalSubNodes := o.additionalSubNodes ++ [c.copy] }
  base := fun _ => []
  collections := mpdCollections
  additional := (·.additionalSubNodes)
  fills := mpd_fills
  base_children := by simp
  additional_children := by simp [Node.mpdChildren]

def contentComponentLoop : Loop ContentComponent where
  helped := []
  own := contentComponentNames
  skipped := []
  children := Node.contentComponentChildren
  add := fun c o => { o with additionalSubNodes := o.additionalSubNodes ++ [c.copy] }
  base := fun _ => []
  collections := contentComponentCollections
  additional := (·.additionalSubNodes)
  fills := contentComponent_fills
  base_children := by simp
  additional_children := by simp [Node.contentComponentChildren]

def metricsLoop : Loop Metrics where
  helped := []
  own := metricsNames
  skipped := []
  children := Node.metricsChildren
  add := fun c o => { o with additionalSubNodes := o.additionalSubNodes ++ [c.copy] }
  base := fun _ => []
  collections := metricsCollections
  additional := (·.additionalSubNodes)
  fills := metrics_fills
  base_children := by simp
  additional_children := by simp [Node.metricsChildren]

/-- **A class that keeps every child.** The object of an element is filled. -/
theorem convert_filled {k : Kind} {n : Node} (hk : k ∈ keeping) (h : AtMostOnce n) :
    ∃ v, (k.convert n).view = some v ∧ Filled k n v := by
  cases k with
  | mpd => exact ⟨_, rfl, mpdLoop.filled (o := n.setMPDAttributes {}) rfl h rfl rfl rfl⟩
  | period => exact ⟨_, rfl, periodLoop.filled (o := n.setPeriodAttributes {}) rfl h rfl rfl rfl⟩
  | adaptationSet =>
    exact ⟨_, rfl, adaptationSetLoop.filled
      (o := n.setAdaptationSetAttributes { toRepresentationBase := n.setCommonValuesForRep {} }) rfl h
      (setCommonValuesForRep_collections h rfl) rfl (setCommonValuesForRep_additionalSubNodes n _)⟩
  | representation =>
    exact ⟨_, rfl, representationLoop.filled
      (o := n.setRepresentationAttributes { toRepresentationBase := n.setCommonValuesForRep {} }) rfl h
      (setCommonValuesForRep_collections h rfl) rfl (setCommonValuesForRep_additionalSubNodes n _)⟩
  | subRepresentation =>
    have hfilled := subRepresentationLoop.filled (k := .subRepresentation)
      (o := n.setSubRepresentationAttributes { toRepresentationBase := n.setCommonValuesForRep {} }) rfl h
      (setCommonValuesForRep_collections h rfl) rfl (setCommonValuesForRep_additionalSubNodes n _)
    exact ⟨_, rfl, hfilled⟩
  | segmentList =>
    exact ⟨_, rfl, segmentListLoop.filled
      (o := n.setSegmentListAttributes { toMultipleSegmentBase := n.setCommonValuesForMSeg {} }) rfl h
      (setCommonValuesForMSeg_collections h rfl rfl) rfl (setCommonValuesForMSeg_additionalSubNodes n _)⟩
  | segmentTemplate =>
    exact ⟨_, rfl, segmentTemplateLoop.filled
      (o := n.setSegmentTemplateAttributes { toMultipleSegmentBase := n.setCommonValuesForMSeg {} }) rfl h
      (setCommonValuesForMSeg_collections h rfl rfl) rfl (setCommonValuesForMSeg_additionalSubNodes n _)⟩
  | segmentBase =>
    exact ⟨_, rfl, segmentBaseLoop.filled (o := n.setCommonValuesForSeg {}) rfl h
      (setCommonValuesForSeg_collections h rfl) rfl (setCommonValuesForSeg_additionalSubNodes n _)⟩
  | segmentTimeline => exact ⟨_, rfl, segmentTimelineLoop.filled (o := {}) rfl h rfl rfl rfl⟩
  | contentComponent =>
    exact ⟨_, rfl, contentComponentLoop.filled
      (o := { id := n.number "id" 0, lang := n.str "lang" [], contentType := n.str "contentType" [],
              par := n.str "par" [] }) rfl h rfl rfl rfl⟩
  | metrics => exact ⟨_, rfl, metricsLoop.filled (o := { metrics := n.str "metrics" [] }) rfl h rfl rfl rfl⟩
  | _ => exact absurd hk (by simp [keeping])

/-! ## What is kept -/

/-- a conversion keeps what its class holds of the element -/
theorem keeps_convert (k : Kind) (n : Node) : Keeps k n (k.convert n) := by
  cases k with
  | mpd | period | adaptationSet | representation | subRepresentation | segmentList | segmentTemplate | segmentBase
  | segmentTimeline => exact rfl
  | timeline => exact keepsTimeline n
  | segmentURL => exact keepsSegmentURL n
  | urlType type => exact keepsURLType n type
  | baseUrl => exact keepsBaseUrl n
  | descriptor => exact keepsDescriptor n
  | subset => exact keepsSubset n
  | range => exact keepsRange n
  | programInformation => exact keepsProgramInformation n
  | text => exact hasText_getText n
  | contentComponent =>
    have hkept : (fun o : ContentComponent => (o.id, o.lang, o.contentType, o.par)) n.toContentComponent =
        (n.number "id" 0, n.str "lang" [], n.str "contentType" [], n.str "par" []) := by
      apply dispatch_kept (g := fun o : ContentComponent => (o.id, o.lang, o.contentType, o.par))
      · simp [Node.contentComponentChildren]
      · intro _ _
        rfl
    simp only [Prod.mk.injEq] at hkept
    obtain ⟨hid, hlang, hcontentType, hpar⟩ := hkept
    refine ⟨?_, ?_, ?_, ?_, rfl⟩
    · rw [hid]
      exact sets_number 0
    · rw [hlang]
      exact sets_str []
    · rw [hcontentType]
      exact sets_str []
    · rw [hpar]
      exact sets_str []
  | metrics =>
    have hkept : n.toMetrics.metrics = n.str "metrics" [] := by
      apply dispatch_kept (g := fun o : Metrics => o.metrics)
      · simp [Node.metricsChildren]
      · intro _ _
        rfl
    refine ⟨?_, rfl⟩
    rw [hkept]
    exact sets_str []

theorem known_nodup {k : Kind} (hk : k ∈ keeping) : (k.known.map Prod.fst).Nodup := by
  have hall : ∀ k ∈ keeping, (k.known.map Prod.fst).Nodup := by decide
  exact hall k hk

/-- what becomes of a child in the loop -/
theorem placed_place {k : Kind} (hk : k ∈ keeping) (c : Node) :
    Placed k c (place Node.name (table k.known) (fun c => .node c.copy) c) := by
  have hnodup : ((table k.known).map Prod.fst).Nodup := by
    rw [table_names]
    exact known_nodup hk
  by_cases hc : c.name ∈ k.known.map Prod.fst
  · obtain ⟨e, he, hname⟩ := List.mem_map.1 hc
    rw [place_of_mem hnodup (List.mem_map.2 ⟨e, he, rfl⟩) hname.symm]
    exact Or.inl ⟨e.2, by rw [← hname]; exact he, keeps_convert e.2 c⟩
  · rw [place_of_notMem (by rw [table_names]; exact hc)]
    exact Or.inr ⟨hc, _, rfl, copied_copy c⟩

/-- a filled object loses nothing -/
theorem Filled.lossless {k : Kind} {n : Node} {v : View} (hk : k ∈ keeping) (h : Filled k n v) : Lossless k n v where
  collections := by
    rw [h.collections, List.forall₂_map_right_iff, List.forall₂_same]
    intro e _
    refine ⟨rfl, ?_⟩
    rw [List.forall₂_map_right_iff, List.forall₂_same]
    exact fun c _ => keeps_convert e.2 c
  additionalSubNodes := by
    rw [h.additionalSubNodes]
    exact copied_map _
  once := by
    refine ⟨_, h.once, ?_⟩
    rw [List.forall₂_map_right_iff, List.forall₂_same]
    exact fun c _ => placed_place hk c
  rawAttributes := h.rawAttributes

/-! ## The elements of a tree -/

theorem mem_zip_map {α β : Type} {f : α → β} {l : List α} {a : α} {b : β} :
    (a, b) ∈ l.zip (l.map f) ↔ a ∈ l ∧ b = f a := by
  have hzip : l.zip (l.map f) = l.map fun a => (a, f a) := by
    simpa using List.zip_map' (f := id) (g := f) (l := l)
  rw [hzip, List.mem_map]
  refine ⟨?_, fun ⟨ha, hb⟩ => ⟨a, ha, by rw [hb]⟩⟩
  rintro ⟨a', ha', heq⟩
  obtain ⟨rfl, rfl⟩ := Prod.mk.inj heq
  exact ⟨ha', rfl⟩

theorem mem_keeping {k k' : Kind} {name : Str} (h : (name, k') ∈ k.known) : k ∈ keeping := by
  cases k with
  | mpd | period | adaptationSet | representation | subRepresentation | segmentList | segmentTemplate | segmentBase
  | segmentTimeline | contentComponent | metrics => decide
  | _ => exact absurd h List.not_mem_nil

section Tree

variable {root : Node} {k : Kind} {n : Node} {o : Converted}

theorem Element.inTree (h : Element root k n) : InTree root n := by
  induction h with
  | root => exact .root
  | child _ hc _ ih => exact .child ih hc

theorem Held.element (h : Held root k n o) : Element root k n := by
  induction h with
  | root => exact .root
  | child _ _ _ hk hx ih =>
    obtain ⟨hc, hname⟩ := List.mem_filter.1 (List.of_mem_zip hx).1
    apply Element.child ih hc
    rwa [of_decide_eq_true hname]

/-- the object of an element is its conversion -/
theorem Held.eq_convert (hone : ∀ n, InTree root n → AtMostOnce n) (h : Held root k n o) : o = k.convert n := by
  induction h with
  | root => rfl
  | @child k k' n c o x v name xs h hv hxs hk hx ih =>
    obtain ⟨v', hv', hfilled⟩ := convert_filled (mem_keeping hk) (hone n h.element.inTree)
    obtain rfl : v' = v := by
      rw [ih, hv'] at hv
      exact Option.some.inj hv
    rw [hfilled.collections] at hxs
    obtain ⟨e, he, heq⟩ := List.mem_map.1 hxs
    obtain ⟨rfl, rfl⟩ := Prod.mk.inj heq
    have hkind : e.2 = k' := by
      rw [List.inj_on_of_nodup_map (known_nodup (mem_keeping hk)) he hk rfl]
    rw [← hkind]
    exact (mem_zip_map.1 hx).2

/-- every element has one -/
theorem Element.held (hone : ∀ n, InTree root n → AtMostOnce n) (h : Element root k n) : ∃ o, Held root k n o := by
  induction h with
  | root => exact ⟨_, .root⟩
  | @child k k' n c h hc hk ih =>
    obtain ⟨o, ho⟩ := ih
    obtain ⟨v, hv, hfilled⟩ := convert_filled (mem_keeping hk) (hone n h.inTree)
    have hview : o.view = some v := by rw [ho.eq_convert hone, hv]
    have hcollection : (c.name, (n.subNodes.filter (·.name = c.name)).map k'.convert) ∈ v.collections := by
      rw [hfilled.collections]
      exact List.mem_map.2 ⟨_, hk, rfl⟩
    have hchild : c ∈ n.subNodes.filter (·.name = c.name) := List.mem_filter.2 ⟨hc, by simp⟩
    exact ⟨k'.convert c, ho.child hview hcollection hk (mem_zip_map.2 ⟨hchild, rfl⟩)⟩

/-- **No element is lost.** In a tree whose elements have one child at most of each single-valued name, every element has
an object of its class that keeps what this holds of it, and if that is one of the classes for all children it holds every
child of the element once. -/
theorem elements_lossless (hone : ∀ n, InTree root n → AtMostOnce n) (h : Element root k n) :
    (∃ o, Held root k n o) ∧
      ∀ o, Held root k n o → Keeps k n o ∧ (k ∈ keeping → ∃ v, o.view = some v ∧ Lossless k n v) := by
  refine ⟨h.held hone, ?_⟩
  intro o ho
  rw [ho.eq_convert hone]
  refine ⟨keeps_convert k n, fun hk => ?_⟩
  obtain ⟨v, hv, hfilled⟩ := convert_filled hk (hone n h.inTree)
  exact ⟨v, hv, hfilled.lossless hk⟩

end Tree

/-- an element without text -/
def elementNode (name : String) (attributes : Attributes) (subNodes : List Node) : Node :=
  ⟨1, name.toList, [], "http://a/".toList, attributes, subNodes⟩

/-- a timeline with an element that it does not know -/
def liveTimeline : Node :=
  elementNode "SegmentTimeline" [("a".toList, "b".toList)]
    [elementNode "S" [("d".toList, "4".toList)] [], elementNode "Foo" [] [], elementNode "S" [("d".toList, "2".toList)] []]

def liveTemplate : Node := elementNode "SegmentTemplate" [("media".toList, "$Time$".toList)] [liveTimeline]

def livePeriod : Node := elementNode "Period" [] [elementNode "Foo" [] [], liveTemplate]

/-- a dynamic presentation with that timeline -/
def liveTree : Node := elementNode "MPD" [("type".toList, "dynamic".toList)] [livePeriod]

theorem elements_lossless_timeline :
    (∃ o, Held liveTree .segmentTimeline liveTimeline o) ∧
      ∀ o, Held liveTree .segmentTimeline liveTimeline o → Keeps .segmentTimeline liveTimeline o ∧
        ∃ v, o.view = some v ∧ Lossless .segmentTimeline liveTimeline v := by
  have hone : ∀ n, InTree liveTree n → AtMostOnce n := by
    intro n h
    have hmem : n = liveTree ∨ n = livePeriod ∨ n = liveTemplate ∨ n = liveTimeline ∨ n.subNodes = [] := by
      induction h with
      | root => exact Or.inl rfl
      | @child n c _ hc ih =>
        rcases ih with rfl | rfl | rfl | rfl | hnil
        · exact Or.inr (Or.inl (List.mem_singleton.1 hc))
        · rcases List.mem_pair.1 hc with rfl | rfl
          · exact Or.inr (Or.inr (Or.inr (Or.inr rfl)))
          · exact Or.inr (Or.inr (Or.inl rfl))
        · exact Or.inr (Or.inr (Or.inr (Or.inl (List.mem_singleton.1 hc))))
        · rcases List.mem_cons.1 hc with rfl | hc
          · exact Or.inr (Or.inr (Or.inr (Or.inr rfl)))
          · rcases List.mem_pair.1 hc with rfl | rfl <;> exact Or.inr (Or.inr (Or.inr (Or.inr rfl)))
        · rw [hnil] at hc
          exact absurd hc List.not_mem_nil
    unfold AtMostOnce
    rcases hmem with rfl | rfl | rfl | rfl | hnil
    · decide
    · decide
    · decide
    · decide
    · intro k _
      rw [hnil]
      exact Nat.zero_le 1
  have hperiod : Element liveTree .period livePeriod := Element.root.child List.mem_cons_self (by decide)
  have htemplate : Element liveTree .segmentTemplate liveTemplate :=
    hperiod.child (List.mem_cons_of_mem _ List.mem_cons_self) (by decide)
  have helement : Element liveTree .segmentTimeline liveTimeline := htemplate.child List.mem_cons_self (by decide)
  obtain ⟨hheld, hall⟩ := elements_lossless hone helement
  exact ⟨hheld, fun o ho => ⟨(hall o ho).1, (hall o ho).2 (by decide)⟩⟩

end NdnDash.Xml
