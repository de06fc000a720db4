/-
From the `S` elements of a document to the start times of the player: `ToTimeline` and `ToSegmentTimeline` (`Node.cpp`)
followed by `CalculateSegmentStartTimes` (`SegmentTemplateStream.cpp`).

Here an absent @t is told from @t="0", which `Timeline` does not do, and the attributes are the numbers that `strtoul`
reads, before they are cut to 32 bits.

- `timelines_eq`: what the object model keeps of the `S` elements.
- `startTimes_iff_written`: one element.
- `expanded_iff`: for every `SegmentTimeline` element whose times fit 32 bits, the player expands it completely exactly
  when every element is `Written`.
-/
import NdnDash.Mpd.SegmentTimeline
import NdnDash.Xml.ToMPD

namespace NdnDash.Mpd

open NdnDash.Text NdnDash.Dispatch

/-! ## What the document says -/

/-- an `S` element -/
structure SElement where
  t : Option ℕ
  d : ℕ
  r : ℕ
deriving DecidableEq, Repr

namespace SElement

/-- where it starts: at @t, else where the one before it ends -/
def start (next : ℕ) (s : SElement) : ℕ := s.t.getD next

/-- its segments, one more than it is repeated -/
def expectedTimes (next : ℕ) (s : SElement) : List ℕ := (List.range (s.r + 1)).map fun j => s.start next + s.d * j

/-- where it ends -/
def stop (next : ℕ) (s : SElement) : ℕ := s.start next + s.d * (s.r + 1)

/-- what the object model keeps of it -/
def toTimeline (s : SElement) : Timeline := ⟨UInt32.ofNat (s.t.getD 0), UInt32.ofNat s.d, UInt32.ofNat s.r⟩

/-- an element the player expands: a repeated one has a @t other than 0, one without @t is expected at 0 -/
def Written (next : ℕ) (s : SElement) : Prop :=
  if s.r = 0 then s.t = none → next = 0 else s.t.getD 0 ≠ 0 ∧ s.r < 2 ^ 32

instance (next : ℕ) (s : SElement) : Decidable (s.Written next) := by
  unfold Written; infer_instance

/-- the times of every element -/
def expectedPieces (next : ℕ) : List SElement → List (List ℕ)
  | [] => []
  | s :: ss => s.expectedTimes next :: expectedPieces (s.stop next) ss

/-- the times of all elements -/
def expectedStartTimes (ss : List SElement) : List ℕ := (expectedPieces 0 ss).flatten

def AllWritten (next : ℕ) : List SElement → Prop
  | [] => True
  | s :: ss => s.Written next ∧ AllWritten (s.stop next) ss

instance instDecidableAllWritten : ∀ next ss, Decidable (AllWritten next ss)
  | _, [] => .isTrue trivial
  | next, s :: ss =>
    have := instDecidableAllWritten (s.stop next) ss
    inferInstanceAs (Decidable (s.Written next ∧ AllWritten (s.stop next) ss))

end SElement

/-- the attributes of an `S` element -/
def sElement (n : Xml.Node) : SElement where
  t := (n.getAttributeValue "t").map strtoul
  d := ((n.getAttributeValue "d").map strtoul).getD 0
  r := ((n.getAttributeValue "r").map strtoul).getD 0

/-- the `S` elements of a `SegmentTimeline` element -/
def sElements (n : Xml.Node) : List SElement := (n.subNodes.filter fun c => c.name = "S".toList).map sElement

/-- what the player reads of a `SegmentTimeline` -/
def readTimelines (o : Object.SegmentTimeline) : List Timeline :=
  o.timelines.map fun t => ⟨t.startTime, t.duration, t.repeatCount⟩

/-! ## What the object model keeps -/

theorem number_eq (n : Xml.Node) (key : String) :
    n.number key 0 = UInt32.ofNat (((n.getAttributeValue key).map strtoul).getD 0) := by
  unfold Xml.Node.number
  cases n.getAttributeValue key with
  | none => rfl
  | some v => rfl

/-- `ToTimeline` -/
theorem read_toTimeline (n : Xml.Node) :
    (⟨n.toTimeline.startTime, n.toTimeline.duration, n.toTimeline.repeatCount⟩ : Timeline) = (sElement n).toTimeline := by
  simp only [Xml.Node.toTimeline, number_eq, sElement, SElement.toTimeline]

/-- one child of a `SegmentTimeline` element -/
theorem readTimelines_step (o : Object.SegmentTimeline) (c : Xml.Node) :
    readTimelines (step Xml.Node.name Xml.Node.segmentTimelineChildren
      (fun c o => { o with additionalSubNodes := o.additionalSubNodes ++ [c.copy] }) o c) =
        readTimelines o ++ if c.name = "S".toList then [(sElement c).toTimeline] else [] := by
  unfold step
  by_cases hc : c.name = "S".toList
  · rw [if_pos hc, ← read_toTimeline, Xml.Node.segmentTimelineChildren, List.find?_cons_of_pos (by simpa using hc.symm)]
    simp only [readTimelines, List.map_append, List.map_cons, List.map_nil]
  · rw [if_neg hc, List.append_nil, Xml.Node.segmentTimelineChildren,
      List.find?_cons_of_neg (by simpa using Ne.symm hc), List.find?_nil]
    rfl

/-- `ToSegmentTimeline`: the `S` children in order, whatever stands between them -/
theorem timelines_eq (n : Xml.Node) : readTimelines n.toSegmentTimeline = (sElements n).map SElement.toTimeline := by
  have hfold := foldl_append readTimelines_step n.subNodes {}
  rw [flatMap_filter (p := fun c : Xml.Node => c.name = "S".toList) fun c => (sElement c).toTimeline] at hfold
  rw [sElements, List.map_map]
  exact hfold

/-! ## What the player computes -/

namespace SElement

variable {next : ℕ} {s : SElement} {ss : List SElement}

theorem start_mem (next : ℕ) (s : SElement) : s.start next ∈ s.expectedTimes next :=
  List.mem_map.2 ⟨0, by simp, by simp⟩

theorem last_mem (next : ℕ) (s : SElement) : s.start next + s.d * s.r ∈ s.expectedTimes next :=
  List.mem_map.2 ⟨s.r, by simp, rfl⟩

theorem length_expectedTimes (next : ℕ) (s : SElement) : (s.expectedTimes next).length = s.r + 1 := by
  rw [expectedTimes, List.length_map, List.length_range]

/-- the player adds no more times than expected -/
theorem length_startTimes_le (next : ℕ) (s : SElement) :
    (s.toTimeline.startTimes.map (·.toNat)).length ≤ (s.expectedTimes next).length := by
  have hmod : s.r % 2 ^ 32 ≤ s.r := Nat.mod_le _ _
  rw [length_expectedTimes, List.length_map]
  unfold toTimeline Timeline.startTimes
  split_ifs
  · rw [List.length_map, List.length_range, UInt32.toNat_ofNat']
    omega
  · exact Nat.zero_le _
  · rw [List.length_singleton]
    omega

/-- the element that is not repeated -/
theorem single_iff (hr : s.r = 0) (hsmall : ∀ time ∈ s.expectedTimes next, time < 2 ^ 32) :
    s.toTimeline.startTimes.map (·.toNat) = s.expectedTimes next ↔ s.Written next := by
  have hlt := hsmall _ (start_mem next s)
  have hcode : s.toTimeline.startTimes.map (·.toNat) = [s.t.getD 0 % 2 ^ 32] := by
    rw [Timeline.startTimes, if_neg (by simp [toTimeline, hr])]
    rfl
  have hexpected : s.expectedTimes next = [s.start next] := by simp [expectedTimes, hr]
  rw [hcode, hexpected, List.cons.injEq, and_iff_left rfl, Written, if_pos hr]
  unfold start at *
  cases ht : s.t with
  | none =>
    rw [Option.getD_none, Option.getD_none, Nat.zero_mod]
    exact ⟨fun h _ => h.symm, fun h => (h rfl).symm⟩
  | some t =>
    rw [ht, Option.getD_some] at hlt
    rw [Option.getD_some, Option.getD_some, Nat.mod_eq_of_lt hlt]
    exact iff_of_true rfl fun h => absurd h (by simp)

/-- if no time of a repeated element is missing, its start is not 0 -/
theorem written_of_length (hr : s.r ≠ 0) (hlength : s.toTimeline.startTimes.length = s.r + 1) :
    s.t.getD 0 ≠ 0 ∧ s.r < 2 ^ 32 := by
  unfold toTimeline Timeline.startTimes at hlength
  split_ifs at hlength with hr' ht'
  · refine ⟨?_, ?_⟩
    · intro h0
      rw [h0] at ht'
      exact UInt32.lt_irrefl 0 ht'
    · rw [List.length_map, List.length_range, UInt32.toNat_ofNat'] at hlength
      omega
  · exact absurd (Nat.succ.inj hlength).symm hr

/-- a repeated element with a start that is not 0 -/
theorem startTimes_of_written (hr : s.r ≠ 0) (hsmall : ∀ time ∈ s.expectedTimes next, time < 2 ^ 32)
    (ht : s.t.getD 0 ≠ 0) (hr' : s.r < 2 ^ 32) : s.toTimeline.startTimes.map (·.toNat) = s.expectedTimes next := by
  have hstart := hsmall _ (start_mem next s)
  have hlast := hsmall _ (last_mem next s)
  have hgetD : s.t.getD 0 = s.start next := by
    cases hs : s.t with
    | none => rw [hs] at ht; exact absurd rfl ht
    | some t => rw [start, hs, Option.getD_some, Option.getD_some]
  have hd : s.d < 2 ^ 32 := by
    have : s.d * 1 ≤ s.d * s.r := Nat.mul_le_mul_left _ (Nat.pos_of_ne_zero hr)
    omega
  have hT : (UInt32.ofNat (s.t.getD 0)).toNat = s.start next := by
    rw [UInt32.toNat_ofNat', hgetD, Nat.mod_eq_of_lt hstart]
  have hD : (UInt32.ofNat s.d).toNat = s.d := by rw [UInt32.toNat_ofNat', Nat.mod_eq_of_lt hd]
  have hR : (UInt32.ofNat s.r).toNat = s.r := by rw [UInt32.toNat_ofNat', Nat.mod_eq_of_lt hr']
  have hrange := (map_range_iff (UInt32.ofNat (s.t.getD 0)) (UInt32.ofNat s.d) (UInt32.ofNat s.r)).2
    (by rw [hT, hD, hR]; exact hlast)
  rw [hT, hD, hR] at hrange
  rw [expectedTimes, ← hrange, Timeline.startTimes, if_pos, if_pos, List.map_map, toTimeline, hR]
  · rfl
  · rw [toNat_pos_iff, ← UInt32.toNat_inj.ne, toTimeline, hT, ← hgetD]
    exact ht
  · rw [toNat_pos_iff, ← UInt32.toNat_inj.ne, toTimeline, hR]
    exact hr

/-- the repeated element -/
theorem repeated_iff (hr : s.r ≠ 0) (hsmall : ∀ time ∈ s.expectedTimes next, time < 2 ^ 32) :
    s.toTimeline.startTimes.map (·.toNat) = s.expectedTimes next ↔ s.Written next := by
  rw [Written, if_neg hr]
  constructor
  · intro h
    have hlength := congrArg List.length h
    rw [length_expectedTimes, List.length_map] at hlength
    exact written_of_length hr hlength
  · intro h
    exact startTimes_of_written hr hsmall h.1 h.2

/-- **One element.** Its times are those expected exactly when it is written. -/
theorem startTimes_iff_written (hsmall : ∀ time ∈ s.expectedTimes next, time < 2 ^ 32) :
    s.toTimeline.startTimes.map (·.toNat) = s.expectedTimes next ↔ s.Written next := by
  by_cases hr : s.r = 0
  · exact single_iff hr hsmall
  · exact repeated_iff hr hsmall

theorem allWritten_iff (hsmall : ∀ time ∈ (expectedPieces next ss).flatten, time < 2 ^ 32) :
    (ss.map fun s => s.toTimeline.startTimes.map (·.toNat)) = expectedPieces next ss ↔ AllWritten next ss := by
  induction ss generalizing next with
  | nil => exact iff_of_true rfl trivial
  | cons s ss ih =>
    simp only [expectedPieces, List.flatten_cons, List.mem_append] at hsmall
    rw [List.map_cons, expectedPieces, List.cons.injEq, startTimes_iff_written fun time h => hsmall time (Or.inl h),
      ih fun time h => hsmall time (Or.inr h), AllWritten]

theorem forall₂_length (next : ℕ) (ss : List SElement) :
    List.Forall₂ (fun x y => x.length ≤ y.length) (ss.map fun s => s.toTimeline.startTimes.map (·.toNat))
      (expectedPieces next ss) := by
  induction ss generalizing next with
  | nil => exact .nil
  | cons s ss ih => exact .cons (length_startTimes_le next s) (ih _)

theorem length_expected (next : ℕ) (ss : List SElement) :
    (expectedPieces next ss).flatten.length = (ss.map fun s => s.r + 1).sum := by
  induction ss generalizing next with
  | nil => rfl
  | cons s ss ih =>
    rw [expectedPieces, List.flatten_cons, List.length_append, length_expectedTimes, ih, List.map_cons, List.sum_cons]

end SElement

/-! ## Main result -/

/-- the player expands the timeline completely: the times, their number, and what each segment number gives -/
structure Expanded (baseUrls : List BaseUrl) (representation : Representation) (template : SegmentTemplate)
    (ss : List SElement) : Prop where
  times : (calculateSegmentStartTimes template).map (·.toNat) = SElement.expectedStartTimes ss
  count : (calculateSegmentStartTimes template).length = (ss.map fun s => s.r + 1).sum
  given : ∀ n, (RepresentationStream.segmentTemplate baseUrls representation template
      (calculateSegmentStartTimes template)).getMediaSegment n =
    match (SElement.expectedStartTimes ss)[n]? with
    | some time => template.getMediaSegmentFromTime baseUrls representation.id representation.bandwidth (UInt32.ofNat time)
    | none => some none

/-- the segment numbers follow the times -/
theorem expanded_of_times {baseUrls : List BaseUrl} {representation : Representation} {template : SegmentTemplate}
    {ss : List SElement} (htimeline : template.segmentTimeline.isSome = true)
    (h : (calculateSegmentStartTimes template).map (·.toNat) = SElement.expectedStartTimes ss) :
    Expanded baseUrls representation template ss := by
  refine ⟨h, ?_, ?_⟩
  · rw [← List.length_map (f := fun time : UInt32 => time.toNat), h]
    exact SElement.length_expected 0 ss
  · intro n
    rw [RepresentationStream.getMediaSegment, if_pos htimeline, ← h, List.getElem?_map]
    cases (calculateSegmentStartTimes template)[n]? with
    | none => rfl
    | some time =>
      simp only [Option.map_some, UInt32.ofNat_toNat]

/-- **The timeline.** For every `SegmentTimeline` element whose times fit 32 bits, the player expands it completely exactly
when every element is written. -/
theorem expanded_iff {n : Xml.Node} {baseUrls : List BaseUrl} {representation : Representation}
    {template : SegmentTemplate} (htemplate : template.segmentTimeline = some (readTimelines n.toSegmentTimeline))
    (hsmall : ∀ time ∈ SElement.expectedStartTimes (sElements n), time < 2 ^ 32) :
    Expanded baseUrls representation template (sElements n) ↔ SElement.AllWritten 0 (sElements n) := by
  have hcalculate : (calculateSegmentStartTimes template).map (·.toNat) =
      ((sElements n).map fun s => s.toTimeline.startTimes.map (·.toNat)).flatten := by
    rw [map_toNat_calculate htemplate, timelines_eq, List.map_map]
    rfl
  rw [← SElement.allWritten_iff hsmall]
  constructor
  · intro h
    apply Pieces.eq_of_flatten_eq (SElement.forall₂_length 0 _)
    rw [← hcalculate, h.times]
    rfl
  · intro h
    apply expanded_of_times (by rw [htemplate, Option.isSome_some])
    rw [hcalculate, h]
    rfl

/-- an `S` element of a document -/
def sNode (t d r : String) : Xml.Node where
  type := 1
  name := "S".toList
  text := []
  mpdPath := []
  attributes := [("t".toList, t.toList), ("d".toList, d.toList), ("r".toList, r.toList)]
  subNodes := []

/-- a `SegmentTimeline` element with the given children -/
def timelineNode (subNodes : List Xml.Node) : Xml.Node where
  type := 1
  name := "SegmentTimeline".toList
  text := []
  mpdPath := []
  attributes := []
  subNodes := subNodes

def timeTemplate (n : Xml.Node) : SegmentTemplate where
  media := "$Time$.mp4".toList
  startNumber := 1
  segmentTimeline := some (readTimelines n.toSegmentTimeline)

theorem expanded_two_elements :
    Expanded [] ⟨[], 0, [], none, none⟩
      (timeTemplate (timelineNode [sNode "360360" "180180" "1", sNode "720720" "180180" "1"]))
      (sElements (timelineNode [sNode "360360" "180180" "1", sNode "720720" "180180" "1"])) :=
  (expanded_iff rfl (by decide)).2 (by decide)

/-- a repeated element that starts at 0, as a timeline usually begins: its segments are missing -/
theorem zero_start_vanishes :
    (∀ time ∈ SElement.expectedStartTimes (sElements (timelineNode [sNode "0" "180180" "1", sNode "360360" "180180" "1"])),
        time < 2 ^ 32) ∧
      ¬ Expanded [] ⟨[], 0, [], none, none⟩
        (timeTemplate (timelineNode [sNode "0" "180180" "1", sNode "360360" "180180" "1"]))
        (sElements (timelineNode [sNode "0" "180180" "1", sNode "360360" "180180" "1"])) := by
  refine ⟨by decide, fun h => ?_⟩
  have hcount := h.count
  exact absurd hcount (by decide)

end NdnDash.Mpd
