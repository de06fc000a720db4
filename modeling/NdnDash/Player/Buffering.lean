/-
Buffering a static presentation: the loop of `DoBuffering` (`DASHReceiver.cpp`), which asks for segments until it gets
NULL. The pushes into the buffer and the downloads in between leave the receiver as it is, and are left out.

- `exists_buffers`: what the loop gets from a stream that gives its segments.
- `enumerates_iff`: the loop gets each media segment of the Representation once, in order, and then NULL, and so on
  (`Enumerates`), exactly when the stream is `Enumerable`: never for a single media segment.
- `single_file_repeats`: a SegmentBase with a BaseURL, whose size is 4294967294, and one without, where the first call
  crashes.
-/
import NdnDash.Mpd.MediaSegments
import NdnDash.Player.DASHReceiver

namespace NdnDash.Player

open NdnDash.Mpd

variable {P A R : Type}

/-- the calls of `GetNextSegment` from a receiver, up to the first that returns NULL -/
inductive Buffers (pres : Presentation P A R) : Receiver P A R → List (MediaObject R) → Receiver P A R → Prop
  | done {s s'} (h : s.getNextSegment pres = some (none, s')) : Buffers pres s [] s'
  | next {s s' s''} {media : MediaObject R} {rest} (h : s.getNextSegment pres = some (some media, s'))
      (hrest : Buffers pres s' rest s'') : Buffers pres s (media :: rest) s''

/-- buffering enumerates the segments: the stream gives those of the Representation, and the loop returns them -/
def Enumerates (pres : Presentation P A R) (duration : ℚ≥0) (s : Receiver P A R) (stream : PlayerStream) : Prop :=
  ∃ segs, stream.Gives pres.mpd duration segs ∧
    ∃ s', Buffers pres s (segs.map fun seg => ⟨seg, s.representation⟩) s'

section Loop

variable {pres : Presentation P A R} {duration : ℚ≥0} {s : Receiver P A R} {stream : PlayerStream}
  {segs : List Segment}

/-- a call below the size returns the segment of its number -/
theorem getNextSegment_eq {size : UInt32} {seg : Segment} (hstream : s.representationStream = some stream)
    (hoffset : s.segmentOffset = 0) (hsize : stream.getSize pres.mpd = some size)
    (hlt : s.segmentNumber.toNat < size.toNat)
    (hseg : stream.getMediaSegment s.segmentNumber.toNat = some (some seg)) :
    s.getNextSegment pres =
      some (some ⟨seg, s.representation⟩, { s with segmentNumber := s.segmentNumber + 1 }) := by
  have hnot : ¬ size ≤ s.segmentNumber := by
    rw [UInt32.le_iff_toNat_le]
    omega
  rw [Receiver.getNextSegment, hstream, Option.bind_some, hsize, Option.bind_some, if_neg hnot, hoffset,
    UInt32.add_zero, hseg]
  rfl

/-- the loop goes through the segments that are left -/
theorem exists_buffers {size : UInt32} (hstream : s.representationStream = some stream)
    (hoffset : s.segmentOffset = 0) (hsize : stream.getSize pres.mpd = some size)
    (hlength : size.toNat = segs.length)
    (hgiven : ∀ n seg, segs[n]? = some seg → stream.getMediaSegment n = some (some seg))
    {rest : List Segment} (hrest : segs.drop s.segmentNumber.toNat = rest) :
    ∃ s', Buffers pres s (rest.map fun seg => ⟨seg, s.representation⟩) s' := by
  induction rest generalizing s with
  | nil =>
    have hle : size ≤ s.segmentNumber := by
      rw [UInt32.le_iff_toNat_le, hlength]
      exact List.drop_eq_nil_iff.1 hrest
    refine ⟨s, .done ?_⟩
    rw [Receiver.getNextSegment, hstream, Option.bind_some, hsize, Option.bind_some, if_pos hle]
  | cons seg rest ih =>
    have hlt : s.segmentNumber.toNat < segs.length := by
      by_contra hge
      rw [List.drop_eq_nil_of_le (Nat.le_of_not_lt hge)] at hrest
      exact absurd hrest (by simp)
    rw [List.drop_eq_getElem_cons hlt, List.cons.injEq] at hrest
    obtain ⟨hseg, hrest⟩ := hrest
    have hcall := getNextSegment_eq hstream hoffset hsize (hlength ▸ hlt)
      (hgiven _ seg (by rw [List.getElem?_eq_getElem hlt, hseg]))
    -- below the size the number does not wrap
    have hsucc : (s.segmentNumber + 1).toNat = s.segmentNumber.toNat + 1 := by
      have hbound := size.toNat_lt
      rw [UInt32.toNat_add, Nat.mod_eq_of_lt]
      · rfl
      · change s.segmentNumber.toNat + 1 < 2 ^ 32
        omega
    obtain ⟨s', hs'⟩ := ih (s := { s with segmentNumber := s.segmentNumber + 1 }) hstream hoffset
      (by rw [hsucc]; exact hrest)
    exact ⟨s', .next hcall hs'⟩

end Loop

/-- **Buffering a static presentation.** From the start, and from position 0, the loop enumerates the segments of the
Representation exactly when the stream is enumerable. -/
theorem enumerates_iff [DecidableEq P] [DecidableEq A] [DecidableEq R] {pres : Presentation P A R}
    (hstatic : pres.mpd.type = "static".toList) {bufferSize now : UInt32} {selections : List (UInt32 × Selection pres)}
    {s : Session P A R} {stream : PlayerStream}
    (hopen : (Session.prepare pres bufferSize now 0 selections).bind Session.start = some s)
    (hstream : s.receiver.representationStream = some stream) (hscope : stream.InScope) (duration : ℚ≥0) :
    Enumerates pres duration s.receiver stream ↔ stream.Enumerable pres.mpd duration := by
  obtain ⟨receiver, hprepare, hstart⟩ := Option.bind_eq_some_iff.1 hopen
  obtain ⟨hconsistent, hposition⟩ := consistent_prepare hstatic hprepare
  have hinv := inv_start hconsistent hposition hstart
  have hzero : s.receiver.segmentNumber.toNat = 0 := by
    obtain ⟨downloaded, -, rfl⟩ := Option.map_eq_some_iff.1 hstart
    exact hinv.next
  have hbuilt : stream.Built := by
    have hcreate := create_eq pres s.receiver.period s.receiver.adaptationSet s.receiver.representation
    rw [← hinv.consistent.stream, hstream] at hcreate
    exact PlayerStream.built_create hcreate
  rw [← PlayerStream.gives_iff hstatic hbuilt hscope]
  constructor
  · intro h
    obtain ⟨segs, hgives, -⟩ := h
    exact ⟨segs, hgives⟩
  · intro h
    obtain ⟨segs, hgives⟩ := h
    obtain ⟨size, hsize, hlength⟩ := hgives.size
    rw [hgives.made.length_eq] at hlength
    exact ⟨segs, hgives, exists_buffers hstream hinv.consistent.offset hsize hlength hgives.given (by rw [hzero]; rfl)⟩

/-- the three segments of the first representation of `twoPeriods` -/
theorem enumerates_twoPeriods :
    ∃ s, (Session.prepare twoPeriods 10 0 0 []).bind Session.start = some s ∧
      Enumerates twoPeriods 6 s.receiver (.segmentList [⟨"http://h/".toList, []⟩] (listOf "a")) := by
  have hopen : ((Session.prepare twoPeriods 10 0 0 []).bind Session.start).map (·.receiver.representationStream) =
      some (some (.segmentList [⟨"http://h/".toList, []⟩] (listOf "a"))) := by
    decide
  obtain ⟨s, hs, hstream⟩ := Option.map_eq_some_iff.1 hopen
  have hfetchable : ∀ url ∈ (listOf "a").segmentURLs, Fetchable [⟨"http://h/".toList, []⟩] url.mediaURI := by
    intro url hurl
    fin_cases hurl
    · exact ⟨by decide, _, rfl, by decide⟩
    · exact ⟨by decide, _, rfl, by decide⟩
    · exact ⟨by decide, _, rfl, by decide⟩
  exact ⟨s, hs, (enumerates_iff rfl hs hstream trivial 6).2 ⟨by decide, hfetchable, by decide⟩⟩

/-- one representation with a SegmentBase -/
def oneFile (baseURLs : List BaseUrl) : Presentation Unit Unit Unit where
  mpd :=
    { baseUrls := [], mpdPathBaseUrl := ⟨"http://h/".toList, []⟩, type := "static".toList
      mediaPresentationDuration := (12 : ℕ), availabilityStarttime := 0, timeShiftBufferDepth := 0 }
  periods := [()]
  period := fun _ => ⟨[], none, none, none⟩
  adaptationSets := fun _ => [()]
  adaptationSet := fun _ => ⟨[], none, none, none⟩
  representations := fun _ => [()]
  representation := fun _ =>
    { baseURLs, segmentBase := some ⟨none⟩, segmentList := none, segmentTemplate := none, id := [], bandwidth := 0 }
  one_period := fun _ _ => rfl
  one_adaptationSet := fun _ _ => rfl

/-- its stream -/
def oneFileStream (baseURLs : List BaseUrl) : PlayerStream :=
  .singleMediaSegment [⟨"http://h/".toList, []⟩] ((oneFile baseURLs).representation ())

/-- **One file.** With a BaseURL the receiver takes it for 4294967294 segments, all of them the same file; without one the
first call crashes. -/
theorem single_file_repeats :
    (∃ s, (Session.prepare (oneFile [⟨"f".toList, []⟩]) 10 0 0 []).bind Session.start = some s ∧
      s.receiver.representationStream = some (oneFileStream [⟨"f".toList, []⟩]) ∧
      (oneFileStream [⟨"f".toList, []⟩]).getSize (oneFile [⟨"f".toList, []⟩]).mpd = some 4294967294 ∧
      (oneFileStream [⟨"f".toList, []⟩]).getMediaSegment 0 = (oneFileStream [⟨"f".toList, []⟩]).getMediaSegment 1 ∧
      ¬ Enumerates (oneFile [⟨"f".toList, []⟩]) 12 s.receiver (oneFileStream [⟨"f".toList, []⟩])) ∧
    ∃ s, (Session.prepare (oneFile []) 10 0 0 []).bind Session.start = some s ∧
      s.receiver.representationStream = some (oneFileStream []) ∧ (oneFileStream []).getMediaSegment 0 = none ∧
      ¬ Enumerates (oneFile []) 12 s.receiver (oneFileStream []) := by
  have hopen : ((Session.prepare (oneFile [⟨"f".toList, []⟩]) 10 0 0 []).bind Session.start).map
      (·.receiver.representationStream) = some (some (oneFileStream [⟨"f".toList, []⟩])) := by
    decide
  have hopen' : ((Session.prepare (oneFile []) 10 0 0 []).bind Session.start).map
      (·.receiver.representationStream) = some (some (oneFileStream [])) := by
    decide
  obtain ⟨s, hs, hstream⟩ := Option.map_eq_some_iff.1 hopen
  obtain ⟨s', hs', hstream'⟩ := Option.map_eq_some_iff.1 hopen'
  refine ⟨⟨s, hs, hstream, rfl, by decide, ?_⟩, s', hs', hstream', by decide, ?_⟩
  · intro h
    obtain ⟨segs, hgives, -⟩ := h
    exact PlayerStream.not_gives_singleMediaSegment ⟨segs, hgives⟩
  · intro h
    obtain ⟨segs, hgives, -⟩ := h
    exact PlayerStream.not_gives_singleMediaSegment ⟨segs, hgives⟩

end NdnDash.Player
