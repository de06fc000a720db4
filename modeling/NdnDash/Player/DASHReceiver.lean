/-
Model of the receiver of the player (`DASHReceiver.cpp`) and of the streams of an adaptation set
(`AdaptationSetStream.cpp`), as the buffering thread calls them.

Model:
- Elements are reached through pointers of arbitrary types; an element has one parent (`Presentation`).
- `none` is a crash or undefined behaviour: `at(0)` of an empty vector, a NULL stream that is followed, what the streams
  leave open. A NULL stream is `some none`.
- What `StartDownload` and `WaitFinished` do with the connection is left out; they change none of these members.

A session (`Session`) is the receiver with the record of what `GetNextSegment` has returned: the segment number, the
MediaObject, what was selected, and how often the period had changed before.

What is proved:
- `setRepresentation_spec`: what a switch does to the members.
- `step_inv`: a step keeps the invariant that ties the members together.
- `switches_seamless_iff`: for every static MPD and every session the stream is that of the selection, the numbers are
  consecutive while the period stays and start at 0 when it changes, and every segment comes from the representation
  selected at its call. The initialization segment that the MPD defines is found for every segment that has been returned
  exactly when each of them was taken from a representation whose definition, if there is one, its stream reads and can
  convert.
- `rangeOnly_lost`: an `Initialization` element that has a range only, of a file which the BaseURL names.
-/
import NdnDash.Core.Machine
import NdnDash.Mpd.Initialization

namespace NdnDash.Player

open NdnDash.Mpd

/-! ## The elements -/

/-- an MPD with the elements behind the pointers -/
structure Presentation (P A R : Type) where
  mpd : MpdElement
  periods : List P
  period : P → Level
  adaptationSets : P → List A
  adaptationSet : A → Level
  representations : A → List R
  representation : R → RepresentationElement
  one_period : ∀ {p p' a}, a ∈ adaptationSets p → a ∈ adaptationSets p' → p = p'
  one_adaptationSet : ∀ {a a' r}, r ∈ representations a → r ∈ representations a' → a = a'

variable {P A R : Type}

/-- an adaptation set of the period with one of its representations -/
structure Selection (pres : Presentation P A R) where
  period : P
  adaptationSet : A
  representation : R
  adaptationSet_mem : adaptationSet ∈ pres.adaptationSets period
  representation_mem : representation ∈ pres.representations adaptationSet

/-- the stream built for a representation, NULL when its type is undefined -/
def Presentation.streamFor (pres : Presentation P A R) (p : P) (a : A) (r : R) : Option PlayerStream :=
  (PlayerStream.create
    (determineRepresentationStreamType (pres.period p) (pres.adaptationSet a) (pres.representation r)) pres.mpd
    (pres.period p) (pres.adaptationSet a) (pres.representation r)).get (PlayerStream.create_determine _ _ _ _)

/-- the members of an `AdaptationSetStream` -/
structure AdaptationSetStream (R : Type) where
  representations : List (R × Option PlayerStream)

/-- the base URLs of a set's streams -/
def Presentation.baseUrls (pres : Presentation P A R) (p : P) (a : A) : List BaseUrl :=
  resolveBaseUrl pres.mpd.toMPD (pres.period p).toPeriod (pres.adaptationSet a).toAdaptationSet 0 0 0

/-- what defines the initialization segment of a representation -/
def Presentation.initDefinition (pres : Presentation P A R) (p : P) (a : A) (r : R) : Option InitDefinition :=
  NdnDash.Mpd.initDefinition (pres.period p) (pres.adaptationSet a) (pres.representation r)

/-- a definition, if there is one, is read and can be converted -/
def Presentation.Initializable (pres : Presentation P A R) (p : P) (a : A) (r : R) : Prop :=
  ∀ d, pres.initDefinition p a r = some d →
    readDefinition (pres.period p) (pres.adaptationSet a) (pres.representation r) = some d ∧
      d.Convertible (pres.baseUrls p a) (pres.representation r)

namespace AdaptationSetStream

/-- the constructor, `Initialize` -/
def construct (pres : Presentation P A R) (period : P) (adaptationSet : A) : Option (AdaptationSetStream R) :=
  ((pres.representations adaptationSet).mapM fun r =>
    (PlayerStream.create
      (determineRepresentationStreamType (pres.period period) (pres.adaptationSet adaptationSet)
        (pres.representation r))
      pres.mpd (pres.period period) (pres.adaptationSet adaptationSet) (pres.representation r)).map fun stream =>
        (r, stream)).map fun representations => ⟨representations⟩

/-- `GetRepresentationStream` -/
def getRepresentationStream [DecidableEq R] (s : AdaptationSetStream R) (r : R) : Option (Option PlayerStream) :=
  s.representations.lookup r

end AdaptationSetStream

/-! ## The receiver -/

structure MediaObject (R : Type) where
  segment : Segment
  representation : R

structure Receiver (P A R : Type) where
  period : P
  adaptationSet : A
  representation : R
  adaptationSetStream : AdaptationSetStream R
  representationStream : Option PlayerStream
  segmentNumber : UInt32
  segmentOffset : UInt32
  bufferSize : UInt32
  initSegments : R → Option (MediaObject R)

namespace Receiver

variable [DecidableEq P] [DecidableEq A] [DecidableEq R] (pres : Presentation P A R)

def calculateSegmentOffset (now : UInt32) (s : Receiver P A R) : Option UInt32 :=
  if pres.mpd.type = "static".toList then some 0
  else
    s.representationStream.bind fun stream =>
      (stream.getFirstSegmentNumber pres.mpd now).bind fun firstSegNum =>
        (stream.getCurrentSegmentNumber pres.mpd now).map fun currSegNum =>
          let startSegNum := currSegNum - 2 * s.bufferSize
          if startSegNum > firstSegNum then startSegNum else firstSegNum

/-- the constructor: the first representation of the first set of the first period -/
def construct (bufferSize now : UInt32) : Option (Receiver P A R) :=
  pres.periods[0]?.bind fun period =>
    (pres.adaptationSets period)[0]?.bind fun adaptationSet =>
      (pres.representations adaptationSet)[0]?.bind fun representation =>
        (AdaptationSetStream.construct pres period adaptationSet).bind fun adaptationSetStream =>
          (adaptationSetStream.getRepresentationStream representation).bind fun representationStream =>
            let s : Receiver P A R :=
              { period, adaptationSet, representation, adaptationSetStream, representationStream, segmentNumber := 0,
                segmentOffset := 0, bufferSize, initSegments := fun _ => none }
            (s.calculateSegmentOffset pres now).map fun segmentOffset => { s with segmentOffset }

def setPosition (segmentNumber : UInt32) (s : Receiver P A R) : Receiver P A R := { s with segmentNumber }

def getNextSegment (s : Receiver P A R) : Option (Option (MediaObject R) × Receiver P A R) :=
  s.representationStream.bind fun stream =>
    (stream.getSize pres.mpd).bind fun size =>
      if size ≤ s.segmentNumber then some (none, s)
      else
        (stream.getMediaSegment (s.segmentNumber + s.segmentOffset).toNat).map fun
          | some seg => (some ⟨seg, s.representation⟩, { s with segmentNumber := s.segmentNumber + 1 })
          | none => (none, s)

def getInitSegment (s : Receiver P A R) : Option (Option (MediaObject R)) :=
  s.representationStream.bind fun stream =>
    stream.getInitializationSegment.map fun seg => seg.map fun seg => ⟨seg, s.representation⟩

def initSegmentExists (r : R) (s : Receiver P A R) : Bool := (s.initSegments r).isSome

def findInitSegment (r : R) (s : Receiver P A R) : Option (MediaObject R) :=
  if s.initSegmentExists r then s.initSegments r else none

def downloadInitSegment (r : R) (s : Receiver P A R) : Option (Receiver P A R) :=
  if s.initSegmentExists r then some s
  else
    s.getInitSegment.map fun
      | some initSeg => { s with initSegments := Function.update s.initSegments r (some initSeg) }
      | none => s

/-- the nested updates of `SetRepresentation`, and whether the period has changed -/
def enterSet (period : P) (adaptationSet : A) (s : Receiver P A R) : Option (Receiver P A R × Bool) :=
  if s.adaptationSet = adaptationSet then some (s, false)
  else
    let periodChanged := decide (s.period ≠ period)
    let s := { s with adaptationSet, period := if periodChanged then period else s.period }
    (AdaptationSetStream.construct pres s.period s.adaptationSet).map fun adaptationSetStream =>
      ({ s with adaptationSetStream }, periodChanged)

/-- `SetRepresentation`; the offset it calculates after a change of the period is not stored -/
def setRepresentation (now : UInt32) (period : P) (adaptationSet : A) (representation : R) (s : Receiver P A R) :
    Option (Receiver P A R) :=
  if s.representation = representation then some s
  else
    (enterSet pres period adaptationSet { s with representation }).bind fun (s, periodChanged) =>
      (s.adaptationSetStream.getRepresentationStream s.representation).bind fun representationStream =>
        (downloadInitSegment s.representation { s with representationStream }).bind fun s =>
          if periodChanged then
            (calculateSegmentOffset pres now { s with segmentNumber := 0 }).map fun _ => { s with segmentNumber := 0 }
          else some s

end Receiver

/-! ## Sessions -/

/-- a MediaObject that has been returned, with the number of its segment and what was selected -/
structure Returned (P A R : Type) where
  epoch : ℕ
  number : UInt32
  period : P
  adaptationSet : A
  representation : R
  media : MediaObject R

/-- the receiver, what has been selected and how often the period has changed by it, and what has been returned -/
structure Session (P A R : Type) where
  receiver : Receiver P A R
  period : P
  adaptationSet : A
  representation : R
  epoch : ℕ
  returned : List (Returned P A R)

/-- the calls of the buffering thread, those of `SetRepresentation` with the time they are made at -/
inductive Call (pres : Presentation P A R)
  | setRepresentation (now : UInt32) (sel : Selection pres)
  | getNextSegment

namespace Session

variable [DecidableEq P] [DecidableEq A] [DecidableEq R] {pres : Presentation P A R}

/-- what is recorded of a call that returns `media` -/
def record (s : Session P A R) (media : MediaObject R) : Returned P A R where
  epoch := s.epoch
  number := s.receiver.segmentNumber
  period := s.period
  adaptationSet := s.adaptationSet
  representation := s.representation
  media := media

def step (s : Session P A R) : Call pres → Option (Session P A R)
  | .setRepresentation now sel =>
    (s.receiver.setRepresentation pres now sel.period sel.adaptationSet sel.representation).map fun receiver =>
      { s with
        receiver
        period := sel.period
        adaptationSet := sel.adaptationSet
        representation := sel.representation
        epoch := if sel.period = s.period then s.epoch else s.epoch + 1 }
  | .getNextSegment =>
    (s.receiver.getNextSegment pres).map fun
      | (some media, receiver) => { s with receiver, returned := s.returned ++ [s.record media] }
      | (none, receiver) => { s with receiver }

/-- a session as far as it has not crashed -/
def run (s : Option (Session P A R)) (calls : List (Call pres)) : Option (Session P A R) :=
  Machine.run (fun s call => s.bind (step · call)) s calls

/-- a receiver is constructed, some representations are selected, and a position -/
def prepare (pres : Presentation P A R) (bufferSize now position : UInt32) (selections : List (UInt32 × Selection pres)) :
    Option (Receiver P A R) :=
  (Machine.run
    (fun (s : Option (Receiver P A R)) (x : UInt32 × Selection pres) => s.bind
      (Receiver.setRepresentation pres x.1 x.2.period x.2.adaptationSet x.2.representation))
    (Receiver.construct pres bufferSize now) selections).map (Receiver.setPosition position)

/-- the start of the buffering thread: `DownloadInitSegment` of the representation that is selected -/
def start (s : Receiver P A R) : Option (Session P A R) :=
  (s.downloadInitSegment s.representation).map fun receiver =>
    { receiver, period := s.period, adaptationSet := s.adaptationSet, representation := s.representation, epoch := 0,
      returned := [] }

end Session

/-! ## What it is for -/

/-- where the numbers begin: at the position, and at 0 once the period has changed -/
def firstNumber (position : UInt32) (epoch : ℕ) : ℕ := if epoch = 0 then position.toNat else 0

/-- no segment is skipped, repeated or mixed up -/
structure Seamless [DecidableEq R] (pres : Presentation P A R) (position : UInt32) (s : Session P A R) : Prop where
  stream : s.receiver.representationStream = pres.streamFor s.period s.adaptationSet s.representation
  next : s.receiver.segmentNumber.toNat =
    firstNumber position s.epoch + (s.returned.filter (·.epoch = s.epoch)).length
  numbers : ∀ epoch, (s.returned.filter (·.epoch = epoch)).map (·.number.toNat) =
    List.range' (firstNumber position epoch) (s.returned.filter (·.epoch = epoch)).length
  selected : ∀ x ∈ s.returned, x.media.representation = x.representation ∧
    ∃ stream, pres.streamFor x.period x.adaptationSet x.representation = some stream ∧
      stream.getMediaSegment x.number.toNat = some (some x.media.segment)
  initialized : ∀ x ∈ s.returned, ∀ d, pres.initDefinition x.period x.adaptationSet x.representation = some d →
    ∃ seg, s.receiver.findInitSegment x.media.representation = some ⟨seg, x.media.representation⟩ ∧
      d.Denotes (pres.baseUrls x.period x.adaptationSet) (pres.representation x.representation) seg

/-- the stream has a segment under the next number -/
def HasNext (pres : Presentation P A R) (s : Receiver P A R) : Prop :=
  ∃ stream size seg, s.representationStream = some stream ∧ stream.getSize pres.mpd = some size ∧ s.segmentNumber < size ∧
    stream.getMediaSegment (s.segmentNumber + s.segmentOffset).toNat = some (some seg)

/-- a segment is taken only from a representation that is initializable -/
def Admitted (pres : Presentation P A R) (s : Option (Session P A R)) : Call pres → Prop
  | .setRepresentation _ _ => True
  | .getNextSegment => ∀ t, s = some t → HasNext pres t.receiver →
    pres.Initializable t.period t.adaptationSet t.representation

/-! ## The streams of a set -/

section Streams

variable {pres : Presentation P A R} {p : P} {a : A}

theorem create_eq (pres : Presentation P A R) (p : P) (a : A) (r : R) :
    PlayerStream.create
      (determineRepresentationStreamType (pres.period p) (pres.adaptationSet a) (pres.representation r)) pres.mpd
      (pres.period p) (pres.adaptationSet a) (pres.representation r) = some (pres.streamFor p a r) :=
  (Option.some_get _).symm

theorem construct_eq (pres : Presentation P A R) (p : P) (a : A) :
    AdaptationSetStream.construct pres p a =
      some ⟨(pres.representations a).map fun r => (r, pres.streamFor p a r)⟩ := by
  unfold AdaptationSetStream.construct
  simp only [create_eq, Option.map_some]
  rw [← Option.pure_def, List.mapM_pure]
  rfl

/-- the stream of a set under a representation is the one built for it -/
theorem getRepresentationStream_eq [DecidableEq R] {streams : AdaptationSetStream R} {r : R}
    (h : AdaptationSetStream.construct pres p a = some streams) (hr : r ∈ pres.representations a) :
    streams.getRepresentationStream r = some (pres.streamFor p a r) := by
  rw [construct_eq, Option.some.injEq] at h
  rw [← h]
  exact List.lookup_graph _ hr

/-- the stream of a representation makes what its definition denotes when that is read and can be converted -/
theorem streamFor_iff {r : R} {stream : PlayerStream} {d : InitDefinition} (hstream : pres.streamFor p a r = some stream)
    (hd : pres.initDefinition p a r = some d) :
    (∃ seg, stream.getInitializationSegment = some (some seg) ∧
      d.Denotes (pres.baseUrls p a) (pres.representation r) seg) ↔
        readDefinition (pres.period p) (pres.adaptationSet a) (pres.representation r) = some d ∧
          d.Convertible (pres.baseUrls p a) (pres.representation r) := by
  have hcreate := create_eq pres p a r
  rw [hstream] at hcreate
  have hbase : stream.baseUrls = pres.baseUrls p a := baseUrls_create hcreate
  rw [← hbase]
  exact getInitializationSegment_iff hcreate hd

end Streams

/-! ## The members of the receiver -/

/-- what ties the members together -/
structure Consistent (pres : Presentation P A R) (s : Receiver P A R) : Prop where
  adaptationSet_mem : s.adaptationSet ∈ pres.adaptationSets s.period
  representation_mem : s.representation ∈ pres.representations s.adaptationSet
  streams : AdaptationSetStream.construct pres s.period s.adaptationSet = some s.adaptationSetStream
  stream : s.representationStream = pres.streamFor s.period s.adaptationSet s.representation
  offset : s.segmentOffset = 0
  initSegments : ∀ r m, s.initSegments r = some m → ∀ p a, a ∈ pres.adaptationSets p → r ∈ pres.representations a →
    ∃ stream, pres.streamFor p a r = some stream ∧ stream.getInitializationSegment = some (some m.segment) ∧
      m.representation = r

/-- the elements and the streams fit together, whatever the offset -/
structure Tied (pres : Presentation P A R) (s : Receiver P A R) : Prop where
  adaptationSet_mem : s.adaptationSet ∈ pres.adaptationSets s.period
  representation_mem : s.representation ∈ pres.representations s.adaptationSet
  streams : AdaptationSetStream.construct pres s.period s.adaptationSet = some s.adaptationSetStream
  stream : s.representationStream = pres.streamFor s.period s.adaptationSet s.representation

/-- the initialization segment of a representation is there if there is one -/
def Ready (pres : Presentation P A R) (initSegments : R → Option (MediaObject R)) (p : P) (a : A) (r : R) : Prop :=
  ∀ stream, pres.streamFor p a r = some stream → ∀ seg, stream.getInitializationSegment = some (some seg) →
    initSegments r = some ⟨seg, r⟩

/-- `after` has all initialization segments that `before` has -/
def Keeps (before after : R → Option (MediaObject R)) : Prop := ∀ r m, before r = some m → after r = some m

section Members

variable {pres : Presentation P A R} {s s' : Receiver P A R}

theorem findInitSegment_eq (r : R) (s : Receiver P A R) : s.findInitSegment r = s.initSegments r := by
  unfold Receiver.findInitSegment Receiver.initSegmentExists
  split_ifs with h
  · rfl
  · exact (Option.not_isSome_iff_eq_none.1 h).symm

theorem Consistent.tied (h : Consistent pres s) : Tied pres s :=
  ⟨h.adaptationSet_mem, h.representation_mem, h.streams, h.stream⟩

theorem Ready.mono {before after : R → Option (MediaObject R)} {p : P} {a : A} {r : R}
    (h : Ready pres before p a r) (hkeeps : Keeps before after) : Ready pres after p a r :=
  fun stream hstream seg hseg => hkeeps r _ (h stream hstream seg hseg)

theorem calculateSegmentOffset_static (hstatic : pres.mpd.type = "static".toList) (now : UInt32)
    (s : Receiver P A R) : s.calculateSegmentOffset pres now = some 0 :=
  if_pos hstatic

/-- what a call of `GetNextSegment` that returns a MediaObject does -/
theorem getNextSegment_spec {media : MediaObject R} (h : Consistent pres s)
    (hs' : s.getNextSegment pres = some (some media, s')) :
    s' = { s with segmentNumber := s.segmentNumber + 1 } ∧
      (s.segmentNumber + 1).toNat = s.segmentNumber.toNat + 1 ∧ media.representation = s.representation ∧
      ∃ stream, pres.streamFor s.period s.adaptationSet s.representation = some stream ∧
        stream.getMediaSegment s.segmentNumber.toNat = some (some media.segment) := by
  obtain ⟨stream, hstream, hs'⟩ := Option.bind_eq_some_iff.1 hs'
  obtain ⟨size, hsize, hs'⟩ := Option.bind_eq_some_iff.1 hs'
  split_ifs at hs' with hle
  · exact absurd hs' (by simp)
  · obtain ⟨seg, hseg, hpair⟩ := Option.map_eq_some_iff.1 hs'
    rw [h.offset, UInt32.add_zero] at hseg
    cases seg with
    | none => exact absurd hpair (by simp)
    | some seg =>
      obtain ⟨hmedia, hs'⟩ := Prod.mk.inj hpair
      rw [Option.some.injEq] at hmedia
      refine ⟨hs'.symm, ?_, by rw [← hmedia], stream, by rw [← h.stream, hstream], by rw [hseg, ← hmedia]⟩
      -- the number is below the size, so it does not wrap
      have hlt := size.toNat_lt
      rw [UInt32.le_iff_toNat_le] at hle
      rw [UInt32.toNat_add, Nat.mod_eq_of_lt]
      · rfl
      · change s.segmentNumber.toNat + 1 < 2 ^ 32
        omega

theorem getNextSegment_none (hs' : s.getNextSegment pres = some (none, s')) : s' = s := by
  obtain ⟨stream, hstream, hs'⟩ := Option.bind_eq_some_iff.1 hs'
  obtain ⟨size, hsize, hs'⟩ := Option.bind_eq_some_iff.1 hs'
  split_ifs at hs' with hle
  · exact (Prod.mk.inj (Option.some.inj hs')).2.symm
  · obtain ⟨seg, hseg, hpair⟩ := Option.map_eq_some_iff.1 hs'
    cases seg with
    | none => exact (Prod.mk.inj hpair).2.symm
    | some seg => exact absurd hpair (by simp)

/-- a MediaObject is returned when the stream has a segment under the next number -/
theorem hasNext_iff : HasNext pres s ↔ ∃ media s', s.getNextSegment pres = some (some media, s') := by
  constructor
  · intro h
    obtain ⟨stream, size, seg, hstream, hsize, hlt, hseg⟩ := h
    refine ⟨⟨seg, s.representation⟩, { s with segmentNumber := s.segmentNumber + 1 }, ?_⟩
    rw [Receiver.getNextSegment, hstream, Option.bind_some, hsize, Option.bind_some, if_neg (UInt32.not_le.2 hlt), hseg]
    rfl
  · intro h
    obtain ⟨media, s', h⟩ := h
    obtain ⟨stream, hstream, h⟩ := Option.bind_eq_some_iff.1 h
    obtain ⟨size, hsize, h⟩ := Option.bind_eq_some_iff.1 h
    split_ifs at h with hle
    · exact absurd h (by simp)
    · obtain ⟨seg, hseg, hpair⟩ := Option.map_eq_some_iff.1 h
      cases seg with
      | none => exact absurd hpair (by simp)
      | some seg => exact ⟨stream, size, seg, hstream, hsize, UInt32.not_le.1 hle, hseg⟩

variable [DecidableEq R]

/-- a segment put under a representation that has none yet -/
theorem keeps_update {initSegments : R → Option (MediaObject R)} {r : R} (hnone : ¬ (initSegments r).isSome = true)
    (m : MediaObject R) : Keeps initSegments (Function.update initSegments r (some m)) := by
  intro r' m' hr'
  have hne : r' ≠ r := by
    rintro rfl
    exact hnone (Option.isSome_iff_exists.2 ⟨m', hr'⟩)
  rw [Function.update_of_ne hne]
  exact hr'

/-- the stream's own segment put under the current representation -/
theorem Consistent.update (h : Consistent pres s) {stream : PlayerStream} {seg : Segment}
    (hstream : pres.streamFor s.period s.adaptationSet s.representation = some stream)
    (hseg : stream.getInitializationSegment = some (some seg)) :
    Consistent pres { s with
      initSegments := Function.update s.initSegments s.representation (some ⟨seg, s.representation⟩) } := by
  refine ⟨h.adaptationSet_mem, h.representation_mem, h.streams, h.stream, h.offset, ?_⟩
  intro r m hr p a ha hmem
  change Function.update s.initSegments s.representation _ r = some m at hr
  by_cases heq : r = s.representation
  · -- the representation has one set, and the set one period
    subst heq
    obtain rfl := pres.one_adaptationSet h.representation_mem hmem
    obtain rfl := pres.one_period h.adaptationSet_mem ha
    rw [Function.update_self, Option.some.injEq] at hr
    rw [← hr]
    exact ⟨stream, hstream, hseg, rfl⟩
  · rw [Function.update_of_ne heq] at hr
    exact h.initSegments r m hr p a ha hmem

/-- the download changes the initialization segments only, and makes the current one ready -/
theorem downloadInitSegment_spec (h : Consistent pres s) (hs' : s.downloadInitSegment s.representation = some s') :
    ∃ initSegments, s' = { s with initSegments } ∧ Keeps s.initSegments initSegments ∧ Consistent pres s' ∧
      Ready pres initSegments s.period s.adaptationSet s.representation := by
  unfold Receiver.downloadInitSegment at hs'
  split_ifs at hs' with hexists
  · -- it is there: then it is the stream's own
    obtain rfl := Option.some.inj hs'
    obtain ⟨m, hm⟩ := Option.isSome_iff_exists.1 hexists
    obtain ⟨stream, hstream, hinit, hrep⟩ :=
      h.initSegments _ m hm _ _ h.adaptationSet_mem h.representation_mem
    refine ⟨s.initSegments, rfl, fun _ _ hr => hr, h, ?_⟩
    intro stream' hstream' seg hseg
    rw [hstream, Option.some.injEq] at hstream'
    rw [← hstream', hinit, Option.some.injEq, Option.some.injEq] at hseg
    rw [hm, ← hseg, ← hrep]
  · obtain ⟨initSeg, hget, hs'⟩ := Option.map_eq_some_iff.1 hs'
    obtain ⟨stream, hstream, hmap⟩ := Option.bind_eq_some_iff.1 hget
    obtain ⟨seg, hseg, hinitSeg⟩ := Option.map_eq_some_iff.1 hmap
    rw [h.stream] at hstream
    cases seg with
    | none =>
      obtain rfl : none = initSeg := hinitSeg
      obtain rfl : s = s' := hs'
      refine ⟨s.initSegments, rfl, fun _ _ hr => hr, h, ?_⟩
      intro stream' hstream' seg' hseg'
      rw [hstream, Option.some.injEq] at hstream'
      rw [← hstream', hseg] at hseg'
      exact absurd hseg' (by simp)
    | some seg =>
      obtain rfl : some ⟨seg, s.representation⟩ = initSeg := hinitSeg
      obtain rfl : _ = s' := hs'
      refine ⟨_, rfl, keeps_update hexists _, h.update hstream hseg, ?_⟩
      intro stream' hstream' seg' hseg'
      rw [hstream, Option.some.injEq] at hstream'
      rw [← hstream', hseg, Option.some.injEq, Option.some.injEq] at hseg'
      rw [Function.update_self, hseg']

variable [DecidableEq P] [DecidableEq A]

omit [DecidableEq R] in
/-- the set that is entered has the period it belongs to -/
theorem enterSet_spec {changed : Bool} (h : Tied pres s) {p : P} {a : A} {r : R}
    (ha : a ∈ pres.adaptationSets p)
    (hs' : Receiver.enterSet pres p a { s with representation := r } = some (s', changed)) :
    ∃ adaptationSetStream, AdaptationSetStream.construct pres p a = some adaptationSetStream ∧
      s' = { s with period := p, adaptationSet := a, representation := r, adaptationSetStream } ∧
      changed = decide (s.period ≠ p) := by
  unfold Receiver.enterSet at hs'
  split_ifs at hs' with heq
  · obtain ⟨hs', hchanged⟩ := Prod.mk.inj (Option.some.inj hs')
    change s.adaptationSet = a at heq
    subst heq
    obtain rfl := pres.one_period h.adaptationSet_mem ha
    exact ⟨s.adaptationSetStream, h.streams, hs'.symm, by rw [← hchanged]; simp⟩
  · have hperiod : (if decide (s.period ≠ p) = true then p else s.period) = p := by
      by_cases hp : s.period = p <;> simp [hp]
    obtain ⟨adaptationSetStream, hconstruct, hpair⟩ := Option.map_eq_some_iff.1 hs'
    obtain ⟨hs', hchanged⟩ := Prod.mk.inj hpair
    simp only [hperiod] at hconstruct hs'
    exact ⟨adaptationSetStream, hconstruct, hs'.symm, hchanged.symm⟩

/-- **A switch.** The selection is the new one, the members fit it, and the number is kept unless the period changes. -/
theorem setRepresentation_spec (hstatic : pres.mpd.type = "static".toList) (h : Consistent pres s) {now : UInt32}
    {sel : Selection pres}
    (hs' : s.setRepresentation pres now sel.period sel.adaptationSet sel.representation = some s') :
    Consistent pres s' ∧ s'.period = sel.period ∧ s'.adaptationSet = sel.adaptationSet ∧
      s'.representation = sel.representation ∧ Keeps s.initSegments s'.initSegments ∧
      s'.segmentNumber = (if s.period = sel.period then s.segmentNumber else 0) ∧
      (Ready pres s.initSegments s.period s.adaptationSet s.representation →
        Ready pres s'.initSegments s'.period s'.adaptationSet s'.representation) := by
  unfold Receiver.setRepresentation at hs'
  split_ifs at hs' with hsame
  · -- the early return: the same representation has the same set and period
    obtain rfl := Option.some.inj hs'
    have hset : s.adaptationSet = sel.adaptationSet :=
      pres.one_adaptationSet h.representation_mem (hsame ▸ sel.representation_mem)
    have hperiod : s.period = sel.period :=
      pres.one_period h.adaptationSet_mem (hset ▸ sel.adaptationSet_mem)
    exact ⟨h, hperiod, hset, hsame, fun _ _ hr => hr, (if_pos hperiod).symm, id⟩
  · obtain ⟨⟨s1, changed⟩, henter, hs'⟩ := Option.bind_eq_some_iff.1 hs'
    obtain ⟨adaptationSetStream, hstreams, rfl, rfl⟩ := enterSet_spec h.tied sel.adaptationSet_mem henter
    obtain ⟨representationStream, hlookup, hs'⟩ := Option.bind_eq_some_iff.1 hs'
    obtain ⟨s2, hdownload, hs'⟩ := Option.bind_eq_some_iff.1 hs'
    have hstream : representationStream = pres.streamFor sel.period sel.adaptationSet sel.representation := by
      rw [getRepresentationStream_eq hstreams sel.representation_mem, Option.some.injEq] at hlookup
      exact hlookup.symm
    have hconsistent : Consistent pres { s with
        period := sel.period
        adaptationSet := sel.adaptationSet
        representation := sel.representation
        adaptationSetStream
        representationStream } :=
      ⟨sel.adaptationSet_mem, sel.representation_mem, hstreams, hstream, h.offset, h.initSegments⟩
    obtain ⟨initSegments, rfl, hkeeps, hconsistent', hready⟩ := downloadInitSegment_spec hconsistent hdownload
    by_cases hperiod : s.period = sel.period
    · rw [if_neg (by simp [hperiod])] at hs'
      obtain rfl := Option.some.inj hs'
      exact ⟨hconsistent', rfl, rfl, rfl, hkeeps, (if_pos hperiod).symm, fun _ => hready⟩
    · rw [if_pos (by simp [hperiod]), calculateSegmentOffset_static hstatic, Option.map_some] at hs'
      obtain rfl := Option.some.inj hs'
      refine ⟨?_, rfl, rfl, rfl, hkeeps, (if_neg hperiod).symm, fun _ => hready⟩
      exact ⟨hconsistent'.adaptationSet_mem, hconsistent'.representation_mem, hconsistent'.streams,
        hconsistent'.stream, hconsistent'.offset, hconsistent'.initSegments⟩

end Members

/-! ## Sessions -/

section Sessions

variable {pres : Presentation P A R} {position : UInt32} {s s' : Session P A R}

/-- the invariant of a session -/
structure Inv (pres : Presentation P A R) (position : UInt32) (s : Session P A R) : Prop where
  consistent : Consistent pres s.receiver
  period : s.receiver.period = s.period
  adaptationSet : s.receiver.adaptationSet = s.adaptationSet
  representation : s.receiver.representation = s.representation
  ready : Ready pres s.receiver.initSegments s.receiver.period s.receiver.adaptationSet s.receiver.representation
  epochs : ∀ x ∈ s.returned, x.epoch ≤ s.epoch
  numbers : ∀ epoch, (s.returned.filter (·.epoch = epoch)).map (·.number.toNat) =
    List.range' (firstNumber position epoch) (s.returned.filter (·.epoch = epoch)).length
  next : s.receiver.segmentNumber.toNat =
    firstNumber position s.epoch + (s.returned.filter (·.epoch = s.epoch)).length
  selected : ∀ x ∈ s.returned, x.media.representation = x.representation ∧
    ∃ stream, pres.streamFor x.period x.adaptationSet x.representation = some stream ∧
      stream.getMediaSegment x.number.toNat = some (some x.media.segment)
  readied : ∀ x ∈ s.returned, Ready pres s.receiver.initSegments x.period x.adaptationSet x.representation

/-- nothing has been returned in an epoch that is still to come -/
theorem filter_later (h : ∀ x ∈ s.returned, x.epoch ≤ s.epoch) {epoch : ℕ} (hlt : s.epoch < epoch) :
    s.returned.filter (·.epoch = epoch) = [] := by
  rw [List.filter_eq_nil_iff]
  intro x hx
  have hle := h x hx
  simp only [decide_eq_true_eq]
  omega

variable [DecidableEq R]

/-- the invariant, and returned segments of initializable representations only, are what is asked for -/
theorem inv_seamless (h : Inv pres position s)
    (hinitializable : ∀ x ∈ s.returned, pres.Initializable x.period x.adaptationSet x.representation) :
    Seamless pres position s := by
  have hstream : s.receiver.representationStream = pres.streamFor s.period s.adaptationSet s.representation := by
    rw [← h.period, ← h.adaptationSet, ← h.representation]
    exact h.consistent.stream
  refine ⟨hstream, h.next, h.numbers, h.selected, ?_⟩
  intro x hx d hd
  obtain ⟨hrep, stream, hstream, -⟩ := h.selected x hx
  obtain ⟨seg, hseg, hdenotes⟩ := (streamFor_iff hstream hd).2 (hinitializable x hx d hd)
  exact ⟨seg, by rw [findInitSegment_eq, hrep]; exact h.readied x hx stream hstream seg hseg, hdenotes⟩

/-- what is found for a segment that has been returned is the conversion of a definition that is read -/
theorem initializable_of_seamless (h : Inv pres position s) (hgood : Seamless pres position s) {x : Returned P A R}
    (hx : x ∈ s.returned) (ha : x.adaptationSet ∈ pres.adaptationSets x.period)
    (hr : x.representation ∈ pres.representations x.adaptationSet) :
    pres.Initializable x.period x.adaptationSet x.representation := by
  intro d hd
  obtain ⟨seg, hfound, hdenotes⟩ := hgood.initialized x hx d hd
  rw [findInitSegment_eq, (h.selected x hx).1] at hfound
  obtain ⟨stream, hstream, hseg, -⟩ := h.consistent.initSegments _ _ hfound _ _ ha hr
  exact (streamFor_iff hstream hd).1 ⟨seg, hseg, hdenotes⟩

theorem consistent_construct (hstatic : pres.mpd.type = "static".toList) {bufferSize now : UInt32}
    {s : Receiver P A R} (hs : Receiver.construct pres bufferSize now = some s) : Consistent pres s := by
  obtain ⟨period, hperiod, hs⟩ := Option.bind_eq_some_iff.1 hs
  obtain ⟨adaptationSet, hadaptationSet, hs⟩ := Option.bind_eq_some_iff.1 hs
  obtain ⟨representation, hrepresentation, hs⟩ := Option.bind_eq_some_iff.1 hs
  obtain ⟨adaptationSetStream, hstreams, hs⟩ := Option.bind_eq_some_iff.1 hs
  obtain ⟨representationStream, hstream, hs⟩ := Option.bind_eq_some_iff.1 hs
  obtain ⟨offset, hoffset, rfl⟩ := Option.map_eq_some_iff.1 hs
  rw [calculateSegmentOffset_static hstatic, Option.some.injEq] at hoffset
  have hmem := List.mem_of_getElem? hrepresentation
  rw [getRepresentationStream_eq hstreams hmem, Option.some.injEq] at hstream
  refine ⟨List.mem_of_getElem? hadaptationSet, hmem, hstreams, hstream.symm, hoffset.symm, ?_⟩
  intro r m hr
  exact absurd hr (by simp)

theorem inv_start {receiver : Receiver P A R}
    (h : Consistent pres receiver) (hposition : receiver.segmentNumber = position)
    (hs : Session.start receiver = some s) : Inv pres position s := by
  obtain ⟨downloaded, hdownload, rfl⟩ := Option.map_eq_some_iff.1 hs
  obtain ⟨initSegments, rfl, -, hconsistent, hready⟩ := downloadInitSegment_spec h hdownload
  refine ⟨hconsistent, rfl, rfl, rfl, hready, ?_, ?_, ?_, ?_, ?_⟩
  · simp
  · simp
  · simp [firstNumber, hposition]
  · simp
  · simp

variable [DecidableEq P] [DecidableEq A]

theorem inv_setRepresentation (hstatic : pres.mpd.type = "static".toList) (h : Inv pres position s) {now : UInt32}
    {sel : Selection pres} (hs' : s.step (.setRepresentation now sel) = some s') : Inv pres position s' := by
  obtain ⟨receiver, hset, rfl⟩ := Option.map_eq_some_iff.1 hs'
  obtain ⟨hconsistent, hperiod, hadaptationSet, hrepresentation, hkeeps, hnumber, hready⟩ :=
    setRepresentation_spec hstatic h.consistent hset
  refine ⟨hconsistent, hperiod, hadaptationSet, hrepresentation, hready h.ready, ?_, h.numbers, ?_, h.selected,
    fun x hx => (h.readied x hx).mono hkeeps⟩
  · intro x hx
    have hle := h.epochs x hx
    dsimp only
    split_ifs
    · exact hle
    · omega
  · dsimp only
    rw [hnumber, h.period]
    by_cases hp : sel.period = s.period
    · rw [if_pos hp, if_pos hp.symm]
      exact h.next
    · rw [if_neg hp, if_neg (Ne.symm hp), filter_later h.epochs (Nat.lt_succ_self _)]
      rfl

theorem inv_getNextSegment (h : Inv pres position s) (hs' : s.step (.getNextSegment : Call pres) = some s') :
    Inv pres position s' := by
  obtain ⟨⟨media, receiver⟩, hget, hs'⟩ := Option.map_eq_some_iff.1 hs'
  cases media with
  | none =>
    obtain rfl := getNextSegment_none hget
    obtain rfl : s = s' := hs'
    exact h
  | some media =>
    obtain ⟨rfl, hsucc, hrep, stream, hstream, hmedia⟩ := getNextSegment_spec h.consistent hget
    rw [h.period, h.adaptationSet, h.representation] at hstream
    rw [h.representation] at hrep
    obtain rfl : { s with receiver := _, returned := s.returned ++ [s.record media] } = s' := hs'
    have hlast : ∀ epoch, [s.record media].filter (fun x : Returned P A R => x.epoch = epoch) =
        if s.epoch = epoch then [s.record media] else [] := by
      intro epoch
      simp [List.filter_cons, Session.record]
    refine ⟨⟨h.consistent.adaptationSet_mem, h.consistent.representation_mem, h.consistent.streams,
      h.consistent.stream, h.consistent.offset, h.consistent.initSegments⟩, h.period, h.adaptationSet,
      h.representation, h.ready, ?_, ?_, ?_, ?_, ?_⟩
    · intro x hx
      rcases List.mem_append.1 hx with hx | hx
      · exact h.epochs x hx
      · rw [List.mem_singleton.1 hx]
        exact le_rfl
    · intro epoch
      dsimp only
      rw [List.filter_append, hlast, List.map_append, List.length_append, h.numbers]
      split_ifs with hepoch
      · -- the next number of the epoch
        subst hepoch
        rw [List.length_singleton, List.range'_append_1 .. |>.symm]
        congr 1
        simp [Session.record, h.next]
      · simp
    · dsimp only
      rw [hsucc, h.next, List.filter_append, hlast, if_pos rfl, List.length_append, List.length_singleton]
      rfl
    · intro x hx
      rcases List.mem_append.1 hx with hx | hx
      · exact h.selected x hx
      · rw [List.mem_singleton.1 hx]
        exact ⟨hrep, stream, hstream, hmedia⟩
    · intro x hx
      rcases List.mem_append.1 hx with hx | hx
      · exact h.readied x hx
      · have hready := h.ready
        rw [h.period, h.adaptationSet, h.representation] at hready
        rw [List.mem_singleton.1 hx]
        exact hready

theorem step_inv (hstatic : pres.mpd.type = "static".toList) (h : Inv pres position s) {call : Call pres}
    (hs' : s.step call = some s') : Inv pres position s' := by
  cases call with
  | setRepresentation now sel => exact inv_setRepresentation hstatic h hs'
  | getNextSegment => exact inv_getNextSegment h hs'

theorem consistent_prepare (hstatic : pres.mpd.type = "static".toList) {bufferSize now : UInt32}
    {selections : List (UInt32 × Selection pres)} {s : Receiver P A R}
    (hs : Session.prepare pres bufferSize now position selections = some s) :
    Consistent pres s ∧ s.segmentNumber = position := by
  obtain ⟨t, ht, rfl⟩ := Option.map_eq_some_iff.1 hs
  have hstep : ∀ (u : Option (Receiver P A R)) (x : UInt32 × Selection pres), (∀ v, u = some v → Consistent pres v) →
      ∀ v, u.bind (Receiver.setRepresentation pres x.1 x.2.period x.2.adaptationSet x.2.representation) = some v →
        Consistent pres v := by
    intro u x hu v hv
    obtain ⟨w, hw, hv⟩ := Option.bind_eq_some_iff.1 hv
    exact (setRepresentation_spec hstatic (hu w hw) hv).1
  have h := Machine.run_inv' _ hstep (fun _ hv => consistent_construct hstatic hv) selections t ht
  exact ⟨⟨h.adaptationSet_mem, h.representation_mem, h.streams, h.stream, h.offset, h.initSegments⟩, rfl⟩

/-- an admitted call leaves segments of initializable representations only -/
theorem initializable_step {t : Option (Session P A R)} {call : Call pres} (ht : t = some s)
    (h : ∀ x ∈ s.returned, pres.Initializable x.period x.adaptationSet x.representation) (hok : Admitted pres t call)
    (hs' : s.step call = some s') :
    ∀ x ∈ s'.returned, pres.Initializable x.period x.adaptationSet x.representation := by
  cases call with
  | setRepresentation now sel =>
    obtain ⟨receiver, -, rfl⟩ := Option.map_eq_some_iff.1 hs'
    exact h
  | getNextSegment =>
    obtain ⟨⟨media, receiver⟩, hget, hs'⟩ := Option.map_eq_some_iff.1 hs'
    cases media with
    | none =>
      obtain rfl : { s with receiver } = s' := hs'
      exact h
    | some media =>
      obtain rfl : { s with receiver, returned := s.returned ++ [s.record media] } = s' := hs'
      intro x hx
      rcases List.mem_append.1 hx with hx | hx
      · exact h x hx
      · rw [List.mem_singleton.1 hx]
        exact hok s ht (hasNext_iff.2 ⟨media, receiver, hget⟩)

/-- a call that is not admitted returns a segment whose initialization segment is not found -/
theorem not_seamless_step (h : Inv pres position s) {call : Call pres} (hbad : ¬ Admitted pres (some s) call) :
    ∃ s', s.step call = some s' ∧ ¬ Seamless pres position s' := by
  cases call with
  | setRepresentation now sel => exact absurd trivial hbad
  | getNextSegment =>
    rw [Admitted] at hbad
    push Not at hbad
    obtain ⟨t, ht, hnext, hnot⟩ := hbad
    obtain rfl := Option.some.inj ht
    obtain ⟨media, receiver, hget⟩ := hasNext_iff.1 hnext
    have hs' : s.step (.getNextSegment : Call pres) =
        some { s with receiver, returned := s.returned ++ [s.record media] } := by
      rw [Session.step, hget]
      rfl
    refine ⟨_, hs', fun hgood => hnot ?_⟩
    have ha : s.adaptationSet ∈ pres.adaptationSets s.period := by
      rw [← h.adaptationSet, ← h.period]
      exact h.consistent.adaptationSet_mem
    have hr : s.representation ∈ pres.representations s.adaptationSet := by
      rw [← h.representation, ← h.adaptationSet]
      exact h.consistent.representation_mem
    exact initializable_of_seamless (inv_getNextSegment h hs') hgood
      (List.mem_append_right _ (List.mem_singleton_self _)) ha hr

/-- **When switches are seamless.** For every static MPD, after any selections and a position, and the initial download:
every session keeps the stream, the numbers, the segments and the initialization segments together, up to every call,
exactly when segments are taken only from initializable representations. -/
theorem switches_seamless_iff (hstatic : pres.mpd.type = "static".toList) {bufferSize now : UInt32}
    {selections : List (UInt32 × Selection pres)} {calls : List (Call pres)} :
    (∀ pre, pre <+: calls → ∀ s,
      Session.run ((Session.prepare pres bufferSize now position selections).bind Session.start) pre = some s →
        Seamless pres position s) ↔
      Machine.Along (fun s call => s.bind (Session.step · call)) (Admitted pres)
        ((Session.prepare pres bufferSize now position selections).bind Session.start) calls := by
  let Kept (t : Option (Session P A R)) : Prop := ∀ s, t = some s → Inv pres position s ∧
    ∀ x ∈ s.returned, pres.Initializable x.period x.adaptationSet x.representation
  have hinit : Kept ((Session.prepare pres bufferSize now position selections).bind Session.start) := by
    intro s hs
    obtain ⟨receiver, hprepare, hstart⟩ := Option.bind_eq_some_iff.1 hs
    obtain ⟨hconsistent, hposition⟩ := consistent_prepare hstatic hprepare
    refine ⟨inv_start hconsistent hposition hstart, ?_⟩
    obtain ⟨downloaded, -, rfl⟩ := Option.map_eq_some_iff.1 hstart
    simp
  have hstep : ∀ (t : Option (Session P A R)) (call : Call pres), Kept t → Admitted pres t call →
      Kept (t.bind (Session.step · call)) := by
    intro t call ht hok u hu
    obtain ⟨s, hs, hu⟩ := Option.bind_eq_some_iff.1 hu
    exact ⟨step_inv hstatic (ht s hs).1 hu, initializable_step hs (ht s hs).2 hok hu⟩
  have hgood : ∀ t, Kept t → ∀ s, t = some s → Seamless pres position s :=
    fun t ht s hs => inv_seamless (ht s hs).1 (ht s hs).2
  have hbad : ∀ (t : Option (Session P A R)) (call : Call pres), Kept t → ¬ Admitted pres t call →
      ¬ ∀ s, t.bind (Session.step · call) = some s → Seamless pres position s := by
    intro t call ht hnot
    cases t with
    | none =>
      refine absurd ?_ hnot
      cases call with
      | setRepresentation now sel => trivial
      | getNextSegment => exact fun s hs => absurd hs (by simp)
    | some s =>
      obtain ⟨s', hs', hseamless⟩ := not_seamless_step (ht s rfl).1 hnot
      exact fun hall => hseamless (hall s' hs')
  exact Machine.along_iff_of_first_bad _ hstep hgood hbad hinit calls

/-- every call is admitted if all representations are initializable -/
theorem along_admitted (h : ∀ p a r, pres.Initializable p a r) (t : Option (Session P A R)) (calls : List (Call pres)) :
    Machine.Along (fun s call => s.bind (Session.step · call)) (Admitted pres) t calls := by
  induction calls generalizing t with
  | nil => trivial
  | cons call calls ih =>
    refine ⟨?_, ih _⟩
    cases call with
    | setRepresentation now sel => trivial
    | getNextSegment => exact fun s _ _ => h _ _ _

/-! Two periods with one set each; the first set has two representations. -/

/-- three segments and an initialization segment -/
def listOf (name : String) : SegmentListElement where
  segmentURLs := [⟨(name ++ "0").toList, [], [], []⟩, ⟨(name ++ "1").toList, [], [], []⟩,
    ⟨(name ++ "2").toList, [], [], []⟩]
  initialization := some ⟨(name ++ "i").toList, [], .initializationSegment⟩
  duration := 2

def twoPeriods : Presentation Bool Bool (Fin 3) where
  mpd :=
    { baseUrls := [], mpdPathBaseUrl := ⟨"http://h/".toList, []⟩, type := "static".toList
      mediaPresentationDuration := 12, availabilityStarttime := 0, timeShiftBufferDepth := 0 }
  periods := [false, true]
  period := fun _ => ⟨[], none, none, none⟩
  adaptationSets := fun p => [p]
  adaptationSet := fun _ => ⟨[], none, none, none⟩
  representations := fun a => if a then [2] else [0, 1]
  representation := fun r =>
    { baseURLs := [], segmentBase := none, segmentTemplate := none, id := [], bandwidth := 0
      segmentList := some (listOf (if r = 0 then "a" else if r = 1 then "b" else "c")) }
  one_period := by decide
  one_adaptationSet := by decide

def selectA : Selection twoPeriods := ⟨false, false, 0, by decide, by decide⟩

def selectB : Selection twoPeriods := ⟨false, false, 1, by decide, by decide⟩

def selectC : Selection twoPeriods := ⟨true, true, 2, by decide, by decide⟩

/-- to the other representation and back, then to the next period -/
def switching : List (Call twoPeriods) :=
  [.getNextSegment, .setRepresentation 0 selectB, .getNextSegment, .setRepresentation 0 selectA, .getNextSegment,
    .getNextSegment, .setRepresentation 0 selectC, .getNextSegment]

/-- each representation has an initialization segment with a URL of its own -/
theorem initializable_twoPeriods (p a : Bool) (r : Fin 3) : twoPeriods.Initializable p a r := by
  intro d hd
  have hread : readDefinition (twoPeriods.period p) (twoPeriods.adaptationSet a) (twoPeriods.representation r) =
      twoPeriods.initDefinition p a r := rfl
  have hfetchable : Fetchable [⟨"http://h/".toList, []⟩]
      ((if r = 0 then "a" else if r = 1 then "b" else "c") ++ "i").toList := by
    fin_cases r
    · exact ⟨by decide, _, rfl, by decide⟩
    · exact ⟨by decide, _, rfl, by decide⟩
    · exact ⟨by decide, _, rfl, by decide⟩
  refine ⟨hread.trans hd, ?_⟩
  rw [← Option.some.inj hd]
  exact ⟨hfetchable, fun spec hspec => InitDefinition.readable_of_nil hspec⟩

/-- segments 0, 1 and 2 from three selections, no fourth one, and 0 again in the next period -/
theorem switches_seamless_twoPeriods :
    ∃ s, Session.run ((Session.prepare twoPeriods 10 0 0 []).bind Session.start) switching = some s ∧
      s.returned.map (fun x => (x.epoch, x.number, String.ofList x.media.segment.absoluteuri)) =
        [(0, 0, "http://h/a0"), (0, 1, "http://h/b1"), (0, 2, "http://h/a2"), (1, 0, "http://h/c0")] ∧
      Seamless twoPeriods 0 s := by
  have hrun : (Session.run ((Session.prepare twoPeriods 10 0 0 []).bind Session.start) switching).map (fun s =>
      s.returned.map fun x => (x.epoch, x.number, String.ofList x.media.segment.absoluteuri)) =
        some [(0, 0, "http://h/a0"), (0, 1, "http://h/b1"), (0, 2, "http://h/a2"), (1, 0, "http://h/c0")] := by
    decide
  obtain ⟨s, hs, hreturned⟩ := Option.map_eq_some_iff.1 hrun
  have halong := along_admitted initializable_twoPeriods
    ((Session.prepare twoPeriods 10 0 0 []).bind Session.start) switching
  exact ⟨s, hs, hreturned, (switches_seamless_iff rfl).2 halong switching (List.prefix_refl _) s hs⟩

/-! One file of which a range is the initialization segment. -/

/-- `<SegmentBase><Initialization range="0-738"/></SegmentBase>` behind `<BaseURL>f</BaseURL>` -/
def rangeOnly : Presentation Unit Unit Unit where
  mpd :=
    { baseUrls := [], mpdPathBaseUrl := ⟨"http://h/".toList, []⟩, type := "static".toList
      mediaPresentationDuration := 12, availabilityStarttime := 0, timeShiftBufferDepth := 0 }
  periods := [()]
  period := fun _ => ⟨[], none, none, none⟩
  adaptationSets := fun _ => [()]
  adaptationSet := fun _ => ⟨[], none, none, none⟩
  representations := fun _ => [()]
  representation := fun _ =>
    { baseURLs := [⟨"f".toList, []⟩], segmentBase := some ⟨some ⟨[], "0-738".toList, .initializationSegment⟩⟩
      segmentList := none, segmentTemplate := none, id := [], bandwidth := 0 }
  one_period := fun _ _ => rfl
  one_adaptationSet := fun _ _ => rfl

/-- **The initialization segment is lost.** It is defined by a range of the file; the file is returned as a segment, and
no initialization segment is found for it. -/
theorem rangeOnly_lost :
    ∃ s, Session.run ((Session.prepare rangeOnly 10 0 0 []).bind Session.start) [(.getNextSegment : Call rangeOnly)] =
        some s ∧
      s.returned.map (fun x => String.ofList x.media.segment.absoluteuri) = ["http://h/f"] ∧
      rangeOnly.initDefinition () () () = some (.element ⟨[], "0-738".toList, .initializationSegment⟩) ∧
      s.receiver.findInitSegment () = none ∧ ¬ Seamless rangeOnly 0 s := by
  have hrun : (Session.run ((Session.prepare rangeOnly 10 0 0 []).bind Session.start)
      [(.getNextSegment : Call rangeOnly)]).map (fun s =>
        (s.returned.map (fun x => String.ofList x.media.segment.absoluteuri), (s.receiver.findInitSegment ()).isSome)) =
          some (["http://h/f"], false) := by
    decide
  obtain ⟨s, hs, hs'⟩ := Option.map_eq_some_iff.1 hrun
  obtain ⟨hreturned, hfound⟩ := Prod.mk.inj hs'
  rw [Option.isSome_eq_false_iff, Option.isNone_iff_eq_none] at hfound
  refine ⟨s, hs, hreturned, rfl, hfound, fun hgood => ?_⟩
  obtain ⟨x, hx⟩ : ∃ x, x ∈ s.returned := by
    cases hnil : s.returned with
    | nil => simp [hnil] at hreturned
    | cons x xs => exact ⟨x, List.mem_cons_self⟩
  obtain ⟨seg, hseg, -⟩ := hgood.initialized x hx _ rfl
  exact absurd (hseg.symm.trans hfound) (by simp)

end Sessions

end NdnDash.Player
