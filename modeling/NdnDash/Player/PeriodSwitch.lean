/-
The segment offset of the receiver across changes of the period (`DASHReceiver.cpp`, `SetRepresentation`). The constructor
stores the offset that `CalculateSegmentOffset` computes for the first representation. After a change of the period the
number of the segment is set to 0 and the offset is computed again, but not stored.

- `setRepresentation_members`: what a switch does to the members, for any type of MPD.
- `run_offset`: no run of calls changes the offset.
- `rebases_iff`: over every run, each change of the period leaves the offset of the new stream exactly when that is, each
  time, the offset of the first representation at the time of the construction.
-/
import NdnDash.Player.DASHReceiver

namespace NdnDash.Player

open NdnDash.Mpd

variable {P A R : Type}

/-! ## What it is for -/

/-- the offset for a stream: it depends on the MPD, the size of the buffer and the time -/
def Presentation.offsetFor (pres : Presentation P A R) (bufferSize now : UInt32) (stream : Option PlayerStream) :
    Option UInt32 :=
  if pres.mpd.type = "static".toList then some 0
  else
    stream.bind fun stream =>
      (stream.getFirstSegmentNumber pres.mpd now).bind fun firstSegNum =>
        (stream.getCurrentSegmentNumber pres.mpd now).map fun currSegNum =>
          if currSegNum - 2 * bufferSize > firstSegNum then currSegNum - 2 * bufferSize else firstSegNum

namespace Receiver

/-- the segment that the next call of `GetNextSegment` asks the stream for -/
def asked (s : Receiver P A R) : UInt32 := s.segmentNumber + s.segmentOffset

/-- the position is one in the current stream: its offset is the one that is computed for that stream now, and the next
segment is counted from it -/
structure Rebased (pres : Presentation P A R) (now : UInt32) (s : Receiver P A R) : Prop where
  offset : s.calculateSegmentOffset pres now = some s.segmentOffset
  asks : ∀ offset, s.calculateSegmentOffset pres now = some offset → s.asked = s.segmentNumber + offset

variable [DecidableEq P] [DecidableEq A] [DecidableEq R] {pres : Presentation P A R}

/-- a call of the buffering thread, on a receiver that has not crashed -/
def step (pres : Presentation P A R) (s : Option (Receiver P A R)) : Call pres → Option (Receiver P A R)
  | .setRepresentation now sel =>
    s.bind fun s => s.setRepresentation pres now sel.period sel.adaptationSet sel.representation
  | .getNextSegment => s.bind fun s => (s.getNextSegment pres).map Prod.snd

/-- the call changes the period, and returns in state `s'` -/
def Changes (s : Option (Receiver P A R)) (now : UInt32) (sel : Selection pres) (s' : Receiver P A R) : Prop :=
  (∃ r ∈ s, r.period ≠ sel.period) ∧ step pres s (.setRepresentation now sel) = some s'

/-- a call that changes the period re-bases the offset -/
def Rebases (pres : Presentation P A R) (s : Option (Receiver P A R)) : Call pres → Prop
  | .setRepresentation now sel => ∀ s', Changes s now sel s' → s'.Rebased pres now
  | .getNextSegment => True

/-- a call that changes the period does so when the offset of the new period is `offset` -/
def SameOffset (pres : Presentation P A R) (bufferSize : UInt32) (offset : Option UInt32) (s : Option (Receiver P A R)) :
    Call pres → Prop
  | .setRepresentation now sel =>
    (∃ s', Changes s now sel s') →
      pres.offsetFor bufferSize now (pres.streamFor sel.period sel.adaptationSet sel.representation) = offset
  | .getNextSegment => True

end Receiver

/-! ## The members -/

section Members

open Receiver

variable {pres : Presentation P A R} {s s' : Receiver P A R} {now : UInt32}

theorem calculateSegmentOffset_eq (now : UInt32) (s : Receiver P A R) :
    s.calculateSegmentOffset pres now = pres.offsetFor s.bufferSize now s.representationStream := rfl

/-- `GetNextSegment` changes the number only, and what it returns is the segment that was to be asked for -/
theorem getNextSegment_members {media : Option (MediaObject R)} (hs' : s.getNextSegment pres = some (media, s')) :
    (∃ segmentNumber, s' = { s with segmentNumber }) ∧ ∀ m ∈ media, ∃ stream, s.representationStream = some stream ∧
      stream.getMediaSegment s.asked.toNat = some (some m.segment) := by
  obtain ⟨stream, hstream, hs'⟩ := Option.bind_eq_some_iff.1 hs'
  obtain ⟨size, -, hs'⟩ := Option.bind_eq_some_iff.1 hs'
  split_ifs at hs' with hle
  · obtain ⟨rfl, rfl⟩ := Prod.mk.inj (Option.some.inj hs')
    exact ⟨⟨s.segmentNumber, rfl⟩, by simp⟩
  · obtain ⟨seg, hseg, hpair⟩ := Option.map_eq_some_iff.1 hs'
    cases seg with
    | none =>
      obtain ⟨rfl, rfl⟩ := Prod.mk.inj hpair
      exact ⟨⟨s.segmentNumber, rfl⟩, by simp⟩
    | some seg =>
      obtain ⟨rfl, rfl⟩ := Prod.mk.inj hpair
      refine ⟨⟨_, rfl⟩, fun m hm => ⟨stream, hstream, ?_⟩⟩
      obtain rfl := Option.some.inj hm
      exact hseg

/-- the offset that is stored is the one that is computed exactly when the position has been re-based -/
theorem rebased_iff : s.Rebased pres now ↔ s.calculateSegmentOffset pres now = some s.segmentOffset := by
  refine ⟨fun h => h.offset, fun h => ⟨h, fun offset hoffset => ?_⟩⟩
  rw [h, Option.some.injEq] at hoffset
  rw [asked, hoffset]

variable [DecidableEq R]

theorem downloadInitSegment_members {r : R} (hs' : s.downloadInitSegment r = some s') :
    ∃ initSegments, s' = { s with initSegments } := by
  unfold Receiver.downloadInitSegment at hs'
  split_ifs at hs' with hexists
  · exact ⟨s.initSegments, (Option.some.inj hs').symm⟩
  · obtain ⟨initSeg, -, hs'⟩ := Option.map_eq_some_iff.1 hs'
    cases initSeg with
    | none => exact ⟨s.initSegments, hs'.symm⟩
    | some initSeg => exact ⟨_, hs'.symm⟩

variable [DecidableEq P] [DecidableEq A]

/-- **A switch.** The stream becomes that of the selection; the offset stays, although it is computed when the period
changes. -/
theorem setRepresentation_members (h : Tied pres s) {sel : Selection pres}
    (hs' : s.setRepresentation pres now sel.period sel.adaptationSet sel.representation = some s') :
    Tied pres s' ∧ s'.segmentOffset = s.segmentOffset ∧ s'.bufferSize = s.bufferSize ∧ s'.period = sel.period ∧
      s'.representationStream = pres.streamFor sel.period sel.adaptationSet sel.representation ∧
      (s.period ≠ sel.period → s'.segmentNumber = 0 ∧ ∃ offset, s'.calculateSegmentOffset pres now = some offset) := by
  unfold Receiver.setRepresentation at hs'
  split_ifs at hs' with hsame
  · -- the early return: the same representation has the same set and period
    obtain rfl := Option.some.inj hs'
    have hset : s.adaptationSet = sel.adaptationSet :=
      pres.one_adaptationSet h.representation_mem (hsame ▸ sel.representation_mem)
    have hperiod : s.period = sel.period :=
      pres.one_period h.adaptationSet_mem (hset ▸ sel.adaptationSet_mem)
    refine ⟨h, rfl, rfl, hperiod, ?_, fun hne => absurd hperiod hne⟩
    rw [h.stream, hperiod, hset, hsame]
  · obtain ⟨⟨s1, changed⟩, henter, hs'⟩ := Option.bind_eq_some_iff.1 hs'
    obtain ⟨adaptationSetStream, hstreams, rfl, rfl⟩ := enterSet_spec h sel.adaptationSet_mem henter
    obtain ⟨representationStream, hlookup, hs'⟩ := Option.bind_eq_some_iff.1 hs'
    obtain ⟨s2, hdownload, hs'⟩ := Option.bind_eq_some_iff.1 hs'
    obtain ⟨initSegments, rfl⟩ := downloadInitSegment_members hdownload
    have hstream : representationStream = pres.streamFor sel.period sel.adaptationSet sel.representation := by
      rw [getRepresentationStream_eq hstreams sel.representation_mem, Option.some.injEq] at hlookup
      exact hlookup.symm
    by_cases hperiod : s.period = sel.period
    · rw [if_neg (by simp [hperiod])] at hs'
      obtain rfl := Option.some.inj hs'
      exact ⟨⟨sel.adaptationSet_mem, sel.representation_mem, hstreams, hstream⟩, rfl, rfl, rfl, hstream,
        fun hne => absurd hperiod hne⟩
    · rw [if_pos (by simp [hperiod])] at hs'
      obtain ⟨offset, hoffset, rfl⟩ := Option.map_eq_some_iff.1 hs'
      exact ⟨⟨sel.adaptationSet_mem, sel.representation_mem, hstreams, hstream⟩, rfl, rfl, rfl, hstream,
        fun _ => ⟨rfl, offset, hoffset⟩⟩

omit [DecidableEq P] [DecidableEq A] in
/-- the constructor stores the offset of the first representation -/
theorem construct_members {bufferSize : UInt32} (hs : Receiver.construct pres bufferSize now = some s) :
    Tied pres s ∧ s.bufferSize = bufferSize ∧
      pres.offsetFor bufferSize now (pres.streamFor s.period s.adaptationSet s.representation) = some s.segmentOffset := by
  obtain ⟨period, hperiod, hs⟩ := Option.bind_eq_some_iff.1 hs
  obtain ⟨adaptationSet, hadaptationSet, hs⟩ := Option.bind_eq_some_iff.1 hs
  obtain ⟨representation, hrepresentation, hs⟩ := Option.bind_eq_some_iff.1 hs
  obtain ⟨adaptationSetStream, hstreams, hs⟩ := Option.bind_eq_some_iff.1 hs
  obtain ⟨representationStream, hstream, hs⟩ := Option.bind_eq_some_iff.1 hs
  obtain ⟨offset, hoffset, rfl⟩ := Option.map_eq_some_iff.1 hs
  have hmem := List.mem_of_getElem? hrepresentation
  rw [getRepresentationStream_eq hstreams hmem, Option.some.injEq] at hstream
  refine ⟨⟨List.mem_of_getElem? hadaptationSet, hmem, hstreams, hstream.symm⟩, rfl, ?_⟩
  rw [hstream]
  exact hoffset

end Members

/-! ## Runs of calls -/

section Runs

open Receiver

variable [DecidableEq P] [DecidableEq A] [DecidableEq R] {pres : Presentation P A R} {bufferSize now : UInt32}

/-- the invariant of a run: the members fit together, and the offset is the one of the construction -/
structure Stale (pres : Presentation P A R) (bufferSize segmentOffset : UInt32) (s : Receiver P A R) : Prop where
  tied : Tied pres s
  offset : s.segmentOffset = segmentOffset
  bufferSize : s.bufferSize = bufferSize

/-- no call changes the offset -/
theorem step_offset {segmentOffset : UInt32} (s : Option (Receiver P A R)) (call : Call pres)
    (h : ∀ r ∈ s, Stale pres bufferSize segmentOffset r) :
    ∀ r ∈ step pres s call, Stale pres bufferSize segmentOffset r := by
  intro r hr
  cases call with
  | setRepresentation now sel =>
    obtain ⟨r₀, hr₀, hset⟩ := Option.bind_eq_some_iff.1 hr
    have hstale := h r₀ hr₀
    obtain ⟨htied, hoffset, hbuffer, -⟩ := setRepresentation_members hstale.tied hset
    exact ⟨htied, hoffset.trans hstale.offset, hbuffer.trans hstale.bufferSize⟩
  | getNextSegment =>
    obtain ⟨r₀, hr₀, hnext⟩ := Option.bind_eq_some_iff.1 hr
    obtain ⟨⟨media, r'⟩, hget, rfl⟩ := Option.map_eq_some_iff.1 hnext
    obtain ⟨⟨segmentNumber, rfl⟩, -⟩ := getNextSegment_members hget
    have hstale := h r₀ hr₀
    exact ⟨⟨hstale.tied.adaptationSet_mem, hstale.tied.representation_mem, hstale.tied.streams, hstale.tied.stream⟩,
      hstale.offset, hstale.bufferSize⟩

theorem run_offset {segmentOffset : UInt32} {s : Option (Receiver P A R)}
    (h : ∀ r ∈ s, Stale pres bufferSize segmentOffset r) (calls : List (Call pres)) :
    ∀ r ∈ Machine.run (step pres) s calls, Stale pres bufferSize segmentOffset r :=
  Machine.run_inv' (step pres) step_offset h calls

/-- **One change of the period** re-bases the offset exactly when the offset of the new period is the stored one. -/
theorem step_rebases_iff {segmentOffset : UInt32} (s : Option (Receiver P A R)) (call : Call pres)
    (h : ∀ r ∈ s, Stale pres bufferSize segmentOffset r) :
    Rebases pres s call ↔ SameOffset pres bufferSize (some segmentOffset) s call := by
  cases call with
  | getNextSegment => exact Iff.rfl
  | setRepresentation now sel =>
    have hstep : ∀ s', Changes s now sel s' → (s'.Rebased pres now ↔
        pres.offsetFor bufferSize now (pres.streamFor sel.period sel.adaptationSet sel.representation) =
          some segmentOffset) := by
      intro s' hchanges
      obtain ⟨r, hr, hset⟩ := Option.bind_eq_some_iff.1 hchanges.2
      have hstale := h r hr
      obtain ⟨-, hoffset, hbuffer, -, hstream, -⟩ := setRepresentation_members hstale.tied hset
      rw [rebased_iff, calculateSegmentOffset_eq, hbuffer, hstale.bufferSize, hstream, hoffset, hstale.offset]
    refine ⟨fun hrebases hchanges => ?_, fun hsame s' hs' => ?_⟩
    · obtain ⟨s', hs'⟩ := hchanges
      exact (hstep s' hs').1 (hrebases s' hs')
    · exact (hstep s' hs').2 (hsame ⟨s', hs'⟩)

/-- **The offset across changes of the period.** From the constructor on and over every run of calls, each change of the
period re-bases the offset exactly when each takes place while the offset of the new period is the one that the first
representation had at the construction. -/
theorem rebases_iff {s : Receiver P A R} (hs : Receiver.construct pres bufferSize now = some s)
    (calls : List (Call pres)) :
    Machine.Along (step pres) (Rebases pres) (some s) calls ↔
      Machine.Along (step pres)
        (SameOffset pres bufferSize
          (pres.offsetFor bufferSize now (pres.streamFor s.period s.adaptationSet s.representation)))
        (some s) calls := by
  obtain ⟨htied, hbuffer, hoffset⟩ := construct_members hs
  rw [hoffset]
  have hstale : ∀ r ∈ some s, Stale pres bufferSize s.segmentOffset r := by
    intro r hr
    rw [← Option.some.inj hr]
    exact ⟨htied, rfl, hbuffer⟩
  exact Machine.along_congr (step pres) (fun t call ht _ => step_offset t call ht) step_rebases_iff hstale calls

/-- the two periods, live, with a window of four seconds -/
def liveTwoPeriods : Presentation Bool Bool (Fin 3) :=
  { twoPeriods with mpd := { twoPeriods.mpd with type := "dynamic".toList, timeShiftBufferDepth := Nat.cast 4 } }

theorem adaptationSet_mem_live : true ∈ liveTwoPeriods.adaptationSets true := by decide

theorem representation_mem_live : Fin.last 2 ∈ liveTwoPeriods.representations true := by decide

def selectLive : Selection liveTwoPeriods :=
  ⟨true, true, Fin.last 2, adaptationSet_mem_live, representation_mem_live⟩

/-- the period changes at the time of the construction -/
theorem rebases_at_once :
    ∃ s, Receiver.construct liveTwoPeriods 1 6 = some s ∧
      Machine.Along (step liveTwoPeriods) (Rebases liveTwoPeriods) (some s) [.setRepresentation 6 selectLive] := by
  have hsame : (Receiver.construct liveTwoPeriods 1 6).map (fun s =>
      liveTwoPeriods.offsetFor 1 6 (liveTwoPeriods.streamFor s.period s.adaptationSet s.representation)) =
        some (liveTwoPeriods.offsetFor 1 6 (liveTwoPeriods.streamFor true true (Fin.last 2))) := by
    decide +kernel
  obtain ⟨s, hs, hoffset⟩ := Option.map_eq_some_iff.1 hsame
  exact ⟨s, hs, (rebases_iff hs _).2 ⟨fun _ => hoffset.symm, trivial⟩⟩

/-- four seconds later the window begins at segment 2, and segment 0 is asked for -/
theorem stale_offset :
    ∃ s s', Receiver.construct liveTwoPeriods 1 6 = some s ∧ Changes (some s) 10 selectLive s' ∧
      s'.calculateSegmentOffset liveTwoPeriods 10 = some 2 ∧ s'.asked = 0 ∧
      ¬ Machine.Along (step liveTwoPeriods) (Rebases liveTwoPeriods) (some s) [.setRepresentation 10 selectLive] := by
  have hrun : (Receiver.construct liveTwoPeriods 1 6).map (fun s => (s.period,
      (step liveTwoPeriods (some s) (.setRepresentation 10 selectLive)).map fun s' =>
        (s'.calculateSegmentOffset liveTwoPeriods 10, s'.segmentNumber, s'.segmentOffset))) =
          some (false, some (some 2, 0, 0)) := by
    decide +kernel
  obtain ⟨s, hs, hpair⟩ := Option.map_eq_some_iff.1 hrun
  obtain ⟨hperiod, hstep⟩ := Prod.mk.inj hpair
  obtain ⟨s', hs', hmembers⟩ := Option.map_eq_some_iff.1 hstep
  obtain ⟨hoffset, hmembers⟩ := Prod.mk.inj hmembers
  obtain ⟨hnumber, hold⟩ := Prod.mk.inj hmembers
  have hchanges : Changes (some s) 10 selectLive s' := ⟨⟨s, rfl, by rw [hperiod]; decide⟩, hs'⟩
  refine ⟨s, s', hs, hchanges, hoffset, by rw [asked, hnumber, hold]; rfl, fun h => ?_⟩
  have hstored := (h.1 s' hchanges).offset
  rw [hoffset, hold] at hstored
  exact absurd hstored (by decide)

end Runs

end NdnDash.Player
