/-
Model of the download of one segment by the buffering thread (`MediaObject.cpp`, `DoBuffering` in `DASHReceiver.cpp`). The
`MediaObject` observes the chunk: it is told its state and its number of bytes. The processes are the buffering thread, the
download thread and the readers; nobody asks for an abort.

What the constructor does not set is given: the `state` a `MediaObject` begins with may be any, or none of the
enumeration.

- `step_segmentInv`: the bytes of the connection are pushed, in hand, or still to be counted.
- `step_mediaInv`: what the `MediaObject` has been told, at each point of the buffering thread.
- `size_of_returned`: once `WaitFinished` has returned, the size is the number of bytes of the segment, all of which are
  pushed, and it is what the throughput is measured with.
-/
import NdnDash.Network.Delivery

namespace NdnDash.Player

open NdnDash.Machine NdnDash.Chunk

/-! ## Model -/

/-- where the buffering thread stands with the segment -/
inductive BufferingPc where
  /-- before `AttachDownloadObserver`, the first thing `StartDownload` does -/
  | attach
  | startDownload
  | pushBack
  | waitFinished
  | updateThroughput
  | nextSegment
  /-- `PushBack` has returned false -/
  | stopped
deriving DecidableEq, Repr

structure MediaDownload where
  segment : Chunk.St
  /-- the observer of the segment is the `MediaObject` -/
  attached : Bool
  /-- `none` is a value that is no `DownloadState` -/
  state : Option DownloadState
  size : UInt32
  buffering : BufferingPc
  /-- the size that `UpdateThroughput` was called with -/
  segmentLength : Option UInt32

namespace MediaDownload

inductive Op where
  /-- the thread can be created, and the buffer accepts the object, if it is asked -/
  | buffering (created accepted : Bool)
  | download (r : ReadResult)
  | reader (len : ℕ)

/-- a constructed `MediaObject` of a constructed segment -/
def init (state : Option DownloadState) : MediaDownload where
  segment := Chunk.init
  attached := false
  state := state
  size := 0
  buffering := .attach
  segmentLength := none

/-- `DownloadStateManager::Notify` -/
def onDownloadStateChanged (s : MediaDownload) (state : DownloadState) : MediaDownload :=
  if s.attached then { s with state := some state } else s

/-- `AbstractChunk::NotifyDownloadRateChanged` -/
def onDownloadRateChanged (s : MediaDownload) (bytesDownloaded : ℕ) : MediaDownload :=
  if s.attached then { s with size := UInt32.ofNat bytesDownloaded } else s

def getMediaSize (s : MediaDownload) : UInt32 := s.size

/-- the condition that ends the loop of `WaitFinished` -/
def Finished (s : MediaDownload) : Prop := s.state = some .completed ∨ s.state = some .aborted

instance (s : MediaDownload) : Decidable s.Finished := inferInstanceAs (Decidable (_ ∨ _))

/-- one step of `StartDownload` of the segment, with what it tells the observer -/
def startStep (created : Bool) (s : MediaDownload) : MediaDownload :=
  let segment := Chunk.step .external s.segment (.start created)
  let s' := match s.segment.starter with
    | .setInProgress => s.onDownloadStateChanged .inProgress
    | _ => s
  { s' with
    segment := segment
    buffering := match segment.starter with
      | .returned _ => .pushBack
      | _ => .startDownload }

/-- one step of the buffering thread -/
def bufferingStep (created accepted : Bool) (s : MediaDownload) : MediaDownload :=
  match s.buffering with
  | .attach => { s with attached := true, buffering := .startDownload }
  | .startDownload => startStep created s
  | .pushBack => { s with buffering := if accepted then .waitFinished else .stopped }
  | .waitFinished => if s.Finished then { s with buffering := .updateThroughput } else s
  | .updateThroughput => { s with segmentLength := some s.getMediaSize, buffering := .nextSegment }
  | .nextSegment | .stopped => s

/-- one step of the download thread, with what it tells the observer -/
def downloadStep (r : ReadResult) (s : MediaDownload) : MediaDownload :=
  let segment := Chunk.step .external s.segment (.thread r)
  let s' := match s.segment.thread with
    | .notifyRate _ => s.onDownloadRateChanged segment.bytesDownloaded
    | .lastSet state => s.onDownloadStateChanged state
    | _ => s
  { s' with segment := segment }

def step (s : MediaDownload) : Op → MediaDownload
  | .buffering created accepted => bufferingStep created accepted s
  | .download r => downloadStep r s
  | .reader len => { s with segment := Chunk.step .external s.segment (.reader len) }

/-- `WaitFinished` has returned -/
def Returned (s : MediaDownload) : Prop := s.buffering = .updateThroughput ∨ s.buffering = .nextSegment

instance (s : MediaDownload) : Decidable s.Returned := inferInstanceAs (Decidable (_ ∨ _))

/-! ## The segment -/

/-- the bytes that are pushed and not yet counted -/
def uncounted : ThreadPc → ℕ
  | .notifyRate ret => ret.toNat
  | _ => 0

/-- nothing of the connection is in hand any more, or ever was -/
def Settled (pc : ThreadPc) : Prop := pc = .unborn ∨ pc = .setEOS ∨ pc = .finished

/-- invariant of a segment that nobody aborts -/
structure SegmentInv (c : Chunk.St) : Prop where
  state : c.stateManager.state ≠ .requestAbort
  lastSet : ∀ d, c.thread = .lastSet d → d = .completed
  unborn : c.starter = .checkState ∨ c.starter = .createThread ∨ c.starter = .returned false → c.thread = .unborn
  stored : c.connection = true → c.starter = .returned true
  early : c.connection = false → c.thread = .unborn ∨ c.thread = .read ∨ c.thread = .crashed
  bytes : c.produced = c.pushed ++ c.thread.inHand
  counted : c.bytesDownloaded + uncounted c.thread = c.pushed.length

variable {c : Chunk.St} {s s' : MediaDownload}

theorem segmentInv_init : SegmentInv Chunk.init := by
  constructor <;> simp [Chunk.init, ThreadPc.inHand, uncounted]

theorem start_segmentInv (created : Bool) (h : SegmentInv c) : SegmentInv (Chunk.startStep .external created c) := by
  have hnull : ∀ pc, c.starter = pc → pc ≠ .returned true → c.connection ≠ true := fun pc hpc hne hconn =>
    hne (hpc ▸ h.stored hconn)
  cases hpc : c.starter with
  | checkState =>
    have hunborn := h.unborn (Or.inl hpc)
    simp only [Chunk.startStep, hpc]
    exact { h with unborn := fun _ => hunborn, stored := fun hconn => absurd hconn (hnull _ hpc (by simp)) }
  | createThread =>
    have hunborn := h.unborn (Or.inr (Or.inl hpc))
    have hbytes := h.bytes
    have hcounted := h.counted
    rw [hunborn] at hbytes hcounted
    simp only [Chunk.startStep, hpc]
    split_ifs
    · exact { h with
        lastSet := by simp
        unborn := by simp
        stored := fun hconn => absurd hconn (hnull _ hpc (by simp))
        early := by simp
        bytes := hbytes
        counted := hcounted }
    · exact { h with unborn := fun _ => hunborn, stored := fun hconn => absurd hconn (hnull _ hpc (by simp)) }
  | setInProgress =>
    simp only [Chunk.startStep, hpc]
    exact { h with
      state := by simp [DownloadStateManager.setState]
      unborn := by simp
      stored := fun hconn => absurd hconn (hnull _ hpc (by simp)) }
  | setConnection =>
    simp only [Chunk.startStep, hpc]
    exact { h with unborn := by simp, stored := by simp, early := by simp }
  | returned ok =>
    simp only [Chunk.startStep, hpc]
    exact h

/-- behind its first call the thread has a connection -/
theorem SegmentInv.connected (h : SegmentInv c) (hpc : ¬ (c.thread = .unborn ∨ c.thread = .read ∨ c.thread = .crashed)) :
    c.connection = true := by
  by_contra hnull
  exact hpc (h.early (by simpa using hnull))

/-- a move of the thread, with what it does to the bytes -/
theorem SegmentInv.of_thread {c' : Chunk.St} (h : SegmentInv c) (hborn : c.thread ≠ .unborn)
    (hmanager : c'.stateManager.state ≠ .requestAbort) (hconn : c'.connection = c.connection)
    (hstarter : c'.starter = c.starter) (hset : ∀ d, c'.thread = .lastSet d → d = .completed)
    (hstored : c.connection = true ∨ c'.thread = .crashed) (hbytes : c'.produced = c'.pushed ++ c'.thread.inHand)
    (hcounted : c'.bytesDownloaded + uncounted c'.thread = c'.pushed.length) : SegmentInv c' := by
  refine ⟨hmanager, hset, ?_, ?_, ?_, hbytes, hcounted⟩
  · rw [hstarter]
    exact fun hearly => absurd (h.unborn hearly) hborn
  · rw [hconn, hstarter]
    exact h.stored
  · rw [hconn]
    exact fun hnull => Or.inr (Or.inr (hstored.resolve_left (by simp [hnull])))

theorem read_segmentInv (r : ReadResult) (h : SegmentInv c) (hpc : c.thread = .read) :
    SegmentInv (readStep .external r c) := by
  have hbytes := h.bytes
  have hcounted := h.counted
  simp only [hpc, ThreadPc.inHand, uncounted, List.append_nil, Nat.add_zero] at hbytes hcounted
  have hborn : c.thread ≠ .unborn := by simp [hpc]
  cases hstored : c.connection with
  | true =>
    simp only [readStep, hstored, if_true]
    by_cases hpos : 0 < r.ret
    · simp only [if_pos hpos]
      exact h.of_thread hborn h.state hstored.symm rfl (by simp) (Or.inl hstored) (by simp [hbytes, ThreadPc.inHand])
        (by simp [hcounted, uncounted])
    · have hnil : r.data = [] := List.eq_nil_of_length_eq_zero (by rw [r.len_eq]; omega)
      simp only [if_neg hpos, hnil]
      exact h.of_thread hborn h.state hstored.symm rfl (by simp) (Or.inl hstored) (by simp [hbytes, ThreadPc.inHand])
        (by simp [hcounted, uncounted])
  | false =>
    simp only [readStep, hstored, Bool.false_eq_true, if_false]
    exact h.of_thread hborn h.state hstored.symm rfl (by simp) (Or.inr rfl) (by simp [hbytes, ThreadPc.inHand])
      (by simp [hcounted, uncounted])

theorem thread_segmentInv (r : ReadResult) (h : SegmentInv c) : SegmentInv (threadStep .external r c) := by
  have hbytes := h.bytes
  have hcounted := h.counted
  have hconn := h.connected
  cases hpc : c.thread with
  | unborn => simpa only [threadStep, hpc] using h
  | finished => simpa only [threadStep, hpc] using h
  | crashed => simpa only [threadStep, hpc] using h
  | read => simpa only [threadStep, hpc] using read_segmentInv r h hpc
  | pushBack block =>
    simp only [hpc, ThreadPc.inHand, uncounted, Nat.add_zero] at hbytes hcounted
    simp only [threadStep, hpc]
    exact h.of_thread (by simp [hpc]) h.state rfl rfl (by simp) (Or.inl (hconn (by simp [hpc])))
      (by simp [hbytes, ThreadPc.inHand]) (by simp [hcounted, uncounted])
  | notifyRate ret =>
    simp only [hpc, ThreadPc.inHand, uncounted, List.append_nil] at hbytes hcounted
    simp only [threadStep, hpc]
    exact h.of_thread (by simp [hpc]) h.state rfl rfl (by simp) (Or.inl (hconn (by simp [hpc])))
      (by simp [hbytes, ThreadPc.inHand]) (by simp [hcounted, uncounted])
  | loopCheck ret =>
    simp only [hpc, ThreadPc.inHand, uncounted, List.append_nil, Nat.add_zero] at hbytes hcounted
    simp only [threadStep, hpc, if_neg h.state]
    by_cases hret : ret ≠ 0
    · simp only [if_pos hret]
      exact h.of_thread (by simp [hpc]) h.state rfl rfl (by simp) (Or.inl (hconn (by simp [hpc])))
        (by simp [hbytes, ThreadPc.inHand]) (by simp [hcounted, uncounted])
    · simp only [if_neg hret]
      exact h.of_thread (by simp [hpc]) h.state rfl rfl (by simp) (Or.inl (hconn (by simp [hpc])))
        (by simp [hbytes, ThreadPc.inHand]) (by simp [hcounted, uncounted])
  | lastCheck =>
    simp only [hpc, ThreadPc.inHand, uncounted, List.append_nil, Nat.add_zero] at hbytes hcounted
    simp only [threadStep, hpc, if_neg h.state]
    exact h.of_thread (by simp [hpc]) h.state rfl rfl (by simp) (Or.inl (hconn (by simp [hpc])))
      (by simp [hbytes, ThreadPc.inHand]) (by simp [hcounted, uncounted])
  | lastSet state =>
    simp only [hpc, ThreadPc.inHand, uncounted, List.append_nil, Nat.add_zero] at hbytes hcounted
    obtain rfl := h.lastSet state hpc
    simp only [threadStep, hpc]
    exact h.of_thread (by simp [hpc]) (by simp [DownloadStateManager.setState]) rfl rfl (by simp)
      (Or.inl (hconn (by simp [hpc]))) (by simp [hbytes, ThreadPc.inHand]) (by simp [hcounted, uncounted])
  | setEOS =>
    simp only [hpc, ThreadPc.inHand, uncounted, List.append_nil, Nat.add_zero] at hbytes hcounted
    simp only [threadStep, hpc]
    exact h.of_thread (by simp [hpc]) h.state rfl rfl (by simp) (Or.inl (hconn (by simp [hpc])))
      (by simp [hbytes, ThreadPc.inHand]) (by simp [hcounted, uncounted])

theorem reader_segmentInv (len : ℕ) (h : SegmentInv c) : SegmentInv (readerStep len c) := by
  obtain ⟨h1, h2, h3, h4, -, h6, h7⟩ := readerStep_frame c len
  have h8 := readerStep_bytesDownloaded c len
  constructor
  · rw [h1]; exact h.state
  · rw [h4]; exact h.lastSet
  · rw [h3, h4]; exact h.unborn
  · rw [h2, h3]; exact h.stored
  · rw [h2, h4]; exact h.early
  · rw [h4, h6, h7]; exact h.bytes
  · rw [h4, h7, h8]; exact h.counted

/-- nothing is left in hand when the thread is through, or was never there -/
theorem SegmentInv.settled (h : SegmentInv c) (hsettled : Settled c.thread) :
    c.pushed = c.produced ∧ c.bytesDownloaded = c.produced.length := by
  have hbytes := h.bytes
  have hcounted := h.counted
  rcases hsettled with hpc | hpc | hpc
  all_goals
    simp only [hpc, ThreadPc.inHand, uncounted, List.append_nil, Nat.add_zero] at hbytes hcounted
    exact ⟨hbytes.symm, by rw [hcounted, hbytes]⟩

/-! ## The buffering thread -/

/-- what the `MediaObject` is told of a segment whose `StartDownload` has set IN_PROGRESS -/
def Told (s : MediaDownload) : Prop :=
  s.state = some .inProgress ∨ s.state = some .completed ∧ (s.segment.thread = .setEOS ∨ s.segment.thread = .finished)

/-- invariant of the buffering thread -/
structure MediaInv (s : MediaDownload) : Prop where
  segment : SegmentInv s.segment
  attached : s.buffering ≠ .attach → s.attached = true
  attach : s.buffering = .attach → s.segment.starter = .checkState
  started : s.buffering ≠ .attach → s.buffering ≠ .startDownload → ∃ ok, s.segment.starter = .returned ok
  told : s.segment.starter = .setConnection ∨ s.segment.starter = .returned true → Told s
  size : s.size = UInt32.ofNat s.segment.bytesDownloaded
  returned : s.Returned → Settled s.segment.thread
  measured : ∀ n, s.segmentLength = some n → s.buffering = .nextSegment ∧ n = s.size

theorem mediaInv_init (state : Option DownloadState) : MediaInv (init state) := by
  constructor
  · exact segmentInv_init
  all_goals simp [init, Chunk.init, Returned]

/-- no size is passed on before `WaitFinished` has returned -/
theorem MediaInv.not_measured (h : MediaInv s) (hpc : s.buffering ≠ .nextSegment) (n : UInt32) :
    s.segmentLength ≠ some n :=
  fun hn => hpc (h.measured n hn).1

/-- a move within `StartDownload`, or the one behind it -/
theorem MediaInv.of_start (h : MediaInv s) (hpc : s.buffering = .startDownload) (hsegment : SegmentInv s'.segment)
    (hattached : s'.attached = s.attached)
    (hbuffering : s'.buffering = .startDownload ∨ s'.buffering = .pushBack ∧ ∃ ok, s'.segment.starter = .returned ok)
    (htold : s'.segment.starter = .setConnection ∨ s'.segment.starter = .returned true → Told s')
    (hsize : s'.size = UInt32.ofNat s'.segment.bytesDownloaded) (hlength : s'.segmentLength = s.segmentLength) :
    MediaInv s' := by
  have hstarting : s'.buffering = .startDownload ∨ s'.buffering = .pushBack := hbuffering.imp_right And.left
  refine {
    segment := hsegment
    attached := fun _ => ?_
    attach := fun hattach => ?_
    started := fun _ hbehind => ?_
    told := htold
    size := hsize
    returned := fun hreturned => ?_
    measured := fun n hn => ?_ }
  · rw [hattached]
    exact h.attached (by simp [hpc])
  · rcases hstarting with hpc' | hpc' <;> simp [hpc'] at hattach
  · exact (hbuffering.resolve_left hbehind).2
  · rcases hstarting with hpc' | hpc' <;> simp [Returned, hpc'] at hreturned
  · rw [hlength] at hn
    exact absurd hn (h.not_measured (by simp [hpc]) n)

/-- `StartDownload`: the observer is told IN_PROGRESS before the connection is stored -/
theorem startStep_mediaInv (created : Bool) (h : MediaInv s) (hpc : s.buffering = .startDownload) :
    MediaInv (startStep created s) := by
  have hsegment := start_segmentInv created h.segment
  have hattached := h.attached (by simp [hpc])
  cases hstarter : s.segment.starter with
  | checkState =>
    simp only [Chunk.startStep, hstarter] at hsegment
    simp only [startStep, Chunk.step, Chunk.startStep, hstarter]
    by_cases hfirst : s.segment.stateManager.state = .notStarted
    · simp only [if_pos hfirst] at hsegment ⊢
      exact h.of_start hpc hsegment rfl (Or.inl rfl) (by simp) h.size rfl
    · simp only [if_neg hfirst] at hsegment ⊢
      exact h.of_start hpc hsegment rfl (Or.inr ⟨rfl, false, rfl⟩) (by simp) h.size rfl
  | createThread =>
    simp only [Chunk.startStep, hstarter] at hsegment
    simp only [startStep, Chunk.step, Chunk.startStep, hstarter]
    cases created with
    | true => exact h.of_start hpc hsegment rfl (Or.inl rfl) (by simp) h.size rfl
    | false => exact h.of_start hpc hsegment rfl (Or.inr ⟨rfl, false, rfl⟩) (by simp) h.size rfl
  | setInProgress =>
    simp only [Chunk.startStep, hstarter] at hsegment
    simp only [startStep, Chunk.step, Chunk.startStep, hstarter, onDownloadStateChanged, hattached, if_true]
    exact h.of_start hpc hsegment hattached.symm (Or.inl rfl) (fun _ => Or.inl rfl) h.size rfl
  | setConnection =>
    have htold := h.told (Or.inl hstarter)
    simp only [Chunk.startStep, hstarter] at hsegment
    simp only [startStep, Chunk.step, Chunk.startStep, hstarter]
    exact h.of_start hpc hsegment rfl (Or.inr ⟨rfl, true, rfl⟩) (fun _ => htold) h.size rfl
  | returned ok =>
    simp only [startStep, Chunk.step, Chunk.startStep, hstarter]
    exact h.of_start hpc h.segment rfl (Or.inr ⟨rfl, ok, hstarter⟩) h.told h.size rfl

theorem bufferingStep_mediaInv (created accepted : Bool) (h : MediaInv s) :
    MediaInv (bufferingStep created accepted s) := by
  cases hpc : s.buffering with
  | attach =>
    have hstarter := h.attach hpc
    simp only [bufferingStep, hpc]
    exact { h with
      attached := by simp
      attach := by simp
      started := by simp
      told := by simp [hstarter]
      returned := by simp [Returned]
      measured := fun n hn => absurd hn (h.not_measured (by simp [hpc]) n) }
  | startDownload =>
    simp only [bufferingStep, hpc]
    exact startStep_mediaInv created h hpc
  | pushBack =>
    have hattached := h.attached (by simp [hpc])
    have hstarted := h.started (by simp [hpc]) (by simp [hpc])
    simp only [bufferingStep, hpc]
    refine { h with
      attached := fun _ => hattached
      attach := ?_
      started := fun _ _ => hstarted
      returned := ?_
      measured := fun n hn => absurd hn (h.not_measured (by simp [hpc]) n) }
    · simp only
      split_ifs <;> simp
    · simp only [Returned]
      split_ifs <;> simp
  | waitFinished =>
    have hattached := h.attached (by simp [hpc])
    obtain ⟨ok, hstarted⟩ := h.started (by simp [hpc]) (by simp [hpc])
    simp only [bufferingStep, hpc]
    split_ifs with hfinished
    · refine { h with
        attached := fun _ => hattached
        attach := by simp
        started := fun _ _ => ⟨ok, hstarted⟩
        returned := fun _ => ?_
        measured := fun n hn => absurd hn (h.not_measured (by simp [hpc]) n) }
      -- COMPLETED is told by the thread alone, and there is none if it could not be created
      cases ok with
      | false => exact Or.inl (h.segment.unborn (Or.inr (Or.inr hstarted)))
      | true =>
        rcases h.told (Or.inr hstarted) with hprogress | ⟨-, hended⟩
        · simp [Finished, hprogress] at hfinished
        · exact Or.inr hended
    · exact h
  | updateThroughput =>
    have hattached := h.attached (by simp [hpc])
    have hstarted := h.started (by simp [hpc]) (by simp [hpc])
    have hsettled := h.returned (Or.inl hpc)
    simp only [bufferingStep, hpc]
    exact { h with
      attached := fun _ => hattached
      attach := by simp
      started := fun _ _ => hstarted
      returned := fun _ => hsettled
      measured := fun n hn => ⟨rfl, (Option.some.inj hn).symm⟩ }
  | nextSegment => simpa only [bufferingStep, hpc] using h
  | stopped => simpa only [bufferingStep, hpc] using h

/-! ## The download thread -/

/-- a thread that is through, or was never there, counts no more -/
theorem threadStep_settled (r : ReadResult) (h : Settled c.thread) :
    Settled (threadStep .external r c).thread ∧ (threadStep .external r c).bytesDownloaded = c.bytesDownloaded := by
  rcases h with hpc | hpc | hpc
  all_goals simp [threadStep, hpc, Settled]

/-- the starter is not the thread's -/
theorem threadStep_starter (r : ReadResult) (c : Chunk.St) : (threadStep .external r c).starter = c.starter := by
  unfold threadStep
  split <;> try rfl
  unfold readStep
  simp only
  split_ifs <;> rfl

/-- only counted bytes are counted -/
theorem threadStep_bytesDownloaded (r : ReadResult) (hne : ∀ ret, c.thread ≠ .notifyRate ret) :
    (threadStep .external r c).bytesDownloaded = c.bytesDownloaded := by
  unfold threadStep
  split <;> try rfl
  · unfold readStep
    simp only
    split_ifs <;> rfl
  · next ret hpc => exact absurd hpc (hne ret)

/-- a move of the thread, with what the observer knows of it -/
theorem MediaInv.of_download (h : MediaInv s) (r : ReadResult)
    (hsegment : s'.segment = threadStep .external r s.segment) (hattached : s'.attached = s.attached)
    (hbuffering : s'.buffering = s.buffering) (hlength : s'.segmentLength = s.segmentLength) (htold : Told s → Told s')
    (hsize : s'.size = UInt32.ofNat s'.segment.bytesDownloaded) : MediaInv s' := by
  have hstarter : s'.segment.starter = s.segment.starter := by rw [hsegment, threadStep_starter]
  have hsettled : s.Returned → Settled s'.segment.thread ∧ s'.size = s.size := by
    intro hreturned
    obtain ⟨hthread, hbytes⟩ := threadStep_settled r (h.returned hreturned)
    rw [hsize, h.size, hsegment, hbytes]
    exact ⟨hthread, rfl⟩
  have hreturned : s'.Returned ↔ s.Returned := by rw [Returned, hbuffering, Returned]
  constructor
  · rw [hsegment]
    exact thread_segmentInv r h.segment
  · rw [hbuffering, hattached]
    exact h.attached
  · rw [hbuffering, hstarter]
    exact h.attach
  · rw [hbuffering, hstarter]
    exact h.started
  · rw [hstarter]
    exact fun hset => htold (h.told hset)
  · exact hsize
  · exact fun hret => (hsettled (hreturned.1 hret)).1
  · rw [hlength, hbuffering]
    intro n hn
    obtain ⟨hnext, rfl⟩ := h.measured n hn
    exact ⟨hnext, (hsettled (Or.inr hnext)).2.symm⟩

theorem downloadStep_mediaInv (r : ReadResult) (h : MediaInv s) : MediaInv (downloadStep r s) := by
  -- a created thread has an observer
  have hattached : s.segment.thread ≠ .unborn → s.attached = true := by
    intro hborn
    refine h.attached fun hattach => hborn (h.segment.unborn (Or.inl (h.attach hattach)))
  -- a move that tells nothing
  have hquiet : (∀ ret, s.segment.thread ≠ .notifyRate ret) →
      MediaInv { s with segment := threadStep .external r s.segment } := by
    intro hne
    refine h.of_download r rfl rfl rfl rfl ?_ ?_
    · rintro (hprogress | ⟨hcompleted, hthread⟩)
      · exact Or.inl hprogress
      · refine Or.inr ⟨hcompleted, Or.inr ?_⟩
        rcases hthread with hpc | hpc <;> simp [threadStep, hpc]
    · simp only [threadStep_bytesDownloaded r hne]
      exact h.size
  cases hpc : s.segment.thread with
  | notifyRate ret =>
    have hobserved := hattached (by simp [hpc])
    simp only [downloadStep, Chunk.step, hpc, onDownloadRateChanged, hobserved, if_true]
    refine h.of_download r rfl hobserved.symm rfl rfl ?_ rfl
    rintro (hprogress | ⟨-, hthread⟩)
    · exact Or.inl hprogress
    · simp [hpc] at hthread
  | lastSet state =>
    have hobserved := hattached (by simp [hpc])
    obtain rfl := h.segment.lastSet state hpc
    simp only [downloadStep, Chunk.step, hpc, onDownloadStateChanged, hobserved, if_true]
    refine h.of_download r rfl hobserved.symm rfl rfl (fun _ => Or.inr ⟨rfl, Or.inl ?_⟩) ?_
    · simp [threadStep, hpc]
    · simp only [threadStep_bytesDownloaded r (c := s.segment) (by simp [hpc])]
      exact h.size
  | unborn | read | pushBack | loopCheck | lastCheck | setEOS | finished | crashed =>
    simp only [downloadStep, Chunk.step, hpc]
    exact hquiet (by simp [hpc])

theorem step_mediaInv (s : MediaDownload) (o : Op) (h : MediaInv s) : MediaInv (step s o) := by
  cases o with
  | buffering created accepted => exact bufferingStep_mediaInv created accepted h
  | download r => exact downloadStep_mediaInv r h
  | reader len =>
    obtain ⟨-, -, h3, h4, -⟩ := readerStep_frame s.segment len
    have h8 := readerStep_bytesDownloaded s.segment len
    refine { h with
      segment := reader_segmentInv len h.segment
      attach := ?_
      started := ?_
      told := ?_
      size := ?_
      returned := ?_ }
    · simp only [step, Chunk.step, h3]
      exact h.attach
    · simp only [step, Chunk.step, h3]
      exact h.started
    · simp only [step, Chunk.step, h3, Told, h4]
      exact h.told
    · simp only [step, Chunk.step, h8]
      exact h.size
    · simp only [step, Chunk.step, h4]
      exact h.returned

/-! ## The size -/

/-- **The size of a segment.** In every interleaving without an abort, once `WaitFinished` has returned, the size is the
number of bytes that the connection has returned, in 32 bits, these bytes are all pushed, and the throughput is measured
with this size. -/
theorem size_of_returned (state : Option DownloadState) (ops : List Op)
    (hreturned : (run step (init state) ops).Returned) :
    (run step (init state) ops).getMediaSize.toNat = (run step (init state) ops).segment.produced.length % 2 ^ 32 ∧
      (run step (init state) ops).segment.pushed = (run step (init state) ops).segment.produced ∧
      ∀ n ∈ (run step (init state) ops).segmentLength, n = (run step (init state) ops).getMediaSize := by
  have hinv := run_inv' step step_mediaInv (mediaInv_init state) ops
  obtain ⟨hpushed, hbytes⟩ := hinv.segment.settled (hinv.returned hreturned)
  refine ⟨?_, hpushed, fun n hn => (hinv.measured n hn).2⟩
  calc (run step (init state) ops).getMediaSize.toNat
      = (UInt32.ofNat (run step (init state) ops).segment.bytesDownloaded).toNat := by rw [getMediaSize, hinv.size]
    _ = (run step (init state) ops).segment.bytesDownloaded % 2 ^ 32 := UInt32.toNat_ofNat'
    _ = (run step (init state) ops).segment.produced.length % 2 ^ 32 := by rw [hbytes]

/-- two reads of a byte each; the memory of the object held COMPLETED -/
def twoReads : List Op :=
  List.replicate 5 (Op.buffering true true) ++ List.replicate 4 (Op.download (.ofBytes [1])) ++
    [Op.buffering true true] ++ List.replicate 4 (Op.download (.ofBytes [2])) ++ [Op.buffering true true] ++
    List.replicate 5 (Op.download (.ofBytes [])) ++ [Op.buffering true true, Op.buffering true true]

theorem size_of_twoReads :
    (run step (init (some .completed)) twoReads).segmentLength = some 2 ∧
      (run step (init (some .completed)) twoReads).getMediaSize.toNat =
        (run step (init (some .completed)) twoReads).segment.produced.length % 2 ^ 32 ∧
      (run step (init (some .completed)) twoReads).segment.pushed =
        (run step (init (some .completed)) twoReads).segment.produced ∧
      ∀ n ∈ (run step (init (some .completed)) twoReads).segmentLength,
        n = (run step (init (some .completed)) twoReads).getMediaSize :=
  ⟨by decide, size_of_returned (some .completed) twoReads (by decide)⟩

end MediaDownload

end NdnDash.Player
