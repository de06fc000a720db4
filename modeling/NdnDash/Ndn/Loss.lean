/-
Timeouts and the download thread: which loss patterns let a chunk be COMPLETED without being whole.

The machine is the chunk's download thread with the reader, the thread reading from an `NDNConnection` after
`PreDownload` (`move`); nobody aborts.

- `pushed_of_completed`, `reaches_completed`: the thread always gets to COMPLETED, and has then pushed exactly what the
  connection had received.
- `whole_iff`: a download of `F` under a pattern of timeouts never reports COMPLETED for less than `F`, and never places
  a packet at a lost packet's offset, exactly when `F` is empty, or fits into the client's buffer and neither the number
  request nor a packet request timed out.

Witness: `lost_packet_completes` (one packet, lost: COMPLETED with no bytes).
-/
import NdnDash.Ndn.Transfer
import NdnDash.Network.Delivery

namespace NdnDash.Ndn

open NdnDash.Machine NdnDash.Slices NdnDash.Das NdnDash.Chunk

/-! ## The thread on an NDN connection -/

/-- `AbstractChunk::BLOCKSIZE` -/
def blockSize : ℕ := 32768

inductive Move where
  | thread
  | reader (len : ℕ)
deriving DecidableEq, Repr

/-- a move of the thread; before it has read, `connection->Read` fills its block -/
def threadMove (s : St × Consumer) : St × Consumer :=
  match s.1.thread with
  | .read => (step .external s.1 (.thread (s.2.read blockSize).1), (s.2.read blockSize).2)
  | _ => (step .external s.1 (.thread (.ofBytes [])), s.2)

def move (s : St × Consumer) : Move → St × Consumer
  | .thread => threadMove s
  | .reader len => (step .external s.1 (.reader len), s.2)

/-- `StartDownload` has returned true and the thread has not moved -/
def started : St := run (step .external) init (List.replicate 4 (.start true))

/-- where the thread can be, with the state it implies and what is left to read -/
def Place (state : DownloadState) (pending : Bytes) : ThreadPc → Prop
  | .unborn | .crashed => False
  | .read => state = .inProgress
  | .pushBack block => state = .inProgress ∧ block ≠ []
  | .notifyRate ret => state = .inProgress ∧ ret ≠ 0
  | .loopCheck ret => state = .inProgress ∧ (ret = 0 → pending = [])
  | .lastCheck => state = .inProgress ∧ pending = []
  | .lastSet d => state = .inProgress ∧ pending = [] ∧ d = .completed
  | .setEOS | .finished => state = .completed ∧ pending = []

/-- invariant: what has been pushed, is in hand, or is not read yet, is what the connection had received -/
structure WholeInv (bytes : Bytes) (s : St × Consumer) : Prop where
  conn : s.1.connection = true
  cursor : s.2.CursorOk
  bytes : s.1.pushed ++ s.1.thread.inHand ++ s.2.pending = bytes
  place : Place s.1.stateManager.state s.2.pending s.1.thread

theorem wholeInv_started {c : Consumer} (hc : c.CursorOk) : WholeInv c.pending (started, c) :=
  ⟨rfl, hc, rfl, rfl⟩

variable {bytes : Bytes} {s : St × Consumer}

theorem read_wholeInv (h : WholeInv bytes s) (hpc : s.1.thread = .read) : WholeInv bytes (threadMove s) := by
  obtain ⟨hr, hcursor, hpending⟩ := Consumer.read_spec h.cursor blockSize
  have hbytes := h.bytes
  have hplace := h.place
  simp only [hpc, ThreadPc.inHand, List.append_nil] at hbytes
  simp only [hpc, Place] at hplace
  simp only [threadMove, hpc, step, threadStep, readStep, h.conn, if_true, hr, ReadResult.ofBytes_ret,
    ReadResult.ofBytes_data]
  by_cases hnil : s.2.pending = []
  · refine ⟨rfl, hcursor, ?_, ?_⟩
    · simp [hnil, ThreadPc.inHand, hpending, ← hbytes]
    · simp [hnil, Place, hplace, hpending]
  · have hne : s.2.pending.take blockSize ≠ [] := by simp [hnil, blockSize]
    have hpos : (0 : ℤ) < (s.2.pending.take blockSize).length := by
      exact_mod_cast List.length_pos_of_ne_nil hne
    refine ⟨rfl, hcursor, ?_, ?_⟩
    · simp only [hpos, if_true, ThreadPc.inHand, hpending, List.append_assoc, List.take_append_drop, hbytes]
    · simp only [hpos, if_true, Place]
      exact ⟨hplace, hne⟩

theorem threadMove_wholeInv (h : WholeInv bytes s) : WholeInv bytes (threadMove s) := by
  have hbytes := h.bytes
  have hplace := h.place
  cases hpc : s.1.thread with
  | read => exact read_wholeInv h hpc
  | unborn => simp [hpc, Place] at hplace
  | crashed => simp [hpc, Place] at hplace
  | pushBack block =>
    simp only [hpc, Place, ThreadPc.inHand] at hbytes hplace
    simp only [threadMove, hpc, step, threadStep]
    exact ⟨h.conn, h.cursor, by simpa [ThreadPc.inHand] using hbytes, hplace.1, by simpa using hplace.2⟩
  | notifyRate ret =>
    simp only [hpc, Place, ThreadPc.inHand] at hbytes hplace
    simp only [threadMove, hpc, step, threadStep]
    exact ⟨h.conn, h.cursor, hbytes, hplace.1, fun h0 => absurd h0 hplace.2⟩
  | loopCheck ret =>
    simp only [hpc, Place, ThreadPc.inHand] at hbytes hplace
    simp only [threadMove, hpc, step, threadStep, hplace.1, reduceCtorEq, if_false]
    by_cases h0 : ret = 0
    · exact ⟨h.conn, h.cursor, by simpa [h0, ThreadPc.inHand] using hbytes, by simp [h0, Place, hplace]⟩
    · exact ⟨h.conn, h.cursor, by simpa [h0, ThreadPc.inHand] using hbytes, by simp [h0, Place, hplace]⟩
  | lastCheck =>
    simp only [hpc, Place, ThreadPc.inHand] at hbytes hplace
    simp only [threadMove, hpc, step, threadStep, hplace.1, reduceCtorEq, if_false]
    exact ⟨h.conn, h.cursor, hbytes, hplace.1, hplace.2, rfl⟩
  | lastSet d =>
    simp only [hpc, Place, ThreadPc.inHand] at hbytes hplace
    simp only [threadMove, hpc, step, threadStep, hplace.2.2]
    exact ⟨h.conn, h.cursor, hbytes, rfl, hplace.2.1⟩
  | setEOS =>
    simp only [hpc, Place, ThreadPc.inHand] at hbytes hplace
    simp only [threadMove, hpc, step, threadStep]
    exact ⟨h.conn, h.cursor, hbytes, hplace⟩
  | finished =>
    simp only [threadMove, hpc, step, threadStep]
    exact h

theorem move_wholeInv (s : St × Consumer) (m : Move) (h : WholeInv bytes s) : WholeInv bytes (move s m) := by
  cases m with
  | thread => exact threadMove_wholeInv h
  | reader len =>
    obtain ⟨h1, h2, -, h4, -, -, h7⟩ := readerStep_frame s.1 len
    constructor
    · exact h2.trans h.conn
    · exact h.cursor
    · simp only [move, step, h4, h7]
      exact h.bytes
    · simp only [move, step, h1, h4]
      exact h.place

/-- **COMPLETED means all that was received** -/
theorem pushed_of_completed (h : WholeInv bytes s) (hdone : s.1.stateManager.state = .completed) :
    s.1.pushed = bytes := by
  have hplace := h.place
  have hbytes := h.bytes
  rw [hdone] at hplace
  cases hpc : s.1.thread <;> simp_all [Place, ThreadPc.inHand]

/-! ## The thread gets there -/

/-- how far a place is from the writing of COMPLETED, with nothing more to read -/
def toGo : ThreadPc → ℕ
  | .pushBack _ => 7
  | .notifyRate _ => 6
  | .loopCheck ret => if ret = 0 then 3 else 5
  | .read => 4
  | .lastCheck => 2
  | .lastSet _ => 1
  | _ => 0

/-- every move of the thread brings it nearer -/
theorem threadMove_lt (h : WholeInv bytes s) (hdone : s.1.stateManager.state ≠ .completed) :
    4 * (threadMove s).2.pending.length + toGo (threadMove s).1.thread < 4 * s.2.pending.length + toGo s.1.thread := by
  have hplace := h.place
  cases hpc : s.1.thread with
  | read =>
    obtain ⟨hr, -, hpending⟩ := Consumer.read_spec h.cursor blockSize
    simp only [threadMove, hpc, step, threadStep, readStep, h.conn, if_true, hr, ReadResult.ofBytes_ret, hpending,
      List.length_drop, List.length_take]
    by_cases hnil : s.2.pending = []
    · simp [hnil, toGo]
    · have hlen := List.length_pos_of_ne_nil hnil
      have hpos : (0 : ℤ) < (min blockSize s.2.pending.length : ℕ) := by
        simp only [blockSize]
        omega
      rw [if_pos hpos]
      simp only [toGo, blockSize]
      omega
  | unborn => simp [hpc, Place] at hplace
  | crashed => simp [hpc, Place] at hplace
  | setEOS =>
    rw [hpc] at hplace
    exact absurd hplace.1 hdone
  | finished =>
    rw [hpc] at hplace
    exact absurd hplace.1 hdone
  | pushBack block =>
    simp only [threadMove, hpc, step, threadStep, toGo]
    omega
  | notifyRate ret =>
    simp only [hpc, Place] at hplace
    simp only [threadMove, hpc, step, threadStep, toGo, hplace.2, if_false]
    omega
  | loopCheck ret =>
    simp only [hpc, Place] at hplace
    simp only [threadMove, hpc, step, threadStep, hplace.1, reduceCtorEq, if_false]
    by_cases h0 : ret = 0 <;> simp [h0, toGo]
  | lastCheck =>
    simp only [threadMove, hpc, step, threadStep, toGo]
    omega
  | lastSet d =>
    simp only [threadMove, hpc, step, threadStep, toGo]
    omega

/-- **The thread always gets to COMPLETED.** -/
theorem reaches_completed (h : WholeInv bytes s) :
    ∃ n, (run move s (List.replicate n .thread)).1.stateManager.state = .completed := by
  have hstep : ∀ s, WholeInv bytes s → ¬ s.1.stateManager.state = .completed →
      WholeInv bytes (move s .thread) ∧
        4 * (move s .thread).2.pending.length + toGo (move s .thread).1.thread <
          4 * s.2.pending.length + toGo s.1.thread :=
    fun s hs hdone => ⟨threadMove_wholeInv hs, threadMove_lt hs hdone⟩
  exact run_reaches move (fun s => 4 * s.2.pending.length + toGo s.1.thread) .thread hstep h

/-- what is pushed when the state becomes COMPLETED is always `F` exactly when `F` was received -/
theorem completed_iff {c : Consumer} (hc : c.CursorOk) (F : Bytes) :
    (∀ moves, (run move (started, c) moves).1.stateManager.state = .completed →
      (run move (started, c) moves).1.pushed = F) ↔ c.pending = F := by
  constructor
  · intro h
    obtain ⟨n, hn⟩ := reaches_completed (wholeInv_started hc)
    have hinv := run_inv' move move_wholeInv (wholeInv_started hc) (List.replicate n .thread)
    rw [← pushed_of_completed hinv hn, h _ hn]
  · intro hF moves hdone
    rw [← hF]
    exact pushed_of_completed (run_inv' move move_wholeInv (wholeInv_started hc) moves) hdone

/-! ## Which timeouts are harmless -/

/-- no packet that arrived after a lost one was placed at the lost packet's offset -/
def NotShifted (fate : Request → Fate) (srv : Server) (name : Str) (c : Consumer) : Prop :=
  ∀ s₀, getRequestNumber (lossy fate) name (c.resetSegBuffer, srv) = some s₀ → ∀ i j, i < j → j < s₀.1.segNumber →
    fate (.data name i) ≠ .answered → fate (.data name j) = .answered →
      ∀ s, requestLoop (lossy fate) name j s₀ = some s → s.1.validateBufferSize ≠ packetSegSize * i

/-- the download stays within the client's buffers, no run of the thread reports COMPLETED for anything but `F`, and no
packet takes a lost packet's place -/
def Whole (fate : Request → Fate) (srv : Server) (absoluteURI name : Str) (c : Consumer) (F : Bytes) : Prop :=
  (∃ s, preDownload (lossy fate) absoluteURI (c, srv) = some s ∧
    ∀ moves, (run move (started, s.1) moves).1.stateManager.state = .completed →
      (run move (started, s.1) moves).1.pushed = F) ∧ NotShifted fate srv name c

/-- the file is empty, or it fits into the client's buffer and no request timed out -/
def NothingLost (fate : Request → Fate) (name : Str) (F : Bytes) : Prop :=
  F = [] ∨ F.length ≤ segBufferSize ∧ fate (.number name) = .answered ∧
    ∀ i, i < packets packetSegSize F.length → fate (.data name i) = .answered

variable {srv : Server} {absoluteURI name : Str} {F : Bytes} {fate : Request → Fate}

theorem length_received (fate : Request → Fate) (name : Str) (F : Bytes) {k : ℕ}
    (hk : k ≤ packets packetSegSize F.length) :
    (received (reply fate name F) k).length ≤ (F.take (packetSegSize * k)).length ∧
      ((∃ i, i < k ∧ fate (.data name i) ≠ .answered) →
        (received (reply fate name F) k).length < (F.take (packetSegSize * k)).length) := by
  induction k with
  | zero => exact ⟨by simp, by simp⟩
  | succ k ih =>
    obtain ⟨hle, hlt⟩ := ih (by omega)
    have hpos : 0 < (slice packetSegSize k F).length := by
      have := (lt_packets (by decide)).1 (Nat.lt_of_succ_le hk)
      rw [length_slice]
      simp only [packetSegSize] at *
      omega
    rw [received_succ, take_succ_slice, List.length_append, List.length_append, reply]
    by_cases hfate : fate (.data name k) = .answered
    · rw [if_pos hfate, Option.getD_some]
      refine ⟨by omega, ?_⟩
      intro hex
      obtain ⟨i, hi, hlost⟩ := hex
      have hik : i < k := by
        rcases Nat.lt_succ_iff_lt_or_eq.1 hi with h | h
        · exact h
        · exact absurd (h ▸ hfate) hlost
      have := hlt ⟨i, hik, hlost⟩
      omega
    · rw [if_neg hfate, Option.getD_none, List.length_nil]
      exact ⟨by omega, fun _ => by omega⟩

theorem received_eq_iff (fate : Request → Fate) (name : Str) (F : Bytes) :
    received (reply fate name F) (packets packetSegSize F.length) = F ↔
      ∀ i, i < packets packetSegSize F.length → fate (.data name i) = .answered := by
  have hall : F.take (packetSegSize * packets packetSegSize F.length) = F :=
    List.take_of_length_le ((packets_le (by decide)).1 le_rfl)
  constructor
  · intro h i hi
    by_contra hlost
    have hlt := (length_received fate name F le_rfl).2 ⟨i, hi, hlost⟩
    rw [h, hall] at hlt
    exact lt_irrefl _ hlt
  · intro h
    rw [received_answered fate name F h, hall]

theorem preDownload_lossy (huri : chunkName absoluteURI = some name) (hF : srv.file name = some F)
    (hlen : F.length ≤ segBufferSize) (fate : Request → Fate) (c : Consumer) :
    ∃ s, preDownload (lossy fate) absoluteURI (c, srv) = some s ∧
      Filled s.1 (received (reply fate name F) (announced fate name F)) := by
  obtain ⟨s₀, hnumber, hfill, hfile, hsegs⟩ := getRequestNumber_lossy hF fate c
  have hk := announced_le fate name F
  have hfits : (received (reply fate name F) (announced fate name F)).length ≤ segBufferSize :=
    (length_received fate name F hk).1.trans ((List.length_take_le' _ _).trans hlen)
  obtain ⟨s, hs, hsfill, -⟩ := requestLoop_lossy hlen fate hfill hfile hk hfits
  refine ⟨s, ?_, hsfill⟩
  simp only [preDownload, huri, Option.bind_some, hnumber, hsegs, hs]

/-- what the connection has received fits into its buffer, whatever the file -/
theorem preDownload_filled (huri : chunkName absoluteURI = some name) (hF : srv.file name = some F)
    (fate : Request → Fate) (c : Consumer) {s : Consumer × Server}
    (h : preDownload (lossy fate) absoluteURI (c, srv) = some s) : ∃ bytes, Filled s.1 bytes := by
  obtain ⟨s₀, hnumber, hfill, -⟩ := getRequestNumber_lossy hF fate c
  simp only [preDownload, huri, Option.bind_some, hnumber] at h
  exact requestLoop_filled h hfill

theorem notShifted_of_nothingLost (hF : srv.file name = some F) (h : NothingLost fate name F) (c : Consumer) :
    NotShifted fate srv name c := by
  intro s₀ hs₀ i j hij hj hlost
  obtain ⟨s₁, hnumber, -, -, hsegs⟩ := getRequestNumber_lossy hF fate c
  rw [hs₀, Option.some.injEq] at hnumber
  rw [hnumber, hsegs] at hj
  have hj' := hj.trans_le (announced_le fate name F)
  rcases h with rfl | ⟨-, -, hall⟩
  · exact absurd ((lt_packets (by decide)).1 hj') (Nat.not_lt_zero _)
  · exact absurd (hall i (hij.trans hj')) hlost

/-- **COMPLETED means whole, exactly when nothing is lost.** -/
theorem whole_iff (huri : chunkName absoluteURI = some name) (hF : srv.file name = some F) (fate : Request → Fate)
    (c : Consumer) : Whole fate srv absoluteURI name c F ↔ NothingLost fate name F := by
  constructor
  · intro hwhole
    obtain ⟨⟨s, hs, hruns⟩, -⟩ := hwhole
    obtain ⟨bytes, hfill⟩ := preDownload_filled huri hF fate c hs
    have hF' := (completed_iff hfill.cursorOk F).1 hruns
    rw [hfill.pending] at hF'
    have hlen : F.length ≤ segBufferSize := hF' ▸ hfill.fits
    obtain ⟨s', hs', hfill'⟩ := preDownload_lossy huri hF hlen fate c
    rw [hs, Option.some.injEq] at hs'
    rw [← hs'] at hfill'
    have hrec : received (reply fate name F) (announced fate name F) = F := by
      rw [← hfill'.pending, hfill.pending, hF']
    by_cases hnumber : fate (.number name) = .answered
    · rw [announced, if_pos hnumber, received_eq_iff] at hrec
      exact Or.inr ⟨hlen, hnumber, hrec⟩
    · rw [announced, if_neg hnumber] at hrec
      exact Or.inl hrec.symm
  · intro h
    have hlen : F.length ≤ segBufferSize := by
      rcases h with rfl | h
      · exact Nat.zero_le _
      · exact h.1
    obtain ⟨s, hs, hfill⟩ := preDownload_lossy huri hF hlen fate c
    have hrec : received (reply fate name F) (announced fate name F) = F := by
      rcases h with rfl | ⟨-, hnumber, hall⟩
      · have h0 : announced fate name [] = 0 := Nat.le_zero.1 (announced_le fate name [])
        rw [h0, received_zero]
      · rw [announced, if_pos hnumber, received_eq_iff]
        exact hall
    refine ⟨⟨s, hs, (completed_iff hfill.cursorOk F).2 ?_⟩, notShifted_of_nothingLost hF h c⟩
    rw [hfill.pending, hrec]

/-- the one packet of the three-byte file is lost -/
def packetLost : Request → Fate
  | .number _ => .answered
  | .data _ _ => .interestLost

/-- with every request answered the three bytes arrive -/
theorem whole_three_bytes :
    Whole (fun _ => .answered) smallServer "http://h/BigBuckBunny/a".toList ['a'] freshConsumer [1, 2, 3] :=
  (whole_iff (by decide) (by decide) _ freshConsumer).2 (Or.inr ⟨by decide, rfl, fun _ _ => rfl⟩)

/-- the download goes through with nothing received, and the thread reports COMPLETED with nothing pushed -/
theorem lost_packet_completes :
    (preDownload (lossy packetLost) "http://h/BigBuckBunny/a".toList (freshConsumer, smallServer)).map
      (fun s => (((run move (started, s.1) (List.replicate 4 .thread)).1.stateManager.state,
        (run move (started, s.1) (List.replicate 4 .thread)).1.pushed))) = some (.completed, []) ∧
      smallServer.file ['a'] = some [1, 2, 3] := by
  decide

end NdnDash.Ndn
