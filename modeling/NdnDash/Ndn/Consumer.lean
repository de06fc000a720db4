/-
Model of the NDN client of a download: `NdnDashConsumer` (`dash-consumer.cpp`) and `NDNConnection`.

The network is a parameter `ask` over its own state: it gets a request and replies with the content of the Data packet
or, when the Interest times out, with nothing. `none` as the result of a client function is undefined behaviour or an
exception that leaves `PreDownload`: a Data packet copied past the end of `m_segBuffer` or of `m_nSegNumber`, and a URI
too short for the `substr` call.

- `requestLoop_spec`, `requestLoop_of_fits`: the packet loop leaves in the buffer what was received, in order and without
  gaps, exactly when that fits.
- `readBlock_handsOut`: `Read` hands out what is in the buffer and not yet read.
-/
import NdnDash.Core.Bytes
import NdnDash.Core.Drain
import NdnDash.Core.Memory
import NdnDash.Core.Text
import NdnDash.Network.Chunk

namespace NdnDash.Ndn

open NdnDash.Text NdnDash.Chunk

/-! ## Requests -/

inductive Request where
  | number (segmentChunkName : Str)
  | data (segmentChunkName : Str) (segIndex : ℕ)
deriving DecidableEq, Repr

/-- the Interest name -/
def Request.segName : Request → Str
  | .number segmentChunkName => "/ustc/ndnDash/requestNumber/".toList ++ segmentChunkName
  | .data segmentChunkName segIndex =>
    "/ustc/ndnDash/requestData/".toList ++ (segmentChunkName ++ '/' :: decimal segIndex)

/-! ## The consumer -/

/-- `sizeof(m_segBuffer)` -/
def segBufferSize : ℕ := 4 * 1024 * 1024

/-- `NdnDashConsumer`; the addresses of `segBuffer` past `segBufferSize` are not its own -/
structure Consumer where
  segBuffer : ℕ → UInt8
  validateBufferSize : ℕ
  readBufferSize : ℕ
  segNumber : ℕ

namespace Consumer

/-- `memcpy` over the 8 bytes of `m_nSegNumber` -/
def onRequestNumberArrive (c : Consumer) (content : Bytes) : Option Consumer :=
  if content.length ≤ 8 then
    some { c with segNumber := leValue (content ++ (leBytes 8 c.segNumber).drop content.length) }
  else none

def onRequestNumberTimeout (c : Consumer) : Consumer := { c with segNumber := 0 }

def onRequestDataArrive (c : Consumer) (content : Bytes) : Option Consumer :=
  if c.validateBufferSize + content.length ≤ segBufferSize then
    some { c with
      segBuffer := Memory.write c.segBuffer c.validateBufferSize content
      validateBufferSize := c.validateBufferSize + content.length }
  else none

/-- only logs -/
def onRequsetDataTimeout (c : Consumer) : Consumer := c

/-- the `MAX_SEG_SIZE` of `dash-consumer.cpp` is half the buffer's -/
def resetSegBuffer (c : Consumer) : Consumer :=
  { c with
    validateBufferSize := 0
    readBufferSize := 0
    segBuffer := fun i => if i < 2 * 1024 * 1024 then 0 else c.segBuffer i }

/-- `NDNConnection::Read`; the cursor never passes the append offset, so the difference does not wrap -/
def read (c : Consumer) (len : ℕ) : ReadResult × Consumer :=
  if c.validateBufferSize = c.readBufferSize then (.ofBytes [], c)
  else
    let readLen := if len < c.validateBufferSize - c.readBufferSize then len else c.validateBufferSize - c.readBufferSize
    (.ofBytes (Memory.read c.segBuffer c.readBufferSize readLen),
      { c with readBufferSize := c.readBufferSize + readLen })

/-- the bytes received and not yet read -/
def pending (c : Consumer) : Bytes :=
  Memory.read c.segBuffer c.readBufferSize (c.validateBufferSize - c.readBufferSize)

/-- the read cursor has not passed the append offset -/
def CursorOk (c : Consumer) : Prop := c.readBufferSize ≤ c.validateBufferSize

/-- one `Read`: the next pending bytes, as many as asked for and there -/
theorem read_spec {c : Consumer} (hc : c.CursorOk) (len : ℕ) :
    (c.read len).1 = .ofBytes (c.pending.take len) ∧ (c.read len).2.CursorOk ∧
      (c.read len).2.pending = c.pending.drop len := by
  unfold CursorOk at hc
  simp only [read, pending]
  split_ifs with h0 hlt
  · rw [h0]
    exact ⟨by simp, hc, by simp⟩
  · refine ⟨?_, ?_, ?_⟩
    · rw [Memory.take_read, min_eq_left hlt.le]
    · simp only [CursorOk]
      omega
    · rw [Memory.drop_read _ _ _ _ hlt.le, Nat.sub_add_eq]
  · have hle : c.validateBufferSize - c.readBufferSize ≤ len := not_lt.1 hlt
    have hend : c.readBufferSize + (c.validateBufferSize - c.readBufferSize) = c.validateBufferSize := by omega
    refine ⟨?_, ?_, ?_⟩
    · rw [List.take_of_length_le (by simpa using hle)]
    · simp only [CursorOk]
      omega
    · rw [List.drop_of_length_le (by simpa using hle)]
      simp [hend]

/-- `Read` as a source of blocks -/
def readBlock (c : Consumer) (len : ℕ) : Option (Bytes × Consumer) := some ((c.read len).1.data, (c.read len).2)

/-- reads of positive lengths hand out what is pending -/
theorem readBlock_handsOut :
    Drain.HandsOut readBlock (fun c lens => c.CursorOk ∧ ∀ n, 0 < lens n) (fun c _ => c.pending) := by
  intro c lens h
  obtain ⟨hc, hlens⟩ := h
  obtain ⟨hr, hok, hp⟩ := read_spec hc (lens 0)
  exact ⟨lens 0, (c.read (lens 0)).2, hlens 0, by rw [readBlock, hr, ReadResult.ofBytes_data],
    ⟨hok, fun n => hlens (n + 1)⟩, hp⟩

end Consumer

/-! ## The download -/

section Download

variable {ε : Type} (ask : ε → Request → Option Bytes × ε)

/-- sends the number request and processes events until its Data or its timeout -/
def getRequestNumber (segmentChunkName : Str) (s : Consumer × ε) : Option (Consumer × ε) :=
  match ask s.2 (.number segmentChunkName) with
  | (some content, e) => (s.1.onRequestNumberArrive content).map (·, e)
  | (none, e) => some (s.1.onRequestNumberTimeout, e)

/-- sends the request for one packet and processes events until its Data or its timeout -/
def getRequestData (segmentChunkName : Str) (segIndex : ℕ) (s : Consumer × ε) : Option (Consumer × ε) :=
  match ask s.2 (.data segmentChunkName segIndex) with
  | (some content, e) => (s.1.onRequestDataArrive content).map (·, e)
  | (none, e) => some (s.1.onRequsetDataTimeout, e)

/-- the first `i` turns of the packet loop -/
def requestLoop (chunkName : Str) : ℕ → Consumer × ε → Option (Consumer × ε)
  | 0, s => some s
  | i + 1, s => (requestLoop chunkName i s).bind (getRequestData ask chunkName i)

/-- the chunk name in a URI: the position is kept in an `int`, which `npos` makes -1, and `substr` throws for a start
past the end -/
def chunkName (absoluteURI : Str) : Option Str :=
  let pos : ℤ := match find "BigBuckBunny/".toList absoluteURI with
    | some p => toInt p
    | none => -1
  let start := ((pos + 13) % 2 ^ 64).toNat
  if start ≤ absoluteURI.length then
    some ((absoluteURI.drop start).take ((absoluteURI.length - pos - 4) % 2 ^ 64).toNat)
  else none

/-- `NDNConnection::PreDownload`. No packet callback changes the number, so the loop makes as many turns as announced. -/
def preDownload (absoluteURI : Str) (s : Consumer × ε) : Option (Consumer × ε) :=
  (chunkName absoluteURI).bind fun chunkName =>
    (getRequestNumber ask chunkName (s.1.resetSegBuffer, s.2)).bind fun s =>
      requestLoop ask chunkName s.1.segNumber s

/-! ## What the packet loop receives -/

/-- what the replies to the first `k` packet requests bring -/
def received (reply : ℕ → Option Bytes) (k : ℕ) : Bytes := (List.range k).flatMap fun i => (reply i).getD []

@[simp] theorem received_zero (reply : ℕ → Option Bytes) : received reply 0 = [] := rfl

theorem received_succ (reply : ℕ → Option Bytes) (k : ℕ) :
    received reply (k + 1) = received reply k ++ (reply k).getD [] := by
  simp [received, List.range_succ]

/-- the buffer holds exactly `bytes`, none of them read -/
structure Filled (c : Consumer) (bytes : Bytes) : Prop where
  validate : c.validateBufferSize = bytes.length
  read : c.readBufferSize = 0
  fits : bytes.length ≤ segBufferSize
  buffer : Memory.read c.segBuffer 0 bytes.length = bytes

theorem Filled.pending {c : Consumer} {bytes : Bytes} (h : Filled c bytes) : c.pending = bytes := by
  rw [Consumer.pending, h.validate, h.read]
  exact h.buffer

theorem Filled.cursorOk {c : Consumer} {bytes : Bytes} (h : Filled c bytes) : c.CursorOk := by
  rw [Consumer.CursorOk, h.read]
  exact Nat.zero_le _

theorem filled_resetSegBuffer (c : Consumer) : Filled c.resetSegBuffer [] :=
  ⟨rfl, rfl, Nat.zero_le _, rfl⟩

/-- a packet that fits is appended -/
theorem Filled.arrive {c : Consumer} {bytes : Bytes} (h : Filled c bytes) (content : Bytes) :
    c.onRequestDataArrive content = none ∧ segBufferSize < (bytes ++ content).length ∨
      ∃ c', c.onRequestDataArrive content = some c' ∧ Filled c' (bytes ++ content) ∧ c'.segNumber = c.segNumber := by
  unfold Consumer.onRequestDataArrive
  split_ifs with hfit
  · right
    refine ⟨_, rfl, ⟨?_, h.read, ?_, ?_⟩, rfl⟩
    · rw [h.validate, List.length_append]
    · rw [h.validate] at hfit
      rw [List.length_append]
      exact hfit
    · have hw := Memory.read_write_append c.segBuffer 0 bytes.length content
      rw [zero_add, h.buffer] at hw
      rw [List.length_append, h.validate, hw]
  · left
    rw [h.validate] at hfit
    rw [List.length_append]
    exact ⟨rfl, not_le.1 hfit⟩

/-- the network, in a state with `Ok`, gives the reply `reply i` to the request for packet `i` -/
def Replies (Ok : ε → Prop) (chunkName : Str) (reply : ℕ → Option Bytes) (k : ℕ) : Prop :=
  ∀ i, i < k → ∀ e, Ok e →
    (ask e (.data chunkName i)).1 = reply i ∧ Ok (ask e (.data chunkName i)).2

variable {ask} {Ok : ε → Prop} {chunkName : Str} {reply : ℕ → Option Bytes}

/-- one turn of the loop appends the reply, or overruns the buffer -/
theorem getRequestData_spec {i : ℕ} {e : ε} {content : Option Bytes} (hask : (ask e (.data chunkName i)).1 = content)
    {c : Consumer} {bytes : Bytes} (h : Filled c bytes) :
    getRequestData ask chunkName i (c, e) = none ∧ segBufferSize < (bytes ++ content.getD []).length ∨
      ∃ c', getRequestData ask chunkName i (c, e) = some (c', (ask e (.data chunkName i)).2) ∧
        Filled c' (bytes ++ content.getD []) ∧ c'.segNumber = c.segNumber := by
  unfold getRequestData
  generalize ask e (.data chunkName i) = answer at hask ⊢
  obtain ⟨content', e'⟩ := answer
  simp only at hask
  subst hask
  cases content' with
  | none =>
    right
    refine ⟨c, rfl, ?_, rfl⟩
    simpa using h
  | some content =>
    rcases h.arrive content with ⟨hnone, hover⟩ | ⟨c', hsome, hfill, hseg⟩
    · exact Or.inl ⟨by simp [hnone], hover⟩
    · exact Or.inr ⟨c', by simp [hsome], hfill, hseg⟩

/-- **The packet loop.** It overruns the buffer when the replies do not fit; else the buffer holds them in order. -/
theorem requestLoop_spec {k : ℕ} (hask : Replies ask Ok chunkName reply k) {s : Consumer × ε} (hs : Filled s.1 [])
    (he : Ok s.2) :
    requestLoop ask chunkName k s = none ∧ segBufferSize < (received reply k).length ∨
      ∃ s', requestLoop ask chunkName k s = some s' ∧ Filled s'.1 (received reply k) ∧
        s'.1.segNumber = s.1.segNumber ∧ Ok s'.2 := by
  induction k with
  | zero => exact Or.inr ⟨s, rfl, hs, rfl, he⟩
  | succ k ih =>
    have hk := ih fun i hi => hask i (Nat.lt_succ_of_lt hi)
    rw [requestLoop, received_succ]
    rcases hk with ⟨hnone, hover⟩ | ⟨s', hsome, hfill, hseg, hok⟩
    · refine Or.inl ⟨by rw [hnone]; rfl, ?_⟩
      rw [List.length_append]
      exact Nat.lt_add_right _ hover
    · obtain ⟨hreply, hok'⟩ := hask k (Nat.lt_succ_self k) s'.2 hok
      rw [hsome]
      rcases getRequestData_spec hreply hfill with ⟨hnone, hover⟩ | ⟨c', hc, hfill', hseg'⟩
      · exact Or.inl ⟨hnone, hover⟩
      · exact Or.inr ⟨_, hc, hfill', hseg'.trans hseg, hok'⟩

/-- whatever the network replies, the buffer keeps what has arrived, and it has fitted -/
theorem requestLoop_filled {k : ℕ} {s s' : Consumer × ε} (h : requestLoop ask chunkName k s = some s')
    (hs : Filled s.1 []) : ∃ bytes, Filled s'.1 bytes := by
  induction k generalizing s' with
  | zero =>
    rw [requestLoop, Option.some.injEq] at h
    exact ⟨[], h ▸ hs⟩
  | succ k ih =>
    obtain ⟨s₁, h₁, h₂⟩ := Option.bind_eq_some_iff.1 h
    obtain ⟨bytes, hfill⟩ := ih h₁
    rcases getRequestData_spec rfl hfill with
      ⟨hnone, -⟩ | ⟨c', hc, hfill', -⟩
    · rw [hnone] at h₂
      cases h₂
    · rw [hc, Option.some.injEq] at h₂
      rw [← h₂]
      exact ⟨_, hfill'⟩

/-- replies that fit are all taken -/
theorem requestLoop_of_fits {k : ℕ} (hask : Replies ask Ok chunkName reply k) {s : Consumer × ε} (hs : Filled s.1 [])
    (he : Ok s.2) (hfits : (received reply k).length ≤ segBufferSize) :
    ∃ s', requestLoop ask chunkName k s = some s' ∧ Filled s'.1 (received reply k) ∧ Ok s'.2 := by
  rcases requestLoop_spec hask hs he with ⟨-, hover⟩ | ⟨s', hsome, hfill, -, hok⟩
  · exact absurd hfits (not_le.2 hover)
  · exact ⟨s', hsome, hfill, hok⟩

end Download

end NdnDash.Ndn
