/-
Model of a chunk and its threads (`AbstractChunk.cpp`, `DownloadStateManager.cpp`).

The chunk's shared members are one state; the processes on it are the caller of `StartDownload`, the download thread it
creates, any number of `AbortDownload` callers, and the reader. A label of the machine names the process that moves,
with what it gets from outside (the thread's connection or libcurl, the result of thread creation, a read length). One
step is one critical section of the state manager or of the block stream, or one plain access to an unprotected member;
a label that is not enabled leaves the state as it is, so a list of labels is an interleaving.

Both download threads are covered by `Kind`: `external` reads from an `IConnection` (`DownloadExternalConnection`),
`internal` is driven by libcurl callbacks (`DownloadInternalConnection`, `CurlResponseCallback`).

`produced`, `pushed` and `returned` are history: the bytes the connection has handed over, those pushed into the block
stream, and those `Read` has returned.
-/
import NdnDash.Core.Machine
import NdnDash.Core.Narrowing
import NdnDash.Helpers.BlockStream

namespace NdnDash.Chunk

/-! ## State -/

/-- what `IConnection::Read` returns, with the bytes it has stored (none unless it returned a positive number) -/
structure ReadResult where
  ret : ℤ
  data : Bytes
  len_eq : data.length = ret.toNat
deriving DecidableEq, Repr

/-- a read that stored `data` -/
def ReadResult.ofBytes (data : Bytes) : ReadResult := ⟨data.length, data, by simp⟩

@[simp] theorem ReadResult.ofBytes_ret (data : Bytes) : (ReadResult.ofBytes data).ret = data.length := rfl

@[simp] theorem ReadResult.ofBytes_data (data : Bytes) : (ReadResult.ofBytes data).data = data := rfl

inductive DownloadState where
  | notStarted
  | inProgress
  | requestAbort
  | aborted
  | completed
deriving DecidableEq, Repr

/-- `DownloadStateManager`; `notified` is the state its observers were last told -/
structure DownloadStateManager where
  state : DownloadState
  notified : Option DownloadState
deriving DecidableEq, Repr

/-- `State(state)`: sets and notifies -/
def DownloadStateManager.setState (m : DownloadStateManager) (state : DownloadState) : DownloadStateManager :=
  { m with state := state, notified := some state }

/-- `CheckAndSet(check, set)`: sets without notifying -/
def DownloadStateManager.checkAndSet (m : DownloadStateManager) (check set : DownloadState) : DownloadStateManager :=
  if m.state = check then { m with state := set } else m

/-- which of the two download threads -/
inductive Kind where
  | external
  | internal
deriving DecidableEq, Repr

/-- where the `StartDownload` call stands -/
inductive StartPc where
  | checkState
  | createThread
  | setInProgress
  | setConnection
  | returned (ok : Bool)
deriving DecidableEq, Repr

/-- where the download thread stands -/
inductive ThreadPc where
  | unborn
  /-- before `connection->Read`, or inside `curl_easy_perform` -/
  | read
  | pushBack (block : Bytes)
  | notifyRate (ret : ℤ)
  /-- before the state is read at the end of the loop body -/
  | loopCheck (ret : ℤ)
  /-- before the final reading of the state -/
  | lastCheck
  | lastSet (state : DownloadState)
  | setEOS
  | finished
  /-- has called `Read` through the NULL connection -/
  | crashed
deriving DecidableEq, Repr

/-- where an `AbortDownload` call stands -/
inductive AbortPc where
  | checkAndSet
  | checkAndWait
  /-- asleep in `CheckAndWait` -/
  | waiting
  | returned
deriving DecidableEq, Repr

structure St where
  stateManager : DownloadStateManager
  /-- the connection member is no longer NULL -/
  connection : Bool
  blockStream : SyncedBlockStream
  bytesDownloaded : ℕ
  starter : StartPc
  thread : ThreadPc
  aborter : ℕ → AbortPc
  produced : Bytes
  pushed : Bytes
  returned : Bytes

/-- a constructed chunk, nobody inside -/
def init : St where
  stateManager := ⟨.notStarted, none⟩
  connection := false
  blockStream := { length := 0, blockqueue := [], eos := false }
  bytesDownloaded := 0
  starter := .checkState
  thread := .unborn
  aborter := fun _ => .checkAndSet
  produced := []
  pushed := []
  returned := []

/-! ## Steps -/

/-- the next step of `StartDownload`; `created`: the thread could be created -/
def startStep (kind : Kind) (created : Bool) (s : St) : St :=
  match s.starter with
  | .checkState =>
    { s with starter := if s.stateManager.state = .notStarted then .createThread else .returned false }
  | .createThread =>
    if created then { s with starter := .setInProgress, thread := .read } else { s with starter := .returned false }
  | .setInProgress =>
    { s with
      stateManager := s.stateManager.setState .inProgress
      starter := match kind with
        | .external => .setConnection
        | .internal => .returned true }
  | .setConnection => { s with connection := true, starter := .returned true }
  | .returned _ => s

/-- the body of the loop up to its first lock: `connection->Read`, or the next event of `curl_easy_perform` (a call of
`CurlResponseCallback` with data, or its return) -/
def readStep (kind : Kind) (r : ReadResult) (s : St) : St :=
  match kind with
  | .external =>
    if s.connection then
      { s with
        thread := if 0 < r.ret then .pushBack r.data else .loopCheck r.ret
        produced := s.produced ++ r.data }
    else { s with thread := .crashed }
  | .internal =>
    -- the callback's 0 for an abort request makes libcurl give up
    if 0 < r.ret ∧ s.stateManager.state ≠ .requestAbort then
      { s with thread := .pushBack r.data, produced := s.produced ++ r.data }
    else { s with thread := .lastCheck }

/-- the next step of the download thread; `r` is what its connection answers when it asks -/
def threadStep (kind : Kind) (r : ReadResult) (s : St) : St :=
  match s.thread with
  | .unborn | .finished | .crashed => s
  | .read => readStep kind r s
  | .pushBack block =>
    { s with
      blockStream := s.blockStream.pushBack block
      pushed := s.pushed ++ block
      thread := .notifyRate block.length }
  | .notifyRate ret =>
    { s with
      bytesDownloaded := s.bytesDownloaded + ret.toNat
      thread := match kind with
        | .external => .loopCheck ret
        | .internal => .read }
  | .loopCheck ret =>
    let ret := if s.stateManager.state = .requestAbort then 0 else ret
    { s with thread := if ret ≠ 0 then .read else .lastCheck }
  | .lastCheck =>
    { s with thread := .lastSet (if s.stateManager.state = .requestAbort then .aborted else .completed) }
  | .lastSet state => { s with stateManager := s.stateManager.setState state, thread := .setEOS }
  | .setEOS => { s with blockStream := s.blockStream.setEOS true, thread := .finished }

/-- the next step of `AbortDownload` call number `i` -/
def abortStep (i : ℕ) (s : St) : St :=
  match s.aborter i with
  | .checkAndSet =>
    { s with
      stateManager := s.stateManager.checkAndSet .inProgress .requestAbort
      aborter := Function.update s.aborter i .checkAndWait }
  | .checkAndWait =>
    { s with
      aborter := Function.update s.aborter i (if s.stateManager.state = .requestAbort then .waiting else .returned) }
  | .waiting =>
    if s.stateManager.state = .aborted then { s with aborter := Function.update s.aborter i .returned } else s
  | .returned => s

/-- `AbstractChunk::Read` on its stream: the result, the bytes it returns, the stream it leaves; `none` while it
sleeps -/
def read (b : SyncedBlockStream) (len : ℕ) : Option (ℤ × Bytes × SyncedBlockStream) :=
  if b.sleeps then none
  else (b.getBytes len).map fun r => (toInt r.1, r.2.1.take (toInt r.1).toNat, r.2.2)

/-- `AbstractChunk::Peek` at an offset: the result and the destination after it; `none` while it sleeps -/
def peek (b : SyncedBlockStream) (len offset : ℕ) (data : ℕ → UInt8) : Option (ℤ × (ℕ → UInt8)) :=
  if (b.length = 0 ∨ b.length ≤ offset) ∧ b.eos = false then none
  else (b.peekBytes len offset data).map fun r => (toInt r.1, r.2)

/-- the reader calls `Read` -/
def readerStep (len : ℕ) (s : St) : St :=
  match read s.blockStream len with
  | some (_, data, blockStream) => { s with blockStream := blockStream, returned := s.returned ++ data }
  | none => s

inductive Op where
  | start (created : Bool)
  | thread (r : ReadResult)
  | abort (i : ℕ)
  | reader (len : ℕ)

def step (kind : Kind) (s : St) : Op → St
  | .start created => startStep kind created s
  | .thread r => threadStep kind r s
  | .abort i => abortStep i s
  | .reader len => readerStep len s

/-! ## Facts about steps -/

/-- **A small read** returns the next bytes of the stream, as many as asked for and there. -/
theorem read_spec {b : SyncedBlockStream} (hb : b.Counted) {len : ℕ} (hlen : min len b.length < 2 ^ 31)
    (hawake : b.sleeps = false) :
    ∃ b' : SyncedBlockStream, read b len = some (((min len b.length : ℕ) : ℤ), b.content.take len, b') ∧
      b'.content = b.content.drop len ∧ b'.Counted ∧ b'.eos = b.eos := by
  obtain ⟨b', hg, hc, hb', he⟩ := SyncedBlockStream.getBytes_spec hb (by omega : min len b.length < 2 ^ 32)
  have hall : (b.content.take len).length ≤ min len b.length := by
    rw [List.length_take]
    exact le_of_eq (congrArg (min len ·) hb.symm)
  refine ⟨b', ?_, hc, hb', he⟩
  simp only [read, hawake, Bool.false_eq_true, if_false, hg, Option.map_some, toInt_of_lt hlen, Int.toNat_natCast,
    List.take_of_length_le hall]

/-- the reader touches the block stream only -/
theorem readerStep_frame (s : St) (len : ℕ) :
    (readerStep len s).stateManager = s.stateManager ∧ (readerStep len s).connection = s.connection ∧
      (readerStep len s).starter = s.starter ∧ (readerStep len s).thread = s.thread ∧
      (readerStep len s).aborter = s.aborter ∧ (readerStep len s).produced = s.produced ∧
      (readerStep len s).pushed = s.pushed := by
  unfold readerStep
  split <;> simp

theorem readerStep_bytesDownloaded (s : St) (len : ℕ) : (readerStep len s).bytesDownloaded = s.bytesDownloaded := by
  unfold readerStep
  split <;> rfl

/-- the end mark is not the reader's -/
theorem readerStep_eos (s : St) (len : ℕ) : (readerStep len s).blockStream.eos = s.blockStream.eos := by
  unfold readerStep
  split
  · next data b heq =>
    simp only [read, SyncedBlockStream.getBytes] at heq
    split_ifs at heq
    · simp only [Option.map_some, Option.some.injEq, Prod.mk.injEq] at heq
      rw [← heq.2.2]
    · simp only [Option.map_map, Option.map_eq_some_iff] at heq
      obtain ⟨r, -, hrb⟩ := heq
      simp only [Function.comp_apply, Prod.mk.injEq] at hrb
      rw [← hrb.2.2]
  · rfl

/-- an abort request touches the state only, and the places of the callers -/
theorem abortStep_frame (s : St) (i : ℕ) :
    (abortStep i s).connection = s.connection ∧ (abortStep i s).blockStream = s.blockStream ∧
      (abortStep i s).starter = s.starter ∧ (abortStep i s).thread = s.thread := by
  unfold abortStep
  split
  · simp
  · simp
  · split_ifs <;> simp
  · simp

/-- a positive read of a stored connection goes through the loop once and is queued as one block -/
theorem run_block {s : St} {r : ReadResult} (hpc : s.thread = .read) (hconn : s.connection = true)
    (hstate : s.stateManager.state ≠ .requestAbort) (hr : 0 < r.ret) :
    Machine.run (step .external) s (List.replicate 4 (.thread r)) =
      { s with
        blockStream := s.blockStream.pushBack r.data
        bytesDownloaded := s.bytesDownloaded + r.data.length
        produced := s.produced ++ r.data
        pushed := s.pushed ++ r.data } := by
  have hlen : 0 < r.data.length := by rw [r.len_eq]; omega
  have hne : r.data ≠ [] := List.ne_nil_of_length_pos hlen
  simp [Machine.run, step, threadStep, readStep, hpc, hconn, hstate, hr, hne]

end NdnDash.Chunk
