/-
The bytes of a chunk on their way from the connection to the reader, over every interleaving of the download thread,
the reader, the starter and the abort callers.

- `StreamInv`: the bytes produced are the bytes returned, then the queue, then the block the thread holds.
- `delivered_in_order`: along a run whose reads take less than 2^31 bytes each, the bytes returned are a prefix of the
  bytes produced, and a `Read` returns 0 only at the end of the stream with everything returned.

`Read` returns the `size_t` of the stream as an `int`, and the queue's loop takes its length as a `uint32_t`; witness
`four_gib_read`: with 2^32 bytes queued, a `Read` of 2^32 bytes returns 0.
-/
import NdnDash.Network.Chunk

namespace NdnDash.Chunk

open NdnDash.Machine

/-! ## The invariant -/

/-- the bytes the thread has read and not yet pushed -/
def ThreadPc.inHand : ThreadPc → Bytes
  | .pushBack block => block
  | _ => []

/-- invariant of runs with small reads -/
structure StreamInv (s : St) : Prop where
  born : s.thread ≠ .unborn → s.starter ≠ .checkState ∧ s.starter ≠ .createThread
  counted : s.blockStream.Counted
  bytes : s.produced = s.returned ++ s.blockStream.content ++ s.thread.inHand
  eos : s.blockStream.eos = true → s.thread = .finished

/-- the read takes less than 2^31 bytes out of the queue -/
def SmallRead (s : St) : Op → Prop
  | .reader len => min len s.blockStream.length < 2 ^ 31
  | _ => True

instance (s : St) : ∀ o, Decidable (SmallRead s o)
  | .reader len => inferInstanceAs (Decidable (min len s.blockStream.length < 2 ^ 31))
  | .start _ | .thread _ | .abort _ => .isTrue trivial

theorem streamInv_init : StreamInv init := by
  constructor <;> simp [init, BlockStream.Counted, BlockStream.content, ThreadPc.inHand]

/-- before the thread has finished there is no end mark -/
theorem StreamInv.not_eos {s : St} (h : StreamInv s) (hpc : s.thread ≠ .finished) : s.blockStream.eos ≠ true :=
  fun he => hpc (h.eos he)

/-! ## The starter and the abort callers -/

theorem startStep_streamInv (kind : Kind) (created : Bool) (s : St) (h : StreamInv s) :
    StreamInv (startStep kind created s) := by
  have hunborn : s.starter = .checkState ∨ s.starter = .createThread → s.thread = .unborn := by
    intro hpc
    by_contra hborn
    exact hpc.elim (h.born hborn).1 (h.born hborn).2
  cases hpc : s.starter with
  | checkState =>
    simp only [startStep, hpc]
    exact { h with born := fun hb => absurd (hunborn (Or.inl hpc)) hb }
  | createThread =>
    have hthread := hunborn (Or.inr hpc)
    simp only [startStep, hpc]
    split_ifs
    · refine ⟨by simp, h.counted, ?_, fun he => absurd he (h.not_eos (by simp [hthread]))⟩
      simpa [hthread, ThreadPc.inHand] using h.bytes
    · exact { h with born := by simp }
  | setInProgress =>
    simp only [startStep, hpc]
    exact { h with born := by cases kind <;> simp }
  | setConnection =>
    simp only [startStep, hpc]
    exact { h with born := by simp }
  | returned ok =>
    simp only [startStep, hpc]
    exact h

theorem abortStep_streamInv (i : ℕ) (s : St) (h : StreamInv s) : StreamInv (abortStep i s) := by
  cases hpc : s.aborter i with
  | checkAndSet =>
    simp only [abortStep, hpc]
    exact { h with }
  | checkAndWait =>
    simp only [abortStep, hpc]
    exact { h with }
  | waiting =>
    simp only [abortStep, hpc]
    split_ifs <;> exact { h with }
  | returned => simpa only [abortStep, hpc] using h

/-! ## The thread -/

/-- a move of the thread with no block in hand, before and after -/
theorem StreamInv.of_thread {s s' : St} (h : StreamInv s) (hborn : s.thread ≠ .unborn)
    (hend : s.thread ≠ .finished) (hhand : s.thread.inHand = []) (hhand' : s'.thread.inHand = [])
    (hstart : s'.starter = s.starter) (hstream : s'.blockStream = s.blockStream)
    (hproduced : s'.produced = s.produced) (hreturned : s'.returned = s.returned) : StreamInv s' := by
  constructor
  · rw [hstart]; exact fun _ => h.born hborn
  · rw [hstream]; exact h.counted
  · rw [hstream, hproduced, hreturned, hhand', ← hhand]; exact h.bytes
  · rw [hstream]; exact fun he => absurd he (h.not_eos hend)

/-- the thread takes a block from its connection -/
theorem StreamInv.of_read {s s' : St} (h : StreamInv s) (hpc : s.thread = .read) (data : Bytes)
    (hhand : s'.thread.inHand = data) (hstart : s'.starter = s.starter) (hstream : s'.blockStream = s.blockStream)
    (hproduced : s'.produced = s.produced ++ data) (hreturned : s'.returned = s.returned) : StreamInv s' := by
  constructor
  · rw [hstart]; exact fun _ => h.born (by simp [hpc])
  · rw [hstream]; exact h.counted
  · rw [hproduced, hstream, hreturned, hhand, h.bytes, hpc]
    simp [ThreadPc.inHand]
  · rw [hstream]; exact fun he => absurd he (h.not_eos (by simp [hpc]))

theorem readStep_streamInv (kind : Kind) (r : ReadResult) (s : St) (h : StreamInv s) (hpc : s.thread = .read) :
    StreamInv (readStep kind r s) := by
  have hborn : s.thread ≠ .unborn := by simp [hpc]
  have hend : s.thread ≠ .finished := by simp [hpc]
  have hhand : s.thread.inHand = [] := by simp [hpc, ThreadPc.inHand]
  cases kind with
  | external =>
    simp only [readStep]
    split_ifs with hconn hr
    · exact h.of_read hpc r.data rfl rfl rfl rfl rfl
    · have hnone : r.data = [] := List.eq_nil_of_length_eq_zero (by rw [r.len_eq]; omega)
      exact h.of_read hpc r.data hnone.symm rfl rfl rfl rfl
    · exact h.of_thread hborn hend hhand rfl rfl rfl rfl rfl
  | internal =>
    simp only [readStep]
    split_ifs
    · exact h.of_read hpc r.data rfl rfl rfl rfl rfl
    · exact h.of_thread hborn hend hhand rfl rfl rfl rfl rfl

theorem threadStep_streamInv (kind : Kind) (r : ReadResult) (s : St) (h : StreamInv s) :
    StreamInv (threadStep kind r s) := by
  cases hpc : s.thread with
  | unborn => simpa only [threadStep, hpc] using h
  | finished => simpa only [threadStep, hpc] using h
  | crashed => simpa only [threadStep, hpc] using h
  | read => simpa only [threadStep, hpc] using readStep_streamInv kind r s h hpc
  | pushBack block =>
    have hbytes := h.bytes
    simp only [hpc, ThreadPc.inHand] at hbytes
    simp only [threadStep, hpc]
    refine ⟨fun _ => h.born (by simp [hpc]), BlockStream.counted_pushBack h.counted block, ?_,
      fun he => absurd he (h.not_eos (by simp [hpc]))⟩
    simp only [ThreadPc.inHand, List.append_nil, hbytes, List.append_assoc]
    exact congrArg (s.returned ++ ·) (BlockStream.content_pushBack s.blockStream.toBlockStream block).symm
  | setEOS =>
    have hbytes := h.bytes
    simp only [hpc, ThreadPc.inHand] at hbytes
    simp only [threadStep, hpc]
    exact ⟨fun _ => h.born (by simp [hpc]), h.counted, hbytes, fun _ => rfl⟩
  | notifyRate ret =>
    simp only [threadStep, hpc]
    refine h.of_thread (by simp [hpc]) (by simp [hpc]) (by simp [hpc, ThreadPc.inHand]) ?_ rfl rfl rfl rfl
    cases kind <;> rfl
  | loopCheck ret =>
    simp only [threadStep, hpc]
    refine h.of_thread (by simp [hpc]) (by simp [hpc]) (by simp [hpc, ThreadPc.inHand]) ?_ rfl rfl rfl rfl
    generalize (if s.stateManager.state = .requestAbort then (0 : ℤ) else ret) = ret'
    simp only
    split_ifs <;> rfl
  | lastCheck =>
    simp only [threadStep, hpc]
    exact h.of_thread (by simp [hpc]) (by simp [hpc]) (by simp [hpc, ThreadPc.inHand]) rfl rfl rfl rfl rfl
  | lastSet state =>
    simp only [threadStep, hpc]
    exact h.of_thread (by simp [hpc]) (by simp [hpc]) (by simp [hpc, ThreadPc.inHand]) rfl rfl rfl rfl rfl

/-! ## The reader -/

theorem readerStep_streamInv (len : ℕ) (s : St) (h : StreamInv s) (hok : SmallRead s (.reader len)) :
    StreamInv (readerStep len s) := by
  cases hsleep : s.blockStream.sleeps with
  | true =>
    simp only [readerStep, read, hsleep, if_true]
    exact h
  | false =>
    obtain ⟨b, hr, hc, hb, he⟩ := read_spec h.counted hok hsleep
    simp only [readerStep, hr]
    refine ⟨h.born, hb, ?_, fun heos => h.eos (he ▸ heos)⟩
    simp only [hc, h.bytes]
    rw [List.append_assoc s.returned (List.take _ _), List.take_append_drop]

/-! ## Runs -/

theorem step_streamInv (kind : Kind) (s : St) (o : Op) (h : StreamInv s) (hok : SmallRead s o) :
    StreamInv (step kind s o) := by
  cases o with
  | start created => exact startStep_streamInv kind created s h
  | thread r => exact threadStep_streamInv kind r s h
  | abort i => exact abortStep_streamInv i s h
  | reader len => exact readerStep_streamInv len s h hok

/-- a small read of a positive length returns 0 only when everything has been returned -/
theorem StreamInv.read_zero {s : St} (h : StreamInv s) {len : ℕ} (hpos : 0 < len) (hok : SmallRead s (.reader len))
    {data : Bytes} {b : SyncedBlockStream} (hr : read s.blockStream len = some (0, data, b)) :
    s.blockStream.eos = true ∧ s.returned = s.produced := by
  have hawake : s.blockStream.sleeps = false := by
    rw [← Bool.not_eq_true]
    intro hsleep
    simp [read, hsleep] at hr
  obtain ⟨b', hr', -⟩ := read_spec h.counted hok hawake
  have hret : ((min len s.blockStream.length : ℕ) : ℤ) = 0 := by
    rw [hr, Option.some.injEq, Prod.mk.injEq] at hr'
    exact hr'.1.symm
  have hlen : s.blockStream.length = 0 := by omega
  have heos : s.blockStream.eos = true := by simpa [SyncedBlockStream.sleeps, hlen] using hawake
  have hnil : s.blockStream.content = [] := List.eq_nil_of_length_eq_zero (h.counted ▸ hlen)
  refine ⟨heos, ?_⟩
  rw [h.bytes, hnil, h.eos heos]
  simp [ThreadPc.inHand]

/-- **In order, without loss or duplication.** Along a run whose reads take less than 2^31 bytes each, what has been
returned is always a prefix of what was produced, and a `Read` of a positive length returns 0 only when the end of the
stream is set and every produced byte has been returned. -/
theorem delivered_in_order (kind : Kind) (ops : List Op) (hops : Along (step kind) SmallRead init ops) :
    (∀ pre, pre <+: ops → (run (step kind) init pre).returned <+: (run (step kind) init pre).produced) ∧
      ∀ pre len, pre ++ [.reader len] <+: ops → 0 < len →
        ∀ data b, read (run (step kind) init pre).blockStream len = some (0, data, b) →
          (run (step kind) init pre).blockStream.eos = true ∧
            (run (step kind) init pre).returned = (run (step kind) init pre).produced := by
  have hinv : ∀ pre post, ops = pre ++ post → StreamInv (run (step kind) init pre) := by
    intro pre post hsplit
    rw [hsplit, along_append] at hops
    exact run_inv (step kind) (step_streamInv kind) streamInv_init hops.1
  constructor
  · intro pre hpre
    obtain ⟨post, hsplit⟩ := hpre
    rw [(hinv pre post hsplit.symm).bytes, List.append_assoc]
    exact List.prefix_append _ _
  · intro pre len hpre hpos data b hr
    obtain ⟨post, hsplit⟩ := hpre
    rw [List.append_assoc] at hsplit
    have hs := hinv pre _ hsplit.symm
    have hok : SmallRead (run (step kind) init pre) (.reader len) := by
      rw [← hsplit, along_append] at hops
      exact hops.2.1
    exact hs.read_zero hpos hok hr

/-- the thread moves, with nothing from its connection -/
def idle : Op := .thread (.ofBytes [])

/-- a run with one block of two bytes, read one byte at a time to the end -/
def twoByteRun : List Op :=
  [.start true, .start true, .start true, .start true, .thread (.ofBytes [7, 8]), .reader 1, idle, idle, idle,
    .reader 1, .reader 1, idle, idle, idle, idle, idle, .reader 1, .reader 1]

theorem delivered_in_order_two_bytes :
    (∀ pre, pre <+: twoByteRun → (run (step .external) init pre).returned <+: (run (step .external) init pre).produced) ∧
      ∀ pre len, pre ++ [.reader len] <+: twoByteRun → 0 < len →
        ∀ data b, read (run (step .external) init pre).blockStream len = some (0, data, b) →
          (run (step .external) init pre).blockStream.eos = true ∧
            (run (step .external) init pre).returned = (run (step .external) init pre).produced :=
  delivered_in_order .external twoByteRun (by decide)

/-! ## Large reads -/

/-- `n` equal blocks on a started download -/
def equalBlocks (r : ReadResult) (n : ℕ) : List Op :=
  List.replicate 4 (.start true) ++ (List.replicate n (List.replicate 4 (.thread r))).flatten

/-- after `n` blocks all of them are queued -/
theorem run_equalBlocks {r : ReadResult} (hr : 0 < r.ret) (n : ℕ) :
    ∃ s, run (step .external) init (equalBlocks r n) = s ∧ s.thread = .read ∧ s.connection = true ∧
      s.stateManager.state = .inProgress ∧ s.blockStream.length = r.data.length * n ∧ s.blockStream.eos = false := by
  induction n with
  | zero => exact ⟨_, rfl, rfl, rfl, rfl, rfl, rfl⟩
  | succ n ih =>
    obtain ⟨s, hs, hpc, hconn, hstate, hlen, heos⟩ := ih
    have hops : equalBlocks r (n + 1) = equalBlocks r n ++ List.replicate 4 (.thread r) := by
      rw [equalBlocks, List.replicate_succ' (n := n), List.flatten_append, ← List.append_assoc]
      simp [equalBlocks]
    have hblock := run_block hpc hconn (by simp [hstate]) hr
    have hrun : run (step .external) init (equalBlocks r (n + 1)) =
        run (step .external) s (List.replicate 4 (.thread r)) := by
      rw [hops, run_append, hs]
    refine ⟨_, hrun.trans hblock, hpc, hconn, hstate, ?_, heos⟩
    change s.blockStream.length + r.data.length = _
    rw [hlen, Nat.mul_succ]

/-- the queue's loop copies nothing and `Read` returns 0 -/
theorem read_four_gib {b : SyncedBlockStream} (hlen : b.length = 2 ^ 32) :
    ∃ b', read b (2 ^ 32) = some (0, [], b') := by
  have hawake : b.sleeps = false := by simp [SyncedBlockStream.sleeps, hlen]
  have hget : b.getBytes (2 ^ 32) = some (2 ^ 32, [], ⟨⟨0, b.blockqueue⟩, b.eos⟩) := by
    simp [SyncedBlockStream.getBytes, BlockStream.getBytes, hlen, BlockStream.blockQueueGetBytes]
  refine ⟨⟨⟨0, b.blockqueue⟩, b.eos⟩, ?_⟩
  simp only [read, hawake, Bool.false_eq_true, if_false, hget, Option.map_some]
  rfl

/-- with 2^32 bytes queued and no end mark, a `Read` of 2^32 bytes returns 0 -/
theorem four_gib_read :
    let s := run (step .external) init (equalBlocks (.ofBytes (List.replicate 32768 0)) 131072)
    s.blockStream.eos = false ∧ ∃ b, read s.blockStream (2 ^ 32) = some (0, [], b) := by
  have hlen : (ReadResult.ofBytes (List.replicate 32768 0)).data.length = 32768 := List.length_replicate
  obtain ⟨s, hs, -, -, -, hs32, heos⟩ := run_equalBlocks (r := .ofBytes (List.replicate 32768 0))
    (by rw [ReadResult.ofBytes_ret, List.length_replicate]; norm_num) 131072
  rw [hs]
  exact ⟨heos, read_four_gib (by rw [hs32, hlen]; norm_num)⟩

end NdnDash.Chunk
