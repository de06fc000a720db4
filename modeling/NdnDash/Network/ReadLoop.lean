/-
The loop of the download thread (`AbstractChunk.cpp`, `DownloadExternalConnection`) over a connection whose `Read` may
return any numbers. The loop goes on while the last result is not 0, and a negative result is not.

- `step_readInv`: what holds over every interleaving when a connection does not fail before its end.
- `nonzero_readOn`: results that are not 0 keep the loop running.
- `stops_iff`: the loop stops at the first result that is not positive exactly when that result is 0.
-/
import NdnDash.Network.Chunk

namespace NdnDash.Chunk

open NdnDash.Machine

/-! ## Downloads from a connection -/

/-- a download, and how many times the thread has called `Read` -/
structure Download where
  chunk : St
  reads : ℕ

namespace Download

inductive Move where
  | start (created : Bool)
  | thread
  | abort (i : ℕ)
  | reader (len : ℕ)
deriving DecidableEq, Repr

def init : Download := ⟨Chunk.init, 0⟩

/-- the next step of the thread is a call of `Read` -/
def Calls (s : St) : Prop := s.thread = .read ∧ s.connection = true

instance (s : St) : Decidable (Calls s) := inferInstanceAs (Decidable (_ ∧ _))

/-- the steps of the chunk; call number `n` of `Read` returns `conn n` -/
def step (conn : ℕ → ReadResult) (s : Download) : Move → Download
  | .start created => { s with chunk := Chunk.step .external s.chunk (.start created) }
  | .thread =>
    { chunk := Chunk.step .external s.chunk (.thread (conn s.reads))
      reads := if Calls s.chunk then s.reads + 1 else s.reads }
  | .abort i => { s with chunk := Chunk.step .external s.chunk (.abort i) }
  | .reader len => { s with chunk := Chunk.step .external s.chunk (.reader len) }

/-- the thread has ended with the stream, after so many calls of `Read` -/
def Ended (reads : ℕ) (s : Download) : Prop :=
  s.chunk.thread = .finished ∧ s.chunk.blockStream.eos = true ∧ s.reads = reads

/-- no call of `Read` has followed a result that is not positive, and the thread by itself ends without one -/
def Stopped (conn : ℕ → ReadResult) (s : Download) : Prop :=
  ∀ k < s.reads, (conn k).ret ≤ 0 →
    s.reads = k + 1 ∧ ∃ n, Ended (k + 1) (run (step conn) s (List.replicate n .thread))

/-- the first result that is not positive, if there is one, is 0 -/
def EndsWithZero (conn : ℕ → ReadResult) : Prop := ∀ k, (∀ j < k, 0 < (conn j).ret) → 0 ≤ (conn k).ret

/-! ## Connections that end with 0 -/

/-- the thread is behind its last call -/
def Ending : ThreadPc → Prop
  | .loopCheck ret => ret = 0
  | .lastCheck | .lastSet _ | .setEOS | .finished => True
  | _ => False

/-- invariant of the downloads from a connection that ends with 0 -/
structure ReadInv (conn : ℕ → ReadResult) (s : Download) : Prop where
  unborn : s.chunk.starter = .checkState ∨ s.chunk.starter = .createThread → s.chunk.thread = .unborn ∧ s.reads = 0
  before : ∀ j, j + 1 < s.reads → 0 < (conn j).ret
  last : ∀ j, j + 1 = s.reads → 0 < (conn j).ret ∨ Ending s.chunk.thread
  eos : s.chunk.thread = .finished → s.chunk.blockStream.eos = true

variable {conn : ℕ → ReadResult} {s s' : Download}

theorem readInv_init : ReadInv conn init := by
  constructor <;> simp [init, Chunk.init]

/-- a move of another process than the thread and its creator -/
theorem ReadInv.of_same (h : ReadInv conn s) (hstarter : s'.chunk.starter = s.chunk.starter)
    (hreads : s'.reads = s.reads) (hthread : s'.chunk.thread = s.chunk.thread)
    (heos : s'.chunk.blockStream.eos = s.chunk.blockStream.eos) : ReadInv conn s' := by
  constructor
  · rw [hstarter, hthread, hreads]
    exact h.unborn
  · rw [hreads]
    exact h.before
  · rw [hreads, hthread]
    exact h.last
  · rw [hthread, heos]
    exact h.eos

theorem start_readInv (created : Bool) (h : ReadInv conn s) : ReadInv conn (step conn s (.start created)) := by
  cases hpc : s.chunk.starter with
  | checkState =>
    have hunborn := h.unborn (Or.inl hpc)
    simp only [step, Chunk.step, startStep, hpc]
    exact { h with unborn := fun _ => hunborn }
  | createThread =>
    obtain ⟨hunborn, hreads⟩ := h.unborn (Or.inr hpc)
    simp only [step, Chunk.step, startStep, hpc]
    split_ifs
    · exact ⟨by simp, by simp [hreads], by simp [hreads], by simp⟩
    · exact { h with unborn := by simp }
  | setInProgress =>
    simp only [step, Chunk.step, startStep, hpc]
    exact { h with unborn := by simp }
  | setConnection =>
    simp only [step, Chunk.step, startStep, hpc]
    exact { h with unborn := by simp }
  | returned ok =>
    simp only [step, Chunk.step, startStep, hpc]
    exact h

/-- a move of the thread that calls nothing -/
theorem ReadInv.of_thread (h : ReadInv conn s) (hborn : s.chunk.thread ≠ .unborn)
    (hstarter : s'.chunk.starter = s.chunk.starter) (hreads : s'.reads = s.reads)
    (hending : Ending s.chunk.thread → Ending s'.chunk.thread)
    (heos : s'.chunk.thread = .finished → s'.chunk.blockStream.eos = true) : ReadInv conn s' := by
  constructor
  · rw [hstarter]
    exact fun hearly => absurd (h.unborn hearly).1 hborn
  · rw [hreads]
    exact h.before
  · rw [hreads]
    exact fun j hj => (h.last j hj).imp_right hending
  · exact heos

/-- the call itself: what came before was positive, so the result is not negative -/
theorem read_readInv (hconn : EndsWithZero conn) (h : ReadInv conn s) (hcalls : Calls s.chunk) :
    ReadInv conn (step conn s .thread) := by
  obtain ⟨hpc, hstored⟩ := hcalls
  have hpositive : ∀ j < s.reads, 0 < (conn j).ret := by
    intro j hj
    rcases Nat.lt_or_ge (j + 1) s.reads with hlt | hge
    · exact h.before j hlt
    · exact (h.last j (by omega)).resolve_right (by simp [hpc, Ending])
  have hnonneg := hconn s.reads hpositive
  have hstep : step conn s .thread = ⟨readStep .external (conn s.reads) s.chunk, s.reads + 1⟩ := by
    simp [step, Chunk.step, threadStep, hpc, Calls, hstored]
  rw [hstep]
  simp only [readStep, hstored, if_true]
  refine ⟨fun hearly => ?_, fun j hj => hpositive j ?_, fun j hj => ?_, ?_⟩
  · exact absurd (h.unborn hearly).1 (by simp [hpc])
  · simp only at hj
    omega
  · simp only [Nat.add_right_cancel_iff] at hj
    subst hj
    by_cases hpos : 0 < (conn s.reads).ret
    · exact Or.inl hpos
    · right
      simp only [if_neg hpos]
      exact le_antisymm (not_lt.1 hpos) hnonneg
  · simp only
    split_ifs <;> simp

/-- any other step of the thread -/
theorem step_thread (hcalls : ¬ Calls s.chunk) :
    step conn s .thread = ⟨threadStep .external (conn s.reads) s.chunk, s.reads⟩ := by
  simp [step, Chunk.step, hcalls]

theorem thread_readInv (hconn : EndsWithZero conn) (h : ReadInv conn s) : ReadInv conn (step conn s .thread) := by
  by_cases hcalls : Calls s.chunk
  · exact read_readInv hconn h hcalls
  rw [step_thread hcalls]
  cases hpc : s.chunk.thread with
  | unborn => simpa only [threadStep, hpc] using h
  | finished => simpa only [threadStep, hpc] using h
  | crashed => simpa only [threadStep, hpc] using h
  | read =>
    have hnull : s.chunk.connection = false := by simpa [Calls, hpc] using hcalls
    simp only [threadStep, hpc, readStep, hnull, Bool.false_eq_true, if_false]
    exact h.of_thread (by simp [hpc]) rfl rfl (by simp [hpc, Ending]) (by simp)
  | pushBack block =>
    simp only [threadStep, hpc]
    exact h.of_thread (by simp [hpc]) rfl rfl (by simp [hpc, Ending]) (by simp)
  | notifyRate ret =>
    simp only [threadStep, hpc]
    exact h.of_thread (by simp [hpc]) rfl rfl (by simp [hpc, Ending]) (by simp)
  | loopCheck ret =>
    have hzero : ret = 0 → (if s.chunk.stateManager.state = .requestAbort then (0 : ℤ) else ret) = 0 := by
      rintro rfl
      exact ite_self _
    simp only [threadStep, hpc]
    refine h.of_thread (by simp [hpc]) rfl rfl ?_ ?_
    · intro hending
      simp only [hpc, Ending] at hending
      simp [hzero hending, Ending]
    · simp only
      split_ifs <;> simp
  | lastCheck =>
    simp only [threadStep, hpc]
    exact h.of_thread (by simp [hpc]) rfl rfl (by simp [Ending]) (by simp)
  | lastSet state =>
    simp only [threadStep, hpc]
    exact h.of_thread (by simp [hpc]) rfl rfl (by simp [Ending]) (by simp)
  | setEOS =>
    simp only [threadStep, hpc]
    exact h.of_thread (by simp [hpc]) rfl rfl (by simp [Ending]) (by simp [SyncedBlockStream.setEOS])

theorem step_readInv (hconn : EndsWithZero conn) (s : Download) (m : Move) (h : ReadInv conn s) :
    ReadInv conn (step conn s m) := by
  cases m with
  | start created => exact start_readInv created h
  | thread => exact thread_readInv hconn h
  | abort i =>
    obtain ⟨-, hstream, hstarter, hthread⟩ := abortStep_frame s.chunk i
    exact h.of_same hstarter rfl hthread (congrArg SyncedBlockStream.eos hstream)
  | reader len =>
    obtain ⟨-, -, hstarter, hthread, -⟩ := readerStep_frame s.chunk len
    exact h.of_same hstarter rfl hthread (readerStep_eos s.chunk len)

/-! ## The end of the thread -/

/-- the steps that are left behind the last call -/
def left : ThreadPc → ℕ
  | .loopCheck _ => 4
  | .lastCheck => 3
  | .lastSet _ => 2
  | .setEOS => 1
  | _ => 0

/-- behind its last call the thread gets to the end of the stream by itself -/
theorem ending_finishes (h : ReadInv conn s) (hending : Ending s.chunk.thread) :
    ∃ n, Ended s.reads (run (step conn) s (List.replicate n .thread)) := by
  let Inv : Download → Prop := fun s' => (s'.chunk.thread = .finished → s'.chunk.blockStream.eos = true) ∧
    Ending s'.chunk.thread ∧ s'.reads = s.reads
  have hinv : Inv s := ⟨h.eos, hending, rfl⟩
  refine run_reaches (step conn) (fun s' => left s'.chunk.thread) .thread ?_ hinv
  rintro s' ⟨heos, hending', hreads⟩ hnot
  have hcalls : ¬ Calls s'.chunk := by
    intro hcalls
    simp [hcalls.1, Ending] at hending'
  rw [step_thread hcalls]
  simp only [Inv]
  cases hpc : s'.chunk.thread with
  | unborn | read | crashed | pushBack | notifyRate => simp [hpc, Ending] at hending'
  | finished => exact absurd ⟨hpc, heos hpc, hreads⟩ hnot
  | loopCheck ret =>
    obtain rfl : ret = 0 := by simpa [hpc, Ending] using hending'
    simp [threadStep, hpc, Ending, hreads, left]
  | lastCheck => simp [threadStep, hpc, Ending, hreads, left]
  | lastSet state => simp [threadStep, hpc, Ending, hreads, left]
  | setEOS => simp [threadStep, hpc, Ending, hreads, left, SyncedBlockStream.setEOS]

theorem ReadInv.stopped (h : ReadInv conn s) : Stopped conn s := by
  intro k hk hret
  have hlast : s.reads = k + 1 := by
    by_contra hne
    exact absurd (h.before k (by omega)) (not_lt.2 hret)
  refine ⟨hlast, ?_⟩
  rw [← hlast]
  exact ending_finishes h ((h.last k hlast.symm).resolve_left (not_lt.2 hret))

/-! ## Connections that fail -/

/-- the thread is about to call `Read` and nobody has asked it to stop -/
structure Ready (reads : ℕ) (s : Download) : Prop where
  thread : s.chunk.thread = .read
  connection : s.chunk.connection = true
  state : s.chunk.stateManager.state = .inProgress
  reads : s.reads = reads

theorem ready_started : Ready 0 (run (step conn) init (List.replicate 4 (.start true))) := by
  constructor <;> rfl

/-- a result that is not 0 leads to the next call -/
theorem Ready.next {n : ℕ} (h : Ready n s) (hne : (conn n).ret ≠ 0) :
    ∃ k, Ready (n + 1) (run (step conn) s (List.replicate k .thread)) := by
  obtain ⟨hpc, hstored, hstate, rfl⟩ := h
  by_cases hpos : 0 < (conn s.reads).ret
  · have hlen : 0 < (conn s.reads).data.length := by
      rw [(conn s.reads).len_eq]
      omega
    have hdata : (conn s.reads).data ≠ [] := List.ne_nil_of_length_pos hlen
    refine ⟨4, ?_⟩
    constructor <;> simp [run, step, Chunk.step, threadStep, readStep, Calls, hpc, hstored, hstate, hpos, hdata]
  · refine ⟨2, ?_⟩
    constructor <;> simp [run, step, Chunk.step, threadStep, readStep, Calls, hpc, hstored, hstate, hpos, hne]

/-- **Results that are not 0** keep the loop running. -/
theorem nonzero_readOn {n : ℕ} (hne : ∀ j < n, (conn j).ret ≠ 0) : ∃ ms, Ready n (run (step conn) init ms) := by
  induction n with
  | zero => exact ⟨_, ready_started⟩
  | succ n ih =>
    obtain ⟨ms, hready⟩ := ih fun j hj => hne j (by omega)
    obtain ⟨k, hnext⟩ := hready.next (hne n (by omega))
    exact ⟨ms ++ List.replicate k .thread, by rw [run_append]; exact hnext⟩

/-- **The end of the loop.** In every interleaving the thread stops at the first result that is not positive, and ends the
stream, exactly when that result is 0. -/
theorem stops_iff (conn : ℕ → ReadResult) : (∀ ms, Stopped conn (run (step conn) init ms)) ↔ EndsWithZero conn := by
  refine ⟨fun h k hpositive => ?_, fun hconn ms => ?_⟩
  · by_contra hneg
    have hne : ∀ j < k + 1, (conn j).ret ≠ 0 := by
      intro j hj
      rcases Nat.lt_or_eq_of_le (Nat.le_of_lt_succ hj) with hlt | rfl
      · exact (hpositive j hlt).ne'
      · exact (not_le.1 hneg).ne
    -- the call behind the failure
    obtain ⟨ms, hready⟩ := nonzero_readOn hne
    have hcalled : (run (step conn) init (ms ++ [.thread])).reads = k + 2 := by
      rw [run_append]
      simp [run_cons, step, Calls, hready.thread, hready.connection, hready.reads]
    have hlast := (h (ms ++ [.thread]) k (by omega) (not_le.1 hneg).le).1
    omega
  · exact (run_inv' (step conn) (step_readInv hconn) readInv_init ms).stopped

/-- a connection whose queue stays empty -/
def failing (_ : ℕ) : ReadResult := ⟨-1, [], rfl⟩

/-- twenty steps of the thread are ten calls -/
theorem failing_called :
    (run (step failing) init (List.replicate 4 (.start true) ++ List.replicate 20 .thread)).reads = 10 ∧
      ¬ ∀ ms, Stopped failing (run (step failing) init ms) := by
  have hreads : (run (step failing) init (List.replicate 4 (.start true) ++ List.replicate 20 .thread)).reads = 10 := by
    decide
  refine ⟨hreads, fun h => ?_⟩
  have hlast := (h (List.replicate 4 (.start true) ++ List.replicate 20 .thread) 0 (by omega) (by decide)).1
  omega

end Download

end NdnDash.Chunk
