/-
Starting and aborting a download: what holds over every interleaving of the starter, the download thread, the readers
and any number of `AbortDownload` callers.

- `download_ends_iff` (external connection): along a run, `Read` is never called through the NULL connection, and once
  `StartDownload` has returned true and the thread has finished, the state is COMPLETED or ABORTED and is the last one
  notified, exactly when the created thread is not scheduled before `StartDownload` has returned.
- `abort_stranded_iff` (both threads): along a run, also when the thread alone goes on from any state reached, no
  `AbortDownload` caller waits for ABORTED while the thread has finished with COMPLETED, exactly when no caller starts
  to wait between the thread's last reading of the state and its writing of COMPLETED.

Witnesses: `read_before_connection` (the thread runs first) and `abort_in_window` (the abort request falls between the
two critical sections).
-/
import NdnDash.Network.Chunk

namespace NdnDash.Chunk

open NdnDash.Machine

/-! ## A started download ends -/

/-- `Read` was not called through NULL, and a started and finished download has a terminal state, last notified -/
def Ends (s : St) : Prop :=
  s.thread ≠ .crashed ∧ (s.starter = .returned true → s.thread = .finished →
    (s.stateManager.state = .completed ∨ s.stateManager.state = .aborted) ∧
      s.stateManager.notified = some s.stateManager.state)

/-- a created thread moves only when `StartDownload` has returned -/
def ThreadWaits (s : St) : Op → Prop
  | .thread _ => s.thread ≠ .unborn → s.starter = .returned true
  | _ => True

/-- invariant of runs in which the thread waits for the starter -/
structure EndInv (s : St) : Prop where
  conn : s.connection = true ↔ s.starter = .returned true
  early : s.starter ≠ .returned true → s.thread = .unborn ∨ s.thread = .read
  noCrash : s.thread ≠ .crashed
  lastSet : ∀ d, s.thread = .lastSet d → d = .completed ∨ d = .aborted
  ended : s.thread = .setEOS ∨ s.thread = .finished →
    (s.stateManager.state = .completed ∨ s.stateManager.state = .aborted) ∧
      s.stateManager.notified = some s.stateManager.state

theorem endInv_init : EndInv init := by
  constructor <;> simp [init]

theorem startStep_endInv (created : Bool) (s : St) (h : EndInv s) : EndInv (startStep .external created s) := by
  cases hpc : s.starter with
  | checkState =>
    have hconn : s.connection ≠ true := by rw [ne_eq, h.conn, hpc]; simp
    have hthread := h.early (by simp [hpc])
    simp only [startStep, hpc]
    refine { h with conn := ?_, early := fun _ => hthread }
    split_ifs <;> simp [hconn]
  | createThread =>
    have hconn : s.connection ≠ true := by rw [ne_eq, h.conn, hpc]; simp
    simp only [startStep, hpc]
    split_ifs
    · exact ⟨by simp [hconn], by simp, by simp, by simp, by simp⟩
    · exact { h with conn := by simp [hconn], early := fun _ => h.early (by simp [hpc]) }
  | setInProgress =>
    have hconn : s.connection ≠ true := by rw [ne_eq, h.conn, hpc]; simp
    have hthread := h.early (by simp [hpc])
    simp only [startStep, hpc]
    refine { h with conn := by simp [hconn], early := fun _ => hthread, ended := ?_ }
    intro hend
    rcases hthread with ht | ht <;> simp [ht] at hend
  | setConnection =>
    simp only [startStep, hpc]
    exact { h with conn := by simp, early := by simp }
  | returned ok =>
    simp only [startStep, hpc]
    exact h

theorem threadStep_endInv (r : ReadResult) (s : St) (h : EndInv s) (hok : ThreadWaits s (.thread r)) :
    EndInv (threadStep .external r s) := by
  cases hpc : s.thread with
  | unborn => simpa only [threadStep, hpc] using h
  | finished => simpa only [threadStep, hpc] using h
  | crashed => exact absurd hpc h.noCrash
  | read =>
    have hret := hok (by simp [hpc])
    have hconn := h.conn.2 hret
    simp only [threadStep, hpc, readStep, hconn, if_true]
    refine ⟨by simp [hret], by simp [hret], ?_, ?_, ?_⟩ <;> simp only <;> split_ifs <;> simp
  | pushBack block =>
    simp only [threadStep, hpc]
    exact ⟨h.conn, by simp [hok (by simp [hpc])], by simp, by simp, by simp⟩
  | notifyRate ret =>
    simp only [threadStep, hpc]
    exact ⟨h.conn, by simp [hok (by simp [hpc])], by simp, by simp, by simp⟩
  | loopCheck ret =>
    have hret := hok (by simp [hpc])
    simp only [threadStep, hpc]
    generalize (if s.stateManager.state = .requestAbort then (0 : ℤ) else ret) = ret'
    refine ⟨h.conn, by simp [hret], ?_, ?_, ?_⟩ <;> simp only <;> split_ifs <;> simp
  | lastCheck =>
    simp only [threadStep, hpc]
    refine ⟨h.conn, by simp [hok (by simp [hpc])], by simp, ?_, by simp⟩
    intro d hd
    simp only [ThreadPc.lastSet.injEq] at hd
    rw [← hd]
    split_ifs <;> simp
  | lastSet state =>
    simp only [threadStep, hpc]
    refine ⟨h.conn, by simp [hok (by simp [hpc])], by simp, by simp, ?_⟩
    intro _
    exact ⟨h.lastSet state hpc, rfl⟩
  | setEOS =>
    simp only [threadStep, hpc]
    exact ⟨h.conn, by simp [hok (by simp [hpc])], by simp, by simp, fun _ => h.ended (Or.inl hpc)⟩

theorem abortStep_endInv (i : ℕ) (s : St) (h : EndInv s) : EndInv (abortStep i s) := by
  unfold abortStep
  cases hpc : s.aborter i with
  | checkAndSet =>
    refine { h with ended := ?_ }
    intro hend
    obtain ⟨hstate, hnot⟩ := h.ended hend
    have hkeep : s.stateManager.checkAndSet .inProgress .requestAbort = s.stateManager := by
      unfold DownloadStateManager.checkAndSet
      rw [if_neg]
      rcases hstate with hs | hs <;> simp [hs]
    simp only [hkeep]
    exact ⟨hstate, hnot⟩
  | checkAndWait => exact { h with }
  | waiting => split_ifs <;> exact { h with }
  | returned => exact h

theorem readerStep_endInv (len : ℕ) (s : St) (h : EndInv s) : EndInv (readerStep len s) := by
  obtain ⟨h1, h2, h3, h4, -⟩ := readerStep_frame s len
  constructor
  · rw [h2, h3]; exact h.conn
  · rw [h3, h4]; exact h.early
  · rw [h4]; exact h.noCrash
  · rw [h4]; exact h.lastSet
  · rw [h1, h4]; exact h.ended

theorem step_endInv (s : St) (o : Op) (h : EndInv s) (hok : ThreadWaits s o) : EndInv (step .external s o) := by
  cases o with
  | start created => exact startStep_endInv created s h
  | thread r => exact threadStep_endInv r s h hok
  | abort i => exact abortStep_endInv i s h
  | reader len => exact readerStep_endInv len s h

/-- a thread that moves before the starter is through calls `Read` through NULL -/
theorem early_thread_crashes (s : St) (o : Op) (h : EndInv s) (hbad : ¬ ThreadWaits s o) : ¬ Ends (step .external s o) := by
  cases o with
  | thread r =>
    simp only [ThreadWaits, Classical.not_imp] at hbad
    obtain ⟨hborn, hret⟩ := hbad
    have hread := (h.early hret).resolve_left hborn
    have hconn : s.connection = false := by
      rw [← Bool.not_eq_true, h.conn]; exact hret
    intro hends
    exact hends.1 (by simp [step, threadStep, hread, readStep, hconn])
  | _ => exact absurd trivial hbad

/-- **A started download ends in a terminal state** along a run exactly when the created thread is not scheduled before
`StartDownload` has returned. -/
theorem download_ends_iff (ops : List Op) :
    (∀ pre, pre <+: ops → Ends (run (step .external) init pre)) ↔ Along (step .external) ThreadWaits init ops :=
  along_iff_of_first_bad (step .external) step_endInv (fun _ h => ⟨h.noCrash, fun _ ht => h.ended (Or.inr ht)⟩)
    early_thread_crashes endInv_init ops

/-- the created thread asks its connection before it is stored -/
theorem read_before_connection : ¬ ∀ pre, pre <+: [Op.start true, .start true, .thread (.ofBytes [])] →
    Ends (run (step .external) init pre) := by
  intro h
  exact (h _ (List.prefix_refl _)).1 (by decide)

/-! ## An abort request is answered -/

/-- The thread has finished with COMPLETED while a caller waits for ABORTED. A COMPLETED that the starter's late
IN_PROGRESS overwrites is the case of `download_ends_iff`. -/
def Stranded (s : St) : Prop :=
  s.thread = .finished ∧ s.stateManager.state = .completed ∧ ∃ i, s.aborter i = .waiting

/-- no caller starts to wait once the thread has read the state for the last time and is about to write COMPLETED -/
def NoLateWait (s : St) : Op → Prop
  | .abort i => ¬ (s.aborter i = .checkAndWait ∧ s.stateManager.state = .requestAbort ∧ s.thread = .lastSet .completed)
  | _ => True

/-- the starter has not set IN_PROGRESS yet -/
def Starting (s : St) : Prop :=
  s.starter = .checkState ∨ s.starter = .createThread ∨ s.starter = .setInProgress

/-- invariant of runs without a late wait -/
structure AbortInv (s : St) : Prop where
  starting : Starting s → s.stateManager.state = .notStarted ∨ s.stateManager.state = .completed
  startingSet : Starting s → s.thread ≠ .lastSet .aborted
  waiting : ∀ i, s.aborter i = .waiting →
    ¬ Starting s ∧ (s.stateManager.state = .requestAbort ∨ s.stateManager.state = .aborted) ∧ s.thread ≠ .lastSet .completed
  lastSet : ∀ d, s.thread = .lastSet d → d = .completed ∨ d = .aborted
  aborted : s.stateManager.state = .aborted → s.thread = .setEOS ∨ s.thread = .finished

theorem abortInv_init : AbortInv init := by
  constructor <;> simp [init, Starting]

/-- nobody is stranded -/
theorem AbortInv.not_stranded {s : St} (h : AbortInv s) : ¬ Stranded s := by
  intro hstranded
  obtain ⟨-, hstate, i, hi⟩ := hstranded
  obtain ⟨-, hw, -⟩ := h.waiting i hi
  rw [hstate] at hw
  simp at hw

/-- a move that leaves the state, the thread and the callers alone -/
theorem AbortInv.of_same {s s' : St} (h : AbortInv s) (hstate : s'.stateManager.state = s.stateManager.state)
    (hthread : s'.thread = s.thread) (haborter : s'.aborter = s.aborter) (hstart : Starting s' → Starting s) :
    AbortInv s' := by
  constructor
  · rw [hstate]; exact fun hs => h.starting (hstart hs)
  · rw [hthread]; exact fun hs => h.startingSet (hstart hs)
  · rw [hstate, hthread, haborter]
    intro i hi
    obtain ⟨hns, hw⟩ := h.waiting i hi
    exact ⟨fun hs => hns (hstart hs), hw⟩
  · rw [hthread]; exact h.lastSet
  · rw [hstate, hthread]; exact h.aborted

/-- a move of the thread to a place before its final writing of the state -/
theorem AbortInv.of_thread {s s' : St} (h : AbortInv s) (hstate : s'.stateManager.state = s.stateManager.state)
    (haborter : s'.aborter = s.aborter) (hstart : s'.starter = s.starter) (hset : ∀ d, s'.thread ≠ .lastSet d)
    (hbefore : s.thread ≠ .setEOS ∧ s.thread ≠ .finished) : AbortInv s' := by
  have hna : s.stateManager.state ≠ .aborted := by
    intro ha
    rcases h.aborted ha with ht | ht
    · exact hbefore.1 ht
    · exact hbefore.2 ht
  constructor
  · rw [hstate]; unfold Starting; rw [hstart]; exact h.starting
  · exact fun _ => hset _
  · rw [hstate, haborter]
    unfold Starting
    rw [hstart]
    intro i hi
    obtain ⟨hns, hw, -⟩ := h.waiting i hi
    exact ⟨hns, hw, hset _⟩
  · exact fun d hd => absurd hd (hset d)
  · rw [hstate]; exact fun ha => absurd ha hna

theorem startStep_abortInv (kind : Kind) (created : Bool) (s : St) (h : AbortInv s) :
    AbortInv (startStep kind created s) := by
  cases hpc : s.starter with
  | checkState =>
    simp only [startStep, hpc]
    exact h.of_same rfl rfl rfl fun _ => Or.inl hpc
  | createThread =>
    have hs : Starting s := Or.inr (Or.inl hpc)
    simp only [startStep, hpc]
    split_ifs
    · have hna : s.stateManager.state ≠ .aborted := by
        rcases h.starting hs with hst | hst <;> simp [hst]
      refine ⟨fun _ => h.starting hs, by simp, fun i hi => absurd hs (h.waiting i hi).1, by simp, ?_⟩
      exact fun ha => absurd ha hna
    · exact h.of_same rfl rfl rfl fun _ => hs
  | setInProgress =>
    have hs : Starting s := Or.inr (Or.inr hpc)
    simp only [startStep, hpc]
    refine ⟨?_, ?_, fun i hi => absurd hs (h.waiting i hi).1, h.lastSet, ?_⟩
    · cases kind <;> simp [Starting]
    · exact fun _ => h.startingSet hs
    · simp [DownloadStateManager.setState]
  | setConnection =>
    simp only [startStep, hpc]
    exact h.of_same rfl rfl rfl (by simp [Starting])
  | returned ok =>
    simp only [startStep, hpc]
    exact h

theorem readStep_abortInv (kind : Kind) (r : ReadResult) (s : St) (h : AbortInv s) (hpc : s.thread = .read) :
    AbortInv (readStep kind r s) := by
  have hbefore : s.thread ≠ .setEOS ∧ s.thread ≠ .finished := by simp [hpc]
  cases kind with
  | external =>
    simp only [readStep]
    split_ifs
    · exact h.of_thread rfl rfl rfl (by simp) hbefore
    · exact h.of_thread rfl rfl rfl (by simp) hbefore
    · exact h.of_thread rfl rfl rfl (by simp) hbefore
  | internal =>
    simp only [readStep]
    split_ifs
    · exact h.of_thread rfl rfl rfl (by simp) hbefore
    · exact h.of_thread rfl rfl rfl (by simp) hbefore

/-- a caller that waits has made the state REQUEST_ABORT, so the thread decides for ABORTED -/
theorem lastCheck_abortInv (kind : Kind) (r : ReadResult) (s : St) (h : AbortInv s) (hpc : s.thread = .lastCheck) :
    AbortInv (threadStep kind r s) := by
  have hna : s.stateManager.state ≠ .aborted := by
    intro ha
    rcases h.aborted ha with ht | ht <;> simp [hpc] at ht
  simp only [threadStep, hpc]
  refine ⟨h.starting, ?_, ?_, ?_, fun ha => absurd ha hna⟩
  · intro hs
    rcases h.starting hs with hst | hst <;> simp [hst]
  · intro i hi
    obtain ⟨hns, hw, -⟩ := h.waiting i hi
    refine ⟨hns, hw, ?_⟩
    simp [hw.resolve_right hna]
  · intro d hd
    simp only [ThreadPc.lastSet.injEq] at hd
    rw [← hd]
    split_ifs <;> simp

theorem lastSet_abortInv (kind : Kind) (r : ReadResult) (s : St) (h : AbortInv s) {state : DownloadState}
    (hpc : s.thread = .lastSet state) : AbortInv (threadStep kind r s) := by
  have hd := h.lastSet state hpc
  simp only [threadStep, hpc]
  refine ⟨?_, by simp, ?_, by simp, by simp⟩
  · intro hs
    have hne : state ≠ .aborted := by
      intro he
      exact h.startingSet hs (he ▸ hpc)
    exact Or.inr (hd.resolve_right hne)
  · intro i hi
    obtain ⟨hns, -, hlate⟩ := h.waiting i hi
    have hne : state ≠ .completed := by
      intro he
      exact hlate (he ▸ hpc)
    exact ⟨hns, Or.inr (hd.resolve_left hne), by simp⟩

theorem threadStep_abortInv (kind : Kind) (r : ReadResult) (s : St) (h : AbortInv s) :
    AbortInv (threadStep kind r s) := by
  cases hpc : s.thread with
  | unborn => simpa only [threadStep, hpc] using h
  | finished => simpa only [threadStep, hpc] using h
  | crashed => simpa only [threadStep, hpc] using h
  | read => simpa only [threadStep, hpc] using readStep_abortInv kind r s h hpc
  | pushBack block =>
    simp only [threadStep, hpc]
    exact h.of_thread rfl rfl rfl (by simp) (by simp [hpc])
  | notifyRate ret =>
    simp only [threadStep, hpc]
    exact h.of_thread rfl rfl rfl (by cases kind <;> simp) (by simp [hpc])
  | loopCheck ret =>
    simp only [threadStep, hpc]
    refine h.of_thread rfl rfl rfl (fun d => ?_) (by simp [hpc])
    generalize (if s.stateManager.state = .requestAbort then (0 : ℤ) else ret) = ret'
    simp only
    split_ifs <;> simp
  | lastCheck => exact lastCheck_abortInv kind r s h hpc
  | lastSet state => exact lastSet_abortInv kind r s h hpc
  | setEOS =>
    simp only [threadStep, hpc]
    refine ⟨h.starting, by simp, ?_, by simp, by simp⟩
    intro i hi
    obtain ⟨hns, hw, -⟩ := h.waiting i hi
    exact ⟨hns, hw, by simp⟩

/-- the callers but `i` keep their places, and `i` does not wait -/
theorem AbortInv.of_move {s s' : St} {i : ℕ} {pc : AbortPc} (h : AbortInv s)
    (hstate : s'.stateManager.state = s.stateManager.state) (hthread : s'.thread = s.thread)
    (haborter : s'.aborter = Function.update s.aborter i pc) (hstart : s'.starter = s.starter) (hpc : pc ≠ .waiting) :
    AbortInv s' := by
  constructor
  · rw [hstate]; unfold Starting; rw [hstart]; exact h.starting
  · rw [hthread]; unfold Starting; rw [hstart]; exact h.startingSet
  · rw [hstate, hthread, haborter]
    unfold Starting
    rw [hstart]
    intro j hj
    by_cases hji : j = i
    · rw [hji, Function.update_self] at hj
      exact absurd hj hpc
    · rw [Function.update_of_ne hji] at hj
      exact h.waiting j hj
  · rw [hthread]; exact h.lastSet
  · rw [hstate, hthread]; exact h.aborted

/-- `CheckAndSet` changes IN_PROGRESS only -/
theorem checkAndSet_abortInv {s : St} (h : AbortInv s) :
    AbortInv { s with stateManager := s.stateManager.checkAndSet .inProgress .requestAbort } := by
  unfold DownloadStateManager.checkAndSet
  split_ifs with hst
  · refine ⟨?_, h.startingSet, ?_, h.lastSet, by simp⟩
    · intro hs
      rcases h.starting hs with hn | hn <;> simp [hst] at hn
    · intro i hi
      obtain ⟨hns, -, hlate⟩ := h.waiting i hi
      exact ⟨hns, Or.inl rfl, hlate⟩
  · exact h

theorem abortStep_abortInv (i : ℕ) (s : St) (h : AbortInv s) (hok : NoLateWait s (.abort i)) :
    AbortInv (abortStep i s) := by
  cases hpc : s.aborter i with
  | checkAndSet =>
    simp only [abortStep, hpc]
    exact (checkAndSet_abortInv h).of_move rfl rfl rfl rfl (by simp : AbortPc.checkAndWait ≠ .waiting)
  | checkAndWait =>
    simp only [abortStep, hpc]
    split_ifs with hst
    · refine { h with waiting := ?_ }
      intro j hj
      by_cases hji : j = i
      · refine ⟨?_, Or.inl hst, fun hlate => hok ⟨hpc, hst, hlate⟩⟩
        intro hs
        rcases h.starting hs with hn | hn <;> simp [hst] at hn
      · exact h.waiting j (by simpa [Function.update_of_ne hji] using hj)
    · exact h.of_move rfl rfl rfl rfl (by simp : AbortPc.returned ≠ .waiting)
  | waiting =>
    simp only [abortStep, hpc]
    split_ifs
    · exact h.of_move rfl rfl rfl rfl (by simp : AbortPc.returned ≠ .waiting)
    · exact h
  | returned => simpa only [abortStep, hpc] using h

theorem step_abortInv (kind : Kind) (s : St) (o : Op) (h : AbortInv s) (hok : NoLateWait s o) :
    AbortInv (step kind s o) := by
  cases o with
  | start created => exact startStep_abortInv kind created s h
  | thread r => exact threadStep_abortInv kind r s h
  | abort i => exact abortStep_abortInv i s h hok
  | reader len =>
    obtain ⟨h1, -, h3, h4, h5, -⟩ := readerStep_frame s len
    exact h.of_same (congrArg _ h1) h4 h5 (by unfold Starting; rw [step, h3]; exact id)

/-- the thread alone, going on from `s`, strands nobody -/
def NeverStranded (kind : Kind) (s : St) : Prop :=
  ∀ rs : List ReadResult, ¬ Stranded (run (step kind) s (rs.map .thread))

theorem AbortInv.neverStranded {kind : Kind} {s : St} (h : AbortInv s) : NeverStranded kind s := by
  intro rs
  have hrun : AbortInv (run (fun s r => step kind s (.thread r)) s rs) :=
    run_inv' _ (fun s r hs => step_abortInv kind s (.thread r) hs trivial) h rs
  rw [run, List.foldl_map]
  exact hrun.not_stranded

/-- after a late wait the thread has only to finish -/
theorem late_wait_strands (kind : Kind) (s : St) (o : Op) (hbad : ¬ NoLateWait s o) :
    ¬ NeverStranded kind (step kind s o) := by
  cases o with
  | abort i =>
    obtain ⟨hpc, hst, hlate⟩ := Classical.not_not.1 hbad
    intro hnever
    refine hnever [.ofBytes [], .ofBytes []] ⟨?_, ?_, i, ?_⟩ <;>
      simp [step, abortStep, threadStep, hpc, hst, hlate, DownloadStateManager.setState]
  | _ => exact absurd trivial hbad

/-- **Abort requests are answered** along a run, also when the thread alone goes on from a state reached, exactly when
no caller starts to wait between the thread's last reading of the state and its writing of COMPLETED. -/
theorem abort_stranded_iff (kind : Kind) (ops : List Op) :
    (∀ pre, pre <+: ops → NeverStranded kind (run (step kind) init pre)) ↔ Along (step kind) NoLateWait init ops :=
  along_iff_of_first_bad (step kind) (step_abortInv kind) (fun _ h => h.neverStranded)
    (fun s o _ hbad => late_wait_strands kind s o hbad) abortInv_init ops

/-- an empty download whose thread has read the state for the last time when an abort request comes -/
theorem abort_in_window : Stranded (run (step .external) init
    ([.start true, .start true, .start true, .start true] ++ List.replicate 3 (.thread (.ofBytes [])) ++
      [.abort 0, .abort 0] ++ List.replicate 2 (.thread (.ofBytes [])))) := by
  exact ⟨by decide, by decide, 0, by decide⟩

end NdnDash.Chunk
