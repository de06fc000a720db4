/-
The state of a download with the threads that wait for it: `DownloadStateManager` (`DownloadStateManager.cpp`) as a monitor.

`State(state)` wakes all sleepers. `CheckAndSet` changes the state and wakes nobody; `CheckAndWait` tests its first
argument once and from then on waits like `WaitState`.

- `states_awake_iff`: in every state of a run no sleeper waits for the state that is set, exactly when no `CheckAndSet`
  sets a state that somebody sleeps for.
- `chunk_awake`: with the calls of `AbstractChunk` this is so in every run, since nobody waits for `REQUEST_ABORT`.
-/
import NdnDash.Core.Monitor
import NdnDash.Network.Chunk

namespace NdnDash.Chunk.DownloadStateManager

open NdnDash.Machine NdnDash.Monitor

variable {ι : Type}

/-! ## Model -/

inductive Call where
  /-- `State()` -/
  | getState
  /-- `State(state)` -/
  | setState (state : DownloadState)
  | waitState (state : DownloadState)
  | checkAndWait (check wait : DownloadState)
  | checkAndSet (check set : DownloadState)
deriving DecidableEq

/-- the state manager as a monitor with its one condition variable `stateChanged` -/
def monitor : Monitor DownloadStateManager Call Unit where
  canGo k m :=
    match k with
    | .waitState state => m.state = state
    | .checkAndWait check wait => m.state ≠ check ∨ m.state = wait
    | _ => true
  work k m :=
    match k with
    | .setState state => m.setState state
    | .checkAndSet check set => m.checkAndSet check set
    | _ => m
  cond _ := ()
  wakes k _ _ :=
    match k with
    | .setState _ => true
    | _ => false
  again
    | .checkAndWait _ wait => .waitState wait
    | k => k

/-- no `CheckAndSet` sets a state that somebody sleeps for -/
def NoneMissed (s : Monitor.St DownloadStateManager Call ι) (op : Monitor.Op Call ι) : Prop :=
  ∀ check set, tested s op = some (.checkAndSet check set) → s.shared.state = check →
    ∀ t, s.place t ≠ .asleep (.waitState set)

/-- the calls of `StartDownload`, of the download threads and of `AbortDownload` -/
def OfChunk : Call → Prop
  | .getState => True
  | .setState state => state = .inProgress ∨ state = .aborted ∨ state = .completed
  | .checkAndSet check set => check = .inProgress ∧ set = .requestAbort
  | .checkAndWait check wait => check = .requestAbort ∧ wait = .aborted
  | .waitState _ => False

/-! ## Sleepers -/

theorem waits : monitor.Waits := by
  intro k m hgo
  match k with
  | .getState => cases hgo
  | .setState _ => cases hgo
  | .checkAndSet _ _ => cases hgo
  | .waitState _ => exact hgo
  | .checkAndWait check wait =>
    simp only [monitor, decide_eq_false_iff_not, not_or] at hgo ⊢
    exact hgo.2

variable {s : Monitor.St DownloadStateManager Call ι}

/-- who is in the middle of a call is in the loop of `WaitState`, or of `CheckAndWait` -/
def InLoop (s : Monitor.St DownloadStateManager Call ι) : Prop :=
  ∀ t k, (s.place t).call? = some k → ∃ state, k = .waitState state

theorem again_waitState (k : Call) (m : DownloadStateManager) (hgo : monitor.canGo k m = false) :
    ∃ state, monitor.again k = .waitState state := by
  match k with
  | .getState => cases hgo
  | .setState _ => cases hgo
  | .checkAndSet _ _ => cases hgo
  | .waitState state => exact ⟨state, rfl⟩
  | .checkAndWait check wait => exact ⟨wait, rfl⟩

/-- a step wakes whom it lets go on, unless it is a `CheckAndSet` to a state that somebody sleeps for -/
theorem notifies_iff (op : Monitor.Op Call ι) (hloop : InLoop s) (hawake : monitor.Awake s) :
    monitor.Notifies s op ↔ NoneMissed s op := by
  constructor
  · intro h check set htested hstate t hsleep
    have hbefore := hawake t _ hsleep
    have hafter : monitor.canGo (.waitState set) (monitor.work (.checkAndSet check set) s.shared) = true := by
      simp [monitor, checkAndSet, hstate]
    exact absurd (h _ htested rfl t _ hsleep hbefore hafter) (by simp [monitor])
  · intro h k htested hgo t k' hsleep hbefore hafter
    obtain ⟨state, rfl⟩ := hloop t k' (by rw [hsleep]; rfl)
    match k with
    | .setState _ => rfl
    | .getState => exact absurd (hbefore.symm.trans hafter) (by decide)
    | .waitState _ => exact absurd (hbefore.symm.trans hafter) (by decide)
    | .checkAndWait _ _ => exact absurd (hbefore.symm.trans hafter) (by decide)
    | .checkAndSet check set =>
      by_cases hstate : s.shared.state = check
      · have hset : set = state := by simpa [monitor, checkAndSet, hstate] using hafter
        exact absurd (hset ▸ hsleep) (h check set htested hstate t)
      · have hsame : s.shared.checkAndSet check set = s.shared := if_neg hstate
        simp only [monitor, hsame] at hbefore hafter
        exact absurd (hbefore.symm.trans hafter) (by decide)

variable [DecidableEq ι]

/-- **When no wake-up is lost.** For any number of threads and every interleaving: in no state of the run does a thread
sleep for the state that is set, exactly when no `CheckAndSet` sets a state that somebody sleeps for. -/
theorem states_awake_iff (ops : List (Monitor.Op Call ι)) :
    (∀ pre, pre <+: ops → monitor.Awake (run monitor.step (Monitor.init ⟨.notStarted, none⟩) pre)) ↔
      Along monitor.step NoneMissed (Monitor.init ⟨.notStarted, none⟩) ops := by
  rw [along_awake_iff waits (awake_init _ _)]
  have hloop : InLoop (Monitor.init ⟨.notStarted, none⟩ : Monitor.St DownloadStateManager Call ι) := by
    intro t k ht
    cases ht
  have hawake : monitor.Awake (Monitor.init ⟨.notStarted, none⟩ : Monitor.St DownloadStateManager Call ι) := awake_init _ _
  have hnotifies : ∀ (s : Monitor.St DownloadStateManager Call ι) op, InLoop s ∧ monitor.Awake s → NoneMissed s op →
      InLoop (monitor.step s op) ∧ monitor.Awake (monitor.step s op) := by
    intro s op h hmissed
    exact ⟨inside_step again_waitState s op h.1, awake_step waits s op h.2 ((notifies_iff op h.1 h.2).2 hmissed)⟩
  exact along_congr monitor.step hnotifies (fun s op h => notifies_iff op h.1 h.2) ⟨hloop, hawake⟩ ops

/-- the calls in the middle of which a thread is are calls of a chunk, after their first wait -/
theorem again_ofChunk (k : Call) (hk : OfChunk k) (m : DownloadStateManager) (hgo : monitor.canGo k m = false) :
    monitor.again k = .waitState .aborted := by
  match k with
  | .getState => cases hgo
  | .setState _ => cases hgo
  | .checkAndSet _ _ => cases hgo
  | .waitState _ => exact absurd hk id
  | .checkAndWait check wait => exact congrArg Call.waitState hk.2

/-- in the calls of a chunk, threads sleep for `ABORTED` only -/
structure ChunkInv (s : Monitor.St DownloadStateManager Call ι) : Prop where
  inside : ∀ t k, (s.place t).call? = some k → k = .waitState .aborted
  awake : monitor.Awake s

/-- the calls that begin are those of a chunk -/
def ByChunk (_ : Monitor.St DownloadStateManager Call ι) : Monitor.Op Call ι → Prop
  | .call _ k => OfChunk k
  | _ => True

theorem chunk_step (s : Monitor.St DownloadStateManager Call ι) (op : Monitor.Op Call ι) (h : ChunkInv s)
    (hop : ByChunk s op) : ChunkInv (monitor.step s op) := by
  have htested : ∀ k, tested s op = some k → OfChunk k ∨ k = .waitState .aborted := by
    intro k hk
    rcases tested_cases hk with ⟨t, rfl⟩ | ⟨t, ht⟩
    · exact Or.inl hop
    · exact Or.inr (h.inside t k ht)
  have hmissed : NoneMissed s op := by
    intro check set hset _ t hsleep
    rcases htested _ hset with hchunk | habsurd
    · have haborted := h.inside t _ (by rw [hsleep]; rfl)
      rw [hchunk.2] at haborted
      cases haborted
    · cases habsurd
  have hloop : InLoop s := fun t k hk => ⟨_, h.inside t k hk⟩
  refine ⟨fun t k hk => ?_, awake_step waits s op h.awake ((notifies_iff op hloop h.awake).2 hmissed)⟩
  rcases call?_step op hk with hbefore | ⟨k', hk', hgo, rfl⟩
  · exact h.inside t k hbefore
  · rcases htested k' hk' with hchunk | rfl
    · exact again_ofChunk k' hchunk _ hgo
    · rfl

/-- **The callers of a chunk.** Whatever the threads of a chunk and its callers do, a thread sleeps only in `AbortDownload`,
and only while the state is not `ABORTED`. -/
theorem chunk_awake {ops : List (Monitor.Op Call ι)}
    (hops : Along monitor.step ByChunk (Monitor.init ⟨.notStarted, none⟩) ops) {t : ι} {k : Call}
    (hsleep : (run monitor.step (Monitor.init ⟨.notStarted, none⟩) ops).place t = .asleep k) :
    k = .waitState .aborted ∧ (run monitor.step (Monitor.init ⟨.notStarted, none⟩) ops).shared.state ≠ .aborted := by
  have hinit : ChunkInv (Monitor.init ⟨.notStarted, none⟩ : Monitor.St DownloadStateManager Call ι) :=
    ⟨fun _ _ h => (by cases h), awake_init _ _⟩
  have h := run_inv monitor.step chunk_step hinit hops
  have hk := h.inside t k (by rw [hsleep]; rfl)
  subst hk
  exact ⟨rfl, of_decide_eq_false (h.awake t _ hsleep)⟩

end NdnDash.Chunk.DownloadStateManager
