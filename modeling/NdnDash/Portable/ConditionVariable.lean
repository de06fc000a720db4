/-
Model of the condition variable for older Windows (`MultiThreading.cpp` under `WINXPOROLDER`), with any number of threads.

A step is one critical section of `waitersCountLock`, or one call on the external mutex or the event. The event is a
manual-reset event: it stays set, and every thread that waits for it goes on, until it is reset. The two counts are bounded
by the number of threads; `waitGenerationCount` is a 32-bit `int` and wraps. Two values are kept beside the code's: the
number of completed waits and of granted releases. A signal grants one release, a broadcast one to every waiter that has
none.

- `Consistent`: `0 <= releaseCount <= waitersCount`, and no more waits are completed than releases granted.
- `OwnInv`: every waiter that has decided to leave has a release of its own.
- `consistent_of_own`: all states of a run are consistent if a waiter decides to leave only while there are more releases
  than waiters that have decided before it. The code does not look at that: `two_waiters_one_signal`.
-/
import NdnDash.Core.Machine
import Mathlib.Data.Set.Card

namespace NdnDash.Portable

open NdnDash.Machine

/-! ## Model -/

/-- `condition_variable_t`, without its lock -/
structure ConditionVariable where
  waitersCount : ℤ
  releaseCount : ℤ
  waitGenerationCount : Int32
  waitingEvent : Bool
deriving DecidableEq

/-- where a thread stands in `WaitCondition`, with its `currentGenerationCount` -/
inductive Pc where
  | outside
  | leaveMutex (currentGenerationCount : Int32)
  | waitForEvent (currentGenerationCount : Int32)
  | poll (currentGenerationCount : Int32)
  | enterMutex
  | lastSection
  | resetEvent
deriving DecidableEq

namespace ConditionVariable

/-- `InitCondition` -/
def init : ConditionVariable where
  waitersCount := 0
  releaseCount := 0
  waitGenerationCount := 0
  waitingEvent := false

/-- the condition that ends the loop of `WaitCondition` -/
def IsWaitDone (cv : ConditionVariable) (currentGenerationCount : Int32) : Prop :=
  cv.releaseCount > 0 ∧ cv.waitGenerationCount ≠ currentGenerationCount

instance (cv : ConditionVariable) (gen : Int32) : Decidable (cv.IsWaitDone gen) := inferInstanceAs (Decidable (_ ∧ _))

end ConditionVariable

structure St where
  cv : ConditionVariable
  /-- the thread that holds it -/
  externalMutex : Option ℕ
  pc : ℕ → Pc
  /-- number of waits that are over -/
  completed : ℤ
  /-- number of releases that signals and broadcasts have granted -/
  granted : ℤ

inductive Op where
  /-- the caller's calls on the external mutex -/
  | lock (t : ℕ)
  | unlock (t : ℕ)
  /-- one step of `WaitCondition` -/
  | wait (t : ℕ)
  /-- `SignalCondition` -/
  | signal
  /-- `BroadcastCondition` -/
  | broadcast
deriving DecidableEq

namespace St

def init : St where
  cv := .init
  externalMutex := none
  pc := fun _ => .outside
  completed := 0
  granted := 0

def goto (s : St) (t : ℕ) (p : Pc) : St := { s with pc := Function.update s.pc t p }

def lock (s : St) (t : ℕ) : St :=
  if s.pc t = .outside ∧ s.externalMutex = none then { s with externalMutex := some t } else s

def unlock (s : St) (t : ℕ) : St :=
  if s.pc t = .outside ∧ s.externalMutex = some t then { s with externalMutex := none } else s

/-- the first section of `WaitCondition`, which is called with the external mutex held -/
def enter (s : St) (t : ℕ) : St :=
  if s.externalMutex = some t then
    { s with cv := { s.cv with waitersCount := s.cv.waitersCount + 1 } }.goto t (.leaveMutex s.cv.waitGenerationCount)
  else s

/-- its last section -/
def leave (s : St) (t : ℕ) : St :=
  { s with
    cv := { s.cv with waitersCount := s.cv.waitersCount - 1, releaseCount := s.cv.releaseCount - 1 }
    completed := s.completed + 1 }.goto t (if s.cv.releaseCount - 1 = 0 then .resetEvent else .outside)

def wait (s : St) (t : ℕ) : St :=
  match s.pc t with
  | .outside => s.enter t
  | .leaveMutex gen => { s with externalMutex := none }.goto t (.waitForEvent gen)
  | .waitForEvent gen => if s.cv.waitingEvent = true then s.goto t (.poll gen) else s
  | .poll gen => s.goto t (if s.cv.IsWaitDone gen then .enterMutex else .waitForEvent gen)
  | .enterMutex => if s.externalMutex = none then { s with externalMutex := some t }.goto t .lastSection else s
  | .lastSection => s.leave t
  | .resetEvent => { s with cv := { s.cv with waitingEvent := false } }.goto t .outside

def signalCondition (s : St) : St :=
  if s.cv.waitersCount > s.cv.releaseCount then
    { s with
      cv := { s.cv with
        waitingEvent := true
        releaseCount := s.cv.releaseCount + 1
        waitGenerationCount := s.cv.waitGenerationCount + 1 }
      granted := s.granted + 1 }
  else s

def broadcastCondition (s : St) : St :=
  if s.cv.waitersCount > 0 then
    { s with
      cv := { s.cv with
        waitingEvent := true
        releaseCount := s.cv.waitersCount
        waitGenerationCount := s.cv.waitGenerationCount + 1 }
      granted := s.granted + (s.cv.waitersCount - s.cv.releaseCount) }
  else s

def step (s : St) : Op → St
  | .lock t => s.lock t
  | .unlock t => s.unlock t
  | .wait t => s.wait t
  | .signal => s.signalCondition
  | .broadcast => s.broadcastCondition

/-- the counts fit each other -/
structure Consistent (s : St) : Prop where
  nonneg : 0 ≤ s.cv.releaseCount
  le_waiters : s.cv.releaseCount ≤ s.cv.waitersCount
  completed_le : s.completed ≤ s.granted

/-- a waiter that runs its last section finds a release -/
def ReleaseLeft (s : St) : Op → Prop
  | .wait t => s.pc t = .lastSection → 0 < s.cv.releaseCount
  | _ => True

/-! ## The counts -/

variable {s : St} {t : ℕ}

@[simp] theorem pc_goto (s : St) (t : ℕ) (p : Pc) : (s.goto t p).pc = Function.update s.pc t p := rfl

/-- invariant: the releases are those granted and not yet used -/
structure Inv (s : St) : Prop where
  nonneg : 0 ≤ s.cv.releaseCount
  le_waiters : s.cv.releaseCount ≤ s.cv.waitersCount
  counted : s.completed + s.cv.releaseCount = s.granted

theorem inv_init : Inv init := ⟨le_rfl, le_rfl, rfl⟩

theorem Inv.consistent (h : Inv s) : Consistent s where
  nonneg := h.nonneg
  le_waiters := h.le_waiters
  completed_le := by
    have hcounted := h.counted
    have hnonneg := h.nonneg
    omega

theorem leave_inv (h : Inv s) (hleft : 0 < s.cv.releaseCount) (t : ℕ) : Inv (s.leave t) where
  nonneg := by
    change 0 ≤ s.cv.releaseCount - 1
    omega
  le_waiters := by
    have hle := h.le_waiters
    change s.cv.releaseCount - 1 ≤ s.cv.waitersCount - 1
    omega
  counted := by
    have hcounted := h.counted
    change s.completed + 1 + (s.cv.releaseCount - 1) = s.granted
    omega

/-- the counts are those of another state -/
theorem Inv.congr {s' : St} (h : Inv s) (hwaiters : s'.cv.waitersCount = s.cv.waitersCount)
    (hrelease : s'.cv.releaseCount = s.cv.releaseCount) (hcompleted : s'.completed = s.completed)
    (hgranted : s'.granted = s.granted) : Inv s' where
  nonneg := hrelease ▸ h.nonneg
  le_waiters := hrelease ▸ hwaiters ▸ h.le_waiters
  counted := hrelease ▸ hcompleted ▸ hgranted ▸ h.counted

theorem enter_inv (h : Inv s) (t : ℕ) : Inv (s.enter t) := by
  unfold enter
  split_ifs
  · have hle : s.cv.releaseCount ≤ s.cv.waitersCount + 1 := h.le_waiters.trans (by omega)
    exact ⟨h.nonneg, hle, h.counted⟩
  · exact h

theorem wait_inv (h : Inv s) (hleft : s.pc t = .lastSection → 0 < s.cv.releaseCount) : Inv (s.wait t) := by
  unfold wait
  cases hpc : s.pc t with
  | outside => exact enter_inv h t
  | leaveMutex gen => exact h.congr rfl rfl rfl rfl
  | waitForEvent gen =>
    simp only
    split_ifs
    · exact h.congr rfl rfl rfl rfl
    · exact h
  | poll gen => exact h.congr rfl rfl rfl rfl
  | enterMutex =>
    simp only
    split_ifs
    · exact h.congr rfl rfl rfl rfl
    · exact h
  | lastSection => exact leave_inv h (hleft hpc) t
  | resetEvent => exact h.congr rfl rfl rfl rfl

theorem signalCondition_inv (h : Inv s) : Inv s.signalCondition := by
  unfold signalCondition
  split_ifs with hwaiters
  · have hnonneg := h.nonneg
    have hcounted : s.completed + (s.cv.releaseCount + 1) = s.granted + 1 := by
      rw [← h.counted]
      ring
    exact ⟨by simp; omega, by simp; omega, hcounted⟩
  · exact h

theorem broadcastCondition_inv (h : Inv s) : Inv s.broadcastCondition := by
  unfold broadcastCondition
  split_ifs with hwaiters
  · have hcounted : s.completed + s.cv.waitersCount = s.granted + (s.cv.waitersCount - s.cv.releaseCount) := by
      rw [← h.counted]
      ring
    exact ⟨hwaiters.le, le_rfl, hcounted⟩
  · exact h

theorem step_inv (s : St) (op : Op) (h : Inv s) (hleft : ReleaseLeft s op) : Inv (step s op) := by
  cases op with
  | lock t =>
    rw [step, lock]
    split_ifs
    · exact h.congr rfl rfl rfl rfl
    · exact h
  | unlock t =>
    rw [step, unlock]
    split_ifs
    · exact h.congr rfl rfl rfl rfl
    · exact h
  | wait t => exact wait_inv h hleft
  | signal => exact signalCondition_inv h
  | broadcast => exact broadcastCondition_inv h

/-! ## A release for every waiter that leaves -/

/-- the thread has entered, and is counted as a waiter -/
def Inside (p : Pc) : Prop := p ≠ .outside ∧ p ≠ .resetEvent

/-- its poll has succeeded, and it has not left -/
def Decided (p : Pc) : Prop := p = .enterMutex ∨ p = .lastSection

theorem inside_of_decided {p : Pc} (h : Decided p) : Inside p := by
  rcases h with rfl | rfl
  · exact ⟨by decide, by decide⟩
  · exact ⟨by decide, by decide⟩

/-- a poll succeeds only while there are more releases than waiters whose polls have succeeded before -/
def OwnRelease (s : St) : Op → Prop
  | .wait t => ∀ gen, s.pc t = .poll gen → s.cv.IsWaitDone gen → ((standing Decided s.pc).ncard : ℤ) < s.cv.releaseCount
  | _ => True

/-- invariant: every waiter that has decided has a release of its own -/
structure OwnInv (s : St) : Prop where
  finite : (standing Inside s.pc).Finite
  waiters : ((standing Inside s.pc).ncard : ℤ) = s.cv.waitersCount
  decided : ((standing Decided s.pc).ncard : ℤ) ≤ s.cv.releaseCount

theorem ownInv_init : OwnInv init := by
  have hinside : standing Inside init.pc = ∅ := Set.eq_empty_of_forall_notMem fun t h => h.1 rfl
  have hdecided : standing Decided init.pc = ∅ :=
    Set.eq_empty_of_forall_notMem fun t h => (inside_of_decided h).1 rfl
  refine ⟨?_, ?_, ?_⟩
  · rw [hinside]
    exact Set.finite_empty
  · rw [hinside, Set.ncard_empty]
    rfl
  · rw [hdecided, Set.ncard_empty]
    exact le_rfl

theorem OwnInv.finite_decided (h : OwnInv s) : (standing Decided s.pc).Finite :=
  h.finite.subset fun _ ht => inside_of_decided ht

theorem OwnInv.decided_le_waiters (h : OwnInv s) : ((standing Decided s.pc).ncard : ℤ) ≤ s.cv.waitersCount := by
  rw [← h.waiters]
  exact_mod_cast Set.ncard_le_ncard (fun _ ht => inside_of_decided ht) h.finite

/-- a step that moves a thread without a change of the counts -/
theorem OwnInv.move {s' : St} {p : Pc} (h : OwnInv s) (hpc : s'.pc = Function.update s.pc t p)
    (hinside : Inside p ↔ Inside (s.pc t)) (hdecided : Decided p ↔ Decided (s.pc t))
    (hwaiters : s'.cv.waitersCount = s.cv.waitersCount) (hrelease : s'.cv.releaseCount = s.cv.releaseCount) :
    OwnInv s' := by
  have hin : standing Inside s'.pc = standing Inside s.pc := hpc ▸ standing_update hinside
  have hdec : standing Decided s'.pc = standing Decided s.pc := hpc ▸ standing_update hdecided
  exact ⟨hin ▸ h.finite, hin ▸ hwaiters ▸ h.waiters, hdec ▸ hrelease ▸ h.decided⟩

/-- a step that leaves the threads where they are, with no fewer releases for those that have decided -/
theorem OwnInv.stay {s' : St} (h : OwnInv s) (hpc : s'.pc = s.pc) (hwaiters : s'.cv.waitersCount = s.cv.waitersCount)
    (hdecided : ((standing Decided s.pc).ncard : ℤ) ≤ s'.cv.releaseCount) : OwnInv s' :=
  ⟨hpc ▸ h.finite, hpc ▸ hwaiters ▸ h.waiters, hpc ▸ hdecided⟩

theorem enter_ownInv (h : OwnInv s) (hpc : s.pc t = .outside) : OwnInv (s.enter t) := by
  unfold enter
  split_ifs
  · have hto : Inside (.leaveMutex s.cv.waitGenerationCount) := ⟨by simp, by simp⟩
    have hnew : t ∉ standing Inside s.pc := fun hin => hin.1 hpc
    have hdec : ¬ Decided (.leaveMutex s.cv.waitGenerationCount) := by simp [Decided]
    have hout : ¬ Decided (s.pc t) := by simp [Decided, hpc]
    refine ⟨?_, ?_, ?_⟩
    · rw [pc_goto, standing_update_to hto]
      exact h.finite.insert t
    · rw [pc_goto, standing_update_to hto, Set.ncard_insert_of_notMem hnew h.finite, Nat.cast_succ, h.waiters]
      rfl
    · rw [pc_goto, standing_update (iff_of_false hdec hout)]
      exact h.decided
  · exact h

theorem poll_ownInv {gen : Int32} (h : OwnInv s) (hpc : s.pc t = .poll gen)
    (hown : s.cv.IsWaitDone gen → ((standing Decided s.pc).ncard : ℤ) < s.cv.releaseCount) :
    OwnInv (s.goto t (if s.cv.IsWaitDone gen then .enterMutex else .waitForEvent gen)) := by
  have hin : Inside (s.pc t) := by simp [Inside, hpc]
  have hout : t ∉ standing Decided s.pc := by simp [mem_standing, Decided, hpc]
  split_ifs with hdone
  · have hto : Decided .enterMutex := Or.inl rfl
    refine ⟨?_, ?_, ?_⟩
    · rw [pc_goto, standing_update (iff_of_true (inside_of_decided hto) hin)]
      exact h.finite
    · rw [pc_goto, standing_update (iff_of_true (inside_of_decided hto) hin)]
      exact h.waiters
    · rw [pc_goto, standing_update_to hto, Set.ncard_insert_of_notMem hout h.finite_decided, Nat.cast_succ]
      exact hown hdone
  · exact h.move rfl (iff_of_true (by simp [Inside]) hin) (iff_of_false (by simp [Decided]) hout) rfl rfl

theorem leave_ownInv (h : OwnInv s) (hpc : s.pc t = .lastSection) : OwnInv (s.leave t) := by
  have hdec : t ∈ standing Decided s.pc := Or.inr hpc
  have hin : t ∈ standing Inside s.pc := inside_of_decided hdec
  have haway : ¬ Inside (if s.cv.releaseCount - 1 = 0 then .resetEvent else .outside) := by
    split_ifs
    · exact fun hto => hto.2 rfl
    · exact fun hto => hto.1 rfl
  have hcount := Set.ncard_sdiff_singleton_add_one hin h.finite
  have hcountDec := Set.ncard_sdiff_singleton_add_one hdec h.finite_decided
  have hwaiters := h.waiters
  have hdecided := h.decided
  refine ⟨?_, ?_, ?_⟩
  · rw [leave, pc_goto, standing_update_away haway]
    exact h.finite.subset Set.sdiff_subset
  · rw [leave, pc_goto, standing_update_away haway]
    change ((standing Inside s.pc \ {t}).ncard : ℤ) = s.cv.waitersCount - 1
    omega
  · rw [leave, pc_goto, standing_update_away (mt inside_of_decided haway)]
    change ((standing Decided s.pc \ {t}).ncard : ℤ) ≤ s.cv.releaseCount - 1
    omega

theorem wait_ownInv (h : OwnInv s) (hown : OwnRelease s (.wait t)) : OwnInv (s.wait t) := by
  unfold wait
  cases hpc : s.pc t with
  | outside => exact enter_ownInv h hpc
  | leaveMutex gen =>
    exact h.move rfl (by simp [Inside, hpc]) (by simp [Decided, hpc]) rfl rfl
  | waitForEvent gen =>
    simp only
    split_ifs
    · exact h.move rfl (by simp [Inside, hpc]) (by simp [Decided, hpc]) rfl rfl
    · exact h
  | poll gen => exact poll_ownInv h hpc (hown gen hpc)
  | enterMutex =>
    simp only
    split_ifs
    · exact h.move rfl (by simp [Inside, hpc]) (by simp [Decided, hpc]) rfl rfl
    · exact h
  | lastSection => exact leave_ownInv h hpc
  | resetEvent => exact h.move rfl (by simp [Inside, hpc]) (by simp [Decided, hpc]) rfl rfl

theorem step_ownInv (s : St) (op : Op) (h : OwnInv s) (hown : OwnRelease s op) : OwnInv (step s op) := by
  cases op with
  | lock t =>
    rw [step, lock]
    split_ifs
    · exact h.stay rfl rfl h.decided
    · exact h
  | unlock t =>
    rw [step, unlock]
    split_ifs
    · exact h.stay rfl rfl h.decided
    · exact h
  | wait t => exact wait_ownInv h hown
  | signal =>
    rw [step, signalCondition]
    split_ifs
    · exact h.stay rfl rfl (h.decided.trans (Int.le_add_one le_rfl))
    · exact h
  | broadcast =>
    rw [step, broadcastCondition]
    split_ifs
    · exact h.stay rfl rfl h.decided_le_waiters
    · exact h

/-- a waiter in its last section is one of those that have decided -/
theorem OwnInv.releaseLeft (h : OwnInv s) (op : Op) : ReleaseLeft s op := by
  cases op with
  | wait t =>
    intro hpc
    have hdec : t ∈ standing Decided s.pc := Or.inr hpc
    have hpos : 0 < (standing Decided s.pc).ncard := (Set.ncard_pos h.finite_decided).2 ⟨t, hdec⟩
    have hdecided := h.decided
    omega
  | _ => trivial

/-- **A release of one's own.** For every number of threads and every interleaving: if every successful poll finds more
releases than waiters that have decided before, the counts are consistent in all states of the run. -/
theorem consistent_of_own {ops : List Op} (hown : Along step OwnRelease init ops) :
    ∀ pre, pre <+: ops → Consistent (run step init pre) := by
  rintro pre ⟨post, rfl⟩
  have hpre : Along step OwnRelease init pre := ((along_append _ _ _ _ _).1 hown).1
  have hboth : ∀ s op, Inv s ∧ OwnInv s → OwnRelease s op → Inv (step s op) ∧ OwnInv (step s op) := fun s op h hok =>
    ⟨step_inv s op h.1 (h.2.releaseLeft op), step_ownInv s op h.2 hok⟩
  exact (run_inv step hboth ⟨inv_init, ownInv_init⟩ hpre).1.consistent

/-- two waiters and one broadcast: the second one polls while the first has decided and not left -/
def broadcastBoth : List Op :=
  [.lock 0, .wait 0, .wait 0, .lock 1, .wait 1, .wait 1, .broadcast, .wait 0, .wait 1, .wait 0, .wait 1, .wait 0, .wait 0,
    .unlock 0, .wait 1, .wait 1]

theorem consistent_broadcastBoth :
    (run step init broadcastBoth).completed = 2 ∧ ∀ pre, pre <+: broadcastBoth → Consistent (run step init pre) := by
  refine ⟨by decide, consistent_of_own ?_⟩
  have hfirst : standing Decided (run step init (broadcastBoth.take 9)).pc = ∅ := by
    apply Set.eq_empty_of_forall_notMem
    rintro (_ | _ | t) h
    · exact h.elim nofun nofun
    · exact h.elim nofun nofun
    · exact h.elim nofun nofun
  have hsecond : standing Decided (run step init (broadcastBoth.take 10)).pc ⊆ {0} := by
    rintro (_ | _ | t) h
    · rfl
    · exact h.elim nofun nofun
    · exact h.elim nofun nofun
  refine ⟨trivial, nofun, nofun, trivial, nofun, nofun, trivial, nofun, nofun, fun gen _ _ => ?_, fun gen _ _ => ?_, nofun,
    nofun, trivial, nofun, nofun, trivial⟩
  · change ((standing Decided (run step init (broadcastBoth.take 9)).pc).ncard : ℤ) < 2
    rw [hfirst, Set.ncard_empty]
    decide
  · change ((standing Decided (run step init (broadcastBoth.take 10)).pc).ncard : ℤ) < 2
    have hle := Set.ncard_le_ncard hsecond (Set.finite_singleton 0)
    rw [Set.ncard_singleton] at hle
    omega

/-- **Two waiters and one signal.** Both see the release before either has left; the second one takes the count to -1, and
two waits are completed for one release. -/
theorem two_waiters_one_signal :
    let ops : List Op := [.lock 0, .wait 0, .wait 0, .lock 1, .wait 1, .wait 1, .signal, .wait 0, .wait 1, .wait 0, .wait 1,
      .wait 0, .wait 0, .wait 0, .unlock 0, .wait 1, .wait 1]
    (run step init ops).cv.releaseCount = -1 ∧ (run step init ops).completed = 2 ∧ (run step init ops).granted = 1 ∧
    ¬ ∀ pre, pre <+: ops → Consistent (run step init pre) := by
  intro ops
  have hrelease : (run step init ops).cv.releaseCount = -1 := by decide
  refine ⟨hrelease, by decide, by decide, fun h => ?_⟩
  have hnonneg := (h ops (List.prefix_refl _)).nonneg
  rw [hrelease] at hnonneg
  exact absurd hnonneg (by decide)

end St

end NdnDash.Portable
