/-
The bounded buffers of the player with their threads: `MediaObjectBuffer` between the buffering thread and the decoders,
and `Buffer<T>` (`Buffer.h`) between the decoders and the renderers, which is the same code for frames and samples.

`Player.MediaObjectBuffer` has the calls as single steps. Here a call sleeps on `empty` (`PushBack`) or `full` (`Front`,
`GetFront`) and is woken by the others (`Core.Monitor`). Objects that `PopFront` takes out count as delivered.

- `attempt_inv`, `covers`: every call keeps the buffer sound, and wakes the calls whose condition it makes true.
- `buffer_threads`: with any number of threads, in every interleaving, the buffer is sound, producers sleep only while it
  is full and consumers only while it is empty, never both, and nobody once the end of the stream is set.
-/
import NdnDash.Core.Monitor
import NdnDash.Player.MediaObjectBuffer

namespace NdnDash.MediaObjectBuffer

open NdnDash.Machine NdnDash.Monitor

variable {α ι : Type}

/-! ## Model -/

/-- the two condition variables, by their names in the source -/
inductive Cond where
  | full
  | empty
deriving DecidableEq

inductive Call (α : Type) where
  | op (op : Op α)
  | front
  | popFront
deriving DecidableEq

/-- `PopFront`: `pop_front` of an empty deque is undefined -/
def popFront (s : St α) : Option (St α) :=
  match s.mediaobjects with
  | [] => none
  | object :: rest => some { s with mediaobjects := rest, delivered := s.delivered ++ [object] }

namespace Call

/-- the loops `while (... && !this->eos) SleepConditionVariableCS` -/
def canGo (maxcapacity : UInt32) (s : St α) : Call α → Bool
  | .op (.pushBack _) => s.mediaobjects.length < maxcapacity.toNat || s.eos
  | .op .getFront => !s.mediaobjects.isEmpty || s.eos
  | .front => !s.mediaobjects.isEmpty || s.eos
  | _ => true

def work (maxcapacity : UInt32) (s : St α) : Call α → Option (St α)
  | .op o => step maxcapacity (some s) o
  | .front => some s
  | .popFront => MediaObjectBuffer.popFront s

/-- what a call sleeps on; the calls without a loop never do -/
def cond : Call α → Cond
  | .op (.pushBack _) => .empty
  | _ => .full

/-- the condition variables that a call wakes at its end -/
def wakes (maxcapacity : UInt32) (s : St α) : Call α → Cond → Bool
  | .op (.pushBack _), c => decide (s.mediaobjects.length < maxcapacity.toNat ∧ c = .full)
  | .op .getFront, c => decide (s.mediaobjects ≠ [] ∧ c = .empty)
  | .op .clearTail, _ => decide (¬ tailSize s.mediaobjects.length < 1)
  | .op .clear, _ => true
  | .op (.setEOS _), _ => true
  | .front, _ => false
  | .popFront, c => decide (c = .empty)

end Call

/-- the buffer as a monitor; after undefined behaviour nobody goes on -/
def monitor (maxcapacity : UInt32) : Monitor (Option (St α)) (Call α) Cond where
  canGo k o := o.elim false fun s => k.canGo maxcapacity s
  work k o := o.bind fun s => k.work maxcapacity s
  cond := Call.cond
  wakes k o c := o.elim false fun s => k.wakes maxcapacity s c
  again := id

/-! ## What the buffer is for -/

/-- the sleepers sleep rightly -/
structure Waiting (maxcapacity : UInt32) (place : ι → Place (Call α)) (s : St α) : Prop where
  producers : ∀ t media, place t = .asleep (.op (.pushBack media)) → s.mediaobjects.length = maxcapacity.toNat
  consumers : ∀ t, place t = .asleep (.op .getFront) ∨ place t = .asleep .front → s.mediaobjects = []
  /-- the other calls do not wait -/
  only : ∀ t k, place t = .asleep k → (∃ media, k = .op (.pushBack media)) ∨ k = .op .getFront ∨ k = .front
  /-- with room for one object, producers and consumers do not wait for each other -/
  oneSide : maxcapacity ≠ 0 → ∀ t u media, place t = .asleep (.op (.pushBack media)) →
    ¬ (place u = .asleep (.op .getFront) ∨ place u = .asleep .front)
  /-- at the end of the stream nobody sleeps -/
  ended : s.eos = true → ∀ t k, place t ≠ .asleep k

/-! ## One call at a time -/

variable {maxcapacity : UInt32} {s s' : St α}

/-- the invariant, and with no capacity nothing is ever accepted -/
def InvAt (maxcapacity : UInt32) (o : Option (St α)) : Prop :=
  ∀ s, o = some s → Inv maxcapacity s ∧ (maxcapacity = 0 → s.accepted = [])

theorem popFront_inv (h : Inv maxcapacity s) (hpop : popFront s = some s') : Inv maxcapacity s' := by
  have hget := getFront_inv h
  cases hq : s.mediaobjects with
  | nil => simp [popFront, hq] at hpop
  | cons object rest =>
    simp only [popFront, hq, Option.some.injEq] at hpop
    simp only [getFront, hq] at hget
    exact hpop ▸ hget

/-- `ClearTail`, whatever its count comes to -/
theorem clearTail_cases (h : Inv maxcapacity s) (s' : St α) (htail : clearTail s = some s') :
    s' = s ∧ tailSize s.mediaobjects.length < 1 ∨
      s' = { s with mediaobjects := s.mediaobjects.take 1, deleted := s.deleted ++ s.mediaobjects.drop 1 } ∧
        ¬ tailSize s.mediaobjects.length < 1 := by
  by_cases hsize : tailSize s.mediaobjects.length < 1
  · rw [clearTail, if_pos hsize, Option.some.injEq] at htail
    exact Or.inl ⟨htail.symm, hsize⟩
  · have hcap : s.mediaobjects.length < 2 ^ 32 := h.bounded.trans_lt maxcapacity.toNat_lt
    have hfit : s.mediaobjects.length ≤ 2 ^ 31 := by
      by_contra hlarge
      exact hsize (tailSize_of_large (not_le.1 hlarge) hcap)
    rw [clearTail_spec hfit, Option.some.injEq] at htail
    exact Or.inr ⟨htail.symm, hsize⟩

theorem work_inv (h : Inv maxcapacity s) (k : Call α) (hwork : k.work maxcapacity s = some s') :
    Inv maxcapacity s' := by
  match k with
  | .front => exact Option.some.inj hwork ▸ h
  | .popFront => exact popFront_inv h hwork
  | .op (.pushBack media) => exact Option.some.inj hwork ▸ pushBack_inv h media
  | .op .getFront => exact Option.some.inj hwork ▸ getFront_inv h
  | .op (.setEOS value) =>
    rw [← Option.some.inj hwork]
    exact ⟨h.bounded, h.inOrder, h.accounted⟩
  | .op .clear =>
    simp only [Call.work, step, Option.bind_some, clear] at hwork
    split_ifs at hwork
    exact Option.some.inj hwork ▸ clear_inv h
  | .op .clearTail =>
    rcases clearTail_cases h s' hwork with ⟨rfl, -⟩ | ⟨rfl, -⟩
    · exact h
    · exact clearTail_inv h

/-- only a `PushBack` into a buffer with room accepts an object -/
theorem work_accepted (h : Inv maxcapacity s) (hcap : maxcapacity = 0) (k : Call α)
    (hwork : k.work maxcapacity s = some s') : s'.accepted = s.accepted := by
  match k with
  | .front => rw [Option.some.inj hwork]
  | .popFront =>
    simp only [Call.work, popFront] at hwork
    split at hwork
    · cases hwork
    · rw [← Option.some.inj hwork]
  | .op (.pushBack media) =>
    rw [← Option.some.inj hwork, pushBack]
    subst hcap
    split_ifs with hsleep hfull
    · rfl
    · rfl
    · exact absurd (Nat.zero_le _) hfull
  | .op .getFront =>
    rw [← Option.some.inj hwork, getFront]
    split <;> rfl
  | .op (.setEOS value) => rw [← Option.some.inj hwork]
  | .op .clear =>
    simp only [Call.work, step, Option.bind_some, clear] at hwork
    split_ifs at hwork
    rw [← Option.some.inj hwork]
  | .op .clearTail =>
    rcases clearTail_cases h s' hwork with ⟨rfl, -⟩ | ⟨rfl, -⟩
    · rfl
    · rfl

theorem attempt_inv (o : Option (St α)) (k : Call α) (h : InvAt maxcapacity o) :
    InvAt maxcapacity ((monitor maxcapacity).attempt o k) := by
  unfold Monitor.attempt
  split_ifs
  · intro s' hs'
    obtain ⟨s, rfl, hwork⟩ := Option.bind_eq_some_iff.1 hs'
    obtain ⟨hinv, hnone⟩ := h s rfl
    exact ⟨work_inv hinv k hwork, fun hcap => (work_accepted hinv hcap k hwork).trans (hnone hcap)⟩
  · exact h

/-- a call that lets a `PushBack` go on wakes the sleepers on `empty` -/
theorem wakes_empty (h : Inv maxcapacity s) (k : Call α) (hwork : k.work maxcapacity s = some s')
    (hfull : maxcapacity.toNat ≤ s.mediaobjects.length) (heos : s.eos = false)
    (hgo : s'.eos = false → s'.mediaobjects.length < maxcapacity.toNat) : k.wakes maxcapacity s .empty = true := by
  match k with
  | .popFront => rfl
  | .op .clear => rfl
  | .op (.setEOS value) => rfl
  | .front =>
    rw [← Option.some.inj hwork] at hgo
    exact absurd (hgo heos) (not_lt.2 hfull)
  | .op (.pushBack media) =>
    have hsame : pushBack maxcapacity s media = s := if_pos ⟨hfull, heos⟩
    rw [← Option.some.inj hwork, hsame] at hgo
    exact absurd (hgo heos) (not_lt.2 hfull)
  | .op .getFront =>
    cases hq : s.mediaobjects with
    | nil =>
      have hsame : getFront s = s := by simp only [getFront, hq]
      rw [← Option.some.inj hwork, hsame] at hgo
      exact absurd (hgo heos) (not_lt.2 hfull)
    | cons object rest => simp [Call.wakes, hq]
  | .op .clearTail =>
    rcases clearTail_cases h s' hwork with ⟨rfl, -⟩ | ⟨-, hsize⟩
    · exact absurd (hgo heos) (not_lt.2 hfull)
    · simpa [Call.wakes] using hsize

/-- a call that lets a `Front` or a `GetFront` go on wakes the sleepers on `full` -/
theorem wakes_full (h : Inv maxcapacity s) (k : Call α) (hwork : k.work maxcapacity s = some s')
    (hempty : s.mediaobjects = []) (heos : s.eos = false) (hgo : s'.eos = false → s'.mediaobjects ≠ []) :
    k.wakes maxcapacity s .full = true := by
  match k with
  | .op .clear => rfl
  | .op (.setEOS value) => rfl
  | .front =>
    rw [← Option.some.inj hwork] at hgo
    exact absurd hempty (hgo heos)
  | .popFront => simp [Call.work, popFront, hempty] at hwork
  | .op (.pushBack media) =>
    by_cases hroom : s.mediaobjects.length < maxcapacity.toNat
    · simp [Call.wakes, hroom]
    · have hsame : pushBack maxcapacity s media = s := if_pos ⟨not_lt.1 hroom, heos⟩
      rw [← Option.some.inj hwork, hsame] at hgo
      exact absurd hempty (hgo heos)
  | .op .getFront =>
    have hsame : getFront s = s := by simp only [getFront, hempty]
    rw [← Option.some.inj hwork, hsame] at hgo
    exact absurd hempty (hgo heos)
  | .op .clearTail =>
    rcases clearTail_cases h s' hwork with ⟨rfl, -⟩ | ⟨-, hsize⟩
    · exact absurd hempty (hgo heos)
    · simpa [Call.wakes] using hsize

/-- **The calls wake whom they let go on.** -/
theorem covers (o : Option (St α)) (h : InvAt maxcapacity o) (k k' : Call α) :
    (monitor maxcapacity).Covers o k k' := by
  intro hbefore hafter
  cases o with
  | none => simp [monitor] at hafter
  | some s =>
    obtain ⟨s', hwork, hgo⟩ : ∃ s', k.work maxcapacity s = some s' ∧ k'.canGo maxcapacity s' = true := by
      cases hwork : k.work maxcapacity s with
      | none => simp [monitor, hwork] at hafter
      | some s' => exact ⟨s', rfl, by simpa [monitor, hwork] using hafter⟩
    have hinv := (h s rfl).1
    change k'.canGo maxcapacity s = false at hbefore
    change k.wakes maxcapacity s k'.cond = true
    match k' with
    | .op (.pushBack media) =>
      simp only [Call.canGo, Bool.or_eq_false_iff, Bool.or_eq_true, decide_eq_false_iff_not, decide_eq_true_eq] at hbefore hgo
      exact wakes_empty hinv k hwork (not_lt.1 hbefore.1) hbefore.2 fun heos => hgo.resolve_right (by simp [heos])
    | .op .getFront =>
      simp [Call.canGo] at hbefore hgo
      exact wakes_full hinv k hwork hbefore.1 hbefore.2 fun heos => hgo.resolve_right (by simp [heos])
    | .front =>
      simp [Call.canGo] at hbefore hgo
      exact wakes_full hinv k hwork hbefore.1 hbefore.2 fun heos => hgo.resolve_right (by simp [heos])
    | .popFront => simp [Call.canGo] at hbefore
    | .op .clearTail => simp [Call.canGo] at hbefore
    | .op .clear => simp [Call.canGo] at hbefore
    | .op (.setEOS value) => simp [Call.canGo] at hbefore

/-! ## All threads -/

/-- the buffer is sound, and its sleepers cannot go on -/
structure ThreadsInv (maxcapacity : UInt32) (s : Monitor.St (Option (St α)) (Call α) ι) : Prop where
  shared : InvAt maxcapacity s.shared
  awake : (monitor maxcapacity).Awake s

theorem ThreadsInv.waiting {t : Monitor.St (Option (St α)) (Call α) ι} (h : ThreadsInv maxcapacity t)
    (hs : t.shared = some s) : Waiting maxcapacity t.place s := by
  have hgo : ∀ u k, t.place u = .asleep k → k.canGo maxcapacity s = false := by
    intro u k hu
    have hawake := h.awake u k hu
    rwa [hs] at hawake
  have hbounded := (h.shared s hs).1.bounded
  have hproducers : ∀ u media, t.place u = .asleep (.op (.pushBack media)) →
      s.mediaobjects.length = maxcapacity.toNat ∧ s.eos = false := by
    intro u media hu
    have hwait := hgo u _ hu
    simp [Call.canGo] at hwait
    exact ⟨le_antisymm hbounded hwait.1, hwait.2⟩
  have hconsumers : ∀ u, t.place u = .asleep (.op .getFront) ∨ t.place u = .asleep .front →
      s.mediaobjects = [] ∧ s.eos = false := by
    intro u hu
    rcases hu with hu | hu
    · have hwait := hgo u _ hu
      simpa [Call.canGo] using hwait
    · have hwait := hgo u _ hu
      simpa [Call.canGo] using hwait
  have honly : ∀ u k, t.place u = .asleep k →
      (∃ media, k = .op (.pushBack media)) ∨ k = .op .getFront ∨ k = .front := by
    intro u k hu
    have hwait := hgo u k hu
    match k with
    | .op (.pushBack media) => exact Or.inl ⟨media, rfl⟩
    | .op .getFront => exact Or.inr (Or.inl rfl)
    | .front => exact Or.inr (Or.inr rfl)
    | .popFront => simp [Call.canGo] at hwait
    | .op .clearTail => simp [Call.canGo] at hwait
    | .op .clear => simp [Call.canGo] at hwait
    | .op (.setEOS value) => simp [Call.canGo] at hwait
  refine ⟨fun u media hu => (hproducers u media hu).1, fun u hu => (hconsumers u hu).1, honly, ?_, ?_⟩
  · intro hcap u v media hu hv
    have hfull := (hproducers u media hu).1
    rw [(hconsumers v hv).1, List.length_nil] at hfull
    exact hcap (UInt32.toNat_inj.1 hfull.symm)
  · intro heos u k hu
    rcases honly u k hu with ⟨media, rfl⟩ | rfl | rfl
    · exact absurd heos (by simp [(hproducers u media hu).2])
    · exact absurd heos (by simp [(hconsumers u (Or.inl hu)).2])
    · exact absurd heos (by simp [(hconsumers u (Or.inr hu)).2])

variable [DecidableEq ι]

theorem threads_step (s : Monitor.St (Option (St α)) (Call α) ι) (op : Monitor.Op (Call α) ι)
    (h : ThreadsInv maxcapacity s) : ThreadsInv maxcapacity ((monitor maxcapacity).step s op) where
  shared := by
    rw [step_shared]
    exact run_inv' _ attempt_inv h.shared _
  awake := awake_step (fun _ _ hgo => hgo) s op h.awake fun k _ _ _ k' _ => covers s.shared h.shared k k'

/-- **The buffers with their threads.** For every capacity, any number of threads and every interleaving of their calls,
waits and wake-ups: the buffer is sound, what sleeps sleeps rightly, and without capacity nothing is ever accepted. -/
theorem buffer_threads [DecidableEq α] (maxcapacity : UInt32) (ops : List (Monitor.Op (Call α) ι)) (s : St α)
    (hs : (run (monitor maxcapacity).step (Monitor.init (some MediaObjectBuffer.init)) ops).shared = some s) :
    Sound maxcapacity s ∧
      Waiting maxcapacity (run (monitor maxcapacity).step (Monitor.init (some MediaObjectBuffer.init)) ops).place s ∧
      (maxcapacity = 0 → s.accepted = []) := by
  have hinit : ThreadsInv maxcapacity
      (Monitor.init (some MediaObjectBuffer.init) : Monitor.St (Option (St α)) (Call α) ι) := by
    refine ⟨fun s hs => ?_, awake_init _ _⟩
    rw [← Option.some.inj hs]
    exact ⟨inv_init maxcapacity, fun _ => rfl⟩
  have h := run_inv' (monitor maxcapacity).step threads_step hinit ops
  obtain ⟨hinv, hnone⟩ := h.shared s hs
  exact ⟨hinv.sound, h.waiting hs, hnone⟩

/-- room for one frame: the second producer sleeps, and is woken when the first frame is taken -/
def handover : List (Monitor.Op (Call ℕ) ℕ) :=
  [.call 0 (.op (.pushBack 10)), .call 1 (.op (.pushBack 11)), .call 2 (.op .getFront), .resume 1]

theorem buffer_threads_handover :
    (run (monitor 1).step (Monitor.init (some MediaObjectBuffer.init)) (handover.take 2)).place 1 =
      .asleep (.op (.pushBack 11)) ∧
    ∃ s, (run (monitor 1).step (Monitor.init (some MediaObjectBuffer.init)) handover).shared = some s ∧
      s.delivered = [10] ∧ s.mediaobjects = [11] ∧ Sound 1 s ∧
      Waiting 1 (run (monitor 1).step (Monitor.init (some MediaObjectBuffer.init)) handover).place s := by
  refine ⟨by decide, ⟨[11], false, [10, 11], [], [10], []⟩, by decide, rfl, rfl, ?_⟩
  obtain ⟨hsound, hwaiting, -⟩ := buffer_threads 1 handover ⟨[11], false, [10, 11], [], [10], []⟩ (by decide)
  exact ⟨hsound, hwaiting⟩

end NdnDash.MediaObjectBuffer
