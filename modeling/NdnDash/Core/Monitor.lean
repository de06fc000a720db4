/-
Monitors: an object behind one lock, whose calls test a condition, sleep on a condition variable while it does not hold,
and do their work under the lock once it does. Any number of threads; the object, the calls and the condition variables
are parameters.

One step is what a thread does without giving up the lock: a call from its start to its first wait or to its end, or
from a wake-up to the next wait or to the end. A sleeper may also wake up for no reason.

- `step_shared`: the object sees the calls as single steps, where a call that cannot go on changes nothing (`attempt`).
- `awake_step`: a work that wakes the sleepers whose condition it makes true leaves no sleeper that could go on.
- `along_awake_iff`: no sleeper ever could go on in exactly the runs in which every work does so.
- `inside_step`: what holds of every call that has begun to wait holds of all that are in the middle of a call.
-/
import NdnDash.Core.Machine

namespace NdnDash

/-- the calls of a monitor -/
structure Monitor (σ κ γ : Type) where
  /-- the condition of the call -/
  canGo : κ → σ → Bool
  work : κ → σ → σ
  /-- the condition variable the call sleeps on -/
  cond : κ → γ
  /-- the condition variables whose sleepers the work wakes -/
  wakes : κ → σ → γ → Bool
  /-- the call as it goes on after a wait -/
  again : κ → κ

namespace Monitor

open Machine

variable {σ κ γ ι : Type}

/-- where a thread is -/
inductive Place (κ : Type) where
  | outside
  | asleep (call : κ)
  | woken (call : κ)
deriving DecidableEq

/-- the call a thread is in the middle of -/
def Place.call? : Place κ → Option κ
  | .outside => none
  | .asleep k => some k
  | .woken k => some k

/-- the object with its threads -/
structure St (σ κ ι : Type) where
  shared : σ
  place : ι → Place κ

inductive Op (κ ι : Type) where
  | call (t : ι) (k : κ)
  | resume (t : ι)
  | spurious (t : ι)
deriving DecidableEq

/-- nobody is inside -/
def init (s : σ) : St σ κ ι := ⟨s, fun _ => .outside⟩

variable (m : Monitor σ κ γ)

/-- a call as a single step -/
def attempt (s : σ) (k : κ) : σ := if m.canGo k s then m.work k s else s

/-- a sleeper after the work of `k` -/
def wake (k : κ) (s : σ) : Place κ → Place κ
  | .asleep k' => if m.wakes k s (m.cond k') then .woken k' else .asleep k'
  | p => p

/-- the call that a step tests, if any -/
def tested (s : St σ κ ι) : Op κ ι → Option κ
  | .call t k =>
    match s.place t with
    | .outside => some k
    | _ => none
  | .resume t =>
    match s.place t with
    | .woken k => some k
    | _ => none
  | .spurious _ => none

/-- no sleeper can go on -/
def Awake (s : St σ κ ι) : Prop := ∀ t k, s.place t = .asleep k → m.canGo k s.shared = false

/-- the work of `k` wakes the calls whose condition it makes true -/
def Covers (s : σ) (k k' : κ) : Prop :=
  m.canGo k' s = false → m.canGo k' (m.work k s) = true → m.wakes k s (m.cond k') = true

/-- a call that has to wait cannot go on where it waits -/
def Waits : Prop := ∀ k s, m.canGo k s = false → m.canGo (m.again k) s = false

/-- the call that is tested has just been made, or its thread was in the middle of it -/
theorem tested_cases {s : St σ κ ι} {op : Op κ ι} {k : κ} (h : tested s op = some k) :
    (∃ t, op = .call t k) ∨ ∃ t, (s.place t).call? = some k := by
  cases op with
  | call t k' =>
    simp only [tested] at h
    split at h
    · exact Or.inl ⟨t, by rw [Option.some.inj h]⟩
    · cases h
  | resume t =>
    simp only [tested] at h
    split at h
    · rename_i k' hplace
      exact Or.inr ⟨t, by rw [hplace, ← Option.some.inj h]; rfl⟩
    · cases h
  | spurious t => cases h

theorem awake_init (s : σ) : m.Awake (init s : St σ κ ι) := fun _ _ h => by cases h

variable [DecidableEq ι]

/-- a thread has the lock and tests its condition -/
def test (s : St σ κ ι) (t : ι) (k : κ) : St σ κ ι :=
  if m.canGo k s.shared then
    { shared := m.work k s.shared, place := Function.update (fun u => m.wake k s.shared (s.place u)) t .outside }
  else { s with place := Function.update s.place t (.asleep (m.again k)) }

def step (s : St σ κ ι) : Op κ ι → St σ κ ι
  | .call t k =>
    match s.place t with
    | .outside => m.test s t k
    | _ => s
  | .resume t =>
    match s.place t with
    | .woken k => m.test s t k
    | _ => s
  | .spurious t =>
    match s.place t with
    | .asleep k => { s with place := Function.update s.place t (.woken k) }
    | _ => s

/-- the step wakes the sleepers that it lets go on -/
def Notifies (s : St σ κ ι) (op : Op κ ι) : Prop :=
  ∀ k, tested s op = some k → m.canGo k s.shared = true → ∀ t k', s.place t = .asleep k' → m.Covers s.shared k k'

variable {m} {s : St σ κ ι}

/-! ## Steps -/

/-- a step is a test of a call, or the waking of a sleeper -/
theorem step_cases (m : Monitor σ κ γ) (s : St σ κ ι) (op : Op κ ι) :
    (∃ t k, tested s op = some k ∧ (∀ k', s.place t ≠ .asleep k') ∧ m.step s op = m.test s t k) ∨
    (tested s op = none ∧ (m.step s op).shared = s.shared ∧
      ∀ t k, (m.step s op).place t = .asleep k → s.place t = .asleep k) := by
  cases op with
  | call t k =>
    cases hplace : s.place t with
    | outside => exact Or.inl ⟨t, k, by simp [tested, hplace], by simp [hplace], by simp [step, hplace]⟩
    | asleep k' => exact Or.inr ⟨by simp [tested, hplace], by simp [step, hplace], by simp [step, hplace]⟩
    | woken k' => exact Or.inr ⟨by simp [tested, hplace], by simp [step, hplace], by simp [step, hplace]⟩
  | resume t =>
    cases hplace : s.place t with
    | outside => exact Or.inr ⟨by simp [tested, hplace], by simp [step, hplace], by simp [step, hplace]⟩
    | asleep k' => exact Or.inr ⟨by simp [tested, hplace], by simp [step, hplace], by simp [step, hplace]⟩
    | woken k => exact Or.inl ⟨t, k, by simp [tested, hplace], by simp [hplace], by simp [step, hplace]⟩
  | spurious t =>
    refine Or.inr ⟨rfl, ?_, fun u k hu => ?_⟩
    · cases hplace : s.place t <;> simp [step, hplace]
    · cases hplace : s.place t with
      | outside => simpa [step, hplace] using hu
      | woken k' => simpa [step, hplace] using hu
      | asleep k' =>
        simp only [step, hplace, Function.update_apply] at hu
        split_ifs at hu
        exact hu

theorem test_of_canGo {t : ι} {k : κ} (h : m.canGo k s.shared = true) :
    m.test s t k =
      { shared := m.work k s.shared, place := Function.update (fun u => m.wake k s.shared (s.place u)) t .outside } :=
  if_pos h

theorem test_of_not_canGo {t : ι} {k : κ} (h : m.canGo k s.shared = false) :
    m.test s t k = { s with place := Function.update s.place t (.asleep (m.again k)) } :=
  if_neg (by simp [h])

theorem test_shared (m : Monitor σ κ γ) (s : St σ κ ι) (t : ι) (k : κ) :
    (m.test s t k).shared = m.attempt s.shared k := by
  unfold test attempt
  split_ifs <;> rfl

/-- who sleeps after the work of a thread has slept before and has not been woken -/
theorem asleep_of_test {t u : ι} {k k' : κ} (hgo : m.canGo k s.shared = true)
    (hu : (m.test s t k).place u = .asleep k') :
    s.place u = .asleep k' ∧ m.wakes k s.shared (m.cond k') = false := by
  rw [test_of_canGo hgo] at hu
  simp only [Function.update_apply] at hu
  split_ifs at hu
  cases hplace : s.place u with
  | outside => simp [wake, hplace] at hu
  | woken k'' => simp [wake, hplace] at hu
  | asleep k'' =>
    rw [hplace, wake] at hu
    split_ifs at hu with hwakes
    cases hu
    exact ⟨rfl, by simpa using hwakes⟩

@[simp] theorem call?_wake (m : Monitor σ κ γ) (k : κ) (s : σ) (p : Place κ) : (m.wake k s p).call? = p.call? := by
  cases p with
  | outside => rfl
  | woken k' => rfl
  | asleep k' =>
    rw [wake]
    split_ifs <;> rfl

theorem call?_test {t u : ι} {k k' : κ} (hu : ((m.test s t k).place u).call? = some k') :
    (s.place u).call? = some k' ∨ m.canGo k s.shared = false ∧ k' = m.again k := by
  cases hgo : m.canGo k s.shared with
  | true =>
    rw [test_of_canGo hgo] at hu
    simp only [Function.update_apply] at hu
    split_ifs at hu with hut
    · cases hu
    · rw [call?_wake] at hu
      exact Or.inl hu
  | false =>
    rw [test_of_not_canGo hgo] at hu
    simp only [Function.update_apply] at hu
    split_ifs at hu
    · exact Or.inr ⟨rfl, (Option.some.inj hu).symm⟩
    · exact Or.inl hu

/-- who is in the middle of a call has been before, or begins to wait in the call that is tested -/
theorem call?_step {u : ι} {k' : κ} (op : Op κ ι) (hu : ((m.step s op).place u).call? = some k') :
    (s.place u).call? = some k' ∨ ∃ k, tested s op = some k ∧ m.canGo k s.shared = false ∧ k' = m.again k := by
  cases op with
  | call t k =>
    cases hplace : s.place t with
    | outside =>
      simp only [step, hplace] at hu
      exact (call?_test hu).imp_right fun h => ⟨k, by simp [tested, hplace], h⟩
    | asleep k'' => simp_all [step]
    | woken k'' => simp_all [step]
  | resume t =>
    cases hplace : s.place t with
    | outside => simp_all [step]
    | asleep k'' => simp_all [step]
    | woken k =>
      simp only [step, hplace] at hu
      exact (call?_test hu).imp_right fun h => ⟨k, by simp [tested, hplace], h⟩
  | spurious t =>
    cases hplace : s.place t with
    | outside => simp_all [step]
    | woken k'' => simp_all [step]
    | asleep k =>
      simp only [step, hplace, Function.update_apply] at hu
      split_ifs at hu with hut
      · rw [hut, hplace]
        exact Or.inl hu
      · exact Or.inl hu

/-- what a call comes to be when it waits, all that are in the middle of one are -/
theorem inside_step {P : κ → Prop} (hagain : ∀ k s, m.canGo k s = false → P (m.again k)) (s : St σ κ ι) (op : Op κ ι)
    (h : ∀ t k, (s.place t).call? = some k → P k) : ∀ t k, ((m.step s op).place t).call? = some k → P k := by
  intro t k ht
  rcases call?_step op ht with hbefore | ⟨k', -, hgo, rfl⟩
  · exact h t k hbefore
  · exact hagain k' s.shared hgo

/-! ## The object -/

theorem step_shared (m : Monitor σ κ γ) (s : St σ κ ι) (op : Op κ ι) :
    (m.step s op).shared = run m.attempt s.shared (tested s op).toList := by
  rcases step_cases m s op with ⟨t, k, htested, -, hstep⟩ | ⟨htested, hshared, -⟩
  · rw [hstep, htested, test_shared]
    rfl
  · rw [htested, hshared]
    rfl

/-! ## Sleepers -/

/-- a step that wakes whom it lets go on keeps the other sleepers waiting rightly -/
theorem awake_step (hwaits : m.Waits) (s : St σ κ ι) (op : Op κ ι) (h : m.Awake s) (hop : m.Notifies s op) :
    m.Awake (m.step s op) := by
  rcases step_cases m s op with ⟨t, k, htested, -, hstep⟩ | ⟨-, hshared, hplaces⟩
  · rw [hstep]
    intro u k' hu
    cases hgo : m.canGo k s.shared with
    | true =>
      obtain ⟨hplace, hsilent⟩ := asleep_of_test hgo hu
      rw [test_of_canGo hgo]
      by_contra hcan
      have hwakes := hop k htested hgo u k' hplace (h u k' hplace) (by simpa using hcan)
      rw [hsilent] at hwakes
      exact absurd hwakes (by decide)
    | false =>
      rw [test_of_not_canGo hgo] at hu ⊢
      simp only [Function.update_apply] at hu
      split_ifs at hu
      · cases hu
        exact hwaits k s.shared hgo
      · exact h u k' hu
  · intro u k hu
    rw [hshared]
    exact h u k (hplaces u k hu)

/-- a step that does not wake someone it lets go on leaves a sleeper behind -/
theorem not_awake_of_silent (op : Op κ ι) (hsilent : ¬ m.Notifies s op) : ¬ m.Awake (m.step s op) := by
  simp only [Notifies, Covers, not_forall] at hsilent
  obtain ⟨k, htested, hgo, u, k', hplace, -, hcan, hwakes⟩ := hsilent
  rcases step_cases m s op with ⟨t, k'', htested', hawake, hstep⟩ | ⟨htested', -, -⟩
  · rw [htested, Option.some.injEq] at htested'
    subst htested'
    have hne : u ≠ t := fun hu => hawake k' (hu ▸ hplace)
    intro hall
    rw [hstep, test_of_canGo hgo] at hall
    have hlost := hall u k' (by simp [hne, hplace, wake, hwakes])
    rw [hcan] at hlost
    exact absurd hlost (by decide)
  · rw [htested] at htested'
    exact absurd htested' (by simp)

/-- **When no wake-up is lost.** -/
theorem along_awake_iff (hwaits : m.Waits) (h : m.Awake s) (ops : List (Op κ ι)) :
    (∀ pre, pre <+: ops → m.Awake (run m.step s pre)) ↔ Along m.step m.Notifies s ops :=
  along_iff_of_first_bad m.step (awake_step hwaits) (fun _ hs => hs) (fun _ op _ => not_awake_of_silent op) h ops

end Monitor

end NdnDash
