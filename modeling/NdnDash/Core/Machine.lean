/-
Runs of a step machine, over any state and label types. A label that is not enabled leaves the state as it is, so
every list of labels is a run and an interleaving of several processes is a list of their labels.

- `run`: the state after a list of labels.
- `Along ok`: every label of the run is taken in a state that admits it (a condition on the schedule).
- `run_inv`: an invariant kept by every admitted step holds after every admitted run.
- `along_of_inv`: a condition that holds in the states of such an invariant is met along every run.
- `run_reaches`: a label that decreases a measure until some goal leads to it.
- `along_congr`: two conditions on the schedule that agree in every state with an invariant agree on runs.
- `along_iff_of_first_bad`: if the first step that is not admitted already leads to a bad state, then an admitted run
  is exactly a run without bad states.
- `standing`: the processes at places of some kind, and how a step of one of them changes them.
-/
import Mathlib.Tactic

namespace NdnDash.Machine

variable {σ α : Type} (step : σ → α → σ)

/-- the state after a list of labels -/
def run (s : σ) (ops : List α) : σ := ops.foldl step s

@[simp] theorem run_nil (s : σ) : run step s [] = s := rfl

@[simp] theorem run_cons (s : σ) (a : α) (ops : List α) : run step s (a :: ops) = run step (step s a) ops := rfl

theorem run_append (s : σ) (ops ops' : List α) : run step s (ops ++ ops') = run step (run step s ops) ops' := by
  simp [run, List.foldl_append]

/-- every label of the run is taken in a state that admits it -/
def Along (ok : σ → α → Prop) : σ → List α → Prop
  | _, [] => True
  | s, a :: ops => ok s a ∧ Along ok (step s a) ops

instance instDecidableAlong (ok : σ → α → Prop) [∀ s a, Decidable (ok s a)] : ∀ s ops, Decidable (Along step ok s ops)
  | _, [] => .isTrue trivial
  | s, a :: ops =>
    have := instDecidableAlong ok (step s a) ops
    inferInstanceAs (Decidable (ok s a ∧ Along step ok (step s a) ops))

theorem along_append (ok : σ → α → Prop) (s : σ) (ops ops' : List α) :
    Along step ok s (ops ++ ops') ↔ Along step ok s ops ∧ Along step ok (run step s ops) ops' := by
  induction ops generalizing s with
  | nil => simp [Along]
  | cons a ops ih => simp only [List.cons_append, Along, run_cons, ih]; tauto

/-- **Invariant rule.** What every admitted step keeps, every admitted run keeps. -/
theorem run_inv {Inv : σ → Prop} {ok : σ → α → Prop} (hstep : ∀ s a, Inv s → ok s a → Inv (step s a)) {s : σ}
    (hs : Inv s) {ops : List α} (hops : Along step ok s ops) : Inv (run step s ops) := by
  induction ops generalizing s with
  | nil => exact hs
  | cons a ops ih => exact ih (hstep s a hs hops.1) hops.2

/-- the invariant rule when every step is admitted -/
theorem run_inv' {Inv : σ → Prop} (hstep : ∀ s a, Inv s → Inv (step s a)) {s : σ} (hs : Inv s) (ops : List α) :
    Inv (run step s ops) := by
  induction ops generalizing s with
  | nil => exact hs
  | cons a ops ih => exact ih (hstep s a hs)

/-- a condition that holds in the states of an invariant which every step keeps is met along every run -/
theorem along_of_inv {Inv : σ → Prop} {ok : σ → α → Prop} (hstep : ∀ s a, Inv s → Inv (step s a))
    (hok : ∀ s a, Inv s → ok s a) {s : σ} (hs : Inv s) (ops : List α) : Along step ok s ops := by
  induction ops generalizing s with
  | nil => trivial
  | cons a ops ih => exact ⟨hok s a hs, ih (hstep s a hs)⟩

/-- **Comparison rule.** Conditions that agree in the states with `Inv` hold along the same runs, if the steps that meet
them keep `Inv`. -/
theorem along_congr {Inv : σ → Prop} {good ok : σ → α → Prop} (hstep : ∀ s a, Inv s → ok s a → Inv (step s a))
    (hiff : ∀ s a, Inv s → (good s a ↔ ok s a)) {s : σ} (hs : Inv s) (ops : List α) :
    Along step good s ops ↔ Along step ok s ops := by
  induction ops generalizing s with
  | nil => exact Iff.rfl
  | cons a ops ih =>
    constructor
    · intro h
      obtain ⟨ha, hops⟩ := h
      have hok := (hiff s a hs).1 ha
      exact ⟨hok, (ih (hstep s a hs hok)).1 hops⟩
    · intro h
      obtain ⟨hok, hops⟩ := h
      exact ⟨(hiff s a hs).2 hok, (ih (hstep s a hs hok)).2 hops⟩

/-- **Progress rule.** A label whose every step decreases a measure until `Done` leads to a state that is `Done`. -/
theorem run_reaches {Inv Done : σ → Prop} (μ : σ → ℕ) (a : α)
    (hstep : ∀ s, Inv s → ¬ Done s → Inv (step s a) ∧ μ (step s a) < μ s) {s : σ} (hs : Inv s) :
    ∃ n, Done (run step s (List.replicate n a)) := by
  induction hm : μ s using Nat.strong_induction_on generalizing s with
  | _ m ih =>
    by_cases hdone : Done s
    · exact ⟨0, hdone⟩
    · obtain ⟨hs', hlt⟩ := hstep s hs hdone
      obtain ⟨n, hn⟩ := ih _ (hm ▸ hlt) hs' rfl
      exact ⟨n + 1, hn⟩

/-- **Exactness of a schedule condition.** Suppose admitted steps keep `Inv`, `Inv` implies `Good`, and a step that is
not admitted from a state with `Inv` leads to a state that is not `Good`. Then all states of a run are `Good` exactly
when all its steps are admitted. -/
theorem along_iff_of_first_bad {Inv Good : σ → Prop} {ok : σ → α → Prop}
    (hstep : ∀ s a, Inv s → ok s a → Inv (step s a)) (hgood : ∀ s, Inv s → Good s)
    (hbad : ∀ s a, Inv s → ¬ ok s a → ¬ Good (step s a)) {s : σ} (hs : Inv s) (ops : List α) :
    (∀ pre, pre <+: ops → Good (run step s pre)) ↔ Along step ok s ops := by
  induction ops generalizing s with
  | nil =>
    refine ⟨fun _ => trivial, fun _ pre hpre => ?_⟩
    rw [List.prefix_nil.1 hpre]
    exact hgood s hs
  | cons a ops ih =>
    constructor
    · intro h
      have ha : ok s a := by
        by_contra hna
        exact hbad s a hs hna (h [a] ⟨ops, rfl⟩)
      exact ⟨ha, (ih (hstep s a hs ha)).1 fun pre hpre => h (a :: pre) (List.cons_prefix_cons.2 ⟨rfl, hpre⟩)⟩
    · intro h pre hpre
      obtain ⟨ha, hops⟩ := h
      cases pre with
      | nil => exact hgood s hs
      | cons b pre =>
        obtain ⟨rfl, htail⟩ := List.cons_prefix_cons.1 hpre
        exact (ih (hstep s b hs ha)).2 hops pre htail

/-! ## Processes at places -/

section Places

variable {ι π : Type} {P : π → Prop} {pc : ι → π} {i : ι} {p : π}

/-- the processes that stand at such a place -/
def standing (P : π → Prop) (pc : ι → π) : Set ι := {i | P (pc i)}

theorem mem_standing : i ∈ standing P pc ↔ P (pc i) := Iff.rfl

variable [DecidableEq ι]

/-- a process that goes between two such places, or two others -/
theorem standing_update (h : P p ↔ P (pc i)) : standing P (Function.update pc i p) = standing P pc := by
  ext j
  by_cases hj : j = i
  · simp [mem_standing, hj, h]
  · simp [mem_standing, hj]

/-- a process that goes to such a place -/
theorem standing_update_to (h : P p) : standing P (Function.update pc i p) = insert i (standing P pc) := by
  ext j
  by_cases hj : j = i
  · simp [mem_standing, hj, h]
  · simp [mem_standing, hj]

/-- a process that goes away -/
theorem standing_update_away (h : ¬ P p) : standing P (Function.update pc i p) = standing P pc \ {i} := by
  ext j
  by_cases hj : j = i
  · simp [mem_standing, hj, h]
  · simp [mem_standing, hj]

end Places

end NdnDash.Machine
