/-
Draining a readable source: `read s len` answers a request for at most `len` items with some of them and the rest of
the source, or fails (`none`). An empty answer is the source's end mark.

- `Until read s lens outs`: reads of lengths `lens 0, lens 1, ..` from `s` answer with the non-empty blocks `outs` and
  then with the empty one.
- `HandsOut read Ok pending`: while `Ok`, every read hands out some of the next pending items, at least one if there is
  any. What is pending may depend on the lengths still to come, and so may `Ok`.
- `until_of_handsOut`: such a source is drained by any admitted lengths, and what is returned before the end mark is
  exactly what was pending.
-/
import Mathlib.Tactic

namespace NdnDash.Drain

variable {σ α : Type} (read : σ → ℕ → Option (List α × σ))

/-- the lengths after the first one -/
def later (lens : ℕ → ℕ) : ℕ → ℕ := fun n => lens (n + 1)

/-- reads of lengths `lens 0, lens 1, ..` answer with `outs`, all non-empty, and then with the empty block -/
inductive Until : σ → (ℕ → ℕ) → List (List α) → Prop
  | stop {s s' : σ} {lens : ℕ → ℕ} (h : read s (lens 0) = some ([], s')) : Until s lens []
  | more {s s' : σ} {lens : ℕ → ℕ} {out : List α} {outs : List (List α)} (h : read s (lens 0) = some (out, s'))
      (hne : out ≠ []) (hrest : Until s' (later lens) outs) : Until s lens (out :: outs)

/-- what is returned before the end mark is determined by the source and the lengths -/
theorem Until.unique {s : σ} {lens : ℕ → ℕ} {outs outs' : List (List α)} (h : Until read s lens outs)
    (h' : Until read s lens outs') : outs = outs' := by
  induction h generalizing outs' with
  | stop h =>
    cases h' with
    | stop _ => rfl
    | more h' hne' _ =>
      rw [h] at h'
      simp only [Option.some.injEq, Prod.mk.injEq] at h'
      exact absurd h'.1.symm hne'
  | more h hne _ ih =>
    cases h' with
    | stop h' =>
      rw [h] at h'
      simp only [Option.some.injEq, Prod.mk.injEq] at h'
      exact absurd h'.1 hne
    | more h' _ hrest' =>
      rw [h] at h'
      simp only [Option.some.injEq, Prod.mk.injEq] at h'
      obtain ⟨rfl, rfl⟩ := h'
      rw [ih hrest']

/-- while `Ok`, every read hands out some of the next pending items, at least one if there is any -/
def HandsOut (Ok : σ → (ℕ → ℕ) → Prop) (pending : σ → (ℕ → ℕ) → List α) : Prop :=
  ∀ s lens, Ok s lens → ∃ n s', 0 < n ∧ read s (lens 0) = some ((pending s lens).take n, s') ∧ Ok s' (later lens) ∧
    pending s' (later lens) = (pending s lens).drop n

/-- **Draining.** The reads reach the end mark and return exactly what was pending. -/
theorem until_of_handsOut {Ok : σ → (ℕ → ℕ) → Prop} {pending : σ → (ℕ → ℕ) → List α}
    (hread : HandsOut read Ok pending) {s : σ} {lens : ℕ → ℕ} (hs : Ok s lens) :
    ∃ outs, Until read s lens outs ∧ outs.flatten = pending s lens := by
  induction hk : (pending s lens).length using Nat.strong_induction_on generalizing s lens with
  | _ k ih =>
    obtain ⟨n, s', hn, hr, hs', hp'⟩ := hread s lens hs
    by_cases hp : pending s lens = []
    · rw [hp, List.take_nil] at hr
      exact ⟨[], .stop hr, hp.symm⟩
    · have hlt : (pending s' (later lens)).length < k := by
        have := List.length_pos_of_ne_nil hp
        rw [hp', ← hk, List.length_drop]
        omega
      obtain ⟨outs, hu, hf⟩ := ih _ hlt hs' rfl
      have hne : (pending s lens).take n ≠ [] := by
        simp only [ne_eq, List.take_eq_nil_iff, hp, or_false]
        omega
      refine ⟨_ :: outs, .more hr hne hu, ?_⟩
      rw [List.flatten_cons, hf, hp', List.take_append_drop]

end NdnDash.Drain
