/-
Pieces put together, over any element type: what two lists of pieces have in common when the pieces correspond.

- `eq_of_flatten_eq`: pieces that are nowhere longer in the first list are the same if the whole is.
- `head?_flatten`: the wholes begin alike if every two pieces are the same or begin alike.
- `exists_forall₂`, `exists_of_forall₂`: corresponding lists, made and looked up.
- `forall₂_of_mapM`: the pieces two functions make of the same things correspond.
-/
import Mathlib.Tactic

namespace NdnDash.Pieces

variable {α : Type} {xs ys : List (List α)}

theorem length_flatten_le (h : List.Forall₂ (fun x y => x.length ≤ y.length) xs ys) :
    xs.flatten.length ≤ ys.flatten.length := by
  induction h with
  | nil => exact le_rfl
  | cons hxy _ ih =>
    rw [List.flatten_cons, List.flatten_cons, List.length_append, List.length_append]
    exact Nat.add_le_add hxy ih

theorem eq_of_flatten_eq (h : List.Forall₂ (fun x y => x.length ≤ y.length) xs ys) (heq : xs.flatten = ys.flatten) :
    xs = ys := by
  induction h with
  | nil => rfl
  | @cons x y xs ys hxy hrest ih =>
    rw [List.flatten_cons, List.flatten_cons] at heq
    have hlength := congrArg List.length heq
    have hle := length_flatten_le hrest
    rw [List.length_append, List.length_append] at hlength
    obtain ⟨hhead, htail⟩ := List.append_inj heq (by omega)
    rw [hhead, ih htail]

/-- two pieces that are the same, or begin with something else than `c` -/
def BeginAlike (c : α) (x y : List α) : Prop :=
  x = y ∨ x ≠ [] ∧ y ≠ [] ∧ x.head? ≠ some c ∧ y.head? ≠ some c

theorem head?_flatten {c : α} (h : List.Forall₂ (BeginAlike c) xs ys) :
    xs.flatten.head? = some c ↔ ys.flatten.head? = some c := by
  induction h with
  | nil => exact Iff.rfl
  | @cons x y xs ys hxy _ ih =>
    rw [List.flatten_cons, List.flatten_cons]
    rcases hxy with rfl | ⟨hx, hy, hxc, hyc⟩
    · cases x with
      | nil => exact ih
      | cons a x => exact Iff.rfl
    · rw [List.head?_append_of_ne_nil _ hx, List.head?_append_of_ne_nil _ hy]
      exact ⟨fun h => absurd h hxc, fun h => absurd h hyc⟩

section Corresponding

variable {β γ : Type} {R : β → γ → Prop} {l : List β} {l' : List γ}

theorem exists_forall₂ (h : ∀ a ∈ l, ∃ b, R a b) : ∃ l', List.Forall₂ R l l' := by
  induction l with
  | nil => exact ⟨[], .nil⟩
  | cons a l ih =>
    obtain ⟨b, hb⟩ := h a List.mem_cons_self
    obtain ⟨l', hl'⟩ := ih fun c hc => h c (List.mem_cons_of_mem _ hc)
    exact ⟨b :: l', .cons hb hl'⟩

theorem exists_of_forall₂ (h : List.Forall₂ R l l') {n : ℕ} {b : γ} (hb : l'[n]? = some b) :
    ∃ a, l[n]? = some a ∧ R a b := by
  induction h generalizing n with
  | nil => simp at hb
  | @cons a c l l' hac _ ih =>
    cases n with
    | zero => exact ⟨a, rfl, Option.some.inj hb ▸ hac⟩
    | succ n => exact ih hb

theorem exists_of_forall₂' (h : List.Forall₂ R l l') {n : ℕ} {a : β} (ha : l[n]? = some a) :
    ∃ b, l'[n]? = some b ∧ R a b :=
  exists_of_forall₂ h.flip ha

end Corresponding

section Made

variable {β : Type} {f g : β → Option (List α)} {l : List β}

theorem forall₂_of_mapM {R : List α → List α → Prop} (hR : ∀ a x y, f a = some x → g a = some y → R x y)
    (hf : l.mapM f = some xs) (hg : l.mapM g = some ys) : List.Forall₂ R xs ys := by
  induction l generalizing xs ys with
  | nil =>
    rw [List.mapM_nil, Option.pure_def, Option.some.injEq] at hf hg
    rw [← hf, ← hg]
    exact .nil
  | cons a l ih =>
    simp only [List.mapM_cons, Option.bind_eq_bind, Option.bind_eq_some_iff, Option.pure_def, Option.some.injEq] at hf hg
    obtain ⟨x, hx, xs, hxs, rfl⟩ := hf
    obtain ⟨y, hy, ys, hys, rfl⟩ := hg
    exact .cons (hR a x y hx hy) (ih hxs hys)

/-- functions that make the same pieces of a list make the same of each of its things -/
theorem exists_of_mapM (hf : l.mapM f = some xs) (hg : l.mapM g = some xs) {a : β} (ha : a ∈ l) :
    ∃ x, f a = some x ∧ g a = some x := by
  induction l generalizing xs with
  | nil => simp at ha
  | cons b l ih =>
    simp only [List.mapM_cons, Option.bind_eq_bind, Option.bind_eq_some_iff, Option.pure_def, Option.some.injEq] at hf hg
    obtain ⟨x, hx, xs, hxs, rfl⟩ := hf
    obtain ⟨y, hy, ys, hys, hcons⟩ := hg
    obtain ⟨rfl, rfl⟩ := List.cons.inj hcons
    rcases List.mem_cons.1 ha with rfl | ha
    · exact ⟨_, hx, hy⟩
    · exact ih hxs hys ha

end Made

end NdnDash.Pieces
