/-
Reading a sequence of self-delimiting items. A `Reader` takes one item from the front of its input and leaves the
rest; `Reader.all` reads items until the input ends or one is refused. What is proved once here: the items before the
first refusal are the input before it (`all_exact`), and a sequence of written items is read back (`all_flatMap`).
-/
import Mathlib.Tactic

namespace NdnDash

/-- reads one item off the front, and something from every input it accepts -/
structure Reader (σ ε α : Type*) where
  run : List σ → Except ε (α × List σ)
  progress : ∀ {xs a rest}, run xs = .ok (a, rest) → ∃ taken, taken ≠ [] ∧ xs = taken ++ rest

namespace Reader

variable {σ ε α : Type*} (r : Reader σ ε α)

/-- at most `fuel` items -/
def loop (r : Reader σ ε α) : ℕ → List σ → List α × Option ε
  | 0, _ => ([], none)
  | _ + 1, [] => ([], none)
  | fuel + 1, xs =>
    match r.run xs with
    | .error e => ([], some e)
    | .ok (a, rest) => (a :: (r.loop fuel rest).1, (r.loop fuel rest).2)

/-- the items up to the first one that is refused, and why it is -/
def all (xs : List σ) : List α × Option ε := r.loop xs.length xs

theorem length_rest {xs rest : List σ} {a : α} (h : r.run xs = .ok (a, rest)) : rest.length < xs.length := by
  obtain ⟨taken, hne, rfl⟩ := r.progress h
  have hpos := List.length_pos_iff.mpr hne
  rw [List.length_append]
  omega

/-- fuel for every symbol is fuel enough -/
theorem loop_eq {fuel : ℕ} {xs : List σ} (h : xs.length ≤ fuel) : r.loop fuel xs = r.all xs := by
  induction hn : xs.length using Nat.strong_induction_on generalizing fuel xs with
  | _ n ih =>
    cases xs with
    | nil => cases fuel <;> rfl
    | cons x xs =>
      obtain ⟨fuel, rfl⟩ : ∃ f, fuel = f + 1 := ⟨fuel - 1, by simp at h; omega⟩
      cases hr : r.run (x :: xs) with
      | error e => simp only [all, List.length_cons, loop, hr]
      | ok p =>
        obtain ⟨a, rest⟩ := p
        have hlt := r.length_rest hr
        have h1 : r.loop fuel rest = r.all rest := ih rest.length (by omega) (by simp at h hlt; omega) rfl
        have h2 : r.loop xs.length rest = r.all rest := ih rest.length (by omega) (by simp at hlt; omega) rfl
        simp only [all, List.length_cons, loop, hr, h1, h2]

@[simp] theorem all_nil : r.all [] = ([], none) := rfl

theorem all_of_ok {xs rest : List σ} {a : α} (h : r.run xs = .ok (a, rest)) :
    r.all xs = (a :: (r.all rest).1, (r.all rest).2) := by
  obtain ⟨taken, hne, hxs⟩ := r.progress h
  cases xs with
  | nil => simp [hne] at hxs
  | cons x xs =>
    have hlt := r.length_rest h
    rw [List.length_cons] at hlt
    have hrest : r.loop xs.length rest = r.all rest := r.loop_eq (by omega)
    simp only [all, List.length_cons, loop, h] at hrest ⊢
    rw [hrest]

theorem all_of_error {xs : List σ} {e : ε} (hne : xs ≠ []) (h : r.run xs = .error e) : r.all xs = ([], some e) := by
  cases xs with
  | nil => exact absurd rfl hne
  | cons x xs => simp only [all, List.length_cons, loop, h]

/-! ## What was read is the input -/

/-- Where `w` gives an item's symbols back: the items before the first refusal are the input before it, and the
reader refuses what is left. -/
theorem all_exact {w : α → List σ} (hw : ∀ xs a rest, r.run xs = .ok (a, rest) → xs = w a ++ rest) (xs : List σ) :
    ∃ rest, xs = (r.all xs).1.flatMap w ++ rest ∧ ((r.all xs).2 = none ∧ rest = [] ∨
      ∃ e, (r.all xs).2 = some e ∧ rest ≠ [] ∧ r.run rest = .error e) := by
  induction hn : xs.length using Nat.strong_induction_on generalizing xs with
  | _ n ih =>
    by_cases hnil : xs = []
    · subst hnil
      exact ⟨[], by simp, .inl ⟨rfl, rfl⟩⟩
    · cases hr : r.run xs with
      | error e =>
        rw [r.all_of_error hnil hr]
        exact ⟨xs, by simp, .inr ⟨e, rfl, hnil, hr⟩⟩
      | ok p =>
        obtain ⟨a, rest⟩ := p
        have hlt := r.length_rest hr
        obtain ⟨left, hleft, hend⟩ := ih rest.length (by omega) rest rfl
        rw [r.all_of_ok hr]
        refine ⟨left, ?_, hend⟩
        rw [List.flatMap_cons, List.append_assoc, ← hleft]
        exact hw xs a rest hr

/-- every item was read off the front of some input -/
theorem mem_all {xs : List σ} {a : α} (h : a ∈ (r.all xs).1) : ∃ ys rest, r.run ys = .ok (a, rest) := by
  induction hn : xs.length using Nat.strong_induction_on generalizing xs with
  | _ n ih =>
    by_cases hnil : xs = []
    · subst hnil
      cases h
    · cases hr : r.run xs with
      | error e =>
        rw [r.all_of_error hnil hr] at h
        cases h
      | ok p =>
        obtain ⟨b, rest⟩ := p
        have hlt := r.length_rest hr
        rw [r.all_of_ok hr] at h
        obtain rfl | h := List.mem_cons.mp h
        · exact ⟨xs, rest, hr⟩
        · exact ih rest.length (by omega) h rfl

/-! ## What was written is read back -/

/-- written items, then input that the reader goes on with -/
theorem all_flatMap_append {β : Type*} {f : β → List σ} {g : β → α} {bs : List β}
    (h : ∀ b ∈ bs, ∀ rest, r.run (f b ++ rest) = .ok (g b, rest)) (rest : List σ) :
    r.all (bs.flatMap f ++ rest) = (bs.map g ++ (r.all rest).1, (r.all rest).2) := by
  induction bs with
  | nil => simp
  | cons b bs ih =>
    have hb := h b (by simp) (bs.flatMap f ++ rest)
    rw [List.flatMap_cons, List.append_assoc, r.all_of_ok hb, ih (fun c hc => h c (by simp [hc]))]
    simp

theorem all_flatMap {β : Type*} {f : β → List σ} {g : β → α} {bs : List β}
    (h : ∀ b ∈ bs, ∀ rest, r.run (f b ++ rest) = .ok (g b, rest)) : r.all (bs.flatMap f) = (bs.map g, none) := by
  have := r.all_flatMap_append h []
  simpa using this

end Reader

end NdnDash
