/-
The search loop for a best element of a list, over any element and value types: an index and the value it was chosen
for, both replaced at every element that the loop accepts.

A loop that accepts the candidates below the value it has ends at the first candidate with the least value, unless no
candidate is below the value it started with.

- `Found`: what such a loop has found among the elements it has seen.
- `Found.accept`, `Found.reject`: one more element; `search_found`: the whole loop.
- `search_greatest`: the same for a loop that accepts the candidates above its value.
-/
import Mathlib.Order.OrderDual
import Mathlib.Tactic

namespace NdnDash.Search

variable {α κ : Type}

/-- the loop from index `i` on -/
def search (accepts : α → κ → Prop) [∀ a v, Decidable (accepts a v)] (value : α → κ) :
    List α → ℕ → ℕ × κ → ℕ × κ
  | [], _, best => best
  | a :: as, i, best => search accepts value as (i + 1) (if accepts a best.2 then (i, value a) else best)

/-- what has been found among `as`: nothing below the initial value, or the first of the least candidates -/
inductive Found [LinearOrder κ] (cand : α → Prop) (value : α → κ) (init : ℕ × κ) (as : List α) : ℕ × κ → Prop
  | nothing : (∀ a ∈ as, cand a → init.2 ≤ value a) → Found cand value init as init
  | least (i : ℕ) (a : α) : as[i]? = some a → cand a → value a < init.2 → (∀ b ∈ as, cand b → value a ≤ value b) →
      (∀ j b, j < i → as[j]? = some b → cand b → value a < value b) → Found cand value init as (i, value a)

section Least

variable [LinearOrder κ] {cand : α → Prop} {value : α → κ} {init best : ℕ × κ} {as : List α}

theorem Found.accept (h : Found cand value init as best) {a : α} (hcand : cand a) (hlt : value a < best.2) :
    Found cand value init (as ++ [a]) (as.length, value a) := by
  have hlast : (as ++ [a])[as.length]? = some a := by simp
  have hbelow : ∀ b ∈ as, cand b → value a < value b := by
    cases h with
    | nothing hall => exact fun b hb hc => hlt.trans_le (hall b hb hc)
    | least i c hget hc hc' hleast hfirst => exact fun b hb hcb => hlt.trans_le (hleast b hb hcb)
  have hinit : value a < init.2 := by
    cases h with
    | nothing hall => exact hlt
    | least i c hget hc hc' hleast hfirst => exact hlt.trans hc'
  refine .least as.length a hlast hcand hinit ?_ ?_
  · intro b hb hcb
    rcases List.mem_append.1 hb with hb | hb
    · exact (hbelow b hb hcb).le
    · rw [List.mem_singleton.1 hb]
  · intro j b hj hget hcb
    rw [List.getElem?_append_left hj] at hget
    exact hbelow b (List.mem_of_getElem? hget) hcb

/-- one more element that is not: it is no candidate or not below the value so far -/
theorem Found.reject (h : Found cand value init as best) {a : α} (hrest : cand a → best.2 ≤ value a) :
    Found cand value init (as ++ [a]) best := by
  cases h with
  | nothing hall =>
    refine .nothing fun b hb hcb => ?_
    rcases List.mem_append.1 hb with hb | hb
    · exact hall b hb hcb
    · rw [List.mem_singleton.1 hb] at hcb ⊢
      exact hrest hcb
  | least i c hget hc hc' hleast hfirst =>
    have hi : i < as.length := (List.getElem?_eq_some_iff.1 hget).1
    refine .least i c (by rw [List.getElem?_append_left hi]; exact hget) hc hc' ?_ ?_
    · intro b hb hcb
      rcases List.mem_append.1 hb with hb | hb
      · exact hleast b hb hcb
      · rw [List.mem_singleton.1 hb] at hcb ⊢
        exact hrest hcb
    · intro j b hj hgetj hcb
      rw [List.getElem?_append_left (hj.trans hi)] at hgetj
      exact hfirst j b hj hgetj hcb

theorem found_append (h : Found cand value init as best) (a : α) [Decidable (cand a ∧ value a < best.2)] :
    Found cand value init (as ++ [a]) (if cand a ∧ value a < best.2 then (as.length, value a) else best) := by
  split_ifs with haccept
  · exact h.accept haccept.1 haccept.2
  · exact h.reject fun hc => not_lt.1 fun hlt => haccept ⟨hc, hlt⟩

theorem search_found_from {accepts : α → κ → Prop} [∀ a v, Decidable (accepts a v)]
    (haccepts : ∀ a v, accepts a v ↔ cand a ∧ value a < v) (seen as : List α) (h : Found cand value init seen best) :
    Found cand value init (seen ++ as) (search accepts value as seen.length best) := by
  induction as generalizing seen best with
  | nil => rw [List.append_nil]; exact h
  | cons a as ih =>
    have hdec : Decidable (cand a ∧ value a < best.2) := decidable_of_iff _ (haccepts a best.2)
    have hstep := found_append h a
    have hite : (if accepts a best.2 then (seen.length, value a) else best) =
        if cand a ∧ value a < best.2 then (seen.length, value a) else best := by
      simp only [haccepts]
    have hrest := ih (seen ++ [a]) hstep
    rw [List.append_assoc, List.singleton_append, List.length_append, List.length_singleton] at hrest
    rw [search, hite]
    exact hrest

/-- **The search.** It ends at the first candidate with the least value, if one is below the initial value. -/
theorem search_found {accepts : α → κ → Prop} [∀ a v, Decidable (accepts a v)]
    (haccepts : ∀ a v, accepts a v ↔ cand a ∧ value a < v) (init : ℕ × κ) (as : List α) :
    Found cand value init as (search accepts value as 0 init) :=
  search_found_from haccepts [] as (.nothing fun _ ha => absurd ha List.not_mem_nil)

/-- **The search for a greatest value.** It ends at a candidate with the greatest value, if one is above the initial
value. -/
theorem search_greatest {accepts : α → κ → Prop} [hdec : ∀ a v, Decidable (accepts a v)]
    (haccepts : ∀ a v, accepts a v ↔ cand a ∧ v < value a) (init : ℕ × κ) (as : List α) :
    (search accepts value as 0 init = init ∧ ∀ a ∈ as, cand a → value a ≤ init.2) ∨
      ∃ i a, search accepts value as 0 init = (i, value a) ∧ as[i]? = some a ∧ cand a ∧ init.2 < value a ∧
        ∀ b ∈ as, cand b → value b ≤ value a := by
  -- the loop does not look at the order of the values
  have hdual := @search_found α κᵒᵈ _ cand (fun a => OrderDual.toDual (value a)) accepts hdec haccepts init as
  generalize hbest : search accepts value as 0 init = best
  have hfound : Found (κ := κᵒᵈ) cand (fun a => OrderDual.toDual (value a)) init as best := hbest ▸ hdual
  cases hfound with
  | nothing hall => exact Or.inl ⟨rfl, hall⟩
  | least i a hget hc hlt hleast hfirst => exact Or.inr ⟨i, a, rfl, hget, hc, hlt, hleast⟩

end Least

theorem search_index (accepts : α → κ → Prop) [∀ a v, Decidable (accepts a v)] (value : α → κ) (as : List α) (i : ℕ)
    (best : ℕ × κ) : (search accepts value as i best).1 = best.1 ∨
      ∃ j < as.length, (search accepts value as i best).1 = i + j := by
  induction as generalizing i best with
  | nil => exact Or.inl rfl
  | cons a as ih =>
    rw [search]
    rcases ih (i + 1) (if accepts a best.2 then (i, value a) else best) with h | ⟨j, hj, h⟩
    · rw [h]
      split_ifs
      · exact Or.inr ⟨0, by simp, rfl⟩
      · exact Or.inl rfl
    · exact Or.inr ⟨j + 1, by simpa using hj, by rw [h]; omega⟩

end NdnDash.Search
