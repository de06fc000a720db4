/-
Words joined with one separator between them.

`join sep a b` puts `b` behind `a` with one `sep` in between, taking one from the end of `a` and one from the start of `b`
where they have it; an empty word adds nothing. With `closed` (the separator at the end) and `opened` (none at the start)
this is concatenation, so joining is a monoid (`join_assoc`) and a common right end can be cancelled (`join_left_inj`).
`joinAll` joins many words; they can be joined in groups (`joinAll_flatten`), and the empty ones left out.

`append_eq_append_iff_rotation`: a word can be moved from the front of `s` to its end exactly when it becomes a rotation
of itself and `s` repeats it.
-/
import Mathlib.Tactic

namespace NdnDash.Separated

variable {α : Type*} [DecidableEq α] {sep : α} {a b c s : List α}

/-- the word without the separator it begins with -/
def opened (sep : α) (w : List α) : List α := if w.head? = some sep then w.tail else w

/-- the word with a separator at its end; the empty word stays empty -/
def closed (sep : α) (w : List α) : List α := if w = [] ∨ w.getLast? = some sep then w else w ++ [sep]

/-- the words with one separator between them -/
def join (sep : α) (a b : List α) : List α := if a = [] then b else if b = [] then a else closed sep a ++ opened sep b

@[simp] theorem opened_nil : opened sep [] = [] := by simp [opened]

@[simp] theorem closed_nil : closed sep [] = [] := by simp [closed]

@[simp] theorem closed_eq_nil : closed sep a = [] ↔ a = [] := by
  unfold closed
  split_ifs with h
  · rfl
  · simp only [not_or] at h
    simp [h.1]

/-- a separator is added to a word that is not empty and does not end with one -/
theorem closed_eq_append : closed sep a = a ++ [sep] ↔ a ≠ [] ∧ a.getLast? ≠ some sep := by
  unfold closed
  split_ifs with h
  · refine iff_of_false (fun hself => ?_) (fun hne => h.elim hne.1 hne.2)
    exact absurd (List.self_eq_append_right.1 hself) (by simp)
  · exact iff_of_true rfl (not_or.1 h)

/-- a closed word that is not empty ends with the separator -/
theorem getLast?_closed (h : a ≠ []) : (closed sep a).getLast? = some sep := by
  unfold closed
  split_ifs with hl
  · exact hl.resolve_left h
  · simp

/-- closing a word behind a closed one is closing the whole -/
theorem closed_append (h : a ≠ []) : closed sep (closed sep a ++ b) = closed sep a ++ closed sep b := by
  by_cases hb : b = []
  · have hne : closed sep a ≠ [] := by simp [h]
    rw [hb, List.append_nil, closed_nil, List.append_nil, closed, if_pos (Or.inr (getLast?_closed h))]
  · have hlast : (closed sep a ++ b).getLast? = b.getLast? := by
      rw [List.getLast?_append]
      cases hg : b.getLast? with
      | none => exact absurd (List.getLast?_eq_none_iff.1 hg) hb
      | some x => rfl
    unfold closed at hlast ⊢
    split_ifs at hlast ⊢ <;> simp_all

/-- opening a word with something behind it -/
theorem opened_append (h : a ≠ []) : opened sep (a ++ b) = opened sep a ++ b := by
  cases a with
  | nil => exact absurd rfl h
  | cons x a =>
    by_cases hx : x = sep
    · simp [opened, hx]
    · simp [opened, hx]

/-- the two ends of a word do not meet: a separator alone is dropped either way -/
theorem closed_opened : closed sep (opened sep a) = opened sep (closed sep a) := by
  cases a with
  | nil => simp
  | cons x a =>
    by_cases hx : x = sep
    · cases a with
      | nil => simp [opened, closed, hx]
      | cons y a =>
        by_cases hl : (y :: a).getLast? = some sep
        · simp [opened, closed, hx, hl, List.getLast?_cons_cons]
        · simp [opened, closed, hx, hl, List.getLast?_cons_cons]
    · have hopen : opened sep (x :: a) = x :: a := by simp [opened, hx]
      have hclosed : opened sep (closed sep (x :: a)) = closed sep (x :: a) := by
        unfold closed opened
        split_ifs <;> simp_all
      rw [hopen, hclosed]

/-! ## The monoid -/

@[simp] theorem join_nil_left : join sep [] a = a := by simp [join]

@[simp] theorem join_nil_right : join sep a [] = a := by
  by_cases h : a = []
  · simp [join, h]
  · simp [join, h]

theorem join_of_ne (ha : a ≠ []) (hb : b ≠ []) : join sep a b = closed sep a ++ opened sep b := by
  rw [join, if_neg ha, if_neg hb]

theorem join_ne_nil (ha : a ≠ []) : join sep a b ≠ [] := by
  by_cases hb : b = []
  · simpa [hb] using ha
  · simp [join_of_ne ha hb, ha]

/-- what a word adds to the closed form of the one before it -/
theorem closed_join (ha : a ≠ []) : closed sep (join sep a b) = closed sep a ++ closed sep (opened sep b) := by
  by_cases hb : b = []
  · simp [hb]
  · rw [join_of_ne ha hb, closed_append ha]

theorem join_assoc : join sep (join sep a b) c = join sep a (join sep b c) := by
  by_cases ha : a = []
  · simp [ha]
  · by_cases hb : b = []
    · simp [hb]
    · by_cases hc : c = []
      · simp [hc]
      · calc join sep (join sep a b) c
            = closed sep (join sep a b) ++ opened sep c := join_of_ne (join_ne_nil ha) hc
          _ = closed sep a ++ (opened sep (closed sep b) ++ opened sep c) := by
            rw [closed_join ha, closed_opened, List.append_assoc]
          _ = closed sep a ++ opened sep (join sep b c) := by
            rw [join_of_ne hb hc, opened_append (mt closed_eq_nil.1 hb)]
          _ = join sep a (join sep b c) := (join_of_ne ha (join_ne_nil hb)).symm

/-- a common word at the end can be cancelled, up to the separator before it -/
theorem join_left_inj (ha : a ≠ []) (hb : b ≠ []) (hc : c ≠ []) :
    join sep a c = join sep b c ↔ closed sep a = closed sep b := by
  rw [join_of_ne ha hc, join_of_ne hb hc, List.append_left_inj]

/-! ## Many words -/

variable {ws : List (List α)}

/-- all words joined, from the left -/
def joinAll (sep : α) (ws : List (List α)) : List α := ws.foldl (join sep) []

@[simp] theorem joinAll_nil : joinAll sep [] = [] := rfl

/-- what is joined before the words can be joined to the whole of them -/
theorem foldl_join : ws.foldl (join sep) a = join sep a (joinAll sep ws) := by
  induction ws generalizing a with
  | nil => simp
  | cons w ws ih =>
    calc (w :: ws).foldl (join sep) a
        = join sep (join sep a w) (joinAll sep ws) := ih
      _ = join sep a (join sep (join sep [] w) (joinAll sep ws)) := by rw [join_assoc, join_nil_left]
      _ = join sep a (joinAll sep (w :: ws)) := congrArg (join sep a) ih.symm

theorem joinAll_cons (w : List α) (ws : List (List α)) : joinAll sep (w :: ws) = join sep w (joinAll sep ws) := by
  rw [joinAll, List.foldl_cons, join_nil_left, foldl_join]

theorem joinAll_append (ws vs : List (List α)) : joinAll sep (ws ++ vs) = join sep (joinAll sep ws) (joinAll sep vs) := by
  rw [joinAll, List.foldl_append, foldl_join]
  rfl

/-- words joined in groups -/
theorem joinAll_flatten (gs : List (List (List α))) : joinAll sep gs.flatten = joinAll sep (gs.map (joinAll sep)) := by
  induction gs with
  | nil => rfl
  | cons g gs ih => rw [List.flatten_cons, List.map_cons, joinAll_append, joinAll_cons, ih]

/-- empty words add nothing -/
theorem joinAll_filter (ws : List (List α)) : joinAll sep (ws.filter (· ≠ [])) = joinAll sep ws := by
  induction ws with
  | nil => rfl
  | cons w ws ih =>
    by_cases hw : w = []
    · rw [List.filter_cons_of_neg (by simpa using hw), ih, joinAll_cons, hw, join_nil_left]
    · rw [List.filter_cons_of_pos (by simpa using hw), joinAll_cons, joinAll_cons, ih]

end NdnDash.Separated

namespace NdnDash

/-! ## Rotations -/

/-- **Moving a word from the front to the end.** `p ++ s = s ++ q` exactly when `p` is `x ++ y`, `q` is its rotation
`y ++ x`, and `s` is some copies of `p` and then `x`. -/
theorem append_eq_append_iff_rotation {α : Type*} {p s q : List α} (hp : p ≠ []) :
    p ++ s = s ++ q ↔
      ∃ (x y : List α) (k : ℕ), p = x ++ y ∧ q = y ++ x ∧ s = (List.replicate k (x ++ y)).flatten ++ x := by
  constructor
  · intro h
    -- by induction on the length of `s`: as long as `p` fits in, it is split off
    induction hn : s.length using Nat.strong_induction_on generalizing s with
    | _ n ih =>
      rcases List.append_eq_append_iff.1 h with ⟨t, hs, hq⟩ | ⟨t, hp', hq⟩
      · have hlt : t.length < n := by
          have hpos := List.length_pos_of_ne_nil hp
          have hlen := congrArg List.length hs
          simp only [List.length_append] at hlen
          omega
        have hmove : p ++ t = t ++ q := by rw [← hs, hq]
        obtain ⟨x, y, k, hpx, hqx, ht⟩ := ih t.length hlt hmove rfl
        refine ⟨x, y, k + 1, hpx, hqx, ?_⟩
        rw [hs, ht, hpx, List.replicate_succ, List.flatten_cons, List.append_assoc (x ++ y)]
      · exact ⟨s, t, 0, hp', hq, by simp⟩
  · intro h
    obtain ⟨x, y, k, rfl, rfl, rfl⟩ := h
    have hcomm : ∀ z : List α, z ++ (List.replicate k z).flatten = (List.replicate k z).flatten ++ z := by
      intro z
      induction k with
      | zero => simp
      | succ k ih => rw [List.replicate_succ, List.flatten_cons, List.append_assoc, ← ih]
    rw [← List.append_assoc, hcomm]
    simp

end NdnDash
