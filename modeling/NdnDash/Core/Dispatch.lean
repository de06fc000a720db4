/-
Items sorted into collections by their key, over any item, key and state types.

- `dispatch`: the loop of a program that goes through items and, for each, runs the first branch with its key, or else
  another action.
- `dispatch_fills`: in collections that the branches append to or assign it leaves the items sorted by key.
- `dispatch_addUnless`: in a list that the other action appends to it leaves the items no branch has a key for.
- `dispatch_last`: a part of the state that one branch assigns to is what the last item with its key gives.
- `dispatch_kept`: a part of the state that nothing changes; `dispatch_commutes`: a map of states that commutes with all.
- `sorted_perm`: the sorted items and the rest are all the items, each once.
-/
import Mathlib.Tactic

namespace NdnDash.Dispatch

open scoped List

variable {σ α β κ : Type} [DecidableEq κ]

/-- what is done for the items with a key -/
structure Branch (σ α κ : Type) where
  name : κ
  add : α → σ → σ

/-- one item -/
def step (key : α → κ) (branches : List (Branch σ α κ)) (other : α → σ → σ) (s : σ) (a : α) : σ :=
  match branches.find? (·.name = key a) with
  | some b => b.add a s
  | none => other a s

/-- all items, in order -/
def dispatch (key : α → κ) (branches : List (Branch σ α κ)) (other : α → σ → σ) (items : List α) (s : σ) : σ :=
  items.foldl (step key branches other) s

/-- the other action, but for the keys in `skipped` -/
def addUnless (key : α → κ) (skipped : List κ) (add : α → σ → σ) (a : α) (s : σ) : σ :=
  if key a ∈ skipped then s else add a s

/-! ## What is left -/

section Left

variable {key : α → κ} {branches : List (Branch σ α κ)} {other : α → σ → σ}

omit [DecidableEq κ] in
theorem foldl_append {f : σ → α → σ} {get : σ → List β} {g : α → List β} (h : ∀ s a, get (f s a) = get s ++ g a)
    (items : List α) (s : σ) : get (items.foldl f s) = get s ++ items.flatMap g := by
  induction items generalizing s with
  | nil => simp
  | cons a items ih => rw [List.foldl_cons, ih, h, List.flatMap_cons, List.append_assoc]

omit [DecidableEq κ] in
theorem flatMap_filter {p : α → Prop} [DecidablePred p] (conv : α → β) (items : List α) :
    items.flatMap (fun a => if p a then [conv a] else []) = (items.filter (p ·)).map conv := by
  induction items with
  | nil => rfl
  | cons a items ih =>
    rw [List.flatMap_cons, ih]
    by_cases h : p a
    · rw [if_pos h, List.filter_cons_of_pos (by simpa using h), List.map_cons, List.singleton_append]
    · rw [if_neg h, List.filter_cons_of_neg (by simpa using h), List.nil_append]

/-- a branch that is found -/
theorem find?_branch {a : α} {b : Branch σ α κ} (h : branches.find? (·.name = key a) = some b) :
    b ∈ branches ∧ b.name = key a := by
  have hname : b.name = key a := by simpa using List.find?_some h
  exact ⟨List.mem_of_find?_eq_some h, hname⟩

theorem notMem_of_find?_branch {a : α} (h : branches.find? (·.name = key a) = none) :
    key a ∉ branches.map (·.name) := by
  intro hmem
  obtain ⟨b, hb, hname⟩ := List.mem_map.1 hmem
  exact absurd hname (by simpa using List.find?_eq_none.1 h b hb)

theorem addUnless_kept {skipped : List κ} {add : α → σ → σ} {g : σ → β} (h : ∀ a s, g (add a s) = g s) (a : α)
    (s : σ) : g (addUnless key skipped add a s) = g s := by
  unfold addUnless
  split_ifs
  · rfl
  · exact h a s

/-- one more item `x` in the collection of the key `k`; a collection in `single` keeps the last item only -/
def put (single : List κ) (k : κ) (x : β) (c : κ × List β) : κ × List β :=
  if c.1 = k then (k, if k ∈ single then [x] else c.2 ++ [x]) else c

/-- the branches are those of the table, and in the collections of the state each does what `put` does -/
def Fills (single : List κ) (view : σ → List (κ × List β)) (branches : List (Branch σ α κ))
    (table : List (κ × (α → β))) : Prop :=
  List.Forall₂ (fun b e => b.name = e.1 ∧ ∀ a s, view (b.add a s) = (view s).map (put single e.1 (e.2 a)))
    branches table

/-- the items with the keys of the table -/
def sorted (key : α → κ) (table : List (κ × (α → β))) (items : List α) : List (κ × List β) :=
  table.map fun e => (e.1, (items.filter (key · = e.1)).map e.2)

section Filled

variable {single : List κ} {view : σ → List (κ × List β)} {table : List (κ × (α → β))}

theorem names_of_fills (h : Fills single view branches table) : branches.map (·.name) = table.map Prod.fst := by
  induction h with
  | nil => rfl
  | cons h _ ih => rw [List.map_cons, List.map_cons, h.1, ih]

theorem exists_of_fills (h : Fills single view branches table) {b : Branch σ α κ} (hb : b ∈ branches) :
    ∃ e ∈ table, b.name = e.1 ∧ ∀ a s, view (b.add a s) = (view s).map (put single e.1 (e.2 a)) := by
  induction h with
  | nil => exact absurd hb List.not_mem_nil
  | @cons b' e _ _ h _ ih =>
    rcases List.mem_cons.1 hb with rfl | hb
    · exact ⟨e, List.mem_cons_self, h⟩
    · obtain ⟨e', he', h'⟩ := ih hb
      exact ⟨e', List.mem_cons_of_mem _ he', h'⟩

/-- an item of the entry `e` -/
theorem map_put_sorted (hnodup : (table.map Prod.fst).Nodup) {e : κ × (α → β)} (he : e ∈ table) {items : List α} {a : α}
    (ha : key a = e.1) (hone : e.1 ∈ single → items.filter (key · = e.1) = []) :
    (sorted key table items).map (put single e.1 (e.2 a)) = sorted key table (items ++ [a]) := by
  rw [sorted, sorted, List.map_map]
  apply List.map_congr_left
  intro e' he'
  rw [Function.comp_apply, List.filter_append, List.map_append, put]
  by_cases hname : e'.1 = e.1
  · obtain rfl := List.inj_on_of_nodup_map hnodup he' he hname
    rw [if_pos rfl, List.filter_cons_of_pos (by simpa using ha)]
    split_ifs with hsingle
    · rw [hone hsingle]
      rfl
    · rfl
  · have hne : ¬ key a = e'.1 := by
      rw [ha]
      exact fun h => hname h.symm
    rw [if_neg hname, List.filter_cons_of_neg (by simpa using hne)]
    simp

/-- an item that is not in the table -/
theorem sorted_of_notMem {a : α} (ha : key a ∉ table.map Prod.fst) (items : List α) :
    sorted key table (items ++ [a]) = sorted key table items := by
  apply List.map_congr_left
  intro e he
  have hne : ¬ key a = e.1 := fun h => ha (h ▸ List.mem_map_of_mem he)
  rw [List.filter_append, List.filter_cons_of_neg (by simpa using hne)]
  simp

/-- **Filled collections.** Branches that fill empty collections leave the items sorted, if there is one at most for each
collection that keeps the last item only. -/
theorem dispatch_fills (h : Fills single view branches table) (hother : ∀ a s, view (other a s) = view s)
    (hnodup : (table.map Prod.fst).Nodup) {s : σ} (hs : view s = sorted key table []) {items : List α}
    (hone : ∀ k ∈ single, (items.filter (key · = k)).length ≤ 1) :
    view (dispatch key branches other items s) = sorted key table items := by
  -- the last item
  induction items using List.reverseRecOn with
  | nil => exact hs
  | append_singleton items a ih =>
    simp only [List.filter_append, List.length_append] at hone
    have hitems : view (dispatch key branches other items s) = sorted key table items := by
      apply ih
      intro k hk
      exact (Nat.le_add_right _ _).trans (hone k hk)
    have hlast : dispatch key branches other (items ++ [a]) s =
        step key branches other (dispatch key branches other items s) a := by
      rw [dispatch, List.foldl_append]
      rfl
    rw [hlast, step]
    cases hfind : branches.find? (·.name = key a) with
    | some b =>
      obtain ⟨hb, hname⟩ := find?_branch hfind
      obtain ⟨e, he, hkey, hput⟩ := exists_of_fills h hb
      have ha : key a = e.1 := hname.symm.trans hkey
      dsimp only
      rw [hput, hitems]
      apply map_put_sorted hnodup he ha
      intro hsingle
      have hle := hone e.1 hsingle
      rw [List.filter_cons_of_pos (by simpa using ha)] at hle
      exact List.eq_nil_of_length_eq_zero (by simpa using hle)
    | none =>
      have ha : key a ∉ table.map Prod.fst := by
        rw [← names_of_fills h]
        exact notMem_of_find?_branch hfind
      dsimp only
      rw [hother, hitems, sorted_of_notMem ha]

end Filled

/-- a part of the state that no branch changes and the other action appends to, but for the keys in `skipped` -/
theorem dispatch_addUnless {g : σ → List β} {conv : α → β} {skipped : List κ} {add : α → σ → σ}
    (hbranches : ∀ b ∈ branches, ∀ a s, g (b.add a s) = g s) (hadd : ∀ a s, g (add a s) = g s ++ [conv a])
    (items : List α) (s : σ) :
    g (dispatch key branches (addUnless key skipped add) items s) =
      g s ++ (items.filter (key · ∉ branches.map (·.name) ++ skipped)).map conv := by
  rw [← flatMap_filter]
  apply foldl_append
  intro s a
  unfold step
  cases hfind : branches.find? (·.name = key a) with
  | some b =>
    obtain ⟨hb, hname⟩ := find?_branch hfind
    have hmem : key a ∈ branches.map (·.name) ++ skipped :=
      List.mem_append_left _ (List.mem_map.2 ⟨b, hb, hname⟩)
    rw [if_neg (not_not.2 hmem), List.append_nil]
    exact hbranches b hb a s
  | none =>
    have hnot := notMem_of_find?_branch hfind
    dsimp only [addUnless]
    by_cases hskipped : key a ∈ skipped
    · rw [if_pos hskipped, if_neg (not_not.2 (List.mem_append_right _ hskipped)), List.append_nil]
    · rw [if_neg hskipped, if_pos, hadd]
      rw [List.mem_append, not_or]
      exact ⟨hnot, hskipped⟩

/-- a part of the state that one branch assigns to and nothing else changes -/
theorem dispatch_last {g : σ → β} {k : κ} {conv : α → β}
    (hset : ∀ b ∈ branches, b.name = k → ∀ a s, g (b.add a s) = conv a)
    (hkeep : ∀ b ∈ branches, b.name ≠ k → ∀ a s, g (b.add a s) = g s) (hk : k ∈ branches.map (·.name))
    (hother : ∀ a s, g (other a s) = g s) (items : List α) (s : σ) :
    g (dispatch key branches other items s) = ((items.filter (key · = k)).getLast?.map conv).getD (g s) := by
  -- the last item
  induction items using List.reverseRecOn with
  | nil => rfl
  | append_singleton items a ih =>
    have hlast : dispatch key branches other (items ++ [a]) s =
        step key branches other (dispatch key branches other items s) a := by
      rw [dispatch, List.foldl_append]
      rfl
    rw [hlast, step, List.filter_append]
    cases hfind : branches.find? (·.name = key a) with
    | some b =>
      obtain ⟨hb, hname⟩ := find?_branch hfind
      dsimp only
      by_cases ha : key a = k
      · rw [hset b hb (hname.trans ha), List.filter_cons_of_pos (by simpa using ha)]
        simp
      · rw [hkeep b hb (fun h => ha (hname.symm.trans h)), ih, List.filter_cons_of_neg (by simpa using ha)]
        simp
    | none =>
      have ha : key a ≠ k := fun h => notMem_of_find?_branch hfind (h ▸ hk)
      dsimp only
      rw [hother, ih, List.filter_cons_of_neg (by simpa using ha)]
      simp

/-- a part of the state that neither changes -/
theorem dispatch_kept {g : σ → β} (hbranches : ∀ b ∈ branches, ∀ a s, g (b.add a s) = g s)
    (hother : ∀ a s, g (other a s) = g s) (items : List α) (s : σ) :
    g (dispatch key branches other items s) = g s := by
  induction items generalizing s with
  | nil => rfl
  | cons a items ih =>
    change g (dispatch key branches other items (step key branches other s a)) = _
    rw [ih]
    unfold step
    cases hfind : branches.find? (·.name = key a) with
    | some b => exact hbranches b (List.mem_of_find?_eq_some hfind) a s
    | none => exact hother a s

/-- a map of states that both commute with -/
theorem dispatch_commutes {g : σ → σ} (hbranches : ∀ b ∈ branches, ∀ a s, g (b.add a s) = b.add a (g s))
    (hother : ∀ a s, g (other a s) = other a (g s)) (items : List α) (s : σ) :
    g (dispatch key branches other items s) = dispatch key branches other items (g s) := by
  induction items generalizing s with
  | nil => rfl
  | cons a items ih =>
    have hstep : g (step key branches other s a) = step key branches other (g s) a := by
      unfold step
      cases hfind : branches.find? (·.name = key a) with
      | some b => exact hbranches b (List.mem_of_find?_eq_some hfind) a s
      | none => exact hother a s
    calc g (dispatch key branches other (a :: items) s)
        = dispatch key branches other items (g (step key branches other s a)) := ih _
      _ = dispatch key branches other (a :: items) (g s) := by
          rw [hstep]
          rfl

end Left

/-! ## Sorted items -/

section Sorted

variable {key : α → κ} {table : List (κ × (α → β))} {rest : α → β}

/-- every item is in the collection of its key or in the rest, and in one of them only -/
theorem partition_perm (key : α → κ) {names : List κ} (h : names.Nodup) (items : List α) :
    (names.flatMap fun k => items.filter (key · = k)) ++ items.filter (key · ∉ names) ~ items := by
  induction names with
  | nil => simp
  | cons k names ih =>
    obtain ⟨hk, hnames⟩ := List.nodup_cons.1 h
    -- the rest without `k` is the items of `k` and the rest
    have hsplit : items.filter (key · = k) ++ items.filter (key · ∉ k :: names) ~ items.filter (key · ∉ names) := by
      have hfound : (items.filter (key · ∉ names)).filter (key · = k) = items.filter (key · = k) := by
        rw [List.filter_filter]
        apply List.filter_congr
        intro a _
        by_cases ha : key a = k
        · simp [ha, hk]
        · simp [ha]
      have hothers : (items.filter (key · ∉ names)).filter (fun a => !decide (key a = k)) =
          items.filter (key · ∉ k :: names) := by
        rw [List.filter_filter]
        apply List.filter_congr
        intro a _
        simp [List.mem_cons, not_or]
      have hperm := List.filter_append_perm (fun a => decide (key a = k)) (items.filter (key · ∉ names))
      rw [hfound, hothers] at hperm
      exact hperm
    calc ((k :: names).flatMap fun k => items.filter (key · = k)) ++ items.filter (key · ∉ k :: names)
        = items.filter (key · = k) ++ ((names.flatMap fun k => items.filter (key · = k)) ++
            items.filter (key · ∉ k :: names)) := by rw [List.flatMap_cons, List.append_assoc]
      _ ~ (names.flatMap fun k => items.filter (key · = k)) ++ (items.filter (key · = k) ++
            items.filter (key · ∉ k :: names)) := by
          rw [← List.append_assoc, ← List.append_assoc]
          exact List.perm_append_comm.append_right _
      _ ~ (names.flatMap fun k => items.filter (key · = k)) ++ items.filter (key · ∉ names) :=
          hsplit.append_left _
      _ ~ items := ih hnames

/-- what becomes of an item: what the table makes of its key, else what is made of the rest -/
def place (key : α → κ) (table : List (κ × (α → β))) (rest : α → β) (a : α) : β :=
  match table.find? (·.1 = key a) with
  | some e => e.2 a
  | none => rest a

theorem place_of_mem (h : (table.map Prod.fst).Nodup) {e : κ × (α → β)} (he : e ∈ table) {a : α} (ha : key a = e.1) :
    place key table rest a = e.2 a := by
  unfold place
  cases hfind : table.find? (·.1 = key a) with
  | none => exact absurd ha.symm (by simpa using List.find?_eq_none.1 hfind e he)
  | some e' =>
    have hname : e'.1 = e.1 := by
      have hfound : e'.1 = key a := by simpa using List.find?_some hfind
      rw [hfound, ha]
    rw [List.inj_on_of_nodup_map h (List.mem_of_find?_eq_some hfind) he hname]

theorem place_of_notMem {a : α} (ha : key a ∉ table.map Prod.fst) : place key table rest a = rest a := by
  unfold place
  cases hfind : table.find? (·.1 = key a) with
  | none => rfl
  | some e =>
    have hname : e.1 = key a := by simpa using List.find?_some hfind
    exact absurd (List.mem_map.2 ⟨e, List.mem_of_find?_eq_some hfind, hname⟩) ha

/-- **Sorted items.** The sorted items, and what is made of the rest, are what becomes of the items. -/
theorem sorted_perm (h : (table.map Prod.fst).Nodup) (items : List α) :
    (sorted key table items).flatMap Prod.snd ++ (items.filter (key · ∉ table.map Prod.fst)).map rest ~
      items.map (place key table rest) := by
  have hcollections : (sorted key table items).flatMap Prod.snd =
      ((table.map Prod.fst).flatMap fun k => items.filter (key · = k)).map (place key table rest) := by
    rw [sorted, List.flatMap_map, List.map_flatMap, List.flatMap_map]
    apply List.flatMap_congr
    intro e he
    apply List.map_congr_left
    intro a ha
    exact (place_of_mem h he (by simpa using (List.mem_filter.1 ha).2)).symm
  have hrest : (items.filter (key · ∉ table.map Prod.fst)).map rest =
      (items.filter (key · ∉ table.map Prod.fst)).map (place key table rest) := by
    apply List.map_congr_left
    intro a ha
    exact (place_of_notMem (of_decide_eq_true (List.mem_filter.1 ha).2)).symm
  calc (sorted key table items).flatMap Prod.snd ++ (items.filter (key · ∉ table.map Prod.fst)).map rest
      = (((table.map Prod.fst).flatMap fun k => items.filter (key · = k)) ++
          items.filter (key · ∉ table.map Prod.fst)).map (place key table rest) := by
        rw [hcollections, hrest, List.map_append]
    _ ~ items.map (place key table rest) := (partition_perm key h items).map _

end Sorted

end NdnDash.Dispatch
