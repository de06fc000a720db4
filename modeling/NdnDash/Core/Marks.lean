/-
A set of points and ranges of a linear order, kept as marks in descending order: a mark at `k` holds `k`, and with its
flag also everything above `k` up to the next mark. The mark at `⊥` starts a range that has no first point. One lookup
finds whether a point is in the set: the greatest mark that is not above it decides.

`mem_append` says which part of the list decides; the rest follows the split of the list at a bound.
-/
import Mathlib.Tactic
import Mathlib.Order.WithBot
import Mathlib.Data.List.TakeWhile

namespace NdnDash

variable {α : Type*} [LinearOrder α]

/-- a mark and whether its range is open above -/
abbrev Mark (α : Type*) := WithBot α × Bool

namespace Marks

/-- whether the mark `e`, the greatest not above `z`, holds `z` -/
def holds (e : Mark α) (z : α) : Bool := e.2 || e.1 = (z : WithBot α)

/-- the first mark not above `z` decides -/
def mem (z : α) (entries : List (Mark α)) : Bool :=
  match entries.find? (fun e => e.1 ≤ (z : WithBot α)) with
  | none => false
  | some e => holds e z

/-- the marks above `k` -/
def above (k : WithBot α) (entries : List (Mark α)) : List (Mark α) := entries.takeWhile (fun e => k < e.1)

/-- the marks from the lower bound of `k` on: those not above `k` -/
def notAbove (k : WithBot α) (entries : List (Mark α)) : List (Mark α) := entries.dropWhile (fun e => k < e.1)

theorem above_append_notAbove (k : WithBot α) (entries : List (Mark α)) : above k entries ++ notAbove k entries = entries :=
  List.takeWhile_append_dropWhile

theorem lt_of_mem_above {k : WithBot α} {entries : List (Mark α)} {e : Mark α} (h : e ∈ above k entries) : k < e.1 := by
  have := List.mem_takeWhile_imp h
  simpa using this

theorem le_of_mem_notAbove {k : WithBot α} {entries : List (Mark α)} (hsorted : entries.Pairwise (fun a b => b.1 < a.1))
    {e : Mark α} (h : e ∈ notAbove k entries) : e.1 ≤ k := by
  induction entries with
  | nil => cases h
  | cons a entries ih =>
    obtain ⟨ha, hrest⟩ := List.pairwise_cons.mp hsorted
    rw [notAbove, List.dropWhile_cons] at h
    split at h
    · exact ih hrest h
    · next hnot =>
      have hle : a.1 ≤ k := by simpa using hnot
      obtain rfl | h := List.mem_cons.mp h
      · exact hle
      · exact (ha e h).le.trans hle

/-- the part of the list that decides: the first, unless all of it is above the point -/
theorem mem_append {z : α} {as bs : List (Mark α)} :
    mem z (as ++ bs) = if ∃ e ∈ as, e.1 ≤ (z : WithBot α) then mem z as else mem z bs := by
  rw [mem, List.find?_append]
  split_ifs with h
  · obtain ⟨e, he, hle⟩ := h
    have hsome : (as.find? (fun e => e.1 ≤ (z : WithBot α))).isSome = true := by
      rw [List.find?_isSome]
      exact ⟨e, he, by simpa using hle⟩
    obtain ⟨e', he'⟩ := Option.isSome_iff_exists.mp hsome
    simp [mem, he']
  · have hnone : as.find? (fun e => e.1 ≤ (z : WithBot α)) = none := by
      rw [List.find?_eq_none]
      intro e he hle
      exact h ⟨e, he, by simpa using hle⟩
    simp [mem, hnone]

theorem mem_append_left {z : α} {as bs : List (Mark α)} (h : ∃ e ∈ as, e.1 ≤ (z : WithBot α)) :
    mem z (as ++ bs) = mem z as := by
  rw [mem_append, if_pos h]

theorem mem_append_right {z : α} {as bs : List (Mark α)} (h : ∀ e ∈ as, (z : WithBot α) < e.1) :
    mem z (as ++ bs) = mem z bs := by
  rw [mem_append, if_neg]
  rintro ⟨e, he, hle⟩
  exact absurd hle (not_le.mpr (h e he))

theorem mem_cons_of_le {z : α} {e : Mark α} {bs : List (Mark α)} (h : e.1 ≤ (z : WithBot α)) :
    mem z (e :: bs) = holds e z := by
  rw [mem, List.find?_cons_of_pos (by simpa using h)]

theorem mem_cons_of_lt {z : α} {e : Mark α} {bs : List (Mark α)} (h : (z : WithBot α) < e.1) :
    mem z (e :: bs) = mem z bs := by
  rw [mem, List.find?_cons_of_neg (by simpa using h), mem]

@[simp] theorem mem_nil (z : α) : mem z ([] : List (Mark α)) = false := rfl

/-! ## Operations -/

/-- a mark at `k` in front of those not above it, unless there is one already -/
def emplace (k : WithBot α) (any : Bool) : List (Mark α) → List (Mark α)
  | [] => [(k, any)]
  | (k', any') :: rest => if k' = k then (k', any') :: rest else (k, any) :: (k', any') :: rest

def insert (k : WithBot α) (any : Bool) (entries : List (Mark α)) : List (Mark α) :=
  above k entries ++ emplace k any (notAbove k entries)

/-- the marks from a range's start on: the lower bound itself if its range is open, otherwise a mark at `k` that is -/
def startAt (k : WithBot α) : List (Mark α) → List (Mark α)
  | [] => [(k, true)]
  | (k', any) :: rest =>
    if any then (k', any) :: rest else if k' = k then (k, true) :: rest else (k, true) :: (k', any) :: rest

/-- everything from `k` on -/
def addAfter (k : WithBot α) (entries : List (Mark α)) : List (Mark α) := startAt k (notAbove k entries)

/-- the end of a range at `hi`, between the marks above it and the start of the range: the marks inside the range go;
where the first of them is open nothing ends at `hi`, otherwise a mark there does -/
def endAt (hi : α) (higher inside start : List (Mark α)) : List (Mark α) :=
  match inside with
  | [] => higher ++ ((hi : WithBot α), false) :: start
  | (_, any) :: _ => if any then higher ++ start else higher ++ ((hi : WithBot α), false) :: start

/-- everything from `lo` to `hi` -/
def addRange (lo : WithBot α) (hi : α) (entries : List (Mark α)) : List (Mark α) :=
  endAt hi (above (hi : WithBot α) (above lo entries)) (notAbove (hi : WithBot α) (above lo entries))
    (startAt lo (notAbove lo entries))

/-- `lo` to `hi` is inside one open range, with no mark in between -/
def Swallowed (lo : WithBot α) (hi : α) (entries : List (Mark α)) : Prop :=
  notAbove (hi : WithBot α) (above lo entries) = [] ∧ ∃ e rest, notAbove lo entries = e :: rest ∧ e.2 = true

/-- descending; the mark at `⊥` marks no point and is there for its range only -/
def WF (entries : List (Mark α)) : Prop :=
  entries.Pairwise (fun a b => b.1 < a.1) ∧ ∀ e ∈ entries, e.1 = ⊥ → e.2 = true

theorem WF.above {k : WithBot α} {entries : List (Mark α)} (h : WF entries) : WF (above k entries) :=
  ⟨h.1.sublist (List.takeWhile_sublist _), fun e he => h.2 e ((List.takeWhile_sublist _).subset he)⟩

theorem WF.notAbove {k : WithBot α} {entries : List (Mark α)} (h : WF entries) : WF (notAbove k entries) :=
  ⟨h.1.sublist (List.dropWhile_sublist _), fun e he => h.2 e ((List.dropWhile_sublist _).subset he)⟩

theorem WF.append {as bs : List (Mark α)} (ha : WF as) (hb : WF bs) (h : ∀ a ∈ as, ∀ b ∈ bs, b.1 < a.1) :
    WF (as ++ bs) := by
  refine ⟨List.pairwise_append.mpr ⟨ha.1, hb.1, h⟩, ?_⟩
  intro e he
  obtain he | he := List.mem_append.mp he
  · exact ha.2 e he
  · exact hb.2 e he

theorem WF.cons {e : Mark α} {bs : List (Mark α)} (hb : WF bs) (hlt : ∀ b ∈ bs, b.1 < e.1)
    (hbot : e.1 = ⊥ → e.2 = true) : WF (e :: bs) := by
  refine ⟨List.pairwise_cons.mpr ⟨hlt, hb.1⟩, ?_⟩
  intro b hmem
  obtain rfl | hmem := List.mem_cons.mp hmem
  · exact hbot
  · exact hb.2 b hmem

/-- a mark above all others goes in front -/
theorem insert_of_lt {k : WithBot α} {entries : List (Mark α)} (h : ∀ e ∈ entries, e.1 < k) (any : Bool) :
    insert k any entries = (k, any) :: entries := by
  cases entries with
  | nil => rfl
  | cons e entries =>
    have hnot : ¬ k < e.1 := not_lt.mpr (h e List.mem_cons_self).le
    have hne : e.1 ≠ k := (h e List.mem_cons_self).ne
    have habove : above k (e :: entries) = [] := by rw [above, List.takeWhile_cons_of_neg (by simpa using hnot)]
    have hbelow : notAbove k (e :: entries) = e :: entries := by
      rw [notAbove, List.dropWhile_cons_of_neg (by simpa using hnot)]
    rw [insert, habove, hbelow, emplace, if_neg hne]
    rfl

/-! ### The start of a range -/

theorem le_of_mem_startAt {k : WithBot α} {rest : List (Mark α)} (h : ∀ e ∈ rest, e.1 ≤ k) :
    ∀ e ∈ startAt k rest, e.1 ≤ k := by
  intro e he
  cases rest with
  | nil =>
    obtain rfl := List.mem_singleton.mp he
    exact le_rfl
  | cons a rest =>
    obtain ⟨k', any⟩ := a
    rw [startAt] at he
    split_ifs at he
    · exact h e he
    · obtain rfl | he := List.mem_cons.mp he
      · exact le_rfl
      · exact h e (List.mem_cons_of_mem _ he)
    · obtain rfl | he := List.mem_cons.mp he
      · exact le_rfl
      · exact h e he

theorem startAt_wf {k : WithBot α} {rest : List (Mark α)} (hwf : WF rest) (h : ∀ e ∈ rest, e.1 ≤ k) :
    WF (startAt k rest) := by
  cases rest with
  | nil => exact ⟨List.pairwise_singleton _ _, fun e he _ => by obtain rfl := List.mem_singleton.mp he; rfl⟩
  | cons a rest =>
    obtain ⟨k', any⟩ := a
    obtain ⟨hhead, htail⟩ := List.pairwise_cons.mp hwf.1
    rw [startAt]
    split_ifs with hany hk
    · exact hwf
    · refine WF.cons ⟨htail, fun e he => hwf.2 e (List.mem_cons_of_mem _ he)⟩ ?_ (fun _ => rfl)
      intro b hb
      rw [← hk]
      exact hhead b hb
    · refine WF.cons hwf ?_ (fun _ => rfl)
      intro b hb
      have hlt : k' < k := lt_of_le_of_ne (h _ List.mem_cons_self) hk
      obtain rfl | hb := List.mem_cons.mp hb
      · exact hlt
      · exact (hhead b hb).trans hlt

theorem mem_startAt {k : WithBot α} {rest : List (Mark α)} (h : ∀ e ∈ rest, e.1 ≤ k) (z : α) :
    mem z (startAt k rest) = (decide (k ≤ (z : WithBot α)) || mem z rest) := by
  by_cases hz : k ≤ (z : WithBot α)
  · have hhead : ∃ e bs, startAt k rest = e :: bs ∧ e.1 ≤ k ∧ e.2 = true := by
      cases rest with
      | nil => exact ⟨_, _, rfl, le_rfl, rfl⟩
      | cons a rest =>
        obtain ⟨k', any⟩ := a
        rw [startAt]
        split_ifs with hany
        · exact ⟨_, _, rfl, h _ List.mem_cons_self, hany⟩
        · exact ⟨_, _, rfl, le_rfl, rfl⟩
        · exact ⟨_, _, rfl, le_rfl, rfl⟩
    obtain ⟨e, bs, heq, hle, hopen⟩ := hhead
    rw [heq, mem_cons_of_le (hle.trans hz), holds, hopen]
    simp [hz]
  · have hlt : (z : WithBot α) < k := not_le.mp hz
    cases rest with
    | nil =>
      rw [startAt, mem_cons_of_lt hlt]
      simp [hz]
    | cons a rest =>
      obtain ⟨k', any⟩ := a
      rw [startAt]
      split_ifs with hany hk
      · simp [hz]
      · subst hk
        rw [mem_cons_of_lt hlt, mem_cons_of_lt hlt]
        simp [hz]
      · rw [mem_cons_of_lt hlt]
        simp [hz]

/-! ### Where the marks come from -/

theorem key_of_mem_startAt {k : WithBot α} {rest : List (Mark α)} {e : Mark α} (h : e ∈ startAt k rest) :
    e.1 = k ∨ e ∈ rest := by
  cases rest with
  | nil =>
    obtain rfl := List.mem_singleton.mp h
    exact .inl rfl
  | cons a rest =>
    obtain ⟨k', any⟩ := a
    rw [startAt] at h
    split_ifs at h
    · exact .inr h
    · obtain rfl | h := List.mem_cons.mp h
      · exact .inl rfl
      · exact .inr (List.mem_cons_of_mem _ h)
    · obtain rfl | h := List.mem_cons.mp h
      · exact .inl rfl
      · exact .inr h

theorem mem_of_mem_above {k : WithBot α} {entries : List (Mark α)} {e : Mark α} (h : e ∈ above k entries) :
    e ∈ entries := (List.takeWhile_sublist _).subset h

theorem mem_of_mem_notAbove {k : WithBot α} {entries : List (Mark α)} {e : Mark α} (h : e ∈ notAbove k entries) :
    e ∈ entries := (List.dropWhile_sublist _).subset h

theorem key_of_mem_insert {k : WithBot α} {any : Bool} {entries : List (Mark α)} {e : Mark α}
    (h : e ∈ insert k any entries) : e.1 = k ∨ e ∈ entries := by
  obtain h | h := List.mem_append.mp h
  · exact .inr (mem_of_mem_above h)
  · have hof : ∀ e' ∈ notAbove k entries, e' ∈ entries := fun e' he' => mem_of_mem_notAbove he'
    cases hF : notAbove k entries with
    | nil =>
      rw [hF] at h
      obtain rfl := List.mem_singleton.mp h
      exact .inl rfl
    | cons a rest =>
      obtain ⟨k', any'⟩ := a
      rw [hF] at h hof
      rw [emplace] at h
      split_ifs at h
      · exact .inr (hof e h)
      · obtain rfl | h := List.mem_cons.mp h
        · exact .inl rfl
        · exact .inr (hof e h)

theorem key_of_mem_addRange {lo : WithBot α} {hi : α} {entries : List (Mark α)} {e : Mark α}
    (h : e ∈ addRange lo hi entries) : e.1 = lo ∨ e.1 = (hi : WithBot α) ∨ e ∈ entries := by
  have hstart : e ∈ startAt lo (notAbove lo entries) → e.1 = lo ∨ e.1 = (hi : WithBot α) ∨ e ∈ entries := by
    intro h
    obtain h | h := key_of_mem_startAt h
    · exact .inl h
    · exact .inr (.inr (mem_of_mem_notAbove h))
  have hwith : e ∈ above (hi : WithBot α) (above lo entries) ++ ((hi : WithBot α), false) :: startAt lo (notAbove lo entries) →
      e.1 = lo ∨ e.1 = (hi : WithBot α) ∨ e ∈ entries := by
    intro h
    obtain h | h := List.mem_append.mp h
    · exact .inr (.inr (mem_of_mem_above (mem_of_mem_above h)))
    · obtain rfl | h := List.mem_cons.mp h
      · exact .inr (.inl rfl)
      · exact hstart h
  unfold addRange endAt at h
  split at h
  · exact hwith h
  · split at h
    · obtain h | h := List.mem_append.mp h
      · exact .inr (.inr (mem_of_mem_above (mem_of_mem_above h)))
      · exact hstart h
    · exact hwith h

/-! ### What the end of a range holds -/

section Split

variable {lo : WithBot α} {hi z : α} {A M F start : List (Mark α)}

/-- where a mark above the range decides, nothing changes -/
theorem mem_endAt_of_higher (h : ∃ e ∈ A, e.1 ≤ (z : WithBot α)) : mem z (endAt hi A M start) = mem z (A ++ M ++ F) := by
  have hkept : ∀ bs, mem z (A ++ bs) = mem z A := fun bs => mem_append_left h
  rw [List.append_assoc, hkept]
  cases M with
  | nil => exact hkept _
  | cons m M =>
    rw [endAt]
    split_ifs <;> exact hkept _

/-- below the end of the range its start decides -/
theorem mem_endAt_of_lt (hall : ∀ e ∈ A, (z : WithBot α) < e.1) (hz : z < hi) : mem z (endAt hi A M start) = mem z start := by
  have hend : mem z (A ++ ((hi : WithBot α), false) :: start) = mem z start := by
    rw [mem_append_right hall, mem_cons_of_lt (WithBot.coe_lt_coe.mpr hz)]
  cases M with
  | nil => exact hend
  | cons m M =>
    rw [endAt]
    split_ifs
    · exact mem_append_right hall
    · exact hend

/-- from the end on, a mark there holds the end only -/
theorem mem_end (hall : ∀ e ∈ A, (z : WithBot α) < e.1) (hz : hi ≤ z) :
    mem z (A ++ ((hi : WithBot α), false) :: start) = decide (z = hi) := by
  rw [mem_append_right hall, mem_cons_of_le (WithBot.coe_le_coe.mpr hz)]
  simp [holds, eq_comm]

/-- behind a range with no mark inside, an open range that it starts in is cut off -/
theorem mem_split_nil (hlt : lo < hi) (hF : ∀ e ∈ F, e.1 ≤ lo) (hall : ∀ e ∈ A, (z : WithBot α) < e.1) (hz : hi ≤ z) :
    mem z (endAt hi A [] start) = true ↔
      (mem z F = true ∨ lo ≤ (z : WithBot α) ∧ z ≤ hi) ∧ ¬ ((∃ e rest, F = e :: rest ∧ e.2 = true) ∧ hi < z) := by
  have hloz : lo ≤ (z : WithBot α) := hlt.le.trans (WithBot.coe_le_coe.mpr hz)
  rw [endAt, mem_end hall hz]
  cases F with
  | nil =>
    simp only [mem_nil, decide_eq_true_eq, Bool.false_eq_true, false_or, hloz, true_and, reduceCtorEq, false_and,
      exists_false, not_false_eq_true, and_true]
    exact ⟨fun h => h.le, fun h => le_antisymm h hz⟩
  | cons f F =>
    have hflo : f.1 ≤ lo := hF f List.mem_cons_self
    have hfne : f.1 ≠ (z : WithBot α) := ne_of_lt (hflo.trans_lt (hlt.trans_le (WithBot.coe_le_coe.mpr hz)))
    rw [mem_cons_of_le (hflo.trans hloz)]
    cases hopen : f.2 with
    | true =>
      have hexists : ∃ e rest, f :: F = e :: rest ∧ e.2 = true := ⟨f, F, rfl, hopen⟩
      simp only [decide_eq_true_eq, holds, hopen, Bool.true_or, true_or, true_and, hexists, not_lt]
      exact ⟨fun h => h.le, fun h => le_antisymm h hz⟩
    | false =>
      have hexists : ¬ ∃ e rest, f :: F = e :: rest ∧ e.2 = true := by
        rintro ⟨e, rest, heq, he⟩
        cases heq
        rw [hopen] at he
        cases he
      simp only [decide_eq_true_eq, holds, hopen, hfne, decide_false, Bool.false_or, Bool.false_eq_true, false_or,
        hloz, true_and, hexists, false_and, not_false_eq_true, and_true]
      exact ⟨fun h => h.le, fun h => le_antisymm h hz⟩

/-- behind a range with a mark inside, that mark's own range goes on -/
theorem mem_split_cons {m : Mark α} (hm : lo < m.1) (hmhi : m.1 ≤ (hi : WithBot α))
    (hstart : mem z start = (decide (lo ≤ (z : WithBot α)) || mem z F)) (hall : ∀ e ∈ A, (z : WithBot α) < e.1)
    (hz : hi ≤ z) :
    mem z (endAt hi A (m :: M) start) = true ↔ mem z (m :: M ++ F) = true ∨ lo ≤ (z : WithBot α) ∧ z ≤ hi := by
  obtain ⟨k, any⟩ := m
  have hkz : k ≤ (z : WithBot α) := hmhi.trans (WithBot.coe_le_coe.mpr hz)
  have hloz : lo ≤ (z : WithBot α) := hm.le.trans hkz
  rw [endAt, List.cons_append, mem_cons_of_le hkz]
  cases any with
  | true =>
    rw [if_pos rfl, mem_append_right hall, hstart]
    simp [holds, hloz]
  | false =>
    rw [if_neg (by simp), mem_end hall hz]
    simp only [holds, Bool.false_or, decide_eq_true_eq, hloz, true_and]
    constructor
    · rintro rfl
      exact .inr le_rfl
    · rintro (h | h)
      · rw [h] at hmhi
        exact le_antisymm (WithBot.coe_le_coe.mp hmhi) hz
      · exact le_antisymm h hz

/-- the marks above the range, those inside it and those at or below its start, and what the start becomes -/
theorem mem_split (hlt : lo < hi)
    (hA : ∀ e ∈ A, (hi : WithBot α) < e.1) (hM : ∀ e ∈ M, lo < e.1 ∧ e.1 ≤ (hi : WithBot α)) (hF : ∀ e ∈ F, e.1 ≤ lo)
    (hstart : mem z start = (decide (lo ≤ (z : WithBot α)) || mem z F)) :
    mem z (endAt hi A M start) = true ↔
      (mem z (A ++ M ++ F) = true ∨ lo ≤ (z : WithBot α) ∧ z ≤ hi) ∧
        ¬ ((M = [] ∧ ∃ e rest, F = e :: rest ∧ e.2 = true) ∧ hi < z ∧ ∀ e ∈ A ++ M, (z : WithBot α) < e.1) := by
  by_cases hAz : ∃ e ∈ A, e.1 ≤ (z : WithBot α)
  · obtain ⟨e, he, hez⟩ := hAz
    have hhiz : hi < z := WithBot.coe_lt_coe.mp ((hA e he).trans_le hez)
    have hnot : ¬ ∀ e ∈ A ++ M, (z : WithBot α) < e.1 := by
      intro h
      exact absurd hez (not_le.mpr (h e (List.mem_append_left _ he)))
    rw [mem_endAt_of_higher (F := F) ⟨e, he, hez⟩]
    simp only [hnot, not_le.mpr hhiz, and_false, or_false, not_false_eq_true, and_true]
  · have hall : ∀ e ∈ A, (z : WithBot α) < e.1 := by
      intro e he
      by_contra h
      exact hAz ⟨e, he, not_lt.mp h⟩
    rw [List.append_assoc, mem_append_right hall]
    rcases lt_or_ge z hi with hz | hz
    · rw [mem_endAt_of_lt hall hz, hstart]
      by_cases hloz : lo ≤ (z : WithBot α)
      · simp [hloz, hz.le, not_lt.mpr hz.le]
      · -- below the range only the marks below it matter
        have hM' : ∀ e ∈ M, (z : WithBot α) < e.1 := fun e he => (not_le.mp hloz).trans (hM e he).1
        rw [mem_append_right hM']
        simp [hloz, not_lt.mpr hz.le]
    · cases M with
      | nil =>
        rw [mem_split_nil hlt hF hall hz, List.nil_append, List.append_nil, and_iff_left hall, and_iff_right rfl]
      | cons m M =>
        rw [mem_split_cons (hM m List.mem_cons_self).1 (hM m List.mem_cons_self).2 hstart hall hz]
        simp

end Split

/-! ### What the operations hold -/

section

variable {entries : List (Mark α)} (hwf : WF entries)

include hwf

theorem le_notAbove (k : WithBot α) : ∀ e ∈ notAbove k entries, e.1 ≤ k := fun _ he => le_of_mem_notAbove hwf.1 he

omit hwf in
/-- below a bound only the marks not above it count -/
theorem mem_of_lt {z : α} {k : WithBot α} (h : (z : WithBot α) < k) : mem z entries = mem z (notAbove k entries) := by
  nth_rewrite 1 [← above_append_notAbove k entries]
  exact mem_append_right (fun e he => h.trans (lt_of_mem_above he))

theorem mem_addAfter (k z : α) :
    mem z (addAfter (k : WithBot α) entries) = (mem z entries || decide (k ≤ z)) := by
  rw [addAfter, mem_startAt (le_notAbove hwf _)]
  by_cases h : k ≤ z
  · simp [h]
  · have hlt : (z : WithBot α) < k := WithBot.coe_lt_coe.mpr (not_le.mp h)
    have hbelow : mem z entries = mem z (notAbove (k : WithBot α) entries) := mem_of_lt hlt
    rw [hbelow]
    simp [h]

theorem addAfter_wf (k : WithBot α) : WF (addAfter k entries) :=
  startAt_wf hwf.notAbove (le_notAbove hwf k)

theorem insert_wf {k : WithBot α} {any : Bool} (hbot : k = ⊥ → any = true) : WF (insert k any entries) := by
  have hle := le_notAbove hwf k
  have hnotAbove := hwf.notAbove (k := k)
  have htail : WF (emplace k any (notAbove k entries)) ∧ ∀ b ∈ emplace k any (notAbove k entries), b.1 ≤ k := by
    cases hF : notAbove k entries with
    | nil =>
      refine ⟨⟨List.pairwise_singleton _ _, ?_⟩, ?_⟩
      · intro e he
        obtain rfl := List.mem_singleton.mp he
        exact hbot
      · intro e he
        obtain rfl := List.mem_singleton.mp he
        exact le_rfl
    | cons a rest =>
      obtain ⟨k', any'⟩ := a
      rw [hF] at hle hnotAbove
      rw [emplace]
      split_ifs with hk
      · exact ⟨hnotAbove, hle⟩
      · have hlt : k' < k := lt_of_le_of_ne (hle _ List.mem_cons_self) hk
        obtain ⟨hhead, -⟩ := List.pairwise_cons.mp hnotAbove.1
        refine ⟨hnotAbove.cons ?_ hbot, ?_⟩
        · intro b hb
          obtain rfl | hb := List.mem_cons.mp hb
          · exact hlt
          · exact (hhead b hb).trans hlt
        · intro b hb
          obtain rfl | hb := List.mem_cons.mp hb
          · exact le_rfl
          · exact hle b hb
  refine hwf.above.append htail.1 ?_
  intro a ha b hb
  exact lt_of_le_of_lt (htail.2 b hb) (lt_of_mem_above ha)

/-- a point that was not in the set -/
theorem mem_insert {k : α} (hk : mem k entries = false) (z : α) :
    mem z (insert (k : WithBot α) false entries) = (mem z entries || decide (z = k)) := by
  have hle := le_notAbove hwf (k : WithBot α)
  have hsplit := above_append_notAbove (k : WithBot α) entries
  have hpoint : mem k (notAbove (k : WithBot α) entries) = false := by
    rw [← hsplit, mem_append_right (fun e he => lt_of_mem_above he)] at hk
    exact hk
  have hins : insert (k : WithBot α) false entries =
      above (k : WithBot α) entries ++ ((k : WithBot α), false) :: notAbove (k : WithBot α) entries := by
    rw [insert]
    cases hF : notAbove (k : WithBot α) entries with
    | nil => rfl
    | cons a rest =>
      obtain ⟨k', any'⟩ := a
      rw [hF, mem_cons_of_le (hle _ (by rw [hF]; exact List.mem_cons_self))] at hpoint
      have hne : k' ≠ (k : WithBot α) := by
        intro h
        simp [holds, h] at hpoint
      rw [emplace, if_neg hne]
  rw [hins]
  by_cases habove : ∃ e ∈ above (k : WithBot α) entries, e.1 ≤ (z : WithBot α)
  · obtain ⟨e, he, hez⟩ := habove
    have hkz : k < z := WithBot.coe_lt_coe.mp ((lt_of_mem_above he).trans_le hez)
    rw [mem_append_left ⟨e, he, hez⟩]
    nth_rewrite 2 [← hsplit]
    rw [mem_append_left ⟨e, he, hez⟩]
    simp [ne_of_gt hkz]
  · have hall : ∀ e ∈ above (k : WithBot α) entries, (z : WithBot α) < e.1 := by
      intro e he
      by_contra hnot
      exact habove ⟨e, he, not_lt.mp hnot⟩
    rw [mem_append_right hall]
    nth_rewrite 2 [← hsplit]
    rw [mem_append_right hall]
    by_cases hz : k ≤ z
    · rw [mem_cons_of_le (WithBot.coe_le_coe.mpr hz)]
      have hnone : mem z (notAbove (k : WithBot α) entries) = false := by
        cases hF : notAbove (k : WithBot α) entries with
        | nil => rfl
        | cons a rest =>
          have hak : a.1 ≤ (k : WithBot α) := hle _ (by rw [hF]; exact List.mem_cons_self)
          rw [hF, mem_cons_of_le hak] at hpoint
          rw [mem_cons_of_le (hak.trans (WithBot.coe_le_coe.mpr hz))]
          simp only [holds, Bool.or_eq_false_iff, decide_eq_false_iff_not] at hpoint ⊢
          refine ⟨hpoint.1, ?_⟩
          intro heq
          rw [heq] at hak
          have hzk : z = k := le_antisymm (WithBot.coe_le_coe.mp hak) hz
          exact hpoint.2 (by rw [heq, hzk])
      rw [hnone]
      simp [holds, eq_comm]
    · have hlt : z < k := not_le.mp hz
      rw [mem_cons_of_lt (WithBot.coe_lt_coe.mpr hlt)]
      simp [ne_of_lt hlt]

theorem addRange_wf {lo : WithBot α} {hi : α} (hlt : lo < hi) : WF (addRange lo hi entries) := by
  have hstart := startAt_wf hwf.notAbove (le_notAbove hwf lo)
  have hstartLe := le_of_mem_startAt (le_notAbove hwf lo)
  have hhigh : WF (above (hi : WithBot α) (above lo entries)) := hwf.above.above
  have hend : WF (((hi : WithBot α), false) :: startAt lo (notAbove lo entries)) :=
    hstart.cons (fun b hb => (hstartLe b hb).trans_lt hlt) (by simp)
  have hwith : WF (above (hi : WithBot α) (above lo entries) ++
      ((hi : WithBot α), false) :: startAt lo (notAbove lo entries)) := by
    refine hhigh.append hend ?_
    intro a ha b hb
    have hhi := lt_of_mem_above ha
    obtain rfl | hb := List.mem_cons.mp hb
    · exact hhi
    · exact ((hstartLe b hb).trans_lt hlt).trans hhi
  have hwithout : WF (above (hi : WithBot α) (above lo entries) ++ startAt lo (notAbove lo entries)) := by
    refine hhigh.append hstart ?_
    intro a ha b hb
    exact ((hstartLe b hb).trans_lt hlt).trans (lt_of_mem_above ha)
  rw [addRange]
  cases notAbove (hi : WithBot α) (above lo entries) with
  | nil => exact hwith
  | cons a rest =>
    rw [endAt]
    split
    · exact hwithout
    · exact hwith

/-- **What adding a range does.** The points of the range come in; but where the whole range is inside one open range,
the points behind `hi` up to the next mark go out. -/
theorem mem_addRange {lo : WithBot α} {hi : α} (hlt : lo < hi) (z : α) :
    mem z (addRange lo hi entries) = true ↔
      (mem z entries = true ∨ lo ≤ (z : WithBot α) ∧ z ≤ hi) ∧
        ¬ (Swallowed lo hi entries ∧ hi < z ∧ ∀ e ∈ above lo entries, (z : WithBot α) < e.1) := by
  have hsplit : above (hi : WithBot α) (above lo entries) ++ notAbove (hi : WithBot α) (above lo entries) ++
      notAbove lo entries = entries := by
    rw [above_append_notAbove, above_append_notAbove]
  have hmid : ∀ e ∈ notAbove (hi : WithBot α) (above lo entries), lo < e.1 ∧ e.1 ≤ (hi : WithBot α) := by
    intro e he
    exact ⟨lt_of_mem_above ((List.dropWhile_sublist _).subset he), le_notAbove hwf.above _ e he⟩
  have hhigh : ∀ e ∈ above (hi : WithBot α) (above lo entries), (hi : WithBot α) < e.1 := fun e he => lt_of_mem_above he
  have hcore := mem_split hlt hhigh hmid (le_notAbove hwf lo) (mem_startAt (le_notAbove hwf lo) z)
  rw [hsplit, above_append_notAbove] at hcore
  exact hcore

end

end Marks

end NdnDash
