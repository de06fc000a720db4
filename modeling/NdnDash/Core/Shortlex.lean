/-
Byte strings in the order "shorter first, and of one length by the first byte that differs". Every string has a number
in this order, `shortlexRank`; comparing from the front compares the numbers (`byteCompare_neg_iff`,
`shortlexRank_lt_iff`), and the string after a given one is found by counting it up with a carry, one byte longer when
the carry runs out (`shortlexRank_countUp`). Lists over any order are compared element by element, and the lists that
begin with a given one are an interval (`prefix_interval`).
-/
import Mathlib.Tactic
import Mathlib.Data.List.Lex
import NdnDash.Core.Bytes

namespace NdnDash

/-! ## Numbers of byte strings -/

/-- how many byte strings have fewer than `n` bytes -/
def shorterThan : ℕ → ℕ
  | 0 => 0
  | n + 1 => shorterThan n + 256 ^ n

def shortlexRank (bs : Bytes) : ℕ := shorterThan bs.length + beValue bs

theorem shorterThan_mono {m n : ℕ} (h : m ≤ n) : shorterThan m ≤ shorterThan n := by
  induction h with
  | refl => exact le_rfl
  | step _ ih => exact ih.trans (Nat.le_add_right _ _)

theorem shortlexRank_lt_next (bs : Bytes) : shortlexRank bs < shorterThan (bs.length + 1) := by
  have := beValue_lt bs
  rw [shortlexRank, shorterThan]
  omega

theorem shortlexRank_lt_iff {as bs : Bytes} :
    shortlexRank as < shortlexRank bs ↔
      as.length < bs.length ∨ as.length = bs.length ∧ beValue as < beValue bs := by
  have ha := shortlexRank_lt_next as
  have hb := shortlexRank_lt_next bs
  have hrank : ∀ cs : Bytes, shorterThan cs.length ≤ shortlexRank cs := fun cs => Nat.le_add_right _ _
  obtain hlt | heq | hgt := Nat.lt_trichotomy as.length bs.length
  · have hmono := shorterThan_mono (show as.length + 1 ≤ bs.length from hlt)
    have hle := hrank bs
    constructor <;> intro <;> omega
  · rw [shortlexRank, shortlexRank, heq]
    omega
  · have hmono := shorterThan_mono (show bs.length + 1 ≤ as.length from hgt)
    have hle := hrank as
    constructor <;> intro <;> omega

theorem beValue_injective {as bs : Bytes} (hlen : as.length = bs.length) (h : beValue as = beValue bs) : as = bs := by
  calc as = beBytes as.length (beValue as) := (beBytes_beValue as).symm
    _ = beBytes bs.length (beValue bs) := by rw [hlen, h]
    _ = bs := beBytes_beValue bs

theorem shortlexRank_injective {as bs : Bytes} (h : shortlexRank as = shortlexRank bs) : as = bs := by
  have hlt := @shortlexRank_lt_iff as bs
  have hgt := @shortlexRank_lt_iff bs as
  have hlen : as.length = bs.length := by omega
  refine beValue_injective hlen ?_
  simp only [shortlexRank, hlen] at h
  omega

/-! ## Comparing from the front -/

/-- the difference of the first bytes that differ -/
def byteCompare : Bytes → Bytes → ℤ
  | a :: as, b :: bs => if a = b then byteCompare as bs else (a.toNat : ℤ) - b.toNat
  | _, _ => 0

theorem byteCompare_neg_iff {as bs : Bytes} (h : as.length = bs.length) :
    byteCompare as bs < 0 ↔ beValue as < beValue bs := by
  induction as generalizing bs with
  | nil =>
    have hbs : bs = [] := List.length_eq_zero_iff.mp h.symm
    subst hbs
    simp [byteCompare]
  | cons a as ih =>
    cases bs with
    | nil => cases h
    | cons b bs =>
      have hlen : as.length = bs.length := by simpa using h
      rw [byteCompare, beValue_cons, beValue_cons, hlen]
      split
      · next heq =>
        rw [ih hlen, heq]
        omega
      · next hne =>
        have hbytes : a.toNat ≠ b.toNat := fun h => hne (UInt8.toNat_inj.mp h)
        have hva := beValue_lt as
        have hvb := beValue_lt bs
        rw [hlen] at hva
        -- a difference of the first bytes is more than all the others make up for
        obtain hlt | hgt := Nat.lt_or_gt_of_ne hbytes
        · have hmul : (a.toNat + 1) * 256 ^ bs.length ≤ b.toNat * 256 ^ bs.length := Nat.mul_le_mul_right _ hlt
          rw [Nat.succ_mul] at hmul
          constructor <;> intro <;> omega
        · have hmul : (b.toNat + 1) * 256 ^ bs.length ≤ a.toNat * 256 ^ bs.length := Nat.mul_le_mul_right _ hgt
          rw [Nat.succ_mul] at hmul
          constructor <;> intro <;> omega

theorem byteCompare_swap (as bs : Bytes) : byteCompare bs as = -byteCompare as bs := by
  induction as generalizing bs with
  | nil => cases bs <;> simp [byteCompare]
  | cons a as ih =>
    cases bs with
    | nil => simp [byteCompare]
    | cons b bs =>
      by_cases h : a = b
      · simp [byteCompare, h, ih bs]
      · simp [byteCompare, h, Ne.symm h]

/-! ## Counting up -/

/-- Counting the string up from its last byte: the bytes, and whether the carry ran out at the front. -/
def carryUp : Bytes → Bytes × Bool
  | [] => ([], true)
  | b :: bs =>
    if (carryUp bs).2 then ((b + 1) :: (carryUp bs).1, b + 1 = 0) else (b :: (carryUp bs).1, false)

def countUp (bs : Bytes) : Bytes := if (carryUp bs).2 then (carryUp bs).1 ++ [0] else (carryUp bs).1

theorem byte_overflow_iff {b : UInt8} : b + 1 = 0 ↔ b = 255 := by
  rw [← UInt8.toNat_inj, ← UInt8.toNat_inj, UInt8.toNat_add]
  have hb := b.toNat_lt
  simp
  omega

/-- the last byte is counted up first -/
theorem carryUp_concat (bs : Bytes) (b : UInt8) :
    carryUp (bs ++ [b]) = if b + 1 = 0 then ((carryUp bs).1 ++ [0], (carryUp bs).2) else (bs ++ [b + 1], false) := by
  induction bs with
  | nil =>
    by_cases h : b + 1 = 0
    · simp [carryUp, h]
    · simp [carryUp, h]
  | cons c bs ih =>
    rw [List.cons_append, carryUp, ih]
    by_cases h : b + 1 = 0
    · simp only [h, if_true, carryUp]
      split <;> rfl
    · simp [h]

theorem carryUp_spec (bs : Bytes) :
    (carryUp bs).1.length = bs.length ∧
      beValue (carryUp bs).1 + (if (carryUp bs).2 then 256 ^ bs.length else 0) = beValue bs + 1 := by
  induction bs with
  | nil => simp [carryUp]
  | cons b bs ih =>
    obtain ⟨hlen, hvalue⟩ := ih
    have hb := b.toNat_lt
    have hpos : 0 < 256 ^ bs.length := by positivity
    rw [carryUp]
    by_cases hcarry : (carryUp bs).2 = true
    · rw [if_pos hcarry] at hvalue ⊢
      refine ⟨by simp [hlen], ?_⟩
      by_cases hzero : b + 1 = 0
      · have h255 : b.toNat = 255 := by
          rw [byte_overflow_iff.mp hzero]
          rfl
        simp only [hzero, decide_true, if_true, beValue_cons, hlen, List.length_cons, pow_succ, h255]
        simp
        omega
      · have hnext : (b + 1).toNat = b.toNat + 1 := by
          rw [UInt8.toNat_add]
          have hne : b.toNat ≠ 255 := fun h => hzero (byte_overflow_iff.mpr (UInt8.toNat_inj.mp h))
          simp
          omega
        simp only [hzero, decide_false, beValue_cons, hlen, hnext]
        simp only [Bool.false_eq_true, if_false]
        rw [Nat.add_mul]
        omega
    · rw [if_neg hcarry] at hvalue ⊢
      refine ⟨by simp [hlen], ?_⟩
      simp only [beValue_cons, hlen, Bool.false_eq_true, if_false]
      omega

/-- there is no string between one and its successor -/
theorem shortlexRank_countUp (bs : Bytes) : shortlexRank (countUp bs) = shortlexRank bs + 1 := by
  obtain ⟨hlen, hvalue⟩ := carryUp_spec bs
  have hlt := beValue_lt bs
  rw [countUp]
  by_cases hcarry : (carryUp bs).2 = true
  · simp only [hcarry, if_true] at hvalue ⊢
    have hzero : beValue (carryUp bs).1 = 0 := by omega
    have hlast : beValue ((carryUp bs).1 ++ [0]) = 0 := by
      rw [beValue, List.reverse_append, List.reverse_singleton, List.singleton_append, leValue, ← beValue, hzero]
      rfl
    rw [shortlexRank, shortlexRank, hlast, List.length_append, hlen, List.length_singleton, shorterThan]
    omega
  · simp only [hcarry] at hvalue ⊢
    simp only [Bool.false_eq_true, if_false] at hvalue ⊢
    rw [shortlexRank, shortlexRank, hlen]
    omega

/-- the carry runs out at the front if every byte overflows -/
theorem carryUp_overflow_iff (bs : Bytes) : (carryUp bs).2 = true ↔ ∀ b ∈ bs, b = 255 := by
  induction bs with
  | nil => simp [carryUp]
  | cons b bs ih =>
    rw [carryUp, List.forall_mem_cons, ← ih]
    split
    · next h => simp [h, byte_overflow_iff]
    · next h => simp [h]

/-- no byte more as long as some byte does not overflow -/
theorem length_countUp {bs : Bytes} (h : ∃ b ∈ bs, b ≠ 255) : (countUp bs).length = bs.length := by
  obtain ⟨hlen, -⟩ := carryUp_spec bs
  have hcarry : ¬ (carryUp bs).2 = true := by
    rw [carryUp_overflow_iff]
    push Not
    exact h
  rw [countUp, if_neg hcarry, hlen]

/-! ## Lists with a common front -/

/-- If nothing lies strictly between `a` and `b`, the lists from `p ++ [a]` up to `p ++ [b]` are those that begin with
`p ++ [a]`. -/
theorem prefix_interval {α : Type*} [LinearOrder α] {a b : α} (h : ∀ x, a ≤ x ∧ x < b ↔ x = a) (p m : List α) :
    ¬ m < p ++ [a] ∧ m < p ++ [b] ↔ p ++ [a] <+: m := by
  induction p generalizing m with
  | nil =>
    cases m with
    | nil => simp
    | cons x xs =>
      simp only [List.nil_append, List.cons_lt_cons_iff, List.not_lt_nil, and_false, or_false, not_lt,
        List.cons_prefix_cons, List.nil_prefix, and_true]
      rw [h x]
      exact eq_comm
  | cons c p ih =>
    cases m with
    | nil => simp
    | cons x xs =>
      simp only [List.cons_append, List.cons_lt_cons_iff, List.cons_prefix_cons, ← ih xs]
      constructor
      · rintro ⟨hge, hlt | ⟨rfl, hlt⟩⟩
        · exact absurd (.inl hlt) hge
        · exact ⟨rfl, fun h => hge (.inr ⟨rfl, h⟩), hlt⟩
      · rintro ⟨rfl, hge, hlt⟩
        refine ⟨?_, .inr ⟨rfl, hlt⟩⟩
        rintro (h | ⟨-, h⟩)
        · exact lt_irrefl _ h
        · exact hge h

end NdnDash
