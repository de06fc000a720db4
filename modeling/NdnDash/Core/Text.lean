/-
The C and C++ string functions the program uses, on strings as lists of characters.

- `find`, `rfind`, `beforeLast`, `afterLast`: `std::string::find`/`rfind` and the `substr` calls made with their result
  (`npos` as a length takes everything, `npos + 1` as a start is 0).
- `split`: the `std::getline` loop with a delimiter. A delimiter at the end of the text yields no empty last piece.
- `decimal`, `strtol`, `strtoul`, `atoi`: decimal output of an unsigned number, and its input with the clamping of `strtol` and
  the truncation to 32 bits of `atoi`.
-/
import Mathlib.Tactic
import Mathlib.Data.List.TakeWhile
import NdnDash.Core.Narrowing

namespace NdnDash

/-- a `std::string` -/
abbrev Str := List Char

namespace Text

/-! ## Searching -/

/-- the first position at which `pat` occurs -/
def find (pat : Str) : Str → Option ℕ
  | [] => if pat = [] then some 0 else none
  | c :: cs => if pat.isPrefixOf (c :: cs) then some 0 else (find pat cs).map (· + 1)

/-- found at the start: a prefix -/
theorem find_eq_zero_iff {pat s : Str} : find pat s = some 0 ↔ pat <+: s := by
  cases s with
  | nil => simp [find]
  | cons c cs =>
    by_cases h : pat.isPrefixOf (c :: cs) = true
    · simp [find, h, List.isPrefixOf_iff_prefix.1 h]
    · simp [find, h, mt List.isPrefixOf_iff_prefix.2 h]

/-- the first position of a text whose first character does not occur before -/
theorem find_append_cons {c : Char} {xs : Str} (h : c ∉ xs) (pat ys : Str) :
    find (c :: pat) (xs ++ (c :: pat ++ ys)) = some xs.length := by
  induction xs with
  | nil => exact find_eq_zero_iff.2 ⟨ys, rfl⟩
  | cons x xs ih =>
    obtain ⟨hx, hxs⟩ := not_or.1 (List.mem_cons.not.1 h)
    have hhead : List.isPrefixOf (c :: pat) (x :: (xs ++ (c :: pat ++ ys))) = false := by
      rw [List.isPrefixOf_cons_cons]
      simp [hx]
    rw [List.cons_append, find, if_neg (by rw [hhead]; decide), ih hxs]
    rfl

/-- the first position of a character that does not occur before -/
theorem find_append {c : Char} {xs : Str} (h : c ∉ xs) (ys : Str) : find [c] (xs ++ c :: ys) = some xs.length :=
  find_append_cons h [] ys

/-- a character that does not occur -/
theorem find_of_notMem {c : Char} {s : Str} (h : c ∉ s) : find [c] s = none := by
  induction s with
  | nil => rfl
  | cons x xs ih =>
    obtain ⟨hx, hxs⟩ := not_or.1 (List.mem_cons.not.1 h)
    have hhead : List.isPrefixOf [c] (x :: xs) = false := by
      rw [List.isPrefixOf_cons_cons]
      simp [hx]
    rw [find, if_neg (by rw [hhead]; decide), ih hxs]
    rfl

/-- the last position of a character -/
def rfind (c : Char) : Str → Option ℕ
  | [] => none
  | x :: xs =>
    match rfind c xs with
    | some i => some (i + 1)
    | none => if x = c then some 0 else none

theorem rfind_eq_none {c : Char} {s : Str} : rfind c s = none ↔ c ∉ s := by
  induction s with
  | nil => simp [rfind]
  | cons x xs ih =>
    simp only [rfind, List.mem_cons, not_or]
    cases h : rfind c xs with
    | some i => simp [h] at ih; simp [ih]
    | none =>
      simp only [h, true_iff] at ih
      by_cases hx : x = c
      · simp [hx]
      · simp [hx, ih, Ne.symm hx]

theorem rfind_append {c : Char} (xs : Str) {ys : Str} (h : c ∉ ys) : rfind c (xs ++ c :: ys) = some xs.length := by
  induction xs with
  | nil => simp [rfind, rfind_eq_none.2 h]
  | cons x xs ih => simp [rfind, ih]

/-- a text parted at the last occurrence of a character -/
theorem exists_last {c : Char} {s : Str} (h : c ∈ s) : ∃ xs ys, s = xs ++ c :: ys ∧ c ∉ ys := by
  obtain ⟨ys, xs, hs, hys⟩ := List.eq_append_cons_of_mem (List.mem_reverse.2 h)
  refine ⟨xs.reverse, ys.reverse, ?_, mt List.mem_reverse.1 hys⟩
  rw [← List.reverse_reverse s, hs]
  simp

/-- `s.substr(0, s.rfind(c))` -/
def beforeLast (c : Char) (s : Str) : Str :=
  match rfind c s with
  | some i => s.take i
  | none => s

/-- `s.substr(s.rfind(c) + 1)` -/
def afterLast (c : Char) (s : Str) : Str :=
  match rfind c s with
  | some i => s.drop (i + 1)
  | none => s

theorem beforeLast_append {c : Char} (xs : Str) {ys : Str} (h : c ∉ ys) : beforeLast c (xs ++ c :: ys) = xs := by
  simp [beforeLast, rfind_append xs h]

theorem afterLast_append {c : Char} (xs : Str) {ys : Str} (h : c ∉ ys) : afterLast c (xs ++ c :: ys) = ys := by
  simp [afterLast, rfind_append xs h]

/-! ## Splitting at a delimiter -/

/-- the pieces of the text when `acc` has been read of the current one -/
def splitFrom (d : Char) (acc : Str) : Str → List Str
  | [] => if acc = [] then [] else [acc]
  | c :: cs => if c = d then acc :: splitFrom d [] cs else splitFrom d (acc ++ [c]) cs

/-- the `std::getline(ss, item, d)` loop -/
def split (d : Char) (s : Str) : List Str := splitFrom d [] s

theorem splitFrom_append {d : Char} (acc : Str) {xs : Str} (h : d ∉ xs) (ys : Str) :
    splitFrom d acc (xs ++ d :: ys) = (acc ++ xs) :: split d ys := by
  induction xs generalizing acc with
  | nil => simp [splitFrom, split]
  | cons x xs ih =>
    obtain ⟨hx, hxs⟩ := not_or.1 (List.mem_cons.not.1 h)
    rw [List.cons_append, splitFrom, if_neg (Ne.symm hx), ih _ hxs]
    simp

/-- a piece ends at the delimiter -/
theorem split_append {d : Char} {xs : Str} (h : d ∉ xs) (ys : Str) : split d (xs ++ d :: ys) = xs :: split d ys :=
  splitFrom_append [] h ys

theorem splitFrom_of_notMem {d : Char} (acc : Str) {xs : Str} (h : d ∉ xs) :
    splitFrom d acc xs = if acc ++ xs = [] then [] else [acc ++ xs] := by
  induction xs generalizing acc with
  | nil => simp [splitFrom]
  | cons x xs ih =>
    obtain ⟨hx, hxs⟩ := not_or.1 (List.mem_cons.not.1 h)
    rw [splitFrom, if_neg (Ne.symm hx), ih _ hxs]
    simp

/-- a last piece that is empty is not produced -/
theorem split_of_notMem {d : Char} {xs : Str} (h : d ∉ xs) : split d xs = if xs = [] then [] else [xs] :=
  splitFrom_of_notMem [] h

/-- what is behind a delimiter is split by itself, after at least one piece -/
theorem exists_splitFrom_append {d : Char} (acc xs ys : Str) :
    ∃ piece pieces, splitFrom d acc (xs ++ d :: ys) = (piece :: pieces) ++ split d ys := by
  induction xs generalizing acc with
  | nil => exact ⟨acc, [], by simp [splitFrom, split]⟩
  | cons x xs ih =>
    rw [List.cons_append, splitFrom]
    split_ifs with hx
    · obtain ⟨piece, pieces, h⟩ := ih []
      exact ⟨acc, piece :: pieces, by simp [h]⟩
    · exact ih _

theorem exists_split_append {d : Char} (xs ys : Str) :
    ∃ piece pieces, split d (xs ++ d :: ys) = (piece :: pieces) ++ split d ys :=
  exists_splitFrom_append [] xs ys

/-! ## Numbers -/

/-- decimal output of an unsigned number -/
def decimal (n : ℕ) : Str := Nat.toDigits 10 n

theorem isDigit_of_mem_decimal {n : ℕ} {c : Char} (h : c ∈ decimal n) : c.isDigit = true :=
  Nat.isDigit_of_mem_toDigits (by decide) (by decide) h

/-- digits are the only characters of a digit string -/
theorem notMem_of_digits {s : Str} {c : Char} (h : ∀ d ∈ s, d.isDigit = true) (hc : c.isDigit = false) : c ∉ s := by
  intro hm
  rw [h c hm] at hc
  exact absurd hc (by decide)

theorem decimal_ne_nil (n : ℕ) : decimal n ≠ [] := Nat.toDigits_ne_nil

/-- the number a digit string denotes -/
def value (s : Str) : ℕ := Nat.ofDigitChars 10 s 0

theorem value_decimal (n : ℕ) : value (decimal n) = n := Nat.ofDigitChars_ten_toDigits

theorem value_zeros (k n : ℕ) : value (List.replicate k '0' ++ decimal n) = n := by
  have hzeros : Nat.ofDigitChars 10 (List.replicate k '0') 0 = 0 := by
    rw [Nat.ofDigitChars_replicate_zero, Nat.mul_zero]
  rw [value, Nat.ofDigitChars_append, hzeros]
  exact value_decimal n

theorem isDigit_zeros {k n : ℕ} {c : Char} (h : c ∈ List.replicate k '0' ++ decimal n) : c.isDigit = true := by
  rcases List.mem_append.1 h with h | h
  · rw [List.eq_of_mem_replicate h]
    rfl
  · exact isDigit_of_mem_decimal h

/-- the digits of a number, with zeros before them up to the width -/
def padded (width n : ℕ) : Str := List.replicate (width - (decimal n).length) '0' ++ decimal n

/-- a number as it is written -/
structure Numeral where
  digits : Str
  digits_ne : digits ≠ []
  isDigit : ∀ c ∈ digits, c.isDigit = true

def Numeral.value (n : Numeral) : ℕ := Text.value n.digits

/-- `isspace` in the C locale -/
def isSpace (c : Char) : Bool := c = ' ' || (9 ≤ c.toNat && c.toNat ≤ 13)

/-- `strtol(s, NULL, 10)`: blanks, a sign, digits; clamped to 64 bits -/
def strtol (s : Str) : ℤ :=
  match s.dropWhile isSpace with
  | '-' :: r => max (-2 ^ 63) (-(value (r.takeWhile Char.isDigit) : ℤ))
  | '+' :: r => min (2 ^ 63 - 1) (value (r.takeWhile Char.isDigit) : ℤ)
  | r => min (2 ^ 63 - 1) (value (r.takeWhile Char.isDigit) : ℤ)

/-- `atoi`: `strtol` truncated to a 32-bit `int` -/
def atoi (s : Str) : ℤ := toInt (strtol s)

/-- `strtoul(s, NULL, 10)`: a minus sign negates modulo 2^64 -/
def strtoul (s : Str) : ℕ :=
  match s.dropWhile isSpace with
  | '-' :: r =>
    let n := value (r.takeWhile Char.isDigit)
    if n < 2 ^ 64 then (2 ^ 64 - n) % 2 ^ 64 else 2 ^ 64 - 1
  | '+' :: r => min (2 ^ 64 - 1) (value (r.takeWhile Char.isDigit))
  | r => min (2 ^ 64 - 1) (value (r.takeWhile Char.isDigit))

theorem isSpace_of_isDigit {c : Char} (h : c.isDigit = true) : isSpace c = false := by
  simp only [Char.isDigit, Bool.and_eq_true, decide_eq_true_eq, ge_iff_le, UInt32.le_iff_toNat_le] at h
  change 48 ≤ c.toNat ∧ _ at h
  simp only [isSpace, Bool.or_eq_false_iff, decide_eq_false_iff_not, Bool.and_eq_false_iff]
  refine ⟨?_, Or.inr (by omega)⟩
  intro hspace
  rw [hspace] at h
  exact absurd h.1 (by decide)

/-- no blanks are skipped before digits -/
theorem dropWhile_isSpace_of_digits {s : Str} (h : ∀ c ∈ s, c.isDigit = true) : s.dropWhile isSpace = s := by
  cases s with
  | nil => rfl
  | cons c cs => rw [List.dropWhile_cons_of_neg (by simp [isSpace_of_isDigit (h c (by simp))])]

/-- a digit string is read as the number it denotes, up to the clamping -/
theorem strtol_of_digits {s : Str} (h : ∀ c ∈ s, c.isDigit = true) : strtol s = min (2 ^ 63 - 1) (value s : ℤ) := by
  have htw : s.takeWhile Char.isDigit = s := List.takeWhile_eq_self_iff.2 h
  rw [strtol, dropWhile_isSpace_of_digits h]
  split
  · exact absurd (h '-' (by simp)) (by decide)
  · exact absurd (h '+' (by simp)) (by decide)
  · rw [htw]

/-- a numeral is read behind blanks, and up to what is no digit -/
theorem strtol_append {blanks rest : Str} (hblanks : ∀ c ∈ blanks, isSpace c = true) (n : Numeral)
    (hrest : ∀ c ∈ rest.head?, c.isDigit = false) :
    strtol (blanks ++ (n.digits ++ rest)) = min (2 ^ 63 - 1) (n.value : ℤ) := by
  have htake : (n.digits ++ rest).takeWhile Char.isDigit = n.digits := by
    have hnone : rest.takeWhile Char.isDigit = [] := by
      cases rest with
      | nil => rfl
      | cons c rest => rw [List.takeWhile_cons_of_neg (by simp [hrest c rfl])]
    rw [List.takeWhile_append_of_pos n.isDigit, hnone, List.append_nil]
  obtain ⟨d, ds, hd⟩ := List.exists_cons_of_ne_nil n.digits_ne
  have hdigit : d.isDigit = true := n.isDigit d (by rw [hd]; simp)
  have hdrop : (n.digits ++ rest).dropWhile isSpace = n.digits ++ rest := by
    rw [hd, List.cons_append, List.dropWhile_cons_of_neg (by simp [isSpace_of_isDigit hdigit])]
  rw [strtol, List.dropWhile_append_of_pos hblanks, hdrop]
  split
  · rename_i r hr
    rw [hd, List.cons_append, List.cons_eq_cons] at hr
    exact absurd (hr.1 ▸ hdigit) (by decide)
  · rename_i r hr
    rw [hd, List.cons_append, List.cons_eq_cons] at hr
    exact absurd (hr.1 ▸ hdigit) (by decide)
  · rw [htake]
    rfl

/-- an `int` is read as it is written -/
theorem atoi_append {blanks rest : Str} (hblanks : ∀ c ∈ blanks, isSpace c = true) {n : Numeral}
    (hrest : ∀ c ∈ rest.head?, c.isDigit = false) (hn : n.value < 2 ^ 31) :
    atoi (blanks ++ (n.digits ++ rest)) = n.value := by
  rw [atoi, strtol_append hblanks n hrest, toInt_eq (by omega) (by omega)]
  omega

/-- a digit string is read as the number it denotes, up to the clamping -/
theorem strtoul_of_digits {s : Str} (h : ∀ c ∈ s, c.isDigit = true) : strtoul s = min (2 ^ 64 - 1) (value s) := by
  have htw : s.takeWhile Char.isDigit = s := List.takeWhile_eq_self_iff.2 h
  rw [strtoul, dropWhile_isSpace_of_digits h]
  split
  · exact absurd (h '-' (by simp)) (by decide)
  · exact absurd (h '+' (by simp)) (by decide)
  · rw [htw]

end Text

end NdnDash
