/-
Model of the substitution of `SegmentTemplate` (`SegmentTemplate.cpp`, `ReplaceParameters` and `FormatChunk`) and of the
template grammar it serves.

The code splits the template at '$' and then looks at every piece by itself:
- a piece that spells an identifier (or only begins with `Bandwidth`, `Number` or `Time`) is replaced, whether it stood
  between two dollars or not;
- the piece between the two dollars of an escape is empty and stays empty.

`sprintf` is modelled for the width tag of the grammar, `%0<width>d`; any other directive, and an output that does not
fit the buffer of 50 characters, is `none`.

**What is proved.** `replaceParameters_iff`: for a given template and given numbers the substitution yields the text the
grammar asks for, whatever the representation id, if and only if the template has no mark at all or every one of its
pieces is read for what it is (`Token.ReadRight`). `escape_vanishes` is a template on which it is not.
-/
import NdnDash.Core.Text

namespace NdnDash.Mpd

open NdnDash.Text

/-! ## The code -/

/-- what is left of a format after its directive: `%%` prints a percent sign, another directive has no argument -/
def formatRest : Str → Option Str
  | [] => some []
  | '%' :: '%' :: s => (formatRest s).map ('%' :: ·)
  | c :: s => if c = '%' then none else (formatRest s).map (c :: ·)

/-- `%0<width>d`: the number as an `int`, with zeros after the sign up to the width -/
def paddedInt (width : ℕ) (number : UInt32) : Str :=
  let n := number.toInt32.toInt
  let digits := decimal n.natAbs
  if n < 0 then '-' :: (List.replicate (width - 1 - digits.length) '0' ++ digits)
  else List.replicate (width - digits.length) '0' ++ digits

/-- `sprintf` of one number -/
def sprintf (format : Str) (number : UInt32) : Option Str :=
  match format with
  | '%' :: '0' :: s =>
    match s.dropWhile Char.isDigit with
    | 'd' :: rest => (formatRest rest).map (paddedInt (value (s.takeWhile Char.isDigit)) number ++ ·)
    | _ => none
  | _ => none

/-- the format `FormatChunk` takes from a chunk: from `%0` on, with a 'd' after it -/
def formatTag (uri : Str) : Str :=
  match find "%0".toList uri with
  | some pos => uri.drop pos ++ ['d']
  | none => "%01d".toList

/-- `FormatChunk`; `formattedNumber` has room for 49 characters -/
def formatChunk (uri : Str) (number : UInt32) : Option Str :=
  (sprintf (formatTag uri) number).filter (·.length < 50)

/-- the loop body of `ReplaceParameters` -/
def replaceChunk (representationID : Str) (bandwidth number time : UInt32) (chunk : Str) : Option Str :=
  if chunk = "RepresentationID".toList then some representationID
  else if find "Bandwidth".toList chunk = some 0 then formatChunk chunk bandwidth
  else if find "Number".toList chunk = some 0 then formatChunk chunk number
  else if find "Time".toList chunk = some 0 then formatChunk chunk time
  else some chunk

/-- `ReplaceParameters` -/
def replaceParameters (uri representationID : Str) (bandwidth number time : UInt32) : Option Str :=
  let chunks := split '$' uri
  if 1 < chunks.length then (chunks.mapM (replaceChunk representationID bandwidth number time)).map List.flatten
  else some uri

/-! ## The grammar -/

/-- the identifiers of a template -/
inductive Identifier
  | representationID
  | bandwidth
  | number
  | time
deriving DecidableEq, Repr

namespace Identifier

/-- how it is spelled between the dollars -/
def name : Identifier → Str
  | representationID => "RepresentationID".toList
  | bandwidth => "Bandwidth".toList
  | number => "Number".toList
  | time => "Time".toList

/-- the identifiers that stand for a number -/
def numbered : List Identifier := [bandwidth, number, time]

/-- the text that is to stand for it -/
def text (representationID : Str) (bandwidth number time : UInt32) : Identifier → Str
  | .representationID => representationID
  | .bandwidth => decimal bandwidth.toNat
  | .number => decimal number.toNat
  | .time => decimal time.toNat

end Identifier

/-- a text without a dollar -/
structure Literal where
  text : Str
  no_dollar : '$' ∉ text
deriving DecidableEq

namespace Literal

/-- the empty text -/
def empty : Literal := ⟨[], by simp⟩

/-- one text after the other -/
def append (l m : Literal) : Literal :=
  ⟨l.text ++ m.text, by simp [l.no_dollar, m.no_dollar]⟩

@[simp] theorem empty_text : empty.text = [] := rfl

@[simp] theorem append_text (l m : Literal) : (l.append m).text = l.text ++ m.text := rfl

end Literal

/-- a token of a template: a text, the escape `$$`, or an identifier between dollars -/
inductive Token
  | literal (l : Literal)
  | escape
  | identifier (x : Identifier)
deriving DecidableEq

namespace Token

/-- how it is written -/
def written : Token → Str
  | literal l => l.text
  | escape => "$$".toList
  | identifier x => '$' :: (x.name ++ ['$'])

/-- what it means -/
def meaning (representationID : Str) (bandwidth number time : UInt32) : Token → Str
  | literal l => l.text
  | escape => ['$']
  | identifier x => x.text representationID bandwidth number time

/-- whether it is an escape or an identifier -/
def isMark : Token → Bool
  | literal _ => false
  | _ => true

/-- the piece the code sees of it -/
def chunk : Token → Str
  | literal l => l.text
  | escape => []
  | identifier x => x.name

end Token

/-- the written form of a template -/
def written (ts : List Token) : Str := ts.flatMap Token.written

/-- the text a template stands for -/
def meaning (representationID : Str) (bandwidth number time : UInt32) (ts : List Token) : Str :=
  ts.flatMap (Token.meaning representationID bandwidth number time)

@[simp] theorem meaning_nil (id : Str) (b n t : UInt32) : meaning id b n t [] = [] := rfl

@[simp] theorem meaning_cons (id : Str) (b n t : UInt32) (tok : Token) (ts : List Token) :
    meaning id b n t (tok :: ts) = tok.meaning id b n t ++ meaning id b n t ts := rfl

@[simp] theorem written_cons (tok : Token) (ts : List Token) : written (tok :: ts) = tok.written ++ written ts := rfl

/-- the tokens with neighbouring texts made one, `l` standing before them, and a text on each side of every mark -/
def mergedFrom (l : Literal) : List Token → List Token
  | [] => [.literal l]
  | .literal m :: ts => mergedFrom (l.append m) ts
  | .escape :: ts => .literal l :: .escape :: mergedFrom .empty ts
  | .identifier x :: ts => .literal l :: .identifier x :: mergedFrom .empty ts

/-- the tokens as the code finds them -/
def merged (ts : List Token) : List Token := mergedFrom .empty ts

namespace Token

/-- a token whose piece the code takes for what it is:
- a text that is not `RepresentationID` and begins with none of the other names,
- an identifier whose number, if it has one, is an `int`,
- never an escape -/
def ReadRight (bandwidth number time : UInt32) : Token → Prop
  | literal l =>
    l.text ≠ "RepresentationID".toList ∧ ∀ x ∈ Identifier.numbered, ¬ x.name <+: l.text
  | escape => False
  | identifier .representationID => True
  | identifier .bandwidth => bandwidth.toNat < 2 ^ 31
  | identifier .number => number.toNat < 2 ^ 31
  | identifier .time => time.toNat < 2 ^ 31

instance instDecidableReadRight (bandwidth number time : UInt32) :
    ∀ tok : Token, Decidable (tok.ReadRight bandwidth number time)
  | literal l =>
    inferInstanceAs (Decidable (l.text ≠ "RepresentationID".toList ∧ ∀ x ∈ Identifier.numbered, ¬ x.name <+: l.text))
  | escape => .isFalse id
  | identifier .representationID => .isTrue trivial
  | identifier .bandwidth => inferInstanceAs (Decidable (bandwidth.toNat < 2 ^ 31))
  | identifier .number => inferInstanceAs (Decidable (number.toNat < 2 ^ 31))
  | identifier .time => inferInstanceAs (Decidable (time.toNat < 2 ^ 31))

end Token

/-! ## What is printed -/

section Printed

variable {width : ℕ} {number : UInt32} {uri o : Str}

/-- `int` is two's complement -/
theorem toInt_toInt32 : number.toInt32.toInt = Int.bmod number.toNat (2 ^ 32) := BitVec.toInt_eq_toNat_bmod _

theorem toInt_of_lt (h : number.toNat < 2 ^ 31) : number.toInt32.toInt = number.toNat := by
  rw [toInt_toInt32, Int.bmod_def]
  omega

theorem toInt_of_ge (h : ¬ number.toNat < 2 ^ 31) : number.toInt32.toInt < 0 := by
  have hlt := number.toNat_lt
  rw [toInt_toInt32, Int.bmod_def]
  omega

theorem mem_paddedInt {c : Char} (h : c ∈ paddedInt width number) : c = '-' ∨ c.isDigit = true := by
  simp only [paddedInt] at h
  split_ifs at h
  · rcases List.mem_cons.1 h with h | h
    · exact Or.inl h
    · exact Or.inr (isDigit_zeros h)
  · exact Or.inr (isDigit_zeros h)

theorem paddedInt_ne_nil : paddedInt width number ≠ [] := by
  simp only [paddedInt]
  split_ifs
  · simp
  · simp [decimal_ne_nil]

/-- without a width to fill, an `int` is printed as it is -/
theorem paddedInt_of_lt (h : number.toNat < 2 ^ 31) : paddedInt 1 number = decimal number.toNat := by
  have hlen : 0 < (decimal number.toNat).length := List.length_pos_of_ne_nil (decimal_ne_nil _)
  have hpad : 1 - (decimal number.toNat).length = 0 := by omega
  simp [paddedInt, toInt_of_lt h, hpad]

/-- from 2^31 on it is printed as a negative number -/
theorem paddedInt_of_ge (h : ¬ number.toNat < 2 ^ 31) : ∃ s, paddedInt width number = '-' :: s := by
  simp only [paddedInt, if_pos (toInt_of_ge h)]
  exact ⟨_, rfl⟩

theorem length_paddedInt_one : (paddedInt 1 number).length < 50 := by
  have habs : (number.toInt32.toInt).natAbs < 10 ^ 10 := by
    have hlt := number.toNat_lt
    rw [toInt_toInt32, Int.bmod_def]
    omega
  have hlen : (decimal (number.toInt32.toInt).natAbs).length ≤ 10 :=
    (Nat.length_toDigits_le_iff (by decide) (by decide)).2 habs
  simp only [paddedInt]
  split_ifs
  · simp only [List.length_cons, List.length_append, List.length_replicate]
    omega
  · simp only [List.length_append, List.length_replicate]
    omega

theorem dollar_formatRest {s : Str} (h : formatRest s = some o) (hs : '$' ∉ s) : '$' ∉ o := by
  induction s using formatRest.induct generalizing o with
  | case1 => simp_all [formatRest]
  | case2 s ih =>
    simp only [formatRest, Option.map_eq_some_iff] at h
    obtain ⟨r, hr, rfl⟩ := h
    have hdollar := ih hr (by simp_all)
    simp [hdollar]
  | case3 s hne => simp_all [formatRest]
  | case4 c s hne hc ih =>
    simp only [formatRest, if_neg hc, Option.map_eq_some_iff] at h
    obtain ⟨r, hr, rfl⟩ := h
    obtain ⟨hcs, hs⟩ := not_or.1 (List.mem_cons.not.1 hs)
    simp [hcs, ih hr hs]

/-- what `sprintf` prints begins with the number -/
theorem sprintf_spec {format : Str} (h : sprintf format number = some o) :
    ∃ w rest, o = paddedInt w number ++ rest ∧ ('$' ∉ format → '$' ∉ rest) := by
  unfold sprintf at h
  split at h
  · rename_i s
    split at h
    · rename_i rest hrest
      obtain ⟨r, hr, rfl⟩ := Option.map_eq_some_iff.1 h
      refine ⟨_, r, rfl, ?_⟩
      intro hdollar
      apply dollar_formatRest hr
      intro hm
      have hsub : 'd' :: rest <:+ s := hrest ▸ List.dropWhile_suffix _
      apply hdollar
      exact List.mem_cons_of_mem _ (List.mem_cons_of_mem _ (hsub.subset (List.mem_cons_of_mem _ hm)))
    · exact absurd h (by simp)
  · exact absurd h (by simp)

/-- what `FormatChunk` leaves begins with a digit or a minus sign -/
theorem formatChunk_spec (h : formatChunk uri number = some o) :
    (∃ c s, o = c :: s ∧ (c = '-' ∨ c.isDigit = true)) ∧ ('$' ∉ uri → '$' ∉ o) := by
  have hprint : sprintf (formatTag uri) number = some o := (Option.filter_eq_some_iff.1 h).1
  obtain ⟨w, rest, rfl, hrest⟩ := sprintf_spec hprint
  refine ⟨?_, ?_⟩
  · rcases hp : paddedInt w number with _ | ⟨c, s⟩
    · exact absurd hp paddedInt_ne_nil
    · exact ⟨c, s ++ rest, rfl, mem_paddedInt (hp ▸ List.mem_cons_self)⟩
  · intro huri hm
    have htag : '$' ∉ formatTag uri := by
      unfold formatTag
      split
      · intro hm
        rcases List.mem_append.1 hm with hm | hm
        · exact huri (List.mem_of_mem_drop hm)
        · exact absurd hm (by decide)
      · decide
    rcases List.mem_append.1 hm with hm | hm
    · rcases mem_paddedInt hm with hc | hc
      · exact absurd hc (by decide)
      · exact absurd hc (by decide)
    · exact hrest htag hm

/-- a chunk without a width tag is replaced by the number -/
theorem formatChunk_of_untagged (h : find "%0".toList uri = none) :
    formatChunk uri number = some (paddedInt 1 number) := by
  have htag : formatTag uri = "%01d".toList := by rw [formatTag, h]
  have hwidth : value ['1'] = 1 := by decide
  have hprint : sprintf "%01d".toList number = some (paddedInt 1 number) := by simp [sprintf, formatRest, hwidth]
  rw [formatChunk, htag, hprint]
  simp [Option.filter, length_paddedInt_one]

end Printed

/-! ## One piece -/

section Pieces

variable {id : Str} {b n t : UInt32} {x : Identifier} {tok : Token} {o : Str}

theorem dollar_chunk (tok : Token) : '$' ∉ tok.chunk := by
  cases tok with
  | literal l => exact l.no_dollar
  | escape => simp [Token.chunk]
  | identifier x => cases x <;> decide

/-- no name has a width tag -/
theorem untagged_name (x : Identifier) : find "%0".toList x.name = none := by
  cases x <;> decide

/-- a name begins with nothing that a number begins with -/
theorem exists_head_name (x : Identifier) : ∃ c s, x.name = c :: s ∧ ¬ (c = '-' ∨ c.isDigit = true) := by
  cases x <;> exact ⟨_, _, rfl, by decide⟩

/-- a piece is the name of the representation id, begins with one of the other names, or is left as it is -/
theorem replaceChunk_cases (id : Str) (b n t : UInt32) (chunk : Str) :
    (chunk = "RepresentationID".toList ∧ replaceChunk id b n t chunk = some id) ∨
    (∃ x ∈ Identifier.numbered, x.name <+: chunk ∧ ∃ v, replaceChunk id b n t chunk = formatChunk chunk v) ∨
    (chunk ≠ "RepresentationID".toList ∧ (∀ x ∈ Identifier.numbered, ¬ x.name <+: chunk) ∧
      replaceChunk id b n t chunk = some chunk) := by
  unfold replaceChunk
  split_ifs with h1 h2 h3 h4
  · exact Or.inl ⟨h1, rfl⟩
  · exact Or.inr (Or.inl ⟨.bandwidth, by decide, find_eq_zero_iff.1 h2, b, rfl⟩)
  · exact Or.inr (Or.inl ⟨.number, by decide, find_eq_zero_iff.1 h3, n, rfl⟩)
  · exact Or.inr (Or.inl ⟨.time, by decide, find_eq_zero_iff.1 h4, t, rfl⟩)
  · right
    right
    refine ⟨h1, ?_, rfl⟩
    intro x hx hpre
    cases x with
    | representationID => exact absurd hx (by decide)
    | bandwidth => exact h2 (find_eq_zero_iff.2 hpre)
    | number => exact h3 (find_eq_zero_iff.2 hpre)
    | time => exact h4 (find_eq_zero_iff.2 hpre)

/-- the name of an identifier is replaced by the id, or by what `%01d` prints of its number -/
theorem replaceChunk_name (id : Str) (b n t : UInt32) (x : Identifier) :
    (x = .representationID ∧ replaceChunk id b n t x.name = some id) ∨
    ∃ v, x.text id b n t = decimal v.toNat ∧ replaceChunk id b n t x.name = some (paddedInt 1 v) ∧
      ((Token.identifier x).ReadRight b n t ↔ v.toNat < 2 ^ 31) := by
  cases x with
  | representationID => exact Or.inl ⟨rfl, if_pos rfl⟩
  | bandwidth =>
    refine Or.inr ⟨b, rfl, ?_, Iff.rfl⟩
    rw [replaceChunk, if_neg (by decide), if_pos (by decide), formatChunk_of_untagged (untagged_name _)]
  | number =>
    refine Or.inr ⟨n, rfl, ?_, Iff.rfl⟩
    rw [replaceChunk, if_neg (by decide), if_neg (by decide), if_pos (by decide),
      formatChunk_of_untagged (untagged_name _)]
  | time =>
    refine Or.inr ⟨t, rfl, ?_, Iff.rfl⟩
    rw [replaceChunk, if_neg (by decide), if_neg (by decide), if_neg (by decide), if_pos (by decide),
      formatChunk_of_untagged (untagged_name _)]

/-- a token that is read right is replaced by its meaning -/
theorem replaceChunk_of_readRight (h : tok.ReadRight b n t) :
    replaceChunk id b n t tok.chunk = some (tok.meaning id b n t) := by
  cases tok with
  | literal l =>
    rcases replaceChunk_cases id b n t l.text with ⟨hname, _⟩ | ⟨x, hx, hpre, _⟩ | ⟨_, _, hkept⟩
    · exact absurd hname h.1
    · exact absurd hpre (h.2 x hx)
    · exact hkept
  | escape => exact h.elim
  | identifier x =>
    rcases replaceChunk_name id b n t x with ⟨rfl, hid⟩ | ⟨v, htext, hv, hright⟩
    · exact hid
    · simp only [Token.chunk, Token.meaning, htext, hv, paddedInt_of_lt (hright.1 h)]

/-- two texts that differ in their first characters -/
def HeadsDiffer (o e : Str) : Prop := ∃ c s d r, o = c :: s ∧ e = d :: r ∧ c ≠ d

/-- a mark or text that is not read right is replaced by something that begins differently -/
theorem headsDiffer_of_not_readRight (hne : tok ≠ .escape) (h : ¬ tok.ReadRight b n t)
    (ho : replaceChunk ['x'] b n t tok.chunk = some o) : HeadsDiffer o (tok.meaning ['x'] b n t) := by
  cases tok with
  | literal l =>
    rcases replaceChunk_cases ['x'] b n t l.text with ⟨hname, hid⟩ | ⟨x, hx, hpre, v, hv⟩ | ⟨hno, hpre, _⟩
    · rw [Token.chunk, hid] at ho
      rw [Token.meaning, hname, ← Option.some.inj ho]
      exact ⟨_, _, _, _, rfl, rfl, by decide⟩
    · rw [Token.chunk, hv] at ho
      obtain ⟨⟨c, s, rfl, hc⟩, _⟩ := formatChunk_spec ho
      obtain ⟨d, r, hname, hd⟩ := exists_head_name x
      obtain ⟨r', hr'⟩ := hpre
      rw [hname] at hr'
      exact ⟨c, s, d, r ++ r', rfl, hr'.symm, fun hcd => hd (hcd ▸ hc)⟩
    · exact absurd ⟨hno, hpre⟩ h
  | escape => exact absurd rfl hne
  | identifier x =>
    rcases replaceChunk_name ['x'] b n t x with ⟨rfl, _⟩ | ⟨v, htext, hv, hright⟩
    · exact absurd trivial h
    · rw [Token.chunk, hv] at ho
      obtain ⟨s, hs⟩ : ∃ s, paddedInt 1 v = '-' :: s := paddedInt_of_ge (mt hright.2 h)
      rcases hd : decimal v.toNat with _ | ⟨d, r⟩
      · exact absurd hd (decimal_ne_nil _)
      · refine ⟨'-', s, d, r, by rw [← Option.some.inj ho, hs], by rw [Token.meaning, htext, hd], ?_⟩
        have hminus : '-' ∉ decimal v.toNat := notMem_of_digits (fun _ hc => isDigit_of_mem_decimal hc) rfl
        rw [hd] at hminus
        exact List.ne_of_not_mem_cons hminus

/-- no piece brings a dollar in -/
theorem dollar_replaceChunk (hid : '$' ∉ id) (ho : replaceChunk id b n t tok.chunk = some o) : '$' ∉ o := by
  rcases replaceChunk_cases id b n t tok.chunk with ⟨_, hr⟩ | ⟨_, _, _, v, hv⟩ | ⟨_, _, hkept⟩
  · rwa [← Option.some.inj (hr.symm.trans ho)]
  · exact (formatChunk_spec (hv ▸ ho)).2 (dollar_chunk tok)
  · rw [← Option.some.inj (hkept.symm.trans ho)]
    exact dollar_chunk tok

end Pieces

/-! ## All pieces -/

section Templates

variable {id : Str} {b n t : UInt32} {ts : List Token}

/-- the pieces replaced and put together -/
def replaceAll (id : Str) (b n t : UInt32) (chunks : List Str) : Option Str :=
  (chunks.mapM (replaceChunk id b n t)).map List.flatten

@[simp] theorem replaceAll_nil : replaceAll id b n t [] = some [] := by simp [replaceAll]

/-- the first piece, then the others -/
theorem replaceAll_cons_eq_some {c o : Str} {cs : List Str} :
    replaceAll id b n t (c :: cs) = some o ↔
      ∃ p q, replaceChunk id b n t c = some p ∧ replaceAll id b n t cs = some q ∧ o = p ++ q := by
  simp only [replaceAll, List.mapM_cons, Option.map_eq_some_iff, Option.bind_eq_bind, Option.bind_eq_some_iff,
    Option.pure_def, Option.some.injEq]
  constructor
  · intro h
    obtain ⟨_, ⟨p, hp, ps, hps, rfl⟩, rfl⟩ := h
    exact ⟨p, ps.flatten, hp, ⟨ps, hps, rfl⟩, rfl⟩
  · intro h
    obtain ⟨p, q, hp, ⟨ps, hps, rfl⟩, rfl⟩ := h
    exact ⟨p :: ps, ⟨p, hp, ps, hps, rfl⟩, rfl⟩

/-- an empty last piece does not matter -/
theorem replaceAll_append_nil (chunks : List Str) : replaceAll id b n t (chunks ++ [[]]) = replaceAll id b n t chunks := by
  have hempty : replaceChunk id b n t [] = some [] := rfl
  induction chunks with
  | nil => simp [replaceAll, hempty]
  | cons c cs ih =>
    ext o
    rw [List.cons_append, replaceAll_cons_eq_some, replaceAll_cons_eq_some, ih]

/-- the pieces of a written template are those of its merged tokens, up to an empty last one -/
theorem split_written (l : Literal) (ts : List Token) : ∃ tail : List Str, (tail = [] ∨ tail = [[]]) ∧
    (mergedFrom l ts).map Token.chunk = split '$' (l.text ++ written ts) ++ tail := by
  induction ts generalizing l with
  | nil =>
    have hwritten : l.text ++ written [] = l.text := List.append_nil _
    rw [hwritten, split_of_notMem l.no_dollar]
    by_cases hl : l.text = []
    · exact ⟨[[]], Or.inr rfl, by simp [mergedFrom, Token.chunk, hl]⟩
    · exact ⟨[], Or.inl rfl, by simp [mergedFrom, Token.chunk, hl]⟩
  | cons tok ts ih =>
    cases tok with
    | literal m =>
      obtain ⟨tail, htail, h⟩ := ih (l.append m)
      exact ⟨tail, htail, by simpa [mergedFrom, Token.written] using h⟩
    | escape =>
      obtain ⟨tail, htail, h⟩ := ih .empty
      have hcut : l.text ++ written (.escape :: ts) = l.text ++ '$' :: ([] ++ '$' :: written ts) := rfl
      rw [hcut, split_append l.no_dollar, split_append (by simp)]
      exact ⟨tail, htail, by simpa [mergedFrom, Token.chunk] using h⟩
    | identifier x =>
      obtain ⟨tail, htail, h⟩ := ih .empty
      have hname : '$' ∉ x.name := dollar_chunk (.identifier x)
      have hcut : l.text ++ written (.identifier x :: ts) = l.text ++ '$' :: (x.name ++ '$' :: written ts) := by
        simp [Token.written]
      rw [hcut, split_append l.no_dollar, split_append hname]
      exact ⟨tail, htail, by simpa [mergedFrom, Token.chunk] using h⟩

/-- merging texts changes nothing in what the template stands for -/
theorem meaning_mergedFrom (l : Literal) (ts : List Token) :
    meaning id b n t (mergedFrom l ts) = l.text ++ meaning id b n t ts := by
  induction ts generalizing l with
  | nil => simp [mergedFrom, Token.meaning]
  | cons tok ts ih => cases tok <;> simp [mergedFrom, ih, Token.meaning]

theorem one_le_length_mergedFrom (l : Literal) (ts : List Token) : 1 ≤ (mergedFrom l ts).length := by
  induction ts generalizing l with
  | nil => simp [mergedFrom]
  | cons tok ts ih => cases tok <;> simp [mergedFrom, ih]

/-- with a mark there are three tokens at least -/
theorem length_mergedFrom (l : Literal) (h : ∃ tok ∈ ts, tok.isMark = true) : 3 ≤ (mergedFrom l ts).length := by
  induction ts generalizing l with
  | nil => simp at h
  | cons tok ts ih =>
    cases tok with
    | literal m => exact ih (l.append m) (by simpa [Token.isMark] using h)
    | escape => simpa [mergedFrom] using one_le_length_mergedFrom .empty ts
    | identifier x => simpa [mergedFrom] using one_le_length_mergedFrom .empty ts

/-- with a mark the code replaces every piece -/
theorem replaceParameters_of_mark (h : ∃ tok ∈ ts, tok.isMark = true) :
    replaceParameters (written ts) id b n t = replaceAll id b n t ((merged ts).map Token.chunk) := by
  obtain ⟨tail, htail, hsplit⟩ := split_written .empty ts
  have hlen : (split '$' (written ts)).length + tail.length = (mergedFrom .empty ts).length := by
    simpa using (congrArg List.length hsplit).symm
  have hlong : 1 < (split '$' (written ts)).length := by
    have hmerged := length_mergedFrom .empty h
    have htail1 : tail.length ≤ 1 := by rcases htail with rfl | rfl <;> simp
    omega
  have hall : replaceParameters (written ts) id b n t = replaceAll id b n t (split '$' (written ts)) := if_pos hlong
  rw [hall, merged, hsplit]
  rcases htail with rfl | rfl
  · simp
  · simp [replaceAll_append_nil]

/-- without a mark the template is its own meaning, and is returned -/
theorem replaceParameters_of_no_mark (h : ∀ tok ∈ ts, tok.isMark = false) :
    replaceParameters (written ts) id b n t = some (meaning id b n t ts) := by
  have hplain : '$' ∉ written ts ∧ meaning id b n t ts = written ts := by
    induction ts with
    | nil => simp [written]
    | cons tok ts ih =>
      obtain ⟨hdollar, hmeaning⟩ := ih fun k hk => h k (List.mem_cons_of_mem _ hk)
      cases tok with
      | literal l => exact ⟨by simp [Token.written, l.no_dollar, hdollar], by simp [Token.meaning, Token.written, hmeaning]⟩
      | escape => exact absurd (h _ List.mem_cons_self) (by decide)
      | identifier x => exact absurd (h _ List.mem_cons_self) (by simp [Token.isMark])
  have hshort : ¬ 1 < (split '$' (written ts)).length := by
    rw [split_of_notMem hplain.1]
    split_ifs <;> simp
  rw [hplain.2]
  exact if_neg hshort

theorem replaceAll_of_readRight {ms : List Token} (h : ∀ tok ∈ ms, tok.ReadRight b n t) :
    replaceAll id b n t (ms.map Token.chunk) = some (meaning id b n t ms) := by
  induction ms with
  | nil => simp
  | cons tok ms ih =>
    have htail := ih fun k hk => h k (List.mem_cons_of_mem _ hk)
    rw [List.map_cons, replaceAll_cons_eq_some]
    exact ⟨_, _, replaceChunk_of_readRight (h tok List.mem_cons_self), htail, rfl⟩

/-- an outcome that begins as it should is right piece by piece: the first wrong piece begins differently -/
theorem readRight_of_append {ms : List Token} {p r r' : Str} (hne : .escape ∉ ms)
    (hp : replaceAll ['x'] b n t (ms.map Token.chunk) = some p) (h : p ++ r = meaning ['x'] b n t ms ++ r') :
    (∀ tok ∈ ms, tok.ReadRight b n t) ∧ r = r' := by
  induction ms generalizing p with
  | nil =>
    obtain rfl := Option.some.inj hp
    exact ⟨by simp, h⟩
  | cons tok ms ih =>
    obtain ⟨hne1, hne⟩ := not_or.1 (List.mem_cons.not.1 hne)
    rw [List.map_cons, replaceAll_cons_eq_some] at hp
    obtain ⟨p₁, p₂, hp₁, hp₂, rfl⟩ := hp
    rw [meaning_cons, List.append_assoc, List.append_assoc] at h
    by_cases hright : tok.ReadRight b n t
    · have hpm : p₁ = tok.meaning ['x'] b n t := Option.some.inj (hp₁.symm.trans (replaceChunk_of_readRight hright))
      rw [hpm] at h
      obtain ⟨hrest, hr⟩ := ih hne hp₂ (List.append_cancel_left h)
      refine ⟨fun k hk => ?_, hr⟩
      rcases List.mem_cons.1 hk with rfl | hk
      · exact hright
      · exact hrest k hk
    · obtain ⟨c, s, d, r₁, rfl, hd, hcd⟩ := headsDiffer_of_not_readRight (Ne.symm hne1) hright hp₁
      rw [hd] at h
      exact absurd (List.cons.inj h).1 hcd

/-- an outcome that is right as a whole is right piece by piece -/
theorem readRight_of_replaceAll {ms : List Token} (hne : .escape ∉ ms)
    (h : replaceAll ['x'] b n t (ms.map Token.chunk) = some (meaning ['x'] b n t ms)) : ∀ tok ∈ ms, tok.ReadRight b n t := by
  have hnothing : meaning ['x'] b n t ms ++ [] = meaning ['x'] b n t ms ++ [] := rfl
  exact (readRight_of_append hne h hnothing).1

theorem dollar_replaceAll {ms : List Token} {o : Str} (hid : '$' ∉ id)
    (h : replaceAll id b n t (ms.map Token.chunk) = some o) : '$' ∉ o := by
  induction ms generalizing o with
  | nil => simp_all
  | cons tok ms ih =>
    rw [List.map_cons, replaceAll_cons_eq_some] at h
    obtain ⟨p, q, hp, hq, rfl⟩ := h
    simp [dollar_replaceChunk hid hp, ih hq]

/-- **When the substitution follows the grammar.** It yields what the template stands for, whatever the representation
id, exactly when there is no mark or every token is read right. -/
theorem replaceParameters_iff (ts : List Token) (b n t : UInt32) :
    (∀ id, replaceParameters (written ts) id b n t = some (meaning id b n t ts)) ↔
      (∀ tok ∈ ts, tok.isMark = false) ∨ ∀ tok ∈ merged ts, tok.ReadRight b n t := by
  have hmerged : ∀ id, meaning id b n t (merged ts) = meaning id b n t ts := fun id => meaning_mergedFrom .empty ts
  by_cases hmark : ∃ tok ∈ ts, tok.isMark = true
  · constructor
    · intro h
      have hx := h ['x']
      rw [replaceParameters_of_mark hmark, ← hmerged] at hx
      right
      apply readRight_of_replaceAll _ hx
      intro hescape
      have hdollar : '$' ∈ meaning ['x'] b n t (merged ts) :=
        List.mem_flatMap.2 ⟨.escape, hescape, List.mem_singleton_self _⟩
      exact dollar_replaceAll (by decide) hx hdollar
    · intro h id
      rcases h with h | h
      · obtain ⟨tok, htok, hm⟩ := hmark
        exact absurd (h tok htok) (by simp [hm])
      · rw [replaceParameters_of_mark hmark, replaceAll_of_readRight h, hmerged]
  · have hno : ∀ tok ∈ ts, tok.isMark = false := by simpa using hmark
    exact ⟨fun _ => Or.inl hno, fun _ _ => replaceParameters_of_no_mark hno⟩

/-- **An escape leaves nothing.** `$$` should become a single dollar. -/
theorem escape_vanishes :
    replaceParameters (written [.escape]) [] 0 0 0 = some [] ∧
      replaceParameters (written [.escape]) [] 0 0 0 ≠ some (meaning [] 0 0 0 [.escape]) := by
  decide

end Templates

end NdnDash.Mpd
