/-
Width tags in templates (`SegmentTemplate.cpp`, `FormatChunk`). An identifier may carry the tag `%0<width>d` before its
second dollar. The code takes the format from `%0` on and appends a 'd' to it, so the format of `Number%05d` is `%05dd`:
it prints the padded number and then the letter.

- `formatChunk_tagged`: what a tag leads to; from a width of 49 on the buffer overflows.
- `replaceParameters_around`: the substitution around one identifier, with any tokens before and after it.
- `ne_shifted`: what follows a tag never makes up for the letter.
- `widthTags_iff`: an identifier is expanded as its tag says exactly when it has no tag, the number is an `int`, and
  everything else in the template is read right.
-/
import NdnDash.Mpd.TemplateNames

namespace NdnDash.Mpd

open NdnDash.Text

/-! ## The grammar -/

/-- the number an identifier stands for -/
def Identifier.number? (bandwidth number time : UInt32) : Identifier → Option UInt32
  | .representationID => none
  | .bandwidth => some bandwidth
  | .number => some number
  | .time => some time

/-- an identifier with the tag of a width, if there is one -/
def tagged (x : Identifier) : Option ℕ+ → Str
  | none => x.name
  | some width => x.name ++ ("%0".toList ++ (decimal width ++ ['d']))

/-- the text an identifier is to be expanded to -/
def expansion (v : UInt32) : Option ℕ+ → Str
  | none => decimal v.toNat
  | some width => padded width v.toNat

/-- one identifier, with its tag, among other tokens -/
def around (before after : List Token) (chunk : Str) : Str := written before ++ '$' :: (chunk ++ '$' :: written after)

/-! ## The format -/

section Format

variable {x : Identifier} {width : ℕ+} {v b n t : UInt32} {id : Str}

theorem find_tagged (x : Identifier) (width : ℕ+) : find "%0".toList (tagged x (some width)) = some x.name.length := by
  have hpercent : '%' ∉ x.name := by
    cases x <;> decide
  exact find_append_cons hpercent ['0'] _

theorem formatTag_tagged (x : Identifier) (width : ℕ+) :
    formatTag (tagged x (some width)) = '%' :: '0' :: (decimal width ++ ['d', 'd']) := by
  rw [formatTag, find_tagged]
  simp [tagged]

/-- the width is read, and the second letter is text -/
theorem sprintf_tagged (width : ℕ+) (v : UInt32) :
    sprintf ('%' :: '0' :: (decimal width ++ ['d', 'd'])) v = some (paddedInt width v ++ ['d']) := by
  have hdigits : ∀ c ∈ decimal width, c.isDigit = true := fun c hc => isDigit_of_mem_decimal hc
  have htake : (decimal width ++ ['d', 'd']).takeWhile Char.isDigit = decimal width := by
    rw [List.takeWhile_append_of_pos hdigits]
    simp
  have hdrop : (decimal width ++ ['d', 'd']).dropWhile Char.isDigit = ['d', 'd'] := by
    rw [List.dropWhile_append_of_pos hdigits]
    rfl
  have hrest : formatRest ['d'] = some ['d'] := by decide
  simp only [sprintf, hdrop, htake, hrest, value_decimal, Option.map_some]

/-- **A tag.** What is printed is the padded number and a 'd', if there is room for it. -/
theorem formatChunk_tagged (x : Identifier) (width : ℕ+) (v : UInt32) :
    formatChunk (tagged x (some width)) v =
      if max (width : ℕ) (printedLength v) < 49 then some (paddedInt width v ++ ['d']) else none := by
  rw [formatChunk, formatTag_tagged, sprintf_tagged, Option.filter_some]
  simp only [List.length_append, List.length_singleton, length_paddedInt, decide_eq_true_eq]
  split_ifs with h1 h2 h2
  · rfl
  · omega
  · omega
  · rfl

theorem paddedInt_eq (width : ℕ) (h : v.toNat < 2 ^ 31) : paddedInt width v = padded width v.toNat := by
  simp [paddedInt, padded, toInt_of_lt h]

theorem replaceChunk_tagged (hv : x.number? b n t = some v) (width : Option ℕ+) :
    replaceChunk id b n t (tagged x width) = formatChunk (tagged x width) v := by
  have hpre : ∀ y : Identifier, y.name <+: tagged x width ↔ y = x := by
    have hx : x.name <+: tagged x width := by
      cases width with
      | none => exact List.prefix_rfl
      | some width => exact List.prefix_append _ _
    intro y
    refine ⟨fun hy => name_unique hy hx, fun hy => ?_⟩
    rw [hy]
    exact hx
  have hbandwidth : find "Bandwidth".toList (tagged x width) = some 0 ↔ Identifier.bandwidth = x :=
    find_eq_zero_iff.trans (hpre .bandwidth)
  have hnumber : find "Number".toList (tagged x width) = some 0 ↔ Identifier.number = x :=
    find_eq_zero_iff.trans (hpre .number)
  have htime : find "Time".toList (tagged x width) = some 0 ↔ Identifier.time = x :=
    find_eq_zero_iff.trans (hpre .time)
  have hid : tagged x width = "RepresentationID".toList → Identifier.representationID = x := by
    intro h
    apply (hpre .representationID).1
    rw [h]
    exact List.prefix_rfl
  unfold replaceChunk
  cases x with
  | representationID => exact absurd hv (by simp [Identifier.number?])
  | bandwidth =>
    obtain rfl := Option.some.inj hv
    rw [if_neg (fun h => absurd (hid h) (by decide)), if_pos (hbandwidth.2 rfl)]
  | number =>
    obtain rfl := Option.some.inj hv
    rw [if_neg (fun h => absurd (hid h) (by decide)), if_neg (fun h => absurd (hbandwidth.1 h) (by decide)),
      if_pos (hnumber.2 rfl)]
  | time =>
    obtain rfl := Option.some.inj hv
    rw [if_neg (fun h => absurd (hid h) (by decide)), if_neg (fun h => absurd (hbandwidth.1 h) (by decide)),
      if_neg (fun h => absurd (hnumber.1 h) (by decide)), if_pos (htime.2 rfl)]

end Format

/-! ## Around one identifier -/

section Around

variable {b n t v : UInt32} {id chunk o p q r r' : Str} {x : Identifier} {before after ms ts : List Token}

theorem split_before (l : Literal) (before : List Token) (rest : Str) :
    split '$' (l.text ++ (written before ++ '$' :: rest)) = (mergedFrom l before).map Token.chunk ++ split '$' rest := by
  induction before generalizing l with
  | nil => exact split_append l.no_dollar rest
  | cons tok before ih =>
    cases tok with
    | literal m =>
      rw [mergedFrom, ← ih (l.append m)]
      simp [Token.written]
    | escape =>
      have hcut : l.text ++ (written (.escape :: before) ++ '$' :: rest) =
          l.text ++ '$' :: ([] ++ '$' :: (Literal.empty.text ++ (written before ++ '$' :: rest))) := by
        simp [Token.written]
      rw [hcut, split_append l.no_dollar, split_append (by simp), ih]
      rfl
    | identifier x =>
      have hname : '$' ∉ x.name := dollar_chunk (.identifier x)
      have hcut : l.text ++ (written (.identifier x :: before) ++ '$' :: rest) =
          l.text ++ '$' :: (x.name ++ '$' :: (Literal.empty.text ++ (written before ++ '$' :: rest))) := by
        simp [Token.written]
      rw [hcut, split_append l.no_dollar, split_append hname, ih]
      rfl

theorem replaceAll_append_eq_some {cs ds : List Str} :
    replaceAll id b n t (cs ++ ds) = some o ↔
      ∃ p q, replaceAll id b n t cs = some p ∧ replaceAll id b n t ds = some q ∧ o = p ++ q := by
  induction cs generalizing o with
  | nil => simp
  | cons c cs ih =>
    rw [List.cons_append, replaceAll_cons_eq_some]
    refine ⟨fun h => ?_, fun h => ?_⟩
    · obtain ⟨p, q, hp, hq, rfl⟩ := h
      obtain ⟨q₁, q₂, hq₁, hq₂, rfl⟩ := ih.1 hq
      exact ⟨p ++ q₁, q₂, replaceAll_cons_eq_some.2 ⟨p, q₁, hp, hq₁, rfl⟩, hq₂, (List.append_assoc _ _ _).symm⟩
    · obtain ⟨p, q, hp, hq, rfl⟩ := h
      obtain ⟨p₁, p₂, hp₁, hp₂, rfl⟩ := replaceAll_cons_eq_some.1 hp
      exact ⟨p₁, p₂ ++ q, hp₁, ih.2 ⟨p₂, q, hp₂, hq, rfl⟩, List.append_assoc _ _ _⟩

/-- **One identifier among others.** The pieces before it, its own and those after it are replaced one by one. -/
theorem replaceParameters_around (hchunk : '$' ∉ chunk) :
    replaceParameters (around before after chunk) id b n t = some o ↔
      ∃ p m q, replaceAll id b n t ((merged before).map Token.chunk) = some p ∧
        replaceChunk id b n t chunk = some m ∧ replaceAll id b n t ((merged after).map Token.chunk) = some q ∧
        o = p ++ (m ++ q) := by
  obtain ⟨tail, htail, hafter⟩ := split_written .empty after
  have hsplit : split '$' (around before after chunk) =
      (merged before).map Token.chunk ++ chunk :: split '$' (written after) := by
    have h := split_before .empty before (chunk ++ '$' :: written after)
    rw [split_append hchunk] at h
    exact h
  have hnonempty : 1 ≤ ((merged before).map Token.chunk).length := by
    rw [List.length_map]
    exact one_le_length_mergedFrom .empty before
  have hlong : 1 < (split '$' (around before after chunk)).length := by
    rw [hsplit, List.length_append, List.length_cons]
    omega
  have hall : replaceParameters (around before after chunk) id b n t =
      replaceAll id b n t (split '$' (around before after chunk)) := if_pos hlong
  have hrest : replaceAll id b n t ((merged after).map Token.chunk) = replaceAll id b n t (split '$' (written after)) := by
    rw [merged, hafter]
    rcases htail with rfl | rfl
    · rw [List.append_nil]
      rfl
    · exact replaceAll_append_nil _
  rw [hall, hsplit, replaceAll_append_eq_some, hrest]
  refine ⟨fun h => ?_, fun h => ?_⟩
  · obtain ⟨p, r, hp, hr, rfl⟩ := h
    obtain ⟨m, q, hm, hq, rfl⟩ := replaceAll_cons_eq_some.1 hr
    exact ⟨p, m, q, hp, hm, hq, rfl⟩
  · obtain ⟨p, m, q, hp, hm, hq, rfl⟩ := h
    exact ⟨p, m ++ q, hp, replaceAll_cons_eq_some.2 ⟨m, q, hm, hq, rfl⟩, rfl⟩

/-! ## What follows a tag -/

/-- a character that a text begins with twice is repeated behind it -/
theorem cons_of_cons_append {c : Char} {l : Str} (h : c :: (l ++ r) = l ++ r') : c :: r = r' := by
  induction l with
  | nil => exact h
  | cons a l ih =>
    obtain ⟨rfl, htail⟩ := List.cons.inj h
    exact ih htail

theorem replaceChunk_literal (l : Literal) (ho : replaceChunk id b n t l.text = some o) :
    o = l.text ∨ ∃ c s, l.text = c :: s ∧ c ≠ 'd' := by
  rcases replaceChunk_cases id b n t l.text with ⟨hname, -⟩ | ⟨x, -, hpre, -⟩ | ⟨-, -, hkept⟩
  · exact Or.inr ⟨_, _, hname, by decide⟩
  · obtain ⟨s, hs⟩ := hpre
    rw [← hs]
    cases x <;> exact Or.inr ⟨_, _, rfl, by decide⟩
  · exact Or.inl (Option.some.inj (ho.symm.trans hkept))

theorem meaning_identifier (y : Identifier) : ∃ c s, (Token.identifier y).meaning ['x'] b n t = c :: s ∧ c ≠ 'd' := by
  have hdecimal : ∀ k, ∃ c s, decimal k = c :: s ∧ c ≠ 'd' := by
    intro k
    obtain ⟨c, s, hcs⟩ := List.exists_cons_of_ne_nil (decimal_ne_nil k)
    have hletter : 'd' ∉ decimal k := notMem_of_digits (fun _ hc => isDigit_of_mem_decimal hc) rfl
    rw [hcs] at hletter
    exact ⟨c, s, hcs, (List.ne_of_not_mem_cons hletter).symm⟩
  cases y with
  | representationID => exact ⟨'x', [], rfl, by decide⟩
  | bandwidth => exact hdecimal b.toNat
  | number => exact hdecimal n.toNat
  | time => exact hdecimal t.toNat

/-- **The letter stays.** No tokens behind it are replaced by their meaning without it. -/
theorem ne_shifted (l : Literal) (ts : List Token) (hne : .escape ∉ mergedFrom l ts)
    (hq : replaceAll ['x'] b n t ((mergedFrom l ts).map Token.chunk) = some q) :
    'd' :: q ≠ meaning ['x'] b n t (mergedFrom l ts) := by
  induction ts generalizing l with
  | nil =>
    obtain ⟨p, q, hp, hnil, rfl⟩ := replaceAll_cons_eq_some.1 hq
    obtain rfl := Option.some.inj hnil
    intro h
    rcases replaceChunk_literal l hp with rfl | ⟨c, s, hcs, hc⟩
    · exact absurd (cons_of_cons_append h) (by simp)
    · rw [mergedFrom, meaning_cons, Token.meaning, hcs] at h
      exact hc (List.cons.inj h).1.symm
  | cons tok ts ih =>
    cases tok with
    | literal m => exact ih (l.append m) hne hq
    | escape => exact absurd (List.mem_cons_of_mem _ List.mem_cons_self) hne
    | identifier y =>
      obtain ⟨p, q, hp, hrest, rfl⟩ := replaceAll_cons_eq_some.1 hq
      intro h
      rcases replaceChunk_literal l hp with rfl | ⟨c, s, hcs, hc⟩
      · -- behind the text, the letter is compared with an identifier
        have hshift : 'd' :: q = meaning ['x'] b n t (.identifier y :: mergedFrom .empty ts) := cons_of_cons_append h
        obtain ⟨c, s, hcs, hc⟩ := meaning_identifier (b := b) (n := n) (t := t) y
        rw [meaning_cons, hcs] at hshift
        exact hc (List.cons.inj hshift).1.symm
      · rw [mergedFrom, meaning_cons, Token.meaning, hcs] at h
        exact hc (List.cons.inj h).1.symm

/-! ## Main result -/

theorem expansion_head (v : UInt32) (width : Option ℕ+) : ∃ c s, expansion v width = c :: s ∧ c ≠ '-' := by
  have hdigits : ∀ c ∈ expansion v width, c.isDigit = true := by
    intro c hc
    cases width with
    | none => exact isDigit_of_mem_decimal hc
    | some width => exact isDigit_zeros hc
  have hne : expansion v width ≠ [] := by
    cases width with
    | none => exact decimal_ne_nil _
    | some width => exact List.append_ne_nil_of_right_ne_nil _ (decimal_ne_nil _)
  obtain ⟨c, s, hcs⟩ := List.exists_cons_of_ne_nil hne
  have hminus : '-' ∉ expansion v width := notMem_of_digits hdigits rfl
  rw [hcs] at hminus
  exact ⟨c, s, hcs, (List.ne_of_not_mem_cons hminus).symm⟩

theorem replaceChunk_tagged_spec {m : Str} (hv : x.number? b n t = some v) {width : Option ℕ+}
    (hm : replaceChunk id b n t (tagged x width) = some m) :
    ∃ w, m = paddedInt w v ++ (if width = none then [] else ['d']) ∧
      (v.toNat < 2 ^ 31 → paddedInt w v = expansion v width) := by
  rw [replaceChunk_tagged hv] at hm
  cases width with
  | none =>
    have huntagged : formatChunk (tagged x none) v = some (paddedInt 1 v) := formatChunk_of_untagged (untagged_name x)
    rw [huntagged, Option.some.injEq] at hm
    exact ⟨1, by simp [hm], paddedInt_of_lt⟩
  | some width =>
    rw [formatChunk_tagged] at hm
    split_ifs at hm
    exact ⟨width, (Option.some.inj hm).symm, paddedInt_eq width⟩

theorem dollar_tagged (x : Identifier) (width : Option ℕ+) : '$' ∉ tagged x width := by
  have hname : '$' ∉ x.name := dollar_chunk (.identifier x)
  cases width with
  | none => exact hname
  | some width =>
    have hdigits : '$' ∉ decimal width := notMem_of_digits (fun _ hc => isDigit_of_mem_decimal hc) rfl
    simp [tagged, hname, hdigits]

/-- **Width tags.** Among any other tokens, an identifier is expanded to the digits of its number, padded to the width of
its tag, and everything else to its meaning, whatever the representation id, exactly when it has no tag, its number is an
`int` and the other pieces are read right. -/
theorem widthTags_iff (hv : x.number? b n t = some v) (width : Option ℕ+) (before after : List Token) :
    (∀ id, replaceParameters (around before after (tagged x width)) id b n t =
        some (meaning id b n t before ++ (expansion v width ++ meaning id b n t after))) ↔
      width = none ∧ v.toNat < 2 ^ 31 ∧ ∀ tok ∈ merged before ++ merged after, tok.ReadRight b n t := by
  have hbefore : ∀ id, meaning id b n t before = meaning id b n t (merged before) :=
    fun id => (meaning_mergedFrom .empty before).symm
  have hafter : ∀ id, meaning id b n t after = meaning id b n t (merged after) :=
    fun id => (meaning_mergedFrom .empty after).symm
  simp only [replaceParameters_around (dollar_tagged x width), hbefore, hafter]
  refine ⟨fun h => ?_, fun h id => ?_⟩
  · obtain ⟨p, m, q, hp, hm, hq, heq⟩ := h ['x']
    obtain ⟨w, hw, hexpansion⟩ := replaceChunk_tagged_spec hv hm
    -- no dollar is left in the output, so there is no escape
    have hdollar : '$' ∉ p ++ (m ++ q) := by
      rw [replaceChunk_tagged hv] at hm
      simp [dollar_replaceAll (by decide) hp, (formatChunk_spec hm).2 (dollar_tagged x width),
        dollar_replaceAll (by decide) hq]
    rw [← heq] at hdollar
    have hescape : ∀ ts, '$' ∉ meaning ['x'] b n t ts → .escape ∉ ts := fun ts hts hmem =>
      hts (List.mem_flatMap.2 ⟨.escape, hmem, List.mem_singleton_self _⟩)
    simp only [List.mem_append, not_or] at hdollar
    obtain ⟨hdollarBefore, -, hdollarAfter⟩ := hdollar
    obtain ⟨hrightBefore, hrest⟩ := readRight_of_append (hescape _ hdollarBefore) hp heq.symm
    have hlt : v.toNat < 2 ^ 31 := by
      by_contra hge
      obtain ⟨s, hs⟩ : ∃ s, paddedInt w v = '-' :: s := paddedInt_of_ge hge
      obtain ⟨c, s', hcs, hc⟩ := expansion_head v width
      rw [hw, hs, hcs] at hrest
      exact hc (List.cons.inj hrest).1.symm
    rw [hw, hexpansion hlt, List.append_assoc] at hrest
    have hletter := List.append_cancel_left hrest
    by_cases hwidth : width = none
    · rw [if_pos hwidth, List.nil_append] at hletter
      have hrightAfter := readRight_of_replaceAll (hescape _ hdollarAfter) (hletter ▸ hq)
      refine ⟨hwidth, hlt, fun tok htok => ?_⟩
      rcases List.mem_append.1 htok with htok | htok
      · exact hrightBefore tok htok
      · exact hrightAfter tok htok
    · rw [if_neg hwidth] at hletter
      exact absurd hletter (ne_shifted .empty after (hescape _ hdollarAfter) hq)
  · obtain ⟨rfl, hlt, hright⟩ := h
    have hp : replaceAll id b n t ((merged before).map Token.chunk) = some (meaning id b n t (merged before)) :=
      replaceAll_of_readRight fun tok htok => hright tok (List.mem_append_left _ htok)
    have hq : replaceAll id b n t ((merged after).map Token.chunk) = some (meaning id b n t (merged after)) :=
      replaceAll_of_readRight fun tok htok => hright tok (List.mem_append_right _ htok)
    have hm : replaceChunk id b n t (tagged x none) = some (expansion v none) := by
      rw [replaceChunk_tagged hv, expansion, ← paddedInt_of_lt hlt]
      exact formatChunk_of_untagged (untagged_name x)
    exact ⟨_, _, _, hp, hm, hq, rfl⟩

/-- `seg-$Number$.m4s` -/
theorem widthTags_plain :
    replaceParameters (around [.literal ⟨"seg-".toList, by decide⟩] [.literal ⟨".m4s".toList, by decide⟩]
      (tagged .number none)) "1".toList 0 7 0 = some "seg-7.m4s".toList := by
  have h := (widthTags_iff (b := 0) (n := 7) (t := 0) (x := .number) rfl none [.literal ⟨"seg-".toList, by decide⟩]
    [.literal ⟨".m4s".toList, by decide⟩]).2 ⟨rfl, by decide, by decide⟩
  exact (h "1".toList).trans (by decide)

/-- `$Number%05d$` with the number 7 becomes 00007d -/
theorem tag_leaves_letter :
    replaceParameters "$Number%05d$".toList [] 0 7 0 = some "00007d".toList ∧ expansion 7 (some 5) = "00007".toList ∧
      replaceParameters (around [] [] (tagged .number (some 5))) [] 0 7 0 ≠
        some (meaning [] 0 7 0 [] ++ (expansion 7 (some 5) ++ meaning [] 0 7 0 [])) := by
  decide +kernel

end Around

end NdnDash.Mpd
