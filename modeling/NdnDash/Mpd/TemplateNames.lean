/-
The names a template gives to its segments: with `$Number$` (or `$Time$`) in it, different numbers (or times) get
different URIs, and these stay different behind any base URL. The sign and the zeros that are printed, what else is in
the template, and how often the number occurs do not matter.

- `paddedInt_inj`: the printed number is the number.
- `replaceChunk_pair`: a piece is the same for both numbers, or it is the number with the same text around it.
- `uri_inj`: the URIs of two numbers differ.
- `absoluteUri_inj`: and so do the URIs behind the base URLs.
-/
import NdnDash.Core.Pieces
import NdnDash.Mpd.Segment

namespace NdnDash.Mpd

open NdnDash.Text NdnDash.Path

/-! ## Numbers -/

section Numbers

variable {width : ℕ} {number number' : UInt32}

/-- how many characters a number takes without padding -/
def printedLength (number : UInt32) : ℕ :=
  (decimal number.toInt32.toInt.natAbs).length + if number.toInt32.toInt < 0 then 1 else 0

theorem length_paddedInt : (paddedInt width number).length = max width (printedLength number) := by
  by_cases hneg : number.toInt32.toInt < 0
  · simp only [paddedInt, printedLength, if_pos hneg, List.length_cons, List.length_append, List.length_replicate]
    omega
  · simp only [paddedInt, printedLength, if_neg hneg, List.length_append, List.length_replicate]
    omega

theorem toInt_inj (h : number.toInt32.toInt = number'.toInt32.toInt) : number = number' := by
  rw [toInt_toInt32, toInt_toInt32, Int.bmod_def, Int.bmod_def] at h
  have hlt := number.toNat_lt
  have hlt' := number'.toNat_lt
  apply UInt32.toNat_inj.1
  omega

theorem paddedInt_inj (h : paddedInt width number = paddedInt width number') : number = number' := by
  apply toInt_inj
  have hminus : ∀ {s s' : Str} {k n : ℕ}, s = List.replicate k '0' ++ decimal n → '-' :: s' ≠ s := by
    intro s s' k n hs heq
    have hnot : '-' ∉ s := notMem_of_digits (fun c hc => isDigit_zeros (hs ▸ hc)) rfl
    exact hnot (heq ▸ List.mem_cons_self)
  simp only [paddedInt] at h
  split_ifs at h with hneg hneg' hneg'
  · have hvalue := congrArg value (List.cons.inj h).2
    rw [value_zeros, value_zeros] at hvalue
    omega
  · exact absurd h (hminus rfl)
  · exact absurd h.symm (hminus rfl)
  · have hvalue := congrArg value h
    rw [value_zeros, value_zeros] at hvalue
    omega

end Numbers

/-! ## Pieces -/

section Pairs

variable {number number' n n' t t' b : UInt32} {uri id o o' : Str}

/-- two numbers printed with the same width and the same text after them -/
def Printed (number number' : UInt32) (o o' : Str) : Prop :=
  ∃ width rest, o = paddedInt width number ++ rest ∧ o' = paddedInt width number' ++ rest

theorem Printed.eq (h : Printed number number o o') : o = o' := by
  obtain ⟨_, _, ho, ho'⟩ := h
  rw [ho, ho']

theorem Printed.number_eq (h : Printed number number' o o) : number = number' := by
  obtain ⟨_, _, ho, ho'⟩ := h
  exact paddedInt_inj (List.append_cancel_right (ho.symm.trans ho'))

theorem Printed.length_le (h : Printed number number' o o') (hle : printedLength number ≤ printedLength number') :
    o.length ≤ o'.length := by
  obtain ⟨_, _, rfl, rfl⟩ := h
  rw [List.length_append, List.length_append, length_paddedInt, length_paddedInt]
  omega

theorem Printed.beginAlike (h : Printed number number' o o') : Pieces.BeginAlike '/' o o' := by
  obtain ⟨width, rest, rfl, rfl⟩ := h
  have hhead : ∀ n, (paddedInt width n ++ rest).head? ≠ some '/' := by
    intro n hslash
    rw [List.head?_append_of_ne_nil _ paddedInt_ne_nil] at hslash
    rcases mem_paddedInt (List.mem_of_mem_head? hslash) with h | h
    · exact absurd h (by decide)
    · exact absurd h (by decide)
  exact Or.inr ⟨by simp [paddedInt_ne_nil], by simp [paddedInt_ne_nil], hhead _, hhead _⟩

theorem formatChunk_pair (h : formatChunk uri number = some o) (h' : formatChunk uri number' = some o') :
    Printed number number' o o' := by
  have hprint : sprintf (formatTag uri) number = some o := (Option.filter_eq_some_iff.1 h).1
  have hprint' : sprintf (formatTag uri) number' = some o' := (Option.filter_eq_some_iff.1 h').1
  generalize formatTag uri = format at hprint hprint'
  unfold sprintf at hprint hprint'
  split at hprint
  · split at hprint
    · obtain ⟨r, hr, rfl⟩ := Option.map_eq_some_iff.1 hprint
      rename_i hrest
      simp only [hrest, hr, Option.map_some, Option.some.injEq] at hprint'
      exact ⟨_, r, rfl, hprint'.symm⟩
    · exact absurd hprint (by simp)
  · exact absurd hprint (by simp)

/-- a piece begins with one name at most -/
theorem name_unique {x y : Identifier} {chunk : Str} (hx : x.name <+: chunk) (hy : y.name <+: chunk) : x = y := by
  have hxy : x.name <+: y.name ∨ y.name <+: x.name := List.prefix_or_prefix_of_prefix hx hy
  cases x <;> cases y <;> first | rfl | exact absurd hxy (by decide)

/-- a piece is the same for both numbers and times, or it is one of them with the same text around it -/
theorem replaceChunk_pair {chunk : Str} (h : replaceChunk id b n t chunk = some o)
    (h' : replaceChunk id b n' t' chunk = some o') :
    (o = o' ∧ ¬ Identifier.number.name <+: chunk ∧ ¬ Identifier.time.name <+: chunk) ∨
      (Printed n n' o o' ∧ Identifier.number.name <+: chunk) ∨ (Printed t t' o o' ∧ Identifier.time.name <+: chunk) := by
  unfold replaceChunk at h h'
  by_cases hid : chunk = "RepresentationID".toList
  · rw [if_pos hid, Option.some.injEq] at h h'
    rw [hid]
    exact Or.inl ⟨h.symm.trans h', by decide, by decide⟩
  rw [if_neg hid] at h h'
  by_cases hbandwidth : find "Bandwidth".toList chunk = some 0
  · have hname : Identifier.bandwidth.name <+: chunk := find_eq_zero_iff.1 hbandwidth
    rw [if_pos hbandwidth] at h h'
    refine Or.inl ⟨(formatChunk_pair h h').eq, ?_, ?_⟩
    · intro hnumber
      exact absurd (name_unique hname hnumber) (by decide)
    · intro htime
      exact absurd (name_unique hname htime) (by decide)
  rw [if_neg hbandwidth] at h h'
  by_cases hnumber : find "Number".toList chunk = some 0
  · rw [if_pos hnumber] at h h'
    exact Or.inr (Or.inl ⟨formatChunk_pair h h', find_eq_zero_iff.1 hnumber⟩)
  rw [if_neg hnumber] at h h'
  by_cases htime : find "Time".toList chunk = some 0
  · rw [if_pos htime] at h h'
    exact Or.inr (Or.inr ⟨formatChunk_pair h h', find_eq_zero_iff.1 htime⟩)
  · rw [if_neg htime, Option.some.injEq] at h h'
    exact Or.inl ⟨h.symm.trans h', mt find_eq_zero_iff.2 hnumber, mt find_eq_zero_iff.2 htime⟩

end Pairs

/-! ## URIs -/

/-- an identifier, with a width tag or not, stands between two dollars -/
def Names (x : Identifier) (media : Str) : Prop :=
  ∃ before tag after, '$' ∉ tag ∧ media = before ++ '$' :: (x.name ++ tag ++ '$' :: after)

/-- the URI for a number, or for a time -/
def segmentUri (x : Identifier) (media id : Str) (bandwidth value : UInt32) : Option Str :=
  replaceParameters media id bandwidth (if x = .number then value else 0) (if x = .time then value else 0)

section Uris

variable {x : Identifier} {media id u u' : Str} {b v v' : UInt32}

/-- one of the pieces is the identifier, and there is another piece -/
theorem exists_chunk (h : Names x media) : 1 < (split '$' media).length ∧ ∃ chunk ∈ split '$' media, x.name <+: chunk := by
  obtain ⟨before, tag, after, htag, rfl⟩ := h
  have hname : '$' ∉ x.name ++ tag := by
    rw [List.mem_append, not_or]
    exact ⟨by cases x <;> decide, htag⟩
  obtain ⟨piece, pieces, hsplit⟩ := exists_split_append before (x.name ++ tag ++ '$' :: after)
  rw [hsplit, split_append hname]
  refine ⟨by simp, x.name ++ tag, by simp, List.prefix_append _ _⟩

/-- the pieces that are put together -/
theorem exists_pieces (h : Names x media) (hu : segmentUri x media id b v = some u) :
    ∃ os, (split '$' media).mapM
      (replaceChunk id b (if x = .number then v else 0) (if x = .time then v else 0)) = some os ∧ os.flatten = u := by
  rw [segmentUri, replaceParameters, if_pos (exists_chunk h).1] at hu
  exact Option.map_eq_some_iff.1 hu

/-- a piece is the same for both values, or it is the value with the same text around it -/
theorem replaceChunk_vary (hx : x = .number ∨ x = .time) {chunk o o' : Str}
    (h : replaceChunk id b (if x = .number then v else 0) (if x = .time then v else 0) chunk = some o)
    (h' : replaceChunk id b (if x = .number then v' else 0) (if x = .time then v' else 0) chunk = some o') :
    (o = o' ∧ ¬ x.name <+: chunk) ∨ Printed v v' o o' := by
  rcases replaceChunk_pair h h' with ⟨heq, hnumber, htime⟩ | ⟨hprinted, hnumber⟩ | ⟨hprinted, htime⟩
  · rcases hx with rfl | rfl
    · exact Or.inl ⟨heq, hnumber⟩
    · exact Or.inl ⟨heq, htime⟩
  · rcases hx with rfl | rfl
    · exact Or.inr hprinted
    · exact Or.inl ⟨hprinted.eq, fun htime => absurd (name_unique hnumber htime) (by decide)⟩
  · rcases hx with rfl | rfl
    · exact Or.inl ⟨hprinted.eq, fun hnumber => absurd (name_unique hnumber htime) (by decide)⟩
    · exact Or.inr hprinted

theorem pieces_eq {os os' chunks : List Str} (hx : x = .number ∨ x = .time)
    (hle : printedLength v ≤ printedLength v')
    (h : chunks.mapM (replaceChunk id b (if x = .number then v else 0) (if x = .time then v else 0)) = some os)
    (h' : chunks.mapM (replaceChunk id b (if x = .number then v' else 0) (if x = .time then v' else 0)) = some os')
    (heq : os.flatten = os'.flatten) : os = os' := by
  refine Pieces.eq_of_flatten_eq (Pieces.forall₂_of_mapM ?_ h h') heq
  intro chunk o o' ho ho'
  rcases replaceChunk_vary hx ho ho' with ⟨rfl, _⟩ | hprinted
  · exact le_rfl
  · exact hprinted.length_le hle

/-- **Different values have different URIs.** -/
theorem uri_inj (hx : x = .number ∨ x = .time) (hnames : Names x media) (h : segmentUri x media id b v = some u)
    (h' : segmentUri x media id b v' = some u) : v = v' := by
  obtain ⟨os, hos, rfl⟩ := exists_pieces hnames h
  obtain ⟨os', hos', hflatten⟩ := exists_pieces hnames h'
  have heq : os = os' := by
    rcases le_total (printedLength v) (printedLength v') with hle | hle
    · exact pieces_eq hx hle hos hos' hflatten.symm
    · exact (pieces_eq hx hle hos' hos hflatten).symm
  subst heq
  obtain ⟨-, chunk, hchunk, hprefix⟩ := exists_chunk hnames
  obtain ⟨o, ho, ho'⟩ := Pieces.exists_of_mapM hos hos' hchunk
  rcases replaceChunk_vary hx ho ho' with ⟨_, hno⟩ | hprinted
  · exact absurd hprefix hno
  · exact hprinted.number_eq

/-- the URIs of two values both begin with a slash or both do not -/
theorem head?_uri (hx : x = .number ∨ x = .time) (hnames : Names x media) (h : segmentUri x media id b v = some u)
    (h' : segmentUri x media id b v' = some u') : u.head? = some '/' ↔ u'.head? = some '/' := by
  obtain ⟨os, hos, rfl⟩ := exists_pieces hnames h
  obtain ⟨os', hos', rfl⟩ := exists_pieces hnames h'
  apply Pieces.head?_flatten
  refine Pieces.forall₂_of_mapM ?_ hos hos'
  intro chunk o o' ho ho'
  rcases replaceChunk_vary hx ho ho' with ⟨heq, _⟩ | hprinted
  · exact Or.inl heq
  · exact hprinted.beginAlike

/-- joining to a base loses a slash at the beginning at most -/
theorem combinePaths_right_inj {base : Str} (hu : u ≠ []) (hu' : u' ≠ [])
    (hhead : u.head? = some '/' ↔ u'.head? = some '/') (h : combinePaths base u = combinePaths base u') : u = u' := by
  by_cases hbase : base = []
  · rw [hbase, combinePaths_nil_left, combinePaths_nil_left] at h
    exact h
  · rw [combinePaths_eq_join, Separated.join_of_ne hbase hu, Separated.join_of_ne hbase hu',
      List.append_cancel_left_eq] at h
    unfold Separated.opened at h
    by_cases hslash : u.head? = some '/'
    · rw [if_pos hslash, if_pos (hhead.1 hslash)] at h
      rw [← List.cons_head?_tail hslash, ← List.cons_head?_tail (hhead.1 hslash), h]
    · rw [if_neg hslash, if_neg (mt hhead.2 hslash)] at h
      exact h

/-- **Also behind base URLs.** -/
theorem absoluteUri_inj {baseurls : List BaseUrl} (hx : x = .number ∨ x = .time) (hnames : Names x media)
    (h : segmentUri x media id b v = some u) (h' : segmentUri x media id b v' = some u') (hu : u ≠ []) (hu' : u' ≠ [])
    (heq : absoluteUri baseurls u = absoluteUri baseurls u') : v = v' := by
  have huri : u = u' := combinePaths_right_inj hu hu' (head?_uri hx hnames h h') heq
  subst huri
  exact uri_inj hx hnames h h'

end Uris

end NdnDash.Mpd
