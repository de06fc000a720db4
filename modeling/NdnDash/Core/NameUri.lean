/-
Hierarchical names of byte-string components and their URI form.

A name is printed with a slash before each component; a byte outside `A-Za-z0-9+._-` is percent-encoded, and a component
of `k` periods and nothing else is printed as `k + 3` periods. It is read by splitting at the slashes and
percent-decoding; pieces without characters are skipped.

- `mem_componentUri`, `componentUri_ne`: a printed component has only printable characters, and is never empty, `.` or
  `..`.
- `cut_nameUri`: what follows a slash in a printed name is the printed rest of its components.
- `split_joined`: splitting at the slashes undoes joining with slashes.
- `componentUri_unescape`: a component of unescaped characters is printed as it was read.
-/
import Mathlib.Data.List.GetD
import NdnDash.Core.Bytes
import NdnDash.Core.Text

namespace NdnDash.NameUri

open NdnDash.Text

/-! ## Printing -/

/-- the characters that are printed as they are -/
def unescaped (c : Char) : Bool := c.isAlphanum || c == '+' || c == '.' || c == '_' || c == '-'

def hexDigit (n : ℕ) : Char := "0123456789ABCDEF".toList.getD n '0'

def escapeByte (b : UInt8) : Str :=
  if unescaped (Char.ofNat b.toNat) then [Char.ofNat b.toNat]
  else ['%', hexDigit (b.toNat / 16), hexDigit (b.toNat % 16)]

def componentUri (component : Bytes) : Str :=
  if component.all (· == 46) then List.replicate (component.length + 3) '.' else component.flatMap escapeByte

/-- the parts with a slash before each -/
def slashed (parts : List Str) : Str := parts.flatMap fun part => '/' :: part

def nameUri (name : List Bytes) : Str := if name = [] then ['/'] else slashed (name.map componentUri)

/-! ## Reading -/

def hexValue (c : Char) : Option ℕ :=
  if c.isDigit then some (c.toNat - 48)
  else if 'A' ≤ c ∧ c ≤ 'F' then some (c.toNat - 55)
  else if 'a' ≤ c ∧ c ≤ 'f' then some (c.toNat - 87)
  else none

/-- percent-decoding; a percent sign without two hexadecimal digits stands for itself -/
def unescape : Str → Bytes
  | '%' :: h :: l :: rest =>
    match hexValue h, hexValue l with
    | some h', some l' => UInt8.ofNat (16 * h' + l') :: unescape rest
    | _, _ => 37 :: unescape (h :: l :: rest)
  | c :: rest => UInt8.ofNat c.toNat :: unescape rest
  | [] => []

def ofUri (uri : Str) : List Bytes := ((split '/' uri).filter (· ≠ [])).map unescape

/-! ## Joined parts -/

/-- the parts with a slash between two -/
def joined : List Str → Str
  | [] => []
  | part :: parts => part ++ slashed parts

theorem slashed_cons (part : Str) (parts : List Str) : slashed (part :: parts) = '/' :: joined (part :: parts) := rfl

theorem slashed_append (parts parts' : List Str) : slashed (parts ++ parts') = slashed parts ++ slashed parts' :=
  List.flatMap_append

theorem joined_append {parts : List Str} (hne : parts ≠ []) (parts' : List Str) :
    joined (parts ++ parts') = joined parts ++ slashed parts' := by
  cases parts with
  | nil => exact absurd rfl hne
  | cons part parts => rw [List.cons_append, joined, joined, slashed_append, List.append_assoc]

theorem mem_joined {parts : List Str} {c : Char} (h : c ∈ joined parts) : c = '/' ∨ ∃ part ∈ parts, c ∈ part := by
  cases parts with
  | nil => cases h
  | cons part parts =>
    rcases List.mem_append.1 h with h | h
    · exact Or.inr ⟨part, List.mem_cons_self, h⟩
    · obtain ⟨next, hnext, hc⟩ := List.mem_flatMap.1 h
      rcases List.mem_cons.1 hc with hc | hc
      · exact Or.inl hc
      · exact Or.inr ⟨next, List.mem_cons_of_mem _ hnext, hc⟩

theorem mem_joined_of_mem {parts : List Str} {part : Str} (hpart : part ∈ parts) {c : Char} (hc : c ∈ part) :
    c ∈ joined parts := by
  cases parts with
  | nil => cases hpart
  | cons first parts =>
    rcases List.mem_cons.1 hpart with rfl | hpart
    · exact List.mem_append_left _ hc
    · exact List.mem_append_right _ (List.mem_flatMap.2 ⟨part, hpart, List.mem_cons_of_mem _ hc⟩)

/-- a part that can stand between slashes -/
def Part (part : Str) : Prop := part ≠ [] ∧ '/' ∉ part

theorem split_joined {parts : List Str} (h : ∀ part ∈ parts, Part part) : split '/' (joined parts) = parts := by
  induction parts with
  | nil => rfl
  | cons part parts ih =>
    obtain ⟨hne, hslash⟩ := h part List.mem_cons_self
    cases parts with
    | nil =>
      rw [joined, slashed, List.flatMap_nil, List.append_nil, split_of_notMem hslash, if_neg hne]
    | cons next parts =>
      rw [joined, slashed_cons, split_append hslash, ih fun p hp => h p (List.mem_cons_of_mem _ hp)]

/-- **A cut at a slash.** What follows a slash of slashed parts is some of the parts, joined. -/
theorem cut_slashed {parts : List Str} (h : ∀ part ∈ parts, Part part) {before after : Str}
    (hcut : slashed parts = before ++ '/' :: after) :
    ∃ front back, parts = front ++ back ∧ back ≠ [] ∧ after = joined back := by
  induction parts generalizing before with
  | nil => simp [slashed] at hcut
  | cons part parts ih =>
    cases before with
    | nil =>
      rw [slashed_cons, List.nil_append, List.cons.injEq] at hcut
      exact ⟨[], part :: parts, rfl, List.cons_ne_nil _ _, hcut.2.symm⟩
    | cons c before =>
      obtain ⟨hne, hslash⟩ := h part List.mem_cons_self
      rw [slashed_cons, joined, List.cons_append, List.cons.injEq] at hcut
      -- the slash lies behind the first part
      have hrest : ∃ before', slashed parts = before' ++ '/' :: after := by
        rcases List.append_eq_append_iff.1 hcut.2 with ⟨more, -, hmore⟩ | ⟨more, hmore, hafter⟩
        · exact ⟨more, hmore⟩
        · cases more with
          | nil => exact ⟨[], by simpa using hafter.symm⟩
          | cons d more =>
            rw [List.cons_append, List.cons.injEq] at hafter
            exact absurd (by rw [hmore, ← hafter.1]; simp) hslash
      obtain ⟨before', hrest⟩ := hrest
      obtain ⟨front, back, hparts, hback, hafter⟩ := ih (fun p hp => h p (List.mem_cons_of_mem _ hp)) hrest
      exact ⟨part :: front, back, by rw [hparts, List.cons_append], hback, hafter⟩

/-! ## Printed components -/

/-- the characters of a printed component -/
def printable (c : Char) : Bool := unescaped c || c == '%'

theorem unescaped_hexDigit (n : ℕ) : unescaped (hexDigit n) = true := by
  rcases Nat.lt_or_ge n 16 with h | h
  · interval_cases n <;> decide
  · have hlen : "0123456789ABCDEF".toList.length ≤ n := h
    rw [hexDigit, List.getD_eq_default _ _ hlen]
    decide

theorem printable_of_mem_escapeByte {b : UInt8} {c : Char} (h : c ∈ escapeByte b) : printable c = true := by
  unfold escapeByte at h
  split_ifs at h with hb
  · rw [List.mem_singleton.1 h, printable, hb]
    rfl
  · simp only [List.mem_cons, List.not_mem_nil, or_false] at h
    rcases h with rfl | rfl | rfl
    · decide
    · rw [printable, unescaped_hexDigit]
      rfl
    · rw [printable, unescaped_hexDigit]
      rfl

/-- **Printed components are printable.** -/
theorem mem_componentUri {component : Bytes} {c : Char} (h : c ∈ componentUri component) : printable c = true := by
  unfold componentUri at h
  split_ifs at h
  · rw [List.eq_of_mem_replicate h]
    decide
  · obtain ⟨b, -, hb⟩ := List.mem_flatMap.1 h
    exact printable_of_mem_escapeByte hb

theorem toNat_ofNat_byte (b : UInt8) : (Char.ofNat b.toNat).toNat = b.toNat := by
  have hlt := b.toNat_lt
  have hvalid : b.toNat.isValidChar := Or.inl (by omega)
  rw [Char.ofNat, dif_pos hvalid]
  rfl

/-- a byte other than a period is not printed with periods only -/
theorem exists_ne_period {b : UInt8} (h : b ≠ 46) : ∃ c ∈ escapeByte b, c ≠ '.' := by
  unfold escapeByte
  split_ifs with hb
  · refine ⟨_, List.mem_singleton_self _, fun hc => h ?_⟩
    have hnat := congrArg Char.toNat hc
    rw [toNat_ofNat_byte] at hnat
    exact UInt8.toNat_inj.1 hnat
  · exact ⟨'%', List.mem_cons_self, by decide⟩

/-- **Printed components do not move up or stay.** -/
theorem componentUri_ne (component : Bytes) :
    componentUri component ≠ [] ∧ componentUri component ≠ ['.'] ∧ componentUri component ≠ ['.', '.'] := by
  unfold componentUri
  split_ifs with hall
  · simp [List.replicate_succ]
  · obtain ⟨b, hb, hne⟩ : ∃ b ∈ component, b ≠ 46 := by simpa using hall
    obtain ⟨c, hc, hperiod⟩ := exists_ne_period hne
    have hmem : c ∈ component.flatMap escapeByte := List.mem_flatMap.2 ⟨b, hb, hc⟩
    refine ⟨?_, ?_, ?_⟩
    all_goals
      intro heq
      rw [heq] at hmem
      simp only [List.mem_cons, List.not_mem_nil, or_false, or_self] at hmem
    · exact hperiod hmem
    · exact hperiod hmem

theorem part_componentUri (component : Bytes) : Part (componentUri component) :=
  ⟨(componentUri_ne component).1, fun h => absurd (mem_componentUri h) (by decide)⟩

/-- **A cut at a slash of a printed name.** Behind any text that ends before a slash stand printed components. -/
theorem cut_nameUri {name : List Bytes} {before after : Str} (hbefore : before ≠ [])
    (h : nameUri name = before ++ '/' :: after) :
    ∃ components : List Bytes, components ≠ [] ∧ after = joined (components.map componentUri) := by
  unfold nameUri at h
  split_ifs at h with hname
  · have hlen := congrArg List.length h
    have hpos := List.length_pos_of_ne_nil hbefore
    simp at hlen
    omega
  · have hparts : ∀ part ∈ name.map componentUri, Part part := by
      intro part hpart
      obtain ⟨component, -, rfl⟩ := List.mem_map.1 hpart
      exact part_componentUri component
    obtain ⟨front, back, hsplit, hback, hafter⟩ := cut_slashed hparts h
    obtain ⟨front', back', -, -, rfl⟩ := List.map_eq_append_iff.1 hsplit
    exact ⟨back', fun hnil => hback (by rw [hnil]; rfl), hafter⟩

/-! ## Reading back what was written -/

/-- the bytes of a text without percent signs -/
theorem unescape_of_notMem {s : Str} (h : '%' ∉ s) : unescape s = s.map fun c => UInt8.ofNat c.toNat := by
  induction s with
  | nil => rfl
  | cons c s ih =>
    obtain ⟨hc, hs⟩ := not_or.1 (List.mem_cons.not.1 h)
    have hstep : unescape (c :: s) = UInt8.ofNat c.toNat :: unescape s := by
      rw [unescape.eq_def]
      split
      · rename_i heq
        exact absurd (List.cons.inj heq).1 (Ne.symm hc)
      · rename_i heq
        rw [List.cons.injEq] at heq
        rw [heq.1, heq.2]
      · rename_i heq
        cases heq
    rw [hstep, ih hs, List.map_cons]

/-- an 8-bit character is its byte -/
theorem ofNat_toNat_of_lt {c : Char} (h : c.toNat < 256) : Char.ofNat (UInt8.ofNat c.toNat).toNat = c := by
  rw [UInt8.toNat_ofNat', Nat.mod_eq_of_lt h, Char.ofNat_toNat]

theorem toNat_lt_of_unescaped {c : Char} (h : unescaped c = true) : c.toNat < 256 := by
  have halphanum : c.isAlphanum = (decide ('A'.val ≤ c.val ∧ c.val ≤ 'Z'.val) ||
      ('a'.val ≤ c.val && c.val ≤ 'z'.val) || ('0'.val ≤ c.val && c.val ≤ '9'.val)) := rfl
  simp only [unescaped, halphanum, Bool.or_eq_true, Bool.and_eq_true, decide_eq_true_eq, beq_iff_eq,
    UInt32.le_iff_toNat_le] at h
  have hval : c.toNat = c.val.toNat := rfl
  rcases h with (((h | rfl) | rfl) | rfl) | rfl
  · have hZ : 'Z'.val.toNat = 90 := rfl
    have hz : 'z'.val.toNat = 122 := rfl
    have h9 : '9'.val.toNat = 57 := rfl
    omega
  all_goals decide

/-- **A component of unescaped characters** that are not all periods is printed as it was read. -/
theorem componentUri_unescape {s : Str} (h : ∀ c ∈ s, unescaped c = true) (hperiod : ∃ c ∈ s, c ≠ '.') :
    componentUri (unescape s) = s := by
  have hpercent : '%' ∉ s := fun hm => absurd (h _ hm) (by decide)
  rw [unescape_of_notMem hpercent]
  have hall : ¬ (s.map fun c => UInt8.ofNat c.toNat).all (· == 46) = true := by
    obtain ⟨c, hc, hne⟩ := hperiod
    intro hall
    have hbyte : UInt8.ofNat c.toNat = 46 := by
      simpa using List.all_eq_true.1 hall _ (List.mem_map_of_mem hc)
    have hback := ofNat_toNat_of_lt (toNat_lt_of_unescaped (h c hc))
    rw [hbyte] at hback
    exact hne hback.symm
  rw [componentUri, if_neg hall, List.flatMap_map]
  have hbytes : ∀ c ∈ s, escapeByte (UInt8.ofNat c.toNat) = [c] := by
    intro c hc
    have hback := ofNat_toNat_of_lt (toNat_lt_of_unescaped (h c hc))
    rw [escapeByte, hback, if_pos (h c hc)]
  rw [List.flatMap_congr hbytes, List.flatMap_singleton']

/-- a component with another 8-bit character is printed with a percent sign -/
theorem percent_mem_componentUri {s : Str} (hpercent : '%' ∉ s) {c : Char} (hc : c ∈ s) (h8 : c.toNat < 256)
    (hesc : unescaped c = false) : '%' ∈ componentUri (unescape s) := by
  rw [unescape_of_notMem hpercent]
  have hback := ofNat_toNat_of_lt h8
  have hall : ¬ (s.map fun c => UInt8.ofNat c.toNat).all (· == 46) = true := by
    intro hall
    have hbyte : UInt8.ofNat c.toNat = 46 := by
      simpa using List.all_eq_true.1 hall _ (List.mem_map_of_mem hc)
    rw [hbyte] at hback
    rw [← hback] at hesc
    exact absurd hesc (by decide)
  rw [componentUri, if_neg hall]
  refine List.mem_flatMap.2 ⟨_, List.mem_map_of_mem hc, ?_⟩
  rw [escapeByte, hback, hesc]
  exact List.mem_cons_self

end NdnDash.NameUri
