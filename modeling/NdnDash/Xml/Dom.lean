/-
The DOM that `DOMParser` builds is the element tree of the document, for exactly the `Clean` documents.

- `reads_spec`: one element read from its first child on; by induction on the content, with the events after its end
  tag arbitrary. Where the reading goes wrong, the sub nodes differ from the tree: a node is missing, a child differs, or
  there is a node of a kind no tree has (`Proper`).
- `dom_iff`: the whole document.

Witness: `comment_last` (a comment as the last child).
-/
import NdnDash.Xml.Document

namespace NdnDash.Xml

/-! ## Inversion of the parser -/

/-- the loop of an element named `name`, entered with the reader at `r` -/
def ReadsOn (mpdPath : Str) (name : Str) (r : Reader) (s : List Node × Reader) : Prop :=
  ∃ fuel, subNodes mpdPath fuel name r = some s

/-- `ProcessNode` at `r` -/
def NodeAt (mpdPath : Str) (r : Reader) (p : Option Node × Reader) : Prop :=
  ∃ fuel, processNode mpdPath fuel r = some p

/-- `ProcessNode` at `r` once the comments have been skipped -/
def ElementAt (mpdPath : Str) (r : Reader) (p : Option Node × Reader) : Prop :=
  match r.current with
  | none => p = (none, r)
  | some e =>
    if e.isEmptyElement then p = (some (nodeOf mpdPath e []), r)
    else ∃ s, ReadsOn mpdPath e.constName r s ∧ p = (some (nodeOf mpdPath e s.1), s.2)

variable {mpdPath : Str}

/-- anything but a comment or white space ends the skipping -/
theorem skip_stop {error : Bool} {e : Event} (h : e.isSkipped = false) (rest : List Event) :
    Reader.skip error (some e) rest = some ⟨some e, rest, error⟩ := by
  cases rest <;> simp [Reader.skip, h]

theorem skip_pass {error : Bool} {e : Event} (h : e.isSkipped = true) (x : Event) (rest : List Event) :
    Reader.skip error (some e) (x :: rest) = Reader.skip error (some x) rest := by
  simp [Reader.skip, h]

/-- an event ends the loop, or makes a sub node, and the loop goes on after it -/
theorem ReadsOn.cons {name : Str} {r : Reader} {s : List Node × Reader} (h : ReadsOn mpdPath name r s) {e : Event}
    {rest : List Event} (hrest : r.rest = e :: rest) :
    e.constName = name ∧ s = ([], r.next e rest) ∨
      e.constName ≠ name ∧ ∃ p s', NodeAt mpdPath (r.next e rest) p ∧ ReadsOn mpdPath name p.2 s' ∧
        s = (p.1.toList ++ s'.1, s'.2) := by
  obtain ⟨fuel, hf⟩ := h
  cases fuel with
  | zero => simp [subNodes] at hf
  | succ fuel =>
    simp only [subNodes, hrest] at hf
    split_ifs at hf with hname
    · exact Or.inl ⟨hname, (Option.some.inj hf).symm⟩
    · obtain ⟨p, hp, hs⟩ := Option.bind_eq_some_iff.1 hf
      obtain ⟨s', hs', heq⟩ := Option.map_eq_some_iff.1 hs
      exact Or.inr ⟨hname, p, s', ⟨fuel, hp⟩, ⟨fuel, hs'⟩, heq.symm⟩

theorem NodeAt.whiteSpace {r : Reader} {rest : List Event} {p : Option Node × Reader}
    (h : NodeAt mpdPath (r.next .whiteSpace rest) p) : p = (none, r.next .whiteSpace rest) := by
  obtain ⟨fuel, hf⟩ := h
  cases fuel with
  | zero => simp [processNode] at hf
  | succ fuel => simpa [processNode, Reader.next, eq_comm] using hf

theorem NodeAt.text {r : Reader} {value : Str} {rest : List Event} {p : Option Node × Reader}
    (h : NodeAt mpdPath (r.next (.text value) rest) p) : p = (some (textNode value), r.next (.text value) rest) := by
  obtain ⟨fuel, hf⟩ := h
  cases fuel with
  | zero => simp [processNode] at hf
  | succ fuel => simpa [processNode, Reader.next, eq_comm] using hf

/-- any other event is skipped, if it is a comment, and the next one makes an element -/
theorem NodeAt.skip {r : Reader} {e : Event} {rest : List Event} {p : Option Node × Reader}
    (h : NodeAt mpdPath (r.next e rest) p) (hspace : e ≠ .whiteSpace) (htext : ∀ value, e ≠ .text value) :
    ∃ r', Reader.skip r.error (some e) rest = some r' ∧ ElementAt mpdPath r' p := by
  obtain ⟨fuel, hf⟩ := h
  cases fuel with
  | zero => simp [processNode] at hf
  | succ fuel =>
    have hbody : processNode mpdPath (fuel + 1) (r.next e rest) =
        (Reader.skip r.error (some e) rest).bind fun r => match r.current with
          | none => some (none, r)
          | some e =>
            if e.isEmptyElement then some (some (nodeOf mpdPath e []), r)
            else (subNodes mpdPath fuel e.constName r).map fun s => (some (nodeOf mpdPath e s.1), s.2) := by
      cases e with
      | whiteSpace => exact absurd rfl hspace
      | text value => exact absurd rfl (htext value)
      | _ => rfl
    rw [hbody] at hf
    obtain ⟨r', hr', hel⟩ := Option.bind_eq_some_iff.1 hf
    refine ⟨r', hr', ?_⟩
    unfold ElementAt
    cases hc : r'.current with
    | none =>
      simp only [hc, Option.some.injEq] at hel
      exact hel.symm
    | some e' =>
      simp only [hc] at hel ⊢
      split_ifs at hel ⊢
      · exact (Option.some.inj hel).symm
      · obtain ⟨s, hs, heq⟩ := Option.map_eq_some_iff.1 hel
        exact ⟨s, ⟨fuel, hs⟩, heq.symm⟩

/-- a tag, a CDATA section or a processing instruction makes a node of its own kind -/
theorem NodeAt.element {r : Reader} {e : Event} {rest : List Event} {p : Option Node × Reader}
    (h : NodeAt mpdPath (r.next e rest) p) (hskip : e.isSkipped = false) (htext : ∀ value, e ≠ .text value) :
    ElementAt mpdPath (r.next e rest) p := by
  have hspace : e ≠ .whiteSpace := by
    intro he
    rw [he] at hskip
    cases hskip
  obtain ⟨r', hr', hel⟩ := h.skip hspace htext
  rw [skip_stop hskip, Option.some.injEq] at hr'
  rw [← hr'] at hel
  exact hel

theorem ElementAt.node {r : Reader} {e : Event} {p : Option Node × Reader} (h : ElementAt mpdPath r p)
    (he : r.current = some e) (hempty : e.isEmptyElement = false) :
    ∃ s, ReadsOn mpdPath e.constName r s ∧ p = (some (nodeOf mpdPath e s.1), s.2) := by
  unfold ElementAt at h
  simpa [he, hempty] using h

/-! ## Nodes no tree has -/

/-- the kinds of nodes in a tree: elements, and texts without a name -/
def Proper (x : Node) : Prop := x.type = 1 ∨ x.type = textType ∧ x.name = []

theorem proper_of_mem_trees {is : List Item} {x : Node} (h : x ∈ trees mpdPath is) : Proper x := by
  induction is with
  | nil => simp [trees] at h
  | cons i is ih =>
    rw [trees, List.mem_append] at h
    rcases h with h | h
    · cases i with
      | elem name attributes children =>
        simp only [Item.tree, Option.toList_some, List.mem_singleton] at h
        exact Or.inl (h ▸ rfl)
      | empty name attributes =>
        simp only [Item.tree, Option.toList_some, List.mem_singleton] at h
        exact Or.inl (h ▸ rfl)
      | text value =>
        simp only [Item.tree, Option.toList_some, List.mem_singleton] at h
        exact Or.inr (h ▸ ⟨rfl, rfl⟩)
      | cdata value =>
        simp only [Item.tree, Option.toList_some, List.mem_singleton] at h
        exact Or.inr (h ▸ ⟨rfl, rfl⟩)
      | comment => simp [Item.tree] at h
      | pi target => simp [Item.tree] at h
      | space => simp [Item.tree] at h
    · exact ih h

/-- events whose element no tree has -/
def Event.isOdd : Event → Bool
  | .startElement _ _ _ => false
  | _ => true

theorem not_proper_nodeOf {e : Event} (h : e.isOdd = true) (ns : List Node) : ¬ Proper (nodeOf mpdPath e ns) := by
  intro hp
  cases e with
  | startElement name attributes isEmpty => cases h
  | text value =>
    rcases hp with hp | ⟨-, hp⟩
    · cases hp
    · cases hp
  | _ => rcases hp with hp | ⟨hp, -⟩ <;> cases hp

/-- an odd event makes a node no tree has -/
theorem ElementAt.odd {r : Reader} {e : Event} {p : Option Node × Reader} (h : ElementAt mpdPath r p)
    (he : r.current = some e) (hodd : e.isOdd = true) : ∃ x, p.1 = some x ∧ ¬ Proper x := by
  have hempty : e.isEmptyElement = false := by
    cases e <;> first | rfl | cases hodd
  obtain ⟨s, -, rfl⟩ := h.node he hempty
  exact ⟨_, rfl, not_proper_nodeOf hodd _⟩

theorem ne_trees_of_not_proper {ns : List Node} {x : Node} (hx : x ∈ ns) (hp : ¬ Proper x) (is : List Item) :
    ns ≠ trees mpdPath is := by
  intro h
  exact hp (proper_of_mem_trees (h ▸ hx))

/-! ## What an early exit leaves unread -/

/-- events that bring no node of a tree: no start tag, no text -/
def Event.isLeft : Event → Bool
  | .endElement _ _ | .comment | .processingInstruction _ | .whiteSpace => true
  | _ => false

def Event.isEnd : Event → Bool
  | .endElement _ _ => true
  | _ => false

/-- what an early exit leaves unread, up to an end tag at least -/
structure Leftover (unread : List Event) : Prop where
  left : ∀ e ∈ unread, e.isLeft = true
  ends : ∃ e ∈ unread, e.isEnd = true

theorem Leftover.tail {e : Event} {unread : List Event} (h : Leftover (e :: unread)) (he : e.isEnd = false) :
    Leftover unread := by
  refine ⟨fun x hx => h.left x (List.mem_cons_of_mem e hx), ?_⟩
  obtain ⟨x, hx, hend⟩ := h.ends
  rcases List.mem_cons.1 hx with rfl | hx
  · rw [he] at hend
    cases hend
  · exact ⟨x, hx, hend⟩

theorem Leftover.append {unread rest : List Event} (h : ∀ e ∈ unread, e.isLeft = true) (hrest : Leftover rest) :
    Leftover (unread ++ rest) := by
  refine ⟨?_, ?_⟩
  · intro e he
    rcases List.mem_append.1 he with he | he
    · exact h e he
    · exact hrest.left e he
  · obtain ⟨e, he, hend⟩ := hrest.ends
    exact ⟨e, List.mem_append_right _ he, hend⟩

/-- bare content leaves nothing but such events, and nothing in the tree -/
theorem bare_spec {is : List Item} (h : bare is = true) :
    (∀ e ∈ events is, e.isLeft = true) ∧ trees mpdPath is = [] := by
  induction is with
  | nil => exact ⟨by simp [events], by simp [trees]⟩
  | cons i is ih =>
    have htail : bare is = true ∧ (∀ e ∈ i.events, e.isLeft = true) ∧ i.tree mpdPath = none := by
      cases i <;> simp_all [bare, Item.events, Item.tree, Event.isLeft]
    obtain ⟨h1, h2⟩ := ih htail.1
    refine ⟨?_, ?_⟩
    · intro e he
      rw [events, List.mem_append] at he
      rcases he with he | he
      · exact htail.2.1 e he
      · exact h1 e he
    · rw [trees, htail.2.2, h2]
      rfl

theorem leftover_of_bare {is : List Item} (h : bare is = true) (name : XmlName) (attributes : Attributes) :
    Leftover (events is ++ [.endElement name attributes]) :=
  Leftover.append (@bare_spec [] _ h).1 ⟨by simp [Event.isLeft], by simp [Event.isEnd]⟩

theorem trees_ne_nil {is : List Item} (h : bare is = false) : trees mpdPath is ≠ [] := by
  induction is with
  | nil => cases h
  | cons i is ih =>
    rw [trees]
    cases i <;> simp_all [bare, Item.tree]

/-- a comment in a leftover is followed by a processing instruction or an end tag -/
theorem skip_leftover {e : Event} (he : e.isSkipped = true) {unread : List Event} (h : Leftover unread)
    (tail : List Event) : ∃ r x, Reader.skip false (some e) (unread ++ tail) = some r ∧ r.current = some x ∧
      x.isOdd = true := by
  induction unread generalizing e with
  | nil =>
    obtain ⟨x, hx, -⟩ := h.ends
    cases hx
  | cons y unread ih =>
    rw [List.cons_append, skip_pass he]
    cases hy : y.isSkipped with
    | true =>
      have hend : y.isEnd = false := by
        cases y <;> first | rfl | cases hy
      exact ih hy (h.tail hend)
    | false =>
      refine ⟨_, y, skip_stop hy _, rfl, ?_⟩
      have hleft := h.left y List.mem_cons_self
      cases y <;> first | rfl | cases hleft

/-- **Leaving early.** An element that reads on in what a child has left unread stops at the first event there that is
not white space, without a sub node, or makes a node no tree has. -/
theorem leave_spec {name : XmlName} {r : Reader} {s : List Node × Reader} (h : ReadsOn mpdPath name.text r s)
    (herr : r.error = false) {unread rest tail : List Event} (hrest : r.rest = unread ++ (rest ++ tail))
    (hleft : Leftover unread) :
    (∃ unread', leave name rest unread = some (.early (unread' ++ rest)) ∧ s.1 = [] ∧
      s.2.rest = unread' ++ rest ++ tail ∧ s.2.error = false ∧ ∀ e ∈ unread', e.isLeft = true) ∨
    leave name rest unread = none ∧ ∃ x ∈ s.1, ¬ Proper x := by
  induction unread generalizing r s with
  | nil =>
    obtain ⟨x, hx, -⟩ := hleft.ends
    cases hx
  | cons e unread ih =>
    rw [List.cons_append] at hrest
    have hleave : e ≠ .whiteSpace → leave name rest (e :: unread) =
        if e.constName = name.text then some (.early (unread ++ rest)) else none := by
      intro hne
      cases e with
      | whiteSpace => exact absurd rfl hne
      | _ => rfl
    rcases h.cons hrest with ⟨hname, rfl⟩ | ⟨hname, p, s', hp, hs', rfl⟩
    · have hne : e ≠ .whiteSpace := by
        intro hspace
        rw [hspace] at hname
        exact name.ok (hname ▸ (by decide : '#' ∈ "#text".toList))
      left
      refine ⟨unread, by rw [hleave hne, if_pos hname], rfl, ?_, herr, ?_⟩
      · simp [Reader.next]
      · exact fun x hx => hleft.left x (List.mem_cons_of_mem e hx)
    · by_cases hspace : e = .whiteSpace
      · subst hspace
        rw [hp.whiteSpace] at hs'
        rw [hp.whiteSpace]
        exact ih hs' herr rfl (hleft.tail rfl)
      · right
        refine ⟨by rw [hleave hspace, if_neg hname], ?_⟩
        have hodd : ∃ x, p.1 = some x ∧ ¬ Proper x := by
          have htext : ∀ value, e ≠ .text value := by
            intro value htext
            have hl := hleft.left e List.mem_cons_self
            rw [htext] at hl
            cases hl
          cases hskip : e.isSkipped with
          | true =>
            have hend : e.isEnd = false := by
              cases e <;> first | rfl | cases hskip
            obtain ⟨r', hr', hel⟩ := hp.skip hspace htext
            obtain ⟨r'', x, hr'', hx, hodd⟩ := skip_leftover hskip (hleft.tail hend) (rest ++ tail)
            rw [herr, hr'', Option.some.injEq] at hr'
            exact (hr' ▸ hel).odd hx hodd
          | false =>
            have hodd : e.isOdd = true := by
              have := hleft.left e List.mem_cons_self
              cases e <;> first | rfl | cases this
            exact (hp.element hskip htext).odd rfl hodd
        obtain ⟨x, hx, hproper⟩ := hodd
        exact ⟨x, by simp [hx], hproper⟩

/-! ## One element -/

/-- the loop over the content `is` has made the sub nodes `s.1` and left the reader where it should; `none` when it
should go wrong -/
def ReadRight (mpdPath : Str) (is : List Item) (tail : List Event) (s : List Node × Reader) : Option Exit → Prop
  | none => s.1 ≠ trees mpdPath is
  | some .atEnd => s.1 = trees mpdPath is ∧ s.2.rest = tail ∧ s.2.error = false
  | some (.early unread) =>
    s.1 = trees mpdPath is ∧ s.2.rest = unread ++ tail ∧ s.2.error = false ∧ Leftover unread

/-- the loop of `name` at a comment, or the white space after it, with `rest` still to come -/
def SkipsOn (mpdPath : Str) (name : Str) (rest : List Event) (s : List Node × Reader) : Prop :=
  ∃ e r p s', e.isSkipped = true ∧ Reader.skip false (some e) rest = some r ∧ ElementAt mpdPath r p ∧
    ReadsOn mpdPath name p.2 s' ∧ s = (p.1.toList ++ s'.1, s'.2)

/-- the loop of `name` before its next event, or `skipping` -/
def ReadsFrom (mpdPath : Str) (name : Str) (skipping : Bool) (r : Reader) (s : List Node × Reader) : Prop :=
  match skipping with
  | false => ReadsOn mpdPath name r s
  | true => SkipsOn mpdPath name r.rest s

/-- libxml2's own names are no XML names -/
theorem hash_ne {name : XmlName} {s : Str} (h : '#' ∈ s) : s ≠ name.text := by
  intro heq
  exact name.ok (heq ▸ h)

theorem xmlName_eq_iff {a b : XmlName} : a.text = b.text ↔ a = b := by
  cases a
  cases b
  simp

section Events

variable {name : XmlName} {r : Reader} {rest : List Event} {s : List Node × Reader}

theorem ReadsOn.whiteSpace (h : ReadsOn mpdPath name.text r s) (hrest : r.rest = .whiteSpace :: rest) :
    ReadsOn mpdPath name.text (r.next .whiteSpace rest) s := by
  rcases h.cons hrest with ⟨hname, -⟩ | ⟨-, p, s', hp, hs', rfl⟩
  · exact absurd hname (hash_ne (by decide))
  · rw [hp.whiteSpace] at hs'
    rw [hp.whiteSpace]
    exact hs'

theorem ReadsOn.text {value : Str} (h : ReadsOn mpdPath name.text r s) (hrest : r.rest = .text value :: rest) :
    ∃ s', ReadsOn mpdPath name.text (r.next (.text value) rest) s' ∧ s = (textNode value :: s'.1, s'.2) := by
  have hhash : '#' ∈ (Event.text value).constName := by
    change '#' ∈ "#text".toList
    decide
  rcases h.cons hrest with ⟨hname, -⟩ | ⟨-, p, s', hp, hs', rfl⟩
  · exact absurd hname (hash_ne hhash)
  · rw [hp.text] at hs'
    rw [hp.text]
    exact ⟨s', hs', rfl⟩

theorem ReadsOn.comment (h : ReadsOn mpdPath name.text r s) (hrest : r.rest = .comment :: rest)
    (herr : r.error = false) : SkipsOn mpdPath name.text rest s := by
  rcases h.cons hrest with ⟨hname, -⟩ | ⟨-, p, s', hp, hs', rfl⟩
  · exact absurd hname (hash_ne (by decide))
  · obtain ⟨r', hskip, hel⟩ := hp.skip (by simp) (by simp)
    rw [herr] at hskip
    exact ⟨.comment, r', p, s', rfl, hskip, hel, hs', rfl⟩

/-- a tag, a CDATA section or a processing instruction ends the loop by its name, or makes a node -/
theorem ReadsOn.tag {e : Event} (h : ReadsOn mpdPath name.text r s) (hrest : r.rest = e :: rest)
    (hskip : e.isSkipped = false) (htext : ∀ value, e ≠ .text value) :
    e.constName = name.text ∧ s = ([], r.next e rest) ∨
      e.constName ≠ name.text ∧ ∃ p s', ElementAt mpdPath (r.next e rest) p ∧ ReadsOn mpdPath name.text p.2 s' ∧
        s = (p.1.toList ++ s'.1, s'.2) := by
  rcases h.cons hrest with hend | ⟨hname, p, s', hp, hs', rfl⟩
  · exact Or.inl hend
  · exact Or.inr ⟨hname, p, s', hp.element hskip htext, hs', rfl⟩

theorem SkipsOn.pass {e : Event} (h : SkipsOn mpdPath name.text (e :: rest) s) (he : e.isSkipped = true) :
    SkipsOn mpdPath name.text rest s := by
  obtain ⟨e', r', p, s', he', hskip, hel, hs', rfl⟩ := h
  rw [skip_pass he'] at hskip
  exact ⟨e, r', p, s', he, hskip, hel, hs', rfl⟩

theorem SkipsOn.stop {e : Event} (h : SkipsOn mpdPath name.text (e :: rest) s) (he : e.isSkipped = false) :
    ∃ p s', ElementAt mpdPath ⟨some e, rest, false⟩ p ∧ ReadsOn mpdPath name.text p.2 s' ∧
      s = (p.1.toList ++ s'.1, s'.2) := by
  obtain ⟨e', r', p, s', he', hskip, hel, hs', rfl⟩ := h
  rw [skip_pass he', skip_stop he, Option.some.injEq] at hskip
  rw [← hskip] at hel
  exact ⟨p, s', hel, hs', rfl⟩

end Events

section Items

variable {is : List Item} {tail : List Event} {s : List Node × Reader} {o : Option Exit}

theorem ReadRight.cons_none (h : ReadRight mpdPath is tail s o) {i : Item} (hi : i.tree mpdPath = none) :
    ReadRight mpdPath (i :: is) tail s o := by
  have htrees : trees mpdPath (i :: is) = trees mpdPath is := by
    rw [trees, hi]
    rfl
  unfold ReadRight at h ⊢
  rw [htrees]
  exact h

theorem ReadRight.cons_some (h : ReadRight mpdPath is tail s o) {i : Item} {x : Node} (hi : i.tree mpdPath = some x) :
    ReadRight mpdPath (i :: is) tail (x :: s.1, s.2) o := by
  have htrees : trees mpdPath (i :: is) = x :: trees mpdPath is := by
    rw [trees, hi]
    rfl
  unfold ReadRight at h ⊢
  rw [htrees]
  cases o with
  | none => exact fun heq => h (List.cons.inj heq).2
  | some e =>
    cases e with
    | atEnd => exact ⟨congrArg _ h.1, h.2⟩
    | early unread => exact ⟨congrArg _ h.1, h.2⟩

theorem readRight_odd {r : Reader} {e : Event} {p : Option Node × Reader} {s' : List Node × Reader}
    (hel : ElementAt mpdPath r p) (he : r.current = some e) (hodd : e.isOdd = true)
    (hs : s = (p.1.toList ++ s'.1, s'.2)) : ReadRight mpdPath is tail s none := by
  obtain ⟨x, hx, hproper⟩ := hel.odd he hodd
  exact ne_trees_of_not_proper (by simp [hs, hx]) hproper is

/-- a loop that stops at an odd event after a comment goes wrong -/
theorem readRight_skips_odd {name : Str} {r : Reader} {e : Event} {rest : List Event}
    (h : ReadsFrom mpdPath name true r s) (hrest : r.rest = e :: rest) (hskip : e.isSkipped = false)
    (hodd : e.isOdd = true) : ReadRight mpdPath is tail s none := by
  obtain ⟨e', r', p, s', he', hr', hel, hs', hs⟩ := h
  rw [hrest, skip_pass he', skip_stop hskip, Option.some.injEq] at hr'
  rw [← hr'] at hel
  exact readRight_odd hel rfl hodd hs

theorem readRight_short (hs : s.1 = []) (h : trees mpdPath is ≠ []) : ReadRight mpdPath is tail s none := by
  intro heq
  rw [hs] at heq
  exact h heq.symm

variable {name child : XmlName} {attributes childAttributes : Attributes} {children : List Item}

/-- a child element, from its start tag to the end of its parent -/
theorem child_spec
    (hchildren : ∀ r s tail, r.error = false → r.rest = events children ++ .endElement child childAttributes :: tail →
      ReadsOn mpdPath child.text r s → ReadRight mpdPath children tail s (exit child childAttributes false children))
    (his : ∀ r s, r.error = false → r.rest = events is ++ .endElement name attributes :: tail →
      ReadsOn mpdPath name.text r s → ReadRight mpdPath is tail s (exit name attributes false is))
    {r : Reader} {p : Option Node × Reader} {s' : List Node × Reader} (herr : r.error = false)
    (hcur : r.current = some (.startElement child childAttributes false))
    (hrest : r.rest = events children ++ .endElement child childAttributes ::
      (events is ++ .endElement name attributes :: tail))
    (hel : ElementAt mpdPath r p) (hs' : ReadsOn mpdPath name.text p.2 s') (hs : s = (p.1.toList ++ s'.1, s'.2)) :
    ReadRight mpdPath (.elem child childAttributes children :: is) tail s
      (match exit child childAttributes false children with
        | none => none
        | some .atEnd => exit name attributes false is
        | some (.early unread) =>
          if bare is then leave name (events is ++ [.endElement name attributes]) unread else none) := by
  obtain ⟨c, hc, rfl⟩ := hel.node hcur rfl
  have hright := hchildren r c _ herr hrest hc
  subst hs
  cases hexit : exit child childAttributes false children with
  | none =>
    -- the child itself is wrong
    rw [hexit] at hright
    intro heq
    simp only [trees, Item.tree, Option.toList_some, List.singleton_append, List.cons.injEq] at heq
    exact hright (congrArg Node.subNodes heq.1)
  | some e =>
    rw [hexit] at hright
    have hnodes : c.1 = trees mpdPath children := by
      cases e with
      | atEnd => exact hright.1
      | early unread => exact hright.1
    have htree : (Item.elem child childAttributes children).tree mpdPath =
        some (nodeOf mpdPath (.startElement child childAttributes false) c.1) := by rw [Item.tree, hnodes]
    cases e with
    | atEnd => exact (his c.2 s' hright.2.2 hright.2.1 hs').cons_some htree
    | early unread =>
      obtain ⟨-, hrest', herr', hleft⟩ := hright
      have htail : events is ++ .endElement name attributes :: tail =
          events is ++ [.endElement name attributes] ++ tail := by simp
      rw [htail] at hrest'
      rcases leave_spec hs' herr' hrest' hleft with ⟨unread', hl, hnil, hr, he, hleft'⟩ | ⟨hl, x, hx, hproper⟩
      · cases hbare : bare is with
        | true =>
          have hs' : ReadRight mpdPath is tail s' (some (.early (unread' ++ (events is ++ [.endElement name attributes])))) :=
            ⟨hnil.trans (bare_spec hbare).2.symm, hr, he, Leftover.append hleft' (leftover_of_bare hbare name attributes)⟩
          simp only [if_true, hl]
          exact hs'.cons_some htree
        | false =>
          have hs' : ReadRight mpdPath is tail s' none := readRight_short hnil (trees_ne_nil hbare)
          exact hs'.cons_some htree
      · have hs' : ReadRight mpdPath is tail s' none := ne_trees_of_not_proper hx hproper is
        simp only [hl, ite_self]
        exact hs'.cons_some htree

/-- a processing instruction: with the name of its parent it ends the loop, any other goes wrong -/
theorem pi_spec {target : XmlName} {skipping : Bool} {r : Reader} (herr : r.error = false)
    (hrest : r.rest = .processingInstruction target :: (events is ++ .endElement name attributes :: tail))
    (h : ReadsFrom mpdPath name.text skipping r s) :
    ReadRight mpdPath (.pi target :: is) tail s (exit name attributes skipping (.pi target :: is)) := by
  cases skipping with
  | false =>
    rcases h.tag hrest rfl (by simp) with ⟨hname, rfl⟩ | ⟨hname, p, s', hel, -, hs⟩
    · have htarget := xmlName_eq_iff.1 hname
      cases hbare : bare is with
      | true =>
        have hs' : ReadRight mpdPath is tail ([], r.next (.processingInstruction target)
            (events is ++ .endElement name attributes :: tail))
            (some (.early (events is ++ [.endElement name attributes]))) :=
          ⟨(bare_spec hbare).2.symm, by simp [Reader.next], herr, leftover_of_bare hbare _ _⟩
        simp only [exit, htarget, hbare, Bool.not_false, decide_true, Bool.and_true, if_true]
        exact hs'.cons_none (by simp only [Item.tree])
      | false =>
        simp only [exit, hbare, Bool.and_false, Bool.false_eq_true, if_false]
        exact (readRight_short rfl (trees_ne_nil hbare)).cons_none (by simp only [Item.tree])
    · have hne : target ≠ name := fun h => hname (xmlName_eq_iff.2 h)
      simp only [exit, hne, decide_false, Bool.and_false, Bool.false_and, Bool.false_eq_true, if_false]
      exact readRight_odd hel rfl rfl hs
  | true =>
    simp only [exit, Bool.not_true, Bool.false_and, Bool.false_eq_true, if_false]
    exact readRight_skips_odd h hrest rfl rfl

/-- the end tag of an element ends its loop, unless it follows a comment -/
theorem nil_spec {skipping : Bool} {r : Reader} (herr : r.error = false)
    (hrest : r.rest = .endElement name attributes :: tail) (h : ReadsFrom mpdPath name.text skipping r s) :
    ReadRight mpdPath [] tail s (exit name attributes skipping []) := by
  cases skipping with
  | false =>
    rcases h.tag hrest rfl (by simp) with ⟨-, rfl⟩ | ⟨hname, -⟩
    · simp only [exit, Bool.false_eq_true, if_false]
      exact ⟨by rw [trees], rfl, herr⟩
    · exact absurd rfl hname
  | true =>
    simp only [exit, if_true]
    exact readRight_skips_odd h hrest rfl rfl

theorem space_spec {skipping : Bool} {r : Reader} (herr : r.error = false)
    (his : ∀ (b : Bool) r s, r.error = false → r.rest = events is ++ .endElement name attributes :: tail →
      ReadsFrom mpdPath name.text b r s → ReadRight mpdPath is tail s (exit name attributes b is))
    (hrest : r.rest = .whiteSpace :: (events is ++ .endElement name attributes :: tail))
    (h : ReadsFrom mpdPath name.text skipping r s) :
    ReadRight mpdPath (.space :: is) tail s (exit name attributes skipping (.space :: is)) := by
  simp only [exit]
  refine ReadRight.cons_none ?_ (by simp only [Item.tree])
  cases skipping with
  | false => exact his false (r.next .whiteSpace _) s herr rfl (h.whiteSpace hrest)
  | true =>
    rw [ReadsFrom, hrest] at h
    exact his true (r.next .whiteSpace _) s herr rfl (h.pass rfl)

/-- behind a comment the loop skips to the next element -/
theorem comment_spec {skipping : Bool} {r : Reader} (herr : r.error = false)
    (his : ∀ (b : Bool) r s, r.error = false → r.rest = events is ++ .endElement name attributes :: tail →
      ReadsFrom mpdPath name.text b r s → ReadRight mpdPath is tail s (exit name attributes b is))
    (hrest : r.rest = .comment :: (events is ++ .endElement name attributes :: tail))
    (h : ReadsFrom mpdPath name.text skipping r s) :
    ReadRight mpdPath (.comment :: is) tail s (exit name attributes skipping (.comment :: is)) := by
  simp only [exit]
  refine ReadRight.cons_none ?_ (by simp only [Item.tree])
  cases skipping with
  | false => exact his true (r.next .comment _) s herr rfl (h.comment hrest herr)
  | true =>
    rw [ReadsFrom, hrest] at h
    exact his true (r.next .comment _) s herr rfl (h.pass rfl)

theorem text_spec {value : Str} {skipping : Bool} {r : Reader} (herr : r.error = false)
    (his : ∀ (b : Bool) r s, r.error = false → r.rest = events is ++ .endElement name attributes :: tail →
      ReadsFrom mpdPath name.text b r s → ReadRight mpdPath is tail s (exit name attributes b is))
    (hrest : r.rest = .text value :: (events is ++ .endElement name attributes :: tail))
    (h : ReadsFrom mpdPath name.text skipping r s) :
    ReadRight mpdPath (.text value :: is) tail s (exit name attributes skipping (.text value :: is)) := by
  cases skipping with
  | false =>
    obtain ⟨s', hs', rfl⟩ := h.text hrest
    simp only [exit, Bool.false_eq_true, if_false]
    exact (his false (r.next (.text value) _) s' herr rfl hs').cons_some (by simp only [Item.tree])
  | true =>
    simp only [exit, if_true]
    exact readRight_skips_odd h hrest rfl rfl

theorem cdata_spec {value : Str} {skipping : Bool} {r : Reader}
    (hrest : r.rest = .cdata :: (events is ++ .endElement name attributes :: tail))
    (h : ReadsFrom mpdPath name.text skipping r s) :
    ReadRight mpdPath (.cdata value :: is) tail s (exit name attributes skipping (.cdata value :: is)) := by
  simp only [exit]
  cases skipping with
  | false =>
    rcases h.tag hrest rfl (by simp) with ⟨hname, -⟩ | ⟨-, p, s', hel, -, hs⟩
    · exact absurd hname (hash_ne (by decide))
    · exact readRight_odd hel rfl rfl hs
  | true => exact readRight_skips_odd h hrest rfl rfl

/-- an empty element: one with the name of its parent ends the loop -/
theorem empty_spec {skipping : Bool} {r : Reader} (herr : r.error = false)
    (his : ∀ (b : Bool) r s, r.error = false → r.rest = events is ++ .endElement name attributes :: tail →
      ReadsFrom mpdPath name.text b r s → ReadRight mpdPath is tail s (exit name attributes b is))
    (hrest : r.rest = .startElement child childAttributes true :: (events is ++ .endElement name attributes :: tail))
    (h : ReadsFrom mpdPath name.text skipping r s) :
    ReadRight mpdPath (.empty child childAttributes :: is) tail s
      (exit name attributes skipping (.empty child childAttributes :: is)) := by
  cases skipping with
  | false =>
    rcases h.tag hrest rfl (by simp) with ⟨hname, rfl⟩ | ⟨hname, p, s', hel, hs', rfl⟩
    · simp only [exit, xmlName_eq_iff.1 hname, Bool.not_false, decide_true, Bool.and_true, if_true]
      exact readRight_short rfl (by simp [trees, Item.tree])
    · have hne : child ≠ name := fun h => hname (xmlName_eq_iff.2 h)
      have hp : p = _ := hel
      rw [hp] at hs'
      rw [hp]
      simp only [exit, hne, decide_false, Bool.and_false, Bool.false_eq_true, if_false]
      exact (his false (r.next (.startElement child childAttributes true) _) s' herr rfl hs').cons_some
        (by simp only [Item.tree])
  | true =>
    rw [ReadsFrom, hrest] at h
    obtain ⟨p, s', hel, hs', rfl⟩ := h.stop rfl
    have hp : p = _ := hel
    rw [hp] at hs'
    rw [hp]
    simp only [exit, Bool.not_true, Bool.false_and, Bool.false_eq_true, if_false]
    exact (his false ⟨_, _, false⟩ s' rfl rfl hs').cons_some (by simp only [Item.tree])

theorem elem_spec {skipping : Bool} {r : Reader} (herr : r.error = false)
    (his : ∀ (b : Bool) r s, r.error = false → r.rest = events is ++ .endElement name attributes :: tail →
      ReadsFrom mpdPath name.text b r s → ReadRight mpdPath is tail s (exit name attributes b is))
    (hchildren : ∀ r s tail, r.error = false → r.rest = events children ++ .endElement child childAttributes :: tail →
      ReadsOn mpdPath child.text r s → ReadRight mpdPath children tail s (exit child childAttributes false children))
    (hrest : r.rest = .startElement child childAttributes false ::
      (events children ++ .endElement child childAttributes :: (events is ++ .endElement name attributes :: tail)))
    (h : ReadsFrom mpdPath name.text skipping r s) :
    ReadRight mpdPath (.elem child childAttributes children :: is) tail s
      (exit name attributes skipping (.elem child childAttributes children :: is)) := by
  cases skipping with
  | false =>
    rcases h.tag hrest rfl (by simp) with ⟨hname, rfl⟩ | ⟨hname, p, s', hel, hs', hs⟩
    · simp only [exit, xmlName_eq_iff.1 hname, Bool.not_false, decide_true, Bool.and_true, if_true]
      exact readRight_short rfl (by simp [trees, Item.tree])
    · have hne : child ≠ name := fun h => hname (xmlName_eq_iff.2 h)
      simp only [exit, hne, decide_false, Bool.and_false, Bool.false_eq_true, if_false]
      exact child_spec hchildren (his false) (r := r.next _ _) herr rfl rfl hel hs' hs
  | true =>
    rw [ReadsFrom, hrest] at h
    obtain ⟨p, s', hel, hs', hs⟩ := h.stop rfl
    simp only [exit, Bool.not_true, Bool.false_and, Bool.false_eq_true, if_false]
    exact child_spec hchildren (his false) (r := ⟨_, _, false⟩) rfl rfl rfl hel hs' hs

end Items

/-- **One element.** Its loop, entered before any event of its content, makes the sub nodes of the tree and stops where
`exit` says, and makes something else when `exit` says `none`. -/
theorem reads_spec (is : List Item) (name : XmlName) (attributes : Attributes) (skipping : Bool) (r : Reader)
    (s : List Node × Reader) (tail : List Event) (herr : r.error = false)
    (hrest : r.rest = events is ++ .endElement name attributes :: tail)
    (h : ReadsFrom mpdPath name.text skipping r s) :
    ReadRight mpdPath is tail s (exit name attributes skipping is) := by
  induction hn : (events is).length using Nat.strong_induction_on generalizing is name attributes skipping r s tail with
  | _ n ih =>
  cases is with
  | nil =>
    rw [events, List.nil_append] at hrest
    exact nil_spec herr hrest h
  | cons i is =>
    rw [events, List.length_append] at hn
    rw [events, List.append_assoc] at hrest
    have hpos : 0 < i.events.length := by cases i <;> simp [Item.events]
    have his : ∀ (b : Bool) r s, r.error = false → r.rest = events is ++ .endElement name attributes :: tail →
        ReadsFrom mpdPath name.text b r s → ReadRight mpdPath is tail s (exit name attributes b is) :=
      fun b r s herr hrest h => ih _ (by omega) is name attributes b r s tail herr hrest h rfl
    cases i with
    | space =>
      rw [Item.events, List.singleton_append] at hrest
      exact space_spec herr his hrest h
    | comment =>
      rw [Item.events, List.singleton_append] at hrest
      exact comment_spec herr his hrest h
    | text value =>
      rw [Item.events, List.singleton_append] at hrest
      exact text_spec herr his hrest h
    | cdata value =>
      rw [Item.events, List.singleton_append] at hrest
      exact cdata_spec hrest h
    | pi target =>
      rw [Item.events, List.singleton_append] at hrest
      exact pi_spec herr hrest h
    | empty child childAttributes =>
      rw [Item.events, List.singleton_append] at hrest
      exact empty_spec herr his hrest h
    | elem child childAttributes children =>
      rw [Item.events, List.length_cons, List.length_append] at hn
      rw [Item.events, List.cons_append, List.append_assoc, List.singleton_append] at hrest
      have hchildren : ∀ r s tail, r.error = false →
          r.rest = events children ++ .endElement child childAttributes :: tail → ReadsOn mpdPath child.text r s →
            ReadRight mpdPath children tail s (exit child childAttributes false children) :=
        fun r s tail herr hrest h => ih _ (by omega) children child childAttributes false r s tail herr hrest h rfl
      exact elem_spec herr his hchildren hrest h

/-! ## The document -/

variable {d : Document}

/-- what follows the start tag of the root up to its end -/
def Document.rootRest (d : Document) : List Event :=
  match d.children with
  | some children => Xml.events children ++ [.endElement d.name d.attributes]
  | none => []

/-- the start tag of the root -/
def Document.rootTag (d : Document) : Event := .startElement d.name d.attributes d.children.isNone

theorem root_events (d : Document) : d.root.events = d.rootTag :: d.rootRest := by
  unfold Document.root Document.rootTag Document.rootRest
  cases d.children <;> simp [Item.events]

/-- the root, once the reader stands at its start tag -/
theorem root_spec {tail : List Event} {p : Option Node × Reader}
    (hel : ElementAt mpdPath ⟨some d.rootTag, d.rootRest ++ tail, false⟩ p) :
    p.1 = d.root.tree mpdPath ↔
      ∀ children, d.children = some children → (exit d.name d.attributes false children).isSome := by
  unfold Document.rootTag Document.rootRest at hel
  unfold Document.root
  cases hc : d.children with
  | none =>
    rw [hc] at hel
    have hp : p = _ := hel
    rw [hp]
    simp [Item.tree]
  | some children =>
    rw [hc] at hel
    obtain ⟨s, hs, rfl⟩ := hel.node rfl rfl
    have hright := reads_spec children d.name d.attributes false ⟨_, _, false⟩ s tail rfl (by simp) hs
    have htree : some (nodeOf mpdPath (.startElement d.name d.attributes false) s.1) =
        (Item.elem d.name d.attributes children).tree mpdPath ↔ s.1 = trees mpdPath children := by
      rw [Item.tree, Option.some.injEq]
      exact ⟨fun h => congrArg Node.subNodes h, fun h => by rw [h]⟩
    refine htree.trans ?_
    cases hexit : exit d.name d.attributes false children with
    | none =>
      rw [hexit] at hright
      refine ⟨fun h => absurd h hright, fun h => ?_⟩
      have := h children rfl
      rw [hexit] at this
      cases this
    | some e =>
      rw [hexit] at hright
      have hnodes : s.1 = trees mpdPath children := by
        cases e with
        | atEnd => exact hright.1
        | early unread => exact hright.1
      refine ⟨fun _ children' hc' => ?_, fun _ => hnodes⟩
      obtain rfl := Option.some.inj hc'
      rw [hexit]
      rfl

/-- in front of the root, comments are skipped and a processing instruction stops the skipping -/
theorem skip_prolog (prolog : List Misc) {e x : Event} (he : e.isSkipped = true) (hx : x.isSkipped = false)
    (rest : List Event) : (∀ m ∈ prolog, m = .comment) ∧
      Reader.skip false (some e) (prolog.map Misc.event ++ x :: rest) = some ⟨some x, rest, false⟩ ∨
    (¬ ∀ m ∈ prolog, m = .comment) ∧ ∃ r y, Reader.skip false (some e) (prolog.map Misc.event ++ x :: rest) = some r ∧
      r.current = some y ∧ y.isOdd = true := by
  induction prolog generalizing e with
  | nil =>
    left
    refine ⟨by simp, ?_⟩
    rw [List.map_nil, List.nil_append, skip_pass he, skip_stop hx]
  | cons m prolog ih =>
    rw [List.map_cons, List.cons_append, skip_pass he]
    cases m with
    | comment =>
      rcases ih (e := Misc.comment.event) rfl with ⟨hall, hskip⟩ | ⟨hnot, hodd⟩
      · exact Or.inl ⟨by simpa using hall, hskip⟩
      · exact Or.inr ⟨by simpa using hnot, hodd⟩
    | pi target =>
      right
      exact ⟨by simp, _, _, skip_stop rfl _, rfl, rfl⟩

theorem proper_root {x : Node} (h : some x = d.root.tree mpdPath) : Proper x := by
  have hx : x ∈ trees mpdPath [d.root] := by simp [trees, ← h]
  exact proper_of_mem_trees hx

/-- `Parse` of at least one event is `ProcessNode` at the first -/
theorem parse_cons (url : Str) (e : Event) (rest : List Event) : ∃ p,
    NodeAt (Path.getDirectoryPath url) (Reader.next ⟨none, e :: rest, false⟩ e rest) p ∧
      parse url (e :: rest) false = some p.1 := by
  obtain ⟨o, ho⟩ := Option.isSome_iff_exists.1 (parse_isSome url (e :: rest))
  have hp := ho
  simp only [parse, Reader.read, ne_eq, one_ne_zero, not_false_eq_true, if_true] at hp
  obtain ⟨p, hnode, rfl⟩ := Option.map_eq_some_iff.1 hp
  exact ⟨p, ⟨_, hnode⟩, ho⟩

/-- a root that is no element is not the tree's -/
theorem ne_root {p : Option Node × Reader} (h : ∃ x, p.1 = some x ∧ ¬ Proper x) : some p.1 ≠ some (d.root.tree mpdPath) := by
  obtain ⟨x, hx, hproper⟩ := h
  intro heq
  rw [hx, Option.some.injEq] at heq
  exact hproper (proper_root heq)

/-- **The DOM is the element tree** for exactly the clean documents, and `Parse` returns true for these. -/
theorem dom_iff (url : Str) (d : Document) :
    parse url d.events false = some (d.root.tree (Path.getDirectoryPath url)) ↔ Clean d := by
  unfold Clean
  rw [Document.events, root_events]
  cases hprolog : d.prolog with
  | nil =>
    rw [List.map_nil, List.nil_append, List.cons_append]
    obtain ⟨p, hp, hparse⟩ := parse_cons url d.rootTag (d.rootRest ++ d.epilog.map Misc.event)
    rw [hparse, Option.some.injEq, root_spec (hp.element rfl (by simp [Document.rootTag]))]
    simp
  | cons m prolog =>
    rw [List.map_cons, List.cons_append, List.cons_append]
    obtain ⟨p, hp, hparse⟩ := parse_cons url m.event
      (prolog.map Misc.event ++ d.rootTag :: (d.rootRest ++ d.epilog.map Misc.event))
    rw [hparse]
    cases m with
    | comment =>
      obtain ⟨r, hskip, hel⟩ := hp.skip (by simp [Misc.event]) (by simp [Misc.event])
      rcases skip_prolog prolog (e := Misc.comment.event) (x := d.rootTag) rfl rfl
        (d.rootRest ++ d.epilog.map Misc.event) with ⟨hall, hroot⟩ | ⟨hnot, r', y, hodd, hcur, hy⟩
      · rw [hroot, Option.some.injEq] at hskip
        rw [← hskip] at hel
        rw [Option.some.injEq, root_spec hel]
        have hcomments : ∀ m ∈ Misc.comment :: prolog, m = .comment := by simpa using hall
        exact ⟨fun h => ⟨hcomments, h⟩, fun h => h.2⟩
      · rw [hodd, Option.some.injEq] at hskip
        rw [← hskip] at hel
        refine ⟨fun h => absurd h (ne_root (hel.odd hcur hy)), fun h => absurd ?_ hnot⟩
        intro m hm
        exact h.1 m (List.mem_cons_of_mem _ hm)
    | pi target =>
      have hel := hp.element rfl (by simp [Misc.event])
      refine ⟨fun h => absurd h (ne_root (hel.odd rfl rfl)), fun h => ?_⟩
      have := h.1 (.pi target) List.mem_cons_self
      cases this

/-- `<a><!-- --></a>` -/
def commentLast : Document := ⟨[], ⟨['a'], by decide⟩, [], some [.comment], []⟩

/-- the end tag of `a` becomes a sub node of `a` -/
theorem comment_last : parse [] commentLast.events false ≠ some (commentLast.root.tree (Path.getDirectoryPath [])) := by
  intro h
  have hcount := congrArg (Option.map (Option.map fun x => x.subNodes.map Node.type)) h
  revert hcount
  decide

end NdnDash.Xml
