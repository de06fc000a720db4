/-
Model of `DOMParser` (`DOMParser.cpp`) over the events of a libxml2 text reader.

The reader stands at one event, with the events still to come; after the last one `xmlTextReaderRead` returns 0 and the
reader has no current node, or, when the document breaks off with an error, returns -1 and stays where it is. An end tag
shows the name and the attributes of its element. `none` is a parse that does not end (out of fuel, or the loop over
comments at an error).

- `processNode_isSome`: fuel above the number of events still to come is enough, unless an error comes in the middle of
  comments.
- `parse_isSome_of_stops`: `Parse` ends then; `parse_isSome`: and always without an error.
-/
import NdnDash.Helpers.Path

namespace NdnDash.Xml

/-! ## Events -/

/-- an XML name; it has no `#`, unlike the names libxml2 gives to other nodes -/
structure XmlName where
  text : Str
  ok : '#' ∉ text
deriving DecidableEq, Repr

abbrev Attributes := List (Str × Str)

inductive Event where
  | startElement (name : XmlName) (attributes : Attributes) (isEmpty : Bool)
  | endElement (name : XmlName) (attributes : Attributes)
  | text (value : Str)
  | cdata
  | comment
  | processingInstruction (target : XmlName)
  | whiteSpace
deriving DecidableEq, Repr

/-- `NodeType::WhiteSpace` -/
def whiteSpaceType : ℕ := 14

/-- `NodeType::Text` -/
def textType : ℕ := 3

namespace Event

/-- `xmlTextReaderNodeType` -/
def nodeType : Event → ℕ
  | startElement _ _ _ => 1
  | endElement _ _ => 15
  | text _ => textType
  | cdata => 4
  | comment => 8
  | processingInstruction _ => 7
  | whiteSpace => whiteSpaceType

/-- `xmlTextReaderConstName` -/
def constName : Event → Str
  | startElement name _ _ | endElement name _ | processingInstruction name => name.text
  | text _ | whiteSpace => "#text".toList
  | cdata => "#cdata-section".toList
  | comment => "#comment".toList

/-- `xmlTextReaderIsEmptyElement` -/
def isEmptyElement : Event → Bool
  | startElement _ _ isEmpty => isEmpty
  | _ => false

/-- the attributes `MoveToNextAttribute` goes through -/
def attributes : Event → Attributes
  | startElement _ attributes _ | endElement _ attributes => attributes
  | _ => []

/-- a comment or white space -/
def isSkipped : Event → Bool
  | comment | whiteSpace => true
  | _ => false

end Event

/-- `xmlTextReaderPtr` -/
structure Reader where
  current : Option Event
  rest : List Event
  /-- the document breaks off with an error after `rest` -/
  error : Bool
deriving DecidableEq, Repr

namespace Reader

/-- the reader at the next event -/
def next (r : Reader) (e : Event) (rest : List Event) : Reader := { r with current := some e, rest := rest }

/-- the reader after the regular end -/
def atEnd (r : Reader) : Reader := { r with current := none }

/-- `xmlTextReaderRead` -/
def read (r : Reader) : ℤ × Reader :=
  match r.rest with
  | e :: rest => (1, r.next e rest)
  | [] => if r.error then (-1, r) else (0, r.atEnd)

/-- reads on while the current node is a comment or white space -/
def skip (error : Bool) : Option Event → List Event → Option Reader
  | none, rest => some ⟨none, rest, error⟩
  | some e, [] => if e.isSkipped then if error then none else some ⟨none, [], error⟩ else some ⟨some e, [], error⟩
  | some e, x :: rest => if e.isSkipped then skip error (some x) rest else some ⟨some e, x :: rest, error⟩

end Reader

/-! ## The parser -/

/-- `Node` -/
structure Node where
  type : ℕ
  name : Str
  text : Str
  mpdPath : Str
  attributes : Attributes
  subNodes : List Node
deriving Repr

/-- the node for the current event -/
def nodeOf (mpdPath : Str) (e : Event) (subNodes : List Node) : Node :=
  { type := e.nodeType, name := e.constName, text := [], mpdPath := mpdPath, attributes := e.attributes,
    subNodes := subNodes }

/-- the node for a text -/
def textNode (value : Str) : Node :=
  { type := textType, name := [], text := value, mpdPath := [], attributes := [], subNodes := [] }

mutual

/-- `ProcessNode`: NULL or the node, and the reader after it -/
def processNode (mpdPath : Str) : ℕ → Reader → Option (Option Node × Reader)
  | 0, _ => none
  | fuel + 1, r =>
    match r.current with
    | some .whiteSpace => some (none, r)
    | some (.text value) => some (some (textNode value), r)
    | current =>
      (Reader.skip r.error current r.rest).bind fun r =>
        match r.current with
        | none => some (none, r)
        | some e =>
          if e.isEmptyElement then some (some (nodeOf mpdPath e []), r)
          else (subNodes mpdPath fuel e.constName r).map fun s => (some (nodeOf mpdPath e s.1), s.2)

/-- its loop: the sub nodes up to the next event of that name, or the end -/
def subNodes (mpdPath : Str) : ℕ → Str → Reader → Option (List Node × Reader)
  | 0, _, _ => none
  | fuel + 1, name, r =>
    match r.rest with
    | e :: rest =>
      if e.constName = name then some ([], r.next e rest)
      else
        (processNode mpdPath fuel (r.next e rest)).bind fun p =>
          (subNodes mpdPath fuel name p.2).map fun s => (p.1.toList ++ s.1, s.2)
    | [] => some ([], r.read.2)

end

/-- `Parse` of a document with these events: the root node, or NULL when it returns false -/
def parse (url : Str) (events : List Event) (error : Bool) : Option (Option Node) :=
  let r : Reader := ⟨none, events, error⟩
  if r.read.1 ≠ 0 then
    (processNode (Path.getDirectoryPath url) (2 * events.length + 1) r.read.2).map Prod.fst
  else some none

/-! ## The parser ends -/

/-- an error does not come in the middle of comments and white space -/
def Reader.Stops (r : Reader) : Prop :=
  r.error = true → ∃ e, (r.current.toList ++ r.rest).getLast? = some e ∧ e.isSkipped = false

/-- the reader may be taken for one at the next event -/
theorem Reader.Stops.next {r : Reader} (h : r.Stops) {e : Event} {rest : List Event} (hrest : r.rest = e :: rest) :
    (r.next e rest).Stops := by
  intro herr
  obtain ⟨x, hx, hskip⟩ := h herr
  refine ⟨x, ?_, hskip⟩
  rw [hrest, List.getLast?_append_of_ne_nil _ (List.cons_ne_nil e rest)] at hx
  exact hx

/-- the comments are followed by something or by the end -/
theorem skip_isSome (error : Bool) (current : Option Event) (rest : List Event) (h : (⟨current, rest, error⟩ : Reader).Stops) :
    ∃ r, Reader.skip error current rest = some r ∧ r.rest.length ≤ rest.length ∧ r.Stops := by
  induction rest generalizing current with
  | nil =>
    cases current with
    | none => exact ⟨_, rfl, le_rfl, h⟩
    | some e =>
      cases hskip : e.isSkipped with
      | false => exact ⟨⟨some e, [], error⟩, by simp [Reader.skip, hskip], le_rfl, h⟩
      | true =>
        cases error with
        | false => exact ⟨⟨none, [], false⟩, by simp [Reader.skip, hskip], le_rfl, fun herr => absurd herr (by decide)⟩
        | true =>
          obtain ⟨x, hx, hstop⟩ := h rfl
          have hxe : e = x := Option.some.inj hx
          rw [← hxe, hskip] at hstop
          exact absurd hstop (by decide)
  | cons x rest ih =>
    cases current with
    | none => exact ⟨_, rfl, le_rfl, h⟩
    | some e =>
      simp only [Reader.skip]
      split_ifs
      · obtain ⟨r, hr, hlen, hstops⟩ := ih (some x) (h.next rfl)
        exact ⟨r, hr, hlen.trans (Nat.le_succ _), hstops⟩
      · exact ⟨_, rfl, le_rfl, h⟩

/-- **Fuel.** Both loops use at most two calls for an event. -/
theorem processNode_isSome (mpdPath : Str) (fuel : ℕ) :
    (∀ r : Reader, r.Stops → 2 * r.rest.length + 1 < fuel → ∃ p, processNode mpdPath fuel r = some p ∧
      p.2.rest.length ≤ r.rest.length ∧ p.2.Stops) ∧
    (∀ (name : Str) (r : Reader), r.Stops → 2 * r.rest.length < fuel → ∃ p, subNodes mpdPath fuel name r = some p ∧
      p.2.rest.length ≤ r.rest.length ∧ p.2.Stops) := by
  induction fuel with
  | zero =>
    refine ⟨?_, ?_⟩
    · intro r _ hlt
      exact absurd hlt (Nat.not_lt_zero _)
    · intro name r _ hlt
      exact absurd hlt (Nat.not_lt_zero _)
  | succ fuel ih =>
    obtain ⟨ihNode, ihSub⟩ := ih
    refine ⟨?_, ?_⟩
    · intro r hstops hlt
      simp only [processNode]
      split
      · exact ⟨_, rfl, le_rfl, hstops⟩
      · exact ⟨_, rfl, le_rfl, hstops⟩
      · obtain ⟨r', hr', hlen, hstops'⟩ := skip_isSome r.error r.current r.rest hstops
        rw [hr', Option.bind_some]
        split
        · exact ⟨_, rfl, hlen, hstops'⟩
        · split_ifs
          · exact ⟨_, rfl, hlen, hstops'⟩
          · obtain ⟨p, hp, hplen, hpstops⟩ := ihSub _ r' hstops' (by omega)
            exact ⟨_, by rw [hp]; rfl, hplen.trans hlen, hpstops⟩
    · intro name r hstops hlt
      simp only [subNodes]
      split
      · rename_i e rest heq
        have hnext := hstops.next heq
        rw [heq, List.length_cons] at hlt
        split_ifs
        · exact ⟨_, rfl, by simp [Reader.next, heq], hnext⟩
        · obtain ⟨p, hp, hplen, hpstops⟩ := ihNode (r.next e rest) hnext (by simp only [Reader.next]; omega)
          simp only [Reader.next] at hplen
          obtain ⟨q, hq, hqlen, hqstops⟩ := ihSub name p.2 hpstops (by omega)
          refine ⟨(p.1.toList ++ q.1, q.2), by rw [hp, Option.bind_some, hq]; rfl, ?_, hqstops⟩
          rw [heq, List.length_cons]
          simp only
          omega
      · rename_i heq
        refine ⟨_, rfl, ?_, ?_⟩
        · cases herr : r.error <;> simp [Reader.read, heq, herr, Reader.atEnd]
        · cases herr : r.error with
          | true =>
            rw [Reader.read, heq]
            simpa only [herr, if_true] using hstops
          | false => exact fun h => absurd h (by simp [Reader.read, heq, herr, Reader.atEnd])

/-- **Parse ends**, unless an error comes in the middle of comments and white space. -/
theorem parse_isSome_of_stops (url : Str) {events : List Event} {error : Bool}
    (h : error = true → ∀ e ∈ events.getLast?, e.isSkipped = false) : (parse url events error).isSome := by
  unfold parse
  cases events with
  | nil => cases error <;> rfl
  | cons e rest =>
    have hstops : (⟨some e, rest, error⟩ : Reader).Stops := by
      intro herr
      obtain ⟨x, hx⟩ := Option.isSome_iff_exists.1 (List.getLast?_isSome.2 (List.cons_ne_nil e rest))
      exact ⟨x, hx, h herr x hx⟩
    obtain ⟨p, hp, -⟩ := (processNode_isSome (Path.getDirectoryPath url) (2 * (rest.length + 1) + 1)).1
      ⟨some e, rest, error⟩ hstops (by simp only; omega)
    simp only [Reader.read, Reader.next, List.length_cons, ne_eq, one_ne_zero, not_false_eq_true, if_true, hp,
      Option.map_some, Option.isSome_some]

/-- **Parse ends** on every document without an error. -/
theorem parse_isSome (url : Str) (events : List Event) : (parse url events false).isSome :=
  parse_isSome_of_stops url fun herr => absurd herr (by decide)

end NdnDash.Xml
