/-
Documents that break off (`DOMParser.cpp`, `DASHManager.cpp`). `xmlTextReaderRead` returns -1 from the first syntax error
on. `Parse` takes every result but 0 for a node, and the loop of `ProcessNode` ends at the error as it does at an end tag,
so the elements that are still open become nodes of what has been read of them.

- `NodeAt.ne_null`: at any event but white space, `ProcessNode` makes a node.
- `accepted`: a document that breaks off, not in the middle of comments, is accepted.
- `rejected_iff`: one that breaks off before the end of its root is rejected exactly when nothing of it has been read; a
  well-formed one is accepted.
-/
import NdnDash.Xml.Dom
import NdnDash.Xml.ToMPD

namespace NdnDash.Xml

open NdnDash.Mpd.Object

/-! ## Model -/

/-- `DASHManager::Open`; `some none` is NULL -/
def managerOpen (path : Str) (events : List Event) (error : Bool) : Option (Option MPD) :=
  (parse path events error).map fun root => root.map Node.toMPD

/-! ## What it is for -/

/-- the events of a document up to the end tag of its root, or up to its empty-element tag -/
def Document.beforeEnd (d : Document) : List Event :=
  d.prolog.map Misc.event ++
    match d.children with
    | some children => .startElement d.name d.attributes false :: Xml.events children
    | none => []

/-! ## The root node -/

section Root

variable {mpdPath : Str} {r r' : Reader} {e : Event} {rest : List Event} {p : Option Node × Reader}

/-- skipping ends at an event, at an error anyway, or if there is one to be found -/
theorem exists_skip_current (hr : Reader.skip r.error (some e) rest = some r')
    (h : r.error = true ∨ ∃ x ∈ e :: rest, x.isSkipped = false) : ∃ x, r'.current = some x := by
  induction rest generalizing e with
  | nil =>
    rw [Reader.skip] at hr
    split_ifs at hr with hskip herr
    · rcases h with h | ⟨x, hx, hstop⟩
      · exact absurd h herr
      · rw [List.mem_singleton.1 hx, hskip] at hstop
        exact absurd hstop (by decide)
    · exact ⟨e, by rw [← Option.some.inj hr]⟩
  | cons y rest ih =>
    rw [Reader.skip] at hr
    split_ifs at hr with hskip
    · refine ih hr (h.imp_right fun hstop => ?_)
      obtain ⟨x, hx, hstop⟩ := hstop
      rcases List.mem_cons.1 hx with rfl | hx
      · rw [hskip] at hstop
        exact absurd hstop (by decide)
      · exact ⟨x, hx, hstop⟩
    · exact ⟨e, by rw [← Option.some.inj hr]⟩

theorem ElementAt.ne_null {x : Event} (h : ElementAt mpdPath r p) (hx : r.current = some x) : p.1 ≠ none := by
  unfold ElementAt at h
  rw [hx] at h
  simp only at h
  split_ifs at h with hempty
  · rw [h]
    exact Option.some_ne_none _
  · obtain ⟨s, -, h⟩ := h
    rw [h]
    exact Option.some_ne_none _

/-- **A node is made** at any event but white space, if the document breaks off or has more than comments to come. -/
theorem NodeAt.ne_null (h : NodeAt mpdPath (r.next e rest) p) (hspace : e ≠ .whiteSpace)
    (hmore : r.error = true ∨ ∃ x ∈ e :: rest, x.isSkipped = false) : p.1 ≠ none := by
  by_cases htext : ∃ value, e = .text value
  · obtain ⟨value, rfl⟩ := htext
    rw [h.text]
    exact Option.some_ne_none _
  · obtain ⟨r', hr', helement⟩ := h.skip hspace fun value hvalue => htext ⟨value, hvalue⟩
    obtain ⟨x, hx⟩ := exists_skip_current hr' hmore
    exact helement.ne_null hx

end Root

/-! ## Documents -/

section Documents

variable {url : Str} {d : Document} {evs : List Event} {error : Bool}

/-- with something to read, what is parsed is not NULL -/
theorem parse_ne_null {e : Event} {rest : List Event} (hspace : e ≠ .whiteSpace)
    (hmore : error = true ∨ ∃ x ∈ e :: rest, x.isSkipped = false) : parse url (e :: rest) error ≠ some none := by
  intro h
  rw [parse, if_pos (by simp [Reader.read]), Option.map_eq_some_iff] at h
  obtain ⟨p, hp, hnull⟩ := h
  exact NodeAt.ne_null (r := ⟨none, e :: rest, error⟩) ⟨_, hp⟩ hspace hmore hnull

theorem head_beforeEnd {e : Event} {rest : List Event} (h : e :: rest <+: d.beforeEnd) : e ≠ .whiteSpace := by
  unfold Document.beforeEnd at h
  rcases hprolog : d.prolog with _ | ⟨m, ms⟩
  · rw [hprolog, List.map_nil, List.nil_append] at h
    cases hchildren : d.children with
    | none => simp [hchildren] at h
    | some children =>
      rw [hchildren] at h
      rw [(List.cons_prefix_cons.1 h).1]
      exact Event.noConfusion
  · rw [hprolog, List.map_cons, List.cons_append] at h
    rw [(List.cons_prefix_cons.1 h).1]
    cases m <;> exact Event.noConfusion

theorem exists_root (d : Document) : ∃ e rest, d.events = e :: rest ∧ e ≠ .whiteSpace ∧
    ∃ x ∈ e :: rest, x.isSkipped = false := by
  obtain ⟨isEmpty, tail, htail⟩ : ∃ isEmpty tail, d.root.events = .startElement d.name d.attributes isEmpty :: tail := by
    unfold Document.root
    cases d.children with
    | none => exact ⟨true, [], rfl⟩
    | some children => exact ⟨false, _, rfl⟩
  have hroot : Event.startElement d.name d.attributes isEmpty ∈ d.events := by
    rw [Document.events, htail]
    simp
  rcases hprolog : d.prolog with _ | ⟨m, ms⟩
  · have hevents : d.events = .startElement d.name d.attributes isEmpty :: (tail ++ d.epilog.map Misc.event) := by
      rw [Document.events, hprolog, htail]
      rfl
    exact ⟨_, _, hevents, Event.noConfusion, _, hevents ▸ hroot, rfl⟩
  · have hevents : d.events = m.event :: (ms.map Misc.event ++ (d.root.events ++ d.epilog.map Misc.event)) := by
      rw [Document.events, hprolog]
      rfl
    refine ⟨_, _, hevents, ?_, _, hevents ▸ hroot, rfl⟩
    cases m <;> exact Event.noConfusion

/-- **A document that breaks off is accepted**, unless it does in the middle of comments and white space. -/
theorem accepted (h : evs <+: d.beforeEnd) (hne : evs ≠ []) (hlast : ∀ e ∈ evs.getLast?, e.isSkipped = false) :
    ∃ root, parse url evs true = some (some root) := by
  obtain ⟨e, rest, rfl⟩ := List.exists_cons_of_ne_nil hne
  have hparsed : (parse url (e :: rest) true).isSome := parse_isSome_of_stops url fun _ => hlast
  obtain ⟨o, ho⟩ := Option.isSome_iff_exists.1 hparsed
  cases o with
  | none => exact absurd ho (parse_ne_null (head_beforeEnd h) (Or.inl rfl))
  | some root => exact ⟨root, ho⟩

/-- **Malformed documents.** For every document and every place before the end of its root at which it breaks off, `Parse`
returns false, and `Open` NULL, exactly when nothing of it has been read; of the whole document `Parse` returns true. -/
theorem rejected_iff (url : Str) (h : evs <+: d.beforeEnd) :
    (parse url evs true = some none ↔ evs = []) ∧ (managerOpen url evs true = some none ↔ evs = []) ∧
      ∃ root, parse url d.events false = some (some root) := by
  have hparse : parse url evs true = some none ↔ evs = [] := by
    cases evs with
    | nil => exact iff_of_true rfl rfl
    | cons e rest => exact iff_of_false (parse_ne_null (head_beforeEnd h) (Or.inl rfl)) (List.cons_ne_nil e rest)
  refine ⟨hparse, ?_, ?_⟩
  · rw [← hparse, managerOpen]
    cases parse url evs true with
    | none => exact iff_of_false (by simp) (by simp)
    | some root => cases root <;> simp
  · obtain ⟨e, rest, hevents, hspace, hmore⟩ := exists_root d
    obtain ⟨o, ho⟩ := Option.isSome_iff_exists.1 (parse_isSome url d.events)
    cases o with
    | none =>
      rw [hevents] at ho
      exact absurd ho (parse_ne_null hspace (Or.inr hmore))
    | some root => exact ⟨root, ho⟩

/-- an MPD with two empty Periods -/
def twoEmptyPeriods : Document where
  prolog := []
  name := ⟨"MPD".toList, by decide⟩
  attributes := []
  children := some [.empty ⟨"Period".toList, by decide⟩ [], .empty ⟨"Period".toList, by decide⟩ []]
  epilog := []

theorem rejected_unread :
    parse "m.mpd".toList [] true = some none ∧ managerOpen "m.mpd".toList [] true = some none ∧
      ∃ root, parse "m.mpd".toList twoEmptyPeriods.events false = some (some root) := by
  have h := rejected_iff (d := twoEmptyPeriods) "m.mpd".toList List.nil_prefix
  exact ⟨h.1.2 rfl, h.2.1.2 rfl, h.2.2⟩

/-- broken off after the first Period, it is an MPD with one -/
theorem truncated_accepted :
    twoEmptyPeriods.beforeEnd.take 2 <+: twoEmptyPeriods.beforeEnd ∧
      (managerOpen "m.mpd".toList (twoEmptyPeriods.beforeEnd.take 2) true).map (·.map (·.periods.length)) = some (some 1) ∧
      parse "m.mpd".toList (twoEmptyPeriods.beforeEnd.take 2) true ≠ some none := by
  have hopen : (managerOpen "m.mpd".toList (twoEmptyPeriods.beforeEnd.take 2) true).map (·.map (·.periods.length)) =
      some (some 1) := by
    decide +kernel
  refine ⟨List.take_prefix _ _, hopen, fun h => ?_⟩
  rw [managerOpen, h] at hopen
  exact absurd hopen (by decide)

end Documents

end NdnDash.Xml
