/-
References to segments with absent parts (`SegmentURL.cpp`, `URLType.cpp`). A reference has a URI and a byte range, each
of which may be absent. Without a URI the range is one of the base URL, or, for an index, of the media URI if there is
one. A range is `first-last` or `first-`.

`Segment::Init` refuses a reference without a URI, and `GetStartAndEndBytes` a range without an end.

- `getHostPortAndPath_of_httpUrl`: an absolute URL with a host and a path has these parts.
- `convert_eq`: what a conversion makes of a reference.
- `references_iff`: over all base URLs, conversions and ranges, the segment is the one referred to exactly when the URI is
  there and the range has an end that fits 64 bits, or is absent.
-/
import NdnDash.Helpers.Urls
import NdnDash.Mpd.MediaSegments

namespace NdnDash.Mpd

open NdnDash.Path NdnDash.Text

/-! ## References -/

/-- the three conversions -/
inductive Conversion
  | media (s : SegmentURL)
  | index (s : SegmentURL)
  | url (u : URLType)
deriving DecidableEq

namespace Conversion

/-- `ToMediaSegment`, `ToIndexSegment`, `ToSegment` -/
def convert (baseurls : List BaseUrl) : Conversion → Option (Option Segment)
  | media s => s.toMediaSegment baseurls
  | index s => s.toIndexSegment baseurls
  | url u => u.toSegment baseurls

/-- the URI of the reference -/
def uri : Conversion → Str
  | media s => s.mediaURI
  | index s => s.indexURI
  | url u => u.sourceURL

def range : Conversion → Str
  | media s => s.mediaRange
  | index s => s.indexRange
  | url u => u.range

def type : Conversion → HTTPTransactionType
  | media _ => .mediaSegment
  | index _ => .indexSegment
  | url u => u.type

/-- what is mapped to an absent URI: the media URI to that of an index -/
def mapped : Conversion → Str
  | index s => s.mediaURI
  | _ => []

end Conversion

/-- the base URLs put together -/
def base (baseurls : List BaseUrl) : Str :=
  baseurls.foldl (fun absoluteuri baseurl => combinePaths absoluteuri baseurl.url) []

/-- an absolute URL with a host and a path -/
def HttpUrl (url : Str) : Prop :=
  ∃ scheme ∈ ["http://".toList, "https://".toList], ∃ hostPort path, url = scheme ++ (hostPort ++ '/' :: path) ∧
    '/' ∉ hostPort ∧ hostPort ≠ [] ∧ hostPort.head? ≠ some ':'

/-- a byte range, or none -/
inductive RangeSpec
  | absent
  | closed (first last : Numeral) (h : value first.digits ≤ value last.digits)
  | openEnded (first : Numeral)

namespace RangeSpec

def written : RangeSpec → Str
  | absent => []
  | closed first last _ => first.digits ++ '-' :: last.digits
  | openEnded first => first.digits ++ ['-']

/-- a segment has the bounds of the range; an open end is behind every byte that can be counted -/
def Denotes (seg : Segment) : RangeSpec → Prop
  | absent => seg.hasByteRange = false
  | closed first last _ =>
    seg.hasByteRange = true ∧ seg.startByte = value first.digits ∧ seg.endByte = value last.digits
  | openEnded first =>
    seg.hasByteRange = true ∧ seg.startByte = value first.digits ∧ ∀ i < 2 ^ 64, i ≤ seg.endByte

/-- a range that the code can read: it has an end, and that fits 64 bits -/
def Readable : RangeSpec → Prop
  | absent => True
  | closed _ last _ => value last.digits < 2 ^ 64
  | openEnded _ => False

end RangeSpec

/-- the URL that a conversion refers to: its URI, or what is mapped to it, behind the base URLs -/
def Conversion.target (baseurls : List BaseUrl) (c : Conversion) : Str :=
  combinePaths (base baseurls) (if c.uri = [] then c.mapped else c.uri)

/-- the segment that a reference stands for is made -/
def Conversion.Resolves (baseurls : List BaseUrl) (c : Conversion) (spec : RangeSpec) : Prop :=
  ∃ seg, c.convert baseurls = some (some seg) ∧ seg.absoluteuri = c.target baseurls ∧ spec.Denotes seg

/-! ## Absolute URLs -/

section Urls

variable {url uri : Str}

theorem httpUrl_combinePaths (h : HttpUrl url) (uri : Str) : HttpUrl (combinePaths url uri) := by
  obtain ⟨scheme, hscheme, hostPort, path, rfl, hhost⟩ := h
  obtain ⟨rest, hrest⟩ := exists_combinePaths (scheme ++ (hostPort ++ '/' :: path)) uri
  exact ⟨scheme, hscheme, hostPort, path ++ rest, by rw [hrest]; simp, hhost⟩

/-- **An absolute URL has its parts**, and the path begins at the first slash behind the host. -/
theorem getHostPortAndPath_of_httpUrl (h : HttpUrl url) (port : ℕ) :
    ∃ parts, getHostPortAndPath url port = some parts ∧ parts.ok = true := by
  obtain ⟨scheme, hscheme, hostPort, path, rfl, hslash, hne, hcolon⟩ := h
  -- the host ends at a colon that is not its first character, or with the text
  have hhost : hostPort.take ((find [':'] hostPort).getD hostPort.length) ≠ [] := by
    have hzero : find [':'] hostPort ≠ some 0 := by
      intro h0
      obtain ⟨rest, hrest⟩ := find_eq_zero_iff.1 h0
      exact hcolon (by rw [← hrest]; rfl)
    rw [ne_eq, List.take_eq_nil_iff, not_or]
    refine ⟨?_, hne⟩
    cases hfind : find [':'] hostPort with
    | none => simpa using hne
    | some i =>
      rintro rfl
      exact hzero hfind
  obtain ⟨parts, hparts, hparthost, -, -, hok⟩ := getHostPortAndPath_append hscheme hslash path port
  exact ⟨parts, hparts, hok.2 (hparthost ▸ hhost)⟩

end Urls

/-! ## The conversions -/

section Conversions

variable {baseurls : List BaseUrl} {c : Conversion} {spec : RangeSpec} {seg : Segment}

/-- all three put their URI and range into a new segment -/
theorem convert_eq (baseurls : List BaseUrl) (c : Conversion) :
    c.convert baseurls = Segment.init baseurls c.uri c.range c.type := by
  cases c <;> rfl

/-- a range that can be read gives the segment its bounds; any other leaves it without or with wrong ones -/
theorem denotes_iff (spec : RangeSpec) (h : seg.resource.2 = byteRange spec.written) :
    spec.Denotes seg ↔ spec.Readable := by
  cases spec with
  | absent =>
    rw [RangeSpec.written, byteRange, if_pos rfl, Segment.resource] at h
    refine iff_of_true ?_ trivial
    by_contra hrange
    rw [if_pos (by simpa [RangeSpec.Denotes] using hrange)] at h
    exact absurd h (Option.some_ne_none _)
  | closed first last hle =>
    have hne : first.digits ++ '-' :: last.digits ≠ [] := by simp
    rw [RangeSpec.written, byteRange, if_neg hne,
      getStartAndEndBytes_digits first.isDigit last.isDigit last.digits_ne hle, Segment.resource] at h
    have hrange : seg.hasByteRange = true := by
      by_contra hno
      rw [if_neg hno] at h
      exact absurd h.symm (Option.some_ne_none _)
    rw [if_pos hrange, Option.some.injEq, Prod.mk.injEq] at h
    rw [RangeSpec.Denotes, RangeSpec.Readable, and_iff_right hrange, h.1, h.2]
    omega
  | openEnded first =>
    have hdash : '-' ∉ first.digits := notMem_of_digits first.isDigit rfl
    have hne : first.digits ++ ['-'] ≠ [] := by simp
    rw [RangeSpec.written, byteRange, if_neg hne, getStartAndEndBytes_open hdash, Segment.resource] at h
    refine iff_of_false (fun hdenotes => ?_) id
    rw [if_pos hdenotes.1] at h
    exact absurd h (Option.some_ne_none _)

/-- **References.** For base URLs that combine to an absolute URL with a path, every reference and every range, the segment
that is referred to is made exactly when the reference has a URI of its own and the range, if there is one, can be read. -/
theorem references_iff (hbase : HttpUrl (base baseurls)) (hrange : c.range = spec.written) :
    c.Resolves baseurls spec ↔ c.uri ≠ [] ∧ spec.Readable := by
  unfold Conversion.Resolves
  rw [convert_eq]
  refine ⟨fun h => ?_, fun h => ?_⟩
  · obtain ⟨seg, hseg, -, hdenotes⟩ := h
    have hresource := congrArg Prod.snd (resource_init hseg)
    rw [hrange] at hresource
    exact ⟨(Segment.init_spec hseg).1, (denotes_iff spec hresource).1 hdenotes⟩
  · obtain ⟨huri, hreadable⟩ := h
    have hfetchable : Fetchable baseurls c.uri :=
      ⟨huri, getHostPortAndPath_of_httpUrl (httpUrl_combinePaths hbase c.uri) 80⟩
    obtain ⟨seg, hseg⟩ : ∃ seg, Segment.init baseurls c.uri c.range c.type = some (some seg) := init_iff.2 hfetchable
    have hresource := congrArg Prod.snd (resource_init hseg)
    rw [hrange] at hresource
    refine ⟨seg, hseg, ?_, (denotes_iff spec hresource).2 hreadable⟩
    rw [Conversion.target, if_neg huri]
    exact (Segment.init_spec hseg).2.1

/-- the first bytes of a file, and those behind them -/
def zero : Numeral := ⟨"0".toList, by decide, by simp⟩

def fiveHundred : Numeral := ⟨"500".toList, by decide, by simp⟩

def oneFile : List BaseUrl := [⟨"http://h/v.mp4".toList, []⟩]

theorem httpUrl_oneFile : HttpUrl (base oneFile) :=
  ⟨"http://".toList, by decide, "h".toList, "v.mp4".toList, by decide, by decide, by decide, by decide⟩

theorem references_media :
    (Conversion.media ⟨"a".toList, "0-500".toList, [], []⟩).Resolves oneFile (.closed zero fiveHundred (by decide)) :=
  (references_iff httpUrl_oneFile rfl).2 ⟨by decide, show Text.value fiveHundred.digits < 2 ^ 64 by decide⟩

/-- a `SegmentURL` with a media range only, which should be one of the file itself, is no segment; an open end is no end of
a range -/
theorem absent_media_refused :
    (Conversion.media ⟨[], "0-500".toList, [], []⟩).convert oneFile = some none ∧
      ¬ (Conversion.media ⟨[], "0-500".toList, [], []⟩).Resolves oneFile (.closed zero fiveHundred (by decide)) ∧
      ((Conversion.media ⟨"a".toList, "500-".toList, [], []⟩).convert oneFile).map (·.map (·.hasByteRange)) =
        some (some false) ∧
      ¬ (Conversion.media ⟨"a".toList, "500-".toList, [], []⟩).Resolves oneFile (.openEnded fiveHundred) := by
  have hnone : (Conversion.media ⟨[], "0-500".toList, [], []⟩).convert oneFile = some none := by decide
  have hopen : ((Conversion.media ⟨"a".toList, "500-".toList, [], []⟩).convert oneFile).map (·.map (·.hasByteRange)) =
      some (some false) := by
    decide
  refine ⟨hnone, fun h => ?_, hopen, fun h => ?_⟩
  · obtain ⟨seg, hseg, -⟩ := h
    rw [hnone] at hseg
    exact absurd hseg (by simp)
  · obtain ⟨seg, hseg, -, hdenotes⟩ := h
    rw [hseg] at hopen
    simp [hdenotes.1] at hopen

end Conversions

end NdnDash.Mpd
