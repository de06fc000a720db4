/-
Model of the segments of the MPD library: `Segment::Init` (`Segment.cpp`) and the elements that make a segment from their
URI (`BaseUrl.cpp`, `SegmentURL.cpp`, `SegmentTemplate.cpp`).

A result `none` is the exception that `substr` throws for an absolute URL without a path (or, for a template, an output
of `sprintf` that is not modelled); `some none` is the NULL returned when `Init` fails.

`levels_grouped`: the URI that `Init` puts together does not depend on how its levels are grouped.
-/
import NdnDash.Helpers.Path
import NdnDash.Mpd.SegmentTemplate

namespace NdnDash.Mpd

open NdnDash.Path

/-- the kinds of segments, as `HTTPTransactionType` names them -/
inductive HTTPTransactionType
  | initializationSegment
  | indexSegment
  | mediaSegment
  | bitstreamSwitchingSegment
deriving DecidableEq, Repr

/-- a `Segment` after a successful `Init` -/
structure Segment where
  absoluteuri : Str
  host : Str
  port : ℕ
  path : Str
  range : Str
  startByte : ℕ
  endByte : ℕ
  hasByteRange : Bool
  type : HTTPTransactionType
deriving DecidableEq, Repr

/-- a `BaseURL` element -/
structure BaseUrl where
  url : Str
  byteRange : Str
deriving DecidableEq, Repr

/-- the URI `Init` puts together -/
def absoluteUri (baseurls : List BaseUrl) (uri : Str) : Str :=
  combinePaths (baseurls.foldl (fun absoluteuri baseurl => combinePaths absoluteuri baseurl.url) []) uri

/-- `Segment::Init` of a new segment -/
def Segment.init (baseurls : List BaseUrl) (uri range : Str) (type : HTTPTransactionType) : Option (Option Segment) :=
  if uri = [] then some none
  else
    (getHostPortAndPath (absoluteUri baseurls uri) 80).map fun parts =>
      if parts.ok then
        match (if range = [] then none else getStartAndEndBytes range) with
        | some (startByte, endByte) =>
          some { absoluteuri := absoluteUri baseurls uri, host := parts.host, port := parts.port, path := parts.path,
                 range := range, startByte := startByte, endByte := endByte, hasByteRange := true, type := type }
        | none =>
          some { absoluteuri := absoluteUri baseurls uri, host := parts.host, port := parts.port, path := parts.path,
                 range := [], startByte := 0, endByte := 0, hasByteRange := false, type := type }
      else none

/-- `BaseUrl::ToMediaSegment` -/
def BaseUrl.toMediaSegment (b : BaseUrl) (baseurls : List BaseUrl) : Option (Option Segment) :=
  Segment.init baseurls b.url b.byteRange .mediaSegment

/-- a `SegmentURL` element -/
structure SegmentURL where
  mediaURI : Str
  mediaRange : Str
  indexURI : Str
  indexRange : Str
deriving DecidableEq, Repr

namespace SegmentURL

/-- `ToMediaSegment` -/
def toMediaSegment (s : SegmentURL) (baseurls : List BaseUrl) : Option (Option Segment) :=
  Segment.init baseurls s.mediaURI s.mediaRange .mediaSegment

/-- `ToIndexSegment` -/
def toIndexSegment (s : SegmentURL) (baseurls : List BaseUrl) : Option (Option Segment) :=
  Segment.init baseurls s.indexURI s.indexRange .indexSegment

end SegmentURL

/-- an `S` element of a `SegmentTimeline` -/
structure Timeline where
  startTime : UInt32
  duration : UInt32
  repeatCount : UInt32
deriving DecidableEq, Repr

/-- a `SegmentTemplate` element, without the templates of the segments that carry no media -/
structure SegmentTemplate where
  media : Str
  startNumber : UInt32
  segmentTimeline : Option (List Timeline)
deriving DecidableEq, Repr

/-! ## The levels of a URI -/

/-- the URI is its levels joined -/
theorem absoluteUri_eq_joinAll (baseurls : List BaseUrl) (uri : Str) :
    absoluteUri baseurls uri = Separated.joinAll '/' (baseurls.map (·.url) ++ [uri]) := by
  rw [absoluteUri, combinePaths_eq_join, Separated.joinAll_append, Separated.joinAll_cons, Separated.joinAll_nil,
    Separated.join_nil_right, Separated.joinAll, List.foldl_map]

/-- `Init` reads no more of the base URLs than the URI they lead to -/
theorem Segment.init_congr {baseurls1 baseurls2 : List BaseUrl} {uri : Str}
    (h : absoluteUri baseurls1 uri = absoluteUri baseurls2 uri) (range : Str) (type : HTTPTransactionType) :
    Segment.init baseurls1 uri range type = Segment.init baseurls2 uri range type := by
  rw [Segment.init, Segment.init, h]

/-- levels put together to one -/
def oneLevel (baseurls : List BaseUrl) : BaseUrl := ⟨absoluteUri baseurls [], []⟩

theorem url_oneLevel (baseurls : List BaseUrl) :
    (oneLevel baseurls).url = Separated.joinAll '/' (baseurls.map (·.url)) := by
  rw [oneLevel, absoluteUri_eq_joinAll, Separated.joinAll_append, Separated.joinAll_cons, Separated.joinAll_nil,
    Separated.join_nil_right, Separated.join_nil_right]

/-- adjacent levels can be put together, the last of them with the URI -/
theorem absoluteUri_oneLevel (groups : List (List BaseUrl)) (last : List BaseUrl) (uri : Str) :
    absoluteUri (groups.map oneLevel) (absoluteUri last uri) = absoluteUri (groups.flatten ++ last) uri := by
  have hurls : (groups.map oneLevel).map (·.url) = (groups.map (List.map (·.url))).map (Separated.joinAll '/') := by
    rw [List.map_map, List.map_map]
    exact List.map_congr_left fun baseurls _ => url_oneLevel baseurls
  calc absoluteUri (groups.map oneLevel) (absoluteUri last uri)
      = Separated.joinAll '/' ((groups.map oneLevel).map (·.url) ++ [absoluteUri last uri]) := absoluteUri_eq_joinAll _ _
    _ = Separated.join '/' (Separated.joinAll '/' (groups.map (List.map (·.url))).flatten) (absoluteUri last uri) := by
      rw [Separated.joinAll_append, Separated.joinAll_cons, Separated.joinAll_nil, Separated.join_nil_right, hurls,
        Separated.joinAll_flatten]
    _ = Separated.joinAll '/' ((groups.flatten ++ last).map (·.url) ++ [uri]) := by
      rw [absoluteUri_eq_joinAll, ← Separated.joinAll_append, ← List.map_flatten, List.map_append, List.append_assoc]
    _ = absoluteUri (groups.flatten ++ last) uri := (absoluteUri_eq_joinAll _ _).symm

/-- empty levels can be left out -/
theorem absoluteUri_filter (baseurls : List BaseUrl) (uri : Str) :
    absoluteUri (baseurls.filter (·.url ≠ [])) uri = absoluteUri baseurls uri := by
  have hurls : (baseurls.filter (·.url ≠ [])).map (·.url) = (baseurls.map (·.url)).filter (· ≠ []) := by
    rw [List.filter_map]
    rfl
  rw [absoluteUri_eq_joinAll, absoluteUri_eq_joinAll, Separated.joinAll_append, Separated.joinAll_append, hurls,
    Separated.joinAll_filter]

/-- **Joining is a monoid.** `CombinePaths` is associative and the empty path adds nothing on either side; so the URI that
`Init` puts together does not depend on how adjacent levels, the URI among them, are grouped, nor on empty levels, and
neither does the segment. -/
theorem levels_grouped :
    (∀ a b c, combinePaths (combinePaths a b) c = combinePaths a (combinePaths b c)) ∧
    (∀ a, combinePaths [] a = a ∧ combinePaths a [] = a) ∧
    (∀ (groups : List (List BaseUrl)) last uri,
      absoluteUri (groups.map oneLevel) (absoluteUri last uri) = absoluteUri (groups.flatten ++ last) uri) ∧
    (∀ baseurls uri, absoluteUri (baseurls.filter (·.url ≠ [])) uri = absoluteUri baseurls uri) ∧
    (∀ (groups : List (List BaseUrl)) uri range type,
      Segment.init (groups.map oneLevel) uri range type = Segment.init groups.flatten uri range type) ∧
    (∀ baseurls uri range type,
      Segment.init (baseurls.filter (·.url ≠ [])) uri range type = Segment.init baseurls uri range type) := by
  refine ⟨combinePaths_assoc, fun a => ⟨combinePaths_nil_left a, combinePaths_nil_right a⟩, absoluteUri_oneLevel,
    absoluteUri_filter, fun groups uri range type => ?_, fun baseurls uri range type => ?_⟩
  · have hlast : absoluteUri [] uri = uri := combinePaths_nil_left uri
    have hgroups := absoluteUri_oneLevel groups [] uri
    rw [List.append_nil, hlast] at hgroups
    exact Segment.init_congr hgroups range type
  · exact Segment.init_congr (absoluteUri_filter baseurls uri) range type

/-- what `Init` demands of a segment that it leaves in place: a URI, and an absolute URL put together with it -/
theorem Segment.init_spec {baseurls : List BaseUrl} {uri range : Str} {type : HTTPTransactionType} {seg : Segment}
    (h : Segment.init baseurls uri range type = some (some seg)) :
    uri ≠ [] ∧ seg.absoluteuri = absoluteUri baseurls uri ∧ isAbsolute seg.absoluteuri = true := by
  by_cases huri : uri = []
  · rw [Segment.init, if_pos huri] at h
    exact absurd h (by simp)
  · rw [Segment.init, if_neg huri, Option.map_eq_some_iff] at h
    obtain ⟨parts, hparts, h⟩ := h
    by_cases hok : parts.ok = true
    · rw [if_pos hok] at h
      have hseg : seg.absoluteuri = absoluteUri baseurls uri := by
        split at h
        · rw [← Option.some.inj h]
        · rw [← Option.some.inj h]
      refine ⟨huri, hseg, ?_⟩
      by_contra hrel
      rw [hseg] at hrel
      rw [getHostPortAndPath, if_neg hrel] at hparts
      rw [← Option.some.inj hparts] at hok
      exact absurd hok (by simp)
    · rw [if_neg hok] at h
      exact absurd h (by simp)

end NdnDash.Mpd
