/-
Base URL resolution, from the levels of the MPD to the absolute URI of a media segment.

What is asked for: the URI of the segment is resolved against the first BaseURL of the Representation, then of the
AdaptationSet, the Period and the MPD, and last against the directory of the MPD; an absolute BaseURL ends this
(`resolve`). The levels are lists of URLs from the inside out.

What the code does:
- `resolveBaseUrl` never looks at the Representation;
- it leaves the directory of the MPD out when the outermost BaseURL is absolute, and only then: an absolute BaseURL further
  in is joined behind what stands outside of it.

**What is proved.** `absoluteuri_iff`: a produced media segment has the URI asked for if and only if neither matters
(`Harmless`): the Representation adds nothing and nothing stands outside of the innermost absolute URL, or the strings
make up for it. `representation_ignored` is an MPD with one BaseURL, in its Representation.
-/
import NdnDash.Mpd.RepresentationStream

namespace NdnDash.Mpd

open NdnDash.Path NdnDash.Separated

/-! ## What is asked for -/

/-- a URI resolved against URLs, the innermost first -/
def resolve : List Str → Str → Str
  | [], uri => uri
  | url :: urls, uri => if isAbsolute url then combinePaths url uri else resolve urls (combinePaths url uri)

/-- the first URL of a level -/
def firstUrl (urls : List BaseUrl) : List Str := (urls.head?.map (·.url)).toList

/-- the first URLs outside of the Representation -/
def outerUrls (mpd : MPD) (period : Period) (adaptationSet : AdaptationSet) : List Str :=
  firstUrl adaptationSet.baseURLs ++ firstUrl period.baseURLs ++ firstUrl mpd.baseUrls

/-- the URLs a segment is to be resolved against -/
def levelUrls (mpd : MPD) (period : Period) (adaptationSet : AdaptationSet) (representation : Representation) : List Str :=
  firstUrl representation.baseURLs ++ (outerUrls mpd period adaptationSet ++ [mpd.mpdPathBaseUrl.url])

/-! ## When the code does it -/

/-- the URLs joined, absolute or not -/
def joined (urls : List Str) : Str := urls.foldr (fun url base => combinePaths base url) []

/-- the URLs joined up to the innermost absolute one -/
def reach : List Str → Str
  | [] => []
  | url :: urls => if isAbsolute url then url else combinePaths (reach urls) url

/-- the URLs outside of the innermost absolute one -/
def beyond : List Str → List Str
  | [] => []
  | url :: urls => if isAbsolute url then urls else beyond urls

/-- the first URLs outside of the Representation, and the directory of the MPD unless the outermost of them is absolute -/
def usedUrls (mpd : MPD) (period : Period) (adaptationSet : AdaptationSet) : List Str :=
  if (outerUrls mpd period adaptationSet).getLast?.any isAbsolute then outerUrls mpd period adaptationSet
  else outerUrls mpd period adaptationSet ++ [mpd.mpdPathBaseUrl.url]

/-- when the code's URLs lead to the URI asked for, `representation` being the first BaseURL of the Representation or empty:
- an absolute one is, up to a slash at its end, what the other URLs join to;
- another one is nothing or a slash, and nothing is joined outside of the innermost absolute URL;
- or what is joined there, and what the Representation adds, are rotations of one text which the URLs between repeat -/
def Harmless (used : List Str) (representation : Str) : Prop :=
  if isAbsolute representation then closed '/' (joined used) = closed '/' representation
  else
    (joined (beyond used) = [] ∧ (representation = [] ∨ representation = ['/'])) ∨
    ∃ (x y : Str) (k : ℕ), closed '/' (joined (beyond used)) = x ++ y ∧
      closed '/' (opened '/' representation) = y ++ x ∧
      closed '/' (reach used) = (List.replicate k (x ++ y)).flatten ++ x

/-! ## Joining -/

section Joining

variable {urls vs : List Str} {url uri : Str}

theorem joined_eq (urls : List Str) : joined urls = combinePaths (joined (beyond urls)) (reach urls) := by
  induction urls with
  | nil => rfl
  | cons url urls ih =>
    have hcons : joined (url :: urls) = combinePaths (joined urls) url := rfl
    by_cases habs : isAbsolute url = true
    · rw [hcons, beyond, reach, if_pos habs, if_pos habs]
    · rw [beyond, reach, if_neg habs, if_neg habs]
      calc joined (url :: urls)
          = combinePaths (joined urls) url := hcons
        _ = combinePaths (combinePaths (joined (beyond urls)) (reach urls)) url := congrArg (combinePaths · url) ih
        _ = combinePaths (joined (beyond urls)) (combinePaths (reach urls) url) := combinePaths_assoc _ _ _

theorem resolve_eq (urls : List Str) (uri : Str) : resolve urls uri = combinePaths (reach urls) uri := by
  induction urls generalizing uri with
  | nil => simp [resolve, reach]
  | cons url urls ih =>
    by_cases habs : isAbsolute url = true
    · rw [resolve, reach, if_pos habs, if_pos habs]
    · rw [resolve, reach, if_neg habs, if_neg habs]
      calc resolve urls (combinePaths url uri)
          = combinePaths (reach urls) (combinePaths url uri) := ih _
        _ = combinePaths (combinePaths (reach urls) url) uri := (combinePaths_assoc _ _ _).symm

theorem reach_append (h : ∃ url ∈ urls, isAbsolute url = true) : reach (urls ++ vs) = reach urls := by
  induction urls with
  | nil => simp at h
  | cons url urls ih =>
    rw [List.cons_append, reach, reach]
    split_ifs with habs
    · rfl
    · rw [ih (by simpa [habs] using h)]

/-- what is reached from an absolute URL on begins with its scheme -/
theorem head?_reach (h : beyond urls ≠ []) : (reach urls).head? = some 'h' := by
  induction urls with
  | nil => exact absurd rfl h
  | cons url urls ih =>
    by_cases habs : isAbsolute url = true
    · rw [reach, if_pos habs, head?_of_isAbsolute habs]
    · rw [beyond, if_neg habs] at h
      have hne : reach urls ≠ [] := by
        intro hnil
        have hhead := ih h
        rw [hnil] at hhead
        exact absurd hhead (by simp)
      rw [reach, if_neg habs, head?_combinePaths hne, ih h]

end Joining

/-! ## The code's URLs -/

section Levels

variable {mpd : MPD} {period : Period} {adaptationSet : AdaptationSet} {representation : Representation}

theorem firstUrl_cases (urls : List BaseUrl) : firstUrl urls = [] ∨ ∃ url, firstUrl urls = [url] := by
  cases urls with
  | nil => exact Or.inl rfl
  | cons b bs => exact Or.inr ⟨b.url, rfl⟩

theorem firstUrl_eq (urls : List BaseUrl) : (urlAt urls 0).map (·.url) = firstUrl urls := by
  cases urls <;> rfl

/-- the code joins these URLs, the outermost first -/
theorem reverse_resolveBaseUrl (mpd : MPD) (period : Period) (adaptationSet : AdaptationSet) :
    ((resolveBaseUrl mpd period adaptationSet 0 0 0).map (·.url)).reverse = usedUrls mpd period adaptationSet := by
  have hsingle : ∀ urls : List BaseUrl, (firstUrl urls).reverse = firstUrl urls := by
    intro urls
    cases urls <;> rfl
  have houter : outerUrls mpd period adaptationSet =
      ((urlAt mpd.baseUrls 0 ++ urlAt period.baseURLs 0 ++ urlAt adaptationSet.baseURLs 0).map (·.url)).reverse := by
    simp only [List.map_append, firstUrl_eq, List.reverse_append, hsingle, outerUrls, List.append_assoc]
  rw [usedUrls, houter, resolveBaseUrl]
  cases urlAt mpd.baseUrls 0 ++ urlAt period.baseURLs 0 ++ urlAt adaptationSet.baseURLs 0 with
  | nil => rfl
  | cons url urls =>
    by_cases habs : isAbsolute url.url = true
    · simp [habs]
    · simp [habs]

theorem reach_usedUrls (mpd : MPD) (period : Period) (adaptationSet : AdaptationSet) :
    reach (outerUrls mpd period adaptationSet ++ [mpd.mpdPathBaseUrl.url]) =
      reach (usedUrls mpd period adaptationSet) := by
  rw [usedUrls]
  split_ifs with habs
  · -- the outermost URL is absolute, so nothing behind it is reached
    obtain ⟨url, hlast, hurl⟩ := (Option.any_eq_true _ _).1 habs
    exact reach_append ⟨url, List.mem_of_getLast? hlast, hurl⟩
  · rfl

theorem absoluteUri_eq (uri : Str) : absoluteUri (resolveBaseUrl mpd period adaptationSet 0 0 0) uri =
    combinePaths (joined (usedUrls mpd period adaptationSet)) uri := by
  rw [absoluteUri, joined, ← reverse_resolveBaseUrl, List.foldr_reverse, List.foldl_map]

theorem resolve_levelUrls (uri : Str) : resolve (levelUrls mpd period adaptationSet representation) uri =
    if isAbsolute ((firstUrl representation.baseURLs).headD []) then
      combinePaths ((firstUrl representation.baseURLs).headD []) uri
    else
      combinePaths (combinePaths (reach (usedUrls mpd period adaptationSet))
        ((firstUrl representation.baseURLs).headD [])) uri := by
  rw [levelUrls]
  rcases firstUrl_cases representation.baseURLs with hnone | ⟨url, hurl⟩
  · have hempty : isAbsolute [] = false := by decide
    rw [hnone, List.nil_append, resolve_eq, reach_usedUrls]
    simp [hempty]
  · rw [hurl, List.headD_cons, List.cons_append, List.nil_append, resolve, resolve_eq, reach_usedUrls,
      combinePaths_assoc]

end Levels

/-! ## The result -/

section Result

variable {used : List Str} {r uri : Str}

theorem combinePaths_left_inj {base1 base2 : Str} (h1 : base1 ≠ []) (h2 : base2 ≠ []) (huri : uri ≠ []) :
    combinePaths base1 uri = combinePaths base2 uri ↔ closed '/' base1 = closed '/' base2 := by
  rw [combinePaths_eq_join, join_left_inj h1 h2 huri]

theorem opened_eq_nil : opened '/' r = [] ↔ r = [] ∨ r = ['/'] := by
  cases r with
  | nil => simp
  | cons c r =>
    by_cases hc : c = '/'
    · simp [opened, hc]
    · simp [opened, hc]

/-- the Representation's URL is relative: it adds something, and the URLs outside of the innermost absolute one are in
front -/
theorem relative_iff (hused : joined used ≠ []) (huri : uri ≠ []) :
    combinePaths (joined used) uri = combinePaths (combinePaths (reach used) r) uri ↔
      (joined (beyond used) = [] ∧ (r = [] ∨ r = ['/'])) ∨
      ∃ (x y : Str) (k : ℕ), closed '/' (joined (beyond used)) = x ++ y ∧ closed '/' (opened '/' r) = y ++ x ∧
        closed '/' (reach used) = (List.replicate k (x ++ y)).flatten ++ x := by
  by_cases hout : joined (beyond used) = []
  · have hreach : joined used = reach used := by rw [joined_eq, hout, combinePaths_nil_left]
    have hne : reach used ≠ [] := hreach ▸ hused
    have hbase : combinePaths (reach used) r ≠ [] := by
      rw [combinePaths_eq_join]
      apply join_ne_nil hne
    rw [combinePaths_left_inj hused hbase huri, hreach, combinePaths_eq_join, closed_join hne, List.self_eq_append_right,
      closed_eq_nil, opened_eq_nil]
    constructor
    · intro h
      exact Or.inl ⟨hout, h⟩
    · intro h
      rcases h with ⟨_, h⟩ | ⟨x, y, k, hxy, _, hs⟩
      · exact h
      · -- a rotation of nothing would leave nothing to be reached
        rw [hout, closed_nil] at hxy
        obtain ⟨rfl, rfl⟩ := List.append_eq_nil_iff.1 hxy.symm
        exact absurd (by simpa using hs) hne
  · have hbeyond : beyond used ≠ [] := by
      intro h
      rw [h] at hout
      exact hout rfl
    have hhead := head?_reach hbeyond
    have hne : reach used ≠ [] := by
      intro h
      rw [h] at hhead
      exact absurd hhead (by simp)
    have hopen : opened '/' (reach used) = reach used := by
      rw [opened, hhead]
      rfl
    have hbase : combinePaths (reach used) r ≠ [] := by
      rw [combinePaths_eq_join]
      apply join_ne_nil hne
    have hp : closed '/' (joined (beyond used)) ≠ [] := mt closed_eq_nil.1 hout
    rw [combinePaths_left_inj hused hbase huri, joined_eq, combinePaths_eq_join, closed_join hout, closed_join hne, hopen,
      append_eq_append_iff_rotation hp]
    exact ⟨Or.inr, fun h => h.resolve_left fun h => hout h.1⟩

/-- **When base URLs are resolved as they should be.** The absolute URI of a media segment that a stream makes is its URI
resolved against the first BaseURL of every level exactly when the levels are harmless. -/
theorem absoluteuri_iff {type : RepresentationStreamType} {mpd : MPD} {period : Period} {adaptationSet : AdaptationSet}
    {representation : Representation} {stream : RepresentationStream} {n : ℕ} {seg : Segment}
    (hstream : RepresentationStream.create type mpd period adaptationSet representation = some stream)
    (huri : stream.mediaUri n = some uri) (hne : uri ≠ []) (hrel : isAbsolute uri = false)
    (hseg : stream.getMediaSegment n = some (some seg)) :
    seg.absoluteuri = resolve (levelUrls mpd period adaptationSet representation) uri ↔
      Harmless (usedUrls mpd period adaptationSet) ((firstUrl representation.baseURLs).headD []) := by
  obtain ⟨uri', range, huri', hinit⟩ := RepresentationStream.getMediaSegment_spec hseg
  rw [huri] at huri'
  obtain rfl := Option.some.inj huri'
  obtain ⟨_, habsolute, hok⟩ := Segment.init_spec hinit
  rw [RepresentationStream.baseUrls_create hstream, absoluteUri_eq] at habsolute
  have hused : joined (usedUrls mpd period adaptationSet) ≠ [] := by
    intro hnil
    rw [habsolute, hnil, combinePaths_nil_left, hrel] at hok
    exact absurd hok (by simp)
  rw [habsolute, resolve_levelUrls, Harmless]
  split_ifs with habs
  · have hr : (firstUrl representation.baseURLs).headD [] ≠ [] := by
      intro hnil
      rw [hnil] at habs
      exact absurd habs (by decide)
    exact combinePaths_left_inj hused hr hne
  · exact relative_iff hused hne

/-! An MPD in the directory `http://h/d` with one segment `s`. -/

def smallMpd : MPD := ⟨[], ⟨"http://h/d".toList, []⟩⟩

def smallPeriod : Period := ⟨[], none, none⟩

def smallAdaptationSet : AdaptationSet := ⟨[], none, none⟩

def smallRepresentation (baseURLs : List BaseUrl) : Representation :=
  ⟨"1".toList, 0, baseURLs, some ⟨[⟨"s".toList, [], [], []⟩]⟩, none⟩

def smallStream : RepresentationStream :=
  .segmentList [smallMpd.mpdPathBaseUrl] (some ⟨[⟨"s".toList, [], [], []⟩]⟩)

def smallSegment : Segment :=
  ⟨"http://h/d/s".toList, "h".toList, 80, "/d/s".toList, [], 0, 0, false, .mediaSegment⟩

/-- **No BaseURL at all.** The segment is resolved against the directory of the MPD. -/
theorem absoluteuri_iff_small :
    smallSegment.absoluteuri =
      resolve (levelUrls smallMpd smallPeriod smallAdaptationSet (smallRepresentation [])) "s".toList := by
  have hstream : RepresentationStream.create .segmentList smallMpd smallPeriod smallAdaptationSet
      (smallRepresentation []) = some smallStream := by decide
  have huri : smallStream.mediaUri 0 = some "s".toList := by decide
  have hseg : smallStream.getMediaSegment 0 = some (some smallSegment) := by decide
  apply (absoluteuri_iff hstream huri (by decide) (by decide) hseg).2
  rw [Harmless, if_neg (by decide)]
  exact Or.inl ⟨by decide, Or.inl rfl⟩

/-- **The Representation's BaseURL is ignored.** With `r` there the URI is still `http://h/d/s`. -/
theorem representation_ignored :
    (RepresentationStream.create .segmentList smallMpd smallPeriod smallAdaptationSet
      (smallRepresentation [⟨"r".toList, []⟩])).bind (·.getMediaSegment 0) = some (some smallSegment) ∧
    smallSegment.absoluteuri ≠ resolve (levelUrls smallMpd smallPeriod smallAdaptationSet
      (smallRepresentation [⟨"r".toList, []⟩])) "s".toList := by
  decide

end Result

end NdnDash.Mpd
