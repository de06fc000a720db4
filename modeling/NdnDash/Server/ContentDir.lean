/-
The file server stays in its content directory: the paths it gives to `stat` and `fopen`, for any Interest name.

- `onInterestCalls`: the calls that take a path, in the order in which `onInterest` makes them.
- `onInterest_reads_only`: the answer depends on no other file.
- `calls_below`: every path is the content directory followed by a relative path that neither moves up nor ends early.
-/
import NdnDash.Core.NameUri
import NdnDash.Server.DasServer

namespace NdnDash.Das

open NdnDash.Text NdnDash.NameUri

/-! ## The calls -/

/-- a call that takes a path -/
inductive FileCall where
  | stat (path : Str)
  | fopen (path : Str)
deriving DecidableEq, Repr

def FileCall.path : FileCall → Str
  | .stat path => path
  | .fopen path => path

/-- `GetFileSize` calls `stat` for a size that is not cached -/
def getFileSizeCalls (s : Server) (fileName : Str) : List FileCall :=
  match s.mapFileSize.lookup (s.contentDir ++ fileName) with
  | some _ => []
  | none => [.stat (s.contentDir ++ fileName)]

/-- `onRequestSegData` opens the file unless its size is 0 -/
def onRequestSegDataCalls (s : Server) (fileName : Str) : List FileCall :=
  let fileName := beforeLast '/' fileName
  getFileSizeCalls s fileName ++
    if (getFileSize s fileName).1 = 0 then [] else [.fopen (s.contentDir ++ fileName)]

/-- `onInterest` on the printed name -/
def onInterestCalls (s : Server) (uri : Str) : List FileCall :=
  if strRequestNumber.isPrefixOf uri then getFileSizeCalls s (uri.drop strRequestNumber.length)
  else if strRequestData.isPrefixOf uri then onRequestSegDataCalls s (uri.drop strRequestData.length)
  else []

/-! ## Nothing else is read -/

section ReadsOnly

variable {s s' : Server} (hdir : s.contentDir = s'.contentDir) (hcache : s.mapFileSize = s'.mapFileSize)

include hdir hcache

theorem getFileSize_reads_only {fileName : Str}
    (h : ∀ c ∈ getFileSizeCalls s fileName, s.disk.file c.path = s'.disk.file c.path) :
    (getFileSize s fileName).1 = (getFileSize s' fileName).1 := by
  cases hl : s.mapFileSize.lookup (s.contentDir ++ fileName) with
  | some size =>
    have hl' := hl
    rw [hdir, hcache] at hl'
    simp only [getFileSize, hl, hl']
  | none =>
    have hl' := hl
    rw [hdir, hcache] at hl'
    have hfile : s.file fileName = s'.file fileName := by
      rw [Server.file, Server.file, ← hdir]
      exact h (.stat (s.contentDir ++ fileName)) (by simp [getFileSizeCalls, hl])
    rw [(getFileSize_eq s fileName).1, (getFileSize_eq s' fileName).1, sizeOf, sizeOf, hfile]

/-- **The answer depends only on the files of the calls** (and on the cached sizes). -/
theorem onInterest_reads_only {uri : Str}
    (h : ∀ c ∈ onInterestCalls s uri, s.disk.file c.path = s'.disk.file c.path) :
    (onInterest s uri).1 = (onInterest s' uri).1 := by
  unfold onInterestCalls at h
  unfold onInterest
  split_ifs at h ⊢ with hnumber hdata
  · simp only [onRequestSegNumber, getFileSize_reads_only hdir hcache h]
  · generalize uri.drop strRequestData.length = fileName at h ⊢
    unfold onRequestSegDataCalls at h
    simp only [List.mem_append] at h
    have hsize := getFileSize_reads_only hdir hcache fun c hc => h c (Or.inl hc)
    simp only [onRequestSegData, (getFileSize_eq s _).2, (getFileSize_eq s' _).2, ← hsize]
    by_cases h0 : (getFileSize s (beforeLast '/' fileName)).1 = 0
    · rw [if_pos h0, if_pos h0]
    · have hfile : s.file (beforeLast '/' fileName) = s'.file (beforeLast '/' fileName) := by
        rw [Server.file, Server.file, ← hdir]
        exact h (.fopen _) (Or.inr (by rw [if_neg h0]; exact List.mem_singleton_self _))
      rw [if_neg h0, if_neg h0]
      rw [← hfile]
      cases s.file (beforeLast '/' fileName) with
      | none => rfl
      | some F =>
        simp only
        split_ifs <;> rfl
  · rfl

end ReadsOnly

/-! ## Where the paths lead -/

/-- the directory followed by a relative path without `.` and `..` components and without a NUL -/
def Below (contentDir path : Str) : Prop :=
  ∃ relative, path = contentDir ++ relative ∧ relative ≠ [] ∧ relative.head? ≠ some '/' ∧
    (∀ component ∈ split '/' relative, component ≠ ['.'] ∧ component ≠ ['.', '.']) ∧ Char.ofNat 0 ∉ relative

theorem part_of_mem {components : List Bytes} {part : Str} (h : part ∈ components.map componentUri) :
    Part part ∧ part ≠ ['.'] ∧ part ≠ ['.', '.'] ∧ Char.ofNat 0 ∉ part := by
  obtain ⟨component, -, rfl⟩ := List.mem_map.1 h
  obtain ⟨-, hdot, hdots⟩ := componentUri_ne component
  exact ⟨part_componentUri component, hdot, hdots, fun hc => absurd (mem_componentUri hc) (by decide)⟩

theorem below_joined (contentDir : Str) {components : List Bytes} (hne : components ≠ []) :
    Below contentDir (contentDir ++ joined (components.map componentUri)) := by
  refine ⟨_, rfl, ?_, ?_, fun part hpart => ?_, fun hc => ?_⟩
  · cases components with
    | nil => exact absurd rfl hne
    | cons component components =>
      rw [List.map_cons, joined]
      exact List.append_ne_nil_of_left_ne_nil (part_componentUri component).1 _
  · cases components with
    | nil => exact absurd rfl hne
    | cons component components =>
      obtain ⟨hpart, hslash⟩ := part_componentUri component
      cases hprinted : componentUri component with
      | nil => exact absurd hprinted hpart
      | cons c printed =>
        rw [List.map_cons, joined, hprinted, List.cons_append, List.head?_cons]
        intro hc
        rw [hprinted, Option.some.inj hc] at hslash
        exact hslash List.mem_cons_self
  · rw [split_joined fun p hp => (part_of_mem hp).1] at hpart
    exact ⟨(part_of_mem hpart).2.1, (part_of_mem hpart).2.2.1⟩
  · rcases mem_joined hc with hc | ⟨part, hpart, hc⟩
    · exact absurd hc (by decide)
    · exact (part_of_mem hpart).2.2.2 hc

theorem beforeLast_joined {components : List Bytes} (hne : components ≠ []) :
    ∃ components' : List Bytes, components' ≠ [] ∧
      beforeLast '/' (joined (components.map componentUri)) = joined (components'.map componentUri) := by
  induction components using List.reverseRecOn with
  | nil => exact absurd rfl hne
  | append_singleton front last _ =>
    have hlast := (part_componentUri last).2
    cases front with
    | nil =>
      have hjoined : joined ([last].map componentUri) = componentUri last := List.append_nil _
      refine ⟨[last], by simp, ?_⟩
      rw [List.nil_append, hjoined, beforeLast, rfind_eq_none.2 hlast]
    | cons first front =>
      have hjoined : joined ((first :: front ++ [last]).map componentUri) =
          joined ((first :: front).map componentUri) ++ '/' :: componentUri last := by
        rw [List.map_append, joined_append (by simp)]
        exact congrArg (_ ++ '/' :: ·) (List.append_nil _)
      refine ⟨first :: front, by simp, ?_⟩
      rw [hjoined, beforeLast_append _ hlast]

/-- behind a keyword stand printed components -/
theorem below_keyword {name : List Bytes} {keyword before : Str} (hkeyword : keyword = before ++ ['/'])
    (hbefore : before ≠ []) (h : keyword.isPrefixOf (nameUri name) = true) :
    ∃ components : List Bytes, components ≠ [] ∧
      (nameUri name).drop keyword.length = joined (components.map componentUri) := by
  obtain ⟨after, hafter⟩ := List.isPrefixOf_iff_prefix.1 h
  rw [← hafter, List.drop_left]
  apply cut_nameUri hbefore
  rw [← hafter, hkeyword, List.append_assoc]
  rfl

/-- **The server never leaves its content directory**, whatever the Interest name and whatever has been cached. -/
theorem calls_below (s : Server) (name : List Bytes) :
    ∀ call ∈ onInterestCalls s (nameUri name), Below s.contentDir call.path := by
  intro call hcall
  unfold onInterestCalls at hcall
  have hsize : ∀ {fileName : Str}, call ∈ getFileSizeCalls s fileName → call.path = s.contentDir ++ fileName := by
    intro fileName hmem
    unfold getFileSizeCalls at hmem
    split at hmem
    · cases hmem
    · rw [List.mem_singleton.1 hmem]
      rfl
  split_ifs at hcall with hnumber hdata
  · have hkeyword : strRequestNumber = "/ustc/ndnDash/requestNumber".toList ++ ['/'] := by decide
    obtain ⟨components, hne, hrest⟩ := below_keyword hkeyword (by decide) hnumber
    rw [hsize hcall, hrest]
    exact below_joined _ hne
  · have hkeyword : strRequestData = "/ustc/ndnDash/requestData".toList ++ ['/'] := by decide
    obtain ⟨components, hne, hrest⟩ := below_keyword hkeyword (by decide) hdata
    obtain ⟨components', hne', hcut⟩ := beforeLast_joined hne
    have hpath : call.path = s.contentDir ++ joined (components'.map componentUri) := by
      rw [hrest] at hcall
      unfold onRequestSegDataCalls at hcall
      simp only [hcut] at hcall
      rcases List.mem_append.1 hcall with hcall | hcall
      · exact hsize hcall
      · split_ifs at hcall
        · cases hcall
        · rw [List.mem_singleton.1 hcall]
          rfl
    rw [hpath]
    exact below_joined _ hne'
  · cases hcall

/-- a server without files -/
def emptyServer : Server where
  contentDir := "/d/".toList
  disk := ⟨fun _ => none, by simp⟩
  mapFileSize := []
  cache_ok := by simp

/-- asked for `..`, it looks for a file of five periods -/
theorem calls_below_periods : Below "/d/".toList "/d/.....".toList := by
  have hcall : FileCall.stat "/d/.....".toList ∈ onInterestCalls emptyServer (nameUri
      [unescape "ustc".toList, unescape "ndnDash".toList, unescape "requestNumber".toList, [46, 46]]) := by
    decide
  exact calls_below emptyServer _ _ hcall

end NdnDash.Das
