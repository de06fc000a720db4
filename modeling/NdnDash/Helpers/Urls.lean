/-
What the path helpers make of a location (`Path.cpp`): the directory of an MPD, and the parts of an absolute URL.

- `rebuilds_iff`: a location is its directory and its base name joined exactly when it is empty, or has a slash, what stands
  before the last one neither is empty nor ends in a slash, and its length fits an `int`. A bare file name is taken for its
  own directory (`directory_bareName`), since `npos` is narrowed to -1, which as a length is everything.
- `getHostPortAndPath_append`: the parts of a URL with a slash behind its scheme.
- `splits_iff`: splitting a URL gives back what it was built from, and `substr` is in range, exactly when an absolute URL has
  a slash behind its scheme. Without one (`http://h`) the path would begin at `npos`, and `substr` throws.
-/
import NdnDash.Helpers.Path

namespace NdnDash.Path

open NdnDash.Text NdnDash.Separated

/-! ## The directory of a location -/

section Directory

variable {path dir f : Str}

/-- the directory and the base name, the text after the last slash, lead back to the location; a bare file name has no
directory -/
def Rebuilds (path : Str) : Prop :=
  combinePaths (getDirectoryPath path) (afterLast '/' path) = path ∧ ('/' ∉ path → getDirectoryPath path = [])

instance (path : Str) : Decidable (Rebuilds path) := by
  unfold Rebuilds
  infer_instance

theorem getDirectoryPath_of_notMem (h : '/' ∉ path) : getDirectoryPath path = path := by
  rw [getDirectoryPath, rfind_eq_none.2 h]
  rfl

theorem getDirectoryPath_append (hf : '/' ∉ f) (hlen : dir.length < 2 ^ 31) : getDirectoryPath (dir ++ '/' :: f) = dir := by
  rw [getDirectoryPath, rfind_append dir hf]
  simp only [toInt_of_lt hlen]
  rw [if_neg (by omega), Int.toNat_natCast, List.take_left' rfl]

/-- at any other position something else is taken: everything, or less than what stands before the slash -/
theorem getDirectoryPath_long (hf : '/' ∉ f) (hlen : 2 ^ 31 ≤ dir.length) :
    getDirectoryPath (dir ++ '/' :: f) = dir ++ '/' :: f ∨
      (getDirectoryPath (dir ++ '/' :: f)).length < dir.length := by
  rw [getDirectoryPath, rfind_append dir hf]
  by_cases hneg : toInt dir.length < 0
  · exact Or.inl (if_pos hneg)
  · have hlt : (toInt dir.length).toNat < dir.length := by
      have := toInt_lt (n := (dir.length : ℤ)) (by omega)
      omega
    right
    simp only
    rw [if_neg hneg]
    exact (List.length_take_le _ _).trans_lt hlt

theorem length_combinePaths_le (path1 path2 : Str) :
    (combinePaths path1 path2).length ≤ path1.length + 1 + path2.length := by
  have hclosed : (closed '/' path1).length ≤ path1.length + 1 := by
    unfold closed
    split_ifs <;> simp
  have hopened : (opened '/' path2).length ≤ path2.length := by
    unfold opened
    split_ifs <;> simp
  rw [combinePaths_eq_join, join]
  split_ifs
  · omega
  · omega
  · rw [List.length_append]
    omega

theorem combinePaths_eq_append (hf : '/' ∉ f) (hne : f ≠ []) :
    combinePaths dir f = dir ++ '/' :: f ↔ dir ≠ [] ∧ dir.getLast? ≠ some '/' := by
  by_cases hdir : dir = []
  · simp [hdir]
  · have hopened : opened '/' f = f := if_neg fun h => hf (List.mem_of_mem_head? h)
    calc combinePaths dir f = dir ++ '/' :: f
        ↔ closed '/' dir ++ f = (dir ++ ['/']) ++ f := by
          rw [combinePaths_eq_join, join_of_ne hdir hne, hopened, List.append_assoc, List.singleton_append]
      _ ↔ dir ≠ [] ∧ dir.getLast? ≠ some '/' := by rw [List.append_left_inj, closed_eq_append]

/-- **When a location is rebuilt.** Joining the directory and the base name of a path that does not end in a slash leads back
to it, and a bare name has no directory, exactly when the path is empty, or what stands before its last slash is not empty,
does not end in a slash and is less than 2^31 characters long. -/
theorem rebuilds_iff (hlast : path.getLast? ≠ some '/') :
    Rebuilds path ↔ path = [] ∨ ∃ dir f, path = dir ++ '/' :: f ∧ '/' ∉ f ∧ dir ≠ [] ∧ dir.getLast? ≠ some '/' ∧
      dir.length < 2 ^ 31 := by
  refine ⟨fun h => ?_, fun h => ?_⟩
  · by_cases hslash : '/' ∈ path
    · obtain ⟨dir, f, rfl, hf⟩ := exists_last hslash
      have hne : f ≠ [] := by
        rintro rfl
        exact hlast (by simp)
      have hjoin := h.1
      rw [afterLast_append dir hf] at hjoin
      have hlen : dir.length < 2 ^ 31 := by
        by_contra hlong
        rcases getDirectoryPath_long hf (Nat.le_of_not_lt hlong) with hall | hless
        · -- the base name would be put behind the whole path
          have htwice := (combinePaths_eq_append hf hne).2 ⟨by simp, hlast⟩
          rw [hall, htwice] at hjoin
          exact absurd (List.append_right_eq_self.1 hjoin) (by simp)
        · have hle := length_combinePaths_le (getDirectoryPath (dir ++ '/' :: f)) f
          rw [hjoin, List.length_append, List.length_cons] at hle
          omega
      rw [getDirectoryPath_append hf hlen] at hjoin
      obtain ⟨hdir, hend⟩ := (combinePaths_eq_append hf hne).1 hjoin
      exact Or.inr ⟨dir, f, rfl, hf, hdir, hend, hlen⟩
    · have hdirectory := h.2 hslash
      rw [getDirectoryPath_of_notMem hslash] at hdirectory
      exact Or.inl hdirectory
  · rcases h with rfl | ⟨dir, f, rfl, hf, hdir, hend, hlen⟩
    · decide
    · have hne : f ≠ [] := by
        rintro rfl
        exact hlast (by simp)
      refine ⟨?_, fun h => absurd (by simp) h⟩
      rw [getDirectoryPath_append hf hlen, afterLast_append dir hf]
      exact (combinePaths_eq_append hf hne).2 ⟨hdir, hend⟩

theorem rebuilds_mpd : Rebuilds "http://h/d/a.mpd".toList := by
  have h : "http://h/d/a.mpd".toList = "http://h/d".toList ++ '/' :: "a.mpd".toList ∧ '/' ∉ "a.mpd".toList ∧
      "http://h/d".toList ≠ [] ∧ "http://h/d".toList.getLast? ≠ some '/' ∧ "http://h/d".toList.length < 2 ^ 31 := by
    decide
  exact (rebuilds_iff (by decide)).2 (Or.inr ⟨_, _, h⟩)

/-- **A bare file name.** Its directory is the name itself, and a segment next to it would be looked for below it. -/
theorem directory_bareName :
    "a.mpd".toList.getLast? ≠ some '/' ∧ getDirectoryPath "a.mpd".toList = "a.mpd".toList ∧
    combinePaths (getDirectoryPath "a.mpd".toList) "a.mpd".toList = "a.mpd/a.mpd".toList ∧
    ¬ Rebuilds "a.mpd".toList := by
  decide

end Directory

/-! ## The parts of a URL -/

section Parts

/-- the schemes that are looked for -/
def schemes : List Str := ["http://".toList, "https://".toList]

/-- what a URL is built from -/
structure Url where
  scheme : Str
  host : Str
  port : Option Numeral
  path : Str
  scheme_mem : scheme ∈ schemes
  host_ne : host ≠ []
  colon_notMem : ':' ∉ host
  slash_notMem : '/' ∉ host
  port_lt : ∀ n ∈ port, n.value < 2 ^ 64
  head?_path : path.head? = some '/'

namespace Url

/-- the host and the port, as they are written -/
def hostPort (u : Url) : Str :=
  match u.port with
  | some n => u.host ++ ':' :: n.digits
  | none => u.host

/-- the URL -/
def written (u : Url) : Str := u.scheme ++ (u.hostPort ++ u.path)

/-- its parts, for a caller that has set a port before -/
def parts (u : Url) (port : ℕ) : HostPortAndPath :=
  { ok := true, host := u.host, port := (u.port.map Numeral.value).getD port, path := u.path }

end Url

/-- `GetHostPortAndPath` stays in range, and gives back what the URL was built from -/
def Splits (url : Str) (port : ℕ) : Prop :=
  ∃ parts, getHostPortAndPath url port = some parts ∧ ∀ u : Url, u.written = url → parts = u.parts port

variable {scheme hostPort rest path url : Str}

theorem find_scheme (h : scheme ∈ schemes) (rest : Str) :
    find "//".toList (scheme ++ rest) = some (scheme.length - 2) ∧ 2 ≤ scheme.length := by
  have hhttp : '/' ∉ "http:".toList := by decide
  have hhttps : '/' ∉ "https:".toList := by decide
  simp only [schemes, List.mem_cons, List.not_mem_nil, or_false] at h
  rcases h with rfl | rfl
  · exact ⟨find_append_cons hhttp ['/'] _, by decide⟩
  · exact ⟨find_append_cons hhttps ['/'] _, by decide⟩

theorem isAbsolute_iff : isAbsolute url = true ↔ ∃ scheme ∈ schemes, ∃ rest, url = scheme ++ rest := by
  have hbegin : ∀ scheme : Str, url.take scheme.length = scheme ↔ ∃ rest, url = scheme ++ rest := by
    intro scheme
    rw [eq_comm, ← List.prefix_iff_eq_take]
    exact exists_congr fun rest => eq_comm
  simp only [isAbsolute, Bool.or_eq_true, beq_iff_eq, schemes, List.mem_cons, List.not_mem_nil, or_false,
    exists_eq_or_imp, exists_eq_left]
  exact or_congr (hbegin "http://".toList) (hbegin "https://".toList)

/-- without a slash behind the scheme `substr` is called with `npos` -/
theorem getHostPortAndPath_of_notMem (hscheme : scheme ∈ schemes) (hslash : '/' ∉ rest) (port : ℕ) :
    getHostPortAndPath (scheme ++ rest) port = none := by
  obtain ⟨hfound, hlength⟩ := find_scheme hscheme rest
  rw [getHostPortAndPath, if_pos (isAbsolute_iff.2 ⟨scheme, hscheme, rest, rfl⟩), hfound]
  simp only
  rw [Nat.sub_add_cancel hlength, List.drop_left' rfl, find_of_notMem hslash]

/-- **The parts of a URL.** The path begins at the first slash behind the scheme; before it, the port stands behind the first
colon, if there is one, and the host before it. -/
theorem getHostPortAndPath_append (hscheme : scheme ∈ schemes) (hslash : '/' ∉ hostPort) (path : Str) (port : ℕ) :
    ∃ parts, getHostPortAndPath (scheme ++ (hostPort ++ '/' :: path)) port = some parts ∧
      parts.host = hostPort.take ((find [':'] hostPort).getD hostPort.length) ∧
      parts.port = ((find [':'] hostPort).map fun i => strtoul (hostPort.drop (i + 1))).getD port ∧
      parts.path = '/' :: path ∧ (parts.ok = true ↔ parts.host ≠ []) := by
  obtain ⟨hfound, hlength⟩ := find_scheme hscheme (hostPort ++ '/' :: path)
  have hdrop : (scheme ++ (hostPort ++ '/' :: path)).drop (scheme.length - 2 + 2) = hostPort ++ '/' :: path := by
    rw [Nat.sub_add_cancel hlength, List.drop_left' rfl]
  have hpath : (scheme ++ (hostPort ++ '/' :: path)).drop (scheme.length - 2 + 2 + hostPort.length) = '/' :: path := by
    rw [← List.drop_drop, hdrop, List.drop_left' rfl]
  rw [getHostPortAndPath, if_pos (isAbsolute_iff.2 ⟨scheme, hscheme, _, rfl⟩), hfound]
  simp only
  rw [hdrop, find_append hslash]
  simp only
  rw [List.take_left' rfl, hpath]
  refine ⟨_, rfl, rfl, ?_, rfl, by simp⟩
  cases find [':'] hostPort <;> rfl

theorem Url.slash_notMem_hostPort (u : Url) : '/' ∉ u.hostPort := by
  unfold Url.hostPort
  split
  · rename_i n _
    have hdigits : '/' ∉ n.digits := notMem_of_digits n.isDigit rfl
    simp [u.slash_notMem, hdigits]
  · exact u.slash_notMem

theorem getHostPortAndPath_written (u : Url) (port : ℕ) : getHostPortAndPath u.written port = some (u.parts port) := by
  obtain ⟨path, hpath⟩ : ∃ path, u.path = '/' :: path := ⟨_, List.eq_cons_of_mem_head? u.head?_path⟩
  obtain ⟨parts, hparts, hhost, hport, hpath', hok⟩ :=
    getHostPortAndPath_append u.scheme_mem u.slash_notMem_hostPort path port
  have hread : parts.host = u.host ∧ parts.port = (u.port.map Numeral.value).getD port := by
    rw [hhost, hport]
    unfold Url.hostPort
    split
    · rename_i n hn
      have hfits : n.value < 2 ^ 64 := u.port_lt n hn
      have hdigits : (u.host ++ ':' :: n.digits).drop (u.host.length + 1) = n.digits := by
        rw [← List.drop_drop, List.drop_left' rfl]
        rfl
      rw [find_append u.colon_notMem, hn]
      refine ⟨List.take_left' rfl, ?_⟩
      calc strtoul ((u.host ++ ':' :: n.digits).drop (u.host.length + 1))
          = min (2 ^ 64 - 1) n.value := by rw [hdigits, strtoul_of_digits n.isDigit]; rfl
        _ = n.value := by omega
    · rename_i hn
      rw [find_of_notMem u.colon_notMem, hn]
      exact ⟨List.take_length, rfl⟩
  rw [Url.written, hpath, hparts, Option.some.injEq]
  have htrue : parts.ok = true := hok.2 (hread.1 ▸ u.host_ne)
  rw [Url.parts, ← hread.1, ← hread.2, hpath, ← hpath', ← htrue]

/-- **When a URL is split.** For every text and every port set before: `GetHostPortAndPath` stays in range, and gives back
the parts of a URL built with a scheme, a host, a port or none, and a path, exactly when the text has a slash behind its
scheme or is not absolute. -/
theorem splits_iff (url : Str) (port : ℕ) :
    Splits url port ↔ ∀ scheme ∈ schemes, ∀ rest, url = scheme ++ rest → '/' ∈ rest := by
  refine ⟨fun h => ?_, fun h => ?_⟩
  · rintro scheme hscheme rest rfl
    obtain ⟨parts, hparts, -⟩ := h
    by_contra hslash
    rw [getHostPortAndPath_of_notMem hscheme hslash] at hparts
    exact absurd hparts (Option.some_ne_none _).symm
  · have hparts : ∃ parts, getHostPortAndPath url port = some parts := by
      by_cases habsolute : isAbsolute url = true
      · obtain ⟨scheme, hscheme, rest, rfl⟩ := isAbsolute_iff.1 habsolute
        obtain ⟨hostPort, path, rfl, hslash⟩ := List.eq_append_cons_of_mem (h scheme hscheme rest rfl)
        obtain ⟨parts, hparts, -⟩ := getHostPortAndPath_append hscheme hslash path port
        exact ⟨parts, hparts⟩
      · exact ⟨_, if_neg habsolute⟩
    obtain ⟨parts, hparts⟩ := hparts
    refine ⟨parts, hparts, ?_⟩
    rintro u rfl
    rw [getHostPortAndPath_written] at hparts
    exact (Option.some.inj hparts).symm

/-- **A URL without a path.** `substr` throws. -/
theorem splits_noPath : ¬ Splits "http://h".toList 80 := by
  rintro ⟨parts, hparts, -⟩
  have hnone : getHostPortAndPath "http://h".toList 80 = none := by decide
  rw [hnone] at hparts
  exact absurd hparts (Option.some_ne_none _).symm

end Parts

end NdnDash.Path
