/-
Model of the path helpers (`Path.cpp`): joining, the directory of a path, the parts of an absolute URL, and the two ends
of a byte range. Joining is the separated join with a slash (`combinePaths_eq_join`).
-/
import NdnDash.Core.Separated
import NdnDash.Core.Text

namespace NdnDash.Path

open NdnDash.Text

/-- `CombinePaths`: one slash between the two -/
def combinePaths (path1 path2 : Str) : Str :=
  if path1 = [] then path2
  else if path2 = [] then path1
  else if path1.getLast? = some '/' ∧ path2.head? = some '/' then path1 ++ path2.drop 1
  else if path1.getLast? ≠ some '/' ∧ path2.head? ≠ some '/' then path1 ++ '/' :: path2
  else path1 ++ path2

/-- `GetDirectoryPath`: the position is narrowed to an `int`, and a negative one, as that of no slash, takes everything -/
def getDirectoryPath (path : Str) : Str :=
  let pos : ℤ := match rfind '/' path with
    | some i => toInt i
    | none => -1
  if pos < 0 then path else path.take pos.toNat

/-- the test for an absolute URL -/
def isAbsolute (url : Str) : Bool := url.take 7 == "http://".toList || url.take 8 == "https://".toList

/-- the result and the three outputs of `GetHostPortAndPath` -/
structure HostPortAndPath where
  ok : Bool
  host : Str
  port : ℕ
  path : Str
deriving DecidableEq, Repr

/-- `GetHostPortAndPath` with the port its caller has set; `none` when `substr` throws for a missing path -/
def getHostPortAndPath (url : Str) (port : ℕ) : Option HostPortAndPath :=
  if isAbsolute url then
    match find "//".toList url with
    | none => none
    | some found =>
      match find ['/'] (url.drop (found + 2)) with
      | none => none
      | some hostLength =>
        let hostPort := (url.drop (found + 2)).take hostLength
        let path := url.drop (found + 2 + hostLength)
        let host := hostPort.take ((find [':'] hostPort).getD hostPort.length)
        let port := match find [':'] hostPort with
          | some i => strtoul (hostPort.drop (i + 1))
          | none => port
        some { ok := host ≠ [] ∧ path ≠ [], host := host, port := port, path := path }
  else some { ok := false, host := [], port := port, path := [] }

/-- `GetStartAndEndBytes`; `none` when it returns false -/
def getStartAndEndBytes (byteRange : Str) : Option (ℕ × ℕ) :=
  match find ['-'] byteRange with
  | none => none
  | some found =>
    if found < byteRange.length - 1 then
      let startByte := strtoul (byteRange.take found)
      let endByte := strtoul (byteRange.drop (found + 1))
      if startByte ≤ endByte then some (startByte, endByte) else none
    else none

theorem combinePaths_eq_join : combinePaths = Separated.join '/' := by
  funext path1 path2
  cases path2 with
  | nil => simp [combinePaths]
  | cons c path2 =>
    unfold combinePaths Separated.join Separated.closed Separated.opened
    split_ifs <;> simp_all

theorem combinePaths_assoc (path1 path2 path3 : Str) :
    combinePaths (combinePaths path1 path2) path3 = combinePaths path1 (combinePaths path2 path3) := by
  rw [combinePaths_eq_join, Separated.join_assoc]

/-- a path begins like its first part -/
theorem head?_combinePaths {path1 : Str} (h : path1 ≠ []) (path2 : Str) :
    (combinePaths path1 path2).head? = path1.head? := by
  cases path1 with
  | nil => exact absurd rfl h
  | cons c path1 =>
    unfold combinePaths
    split_ifs <;> simp_all

/-- an absolute URL begins with neither a slash nor anything else but its scheme -/
theorem head?_of_isAbsolute {url : Str} (h : isAbsolute url = true) : url.head? = some 'h' := by
  cases url with
  | nil => exact absurd h (by decide)
  | cons c url =>
    simp only [isAbsolute, Bool.or_eq_true, beq_iff_eq, List.take_succ_cons] at h
    rcases h with h | h
    · exact congrArg List.head? h
    · exact congrArg List.head? h

/-- a path is continued -/
theorem exists_combinePaths (path1 path2 : Str) : ∃ rest, combinePaths path1 path2 = path1 ++ rest := by
  unfold combinePaths
  split_ifs with h1 h2
  · exact ⟨path2, by rw [h1]; rfl⟩
  · exact ⟨[], (List.append_nil _).symm⟩
  · exact ⟨_, rfl⟩
  · exact ⟨_, rfl⟩
  · exact ⟨_, rfl⟩

/-- the two ends of `first-last`, up to the clamping -/
theorem getStartAndEndBytes_digits {first last : Str} (hfirst : ∀ c ∈ first, c.isDigit = true)
    (hlast : ∀ c ∈ last, c.isDigit = true) (hne : last ≠ []) (hle : value first ≤ value last) :
    getStartAndEndBytes (first ++ '-' :: last) = some (min (2 ^ 64 - 1) (value first), min (2 ^ 64 - 1) (value last)) := by
  have hdash : '-' ∉ first := fun hm => absurd (hfirst _ hm) (by decide)
  have hlen : 0 < last.length := List.length_pos_of_ne_nil hne
  have htail : (first ++ '-' :: last).drop (first.length + 1) = last := by
    rw [List.drop_append, List.drop_of_length_le (Nat.le_succ _), Nat.add_sub_cancel_left]
    rfl
  rw [getStartAndEndBytes, find_append hdash]
  simp only
  rw [if_pos (by rw [List.length_append, List.length_cons]; omega), List.take_left' rfl, htail,
    strtoul_of_digits hfirst, strtoul_of_digits hlast, if_pos (by omega)]

/-- a range without an end is refused -/
theorem getStartAndEndBytes_open {first : Str} (hfirst : '-' ∉ first) : getStartAndEndBytes (first ++ ['-']) = none := by
  rw [getStartAndEndBytes, find_append hfirst]
  simp

@[simp] theorem combinePaths_nil_left (path : Str) : combinePaths [] path = path := by simp [combinePaths]

@[simp] theorem combinePaths_nil_right (path : Str) : combinePaths path [] = path := by
  by_cases h : path = [] <;> simp [combinePaths, h]

end NdnDash.Path
