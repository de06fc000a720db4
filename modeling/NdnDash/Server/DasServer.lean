/-
Model of the file server `NdnDasServer` (`ndn-das-server.cpp`): the size cache, the answers to the two kinds of
Interests, and the dispatch on the printed Interest name.

Files are byte strings under full paths; `long` is ℤ (a size is an `off_t`, so below 2^63), `size_t` is ℕ with its
wraps written out, the packet index is a `UInt32` as in the source. What the process does with an Interest is an
`Outcome`: a Data packet is put, nothing is put, or the process ends (a NULL `FILE*` given to `fseek`, or an allocation
length that throws out of `run`).
-/
import NdnDash.Core.Bytes
import NdnDash.Core.Slices
import NdnDash.Core.Text

namespace NdnDash.Das

open NdnDash.Text

/-! ## State -/

/-- the file system: regular files by path, each size an `off_t` -/
structure Disk where
  file : Str → Option Bytes
  size_lt : ∀ p F, file p = some F → F.length < 2 ^ 63

/-- `NdnDasServer`; every cached size is the size of the file -/
structure Server where
  contentDir : Str
  disk : Disk
  mapFileSize : List (Str × ℤ)
  cache_ok : ∀ e ∈ mapFileSize, ∃ F, disk.file e.1 = some F ∧ e.2 = F.length

/-- the file a name stands for below the content directory -/
def Server.file (s : Server) (fileName : Str) : Option Bytes := s.disk.file (s.contentDir ++ fileName)

/-- what handling an Interest comes to -/
inductive Outcome where
  | put (content : Bytes)
  | silent
  | stopped
deriving DecidableEq, Repr

/-- `PACKET_SEG_SIZE` -/
def packetSegSize : ℕ := 4 * 1024

/-- `STR_REQUEST_NUMBER_PREFIX` -/
def strRequestNumber : Str := "/ustc/ndnDash/requestNumber/".toList

/-- `STR_REQUEST_DATA_PREFIX` -/
def strRequestData : Str := "/ustc/ndnDash/requestData/".toList

/-! ## Handlers -/

/-- the server with the size of one more file cached -/
def Server.cache (s : Server) (path : Str) (F : Bytes) (h : s.disk.file path = some F) : Server where
  contentDir := s.contentDir
  disk := s.disk
  mapFileSize := (path, F.length) :: s.mapFileSize
  cache_ok := by
    intro e he
    rcases List.mem_cons.1 he with rfl | he
    · exact ⟨F, h, rfl⟩
    · exact s.cache_ok e he

/-- `GetFileSize`: the cache, else `stat`; -1 for a missing file -/
def getFileSize (s : Server) (fileName : Str) : ℤ × Server :=
  let path := s.contentDir ++ fileName
  match s.mapFileSize.lookup path with
  | some size => (size, s)
  | none =>
    match h : s.disk.file path with
    | some F => (F.length, s.cache path F h)
    | none => (-1, s)

/-- `segNumber` of `onRequestSegNumber`: the size is cast to `size_t` before the division, not before the remainder -/
def segNumber (fileSize : ℤ) : ℕ :=
  let segNumber := (fileSize % 2 ^ 64).toNat / packetSegSize
  if fileSize.tmod packetSegSize ≠ 0 then (segNumber + 1) % 2 ^ 64 else segNumber

def onRequestSegNumber (s : Server) (fileName : Str) : Outcome × Server :=
  let r := getFileSize s fileName
  (.put (leBytes 8 (segNumber r.1)), r.2)

/-- `nCount` of `onRequestSegData`: a `long` compared with, and reduced by, products that wrap in `uint32_t` -/
def nCount (fileSize : ℤ) (seqNo : UInt32) : ℤ :=
  if fileSize < ((seqNo + 1) * 4096).toNat then fileSize - (seqNo * 4096).toNat else packetSegSize

/-- `fread` of `n` bytes at `pos` into a zeroed buffer of that length -/
def fread (F : Bytes) (pos n : ℕ) : Bytes :=
  let read := (F.drop pos).take n
  read ++ List.replicate (n - read.length) 0

def onRequestSegData (s : Server) (fileName : Str) (seqNo : UInt32) : Outcome × Server :=
  let fileName := beforeLast '/' fileName
  let r := getFileSize s fileName
  if r.1 = 0 then (.silent, r.2)
  else
    match r.2.file fileName with
    | none => (.stopped, r.2) -- `fopen` gave NULL
    | some F =>
      let n := nCount r.1 seqNo
      -- as a `size_t` a negative length is at least 2^63, more than any vector holds
      if n < 0 then (.stopped, r.2) else (.put (fread F (seqNo * 4096).toNat n.toNat), r.2)

/-- the packet index `onInterest` reads from a printed name -/
def segNo (uri : Str) : UInt32 := UInt32.ofInt (atoi (afterLast '/' uri))

/-- `onInterest` on the printed name -/
def onInterest (s : Server) (uri : Str) : Outcome × Server :=
  if strRequestNumber.isPrefixOf uri then onRequestSegNumber s (uri.drop strRequestNumber.length)
  else if strRequestData.isPrefixOf uri then onRequestSegData s (uri.drop strRequestData.length) (segNo uri)
  else (.silent, s)

/-! ## What the handlers do, by the file alone -/

/-- the size the handlers work with -/
def sizeOf (s : Server) (fileName : Str) : ℤ :=
  match s.file fileName with
  | some F => F.length
  | none => -1

/-- **The cache is transparent**: the size is the file's, and the files stay. -/
theorem getFileSize_eq (s : Server) (f : Str) :
    (getFileSize s f).1 = sizeOf s f ∧ (getFileSize s f).2.file = s.file := by
  simp only [getFileSize]
  split
  · rename_i size hl
    obtain ⟨l1, l2, hm, -⟩ := List.lookup_eq_some_iff.1 hl
    obtain ⟨F, hF, hsize⟩ := s.cache_ok (s.contentDir ++ f, size) (by simp [hm])
    refine ⟨?_, rfl⟩
    simp only [sizeOf, Server.file, hF]
    exact hsize
  · split <;> rename_i hF
    · exact ⟨by simp only [sizeOf, Server.file, hF], rfl⟩
    · exact ⟨by simp only [sizeOf, Server.file, hF], rfl⟩

theorem onRequestSegData_file (s : Server) (fileName : Str) (seqNo : UInt32) :
    (onRequestSegData s fileName seqNo).2.file = s.file := by
  have h := (getFileSize_eq s (beforeLast '/' fileName)).2
  simp only [onRequestSegData]
  generalize getFileSize s (beforeLast '/' fileName) = r at h ⊢
  by_cases h0 : r.1 = 0
  · rw [if_pos h0]
    exact h
  · rw [if_neg h0]
    cases r.2.file (beforeLast '/' fileName) with
    | none => exact h
    | some F =>
      simp only
      split_ifs <;> exact h

/-- no Interest changes the files -/
theorem onInterest_file (s : Server) (uri : Str) : (onInterest s uri).2.file = s.file := by
  unfold onInterest
  split_ifs
  · exact (getFileSize_eq s _).2
  · exact onRequestSegData_file s _ _
  · rfl

end NdnDash.Das
