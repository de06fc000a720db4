/-
Byte ranges on the three download paths: `HTTPConnection::PrepareRequest`, the `CURLOPT_RANGE` option of
`AbstractChunk::StartDownload`, and `NDNConnection`, which transports whole files and never looks at the range.

- `requested`: the bytes of a file that a byte range specification asks for, both ends included.
- `hasRange_init`: a segment made from `first-last` has the range that its string denotes.
- `requested_http`, `requested_curl`: both HTTP paths ask for the bytes from the start byte to the end byte;
  `rangeOf_prepareRequest`: that is what a receiver of the request reads.
- `downloaded_whole`, `preDownload_large`: NDN receives the whole file, or overruns its buffer when that is too large.
- `ndn_range_iff`: NDN delivers what the HTTP paths ask for exactly when the range is the whole of a file that fits.
- `last_two_not_delivered`: asked for the last two bytes of a three-byte file, NDN does not deliver these.
-/
import NdnDash.Mpd.Segment
import NdnDash.Ndn.Loss

namespace NdnDash.Ndn

open NdnDash.Text NdnDash.Path NdnDash.Slices NdnDash.Das NdnDash.Mpd

/-! ## What is asked for over HTTP -/

/-- the value of the `Range` header of `HTTPConnection::PrepareRequest`, after `bytes=` -/
def headerRange (seg : Segment) : Option Str :=
  if seg.hasByteRange then some (decimal seg.startByte ++ '-' :: decimal seg.endByte) else none

/-- `HTTPConnection::PrepareRequest` -/
def prepareRequest (seg : Segment) : Str :=
  "GET ".toList ++ seg.path ++ " HTTP/1.1\r\n".toList ++ "Host: ".toList ++ seg.host ++ "\r\n".toList ++
    (match headerRange seg with
      | some range => "Range: bytes=".toList ++ range ++ "\r\n".toList
      | none => []) ++ "Connection: close\r\n\r\n".toList

/-- the `CURLOPT_RANGE` option set by `AbstractChunk::StartDownload` -/
def curlRange (seg : Segment) : Option Str := if seg.hasByteRange then some seg.range else none

/-- a byte range specification `first-last`, as HTTP reads it -/
def byteRangeSpec (spec : Str) : Option (ℕ × ℕ) :=
  match spec.dropWhile Char.isDigit with
  | '-' :: last =>
    if spec.takeWhile Char.isDigit ≠ [] ∧ last ≠ [] ∧ last.all Char.isDigit then
      some (value (spec.takeWhile Char.isDigit), value last)
    else none
  | _ => none

/-- the bytes from `a` to `b`, both included -/
def bytesOf (F : Bytes) (a b : ℕ) : Bytes := (F.drop a).take (b + 1 - a)

/-- the bytes of the file that a request with this range asks for -/
def requested (range : Option Str) (F : Bytes) : Option Bytes :=
  match range with
  | some spec => (byteRangeSpec spec).map fun r => bytesOf F r.1 r.2
  | none => some F

/-- a chunk with the byte range from `a` to `b` -/
structure HasRange (seg : Segment) (a b : ℕ) : Prop where
  hasByteRange : seg.hasByteRange = true
  startByte : seg.startByte = a
  endByte : seg.endByte = b
  range : byteRangeSpec seg.range = some (a, b)

theorem byteRangeSpec_digits {first last : Str} (hfirst : ∀ c ∈ first, c.isDigit = true) (hne : first ≠ [])
    (hlast : ∀ c ∈ last, c.isDigit = true) (hne' : last ≠ []) :
    byteRangeSpec (first ++ '-' :: last) = some (value first, value last) := by
  have hdash : ¬ ('-' : Char).isDigit = true := by decide
  have hdrop : (first ++ '-' :: last).dropWhile Char.isDigit = '-' :: last := by
    rw [List.dropWhile_append_of_pos hfirst, List.dropWhile_cons_of_neg hdash]
  have htake : (first ++ '-' :: last).takeWhile Char.isDigit = first := by
    rw [List.takeWhile_append_of_pos hfirst, List.takeWhile_cons_of_neg hdash, List.append_nil]
  rw [byteRangeSpec, hdrop]
  simp only [htake]
  rw [if_pos ⟨hne, hne', List.all_eq_true.2 hlast⟩]

/-- **A segment with a range.** What `Init` makes of the string `first-last` is what HTTP reads in it. -/
theorem hasRange_init {baseurls : List BaseUrl} {uri first last : Str} {type : HTTPTransactionType} {seg : Segment}
    (hfirst : ∀ c ∈ first, c.isDigit = true) (hne : first ≠ []) (hlast : ∀ c ∈ last, c.isDigit = true)
    (hne' : last ≠ []) (hle : value first ≤ value last) (hsmall : value last < 2 ^ 64)
    (h : Segment.init baseurls uri (first ++ '-' :: last) type = some (some seg)) :
    HasRange seg (value first) (value last) := by
  have hends : getStartAndEndBytes (first ++ '-' :: last) = some (value first, value last) := by
    rw [getStartAndEndBytes_digits hfirst hlast hne' hle, min_eq_right (by omega), min_eq_right (by omega)]
  have hrange : first ++ '-' :: last ≠ [] := by simp
  by_cases huri : uri = []
  · rw [Segment.init, if_pos huri] at h
    exact absurd h (by simp)
  · rw [Segment.init, if_neg huri, Option.map_eq_some_iff] at h
    obtain ⟨parts, -, h⟩ := h
    by_cases hok : parts.ok = true
    · rw [if_pos hok, if_neg hrange, hends] at h
      rw [← Option.some.inj h]
      exact ⟨rfl, rfl, rfl, byteRangeSpec_digits hfirst hne hlast hne'⟩
    · rw [if_neg hok] at h
      exact absurd h (by simp)

variable {seg : Segment} {a b : ℕ}

theorem requested_http (h : HasRange seg a b) (F : Bytes) : requested (headerRange seg) F = some (bytesOf F a b) := by
  have hdigits : ∀ n, ∀ c ∈ decimal n, c.isDigit = true := fun _ _ hc => isDigit_of_mem_decimal hc
  rw [headerRange, if_pos h.hasByteRange, h.startByte, h.endByte]
  simp only [requested, byteRangeSpec_digits (hdigits a) (decimal_ne_nil a) (hdigits b) (decimal_ne_nil b),
    value_decimal, Option.map_some]

theorem requested_curl (h : HasRange seg a b) (F : Bytes) : requested (curlRange seg) F = some (bytesOf F a b) := by
  rw [curlRange, if_pos h.hasByteRange]
  simp only [requested, h.range, Option.map_some]

/-- the specification in a line of a request -/
def rangeLine (line : Str) : Option Str :=
  if "Range: bytes=".toList <+: line then some ((line.drop 13).takeWhile (· ≠ '\r')) else none

/-- the specification that the receiver of a request reads, in the first of its lines that has one -/
def rangeOf (request : Str) : Option Str := (request.splitOn '\n').findSome? rangeLine

/-- the lines of the request of a chunk -/
def requestLines (seg : Segment) : List Str :=
  ("GET ".toList ++ seg.path ++ " HTTP/1.1\r".toList) :: ("Host: ".toList ++ seg.host ++ "\r".toList) ::
    (((headerRange seg).map fun range => "Range: bytes=".toList ++ (range ++ "\r".toList)).toList ++
      ["Connection: close\r".toList, "\r".toList, []])

theorem prepareRequest_eq (seg : Segment) : prepareRequest seg = ['\n'].intercalate (requestLines seg) := by
  unfold prepareRequest requestLines
  cases headerRange seg with
  | none => simp [List.intercalate_cons_cons]
  | some range => simp [List.intercalate_cons_cons]

theorem mem_headerRange {range : Str} (h : headerRange seg = some range) {c : Char} (hc : c ∈ range) :
    c = '-' ∨ c.isDigit = true := by
  simp only [headerRange, Option.ite_none_right_eq_some, Option.some.injEq] at h
  rw [← h.2, List.mem_append, List.mem_cons] at hc
  rcases hc with h | h | h
  · exact Or.inr (isDigit_of_mem_decimal h)
  · exact Or.inl h
  · exact Or.inr (isDigit_of_mem_decimal h)

theorem notMem_requestLines (hpath : '\n' ∉ seg.path) (hhost : '\n' ∉ seg.host) :
    ∀ line ∈ requestLines seg, '\n' ∉ line := by
  unfold requestLines
  cases hr : headerRange seg with
  | none => simp [hpath, hhost]
  | some range =>
    have hrange : '\n' ∉ range := fun hmem => absurd (mem_headerRange hr hmem) (by decide)
    simp [hpath, hhost, hrange]

theorem rangeLine_cons {c : Char} (hc : c ≠ 'R') (line : Str) : rangeLine (c :: line) = none := by
  rw [rangeLine, if_neg]
  intro hbegin
  exact hc (List.cons_prefix_cons.1 hbegin).1.symm

theorem rangeLine_headerRange {range : Str} (h : headerRange seg = some range) :
    rangeLine ("Range: bytes=".toList ++ (range ++ "\r".toList)) = some range := by
  have hcr : ∀ c ∈ range, decide (c ≠ '\r') = true := by
    intro c hc
    rw [decide_eq_true_iff]
    rintro rfl
    exact absurd (mem_headerRange h hc) (by decide)
  have hdrop : ("Range: bytes=".toList ++ (range ++ "\r".toList)).drop 13 = range ++ "\r".toList := rfl
  rw [rangeLine, if_pos (List.prefix_append _ _), hdrop, List.takeWhile_append_of_pos hcr]
  exact congrArg some (List.append_nil range)

/-- **The request.** What its receiver reads is the range of the chunk, when its path and its host are of one line. -/
theorem rangeOf_prepareRequest (hpath : '\n' ∉ seg.path) (hhost : '\n' ∉ seg.host) :
    rangeOf (prepareRequest seg) = headerRange seg := by
  have hget : rangeLine ("GET ".toList ++ seg.path ++ " HTTP/1.1\r".toList) = none :=
    rangeLine_cons (by decide) _
  have hhostLine : rangeLine ("Host: ".toList ++ seg.host ++ "\r".toList) = none :=
    rangeLine_cons (by decide) _
  rw [rangeOf, prepareRequest_eq,
    List.splitOn_intercalate _ (notMem_requestLines hpath hhost) (List.cons_ne_nil _ _), requestLines]
  simp only [List.findSome?_cons, hget, hhostLine]
  cases hr : headerRange seg with
  | none => rfl
  | some range =>
    simp only [Option.map_some, Option.toList_some, List.cons_append, List.findSome?_cons, rangeLine_headerRange hr]

/-- a range is the whole file only from the first byte to the last -/
theorem bytesOf_eq_self_iff {F : Bytes} (hab : a ≤ b) (hb : b < F.length) :
    bytesOf F a b = F ↔ a = 0 ∧ b + 1 = F.length := by
  constructor
  · intro h
    have hlen := congrArg List.length h
    rw [bytesOf, List.length_take, List.length_drop] at hlen
    omega
  · intro h
    rw [bytesOf, h.1, List.drop_zero, Nat.sub_zero, h.2, List.take_length]

/-! ## What NDN delivers -/

variable {srv : Server} {name : Str} {F : Bytes}

/-- the first 2^20 packets of any file come as they are -/
theorem serve_low (hF : srv.file name = some F) {i : ℕ} (hi : i < packets packetSegSize F.length)
    (hlow : i + 1 < 2 ^ 20) : (serve srv (.data name i)).1 = some (slice packetSegSize i F) :=
  serve_of_put (put_of_safe (packetRequest_segName name i) hF ((lt_packets (by decide)).1 hi) (Or.inl hlow)).1

/-- once the loop has failed it does not go on -/
theorem requestLoop_none {ε : Type} {ask : ε → Request → Option Bytes × ε} {s : Consumer × ε} {k : ℕ}
    (h : requestLoop ask name k s = none) {n : ℕ} (hkn : k ≤ n) : requestLoop ask name n s = none := by
  induction n, hkn using Nat.le_induction with
  | base => exact h
  | succ n _ ih => rw [requestLoop, ih]; rfl

/-- a file that does not fit overruns the client's buffer -/
theorem preDownload_large {absoluteURI : Str} (huri : chunkName absoluteURI = some name)
    (hF : srv.file name = some F) (hlarge : segBufferSize < F.length) (c : Consumer) :
    preDownload serve absoluteURI (c, srv) = none := by
  obtain ⟨s₀, hnumber, hfill, hfile, hsegs⟩ := getRequestNumber_lossy hF (fun _ => .answered) c
  rw [lossy_answered] at hnumber
  rw [announced, if_pos rfl] at hsegs
  -- 1025 packets are already too many
  have hpackets : 1025 ≤ packets packetSegSize F.length := by
    have hlt : 1024 < packets packetSegSize F.length :=
      (lt_packets (by decide)).2 (hlarge.trans_le' (by decide))
    exact hlt
  have hreply : Replies serve (fun srv => srv.file name = some F) name (reply (fun _ => .answered) name F) 1025 := by
    intro i hi e he
    refine ⟨?_, (congrFun (serve_file e _) name).trans he⟩
    rw [reply, if_pos rfl]
    exact serve_low he (hi.trans_le hpackets) (by omega)
  have hover : segBufferSize < (received (reply (fun _ => .answered) name F) 1025).length := by
    rw [received_answered _ name F fun _ _ => rfl, List.length_take]
    exact lt_min (by decide) hlarge
  have hnone : requestLoop serve name 1025 s₀ = none := by
    rcases requestLoop_spec hreply hfill hfile with ⟨hnone, -⟩ | ⟨s, -, hfill', -⟩
    · exact hnone
    · exact absurd hfill'.fits (not_le.2 hover)
  simp only [preDownload, huri, Option.bind_some, hnumber, hsegs]
  exact requestLoop_none hnone hpackets

/-- a file that fits is received as a whole -/
theorem downloaded_whole {absoluteURI : Str} (huri : chunkName absoluteURI = some name)
    (hF : srv.file name = some F) (hlen : F.length ≤ segBufferSize) (c : Consumer) :
    ∃ s, preDownload serve absoluteURI (c, srv) = some s ∧ Filled s.1 F := by
  obtain ⟨s, hs, hfill⟩ := preDownload_lossy huri hF hlen (fun _ => .answered) c
  rw [announced, if_pos rfl, (received_eq_iff _ name F).2 fun _ _ => rfl] at hfill
  exact ⟨s, hs, hfill⟩

/-- `PreDownload` and then reads of any positive lengths until 0 deliver what the two HTTP paths ask for -/
def DeliversRequested (srv : Server) (seg : Segment) (c : Consumer) (F : Bytes) : Prop :=
  ∃ s, preDownload serve seg.absoluteuri (c, srv) = some s ∧
    ∀ lens : ℕ → ℕ, (∀ n, 0 < lens n) → ∃ outs, Drain.Until Consumer.readBlock s.1 lens outs ∧
      requested (headerRange seg) F = some outs.flatten ∧ requested (curlRange seg) F = some outs.flatten

/-- reads return what is in the buffer -/
theorem reads_filled {c : Consumer} (h : Filled c F) {lens : ℕ → ℕ} (hlens : ∀ n, 0 < lens n) :
    ∃ outs, Drain.Until Consumer.readBlock c lens outs ∧ outs.flatten = F := by
  obtain ⟨outs, hu, hflat⟩ :=
    Drain.until_of_handsOut Consumer.readBlock Consumer.readBlock_handsOut ⟨h.cursorOk, hlens⟩
  exact ⟨outs, hu, hflat.trans h.pending⟩

/-- a file that fits: NDN delivers what is asked for exactly when that is the whole file -/
theorem deliversRequested_iff_whole (huri : chunkName seg.absoluteuri = some name) (hF : srv.file name = some F)
    (hseg : HasRange seg a b) (hlen : F.length ≤ segBufferSize) (c : Consumer) :
    DeliversRequested srv seg c F ↔ bytesOf F a b = F := by
  obtain ⟨s, hs, hfill⟩ := downloaded_whole huri hF hlen c
  constructor
  · intro h
    obtain ⟨s', hs', hreads⟩ := h
    rw [hs, Option.some.injEq] at hs'
    subst hs'
    have hone : ∀ n : ℕ, 0 < (fun _ => 1 : ℕ → ℕ) n := fun _ => Nat.one_pos
    obtain ⟨outs, hu, hhttp, -⟩ := hreads _ hone
    obtain ⟨outs', hu', hflat⟩ := reads_filled hfill hone
    rw [requested_http hseg, Option.some.injEq, hu.unique _ hu', hflat] at hhttp
    exact hhttp
  · intro h
    refine ⟨s, hs, fun lens hlens => ?_⟩
    obtain ⟨outs, hu, hflat⟩ := reads_filled hfill hlens
    exact ⟨outs, hu, by rw [requested_http hseg, h, hflat], by rw [requested_curl hseg, h, hflat]⟩

/-- **Ranges over NDN.** With nothing lost, NDN delivers the bytes that both HTTP paths ask for exactly when the range is
the whole file and the file fits into the client's buffer. -/
theorem ndn_range_iff (huri : chunkName seg.absoluteuri = some name) (hF : srv.file name = some F)
    (hseg : HasRange seg a b) (hab : a ≤ b) (hb : b < F.length) (c : Consumer) :
    DeliversRequested srv seg c F ↔ F.length ≤ segBufferSize ∧ a = 0 ∧ b + 1 = F.length := by
  constructor
  · intro h
    have hlen : F.length ≤ segBufferSize := by
      by_contra hlarge
      obtain ⟨s, hs, -⟩ := h
      rw [preDownload_large huri hF (not_le.1 hlarge) c] at hs
      cases hs
    exact ⟨hlen, (bytesOf_eq_self_iff hab hb).1 ((deliversRequested_iff_whole huri hF hseg hlen c).1 h)⟩
  · intro h
    obtain ⟨hlen, hwhole⟩ := h
    exact (deliversRequested_iff_whole huri hF hseg hlen c).2 ((bytesOf_eq_self_iff hab hb).2 hwhole)

/-- the last two bytes of the three-byte file -/
def lastTwo : Segment where
  absoluteuri := "http://h/BigBuckBunny/a".toList
  host := ['h']
  port := 80
  path := "/BigBuckBunny/a".toList
  range := "1-2".toList
  startByte := 1
  endByte := 2
  hasByteRange := true
  type := .mediaSegment

example : Segment.init [] lastTwo.absoluteuri "1-2".toList .mediaSegment = some (some lastTwo) := by decide

def allThree : Segment := { lastTwo with range := "0-2".toList, startByte := 0 }

/-- asked for all three bytes, NDN delivers them -/
theorem ndn_range_all_three : DeliversRequested smallServer allThree freshConsumer [1, 2, 3] := by
  have hname : chunkName allThree.absoluteuri = some ['a'] := by decide
  have hrange : HasRange allThree 0 2 := ⟨rfl, rfl, rfl, by decide⟩
  have hfile : smallServer.file ['a'] = some [1, 2, 3] := by decide
  exact (ndn_range_iff hname hfile hrange (by decide) (by decide) freshConsumer).2 ⟨by decide, rfl, rfl⟩

/-- asked for two bytes, NDN does not deliver these two -/
theorem last_two_not_delivered : ¬ DeliversRequested smallServer lastTwo freshConsumer [1, 2, 3] := by
  have hname : chunkName lastTwo.absoluteuri = some ['a'] := by decide
  have hrange : HasRange lastTwo 1 2 := ⟨rfl, rfl, rfl, by decide⟩
  intro h
  have hall := (deliversRequested_iff_whole hname (by decide) hrange (by decide) freshConsumer).1 h
  exact absurd hall (by decide)

end NdnDash.Ndn
