/-
Model of the persistent HTTP connection of the network test (`PersistentHTTPConnection.cpp`, `HTTPConnection.cpp`,
`HTTPChunk.cpp`) in its `Peek` and `Read` for the front chunk.

The socket is the list of bytes it has still to yield. Each `recv` is given the number of bytes that have arrived by then;
it yields no more than that, and no more than it is asked for, but at least one byte until the list ends. A result `none` is
a call that does not return, or `front()` of an empty queue. Critical sections are re-entrant on Windows; a `pthread` mutex,
as it is set up here, is not.

- `Response.parseHeader_written`: a header of any lines is read up to its end, with the length that its lines give.
- `Readable`: the lengths that are read are those of the bodies; `readLength_usual` is the usual spelling.
- `Standing.read`: where a connection stands between readable responses, and what a Read returns there.
- `PersistentHTTPConnection.peek_outside`, `peek_within`, `peek_deadlock`: what a Peek does.
-/
import NdnDash.Core.Bytes
import NdnDash.Core.Text

namespace NdnDash.Http

open NdnDash.Text

/-! ## Model -/

structure HTTPChunk where
  contentLength : UInt64
  isHeaderParsed : Bool
  bytesLeft : UInt64
  bytesRead : UInt64
deriving DecidableEq, Repr

namespace HTTPChunk

/-- the constructor -/
def new : HTTPChunk := ⟨0, false, 0, 0⟩

/-- `ContentLength` -/
def setContentLength (c : HTTPChunk) (length : UInt64) : HTTPChunk :=
  { c with contentLength := length, bytesLeft := length }

/-- `AddBytesRead` -/
def addBytesRead (c : HTTPChunk) (bytes : UInt64) : HTTPChunk :=
  { c with bytesRead := c.bytesRead + bytes, bytesLeft := c.bytesLeft - bytes }

end HTTPChunk

/-- the text of a `std::string` -/
def text (bytes : Bytes) : Str := bytes.map fun b => Char.ofNat b.toNat

/-- the bytes of a text -/
def bytes (s : Str) : Bytes := s.map fun c => UInt8.ofNat c.toNat

/-- an `HTTPConnection`; the peek buffer up to `peekBufferLen`, and `contentLength` an `int` -/
structure HTTPConnection where
  stream : Bytes
  peekBuffer : Bytes
  contentLength : ℤ
deriving DecidableEq, Repr

namespace HTTPConnection

def recv (len arrived : ℕ) (c : HTTPConnection) : Bytes × HTTPConnection :=
  let size := min len (max 1 arrived)
  (c.stream.take size, { c with stream := c.stream.drop size })

/-- the loop of `ReadLine`, `ss` being read -/
def readLineFrom (ss : Bytes) : Bytes → Bytes × Bytes
  | [] => ([], [])
  | c :: stream => if c = 10 then (ss ++ [c], stream) else readLineFrom (ss ++ [c]) stream

/-- `ReadLine`; empty at the end of the stream -/
def readLine (c : HTTPConnection) : Bytes × HTTPConnection :=
  let r := readLineFrom [] c.stream
  (r.1, { c with stream := r.2 })

/-- what `ParseHeader` takes from a line -/
def checkLine (c : HTTPConnection) (line : Bytes) : HTTPConnection :=
  if line.take 14 = bytes "Content-Length".toList then { c with contentLength := atoi (text (line.drop 15)) } else c

/-- the loop of `ParseHeader`, beginning where it reads a line; `fuel` bounds the number of lines -/
def parseLines : ℕ → HTTPConnection → Bool × HTTPConnection
  | 0, c => (false, c)
  | fuel + 1, c =>
    let r := c.readLine
    if r.1 = [] then (false, r.2)
    else if r.1 = bytes "\r\n".toList then (true, r.2)
    else parseLines fuel (r.2.checkLine r.1)

/-- `ParseHeader` -/
def parseHeader (c : HTTPConnection) : Bool × HTTPConnection := parseLines (c.stream.length + 1) c

/-- `HTTPConnection::Read`; what the peek buffer holds is written, whatever the length -/
def read (len arrived : ℕ) (c : HTTPConnection) : Bytes × HTTPConnection :=
  if c.peekBuffer = [] then c.recv len arrived else (c.peekBuffer, { c with peekBuffer := [] })

end HTTPConnection

structure PersistentHTTPConnection extends HTTPConnection where
  chunkQueue : List HTTPChunk
deriving DecidableEq, Repr

namespace PersistentHTTPConnection

/-- the header of the front chunk is parsed when it is needed -/
def checkHeader (front : HTTPChunk) (c : PersistentHTTPConnection) : HTTPChunk × PersistentHTTPConnection :=
  if front.isHeaderParsed = false then
    let http := c.toHTTPConnection.parseHeader.2
    ({ front with isHeaderParsed := true }.setContentLength (UInt64.ofInt http.contentLength),
      { c with toHTTPConnection := http })
  else (front, c)

/-- `Read`: what it writes, the number of which it returns -/
def read (len arrived : ℕ) (c : PersistentHTTPConnection) : Option (Bytes × PersistentHTTPConnection) :=
  match c.chunkQueue with
  | [] => none
  | front :: queue =>
    let r := c.checkHeader front
    if r.1.bytesLeft = 0 then some ([], { r.2 with chunkQueue := queue })
    else
      let len := if len > r.1.bytesLeft.toNat then r.1.bytesLeft.toNat else len
      let ret := r.2.toHTTPConnection.read len arrived
      let front := if ret.1.length > 0 then r.1.addBytesRead (UInt64.ofNat ret.1.length) else r.1
      some (ret.1, { toHTTPConnection := ret.2, chunkQueue := front :: queue })

/-- `PEEKBUFFER` -/
def peekbuffer : ℕ := 4096

/-- `HTTPConnection::Peek`, which fills its buffer by the overridden `Read`; this enters the critical section again -/
def basePeek (reentrant : Bool) (len arrived : ℕ) (c : PersistentHTTPConnection) :
    Option (Bytes × PersistentHTTPConnection) :=
  if c.peekBuffer = [] then
    if reentrant = true then
      (c.read peekbuffer arrived).map fun r => (r.1.take len, { r.2 with peekBuffer := r.1 })
    else none
  else some (c.peekBuffer.take len, c)

/-- `Peek`, with what it writes -/
def peek (reentrant : Bool) (len arrived : ℕ) (c : PersistentHTTPConnection) :
    Option (Bytes × PersistentHTTPConnection) :=
  match c.chunkQueue with
  | [] => none
  | front :: queue =>
    if front.bytesLeft = 0 then some ([], c)
    else
      let r := c.checkHeader front
      let len := if len > r.1.bytesLeft.toNat then r.1.bytesLeft.toNat else len
      basePeek reentrant len arrived { r.2 with chunkQueue := r.1 :: queue }

end PersistentHTTPConnection

/-! ## Responses -/

/-- the end of a line -/
def crlf : Bytes := bytes "\r\n".toList

/-- a response: the lines of its header without their ends, and a body -/
structure Response where
  lines : List Bytes
  body : Bytes
  isLine : ∀ line ∈ lines, line ≠ [] ∧ 10 ∉ line

/-- what `contentLength` is after a line -/
def takeLength (length : ℤ) (line : Bytes) : ℤ :=
  if line.take 14 = bytes "Content-Length".toList then atoi (text (line.drop 15)) else length

namespace Response

def header (r : Response) : Bytes := (r.lines.map (· ++ crlf)).flatten ++ crlf

def written (r : Response) : Bytes := r.header ++ r.body

/-- what `contentLength` is after the header, where it was `length` before -/
def readLength (length : ℤ) (r : Response) : ℤ := r.lines.foldl (fun length line => takeLength length (line ++ crlf)) length

/-- the length of the chunk, a `uint64_t` -/
def size (length : ℤ) (r : Response) : ℕ := (UInt64.ofInt (r.readLength length)).toNat

end Response

/-- each length that is read is that of the body -/
def Readable : ℤ → List Response → Prop
  | _, [] => True
  | length, r :: todo => r.size length = r.body.length ∧ Readable (r.readLength length) todo

instance instDecidableReadable : ∀ length todo, Decidable (Readable length todo)
  | _, [] => .isTrue trivial
  | length, r :: todo =>
    have := instDecidableReadable (r.readLength length) todo
    inferInstanceAs (Decidable (r.size length = r.body.length ∧ Readable (r.readLength length) todo))

/-- the same, but for the last response, of which more is read -/
def LastLong : ℤ → List Response → Prop
  | _, [] => False
  | length, [r] => r.body.length < r.size length
  | length, r :: todo => r.size length = r.body.length ∧ LastLong (r.readLength length) todo

/-! ### Lines -/

namespace HTTPConnection

variable {c : HTTPConnection} {line more : Bytes}

theorem readLineFrom_append (ss : Bytes) (h : 10 ∉ line) (more : Bytes) :
    readLineFrom ss (line ++ 10 :: more) = (ss ++ line ++ [10], more) := by
  induction line generalizing ss with
  | nil => simp [readLineFrom]
  | cons b line ih =>
    obtain ⟨hb, hline⟩ := not_or.1 (List.mem_cons.not.1 h)
    rw [List.cons_append, readLineFrom, if_neg (Ne.symm hb), ih _ hline]
    simp

theorem readLine_append (h : 10 ∉ line) (hstream : c.stream = line ++ (crlf ++ more)) :
    c.readLine = (line ++ crlf, { c with stream := more }) := by
  have hcrlf : crlf = [13] ++ [10] := rfl
  have hcut : line ++ (crlf ++ more) = (line ++ [13]) ++ 10 :: more := by simp [hcrlf]
  have hnew : 10 ∉ line ++ [13] := by simp [h]
  rw [readLine, hstream, hcut, readLineFrom_append [] hnew]
  simp [hcrlf]

theorem length_readLineFrom (ss stream : Bytes) (h : (readLineFrom ss stream).1 ≠ []) :
    (readLineFrom ss stream).2.length < stream.length := by
  induction stream generalizing ss with
  | nil => exact absurd rfl h
  | cons b stream ih =>
    rw [readLineFrom] at h ⊢
    split_ifs at h ⊢
    · exact Nat.lt_succ_self _
    · exact (ih _ h).trans (Nat.lt_succ_self _)

theorem checkLine_eq (c : HTTPConnection) (line : Bytes) :
    c.checkLine line = { c with contentLength := takeLength c.contentLength line } := by
  unfold checkLine takeLength
  split_ifs <;> rfl

@[simp] theorem stream_checkLine (c : HTTPConnection) (line : Bytes) : (c.checkLine line).stream = c.stream := by
  unfold checkLine
  split_ifs <;> rfl

theorem parseLines_succ (fuel : ℕ) (c : HTTPConnection) : parseLines (fuel + 1) c =
    if c.readLine.1 = [] then (false, c.readLine.2)
    else if c.readLine.1 = crlf then (true, c.readLine.2)
    else parseLines fuel (c.readLine.2.checkLine c.readLine.1) := rfl

/-- **The loop ends.** With as many turns as there are bytes, and one more, the bound is not reached. -/
theorem parseLines_fuel (c : HTTPConnection) {fuel : ℕ} (h : c.stream.length < fuel) :
    parseLines fuel c = c.parseHeader := by
  have hmore : ∀ (fuel : ℕ) (c : HTTPConnection), c.stream.length < fuel → parseLines (fuel + 1) c = parseLines fuel c := by
    intro fuel
    induction fuel with
    | zero => exact fun c h => absurd h (Nat.not_lt_zero _)
    | succ fuel ih =>
      intro c h
      rw [parseLines_succ (fuel + 1) c, parseLines_succ fuel c]
      by_cases hline : c.readLine.1 = []
      · rw [if_pos hline, if_pos hline]
      · have hlt : (c.readLine.2.checkLine c.readLine.1).stream.length < fuel := by
          have hread := length_readLineFrom [] c.stream hline
          rw [stream_checkLine]
          change (readLineFrom [] c.stream).2.length < fuel
          omega
        rw [ih _ hlt]
  induction fuel, h using Nat.le_induction with
  | base => rfl
  | succ fuel h ih => rw [hmore fuel c h, ih]

/-- a line that is not the last -/
theorem parseLines_line (hne : line ≠ []) (hline : 10 ∉ line) (hstream : c.stream = line ++ (crlf ++ more)) (fuel : ℕ) :
    parseLines (fuel + 1) c = parseLines fuel ({ c with stream := more }.checkLine (line ++ crlf)) := by
  have hnil : line ++ crlf ≠ [] := by simp [hne]
  have hlast : line ++ crlf ≠ crlf := by simp [hne]
  rw [parseLines_succ, readLine_append hline hstream, if_neg hnil, if_neg hlast]

theorem parseLines_last (hstream : c.stream = crlf ++ more) (fuel : ℕ) :
    parseLines (fuel + 1) c = (true, { c with stream := more }) := by
  have hempty : (10 : UInt8) ∉ [] := List.not_mem_nil
  have hnil : crlf ≠ [] := by decide
  rw [parseLines_succ, readLine_append hempty hstream, List.nil_append, if_neg hnil, if_pos rfl]

end HTTPConnection

theorem bytes_append (s t : Str) : bytes (s ++ t) = bytes s ++ bytes t := List.map_append

/-- a text of one byte for each character is read as it was written -/
theorem text_bytes {s : Str} (h : ∀ c ∈ s, c.toNat < 256) : text (bytes s) = s := by
  have hchar : ∀ c ∈ s, Char.ofNat (UInt8.ofNat c.toNat).toNat = id c := by
    intro c hc
    rw [UInt8.toNat_ofNat', Nat.mod_eq_of_lt (h c hc), Char.ofNat_toNat]
    rfl
  rw [text, bytes, List.map_map]
  exact (List.map_congr_left hchar).trans (List.map_id s)

/-! ### Headers -/

/-- a character of one byte that does not end a line -/
def Plain (c : Char) : Prop := c.toNat < 256 ∧ c.toNat ≠ 10

theorem plain_of_isDigit {c : Char} (h : c.isDigit = true) : Plain c := by
  simp only [Char.isDigit, Bool.and_eq_true, decide_eq_true_eq, ge_iff_le, UInt32.le_iff_toNat_le] at h
  change 48 ≤ c.toNat ∧ c.toNat ≤ 57 at h
  exact ⟨by omega, by omega⟩

theorem newline_notMem_bytes {s : Str} (h : ∀ c ∈ s, Plain c) : 10 ∉ bytes s := by
  intro hmem
  obtain ⟨c, hc, hbyte⟩ := List.mem_map.1 hmem
  have hcode := congrArg UInt8.toNat hbyte
  rw [UInt8.toNat_ofNat', Nat.mod_eq_of_lt (h c hc).1] at hcode
  exact (h c hc).2 hcode

theorem takeLength_other {line : Bytes} (hother : ¬ bytes "Content-Length".toList <+: line) (length : ℤ) :
    takeLength length (line ++ crlf) = length := by
  refine if_neg fun htake => hother ?_
  have hbegin : bytes "Content-Length".toList <+: line ++ crlf := htake ▸ List.take_prefix 14 _
  by_cases hlen : (bytes "Content-Length".toList).length ≤ line.length
  · exact List.prefix_of_prefix_length_le hbegin (List.prefix_append _ _) hlen
  · -- the end of the line would be one of the fourteen characters
    have hcrlf : line ++ crlf = (line ++ [13]) ++ [10] := by
      rw [List.append_assoc]
      rfl
    have hshort : line ++ [13] <+: bytes "Content-Length".toList := by
      refine List.prefix_of_prefix_length_le (hcrlf ▸ List.prefix_append _ _) hbegin ?_
      rw [List.length_append, List.length_singleton]
      omega
    have hmem : (13 : UInt8) ∈ bytes "Content-Length".toList := hshort.subset (by simp)
    exact absurd hmem (by decide)

/-- the line with a length, as it is usually spelled -/
def lengthLine (n : Numeral) : Bytes := bytes ("Content-Length: ".toList ++ n.digits)

theorem isLine_lengthLine (n : Numeral) : lengthLine n ≠ [] ∧ 10 ∉ lengthLine n := by
  have hname : ∀ c ∈ "Content-Length: ".toList, Plain c := by simp [Plain]
  refine ⟨List.cons_ne_nil _ _, newline_notMem_bytes fun c hc => ?_⟩
  rcases List.mem_append.1 hc with hc | hc
  · exact hname c hc
  · exact plain_of_isDigit (n.isDigit c hc)

theorem takeLength_lengthLine {n : Numeral} (hn : n.value < 2 ^ 31) (length : ℤ) :
    takeLength length (lengthLine n ++ crlf) = n.value := by
  have hname : (lengthLine n ++ crlf).take 14 = bytes "Content-Length".toList := rfl
  have hdrop : (lengthLine n ++ crlf).drop 15 = bytes ([' '] ++ (n.digits ++ "\r\n".toList)) := by
    rw [lengthLine, crlf, ← bytes_append]
    rfl
  have hcodes : ∀ c ∈ [' '] ++ (n.digits ++ "\r\n".toList), c.toNat < 256 := by
    intro c hc
    have hends : ∀ c ∈ [' '] ++ "\r\n".toList, c.toNat < 256 := by simp
    rcases List.mem_append.1 hc with hc | hc
    · exact hends c (List.mem_append_left _ hc)
    · rcases List.mem_append.1 hc with hc | hc
      · exact (plain_of_isDigit (n.isDigit c hc)).1
      · exact hends c (List.mem_append_right _ hc)
  have hblank : ∀ c ∈ [' '], Text.isSpace c = true := by simp [Text.isSpace]
  have hend : ∀ c ∈ "\r\n".toList.head?, c.isDigit = false := by simp
  rw [takeLength, if_pos hname, hdrop, text_bytes hcodes, atoi_append hblank hend hn]

namespace Response

variable {r : Response} {c : HTTPConnection} {more : Bytes}

/-- the usual spelling: one length, a decimal number that fits an `int`, and no field behind it that begins alike -/
theorem readLength_usual {before after : List Bytes} {n : Numeral} (hlines : r.lines = before ++ lengthLine n :: after)
    (hafter : ∀ line ∈ after, ¬ bytes "Content-Length".toList <+: line) (hn : n.value < 2 ^ 31) (length : ℤ) :
    r.readLength length = n.value := by
  have hskip : ∀ (lines : List Bytes) (length : ℤ), (∀ line ∈ lines, ¬ bytes "Content-Length".toList <+: line) →
      lines.foldl (fun length line => takeLength length (line ++ crlf)) length = length := by
    intro lines
    induction lines with
    | nil => exact fun length _ => rfl
    | cons line lines ih =>
      intro length hother
      rw [List.foldl_cons, takeLength_other (hother line (List.mem_cons_self ..))]
      exact ih length fun l hl => hother l (List.mem_cons_of_mem _ hl)
  rw [readLength, hlines, List.foldl_append, List.foldl_cons, takeLength_lengthLine hn, hskip after _ hafter]

theorem parseLines_lines {lines : List Bytes} (hlines : ∀ line ∈ lines, line ≠ [] ∧ 10 ∉ line) (fuel : ℕ)
    (hstream : c.stream = (lines.map (· ++ crlf)).flatten ++ more) :
    HTTPConnection.parseLines (fuel + lines.length) c =
      HTTPConnection.parseLines fuel
        { c with
          stream := more
          contentLength := lines.foldl (fun length line => takeLength length (line ++ crlf)) c.contentLength } := by
  induction lines generalizing c with
  | nil =>
    have hc : { c with stream := more } = c := by
      cases c
      simpa using hstream.symm
    exact congrArg (HTTPConnection.parseLines fuel) hc.symm
  | cons line lines ih =>
    obtain ⟨hne, hline⟩ := hlines line (List.mem_cons_self ..)
    have hfirst : c.stream = line ++ (crlf ++ ((lines.map (· ++ crlf)).flatten ++ more)) := by
      rw [hstream, List.map_cons, List.flatten_cons, List.append_assoc, List.append_assoc]
    calc HTTPConnection.parseLines (fuel + (lines.length + 1)) c
        = HTTPConnection.parseLines (fuel + lines.length)
            ({ c with stream := (lines.map (· ++ crlf)).flatten ++ more }.checkLine (line ++ crlf)) :=
          HTTPConnection.parseLines_line hne hline hfirst _
      _ = HTTPConnection.parseLines fuel
            { c with
              stream := more
              contentLength := (line :: lines).foldl (fun length line => takeLength length (line ++ crlf)) c.contentLength } := by
          rw [HTTPConnection.checkLine_eq, ih (fun l hl => hlines l (List.mem_cons_of_mem _ hl)) rfl]
          rfl

/-- **A header.** It is read up to its end, and the length is the last that its lines give. -/
theorem parseHeader_written (r : Response) {c : HTTPConnection} (hstream : c.stream = r.header ++ more) :
    c.parseHeader = (true, { c with stream := more, contentLength := r.readLength c.contentLength }) := by
  have hfuel : c.stream.length < c.stream.length + 1 + r.lines.length := by omega
  have hlines : c.stream = (r.lines.map (· ++ crlf)).flatten ++ (crlf ++ more) := by
    rw [hstream, header, List.append_assoc]
  calc c.parseHeader
      = HTTPConnection.parseLines (c.stream.length + 1 + r.lines.length) c := (HTTPConnection.parseLines_fuel c hfuel).symm
    _ = HTTPConnection.parseLines (c.stream.length + 1)
          { c with stream := crlf ++ more, contentLength := r.readLength c.contentLength } :=
        parseLines_lines r.isLine _ hlines
    _ = (true, { c with stream := more, contentLength := r.readLength c.contentLength }) :=
        HTTPConnection.parseLines_last rfl _

end Response

/-! ## A chunk and its response -/

/-- the responses one after the other -/
def written (todo : List Response) : Bytes := (todo.map Response.written).flatten

/-- the chunk whose header has been parsed and of whose body so much is left -/
structure Parsed (front : HTTPChunk) (left : Bytes) : Prop where
  isHeaderParsed : front.isHeaderParsed = true
  bytesLeft : front.bytesLeft.toNat = left.length

/-- the header of the first response is still to be parsed, if there is one -/
structure Before (rest : Bytes) (todo : List Response) (c : PersistentHTTPConnection) : Prop where
  stream : c.stream = written todo ++ rest
  peekBuffer : c.peekBuffer = []
  chunkQueue : c.chunkQueue = List.replicate todo.length .new

/-- of the body of the first response, `current` has been read, and `left` is left -/
structure Within (rest : Bytes) (r : Response) (todo : List Response) (current left : Bytes)
    (c : PersistentHTTPConnection) : Prop where
  body : r.body = current ++ left
  stream : c.stream = left ++ (written todo ++ rest)
  peekBuffer : c.peekBuffer = []
  chunkQueue : ∃ front, Parsed front left ∧ c.chunkQueue = front :: List.replicate todo.length .new

/-- where the connection stands: `todo` are the responses that no Read has ended, and `current` has been read of the
first; the headers that are still to be parsed are readable -/
inductive Standing (rest : Bytes) : List Response → Bytes → PersistentHTTPConnection → Prop
  | before {todo : List Response} {c : PersistentHTTPConnection} :
      Before rest todo c → Readable c.contentLength todo → Standing rest todo [] c
  | within {r : Response} {todo : List Response} {current left : Bytes} {c : PersistentHTTPConnection} :
      Within rest r todo current left c → Readable c.contentLength todo → Standing rest (r :: todo) current c

namespace PersistentHTTPConnection

variable {rest current left data : Bytes} {r : Response} {todo : List Response} {c : PersistentHTTPConnection}
  {front : HTTPChunk} {queue : List HTTPChunk} {len arrived : ℕ}

theorem checkHeader_new (r : Response) (hstream : c.stream = r.written ++ rest) :
    ∃ front, front.isHeaderParsed = true ∧ front.bytesLeft.toNat = r.size c.contentLength ∧
      c.checkHeader .new = (front, { c with stream := r.body ++ rest, contentLength := r.readLength c.contentLength }) := by
  have hparse : c.toHTTPConnection.parseHeader.2 =
      { c.toHTTPConnection with stream := r.body ++ rest, contentLength := r.readLength c.contentLength } := by
    rw [r.parseHeader_written (hstream.trans (List.append_assoc ..))]
  have hnew : HTTPChunk.new.isHeaderParsed = false := rfl
  refine ⟨{ HTTPChunk.new with isHeaderParsed := true }.setContentLength (UInt64.ofInt (r.readLength c.contentLength)),
    rfl, rfl, ?_⟩
  rw [checkHeader, if_pos hnew, hparse]

theorem checkHeader_parsed (h : front.isHeaderParsed = true) (c : PersistentHTTPConnection) :
    c.checkHeader front = (front, c) := by
  rw [checkHeader, if_neg (by rw [h]; decide)]

/-- the header is parsed first, if that has not been done -/
theorem read_checkHeader (hqueue : c.chunkQueue = front :: queue) (len arrived : ℕ) :
    c.read len arrived =
      PersistentHTTPConnection.read len arrived
        { (c.checkHeader front).2 with chunkQueue := (c.checkHeader front).1 :: queue } := by
  have hparsed : (c.checkHeader front).1.isHeaderParsed = true := by
    unfold checkHeader
    split_ifs with h
    · rfl
    · simpa using h
  have hagain : ∀ d, checkHeader (c.checkHeader front).1 d = ((c.checkHeader front).1, d) := fun d =>
    if_neg (by rw [hparsed]; decide)
  rw [read, hqueue, read]
  simp only [hagain]

theorem read_end (hqueue : c.chunkQueue = front :: queue) (h : Parsed front []) (len arrived : ℕ) :
    c.read len arrived = some ([], { c with chunkQueue := queue }) := by
  have hzero : front.bytesLeft = 0 := UInt64.toNat_inj.1 h.bytesLeft
  rw [read, hqueue]
  simp only [checkHeader_parsed h.isHeaderParsed, if_pos hzero]

theorem bytesLeft_ne (h : Parsed front left) (hleft : left ≠ []) : front.bytesLeft ≠ 0 := by
  intro hzero
  have hlength := h.bytesLeft
  rw [hzero] at hlength
  exact hleft (List.length_eq_zero_iff.1 hlength.symm)

/-- so much of the body has been read -/
theorem parsed_addBytesRead (h : Parsed front left) {n : ℕ} (hn : n ≤ left.length) :
    Parsed (front.addBytesRead (UInt64.ofNat n)) (left.drop n) where
  isHeaderParsed := h.isHeaderParsed
  bytesLeft := by
    have hbound := front.bytesLeft.toNat_lt
    have hlength := h.bytesLeft
    have hsmall : (UInt64.ofNat n).toNat = n := by
      rw [UInt64.toNat_ofNat']
      omega
    have hle : UInt64.ofNat n ≤ front.bytesLeft := by
      rw [UInt64.le_iff_toNat_le, hsmall]
      omega
    rw [HTTPChunk.addBytesRead, UInt64.toNat_sub_of_le _ _ hle, hsmall, hlength, List.length_drop]

/-- how much of what is left a call takes from the socket -/
def portion (len arrived : ℕ) (left : Bytes) : ℕ := min (min len left.length) (max 1 arrived)

theorem portion_le_left (len arrived : ℕ) (left : Bytes) : portion len arrived left ≤ left.length := by
  unfold portion
  omega

theorem portion_pos (hlen : 0 < len) (hleft : left ≠ []) (arrived : ℕ) : 0 < portion len arrived left := by
  have hpos := List.length_pos_of_ne_nil hleft
  unfold portion
  omega

/-- the next bytes of the stream, as many as are asked for, counted as left, and there -/
theorem read_stream (hqueue : c.chunkQueue = front :: queue) (hparsed : front.isHeaderParsed = true) (hne : front.bytesLeft ≠ 0)
    (hpeek : c.peekBuffer = []) (len arrived : ℕ) :
    c.read len arrived = some (c.stream.take (min (min len front.bytesLeft.toNat) (max 1 arrived)),
      { c with
        stream := c.stream.drop (min (min len front.bytesLeft.toNat) (max 1 arrived))
        chunkQueue :=
          (if (c.stream.take (min (min len front.bytesLeft.toNat) (max 1 arrived))).length > 0 then
            front.addBytesRead (UInt64.ofNat (c.stream.take (min (min len front.bytesLeft.toNat) (max 1 arrived))).length)
          else front) :: queue }) := by
  have hlength : (if len > front.bytesLeft.toNat then front.bytesLeft.toNat else len) = min len front.bytesLeft.toNat := by
    split_ifs <;> omega
  rw [read, hqueue]
  simp only [checkHeader_parsed hparsed, if_neg hne, HTTPConnection.read, hpeek, if_true, HTTPConnection.recv, hlength]

/-- a part of a body: the next bytes of the stream -/
theorem read_within (hqueue : c.chunkQueue = front :: queue) (h : Parsed front left) (hleft : left ≠ [])
    (hpeek : c.peekBuffer = []) (hstream : c.stream = left ++ rest) (hlen : 0 < len) (arrived : ℕ) :
    c.read len arrived = some (left.take (portion len arrived left),
      { c with
        stream := left.drop (portion len arrived left) ++ rest
        chunkQueue := front.addBytesRead (UInt64.ofNat (portion len arrived left)) :: queue }) := by
  have hle := portion_le_left len arrived left
  have hpos := portion_pos hlen hleft arrived
  have htake : (left ++ rest).take (portion len arrived left) = left.take (portion len arrived left) :=
    List.take_append_of_le_length hle
  have hdrop : (left ++ rest).drop (portion len arrived left) = left.drop (portion len arrived left) ++ rest :=
    List.drop_append_of_le_length hle
  have hcount : (left.take (portion len arrived left)).length = portion len arrived left := by
    rw [List.length_take, min_eq_left hle]
  have hportion : min (min len front.bytesLeft.toNat) (max 1 arrived) = portion len arrived left := by
    rw [h.bytesLeft, portion]
  have hread := read_stream hqueue h.isHeaderParsed (bytesLeft_ne h hleft) hpeek len arrived
  rw [hportion, hstream, htake, hdrop, hcount, if_pos hpos] at hread
  exact hread

theorem read_closed (hqueue : c.chunkQueue = front :: queue) (hparsed : front.isHeaderParsed = true) (hne : front.bytesLeft ≠ 0)
    (hpeek : c.peekBuffer = []) (hstream : c.stream = []) (len arrived : ℕ) : c.read len arrived = some ([], c) := by
  have hread := read_stream hqueue hparsed hne hpeek len arrived
  have hsame : { c with stream := [], chunkQueue := front :: queue } = c := by rw [← hstream, ← hqueue]
  rw [hstream, List.take_nil, List.drop_nil] at hread
  simpa only [List.length_nil, gt_iff_lt, lt_irrefl, if_false, hsame] using hread

/-- the peek buffer is written whole, and counted as read -/
theorem read_buffered (hqueue : c.chunkQueue = front :: queue) (h : Parsed front left) (hleft : left ≠ [])
    (hpeek : c.peekBuffer ≠ []) (len arrived : ℕ) :
    c.read len arrived = some (c.peekBuffer,
      { c with
        peekBuffer := []
        chunkQueue := front.addBytesRead (UInt64.ofNat c.peekBuffer.length) :: queue }) := by
  have hpos := List.length_pos_of_ne_nil hpeek
  rw [read, hqueue]
  simp only [checkHeader_parsed h.isHeaderParsed, if_neg (bytesLeft_ne h hleft), HTTPConnection.read, if_neg hpeek,
    gt_iff_lt, if_pos hpos]

/-- a Peek in the middle of a body enters the critical section again -/
theorem peek_deadlock (hqueue : c.chunkQueue = front :: queue) (h : Parsed front left) (hleft : left ≠ [])
    (hpeek : c.peekBuffer = []) (len arrived : ℕ) : c.peek false len arrived = none := by
  rw [peek, hqueue]
  simp only [if_neg (bytesLeft_ne h hleft), checkHeader_parsed h.isHeaderParsed, basePeek, hpeek]
  rfl

/-- a Peek in the middle of a body that returns: what has been peeked is counted as read -/
theorem peek_within (hqueue : c.chunkQueue = front :: queue) (h : Parsed front left) (hleft : left ≠ [])
    (hpeek : c.peekBuffer = []) (hstream : c.stream = left ++ rest) (len arrived : ℕ) :
    ∃ data, c.peek true len arrived = some (data,
      { c with
        stream := left.drop (portion peekbuffer arrived left) ++ rest
        peekBuffer := left.take (portion peekbuffer arrived left)
        chunkQueue := front.addBytesRead (UInt64.ofNat (portion peekbuffer arrived left)) :: queue }) := by
  have hsame : { c with chunkQueue := front :: queue } = c := by rw [← hqueue]
  have hread := read_within hqueue h hleft hpeek hstream (by decide : 0 < peekbuffer) arrived
  rw [peek, hqueue]
  simp only [if_neg (bytesLeft_ne h hleft), checkHeader_parsed h.isHeaderParsed, hsame, basePeek, hpeek, if_true, hread,
    Option.map_some]
  exact ⟨_, rfl⟩

/-- a Peek outside of a body finds nothing and changes nothing -/
theorem peek_outside (hqueue : c.chunkQueue = front :: queue) (houtside : front.bytesLeft = 0) (reentrant : Bool)
    (len arrived : ℕ) : c.peek reentrant len arrived = some ([], c) := by
  rw [peek, hqueue]
  exact if_pos houtside

end PersistentHTTPConnection

variable {rest current left : Bytes} {r : Response} {todo : List Response} {c : PersistentHTTPConnection} {len : ℕ}

/-- the header has just been parsed, and so much is counted as left -/
structure Opened (rest : Bytes) (r : Response) (todo : List Response) (size : ℕ) (c : PersistentHTTPConnection) : Prop where
  stream : c.stream = r.body ++ (written todo ++ rest)
  peekBuffer : c.peekBuffer = []
  chunkQueue : ∃ front, front.isHeaderParsed = true ∧ front.bytesLeft.toNat = size ∧
    c.chunkQueue = front :: List.replicate todo.length .new

theorem Before.parse (h : Before rest (r :: todo) c) :
    ∃ c', Opened rest r todo (r.size c.contentLength) c' ∧ c'.contentLength = r.readLength c.contentLength ∧
      ∀ len arrived, c.read len arrived = c'.read len arrived := by
  have hstream : c.stream = r.written ++ (written todo ++ rest) := by
    rw [h.stream, written, List.map_cons, List.flatten_cons, List.append_assoc]
    rfl
  obtain ⟨front, hparsed, hsize, hcheck⟩ := PersistentHTTPConnection.checkHeader_new r hstream
  have hread := PersistentHTTPConnection.read_checkHeader h.chunkQueue
  rw [hcheck] at hread
  have hopened : Opened rest r todo (r.size c.contentLength)
      { stream := r.body ++ (written todo ++ rest)
        peekBuffer := c.peekBuffer
        contentLength := r.readLength c.contentLength
        chunkQueue := front :: List.replicate todo.length .new } :=
    ⟨rfl, h.peekBuffer, front, hparsed, hsize, rfl⟩
  exact ⟨_, hopened, rfl, hread⟩

/-- what is counted as left is the body -/
theorem Opened.within (h : Opened rest r todo r.body.length c) : Within rest r todo [] r.body c := by
  obtain ⟨front, hparsed, hsize, hqueue⟩ := h.chunkQueue
  exact ⟨rfl, h.stream, h.peekBuffer, front, ⟨hparsed, hsize⟩, hqueue⟩

/-- more is counted as left than is in the stream: a Read may return all of it, and the next one returns 0 -/
theorem Opened.read_all {size : ℕ} (h : Opened rest r todo size c) (hne : c.stream ≠ []) (hsize : c.stream.length < size) :
    ∃ c', c.read c.stream.length c.stream.length = some (c.stream, c') ∧
      c'.chunkQueue.length = c.chunkQueue.length ∧ c'.read 1 0 = some ([], c') := by
  obtain ⟨front, hparsed, rfl, hqueue⟩ := h.chunkQueue
  have hpos := List.length_pos_of_ne_nil hne
  have hbound := front.bytesLeft.toNat_lt
  have hzero : front.bytesLeft ≠ 0 := by
    intro hzero
    rw [hzero] at hsize
    exact absurd hsize (Nat.not_lt_zero _)
  have hall : min (min c.stream.length front.bytesLeft.toNat) (max 1 c.stream.length) = c.stream.length := by omega
  have hread := PersistentHTTPConnection.read_stream hqueue hparsed hzero h.peekBuffer c.stream.length c.stream.length
  rw [hall, List.take_length, List.drop_length, if_pos hpos] at hread
  have hcount : (front.addBytesRead (UInt64.ofNat c.stream.length)).bytesLeft ≠ 0 := by
    have hsmall : (UInt64.ofNat c.stream.length).toNat = c.stream.length := by
      rw [UInt64.toNat_ofNat']
      omega
    have hle : UInt64.ofNat c.stream.length ≤ front.bytesLeft := by
      rw [UInt64.le_iff_toNat_le, hsmall]
      omega
    intro hleft
    have hsub := congrArg UInt64.toNat hleft
    rw [HTTPChunk.addBytesRead, UInt64.toNat_sub_of_le _ _ hle, hsmall] at hsub
    simp only [UInt64.toNat_zero] at hsub
    omega
  have hnext : (front.addBytesRead (UInt64.ofNat c.stream.length)).isHeaderParsed = true := hparsed
  obtain ⟨c', hc'⟩ : ∃ c' : PersistentHTTPConnection, c' = { c with
      stream := []
      chunkQueue := front.addBytesRead (UInt64.ofNat c.stream.length) :: List.replicate todo.length .new } := ⟨_, rfl⟩
  have hqueue' : c'.chunkQueue = front.addBytesRead (UInt64.ofNat c.stream.length) :: List.replicate todo.length .new := by
    rw [hc']
  have hpeek : c'.peekBuffer = [] := by rw [hc', h.peekBuffer]
  have hstream : c'.stream = [] := by rw [hc']
  rw [← hc'] at hread
  exact ⟨c', hread, by simp [hqueue, hqueue'], PersistentHTTPConnection.read_closed hqueue' hnext hcount hpeek hstream 1 0⟩

/-- what a Read returns, and what is to be read then -/
def ReadOn (rest : Bytes) (r : Response) (todo : List Response) (current : Bytes) (len : ℕ)
    (result : Option (Bytes × PersistentHTTPConnection)) : Prop :=
  ∃ data c', result = some (data, c') ∧ data.length ≤ len ∧
    (data = [] ∧ current = r.body ∧ Standing rest todo [] c' ∨ data ≠ [] ∧ Standing rest (r :: todo) (current ++ data) c')

theorem Within.read (h : Within rest r todo current left c) (hreadable : Readable c.contentLength todo) (hlen : 0 < len)
    (arrived : ℕ) : ReadOn rest r todo current len (c.read len arrived) := by
  obtain ⟨front, hfront, hqueue⟩ := h.chunkQueue
  by_cases hleft : left = []
  · subst hleft
    have hbefore : Before rest todo { c with chunkQueue := List.replicate todo.length .new } :=
      ⟨h.stream, h.peekBuffer, rfl⟩
    refine ⟨[], _, PersistentHTTPConnection.read_end hqueue hfront len arrived, Nat.zero_le _,
      Or.inl ⟨rfl, ?_, .before hbefore hreadable⟩⟩
    rw [h.body, List.append_nil]
  · have hle := PersistentHTTPConnection.portion_le_left len arrived left
    have hpos := PersistentHTTPConnection.portion_pos hlen hleft arrived
    refine ⟨_, _, PersistentHTTPConnection.read_within hqueue hfront hleft h.peekBuffer h.stream hlen arrived, ?_,
      Or.inr ⟨?_, .within ⟨?_, rfl, h.peekBuffer, _, PersistentHTTPConnection.parsed_addBytesRead hfront hle, rfl⟩ hreadable⟩⟩
    · rw [List.length_take, PersistentHTTPConnection.portion]
      omega
    · rw [ne_eq, List.take_eq_nil_iff, not_or]
      exact ⟨hpos.ne', hleft⟩
    · rw [h.body, List.append_assoc, List.take_append_drop]

namespace Standing

theorem length_chunkQueue (h : Standing rest todo current c) : c.chunkQueue.length = todo.length := by
  cases h with
  | before h => rw [h.chunkQueue, List.length_replicate]
  | within h =>
    obtain ⟨front, -, hqueue⟩ := h.chunkQueue
    rw [hqueue, List.length_cons, List.length_cons, List.length_replicate]

theorem chunkQueue_eq_nil (h : Standing rest todo current c) : c.chunkQueue = [] ↔ todo = [] := by
  rw [← List.length_eq_zero_iff, h.length_chunkQueue, List.length_eq_zero_iff]

/-- **A Read.** It returns the next bytes of the body, no more than its length, or, at the end of the body, 0. -/
theorem read (h : Standing rest (r :: todo) current c) (hlen : 0 < len) (arrived : ℕ) :
    ReadOn rest r todo current len (c.read len arrived) := by
  cases h with
  | before h hreadable =>
    obtain ⟨hsize, hreadable⟩ := hreadable
    obtain ⟨c', hopened, hlength, hread⟩ := h.parse
    rw [hsize] at hopened
    rw [hread]
    exact hopened.within.read (hlength ▸ hreadable) hlen arrived
  | within h hreadable => exact h.read hreadable hlen arrived

end Standing

end NdnDash.Http
