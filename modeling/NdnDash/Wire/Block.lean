/-
ndn-cxx's `Block` (`encoding/block.cpp`): a TLV element over the bytes it was read from or encoded to, with the
sub-elements that `parse` found in its value or `push_back` put there. A buffer with its iterators is the bytes they
delimit; `std::tuple<bool, Block>` is an `Option`, and what throws gives the text of the error.

Results:
- `parse_sound`: a `parse` that succeeds has found the value byte for byte; one that failed can be called again and
  succeed on the part it had found.
- `build_reads`: an element built bottom-up with `push_back` and `encode` is read back the same at every depth,
  whatever bytes follow it, for wires below 2^32 bytes: `m_size` has 32 bits, and it is what is copied of a wire.
-/
import NdnDash.Wire.Tlv

namespace NdnDash.Wire

open Tlv

/-! ## Model -/

/-- `m_buffer` is set: the bytes from `m_begin` to `m_end`, those from `m_value_begin` to `m_value_end`, and the 32 bits
of `m_size` -/
structure Span where
  wire : Bytes
  value : Bytes
  size : ℕ
  size_eq : wire ≠ [] → size = wire.length % 2 ^ 32
deriving DecidableEq

structure Block where
  type : ℕ
  buffer : Option Span
  subBlocks : List Block

namespace Block

/-- `Block()` -/
def empty : Block := ⟨maxType, none, []⟩

/-- `Block(type)` -/
def ofType (type : ℕ) : Block := ⟨type, none, []⟩

/-- `Block(type, value)`: a value of its own, and no wire yet -/
def ofValue (type : ℕ) (value : Bytes) : Block :=
  ⟨type, some ⟨[], value, (sizeOfVarNumber type + sizeOfVarNumber value.length + value.length) % 2 ^ 32, by simp⟩, []⟩

/-- the element whose value `value` ends the bytes `wire` -/
def ofWire (type : ℕ) (wire value : Bytes) : Block :=
  ⟨type, some ⟨wire, value, wire.length % 2 ^ 32, fun _ => rfl⟩, []⟩

def hasValue (b : Block) : Bool := b.buffer.isSome

def value (b : Block) : Bytes := (b.buffer.map Span.value).getD []

def hasWire (b : Block) : Bool := b.buffer.any (fun span => !span.wire.isEmpty)

def wire (b : Block) : Bytes := (b.buffer.map Span.wire).getD []

def sizeUndefined : String := "Block size cannot be determined (undefined block size)"

def size (b : Block) : Except String ℕ :=
  match b.buffer with
  | some span => .ok span.size
  | none => .error sizeUndefined

/-- `resetWire()`: the sub-elements and the type stay -/
def resetWire (b : Block) : Block := { b with buffer := none }

def pushBack (b element : Block) : Block := { b.resetWire with subBlocks := b.subBlocks ++ [element] }

/-- `find(type)`: the first sub-element of the type -/
def find? (b : Block) (type : ℕ) : Option Block := b.subBlocks.find? (fun e => e.type = type)

def get (b : Block) (type : ℕ) : Except String Block :=
  match b.find? type with
  | some e => .ok e
  | none => .error ("(Block::get) Requested a non-existed type [" ++ toString type ++ "] from Block")

/-! ### Reading -/

def lengthExceeds : String := "TLV length exceeds buffer length"
def notEnoughData : String := "Not enough data in the buffer to fully parse TLV"
def lengthMismatch : String := "TLV length doesn't match buffer length"

/-- one element off the front: its type and length, then as many bytes as the length says; `tooLong` is thrown when
they are not there -/
def readElement (tooLong : String) (bs : Bytes) : Except String (Block × Bytes) :=
  match readType bs with
  | .error e => .error e
  | .ok (type, bs1) =>
    match readVarNumber bs1 with
    | .error e => .error e
    | .ok (length, bs2) =>
      if bs2.length < length then .error tooLong
      else .ok (ofWire type (bs.take (bs.length - (bs2.length - length))) (bs2.take length), bs2.drop length)

/-- `Block(buffer, maxlength)` -/
def ofBuffer (bs : Bytes) : Except String Block := (readElement notEnoughData bs).map Prod.fst

/-- `fromBuffer(buffer, maxSize)` -/
def fromBuffer (bs : Bytes) : Option Block :=
  match readType? bs with
  | none => none
  | some (type, bs1) =>
    match readVarNumber? bs1 with
    | none => none
    | some (length, bs2) =>
      if bs2.length < length then none
      else some (ofWire type (bs.take (bs.length - (bs2.length - length))) (bs2.take length))

/-- `Block(buffer, begin, end)`: the whole range is one element -/
def ofRange (bs : Bytes) : Except String Block :=
  match readType bs with
  | .error e => .error e
  | .ok (type, bs1) =>
    match readVarNumber bs1 with
    | .error e => .error e
    | .ok (length, bs2) => if length ≠ bs2.length then .error lengthMismatch else .ok (ofWire type bs bs2)

/-! ### Encoding -/

def write (type : ℕ) (value : Bytes) : Bytes := writeVarNumber type ++ writeVarNumber value.length ++ value

/-- `size()` bytes from `wire()` on -/
def copied (b : Block) : Bytes := b.wire.take ((b.buffer.map Span.size).getD 0)

/-- the bytes `encode` puts for a sub-element -/
def encodeElement (e : Block) : Bytes := if e.hasWire then e.copied else write e.type e.value

/-- the sizes of the sub-elements added up, the first of unknown size throwing -/
def sumSizes : List Block → Except String ℕ
  | [] => .ok 0
  | e :: es =>
    match e.size with
    | .error err => .error err
    | .ok n => (sumSizes es).map (n + ·)

/-- the bytes of the block's wire as `encode` writes them -/
def encodedBytes (b : Block) : Except String Bytes :=
  if b.hasValue then .ok (write b.type b.value)
  else if b.subBlocks.length = 0 then .ok (writeVarNumber b.type ++ writeVarNumber 0)
  else match sumSizes b.subBlocks with
    | .error e => .error e
    | .ok valueSize => .ok (writeVarNumber b.type ++ writeVarNumber valueSize ++ b.subBlocks.flatMap encodeElement)

/-- `encode()`: the iterators of the new buffer are set by reading the type and the length off its front -/
def encode (b : Block) : Except String Block :=
  if b.hasWire then .ok b
  else match b.encodedBytes with
    | .error e => .error e
    | .ok bs =>
      match readType bs with
      | .error e => .error e
      | .ok (_, bs1) =>
        match readVarNumber bs1 with
        | .error e => .error e
        | .ok (_, bs2) => .ok ⟨b.type, some ⟨bs, bs2, bs.length % 2 ^ 32, fun _ => rfl⟩, b.subBlocks⟩

/-! ## The element reader -/

theorem readElement_ok {msg : String} {bs rest : Bytes} {b : Block} (h : readElement msg bs = .ok (b, rest)) :
    ∃ type length front value, readType bs = .ok (type, front ++ value ++ rest) ∧
      readVarNumber (front ++ value ++ rest) = .ok (length, value ++ rest) ∧ value.length = length ∧
      ∃ head, bs = head ++ front ++ value ++ rest ∧ head ≠ [] ∧ b = ofWire type (head ++ front ++ value) value := by
  rw [readElement] at h
  cases htype : readType bs with
  | error e => simp [htype] at h
  | ok p =>
    obtain ⟨type, bs1⟩ := p
    simp only [htype] at h
    cases hlen : readVarNumber bs1 with
    | error e => simp [hlen] at h
    | ok q =>
      obtain ⟨length, bs2⟩ := q
      simp only [hlen] at h
      split at h
      · cases h
      · next hle =>
        simp only [Except.ok.injEq, Prod.mk.injEq] at h
        obtain ⟨rfl, rfl⟩ := h
        obtain ⟨head, rfl, hpos⟩ := readVarNumber?_exact (readType_ok.mp htype).1
        obtain ⟨front, rfl, -⟩ := readVarNumber?_exact (readVarNumber_ok.mp hlen)
        have hsplit : bs2.take length ++ bs2.drop length = bs2 := List.take_append_drop length bs2
        have hvalue : (bs2.take length).length = length := by rw [List.length_take]; omega
        refine ⟨type, length, front, bs2.take length, ?_, ?_, hvalue, head, ?_, ?_, ?_⟩
        · rw [List.append_assoc, hsplit]
        · rw [List.append_assoc, hsplit, hlen]
        · rw [List.append_assoc (head ++ front), hsplit, List.append_assoc]
        · rintro rfl
          have := sizeOfVarNumber_pos type
          simp at hpos
          omega
        · congr 1
          have hcut : (head ++ (front ++ bs2)).length - (bs2.length - length) = (head ++ front).length + length := by
            simp only [List.length_append]
            omega
          rw [hcut, ← List.append_assoc, List.take_length_add_append]

theorem readElement_exact {msg : String} {bs rest : Bytes} {b : Block} (h : readElement msg bs = .ok (b, rest)) :
    bs = b.wire ++ rest := by
  obtain ⟨_, _, _, _, _, _, _, _, rfl, _, rfl⟩ := readElement_ok h
  rfl

/-- `parse`'s loop body as a reader of elements -/
def elements : Reader UInt8 String Block where
  run := readElement lengthExceeds
  progress := by
    intro xs b rest h
    have hxs := readElement_exact h
    obtain ⟨_, _, _, _, _, _, _, head, _, hne, rfl⟩ := readElement_ok h
    exact ⟨_, by simp [ofWire, wire, hne], hxs⟩

/-- `parse()`: the block after it, and what it throws. A length that runs over the end clears the elements; an error
of the number readers leaves those found before it. -/
def parse (b : Block) : Block × Option String :=
  if b.subBlocks ≠ [] ∨ b.value = [] then (b, none)
  else
    match elements.all b.value with
    | (found, none) => ({ b with subBlocks := found }, none)
    | (found, some e) => ({ b with subBlocks := if e = lengthExceeds then [] else found }, some e)

@[simp] theorem wire_ofWire (type : ℕ) (w v : Bytes) : (ofWire type w v).wire = w := rfl

@[simp] theorem value_ofWire (type : ℕ) (w v : Bytes) : (ofWire type w v).value = v := rfl

theorem write_ne_nil (type : ℕ) (value : Bytes) : write type value ≠ [] := by
  simp [write, writeVarNumber_ne_nil]

theorem length_write (type : ℕ) (value : Bytes) :
    (write type value).length = sizeOfVarNumber type + sizeOfVarNumber value.length + value.length := by
  simp [write, length_writeVarNumber, Nat.add_assoc]

theorem uint64_of_write {type : ℕ} {value : Bytes} (h : (write type value).length < 2 ^ 32) :
    Uint64 value.length := by
  rw [length_write] at h
  unfold Uint64
  omega

/-- what was written is read, whatever follows it -/
theorem readElement_write {type : ℕ} {value : Bytes} (htype : type ≤ maxType) (hlen : Uint64 value.length)
    (msg : String) (rest : Bytes) :
    readElement msg (write type value ++ rest) = .ok (ofWire type (write type value) value, rest) := by
  have h1 : readType (write type value ++ rest) = .ok (type, writeVarNumber value.length ++ (value ++ rest)) := by
    rw [write, List.append_assoc, List.append_assoc]
    exact readType_write htype _
  have h2 := readVarNumber_write hlen (value ++ rest)
  have hcut : (write type value ++ rest).length - ((value ++ rest).length - value.length) =
      (write type value).length := by
    simp only [List.length_append]
    omega
  simp only [readElement, h1, h2, hcut, List.take_left', List.drop_left']
  rw [if_neg (by rw [List.length_append]; omega)]

/-- the whole range is the element that was written there -/
theorem ofRange_write {type : ℕ} {value : Bytes} (htype : type ≤ maxType) (hlen : Uint64 value.length) :
    ofRange (write type value) = .ok (ofWire type (write type value) value) := by
  have h1 : readType (write type value) = .ok (type, writeVarNumber value.length ++ value) := by
    rw [write, List.append_assoc]
    exact readType_write htype _
  have h2 := readVarNumber_write hlen value
  rw [ofRange, h1]
  simp only [h2, ne_eq, not_true_eq_false, if_false]

/-- a length of more than 64 bits is refused -/
theorem ofRange_write_ok {type : ℕ} {value : Bytes} {b : Block} (htype : type ≤ maxType)
    (h : ofRange (write type value) = .ok b) : Uint64 value.length ∧ b = ofWire type (write type value) value := by
  have h1 : readType (write type value) = .ok (type, writeVarNumber value.length ++ value) := by
    rw [write, List.append_assoc]
    exact readType_write htype _
  have h2 := readVarNumber_ok.mpr (readVarNumber?_write_mod value.length value)
  rw [ofRange, h1] at h
  simp only [h2] at h
  split at h
  · cases h
  · next hlen =>
    cases h
    refine ⟨?_, rfl⟩
    have hlen : value.length % 2 ^ 64 = value.length := not_not.mp hlen
    rw [Uint64, ← hlen]
    exact Nat.mod_lt _ (by positivity)

/-- the constructor that throws and the function that answers with a flag read the same element -/
theorem fromBuffer_eq_some {bs : Bytes} {b : Block} : fromBuffer bs = some b ↔ ofBuffer bs = .ok b := by
  rw [fromBuffer, ofBuffer, readElement]
  cases ht : readType bs with
  | error e =>
    have hnone : readType? bs = none := by
      rw [Option.eq_none_iff_forall_not_mem]
      rintro ⟨type, bs1⟩ hmem
      rw [readType?_eq_some.mp hmem] at ht
      cases ht
    simp [hnone, Except.map]
  | ok p =>
    obtain ⟨type, bs1⟩ := p
    rw [readType?_eq_some.mpr ht]
    cases hl : readVarNumber bs1 with
    | error e =>
      have hnone : readVarNumber? bs1 = none := by
        rw [Option.eq_none_iff_forall_not_mem]
        rintro ⟨length, bs2⟩ hmem
        rw [readVarNumber_ok.mpr hmem] at hl
        cases hl
      simp [hl, hnone, Except.map]
    | ok q =>
      obtain ⟨length, bs2⟩ := q
      simp only [hl, readVarNumber_ok.mp hl]
      split_ifs <;> simp [Except.map]

/-! ## parse -/

theorem parse_of_found {b : Block} {found : List Block} (hsub : b.subBlocks = [])
    (h : elements.all b.value = (found, none)) : b.parse = ({ b with subBlocks := found }, none) := by
  obtain ⟨type, buffer, subBlocks⟩ := b
  by_cases hv : value ⟨type, buffer, subBlocks⟩ = []
  · rw [hv, Reader.all_nil] at h
    have hfound : found = subBlocks := by rw [← show [] = subBlocks from hsub.symm]; exact (congrArg Prod.fst h).symm
    rw [parse, if_pos (.inr hv), hfound]
  · rw [parse, if_neg (by rw [hsub]; simp [hv]), h]

/-- a `parse` that throws nothing has read the value to its end -/
theorem parse_ok {b b' : Block} (hsub : b.subBlocks = []) (h : b.parse = (b', none)) :
    ∃ found, elements.all b.value = (found, none) ∧ b' = { b with subBlocks := found } := by
  cases hall : elements.all b.value with
  | mk found err =>
    cases err with
    | none =>
      rw [parse_of_found hsub hall] at h
      exact ⟨found, rfl, (congrArg Prod.fst h).symm⟩
    | some e =>
      have hv : b.value ≠ [] := by
        intro hv
        rw [hv, Reader.all_nil] at hall
        cases hall
      rw [parse, if_neg (by rw [hsub]; simp [hv]), hall] at h
      cases congrArg Prod.snd h

/-- A block as the element reader makes it: its wire is read as this block whatever follows it. -/
def Read (b : Block) : Prop := b.subBlocks = [] ∧ ∀ msg rest, readElement msg (b.wire ++ rest) = .ok (b, rest)

theorem read_of_readElement {msg : String} {bs rest : Bytes} {b : Block} (h : readElement msg bs = .ok (b, rest)) :
    b.Read := by
  obtain ⟨type, length, front, value, htype, hlen, hvalue, head, rfl, hne, rfl⟩ := readElement_ok h
  refine ⟨rfl, ?_⟩
  intro msg' rest'
  have h1 : readType (head ++ (front ++ value ++ rest')) = .ok (type, front ++ value ++ rest') := by
    obtain ⟨hnum, hmax⟩ := readType_ok.mp htype
    have hhead : readVarNumber? (head ++ (front ++ value ++ rest)) = some (type, front ++ value ++ rest) := by
      simpa only [List.append_assoc] using hnum
    exact readType_ok.mpr ⟨readVarNumber?_stable hhead _, hmax⟩
  have h2 : readVarNumber (front ++ (value ++ rest')) = .ok (length, value ++ rest') := by
    have hfront : readVarNumber? (front ++ (value ++ rest)) = some (length, value ++ rest) := by
      simpa only [List.append_assoc] using readVarNumber_ok.mp hlen
    exact readVarNumber_ok.mpr (readVarNumber?_stable hfront _)
  have hcut : (head ++ (front ++ (value ++ rest'))).length - ((value ++ rest').length - length) =
      (head ++ (front ++ value)).length := by
    simp only [List.length_append]
    omega
  simp only [List.append_assoc] at h1 h2
  have hshort : ¬ (value ++ rest').length < length := by
    rw [List.length_append]
    omega
  simp only [wire_ofWire, List.append_assoc, readElement, h1, h2, hcut, hshort, if_false]
  have htake : (head ++ (front ++ (value ++ rest'))).take (head ++ (front ++ value)).length =
      head ++ (front ++ value) := by
    rw [show head ++ (front ++ (value ++ rest')) = (head ++ (front ++ value)) ++ rest' by simp, List.take_left' rfl]
  rw [htake, List.take_left' hvalue, List.drop_left' hvalue]

theorem Read.eq_ofWire {b : Block} (h : b.Read) : b = ofWire b.type b.wire b.value := by
  obtain ⟨_, _, _, _, _, _, _, _, _, _, hb⟩ := readElement_ok (h.2 lengthExceeds [])
  rw [hb]
  rfl

theorem read_write {type : ℕ} {value : Bytes} (htype : type ≤ maxType) (hlen : Uint64 value.length) :
    (ofWire type (write type value) value).Read :=
  ⟨rfl, fun msg rest => readElement_write htype hlen msg rest⟩

theorem Read.wire_ne_nil {b : Block} (h : b.Read) : b.wire ≠ [] := by
  obtain ⟨_, _, _, _, _, _, _, head, _, hne, hb⟩ := readElement_ok (h.2 lengthExceeds [])
  rw [hb]
  simp [ofWire, wire, hne]

theorem hasWire_iff (b : Block) : b.hasWire = true ↔ b.wire ≠ [] := by
  cases hb : b.buffer <;> simp [hasWire, wire, hb]

/-- a wire whose length fits `m_size` is copied whole -/
theorem copied_eq {b : Block} (h : b.wire.length < 2 ^ 32) : b.copied = b.wire := by
  obtain ⟨type, buffer, subBlocks⟩ := b
  cases buffer with
  | none => rfl
  | some span =>
    by_cases hwire : span.wire = []
    · simp [copied, wire, hwire]
    · have hlen : span.wire.length < 2 ^ 32 := h
      have hsize : span.size = span.wire.length := by rw [span.size_eq hwire, Nat.mod_eq_of_lt hlen]
      simp [copied, wire, hsize]

/-- the block as `parse` finds it in the value of another one -/
def unparsed (b : Block) : Block := ofWire b.type b.wire b.value

@[simp] theorem type_unparsed (b : Block) : b.unparsed.type = b.type := rfl

@[simp] theorem wire_unparsed (b : Block) : b.unparsed.wire = b.wire := rfl

@[simp] theorem value_unparsed (b : Block) : b.unparsed.value = b.value := rfl

theorem Read.unparsed_eq {b : Block} (h : b.Read) : b.unparsed = b := h.eq_ofWire.symm

/-- a block with a wire that reads back, parsed or not, and whose length fits `m_size` -/
structure Stored (b : Block) : Prop where
  read : b.unparsed.Read
  short : b.wire.length < 2 ^ 32

theorem Read.stored {b : Block} (h : b.Read) (hlen : b.wire.length < 2 ^ 32) : b.Stored :=
  ⟨h.unparsed_eq.symm ▸ h, hlen⟩

theorem Stored.unparsed {b : Block} (h : b.Stored) : b.unparsed.Stored := h.read.stored h.short

theorem hasWire_of_read {b : Block} (h : b.unparsed.Read) : b.hasWire = true := (hasWire_iff b).mpr h.wire_ne_nil

theorem Stored.hasWire {b : Block} (h : b.Stored) : b.hasWire = true := hasWire_of_read h.read

/-- the encoder copies the wire of an element that was read -/
theorem Stored.encodeElement {b : Block} (h : b.Stored) : b.encodeElement = b.wire := by
  rw [Block.encodeElement, if_pos h.hasWire, copied_eq h.short]

theorem Stored.encode {b : Block} (h : b.Stored) : b.encode = .ok b := by
  rw [Block.encode, if_pos h.hasWire]

/-- elements one after the other are read back -/
theorem all_wires {bs : List Block} (h : ∀ b ∈ bs, b.Read) : elements.all (bs.flatMap wire) = (bs, none) := by
  have hall := elements.all_flatMap (f := wire) (g := id) (fun b hb rest => (h b hb).2 lengthExceeds rest)
  rwa [List.map_id] at hall

theorem parse_wires {type : ℕ} {w : Bytes} {bs : List Block} (h : ∀ b ∈ bs, b.Read) :
    (ofWire type w (bs.flatMap wire)).parse = ({ ofWire type w (bs.flatMap wire) with subBlocks := bs }, none) :=
  parse_of_found rfl (all_wires h)

/-- the elements that a `parse` finds read back, and they are the value -/
theorem read_of_parse {b b' : Block} (hsub : b.subBlocks = []) (h : b.parse = (b', none)) :
    (∀ e ∈ b'.subBlocks, e.Read) ∧ b.value = b'.subBlocks.flatMap wire ∧ b' = { b with subBlocks := b'.subBlocks } := by
  obtain ⟨found, hall, rfl⟩ := parse_ok hsub h
  refine ⟨?_, ?_, rfl⟩
  · intro e he
    have hmem : e ∈ (elements.all b.value).1 := by rw [hall]; exact he
    obtain ⟨ys, rest, hrun⟩ := elements.mem_all hmem
    exact read_of_readElement hrun
  · obtain ⟨rest, hvalue, hend⟩ := elements.all_exact (fun _ _ _ h => readElement_exact h) b.value
    rw [hall] at hvalue hend
    obtain ⟨-, rfl⟩ | ⟨e, he, -⟩ := hend
    · rw [hvalue, List.append_nil]
    · cases he

theorem elements_cons_iff {bs : Bytes} :
    (elements.all bs).1 ≠ [] ↔ ∃ b rest, readElement lengthExceeds bs = .ok (b, rest) := by
  by_cases hnil : bs = []
  · subst hnil
    constructor
    · intro h
      exact absurd rfl h
    · rintro ⟨b, rest, h⟩
      cases h
  · cases hrun : readElement lengthExceeds bs with
    | error e =>
      rw [elements.all_of_error hnil hrun]
      simp
    | ok p =>
      obtain ⟨b, rest⟩ := p
      rw [elements.all_of_ok hrun]
      simp

/-- **What `parse` finds.** A call that reports success has found the whole value. One that threw leaves elements which
are not the whole value; `parse` called again then reports success all the same, and leaves these elements, if and only
if the first call had read an element and stopped at a number rather than at a length that runs over the end. -/
theorem parse_sound {b : Block} (hsub : b.subBlocks = []) :
    (b.parse.2 = none → b.parse.1.subBlocks.flatMap wire = b.value) ∧
      ∀ e, b.parse.2 = some e →
        (∃ rest, rest ≠ [] ∧ b.value = b.parse.1.subBlocks.flatMap wire ++ rest) ∧
        (b.parse.1.parse.2 = none ↔
          e ≠ lengthExceeds ∧ ∃ first rest, readElement lengthExceeds b.value = .ok (first, rest)) ∧
        (b.parse.1.parse.2 = none → b.parse.1.parse.1 = b.parse.1) := by
  obtain ⟨rest, hvalue, hend⟩ := elements.all_exact (fun _ _ _ h => readElement_exact h) b.value
  obtain ⟨hnone, rfl⟩ | ⟨e, he, hne, hrun⟩ := hend
  · rw [parse_of_found hsub (Prod.ext rfl hnone)]
    refine ⟨fun _ => ?_, fun e he => by cases he⟩
    rw [List.append_nil] at hvalue
    exact hvalue.symm
  · have hv : b.value ≠ [] := by
      intro h
      rw [h] at hvalue
      exact hne (List.append_eq_nil_iff.mp hvalue.symm).2
    have hall : elements.all b.value = ((elements.all b.value).1, some e) := Prod.ext rfl he
    have hparse : b.parse =
        ({ b with subBlocks := if e = lengthExceeds then [] else (elements.all b.value).1 }, some e) := by
      rw [parse, if_neg (by rw [hsub]; simp [hv]), hall]
    rw [hparse]
    constructor
    · intro h
      cases h
    intro e' he'
    obtain rfl : e = e' := Option.some.inj he'
    rw [← elements_cons_iff]
    -- with no elements left, the second call runs into the same error
    have hagain : (parse { b with subBlocks := [] }).2 = some e := by
      have hsame : ({ b with subBlocks := [] } : Block).value = b.value := rfl
      rw [parse, if_neg (by rw [hsame]; simp [hv]), hsame, hall]
    by_cases hlong : e = lengthExceeds
    · refine ⟨⟨b.value, hv, by simp [hlong]⟩, ?_⟩
      simp only [hlong, if_true] at hagain ⊢
      simp [hagain]
    · refine ⟨⟨rest, hne, by simpa [hlong] using hvalue⟩, ?_⟩
      simp only [hlong, if_false, ne_eq, not_false_eq_true, true_and]
      by_cases hfound : (elements.all b.value).1 = []
      · rw [hfound]
        simp [hagain]
      · rw [parse, if_pos (.inl hfound)]
        simp [hfound]

/-- a whole element, then a number that is cut off: the second call reports success -/
theorem parse_sound_cutOff :
    (ofWire 7 [7, 4, 8, 1, 97, 253] [8, 1, 97, 253]).parse.2 = some insufficientData ∧
      (ofWire 7 [7, 4, 8, 1, 97, 253] [8, 1, 97, 253]).parse.1.parse.2 = none := by
  have hfirst : (ofWire 7 [7, 4, 8, 1, 97, 253] [8, 1, 97, 253]).parse.2 = some insufficientData := by decide
  obtain ⟨-, hagain, -⟩ := (parse_sound (b := ofWire 7 [7, 4, 8, 1, 97, 253] [8, 1, 97, 253]) rfl).2 _ hfirst
  exact ⟨hfirst, hagain.mpr ⟨by decide, ofWire 8 [8, 1, 97] [97], [253], by rfl⟩⟩

end Block

/-! ## Elements inside elements -/

/-- what a program builds: bytes under a type, or elements under a type -/
inductive Elem where
  | leaf (type : ℕ) (value : Bytes)
  | node (type : ℕ) (elements : List Elem)

namespace Elem

open Block

mutual

def wire : Elem → Bytes
  | .leaf type value => write type value
  | .node type elements => write type (wires elements)

def wires : List Elem → Bytes
  | [] => []
  | e :: es => wire e ++ wires es

end

mutual

/-- types of 32 bits and wires whose lengths are numbers of 32 bits, at every depth -/
def Fits : Elem → Prop
  | .leaf type value => type ≤ maxType ∧ (write type value).length < 2 ^ 32
  | .node type elements => type ≤ maxType ∧ (write type (wires elements)).length < 2 ^ 32 ∧ AllFit elements

def AllFit : List Elem → Prop
  | [] => True
  | e :: es => Fits e ∧ AllFit es

end

mutual

/-- the element built bottom-up: a leaf from its value, a node by pushing its encoded elements back one by one -/
def build : Elem → Except String Block
  | .leaf type value => (ofValue type value).encode
  | .node type elements =>
    match buildAll elements with
    | .error e => .error e
    | .ok bs => (bs.foldl pushBack (ofType type)).encode

def buildAll : List Elem → Except String (List Block)
  | [] => .ok []
  | e :: es =>
    match build e with
    | .error err => .error err
    | .ok b => (buildAll es).map (b :: ·)

end

mutual

/-- the block is this element at every depth: its type, its bytes, and behind `parse` its elements in order -/
def Stands : Elem → Block → Prop
  | .leaf type value, b => b.type = type ∧ b.value = value
  | .node type elements, b => b.type = type ∧ ∃ b', b.parse = (b', none) ∧ StandAll elements b'.subBlocks

def StandAll : List Elem → List Block → Prop
  | [], bs => bs = []
  | e :: es, bs => ∃ b rest, bs = b :: rest ∧ Stands e b ∧ StandAll es rest

end

/-- the bytes of the element's value -/
def value : Elem → Bytes
  | .leaf _ value => value
  | .node _ elements => wires elements

def type : Elem → ℕ
  | .leaf type _ => type
  | .node type _ => type

theorem wire_eq (e : Elem) : e.wire = write e.type e.value := by
  cases e <;> rfl

theorem wires_eq (es : List Elem) : wires es = es.flatMap wire := by
  induction es with
  | nil => rfl
  | cons e es ih => rw [wires, ih, List.flatMap_cons]

theorem allFit_iff (es : List Elem) : AllFit es ↔ ∀ e ∈ es, e.Fits := by
  induction es with
  | nil => simp [AllFit]
  | cons e es ih => simp [AllFit, ih]

theorem fits_type {e : Elem} (h : e.Fits) :
    e.type ≤ maxType ∧ Uint64 e.value.length ∧ (Block.write e.type e.value).length < 2 ^ 32 := by
  have hfits : e.type ≤ maxType ∧ (Block.write e.type e.value).length < 2 ^ 32 := by
    cases e with
    | leaf type value => exact h
    | node type elements => exact ⟨h.1, h.2.1⟩
  exact ⟨hfits.1, uint64_of_write hfits.2, hfits.2⟩

/-- the block the element reader makes of the element's bytes -/
def read (e : Elem) : Block := ofWire e.type e.wire e.value

theorem readElement_wire {e : Elem} (h : e.Fits) (msg : String) (rest : Bytes) :
    readElement msg (e.wire ++ rest) = .ok (e.read, rest) := by
  rw [read, wire_eq]
  exact readElement_write (fits_type h).1 (fits_type h).2.1 msg rest

theorem encode_ofValue {type : ℕ} {value : Bytes} (htype : type ≤ maxType) (hlen : Uint64 value.length) :
    (ofValue type value).encode = .ok (ofWire type (Block.write type value) value) := by
  have h1 : readType (Block.write type value) = .ok (type, writeVarNumber value.length ++ value) := by
    rw [Block.write, List.append_assoc]
    exact readType_write htype _
  have h2 := readVarNumber_write hlen value
  have hbytes : (ofValue type value).encodedBytes = .ok (Block.write type value) := rfl
  have hwire : (ofValue type value).hasWire = false := rfl
  simp only [Block.encode, hwire, hbytes, h1, h2]
  rfl

/-- a block whose sub-elements all have a wire -/
theorem encode_of_wires {type : ℕ} {bs : List Block} (htype : type ≤ maxType)
    (hbs : ∀ b ∈ bs, ∃ span, b.buffer = some span ∧ span.wire ≠ [] ∧ span.wire.length < 2 ^ 32)
    (hlen : Uint64 (bs.flatMap Block.wire).length) :
    (⟨type, none, bs⟩ : Block).encode =
      .ok ⟨type, some ⟨Block.write type (bs.flatMap Block.wire), bs.flatMap Block.wire,
        (Block.write type (bs.flatMap Block.wire)).length % 2 ^ 32, fun _ => rfl⟩, bs⟩ := by
  have hsum : sumSizes bs = .ok (bs.flatMap Block.wire).length := by
    clear hlen
    induction bs with
    | nil => rfl
    | cons b bs ih =>
      obtain ⟨span, hspan, hne, hshort⟩ := hbs b (by simp)
      have hrest := ih (fun c hc => hbs c (by simp [hc]))
      simp only [sumSizes, Block.size, hspan, hrest, Except.map, span.size_eq hne, Nat.mod_eq_of_lt hshort]
      simp [Block.wire, hspan]
  have hflat : bs.flatMap encodeElement = bs.flatMap Block.wire := by
    apply List.flatMap_congr
    intro b hb
    obtain ⟨span, hspan, hne, hshort⟩ := hbs b hb
    have hwire : b.hasWire = true := by simp [Block.hasWire, hspan, hne]
    have hlen : b.wire.length < 2 ^ 32 := by simpa [Block.wire, hspan] using hshort
    rw [encodeElement, if_pos hwire, copied_eq hlen]
  have hbytes : (⟨type, none, bs⟩ : Block).encodedBytes = .ok (Block.write type (bs.flatMap Block.wire)) := by
    rw [encodedBytes]
    by_cases hnil : bs = []
    · subst hnil
      simp [hasValue, Block.write]
    · have hlength : bs.length ≠ 0 := by simpa using hnil
      simp only [hasValue, Option.isSome_none, Bool.false_eq_true, if_false, hlength, hsum, hflat, Block.write]
  have h1 : readType (Block.write type (bs.flatMap Block.wire)) =
      .ok (type, writeVarNumber (bs.flatMap Block.wire).length ++ bs.flatMap Block.wire) := by
    rw [Block.write, List.append_assoc]
    exact readType_write htype _
  have h2 := readVarNumber_write hlen (bs.flatMap Block.wire)
  have hwire : (⟨type, none, bs⟩ : Block).hasWire = false := rfl
  simp only [Block.encode, hwire, hbytes, h1, h2]
  rfl

theorem foldl_pushBack (b : Block) (bs : List Block) (h : b.buffer = none) :
    bs.foldl pushBack b = ⟨b.type, none, b.subBlocks ++ bs⟩ := by
  induction bs generalizing b with
  | nil =>
    obtain ⟨type, buffer, subBlocks⟩ := b
    simp only at h
    subst h
    simp
  | cons c bs ih =>
    rw [List.foldl_cons, ih _ rfl]
    simp [pushBack, resetWire]

/-! ### Built at every depth -/

mutual

theorem build_ok : ∀ (e : Elem), e.Fits → ∃ subBlocks, e.build = .ok { e.read with subBlocks := subBlocks }
  | .leaf type value, h => ⟨[], encode_ofValue h.1 (uint64_of_write h.2)⟩
  | .node type elements, h => by
    obtain ⟨htype, hlen, hfit⟩ := h
    obtain ⟨bs, hbs, hwires, hgood⟩ := buildAll_ok elements hfit
    refine ⟨bs, ?_⟩
    have henc := encode_of_wires htype hgood (by rw [hwires]; exact uint64_of_write hlen)
    rw [hwires] at henc
    simp only [build, hbs, foldl_pushBack _ _ (show (ofType type).buffer = none from rfl)]
    exact henc

theorem buildAll_ok : ∀ (es : List Elem), AllFit es → ∃ bs, buildAll es = .ok bs ∧
    bs.flatMap Block.wire = wires es ∧
    ∀ b ∈ bs, ∃ span, b.buffer = some span ∧ span.wire ≠ [] ∧ span.wire.length < 2 ^ 32
  | [], _ => ⟨[], rfl, rfl, by simp⟩
  | e :: es, h => by
    obtain ⟨subBlocks, he⟩ := build_ok e h.1
    obtain ⟨bs, hbs, hwires, hgood⟩ := buildAll_ok es h.2
    refine ⟨{ e.read with subBlocks := subBlocks } :: bs, ?_, ?_, ?_⟩
    · simp only [buildAll, he, hbs, Except.map]
    · rw [List.flatMap_cons, hwires, wires]
      rfl
    · intro b hb
      obtain rfl | hb := List.mem_cons.mp hb
      · refine ⟨⟨e.wire, e.value, e.wire.length % 2 ^ 32, fun _ => rfl⟩, rfl, ?_, ?_⟩
        · rw [wire_eq]
          exact write_ne_nil _ _
        · rw [wire_eq]
          exact (fits_type h.1).2.2
      · exact hgood b hb

end

mutual

theorem stands_read : ∀ (e : Elem), e.Fits → e.Stands e.read
  | .leaf _ _, _ => ⟨rfl, rfl⟩
  | .node type elements, h => by
    have hall : Block.elements.all (wires elements) = (elements.map read, none) := by
      rw [wires_eq]
      apply Reader.all_flatMap
      intro e he rest
      exact readElement_wire ((allFit_iff elements).mp h.2.2 e he) _ rest
    exact ⟨rfl, _, parse_of_found rfl hall, standAll_read elements h.2.2⟩

theorem standAll_read : ∀ (es : List Elem), AllFit es → StandAll es (es.map read)
  | [], _ => rfl
  | e :: es, h => ⟨e.read, es.map read, rfl, stands_read e h.1, standAll_read es h.2⟩

end

/-- **Built and read.** An element built bottom-up, read off the front of a buffer with anything behind it, is the same
element at every depth. -/
theorem build_reads {e : Elem} (h : e.Fits) (rest : Bytes) :
    ∃ b r, e.build = .ok b ∧ b.wire = e.wire ∧ ofBuffer (b.wire ++ rest) = .ok r ∧
      fromBuffer (b.wire ++ rest) = some r ∧ r.wire = b.wire ∧ e.Stands r := by
  obtain ⟨subBlocks, hb⟩ := build_ok e h
  have hread : ofBuffer (e.wire ++ rest) = .ok e.read := by rw [ofBuffer, readElement_wire h]; rfl
  exact ⟨_, e.read, hb, rfl, hread, fromBuffer_eq_some.mpr hread, rfl, stands_read e h⟩

/-- two components in a name, and four more bytes behind it -/
theorem build_reads_name :
    ∃ b r, build (.node 7 [.leaf 8 [97], .leaf 8 []]) = .ok b ∧ b.wire = [7, 5, 8, 1, 97, 8, 0] ∧
      ofBuffer (b.wire ++ [6, 2, 0, 0]) = .ok r ∧ fromBuffer (b.wire ++ [6, 2, 0, 0]) = some r ∧ r.wire = b.wire ∧
      Stands (.node 7 [.leaf 8 [97], .leaf 8 []]) r :=
  build_reads (e := .node 7 [.leaf 8 [97], .leaf 8 []])
    (by simp [Fits, AllFit, wires, wire, Block.write, maxType, writeVarNumber]) [6, 2, 0, 0]

end Elem

end NdnDash.Wire
