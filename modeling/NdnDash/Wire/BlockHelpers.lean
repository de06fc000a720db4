/-
ndn-cxx's `encoding/block-helpers.cpp`, the elements made from one value, and `Block::fromStream`, which makes its
result with them. `std::istream_iterator` holds the byte in front of the stream: to step over one byte is to take the
next one out of the stream.

Result:
- `readStream_written_iff`: elements written one after the other are read back from a stream if and only if all but
  the last have a value; behind an empty value a byte of the next element is lost.
-/
import NdnDash.Wire.Encoder

namespace NdnDash.Wire

open Tlv

/-! ## One value -/

/-- `valueLength = …; totalLength += prependVarNumber(valueLength); totalLength += prependVarNumber(type)`, as every
element that is encoded inside out ends -/
def prependHeader {σ : Type} (E : EncodingImpl σ) (type : ℕ) (value : StateM σ ℕ) : StateM σ ℕ := do
  let valueLength ← value
  let totalLength := valueLength
  let totalLength := totalLength + (← E (.prependVarNumber valueLength))
  let totalLength := totalLength + (← E (.prependVarNumber type))
  pure totalLength

/-- `if (condition) totalLength += …` -/
def prependIf {σ : Type} (condition : Bool) (p : StateM σ ℕ) : StateM σ ℕ := if condition then p else pure 0

def prependNonNegativeIntegerBlock {σ : Type} (E : EncodingImpl σ) (type value : ℕ) : StateM σ ℕ :=
  prependHeader E type (E (.prependNonNegativeInteger value))

def prependEmptyBlock {σ : Type} (E : EncodingImpl σ) (type : ℕ) : StateM σ ℕ := do
  let totalLength ← E (.prependVarNumber 0)
  let totalLength := totalLength + (← E (.prependVarNumber type))
  pure totalLength

def makeEmptyBlock (type : ℕ) : Except String Block := encodeBlock (fun E => prependEmptyBlock E type)

def makeBinaryBlock (type : ℕ) (value : Bytes) : Except String Block :=
  encodeBlock (fun E => E (.prependByteArrayBlock type value))

/-- `readNonNegativeInteger(block)` -/
def readNonNegativeInteger (b : Block) : Except String ℕ :=
  (Tlv.readNonNegativeInteger b.value.length b.value).map Prod.fst

section Writes

variable {σ : Type} {E : EncodingImpl σ} {R : σ → Bytes → Prop} (hE : LawfulFront E R)

include hE

omit hE in
theorem adds_prependIf (condition : Bool) {p : StateM σ ℕ} {bs : Bytes} (h : condition = true → Adds R p 0 bs []) :
    Adds R (prependIf condition p) 0 (if condition then bs else []) [] := by
  cases condition with
  | false => exact adds_pure rfl
  | true => exact h rfl

theorem adds_prependHeader {value : StateM σ ℕ} {bs : Bytes} (type : ℕ) (h : Adds R value 0 bs []) :
    Adds R (prependHeader E type value) 0 (Block.write type bs) [] := by
  have hlength : Adds R (E (.prependVarNumber (bs.length + ([] : Bytes).length))) 0 (writeVarNumber bs.length) [] :=
    hE (.prependVarNumber bs.length) rfl
  have htype : Adds R (E (.prependVarNumber type)) 0 (writeVarNumber type) [] := hE (.prependVarNumber type) rfl
  refine adds_bind h (adds_bind hlength (adds_bind htype (adds_pure ?_) rfl rfl) rfl rfl) ?_ rfl
  · simp
  · simp [Block.write]

theorem adds_prependNonNegativeIntegerBlock (type value : ℕ) :
    Adds R (prependNonNegativeIntegerBlock E type value) 0 (Block.write type (nonNegativeInteger value)) [] :=
  adds_prependHeader hE type (hE (.prependNonNegativeInteger value) rfl)

theorem adds_prependEmptyBlock (type : ℕ) : Adds R (prependEmptyBlock E type) 0 (Block.write type []) [] := by
  have hlength : Adds R (E (.prependVarNumber 0)) 0 (writeVarNumber 0) [] := hE (.prependVarNumber 0) rfl
  have htype : Adds R (E (.prependVarNumber type)) 0 (writeVarNumber type) [] := hE (.prependVarNumber type) rfl
  refine adds_bind hlength (adds_bind htype (adds_pure ?_) rfl rfl) ?_ rfl
  · simp
  · simp [Block.write]

end Writes

theorem uint64_of_length {bs : Bytes} {n : ℕ} (h : bs.length ≤ n) (hn : n < 2 ^ 64) : Uint64 bs.length := by
  unfold Uint64
  omega

theorem length_nonNegativeInteger (n : ℕ) : (nonNegativeInteger n).length ≤ 8 := by
  unfold nonNegativeInteger
  split_ifs <;> simp

/-- the length of its element gives a non-negative integer back -/
theorem readNonNegativeInteger_nonNegativeInteger {n : ℕ} (h : Uint64 n) (rest : Bytes) :
    Tlv.readNonNegativeInteger (nonNegativeInteger n).length (nonNegativeInteger n ++ rest) = .ok (n, rest) := by
  have hfixed : ∀ k, n < 256 ^ k → readFixed k (beBytes k n ++ rest) = some (n, rest) :=
    fun k hk => readFixed_beBytes hk rest
  unfold nonNegativeInteger
  split_ifs with h1 h2 h3
  · rw [length_beBytes, Tlv.readNonNegativeInteger, if_pos (by simp), hfixed 1 (by norm_num; omega)]
  · rw [length_beBytes, Tlv.readNonNegativeInteger, if_pos (by simp), hfixed 2 (by norm_num; omega)]
  · rw [length_beBytes, Tlv.readNonNegativeInteger, if_pos (by simp), hfixed 4 (by norm_num; omega)]
  · rw [length_beBytes, Tlv.readNonNegativeInteger, if_pos (by simp), hfixed 8 (by norm_num; exact h)]

theorem readNonNegativeInteger_of_value {b : Block} {n : ℕ} (hn : Uint64 n) (h : b.value = nonNegativeInteger n) :
    readNonNegativeInteger b = .ok n := by
  have := readNonNegativeInteger_nonNegativeInteger hn []
  rw [List.append_nil] at this
  rw [readNonNegativeInteger, h, this]
  rfl

theorem makeEmptyBlock_eq {type : ℕ} (htype : type ≤ maxType) :
    makeEmptyBlock type = .ok (Block.ofWire type (Block.write type []) []) :=
  encodeBlock_eq (fun _ _ hE => adds_prependEmptyBlock hE type) htype (by simp [Uint64])

theorem makeBinaryBlock_eq {type : ℕ} {value : Bytes} (htype : type ≤ maxType) (hlen : Uint64 value.length) :
    makeBinaryBlock type value = .ok (Block.ofWire type (Block.write type value) value) :=
  encodeBlock_eq (fun _ _ hE => hE (.prependByteArrayBlock type value) rfl) htype hlen

/-! ## Elements from a stream -/

/-- what `Block::fromStream` ends in besides a block: the error it throws, or `*begin` read at the end of the stream,
which C++ leaves undefined -/
inductive StreamFault where
  | thrown (what : String)
  | pastEnd
deriving DecidableEq

def maxSizeOfBlockFromStream : ℕ := 8800

def streamTooLarge : String := "Length of block from stream is too large"

def readVarNumberStream (bs : Bytes) : Except String (ℕ × Bytes) :=
  if bs = [] then .error emptyBuffer
  else match readVarNumberStream? bs with
    | none => .error insufficientData
    | some p => .ok p

def readTypeStream (bs : Bytes) : Except String (ℕ × Bytes) :=
  match readVarNumberStream bs with
  | .error e => .error e
  | .ok (type, rest) => if maxType < type then .error typeTooLarge else .ok (type, rest)

/-- `fromStream(is)`: the block, and what is left in the stream. An `istream_iterator` has taken its byte out of the
stream before `*begin` is asked for: the byte behind the numbers is gone also where there is no value for it. -/
def fromStream (bs : Bytes) : Except StreamFault (Block × Bytes) :=
  match readTypeStream bs with
  | .error e => .error (.thrown e)
  | .ok (type, bs1) =>
    match readVarNumberStream bs1 with
    | .error e => .error (.thrown e)
    | .ok (length, bs2) =>
      if length = 0 then
        match makeEmptyBlock type with
        | .error e => .error (.thrown e)
        | .ok b => .ok (b, bs2.tail)
      else if maxSizeOfBlockFromStream < length then .error (.thrown streamTooLarge)
      else if bs2 = [] then .error .pastEnd
      else if bs2.length < length then .error (.thrown Block.notEnoughData)
      else
        match makeBinaryBlock type (bs2.take length) with
        | .error e => .error (.thrown e)
        | .ok b => .ok (b, bs2.drop length)

/-- `n` elements, one `fromStream` after the other -/
def readStream : ℕ → Bytes → Except StreamFault (List Block × Bytes)
  | 0, bs => .ok ([], bs)
  | n + 1, bs =>
    match fromStream bs with
    | .error e => .error e
    | .ok (b, rest) =>
      match readStream n rest with
      | .error e => .error e
      | .ok (found, left) => .ok (b :: found, left)

theorem readVarNumberStream_eq (bs : Bytes) : readVarNumberStream bs = readVarNumber bs := by
  rw [readVarNumberStream, readVarNumberStream?_eq]
  rfl

theorem readTypeStream_eq (bs : Bytes) : readTypeStream bs = readType bs := by
  rw [readTypeStream, readVarNumberStream_eq]
  rfl

/-- a type and a value as a stream carries them -/
structure StreamElement where
  type : ℕ
  value : Bytes
  type_le : type ≤ maxType
  value_le : value.length ≤ maxSizeOfBlockFromStream

namespace StreamElement

def wire (e : StreamElement) : Bytes := Block.write e.type e.value

def block (e : StreamElement) : Block := Block.ofWire e.type e.wire e.value

theorem uint64_value (e : StreamElement) : Uint64 e.value.length :=
  uint64_of_length e.value_le (by norm_num [maxSizeOfBlockFromStream])

/-- one more byte is gone behind an empty value -/
theorem fromStream_wire (e : StreamElement) (rest : Bytes) :
    fromStream (e.wire ++ rest) = .ok (e.block, if e.value = [] then rest.tail else rest) := by
  have h1 : readType (e.wire ++ rest) = .ok (e.type, writeVarNumber e.value.length ++ (e.value ++ rest)) := by
    rw [wire, Block.write, List.append_assoc, List.append_assoc]
    exact readType_write e.type_le _
  have h2 := readVarNumber_write e.uint64_value (e.value ++ rest)
  simp only [fromStream, readTypeStream_eq, readVarNumberStream_eq, h1, h2]
  by_cases hnil : e.value = []
  · simp only [hnil, List.length_nil, if_true, makeEmptyBlock_eq e.type_le, List.nil_append, block, wire]
  · have hlen : e.value.length ≠ 0 := by simpa using hnil
    have hmax : ¬ maxSizeOfBlockFromStream < e.value.length := by have := e.value_le; omega
    have hne : e.value ++ rest ≠ [] := by simp [hnil]
    have hle : ¬ (e.value ++ rest).length < e.value.length := by rw [List.length_append]; omega
    simp only [hlen, hmax, hne, hle, hnil, if_false, List.take_left', List.drop_left',
      makeBinaryBlock_eq e.type_le e.uint64_value, block, wire]

end StreamElement

/-- what one `fromStream` takes out of the stream: no less than the element's shortest bytes, and one byte more behind
an empty value that is not the end of the stream -/
theorem length_fromStream {e : StreamElement} {bs rest : Bytes} (h : fromStream bs = .ok (e.block, rest)) :
    e.wire.length + rest.length ≤ bs.length ∧
      (e.value = [] → rest ≠ [] → e.wire.length + rest.length < bs.length) := by
  rw [fromStream, readTypeStream_eq] at h
  cases htype : readType bs with
  | error err => simp [htype] at h
  | ok p =>
    obtain ⟨type, bs1⟩ := p
    simp only [htype, readVarNumberStream_eq] at h
    cases hlen : readVarNumber bs1 with
    | error err => simp [hlen] at h
    | ok q =>
      obtain ⟨length, bs2⟩ := q
      simp only [hlen] at h
      obtain ⟨num, rfl, hnum⟩ := readVarNumber?_exact (readType_ok.mp htype).1
      obtain ⟨num', rfl, hnum'⟩ := readVarNumber?_exact (readVarNumber_ok.mp hlen)
      have hmaxType := (readType_ok.mp htype).2
      split_ifs at h with hzero hmax hnil hshort
      · rw [makeEmptyBlock_eq hmaxType] at h
        simp only [Except.ok.injEq, Prod.mk.injEq, StreamElement.block, Block.ofWire, Block.mk.injEq,
          Option.some.injEq, Span.mk.injEq] at h
        obtain ⟨⟨hT, ⟨hW, hV, -⟩, -⟩, rfl⟩ := h
        subst hzero
        have hsize := congrArg List.length hW
        rw [Block.length_write] at hsize
        simp only [List.length_nil, List.length_append] at hsize hnum hnum' ⊢
        constructor
        · have := bs2.length_tail
          omega
        · intro _ hne
          have := bs2.length_tail
          have hpos : 0 < bs2.tail.length := List.length_pos_iff.mpr hne
          omega
      · rw [makeBinaryBlock_eq hmaxType (uint64_of_length (List.length_take_le length bs2)
          (by norm_num [maxSizeOfBlockFromStream] at hmax; omega))] at h
        simp only [Except.ok.injEq, Prod.mk.injEq, StreamElement.block, Block.ofWire, Block.mk.injEq,
          Option.some.injEq, Span.mk.injEq] at h
        obtain ⟨⟨hT, ⟨hW, hV, -⟩, -⟩, rfl⟩ := h
        have hsize := congrArg List.length hW
        rw [Block.length_write] at hsize
        have htake : (bs2.take length).length = length := by rw [List.length_take]; omega
        rw [htake] at hsize
        simp only [List.length_append, List.length_drop]
        constructor
        · omega
        · intro hempty
          rw [← hV] at hempty
          rw [hempty] at htake
          exact absurd htake.symm hzero

namespace StreamElement

/-- the elements are read back from a stream that holds at least as many bytes, with one to spare for every empty value
that is not the last -/
theorem length_readStream {es : List StreamElement} {bs left : Bytes}
    (h : readStream es.length bs = .ok (es.map block, left)) :
    (es.flatMap wire).length + (es.dropLast.filter (fun e => e.value.isEmpty)).length + left.length ≤ bs.length := by
  induction es generalizing bs with
  | nil =>
    simp only [List.length_nil, readStream, Except.ok.injEq, Prod.mk.injEq] at h
    simp [h.2]
  | cons e es ih =>
    simp only [List.length_cons, readStream] at h
    cases hfirst : fromStream bs with
    | error err => simp [hfirst] at h
    | ok p =>
      obtain ⟨b, rest⟩ := p
      simp only [hfirst] at h
      cases hothers : readStream es.length rest with
      | error err => simp [hothers] at h
      | ok q =>
        obtain ⟨found, left'⟩ := q
        simp only [hothers, List.map_cons, Except.ok.injEq, Prod.mk.injEq, List.cons.injEq] at h
        obtain ⟨⟨rfl, rfl⟩, rfl⟩ := h
        have hrest := ih hothers
        obtain ⟨hle, hlt⟩ := length_fromStream hfirst
        cases es with
        | nil =>
          simp only [List.flatMap_cons, List.flatMap_nil, List.append_nil, List.dropLast_singleton, List.dropLast_nil,
            List.filter_nil, List.length_nil] at hrest ⊢
          omega
        | cons e' es =>
          rw [List.dropLast_cons_cons, List.flatMap_cons, List.length_append]
          by_cases hempty : e.value = []
          · have hnonempty : rest ≠ [] := by
              intro hnil
              rw [hnil, List.flatMap_cons, List.length_append, wire, Block.length_write] at hrest
              have := sizeOfVarNumber_pos e'.type
              simp at hrest
              omega
            have hspare := hlt hempty hnonempty
            simp only [hempty, List.isEmpty_nil, List.filter_cons_of_pos, List.length_cons] at hrest ⊢
            omega
          · have hfilter : (e.value.isEmpty) = false := by simpa using hempty
            simp only [hfilter, Bool.false_eq_true, not_false_eq_true, List.filter_cons_of_neg] at hrest ⊢
            omega

theorem readStream_written {es : List StreamElement} (h : ∀ e ∈ es.dropLast, e.value ≠ []) :
    readStream es.length (es.flatMap wire) = .ok (es.map block, []) := by
  induction es with
  | nil => rfl
  | cons e es ih =>
    have hothers : readStream es.length (es.flatMap wire) = .ok (es.map block, []) := by
      apply ih
      intro e' he'
      cases es with
      | nil => cases he'
      | cons e'' es =>
        apply h
        rw [List.dropLast_cons_cons]
        exact List.mem_cons_of_mem e he'
    have hrest : (if e.value = [] then (es.flatMap wire).tail else es.flatMap wire) = es.flatMap wire := by
      cases es with
      | nil => simp
      | cons e' es =>
        have hne : e.value ≠ [] := h e (by rw [List.dropLast_cons_cons]; exact List.mem_cons_self)
        rw [if_neg hne]
    simp only [List.length_cons, readStream, List.flatMap_cons, fromStream_wire, hrest, hothers, List.map_cons]

/-- **Elements in a stream.** Written one after the other they are read back, exactly when only the last may be without
value. -/
theorem readStream_written_iff (es : List StreamElement) :
    readStream es.length (es.flatMap wire) = .ok (es.map block, []) ↔ ∀ e ∈ es.dropLast, e.value ≠ [] := by
  constructor
  · intro h e he hempty
    have hcount := length_readStream h
    have hpos : 0 < (es.dropLast.filter (fun e => e.value.isEmpty)).length := by
      apply List.length_pos_iff.mpr
      apply List.ne_nil_of_mem (a := e)
      rw [List.mem_filter]
      exact ⟨he, by simp [hempty]⟩
    omega
  · intro h
    exact readStream_written h

end StreamElement

end NdnDash.Wire
