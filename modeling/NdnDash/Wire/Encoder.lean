/-
ndn-cxx's encoders (`encoding/encoder.cpp`, `estimator.cpp`). `Encoder` is a buffer written from
the inside out: bytes are prepended before `m_begin` or appended at `m_end`, and the buffer is replaced by a larger one
when there is no room. `Estimator` has the same calls and only counts. Every `wireEncode` is written against
`EncodingImpl`, the calls the two have in common, and is run twice: once to find the size, once to write.

What a call does is said once, as `Prepends`/`Appends` over a relation between the encoder's state and the bytes it
holds; both encoders obey it (`encoder_lawful`, `estimator_lawful`), so one lemma about a `wireEncode` gives its bytes
and its estimate.

Results:
- `encoder_run`: after any calls the encoder holds what was prepended, last first, then what was appended, and the
  estimator's answers to the same calls add up to its size.
- `encodeBuffer_eq`: what is run twice so fills the estimated buffer exactly, and no larger buffer is made.
-/
import NdnDash.Wire.Block

namespace NdnDash.Wire

open Tlv

/-! ## Model -/

/-- `Encoder`: `m_buffer`, and `m_begin`, `m_end` as offsets into it -/
structure Encoder where
  buffer : Bytes
  mBegin : ℕ
  mEnd : ℕ
  begin_le : mBegin ≤ mEnd
  end_le : mEnd ≤ buffer.length

namespace Encoder

/-- `Buffer(size)` -/
def zeros (size : ℕ) : Bytes := List.replicate size 0

@[simp] theorem length_zeros (size : ℕ) : (zeros size).length = size := List.length_replicate

/-- `Encoder(totalReserve, reserveFromBack)` -/
def new (totalReserve reserveFromBack : ℕ) : Encoder where
  buffer := zeros totalReserve
  mBegin := totalReserve - (if reserveFromBack < totalReserve then reserveFromBack else 0)
  mEnd := totalReserve - (if reserveFromBack < totalReserve then reserveFromBack else 0)
  begin_le := le_refl _
  end_le := by simp

/-- the encoded bytes, from `begin()` to `end()` -/
def contents (e : Encoder) : Bytes := (e.buffer.take e.mEnd).drop e.mBegin

/-- `reserve(size, true)`: the old buffer at the back of the new one -/
def reserveInFront (e : Encoder) (size : ℕ) : Encoder where
  buffer := zeros (max size e.buffer.length - e.buffer.length) ++ e.buffer
  mBegin := max size e.buffer.length - (e.buffer.length - e.mBegin)
  mEnd := max size e.buffer.length - (e.buffer.length - e.mEnd)
  begin_le := by have := e.begin_le; omega
  end_le := by have := e.end_le; simp only [List.length_append, length_zeros]; omega

/-- `reserve(size, false)`: the old buffer at the front of the new one -/
def reserveAtBack (e : Encoder) (size : ℕ) : Encoder where
  buffer := e.buffer ++ zeros (max size e.buffer.length - e.buffer.length)
  mBegin := e.mBegin
  mEnd := e.mEnd
  begin_le := e.begin_le
  end_le := by have := e.end_le; simp only [List.length_append, length_zeros]; omega

def reserveFront (e : Encoder) (size : ℕ) : Encoder :=
  if e.mBegin < size then e.reserveInFront (e.buffer.length * 2 + size) else e

def reserveBack (e : Encoder) (size : ℕ) : Encoder :=
  if e.buffer.length < e.mEnd + size then e.reserveAtBack (e.buffer.length * 2 + size) else e

/-- `std::copy(array, array + length, buffer + offset)` -/
def overwrite (buffer : Bytes) (offset : ℕ) (array : Bytes) : Bytes :=
  buffer.take offset ++ array ++ buffer.drop (offset + array.length)

theorem length_overwrite {buffer array : Bytes} {offset : ℕ} (h : offset + array.length ≤ buffer.length) :
    (overwrite buffer offset array).length = buffer.length := by
  simp only [overwrite, List.length_append, List.length_take, List.length_drop]
  omega

theorem reserveFront_room (e : Encoder) (size : ℕ) : size ≤ (e.reserveFront size).mBegin := by
  unfold reserveFront
  split
  · have := e.begin_le
    have := e.end_le
    simp only [reserveInFront]
    omega
  · omega

theorem reserveBack_room (e : Encoder) (size : ℕ) :
    (e.reserveBack size).mEnd + size ≤ (e.reserveBack size).buffer.length := by
  unfold reserveBack
  split
  · have := e.end_le
    simp only [reserveAtBack, List.length_append, length_zeros]
    omega
  · omega

def prependByteArray (array : Bytes) : StateM Encoder ℕ := fun e =>
  let e' := e.reserveFront array.length
  (array.length,
    { buffer := overwrite e'.buffer (e'.mBegin - array.length) array
      mBegin := e'.mBegin - array.length
      mEnd := e'.mEnd
      begin_le := by have := e'.begin_le; omega
      end_le := by
        have hroom : array.length ≤ e'.mBegin := e.reserveFront_room array.length
        have := e'.begin_le
        have := e'.end_le
        rw [length_overwrite (by omega)]
        omega })

def appendByteArray (array : Bytes) : StateM Encoder ℕ := fun e =>
  let e' := e.reserveBack array.length
  (array.length,
    { buffer := overwrite e'.buffer e'.mEnd array
      mBegin := e'.mBegin
      mEnd := e'.mEnd + array.length
      begin_le := by have := e'.begin_le; omega
      end_le := by
        have hroom : e'.mEnd + array.length ≤ e'.buffer.length := e.reserveBack_room array.length
        rw [length_overwrite hroom]
        exact hroom })

def prependByte (value : UInt8) : StateM Encoder ℕ := prependByteArray [value]

def appendByte (value : UInt8) : StateM Encoder ℕ := appendByteArray [value]

def prependVarNumber (n : ℕ) : StateM Encoder ℕ :=
  if n < 253 then do
    let _ ← prependByte (UInt8.ofNat n)
    pure 1
  else if n ≤ 2 ^ 16 - 1 then do
    let _ ← prependByteArray (beBytes 2 n)
    let _ ← prependByte 253
    pure 3
  else if n ≤ 2 ^ 32 - 1 then do
    let _ ← prependByteArray (beBytes 4 n)
    let _ ← prependByte 254
    pure 5
  else do
    let _ ← prependByteArray (beBytes 8 n)
    let _ ← prependByte 255
    pure 9

def appendVarNumber (n : ℕ) : StateM Encoder ℕ :=
  if n < 253 then do
    let _ ← appendByte (UInt8.ofNat n)
    pure 1
  else if n ≤ 2 ^ 16 - 1 then do
    let _ ← appendByte 253
    let _ ← appendByteArray (beBytes 2 n)
    pure 3
  else if n ≤ 2 ^ 32 - 1 then do
    let _ ← appendByte 254
    let _ ← appendByteArray (beBytes 4 n)
    pure 5
  else do
    let _ ← appendByte 255
    let _ ← appendByteArray (beBytes 8 n)
    pure 9

def prependNonNegativeInteger (n : ℕ) : StateM Encoder ℕ :=
  if n ≤ 2 ^ 8 - 1 then prependByte (UInt8.ofNat n)
  else if n ≤ 2 ^ 16 - 1 then prependByteArray (beBytes 2 n)
  else if n ≤ 2 ^ 32 - 1 then prependByteArray (beBytes 4 n)
  else prependByteArray (beBytes 8 n)

def appendNonNegativeInteger (n : ℕ) : StateM Encoder ℕ :=
  if n ≤ 2 ^ 8 - 1 then appendByte (UInt8.ofNat n)
  else if n ≤ 2 ^ 16 - 1 then appendByteArray (beBytes 2 n)
  else if n ≤ 2 ^ 32 - 1 then appendByteArray (beBytes 4 n)
  else appendByteArray (beBytes 8 n)

def prependByteArrayBlock (type : ℕ) (array : Bytes) : StateM Encoder ℕ := do
  let totalLength ← prependByteArray array
  let totalLength := totalLength + (← prependVarNumber array.length)
  let totalLength := totalLength + (← prependVarNumber type)
  pure totalLength

def appendByteArrayBlock (type : ℕ) (array : Bytes) : StateM Encoder ℕ := do
  let totalLength ← appendVarNumber type
  let totalLength := totalLength + (← appendVarNumber array.length)
  let totalLength := totalLength + (← appendByteArray array)
  pure totalLength

/-- `block.size()` bytes from `block.wire()` on, or the block from its type and value -/
def prependBlock (block : Block) : StateM Encoder ℕ :=
  if block.hasWire then prependByteArray block.copied else prependByteArrayBlock block.type block.value

def appendBlock (block : Block) : StateM Encoder ℕ :=
  if block.hasWire then appendByteArray block.copied else appendByteArrayBlock block.type block.value

/-- `block()`: the constructor of a block over a range of a buffer -/
def block (e : Encoder) : Except String Block := Block.ofRange e.contents

end Encoder

namespace Estimator

def prependVarNumber (n : ℕ) : ℕ := if n < 253 then 1 else if n ≤ 2 ^ 16 - 1 then 3 else if n ≤ 2 ^ 32 - 1 then 5 else 9

def prependNonNegativeInteger (n : ℕ) : ℕ :=
  if n ≤ 2 ^ 8 - 1 then 1 else if n ≤ 2 ^ 16 - 1 then 2 else if n ≤ 2 ^ 32 - 1 then 4 else 8

def prependByteArrayBlock (type : ℕ) (array : Bytes) : ℕ :=
  array.length + prependVarNumber array.length + prependVarNumber type

/-- the size of a block that has a wire is its `m_size` -/
def prependBlock (block : Block) : ℕ :=
  match block.buffer with
  | some span => if block.hasWire then span.size else prependByteArrayBlock block.type block.value
  | none => prependByteArrayBlock block.type block.value

end Estimator

/-- one call of the interface that the two encoders share -/
inductive Call where
  | prependByte (value : UInt8)
  | appendByte (value : UInt8)
  | prependByteArray (array : Bytes)
  | appendByteArray (array : Bytes)
  | prependVarNumber (n : ℕ)
  | appendVarNumber (n : ℕ)
  | prependNonNegativeInteger (n : ℕ)
  | appendNonNegativeInteger (n : ℕ)
  | prependByteArrayBlock (type : ℕ) (array : Bytes)
  | appendByteArrayBlock (type : ℕ) (array : Bytes)
  | prependBlock (block : Block)
  | appendBlock (block : Block)

/-- `EncodingImpl<TAG>`: what a call does and the size it answers -/
abbrev EncodingImpl (σ : Type) := Call → StateM σ ℕ

def encoder : EncodingImpl Encoder
  | .prependByte value => Encoder.prependByte value
  | .appendByte value => Encoder.appendByte value
  | .prependByteArray array => Encoder.prependByteArray array
  | .appendByteArray array => Encoder.appendByteArray array
  | .prependVarNumber n => Encoder.prependVarNumber n
  | .appendVarNumber n => Encoder.appendVarNumber n
  | .prependNonNegativeInteger n => Encoder.prependNonNegativeInteger n
  | .appendNonNegativeInteger n => Encoder.appendNonNegativeInteger n
  | .prependByteArrayBlock type array => Encoder.prependByteArrayBlock type array
  | .appendByteArrayBlock type array => Encoder.appendByteArrayBlock type array
  | .prependBlock block => Encoder.prependBlock block
  | .appendBlock block => Encoder.appendBlock block

def estimator : EncodingImpl Unit
  | .prependByte _ | .appendByte _ => pure 1
  | .prependByteArray array | .appendByteArray array => pure array.length
  | .prependVarNumber n | .appendVarNumber n => pure (Estimator.prependVarNumber n)
  | .prependNonNegativeInteger n | .appendNonNegativeInteger n => pure (Estimator.prependNonNegativeInteger n)
  | .prependByteArrayBlock type array | .appendByteArrayBlock type array =>
    pure (Estimator.prependByteArrayBlock type array)
  | .prependBlock block | .appendBlock block => pure (Estimator.prependBlock block)

/-! ## What a call does -/

/-- the shortest of the four widths, as the encoders choose it -/
def nonNegativeInteger (n : ℕ) : Bytes :=
  if n ≤ 2 ^ 8 - 1 then beBytes 1 n
  else if n ≤ 2 ^ 16 - 1 then beBytes 2 n
  else if n ≤ 2 ^ 32 - 1 then beBytes 4 n
  else beBytes 8 n

/-- what the call puts in front -/
def Call.front : Call → Bytes
  | .prependByte value => [value]
  | .prependByteArray array => array
  | .prependVarNumber n => writeVarNumber n
  | .prependNonNegativeInteger n => nonNegativeInteger n
  | .prependByteArrayBlock type array => Block.write type array
  | .prependBlock block => block.encodeElement
  | _ => []

/-- what the call puts behind -/
def Call.back : Call → Bytes
  | .appendByte value => [value]
  | .appendByteArray array => array
  | .appendVarNumber n => writeVarNumber n
  | .appendNonNegativeInteger n => nonNegativeInteger n
  | .appendByteArrayBlock type array => Block.write type array
  | .appendBlock block => block.encodeElement
  | _ => []

/-- From a state that holds `c`, the program ends in one that holds `front ++ c ++ back`; it adds up to the sizes of
both. -/
def Adds {σ : Type} (R : σ → Bytes → Prop) (p : StateM σ ℕ) (total : ℕ) (front back : Bytes) : Prop :=
  ∀ s c, R s c → (p s).1 = total + (front.length + back.length) ∧ R (p s).2 (front ++ c ++ back)

/-- every call does what it should to the bytes that the state holds -/
def Lawful {σ : Type} (E : EncodingImpl σ) (R : σ → Bytes → Prop) : Prop :=
  ∀ call, Adds R (E call) 0 call.front call.back

def Call.isPrepend : Call → Bool
  | .prependByte _ | .prependByteArray _ | .prependVarNumber _ | .prependNonNegativeInteger _
  | .prependByteArrayBlock _ _ | .prependBlock _ => true
  | _ => false

/-- every call that prepends does -/
def LawfulFront {σ : Type} (E : EncodingImpl σ) (R : σ → Bytes → Prop) : Prop :=
  ∀ call : Call, call.isPrepend = true → Adds R (E call) 0 call.front []

theorem Lawful.front {σ : Type} {E : EncodingImpl σ} {R : σ → Bytes → Prop} (h : Lawful E R) : LawfulFront E R := by
  intro call hcall
  have hadds := h call
  cases call <;> first | exact hadds | cases hcall

section Adds

variable {σ : Type} {R : σ → Bytes → Prop}

theorem adds_pure {n total : ℕ} (h : n = total) : Adds R (pure n) total [] [] := by
  subst h
  intro s c hc
  refine ⟨rfl, ?_⟩
  rw [List.append_nil]
  exact hc

/-- One call and the program behind it: the call's bytes are inside the rest's. -/
theorem adds_bind {p : StateM σ ℕ} {k : ℕ → StateM σ ℕ} {front back front' back' Front Back : Bytes} {total : ℕ}
    (hp : Adds R p 0 front back)
    (hk : Adds R (k (front.length + back.length)) (total + (front.length + back.length)) front' back')
    (hfront : Front = front' ++ front) (hback : Back = back ++ back') : Adds R (p >>= k) total Front Back := by
  subst hfront hback
  intro s c h
  obtain ⟨hsize, hstate⟩ := hp s c h
  rw [Nat.zero_add] at hsize
  obtain ⟨hsize', hstate'⟩ := hk _ _ hstate
  have hrun : (p >>= k) s = k (p s).1 (p s).2 := rfl
  rw [hrun, hsize]
  constructor
  · rw [hsize']
    simp only [List.length_append]
    omega
  · simpa only [List.append_assoc] using hstate'

end Adds

namespace Encoder

/-! ### The buffer around the contents -/

theorem contents_of_split {e : Encoder} {a c z : Bytes} (hbuffer : e.buffer = a ++ c ++ z) (ha : e.mBegin = a.length)
    (hc : e.mEnd = (a ++ c).length) : e.contents = c := by
  rw [contents, hbuffer, hc, ha, List.take_left', List.drop_left'] <;> rfl

theorem split (e : Encoder) :
    ∃ a z, e.buffer = a ++ e.contents ++ z ∧ e.mBegin = a.length ∧ e.mEnd = (a ++ e.contents).length := by
  have hbegin := e.begin_le
  have hend := e.end_le
  have htake : (e.buffer.take e.mEnd).take e.mBegin ++ e.contents = e.buffer.take e.mEnd :=
    List.take_append_drop e.mBegin (e.buffer.take e.mEnd)
  refine ⟨(e.buffer.take e.mEnd).take e.mBegin, e.buffer.drop e.mEnd, ?_, ?_, ?_⟩
  · rw [htake, List.take_append_drop]
  · simp only [List.length_take]
    omega
  · rw [htake, List.length_take]
    omega

theorem new_contents (totalReserve reserveFromBack : ℕ) : (new totalReserve reserveFromBack).contents = [] := by
  apply List.eq_nil_of_length_eq_zero
  simp only [contents, new, List.length_drop, List.length_take]
  omega

theorem reserveFront_contents (e : Encoder) (size : ℕ) : (e.reserveFront size).contents = e.contents := by
  unfold reserveFront
  split
  · obtain ⟨a, z, hbuffer, ha, hc⟩ := e.split
    have hlen : e.buffer.length = (a ++ e.contents ++ z).length := by rw [← hbuffer]
    simp only [List.length_append] at hlen hc
    apply contents_of_split (a := zeros (max (e.buffer.length * 2 + size) e.buffer.length - e.buffer.length) ++ a)
      (z := z)
    · simp only [reserveInFront]
      rw [List.append_assoc, List.append_assoc, ← List.append_assoc a, ← hbuffer]
    · simp only [reserveInFront, List.length_append, length_zeros]
      omega
    · simp only [reserveInFront, List.length_append, length_zeros]
      omega
  · rfl

theorem reserveBack_contents (e : Encoder) (size : ℕ) : (e.reserveBack size).contents = e.contents := by
  unfold reserveBack
  split
  · obtain ⟨a, z, hbuffer, ha, hc⟩ := e.split
    apply contents_of_split (a := a)
      (z := z ++ zeros (max (e.buffer.length * 2 + size) e.buffer.length - e.buffer.length))
    · simp only [reserveAtBack]
      rw [← List.append_assoc, ← hbuffer]
    · exact ha
    · exact hc
  · rfl

/-- bytes copied over as many bytes -/
theorem overwrite_split {a old z array : Bytes} {offset : ℕ} (hoffset : offset = a.length)
    (h : old.length = array.length) : overwrite (a ++ old ++ z) offset array = a ++ array ++ z := by
  subst hoffset
  have hdrop : (a ++ old ++ z).drop (a.length + array.length) = z := by
    rw [← h, ← List.length_append, List.drop_left' rfl]
  rw [overwrite, hdrop, List.append_assoc a, List.take_left' rfl]

abbrev Holds (e : Encoder) (c : Bytes) : Prop := e.contents = c

theorem adds_prependByteArray (array : Bytes) :
    Adds Holds (prependByteArray array) 0 array [] := by
  rintro e _ rfl
  refine ⟨by simp [prependByteArray], ?_⟩
  have hroom := e.reserveFront_room array.length
  rw [List.append_nil, ← reserveFront_contents e array.length]
  obtain ⟨a, z, hbuffer, ha, hc⟩ := (e.reserveFront array.length).split
  have hold : (a.drop (a.length - array.length)).length = array.length := by rw [List.length_drop]; omega
  have htake : (a.take (a.length - array.length)).length = a.length - array.length := by rw [List.length_take]; omega
  have hsplit : a = a.take (a.length - array.length) ++ a.drop (a.length - array.length) :=
    (List.take_append_drop _ a).symm
  apply contents_of_split (a := a.take (a.length - array.length)) (z := z)
  · have hold' : (e.reserveFront array.length).buffer = a.take (a.length - array.length) ++
        a.drop (a.length - array.length) ++ ((e.reserveFront array.length).contents ++ z) := by
      rw [← hsplit, ← List.append_assoc]
      exact hbuffer
    simp only [prependByteArray]
    rw [ha, hold', overwrite_split htake.symm hold]
    simp only [List.append_assoc]
  · simp only [prependByteArray]
    omega
  · simp only [prependByteArray, List.length_append] at hc ⊢
    omega

theorem adds_appendByteArray (array : Bytes) :
    Adds Holds (appendByteArray array) 0 [] array := by
  rintro e _ rfl
  refine ⟨by simp [appendByteArray], ?_⟩
  have hroom := e.reserveBack_room array.length
  rw [List.nil_append, ← reserveBack_contents e array.length]
  obtain ⟨a, z, hbuffer, ha, hc⟩ := (e.reserveBack array.length).split
  have hlen := congrArg List.length hbuffer
  have hold : (z.take array.length).length = array.length := by
    simp only [List.length_append] at hlen hc
    rw [List.length_take]
    omega
  apply contents_of_split (a := a) (z := z.drop array.length)
  · have hold' : (e.reserveBack array.length).buffer =
        (a ++ (e.reserveBack array.length).contents) ++ z.take array.length ++ z.drop array.length := by
      rw [List.append_assoc _ (z.take _), List.take_append_drop]
      exact hbuffer
    simp only [appendByteArray]
    rw [hold', overwrite_split hc hold]
    simp only [List.append_assoc]
  · exact ha
  · simp only [appendByteArray, hc, List.length_append]
    omega

/-! ### The other calls -/

section Front

variable {R : Encoder → Bytes → Prop} (hR : ∀ array, Adds R (prependByteArray array) 0 array [])

include hR

/-- the octet that announces the width goes in front of the number -/
theorem adds_prependWide (octet : UInt8) (k n total : ℕ) (htotal : total = k + 1) :
    Adds R (do let _ ← prependByteArray (beBytes k n); let _ ← prependByte octet; pure total) 0
      (octet :: beBytes k n) [] := by
  have hbyte : Adds R (prependByte octet) 0 [octet] [] := hR [octet]
  refine adds_bind (hR (beBytes k n)) (adds_bind hbyte (adds_pure ?_) rfl rfl) rfl rfl
  simp [htotal]

theorem adds_prependVarNumber (n : ℕ) : Adds R (prependVarNumber n) 0 (writeVarNumber n) [] := by
  unfold prependVarNumber writeVarNumber
  split_ifs
  · exact adds_bind (hR [UInt8.ofNat n]) (adds_pure rfl) rfl rfl
  · exact adds_prependWide hR 253 2 n 3 rfl
  · exact adds_prependWide hR 254 4 n 5 rfl
  · exact adds_prependWide hR 255 8 n 9 rfl

theorem adds_prependNonNegativeInteger (n : ℕ) :
    Adds R (prependNonNegativeInteger n) 0 (nonNegativeInteger n) [] := by
  unfold prependNonNegativeInteger nonNegativeInteger
  split_ifs
  · exact hR _
  · exact hR _
  · exact hR _
  · exact hR _

theorem adds_prependByteArrayBlock (type : ℕ) (array : Bytes) :
    Adds R (prependByteArrayBlock type array) 0 (Block.write type array) [] := by
  refine adds_bind (hR array) (adds_bind (adds_prependVarNumber hR array.length)
    (adds_bind (adds_prependVarNumber hR type) (adds_pure ?_) rfl rfl) rfl rfl) ?_ rfl
  · simp
  · simp [Block.write]

theorem adds_prependBlock (block : Block) : Adds R (prependBlock block) 0 block.encodeElement [] := by
  unfold prependBlock Block.encodeElement
  split_ifs
  · exact hR _
  · exact adds_prependByteArrayBlock hR _ _

end Front

section Back

variable {R : Encoder → Bytes → Prop} (hR : ∀ array, Adds R (appendByteArray array) 0 [] array)

include hR

theorem adds_appendWide (octet : UInt8) (k n total : ℕ) (htotal : total = k + 1) :
    Adds R (do let _ ← appendByte octet; let _ ← appendByteArray (beBytes k n); pure total) 0 []
      (octet :: beBytes k n) := by
  have hbyte : Adds R (appendByte octet) 0 [] [octet] := hR [octet]
  refine adds_bind hbyte (adds_bind (hR (beBytes k n)) (adds_pure ?_) rfl rfl) rfl (by simp)
  simp [htotal]
  omega

theorem adds_appendVarNumber (n : ℕ) : Adds R (appendVarNumber n) 0 [] (writeVarNumber n) := by
  unfold appendVarNumber writeVarNumber
  split_ifs
  · exact adds_bind (hR [UInt8.ofNat n]) (adds_pure rfl) rfl rfl
  · exact adds_appendWide hR 253 2 n 3 rfl
  · exact adds_appendWide hR 254 4 n 5 rfl
  · exact adds_appendWide hR 255 8 n 9 rfl

theorem adds_appendNonNegativeInteger (n : ℕ) :
    Adds R (appendNonNegativeInteger n) 0 [] (nonNegativeInteger n) := by
  unfold appendNonNegativeInteger nonNegativeInteger
  split_ifs
  · exact hR _
  · exact hR _
  · exact hR _
  · exact hR _

theorem adds_appendByteArrayBlock (type : ℕ) (array : Bytes) :
    Adds R (appendByteArrayBlock type array) 0 [] (Block.write type array) := by
  refine adds_bind (adds_appendVarNumber hR type) (adds_bind (adds_appendVarNumber hR array.length)
    (adds_bind (hR array) (adds_pure ?_) rfl rfl) rfl rfl) rfl ?_
  · simp
  · simp [Block.write]

theorem adds_appendBlock (block : Block) : Adds R (appendBlock block) 0 [] block.encodeElement := by
  unfold appendBlock Block.encodeElement
  split_ifs
  · exact hR _
  · exact adds_appendByteArrayBlock hR _ _

end Back

end Encoder

/-- the calls are made of the two that write a byte array -/
theorem lawful_of {R : Encoder → Bytes → Prop} (hfront : ∀ array, Adds R (Encoder.prependByteArray array) 0 array [])
    (hback : ∀ array, Adds R (Encoder.appendByteArray array) 0 [] array) : Lawful encoder R := by
  intro call
  cases call with
  | prependByte value => exact hfront [value]
  | appendByte value => exact hback [value]
  | prependByteArray array => exact hfront array
  | appendByteArray array => exact hback array
  | prependVarNumber n => exact Encoder.adds_prependVarNumber hfront n
  | appendVarNumber n => exact Encoder.adds_appendVarNumber hback n
  | prependNonNegativeInteger n => exact Encoder.adds_prependNonNegativeInteger hfront n
  | appendNonNegativeInteger n => exact Encoder.adds_appendNonNegativeInteger hback n
  | prependByteArrayBlock type array => exact Encoder.adds_prependByteArrayBlock hfront type array
  | appendByteArrayBlock type array => exact Encoder.adds_appendByteArrayBlock hback type array
  | prependBlock block => exact Encoder.adds_prependBlock hfront block
  | appendBlock block => exact Encoder.adds_appendBlock hback block

theorem lawfulFront_of {R : Encoder → Bytes → Prop}
    (hfront : ∀ array, Adds R (Encoder.prependByteArray array) 0 array []) : LawfulFront encoder R := by
  intro call hcall
  cases call with
  | prependByte value => exact hfront [value]
  | prependByteArray array => exact hfront array
  | prependVarNumber n => exact Encoder.adds_prependVarNumber hfront n
  | prependNonNegativeInteger n => exact Encoder.adds_prependNonNegativeInteger hfront n
  | prependByteArrayBlock type array => exact Encoder.adds_prependByteArrayBlock hfront type array
  | prependBlock block => exact Encoder.adds_prependBlock hfront block
  | _ => cases hcall

theorem encoder_lawful : Lawful encoder Encoder.Holds :=
  lawful_of Encoder.adds_prependByteArray Encoder.adds_appendByteArray

/-! ## The estimator counts the same bytes -/

namespace Estimator

theorem prependVarNumber_eq (n : ℕ) : prependVarNumber n = (writeVarNumber n).length := by
  rw [length_writeVarNumber]
  rfl

theorem prependNonNegativeInteger_eq (n : ℕ) : prependNonNegativeInteger n = (nonNegativeInteger n).length := by
  unfold prependNonNegativeInteger nonNegativeInteger
  split_ifs <;> simp

theorem prependByteArrayBlock_eq (type : ℕ) (array : Bytes) :
    prependByteArrayBlock type array = (Block.write type array).length := by
  simp only [prependByteArrayBlock, prependVarNumber_eq, Block.write, List.length_append]
  omega

theorem prependBlock_eq (block : Block) : prependBlock block = block.encodeElement.length := by
  obtain ⟨type, buffer, subBlocks⟩ := block
  cases buffer with
  | none => exact prependByteArrayBlock_eq _ _
  | some span =>
    unfold prependBlock Block.encodeElement
    by_cases hwire : Block.hasWire ⟨type, some span, subBlocks⟩ = true
    · have hne : span.wire ≠ [] := by simpa [Block.hasWire] using hwire
      have hle : span.size ≤ span.wire.length := by
        rw [span.size_eq hne]
        exact Nat.mod_le _ _
      simp only [hwire, if_true, Block.copied, Block.wire, Option.map_some, Option.getD_some, List.length_take]
      omega
    · simp only [hwire]
      exact prependByteArrayBlock_eq _ _

end Estimator

theorem estimator_lawful : Lawful estimator (fun _ _ => True) := by
  intro call s c _
  refine ⟨?_, trivial⟩
  have hpure : ∀ n, ((pure n : StateM Unit ℕ) s).1 = n := fun n => rfl
  cases call <;> simp [estimator, Call.front, Call.back, hpure, Estimator.prependVarNumber_eq,
    Estimator.prependNonNegativeInteger_eq, Estimator.prependByteArrayBlock_eq, Estimator.prependBlock_eq]

/-! ## Whole runs -/

/-- the calls one after the other, their answers added up -/
def runCalls {σ : Type} (E : EncodingImpl σ) : List Call → StateM σ ℕ
  | [] => pure 0
  | call :: calls => do
    let totalLength ← E call
    let totalLength := totalLength + (← runCalls E calls)
    pure totalLength

theorem adds_runCalls {σ : Type} {E : EncodingImpl σ} {R : σ → Bytes → Prop} (h : Lawful E R) (calls : List Call) :
    Adds R (runCalls E calls) 0 (calls.map Call.front).reverse.flatten (calls.flatMap Call.back) := by
  induction calls with
  | nil => exact adds_pure rfl
  | cons call calls ih =>
    refine adds_bind (h call) (adds_bind ih (adds_pure ?_) rfl rfl) ?_ ?_
    · omega
    · simp
    · simp

/-- **The encoders.** After any calls, however small the buffer was at first: what was prepended, the last call's bytes
first, then what was appended. The answers add up to its size, and so do the estimator's. -/
theorem encoder_run (calls : List Call) (totalReserve reserveFromBack : ℕ) :
    (runCalls encoder calls (Encoder.new totalReserve reserveFromBack)).2.contents =
        (calls.map Call.front).reverse.flatten ++ calls.flatMap Call.back ∧
      (runCalls encoder calls (Encoder.new totalReserve reserveFromBack)).1 =
        (runCalls encoder calls (Encoder.new totalReserve reserveFromBack)).2.contents.length ∧
      (runCalls estimator calls ()).1 = (runCalls encoder calls (Encoder.new totalReserve reserveFromBack)).1 := by
  obtain ⟨hsize, hcontents⟩ := adds_runCalls encoder_lawful calls _ _
    (Encoder.new_contents totalReserve reserveFromBack)
  obtain ⟨hestimate, -⟩ := adds_runCalls estimator_lawful calls () [] trivial
  rw [List.append_nil] at hcontents
  refine ⟨hcontents, ?_, ?_⟩
  · rw [hsize, hcontents, List.length_append, Nat.zero_add]
  · rw [hestimate, hsize]

/-! ## Estimate, then write -/

/-- a `wireEncode(EncodingImpl<TAG>&)`: written once for both encoders -/
abbrev Program := ∀ {σ : Type}, EncodingImpl σ → StateM σ ℕ

/-- `EncodingEstimator estimator; EncodingBuffer buffer(wireEncode(estimator), 0); wireEncode(buffer)` -/
def encodeBuffer (p : Program) : Encoder := (p encoder (Encoder.new (p estimator ()).1 0)).2

def encodeBlock (p : Program) : Except String Block := (encodeBuffer p).block

/-- the program only prepends, and these are its bytes -/
def Writes (p : Program) (bs : Bytes) : Prop :=
  ∀ {σ : Type} (E : EncodingImpl σ) (R : σ → Bytes → Prop), LawfulFront E R → Adds R (p E) 0 bs []

namespace Encoder

/-- the bytes end where a buffer of `size` ends, for as long as they fit it -/
def Fills (size : ℕ) (e : Encoder) (c : Bytes) : Prop :=
  e.contents = c ∧ (c.length ≤ size → e.buffer.length = size ∧ e.mEnd = size)

theorem length_contents (e : Encoder) : e.contents.length = e.mEnd - e.mBegin := by
  have := e.end_le
  simp only [contents, List.length_drop, List.length_take]
  omega

theorem adds_prependByteArray_fills (size : ℕ) (array : Bytes) :
    Adds (Fills size) (prependByteArray array) 0 array [] := by
  rintro e c ⟨hcontents, hfits⟩
  obtain ⟨hsize, hnew⟩ := adds_prependByteArray array e c hcontents
  refine ⟨hsize, hnew, ?_⟩
  intro hlen
  simp only [List.length_append] at hlen
  obtain ⟨hbuffer, hend⟩ := hfits (by omega)
  have hroom : ¬ e.mBegin < array.length := by
    have hlength := e.length_contents
    have := e.begin_le
    rw [hcontents] at hlength
    simp at hlen
    omega
  have hsame : e.reserveFront array.length = e := by rw [reserveFront, if_neg hroom]
  have hbegin := e.begin_le
  constructor
  · show (overwrite (e.reserveFront array.length).buffer _ _).length = size
    rw [hsame, length_overwrite (by omega), hbuffer]
  · show (e.reserveFront array.length).mEnd = size
    rw [hsame, hend]

theorem fills_new (size : ℕ) : Fills size (new size 0) [] := by
  refine ⟨new_contents size 0, fun _ => ⟨by simp [new], ?_⟩⟩
  simp only [new]
  split <;> omega

end Encoder

/-- The estimated buffer is filled from end to end, and it was never replaced. -/
theorem encodeBuffer_eq {p : Program} {bs : Bytes} (h : Writes p bs) :
    (p estimator ()).1 = bs.length ∧ (encodeBuffer p).contents = bs ∧ (encodeBuffer p).buffer = bs := by
  have hestimate : (p estimator ()).1 = bs.length := by
    obtain ⟨hsize, -⟩ := h estimator _ estimator_lawful.front () [] trivial
    simpa using hsize
  have hfront := lawfulFront_of (Encoder.adds_prependByteArray_fills bs.length)
  obtain ⟨-, hcontents, hfits⟩ := h encoder _ hfront _ _ (Encoder.fills_new bs.length)
  have hbuffer : encodeBuffer p = (p encoder (Encoder.new bs.length 0)).2 := by rw [encodeBuffer, hestimate]
  rw [← hbuffer] at hcontents hfits
  simp only [List.append_nil] at hcontents hfits
  obtain ⟨hlen, hend⟩ := hfits le_rfl
  refine ⟨hestimate, hcontents, ?_⟩
  have hlength := (encodeBuffer p).length_contents
  have hbegin := (encodeBuffer p).begin_le
  have hzero : (encodeBuffer p).mBegin = 0 := by rw [hcontents] at hlength; omega
  calc (encodeBuffer p).buffer
      = ((encodeBuffer p).buffer.take (encodeBuffer p).mEnd).drop (encodeBuffer p).mBegin := by
        rw [hzero, List.drop_zero, List.take_of_length_le (by omega)]
    _ = bs := hcontents

theorem encodeBlock_eq {p : Program} {type : ℕ} {value : Bytes} (h : Writes p (Block.write type value))
    (htype : type ≤ maxType) (hlen : Uint64 value.length) :
    encodeBlock p = .ok (Block.ofWire type (Block.write type value) value) := by
  rw [encodeBlock, Encoder.block, (encodeBuffer_eq h).2.1]
  exact Block.ofRange_write htype hlen

/-- a block that was encoded is the block that was written -/
theorem encodeBlock_ok {p : Program} {type : ℕ} {value : Bytes} {b : Block} (h : Writes p (Block.write type value))
    (htype : type ≤ maxType) (hb : encodeBlock p = .ok b) :
    Uint64 value.length ∧ b = Block.ofWire type (Block.write type value) value := by
  rw [encodeBlock, Encoder.block, (encodeBuffer_eq h).2.1] at hb
  exact Block.ofRange_write_ok htype hb

/-- the program prepends and appends, and these are its bytes on both sides -/
def WritesAround (p : Program) (front back : Bytes) : Prop :=
  ∀ {σ : Type} (E : EncodingImpl σ) (R : σ → Bytes → Prop), Lawful E R → Adds R (p E) 0 front back

/-- What is appended is behind what is prepended, also where the buffer had to grow. -/
theorem encodeBuffer_around {p : Program} {front back : Bytes} (h : WritesAround p front back) :
    (p estimator ()).1 = (front ++ back).length ∧ (encodeBuffer p).contents = front ++ back := by
  constructor
  · obtain ⟨hsize, -⟩ := h estimator _ estimator_lawful () [] trivial
    simpa using hsize
  · obtain ⟨-, hcontents⟩ := h encoder _ encoder_lawful (Encoder.new (p estimator ()).1 0) []
      (Encoder.new_contents (p estimator ()).1 0)
    rw [List.append_nil] at hcontents
    exact hcontents

theorem encodeBlock_around {p : Program} {front back : Bytes} {type : ℕ} {value : Bytes} (h : WritesAround p front back)
    (hwrite : front ++ back = Block.write type value) (htype : type ≤ maxType) (hlen : Uint64 value.length) :
    encodeBlock p = .ok (Block.ofWire type (Block.write type value) value) := by
  rw [encodeBlock, Encoder.block, (encodeBuffer_around h).2, hwrite]
  exact Block.ofRange_write htype hlen

end NdnDash.Wire
