/-
ndn-cxx's `encoding/tlv.hpp`: the variable-size number in front of every type and length, the type code, and the
non-negative integer whose size its element's length gives. Readers take the input from `begin` to `end` and leave the
bytes after what they read; the readers that throw give `Except` the text of the error.

Results:
- `readVarNumber_write`, `readType_write`: what was written is read back, whatever follows it.
- `readVarNumber?_exact`: an accepted number takes no fewer bytes than the writer puts.
- `readVarNumberStream?_eq`: the byte-by-byte reader for input streams agrees with the reader that casts a pointer.
-/
import NdnDash.Core.Bytes
import NdnDash.Core.Framing

namespace NdnDash.Tlv

/-- an unsigned number in the machine's 64 bits -/
abbrev Uint64 (n : ℕ) : Prop := n < 2 ^ 64

/-- the largest type code, `std::numeric_limits<uint32_t>::max()` -/
def maxType : ℕ := 2 ^ 32 - 1

/-! ## Readers -/

/-- `*reinterpret_cast<const uintN_t*>(&*begin)` in network order, behind the check that the bytes are there -/
def readFixed (k : ℕ) (bs : Bytes) : Option (ℕ × Bytes) :=
  if bs.length < k then none else some (beValue (bs.take k), bs.drop k)

/-- how many bytes follow a first octet of 253 and more -/
def widthOf (firstOctet : UInt8) : ℕ :=
  if firstOctet.toNat = 253 then 2 else if firstOctet.toNat = 254 then 4 else 8

/-- `readVarNumber(begin, end, number)` -/
def readVarNumber? : Bytes → Option (ℕ × Bytes)
  | [] => none
  | firstOctet :: bs =>
    if firstOctet.toNat < 253 then some (firstOctet.toNat, bs) else readFixed (widthOf firstOctet) bs

/-- `readType(begin, end, type)` -/
def readType? (bs : Bytes) : Option (ℕ × Bytes) :=
  (readVarNumber? bs).bind fun p => if maxType < p.1 then none else some p

def emptyBuffer : String := "Empty buffer during TLV processing"
def insufficientData : String := "Insufficient data during TLV processing"
def typeTooLarge : String := "TLV type code exceeds allowed maximum"
def invalidLength : String := "Invalid length for nonNegativeInteger (only 1, 2, 4, and 8 are allowed)"

/-- `readVarNumber(begin, end)` -/
def readVarNumber (bs : Bytes) : Except String (ℕ × Bytes) :=
  if bs = [] then .error emptyBuffer
  else match readVarNumber? bs with
    | none => .error insufficientData
    | some p => .ok p

/-- `readType(begin, end)` -/
def readType (bs : Bytes) : Except String (ℕ × Bytes) :=
  match readVarNumber bs with
  | .error e => .error e
  | .ok (type, rest) => if maxType < type then .error typeTooLarge else .ok (type, rest)

/-- `for (; begin != end && count < k; ++count) value = ((value << 8) | *begin)`: the value, the count and the bytes
left -/
def shiftIn : ℕ → ℕ → Bytes → ℕ × ℕ × Bytes
  | 0, value, bs => (value, 0, bs)
  | _ + 1, value, [] => (value, 0, [])
  | k + 1, value, b :: bs =>
    let (v, count, rest) := shiftIn k (value <<< 8 % 2 ^ 64 ||| b.toNat) bs
    (v, count + 1, rest)

/-- `readVarNumber` over `std::istream_iterator<uint8_t>` -/
def readVarNumberStream? : Bytes → Option (ℕ × Bytes)
  | [] => none
  | firstOctet :: bs =>
    if firstOctet.toNat < 253 then some (firstOctet.toNat, bs)
    else
      let (value, count, rest) := shiftIn (widthOf firstOctet) 0 bs
      if count ≠ widthOf firstOctet then none else some (value, rest)

/-- `readNonNegativeInteger(size, begin, end)` -/
def readNonNegativeInteger (size : ℕ) (bs : Bytes) : Except String (ℕ × Bytes) :=
  if size = 1 ∨ size = 2 ∨ size = 4 ∨ size = 8 then
    match readFixed size bs with
    | none => .error insufficientData
    | some p => .ok p
  else .error invalidLength

/-! ## Writers -/

def sizeOfVarNumber (n : ℕ) : ℕ :=
  if n < 253 then 1 else if n ≤ 2 ^ 16 - 1 then 3 else if n ≤ 2 ^ 32 - 1 then 5 else 9

/-- `writeVarNumber(os, varNumber)` -/
def writeVarNumber (n : ℕ) : Bytes :=
  if n < 253 then [UInt8.ofNat n]
  else if n ≤ 2 ^ 16 - 1 then 253 :: beBytes 2 n
  else if n ≤ 2 ^ 32 - 1 then 254 :: beBytes 4 n
  else 255 :: beBytes 8 n

/-! ## Numbers of a fixed width -/

theorem readFixed_append {k : ℕ} {bs : Bytes} (h : bs.length = k) (rest : Bytes) :
    readFixed k (bs ++ rest) = some (beValue bs, rest) := by
  rw [readFixed, if_neg (by rw [List.length_append]; omega), List.take_left' h, List.drop_left' h]

theorem readFixed_beBytes {k n : ℕ} (h : n < 256 ^ k) (rest : Bytes) :
    readFixed k (beBytes k n ++ rest) = some (n, rest) := by
  rw [readFixed_append (length_beBytes k n), beValue_beBytes h]

theorem readFixed_exact {k n : ℕ} {bs rest : Bytes} (h : readFixed k bs = some (n, rest)) :
    bs = beBytes k n ++ rest ∧ n < 256 ^ k := by
  rw [readFixed] at h
  split at h
  · cases h
  · next hlen =>
    have htake : (bs.take k).length = k := by rw [List.length_take]; omega
    simp only [Option.some.injEq, Prod.mk.injEq] at h
    obtain ⟨rfl, rfl⟩ := h
    have hbytes := beBytes_beValue (bs.take k)
    rw [htake] at hbytes
    constructor
    · calc bs = bs.take k ++ bs.drop k := (List.take_append_drop k bs).symm
        _ = beBytes k (beValue (bs.take k)) ++ bs.drop k := by rw [hbytes]
    · have hlt := beValue_lt (bs.take k)
      rwa [htake] at hlt

/-! ## Variable-size numbers -/

theorem length_writeVarNumber (n : ℕ) : (writeVarNumber n).length = sizeOfVarNumber n := by
  unfold writeVarNumber sizeOfVarNumber
  split_ifs <;> simp

theorem sizeOfVarNumber_pos (n : ℕ) : 0 < sizeOfVarNumber n := by
  unfold sizeOfVarNumber
  split_ifs <;> decide

theorem writeVarNumber_ne_nil (n : ℕ) : writeVarNumber n ≠ [] := by
  intro h
  have hlen := length_writeVarNumber n
  have hpos := sizeOfVarNumber_pos n
  rw [h] at hlen
  simp at hlen
  omega

/-- the writer takes a number of 64 bits; of a longer one it keeps as many -/
theorem readVarNumber?_write_mod (n : ℕ) (rest : Bytes) :
    readVarNumber? (writeVarNumber n ++ rest) = some (n % 2 ^ 64, rest) := by
  unfold writeVarNumber
  split_ifs with h1 h2 h3
  · have hn : (UInt8.ofNat n).toNat = n := by rw [UInt8.toNat_ofNat']; omega
    rw [Nat.mod_eq_of_lt (by omega)]
    simp only [List.singleton_append, readVarNumber?, hn, h1, if_true]
  · have hn : n < 256 ^ 2 := by norm_num; omega
    rw [Nat.mod_eq_of_lt (by omega)]
    exact readFixed_beBytes hn rest
  · have hn : n < 256 ^ 4 := by norm_num; omega
    rw [Nat.mod_eq_of_lt (by omega)]
    exact readFixed_beBytes hn rest
  · have hn : n % 256 ^ 8 < 256 ^ 8 := Nat.mod_lt n (by positivity)
    rw [beBytes, ← leBytes_mod, ← beBytes]
    exact readFixed_beBytes hn rest

theorem readVarNumber?_write {n : ℕ} (h : Uint64 n) (rest : Bytes) :
    readVarNumber? (writeVarNumber n ++ rest) = some (n, rest) := by
  rw [readVarNumber?_write_mod, Nat.mod_eq_of_lt h]

/-- the first octet and the bytes behind it of an accepted number -/
theorem readVarNumber?_cases {bs rest : Bytes} {n : ℕ} (h : readVarNumber? bs = some (n, rest)) :
    (n < 253 ∧ bs = UInt8.ofNat n :: rest) ∨ (n < 256 ^ 2 ∧ bs = 253 :: (beBytes 2 n ++ rest)) ∨
      (n < 256 ^ 4 ∧ bs = 254 :: (beBytes 4 n ++ rest)) ∨ (n < 256 ^ 8 ∧ bs = 255 :: (beBytes 8 n ++ rest)) := by
  cases bs with
  | nil => cases h
  | cons b bs =>
    rw [readVarNumber?] at h
    have hb := b.toNat_lt
    split at h
    · next hlt =>
      simp only [Option.some.injEq, Prod.mk.injEq] at h
      obtain ⟨rfl, rfl⟩ := h
      exact .inl ⟨hlt, by rw [UInt8.ofNat_toNat]⟩
    · next hge =>
      obtain ⟨rfl, hn⟩ := readFixed_exact h
      have hoctet : b.toNat = 253 ∨ b.toNat = 254 ∨ b.toNat = 255 := by omega
      obtain hb | hb | hb := hoctet
      · have hb' : b = 253 := UInt8.toNat_inj.mp hb
        subst hb'
        exact .inr (.inl ⟨hn, rfl⟩)
      · have hb' : b = 254 := UInt8.toNat_inj.mp hb
        subst hb'
        exact .inr (.inr (.inl ⟨hn, rfl⟩))
      · have hb' : b = 255 := UInt8.toNat_inj.mp hb
        subst hb'
        exact .inr (.inr (.inr ⟨hn, rfl⟩))

/-- an accepted number is some bytes in front of the rest, no fewer than the writer puts -/
theorem readVarNumber?_exact {bs rest : Bytes} {n : ℕ} (h : readVarNumber? bs = some (n, rest)) :
    ∃ num, bs = num ++ rest ∧ sizeOfVarNumber n ≤ num.length := by
  obtain ⟨hn, rfl⟩ | ⟨hn, rfl⟩ | ⟨hn, rfl⟩ | ⟨hn, rfl⟩ := readVarNumber?_cases h
  · refine ⟨[UInt8.ofNat n], rfl, ?_⟩
    simp [sizeOfVarNumber, hn]
  · refine ⟨253 :: beBytes 2 n, rfl, ?_⟩
    norm_num [sizeOfVarNumber] at hn ⊢
    split_ifs <;> omega
  · refine ⟨254 :: beBytes 4 n, rfl, ?_⟩
    norm_num [sizeOfVarNumber] at hn ⊢
    split_ifs <;> omega
  · refine ⟨255 :: beBytes 8 n, rfl, ?_⟩
    norm_num [sizeOfVarNumber] at hn ⊢
    split_ifs <;> omega

/-- the bytes of a number are read the same whatever follows them -/
theorem readVarNumber?_stable {num rest : Bytes} {n : ℕ} (h : readVarNumber? (num ++ rest) = some (n, rest))
    (rest' : Bytes) : readVarNumber? (num ++ rest') = some (n, rest') := by
  have hnum : ∀ {num' : Bytes}, num ++ rest = num' ++ rest → num = num' := List.append_cancel_right
  have hwide : ∀ (b : UInt8) (k : ℕ), widthOf b = k → ¬ b.toNat < 253 → n < 256 ^ k →
      num ++ rest = b :: (beBytes k n ++ rest) → readVarNumber? (num ++ rest') = some (n, rest') := by
    intro b k hwidth hb hn heq
    have hbytes : num = b :: beBytes k n := hnum heq
    rw [hbytes, List.cons_append, readVarNumber?, if_neg hb, hwidth, readFixed_beBytes hn]
  obtain ⟨hn, heq⟩ | ⟨hn, heq⟩ | ⟨hn, heq⟩ | ⟨hn, heq⟩ := readVarNumber?_cases h
  · have hbyte : (UInt8.ofNat n).toNat = n := by rw [UInt8.toNat_ofNat']; omega
    have hbytes : num = [UInt8.ofNat n] := hnum heq
    rw [hbytes, List.singleton_append, readVarNumber?, hbyte, if_pos hn]
  · exact hwide 253 2 rfl (by decide) hn heq
  · exact hwide 254 4 rfl (by decide) hn heq
  · exact hwide 255 8 rfl (by decide) hn heq

theorem readVarNumber_ok {bs rest : Bytes} {n : ℕ} :
    readVarNumber bs = .ok (n, rest) ↔ readVarNumber? bs = some (n, rest) := by
  unfold readVarNumber
  split_ifs with hnil
  · subst hnil
    simp [readVarNumber?]
  · cases readVarNumber? bs <;> simp

theorem readVarNumber_write {n : ℕ} (h : Uint64 n) (rest : Bytes) :
    readVarNumber (writeVarNumber n ++ rest) = .ok (n, rest) :=
  readVarNumber_ok.mpr (readVarNumber?_write h rest)

theorem readType_ok {bs rest : Bytes} {type : ℕ} :
    readType bs = .ok (type, rest) ↔ readVarNumber? bs = some (type, rest) ∧ type ≤ maxType := by
  rw [← readVarNumber_ok, readType]
  cases readVarNumber bs with
  | error e => simp
  | ok p =>
    obtain ⟨t, r⟩ := p
    by_cases h : maxType < t
    · simp only [h, if_true, Except.ok.injEq, Prod.mk.injEq, reduceCtorEq, false_iff]
      rintro ⟨⟨rfl, -⟩, hle⟩
      omega
    · simp only [h, if_false, Except.ok.injEq, Prod.mk.injEq]
      constructor
      · rintro ⟨rfl, rfl⟩
        exact ⟨⟨rfl, rfl⟩, by omega⟩
      · rintro ⟨⟨rfl, rfl⟩, -⟩
        exact ⟨rfl, rfl⟩

/-- the reader that answers with a flag and the one that throws accept the same types -/
theorem readType?_eq_some {bs rest : Bytes} {type : ℕ} :
    readType? bs = some (type, rest) ↔ readType bs = .ok (type, rest) := by
  rw [readType_ok, readType?]
  cases readVarNumber? bs with
  | none => simp
  | some p =>
    obtain ⟨t, r⟩ := p
    by_cases h : maxType < t
    · simp only [Option.bind_some, h, if_true, reduceCtorEq, Option.some.injEq, Prod.mk.injEq, false_iff]
      rintro ⟨⟨rfl, -⟩, hle⟩
      omega
    · simp only [Option.bind_some, h, if_false, Option.some.injEq, Prod.mk.injEq]
      constructor
      · rintro ⟨rfl, rfl⟩
        exact ⟨⟨rfl, rfl⟩, by omega⟩
      · exact And.left

theorem readType_write {type : ℕ} (h : type ≤ maxType) (rest : Bytes) :
    readType (writeVarNumber type ++ rest) = .ok (type, rest) := by
  apply readType_ok.mpr
  refine ⟨readVarNumber?_write ?_ rest, h⟩
  unfold Uint64
  norm_num [maxType] at h ⊢
  omega

/-! ## The reader for streams -/

theorem shiftIn_eq (k value : ℕ) (bs : Bytes) (h : value < 256 ^ (8 - k)) (hk : k ≤ 8) :
    shiftIn k value bs =
      (value * 256 ^ (bs.take k).length + beValue (bs.take k), (bs.take k).length, bs.drop k) := by
  induction k generalizing value bs with
  | zero => simp [shiftIn]
  | succ k ih =>
    cases bs with
    | nil => simp [shiftIn]
    | cons b bs =>
      have hb := b.toNat_lt
      -- the byte goes where the shift left zeros, and nothing is shifted out of 64 bits
      have hval : value <<< 8 % 2 ^ 64 ||| b.toNat = value * 256 + b.toNat := by
        have hpow : 256 ^ (8 - (k + 1)) ≤ (256 : ℕ) ^ 7 := Nat.pow_le_pow_right (by decide) (by omega)
        rw [Nat.shiftLeft_eq, Nat.mod_eq_of_lt (by norm_num at hpow ⊢; omega), Nat.mul_comm value,
          ← Nat.two_pow_add_eq_or_of_lt (by norm_num; omega)]
      have hlt : value * 256 + b.toNat < 256 ^ (8 - k) := by
        have hsplit : 8 - k = (8 - (k + 1)) + 1 := by omega
        rw [hsplit, pow_succ]
        omega
      rw [shiftIn, hval, ih _ _ hlt (by omega)]
      simp only [List.take_succ_cons, List.drop_succ_cons, List.length_cons, beValue_cons, pow_succ, Prod.mk.injEq, and_true]
      ring

theorem readVarNumberStream?_eq (bs : Bytes) : readVarNumberStream? bs = readVarNumber? bs := by
  cases bs with
  | nil => rfl
  | cons b bs =>
    rw [readVarNumberStream?, readVarNumber?]
    split
    · rfl
    · have hwidth : widthOf b ≤ 8 := by unfold widthOf; split_ifs <;> omega
      rw [shiftIn_eq _ _ _ (by positivity) hwidth, readFixed]
      simp only [List.length_take, Nat.zero_mul, Nat.zero_add]
      by_cases hlen : bs.length < widthOf b
      · rw [if_pos (by omega), if_pos hlen]
      · rw [if_neg (by omega), if_neg hlen]

end NdnDash.Tlv
