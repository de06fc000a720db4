/-
ndn-cxx's `SignatureInfo` (`signature-info.cpp`), the element of a data packet that describes its signature. It ends in a
list of elements, of which the validity period has to be the first; `wireEncode` appends the list from the back, so that
the wire has it in reverse, and `wireDecode` adds the elements it finds to the list it has.

Results:
- `wireDecode_element`: the element that was put decodes to the type, the locator and the list in reverse.
- `round_trip`: a validity period that was set is found on the wire exactly when nothing else stands there or what stood
  last is one like it.
-/
import NdnDash.Wire.KeyLocator
import NdnDash.Wire.MetaInfo
import NdnDash.Wire.ValidityPeriod

namespace NdnDash.Wire

open Tlv

/-! ## Model -/

/-- `SignatureInfo`; the type is -1 where there is no signature -/
structure SignatureInfo where
  type : ℤ
  hasKeyLocator : Bool
  keyLocator : KeyLocator
  otherTlvs : List Block
  wire : Option Block

namespace SignatureInfo

def tlvSignatureInfo : ℕ := 22
def tlvSignatureType : ℕ := 27

def noWire : String := "The supplied block does not contain wire format"
def unexpectedType : String := "Unexpected TLV type when decoding Name"
def noSignatureType : String := "SignatureInfo does not have sub-TLV or the first sub-TLV is not SignatureType"
def noValidityPeriod : String := "SignatureInfo does not contain the requested ValidityPeriod field"

/-- `SignatureInfo()` -/
def new : SignatureInfo := ⟨-1, false, KeyLocator.new, [], none⟩

/-- `SignatureInfo(type)` -/
def ofType (type : ℤ) : SignatureInfo := { new with type := type }

def setKeyLocator (s : SignatureInfo) (keyLocator : KeyLocator) : SignatureInfo :=
  { s with wire := none, keyLocator := keyLocator, hasKeyLocator := true }

def appendTypeSpecificTlv (s : SignatureInfo) (b : Block) : SignatureInfo :=
  { s with wire := none, otherTlvs := s.otherTlvs ++ [b] }

def unsetValidityPeriod (s : SignatureInfo) : SignatureInfo :=
  match s.otherTlvs with
  | front :: rest =>
    { s with wire := none, otherTlvs := if front.type = ValidityPeriod.tlvValidityPeriod then rest else front :: rest }
  | [] => { s with wire := none }

/-- the list with the period's wire in front -/
def pushPeriod (s : SignatureInfo) (b : Block) : SignatureInfo :=
  { s.unsetValidityPeriod with otherTlvs := b :: s.unsetValidityPeriod.otherTlvs }

def setValidityPeriod {TimePoint : Type} (iso : IsoString TimePoint) (s : SignatureInfo)
    (validityPeriod : ValidityPeriod TimePoint) : Except String SignatureInfo :=
  (validityPeriod.wireEncode iso).map s.pushPeriod

/-- `getValidityPeriod()`: it has to be at the front -/
def getValidityPeriod {TimePoint : Type} (iso : IsoString TimePoint) (s : SignatureInfo) :
    Except String (ValidityPeriod TimePoint) :=
  match s.otherTlvs with
  | front :: _ =>
    if front.type ≠ ValidityPeriod.tlvValidityPeriod then .error noValidityPeriod
    else ValidityPeriod.ofBlock iso front
  | [] => .error noValidityPeriod

/-- `m_type` as `prependNonNegativeIntegerBlock` takes it: an `int32_t` made a `uint64_t` -/
def typeNumber (s : SignatureInfo) : ℕ := (s.type % 2 ^ 64).toNat

/-- the loop from the back that appends every element -/
def appendAll {σ : Type} (E : EncodingImpl σ) : List Block → StateM σ ℕ
  | [] => pure 0
  | b :: bs => do
    let totalLength ← appendAll E bs
    let totalLength := totalLength + (← E (.appendBlock b))
    pure totalLength

def wireEncodeWith {σ : Type} (E : EncodingImpl σ) (s : SignatureInfo) : StateM σ ℕ :=
  prependHeader E tlvSignatureInfo do
    let totalLength ← appendAll E s.otherTlvs
    let totalLength := totalLength + (← prependIf s.hasKeyLocator (s.keyLocator.wireEncodeWith E))
    let totalLength := totalLength + (← prependNonNegativeIntegerBlock E tlvSignatureType s.typeNumber)
    pure totalLength

/-- `wireEncode()` -/
def wireEncode (s : SignatureInfo) : Except String SignatureInfo :=
  if s.wire.any Block.hasWire then .ok s
  else if s.hasKeyLocator = true ∧ s.keyLocator.type = .unknown then .error KeyLocator.unsupportedType
  else (encodeBlock (fun E => wireEncodeWith E s)).map (fun b => { s with wire := some b })

/-- `// the second block could be KeyLocator`: whether it is, the locator and the rest -/
def decodeKeyLocator (k : KeyLocator) : List Block → Except String (Bool × KeyLocator × List Block)
  | [] => .ok (false, k, [])
  | it :: rest =>
    if it.type = KeyLocator.tlvKeyLocator then (k.wireDecode it).map (fun k' => (true, k', rest))
    else .ok (false, k, it :: rest)

/-- `wireDecode(wire)`: the rest is added to the elements that are there -/
def wireDecode (s : SignatureInfo) (wire : Block) : Except String SignatureInfo :=
  if wire.hasWire = false then .error noWire
  else
    match wire.parse with
    | (_, some e) => .error e
    | (b, none) =>
      if b.type ≠ tlvSignatureInfo then .error unexpectedType
      else
        match b.subBlocks with
        | [] => .error noSignatureType
        | it :: rest =>
          if it.type ≠ tlvSignatureType then .error noSignatureType
          else
            match readNonNegativeInteger it with
            | .error e => .error e
            | .ok type =>
              match decodeKeyLocator s.keyLocator rest with
              | .error e => .error e
              | .ok (hasKeyLocator, keyLocator, others) =>
                .ok ⟨toInt type, hasKeyLocator, keyLocator, s.otherTlvs ++ others, some b⟩

/-! ### The wire -/

/-- the elements of the value: the list is in reverse -/
def items (s : SignatureInfo) : List Block :=
  MetaInfo.numberElement tlvSignatureType s.typeNumber ::
    ((if s.hasKeyLocator then [s.keyLocator.element] else []) ++ s.otherTlvs.reverse.map Block.unparsed)

def value (s : SignatureInfo) : Bytes := s.items.flatMap Block.wire

/-- the element that it is encoded to -/
def element (s : SignatureInfo) : Block := Block.ofWire tlvSignatureInfo (Block.write tlvSignatureInfo s.value) s.value

/-- the type is a signature type, the locator can be encoded, and the list has no locator at its end -/
structure Encodable (s : SignatureInfo) : Prop where
  type_nonneg : 0 ≤ s.type
  type_lt : s.type < 2 ^ 31
  keyLocator : s.hasKeyLocator = true → s.keyLocator.Encodable ∧ Uint64 s.keyLocator.value.length
  otherTlvs : ∀ b ∈ s.otherTlvs, b.Stored ∧ b.type ≠ KeyLocator.tlvKeyLocator

theorem Encodable.read_items {s : SignatureInfo} (h : s.Encodable) : ∀ b ∈ s.items, b.Read := by
  intro b hb
  simp only [items, List.mem_cons, List.mem_append, List.mem_map, List.mem_reverse] at hb
  rcases hb with rfl | hb | ⟨c, hc, rfl⟩
  · exact MetaInfo.read_numberElement (by decide) _
  · cases hhas : s.hasKeyLocator with
    | false => simp [hhas] at hb
    | true =>
      rw [MetaInfo.mem_optional hb]
      exact Block.read_write (by decide) (h.keyLocator hhas).2
  · exact (h.otherTlvs c hc).1.read

theorem adds_appendAll {σ : Type} {E : EncodingImpl σ} {R : σ → Bytes → Prop} (hE : Lawful E R) {bs : List Block}
    (h : ∀ b ∈ bs, b.Stored) : Adds R (appendAll E bs) 0 [] (bs.reverse.flatMap Block.wire) := by
  induction bs with
  | nil => exact adds_pure rfl
  | cons b bs ih =>
    have hothers := ih (fun c hc => h c (List.mem_cons_of_mem b hc))
    have hb : Adds R (E (.appendBlock b)) 0 [] b.wire := by
      have hcall := hE (.appendBlock b)
      rwa [show (Call.appendBlock b).back = b.wire from (h b List.mem_cons_self).encodeElement] at hcall
    refine adds_bind hothers (adds_bind hb (adds_pure ?_) rfl rfl) rfl ?_
    · simp
    · simp

/-- what is prepended to the encoder -/
def front (s : SignatureInfo) : Bytes :=
  writeVarNumber tlvSignatureInfo ++ (writeVarNumber s.value.length ++
    ((MetaInfo.numberElement tlvSignatureType s.typeNumber).wire ++
      (if s.hasKeyLocator then s.keyLocator.element.wire else [])))

/-- what is appended -/
def back (s : SignatureInfo) : Bytes := s.otherTlvs.reverse.flatMap Block.wire

theorem flatMap_unparsed (bs : List Block) : (bs.map Block.unparsed).flatMap Block.wire = bs.flatMap Block.wire := by
  rw [List.flatMap_map]
  rfl

theorem front_append_back (s : SignatureInfo) : s.front ++ s.back = s.element.wire := by
  simp only [front, back, element, Block.wire_ofWire, Block.write, value, items, List.flatMap_cons, List.flatMap_append,
    MetaInfo.flatMap_optional, flatMap_unparsed, List.append_assoc]

theorem adds_wireEncodeWith {σ : Type} {E : EncodingImpl σ} {R : σ → Bytes → Prop} (hE : Lawful E R)
    {s : SignatureInfo} (h : s.Encodable) : Adds R (wireEncodeWith E s) 0 s.front s.back := by
  have hothers := adds_appendAll hE (fun b hb => (h.otherTlvs b hb).1)
  have hlocator := adds_prependIf (R := R) s.hasKeyLocator
    (fun hhas => KeyLocator.adds_wireEncodeWith hE.front (h.keyLocator hhas).1)
  have htype := adds_prependNonNegativeIntegerBlock hE.front tlvSignatureType s.typeNumber
  have hvalue : Adds R (do
      let totalLength ← appendAll E s.otherTlvs
      let totalLength := totalLength + (← prependIf s.hasKeyLocator (s.keyLocator.wireEncodeWith E))
      let totalLength := totalLength + (← prependNonNegativeIntegerBlock E tlvSignatureType s.typeNumber)
      pure totalLength) 0 ((MetaInfo.numberElement tlvSignatureType s.typeNumber).wire ++
        (if s.hasKeyLocator then s.keyLocator.element.wire else [])) s.back := by
    refine adds_bind hothers (adds_bind hlocator (adds_bind htype (adds_pure ?_) rfl rfl) rfl rfl) ?_ ?_
    · simp
    · simp [MetaInfo.numberElement]
    · simp [back]
  have hlen : s.value.length = ((MetaInfo.numberElement tlvSignatureType s.typeNumber).wire ++
      (if s.hasKeyLocator then s.keyLocator.element.wire else [])).length + s.back.length := by
    simp only [value, items, back, List.flatMap_cons, List.flatMap_append, MetaInfo.flatMap_optional, flatMap_unparsed,
      List.length_append]
    omega
  have hlength := hE.front (.prependVarNumber s.value.length) rfl
  rw [hlen] at hlength
  have htlv := hE.front (.prependVarNumber tlvSignatureInfo) rfl
  refine adds_bind hvalue (adds_bind hlength (adds_bind htlv (adds_pure ?_) rfl rfl) rfl rfl) ?_ ?_
  · simp only [Nat.zero_add]
  · simp only [front, hlen, Call.front, List.append_assoc, List.nil_append]
  · simp

theorem wireEncode_element {s : SignatureInfo} (h : s.Encodable) (hwire : s.wire = none)
    (hlen : Uint64 s.value.length) : s.wireEncode = .ok { s with wire := some s.element } := by
  have hknown : ¬ (s.hasKeyLocator = true ∧ s.keyLocator.type = .unknown) :=
    fun hboth => (h.keyLocator hboth.1).1.known hboth.2
  have hkept : ¬ s.wire.any Block.hasWire = true := by simp [hwire]
  have hblock := encodeBlock_around (p := fun E => wireEncodeWith E s) (fun E R hE => adds_wireEncodeWith hE h)
    s.front_append_back (by decide) hlen
  rw [wireEncode, if_neg hkept, if_neg hknown, hblock]
  rfl

theorem decodeKeyLocator_optional {k : KeyLocator} (k₀ : KeyLocator) (has : Bool) {others : List Block}
    (hk : has = true → k.Encodable) (hothers : ∀ b ∈ others, b.type ≠ KeyLocator.tlvKeyLocator) :
    ∃ d, decodeKeyLocator k₀ ((if has then [k.element] else []) ++ others) = .ok (has, d, others) ∧
      (has = true → d.locator = k.locator) := by
  cases has with
  | true =>
    rcases KeyLocator.wireDecode_element (hk rfl) k₀ with ⟨d, hd, hlocator⟩
    have htag : k.element.type = KeyLocator.tlvKeyLocator := rfl
    refine ⟨d, ?_, fun _ => hlocator⟩
    rw [if_pos rfl, List.singleton_append, decodeKeyLocator, if_pos htag, hd]
    rfl
  | false =>
    refine ⟨k₀, ?_, fun hfalse => absurd hfalse (by decide)⟩
    rw [if_neg (by decide), List.nil_append]
    cases others with
    | nil => rfl
    | cons b rest => rw [decodeKeyLocator, if_neg (hothers b List.mem_cons_self)]

/-- The element decodes to the type and the locator, and to the list in reverse behind the one that was there. -/
theorem wireDecode_element {s : SignatureInfo} (h : s.Encodable) (s₀ : SignatureInfo) :
    ∃ d, s₀.wireDecode s.element = .ok d ∧ d.type = s.type ∧ d.hasKeyLocator = s.hasKeyLocator ∧
      (s.hasKeyLocator = true → d.keyLocator.locator = s.keyLocator.locator) ∧
      d.otherTlvs = s₀.otherTlvs ++ s.otherTlvs.reverse.map Block.unparsed ∧
      d.wire = some { s.element with subBlocks := s.items } := by
  have hparse : s.element.parse = ({ s.element with subBlocks := s.items }, none) := Block.parse_wires h.read_items
  have hwire : s.element.hasWire = true := (Block.hasWire_iff _).mpr (Block.write_ne_nil tlvSignatureInfo s.value)
  have htag : s.element.type = tlvSignatureInfo := rfl
  have hnumber : s.typeNumber = s.type.toNat := by
    have h0 := h.type_nonneg
    have h1 := h.type_lt
    rw [typeNumber, Int.emod_eq_of_lt h0 (by omega)]
  have htoNat : s.typeNumber < 2 ^ 31 := by
    have := h.type_lt
    rw [hnumber]
    omega
  have htype : toInt s.typeNumber = s.type := by
    rw [toInt_of_lt htoNat, hnumber, Int.toNat_of_nonneg h.type_nonneg]
  have hread : readNonNegativeInteger (MetaInfo.numberElement tlvSignatureType s.typeNumber) = .ok s.typeNumber :=
    MetaInfo.read_number (by unfold Uint64; omega)
  have hothers : ∀ b ∈ s.otherTlvs.reverse.map Block.unparsed, b.type ≠ KeyLocator.tlvKeyLocator := by
    intro b hb
    rcases List.mem_map.mp hb with ⟨c, hc, rfl⟩
    exact (h.otherTlvs c (List.mem_reverse.mp hc)).2
  rcases decodeKeyLocator_optional s₀.keyLocator s.hasKeyLocator (fun hhas => (h.keyLocator hhas).1) hothers with
    ⟨k, hk, hlocator⟩
  have hdecode : s₀.wireDecode s.element = .ok ⟨s.type, s.hasKeyLocator, k,
      s₀.otherTlvs ++ s.otherTlvs.reverse.map Block.unparsed, some { s.element with subBlocks := s.items }⟩ := by
    simp only [wireDecode, hwire, Bool.true_eq_false, if_false, hparse, htag, items, ne_eq,
      MetaInfo.type_numberElement, not_true_eq_false, hread, hk, htype]
  exact ⟨_, hdecode, rfl, rfl, hlocator, rfl, rfl⟩

theorem pushPeriod_fields (s : SignatureInfo) (b : Block) : (s.pushPeriod b).type = s.type ∧
    (s.pushPeriod b).hasKeyLocator = s.hasKeyLocator ∧ (s.pushPeriod b).keyLocator = s.keyLocator := by
  unfold pushPeriod unsetValidityPeriod
  cases s.otherTlvs <;> exact ⟨rfl, rfl, rfl⟩

theorem pushPeriod_wire (s : SignatureInfo) (b : Block) : (s.pushPeriod b).wire = none := by
  unfold pushPeriod unsetValidityPeriod
  cases s.otherTlvs <;> rfl

theorem mem_unsetValidityPeriod {s : SignatureInfo} {b : Block} (h : b ∈ s.unsetValidityPeriod.otherTlvs) :
    b ∈ s.otherTlvs := by
  unfold unsetValidityPeriod at h
  cases hothers : s.otherTlvs with
  | nil =>
    simp only [hothers] at h
    exact h
  | cons front rest =>
    simp only [hothers] at h
    split_ifs at h
    · exact List.mem_cons_of_mem front h
    · exact h

theorem Encodable.pushPeriod {s : SignatureInfo} (h : s.Encodable) {b : Block} (hstored : b.Stored)
    (htype : b.type = ValidityPeriod.tlvValidityPeriod) : (s.pushPeriod b).Encodable := by
  rcases s.pushPeriod_fields b with ⟨htype', hhas, hlocator⟩
  refine ⟨htype' ▸ h.type_nonneg, htype' ▸ h.type_lt, ?_, ?_⟩
  · rw [hhas, hlocator]
    exact h.keyLocator
  · intro c hc
    rcases List.mem_cons.mp hc with rfl | hc
    · exact ⟨hstored, by rw [htype]; decide⟩
    · exact h.otherTlvs c (mem_unsetValidityPeriod hc)

theorem getValidityPeriod_eq_ok {TimePoint : Type} {iso : IsoString TimePoint} {s : SignatureInfo}
    {p : ValidityPeriod TimePoint} : s.getValidityPeriod iso = .ok p ↔ ∃ b, s.otherTlvs.head? = some b ∧
      b.type = ValidityPeriod.tlvValidityPeriod ∧ ValidityPeriod.ofBlock iso b = .ok p := by
  unfold getValidityPeriod
  cases s.otherTlvs with
  | nil => simp
  | cons front rest =>
    simp only [List.head?_cons, Option.some.injEq]
    split_ifs with htype
    · constructor
      · intro h
        cases h
      · rintro ⟨b, rfl, hb, -⟩
        exact absurd hb htype
    · constructor
      · intro h
        exact ⟨front, rfl, not_not.mp htype, h⟩
      · rintro ⟨b, rfl, -, h⟩
        exact h

theorem read_element {s : SignatureInfo} (hlen : Uint64 s.value.length) : s.element.Read :=
  Block.read_write (by decide) hlen

/-- a signature info off the front of a buffer -/
def ofBytes (bs : Bytes) : Except String SignatureInfo :=
  match Block.ofBuffer bs with
  | .error e => .error e
  | .ok b => wireDecode new b

/-- **Round trip.** With any bytes behind it, the wire decodes to the type and the locator, and to the other elements in
reverse. So a validity period that was set is found there exactly when what stood last before is one with its dates, or
nothing stood there. -/
theorem round_trip {TimePoint : Type} {iso : IsoString TimePoint} {s : SignatureInfo} (h : s.Encodable)
    {validityPeriod : ValidityPeriod TimePoint} (hperiod : validityPeriod.Coherent iso) :
    ∃ s', s.setValidityPeriod iso validityPeriod = .ok s' ∧ (Uint64 s'.value.length →
      ∃ e b, s'.wireEncode = .ok e ∧ e.wire = some b ∧
        ∀ rest, ∃ d, ofBytes (b.wire ++ rest) = .ok d ∧ d.type = s.type ∧ d.hasKeyLocator = s.hasKeyLocator ∧
          (s.hasKeyLocator = true → d.keyLocator.locator = s.keyLocator.locator) ∧
          d.otherTlvs = s'.otherTlvs.reverse.map Block.unparsed ∧
          ((∃ p, d.getValidityPeriod iso = .ok p ∧ p.Same validityPeriod) ↔ s.unsetValidityPeriod.otherTlvs = [] ∨
            ∃ last p, s.unsetValidityPeriod.otherTlvs.getLast? = some last ∧
              last.type = ValidityPeriod.tlvValidityPeriod ∧
              ValidityPeriod.ofBlock iso last.unparsed = .ok p ∧ p.Same validityPeriod)) := by
  rcases ValidityPeriod.wireEncode_spec hperiod with ⟨period, hperiodWire, hstored, htype, hdecode⟩
  refine ⟨s.pushPeriod period, by rw [setValidityPeriod, hperiodWire]; rfl, fun hlen => ?_⟩
  have hvalid := h.pushPeriod hstored htype
  refine ⟨_, _, wireEncode_element hvalid (s.pushPeriod_wire period) hlen, rfl, fun rest => ?_⟩
  rcases wireDecode_element hvalid new with ⟨d, hd, hdtype, hhas, hlocator, hothers, -⟩
  have hfields := s.pushPeriod_fields period
  refine ⟨d, ?_, hdtype.trans hfields.1, hhas.trans hfields.2.1, ?_, hothers, ?_⟩
  · rw [ofBytes, Block.ofBuffer, (read_element hlen).2]
    exact hd
  · rw [← hfields.2.1, ← hfields.2.2]
    exact hlocator
  · have hall : d.otherTlvs = s.unsetValidityPeriod.otherTlvs.reverse.map Block.unparsed ++ [period.unparsed] := by
      rw [hothers, pushPeriod, List.reverse_cons, List.map_append]
      rfl
    simp only [getValidityPeriod_eq_ok, hall, List.head?_append, List.head?_map, List.head?_reverse]
    cases hlast : s.unsetValidityPeriod.otherTlvs.getLast? with
    | none =>
      rcases hdecode with ⟨p, hp, hsame⟩
      constructor
      · exact fun _ => .inl (List.getLast?_eq_none_iff.mp hlast)
      · exact fun _ => ⟨p, ⟨period.unparsed, rfl, htype, hp⟩, hsame⟩
    | some last =>
      have hne : s.unsetValidityPeriod.otherTlvs ≠ [] := by
        intro hnil
        rw [hnil] at hlast
        cases hlast
      simp only [Option.map_some, Option.some_or, Option.some.injEq, hne, false_or]
      constructor
      · rintro ⟨p, ⟨b, rfl, hb, hp⟩, hsame⟩
        exact ⟨last, p, rfl, hb, hp, hsame⟩
      · rintro ⟨_, p, rfl, hb, hp, hsame⟩
        exact ⟨p, ⟨last.unparsed, rfl, hb, hp⟩, hsame⟩

/-! The first minute of 1970 with its texts, and a period of one second in it: -/

def minuteText (t : Fin 60) : Bytes :=
  "19700101T0000".toList.map (fun c => UInt8.ofNat c.toNat) ++
    [UInt8.ofNat (48 + t.val / 10), UInt8.ofNat (48 + t.val % 10)]

def firstMinute : IsoString (Fin 60) where
  toIsoString := minuteText
  fromIsoString text :=
    match (List.finRange 60).find? (fun t => minuteText t = text) with
    | some t => .ok t
    | none => .error .badCast

def firstSecond : ValidityPeriod (Fin 60) := ⟨0, 1, none⟩

theorem firstSecond_coherent : firstSecond.Coherent firstMinute where
  fresh := fun _ => ⟨⟨by decide, by rfl⟩, ⟨by decide, by rfl⟩⟩
  kept := fun b hb => by cases hb

/-- a period set beside a description: the description stands in front of it on the wire, and the period is not found -/
theorem round_trip_description : ∃ s' e b,
    ((ofType 0).appendTypeSpecificTlv (Component.block ⟨258, [1]⟩)).setValidityPeriod firstMinute firstSecond = .ok s' ∧
      s'.wireEncode = .ok e ∧ e.wire = some b ∧ ∀ rest, ∃ d, ofBytes (b.wire ++ rest) = .ok d ∧
        d.otherTlvs = [Component.block ⟨258, [1]⟩, firstSecond.element firstMinute] ∧
        ¬ ∃ p, d.getValidityPeriod firstMinute = .ok p ∧ p.Same firstSecond := by
  have hdescription : (Component.block ⟨258, [1]⟩).Stored :=
    Block.Read.stored (Block.read_write (by decide) (by unfold Uint64; decide)) (by decide)
  have hencodable : ((ofType 0).appendTypeSpecificTlv (Component.block ⟨258, [1]⟩)).Encodable := by
    refine ⟨by decide, by decide, fun h => absurd h (by decide), fun b hb => ?_⟩
    rw [List.mem_singleton.mp (show b ∈ [Component.block ⟨258, [1]⟩] from hb)]
    exact ⟨hdescription, by decide⟩
  rcases round_trip hencodable firstSecond_coherent with ⟨s', hset, hrest⟩
  have hs' : s' = ((ofType 0).appendTypeSpecificTlv (Component.block ⟨258, [1]⟩)).pushPeriod
      { firstSecond.element firstMinute with subBlocks := firstSecond.items firstMinute } := by
    refine Except.ok.inj (hset.symm.trans ?_)
    rfl
  rcases hrest (by rw [hs']; unfold Uint64; decide +kernel) with ⟨e, b, he, hb, hread⟩
  refine ⟨s', e, b, hset, he, hb, fun rest => ?_⟩
  rcases hread rest with ⟨d, hd, -, -, -, hothers, hfound⟩
  refine ⟨d, hd, by rw [hothers, hs']; rfl, ?_⟩
  rw [hfound]
  rintro (hnil | ⟨last, p, hlast, htype, -⟩)
  · cases hnil
  · cases hlast
    exact absurd htype (by decide)

end SignatureInfo

end NdnDash.Wire
