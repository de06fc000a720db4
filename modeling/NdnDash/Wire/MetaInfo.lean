/-
ndn-cxx's `MetaInfo` (`meta-info.cpp`), the element of a data packet that describes its content. It ends in a list of
elements of the application, which it does not interpret; `wireDecode` adds the elements it finds to the list it has.

Results:
- `wireDecode_element`: the element that was put decodes to the same description, with its list behind the old one.
-/
import NdnDash.Wire.Name

namespace NdnDash.Wire

open Tlv

/-! ## MetaInfo -/

/-- `MetaInfo`; the component of `m_finalBlockId` is empty where there is none -/
structure MetaInfo where
  type : ℕ
  freshnessPeriod : ℤ
  finalBlockId : Component
  appMetaInfo : List Block
  wire : Option Block

namespace MetaInfo

def tlvMetaInfo : ℕ := 20
def tlvContentType : ℕ := 24
def tlvFreshnessPeriod : ℕ := 25
def tlvFinalBlockId : ℕ := 26
def contentTypeBlob : ℕ := 0

def outsideApplicationRange : String := "AppMetaInfo block has type outside the application range [128, 252]"
def emptyValue : String := "Underlying value buffer is empty"
def lengthMismatch : String := "TLV length mismatches buffer length"

/-- `name::Component()` -/
def noComponent : Component := Component.generic []

/-- `MetaInfo()` -/
def new : MetaInfo := ⟨contentTypeBlob, -1, noComponent, [], none⟩

/-- `time::milliseconds::min()` -/
def minMilliseconds : ℤ := -2 ^ 63

def setType (m : MetaInfo) (type : ℕ) : MetaInfo := { m with wire := none, type := type }

def setFreshnessPeriod (m : MetaInfo) (freshnessPeriod : ℤ) : MetaInfo :=
  { m with wire := none, freshnessPeriod := freshnessPeriod }

def setFinalBlockId (m : MetaInfo) (finalBlockId : Component) : MetaInfo :=
  { m with wire := none, finalBlockId := finalBlockId }

/-- the check of `addAppMetaInfo` -/
def Application (b : Block) : Prop := 128 ≤ b.type ∧ b.type ≤ 252

instance (b : Block) : Decidable (Application b) := by unfold Application; infer_instance

def addAppMetaInfo (m : MetaInfo) (b : Block) : Except String MetaInfo :=
  if Application b then .ok { m with wire := none, appMetaInfo := m.appMetaInfo ++ [b] }
  else .error outsideApplicationRange

/-- `prependNestedBlock(encoder, type, value)` for a component -/
def prependNestedBlock {σ : Type} (E : EncodingImpl σ) (type : ℕ) (c : Component) : StateM σ ℕ :=
  prependHeader E type (Component.wireEncode E c)

def wireEncodeWith {σ : Type} (E : EncodingImpl σ) (m : MetaInfo) : StateM σ ℕ :=
  prependHeader E tlvMetaInfo do
    let totalLength ← Name.prependAll (fun b => E (.prependBlock b)) m.appMetaInfo
    let totalLength := totalLength +
      (← prependIf (m.finalBlockId.value ≠ []) (prependNestedBlock E tlvFinalBlockId m.finalBlockId))
    let totalLength := totalLength + (← prependIf (0 ≤ m.freshnessPeriod)
      (prependNonNegativeIntegerBlock E tlvFreshnessPeriod m.freshnessPeriod.toNat))
    let totalLength := totalLength + (← prependIf (m.type ≠ contentTypeBlob)
      (prependNonNegativeIntegerBlock E tlvContentType m.type))
    pure totalLength

/-- `blockFromValue()`, as a component -/
def componentFromValue (b : Block) : Except String Component :=
  if b.value = [] then .error emptyValue
  else
    match readType b.value with
    | .error e => .error e
    | .ok (type, bs1) =>
      match readVarNumber bs1 with
      | .error e => .error e
      | .ok (length, bs2) =>
        if length ≠ bs2.length then .error lengthMismatch
        else if (Component.mk type bs2).Accepted then .ok ⟨type, bs2⟩
        else .error Component.notComponent

/-- `// ContentType` -/
def decodeType : List Block → Except String (ℕ × List Block)
  | [] => .ok (contentTypeBlob, [])
  | val :: rest =>
    if val.type = tlvContentType then (readNonNegativeInteger val).map (fun n => (n % 2 ^ 32, rest))
    else .ok (contentTypeBlob, val :: rest)

/-- `// FreshnessPeriod` -/
def decodeFreshnessPeriod : List Block → Except String (ℤ × List Block)
  | [] => .ok (minMilliseconds, [])
  | val :: rest =>
    if val.type = tlvFreshnessPeriod then (readNonNegativeInteger val).map fun n : ℕ => (toInt64 n, rest)
    else .ok (minMilliseconds, val :: rest)

/-- `// FinalBlockId`: a digest component is dropped -/
def decodeFinalBlockId : List Block → Except String (Component × List Block)
  | [] => .ok (noComponent, [])
  | val :: rest =>
    if val.type = tlvFinalBlockId then
      (componentFromValue val).map
        (fun c => (if c.type ≠ Component.tlvNameComponent then noComponent else c, rest))
    else .ok (noComponent, val :: rest)

/-- `wireDecode(wire)`: what is left over is added to the elements that are there -/
def wireDecode (m : MetaInfo) (wire : Block) : Except String MetaInfo :=
  match wire.parse with
  | (_, some e) => .error e
  | (b, none) =>
    match decodeType b.subBlocks with
    | .error e => .error e
    | .ok (type, val) =>
      match decodeFreshnessPeriod val with
      | .error e => .error e
      | .ok (freshnessPeriod, val) =>
        match decodeFinalBlockId val with
        | .error e => .error e
        | .ok (finalBlockId, val) =>
          .ok ⟨type, freshnessPeriod, finalBlockId, m.appMetaInfo ++ val, some b⟩

/-! ### The wire -/

/-- an element with a number in it -/
def numberElement (type n : ℕ) : Block :=
  Block.ofWire type (Block.write type (nonNegativeInteger n)) (nonNegativeInteger n)

/-- an element with a component in it -/
def nestedElement (type : ℕ) (c : Component) : Block := Block.ofWire type (Block.write type c.wire) c.wire

@[simp] theorem type_numberElement (type n : ℕ) : (numberElement type n).type = type := rfl

@[simp] theorem type_nestedElement (type : ℕ) (c : Component) : (nestedElement type c).type = type := rfl

theorem read_numberElement {type : ℕ} (htype : type ≤ maxType) (n : ℕ) : (numberElement type n).Read :=
  Block.read_write htype (uint64_of_length (length_nonNegativeInteger n) (by norm_num))

/-- the elements of the value -/
def items (m : MetaInfo) : List Block :=
  (if m.type ≠ contentTypeBlob then [numberElement tlvContentType m.type] else []) ++
  ((if 0 ≤ m.freshnessPeriod then [numberElement tlvFreshnessPeriod m.freshnessPeriod.toNat] else []) ++
  ((if m.finalBlockId.value ≠ [] then [nestedElement tlvFinalBlockId m.finalBlockId] else []) ++ m.appMetaInfo))

def value (m : MetaInfo) : Bytes := m.items.flatMap Block.wire

/-- the element that it is encoded to -/
def element (m : MetaInfo) : Block := Block.ofWire tlvMetaInfo (Block.write tlvMetaInfo m.value) m.value

/-- the numbers fit their fields, the final block is named by a generic component and the list has no element that
`wireDecode` interprets -/
structure Encodable (m : MetaInfo) : Prop where
  type : m.type < 2 ^ 32
  freshnessPeriod : m.freshnessPeriod < 2 ^ 63
  finalBlockId : m.finalBlockId.type = Component.tlvNameComponent
  finalBlockLength : Uint64 m.finalBlockId.wire.length
  appMetaInfo : ∀ b ∈ m.appMetaInfo, b.Read ∧ b.type ≠ tlvContentType ∧ b.type ≠ tlvFreshnessPeriod ∧
    b.type ≠ tlvFinalBlockId
  appMetaInfoShort : ∀ b ∈ m.appMetaInfo, b.wire.length < 2 ^ 32

theorem Encodable.stored {m : MetaInfo} (h : m.Encodable) : ∀ b ∈ m.appMetaInfo, b.Stored :=
  fun b hb => (h.appMetaInfo b hb).1.stored (h.appMetaInfoShort b hb)

/-- the application's range of types has none that `wireDecode` interprets -/
theorem Encodable.addAppMetaInfo {m m' : MetaInfo} (h : m.Encodable) {b : Block} (hread : b.Read)
    (hshort : b.wire.length < 2 ^ 32) (hadd : m.addAppMetaInfo b = .ok m') : m'.Encodable := by
  rw [MetaInfo.addAppMetaInfo] at hadd
  split_ifs at hadd with happ
  cases hadd
  refine ⟨h.type, h.freshnessPeriod, h.finalBlockId, h.finalBlockLength, ?_, ?_⟩
  · intro c hc
    rcases List.mem_append.mp hc with hc | hc
    · exact h.appMetaInfo c hc
    · rw [List.mem_singleton.mp hc]
      have hrange := happ.1
      have hother : ∀ type, type < 128 → b.type ≠ type := fun type hlt => by omega
      exact ⟨hread, hother _ (by decide), hother _ (by decide), hother _ (by decide)⟩
  · intro c hc
    rcases List.mem_append.mp hc with hc | hc
    · exact h.appMetaInfoShort c hc
    · rw [List.mem_singleton.mp hc]
      exact hshort

theorem Encodable.read_items {m : MetaInfo} (h : m.Encodable) : ∀ b ∈ m.items, b.Read := by
  intro b hb
  simp only [items, List.mem_append] at hb
  rcases hb with hb | hb | hb | hb
  · split_ifs at hb
    · rw [List.mem_singleton.mp hb]
      exact read_numberElement (by decide) _
    · cases hb
  · split_ifs at hb
    · rw [List.mem_singleton.mp hb]
      exact read_numberElement (by decide) _
    · cases hb
  · split_ifs at hb
    · rw [List.mem_singleton.mp hb]
      exact Block.read_write (by decide) h.finalBlockLength
    · cases hb
  · exact (h.appMetaInfo b hb).1

theorem read_number {type n : ℕ} (hn : Uint64 n) : readNonNegativeInteger (numberElement type n) = .ok n :=
  readNonNegativeInteger_of_value hn rfl

theorem componentFromValue_nested {c : Component} (hc : c.type = Component.tlvNameComponent)
    (hlen : Uint64 c.wire.length) (type : ℕ) : componentFromValue (nestedElement type c) = .ok c := by
  have hgeneric : c.isGeneric = true := by rw [Component.isGeneric, hc]; rfl
  have hvalue : Uint64 c.value.length := by
    rw [Component.wire, Block.length_write] at hlen
    unfold Uint64 at hlen ⊢
    omega
  have htype : readType c.wire = .ok (c.type, writeVarNumber c.value.length ++ c.value) := by
    rw [Component.wire, Block.write, List.append_assoc]
    exact readType_write (by rw [hc]; decide) _
  have hlength : readVarNumber (writeVarNumber c.value.length ++ c.value) = .ok (c.value.length, c.value) :=
    readVarNumber_write hvalue c.value
  have hne : ¬ (nestedElement type c).value = [] := Block.write_ne_nil c.type c.value
  have hread : (nestedElement type c).value = c.wire := rfl
  rw [componentFromValue, if_neg hne, hread]
  simp only [htype, hlength, ne_eq, not_true_eq_false, if_false]
  exact if_pos (Or.inl hgeneric)

/-- a field that stands there is taken off the front, and one that does not leaves the rest as it is -/
theorem decodeType_optional {type : ℕ} (val : List Block) (htype : type < 2 ^ 32)
    (hrest : ∀ b ∈ val, b.type ≠ tlvContentType) :
    decodeType ((if type ≠ contentTypeBlob then [numberElement tlvContentType type] else []) ++ val) =
      .ok (type, val) := by
  by_cases hblob : type ≠ contentTypeBlob
  · rw [if_pos hblob, List.singleton_append, decodeType, if_pos (type_numberElement _ _),
      read_number (by unfold Uint64; omega), Except.map, Nat.mod_eq_of_lt htype]
  · rw [if_neg hblob, List.nil_append, not_not.mp hblob]
    cases val with
    | nil => rfl
    | cons b rest => rw [decodeType, if_neg (hrest b List.mem_cons_self)]

theorem decodeFreshnessPeriod_optional {freshnessPeriod : ℤ} (val : List Block) (hlt : freshnessPeriod < 2 ^ 63)
    (hrest : ∀ b ∈ val, b.type ≠ tlvFreshnessPeriod) :
    decodeFreshnessPeriod ((if 0 ≤ freshnessPeriod then [numberElement tlvFreshnessPeriod freshnessPeriod.toNat]
      else []) ++ val) = .ok (if 0 ≤ freshnessPeriod then freshnessPeriod else minMilliseconds, val) := by
  by_cases hpositive : 0 ≤ freshnessPeriod
  · have hsmall : freshnessPeriod.toNat < 2 ^ 63 := by omega
    rw [if_pos hpositive, if_pos hpositive, List.singleton_append, decodeFreshnessPeriod,
      if_pos (type_numberElement _ _), read_number (by unfold Uint64; omega), Except.map, toInt64_of_lt hsmall,
      Int.toNat_of_nonneg hpositive]
  · rw [if_neg hpositive, if_neg hpositive, List.nil_append]
    cases val with
    | nil => rfl
    | cons b rest => rw [decodeFreshnessPeriod, if_neg (hrest b List.mem_cons_self)]

theorem decodeFinalBlockId_optional {c : Component} {val : List Block} (hc : c.type = Component.tlvNameComponent)
    (hlen : Uint64 c.wire.length) (hrest : ∀ b ∈ val, b.type ≠ tlvFinalBlockId) :
    decodeFinalBlockId ((if c.value ≠ [] then [nestedElement tlvFinalBlockId c] else []) ++ val) = .ok (c, val) := by
  by_cases hvalue : c.value ≠ []
  · rw [if_pos hvalue, List.singleton_append, decodeFinalBlockId, if_pos (type_nestedElement _ _),
      componentFromValue_nested hc hlen, Except.map, if_neg (not_not.mpr hc)]
  · have hnone : noComponent = c := by rw [noComponent, Component.generic, ← hc, ← not_not.mp hvalue]
    rw [if_neg hvalue, List.nil_append]
    cases val with
    | nil => rw [decodeFinalBlockId, hnone]
    | cons b rest => rw [decodeFinalBlockId, if_neg (hrest b List.mem_cons_self), hnone]

theorem flatMap_optional (P : Prop) [Decidable P] (b : Block) :
    (if P then [b] else []).flatMap Block.wire = if P then b.wire else [] := by
  split_ifs <;> simp

theorem adds_wireEncodeWith {σ : Type} {E : EncodingImpl σ} {R : σ → Bytes → Prop} (hE : LawfulFront E R)
    {m : MetaInfo} (h : m.Encodable) : Adds R (wireEncodeWith E m) 0 m.element.wire [] := by
  have happ : Adds R (Name.prependAll (fun b => E (.prependBlock b)) m.appMetaInfo) 0
      (m.appMetaInfo.flatMap Block.wire) [] := by
    refine Name.adds_prependAll fun b hb => ?_
    rw [← (h.stored b hb).encodeElement]
    exact hE (.prependBlock b) rfl
  have hfinal := adds_prependIf (decide (m.finalBlockId.value ≠ []))
    (fun _ => adds_prependHeader hE tlvFinalBlockId (Name.adds_component hE m.finalBlockId))
  have hfresh := adds_prependIf (decide (0 ≤ m.freshnessPeriod))
    (fun _ => adds_prependNonNegativeIntegerBlock hE tlvFreshnessPeriod m.freshnessPeriod.toNat)
  have htype := adds_prependIf (decide (m.type ≠ contentTypeBlob))
    (fun _ => adds_prependNonNegativeIntegerBlock hE tlvContentType m.type)
  refine adds_prependHeader hE tlvMetaInfo ?_
  refine adds_bind happ (adds_bind hfinal (adds_bind hfresh (adds_bind htype (adds_pure ?_) rfl rfl) rfl rfl) rfl rfl)
    ?_ rfl
  · simp
  · simp only [value, items, List.flatMap_append, decide_eq_true_eq, List.append_assoc, List.nil_append]
    rw [flatMap_optional, flatMap_optional, flatMap_optional]
    rfl

theorem mem_optional {P : Prop} [Decidable P] {a b : Block} (h : b ∈ if P then [a] else []) : b = a := by
  split_ifs at h
  · exact List.mem_singleton.mp h
  · cases h

/-- The element decodes to what was described; its list comes behind the one that was there. A negative freshness
period is none, and none reads as the least number of milliseconds. -/
theorem wireDecode_element {m : MetaInfo} (h : m.Encodable) (m₀ : MetaInfo) :
    m₀.wireDecode m.element = .ok ⟨m.type, if 0 ≤ m.freshnessPeriod then m.freshnessPeriod else minMilliseconds,
      m.finalBlockId, m₀.appMetaInfo ++ m.appMetaInfo, some { m.element with subBlocks := m.items }⟩ := by
  have hparse : m.element.parse = ({ m.element with subBlocks := m.items }, none) := Block.parse_wires h.read_items
  have hfinal := decodeFinalBlockId_optional h.finalBlockId h.finalBlockLength
    (fun b hb => (h.appMetaInfo b hb).2.2.2)
  -- the fields behind each field do not have its type
  have hfresh := decodeFreshnessPeriod_optional ((if m.finalBlockId.value ≠ [] then
      [nestedElement tlvFinalBlockId m.finalBlockId] else []) ++ m.appMetaInfo) h.freshnessPeriod (fun b hb => by
    rcases List.mem_append.mp hb with hb | hb
    · rw [mem_optional hb, type_nestedElement]
      decide
    · exact (h.appMetaInfo b hb).2.2.1)
  have htype := decodeType_optional ((if 0 ≤ m.freshnessPeriod then
      [numberElement tlvFreshnessPeriod m.freshnessPeriod.toNat] else []) ++ ((if m.finalBlockId.value ≠ [] then
      [nestedElement tlvFinalBlockId m.finalBlockId] else []) ++ m.appMetaInfo)) h.type (fun b hb => by
    simp only [List.mem_append] at hb
    rcases hb with hb | hb | hb
    · rw [mem_optional hb, type_numberElement]
      decide
    · rw [mem_optional hb, type_nestedElement]
      decide
    · exact (h.appMetaInfo b hb).2.1)
  rw [wireDecode, hparse]
  simp only [items, htype, hfresh, hfinal]

end MetaInfo

end NdnDash.Wire
