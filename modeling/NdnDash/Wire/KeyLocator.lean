/-
ndn-cxx's `KeyLocator` (`key-locator.cpp`), the element that says which key made a signature: a name, a digest of the
key or nothing. It keeps the wire it was decoded from or encoded to until it is changed.

Results:
- `adds_wireEncodeWith`: what `wireEncode(encoder)` puts for both encoders.
- `wireDecode_element`: the element that was put decodes to the same locator.
-/
import NdnDash.Wire.Name

namespace NdnDash.Wire

open Tlv

/-! ## Elements of a name -/

namespace Name

/-- the element that a name is encoded to -/
def element (n : Name) : Block :=
  Block.ofWire tlvName (Block.write tlvName (n.components.flatMap Component.wire)) (n.components.flatMap Component.wire)

/-- component types of 32 bits, and a wire whose length is one of 64 bits -/
structure Encodable (n : Name) : Prop where
  types : Types n.components
  length : Uint64 (n.components.flatMap Component.wire).length

theorem Encodable.read {n : Name} (h : n.Encodable) : n.element.Read := Block.read_write (by decide) h.length

@[simp] theorem type_element (n : Name) : n.element.type = tlvName := rfl

theorem wireDecode_element {n : Name} (h : n.Encodable) :
    ∃ m, wireDecode n.element = .ok m ∧ m.components = n.components :=
  wireDecode_of_holds (holds_wires h.types h.length)

end Name

/-! ## Model -/

/-- `KeyLocator::Type` -/
inductive KeyLocatorType where
  | none
  | name
  | keyDigest
  | unknown
deriving DecidableEq

/-- `KeyLocator`: `m_type`, `m_name`, `m_keyDigest` and, where it is set, `m_wire` -/
structure KeyLocator where
  type : KeyLocatorType
  name : Name
  keyDigest : Block
  wire : Option Block

namespace KeyLocator

def tlvKeyLocator : ℕ := 28
def tlvKeyDigest : ℕ := 29

def unsupportedType : String := "Unsupported KeyLocator type"
def unexpectedType : String := "Unexpected TLV type during KeyLocator decoding"

/-- `KeyLocator()`, and what `clear()` leaves -/
def new : KeyLocator := ⟨.none, Name.new, Block.empty, none⟩

def setName (_ : KeyLocator) (name : Name) : KeyLocator := { new with type := .name, name := name }

/-- the `switch` of `wireEncode(encoder)`, its `default:` apart -/
def encodeValue {σ : Type} (E : EncodingImpl σ) (k : KeyLocator) : StateM σ ℕ :=
  match k.type with
  | .none => pure 0
  | .name => k.name.wireEncodeWith E
  | .keyDigest => E (.prependBlock k.keyDigest)
  | .unknown => pure 0

def wireEncodeWith {σ : Type} (E : EncodingImpl σ) (k : KeyLocator) : StateM σ ℕ :=
  prependHeader E tlvKeyLocator (encodeValue E k)

/-- `wireDecode(wire)`: the first element of the value decides -/
def wireDecode (k : KeyLocator) (wire : Block) : Except String KeyLocator :=
  if wire.type ≠ tlvKeyLocator then .error unexpectedType
  else
    match wire.parse with
    | (_, some e) => .error e
    | (b, none) =>
      match b.subBlocks with
      | [] => .ok { k with type := .none, wire := some b }
      | first :: _ =>
        if first.type = Name.tlvName then
          (Name.wireDecode first).map (fun n => { k with type := .name, name := n, wire := some b })
        else if first.type = tlvKeyDigest then
          .ok { k with type := .keyDigest, keyDigest := first, wire := some b }
        else .ok { k with type := .unknown, wire := some b }

/-! ## The wire -/

/-- what a key locator says -/
inductive Locator where
  | none
  | name (components : List Component)
  | keyDigest (wire : Bytes)
  | unknown

def locator (k : KeyLocator) : Locator :=
  match k.type with
  | .none => .none
  | .name => .name k.name.components
  | .keyDigest => .keyDigest k.keyDigest.wire
  | .unknown => .unknown

/-- the elements of the value -/
def items (k : KeyLocator) : List Block :=
  match k.type with
  | .name => [k.name.element]
  | .keyDigest => [k.keyDigest.unparsed]
  | _ => []

/-- what the locator is made of can be encoded -/
structure Encodable (k : KeyLocator) : Prop where
  known : k.type ≠ .unknown
  name : k.type = .name → k.name.Encodable
  keyDigest : k.type = .keyDigest → k.keyDigest.type = tlvKeyDigest ∧ k.keyDigest.Stored

def value (k : KeyLocator) : Bytes := k.items.flatMap Block.wire

/-- the element that a locator is encoded to -/
def element (k : KeyLocator) : Block := Block.ofWire tlvKeyLocator (Block.write tlvKeyLocator k.value) k.value

theorem Encodable.read_items {k : KeyLocator} (h : k.Encodable) : ∀ b ∈ k.items, b.Read := by
  intro b hb
  unfold items at hb
  cases htype : k.type with
  | none => simp [htype] at hb
  | name =>
    simp only [htype, List.mem_singleton] at hb
    rw [hb]
    exact (h.name htype).read
  | keyDigest =>
    simp only [htype, List.mem_singleton] at hb
    rw [hb]
    exact (h.keyDigest htype).2.read
  | unknown => exact absurd htype h.known

theorem adds_wireEncodeWith {σ : Type} {E : EncodingImpl σ} {R : σ → Bytes → Prop} (hE : LawfulFront E R)
    {k : KeyLocator} (h : k.Encodable) : Adds R (wireEncodeWith E k) 0 k.element.wire [] := by
  refine adds_prependHeader hE tlvKeyLocator ?_
  unfold encodeValue value items
  cases htype : k.type with
  | none => exact adds_pure rfl
  | name =>
    simp only [List.flatMap_cons, List.flatMap_nil, List.append_nil]
    exact Name.adds_wireEncodeWith hE k.name
  | keyDigest =>
    have hwire : k.keyDigest.encodeElement = k.keyDigest.wire := (h.keyDigest htype).2.encodeElement
    simp only [List.flatMap_cons, List.flatMap_nil, List.append_nil, Block.wire_unparsed, ← hwire]
    exact hE (.prependBlock k.keyDigest) rfl
  | unknown => exact absurd htype h.known

/-- The element decodes to what the locator says, whatever was there before. -/
theorem wireDecode_element {k : KeyLocator} (h : k.Encodable) (k₀ : KeyLocator) :
    ∃ d, k₀.wireDecode k.element = .ok d ∧ d.locator = k.locator := by
  have hparse : k.element.parse = ({ k.element with subBlocks := k.items }, none) := Block.parse_wires h.read_items
  have hdecode : ¬ k.element.type ≠ tlvKeyLocator := not_not.mpr rfl
  simp only [wireDecode, if_neg hdecode, hparse]
  unfold items locator
  cases htype : k.type with
  | none => exact ⟨_, rfl, rfl⟩
  | name =>
    rcases Name.wireDecode_element (h.name htype) with ⟨n, hn, hcomponents⟩
    simp only [Name.type_element, if_true, hn]
    exact ⟨_, rfl, congrArg Locator.name hcomponents⟩
  | keyDigest =>
    have hdigest : k.keyDigest.unparsed.type = tlvKeyDigest := (h.keyDigest htype).1
    have hname : ¬ k.keyDigest.unparsed.type = Name.tlvName := by rw [hdigest]; decide
    simp only [if_neg hname, if_pos hdigest]
    exact ⟨_, rfl, rfl⟩
  | unknown => exact absurd htype h.known

end KeyLocator

end NdnDash.Wire
