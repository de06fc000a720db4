/-
ndn-cxx's `security::ValidityPeriod` (`security/validity-period.cpp`), the two dates between which a signature is valid.
Its element holds both as texts of 15 characters; the period keeps the wire it was decoded from or encoded to.

The texts are made and read by `time::toIsoString` and `time::fromIsoString`, which are parameters.

Results:
- `ofBlock_element`: what was encoded is decoded to the same two dates.
- `wireEncode_spec`: the wire that a period gives is decoded to its dates, whether it was kept or made.
-/
import NdnDash.Wire.BlockHelpers

namespace NdnDash.Wire

open Tlv

/-! ## Model -/

/-- what `fromIsoString` throws: a `std::bad_cast`, or something else with its own text -/
inductive IsoError where
  | badCast
  | other (what : String)

/-- `time::toIsoString` and `time::fromIsoString`, on time points of whole seconds -/
structure IsoString (TimePoint : Type) where
  toIsoString : TimePoint → Bytes
  fromIsoString : Bytes → Except IsoError TimePoint

/-- `ValidityPeriod`: `m_notBefore`, `m_notAfter` and, where it is set, `m_wire` -/
structure ValidityPeriod (TimePoint : Type) where
  notBefore : TimePoint
  notAfter : TimePoint
  wire : Option Block

namespace ValidityPeriod

def tlvValidityPeriod : ℕ := 253
def tlvNotBefore : ℕ := 254
def tlvNotAfter : ℕ := 255
def isoDatetimeSize : ℕ := 15

def noWire : String := "The supplied block does not contain wire format"
def unexpectedType : String := "Unexpected TLV type when decoding ValidityPeriod"
def notTwoElements : String := "Does not have two sub-TLVs"
def invalidField : String := "Invalid NotBefore or NotAfter field"
def invalidDate : String := "Invalid date format in NOT-BEFORE or NOT-AFTER field"

variable {TimePoint : Type} (iso : IsoString TimePoint)

def prependStringBlock {σ : Type} (E : EncodingImpl σ) (type : ℕ) (value : Bytes) : StateM σ ℕ :=
  prependHeader E type (E (.prependByteArray value))

def wireEncodeWith {σ : Type} (E : EncodingImpl σ) (p : ValidityPeriod TimePoint) : StateM σ ℕ :=
  prependHeader E tlvValidityPeriod do
    let totalLength ← prependStringBlock E tlvNotAfter (iso.toIsoString p.notAfter)
    let totalLength := totalLength + (← prependStringBlock E tlvNotBefore (iso.toIsoString p.notBefore))
    pure totalLength

/-- `wireEncode()`: the wire that is kept, or a new one, parsed -/
def wireEncode (p : ValidityPeriod TimePoint) : Except String Block :=
  match p.wire.filter Block.hasWire with
  | some b => .ok b
  | none =>
    match encodeBlock (fun E => wireEncodeWith iso E p) with
    | .error e => .error e
    | .ok b =>
      match b.parse with
      | (_, some e) => .error e
      | (b', none) => .ok b'

/-- a date of the element, with the `catch` around it -/
def decodeDate (b : Block) : Except String TimePoint :=
  match iso.fromIsoString b.value with
  | .ok t => .ok t
  | .error .badCast => .error invalidDate
  | .error (.other what) => .error what

/-- `ValidityPeriod(block)` -/
def ofBlock (wire : Block) : Except String (ValidityPeriod TimePoint) :=
  if wire.hasWire = false then .error noWire
  else
    match wire.parse with
    | (_, some e) => .error e
    | (b, none) =>
      if b.type ≠ tlvValidityPeriod then .error unexpectedType
      else
        match b.subBlocks with
        | [notBefore, notAfter] =>
          if notBefore.type ≠ tlvNotBefore ∨ notBefore.value.length ≠ isoDatetimeSize ∨
              notAfter.type ≠ tlvNotAfter ∨ notAfter.value.length ≠ isoDatetimeSize then .error invalidField
          else
            match decodeDate iso notBefore with
            | .error e => .error e
            | .ok notBefore => (decodeDate iso notAfter).map fun notAfter => ⟨notBefore, notAfter, some b⟩
        | _ => .error notTwoElements

/-! ## The wire -/

/-- `operator==`: the two dates -/
def Same (p q : ValidityPeriod TimePoint) : Prop := p.notBefore = q.notBefore ∧ p.notAfter = q.notAfter

/-- a date that has a text of 15 characters, which is read back -/
def Printable (t : TimePoint) : Prop :=
  (iso.toIsoString t).length = isoDatetimeSize ∧ iso.fromIsoString (iso.toIsoString t) = .ok t

/-- The invariant of a period: its dates can be printed, or the wire it keeps decodes to them. -/
structure Coherent (p : ValidityPeriod TimePoint) : Prop where
  fresh : p.wire = none → Printable iso p.notBefore ∧ Printable iso p.notAfter
  kept : ∀ b, p.wire = some b → b.Stored ∧ b.type = tlvValidityPeriod ∧
    ∃ q, ofBlock iso b.unparsed = .ok q ∧ q.Same p

/-- an element with a text in it -/
def stringElement (type : ℕ) (value : Bytes) : Block := Block.ofWire type (Block.write type value) value

/-- the elements of the value -/
def items (p : ValidityPeriod TimePoint) : List Block :=
  [stringElement tlvNotBefore (iso.toIsoString p.notBefore), stringElement tlvNotAfter (iso.toIsoString p.notAfter)]

def value (p : ValidityPeriod TimePoint) : Bytes := (p.items iso).flatMap Block.wire

/-- the element that a period is encoded to -/
def element (p : ValidityPeriod TimePoint) : Block :=
  Block.ofWire tlvValidityPeriod (Block.write tlvValidityPeriod (p.value iso)) (p.value iso)

variable {iso} {p : ValidityPeriod TimePoint}

theorem read_items (hbefore : Printable iso p.notBefore) (hafter : Printable iso p.notAfter) :
    ∀ b ∈ p.items iso, b.Read := by
  intro b hb
  simp only [items, List.mem_cons, List.not_mem_nil, or_false] at hb
  rcases hb with rfl | rfl
  · exact Block.read_write (by decide) (by rw [hbefore.1]; unfold Uint64; decide)
  · exact Block.read_write (by decide) (by rw [hafter.1]; unfold Uint64; decide)

theorem length_value (hbefore : Printable iso p.notBefore) (hafter : Printable iso p.notAfter) :
    (p.value iso).length = 38 := by
  simp only [value, items, stringElement, List.flatMap_cons, List.flatMap_nil, Block.wire_ofWire, List.append_nil,
    List.length_append, Block.length_write, hbefore.1, hafter.1]
  decide

theorem parse_element (hbefore : Printable iso p.notBefore) (hafter : Printable iso p.notAfter) :
    (p.element iso).parse = ({ p.element iso with subBlocks := p.items iso }, none) :=
  Block.parse_wires (read_items hbefore hafter)

theorem adds_wireEncodeWith {σ : Type} {E : EncodingImpl σ} {R : σ → Bytes → Prop} (hE : LawfulFront E R)
    (p : ValidityPeriod TimePoint) : Adds R (wireEncodeWith iso E p) 0 (p.element iso).wire [] := by
  have hdate : ∀ type text, Adds R (prependStringBlock E type text) 0 (Block.write type text) [] :=
    fun type text => adds_prependHeader hE type (hE (.prependByteArray text) rfl)
  refine adds_prependHeader hE tlvValidityPeriod ?_
  refine adds_bind (hdate tlvNotAfter _) (adds_bind (hdate tlvNotBefore _) (adds_pure ?_) rfl rfl) ?_ rfl
  · simp
  · simp [value, items, stringElement]

/-- **Round trip.** The element that was made is decoded to the two dates. -/
theorem ofBlock_element (hbefore : Printable iso p.notBefore) (hafter : Printable iso p.notAfter) :
    ofBlock iso (p.element iso) =
      .ok ⟨p.notBefore, p.notAfter, some { p.element iso with subBlocks := p.items iso }⟩ := by
  have hwire : (p.element iso).hasWire = true := (Block.hasWire_iff _).mpr (Block.write_ne_nil tlvValidityPeriod _)
  have htag : (p.element iso).type = tlvValidityPeriod := rfl
  have hfields : ¬ ((stringElement tlvNotBefore (iso.toIsoString p.notBefore)).type ≠ tlvNotBefore ∨
      (stringElement tlvNotBefore (iso.toIsoString p.notBefore)).value.length ≠ isoDatetimeSize ∨
      (stringElement tlvNotAfter (iso.toIsoString p.notAfter)).type ≠ tlvNotAfter ∨
      (stringElement tlvNotAfter (iso.toIsoString p.notAfter)).value.length ≠ isoDatetimeSize) := by
    simp [stringElement, Block.ofWire, Block.value, hbefore.1, hafter.1]
  have hdate : ∀ {t : TimePoint} (type : ℕ), Printable iso t →
      decodeDate iso (stringElement type (iso.toIsoString t)) = .ok t := by
    intro t type ht
    rw [decodeDate, show (stringElement type (iso.toIsoString t)).value = iso.toIsoString t from rfl, ht.2]
  simp only [ofBlock, hwire, Bool.true_eq_false, if_false, parse_element hbefore hafter, htag, items, ne_eq,
    not_true_eq_false]
  rw [if_neg hfields, hdate _ hbefore]
  simp only [hdate _ hafter, Except.map]

/-- what is accepted keeps the wire it was decoded from -/
theorem ofBlock_coherent {b : Block} (hread : b.Read) (hshort : b.wire.length < 2 ^ 32) (h : ofBlock iso b = .ok p) :
    p.Coherent iso := by
  have hdecode := h
  unfold ofBlock at h
  split_ifs at h
  rcases hparse : b.parse with ⟨b', _ | err⟩
  · simp only [hparse] at h
    split_ifs at h with htype
    rcases Block.read_of_parse hread.1 hparse with ⟨-, -, hb'⟩
    have hunparsed : b'.unparsed = b := by
      rw [← hread.unparsed_eq, hb']
      rfl
    have hwire : p.wire = some b' := by
      split at h
      · next notBefore notAfter _ =>
        split_ifs at h
        cases hbefore : decodeDate iso notBefore with
        | error e => simp [hbefore] at h
        | ok t =>
          cases hafter : decodeDate iso notAfter with
          | error e => simp [hbefore, hafter, Except.map] at h
          | ok u =>
            simp only [hbefore, hafter, Except.map, Except.ok.injEq] at h
            rw [← h]
      · cases h
    refine ⟨fun hnone => absurd hnone (by simp [hwire]), ?_⟩
    intro c hc
    rw [hwire] at hc
    cases hc
    have hsame : b'.wire = b.wire := by rw [← Block.wire_unparsed, hunparsed]
    exact ⟨⟨hunparsed.symm ▸ hread, by rw [hsame]; exact hshort⟩, not_not.mp htype, p, hunparsed.symm ▸ hdecode,
      rfl, rfl⟩
  · simp [hparse] at h

/-- **The wire of a period** is decoded to its dates, whether it was kept or made. -/
theorem wireEncode_spec (hp : p.Coherent iso) : ∃ b, p.wireEncode iso = .ok b ∧ b.Stored ∧ b.type = tlvValidityPeriod ∧
    ∃ q, ofBlock iso b.unparsed = .ok q ∧ q.Same p := by
  cases hwire : p.wire with
  | some b =>
    rcases hp.kept b hwire with ⟨hstored, htype, hdecode⟩
    refine ⟨b, ?_, hstored, htype, hdecode⟩
    rw [wireEncode, hwire, Option.filter_some, if_pos hstored.hasWire]
  | none =>
    rcases hp.fresh hwire with ⟨hbefore, hafter⟩
    have hlen : (p.value iso).length = 38 := length_value hbefore hafter
    have hwrites : Writes (fun E => wireEncodeWith iso E p) (p.element iso).wire :=
      fun E R hE => adds_wireEncodeWith hE p
    have hblock := encodeBlock_eq hwrites (by decide) (by rw [hlen]; unfold Uint64; decide)
    have hread : (p.element iso).Read := Block.read_write (by decide) (by rw [hlen]; unfold Uint64; decide)
    have hshort : (p.element iso).wire.length < 2 ^ 32 := by
      rw [element, Block.wire_ofWire, Block.length_write, hlen]
      decide
    refine ⟨{ p.element iso with subBlocks := p.items iso }, ?_, ⟨hread, hshort⟩, rfl, _,
      ofBlock_element hbefore hafter, rfl, rfl⟩
    have hparse := parse_element hbefore hafter
    rw [element] at hparse
    simp only [wireEncode, hwire, Option.filter_none, hblock, hparse]
    rfl

end ValidityPeriod

end NdnDash.Wire
