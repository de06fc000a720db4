/-
ndn-cxx's `Data` (`data.cpp`) with its `Signature`, how the key chain signs one (`KeyChain::signPacketWrapper`) and what
the validator verifies of it (`Validator::verifySignature`). The function that makes the signature is a parameter.

Encoding ends in `wireDecode` of what was encoded, into the same packet: the elements that the description does not
interpret are added to those it has, so that they are there twice afterwards.

Results:
- `data_wire`: after any calls that threw nothing the wire decodes to the fields of the packet, with the elements of the
  description half as often as the packet has them.
- `sign_verified`: a packet that is not too long can be signed, and what a receiver verifies is what was signed.
- `sign_doubles`: a packet that is signed again carries the elements of its description doubled once for every earlier
  signature.
-/
import NdnDash.Wire.SignatureInfo

namespace NdnDash.Wire

open Tlv

theorem bind_ok {ε α β : Type} {x : Except ε α} {f : α → Except ε β} {b : β} (h : (x >>= f) = .ok b) :
    ∃ a, x = .ok a ∧ f a = .ok b := by
  cases x with
  | error e => cases h
  | ok a => exact ⟨a, rfl, h⟩

theorem ok_bind {ε α β : Type} (a : α) (f : α → Except ε β) : (Except.ok a >>= f) = f a := rfl

theorem pure_ok {ε α : Type} (a : α) : (pure a : Except ε α) = .ok a := rfl

/-! ## Model -/

/-- `Signature`: `m_info` and `m_value` -/
structure Signature where
  info : SignatureInfo
  value : Block

structure Data where
  name : Name
  metaInfo : MetaInfo
  content : Block
  signature : Signature
  wire : Option Block

namespace Data

def tlvData : ℕ := 6
def tlvContent : ℕ := 21
def tlvSignatureValue : ℕ := 23

def notSigned : String := "Requested wire format, but data packet has not been signed yet"
def notSignatureValue : String := "The supplied block is not SignatureValue"

/-- `Signature()` -/
def noSignature : Signature := ⟨SignatureInfo.new, Block.empty⟩

/-- `Data()` -/
def new : Data := ⟨Name.new, MetaInfo.new, Block.ofType tlvContent, noSignature, none⟩

/-- `Data(name)` -/
def ofName (name : Name) : Data := ⟨name, MetaInfo.new, Block.empty, noSignature, none⟩

def onChanged (d : Data) : Data := { d with wire := none }

def setName (d : Data) (name : Name) : Data := { d.onChanged with name := name }

def setMetaInfo (d : Data) (metaInfo : MetaInfo) : Data := { d.onChanged with metaInfo := metaInfo }

def setContentType (d : Data) (type : ℕ) : Data := { d.onChanged with metaInfo := d.metaInfo.setType type }

def setFreshnessPeriod (d : Data) (freshnessPeriod : ℤ) : Data :=
  { d.onChanged with metaInfo := d.metaInfo.setFreshnessPeriod freshnessPeriod }

def setFinalBlockId (d : Data) (finalBlockId : Component) : Data :=
  { d.onChanged with metaInfo := d.metaInfo.setFinalBlockId finalBlockId }

/-- `setContent(contentValue)`: not a real wire encoding yet -/
def setContent (d : Data) (contentValue : Bytes) : Data :=
  { d.onChanged with content := Block.ofValue tlvContent contentValue }

/-- `setContent(content)`: a block of another type is put into one -/
def setContentBlock (d : Data) (content : Block) : Data :=
  { d.onChanged with content := if content.type = tlvContent then content else Block.ofValue tlvContent content.wire }

def setSignature (d : Data) (signature : Signature) : Data := { d.onChanged with signature := signature }

def setSignatureValue (d : Data) (value : Block) : Except String Data :=
  if value.type ≠ tlvSignatureValue then .error notSignatureValue
  else .ok { d.onChanged with signature := { d.signature with value := value } }

/-- `getContent()`: an empty element where there is none, and encoded where it is not -/
def getContent (content : Block) : Except String Block :=
  if content.type = maxType then makeEmptyBlock tlvContent
  else content.encode

/-- `m_signature.getInfo()` -/
def getInfo (info : SignatureInfo) : Except String (SignatureInfo × Block) :=
  match info.wireEncode with
  | .error e => .error e
  | .ok info =>
    match info.wire with
    | some b => .ok (info, b)
    | none => .ok (info, Block.empty)

/-- what `wireEncode(encoder, true)` prepends: everything but the signature value -/
def encodeUnsigned {σ : Type} (E : EncodingImpl σ) (d : Data) (info content : Block) : StateM σ ℕ := do
  let totalLength ← E (.prependBlock info)
  let totalLength := totalLength + (← E (.prependBlock content))
  let totalLength := totalLength + (← d.metaInfo.wireEncodeWith E)
  let totalLength := totalLength + (← d.name.wireEncodeWith E)
  pure totalLength

/-- `wireEncode(encoder)` -/
def wireEncodeWith {σ : Type} (E : EncodingImpl σ) (d : Data) (value info content : Block) : StateM σ ℕ :=
  prependHeader E tlvData do
    let totalLength ← E (.prependBlock value)
    let totalLength := totalLength + (← encodeUnsigned E d info content)
    pure totalLength

/-- the result of `get(type)`, decoded -/
def wireDecode (d : Data) (wire : Block) : Except String Data :=
  match wire.parse with
  | (_, some e) => .error e
  | (b, none) => do
    let name ← Name.wireDecode (← b.get Name.tlvName)
    let metaInfo ← d.metaInfo.wireDecode (← b.get MetaInfo.tlvMetaInfo)
    let content ← b.get tlvContent
    let info ← SignatureInfo.new.wireDecode (← b.get SignatureInfo.tlvSignatureInfo)
    pure ⟨name, metaInfo, content, ⟨info, (b.find? tlvSignatureValue).getD d.signature.value⟩, some b⟩

/-- `wireEncode()` -/
def wireEncode (d : Data) : Except String Data :=
  if d.wire.any Block.hasWire then .ok d
  else if d.signature.info.type = -1 then .error notSigned
  else do
    let value ← d.signature.value.encode
    let (info, infoBlock) ← getInfo d.signature.info
    let content ← getContent d.content
    let d := { d with content := content, signature := ⟨info, value⟩ }
    d.wireDecode (← encodeBlock (fun E => wireEncodeWith E d value infoBlock content))

/-- `EncodingBuffer()` -/
def newEncodingBuffer : Encoder := Encoder.new 8800 400

/-- `wireEncode(encoder, signatureValue)`, up to the decoding: the signature value is appended and the header
prepended -/
def encodeSigned (signatureValue : Block) (e : Encoder) : Encoder :=
  let appended := encoder (.appendBlock signatureValue) e
  let totalLength := e.contents.length + appended.1
  (encoder (.prependVarNumber tlvData) (encoder (.prependVarNumber totalLength) appended.2).2).2

/-- `KeyChain::signPacketWrapper`: the packet without its signature value is encoded and signed. Every `pureSign` puts
what it made into a `Block(tlv::SignatureValue, …)`. -/
def sign (d : Data) (signature : Signature) (pureSign : Bytes → Bytes) : Except String Data := do
  let d := d.setSignature signature
  let (info, infoBlock) ← getInfo d.signature.info
  let content ← getContent d.content
  let d := { d with content := content, signature := ⟨info, d.signature.value⟩ }
  let e := (encodeUnsigned encoder d infoBlock content newEncodingBuffer).2
  d.wireDecode (← (encodeSigned (Block.ofValue tlvSignatureValue (pureSign e.contents)) e).block)

/-- `Validator::verifySignature(data, …)`: the bytes whose signature is verified, if there is a key locator -/
def verifiedPortion (d : Data) : Except String (Option Bytes) :=
  if d.signature.info.hasKeyLocator = false then .ok none
  else do
    let d ← d.wireEncode
    let value ← d.signature.value.encode
    pure (some
      (((d.wire.map Block.value).getD []).take (((d.wire.map Block.value).getD []).length - (← value.size))))

/-- a packet off the front of a buffer, `Data(wire)` -/
def ofBytes (bs : Bytes) : Except String Data :=
  match Block.ofBuffer bs with
  | .error e => .error e
  | .ok b => new.wireDecode b

inductive Op where
  | setName (name : Name)
  | setMetaInfo (metaInfo : MetaInfo)
  | setContentType (type : ℕ)
  | setFreshnessPeriod (freshnessPeriod : ℤ)
  | setFinalBlockId (finalBlockId : Component)
  | setContent (contentValue : Bytes)
  | setContentBlock (content : Block)
  | setSignatureValue (value : Block)
  | wireEncode
  | sign (signature : Signature) (pureSign : Bytes → Bytes)

def step (d : Data) : Op → Except String Data
  | .setName name => .ok (d.setName name)
  | .setMetaInfo metaInfo => .ok (d.setMetaInfo metaInfo)
  | .setContentType type => .ok (d.setContentType type)
  | .setFreshnessPeriod freshnessPeriod => .ok (d.setFreshnessPeriod freshnessPeriod)
  | .setFinalBlockId finalBlockId => .ok (d.setFinalBlockId finalBlockId)
  | .setContent contentValue => .ok (d.setContent contentValue)
  | .setContentBlock content => .ok (d.setContentBlock content)
  | .setSignatureValue value => d.setSignatureValue value
  | .wireEncode => d.wireEncode
  | .sign signature pureSign => d.sign signature pureSign

/-- calls one after another, until one throws -/
def run (d : Data) : List Op → Except String Data
  | [] => .ok d
  | op :: ops => d.step op >>= fun d' => run d' ops

end Data

/-! ## The signature info on the wire -/

namespace SignatureInfo

/-- the wire that `wireEncode()` gives -/
def bytes (s : SignatureInfo) : Bytes :=
  match s.wire with
  | some b => b.wire
  | none => s.element.wire

/-- The invariant of a signature info: what it consists of can be encoded, or the wire it keeps decodes to it. -/
structure Coherent (s : SignatureInfo) : Prop where
  fresh : s.wire = none → s.Encodable ∧ s.element.wire.length < 2 ^ 32
  kept : ∀ b, s.wire = some b → b.Stored ∧ b.type = tlvSignatureInfo ∧
    ∃ d, new.wireDecode b.unparsed = .ok d ∧ d.type = s.type ∧ d.hasKeyLocator = s.hasKeyLocator

/-- what is accepted keeps the wire it was decoded from -/
theorem wireDecode_coherent {b : Block} {d : SignatureInfo} (hread : b.Read) (hshort : b.wire.length < 2 ^ 32)
    (h : new.wireDecode b = .ok d) : d.Coherent ∧ d.bytes = b.wire := by
  have hdecode := h
  unfold wireDecode at h
  split_ifs at h with hwire
  rcases hparse : b.parse with ⟨b', _ | err⟩
  · simp only [hparse] at h
    split_ifs at h with htype
    rcases Block.read_of_parse hread.1 hparse with ⟨-, -, hb'⟩
    have hunparsed : b'.unparsed = b := by
      rw [← hread.unparsed_eq, hb']
      rfl
    cases hsub : b'.subBlocks with
    | nil => simp [hsub] at h
    | cons it rest =>
      simp only [hsub] at h
      split_ifs at h
      cases hnumber : readNonNegativeInteger it with
      | error err => simp [hnumber] at h
      | ok type =>
        simp only [hnumber] at h
        rcases hlocator : decodeKeyLocator new.keyLocator rest with err | ⟨has, k, others⟩
        · simp [hlocator] at h
        · simp only [hlocator, Except.ok.injEq] at h
          subst h
          refine ⟨⟨fun hnone => absurd hnone (by simp), ?_⟩, ?_⟩
          · intro b'' hb''
            cases hb''
            have hsame : b'.wire = b.wire := by rw [← Block.wire_unparsed, hunparsed]
            exact ⟨⟨hunparsed.symm ▸ hread, by rw [hsame]; exact hshort⟩, not_not.mp htype, _,
              hunparsed.symm ▸ hdecode, rfl, rfl⟩
          · calc
              b'.wire = b'.unparsed.wire := rfl
              _ = b.wire := by rw [hunparsed]
  · simp [hparse] at h

end SignatureInfo

namespace Data

theorem getInfo_ok {s : SignatureInfo} (h : s.Coherent) : ∃ s' b, getInfo s = .ok (s', b) ∧ b.Stored ∧
    b.type = SignatureInfo.tlvSignatureInfo ∧ b.wire = s.bytes ∧ s'.type = s.type ∧
    ∃ d, SignatureInfo.new.wireDecode b.unparsed = .ok d ∧ d.type = s.type ∧ d.hasKeyLocator = s.hasKeyLocator := by
  cases hwire : s.wire with
  | some b =>
    rcases h.kept b hwire with ⟨hstored, htype, hdecode⟩
    have hencode : s.wireEncode = .ok s := by
      rw [SignatureInfo.wireEncode, hwire]
      exact if_pos hstored.hasWire
    refine ⟨s, b, ?_, hstored, htype, ?_, rfl, hdecode⟩
    · rw [getInfo, hencode]
      simp only [hwire]
    · rw [SignatureInfo.bytes, hwire]
  | none =>
    rcases h.fresh hwire with ⟨hencodable, hshort⟩
    have hlen : Uint64 s.value.length := Block.uint64_of_write hshort
    have hread := SignatureInfo.read_element hlen
    rcases SignatureInfo.wireDecode_element hencodable SignatureInfo.new with ⟨d, hd, htype, hhas, -⟩
    refine ⟨{ s with wire := some s.element }, s.element, ?_, hread.stored hshort, rfl, ?_, rfl, d, ?_, htype, hhas⟩
    · rw [getInfo, SignatureInfo.wireEncode_element hencodable hwire hlen]
    · rw [SignatureInfo.bytes, hwire]
    · rw [hread.unparsed_eq]
      exact hd

/-! ## The wire of a packet -/

/-- the elements of the packet, with those that `getInfo()` and the like give for the signature and the content -/
def parts (d : Data) (value info content : Block) : List Block :=
  [d.name.element, d.metaInfo.element, content.unparsed, info.unparsed, value.unparsed]

/-- the packet that they are encoded to -/
def packet (d : Data) (value info content : Block) : Block :=
  Block.ofWire tlvData (Block.write tlvData ((d.parts value info content).flatMap Block.wire))
    ((d.parts value info content).flatMap Block.wire)

theorem adds_stored {σ : Type} {E : EncodingImpl σ} {R : σ → Bytes → Prop} (hE : LawfulFront E R) {b : Block}
    (h : b.Stored) : Adds R (E (.prependBlock b)) 0 b.wire [] := by
  have hcall := hE (.prependBlock b) rfl
  rwa [show (Call.prependBlock b).front = b.wire from h.encodeElement] at hcall

theorem adds_encodeUnsigned {σ : Type} {E : EncodingImpl σ} {R : σ → Bytes → Prop} (hE : LawfulFront E R) {d : Data}
    (hmeta : d.metaInfo.Encodable) {info content : Block} (hinfo : info.Stored) (hcontent : content.Stored) :
    Adds R (encodeUnsigned E d info content) 0
      (d.name.element.wire ++ (d.metaInfo.element.wire ++ (content.wire ++ info.wire))) [] := by
  have hname := Name.adds_wireEncodeWith hE d.name
  have hmetaInfo := MetaInfo.adds_wireEncodeWith hE hmeta
  refine adds_bind (adds_stored hE hinfo) (adds_bind (adds_stored hE hcontent) (adds_bind hmetaInfo
    (adds_bind hname (adds_pure ?_) rfl rfl) rfl rfl) rfl rfl) ?_ rfl
  · simp
  · simp [Name.element]

theorem adds_wireEncodeWith {σ : Type} {E : EncodingImpl σ} {R : σ → Bytes → Prop} (hE : LawfulFront E R) {d : Data}
    (hmeta : d.metaInfo.Encodable) {value info content : Block} (hvalue : value.Stored) (hinfo : info.Stored)
    (hcontent : content.Stored) :
    Adds R (wireEncodeWith E d value info content) 0
      (Block.write tlvData ((d.parts value info content).flatMap Block.wire)) [] := by
  refine adds_prependHeader hE tlvData ?_
  refine adds_bind (adds_stored hE hvalue) (adds_bind (adds_encodeUnsigned hE hmeta hinfo hcontent) (adds_pure ?_)
    rfl rfl) ?_ rfl
  · simp
  · simp [parts]

/-- the blocks that stand for the signature and the content of a packet can be put into it -/
structure Fits (d : Data) (value info content : Block) : Prop where
  name : d.name.Encodable
  metaInfo : d.metaInfo.Encodable
  valueStored : value.Stored
  infoStored : info.Stored
  contentStored : content.Stored
  infoType : info.type = SignatureInfo.tlvSignatureInfo
  contentType : content.type = tlvContent

/-- the packet `d` as it arrives in the packet `d₀` -/
def received (d₀ d : Data) (name : Name) (value info content : Block) (decoded : SignatureInfo) : Data where
  name := name
  metaInfo :=
    { type := d.metaInfo.type
      freshnessPeriod := if 0 ≤ d.metaInfo.freshnessPeriod then d.metaInfo.freshnessPeriod else MetaInfo.minMilliseconds
      finalBlockId := d.metaInfo.finalBlockId
      appMetaInfo := d₀.metaInfo.appMetaInfo ++ d.metaInfo.appMetaInfo
      wire := some { d.metaInfo.element with subBlocks := d.metaInfo.items } }
  content := content.unparsed
  signature := ⟨decoded, if value.type = tlvSignatureValue then value.unparsed else d₀.signature.value⟩
  wire := some { d.packet value info content with subBlocks := d.parts value info content }

/-- **What a packet's elements decode to**, in any packet. -/
theorem wireDecode_packet {d : Data} {value info content : Block} (h : d.Fits value info content)
    (hlen : Uint64 (d.packet value info content).value.length) {decoded : SignatureInfo}
    (hdecoded : SignatureInfo.new.wireDecode info.unparsed = .ok decoded) (d₀ : Data) :
    ∃ name, name.components = d.name.components ∧
      d₀.wireDecode (d.packet value info content) = .ok (received d₀ d name value info content decoded) := by
  have hmetaLen : Uint64 d.metaInfo.value.length := by
    have hle : d.metaInfo.element.wire.length ≤ (d.packet value info content).value.length := by
      simp only [packet, Block.value_ofWire, parts, List.flatMap_cons, List.length_append]
      omega
    have hwrite : d.metaInfo.element.wire.length = _ := Block.length_write MetaInfo.tlvMetaInfo d.metaInfo.value
    unfold Uint64 at hlen ⊢
    omega
  have hread : ∀ b ∈ d.parts value info content, b.Read := by
    intro b hb
    simp only [parts, List.mem_cons, List.not_mem_nil, or_false] at hb
    rcases hb with rfl | rfl | rfl | rfl | rfl
    · exact h.name.read
    · exact Block.read_write (by decide) hmetaLen
    · exact h.contentStored.read
    · exact h.infoStored.read
    · exact h.valueStored.read
  have hparse : (d.packet value info content).parse =
      ({ d.packet value info content with subBlocks := d.parts value info content }, none) := Block.parse_wires hread
  rcases Name.wireDecode_element h.name with ⟨name, hname, hcomponents⟩
  have hmetaInfo := MetaInfo.wireDecode_element h.metaInfo d₀.metaInfo
  refine ⟨name, hcomponents, ?_⟩
  unfold received
  generalize hb : ({ d.packet value info content with subBlocks := d.parts value info content } : Block) = b at hparse ⊢
  have hsub : b.subBlocks = d.parts value info content := by rw [← hb]
  -- the first element of each type
  have hfind : b.find? Name.tlvName = some d.name.element ∧
      b.find? MetaInfo.tlvMetaInfo = some d.metaInfo.element ∧ b.find? tlvContent = some content.unparsed ∧
      b.find? SignatureInfo.tlvSignatureInfo = some info.unparsed ∧
      b.find? tlvSignatureValue = if value.type = tlvSignatureValue then some value.unparsed else none := by
    have htypeName : d.name.element.type = 7 := rfl
    have htypeMeta : d.metaInfo.element.type = 20 := rfl
    have htypeContent : content.unparsed.type = 21 := h.contentType
    have htypeInfo : info.unparsed.type = 22 := h.infoType
    simp only [Block.find?, hsub, parts, List.find?, htypeName, htypeMeta, htypeContent, htypeInfo, Name.tlvName,
      MetaInfo.tlvMetaInfo, tlvContent, SignatureInfo.tlvSignatureInfo, tlvSignatureValue]
    refine ⟨rfl, rfl, rfl, rfl, ?_⟩
    by_cases hvalue : value.type = 23
    · simp [hvalue]
    · simp [hvalue]
  rw [wireDecode, hparse]
  simp only [Block.get, hfind, ok_bind, pure_ok, hname, hmetaInfo, hdecoded]
  split_ifs <;> rfl

/-! ### What a packet says -/

/-- the fields of a packet, apart from the elements that its description does not interpret -/
structure Fields where
  name : List Component
  contentType : ℕ
  freshnessPeriod : Option ℤ
  finalBlockId : Component
  content : Bytes
  signatureInfo : Bytes
  signatureValue : Option Bytes

def fields (d : Data) : Fields where
  name := d.name.components
  contentType := d.metaInfo.type
  freshnessPeriod := if 0 ≤ d.metaInfo.freshnessPeriod then some d.metaInfo.freshnessPeriod else none
  finalBlockId := d.metaInfo.finalBlockId
  content := d.content.value
  signatureInfo := d.signature.info.bytes
  signatureValue := if d.signature.value.type = tlvSignatureValue then some d.signature.value.value else none

/-- `getContent()` gives the content an element -/
def HoldsContent (content : Block) : Prop :=
  ∃ e, getContent content = .ok e ∧ e.Stored ∧ e.type = tlvContent ∧ e.value = content.value

/-- `encode()` gives the block a wire -/
def Encodes (b : Block) : Prop := ∃ e, b.encode = .ok e ∧ e.Stored ∧ e.type = b.type ∧ e.value = b.value

/-- The invariant of a packet: what it is made of can be encoded, and a wire it keeps decodes to its fields, with the
elements that the description does not interpret half as often as the packet has them. -/
structure Coherent (d : Data) : Prop where
  name : d.name.Encodable
  metaInfo : d.metaInfo.Encodable
  content : HoldsContent d.content
  info : d.signature.info.type ≠ -1 → d.signature.info.Coherent
  value : Encodes d.signature.value
  kept : ∀ b, d.wire = some b → b.unparsed.Read ∧ ∃ r, new.wireDecode b.unparsed = .ok r ∧ r.fields = d.fields ∧
    d.metaInfo.appMetaInfo = r.metaInfo.appMetaInfo ++ r.metaInfo.appMetaInfo

theorem encodes_of_stored {b : Block} (h : b.Stored) : Encodes b := ⟨b, h.encode, h, rfl, rfl⟩

theorem holdsContent_of_stored {b : Block} (h : b.Stored) (htype : b.type = tlvContent) : HoldsContent b := by
  refine ⟨b, ?_, h, htype, rfl⟩
  rw [getContent, if_neg (by rw [htype]; decide), h.encode]

theorem freshnessPeriod_normal (x : ℤ) :
    (if 0 ≤ (if 0 ≤ x then x else MetaInfo.minMilliseconds) then
      some (if 0 ≤ x then x else MetaInfo.minMilliseconds) else none) = if 0 ≤ x then some x else none := by
  split_ifs with hx hmin
  · rfl
  · exact absurd hmin (by decide)
  · rfl

/-- the description that was decoded can be encoded again -/
theorem encodable_decoded {m : MetaInfo} (h : m.Encodable) {before : List Block}
    (hbefore : ∀ b ∈ before, b ∈ m.appMetaInfo) (wire : Option Block) :
    MetaInfo.Encodable ⟨m.type, if 0 ≤ m.freshnessPeriod then m.freshnessPeriod else MetaInfo.minMilliseconds,
      m.finalBlockId, before ++ m.appMetaInfo, wire⟩ where
  type := h.type
  freshnessPeriod := by
    have hlt := h.freshnessPeriod
    show (if 0 ≤ m.freshnessPeriod then m.freshnessPeriod else MetaInfo.minMilliseconds) < 2 ^ 63
    split_ifs
    · exact hlt
    · decide
  finalBlockId := h.finalBlockId
  finalBlockLength := h.finalBlockLength
  appMetaInfo := by
    intro b hb
    rcases List.mem_append.mp hb with hb | hb
    · exact h.appMetaInfo b (hbefore b hb)
    · exact h.appMetaInfo b hb
  appMetaInfoShort := by
    intro b hb
    rcases List.mem_append.mp hb with hb | hb
    · exact h.appMetaInfoShort b (hbefore b hb)
    · exact h.appMetaInfoShort b hb

/-- a packet that arrived says what the packet that was sent said -/
theorem fields_received {d₀ d sent : Data} {name : Name} {value info content : Block} {decoded : SignatureInfo}
    (hname : name.components = sent.name.components) (hmetaInfo : d.metaInfo = sent.metaInfo)
    (hcontent : content.value = sent.content.value) (hinfo : decoded.bytes = sent.signature.info.bytes)
    (hvalue : value.value = sent.signature.value.value) (htype : value.type = sent.signature.value.type)
    (hlast : value.type ≠ tlvSignatureValue → d₀.signature.value.type ≠ tlvSignatureValue) :
    (received d₀ d name value info content decoded).fields = sent.fields := by
  have hvalueField : (if (if value.type = tlvSignatureValue then value.unparsed else d₀.signature.value).type =
      tlvSignatureValue then some (if value.type = tlvSignatureValue then value.unparsed
        else d₀.signature.value).value else none) =
      if sent.signature.value.type = tlvSignatureValue then some sent.signature.value.value else none := by
    by_cases hsig : value.type = tlvSignatureValue
    · have hsent : sent.signature.value.type = tlvSignatureValue := htype.symm.trans hsig
      simp only [hsig, hsent, if_true, Block.type_unparsed, Block.value_unparsed, hvalue]
    · have hsent : ¬ sent.signature.value.type = tlvSignatureValue := fun h => hsig (htype.trans h)
      simp only [hsig, hsent, if_false, hlast hsig]
  simp only [fields, received, hname, hmetaInfo, freshnessPeriod_normal, Block.value_unparsed, hcontent, hinfo,
    hvalueField]

/-- **Encoding anew.** What was encoded of `sent` is decoded into `d₀`: the packet says what `sent` said, has the
elements of the description twice and keeps a wire that has them once. -/
theorem decode_anew (sent : Data) {d₀ d' : Data} {value info content : Block} {decoded : SignatureInfo}
    (hfits : d₀.Fits value info content) (hlen : Uint64 (d₀.packet value info content).value.length)
    (hdecoded : SignatureInfo.new.wireDecode info.unparsed = .ok decoded) (hcoherent : decoded.Coherent)
    (hname : d₀.name = sent.name) (hmetaInfo : d₀.metaInfo = sent.metaInfo)
    (hcontent : content.value = sent.content.value) (hinfo : decoded.bytes = sent.signature.info.bytes)
    (hvalue : value.value = sent.signature.value.value) (htype : value.type = sent.signature.value.type)
    (hlast : value.type ≠ tlvSignatureValue → d₀.signature.value = value)
    (h : d₀.wireDecode (d₀.packet value info content) = .ok d') :
    d'.Coherent ∧ d'.fields = sent.fields ∧
      d'.metaInfo.appMetaInfo = sent.metaInfo.appMetaInfo ++ sent.metaInfo.appMetaInfo ∧
      d'.wire = some { d₀.packet value info content with subBlocks := d₀.parts value info content } := by
  have hread : (d₀.packet value info content).Read := Block.read_write (by decide) hlen
  rcases wireDecode_packet hfits hlen hdecoded d₀ with ⟨name, hname', hd'⟩
  rcases wireDecode_packet hfits hlen hdecoded new with ⟨name', hname'', hr⟩
  have heq : received d₀ d₀ name value info content decoded = d' := Except.ok.inj (hd'.symm.trans h)
  have hobject : d'.fields = sent.fields :=
    heq ▸ fields_received (hname'.trans (by rw [hname])) hmetaInfo hcontent hinfo hvalue htype
      (fun hsig => by rw [hlast hsig]; exact hsig)
  have hreceiver : (received new d₀ name' value info content decoded).fields = sent.fields :=
    fields_received (hname''.trans (by rw [hname])) hmetaInfo hcontent hinfo hvalue htype (fun _ => by decide)
  have happ : d'.metaInfo.appMetaInfo = sent.metaInfo.appMetaInfo ++ sent.metaInfo.appMetaInfo := by
    rw [← heq, ← hmetaInfo]
    rfl
  have hwire : d'.wire = some { d₀.packet value info content with subBlocks := d₀.parts value info content } := by
    rw [← heq]
    rfl
  refine ⟨?_, hobject, happ, hwire⟩
  have hkept : ∀ b, d'.wire = some b → b.unparsed.Read ∧ ∃ r, new.wireDecode b.unparsed = .ok r ∧ r.fields = d'.fields ∧
      d'.metaInfo.appMetaInfo = r.metaInfo.appMetaInfo ++ r.metaInfo.appMetaInfo := by
    intro b hb
    rw [hwire] at hb
    cases hb
    refine ⟨hread, _, hr, hreceiver.trans hobject.symm, ?_⟩
    rw [happ, ← hmetaInfo]
    rfl
  rw [← heq] at hkept ⊢
  refine ⟨⟨by rw [received, hname']; exact hfits.name.types, by rw [received, hname']; exact hfits.name.length⟩,
    encodable_decoded hfits.metaInfo (fun _ hb => hb) _, ?_, fun _ => hcoherent, ?_, hkept⟩
  · exact holdsContent_of_stored hfits.contentStored.unparsed hfits.contentType
  · show Encodes (if value.type = tlvSignatureValue then value.unparsed else d₀.signature.value)
    split_ifs with hsig
    · exact encodes_of_stored hfits.valueStored.unparsed
    · rw [hlast hsig]
      exact encodes_of_stored hfits.valueStored

theorem wireEncode_anew {d d' : Data} (hd : d.Coherent) (hkept : ¬ d.wire.any Block.hasWire = true)
    (h : d.wireEncode = .ok d') :
    d'.Coherent ∧ d'.fields = d.fields ∧
      d'.metaInfo.appMetaInfo = d.metaInfo.appMetaInfo ++ d.metaInfo.appMetaInfo ∧ ∃ b, d'.wire = some b := by
  rcases hd.value with ⟨value, hvalue, hvalueStored, hvalueType, hvalueValue⟩
  rcases hd.content with ⟨content, hcontent, hcontentStored, hcontentType, hcontentValue⟩
  rw [wireEncode, if_neg hkept] at h
  split_ifs at h with hunsigned
  rcases getInfo_ok (hd.info hunsigned) with
    ⟨info, infoBlock, hinfo, hinfoStored, hinfoType, hinfoWire, -, decoded, hdecoded, -⟩
  rcases SignatureInfo.wireDecode_coherent hinfoStored.read hinfoStored.short hdecoded with
    ⟨hdecodedCoherent, hdecodedBytes⟩
  simp only [hvalue, hinfo, hcontent, ok_bind] at h
  generalize hd₀ : ({ d with content := content, signature := ⟨info, value⟩ } : Data) = d₀ at h
  have hname₀ : d₀.name = d.name := by rw [← hd₀]
  have hmeta₀ : d₀.metaInfo = d.metaInfo := by rw [← hd₀]
  rcases bind_ok h with ⟨b, hb, hdecode⟩
  have hfits : d₀.Fits value infoBlock content :=
    ⟨hname₀ ▸ hd.name, hmeta₀ ▸ hd.metaInfo, hvalueStored, hinfoStored, hcontentStored, hinfoType, hcontentType⟩
  have hwrites : Writes (fun E => wireEncodeWith E d₀ value infoBlock content)
      (Block.write tlvData ((d₀.parts value infoBlock content).flatMap Block.wire)) :=
    fun E R hE => adds_wireEncodeWith hE hfits.metaInfo hvalueStored hinfoStored hcontentStored
  rcases encodeBlock_ok hwrites (by decide) hb with ⟨hlen, rfl⟩
  rcases decode_anew d hfits hlen hdecoded hdecodedCoherent hname₀ hmeta₀ hcontentValue
    (hdecodedBytes.trans hinfoWire) hvalueValue hvalueType (fun _ => by rw [← hd₀]) hdecode with
    ⟨hcoherent, hfields, happ, hwire⟩
  exact ⟨hcoherent, hfields, happ, _, hwire⟩

theorem contents_encodeSigned (signatureValue : Block) (e : Encoder) :
    (encodeSigned signatureValue e).contents = Block.write tlvData (e.contents ++ signatureValue.encodeElement) := by
  have happend := encoder_lawful (.appendBlock signatureValue) e e.contents rfl
  have hlength := encoder_lawful (.prependVarNumber (e.contents.length +
    (encoder (.appendBlock signatureValue) e).1)) _ _ happend.2
  have htlv := encoder_lawful (.prependVarNumber tlvData) _ _ hlength.2
  have hsize : (encoder (.appendBlock signatureValue) e).1 = signatureValue.encodeElement.length := by
    simpa [Call.front, Call.back] using happend.1
  have hall : (encodeSigned signatureValue e).contents = _ := htlv.2
  rw [hall, hsize]
  simp [Call.front, Call.back, Block.write]

/-! ### Signing -/

/-- the bytes that are signed -/
def signed (d : Data) (info content : Bytes) : Bytes :=
  d.name.element.wire ++ (d.metaInfo.element.wire ++ (content ++ info))

theorem contents_unsigned {d : Data} (hmeta : d.metaInfo.Encodable) {info content : Block} (hinfo : info.Stored)
    (hcontent : content.Stored) : (encodeUnsigned encoder d info content newEncodingBuffer).2.contents =
      d.signed info.wire content.wire := by
  have h := (adds_encodeUnsigned encoder_lawful.front hmeta hinfo hcontent newEncodingBuffer []
    (Encoder.new_contents 8800 400)).2
  simpa [signed] using h

theorem value_packet (d : Data) (value info content : Block) :
    (d.packet value info content).value = d.signed info.wire content.wire ++ value.wire := by
  simp [packet, parts, signed]

/-- what a receiver verifies of a packet -/
theorem verifiedPortion_received {d₀ d : Data} {name : Name} {value info content : Block} {decoded : SignatureInfo}
    (hvalue : value.Stored) (htype : value.type = tlvSignatureValue) :
    (received d₀ d name value info content decoded).verifiedPortion =
      .ok (if decoded.hasKeyLocator then some (d.signed info.wire content.wire) else none) := by
  generalize hr : received d₀ d name value info content decoded = r
  have hwire : r.wire = some { d.packet value info content with subBlocks := d.parts value info content } := by
    rw [← hr]
    rfl
  have hsig : r.signature.value = value.unparsed := by
    rw [← hr, received]
    exact if_pos htype
  have hkept : r.wire.any Block.hasWire = true := by
    have hne : (d.packet value info content).wire ≠ [] := Block.write_ne_nil tlvData _
    rw [hwire]
    exact (Block.hasWire_iff { d.packet value info content with subBlocks := d.parts value info content }).mpr hne
  have hencode : r.wireEncode = .ok r := by rw [wireEncode, if_pos hkept]
  have hsize : value.unparsed.size = .ok value.wire.length := congrArg Except.ok (Nat.mod_eq_of_lt hvalue.short)
  have hinfo : r.signature.info = decoded := by
    rw [← hr]
    rfl
  rw [verifiedPortion, hinfo]
  cases hhas : decoded.hasKeyLocator with
  | false => simp
  | true =>
  rw [if_neg (by decide), hencode, ok_bind, hsig, hvalue.unparsed.encode, ok_bind, hsize, hwire]
  have hlen : ({ d.packet value info content with subBlocks := d.parts value info content } : Block).value =
      d.signed info.wire content.wire ++ value.wire := d.value_packet value info content
  simp only [ok_bind, Option.map_some, Option.getD_some, hlen, pure_ok, List.length_append, Nat.add_sub_cancel,
    List.take_left', if_true]

/-- the element of a signature value -/
def signatureElement (sig : Bytes) : Block :=
  Block.ofWire tlvSignatureValue (Block.write tlvSignatureValue sig) sig

theorem packet_signatureElement (d : Data) (sig : Bytes) (info content : Block) :
    d.packet (signatureElement sig) info content = Block.ofWire tlvData
      (Block.write tlvData (d.signed info.wire content.wire ++ Block.write tlvSignatureValue sig))
      (d.signed info.wire content.wire ++ Block.write tlvSignatureValue sig) := by
  have hvalue := d.value_packet (signatureElement sig) info content
  rw [packet, Block.value_ofWire] at hvalue
  rw [packet, hvalue]
  rfl

/-- what is put into the packet that is signed, and what its signature info is decoded to -/
structure Prepared (d d₀ : Data) (signature : Signature) (info content : Block) (decoded : SignatureInfo) :
    Prop where
  name : d₀.name = d.name
  metaInfo : d₀.metaInfo = d.metaInfo
  infoStored : info.Stored
  infoType : info.type = SignatureInfo.tlvSignatureInfo
  infoWire : info.wire = signature.info.bytes
  getContent : getContent d.content = .ok content
  contentStored : content.Stored
  contentType : content.type = tlvContent
  contentValue : content.value = d.content.value
  decodes : SignatureInfo.new.wireDecode info.unparsed = .ok decoded
  hasKeyLocator : decoded.hasKeyLocator = signature.info.hasKeyLocator

/-- a signature whose element is below 2^32 bytes -/
def Short (sig : Bytes) : Prop := (Block.write tlvSignatureValue sig).length < 2 ^ 32

theorem stored_signatureElement {sig : Bytes} (h : Short sig) : (signatureElement sig).Stored :=
  (Block.read_write (by decide) (Block.uint64_of_write h)).stored h

theorem Prepared.fits {d d₀ : Data} {signature : Signature} {info content : Block} {decoded : SignatureInfo}
    (h : Prepared d d₀ signature info content decoded) (hd : d.Coherent) {sig : Bytes} (hsig : Short sig) :
    d₀.Fits (signatureElement sig) info content :=
  ⟨h.name ▸ hd.name, h.metaInfo ▸ hd.metaInfo, stored_signatureElement hsig, h.infoStored, h.contentStored,
    h.infoType, h.contentType⟩

theorem sign_eq {d : Data} {signature : Signature} (pureSign : Bytes → Bytes) (hd : d.Coherent)
    (hs : signature.info.Coherent) : ∃ d₀ info content decoded, Prepared d d₀ signature info content decoded ∧
      d.sign signature pureSign = Block.ofRange (Block.write tlvData (d₀.signed info.wire content.wire ++
        Block.write tlvSignatureValue (pureSign (d₀.signed info.wire content.wire)))) >>= d₀.wireDecode := by
  rcases hd.content with ⟨content, hcontent, hcontentStored, hcontentType, hcontentValue⟩
  rcases getInfo_ok hs with
    ⟨info, infoBlock, hinfo, hinfoStored, hinfoType, hinfoWire, -, decoded, hdecoded, -, hhas⟩
  have hinfo' : getInfo (d.setSignature signature).signature.info = .ok (info, infoBlock) := hinfo
  have hcontent' : getContent (d.setSignature signature).content = .ok content := hcontent
  refine ⟨{ d.setSignature signature with
    content := content, signature := ⟨info, (d.setSignature signature).signature.value⟩ }, infoBlock, content, decoded,
    ⟨rfl, rfl, hinfoStored, hinfoType, hinfoWire, hcontent, hcontentStored, hcontentType, hcontentValue, hdecoded,
      hhas⟩, ?_⟩
  rw [sign]
  simp only [hinfo', hcontent', ok_bind]
  generalize hd₀ : ({ d.setSignature signature with
    content := content, signature := ⟨info, (d.setSignature signature).signature.value⟩ } : Data) = d₀
  have hmeta : d₀.metaInfo.Encodable := by
    rw [← hd₀]
    exact hd.metaInfo
  have hcontents := contents_unsigned hmeta hinfoStored hcontentStored
  have helement : ∀ sig, (Block.ofValue tlvSignatureValue sig).encodeElement = Block.write tlvSignatureValue sig :=
    fun _ => rfl
  rw [Encoder.block, contents_encodeSigned, hcontents, helement]

/-- **Signing.** The packet says what it said, with the new signature over the bytes that are verified, has the elements
of the description twice and keeps a wire that has them once. -/
theorem sign_anew {d d' : Data} {signature : Signature} {pureSign : Bytes → Bytes} (hd : d.Coherent)
    (hs : signature.info.Coherent) (hshort : ∀ bytes, Short (pureSign bytes))
    (h : d.sign signature pureSign = .ok d') :
    d'.Coherent ∧ d'.metaInfo.appMetaInfo = d.metaInfo.appMetaInfo ++ d.metaInfo.appMetaInfo ∧
      ∃ b bytes, d'.wire = some b ∧ d'.fields = { d.fields with
        signatureInfo := signature.info.bytes, signatureValue := some (pureSign bytes) } ∧
        ∀ r, new.wireDecode b.unparsed = .ok r →
          r.verifiedPortion = .ok (if signature.info.hasKeyLocator then some bytes else none) := by
  rcases sign_eq pureSign hd hs with ⟨d₀, info, content, decoded, hprepared, hsign⟩
  rw [hsign] at h
  rcases bind_ok h with ⟨b, hb, hdecode⟩
  have hsig := hshort (d₀.signed info.wire content.wire)
  generalize hbytes : pureSign (d₀.signed info.wire content.wire) = sig at hb hsig
  rcases Block.ofRange_write_ok (by decide) hb with ⟨hlen, rfl⟩
  rw [← packet_signatureElement] at hdecode
  have hlen' : Uint64 (d₀.packet (signatureElement sig) info content).value.length := by
    rw [packet_signatureElement]
    exact hlen
  have hfits := hprepared.fits hd hsig
  rcases SignatureInfo.wireDecode_coherent hprepared.infoStored.read hprepared.infoStored.short hprepared.decodes with
    ⟨hdecoded, hdecodedBytes⟩
  rcases decode_anew { d with signature := ⟨signature.info, signatureElement sig⟩ } hfits hlen'
    hprepared.decodes hdecoded hprepared.name hprepared.metaInfo hprepared.contentValue
    (hdecodedBytes.trans hprepared.infoWire) rfl rfl (fun hne => absurd rfl hne) hdecode with
    ⟨hcoherent, hfields, happ, hwire⟩
  refine ⟨hcoherent, happ, _, d₀.signed info.wire content.wire, hwire, ?_, ?_⟩
  · rw [hfields, hbytes]
    rfl
  · intro r hr
    rcases wireDecode_packet hfits hlen' hprepared.decodes new with ⟨name, -, hr'⟩
    have hsame : received new d₀ name (signatureElement sig) info content decoded = r := by
      refine Except.ok.inj (hr'.symm.trans ?_)
      rw [← hr]
      rfl
    rw [← hsame, verifiedPortion_received (stored_signatureElement hsig) rfl, hprepared.hasKeyLocator]

/-- a packet that is not too long can be signed -/
theorem sign_ok {d : Data} {signature : Signature} {pureSign : Bytes → Bytes} (hd : d.Coherent)
    (hs : signature.info.Coherent) (hshort : ∀ bytes, Short (pureSign bytes))
    (hlen : ∀ content, getContent d.content = .ok content →
      Uint64 (d.signed signature.info.bytes content.wire ++
        Block.write tlvSignatureValue (pureSign (d.signed signature.info.bytes content.wire))).length) :
    ∃ d', d.sign signature pureSign = .ok d' := by
  rcases sign_eq pureSign hd hs with ⟨d₀, info, content, decoded, hprepared, hsign⟩
  have hsigned : d₀.signed info.wire content.wire = d.signed signature.info.bytes content.wire := by
    rw [signed, hprepared.name, hprepared.metaInfo, hprepared.infoWire]
    rfl
  rw [hsigned] at hsign
  have hall := hlen content hprepared.getContent
  have hsig := hshort (d.signed signature.info.bytes content.wire)
  generalize pureSign (d.signed signature.info.bytes content.wire) = sig at hsign hall hsig
  have hlen' : Uint64 (d₀.packet (signatureElement sig) info content).value.length := by
    rw [packet_signatureElement, hsigned]
    exact hall
  rcases wireDecode_packet (hprepared.fits hd hsig) hlen' hprepared.decodes d₀ with ⟨name, -, hdecode⟩
  rw [Block.ofRange_write (by decide) hall, ok_bind, ← hsigned, ← packet_signatureElement, hdecode] at hsign
  exact ⟨_, hsign⟩

/-! ### Runs -/

/-- what the callers of a packet promise: elements that can be encoded, with wires below 2^32 bytes -/
def Op.Valid : Op → Prop
  | .setName name => name.Encodable
  | .setMetaInfo metaInfo => metaInfo.Encodable
  | .setContentType type => type < 2 ^ 32
  | .setFreshnessPeriod freshnessPeriod => freshnessPeriod < 2 ^ 63
  | .setFinalBlockId finalBlockId =>
    finalBlockId.type = Component.tlvNameComponent ∧ Uint64 finalBlockId.wire.length
  | .setContent contentValue => (Block.write tlvContent contentValue).length < 2 ^ 32
  | .setContentBlock content => content.Stored ∧ (Block.write tlvContent content.wire).length < 2 ^ 32
  | .setSignatureValue value => Encodes value
  | .wireEncode => True
  | .sign signature pureSign => signature.info.Coherent ∧ ∀ bytes, Short (pureSign bytes)

theorem encodes_ofValue {type : ℕ} {value : Bytes} (htype : type ≤ maxType)
    (hlen : (Block.write type value).length < 2 ^ 32) : Encodes (Block.ofValue type value) := by
  have hlen' := Block.uint64_of_write hlen
  exact ⟨_, Elem.encode_ofValue htype hlen', (Block.read_write htype hlen').stored hlen, rfl, rfl⟩

theorem encodes_ofType {type : ℕ} (htype : type ≤ maxType) : Encodes (Block.ofType type) := by
  have hlen : Uint64 ([] : Bytes).length := by unfold Uint64; decide
  have hencode := @Elem.encode_of_wires _ [] htype (by simp) hlen
  have hshort : (Block.write type []).length < 2 ^ 32 := by
    have hsize : sizeOfVarNumber type ≤ 9 := by
      unfold sizeOfVarNumber
      split_ifs <;> omega
    rw [Block.length_write]
    simp [sizeOfVarNumber] at hsize ⊢
    omega
  exact ⟨_, hencode, (Block.read_write htype hlen).stored hshort, rfl, rfl⟩

theorem holdsContent_of_encodes {b : Block} (h : Encodes b) (htype : b.type = tlvContent) : HoldsContent b := by
  rcases h with ⟨e, he, hstored, hetype, hevalue⟩
  refine ⟨e, ?_, hstored, hetype.trans htype, hevalue⟩
  rw [getContent, if_neg (by rw [htype]; decide), he]

theorem holdsContent_empty : HoldsContent Block.empty := by
  have hmake : makeEmptyBlock tlvContent = .ok (Block.ofWire tlvContent (Block.write tlvContent []) []) := by
    rfl
  refine ⟨_, ?_, (Block.read_write (by decide) (by unfold Uint64; decide)).stored (by decide), rfl, rfl⟩
  rw [getContent, if_pos (show Block.empty.type = maxType from rfl), hmake]
  rfl

theorem new_encodable : MetaInfo.new.Encodable :=
  ⟨by decide, by decide, rfl, by unfold Uint64; decide, fun _ hb => absurd hb List.not_mem_nil,
    fun _ hb => absurd hb List.not_mem_nil⟩

theorem ofName_coherent {name : Name} (h : name.Encodable) : (ofName name).Coherent where
  name := h
  metaInfo := new_encodable
  content := holdsContent_empty
  info := fun hsigned => absurd rfl hsigned
  value := encodes_ofType le_rfl
  kept := fun b hb => by cases hb

theorem step_coherent {d d' : Data} {op : Op} (hd : d.Coherent) (hop : op.Valid) (h : d.step op = .ok d') :
    d'.Coherent := by
  have hnone : ∀ b, (none : Option Block) = some b → b.unparsed.Read ∧ ∃ r, new.wireDecode b.unparsed = .ok r ∧
      r.fields = d'.fields ∧ d'.metaInfo.appMetaInfo = r.metaInfo.appMetaInfo ++ r.metaInfo.appMetaInfo := by
    intro b hb
    cases hb
  cases op with
  | setName name =>
    cases h
    exact ⟨hop, hd.metaInfo, hd.content, hd.info, hd.value, hnone⟩
  | setMetaInfo metaInfo =>
    cases h
    exact ⟨hd.name, hop, hd.content, hd.info, hd.value, hnone⟩
  | setContentType type =>
    cases h
    exact ⟨hd.name, { hd.metaInfo with type := hop }, hd.content, hd.info, hd.value, hnone⟩
  | setFreshnessPeriod freshnessPeriod =>
    cases h
    exact ⟨hd.name, { hd.metaInfo with freshnessPeriod := hop }, hd.content, hd.info, hd.value, hnone⟩
  | setFinalBlockId finalBlockId =>
    cases h
    exact ⟨hd.name, { hd.metaInfo with finalBlockId := hop.1, finalBlockLength := hop.2 }, hd.content, hd.info,
      hd.value, hnone⟩
  | setContent contentValue =>
    cases h
    exact ⟨hd.name, hd.metaInfo, holdsContent_of_encodes (encodes_ofValue (by decide) hop) rfl, hd.info, hd.value,
      hnone⟩
  | setContentBlock content =>
    cases h
    refine ⟨hd.name, hd.metaInfo, ?_, hd.info, hd.value, hnone⟩
    show HoldsContent (if content.type = tlvContent then content else Block.ofValue tlvContent content.wire)
    split_ifs with htype
    · exact holdsContent_of_stored hop.1 htype
    · exact holdsContent_of_encodes (encodes_ofValue (by decide) hop.2) rfl
  | setSignatureValue value =>
    rw [step, setSignatureValue] at h
    split_ifs at h
    cases h
    exact ⟨hd.name, hd.metaInfo, hd.content, hd.info, hop, hnone⟩
  | wireEncode =>
    by_cases hkept : d.wire.any Block.hasWire = true
    · rw [step, wireEncode, if_pos hkept] at h
      cases h
      exact hd
    · exact (wireEncode_anew hd hkept h).1
  | sign signature pureSign => exact (sign_anew hd hop.1 hop.2 h).1

theorem setMetaInfo_coherent {d : Data} (hd : d.Coherent) {m : MetaInfo} (hm : m.Encodable) :
    (d.setMetaInfo m).Coherent :=
  @step_coherent d _ (.setMetaInfo m) hd hm rfl

theorem run_coherent {d d' : Data} {ops : List Op} (hd : d.Coherent) (hops : ∀ op ∈ ops, op.Valid)
    (h : d.run ops = .ok d') : d'.Coherent := by
  induction ops generalizing d with
  | nil =>
    cases h
    exact hd
  | cons op ops ih =>
    rcases bind_ok h with ⟨d'', hstep, hrun⟩
    have hd'' := step_coherent hd (hops op List.mem_cons_self) hstep
    exact ih hd'' (fun op' hop' => hops op' (List.mem_cons_of_mem op hop')) hrun

theorem run_ok {d d' : Data} {op : Op} (h : d.step op = .ok d') (ops : List Op) : d.run (op :: ops) = d'.run ops := by
  rw [run, h, ok_bind]

/-- a block that is kept, with anything behind it -/
theorem ofBytes_kept {b : Block} (h : b.unparsed.Read) (rest : Bytes) :
    ofBytes (b.wire ++ rest) = new.wireDecode b.unparsed := by
  have hread : Block.readElement Block.notEnoughData (b.wire ++ rest) = .ok (b.unparsed, rest) :=
    h.2 Block.notEnoughData rest
  rw [ofBytes, Block.ofBuffer, hread]
  rfl

theorem received_of_kept {d : Data} {b : Block} (hd : d.Coherent) (hb : d.wire = some b) (rest : Bytes) :
    ∃ r, ofBytes (b.wire ++ rest) = .ok r ∧ r.fields = d.fields ∧
      d.metaInfo.appMetaInfo = r.metaInfo.appMetaInfo ++ r.metaInfo.appMetaInfo := by
  rcases hd.kept b hb with ⟨hread, r, hr, hfields, happ⟩
  exact ⟨r, (ofBytes_kept hread rest).trans hr, hfields, happ⟩

/-- **The wire is never stale.** After any calls that threw nothing, whoever receives the wire, with anything behind it,
has the packet's fields. The elements of the description are there once for every two that the packet has. -/
theorem data_wire {name : Name} (hname : name.Encodable) {ops : List Op} (hops : ∀ op ∈ ops, op.Valid) {d e : Data}
    (hrun : (ofName name).run ops = .ok d) (h : d.wireEncode = .ok e) :
    e.fields = d.fields ∧ ∃ b, e.wire = some b ∧ ∀ rest, ∃ r, ofBytes (b.wire ++ rest) = .ok r ∧ r.fields = d.fields ∧
      e.metaInfo.appMetaInfo = r.metaInfo.appMetaInfo ++ r.metaInfo.appMetaInfo := by
  have hd := run_coherent (ofName_coherent hname) hops hrun
  have he : e.Coherent ∧ e.fields = d.fields ∧ ∃ b, e.wire = some b := by
    by_cases hkept : d.wire.any Block.hasWire = true
    · rw [wireEncode, if_pos hkept] at h
      cases h
      refine ⟨hd, rfl, ?_⟩
      cases hwire : d.wire with
      | none => simp [hwire] at hkept
      | some b => exact ⟨b, rfl⟩
    · rcases wireEncode_anew hd hkept h with ⟨hcoherent, hfields, -, hwire⟩
      exact ⟨hcoherent, hfields, hwire⟩
  rcases he with ⟨hcoherent, hfields, b, hb⟩
  refine ⟨hfields, b, hb, fun rest => ?_⟩
  rcases received_of_kept hcoherent hb rest with ⟨r, hr, hsame, happ⟩
  exact ⟨r, hr, hsame.trans hfields, happ⟩

/-! A packet `/a`, and the key `/a` whose signature of some bytes is the first 32 of them: -/

def slashA : Name := Name.new.append (Component.generic [97]).block

def plain : Signature := ⟨(SignatureInfo.ofType 1).setKeyLocator (KeyLocator.new.setName slashA), Block.empty⟩

def firstBytes (bytes : Bytes) : Bytes := bytes.take 32

theorem firstBytes_short (bytes : Bytes) : Short (firstBytes bytes) := by
  have hlen : (firstBytes bytes).length ≤ 32 := List.length_take_le 32 bytes
  have hsize : ∀ n, sizeOfVarNumber n ≤ 9 := by
    intro n
    unfold sizeOfVarNumber
    split_ifs <;> omega
  have htype := hsize tlvSignatureValue
  have hlength := hsize (firstBytes bytes).length
  rw [Short, Block.length_write]
  omega

theorem slashA_encodable : slashA.Encodable where
  types := fun c hc => by
    rw [List.mem_singleton.mp (show c ∈ [Component.generic [97]] from hc)]
    decide
  length := by
    unfold Uint64
    decide

theorem plain_coherent : plain.info.Coherent where
  fresh := fun _ => ⟨⟨by decide, by decide, fun _ => ⟨⟨by decide, fun _ => slashA_encodable,
    fun hdigest => absurd hdigest (by decide)⟩, by unfold Uint64; decide⟩, fun _ hb => absurd hb List.not_mem_nil⟩,
    by decide⟩
  kept := fun b hb => by cases hb

theorem sign_valid : (Op.sign plain firstBytes).Valid := ⟨plain_coherent, firstBytes_short⟩

theorem setContent_valid : (Op.setContent [1]).Valid := by
  show (Block.write tlvContent [1]).length < 2 ^ 32
  decide

theorem slashA_short : ∀ content, getContent ((ofName slashA).setContent [1]).content = .ok content →
    Uint64 (((ofName slashA).setContent [1]).signed plain.info.bytes content.wire ++ Block.write tlvSignatureValue
      (firstBytes (((ofName slashA).setContent [1]).signed plain.info.bytes content.wire))).length := by
  intro content hcontent
  cases hcontent
  unfold Uint64
  decide +kernel

/-- a packet that is signed and then encoded -/
theorem data_wire_slashA : ∃ d e b, (ofName slashA).run [.setContent [1], .sign plain firstBytes] = .ok d ∧
    d.wireEncode = .ok e ∧ e.wire = some b ∧ ∀ rest, ∃ r, ofBytes (b.wire ++ rest) = .ok r ∧ r.fields = d.fields := by
  have hops : ∀ op ∈ [Op.setContent [1], Op.sign plain firstBytes], op.Valid := by
    intro op hop
    simp only [List.mem_cons, List.not_mem_nil, or_false] at hop
    rcases hop with rfl | rfl
    · exact setContent_valid
    · exact sign_valid
  have hstart := step_coherent (ofName_coherent slashA_encodable) setContent_valid rfl
  rcases sign_ok hstart plain_coherent firstBytes_short slashA_short with ⟨d, hsign⟩
  rcases sign_anew hstart plain_coherent firstBytes_short hsign with ⟨hd, -, b, -, hb, -⟩
  have hrun : (ofName slashA).run [.setContent [1], .sign plain firstBytes] = .ok d := by
    have hcontent : (ofName slashA).step (.setContent [1]) = .ok ((ofName slashA).setContent [1]) := rfl
    have hstep : ((ofName slashA).setContent [1]).step (.sign plain firstBytes) = .ok d := by rw [step, hsign]
    rw [run_ok hcontent, run_ok hstep, run]
  have hencode : d.wireEncode = .ok d := by
    rw [wireEncode, hb]
    exact if_pos (Block.hasWire_of_read (hd.kept b hb).1)
  rcases data_wire slashA_encodable hops hrun hencode with ⟨-, b', hb', hrest⟩
  refine ⟨d, d, b', hrun, hencode, hb', fun rest => ?_⟩
  rcases hrest rest with ⟨r, hr, hfields, -⟩
  exact ⟨r, hr, hfields⟩

/-- **What is verified is what was signed.** After any calls, a packet that is not too long can be signed: it says what
it said, with the new signature, and whoever receives the wire has the packet's fields and verifies the bytes that the
key signed, or nothing where the signature has no key locator. -/
theorem sign_verified {name : Name} (hname : name.Encodable) {ops : List Op} (hops : ∀ op ∈ ops, op.Valid)
    {d : Data} {signature : Signature} {pureSign : Bytes → Bytes} (hrun : (ofName name).run ops = .ok d)
    (hs : signature.info.Coherent) (hshort : ∀ bytes, Short (pureSign bytes))
    (hlen : ∀ content, getContent d.content = .ok content →
      Uint64 (d.signed signature.info.bytes content.wire ++
        Block.write tlvSignatureValue (pureSign (d.signed signature.info.bytes content.wire))).length) :
    ∃ d' b bytes, d.sign signature pureSign = .ok d' ∧ d'.wire = some b ∧ d'.fields = { d.fields with
        signatureInfo := signature.info.bytes, signatureValue := some (pureSign bytes) } ∧
      ∀ rest, ∃ r, ofBytes (b.wire ++ rest) = .ok r ∧ r.fields = d'.fields ∧
        r.verifiedPortion = .ok (if signature.info.hasKeyLocator then some bytes else none) := by
  have hd := run_coherent (ofName_coherent hname) hops hrun
  rcases sign_ok hd hs hshort hlen with ⟨d', h⟩
  rcases sign_anew hd hs hshort h with ⟨hd', -, b, bytes, hb, hfields, hverified⟩
  refine ⟨d', b, bytes, h, hb, hfields, fun rest => ?_⟩
  rcases hd'.kept b hb with ⟨hread, r, hr, hsame, -⟩
  exact ⟨r, (ofBytes_kept hread rest).trans hr, hsame, hverified r hr⟩

/-- what a receiver of `/a` verifies -/
theorem sign_verified_slashA : ∃ d' b bytes, ((ofName slashA).setContent [1]).sign plain firstBytes = .ok d' ∧
    d'.wire = some b ∧ ∀ rest, ∃ r, ofBytes (b.wire ++ rest) = .ok r ∧ r.verifiedPortion = .ok (some bytes) := by
  have hops : ∀ op ∈ [Op.setContent [1]], op.Valid := by
    intro op hop
    rw [List.mem_singleton.mp hop]
    exact setContent_valid
  rcases @sign_verified slashA slashA_encodable [.setContent [1]] hops _ plain firstBytes rfl plain_coherent
    firstBytes_short slashA_short with ⟨d', b, bytes, h, hb, -, hrest⟩
  refine ⟨d', b, bytes, h, hb, fun rest => ?_⟩
  rcases hrest rest with ⟨r, hr, -, hverified⟩
  exact ⟨r, hr, hverified⟩

def Op.isSign : Op → Bool
  | .sign _ _ => true
  | _ => false

/-- the calls that leave the elements of the description as they are, and signing -/
def Op.Keeps : Op → Prop
  | .setMetaInfo _ | .wireEncode => False
  | _ => True

theorem step_appMetaInfo {d d' : Data} {op : Op} (hd : d.Coherent) (hop : op.Valid) (hkeeps : op.Keeps)
    (h : d.step op = .ok d') :
    d'.metaInfo.appMetaInfo = (fun bs => bs ++ bs)^[if op.isSign then 1 else 0] d.metaInfo.appMetaInfo := by
  cases op with
  | setMetaInfo metaInfo => exact hkeeps.elim
  | wireEncode => exact hkeeps.elim
  | sign signature pureSign => exact (sign_anew hd hop.1 hop.2 h).2.1
  | setSignatureValue value =>
    rw [step, setSignatureValue] at h
    split_ifs at h
    cases h
    rfl
  | _ =>
    cases h
    rfl

theorem run_appMetaInfo {d d' : Data} {ops : List Op} (hd : d.Coherent) (hops : ∀ op ∈ ops, op.Valid ∧ op.Keeps)
    (h : d.run ops = .ok d') :
    d'.metaInfo.appMetaInfo = (fun bs => bs ++ bs)^[ops.countP Op.isSign] d.metaInfo.appMetaInfo := by
  induction ops generalizing d with
  | nil =>
    cases h
    rfl
  | cons op ops ih =>
    rcases bind_ok h with ⟨d'', hstep, hrun⟩
    rcases hops op List.mem_cons_self with ⟨hvalid, hkeeps⟩
    have hd'' := step_coherent hd hvalid hstep
    have hrest := ih hd'' (fun op' hop' => hops op' (List.mem_cons_of_mem op hop')) hrun
    rw [hrest, step_appMetaInfo hd hvalid hkeeps hstep, List.countP_cons, Function.iterate_add_apply]

/-- **Signing doubles.** A packet that was signed before, and set anew in between, carries the elements of its
description doubled once for every earlier signature. -/
theorem sign_doubles {name : Name} (hname : name.Encodable) {m : MetaInfo} (hm : m.Encodable) {ops : List Op}
    (hops : ∀ op ∈ ops, op.Valid ∧ op.Keeps) {d d' : Data} {signature : Signature} {pureSign : Bytes → Bytes}
    (hrun : ((ofName name).setMetaInfo m).run ops = .ok d) (hs : signature.info.Coherent)
    (hshort : ∀ bytes, Short (pureSign bytes)) (h : d.sign signature pureSign = .ok d') :
    ∃ b, d'.wire = some b ∧ ∀ rest, ∃ r, ofBytes (b.wire ++ rest) = .ok r ∧
      r.metaInfo.appMetaInfo = (fun bs => bs ++ bs)^[ops.countP Op.isSign] m.appMetaInfo := by
  have hstart : ((ofName name).setMetaInfo m).Coherent :=
    setMetaInfo_coherent (ofName_coherent hname) hm
  have hd := run_coherent hstart (fun op hop => (hops op hop).1) hrun
  rcases sign_anew hd hs hshort h with ⟨hd', happ, b, -, hb, -, -⟩
  refine ⟨b, hb, fun rest => ?_⟩
  rcases received_of_kept hd' hb rest with ⟨r, hr, -, hhalf⟩
  have hsame : r.metaInfo.appMetaInfo = d.metaInfo.appMetaInfo :=
    (List.append_inj' (hhalf.symm.trans happ) (by
      have hlen := congrArg List.length (hhalf.symm.trans happ)
      simp only [List.length_append] at hlen
      omega)).1
  exact ⟨r, hr, hsame.trans (run_appMetaInfo hstart hops hrun)⟩

/-- a description with one element of the application -/
def described : MetaInfo := { MetaInfo.new with appMetaInfo := [Component.block ⟨128, [1]⟩] }

theorem described_encodable : described.Encodable :=
  new_encodable.addAppMetaInfo (b := Component.block ⟨128, [1]⟩)
    (Block.read_write (by decide) (by unfold Uint64; decide)) (by decide) rfl

/-- a packet that is signed, set to what it was and signed again -/
theorem sign_doubles_slashA : ∃ d d' b, ((ofName slashA).setMetaInfo described).run [.setContent [1],
    .sign plain firstBytes, .setName slashA, .setContentType 0, .setFreshnessPeriod (-1),
    .setFinalBlockId MetaInfo.noComponent, .setContent [1]] = .ok d ∧ d.sign plain firstBytes = .ok d' ∧
      d'.wire = some b ∧ ∀ rest, ∃ r, ofBytes (b.wire ++ rest) = .ok r ∧
        r.metaInfo.appMetaInfo = described.appMetaInfo ++ described.appMetaInfo := by
  have hops : ∀ op ∈ [Op.setContent [1], Op.sign plain firstBytes, .setName slashA, .setContentType 0,
      .setFreshnessPeriod (-1), .setFinalBlockId MetaInfo.noComponent, Op.setContent [1]], op.Valid ∧ op.Keeps := by
    intro op hop
    simp only [List.mem_cons, List.not_mem_nil, or_false] at hop
    rcases hop with rfl | rfl | rfl | rfl | rfl | rfl | rfl
    · exact ⟨setContent_valid, trivial⟩
    · exact ⟨sign_valid, trivial⟩
    · exact ⟨slashA_encodable, trivial⟩
    · exact ⟨(by decide : (0 : ℕ) < 2 ^ 32), trivial⟩
    · exact ⟨(by decide : (-1 : ℤ) < 2 ^ 63), trivial⟩
    · exact ⟨⟨rfl, described_encodable.finalBlockLength⟩, trivial⟩
    · exact ⟨setContent_valid, trivial⟩
  have hdescribed := setMetaInfo_coherent (ofName_coherent slashA_encodable) described_encodable
  have hstart : (((ofName slashA).setMetaInfo described).setContent [1]).Coherent :=
    step_coherent hdescribed setContent_valid rfl
  have hlen : ∀ content, getContent (((ofName slashA).setMetaInfo described).setContent [1]).content = .ok content →
      Uint64 ((((ofName slashA).setMetaInfo described).setContent [1]).signed plain.info.bytes content.wire ++
        Block.write tlvSignatureValue (firstBytes ((((ofName slashA).setMetaInfo described).setContent [1]).signed
          plain.info.bytes content.wire))).length := by
    intro content hcontent
    cases hcontent
    unfold Uint64
    decide +kernel
  rcases sign_ok hstart plain_coherent firstBytes_short hlen with ⟨d₁, hsign₁⟩
  rcases sign_anew hstart plain_coherent firstBytes_short hsign₁ with ⟨hd₁, happ, -⟩
  generalize hd : (((((d₁.setName slashA).setContentType 0).setFreshnessPeriod (-1)).setFinalBlockId
    MetaInfo.noComponent).setContent [1]) = d
  have hrun : ((ofName slashA).setMetaInfo described).run [.setContent [1], .sign plain firstBytes,
      .setName slashA, .setContentType 0, .setFreshnessPeriod (-1), .setFinalBlockId MetaInfo.noComponent,
      .setContent [1]] = .ok d := by
    have hcontent : ((ofName slashA).setMetaInfo described).step (.setContent [1]) =
      .ok (((ofName slashA).setMetaInfo described).setContent [1]) := rfl
    have hstep : (((ofName slashA).setMetaInfo described).setContent [1]).step (.sign plain firstBytes) =
        .ok d₁ := by
      rw [step, hsign₁]
    rw [run_ok hcontent, run_ok hstep, ← hd]
    rfl
  have hmeta : d.metaInfo =
      { MetaInfo.new with appMetaInfo := [Component.block ⟨128, [1]⟩, Component.block ⟨128, [1]⟩] } := by
    rw [← hd]
    show (⟨0, -1, MetaInfo.noComponent, d₁.metaInfo.appMetaInfo, none⟩ : MetaInfo) = _
    rw [happ]
    rfl
  have hlen' : ∀ content, getContent d.content = .ok content → Uint64 (d.signed plain.info.bytes content.wire ++
      Block.write tlvSignatureValue (firstBytes (d.signed plain.info.bytes content.wire))).length := by
    intro content hcontent
    have hname : d.name = slashA := by
      rw [← hd]
      rfl
    have hvalue : d.content = Block.ofValue tlvContent [1] := by
      rw [← hd]
      rfl
    rw [hvalue] at hcontent
    cases hcontent
    rw [signed, hname, hmeta]
    unfold Uint64
    decide +kernel
  have hcoherent := run_coherent hdescribed (fun op hop => (hops op hop).1) hrun
  rcases sign_ok hcoherent plain_coherent firstBytes_short hlen' with ⟨d', hsign⟩
  rcases sign_doubles slashA_encodable described_encodable hops hrun plain_coherent firstBytes_short hsign with
    ⟨b, hb, hrest⟩
  exact ⟨d, d', b, hrun, hsign, hb, hrest⟩

end Data

end NdnDash.Wire
