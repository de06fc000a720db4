/-
ndn-cxx's names (`name-component.cpp`, `name.cpp`) as data: comparing, the successor of a name, and the wire format with
the wire that a name keeps once it has been encoded or decoded. A component is the type and the value of its block.

Results:
- `compare_neg_iff`: names whose types, sizes and counts fit an `int` are compared as lists of components in the order
  of type, length and bytes. Types that differ by more can be in a circle.
- `successor_interval`: the names from `n` up to `n.getSuccessor()` are those that `n` is a prefix of.
- `wire_coherent`: whatever was done to a name, the wire it gives decodes to its components.
-/
import NdnDash.Core.Narrowing
import NdnDash.Core.Shortlex
import NdnDash.Wire.BlockHelpers

namespace NdnDash.Wire

open Tlv

/-! ## Components -/

/-- `name::Component`: the type and the value of the block -/
structure Component where
  type : ℕ
  value : Bytes
deriving DecidableEq

namespace Component

def tlvNameComponent : ℕ := 8
def tlvImplicitSha256DigestComponent : ℕ := 1
def sha256DigestSize : ℕ := 32

def generic (value : Bytes) : Component := ⟨tlvNameComponent, value⟩

def isGeneric (c : Component) : Bool := c.type == tlvNameComponent

def isImplicitSha256Digest (c : Component) : Bool :=
  c.type == tlvImplicitSha256DigestComponent && c.value.length == sha256DigestSize

/-- the check of `Component(wire)` -/
def Accepted (c : Component) : Prop := c.isGeneric = true ∨ c.isImplicitSha256Digest = true

instance (c : Component) : Decidable c.Accepted := by unfold Accepted; infer_instance

def notComponent : String :=
  "Cannot construct name::Component from not a NameComponent or ImplicitSha256DigestComponent TLV wire block"

/-- `compare(other)` -/
def compare (c d : Component) : ℤ :=
  let cmpType := toInt (c.type - d.type)
  if cmpType ≠ 0 then cmpType
  else
    let cmpSize := toInt (c.value.length - d.value.length)
    if cmpSize ≠ 0 then cmpSize else byteCompare c.value d.value

/-- the loop of `getSuccessor`: the calls that prepend the bytes from the last one down while they overflow, how many
bytes are left before them, `isOverflow` -/
def successorCalls (value : Bytes) : ℕ → List Call × ℕ × Bool
  | 0 => ([], 0, true)
  | i + 1 =>
    let newValue := value.getD i 0 + 1
    if newValue = 0 then
      let (calls, left, isOverflow) := successorCalls value i
      (.prependByte newValue :: calls, left, isOverflow)
    else ([.prependByte newValue], i, false)

/-- the component a block is taken for -/
def ofBlock (b : Block) : Component := ⟨b.type, b.value⟩

/-- `Component(wire)` -/
def construct (wire : Block) : Except String Block :=
  if (ofBlock wire).Accepted then .ok wire else .error notComponent

/-- `getSuccessor()` of the component that the block is; `size()` throws where it has neither a wire nor a value -/
def getSuccessor (b : Block) : Except String Block :=
  match b.size with
  | .error e => .error e
  | .ok size =>
    let (calls, left, isOverflow) := successorCalls b.value b.value.length
    let valueCalls := calls ++ [.prependByteArray (b.value.take left)] ++ (if isOverflow then [.appendByte 0] else [])
    let (totalLength, e) := runCalls encoder valueCalls (Encoder.new (size + 1) 1)
    match (runCalls encoder [.prependVarNumber totalLength, .prependVarNumber b.type] e).2.block with
    | .error e => .error e
    | .ok wire => construct wire

/-- `wireEncode(encoder)` -/
def wireEncode {σ : Type} (E : EncodingImpl σ) (c : Component) : StateM σ ℕ := do
  let totalLength := 0
  let totalLength := totalLength + (← prependIf (0 < c.value.length) (E (.prependByteArray c.value)))
  let totalLength := totalLength + (← E (.prependVarNumber c.value.length))
  let totalLength := totalLength + (← E (.prependVarNumber c.type))
  pure totalLength

def wire (c : Component) : Bytes := Block.write c.type c.value

/-- the block of a component that has a wire -/
def block (c : Component) : Block := Block.ofWire c.type c.wire c.value

/-- type and size fit the `int` that `compare` puts their differences in -/
def Comparable (c : Component) : Prop := c.type < 2 ^ 31 ∧ c.value.length < 2 ^ 31

/-- the components of one type in the order of their length, then of their bytes -/
def key (c : Component) : ℕ ×ₗ ℕ := toLex (c.type, shortlexRank c.value)

theorem key_injective {c d : Component} (h : key c = key d) : c = d := by
  obtain ⟨t, v⟩ := c
  obtain ⟨t', v'⟩ := d
  simp only [key, EmbeddingLike.apply_eq_iff_eq, Prod.mk.injEq] at h
  obtain ⟨rfl, hv⟩ := h
  rw [shortlexRank_injective hv]

/-- The comparison of two components is that of their keys. -/
theorem compare_neg_iff {c d : Component} (hc : c.Comparable) (hd : d.Comparable) :
    c.compare d < 0 ↔ c.key < d.key := by
  obtain ⟨hct, hcv⟩ := hc
  obtain ⟨hdt, hdv⟩ := hd
  simp only [compare, toInt_sub hct hdt, toInt_sub hcv hdv, key, Prod.Lex.toLex_lt_toLex]
  split_ifs with htype hsize
  · omega
  · rw [shortlexRank_lt_iff]
    have hsame : c.type = d.type := by omega
    have hdiff : c.value.length ≠ d.value.length := by omega
    constructor
    · intro h
      exact .inr ⟨hsame, .inl (by omega)⟩
    · rintro (h | ⟨-, h | ⟨h, -⟩⟩) <;> omega
  · have hlen : c.value.length = d.value.length := by omega
    rw [byteCompare_neg_iff hlen, shortlexRank_lt_iff]
    constructor
    · intro h
      exact .inr ⟨by omega, .inr ⟨hlen, h⟩⟩
    · rintro (h | ⟨-, h | ⟨-, h⟩⟩)
      · omega
      · omega
      · exact h

theorem compare_swap {c d : Component} (hc : c.Comparable) (hd : d.Comparable) : d.compare c = -c.compare d := by
  obtain ⟨hct, hcv⟩ := hc
  obtain ⟨hdt, hdv⟩ := hd
  simp only [compare, toInt_sub hct hdt, toInt_sub hcv hdv, toInt_sub hdt hct, toInt_sub hdv hcv, byteCompare_swap c.value]
  split_ifs <;> omega

/-- a comparison that says "equal" is right -/
theorem compare_eq_zero_iff {c d : Component} (hc : c.Comparable) (hd : d.Comparable) :
    c.compare d = 0 ↔ c = d := by
  have hlt := compare_neg_iff hc hd
  have hgt := compare_neg_iff hd hc
  rw [compare_swap hc hd] at hgt
  constructor
  · intro h
    apply key_injective
    have h1 : ¬ c.key < d.key := fun hk => by have := hlt.mpr hk; omega
    have h2 : ¬ d.key < c.key := fun hk => by have := hgt.mpr hk; omega
    exact le_antisymm (not_lt.mp h2) (not_lt.mp h1)
  · rintro rfl
    by_contra h
    obtain hneg | hpos : c.compare c < 0 ∨ 0 < c.compare c := by omega
    · exact lt_irrefl _ (hlt.mp hneg)
    · exact lt_irrefl _ (hgt.mp (by omega))

/-- types that differ by more than an `int` holds: three components in a circle -/
example : compare ⟨0, []⟩ ⟨2 ^ 31 - 1, []⟩ < 0 ∧ compare ⟨2 ^ 31 - 1, []⟩ ⟨2 ^ 32 - 2, []⟩ < 0 ∧
    compare ⟨2 ^ 32 - 2, []⟩ ⟨0, []⟩ < 0 := by decide

/-! ### The successor -/

/-- the calls of the loop put the bytes that were counted up behind those that were not -/
theorem successorCalls_spec (value : Bytes) {i : ℕ} (hi : i ≤ value.length) :
    let (calls, left, isOverflow) := successorCalls value i
    carryUp (value.take i) = (value.take left ++ (calls.map Call.front).reverse.flatten, isOverflow) ∧
      calls.flatMap Call.back = [] := by
  induction i with
  | zero => exact ⟨rfl, rfl⟩
  | succ i ih =>
    have hget : value.getD i 0 = value[i] := by rw [List.getD_eq_getElem?_getD, List.getElem?_eq_getElem hi]; rfl
    have htake : value.take (i + 1) = value.take i ++ [value[i]] := by rw [List.take_concat_get']
    rw [successorCalls, hget, htake, carryUp_concat]
    by_cases h : value[i] + 1 = 0
    · obtain ⟨hcarry, hback⟩ := ih (by omega)
      simp only [h, if_true, hcarry]
      refine ⟨?_, ?_⟩
      · simp [Call.front]
      · rw [List.flatMap_cons, hback]
        rfl
    · simp only [h, if_false]
      refine ⟨?_, rfl⟩
      simp [Call.front]

/-- the successor counts the component's bytes up, and is checked like any component that is made from a block -/
theorem getSuccessor_eq {b : Block} (hvalue : b.hasValue = true) (htype : b.type ≤ maxType)
    (hlen : Uint64 (countUp b.value).length) : getSuccessor b = construct (block ⟨b.type, countUp b.value⟩) := by
  obtain ⟨size, hsize⟩ : ∃ size, b.size = .ok size := by
    obtain ⟨span, hspan⟩ := Option.isSome_iff_exists.mp hvalue
    exact ⟨span.size, by rw [Block.size, hspan]⟩
  have hspec := successorCalls_spec b.value (le_refl b.value.length)
  rw [getSuccessor, hsize]
  simp only
  generalize successorCalls b.value b.value.length = loop at hspec ⊢
  obtain ⟨calls, left, isOverflow⟩ := loop
  simp only [List.take_length] at hspec ⊢
  obtain ⟨hcarry, hback⟩ := hspec
  generalize hcalls : calls ++ [Call.prependByteArray (b.value.take left)] ++
    (if isOverflow then [Call.appendByte 0] else []) = valueCalls
  obtain ⟨hlength, hcontents⟩ := adds_runCalls encoder_lawful valueCalls _ _ (Encoder.new_contents (size + 1) 1)
  have hbytes : (valueCalls.map Call.front).reverse.flatten ++ [] ++ valueCalls.flatMap Call.back =
      countUp b.value := by
    rw [countUp, hcarry, ← hcalls]
    cases isOverflow
    · simp [Call.front, Call.back, hback]
    · simp [Call.front, Call.back, hback]
  have htotal : (valueCalls.map Call.front).reverse.flatten.length + (valueCalls.flatMap Call.back).length =
      (countUp b.value).length := by
    rw [← hbytes]
    simp
  rw [hbytes] at hcontents
  rw [Nat.zero_add, htotal] at hlength
  generalize runCalls encoder valueCalls (Encoder.new (size + 1) 1) = run at hlength hcontents ⊢
  obtain ⟨totalLength, e⟩ := run
  simp only at hlength hcontents ⊢
  subst hlength
  obtain ⟨-, hheader⟩ := adds_runCalls encoder_lawful
    [.prependVarNumber (countUp b.value).length, .prependVarNumber b.type] _ _ hcontents
  have hwrite : (runCalls encoder [.prependVarNumber (countUp b.value).length, .prependVarNumber b.type]
      e).2.contents = Block.write b.type (countUp b.value) := by
    rw [hheader]
    simp [Call.front, Call.back, Block.write]
  rw [Encoder.block, hwrite, Block.ofRange_write htype hlen]
  rfl

/-- a digest of 32 bytes 0xff has no successor: one byte more is no digest -/
def HasSuccessor (c : Component) : Prop :=
  c.isGeneric = true ∨ c.isImplicitSha256Digest = true ∧ ∃ b ∈ c.value, b ≠ 255

instance (c : Component) : Decidable c.HasSuccessor := by unfold HasSuccessor; infer_instance

theorem HasSuccessor.accepted {c : Component} (h : c.HasSuccessor) : Accepted ⟨c.type, countUp c.value⟩ := by
  obtain h | ⟨h, hbyte⟩ := h
  · exact .inl h
  · right
    rw [isImplicitSha256Digest] at h ⊢
    rw [length_countUp hbyte]
    exact h

/-- no key lies between a component's and that of its successor -/
theorem key_between (c : Component) (x : ℕ ×ₗ ℕ) :
    c.key ≤ x ∧ x < key ⟨c.type, countUp c.value⟩ ↔ x = c.key := by
  simp only [key, shortlexRank_countUp]
  obtain ⟨t, r⟩ := x
  rw [show ((t, r) : ℕ ×ₗ ℕ) = toLex (t, r) from rfl, Prod.Lex.toLex_le_toLex, Prod.Lex.toLex_lt_toLex,
    EmbeddingLike.apply_eq_iff_eq, Prod.mk.injEq]
  simp only
  omega

theorem map_key_prefix_iff (cs ds : List Component) : cs.map key <+: ds.map key ↔ cs <+: ds := by
  constructor
  · rintro ⟨rest, hrest⟩
    obtain ⟨front, back, hds, hfront, -⟩ := List.map_eq_append_iff.mp hrest.symm
    have hcs : front = cs := List.map_injective_iff.mpr (fun _ _ h => key_injective h) hfront
    exact ⟨back, by rw [hds, hcs]⟩
  · intro h
    exact h.map key

theorem HasSuccessor.construct_eq {c : Component} (h : c.HasSuccessor) :
    construct (block ⟨c.type, countUp c.value⟩) = .ok (block ⟨c.type, countUp c.value⟩) :=
  if_pos h.accepted

end Component

/-! ## Names -/

/-- `Name`: `m_nameBlock`, whose sub-elements are the components -/
structure Name where
  block : Block

namespace Name

def tlvName : ℕ := 7

def unexpectedType : String := "Unexpected TLV type when decoding Name"

/-- `Name()` -/
def new : Name := ⟨Block.ofType tlvName⟩

def components (n : Name) : List Component := n.block.subBlocks.map Component.ofBlock

def size (n : Name) : ℕ := n.block.subBlocks.length

/-- `append(component)` -/
def append (n : Name) (c : Block) : Name := ⟨n.block.pushBack c⟩

/-- `Name::npos` -/
def npos : ℕ := 2 ^ 64 - 1

/-- `getSubName(iStartComponent, nComponents)`: the components are appended to a new name -/
def getSubName (n : Name) (iStartComponent : ℤ) (nComponents : ℕ) : Name :=
  let iStart := (max (if iStartComponent < 0 then n.size + iStartComponent else iStartComponent) 0).toNat
  let iEnd := if nComponents ≠ npos then min n.size ((iStart + nComponents) % 2 ^ 64) else n.size
  ((n.block.subBlocks.take iEnd).drop iStart).foldl append new

/-- `getPrefix(nComponents)`: a negative number is added to the size modulo 2^64 -/
def getPrefix (n : Name) (nComponents : ℤ) : Name :=
  if nComponents < 0 then n.getSubName 0 ((n.size + nComponents) % 2 ^ 64).toNat else n.getSubName 0 nComponents.toNat

/-- `getSuccessor()` -/
def getSuccessor (n : Name) : Except String Name :=
  match n.block.subBlocks.getLast? with
  | none => (makeBinaryBlock Component.tlvNameComponent [0]).map new.append
  | some last => (Component.getSuccessor last).map (n.getPrefix (-1)).append

/-- `compare(other)`: the first component that differs, or the difference of the counts -/
def compareLoop : List Component → List Component → ℤ
  | c :: cs, d :: ds =>
    let comp := c.compare d
    if comp ≠ 0 then comp else compareLoop cs ds
  | cs, ds => toInt (cs.length - ds.length)

def compare (n m : Name) : ℤ := compareLoop n.components m.components

/-- `isPrefixOf(name)` -/
def isPrefixOf (n m : Name) : Bool :=
  if m.size < n.size then false else (n.components.zip m.components).all (fun p => p.1 = p.2)

/-- the reverse loop of `wireEncode`: the last component is prepended first -/
def prependAll {σ α : Type} (f : α → StateM σ ℕ) : List α → StateM σ ℕ
  | [] => pure 0
  | a :: as => do
    let totalLength ← prependAll f as
    let totalLength := totalLength + (← f a)
    pure totalLength

/-- `wireEncode(encoder)` -/
def wireEncodeWith {σ : Type} (E : EncodingImpl σ) (n : Name) : StateM σ ℕ :=
  prependHeader E tlvName (prependAll (Component.wireEncode E) n.components)

/-- the result of `parse` that throws what `parse` throws -/
def parsed (b : Block) : Except String Name :=
  match b.parse with
  | (b', none) => .ok ⟨b'⟩
  | (_, some e) => .error e

/-- `wireEncode()`: the name with its wire -/
def wireEncode (n : Name) : Except String Name :=
  if n.block.hasWire then .ok n
  else
    match encodeBlock (fun E => wireEncodeWith E n) with
    | .error e => .error e
    | .ok b => parsed b

/-- `wireDecode(wire)` -/
def wireDecode (wire : Block) : Except String Name :=
  if wire.type ≠ tlvName then .error unexpectedType else parsed wire

/-- a name off the front of a buffer -/
def ofBytes (bs : Bytes) : Except String Name :=
  match Block.ofBuffer bs with
  | .error e => .error e
  | .ok b => wireDecode b

/-! ### Comparing -/

/-- every component compares, and so do the counts -/
def Comparable (cs : List Component) : Prop := (∀ c ∈ cs, c.Comparable) ∧ cs.length < 2 ^ 31

theorem Comparable.tail {c : Component} {cs : List Component} (h : Comparable (c :: cs)) : Comparable cs := by
  obtain ⟨hall, hlen⟩ := h
  refine ⟨fun d hd => hall d (List.mem_cons_of_mem c hd), ?_⟩
  rw [List.length_cons] at hlen
  omega

theorem compareLoop_neg_iff {cs ds : List Component} (hc : Comparable cs) (hd : Comparable ds) :
    compareLoop cs ds < 0 ↔ cs.map Component.key < ds.map Component.key := by
  induction cs generalizing ds with
  | nil =>
    rw [compareLoop, toInt_sub hc.2 hd.2]
    · cases ds with
      | nil => simp
      | cons d ds =>
        simp only [List.length_nil, List.length_cons, List.map_nil, List.map_cons, List.nil_lt_cons, iff_true]
        omega
    · intro c cs d ds h
      cases h
  | cons c cs ih =>
    cases ds with
    | nil =>
      rw [compareLoop, toInt_sub hc.2 hd.2]
      · simp
        omega
      · intro c cs d ds _ h
        cases h
    | cons d ds =>
      have hcd := Component.compare_neg_iff (hc.1 c List.mem_cons_self) (hd.1 d List.mem_cons_self)
      have heq := Component.compare_eq_zero_iff (hc.1 c List.mem_cons_self) (hd.1 d List.mem_cons_self)
      rw [compareLoop, List.map_cons, List.map_cons, List.cons_lt_cons_iff]
      by_cases h : c.compare d = 0
      · obtain rfl := heq.mp h
        simp only [h, ne_eq, not_true_eq_false, if_false, lt_irrefl, true_and, false_or]
        exact ih hc.tail hd.tail
      · simp only [h, ne_eq, not_false_eq_true, if_true, hcd]
        constructor
        · exact .inl
        · rintro (hlt | ⟨hkey, -⟩)
          · exact hlt
          · exact absurd (heq.mpr (Component.key_injective hkey)) h

/-- Names are compared as the lists of their components. -/
theorem compare_neg_iff {n m : Name} (hn : Comparable n.components) (hm : Comparable m.components) :
    n.compare m < 0 ↔ n.components.map Component.key < m.components.map Component.key :=
  compareLoop_neg_iff hn hm

theorem isPrefixOf_iff (n m : Name) : n.isPrefixOf m = true ↔ n.components <+: m.components := by
  have hsize : ∀ k : Name, k.size = k.components.length := fun k => by rw [components, List.length_map, size]
  rw [isPrefixOf, hsize, hsize]
  generalize n.components = cs
  generalize m.components = ds
  induction cs generalizing ds with
  | nil => simp
  | cons c cs ih =>
    cases ds with
    | nil => simp
    | cons d ds =>
      have hrec := ih ds
      simp only [List.length_cons, Nat.add_lt_add_iff_right, List.zip_cons_cons, List.all_cons, List.cons_prefix_cons]
      split at hrec
      · next hlt =>
        simp only [hlt, if_true, ← hrec]
        simp
      · next hge =>
        simp only [hge, if_false, ← hrec]
        simp

/-! ### The successor -/

theorem foldl_append (b : Block) (cs : List Block) :
    (cs.foldl append ⟨b⟩).block.subBlocks = b.subBlocks ++ cs := by
  induction cs generalizing b with
  | nil => simp
  | cons c cs ih =>
    rw [List.foldl_cons, append, ih]
    simp [Block.pushBack]

theorem components_append (n : Name) (c : Block) :
    (n.append c).components = n.components ++ [Component.ofBlock c] := by
  simp [components, append, Block.pushBack]

/-- the first components of a name, as many as there are -/
theorem components_getSubName_zero (n : Name) {nComponents : ℕ} (h : nComponents < npos) :
    (n.getSubName 0 nComponents).components = n.components.take nComponents := by
  have hmod : (0 + nComponents) % 2 ^ 64 = nComponents := by
    rw [npos] at h
    omega
  simp only [getSubName, components, new, lt_irrefl, if_false, max_self, Int.toNat_zero, List.drop_zero, hmod, size]
  rw [if_pos (by omega), foldl_append]
  simp [Block.ofType, List.map_take, List.take_eq_take_min, min_comm]

theorem components_getPrefix_neg_one {n : Name} (hpos : 0 < n.size) (hsize : n.size < 2 ^ 64) :
    (n.getPrefix (-1)).components = n.components.dropLast := by
  have hcount : ((n.size + (-1 : ℤ)) % 2 ^ 64).toNat = n.size - 1 := by omega
  have hlength : n.components.length = n.size := by rw [components, List.length_map, size]
  rw [getPrefix, if_pos (by decide), hcount, components_getSubName_zero n (by rw [npos]; omega),
    List.dropLast_eq_take, hlength]

/-- more components cut off than there are: the number wraps around, and the whole name is left -/
theorem components_getPrefix_past {n : Name} {k : ℕ} (h : n.size < k) (hk : k < 2 ^ 63) :
    (n.getPrefix (-k)).components = n.components := by
  have hcount : ((n.size + (-k : ℤ)) % 2 ^ 64).toNat = n.size + 2 ^ 64 - k := by omega
  rw [getPrefix, if_pos (by omega), hcount]
  by_cases hnpos : n.size + 2 ^ 64 - k = npos
  · rw [hnpos]
    simp [getSubName, components, new, foldl_append, Block.ofType, size]
  · rw [components_getSubName_zero n (by rw [npos] at hnpos ⊢; omega), List.take_of_length_le]
    rw [components, List.length_map, ← size]
    omega

/-- the last component is replaced by its successor -/
theorem components_getSuccessor {n : Name} {p : List Component} {c : Component} (hsplit : n.components = p ++ [c])
    (hvalue : ∀ b ∈ n.block.subBlocks, b.hasValue = true) (hsize : n.size < 2 ^ 64) (hnext : c.HasSuccessor)
    (htype : c.type ≤ maxType) (hlen : Uint64 (countUp c.value).length) :
    ∃ s, n.getSuccessor = .ok s ∧ s.components = p ++ [⟨c.type, countUp c.value⟩] := by
  obtain ⟨front, tail, hblocks, hfront, htail⟩ := List.map_eq_append_iff.mp hsplit
  obtain ⟨last, rfl, rfl⟩ := List.map_eq_singleton_iff.mp htail
  have hsucc : Component.getSuccessor last = .ok (Component.block ⟨last.type, countUp last.value⟩) := by
    rw [Component.getSuccessor_eq (hvalue last (by rw [hblocks]; simp)) htype hlen]
    exact hnext.construct_eq
  have hlast : n.block.subBlocks.getLast? = some last := by rw [hblocks]; simp
  have hpos : 0 < n.size := by rw [size, hblocks]; simp
  refine ⟨_, by simp only [getSuccessor, hlast, hsucc]; rfl, ?_⟩
  rw [components_append, components_getPrefix_neg_one hpos hsize, hsplit, List.dropLast_concat]
  rfl

/-- **The successor.** The names from `n` up to its successor are those that `n` is a prefix of. -/
theorem successor_interval {n m : Name} (hne : n.components ≠ []) (hn : Comparable n.components)
    (hvalue : ∀ b ∈ n.block.subBlocks, b.hasValue = true)
    (hlast : ∀ c ∈ n.components.getLast?, c.HasSuccessor ∧ (countUp c.value).length < 2 ^ 31)
    (hm : Comparable m.components) :
    ∃ s, n.getSuccessor = .ok s ∧ (¬ m.compare n < 0 ∧ m.compare s < 0 ↔ n.isPrefixOf m = true) := by
  obtain ⟨p, c, hsplit⟩ : ∃ p c, n.components = p ++ [c] := ⟨_, _, (List.dropLast_append_getLast hne).symm⟩
  obtain ⟨hnext, hshort⟩ := hlast c (by rw [hsplit]; simp)
  have hsize : n.size = n.components.length := by rw [components, List.length_map, size]
  have hcount := hn.2
  have htype : c.type < 2 ^ 31 := (hn.1 c (by rw [hsplit]; simp)).1
  obtain ⟨s, hsucc, hs⟩ := components_getSuccessor hsplit hvalue (by omega) hnext
    (by norm_num [maxType]; omega) (by unfold Uint64; omega)
  refine ⟨s, hsucc, ?_⟩
  have hcomparable : Comparable s.components := by
    rw [hs]
    rw [hsplit] at hn
    refine ⟨?_, by simpa using hn.2⟩
    intro d hd
    obtain hd | hd := List.mem_append.mp hd
    · exact hn.1 d (List.mem_append_left _ hd)
    · obtain rfl := List.mem_singleton.mp hd
      exact ⟨htype, hshort⟩
  rw [compare_neg_iff hm hn, compare_neg_iff hm hcomparable, isPrefixOf_iff, hs, hsplit]
  simp only [List.map_append, List.map_cons, List.map_nil]
  rw [prefix_interval c.key_between (p.map Component.key) (m.components.map Component.key),
    ← Component.map_key_prefix_iff]
  simp only [List.map_append, List.map_cons, List.map_nil]

/-- `/a` is a prefix of `/a/b`, which lies between `/a` and `/b` -/
theorem successor_interval_ab :
    ∃ s, (new.append (Component.generic [97]).block).getSuccessor = .ok s ∧
      (¬ ((new.append (Component.generic [97]).block).append (Component.generic [98]).block).compare
          (new.append (Component.generic [97]).block) < 0 ∧
        ((new.append (Component.generic [97]).block).append (Component.generic [98]).block).compare s < 0 ↔
      (new.append (Component.generic [97]).block).isPrefixOf
        ((new.append (Component.generic [97]).block).append (Component.generic [98]).block) = true) :=
  successor_interval (n := new.append (Component.generic [97]).block)
    (m := (new.append (Component.generic [97]).block).append (Component.generic [98]).block)
    (by decide) (by unfold Comparable Component.Comparable; decide) (by decide) (by decide)
    (by unfold Comparable Component.Comparable; decide)

/-! ### The wire -/

section Writes

variable {σ : Type} {E : EncodingImpl σ} {R : σ → Bytes → Prop} (hE : LawfulFront E R)

include hE

theorem adds_component (c : Component) : Adds R (Component.wireEncode E c) 0 c.wire [] := by
  have hvalue := adds_prependIf (decide (0 < c.value.length))
    (fun _ => hE (.prependByteArray c.value) rfl)
  have hlength : Adds R (E (.prependVarNumber c.value.length)) 0 (writeVarNumber c.value.length) [] :=
    hE (.prependVarNumber c.value.length) rfl
  have htype : Adds R (E (.prependVarNumber c.type)) 0 (writeVarNumber c.type) [] := hE (.prependVarNumber c.type) rfl
  have hfront : (if decide (0 < c.value.length) = true then c.value else []) = c.value := by
    cases hc : c.value <;> simp
  rw [show (Call.prependByteArray c.value).front = c.value from rfl, hfront] at hvalue
  refine adds_bind hvalue (adds_bind hlength (adds_bind htype (adds_pure ?_) rfl rfl) rfl rfl) ?_ rfl
  · simp
  · simp [Component.wire, Block.write]

omit hE in
theorem adds_prependAll {α : Type} {f : α → StateM σ ℕ} {w : α → Bytes} {as : List α}
    (h : ∀ a ∈ as, Adds R (f a) 0 (w a) []) : Adds R (prependAll f as) 0 (as.flatMap w) [] := by
  induction as with
  | nil => exact adds_pure rfl
  | cons a as ih =>
    have hothers := ih (fun b hb => h b (List.mem_cons_of_mem a hb))
    refine adds_bind hothers (adds_bind (h a List.mem_cons_self) (adds_pure ?_) rfl rfl) ?_ rfl
    · simp
    · simp

theorem adds_wireEncodeWith (n : Name) :
    Adds R (wireEncodeWith E n) 0 (Block.write tlvName (n.components.flatMap Component.wire)) [] :=
  adds_prependHeader hE tlvName (adds_prependAll (fun c _ => adds_component hE c))

end Writes

/-- type codes of 32 bits, as every block has them -/
def Types (cs : List Component) : Prop := ∀ c ∈ cs, c.type ≤ maxType

/-- the value holds the components, and nothing else -/
def Holds (value : Bytes) (cs : List Component) : Prop :=
  ∃ found, Block.elements.all value = (found, none) ∧ found.map Component.ofBlock = cs

/-- The invariant of a name: a wire it keeps is the wire of its components. -/
structure Coherent (n : Name) : Prop where
  types : Types n.components
  kept : n.block.hasWire = true → n.block.type = tlvName ∧ Holds n.block.value n.components ∧
    ∀ msg rest, Block.readElement msg (n.block.wire ++ rest) = .ok (Block.ofWire tlvName n.block.wire n.block.value, rest)

theorem holds_wires {cs : List Component} (htypes : Types cs) (hlen : Uint64 (cs.flatMap Component.wire).length) :
    Holds (cs.flatMap Component.wire) cs := by
  refine ⟨cs.map Component.block, ?_, ?_⟩
  · apply Reader.all_flatMap
    intro c hc rest
    have hle : c.wire.length ≤ (cs.flatMap Component.wire).length :=
      (List.sublist_flatten_of_mem (List.mem_map_of_mem hc)).length_le
    rw [Component.wire, Block.length_write] at hle
    refine Block.readElement_write (htypes c hc) ?_ _ rest
    unfold Uint64 at hlen ⊢
    omega
  · have hid : Component.ofBlock ∘ Component.block = id := rfl
    rw [List.map_map, hid, List.map_id]

theorem Holds.unique {value : Bytes} {cs ds : List Component} (hc : Holds value cs) (hd : Holds value ds) :
    cs = ds := by
  obtain ⟨found, hfound, rfl⟩ := hc
  obtain ⟨found', hfound', rfl⟩ := hd
  rw [hfound] at hfound'
  cases hfound'
  rfl

theorem types_of_holds {value : Bytes} {cs : List Component} (h : Holds value cs) : Types cs := by
  obtain ⟨found, hall, rfl⟩ := h
  intro c hc
  obtain ⟨b, hb, rfl⟩ := List.mem_map.mp hc
  have hmem : b ∈ (Block.elements.all value).1 := by rw [hall]; exact hb
  obtain ⟨ys, rest, hrun⟩ := Block.elements.mem_all hmem
  obtain ⟨type, _, _, _, htype, _, _, _, _, _, rfl⟩ := Block.readElement_ok hrun
  exact (readType_ok.mp htype).2

/-- a block that is accepted is a coherent name, and keeps its wire -/
theorem wireDecode_coherent {b : Block} {n : Name} (hread : b.Read) (h : wireDecode b = .ok n) :
    n.Coherent ∧ n.block.wire = b.wire ∧ Holds b.value n.components := by
  obtain ⟨hsub, hwire⟩ := hread
  rw [wireDecode] at h
  split at h
  · cases h
  · next htype =>
    have htype : b.type = tlvName := not_not.mp htype
    rw [parsed] at h
    split at h
    · next b' hparse =>
      cases h
      obtain ⟨found, hall, rfl⟩ := Block.parse_ok hsub hparse
      have hholds : Holds b.value (found.map Component.ofBlock) := ⟨found, hall, rfl⟩
      refine ⟨⟨types_of_holds hholds, fun _ => ⟨htype, hholds, ?_⟩⟩, rfl, hholds⟩
      intro msg rest
      have hread := hwire msg rest
      have heq := Block.Read.eq_ofWire ⟨hsub, hwire⟩
      rw [htype] at heq
      exact hread.trans (congrArg (fun c => Except.ok (c, rest)) heq)
    · cases h

/-! ### Whole histories -/

inductive Op where
  | append (c : Block)
  | getPrefix (nComponents : ℤ)
  | decode (wire : Block)
  | encode

/-- what a caller can hand over: a component with a type of 32 bits, a block as it is read -/
def Op.Valid : Op → Prop
  | .append c => c.type ≤ maxType
  | .decode wire => wire.Read
  | _ => True

def step (n : Name) : Op → Except String Name
  | .append c => .ok (n.append c)
  | .getPrefix nComponents => .ok (n.getPrefix nComponents)
  | .decode wire => wireDecode wire
  | .encode => n.wireEncode

/-- the calls one after the other, up to the first exception -/
def run (n : Name) : List Op → Except String Name
  | [] => .ok n
  | op :: ops =>
    match n.step op with
    | .error e => .error e
    | .ok n' => n'.run ops

theorem new_coherent : new.Coherent := by
  refine ⟨?_, ?_⟩
  · intro c hc
    cases hc
  · intro h
    cases h

theorem append_coherent {n : Name} {c : Block} (h : Types n.components) (hc : c.type ≤ maxType) :
    (n.append c).Coherent := by
  refine ⟨?_, ?_⟩
  · intro d hd
    rw [components_append] at hd
    obtain hd | hd := List.mem_append.mp hd
    · exact h d hd
    · obtain rfl := List.mem_singleton.mp hd
      exact hc
  · intro hwire
    cases hwire

theorem getSubName_coherent {n : Name} (h : Types n.components) (iStartComponent : ℤ) (nComponents : ℕ) :
    (n.getSubName iStartComponent nComponents).Coherent := by
  rw [getSubName]
  generalize (if nComponents ≠ npos then _ else n.size) = iEnd
  generalize (max _ (0 : ℤ)).toNat = iStart
  have hmem : ∀ c ∈ (n.block.subBlocks.take iEnd).drop iStart, c.type ≤ maxType := by
    intro c hc
    exact h (Component.ofBlock c) (List.mem_map_of_mem (List.mem_of_mem_take (List.mem_of_mem_drop hc)))
  generalize (n.block.subBlocks.take iEnd).drop iStart = cs at hmem
  have hnew : new.Coherent := new_coherent
  generalize new = m at hnew ⊢
  induction cs generalizing m with
  | nil => exact hnew
  | cons c cs ih =>
    rw [List.foldl_cons]
    apply ih
    · intro d hd
      exact hmem d (List.mem_cons_of_mem c hd)
    · exact append_coherent hnew.types (hmem c List.mem_cons_self)

theorem getPrefix_coherent {n : Name} (h : Types n.components) (nComponents : ℤ) :
    (n.getPrefix nComponents).Coherent := by
  rw [getPrefix]
  split_ifs
  · exact getSubName_coherent h 0 _
  · exact getSubName_coherent h 0 _

/-- Encoding gives the name a wire, and leaves its components. -/
theorem wireEncode_coherent {n n' : Name} (hn : n.Coherent) (h : n.wireEncode = .ok n') :
    n'.Coherent ∧ n'.components = n.components := by
  rw [wireEncode] at h
  split at h
  · cases h
    exact ⟨hn, rfl⟩
  · split at h
    · cases h
    · next b hb =>
      obtain ⟨hlen, rfl⟩ := encodeBlock_ok (fun _ _ hE => adds_wireEncodeWith hE n) (by decide) hb
      have hholds := holds_wires hn.types hlen
      have hread := Block.read_of_readElement (@Block.readElement_write tlvName _ (by decide) hlen "" [])
      have hdecode : wireDecode (Block.ofWire tlvName (Block.write tlvName (n.components.flatMap Component.wire))
          (n.components.flatMap Component.wire)) = .ok n' := by
        rw [wireDecode, if_neg (by simp [Block.ofWire])]
        exact h
      obtain ⟨hcoherent, -, hholds'⟩ := wireDecode_coherent hread hdecode
      exact ⟨hcoherent, hholds'.unique hholds⟩

theorem step_coherent {n n' : Name} {op : Op} (hn : n.Coherent) (hop : op.Valid) (h : n.step op = .ok n') :
    n'.Coherent := by
  cases op with
  | append c =>
    cases h
    exact append_coherent hn.types hop
  | getPrefix nComponents =>
    cases h
    exact getPrefix_coherent hn.types nComponents
  | decode wire => exact (wireDecode_coherent hop h).1
  | encode => exact (wireEncode_coherent hn h).1

theorem run_coherent {n n' : Name} {ops : List Op} (hn : n.Coherent) (hops : ∀ op ∈ ops, op.Valid)
    (h : n.run ops = .ok n') : n'.Coherent := by
  induction ops generalizing n with
  | nil =>
    cases h
    exact hn
  | cons op ops ih =>
    rw [run] at h
    split at h
    · cases h
    · next n'' hstep =>
      have hn'' := step_coherent hn (hops op List.mem_cons_self) hstep
      exact ih hn'' (fun op' hop' => hops op' (List.mem_cons_of_mem op hop')) h

/-- a value that holds components is decoded to them -/
theorem wireDecode_of_holds {value wire : Bytes} {cs : List Component} (h : Holds value cs) :
    ∃ m, wireDecode (Block.ofWire tlvName wire value) = .ok m ∧ m.components = cs := by
  obtain ⟨found, hall, rfl⟩ := h
  have hparse := Block.parse_of_found (b := Block.ofWire tlvName wire value) rfl hall
  refine ⟨⟨{ Block.ofWire tlvName wire value with subBlocks := found }⟩, ?_, rfl⟩
  rw [wireDecode, if_neg (by simp [Block.ofWire]), parsed, hparse]

/-- **The wire is never stale.** After any calls that threw nothing, and with any bytes behind it: the wire that the name
gives decodes to the components the name has. -/
theorem wire_coherent {ops : List Op} {n : Name} (hops : ∀ op ∈ ops, op.Valid) (hrun : new.run ops = .ok n)
    (hlen : Uint64 (n.components.flatMap Component.wire).length) :
    ∃ n', n.wireEncode = .ok n' ∧ n'.components = n.components ∧ n'.block.hasWire = true ∧
      ∀ rest, ∃ m, ofBytes (n'.block.wire ++ rest) = .ok m ∧ m.components = n.components := by
  have hn := run_coherent new_coherent hops hrun
  have hencodes : ∃ n', n.wireEncode = .ok n' ∧ n'.block.hasWire = true := by
    rw [wireEncode]
    split
    · next hwire => exact ⟨n, rfl, hwire⟩
    · have hblock := encodeBlock_eq (fun _ _ hE => adds_wireEncodeWith hE n) (by decide) hlen
      obtain ⟨found, hall, -⟩ := holds_wires hn.types hlen
      have hparse := Block.parse_of_found (b := Block.ofWire tlvName
        (Block.write tlvName (n.components.flatMap Component.wire)) (n.components.flatMap Component.wire)) rfl hall
      simp only [hblock, parsed, hparse]
      exact ⟨_, rfl, by simp [Block.hasWire, Block.ofWire, Block.write_ne_nil]⟩
  obtain ⟨n', hn', hwire⟩ := hencodes
  obtain ⟨hcoherent, hsame⟩ := wireEncode_coherent hn hn'
  refine ⟨n', hn', hsame, hwire, ?_⟩
  intro rest
  obtain ⟨-, hholds, hread⟩ := hcoherent.kept hwire
  obtain ⟨m, hm, hcomponents⟩ : ∃ m, wireDecode (Block.ofWire tlvName n'.block.wire n'.block.value) = .ok m ∧
      m.components = n'.components := wireDecode_of_holds hholds
  refine ⟨m, ?_, hcomponents.trans hsame⟩
  rw [ofBytes, Block.ofBuffer, hread]
  exact hm

/-- a component appended to a name that had a wire -/
theorem wire_coherent_ab :
    ∃ n', ((new.append (Component.generic [97]).block).append (Component.generic [98]).block).wireEncode = .ok n' ∧
      n'.components = [Component.generic [97], Component.generic [98]] ∧ n'.block.hasWire = true ∧
      ∀ rest, ∃ m, ofBytes (n'.block.wire ++ rest) = .ok m ∧
        m.components = [Component.generic [97], Component.generic [98]] :=
  @wire_coherent [.append (Component.generic [97]).block, .encode, .append (Component.generic [98]).block]
    ((new.append (Component.generic [97]).block).append (Component.generic [98]).block)
    (by
      intro op hop
      simp only [List.mem_cons, List.not_mem_nil, or_false] at hop
      obtain rfl | rfl | rfl := hop <;> simp [Op.Valid, Component.block, Component.generic, Block.ofWire,
        Component.tlvNameComponent, maxType])
    (by rfl) (by unfold Uint64; decide)

end Name

end NdnDash.Wire
