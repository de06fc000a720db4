/-
ndn-cxx's `Exclude` selector (`exclude.cpp`): the map from components to the flag "and everything up to the next", in
descending order with `std::greater`, and `m_wire`. The map's order is the one of the keys, which `Component::compare`
computes for components whose types and sizes fit an `int` (`Component.lt_iff_compare`): the results are about these.

Results:
- `isExcluded_exact_iff`: after every call of a run exactly what was asked for is excluded, if and only if no call adds
  a range that lies inside an open range and ends before it; such a call takes the rest of that range out again.
- `exclude_wire`: whatever calls, decoding and encoding came before, the wire decodes to the same entries.
-/
import NdnDash.Core.Marks
import NdnDash.Core.NameUri
import NdnDash.Wire.Name

namespace NdnDash.Wire

open Tlv

/-! ## Model -/

namespace Component

instance : LinearOrder Component := LinearOrder.lift' key (fun _ _ => key_injective)

theorem lt_iff_compare {c d : Component} (hc : c.Comparable) (hd : d.Comparable) : c < d ↔ c.compare d < 0 :=
  (compare_neg_iff hc hd).symm

theorem le_iff_compare {c d : Component} (hc : c.Comparable) (hd : d.Comparable) : c ≤ d ↔ c.compare d ≤ 0 := by
  have hswap := compare_swap hc hd
  rw [← not_lt, lt_iff_compare hd hc]
  omega

/-- two lower-case hexadecimal digits, as `printHex` puts them -/
def printHex (b : UInt8) : Str :=
  ["0123456789abcdef".toList.getD (b.toNat / 16) '0', "0123456789abcdef".toList.getD (b.toNat % 16) '0']

def toUri (c : Component) : String :=
  if c.type = tlvImplicitSha256DigestComponent then "sha256digest=" ++ String.ofList (c.value.flatMap printHex)
  else String.ofList (NameUri.componentUri c.value)

theorem Accepted.type_le {c : Component} (h : c.Accepted) : c.type ≤ maxType := by
  obtain h | h := h
  · have htype : c.type = tlvNameComponent := by simpa [isGeneric] using h
    rw [htype]
    decide
  · have htype : c.type = tlvImplicitSha256DigestComponent := by
      simp only [isImplicitSha256Digest, Bool.and_eq_true, beq_iff_eq] at h
      exact h.1
    rw [htype]
    decide

end Component

/-- `Exclude`: `m_entries` and, where it is set, `m_wire` -/
structure Exclude where
  entries : List (Mark Component)
  wf : Marks.WF entries
  wire : Option Block

namespace Exclude

open Marks

def tlvExclude : ℕ := 16
def tlvAny : ℕ := 19

/-- `Exclude()`, and what `clear()` leaves -/
def new : Exclude := ⟨[], ⟨List.Pairwise.nil, by simp⟩, none⟩

def isExcluded (e : Exclude) (c : Component) : Bool := mem c e.entries

def excludeOne (e : Exclude) (c : Component) : Exclude :=
  if e.isExcluded c then e else ⟨insert (c : WithBot Component) false e.entries, insert_wf e.wf (by simp), none⟩

def invalidRange (lo hi : Component) : String :=
  "Invalid exclude range [" ++ lo.toUri ++ ", " ++ hi.toUri ++ "] (for single name exclude use Exclude::excludeOne)"

def excludeRange (e : Exclude) (lo hi : Component) : Except String Exclude :=
  if h : hi ≤ lo then .error (invalidRange lo hi)
  else .ok ⟨addRange (lo : WithBot Component) hi e.entries,
    addRange_wf e.wf (WithBot.coe_lt_coe.mpr (not_le.mp h)), none⟩

/-- `excludeRange(-Inf, to)` -/
def excludeBefore (e : Exclude) (hi : Component) : Exclude :=
  ⟨addRange ⊥ hi e.entries, addRange_wf e.wf (WithBot.bot_lt_coe hi), none⟩

def excludeAfter (e : Exclude) (lo : Component) : Exclude :=
  ⟨addAfter (lo : WithBot Component) e.entries, addAfter_wf e.wf _, none⟩

/-! ### The wire -/

def emptyExclude : String := "cannot encode empty Exclude selector"
def emptyElement : String := "Exclude element cannot be empty"
def unexpectedType : String := "Unexpected TLV type when decoding Exclude"
def incorrectFormat : String := "Incorrect format of Exclude filter"

/-- one round of the loop of `wireEncode`: `Any` behind the component -/
def encodeEntry {σ : Type} (E : EncodingImpl σ) (entry : Mark Component) : StateM σ ℕ := do
  let totalLength ← prependIf entry.2 (prependEmptyBlock E tlvAny)
  let totalLength := totalLength + (← match entry.1 with
    | ⊥ => pure 0
    | (c : Component) => Component.wireEncode E c)
  pure totalLength

/-- `wireEncode(encoder)`, for entries: the greatest component is prepended first -/
def wireEncodeWith {σ : Type} (E : EncodingImpl σ) (e : Exclude) : StateM σ ℕ :=
  prependHeader E tlvExclude (Name.prependAll (encodeEntry E) e.entries.reverse)

/-- `wireEncode()`: the selector with its wire -/
def wireEncode (e : Exclude) : Except String Exclude :=
  if e.wire.any Block.hasWire then .ok e
  else if e.entries = [] then .error emptyExclude
  else (encodeBlock (fun E => wireEncodeWith E e)).map (fun b => { e with wire := some b })

/-- `appendEntry(component, hasAny)`: `emplace_hint` into the map -/
def appendEntry (k : WithBot Component) (hasAny : Bool) (hbot : k = ⊥ → hasAny = true)
    (m : { entries : List (Mark Component) // WF entries }) : { entries : List (Mark Component) // WF entries } :=
  ⟨insert k hasAny m.1, insert_wf m.2 hbot⟩

/-- the loop of `wireDecode`: a component, and `Any` where it stands behind it -/
def decodeEntries : List Component → { entries : List (Mark Component) // WF entries } →
    Except String { entries : List (Mark Component) // WF entries }
  | [], m => .ok m
  | [c], m => if c.Accepted then .ok (appendEntry c false (by simp) m) else .error incorrectFormat
  | c :: next :: rest, m =>
    if c.Accepted then
      if next.type = tlvAny then decodeEntries rest (appendEntry c true (by simp) m)
      else decodeEntries (next :: rest) (appendEntry c false (by simp) m)
    else .error incorrectFormat

/-- the elements of the selector: `Any` at the front is everything from the beginning -/
def decodeElements : List Component → Except String { entries : List (Mark Component) // WF entries }
  | [] => .error emptyElement
  | first :: rest =>
    if first.type = tlvAny then decodeEntries rest (appendEntry ⊥ true (fun _ => rfl) ⟨[], new.wf⟩)
    else decodeEntries (first :: rest) ⟨[], new.wf⟩

/-- `wireDecode(wire)` -/
def wireDecode (wire : Block) : Except String Exclude :=
  if wire.type ≠ tlvExclude then .error unexpectedType
  else
    match wire.parse with
    | (_, some e) => .error e
    | (b, none) => (decodeElements (b.subBlocks.map Component.ofBlock)).map (fun m => ⟨m.1, m.2, some b⟩)

/-! ## What is excluded -/

/-- the calls that exclude; a range from `lo` up to `lo` or below is refused -/
inductive Op where
  | one (c : Component)
  | before (hi : Component)
  | range (lo hi : Component) (h : lo < hi)
  | after (lo : Component)

/-- what the call is asked to exclude -/
def Op.Asks (z : Component) : Op → Prop
  | .one c => z = c
  | .before hi => z.compare hi ≤ 0
  | .range lo hi _ => lo.compare z ≤ 0 ∧ z.compare hi ≤ 0
  | .after lo => lo.compare z ≤ 0

/-- the components that the call names -/
def Op.Names (P : Component → Prop) : Op → Prop
  | .one c => P c
  | .before hi => P hi
  | .range lo hi _ => P lo ∧ P hi
  | .after lo => P lo

/-- the components of the entries -/
def AllOf (P : Component → Prop) (entries : List (Mark Component)) : Prop :=
  ∀ entry ∈ entries, ∀ c : Component, entry.1 = (c : WithBot Component) → P c

/-- the call's map: `excludeRange` by its branch that does not throw -/
def step (e : Exclude) : Op → Exclude
  | .one c => e.excludeOne c
  | .before hi => e.excludeBefore hi
  | .range lo hi h => ⟨addRange (lo : WithBot Component) hi e.entries, addRange_wf e.wf (WithBot.coe_lt_coe.mpr h), none⟩
  | .after lo => e.excludeAfter lo

def run (e : Exclude) (ops : List Op) : Exclude := ops.foldl step e

theorem excludeRange_of_lt (e : Exclude) {lo hi : Component} (h : lo < hi) :
    e.excludeRange lo hi = .ok (e.step (.range lo hi h)) := by
  rw [excludeRange, dif_neg (not_le.mpr h)]
  rfl

/-- the range from `lo` to `hi` is inside one open range, which holds a component behind `hi` -/
def CutsAt (e : Exclude) (lo : WithBot Component) (hi : Component) : Prop :=
  Swallowed lo hi e.entries ∧ ∃ z : Component, z.Comparable ∧ hi.compare z < 0 ∧
    AllOf (fun c => z.compare c < 0) (above lo e.entries)

/-- the call takes something out -/
def Cuts (e : Exclude) : Op → Prop
  | .before hi => e.CutsAt ⊥ hi
  | .range lo hi _ => e.CutsAt (lo : WithBot Component) hi
  | _ => False

/-- a call leaves the components of the entries and those it names -/
theorem step_allOf {P : Component → Prop} {e : Exclude} {op : Op} (he : AllOf P e.entries) (hop : op.Names P) :
    AllOf P (e.step op).entries := by
  cases op with
  | one c =>
    rw [step, excludeOne]
    split
    · exact he
    · intro entry hentry d hd
      obtain hkey | hentry := key_of_mem_insert hentry
      · obtain rfl : c = d := WithBot.coe_inj.mp (hkey.symm.trans hd)
        exact hop
      · exact he entry hentry d hd
  | before hi =>
    intro entry hentry d hd
    obtain hkey | hkey | hentry := key_of_mem_addRange hentry
    · rw [hkey] at hd
      cases hd
    · obtain rfl : hi = d := WithBot.coe_inj.mp (hkey.symm.trans hd)
      exact hop
    · exact he entry hentry d hd
  | range lo hi h =>
    intro entry hentry d hd
    obtain hkey | hkey | hentry := key_of_mem_addRange hentry
    · obtain rfl : lo = d := WithBot.coe_inj.mp (hkey.symm.trans hd)
      exact hop.1
    · obtain rfl : hi = d := WithBot.coe_inj.mp (hkey.symm.trans hd)
      exact hop.2
    · exact he entry hentry d hd
  | after lo =>
    intro entry hentry d hd
    obtain hkey | hentry := key_of_mem_startAt hentry
    · obtain rfl : lo = d := WithBot.coe_inj.mp (hkey.symm.trans hd)
      exact hop
    · exact he entry (mem_of_mem_notAbove hentry) d hd

theorem run_allOf {P : Component → Prop} {e : Exclude} {ops : List Op} (he : AllOf P e.entries)
    (hops : ∀ op ∈ ops, op.Names P) : AllOf P (e.run ops).entries := by
  induction ops generalizing e with
  | nil => exact he
  | cons op ops ih =>
    have hstep := step_allOf he (hops op List.mem_cons_self)
    exact ih hstep (fun op' hop' => hops op' (List.mem_cons_of_mem op hop'))

/-- the entries above a bound are compared as the source compares them -/
theorem below_above_iff {e : Exclude} (he : AllOf Component.Comparable e.entries) {z : Component} (hz : z.Comparable)
    (lo : WithBot Component) : (∀ entry ∈ above lo e.entries, (z : WithBot Component) < entry.1) ↔
      AllOf (fun c => z.compare c < 0) (above lo e.entries) := by
  constructor
  · intro h entry hentry c hc
    have hlt := h entry hentry
    rw [hc, WithBot.coe_lt_coe] at hlt
    exact (Component.lt_iff_compare hz (he entry (mem_of_mem_above hentry) c hc)).mp hlt
  · intro h entry hentry
    obtain ⟨c, hc⟩ := WithBot.ne_bot_iff_exists.mp (ne_bot_of_gt (lt_of_mem_above hentry))
    rw [← hc, WithBot.coe_lt_coe]
    exact (Component.lt_iff_compare hz (he entry (mem_of_mem_above hentry) c hc.symm)).mpr (h entry hentry c hc.symm)

theorem addRange_exact_iff {e : Exclude} (he : AllOf Component.Comparable e.entries) {lo : WithBot Component}
    {hi : Component} (hhi : hi.Comparable) (h : lo < hi) :
    (∀ z : Component, z.Comparable → (mem z (addRange lo hi e.entries) = true ↔
      mem z e.entries = true ∨ lo ≤ (z : WithBot Component) ∧ z ≤ hi)) ↔ ¬ e.CutsAt lo hi := by
  constructor
  · rintro hexact ⟨hswallowed, z, hz, hbehind, hbelow⟩
    have hlt : hi < z := (Component.lt_iff_compare hhi hz).mpr hbehind
    have habove := (below_above_iff he hz lo).mpr hbelow
    have hout := mem_addRange e.wf h z
    have hin : mem z e.entries = true := by
      -- the lower bound of `z` is that of `lo`, and its range is open
      obtain ⟨hmid, first, rest, hfirst, hopen⟩ := hswallowed
      have hlo := le_notAbove e.wf lo first (by rw [hfirst]; exact List.mem_cons_self)
      rw [← above_append_notAbove lo e.entries, mem_append_right habove, hfirst,
        mem_cons_of_le (hlo.trans (h.le.trans (WithBot.coe_le_coe.mpr hlt.le))), holds, hopen]
      rfl
    have hafter := (hexact z hz).mpr (.inl hin)
    exact (hout.mp hafter).2 ⟨hswallowed, hlt, habove⟩
  · intro hnot z hz
    rw [mem_addRange e.wf h z]
    constructor
    · exact And.left
    · intro hz'
      refine ⟨hz', ?_⟩
      rintro ⟨hswallowed, hlt, habove⟩
      exact hnot ⟨hswallowed, z, hz, (Component.lt_iff_compare hhi hz).mp hlt, (below_above_iff he hz lo).mp habove⟩

/-- One call excludes just what it was asked for besides what was excluded, unless it cuts. -/
theorem step_exact_iff {e : Exclude} (he : AllOf Component.Comparable e.entries) {op : Op}
    (hop : op.Names Component.Comparable) :
    (∀ z : Component, z.Comparable → ((e.step op).isExcluded z = true ↔ e.isExcluded z = true ∨ op.Asks z)) ↔
      ¬ e.Cuts op := by
  cases op with
  | one c =>
    simp only [Cuts, not_false_eq_true, iff_true]
    intro z _
    rw [step, excludeOne]
    split
    · next hc =>
      constructor
      · exact .inl
      · rintro (h | rfl)
        · exact h
        · exact hc
    · next hc =>
      have hc : mem c e.entries = false := by simpa [isExcluded] using hc
      simp [isExcluded, mem_insert e.wf hc z, Op.Asks]
  | before hi =>
    rw [Cuts, ← addRange_exact_iff he hop (WithBot.bot_lt_coe hi)]
    refine forall₂_congr fun z hz => ?_
    rw [Op.Asks, ← Component.le_iff_compare hz hop]
    simp [step, excludeBefore, isExcluded]
  | range lo hi hlt =>
    rw [Cuts, ← addRange_exact_iff he hop.2 (WithBot.coe_lt_coe.mpr hlt)]
    refine forall₂_congr fun z hz => ?_
    rw [Op.Asks, ← Component.le_iff_compare hop.1 hz, ← Component.le_iff_compare hz hop.2]
    simp [step, isExcluded]
  | after lo =>
    simp only [Cuts, not_false_eq_true, iff_true]
    intro z hz
    rw [Op.Asks, ← Component.le_iff_compare hop hz]
    simp [step, excludeAfter, isExcluded, mem_addAfter e.wf lo z]

theorem run_concat (e : Exclude) (ops : List Op) (op : Op) : e.run (ops ++ [op]) = (e.run ops).step op := by
  simp [run]

/-- what the calls ask for, the last of them apart -/
theorem asks_concat {P : Prop} {z : Component} {done : List Op} {op : Op} :
    (P ∨ ∃ op' ∈ done ++ [op], op'.Asks z) ↔ (P ∨ ∃ op' ∈ done, op'.Asks z) ∨ op.Asks z := by
  simp only [List.mem_append, List.mem_singleton]
  constructor
  · rintro (h | ⟨op', h | rfl, hasks⟩)
    · exact .inl (.inl h)
    · exact .inl (.inr ⟨op', h, hasks⟩)
    · exact .inr hasks
  · rintro ((h | ⟨op', h, hasks⟩) | hasks)
    · exact .inl h
    · exact .inr ⟨op', .inl h, hasks⟩
    · exact .inr ⟨op, .inr rfl, hasks⟩

/-- **What a run excludes.** After every call exactly what was excluded at first or asked for so far, if and only if no
call of the run cuts. -/
theorem isExcluded_exact_iff {e : Exclude} (he : AllOf Component.Comparable e.entries) {ops : List Op}
    (hops : ∀ op ∈ ops, op.Names Component.Comparable) :
    (∀ done, done <+: ops → ∀ z : Component, z.Comparable → ((e.run done).isExcluded z = true ↔
      e.isExcluded z = true ∨ ∃ op ∈ done, op.Asks z)) ↔
    ∀ done op, done ++ [op] <+: ops → ¬ (e.run done).Cuts op := by
  have hstep : ∀ {done : List Op} {op : Op}, done ++ [op] <+: ops →
      ((∀ z : Component, z.Comparable → (((e.run done).step op).isExcluded z = true ↔
        (e.run done).isExcluded z = true ∨ op.Asks z)) ↔ ¬ (e.run done).Cuts op) := by
    intro done op hbegin
    have hmem : ∀ op' ∈ done ++ [op], op'.Names Component.Comparable :=
      fun op' hop' => hops op' (hbegin.subset hop')
    exact step_exact_iff (run_allOf he fun op' hop' => hmem op' (List.mem_append_left _ hop')) (hmem op (by simp))
  constructor
  · intro hexact done op hbegin
    rw [← hstep hbegin]
    intro z hz
    have hbefore := hexact done ((List.prefix_append done [op]).trans hbegin) z hz
    have hafter := hexact (done ++ [op]) hbegin z hz
    rw [run_concat] at hafter
    rw [hafter, hbefore, asks_concat]
  · intro hnone done
    induction done using List.reverseRecOn with
    | nil =>
      intro _ z _
      simp [run]
    | append_singleton done op ih =>
      intro hbegin z hz
      have hbefore := ih ((List.prefix_append done [op]).trans hbegin) z hz
      have hone := (hstep hbegin).mpr (hnone done op hbegin) z hz
      rw [run_concat, hone, hbefore, asks_concat]

/-- `a`, then `b` to `c` -/
def oneAndRange : List Op :=
  [.one (Component.generic [97]), .range (Component.generic [98]) (Component.generic [99]) (by decide)]

/-- nothing is open before the range, and exactly what was asked for is excluded -/
theorem isExcluded_exact_abc : (new.run oneAndRange).isExcluded (Component.generic [98]) = true ∧
    ∀ z : Component, z.Comparable → ((new.run oneAndRange).isExcluded z = true ↔ ∃ op ∈ oneAndRange, op.Asks z) := by
  have hnew : AllOf Component.Comparable new.entries := fun entry hentry => absurd hentry List.not_mem_nil
  have hops : ∀ op ∈ oneAndRange, op.Names Component.Comparable := by
    intro op hop
    simp only [oneAndRange, List.mem_cons, List.not_mem_nil, or_false] at hop
    rcases hop with rfl | rfl
    · exact ⟨by decide, by decide⟩
    · exact ⟨⟨by decide, by decide⟩, ⟨by decide, by decide⟩⟩
  have hcuts : ∀ done op, done ++ [op] <+: oneAndRange → ¬ (new.run done).Cuts op := by
    rintro done op ⟨rest, hrest⟩ hcut
    rcases done with _ | ⟨first, _ | ⟨second, done⟩⟩
    · obtain ⟨rfl, -⟩ := List.cons.inj hrest
      exact hcut
    · obtain ⟨rfl, htail⟩ := List.cons.inj hrest
      obtain ⟨hop, -⟩ := List.cons.inj htail
      subst hop
      obtain ⟨⟨-, e, others, hfirst, hopen⟩, -⟩ := hcut
      have hmark : notAbove ((Component.generic [98] : Component) : WithBot Component)
          (new.run [.one (Component.generic [97])]).entries = [((Component.generic [97] : WithBot Component), false)] := by
        decide
      rw [hmark] at hfirst
      obtain ⟨rfl, -⟩ := List.cons.inj hfirst
      cases hopen
    · have hlen := congrArg List.length hrest
      simp [oneAndRange] at hlen
  refine ⟨by decide, fun z hz => ?_⟩
  have hexact := (isExcluded_exact_iff hnew hops).mpr hcuts oneAndRange (List.prefix_refl _) z hz
  have hnone : new.isExcluded z = false := rfl
  rw [hexact, hnone]
  simp

/-- `b` to `c` inside everything: `d` is no longer excluded -/
example : ((new.excludeAfter (Component.generic [97])).excludeRange (Component.generic [98]) (Component.generic [99])).map
    (fun e => (e.isExcluded (Component.generic [98]), e.isExcluded (Component.generic [100]))) = .ok (true, false) := by
  decide

/-! ## The wire -/

/-- the elements of an entry: the component, and `Any` for the open range -/
def items (entry : Mark Component) : List Component :=
  (match entry.1 with
    | ⊥ => []
    | (c : Component) => [c]) ++ if entry.2 then [⟨tlvAny, []⟩] else []

/-- the elements of the selector, the smallest component first -/
def allItems (entries : List (Mark Component)) : List Component := entries.reverse.flatMap items

/-- components that `Component(wire)` takes -/
abbrev Accepted (entries : List (Mark Component)) : Prop := AllOf Component.Accepted entries

section Writes

variable {σ : Type} {E : EncodingImpl σ} {R : σ → Bytes → Prop} (hE : LawfulFront E R)

include hE

theorem adds_encodeEntry (entry : Mark Component) :
    Adds R (encodeEntry E entry) 0 ((items entry).flatMap Component.wire) [] := by
  obtain ⟨k, any⟩ := entry
  have hany := adds_prependIf any (fun _ => adds_prependEmptyBlock hE tlvAny)
  cases k with
  | bot =>
    refine adds_bind hany (adds_bind (adds_pure rfl) (adds_pure ?_) rfl rfl) ?_ rfl
    · simp
    · cases any <;> simp [items, Component.wire]
  | coe c =>
    refine adds_bind hany (adds_bind (Name.adds_component hE c) (adds_pure ?_) rfl rfl) ?_ rfl
    · simp
    · cases any <;> simp [items, Component.wire]

theorem adds_wireEncodeWith (e : Exclude) :
    Adds R (wireEncodeWith E e) 0 (Block.write tlvExclude ((allItems e.entries).flatMap Component.wire)) [] := by
  have hall : Adds R (Name.prependAll (encodeEntry E) e.entries.reverse) 0
      (e.entries.reverse.flatMap (fun entry => (items entry).flatMap Component.wire)) [] :=
    Name.adds_prependAll (fun entry _ => adds_encodeEntry hE entry)
  rw [← List.flatMap_assoc] at hall
  exact adds_prependHeader hE tlvExclude hall

end Writes

theorem types_items {entries : List (Mark Component)} (h : Accepted entries) : Name.Types (allItems entries) := by
  intro c hc
  obtain ⟨⟨k, any⟩, hentry, hc⟩ := List.mem_flatMap.mp hc
  have hentry := List.mem_reverse.mp hentry
  rw [items] at hc
  obtain hc | hc := List.mem_append.mp hc
  · cases k with
    | bot => cases hc
    | coe d =>
      obtain rfl := List.mem_singleton.mp hc
      exact (h _ hentry c rfl).type_le
  · split at hc
    · obtain rfl := List.mem_singleton.mp hc
      show tlvAny ≤ maxType
      decide
    · cases hc

/-- a component is not taken for `Any` -/
theorem ne_any {c : Component} (h : c.Accepted) : c.type ≠ tlvAny := by
  obtain h | h := h
  · have htype : c.type = Component.tlvNameComponent := by simpa [Component.isGeneric] using h
    rw [htype]
    decide
  · simp only [Component.isImplicitSha256Digest, Bool.and_eq_true, beq_iff_eq] at h
    rw [h.1]
    decide

/-- ascending entries behind smaller ones: they go in front one by one -/
theorem decodeEntries_items {ascending : List (Component × Bool)} {m : { entries : List (Mark Component) // WF entries }}
    (haccepted : ∀ entry ∈ ascending, entry.1.Accepted)
    (hsorted : ascending.Pairwise (fun a b => a.1 < b.1))
    (hm : ∀ entry ∈ ascending, ∀ e ∈ m.1, e.1 < (entry.1 : WithBot Component)) :
    ∃ m', decodeEntries (ascending.flatMap (fun entry => items (entry.1, entry.2))) m = .ok m' ∧
      m'.1 = (ascending.map (fun entry => ((entry.1 : WithBot Component), entry.2))).reverse ++ m.1 := by
  induction ascending generalizing m with
  | nil => exact ⟨m, rfl, rfl⟩
  | cons entry ascending ih =>
    obtain ⟨c, any⟩ := entry
    have hc : c.Accepted := haccepted _ List.mem_cons_self
    obtain ⟨hlt, hrest⟩ := List.pairwise_cons.mp hsorted
    have hfront : (appendEntry (c : WithBot Component) any (by simp) m).1 = ((c : WithBot Component), any) :: m.1 :=
      insert_of_lt (hm _ List.mem_cons_self) any
    have hbelow : ∀ entry ∈ ascending, ∀ e ∈ (appendEntry (c : WithBot Component) any (by simp) m).1,
        e.1 < (entry.1 : WithBot Component) := by
      intro entry hentry e he
      rw [hfront] at he
      obtain rfl | he := List.mem_cons.mp he
      · exact WithBot.coe_lt_coe.mpr (hlt entry hentry)
      · exact hm entry (List.mem_cons_of_mem _ hentry) e he
    obtain ⟨m', hm', hentries⟩ := ih (fun entry hentry => haccepted entry (List.mem_cons_of_mem _ hentry)) hrest hbelow
    refine ⟨m', ?_, ?_⟩
    · rw [List.flatMap_cons, ← hm']
      cases any with
      | true => simp [items, decodeEntries, hc]
      | false =>
        cases ascending with
        | nil => simp [items, decodeEntries, hc]
        | cons next ascending =>
          have hnext : next.1.type ≠ tlvAny :=
            ne_any (haccepted next (List.mem_cons_of_mem _ List.mem_cons_self))
          simp [items, decodeEntries, hc, hnext]
    · rw [hentries, hfront]
      simp

/-- marks without one at `⊥` -/
theorem exists_components {marks : List (Mark Component)} (h : ∀ e ∈ marks, e.1 ≠ ⊥) :
    ∃ components : List (Component × Bool), marks = components.map (fun p => ((p.1 : WithBot Component), p.2)) := by
  induction marks with
  | nil => exact ⟨[], rfl⟩
  | cons e marks ih =>
    obtain ⟨components, hcomponents⟩ := ih (fun e' he' => h e' (List.mem_cons_of_mem e he'))
    obtain ⟨c, hc⟩ := WithBot.ne_bot_iff_exists.mp (h e List.mem_cons_self)
    exact ⟨(c, e.2) :: components, by rw [List.map_cons, ← hcomponents, hc]⟩

theorem decodeEntries_marks {ascending : List (Mark Component)} {m : { entries : List (Mark Component) // WF entries }}
    (haccepted : Accepted ascending) (hbot : ∀ e ∈ ascending, e.1 ≠ ⊥)
    (hsorted : ascending.Pairwise (fun a b => a.1 < b.1)) (hm : ∀ a ∈ ascending, ∀ e ∈ m.1, e.1 < a.1) :
    ∃ m', decodeEntries (ascending.flatMap items) m = .ok m' ∧ m'.1 = ascending.reverse ++ m.1 := by
  obtain ⟨components, rfl⟩ := exists_components hbot
  have haccepted' : ∀ entry ∈ components, entry.1.Accepted := by
    intro entry hentry
    exact haccepted _ (List.mem_map_of_mem hentry) entry.1 rfl
  have hsorted' : components.Pairwise (fun a b => a.1 < b.1) := by
    rw [List.pairwise_map] at hsorted
    exact hsorted.imp (fun h => WithBot.coe_lt_coe.mp h)
  have hitems := decodeEntries_items haccepted' hsorted' (fun entry hentry => hm _ (List.mem_map_of_mem hentry))
  rwa [List.flatMap_map]

theorem decodeElements_items {entries : List (Mark Component)} (hwf : WF entries) (hne : entries ≠ [])
    (haccepted : Accepted entries) : ∃ m, decodeElements (allItems entries) = .ok m ∧ m.1 = entries := by
  have hreverse : entries.reverse.Pairwise (fun a b => a.1 < b.1) := List.pairwise_reverse.mpr hwf.1
  have haccepted' : Accepted entries.reverse := fun e he => haccepted e (List.mem_reverse.mp he)
  have hbotOpen : ∀ e ∈ entries.reverse, e.1 = ⊥ → e.2 = true := fun e he => hwf.2 e (List.mem_reverse.mp he)
  have hback : entries = entries.reverse.reverse := entries.reverse_reverse.symm
  rw [allItems]
  cases hr : entries.reverse with
  | nil => exact absurd (List.reverse_eq_nil_iff.mp hr) hne
  | cons first rest =>
    rw [hr] at hreverse haccepted' hbotOpen hback
    obtain ⟨hfirst, hrest⟩ := List.pairwise_cons.mp hreverse
    have hrestBot : ∀ e ∈ rest, e.1 ≠ ⊥ := fun e he => ne_bot_of_gt (hfirst e he)
    by_cases hbot : first.1 = ⊥
    · -- `Any` at the front
      have hmark : first = (⊥, true) := Prod.ext hbot (hbotOpen first List.mem_cons_self hbot)
      subst hmark
      have hstart : (appendEntry ⊥ true (fun _ => rfl) ⟨[], new.wf⟩).1 = [((⊥ : WithBot Component), true)] := rfl
      obtain ⟨m, hm, hentries⟩ := decodeEntries_marks (m := appendEntry ⊥ true (fun _ => rfl) ⟨[], new.wf⟩)
        (fun e he => haccepted' e (List.mem_cons_of_mem _ he)) hrestBot hrest
        (fun a ha e he => by
          rw [hstart] at he
          obtain rfl := List.mem_singleton.mp he
          exact hfirst a ha)
      refine ⟨m, ?_, ?_⟩
      · rw [List.flatMap_cons]
        exact hm
      · rw [hentries, hstart, hback, List.reverse_cons]
    · have hall : ∀ e ∈ first :: rest, e.1 ≠ ⊥ := by
        intro e he
        obtain rfl | he := List.mem_cons.mp he
        · exact hbot
        · exact hrestBot e he
      obtain ⟨m, hm, hentries⟩ := decodeEntries_marks (m := ⟨[], new.wf⟩) haccepted' hall hreverse
        (fun _ _ _ he => by cases he)
      refine ⟨m, ?_, ?_⟩
      · rw [← hm]
        obtain ⟨c, hc⟩ := WithBot.ne_bot_iff_exists.mp hbot
        have hcaccepted := haccepted' first List.mem_cons_self c hc.symm
        obtain ⟨k, any⟩ := first
        simp only at hc
        subst hc
        have hitem : ∃ others, ((((c : WithBot Component), any) :: rest).flatMap items) = c :: others := by
          cases any <;> simp [items]
        obtain ⟨others, hothers⟩ := hitem
        rw [hothers, decodeElements, if_neg (ne_any hcaccepted)]
      · rw [hentries, hback, List.append_nil]

/-! ### Whole histories -/

/-- The invariant of a selector: components that can be sent, and a wire that decodes to the entries. -/
structure Coherent (e : Exclude) : Prop where
  accepted : Accepted e.entries
  kept : ∀ b, e.wire = some b →
    (∀ msg rest, Block.readElement msg (b.wire ++ rest) = .ok (Block.ofWire tlvExclude b.wire b.value, rest)) ∧
      ∃ d, wireDecode (Block.ofWire tlvExclude b.wire b.value) = .ok d ∧ d.entries = e.entries

inductive WireOp where
  | exclude (op : Op)
  | decode (wire : Block)
  | encode

/-- components that can be sent and whose sizes fit an `int`, a block as it is read whose size does -/
def WireOp.Valid : WireOp → Prop
  | .exclude op => op.Names Component.Accepted ∧ op.Names Component.Comparable
  | .decode wire => wire.Read ∧ wire.wire.length < 2 ^ 31
  | .encode => True

def stepWire (e : Exclude) : WireOp → Except String Exclude
  | .exclude op => .ok (e.step op)
  | .decode wire => wireDecode wire
  | .encode => e.wireEncode

def runWire (e : Exclude) : List WireOp → Except String Exclude
  | [] => .ok e
  | op :: ops =>
    match e.stepWire op with
    | .error err => .error err
    | .ok e' => e'.runWire ops

theorem new_coherent : new.Coherent := by
  refine ⟨?_, ?_⟩
  · intro entry hentry
    cases hentry
  · intro b hb
    cases hb

theorem step_coherent {e : Exclude} {op : Op} (he : e.Coherent) (hop : op.Names Component.Accepted) :
    (e.step op).Coherent := by
  refine ⟨step_allOf he.accepted hop, ?_⟩
  intro b hb
  cases op with
  | one c =>
    rw [step, excludeOne] at hb ⊢
    split at hb
    · next hc =>
      rw [if_pos hc]
      exact he.kept b hb
    · cases hb
  | before hi => cases hb
  | range lo hi h => cases hb
  | after lo => cases hb

theorem accepted_appendEntry {m : { entries : List (Mark Component) // WF entries }} {k : WithBot Component} {any : Bool}
    {hbot : k = ⊥ → any = true} (hm : Accepted m.1) (hk : ∀ c : Component, k = (c : WithBot Component) → c.Accepted) :
    Accepted (appendEntry k any hbot m).1 := by
  intro entry hentry d hd
  obtain hkey | hentry := key_of_mem_insert hentry
  · exact hk d (hkey.symm.trans hd)
  · exact hm entry hentry d hd

theorem accepted_decodeEntries (cs : List Component) {m m' : { entries : List (Mark Component) // WF entries }}
    (hm : Accepted m.1) (h : decodeEntries cs m = .ok m') : Accepted m'.1 := by
  have hself : ∀ {c : Component}, c.Accepted → ∀ d : Component, (c : WithBot Component) = d → d.Accepted := by
    intro c hc d hd
    obtain rfl := WithBot.coe_inj.mp hd
    exact hc
  induction cs, m using decodeEntries.induct with
  | case1 m =>
    cases h
    exact hm
  | case2 m c hc =>
    rw [decodeEntries, if_pos hc] at h
    cases h
    exact accepted_appendEntry hm (hself hc)
  | case3 m c hc =>
    rw [decodeEntries, if_neg hc] at h
    cases h
  | case4 m c next rest hc hnext ih =>
    rw [decodeEntries, if_pos hc, if_pos hnext] at h
    exact ih (accepted_appendEntry hm (hself hc)) h
  | case5 m c next rest hc hnext ih =>
    rw [decodeEntries, if_pos hc, if_neg hnext] at h
    exact ih (accepted_appendEntry hm (hself hc)) h
  | case6 m c next rest hc =>
    rw [decodeEntries, if_neg hc] at h
    cases h

theorem accepted_decodeElements {cs : List Component} {m : { entries : List (Mark Component) // WF entries }}
    (h : decodeElements cs = .ok m) : Accepted m.1 := by
  have hnew : Accepted ([] : List (Mark Component)) := fun entry hentry => by cases hentry
  cases cs with
  | nil => cases h
  | cons first rest =>
    rw [decodeElements] at h
    split at h
    · exact accepted_decodeEntries rest (accepted_appendEntry hnew (fun c hc => by cases hc)) h
    · exact accepted_decodeEntries _ hnew h

theorem wireDecode_coherent {b : Block} {e : Exclude} (hread : b.Read) (h : wireDecode b = .ok e) : e.Coherent := by
  have hdecode := h
  rw [wireDecode] at h
  split at h
  · cases h
  · next htype =>
    have htype : b.type = tlvExclude := not_not.mp htype
    have heq := hread.eq_ofWire
    rw [htype] at heq
    split at h
    · cases h
    · next b' hparse =>
      cases helements : decodeElements (b'.subBlocks.map Component.ofBlock) with
      | error err => simp [helements, Except.map] at h
      | ok m =>
        simp only [helements, Except.map, Except.ok.injEq] at h
        subst h
        obtain ⟨found, -, rfl⟩ := Block.parse_ok hread.1 hparse
        refine ⟨accepted_decodeElements helements, ?_⟩
        intro b'' hb''
        cases hb''
        refine ⟨?_, _, ?_, rfl⟩
        · intro msg rest
          exact (hread.2 msg rest).trans (congrArg (fun c => Except.ok (c, rest)) heq)
        · exact (congrArg wireDecode heq).symm.trans hdecode

/-- the elements in the value decode to the entries -/
theorem wireDecode_of_holds {entries : List (Mark Component)} {value wire : Bytes} (hwf : WF entries)
    (hne : entries ≠ []) (haccepted : Accepted entries) (h : Name.Holds value (allItems entries)) :
    ∃ d, wireDecode (Block.ofWire tlvExclude wire value) = .ok d ∧ d.entries = entries := by
  obtain ⟨found, hall, hfound⟩ := h
  have hparse := Block.parse_of_found (b := Block.ofWire tlvExclude wire value) rfl hall
  obtain ⟨m, hm, hentries⟩ := decodeElements_items hwf hne haccepted
  refine ⟨⟨m.1, m.2, some { Block.ofWire tlvExclude wire value with subBlocks := found }⟩, ?_, hentries⟩
  rw [wireDecode, if_neg (by simp [Block.ofWire]), hparse]
  simp only [hfound, hm]
  rfl

theorem wireEncode_coherent {e e' : Exclude} (he : e.Coherent) (h : e.wireEncode = .ok e') :
    e'.Coherent ∧ e'.entries = e.entries := by
  rw [wireEncode] at h
  split_ifs at h with hkept hempty
  · cases h
    exact ⟨he, rfl⟩
  · cases hblock : encodeBlock (fun E => wireEncodeWith E e) with
    | error err => simp [hblock, Except.map] at h
    | ok b =>
      simp only [hblock, Except.map, Except.ok.injEq] at h
      subst h
      obtain ⟨hlen, rfl⟩ := encodeBlock_ok (fun _ _ hE => adds_wireEncodeWith hE e) (by decide) hblock
      refine ⟨⟨he.accepted, ?_⟩, rfl⟩
      intro b hb
      cases hb
      refine ⟨fun msg rest => Block.readElement_write (by decide) hlen msg rest, ?_⟩
      exact wireDecode_of_holds e.wf hempty he.accepted (Name.holds_wires (types_items he.accepted) hlen)

theorem runWire_coherent {e e' : Exclude} {ops : List WireOp} (he : e.Coherent) (hops : ∀ op ∈ ops, op.Valid)
    (h : e.runWire ops = .ok e') : e'.Coherent := by
  induction ops generalizing e with
  | nil =>
    cases h
    exact he
  | cons op ops ih =>
    rw [runWire] at h
    split at h
    · cases h
    · next e'' hstep =>
      have hop := hops op List.mem_cons_self
      have he'' : e''.Coherent := by
        cases op with
        | exclude op =>
          cases hstep
          exact step_coherent he hop.1
        | decode wire => exact wireDecode_coherent hop.1 hstep
        | encode => exact (wireEncode_coherent he hstep).1
      exact ih he'' (fun op' hop' => hops op' (List.mem_cons_of_mem op hop')) h

/-- a selector off the front of a buffer -/
def ofBytes (bs : Bytes) : Except String Exclude :=
  match Block.ofBuffer bs with
  | .error err => .error err
  | .ok b => wireDecode b

/-- **The wire is never stale.** After any calls that threw nothing, and with any bytes behind it: the wire that a selector
with entries gives decodes to these entries. -/
theorem exclude_wire {ops : List WireOp} {e : Exclude} (hops : ∀ op ∈ ops, op.Valid) (hrun : new.runWire ops = .ok e)
    (hne : e.entries ≠ []) (hlen : Uint64 ((allItems e.entries).flatMap Component.wire).length) :
    ∃ e' b, e.wireEncode = .ok e' ∧ e'.entries = e.entries ∧ e'.wire = some b ∧
      ∀ rest, ∃ d, ofBytes (b.wire ++ rest) = .ok d ∧ d.entries = e.entries := by
  have he := runWire_coherent new_coherent hops hrun
  have hencodes : ∃ e' b, e.wireEncode = .ok e' ∧ e'.wire = some b := by
    rw [wireEncode]
    split_ifs with hkept
    · cases hb : e.wire with
      | none =>
        rw [hb] at hkept
        cases hkept
      | some b => exact ⟨e, b, rfl, hb⟩
    · rw [encodeBlock_eq (fun _ _ hE => adds_wireEncodeWith hE e) (by decide) hlen]
      exact ⟨_, _, rfl, rfl⟩
  obtain ⟨e', b, he', hb⟩ := hencodes
  obtain ⟨hcoherent, hsame⟩ := wireEncode_coherent he he'
  refine ⟨e', b, he', hsame, hb, ?_⟩
  intro rest
  obtain ⟨hread, d, hd, hentries⟩ := hcoherent.kept b hb
  refine ⟨d, ?_, hentries.trans hsame⟩
  rw [ofBytes, Block.ofBuffer, hread]
  exact hd

/-- everything from `/b` on, encoded, then `/a` too -/
theorem exclude_wire_ab :
    ∃ e' b, ((new.excludeAfter (Component.generic [98])).excludeOne (Component.generic [97])).wireEncode = .ok e' ∧
      e'.entries = [((Component.generic [98] : WithBot Component), true),
        ((Component.generic [97] : WithBot Component), false)] ∧
      e'.wire = some b ∧
      ∀ rest, ∃ d, ofBytes (b.wire ++ rest) = .ok d ∧
        d.entries = [((Component.generic [98] : WithBot Component), true),
          ((Component.generic [97] : WithBot Component), false)] :=
  @exclude_wire [.exclude (.after (Component.generic [98])), .encode, .exclude (.one (Component.generic [97]))]
    ((new.excludeAfter (Component.generic [98])).excludeOne (Component.generic [97]))
    (by
      intro op hop
      simp only [List.mem_cons, List.not_mem_nil, or_false] at hop
      obtain rfl | rfl | rfl := hop
      · exact ⟨.inl rfl, by decide, by decide⟩
      · trivial
      · exact ⟨.inl rfl, by decide, by decide⟩)
    (by rfl) (by decide) (by unfold Uint64; decide)

end Exclude

end NdnDash.Wire
