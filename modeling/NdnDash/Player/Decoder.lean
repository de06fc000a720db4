/-
Model of what the decoder reads: `MediaObjectDecoder` (`MediaObjectDecoder.cpp`) on the streams of an initialization
segment and a media segment that have both been downloaded.

Before `Start` has set `decoderInitialized`, a read peeks the initialization segment at a running offset and falls over
to the media segment when there is nothing left; after it, every read goes to the media segment. `left` is the number of
reads still to come before `Start` sets the flag.

- `SlipFree`: every peek at an offset strictly inside the initialization segment ends at the end of its first block
  (other such peeks meet the offset slip of `BlockQueuePeekBytes`).
- `reads_init_then_media`: then the reads up to the first 0 return the bytes of the initialization segment asked for
  before the flag was set (all of it, unless the flag cuts it short), and after them the media segment.

Witness: `flag_before_first_read` (the flag is set first: the initialization segment is not read at all).
-/
import NdnDash.Core.Drain
import NdnDash.Network.Chunk

namespace NdnDash.Player

open NdnDash.Drain

/-! ## Model -/

/-- `MediaObjectDecoder`: the segments by their streams, NULL as `none` -/
structure Decoder where
  initSegment : Option SyncedBlockStream
  mediaSegment : SyncedBlockStream
  decoderInitialized : Bool
  initSegmentOffset : ℕ

namespace Decoder

/-- `this->mediaSegment->Read(buf, buf_size)` -/
def readMedia (d : Decoder) (bufSize : ℕ) (buf : ℕ → UInt8) : Option (ℤ × (ℕ → UInt8) × Decoder) :=
  (Chunk.read d.mediaSegment bufSize).map fun r => (r.1, Memory.write buf 0 r.2.1, { d with mediaSegment := r.2.2 })

/-- `Read(buf, buf_size)`: the result, the buffer after it, the decoder after it; `none` while it sleeps -/
def read (d : Decoder) (bufSize : ℕ) (buf : ℕ → UInt8) : Option (ℤ × (ℕ → UInt8) × Decoder) :=
  match d.decoderInitialized, d.initSegment with
  | false, some initSegment =>
    (Chunk.peek initSegment bufSize d.initSegmentOffset buf).bind fun r =>
      let d := { d with initSegmentOffset := d.initSegmentOffset + (r.1 % 2 ^ 64).toNat }
      if r.1 = 0 then d.readMedia bufSize r.2 else some (r.1, r.2, d)
  | _, _ => d.readMedia bufSize buf

/-- what a `Read` into a buffer that held `buf` writes; `Start` sets the flag before it when no read is left -/
def readBlock (buf : ℕ → UInt8) (s : Decoder × ℕ) (bufSize : ℕ) : Option (Bytes × (Decoder × ℕ)) :=
  let d := if s.2 = 0 then { s.1 with decoderInitialized := true } else s.1
  (d.read bufSize buf).map fun r => (Memory.read r.2.1 0 r.1.toNat, (r.2.2, s.2 - 1))

/-- the bytes of the initialization segment -/
def initBytes (d : Decoder) : Bytes := (d.initSegment.map fun i => i.content).getD []

/-- the length of its first block -/
def firstBlock (d : Decoder) : ℕ := (d.initSegment.bind fun i => i.blockqueue.head?.map List.length).getD 0

/-- a segment that has been downloaded -/
def Downloaded (b : SyncedBlockStream) : Prop := b.Counted ∧ b.eos = true

/-- both segments have been downloaded, and the offset is inside the initialization segment -/
structure Ready (d : Decoder) : Prop where
  init : ∀ i, d.initSegment = some i → Downloaded i
  media : Downloaded d.mediaSegment
  offset : d.initSegmentOffset ≤ d.initBytes.length

end Decoder

/-- the sum of the first `n` lengths -/
def total (lens : ℕ → ℕ) (n : ℕ) : ℕ := ((List.range n).map lens).sum

@[simp] theorem total_zero (lens : ℕ → ℕ) : total lens 0 = 0 := rfl

theorem total_succ (lens : ℕ → ℕ) (n : ℕ) : total lens (n + 1) = lens 0 + total (later lens) n := by
  simp only [total, List.range_succ_eq_map, List.map_cons, List.map_map, List.sum_cons]
  rfl

namespace Decoder

/-- every peek at an offset strictly inside the initialization segment, before the flag is set, ends at the end of the
segment's first block -/
def SlipFree (d : Decoder) (lens : ℕ → ℕ) (left : ℕ) : Prop :=
  ∀ n, n < left → d.initSegmentOffset + total lens n = 0 ∨ d.initBytes.length ≤ d.initSegmentOffset + total lens n ∨
    min (d.initSegmentOffset + total lens (n + 1)) d.initBytes.length = d.firstBlock ∧ d.firstBlock < 2 ^ 32

/-- what is still to be read: the initialization segment as far as it is asked for before the flag is set, then the
media segment -/
def pending (s : Decoder × ℕ) (lens : ℕ → ℕ) : Bytes :=
  (s.1.initBytes.drop s.1.initSegmentOffset).take (total lens s.2) ++ s.1.mediaSegment.content

/-- buffer sizes are positive `int`s -/
def SizesOk (lens : ℕ → ℕ) : Prop := ∀ n, 0 < lens n ∧ lens n < 2 ^ 31

/-- the states the reads go through; the flag is set when no read is left -/
structure ReadOk (s : Decoder × ℕ) (lens : ℕ → ℕ) : Prop where
  ready : s.1.Ready
  flag : s.1.decoderInitialized = true → s.2 = 0
  sizes : SizesOk lens
  slipFree : s.1.SlipFree lens s.2

/-! ## One read -/

variable {d : Decoder} {lens : ℕ → ℕ}

theorem readMedia_spec (h : Downloaded d.mediaSegment) {bufSize : ℕ} (hsize : bufSize < 2 ^ 31) (buf : ℕ → UInt8) :
    ∃ ret buf' m, d.readMedia bufSize buf = some (ret, buf', { d with mediaSegment := m }) ∧
      Memory.read buf' 0 ret.toNat = d.mediaSegment.content.take bufSize ∧
        m.content = d.mediaSegment.content.drop bufSize ∧ Downloaded m := by
  obtain ⟨m, hr, hc, hm, he⟩ := Chunk.read_spec h.1 (lt_of_le_of_lt (min_le_left bufSize _) hsize)
    (by simp [SyncedBlockStream.sleeps, h.2])
  have hlen : (d.mediaSegment.content.take bufSize).length = min bufSize d.mediaSegment.length := by
    rw [List.length_take]
    exact congrArg (min bufSize ·) h.1.symm
  have hw := Memory.read_write buf 0 (d.mediaSegment.content.take bufSize)
  rw [hlen] at hw
  exact ⟨_, _, m, by rw [readMedia, hr]; rfl, by rw [Int.toNat_natCast, hw], hc, hm, he.trans h.2⟩

theorem peek_end {i : SyncedBlockStream} (hi : Downloaded i) {offset : ℕ} (hoff : i.content.length ≤ offset)
    (bufSize : ℕ) (buf : ℕ → UInt8) : Chunk.peek i bufSize offset buf = some (0, buf) := by
  have hlen : i.length ≤ offset := hi.1.le.trans hoff
  simp only [Chunk.peek, hi.2, reduceCtorEq, and_false, if_false, SyncedBlockStream.peekBytes, hlen, or_true, if_true,
    Option.map_some]
  rfl

/-- a peek that returns 0 falls over to the media segment -/
theorem read_of_peek_zero {i : SyncedBlockStream} (hflag : d.decoderInitialized = false)
    (hi : d.initSegment = some i) {bufSize : ℕ} {buf : ℕ → UInt8}
    (hpeek : Chunk.peek i bufSize d.initSegmentOffset buf = some (0, buf)) :
    d.read bufSize buf = d.readMedia bufSize buf := by
  obtain ⟨initSegment, mediaSegment, decoderInitialized, initSegmentOffset⟩ := d
  simp only at hflag hi hpeek
  subst hflag hi
  simp [read, hpeek]

/-- a peek inside the initialization segment that meets no slip shows the next bytes of it -/
theorem peek_inside {i : SyncedBlockStream} (hi : Downloaded i) {bufSize offset : ℕ} (hpos : 0 < bufSize)
    (hsize : bufSize < 2 ^ 31) (hoff : offset < i.content.length) (buf : ℕ → UInt8)
    (hslip : offset = 0 ∨ ∃ block queue, i.blockqueue = block :: queue ∧ block.length < 2 ^ 32 ∧
      min (offset + bufSize) i.content.length = block.length) :
    ∃ buf', Chunk.peek i bufSize offset buf = some (((min bufSize (i.content.length - offset) : ℕ) : ℤ), buf') ∧
      Memory.read buf' 0 (min bufSize (i.content.length - offset)) = (i.content.drop offset).take bufSize := by
  have hlen : i.length = i.content.length := hi.1
  have hin : ¬ (i.length = 0 ∨ i.length ≤ offset) := by omega
  have hint := toInt_of_lt (lt_of_le_of_lt (min_le_left bufSize (i.content.length - offset)) hsize)
  have htake : (i.content.drop offset).take (min bufSize (i.content.length - offset)) =
      (i.content.drop offset).take bufSize := by
    rw [← List.length_drop, ← List.take_eq_take_min]
  obtain ⟨buf', hp, hr⟩ : ∃ buf', i.toBlockStream.peekBytes bufSize offset buf =
      some (min bufSize (i.content.length - offset), buf') ∧
        Memory.read buf' 0 (min bufSize (i.content.length - offset)) =
          (i.content.drop offset).take (min bufSize (i.content.length - offset)) := by
    rcases hslip with rfl | ⟨block, queue, hq, hblock, hend⟩
    · obtain ⟨buf', hp, hr⟩ := BlockStream.peek_start_spec hi.1 (by omega : min bufSize i.length < 2 ^ 32) buf
      rw [hlen] at hp hr
      exact ⟨buf', by rw [Nat.sub_zero]; exact hp, by rw [htake]; exact hr⟩
    · exact BlockStream.peek_first_block_spec hi.1 hq hblock (by omega) (by rw [hlen]) (by omega) buf
  refine ⟨buf', ?_, hr.trans htake⟩
  simp only [Chunk.peek, hi.2, reduceCtorEq, and_false, if_false, SyncedBlockStream.peekBytes, hin, hp, Option.map_some,
    hint]

theorem initPart_nil {s : Decoder × ℕ} (h : s.2 = 0 ∨ s.1.initBytes.length ≤ s.1.initSegmentOffset) (lens : ℕ → ℕ) :
    (s.1.initBytes.drop s.1.initSegmentOffset).take (total lens s.2) = [] := by
  rcases h with h0 | hend
  · rw [h0, total_zero, List.take_zero]
  · rw [List.drop_of_length_le hend, List.take_nil]

theorem handsOut_media {s : Decoder × ℕ} (h : ReadOk s lens)
    (hdone : s.2 = 0 ∨ s.1.initBytes.length ≤ s.1.initSegmentOffset) {b : Bool} (hb : b = true → s.2 - 1 = 0)
    (buf : ℕ → UInt8) {result : Option (Bytes × (Decoder × ℕ))}
    (hresult : result = (readMedia { s.1 with decoderInitialized := b } (lens 0) buf).map
      fun r => (Memory.read r.2.1 0 r.1.toNat, (r.2.2, s.2 - 1))) :
    ∃ s', result = some ((pending s lens).take (lens 0), s') ∧ ReadOk s' (later lens) ∧
      pending s' (later lens) = (pending s lens).drop (lens 0) := by
  obtain ⟨ret, buf', m, hr, hout, hc, hm⟩ :=
    readMedia_spec (d := { s.1 with decoderInitialized := b }) h.ready.media (h.sizes 0).2 buf
  have hnow : pending s lens = s.1.mediaSegment.content := by
    rw [pending, initPart_nil hdone]
    rfl
  have hdone' : s.2 - 1 = 0 ∨ s.1.initBytes.length ≤ s.1.initSegmentOffset := by
    rcases hdone with h0 | hend
    · exact Or.inl (by omega)
    · exact Or.inr hend
  refine ⟨({ s.1 with decoderInitialized := b, mediaSegment := m }, s.2 - 1), ?_, ?_, ?_⟩
  · rw [hresult, hr, hnow]
    simp only [Option.map_some, hout]
  · refine ⟨⟨h.ready.init, hm, h.ready.offset⟩, hb, fun n => h.sizes (n + 1), ?_⟩
    intro n hn
    rcases hdone' with h0 | hend
    · exact absurd hn (by simp only [h0]; exact Nat.not_lt_zero n)
    · exact Or.inr (Or.inl (hend.trans (Nat.le_add_right _ _)))
  · rw [hnow, pending, initPart_nil (s := ({ s.1 with decoderInitialized := b, mediaSegment := m }, s.2 - 1)) hdone']
    exact hc

/-- what the next peek needs: the first of the initialization segment, or an end at the end of its first block -/
theorem slipFree_next {s : Decoder × ℕ} (h : ReadOk s lens) {left : ℕ} (hleft : s.2 = left + 1) {i : SyncedBlockStream}
    (hi : s.1.initSegment = some i) (hoff : s.1.initSegmentOffset < i.content.length) :
    s.1.initSegmentOffset = 0 ∨ ∃ block queue, i.blockqueue = block :: queue ∧ block.length < 2 ^ 32 ∧
      min (s.1.initSegmentOffset + lens 0) i.content.length = block.length := by
  have hinit : s.1.initBytes = i.content := by simp [initBytes, hi]
  have h0 := h.slipFree 0 (by omega)
  rw [total_succ, total_zero, total_zero, add_zero, add_zero, hinit] at h0
  rcases h0 with h0 | h0 | h0
  · exact Or.inl h0
  · omega
  · cases hq : i.blockqueue with
    | nil => simp [BlockStream.content, hq] at hoff
    | cons block queue =>
      have hfirst : s.1.firstBlock = block.length := by simp [firstBlock, hi, hq]
      rw [hfirst] at h0
      exact Or.inr ⟨block, queue, rfl, h0.2, h0.1⟩

theorem readOk_init {s : Decoder × ℕ} (h : ReadOk s lens) {left : ℕ} (hleft : s.2 = left + 1) {i : SyncedBlockStream}
    (hi : s.1.initSegment = some i) (hflag : s.1.decoderInitialized = false) {n : ℕ}
    (hn : s.1.initSegmentOffset + n ≤ i.content.length)
    (hcase : n = lens 0 ∨ i.content.length ≤ s.1.initSegmentOffset + n) :
    ReadOk ({ s.1 with initSegmentOffset := s.1.initSegmentOffset + n }, left) (later lens) := by
  have hinit : s.1.initBytes = i.content := by simp [initBytes, hi]
  refine ⟨⟨h.ready.init, h.ready.media, ?_⟩, ?_, fun k => h.sizes (k + 1), ?_⟩
  · change s.1.initSegmentOffset + n ≤ s.1.initBytes.length
    rw [hinit]
    exact hn
  · exact fun hf => absurd hf (by simp [hflag])
  · intro k hk
    have hk' := h.slipFree (k + 1) (by rw [hleft]; exact Nat.succ_lt_succ hk)
    rw [total_succ, total_succ, ← add_assoc, ← add_assoc, hinit] at hk'
    change s.1.initSegmentOffset + n + total (later lens) k = 0 ∨
      s.1.initBytes.length ≤ s.1.initSegmentOffset + n + total (later lens) k ∨
        min (s.1.initSegmentOffset + n + total (later lens) (k + 1)) s.1.initBytes.length = s.1.firstBlock ∧
          s.1.firstBlock < 2 ^ 32
    rw [hinit]
    rcases hcase with hall | hend
    · rw [hall]
      exact hk'
    · exact Or.inr (Or.inl (hend.trans (Nat.le_add_right _ _)))

theorem handsOut_init {s : Decoder × ℕ} (h : ReadOk s lens) {left : ℕ} (hleft : s.2 = left + 1) {i : SyncedBlockStream}
    (hi : s.1.initSegment = some i) (hoff : s.1.initSegmentOffset < i.content.length) (buf : ℕ → UInt8) :
    ∃ n s', 0 < n ∧ readBlock buf s (lens 0) = some ((pending s lens).take n, s') ∧ ReadOk s' (later lens) ∧
      pending s' (later lens) = (pending s lens).drop n := by
  obtain ⟨hpos, hsize⟩ := h.sizes 0
  have hinit : s.1.initBytes = i.content := by simp [initBytes, hi]
  have hflag : s.1.decoderInitialized = false := by
    rw [← Bool.not_eq_true]
    intro hf
    have := h.flag hf
    omega
  have hslip := slipFree_next h hleft hi hoff
  obtain ⟨buf', hp, hr⟩ := peek_inside (h.ready.init i hi) hpos hsize hoff buf hslip
  have hn : 0 < min (lens 0) (i.content.length - s.1.initSegmentOffset) := by omega
  obtain ⟨n, hn'⟩ : ∃ n, n = min (lens 0) (i.content.length - s.1.initSegmentOffset) := ⟨_, rfl⟩
  rw [← hn'] at hp hr hn
  have hmod : ((n : ℤ) % 2 ^ 64).toNat = n := by omega
  have hread : readBlock buf s (lens 0) = some ((i.content.drop s.1.initSegmentOffset).take (lens 0),
      ({ s.1 with initSegmentOffset := s.1.initSegmentOffset + n }, left)) := by
    have hn0 : (n : ℤ) ≠ 0 := by omega
    simp only [readBlock, hleft, Nat.add_one_ne_zero, if_false, read, hflag, hi, hp, Option.bind_some, hn0, hmod,
      Option.map_some, Int.toNat_natCast, hr, Nat.add_sub_cancel]
  have hpend : pending s lens =
      (i.content.drop s.1.initSegmentOffset).take (lens 0 + total (later lens) left) ++ s.1.mediaSegment.content := by
    rw [pending, hinit, hleft, total_succ]
  have hlen : n ≤ ((i.content.drop s.1.initSegmentOffset).take (lens 0 + total (later lens) left)).length := by
    rw [List.length_take, List.length_drop]
    omega
  have htake : (i.content.drop s.1.initSegmentOffset).take n = (i.content.drop s.1.initSegmentOffset).take (lens 0) := by
    rw [hn', ← List.length_drop, ← List.take_eq_take_min]
  have hcase : n = lens 0 ∨ i.content.length ≤ s.1.initSegmentOffset + n := by omega
  refine ⟨n, ({ s.1 with initSegmentOffset := s.1.initSegmentOffset + n }, left), hn, hread.trans ?_, ?_, ?_⟩
  · rw [hpend, List.take_append_of_le_length hlen, List.take_take, min_eq_left (by omega), htake]
  · exact readOk_init h hleft hi hflag (by omega) hcase
  · rw [hpend, List.drop_append_of_le_length hlen, List.drop_take, List.drop_drop]
    change (s.1.initBytes.drop (s.1.initSegmentOffset + n)).take (total (later lens) left) ++ s.1.mediaSegment.content = _
    rw [hinit]
    rcases hcase with hall | hend
    · rw [hall, Nat.add_sub_cancel_left]
    · rw [List.drop_of_length_le hend, List.take_nil, List.take_nil]

/-- **One read** hands out the next pending bytes, at least one if there is any. -/
theorem readBlock_handsOut (buf : ℕ → UInt8) : HandsOut (readBlock buf) ReadOk pending := by
  intro s lens h
  have hpos := (h.sizes 0).1
  by_cases h0 : s.2 = 0
  · obtain ⟨s', hs'⟩ := handsOut_media (b := true) h (Or.inl h0) (by omega) buf rfl
    refine ⟨lens 0, s', hpos, ?_⟩
    rw [readBlock, if_pos h0]
    cases hi : s.1.initSegment <;> simpa only [read, hi] using hs'
  · have hflag : s.1.decoderInitialized = false := by
      rw [← Bool.not_eq_true]
      exact fun hf => h0 (h.flag hf)
    have hsame : { s.1 with decoderInitialized := false } = s.1 := by rw [← hflag]
    cases hi : s.1.initSegment with
    | none =>
      have hend : s.1.initBytes.length ≤ s.1.initSegmentOffset := by simp [initBytes, hi]
      obtain ⟨s', hs'⟩ := handsOut_media (b := false) h (Or.inr hend) (by simp) buf rfl
      refine ⟨lens 0, s', hpos, ?_⟩
      rw [hsame] at hs'
      simpa only [readBlock, if_neg h0, read, hi, hflag] using hs'
    | some i =>
      have hinit : s.1.initBytes = i.content := by simp [initBytes, hi]
      rcases Nat.lt_or_ge s.1.initSegmentOffset i.content.length with hoff | hend
      · obtain ⟨left, hleft⟩ := Nat.exists_eq_succ_of_ne_zero h0
        exact handsOut_init h hleft hi hoff buf
      · obtain ⟨s', hs'⟩ := handsOut_media (b := false) h (Or.inr (hinit ▸ hend)) (by simp) buf rfl
        refine ⟨lens 0, s', hpos, ?_⟩
        rw [hsame] at hs'
        have hpeek := peek_end (h.ready.init i hi) hend (lens 0) buf
        rw [readBlock, if_neg h0, read_of_peek_zero hflag hi hpeek]
        exact hs'

/-! ## All reads -/

/-- **The initialization segment as far as it is asked for, then the media segment.** Both segments have been
downloaded, `Start` sets the flag before read number `left`, and no peek meets the offset slip. -/
theorem reads_init_then_media (hready : d.Ready) (hflag : d.decoderInitialized = false)
    (hoff : d.initSegmentOffset = 0) (hlens : SizesOk lens) {left : ℕ} (hslip : d.SlipFree lens left)
    (buf : ℕ → UInt8) : ∃ outs, Until (readBlock buf) (d, left) lens outs ∧
      outs.flatten = d.initBytes.take (total lens left) ++ d.mediaSegment.content ∧
      (d.initBytes.length ≤ total lens left → outs.flatten = d.initBytes ++ d.mediaSegment.content) ∧
      (d.initSegment = none → outs.flatten = d.mediaSegment.content) := by
  have hok : ReadOk (d, left) lens := ⟨hready, fun hf => absurd hf (by simp [hflag]), hlens, hslip⟩
  obtain ⟨outs, hu, hf⟩ := until_of_handsOut (readBlock buf) (readBlock_handsOut buf) hok
  rw [pending, hoff, List.drop_zero] at hf
  refine ⟨outs, hu, hf, ?_, ?_⟩
  · intro hall
    rw [hf, List.take_of_length_le hall]
  · intro hnone
    have hnil : d.initBytes = [] := by simp [initBytes, hnone]
    rw [hf, hnil, List.take_nil, List.nil_append]

end Decoder

/-! ## Instances -/

/-- a downloaded segment of one block -/
def oneBlock (block : Bytes) : SyncedBlockStream := ⟨⟨block.length, [block]⟩, true⟩

/-- a decoder with a four-byte initialization segment and a one-byte media segment -/
def smallDecoder : Decoder := ⟨some (oneBlock [1, 2, 3, 4]), oneBlock [9], false, 0⟩

theorem ready_smallDecoder : smallDecoder.Ready := by
  refine ⟨?_, ⟨rfl, rfl⟩, Nat.zero_le _⟩
  intro i hi
  cases hi
  exact ⟨rfl, rfl⟩

/-- two peeks of three bytes, the second up to the end of the only block, and then the media segment -/
theorem reads_two_peeks : ∃ outs, Until (Decoder.readBlock fun _ => 0) (smallDecoder, 5) (fun _ => 3) outs ∧
    outs.flatten = smallDecoder.initBytes.take (total (fun _ => 3) 5) ++ smallDecoder.mediaSegment.content ∧
    (smallDecoder.initBytes.length ≤ total (fun _ => 3) 5 →
      outs.flatten = smallDecoder.initBytes ++ smallDecoder.mediaSegment.content) ∧
    (smallDecoder.initSegment = none → outs.flatten = smallDecoder.mediaSegment.content) :=
  Decoder.reads_init_then_media ready_smallDecoder rfl rfl (fun _ => by decide) (by unfold Decoder.SlipFree; decide) _

/-- **The flag decides.** Set before the first read, it leaves the initialization segment unread. -/
theorem flag_before_first_read : ¬ ∃ outs, Until (Decoder.readBlock fun _ => 0) (smallDecoder, 0) (fun _ => 8) outs ∧
    outs.flatten = smallDecoder.initBytes ++ smallDecoder.mediaSegment.content := by
  have hok : Decoder.ReadOk (smallDecoder, 0) fun _ => 8 :=
    ⟨ready_smallDecoder, fun _ => rfl, fun _ => by decide, fun n hn => absurd hn (Nat.not_lt_zero n)⟩
  obtain ⟨outs, hu, hf⟩ := until_of_handsOut _ (Decoder.readBlock_handsOut fun _ => 0) hok
  intro h
  obtain ⟨outs', hu', hf'⟩ := h
  rw [← hu.unique _ hu', hf] at hf'
  exact absurd hf' (by decide)

end NdnDash.Player
