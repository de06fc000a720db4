/-
Looking at the byte queue without consuming it: `PeekBytes` and `ByteAt` of `BlockStream.cpp` and `SyncedBlockStream.cpp`.

The loop of `BlockQueuePeekBytes` applies the offset to every block, and its position in the destination advances by
whole blocks. So a peek at an offset is right only when the first block ends where the peek ends. A stream is given here
by the lengths of its blocks: what a peek does is the same for all contents with the same lengths.

- `copies_frame`: the loop never writes behind the length it is given.
- `idle_run` / `idle_of_zeros`: from a position on, the loop copies nothing exactly when the lengths ahead are `Idle`.
- `byteAt_spec`: `ByteAt` inside the stream.
- `looks_iff`: for all lengths of the blocks, all lengths and offsets of a peek and all positions, looking agrees with
  the content exactly when the peek is `Peekable` and the position is not the number of queued bytes.
-/
import NdnDash.Helpers.BlockStream

namespace NdnDash

namespace BlockStream

/-! ## Model -/

/-- `PeekBytes(data, len)` -/
def peekBytesFront (s : BlockStream) (len : ℕ) (data : ℕ → UInt8) : Option (ℕ × (ℕ → UInt8)) :=
  let len := min len s.length
  (blockQueuePeekBytes (len % 2 ^ 32) 0 s.blockqueue 0 data).map fun data => (len, data)

/-- the loop of `ByteAt` from the block that starts at `pos` on -/
def byteAtLoop (position : ℕ) : List Bytes → ℕ → UInt8
  | [], _ => 255
  | block :: queue, pos =>
    if position < pos + block.length then block.getD (position - pos) 255
    else byteAtLoop position queue (pos + block.length)

/-- `ByteAt`; -1 is returned as 255 -/
def byteAt (s : BlockStream) (position : ℕ) : UInt8 :=
  if s.length < position then 255 else byteAtLoop position s.blockqueue 0

/-- the lengths of the queued blocks -/
def lengths (s : BlockStream) : List ℕ := s.blockqueue.map List.length

/-! ## What looking is for -/

/-- the peek returns how many bytes there are from the offset on, up to `len`, and writes exactly these bytes -/
def PeekRight (s : BlockStream) (len offset : ℕ) : Prop :=
  ∀ data, s.peekBytes len offset data =
    some (min len (s.content.length - offset), Memory.write data 0 ((s.content.drop offset).take len))

/-- nothing more is copied from position `pos` on: the end is reached, or the blocks ahead are as long as the offset, or
the last copy is cut to nothing -/
def Idle (len offset : ℕ) : List ℕ → ℕ → Prop
  | [], pos => len ≤ pos
  | n :: lengths, pos =>
    len ≤ pos ∨ (n = offset ∧ Idle len offset lengths ((pos + n) % 2 ^ 32)) ∨ (len - pos = offset ∧ 2 * offset < n)

/-- the peeks that are right: there is nothing to show, or what there is fits a `uint32_t` and is at the start of the
stream or is the rest of the first block -/
def Peekable (lengths : List ℕ) (len offset : ℕ) : Prop :=
  min len (lengths.sum - offset) = 0 ∨
    (min len (lengths.sum - offset) < 2 ^ 32 ∧
      (offset = 0 ∨ ∃ n rest, lengths = n :: rest ∧ n = offset + min len (lengths.sum - offset) ∧
        Idle (min len (lengths.sum - offset)) offset rest (n % 2 ^ 32)))

end BlockStream

namespace SyncedBlockStream

/-- `ByteAt`; `none` while it sleeps on the condition variable -/
def byteAt (s : SyncedBlockStream) (position : ℕ) : Option UInt8 :=
  if s.length < position then if s.eos then some 0 else none else some (s.toBlockStream.byteAt position)

/-- looking at the stream agrees with its content -/
structure Looks (s : SyncedBlockStream) (len offset position : ℕ) : Prop where
  peek : s.PeekRight len offset
  peekFront : s.peekBytesFront len = s.toBlockStream.peekBytes len 0
  synced : s.peekBytes len offset = s.toBlockStream.peekBytes len offset
  byteAt : position < s.content.length → s.content[position]? = some (s.toBlockStream.byteAt position)
  waits : s.content.length ≤ position → s.eos = false → s.byteAt position = none

end SyncedBlockStream

namespace BlockStream

/-! ## The loop of a peek -/

section Loop

variable {len offset pos : ℕ} {queue : List Bytes} {data data' : ℕ → UInt8}

theorem sum_lengths (s : BlockStream) : s.lengths.sum = s.content.length := by
  rw [lengths, content, List.length_flatten]

theorem exists_lengths (lengths : List ℕ) : ∃ s : BlockStream, s.Counted ∧ s.lengths = lengths := by
  have hlengths : (lengths.map fun n => List.replicate n (0 : UInt8)).map List.length = lengths := by
    rw [List.map_map]
    exact (List.map_congr_left fun n _ => List.length_replicate).trans (List.map_id lengths)
  refine ⟨⟨lengths.sum, lengths.map fun n => List.replicate n 0⟩, ?_, hlengths⟩
  rw [Counted, content, List.length_flatten, hlengths]

/-- no cell from `len` on is written -/
theorem copies_frame (h : blockQueuePeekBytes len offset queue pos data = some data') {i : ℕ} (hi : len ≤ i) :
    data' i = data i := by
  induction queue generalizing pos data with
  | nil =>
    simp only [blockQueuePeekBytes] at h
    split_ifs at h
    rw [← Option.some.inj h]
  | cons block queue ih =>
    simp only [blockQueuePeekBytes] at h
    split_ifs at h with hlt hb ho ho'
    · rw [← Option.some.inj h]
      apply Memory.write_of_ge
      have := List.length_take_le (len - pos - offset) (block.drop offset)
      omega
    · rw [ih h]
      apply Memory.write_of_ge
      rw [List.length_drop]
      omega
    · rw [← Option.some.inj h]

/-- while the loop is idle it changes nothing -/
theorem idle_run (queue : List Bytes) (h : Idle len offset (queue.map List.length) pos) :
    blockQueuePeekBytes len offset queue pos data = some data := by
  induction queue generalizing pos with
  | nil =>
    have hpos : ¬ pos < len := not_lt.2 h
    simp only [blockQueuePeekBytes, hpos, if_false]
  | cons block queue ih =>
    simp only [blockQueuePeekBytes]
    split_ifs with hlt hb ho ho'
    · rcases h with h | ⟨h, -⟩ | ⟨h, -⟩
      · omega
      · omega
      · rw [(by omega : len - pos - offset = 0), List.take_zero, Memory.write_nil]
    · rcases h with h | ⟨h, -⟩ | ⟨h, -⟩
      · omega
      · omega
      · omega
    · rcases h with h | ⟨h, hidle⟩ | ⟨h, hn⟩
      · omega
      · rw [List.drop_of_length_le h.le, Memory.write_nil]
        exact ih hidle
      · omega
    · rcases h with h | ⟨h, -⟩ | ⟨h, hn⟩
      · omega
      · omega
      · omega
    · rfl

/-! ### What the loop copies when a peek is right -/

theorem copies_nothing (offset : ℕ) (queue : List Bytes) (data : ℕ → UInt8) :
    blockQueuePeekBytes 0 offset queue 0 data = some data := by
  cases queue with
  | nil => rfl
  | cons block queue => rfl

/-- from the start of the stream -/
theorem copies_front (hlen : len < 2 ^ 32) (queue : List Bytes) (data : ℕ → UInt8) (h : len ≤ queue.flatten.length) :
    blockQueuePeekBytes len 0 queue 0 data = some (Memory.write data 0 (queue.flatten.take len)) := by
  have hbytes : (queue.flatten.take len).length = len := by
    rw [List.length_take, min_eq_left h]
  obtain ⟨data', hd, hread⟩ := blockQueuePeekBytes_zero len hlen queue 0 data (Nat.zero_le _) (by omega)
  rw [Memory.read_zero, List.nil_append, Nat.sub_zero] at hread
  rw [hd, ← Memory.eq_write (m := data) (by rw [hbytes]; exact hread) fun i hi => copies_frame hd (hbytes ▸ hi)]

/-- the rest of the first block, when the loop is idle behind it -/
theorem copies_first (block : Bytes) (queue : List Bytes) (data : ℕ → UInt8) (hblock : block.length = offset + len)
    (hidle : Idle len offset (queue.map List.length) (block.length % 2 ^ 32)) :
    blockQueuePeekBytes len offset (block :: queue) 0 data = some (Memory.write data 0 (block.drop offset)) := by
  simp only [blockQueuePeekBytes]
  split_ifs with hpos hb ho ho'
  · omega
  · omega
  · rw [zero_add]
    exact idle_run queue hidle
  · omega
  · rw [List.drop_of_length_le (by omega), Memory.write_nil]

/-! ### Marked blocks: the bytes that a copy from the offset on can reach are ones, the others are zeros -/

/-- a marked block -/
def mark (offset n : ℕ) : Bytes := List.replicate (min n offset) 0 ++ List.replicate (n - offset) 1

theorem length_mark (offset n : ℕ) : (mark offset n).length = n := by
  rw [mark, List.length_append, List.length_replicate, List.length_replicate]
  omega

theorem map_length_mark (offset : ℕ) (lengths : List ℕ) : (lengths.map (mark offset)).map List.length = lengths := by
  rw [List.map_map]
  exact (List.map_congr_left fun n _ => length_mark offset n).trans (List.map_id lengths)

theorem drop_mark {n : ℕ} (h : offset ≤ n) : (mark offset n).drop offset = List.replicate (n - offset) 1 := by
  rw [mark, min_eq_right h, List.drop_left' List.length_replicate]

/-- copying ones keeps ones -/
theorem write_ones (pos k : ℕ) {i : ℕ} (h : data i = 1) : Memory.write data pos (List.replicate k 1) i = 1 := by
  unfold Memory.write
  split_ifs with hi
  · rw [List.getD_eq_getElem?_getD, List.getElem?_replicate]
    split_ifs
    · rfl
    · exact h
  · exact h

theorem copies_ones {lengths : List ℕ} (h : blockQueuePeekBytes len offset (lengths.map (mark offset)) pos data = some data')
    {i : ℕ} (hi : data i = 1) : data' i = 1 := by
  induction lengths generalizing pos data with
  | nil =>
    simp only [List.map_nil, blockQueuePeekBytes] at h
    split_ifs at h
    rw [← Option.some.inj h]
    exact hi
  | cons n lengths ih =>
    simp only [List.map_cons, blockQueuePeekBytes, length_mark] at h
    split_ifs at h with hlt hb ho ho'
    · rw [← Option.some.inj h, drop_mark (by omega), List.take_replicate]
      exact write_ones _ _ hi
    · rw [drop_mark ho'] at h
      exact ih h (write_ones _ _ hi)
    · rw [← Option.some.inj h]
      exact hi

/-- if marked blocks leave only zeros, nothing was copied from them -/
theorem idle_of_zeros {lengths : List ℕ}
    (h : blockQueuePeekBytes len offset (lengths.map (mark offset)) pos data = some data')
    (hzero : ∀ i < len, data' i = 0) : Idle len offset lengths pos := by
  induction lengths generalizing pos data with
  | nil =>
    simp only [List.map_nil, blockQueuePeekBytes] at h
    split_ifs at h with hlt
    exact not_lt.1 hlt
  | cons n lengths ih =>
    simp only [List.map_cons, blockQueuePeekBytes, length_mark] at h
    by_cases hlt : pos < len
    · rw [if_pos hlt] at h
      have hone : ∀ k, 0 < k → Memory.write data pos (List.replicate k 1) pos = 1 := by
        intro k hk
        have hcell := Memory.write_getElem data pos (List.replicate k (1 : UInt8)) (by simpa using hk)
        rw [add_zero] at hcell
        rw [hcell, List.getElem_replicate]
      split_ifs at h with hb ho ho'
      · -- the last copy is cut to nothing
        rw [drop_mark (by omega), List.take_replicate] at h
        have hcut : min (len - pos - offset) (n - offset) = 0 := by
          by_contra hne
          have hcell := hone _ (Nat.pos_of_ne_zero hne)
          rw [Option.some.inj h, hzero pos hlt] at hcell
          exact absurd hcell (by decide)
        exact Or.inr (Or.inr ⟨by omega, by omega⟩)
      · -- the block is as long as the offset
        rw [drop_mark ho'] at h
        have hn : n - offset = 0 := by
          by_contra hne
          have hcell := copies_ones h (hone _ (Nat.pos_of_ne_zero hne))
          rw [hzero pos hlt] at hcell
          exact absurd hcell (by decide)
        exact Or.inr (Or.inl ⟨by omega, ih h⟩)
    · exact Or.inl (not_lt.1 hlt)

end Loop

/-! ## One call -/

section Calls

variable {s : BlockStream} {len offset position : ℕ}

theorem peekBytesFront_eq (s : BlockStream) (len : ℕ) : s.peekBytesFront len = s.peekBytes len 0 := by
  funext data
  have hclamp : (if s.length < 0 + min len s.length then s.length - 0 else min len s.length) = min len s.length := by
    rw [if_neg (by omega)]
  simp only [peekBytesFront, peekBytes, hclamp]

/-- the length that is left of a peek at an offset inside the stream -/
theorem clamp_eq (hoffset : offset ≤ s.length) :
    (if s.length < offset + min len s.length then s.length - offset else min len s.length) =
      min len (s.length - offset) := by
  split_ifs <;> omega

theorem peekBytes_eq (hs : s.Counted) (hoffset : offset ≤ s.content.length) (data : ℕ → UInt8) :
    s.peekBytes len offset data =
      (blockQueuePeekBytes (min len (s.content.length - offset) % 2 ^ 32) offset s.blockqueue 0 data).map
        fun data => (min len (s.content.length - offset), data) := by
  have hlength : s.length = s.content.length := hs
  rw [peekBytes, clamp_eq (by omega), hlength]

/-- a peek is right when the loop writes the bytes from the offset on -/
theorem peekRight_iff (hs : s.Counted) (hoffset : offset ≤ s.content.length) :
    s.PeekRight len offset ↔ ∀ data,
      blockQueuePeekBytes (min len (s.content.length - offset) % 2 ^ 32) offset s.blockqueue 0 data =
        some (Memory.write data 0 ((s.content.drop offset).take len)) := by
  apply forall_congr'
  intro data
  rw [peekBytes_eq hs hoffset, Option.map_eq_some_iff]
  constructor
  · intro h
    obtain ⟨data', hd, heq⟩ := h
    rw [hd, (Prod.mk.inj heq).2]
  · intro h
    exact ⟨_, h, rfl⟩

/-- the loop of `ByteAt` finds the byte behind the blocks already passed -/
theorem byteAtLoop_spec (queue : List Bytes) (pos : ℕ) (hpos : pos ≤ position)
    (h : position < pos + queue.flatten.length) :
    queue.flatten[position - pos]? = some (byteAtLoop position queue pos) := by
  induction queue generalizing pos with
  | nil =>
    rw [List.flatten_nil, List.length_nil] at h
    omega
  | cons block queue ih =>
    rw [List.flatten_cons, List.length_append] at h
    rw [byteAtLoop, List.flatten_cons]
    split_ifs with hin
    · have hlt : position - pos < block.length := by omega
      rw [List.getElem?_append_left hlt, List.getD_eq_getElem?_getD, List.getElem?_eq_getElem hlt, Option.getD_some]
    · rw [List.getElem?_append_right (by omega), Nat.sub_sub]
      exact ih (pos + block.length) (by omega) (by omega)

/-- **`ByteAt`.** Inside the stream it is the byte of the content. -/
theorem byteAt_spec (hs : s.Counted) (h : position < s.content.length) :
    s.content[position]? = some (s.byteAt position) := by
  have hlength : s.length = s.content.length := hs
  rw [byteAt, if_neg (by omega)]
  exact byteAtLoop_spec s.blockqueue 0 (Nat.zero_le _) (by rw [zero_add]; exact h)

/-- **A peek that is right.** -/
theorem peekRight_of_peekable (hs : s.Counted) (hoffset : offset ≤ s.content.length)
    (h : Peekable s.lengths len offset) : s.PeekRight len offset := by
  rw [peekRight_iff hs hoffset]
  rw [Peekable, sum_lengths] at h
  intro data
  have htake : (s.content.drop offset).take len =
      (s.content.drop offset).take (min len (s.content.length - offset)) := by
    rw [← List.length_drop, ← List.take_eq_take_min]
  have hbytes : ((s.content.drop offset).take (min len (s.content.length - offset))).length =
      min len (s.content.length - offset) := by
    rw [List.length_take, List.length_drop]
    omega
  rw [htake]
  generalize min len (s.content.length - offset) = r at *
  rcases h with h0 | ⟨hr, hstart | ⟨n, rest, hlengths, hn, hidle⟩⟩
  · -- nothing to show
    rw [h0, List.take_zero, Memory.write_nil, Nat.zero_mod]
    exact copies_nothing offset s.blockqueue data
  · -- the start of the stream
    have hcontent : s.blockqueue.flatten = s.content := rfl
    rw [hstart, List.drop_zero] at hbytes ⊢
    rw [List.length_take] at hbytes
    rw [Nat.mod_eq_of_lt hr, copies_front hr s.blockqueue data (by rw [hcontent]; omega), hcontent]
  · -- the rest of the first block
    obtain ⟨block, queue, hq⟩ : ∃ block queue, s.blockqueue = block :: queue := by
      cases hq : s.blockqueue with
      | nil => rw [lengths, hq] at hlengths; cases hlengths
      | cons block queue => exact ⟨block, queue, rfl⟩
    rw [lengths, hq, List.map_cons, List.cons.injEq] at hlengths
    obtain ⟨rfl, rfl⟩ := hlengths
    have hrest : (s.content.drop offset).take r = block.drop offset := by
      rw [content, hq, List.flatten_cons, List.drop_append_of_le_length (by omega)]
      exact List.take_left' (by rw [List.length_drop]; omega)
    rw [Nat.mod_eq_of_lt hr, hrest, hq]
    exact copies_first block queue data hn hidle

end Calls

/-! ## Streams whose peeks are not right -/

section Marked

variable {n len offset r : ℕ} {rest : List ℕ}

/-- a stream with the given lengths: zeros in the first block, the others marked -/
def marked (offset n : ℕ) (rest : List ℕ) : BlockStream :=
  ⟨(n :: rest).sum, List.replicate n 0 :: rest.map (mark offset)⟩

theorem lengths_marked : (marked offset n rest).lengths = n :: rest := by
  rw [lengths, marked, List.map_cons, List.length_replicate, map_length_mark]

theorem counted_marked : (marked offset n rest).Counted := by
  rw [Counted, ← sum_lengths, lengths_marked]
  rfl

theorem length_marked : (marked offset n rest).content.length = (n :: rest).sum := by
  rw [← sum_lengths, lengths_marked]

/-- at the end of the first block the marked stream has a zero: the first byte of a later block, before the offset -/
theorem marked_end (ho : 0 < offset) (hlt : n < (n :: rest).sum) : (marked offset n rest).content[n]? = some 0 := by
  rw [content, marked, List.flatten_cons, List.getElem?_append_right (by simp), List.length_replicate, Nat.sub_self]
  rw [List.sum_cons] at hlt
  have hpos : 0 < rest.sum := by omega
  clear hlt
  induction rest with
  | nil => exact absurd hpos (by simp)
  | cons k rest ih =>
    rw [List.map_cons, List.flatten_cons]
    rcases Nat.eq_zero_or_pos k with rfl | hk
    · have hempty : mark offset 0 = [] := List.eq_nil_of_length_eq_zero (length_mark offset 0)
      rw [List.sum_cons, zero_add] at hpos
      rw [hempty, List.nil_append]
      exact ih hpos
    · rw [List.getElem?_append_left (by rw [length_mark]; exact hk), mark, List.getElem?_append_left (by simp; omega),
        List.getElem?_replicate, if_pos (by omega)]

/-- inside the first block it has zeros -/
theorem marked_zero {i : ℕ} (hi : i < n) : (marked offset n rest).content[i]? = some 0 := by
  rw [content, marked, List.flatten_cons, List.getElem?_append_left (by simpa using hi), List.getElem?_replicate,
    if_pos hi]

/-- a cell after a right peek -/
theorem write_cell {bytes : Bytes} {data : ℕ → UInt8} {i : ℕ} {b : UInt8} (h : bytes[i]? = some b) :
    Memory.write data 0 bytes i = b := by
  obtain ⟨hi, hb⟩ := List.getElem?_eq_some_iff.1 h
  have hcell := Memory.write_getElem data 0 bytes hi
  rw [zero_add] at hcell
  rw [hcell, hb]

theorem getElem?_shown {s : BlockStream} {i : ℕ} (hi : i < min len (s.content.length - offset)) :
    ((s.content.drop offset).take len)[i]? = s.content[offset + i]? := by
  rw [List.getElem?_take_of_lt (by omega), List.getElem?_drop]

/-- what a right peek of the marked stream says about its loop -/
theorem peekable_of_marked (hr : min len ((n :: rest).sum - offset) = r) (hpos : 0 < r) (hsmall : r < 2 ^ 32)
    (ho : 0 < offset) (hoffset : offset ≤ (n :: rest).sum) (h : (marked offset n rest).PeekRight len offset) :
    n = offset + r ∧ Idle r offset rest (n % 2 ^ 32) := by
  have hloop := (peekRight_iff counted_marked (hoffset.trans_eq length_marked.symm)).1 h (fun _ => 1)
  rw [length_marked, hr, Nat.mod_eq_of_lt hsmall] at hloop
  have hshown : ∀ i < r, (((marked offset n rest).content.drop offset).take len)[i]? =
      (marked offset n rest).content[offset + i]? := by
    intro i hi
    exact getElem?_shown (by rw [length_marked, hr]; exact hi)
  simp only [marked, blockQueuePeekBytes, if_pos hpos, List.length_replicate, Nat.sub_zero, List.drop_replicate,
    List.take_replicate, zero_add] at hloop
  change _ = some (Memory.write _ 0 (((marked offset n rest).content.drop offset).take len)) at hloop
  split_ifs at hloop with hb ho' ho'
  · -- the last copy is too short by the offset: the last cell is left as it was
    have hlast : Memory.write (fun _ => (1 : UInt8)) 0 (List.replicate (min (r - offset) (n - offset)) 0) (r - 1) = 1 := by
      apply Memory.write_of_ge
      rw [List.length_replicate]
      omega
    rw [Option.some.inj hloop, write_cell (b := 0) (by rw [hshown _ (by omega)]; exact marked_zero (by omega))] at hlast
    exact absurd hlast (by decide)
  · have hend : n = offset + r := by
      by_contra hne
      -- the cell behind the first block is never written with a zero
      have hcell : Memory.write (fun _ => (1 : UInt8)) 0 (List.replicate (n - offset) 0) (n - offset) = 1 := by
        apply Memory.write_of_ge
        rw [List.length_replicate, zero_add]
      have hone := copies_ones hloop hcell
      have hzero : (marked offset n rest).content[offset + (n - offset)]? = some 0 := by
        rw [Nat.add_sub_cancel' ho']
        exact marked_end ho (by omega)
      rw [write_cell (b := 0) (by rw [hshown _ (by omega)]; exact hzero)] at hone
      exact absurd hone (by decide)
    refine ⟨hend, idle_of_zeros hloop fun i hi => write_cell ?_⟩
    rw [hshown i hi]
    exact marked_zero (by omega)

/-- **No other peek is right.** If the peek is right for all contents, it is peekable. -/
theorem peekable_of_right {lengths : List ℕ} (hoffset : offset ≤ lengths.sum)
    (h : ∀ s : BlockStream, s.Counted → s.lengths = lengths → s.PeekRight len offset) : Peekable lengths len offset := by
  rw [Peekable]
  cases lengths with
  | nil => exact Or.inl (by simp)
  | cons n rest =>
    have hright := h (marked offset n rest) counted_marked lengths_marked
    generalize hr : min len ((n :: rest).sum - offset) = r
    rcases Nat.eq_zero_or_pos r with h0 | hpos
    · exact Or.inl h0
    · have hsmall : r < 2 ^ 32 := by
        by_contra hbig
        -- the last cell is behind the length that the loop is given
        have hloop := (peekRight_iff counted_marked (hoffset.trans_eq length_marked.symm)).1 hright
        rw [length_marked, hr] at hloop
        have hmod : r % 2 ^ 32 ≤ r - 1 := by
          have := Nat.mod_lt r (by decide : 0 < 2 ^ 32)
          omega
        have hlt : offset + (r - 1) < (marked offset n rest).content.length := by
          rw [length_marked]
          omega
        have hshown : (((marked offset n rest).content.drop offset).take len)[r - 1]? = _ :=
          getElem?_shown (by rw [length_marked, hr]; omega)
        rw [List.getElem?_eq_getElem hlt] at hshown
        have h0 := copies_frame (hloop fun _ => 0) hmod
        have h1 := copies_frame (hloop fun _ => 1) hmod
        rw [write_cell hshown] at h0 h1
        exact absurd (h0.symm.trans h1) (by decide)
      refine Or.inr ⟨hsmall, ?_⟩
      rcases Nat.eq_zero_or_pos offset with ho | ho
      · exact Or.inl ho
      · obtain ⟨hend, hidle⟩ := peekable_of_marked hr hpos hsmall ho hoffset hright
        exact Or.inr ⟨n, rest, rfl, hend, hidle⟩

end Marked

end BlockStream

namespace SyncedBlockStream

variable {s : SyncedBlockStream} {len offset position : ℕ}

/-- once it does not sleep, the synchronised peek is the peek of the stream -/
theorem peekBytes_eq (hoffset : offset ≤ s.length) : s.peekBytes len offset = s.toBlockStream.peekBytes len offset := by
  funext data
  unfold peekBytes
  split_ifs with h
  · have hzero : min len (s.length - offset) = 0 := by omega
    rw [BlockStream.peekBytes, BlockStream.clamp_eq hoffset, hzero, Nat.zero_mod]
    cases s.blockqueue with
    | nil => rfl
    | cons block queue => rfl
  · rfl

/-- inside the stream `ByteAt` does not sleep; behind it, it does, except right at the end -/
theorem byteAt_eq_none_iff (hs : s.Counted) (hend : s.content.length ≤ position) (heos : s.eos = false) :
    s.byteAt position = none ↔ position ≠ s.content.length := by
  have hlength : s.length = s.content.length := hs
  rw [byteAt, heos]
  constructor
  · intro h heq
    rw [if_neg (by omega)] at h
    exact absurd h (by simp)
  · intro hne
    rw [if_pos (by omega)]
    rfl

/-- **Looking at the stream.** For all lengths of the blocks: with every content, looking agrees with the content exactly
when the peek is peekable and the position is not the number of queued bytes. -/
theorem looks_iff {lengths : List ℕ} (hoffset : offset ≤ lengths.sum) :
    (∀ s : SyncedBlockStream, s.Counted → s.lengths = lengths → s.Looks len offset position) ↔
      BlockStream.Peekable lengths len offset ∧ position ≠ lengths.sum := by
  constructor
  · intro h
    refine ⟨BlockStream.peekable_of_right hoffset fun s hs hlengths => (h ⟨s, false⟩ hs hlengths).peek, ?_⟩
    intro heq
    obtain ⟨s, hs, hlengths⟩ := BlockStream.exists_lengths lengths
    have hend : s.content.length = position := by rw [heq, ← hlengths, BlockStream.sum_lengths]
    have hnone := (h ⟨s, false⟩ hs hlengths).waits hend.le rfl
    exact (byteAt_eq_none_iff (s := ⟨s, false⟩) hs hend.le rfl).1 hnone hend.symm
  · intro h s hs hlengths
    obtain ⟨hpeek, hne⟩ := h
    have hsum : s.content.length = lengths.sum := by rw [← hlengths, BlockStream.sum_lengths]
    have hlength : s.length = s.content.length := hs
    refine ⟨?_, ?_, ?_, ?_, ?_⟩
    · exact BlockStream.peekRight_of_peekable hs (hoffset.trans_eq hsum.symm) (hlengths ▸ hpeek)
    · exact BlockStream.peekBytesFront_eq s.toBlockStream len
    · exact peekBytes_eq (by omega)
    · exact BlockStream.byteAt_spec hs
    · intro hend heos
      exact (byteAt_eq_none_iff hs hend heos).2 (hsum ▸ hne)

/-- two blocks, and a peek of the last byte of the first -/
theorem looks_two_blocks :
    BlockStream.Peekable [3, 2] 1 2 ∧ ∀ s : SyncedBlockStream, s.Counted → s.lengths = [3, 2] → s.Looks 1 2 4 := by
  have hpeekable : BlockStream.Peekable [3, 2] 1 2 :=
    Or.inr ⟨by decide, Or.inr ⟨3, [2], rfl, rfl, Or.inl (by decide)⟩⟩
  exact ⟨hpeekable, (looks_iff (by decide)).2 ⟨hpeekable, by decide⟩⟩

/-- a stream of four bytes, not ended -/
def fourBytes : SyncedBlockStream := ⟨⟨4, [[1, 2, 3, 4]]⟩, false⟩

/-- a peek of two of them from offset 1 returns 2 but writes one byte, and `ByteAt` returns 255 at the end -/
theorem peek_too_short :
    fourBytes.Counted ∧ ¬ fourBytes.PeekRight 2 1 ∧
      (fourBytes.toBlockStream.peekBytes 2 1 fun _ => 0).map (fun r => (r.1, r.2 0, r.2 1)) = some (2, 2, 0) ∧
      fourBytes.byteAt 4 = some 255 := by
  have hpeek : (fourBytes.toBlockStream.peekBytes 2 1 fun _ => 0).map (fun r => (r.1, r.2 0, r.2 1)) = some (2, 2, 0) := by
    decide
  refine ⟨rfl, ?_, hpeek, by decide⟩
  intro h
  rw [h] at hpeek
  exact absurd hpeek (by decide)

end SyncedBlockStream

end NdnDash
