/-
Model of the byte queue between a download and its reader (`Block.h`, `BlockStream.cpp`, `SyncedBlockStream.cpp`).

A block is its bytes (`len` is their number), the stream is the deque of blocks and its own `length` counter. `none`
is undefined behaviour: `front()` of an empty deque, `at()` past the end, or a copy whose `size_t` length has wrapped.
The lengths that pass through a `uint32_t` parameter are truncated to 32 bits where the source truncates them.

- `content`: the byte string the queue stands for; `Counted`: the counter is its length.
- `getBytes_spec`: a consuming read of less than 2^32 bytes takes the next bytes of the content.
- `peek_start_spec`: a peek at offset 0 shows the first bytes of the content.
- `peek_first_block_spec`: a peek that ends at the end of the first block shows the bytes at its offset.
-/
import NdnDash.Core.Bytes
import NdnDash.Core.Memory

namespace NdnDash

structure BlockStream where
  length : ℕ
  blockqueue : List Bytes
deriving DecidableEq, Repr

/-- `SyncedBlockStream`: with the end-of-stream mark -/
structure SyncedBlockStream extends BlockStream where
  eos : Bool
deriving DecidableEq, Repr

namespace BlockStream

/-- the byte string the queue stands for -/
def content (s : BlockStream) : Bytes := s.blockqueue.flatten

/-- the counter is the number of queued bytes -/
def Counted (s : BlockStream) : Prop := s.length = s.content.length

def pushBack (s : BlockStream) (block : Bytes) : BlockStream :=
  { length := s.length + block.length, blockqueue := s.blockqueue ++ [block] }

/-- `BlockQueueGetBytes` with `n = len - pos` bytes still to copy: the bytes copied and the blocks left. A block with
more bytes than that is replaced by its rest. -/
def blockQueueGetBytes : List Bytes → ℕ → Option (Bytes × List Bytes)
  | queue, 0 => some ([], queue)
  | [], _ + 1 => none
  | block :: queue, n + 1 =>
    if n + 1 < block.length then some (block.take (n + 1), block.drop (n + 1) :: queue)
    else (blockQueueGetBytes queue (n + 1 - block.length)).map fun r => (block ++ r.1, r.2)

/-- `GetBytes(data, len)`: the length returned, the bytes copied, the stream left. `len` is a `size_t`, the parameter
of `BlockQueueGetBytes` is a `uint32_t`. -/
def getBytes (s : BlockStream) (len : ℕ) : Option (ℕ × Bytes × BlockStream) :=
  let len := min len s.length
  (blockQueueGetBytes s.blockqueue (len % 2 ^ 32)).map fun r => (len, r.1, ⟨s.length - len, r.2⟩)

/-- `BlockQueuePeekBytes` from position `pos` of the destination on: every block is copied from `offset` on, and `pos`
advances by the whole block -/
def blockQueuePeekBytes (len offset : ℕ) : List Bytes → ℕ → (ℕ → UInt8) → Option (ℕ → UInt8)
  | [], pos, data => if pos < len then none else some data
  | block :: queue, pos, data =>
    if pos < len then
      if offset + len - pos < block.length then
        if offset ≤ len - pos then some (Memory.write data pos ((block.drop offset).take (len - pos - offset))) else none
      else if offset ≤ block.length then
        blockQueuePeekBytes len offset queue ((pos + block.length) % 2 ^ 32) (Memory.write data pos (block.drop offset))
      else none
    else some data

/-- `PeekBytes(data, len, offset)` for an offset not past the end: the length returned and the destination after it -/
def peekBytes (s : BlockStream) (len offset : ℕ) (data : ℕ → UInt8) : Option (ℕ × (ℕ → UInt8)) :=
  let len := min len s.length
  let len := if s.length < offset + len then s.length - offset else len
  (blockQueuePeekBytes (len % 2 ^ 32) offset s.blockqueue 0 data).map fun data => (len, data)

@[simp] theorem content_pushBack (s : BlockStream) (block : Bytes) :
    (s.pushBack block).content = s.content ++ block := by
  simp [content, pushBack]

theorem counted_pushBack {s : BlockStream} (h : s.Counted) (block : Bytes) : (s.pushBack block).Counted := by
  rw [Counted] at *
  rw [content_pushBack, List.length_append, ← h]
  rfl

theorem blockQueueGetBytes_spec (queue : List Bytes) (n : ℕ) (h : n ≤ queue.flatten.length) :
    ∃ queue', blockQueueGetBytes queue n = some (queue.flatten.take n, queue') ∧
      queue'.flatten = queue.flatten.drop n := by
  induction queue generalizing n with
  | nil =>
    obtain rfl : n = 0 := by simpa using h
    exact ⟨[], by simp [blockQueueGetBytes]⟩
  | cons block queue ih =>
    cases n with
    | zero => exact ⟨block :: queue, by simp [blockQueueGetBytes]⟩
    | succ n =>
      rw [List.flatten_cons, List.length_append] at h
      simp only [blockQueueGetBytes, List.flatten_cons]
      split_ifs with hlt
      · refine ⟨block.drop (n + 1) :: queue, ?_, ?_⟩
        · rw [List.take_append_of_le_length hlt.le]
        · rw [List.flatten_cons, List.drop_append_of_le_length hlt.le]
      · have hle : block.length ≤ n + 1 := not_lt.1 hlt
        obtain ⟨queue', hq, hd⟩ := ih (n + 1 - block.length) (Nat.sub_le_iff_le_add'.2 h)
        refine ⟨queue', ?_, ?_⟩
        · rw [hq, Option.map_some, List.take_append, List.take_of_length_le hle]
        · rw [hd, List.drop_append, List.drop_of_length_le hle, List.nil_append]

/-- **Consuming read.** While the length actually read stays below 2^32, the read takes the next bytes of the content
and the counter stays right. -/
theorem getBytes_spec {s : BlockStream} (hs : s.Counted) {len : ℕ} (hlen : min len s.length < 2 ^ 32) :
    ∃ s', s.getBytes len = some (min len s.length, s.content.take len, s') ∧ s'.content = s.content.drop len ∧
      s'.Counted := by
  rw [Counted] at hs
  obtain ⟨queue', hq, hd⟩ := blockQueueGetBytes_spec s.blockqueue (min len s.length) (by
    have : s.blockqueue.flatten.length = s.length := hs.symm
    omega)
  have htake : s.content.take (min len s.length) = s.content.take len := by
    rw [hs, ← List.take_eq_take_min]
  have hdrop : s.content.drop (min len s.length) = s.content.drop len := by
    rcases le_total len s.length with h | h
    · rw [min_eq_left h]
    · rw [min_eq_right h, List.drop_of_length_le hs.ge, List.drop_of_length_le (by omega)]
  refine ⟨⟨s.length - min len s.length, queue'⟩, ?_, hd.trans hdrop, ?_⟩
  · simp only [getBytes, Nat.mod_eq_of_lt hlen, hq, Option.map_some]
    rw [← htake]
    rfl
  · change s.length - min len s.length = queue'.flatten.length
    rw [hd, List.length_drop]
    exact congrArg (· - min len s.length) hs

/-- at offset 0 the loop copies the next bytes of the blocks -/
theorem blockQueuePeekBytes_zero (len : ℕ) (hlen : len < 2 ^ 32) (queue : List Bytes) (pos : ℕ) (data : ℕ → UInt8)
    (hpos : pos ≤ len) (h : len - pos ≤ queue.flatten.length) :
    ∃ data', blockQueuePeekBytes len 0 queue pos data = some data' ∧
      Memory.read data' 0 len = Memory.read data 0 pos ++ queue.flatten.take (len - pos) := by
  induction queue generalizing pos data with
  | nil =>
    obtain rfl : pos = len := by simp at h; omega
    exact ⟨data, by simp [blockQueuePeekBytes]⟩
  | cons block queue ih =>
    rw [List.flatten_cons, List.length_append] at h
    simp only [blockQueuePeekBytes, zero_add, Nat.zero_le, if_true, List.drop_zero, Nat.sub_zero, List.flatten_cons]
    split_ifs with hlt hb
    · have hl : (block.take (len - pos)).length = len - pos := by rw [List.length_take]; omega
      have hw := Memory.read_write_append data 0 pos (block.take (len - pos))
      rw [hl, zero_add, Nat.add_sub_cancel' hlt.le] at hw
      refine ⟨_, rfl, ?_⟩
      rw [hw, List.take_append_of_le_length hb.le]
    · have hmod : (pos + block.length) % 2 ^ 32 = pos + block.length := Nat.mod_eq_of_lt (by omega)
      obtain ⟨data', hd, hr⟩ := ih (pos + block.length) (Memory.write data pos block) (by omega) (by omega)
      have hw := Memory.read_write_append data 0 pos block
      rw [zero_add] at hw
      refine ⟨data', by rw [hmod, hd], ?_⟩
      rw [hr, hw, List.append_assoc, List.take_append, List.take_of_length_le (by omega : block.length ≤ len - pos),
        Nat.sub_add_eq]
    · obtain rfl : pos = len := by omega
      exact ⟨data, rfl, by simp⟩

/-- **Peek at the start.** It shows the first bytes of the content. -/
theorem peek_start_spec {s : BlockStream} (hs : s.Counted) {len : ℕ} (hlen : min len s.length < 2 ^ 32)
    (data : ℕ → UInt8) : ∃ data', s.peekBytes len 0 data = some (min len s.length, data') ∧
      Memory.read data' 0 (min len s.length) = s.content.take len := by
  rw [Counted] at hs
  obtain ⟨data', hd, hr⟩ := blockQueuePeekBytes_zero (min len s.length) hlen s.blockqueue 0 data (Nat.zero_le _) (by
    have : s.blockqueue.flatten.length = s.length := hs.symm
    omega)
  have hlen0 : (if s.length < 0 + min len s.length then s.length - 0 else min len s.length) = min len s.length := by
    rw [if_neg (by omega)]
  refine ⟨data', by simp only [peekBytes, hlen0, Nat.mod_eq_of_lt hlen, hd, Option.map_some], ?_⟩
  rw [hr, Memory.read_zero, List.nil_append, Nat.sub_zero]
  change s.content.take _ = _
  rw [hs, ← List.take_eq_take_min]

/-- **Peek to the end of the first block.** It shows the bytes from the offset on, at any offset inside the block. -/
theorem peek_first_block_spec {s : BlockStream} (hs : s.Counted) {block : Bytes} {queue : List Bytes}
    (hq : s.blockqueue = block :: queue) (hblock : block.length < 2 ^ 32) {len offset n : ℕ} (hn : 0 < n)
    (hlen : min len (s.length - offset) = n) (hend : offset + n = block.length) (data : ℕ → UInt8) :
    ∃ data', s.peekBytes len offset data = some (n, data') ∧
      Memory.read data' 0 n = (s.content.drop offset).take n := by
  have htotal : s.length = block.length + queue.flatten.length := by
    rw [hs, content, hq, List.flatten_cons, List.length_append]
  have hclamp : (if s.length < offset + min len s.length then s.length - offset else min len s.length) = n := by
    split_ifs <;> omega
  have hdrop : (block.drop offset).length = n := by rw [List.length_drop]; omega
  have hw := Memory.read_write data 0 (block.drop offset)
  rw [hdrop] at hw
  refine ⟨Memory.write data 0 (block.drop offset), ?_, ?_⟩
  · have hmod : block.length % 2 ^ 32 = block.length := Nat.mod_eq_of_lt hblock
    have hrest : ∀ data', blockQueuePeekBytes n offset queue block.length data' = some data' := by
      intro data'
      have hpos : ¬ block.length < n := by omega
      cases queue with
      | nil => simp only [blockQueuePeekBytes, hpos, if_false]
      | cons b queue => simp only [blockQueuePeekBytes, hpos, if_false]
    simp only [peekBytes, hclamp, Nat.mod_eq_of_lt (by omega : n < 2 ^ 32), hq, blockQueuePeekBytes, hn, if_true,
      Nat.sub_zero, hend, lt_irrefl, if_false, (by omega : offset ≤ block.length), zero_add, hmod, hrest, Option.map_some]
  · rw [hw, content, hq, List.flatten_cons, List.drop_append_of_le_length (by omega), List.take_left' hdrop]

end BlockStream

namespace SyncedBlockStream

def pushBack (s : SyncedBlockStream) (block : Bytes) : SyncedBlockStream :=
  { s.toBlockStream.pushBack block with eos := s.eos }

def setEOS (s : SyncedBlockStream) (value : Bool) : SyncedBlockStream := { s with eos := value }

/-- `GetBytes` sleeps on the condition variable -/
def sleeps (s : SyncedBlockStream) : Bool := s.length == 0 && !s.eos

/-- `GetBytes(data, len)` once it no longer sleeps -/
def getBytes (s : SyncedBlockStream) (len : ℕ) : Option (ℕ × Bytes × SyncedBlockStream) :=
  if s.length = 0 then some (0, [], s)
  else (s.toBlockStream.getBytes len).map fun r => (r.1, r.2.1, { r.2.2 with eos := s.eos })

/-- `PeekBytes(data, len, offset)` once it no longer sleeps -/
def peekBytes (s : SyncedBlockStream) (len offset : ℕ) (data : ℕ → UInt8) : Option (ℕ × (ℕ → UInt8)) :=
  if s.length = 0 ∨ s.length ≤ offset then some (0, data) else s.toBlockStream.peekBytes len offset data

/-- the synchronised read is the read of the stream -/
theorem getBytes_spec {s : SyncedBlockStream} (hs : s.Counted) {len : ℕ} (hlen : min len s.length < 2 ^ 32) :
    ∃ s', s.getBytes len = some (min len s.length, s.content.take len, s') ∧ s'.content = s.content.drop len ∧
      s'.Counted ∧ s'.eos = s.eos := by
  by_cases h0 : s.length = 0
  · have hnil : s.content = [] := List.eq_nil_of_length_eq_zero (hs ▸ h0)
    exact ⟨s, by simp [getBytes, h0, hnil], by simp [hnil], hs, rfl⟩
  · obtain ⟨s', hg, hc, hs'⟩ := BlockStream.getBytes_spec hs hlen
    exact ⟨{ s' with eos := s.eos }, by simp [getBytes, h0, hg], hc, hs', rfl⟩

end SyncedBlockStream

end NdnDash
