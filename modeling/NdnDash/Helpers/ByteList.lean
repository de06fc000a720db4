/-
The byte queue as a byte list: the operations of `BlockStream.cpp` that move, split and drop blocks, and the simulation
of the whole class by the list of its queued bytes.

Four loops consume bytes across block boundaries: `BlockQueueGetBytes` (whose callers adjust `length`), `EraseFront`
and `GetBlocks` (which adjust it block by block) and `Clear` (which resets it). `none` is a call that does not return
normally: `front()` of an empty deque, or a loop that no longer advances because its `uint32_t diff` was cut to 32 bits.

- `eraseLoop_spec` / `blocksLoop_spec`: one lemma for each loop, by induction on the queued blocks.
- `call_spec`: every call, from a stream whose counter is right, has the effect that `Effect` states on the byte list.
- `refines_byteList`: over every sequence of calls that keeps fewer than 2^32 bytes queued, all calls return, the
  counter is always the number of queued bytes, and every call has its effect.
-/
import NdnDash.Core.Machine
import NdnDash.Helpers.BlockStream

namespace NdnDash.BlockStream

/-! ## Operations -/

def empty : BlockStream := ⟨0, []⟩

def pushFront (s : BlockStream) (block : Bytes) : BlockStream :=
  { length := s.length + block.length, blockqueue := block :: s.blockqueue }

def popAndDeleteFront (s : BlockStream) : BlockStream :=
  match s.blockqueue with
  | [] => s
  | front :: queue => ⟨s.length - front.length, queue⟩

/-- `GetFront`: `none` inside the pair is `NULL` -/
def getFront (s : BlockStream) : Option Bytes × BlockStream :=
  match s.blockqueue with
  | [] => (none, s)
  | ret :: queue => (some ret, ⟨s.length - ret.length, queue⟩)

/-- `GetBytes(len)`: a new block, or `NULL` when fewer bytes are queued -/
def getBlock (s : BlockStream) (len : UInt32) : Option (Option Bytes × BlockStream) :=
  if s.length < len.toNat then some (none, s)
  else (blockQueueGetBytes s.blockqueue len.toNat).map fun r => (some r.1, ⟨s.length - len.toNat, r.2⟩)

/-- `ToBlock`: the length is converted to the `uint32_t` parameter of `GetBytes` -/
def toBlock (s : BlockStream) : Option (Option Bytes × BlockStream) :=
  if 2 ^ 64 - 1 < s.length then some (none, s) else s.getBlock (UInt32.ofNat s.length)

def clear (_ : BlockStream) : BlockStream := ⟨0, []⟩

/-- the loop of `EraseFront`. A block that reaches beyond `len` is replaced by its rest; if `len - actLen` does not fit
`diff`, the loop stops advancing. -/
def eraseLoop (len : ℕ) : List Bytes → ℕ → ℕ → Option BlockStream
  | [], _, length => some ⟨length, []⟩
  | front :: queue, actLen, length =>
    if actLen < len then
      if actLen + front.length ≤ len then eraseLoop len queue (actLen + front.length) (length - front.length)
      else if len - actLen < 2 ^ 32 then some ⟨length - (len - actLen), front.drop (len - actLen) :: queue⟩
      else none
    else some ⟨length, front :: queue⟩

def eraseFront (s : BlockStream) (len : ℕ) : Option BlockStream :=
  eraseLoop (min len s.length) s.blockqueue 0 s.length

/-- the loop of `GetBlocks`: the stream being filled and the stream left -/
def blocksLoop (len : ℕ) : List Bytes → ℕ → ℕ → BlockStream → Option (BlockStream × BlockStream)
  | [], actLen, length, blocks => if actLen < len then none else some (blocks, ⟨length, []⟩)
  | front :: queue, actLen, length, blocks =>
    if actLen < len then
      if actLen + front.length ≤ len then
        blocksLoop len queue (actLen + front.length) (length - front.length) (blocks.pushBack front)
      else if len - actLen < 2 ^ 32 then
        some (blocks.pushBack (front.take (len - actLen)),
          ⟨length - (len - actLen), front.drop (len - actLen) :: queue⟩)
      else none
    else some (blocks, ⟨length, front :: queue⟩)

/-- `GetBlocks`: a new stream, or `NULL` when fewer bytes are queued -/
def getBlocks (s : BlockStream) (len : ℕ) : Option (Option BlockStream × BlockStream) :=
  if s.length < len then some (none, s)
  else (blocksLoop len s.blockqueue 0 s.length empty).map fun r => (some r.1, r.2)

/-! ## Calls and their effect on the byte list -/

inductive Call where
  | pushBack (block : Bytes)
  | pushFront (block : Bytes)
  | getBlock (len : UInt32)
  | getBytes (len : ℕ)
  | getFront
  | popAndDeleteFront
  | eraseFront (len : ℕ)
  | getBlocks (len : ℕ)
  | toBlock
  | clear
deriving DecidableEq, Repr

/-- what a call hands back -/
inductive Ret where
  | void
  | block (ret : Option Bytes)
  | bytes (len : ℕ) (data : Bytes)
  | blocks (ret : Option BlockStream)
deriving DecidableEq, Repr

def call (s : BlockStream) : Call → Option (Ret × BlockStream)
  | .pushBack block => some (.void, s.pushBack block)
  | .pushFront block => some (.void, s.pushFront block)
  | .getBlock len => (s.getBlock len).map fun r => (.block r.1, r.2)
  | .getBytes len => (s.getBytes len).map fun r => (.bytes r.1 r.2.1, r.2.2)
  | .getFront => some (.block s.getFront.1, s.getFront.2)
  | .popAndDeleteFront => some (.void, s.popAndDeleteFront)
  | .eraseFront len => (s.eraseFront len).map fun s' => (.void, s')
  | .getBlocks len => (s.getBlocks len).map fun r => (.blocks r.1, r.2)
  | .toBlock => s.toBlock.map fun r => (.block r.1, r.2)
  | .clear => some (.void, s.clear)

/-- the first `len` bytes leave the stream through `ret` if there are that many, otherwise nothing happens -/
def Takes (s : BlockStream) (len : ℕ) (ret : Option Bytes) (s' : BlockStream) : Prop :=
  (len ≤ s.content.length → ret = some (s.content.take len) ∧ s'.content = s.content.drop len) ∧
    (s.content.length < len → ret = none ∧ s' = s)

/-- one whole block leaves the front of the queue, or nothing if there is none -/
def TakesBlock (s s' : BlockStream) (ret : Option Bytes) : Prop :=
  (s.blockqueue = [] → ret = none ∧ s' = s) ∧
    ∀ front queue, s.blockqueue = front :: queue →
      ret = some front ∧ s'.blockqueue = queue ∧ s.content = front ++ s'.content

/-- what a call is for, on the list `L = s.content` of queued bytes -/
def Effect (s : BlockStream) : Call → Ret → BlockStream → Prop
  | .pushBack block, ret, s' => ret = .void ∧ s'.content = s.content ++ block
  | .pushFront block, ret, s' => ret = .void ∧ s'.content = block ++ s.content
  | .getBlock len, ret, s' => ∃ b, ret = .block b ∧ Takes s len.toNat b s'
  | .getBytes len, ret, s' =>
    ret = .bytes (min len s.content.length) (s.content.take len) ∧ s'.content = s.content.drop len
  | .getFront, ret, s' => ∃ b, ret = .block b ∧ TakesBlock s s' b
  | .popAndDeleteFront, ret, s' => ret = .void ∧ ∃ b, TakesBlock s s' b
  | .eraseFront len, ret, s' => ret = .void ∧ s'.content = s.content.drop len
  | .getBlocks len, ret, s' => ∃ b, ret = .blocks b ∧ Takes s len (b.map content) s' ∧
      ∀ blocks, b = some blocks → blocks.Counted
  | .toBlock, ret, s' => ret = .block (some s.content) ∧ s'.content = []
  | .clear, ret, s' => ret = .void ∧ s'.content = []

/-! ## One loop at a time -/

theorem counted_empty : empty.Counted := rfl

/-- `EraseFront` from position `actLen` on: the next `len - actLen` bytes go, the counter stays right -/
theorem eraseLoop_spec (len : ℕ) (queue : List Bytes) (actLen : ℕ) (hact : actLen ≤ len)
    (hlen : len ≤ actLen + queue.flatten.length) (hsmall : len < 2 ^ 32) :
    ∃ s', eraseLoop len queue actLen queue.flatten.length = some s' ∧ s'.Counted ∧
      s'.content = queue.flatten.drop (len - actLen) := by
  induction queue generalizing actLen with
  | nil => exact ⟨empty, rfl, counted_empty, by simp [empty, content]⟩
  | cons front queue ih =>
    rw [List.flatten_cons, List.length_append] at hlen ⊢
    simp only [eraseLoop]
    split_ifs with hlt hfit hdiff
    · obtain ⟨s', hs', hcount, hcontent⟩ := ih (actLen + front.length) hfit (by omega)
      refine ⟨s', ?_, hcount, ?_⟩
      · rw [Nat.add_sub_cancel_left, hs']
      · rw [hcontent, List.drop_append, List.drop_of_length_le (by omega : front.length ≤ len - actLen),
          List.nil_append, Nat.sub_add_eq]
    · refine ⟨_, rfl, ?_, ?_⟩
      · simp only [Counted, content, List.flatten_cons, List.length_append, List.length_drop]
        omega
      · rw [content, List.flatten_cons, List.drop_append_of_le_length (by omega)]
    · omega
    · obtain rfl : actLen = len := le_antisymm hact (not_lt.1 hlt)
      refine ⟨_, rfl, ?_, ?_⟩
      · simp only [Counted, content, List.flatten_cons, List.length_append]
      · rw [content, Nat.sub_self, List.drop_zero, List.flatten_cons]

/-- `GetBlocks` from position `actLen` on: the next `len - actLen` bytes move to the stream being filled -/
theorem blocksLoop_spec (len : ℕ) (queue : List Bytes) (actLen : ℕ) (blocks : BlockStream) (hblocks : blocks.Counted)
    (hact : actLen ≤ len) (hlen : len ≤ actLen + queue.flatten.length) (hsmall : len < 2 ^ 32) :
    ∃ blocks' s', blocksLoop len queue actLen queue.flatten.length blocks = some (blocks', s') ∧
      blocks'.Counted ∧ blocks'.content = blocks.content ++ queue.flatten.take (len - actLen) ∧
      s'.Counted ∧ s'.content = queue.flatten.drop (len - actLen) := by
  induction queue generalizing actLen blocks with
  | nil =>
    have hlt : ¬ actLen < len := by simpa using hlen
    exact ⟨blocks, empty, by simp [blocksLoop, hlt, empty], hblocks, by simp, counted_empty, by simp [empty, content]⟩
  | cons front queue ih =>
    rw [List.flatten_cons, List.length_append] at hlen ⊢
    simp only [blocksLoop]
    split_ifs with hlt hfit hdiff
    · obtain ⟨blocks', s', hs', hcount, hcontent, hcount', hcontent'⟩ :=
        ih (actLen + front.length) (blocks.pushBack front) (counted_pushBack hblocks front) hfit (by omega)
      refine ⟨blocks', s', ?_, hcount, ?_, hcount', ?_⟩
      · rw [Nat.add_sub_cancel_left, hs']
      · rw [hcontent, content_pushBack, List.append_assoc, List.take_append,
          List.take_of_length_le (by omega : front.length ≤ len - actLen), Nat.sub_add_eq]
      · rw [hcontent', List.drop_append, List.drop_of_length_le (by omega : front.length ≤ len - actLen),
          List.nil_append, Nat.sub_add_eq]
    · refine ⟨_, _, rfl, counted_pushBack hblocks _, ?_, ?_, ?_⟩
      · rw [content_pushBack, List.take_append_of_le_length (by omega)]
      · simp only [Counted, content, List.flatten_cons, List.length_append, List.length_drop]
        omega
      · rw [content, List.flatten_cons, List.drop_append_of_le_length (by omega)]
    · omega
    · obtain rfl : actLen = len := le_antisymm hact (not_lt.1 hlt)
      refine ⟨blocks, _, rfl, hblocks, by simp, ?_, ?_⟩
      · simp only [Counted, content, List.flatten_cons, List.length_append]
      · rw [content, Nat.sub_self, List.drop_zero, List.flatten_cons]

/-! ## One call at a time -/

variable {s : BlockStream}

theorem content_length (hs : s.Counted) : s.content.length = s.length := hs.symm

theorem takesBlock_cons {front : Bytes} {queue : List Bytes} (hs : s.Counted) (hq : s.blockqueue = front :: queue) :
    TakesBlock s ⟨s.length - front.length, queue⟩ (some front) ∧
      (⟨s.length - front.length, queue⟩ : BlockStream).Counted := by
  have hcontent : s.content = front ++ queue.flatten := by rw [content, hq, List.flatten_cons]
  refine ⟨⟨fun hnil => ?_, fun front' queue' hq' => ?_⟩, ?_⟩
  · rw [hq] at hnil
    cases hnil
  · rw [hq] at hq'
    cases hq'
    exact ⟨rfl, rfl, hcontent⟩
  · rw [Counted, hs, hcontent, List.length_append, Nat.add_sub_cancel_left]
    rfl

theorem takesBlock_nil (hq : s.blockqueue = []) : TakesBlock s s none := by
  refine ⟨fun _ => ⟨rfl, rfl⟩, fun front queue hq' => ?_⟩
  rw [hq] at hq'
  cases hq'

theorem getFront_spec (hs : s.Counted) : s.getFront.2.Counted ∧ TakesBlock s s.getFront.2 s.getFront.1 := by
  cases hq : s.blockqueue with
  | nil =>
    have hg : s.getFront = (none, s) := by simp only [getFront, hq]
    rw [hg]
    exact ⟨hs, takesBlock_nil hq⟩
  | cons front queue =>
    have hg : s.getFront = (some front, ⟨s.length - front.length, queue⟩) := by simp only [getFront, hq]
    rw [hg]
    exact (takesBlock_cons hs hq).symm

/-- the two ways of taking the front block leave the same stream -/
theorem popAndDeleteFront_eq (s : BlockStream) : s.popAndDeleteFront = s.getFront.2 := by
  cases hq : s.blockqueue with
  | nil => simp only [popAndDeleteFront, getFront, hq]
  | cons front queue => simp only [popAndDeleteFront, getFront, hq]

theorem getBlock_spec (hs : s.Counted) (len : UInt32) :
    ∃ ret s', s.getBlock len = some (ret, s') ∧ s'.Counted ∧ Takes s len.toNat ret s' := by
  have hl := content_length hs
  by_cases hlt : s.length < len.toNat
  · refine ⟨none, s, by rw [getBlock, if_pos hlt], hs, fun hle => ?_, fun _ => ⟨rfl, rfl⟩⟩
    omega
  · obtain ⟨queue', hq, hd⟩ := blockQueueGetBytes_spec s.blockqueue len.toNat (by
      change len.toNat ≤ s.content.length
      omega)
    refine ⟨some (s.content.take len.toNat), ⟨s.length - len.toNat, queue'⟩, ?_, ?_, fun _ => ⟨rfl, hd⟩, fun hgt => ?_⟩
    · rw [getBlock, if_neg hlt, hq]
      rfl
    · change s.length - len.toNat = queue'.flatten.length
      rw [hd, List.length_drop]
      exact congrArg (· - len.toNat) hs
    · omega

theorem toBlock_spec (hs : s.Counted) (hsmall : s.content.length < 2 ^ 32) :
    ∃ s', s.toBlock = some (some s.content, s') ∧ s'.Counted ∧ s'.content = [] := by
  have hl := content_length hs
  have hlen : (UInt32.ofNat s.length).toNat = s.content.length := by
    rw [UInt32.toNat_ofNat', hl]
    exact Nat.mod_eq_of_lt (by omega)
  obtain ⟨ret, s', hg, hs', htake, -⟩ := getBlock_spec hs (UInt32.ofNat s.length)
  rw [hlen] at htake
  obtain ⟨rfl, hc⟩ := htake le_rfl
  rw [List.take_length] at hg
  rw [List.drop_length] at hc
  exact ⟨s', by rw [toBlock, if_neg (by omega), hg], hs', hc⟩

theorem eraseFront_spec (hs : s.Counted) (hsmall : s.content.length < 2 ^ 32) (len : ℕ) :
    ∃ s', s.eraseFront len = some s' ∧ s'.Counted ∧ s'.content = s.content.drop len := by
  have hl : s.length = s.blockqueue.flatten.length := hs
  rw [content] at hsmall ⊢
  obtain ⟨s', he, hs', hc⟩ :=
    eraseLoop_spec (min len s.length) s.blockqueue 0 (Nat.zero_le _) (by omega) (by omega)
  refine ⟨s', by rw [eraseFront, ← he, ← hl], hs', ?_⟩
  rw [hc, Nat.sub_zero, hl]
  rcases le_total len s.blockqueue.flatten.length with h | h
  · rw [min_eq_left h]
  · rw [min_eq_right h, List.drop_length, List.drop_of_length_le h]

theorem getBlocks_spec (hs : s.Counted) (hsmall : s.content.length < 2 ^ 32) (len : ℕ) :
    ∃ ret s', s.getBlocks len = some (ret, s') ∧ s'.Counted ∧ Takes s len (ret.map content) s' ∧
      ∀ blocks, ret = some blocks → blocks.Counted := by
  have hl : s.length = s.blockqueue.flatten.length := hs
  by_cases hlt : s.length < len
  · refine ⟨none, s, by rw [getBlocks, if_pos hlt], hs, ⟨fun hle => ?_, fun _ => ⟨rfl, rfl⟩⟩, fun blocks hb => ?_⟩
    · exact absurd hle (not_le.2 (hl ▸ hlt))
    · cases hb
  · change s.blockqueue.flatten.length < 2 ^ 32 at hsmall
    obtain ⟨blocks, s', hb, hblocks, hc, hs', hc'⟩ :=
      blocksLoop_spec len s.blockqueue 0 empty counted_empty (Nat.zero_le _) (by omega) (by omega)
    rw [← hl] at hb
    refine ⟨some blocks, s', by rw [getBlocks, if_neg hlt, hb, Option.map_some], hs', ⟨fun _ => ⟨?_, hc'⟩, ?_⟩,
      ?_⟩
    · rw [Option.map_some, hc]
      rfl
    · intro hgt
      exact absurd (hl ▸ hgt) hlt
    · intro blocks' hb'
      cases hb'
      exact hblocks

/-- **One call.** With fewer than 2^32 bytes queued, a call returns, keeps the counter right and has its effect. -/
theorem call_spec (hs : s.Counted) (hsmall : s.content.length < 2 ^ 32) (c : Call) :
    ∃ ret s', s.call c = some (ret, s') ∧ s'.Counted ∧ Effect s c ret s' := by
  cases c with
  | pushBack block => exact ⟨_, _, rfl, counted_pushBack hs block, rfl, content_pushBack s block⟩
  | pushFront block =>
    refine ⟨_, _, rfl, ?_, rfl, rfl⟩
    change s.length + block.length = (block ++ s.content).length
    rw [List.length_append, ← hs, Nat.add_comm]
  | getBlock len =>
    obtain ⟨ret, s', hg, hs', ht⟩ := getBlock_spec hs len
    exact ⟨_, s', by rw [call, hg, Option.map_some], hs', ret, rfl, ht⟩
  | getBytes len =>
    have hl := content_length hs
    have hmin : min len s.length < 2 ^ 32 := by omega
    obtain ⟨s', hg, hc, hs'⟩ := getBytes_spec hs hmin
    refine ⟨_, s', by rw [call, hg, Option.map_some], hs', ?_, hc⟩
    rw [hl]
  | getFront =>
    obtain ⟨hs', ht⟩ := getFront_spec hs
    exact ⟨_, _, rfl, hs', _, rfl, ht⟩
  | popAndDeleteFront =>
    obtain ⟨hs', ht⟩ := getFront_spec hs
    refine ⟨_, _, rfl, ?_, rfl, s.getFront.1, ?_⟩
    · rw [popAndDeleteFront_eq]
      exact hs'
    · rw [popAndDeleteFront_eq]
      exact ht
  | eraseFront len =>
    obtain ⟨s', he, hs', hc⟩ := eraseFront_spec hs hsmall len
    exact ⟨_, s', by rw [call, he, Option.map_some], hs', rfl, hc⟩
  | getBlocks len =>
    obtain ⟨ret, s', hg, hs', ht, hblocks⟩ := getBlocks_spec hs hsmall len
    exact ⟨_, s', by rw [call, hg, Option.map_some], hs', ret, rfl, ht, hblocks⟩
  | toBlock =>
    obtain ⟨s', ht, hs', hc⟩ := toBlock_spec hs hsmall
    exact ⟨_, s', by rw [call, ht, Option.map_some], hs', rfl, hc⟩
  | clear => exact ⟨_, _, rfl, counted_empty, rfl, rfl⟩

/-! ## Sequences of calls -/

/-- one call of a sequence; `none` once a call has not returned -/
def step (o : Option BlockStream) (c : Call) : Option BlockStream :=
  o.bind fun s => (s.call c).map Prod.snd

/-- the call is made with fewer than 2^32 bytes queued -/
def Small (o : Option BlockStream) (_ : Call) : Prop := ∀ s ∈ o, s.content.length < 2 ^ 32

instance (o : Option BlockStream) (c : Call) : Decidable (Small o c) := by
  unfold Small; infer_instance

/-- a stream whose counter is right has been reached -/
def Alive (o : Option BlockStream) : Prop := ∃ s, o = some s ∧ s.Counted

theorem step_alive (o : Option BlockStream) (c : Call) (h : Alive o) (hsmall : Small o c) : Alive (step o c) := by
  obtain ⟨s, rfl, hs⟩ := h
  obtain ⟨ret, s', hc, hs', -⟩ := call_spec hs (hsmall s rfl) c
  exact ⟨s', by rw [step, Option.bind_some, hc, Option.map_some], hs'⟩

/-- a sequence of calls made with fewer than 2^32 bytes queued ends in a stream whose counter is right -/
theorem run_alive {calls : List Call} (h : Machine.Along step Small (some empty) calls) :
    Alive (Machine.run step (some empty) calls) :=
  Machine.run_inv step step_alive ⟨empty, rfl, counted_empty⟩ h

/-- **The stream refines a byte list.** In every sequence of calls made with fewer than 2^32 bytes queued, every call
returns, `length` is always the number of queued bytes, and every call has its effect on the byte list. -/
theorem refines_byteList {calls : List Call} (h : Machine.Along step Small (some empty) calls) :
    Alive (Machine.run step (some empty) calls) ∧
      ∀ pre c post, calls = pre ++ c :: post → ∃ s ret s', Machine.run step (some empty) pre = some s ∧ s.Counted ∧
        s.call c = some (ret, s') ∧ Machine.run step (some empty) (pre ++ [c]) = some s' ∧ s'.Counted ∧
        Effect s c ret s' := by
  refine ⟨run_alive h, fun pre c post hcalls => ?_⟩
  subst hcalls
  obtain ⟨hpre, hsmall, -⟩ := (Machine.along_append step Small (some empty) pre (c :: post)).1 h
  obtain ⟨s, hrun, hs⟩ := run_alive hpre
  rw [hrun] at hsmall
  obtain ⟨ret, s', hc, hs', heffect⟩ := call_spec hs (hsmall s rfl) c
  refine ⟨s, ret, s', hrun, hs, hc, ?_, hs', heffect⟩
  rw [Machine.run_append, hrun, Machine.run_cons, Machine.run_nil, step, Option.bind_some, hc, Option.map_some]

/-- zero-length blocks, a split inside a block by each of the loops, and a read past the end -/
theorem refines_byteList_splits :
    Machine.run step (some empty) [.pushBack [], .pushBack [1, 2, 3], .pushFront [0], .eraseFront 2, .pushBack [4],
      .getBlocks 1, .getBytes 9] = some ⟨0, []⟩ ∧
    Alive (Machine.run step (some empty) [.pushBack [], .pushBack [1, 2, 3], .pushFront [0], .eraseFront 2,
      .pushBack [4], .getBlocks 1, .getBytes 9]) :=
  ⟨by decide, (refines_byteList (by decide)).1⟩

end NdnDash.BlockStream
