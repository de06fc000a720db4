/-
The byte queue between a download thread and its readers, with its threads: `SyncedBlockStream` (`SyncedBlockStream.cpp`)
as a monitor over the operations of `BlockStream`.

A stream may have any number of readers (an initialization segment is peeked by every decoder that needs it). The calls
that return bytes sleep on `full` until there are some or the end of the stream is set; at the end of the stream they
return nothing. `log` records the calls in the order in which they did their work, with what they returned.

- `call_effect`: what a call does to the byte list, and what it returns; it returns nothing only at the end of the stream.
- `covers`: only pushes and `SetEOS` let a sleeper go on, and they wake all.
- `stream_threads`: every interleaving of the threads is one sequence of single calls with these effects, no reader sleeps
  while there is something for it or the end of the stream is set, and readers take the bytes in the order of the pushes.
-/
import NdnDash.Core.Monitor
import NdnDash.Helpers.ByteList
import NdnDash.Helpers.Peek

namespace NdnDash.SyncedBlockStream

open NdnDash.Machine NdnDash.Monitor

variable {ι : Type}

/-! ## Model -/

/-- the calls; a peek has a destination with some bytes in it -/
inductive Call where
  | op (c : BlockStream.Call)
  | front
  | peekBytesFront (len : ℕ) (data : Bytes)
  | peekBytes (len offset : ℕ) (data : Bytes)
  | byteAt (position : ℕ)
  | length
  | setEOS (value : Bool)
deriving DecidableEq, Repr

inductive Ret where
  | op (ret : BlockStream.Ret)
  | peeked (len : ℕ) (data : Bytes)
  | byte (ret : UInt8)
  | length (ret : ℕ)
  | void
deriving DecidableEq, Repr

/-- the operations that wait for bytes -/
def waits : BlockStream.Call → Bool
  | .getBlock _ | .getBytes _ | .getFront | .getBlocks _ | .toBlock => true
  | _ => false

/-- what these return when there are none -/
def nothing : BlockStream.Call → BlockStream.Ret
  | .getBytes _ => .bytes 0 []
  | .getBlocks _ => .blocks none
  | _ => .block none

/-- the bytes of a destination -/
def destination (data : Bytes) : ℕ → UInt8 := fun i => data.getD i 0

namespace Call

/-- there is something for the call -/
def available (length : ℕ) : Call → Bool
  | .op c => !waits c || 0 < length
  | .front => 0 < length
  | .peekBytesFront _ _ => 0 < length
  | .peekBytes _ offset _ => 0 < length && offset < length
  | .byteAt position => position ≤ length
  | .length => true
  | .setEOS _ => true

end Call

/-- the work of a call that no longer waits -/
def call (s : SyncedBlockStream) : Call → Option (Ret × SyncedBlockStream)
  | .op c =>
    if waits c ∧ s.length = 0 then some (.op (nothing c), s)
    else (s.toBlockStream.call c).map fun r => (.op r.1, { r.2 with eos := s.eos })
  | .front => some (.op (.block (if s.length = 0 then none else s.blockqueue.head?)), s)
  | .peekBytesFront len data =>
    if s.length = 0 then some (.peeked 0 [], s)
    else (s.toBlockStream.peekBytesFront len (destination data)).map fun r => (.peeked r.1 (Memory.read r.2 0 r.1), s)
  | .peekBytes len offset data =>
    (s.peekBytes len offset (destination data)).map fun r => (.peeked r.1 (Memory.read r.2 0 r.1), s)
  | .byteAt position => some (.byte (if s.length < position then 0 else s.toBlockStream.byteAt position), s)
  | .length => some (.length s.length, s)
  | .setEOS value => some (.void, s.setEOS value)

/-- the stream, and the calls that have done their work with what they returned -/
structure Logged where
  stream : SyncedBlockStream
  log : List (Call × Ret)
deriving DecidableEq

/-- a constructed stream -/
def empty : SyncedBlockStream := { BlockStream.empty with eos := false }

/-- the stream as a monitor with its one condition variable `full` -/
def monitor : Monitor (Option Logged) Call Unit where
  canGo k o := o.elim false fun x => k.available x.stream.length || x.stream.eos
  work k o := o.bind fun x => (x.stream.call k).map fun r => ⟨r.2, x.log ++ [(k, r.1)]⟩
  cond _ := ()
  wakes k _ _ :=
    match k with
    | .op (.pushBack _) | .op (.pushFront _) | .setEOS _ => true
    | _ => false
  again := id

/-- fewer than 2^32 bytes are queued -/
def Small (s : Monitor.St (Option Logged) Call ι) (_ : Monitor.Op Call ι) : Prop :=
  ∀ x ∈ s.shared, x.stream.content.length < 2 ^ 32

instance (s : Monitor.St (Option Logged) Call ι) (op : Monitor.Op Call ι) : Decidable (Small s op) := by
  unfold Small; infer_instance

/-! ## What the stream is for -/

/-- what a call does, on the byte list and the mark -/
def Effect (s : SyncedBlockStream) : Call → Ret → SyncedBlockStream → Prop
  | .op c, ret, s' =>
    s'.eos = s.eos ∧ ∃ r, ret = .op r ∧
      if waits c ∧ s.content = [] then r = nothing c ∧ s' = s
      else BlockStream.Effect s.toBlockStream c r s'.toBlockStream
  | .front, ret, s' =>
    s' = s ∧ ∃ b, ret = .op (.block b) ∧ if s.content = [] then b = none else b = s.blockqueue.head?
  | .peekBytesFront len _, ret, s' => s' = s ∧ ret = .peeked (min len s.content.length) (s.content.take len)
  | .peekBytes _ _ _, _, s' => s' = s
  | .byteAt position, ret, s' =>
    s' = s ∧ ∃ b, ret = .byte b ∧ (position < s.content.length → s.content[position]? = some b)
  | .length, ret, s' => s' = s ∧ ret = .length s.content.length
  | .setEOS value, ret, s' => ret = .void ∧ s'.toBlockStream = s.toBlockStream ∧ s'.eos = value

/-- a sequence of single calls; a call without anything for it is made at the end of the stream only -/
inductive Sequential : SyncedBlockStream → List (Call × Ret) → SyncedBlockStream → Prop
  | nil (s : SyncedBlockStream) : Sequential s [] s
  | snoc {s t u : SyncedBlockStream} {log : List (Call × Ret)} {k : Call} {ret : Ret} (h : Sequential s log t)
      (hgo : k.available t.content.length = true ∨ t.eos = true) (heffect : Effect t k ret u) :
      Sequential s (log ++ [(k, ret)]) u

/-- the bytes that an entry of the log has put in -/
def pushed : Call × Ret → Bytes
  | (.op (.pushBack block), _) => block
  | _ => []

/-- the bytes that an entry of the log has taken out -/
def taken : Call × Ret → Bytes
  | (.op _, .op (.bytes _ data)) => data
  | (.op _, .op (.block (some block))) => block
  | (.op _, .op (.blocks (some blocks))) => blocks.content
  | _ => []

/-- the calls of a download and its readers -/
def Reading : Call → Prop
  | .op (.pushFront _) | .op .popAndDeleteFront | .op (.eraseFront _) | .op .clear => False
  | _ => True

/-! ## One call -/

variable {s s' : SyncedBlockStream}

theorem length_eq_zero (hs : s.Counted) : s.length = 0 ↔ s.content = [] := by
  rw [hs, List.length_eq_zero_iff]

/-- **One call.** From a stream whose counter is right, with fewer than 2^32 bytes queued. -/
theorem call_effect (hs : s.Counted) (hsmall : s.content.length < 2 ^ 32) (k : Call) {ret : Ret}
    (hcall : s.call k = some (ret, s')) : s'.Counted ∧ Effect s k ret s' := by
  cases k with
  | op c =>
    simp only [call] at hcall
    split_ifs at hcall with hnothing
    · simp only [Option.some.injEq, Prod.mk.injEq] at hcall
      obtain ⟨rfl, rfl⟩ := hcall
      have hcontent : waits c ∧ s.content = [] := ⟨hnothing.1, (length_eq_zero hs).1 hnothing.2⟩
      exact ⟨hs, rfl, _, rfl, by rw [if_pos hcontent]; exact ⟨rfl, rfl⟩⟩
    · obtain ⟨r, t, hr, ht, heffect⟩ := BlockStream.call_spec hs hsmall c
      rw [hr, Option.map_some, Option.some.injEq, Prod.mk.injEq] at hcall
      obtain ⟨rfl, rfl⟩ := hcall
      have hcontent : ¬ (waits c ∧ s.content = []) := fun h => hnothing ⟨h.1, (length_eq_zero hs).2 h.2⟩
      exact ⟨ht, rfl, _, rfl, by rw [if_neg hcontent]; exact heffect⟩
  | front =>
    simp only [call, Option.some.injEq, Prod.mk.injEq] at hcall
    obtain ⟨rfl, rfl⟩ := hcall
    refine ⟨hs, rfl, _, rfl, ?_⟩
    simp only [length_eq_zero hs]
    split_ifs <;> rfl
  | peekBytesFront len data =>
    obtain ⟨d, hpeek, hread⟩ := BlockStream.peek_start_spec hs
      (lt_of_le_of_lt (min_le_right len s.length) (hs ▸ hsmall)) (destination data)
    simp only [call] at hcall
    split_ifs at hcall with h0
    · simp only [Option.some.injEq, Prod.mk.injEq] at hcall
      obtain ⟨rfl, rfl⟩ := hcall
      exact ⟨hs, rfl, by simp [(length_eq_zero hs).1 h0]⟩
    · rw [BlockStream.peekBytesFront_eq, hpeek, Option.map_some, Option.some.injEq, Prod.mk.injEq] at hcall
      obtain ⟨rfl, rfl⟩ := hcall
      refine ⟨hs, rfl, ?_⟩
      rw [hread]
      exact congrArg (Ret.peeked · _) (congrArg (min len) hs)
  | peekBytes len offset data =>
    obtain ⟨r, -, hr⟩ := Option.map_eq_some_iff.1 hcall
    obtain ⟨-, rfl⟩ := Prod.mk.injEq .. ▸ hr
    exact ⟨hs, rfl⟩
  | byteAt position =>
    simp only [call, Option.some.injEq, Prod.mk.injEq] at hcall
    obtain ⟨rfl, rfl⟩ := hcall
    refine ⟨hs, rfl, _, rfl, fun hposition => ?_⟩
    have hlength : s.length = s.content.length := hs
    rw [if_neg (by omega)]
    exact BlockStream.byteAt_spec hs hposition
  | length =>
    simp only [call, Option.some.injEq, Prod.mk.injEq] at hcall
    obtain ⟨rfl, rfl⟩ := hcall
    exact ⟨hs, rfl, congrArg Ret.length hs⟩
  | setEOS value =>
    simp only [call, Option.some.injEq, Prod.mk.injEq] at hcall
    obtain ⟨rfl, rfl⟩ := hcall
    exact ⟨hs, rfl, rfl, rfl⟩

/-- the calls that let a sleeper go on -/
def Call.notifies : Call → Bool
  | .op (.pushBack _) | .op (.pushFront _) | .setEOS _ => true
  | _ => false

theorem Call.available_mono {a b : ℕ} (h : a ≤ b) (k : Call) (ha : k.available a = true) : k.available b = true := by
  match k with
  | .op c =>
    simp only [Call.available, Bool.or_eq_true, decide_eq_true_eq] at ha ⊢
    exact ha.imp_right fun hpos => hpos.trans_le h
  | .front => exact decide_eq_true ((of_decide_eq_true ha).trans_le h)
  | .peekBytesFront _ _ => exact decide_eq_true ((of_decide_eq_true ha).trans_le h)
  | .peekBytes _ offset _ =>
    simp only [Call.available, Bool.and_eq_true, decide_eq_true_eq] at ha ⊢
    exact ⟨ha.1.trans_le h, ha.2.trans_le h⟩
  | .byteAt position => exact decide_eq_true ((of_decide_eq_true ha).trans h)
  | .length => rfl
  | .setEOS _ => rfl

/-- what is taken goes from the front of the content -/
theorem takes_content {b b' : BlockStream} {len : ℕ} {ret : Option Bytes} (h : BlockStream.Takes b len ret b') :
    b.content = ret.getD [] ++ b'.content := by
  rcases Nat.lt_or_ge b.content.length len with hlt | hle
  · obtain ⟨rfl, rfl⟩ := h.2 hlt
    rfl
  · obtain ⟨rfl, hcontent⟩ := h.1 hle
    rw [hcontent, Option.getD_some, List.take_append_drop]

theorem takesBlock_content {b b' : BlockStream} {ret : Option Bytes} (h : BlockStream.TakesBlock b b' ret) :
    b.content = ret.getD [] ++ b'.content := by
  cases hqueue : b.blockqueue with
  | nil =>
    obtain ⟨rfl, rfl⟩ := h.1 hqueue
    rfl
  | cons front queue =>
    obtain ⟨rfl, -, hcontent⟩ := h.2 front queue hqueue
    exact hcontent

/-- an operation that pushes nothing leaves an end of the content -/
theorem op_suffix {b b' : BlockStream} {c : BlockStream.Call} {ret : BlockStream.Ret}
    (hpush : Call.notifies (.op c) = false) (h : BlockStream.Effect b c ret b') : b'.content <:+ b.content := by
  cases c with
  | pushBack block => cases hpush
  | pushFront block => cases hpush
  | getBlock len =>
    obtain ⟨r, -, htakes⟩ := h
    exact ⟨_, (takes_content htakes).symm⟩
  | getBytes len => exact h.2 ▸ List.drop_suffix _ _
  | getFront =>
    obtain ⟨r, -, htakes⟩ := h
    exact ⟨_, (takesBlock_content htakes).symm⟩
  | popAndDeleteFront =>
    obtain ⟨-, r, htakes⟩ := h
    exact ⟨_, (takesBlock_content htakes).symm⟩
  | eraseFront len => exact h.2 ▸ List.drop_suffix _ _
  | getBlocks len =>
    obtain ⟨r, -, htakes, -⟩ := h
    exact ⟨_, (takes_content htakes).symm⟩
  | toBlock => exact h.2 ▸ List.nil_suffix
  | clear => exact h.2 ▸ List.nil_suffix

/-- a call that wakes nobody adds no bytes and leaves the mark -/
theorem effect_silent {k : Call} {ret : Ret} (hsilent : k.notifies = false) (h : Effect s k ret s') :
    s'.content <:+ s.content ∧ s'.eos = s.eos := by
  match k, h with
  | .op c, h =>
    obtain ⟨heos, r, -, heffect⟩ := h
    split_ifs at heffect
    · rw [heffect.2]
      exact ⟨List.suffix_refl _, rfl⟩
    · exact ⟨op_suffix hsilent heffect, heos⟩
  | .front, h => exact h.1 ▸ ⟨List.suffix_refl _, rfl⟩
  | .peekBytesFront _ _, h => exact h.1 ▸ ⟨List.suffix_refl _, rfl⟩
  | .peekBytes _ _ _, h =>
    rw [h]
    exact ⟨List.suffix_refl _, rfl⟩
  | .byteAt _, h => exact h.1 ▸ ⟨List.suffix_refl _, rfl⟩
  | .length, h => exact h.1 ▸ ⟨List.suffix_refl _, rfl⟩

/-- what goes in and what comes out, for the calls of a download and its readers -/
theorem effect_content {k : Call} {ret : Ret} (hreading : Reading k) (h : Effect s k ret s') :
    s.content ++ pushed (k, ret) = taken (k, ret) ++ s'.content := by
  match k, h with
  | .op c, h =>
    obtain ⟨-, r, rfl, heffect⟩ := h
    split_ifs at heffect with hnothing
    · obtain ⟨rfl, rfl⟩ := heffect
      obtain ⟨hwaits, hempty⟩ := hnothing
      have hpushed : pushed (.op c, .op (nothing c)) = [] := by
        cases c <;> first | rfl | cases hwaits
      have htaken : taken (.op c, .op (nothing c)) = [] := by
        cases c <;> rfl
      rw [hpushed, htaken, hempty]
    · cases c with
      | pushBack block =>
        obtain ⟨rfl, hcontent⟩ := heffect
        simpa [pushed, taken] using hcontent.symm
      | getBlock len =>
        obtain ⟨b, rfl, htakes⟩ := heffect
        have hcontent := takes_content htakes
        cases b <;> simpa [pushed, taken] using hcontent
      | getBytes len =>
        obtain ⟨rfl, hcontent⟩ := heffect
        simp only [pushed, taken, List.append_nil]
        exact (List.take_append_drop len s.content).symm.trans (congrArg _ hcontent.symm)
      | getFront =>
        obtain ⟨b, rfl, htakes⟩ := heffect
        have hcontent := takesBlock_content htakes
        cases b <;> simpa [pushed, taken] using hcontent
      | getBlocks len =>
        obtain ⟨b, rfl, htakes, -⟩ := heffect
        have hcontent := takes_content htakes
        cases b <;> simpa [pushed, taken] using hcontent
      | toBlock =>
        obtain ⟨rfl, hcontent⟩ := heffect
        simp [pushed, taken, hcontent]
      | pushFront block => exact absurd hreading id
      | popAndDeleteFront => exact absurd hreading id
      | eraseFront len => exact absurd hreading id
      | clear => exact absurd hreading id
  | .front, h =>
    obtain ⟨rfl, b, rfl, -⟩ := h
    simp [pushed, taken]
  | .peekBytesFront _ _, h =>
    rw [h.1]
    simp [pushed, taken]
  | .peekBytes _ _ _, h =>
    rw [h]
    simp [pushed, taken]
  | .byteAt _, h =>
    rw [h.1]
    simp [pushed, taken]
  | .length, h =>
    rw [h.1]
    simp [pushed, taken]
  | .setEOS _, h =>
    have hcontent : s'.content = s.content := congrArg BlockStream.content h.2.1
    simp [pushed, taken, hcontent]

/-! ## All threads -/

/-- the log explains the stream -/
def Explained (o : Option Logged) : Prop :=
  ∀ x, o = some x → x.stream.Counted ∧ Sequential empty x.log x.stream

/-- a call that is made as a single step continues the log -/
theorem attempt_explained {o : Option Logged} (h : Explained o)
    (hsmall : ∀ x, o = some x → x.stream.content.length < 2 ^ 32) (k : Call) : Explained (monitor.attempt o k) := by
  unfold Monitor.attempt
  split_ifs with hgo
  · intro y hy
    obtain ⟨x, rfl, hwork⟩ := Option.bind_eq_some_iff.1 hy
    obtain ⟨⟨ret, s'⟩, hcall, rfl⟩ := Option.map_eq_some_iff.1 hwork
    obtain ⟨hcounted, hsequential⟩ := h x rfl
    obtain ⟨hcounted', heffect⟩ := call_effect hcounted (hsmall x rfl) k hcall
    have hlength : x.stream.length = x.stream.content.length := hcounted
    refine ⟨hcounted', hsequential.snoc ?_ heffect⟩
    simpa [monitor, hlength] using hgo
  · exact h

/-- **Only pushes and `SetEOS` let a sleeper go on.** -/
theorem covers {o : Option Logged} (h : Explained o) (hsmall : ∀ x, o = some x → x.stream.content.length < 2 ^ 32)
    (k k' : Call) : monitor.Covers o k k' := by
  intro hbefore hafter
  cases hnotifies : k.notifies with
  | true =>
    match k, hnotifies with
    | .op (.pushBack _), _ => rfl
    | .op (.pushFront _), _ => rfl
    | .setEOS _, _ => rfl
  | false =>
    exfalso
    cases o with
    | none => simp [monitor] at hafter
    | some x =>
      cases hcall : x.stream.call k with
      | none => simp [monitor, hcall] at hafter
      | some r =>
        have hcounted := (h x rfl).1
        obtain ⟨hcounted', heffect⟩ := call_effect hcounted (hsmall x rfl) k hcall
        obtain ⟨hsuffix, heos⟩ := effect_silent hnotifies heffect
        have hlength : r.2.length ≤ x.stream.length := by
          rw [hcounted, hcounted']
          exact hsuffix.length_le
        simp only [monitor, Option.elim_some, Option.bind_some, hcall, Option.map_some, Bool.or_eq_false_iff,
          Bool.or_eq_true, heos] at hbefore hafter
        rcases hafter with hafter | hafter
        · rw [Call.available_mono hlength k' hafter] at hbefore
          exact absurd hbefore.1 (by decide)
        · rw [hafter] at hbefore
          exact absurd hbefore.2 (by decide)

/-- in a sequence of single calls of a download and its readers nothing is lost, repeated or out of order -/
theorem sequential_content {log : List (Call × Ret)} (h : Sequential s log s') (hreading : ∀ e ∈ log, Reading e.1) :
    s.content ++ log.flatMap pushed = log.flatMap taken ++ s'.content := by
  induction h with
  | nil => simp
  | @snoc t u log k ret _ _ heffect ih =>
    have hlog := ih fun e he => hreading e (List.mem_append_left _ he)
    have hlast := effect_content (hreading (k, ret) (by simp)) heffect
    rw [List.flatMap_append, List.flatMap_append, List.flatMap_singleton, List.flatMap_singleton, ← List.append_assoc,
      hlog, List.append_assoc, hlast, List.append_assoc]

variable [DecidableEq ι]

/-- the log explains the stream, and nobody sleeps who can go on -/
structure ThreadsInv (s : Monitor.St (Option Logged) Call ι) : Prop where
  explained : Explained s.shared
  awake : monitor.Awake s

theorem threads_step (s : Monitor.St (Option Logged) Call ι) (op : Monitor.Op Call ι) (h : ThreadsInv s)
    (hsmall : Small s op) : ThreadsInv (monitor.step s op) where
  explained := by
    rw [step_shared]
    cases tested s op with
    | none => exact h.explained
    | some k => exact attempt_explained h.explained hsmall k
  awake := awake_step (fun _ _ hgo => hgo) s op h.awake fun k _ _ _ k' _ => covers h.explained hsmall k k'

/-- **The stream with its threads.** For any number of threads and every interleaving of their calls, waits and wake-ups
with fewer than 2^32 bytes queued: the calls have done their work one after the other, each with its effect; a call that
returned nothing did so at the end of the stream; who sleeps has nothing to return yet; and with the calls of a download
and its readers, what was taken is the start of what was pushed. -/
theorem stream_threads (ops : List (Monitor.Op Call ι))
    (hsmall : Along monitor.step Small (Monitor.init (some ⟨empty, []⟩)) ops) {x : Logged}
    (hx : (run monitor.step (Monitor.init (some ⟨empty, []⟩)) ops).shared = some x) :
    Sequential empty x.log x.stream ∧
      (∀ t k, (run monitor.step (Monitor.init (some ⟨empty, []⟩)) ops).place t = .asleep k →
        x.stream.eos = false ∧ k.available x.stream.content.length = false) ∧
      ((∀ e ∈ x.log, Reading e.1) → x.log.flatMap pushed = x.log.flatMap taken ++ x.stream.content) := by
  have hinit : ThreadsInv (Monitor.init (some ⟨empty, []⟩) : Monitor.St (Option Logged) Call ι) := by
    refine ⟨fun x hx => ?_, awake_init _ _⟩
    rw [← Option.some.inj hx]
    exact ⟨BlockStream.counted_empty, .nil _⟩
  have h := run_inv monitor.step threads_step hinit hsmall
  obtain ⟨hcounted, hsequential⟩ := h.explained x hx
  refine ⟨hsequential, fun t k hsleep => ?_, fun hreading => ?_⟩
  · have hawake := h.awake t k hsleep
    rw [hx] at hawake
    simp only [monitor, Option.elim_some, Bool.or_eq_false_iff] at hawake
    have hlength : x.stream.length = x.stream.content.length := hcounted
    rw [hlength] at hawake
    exact ⟨hawake.2, hawake.1⟩
  · exact sequential_content hsequential hreading

/-- two readers wait for a download of three bytes; one of them gets them in two parts, the other one nothing -/
def twoReaders : List (Monitor.Op Call ℕ) :=
  [.call 0 (.op (.getBytes 2)), .call 1 (.op (.getBytes 9)), .call 2 (.op (.pushBack [1, 2, 3])), .resume 0,
    .call 0 (.op (.getBytes 2)), .resume 1, .call 2 (.setEOS true), .resume 1]

theorem stream_threads_twoReaders :
    ∃ x, (run monitor.step (Monitor.init (some ⟨empty, []⟩)) twoReaders).shared = some x ∧
      x.log = [(.op (.pushBack [1, 2, 3]), .op .void), (.op (.getBytes 2), .op (.bytes 2 [1, 2])),
        (.op (.getBytes 2), .op (.bytes 1 [3])), (.setEOS true, .void), (.op (.getBytes 9), .op (.bytes 0 []))] ∧
      Sequential empty x.log x.stream := by
  refine ⟨⟨{ length := 0, blockqueue := [], eos := true }, _⟩, by decide, rfl, ?_⟩
  exact (stream_threads twoReaders (by decide) (by decide)).1

end NdnDash.SyncedBlockStream
