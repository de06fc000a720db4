/-
The bounds of the reassembly buffer over unbounded runs of the NDN client: resets, the arrival and timeout callbacks and
`NDNConnection::Read`, in any order and any number, over any sequence of downloads.

`m_segBuffer` has 4 MiB (the size in `dash-consumer.h`); `resetSegBuffer` clears 2 MiB of it (the size of the same name
in `dash-consumer.cpp`); nothing compares the append offset with either.

- `InBounds`: `m_readBufferSize ≤ m_validateBufferSize ≤ 4 MiB`, and what a `Read` copies lies inside.
- `run_sinceReset`: while everything fits, the append offset is the number of bytes that arrived since the last reset.
- `inBounds_iff`: the bounds hold in every state of a run exactly when no more than 4 MiB arrive between two resets.
- `preDownload_run`: `PreDownload` is such a run, with as many packet requests as the network has announced.
- `packets_overrun`: 1025 packets of 4096 bytes overrun the buffer.
-/
import NdnDash.Core.Machine
import NdnDash.Ndn.Consumer

namespace NdnDash.Ndn

open NdnDash.Machine

/-- the content of the answer to a number request: the 8 bytes of the number of packets -/
def Announced : Type := { content : Bytes // content.length = 8 }
deriving DecidableEq, Repr

inductive Event where
  | resetSegBuffer
  | numberArrive (announced : Announced)
  | numberTimeout
  | dataArrive (content : Bytes)
  | dataTimeout
  | read (len : ℕ)
deriving DecidableEq, Repr

/-- `none` once a copy has left the buffer -/
def event (o : Option Consumer) (e : Event) : Option Consumer :=
  o.bind fun c =>
    match e with
    | .resetSegBuffer => some c.resetSegBuffer
    | .numberArrive announced => c.onRequestNumberArrive announced.1
    | .numberTimeout => some c.onRequestNumberTimeout
    | .dataArrive content => c.onRequestDataArrive content
    | .dataTimeout => some c.onRequsetDataTimeout
    | .read len => some (c.read len).2

/-- the invariant the buffer needs, and what it gives to `Read` -/
structure InBounds (c : Consumer) : Prop where
  read_le : c.readBufferSize ≤ c.validateBufferSize
  validate_le : c.validateBufferSize ≤ segBufferSize
  copied_le : ∀ len, c.readBufferSize + (c.read len).1.data.length ≤ segBufferSize

/-- the state has been reached without a copy outside the buffer, and is in bounds -/
def Safe (o : Option Consumer) : Prop := ∃ c, o = some c ∧ InBounds c

/-- the number of bytes that have arrived since the last reset -/
def sinceReset (events : List Event) : ℕ :=
  events.foldl (fun n e =>
    match e with
    | .resetSegBuffer => 0
    | .dataArrive content => n + content.length
    | _ => n) 0

theorem sinceReset_snoc (events : List Event) (e : Event) :
    sinceReset (events ++ [e]) =
      match e with
      | .resetSegBuffer => 0
      | .dataArrive content => sinceReset events + content.length
      | _ => sinceReset events := by
  cases e <;> simp [sinceReset, List.foldl_append]

/-- the two offsets after a run: the append offset counts the bytes since the last reset -/
structure Counts (n : ℕ) (c : Consumer) : Prop where
  read_le : c.readBufferSize ≤ c.validateBufferSize
  validate : c.validateBufferSize = n
  fits : n ≤ segBufferSize

theorem Counts.inBounds {n : ℕ} {c : Consumer} (h : Counts n c) : InBounds c := by
  have hle : c.validateBufferSize ≤ segBufferSize := h.validate.trans_le h.fits
  refine ⟨h.read_le, hle, fun len => ?_⟩
  have hread := (Consumer.read_spec h.read_le len).1
  have hlen : (c.read len).1.data.length ≤ c.validateBufferSize - c.readBufferSize := by
    rw [hread, Chunk.ReadResult.ofBytes_data]
    exact (List.length_take_le' _ _).trans (Memory.length_read _ _ _).le
  have := h.read_le
  omega

theorem counts_reset (c : Consumer) : Counts 0 c.resetSegBuffer := ⟨le_rfl, rfl, Nat.zero_le _⟩

/-- one event: it overruns the buffer exactly when a packet does not fit, and otherwise the count goes on -/
theorem event_spec {events : List Event} {c : Consumer} (h : Counts (sinceReset events) c) (e : Event) :
    event (some c) e = none ∧ segBufferSize < sinceReset (events ++ [e]) ∨
      ∃ c', event (some c) e = some c' ∧ Counts (sinceReset (events ++ [e])) c' := by
  rw [sinceReset_snoc]
  cases e with
  | resetSegBuffer => exact Or.inr ⟨_, rfl, counts_reset c⟩
  | numberArrive announced => exact Or.inr ⟨_, if_pos announced.2.le, h.read_le, h.validate, h.fits⟩
  | numberTimeout => exact Or.inr ⟨_, rfl, h.read_le, h.validate, h.fits⟩
  | dataArrive content =>
    by_cases hfit : c.validateBufferSize + content.length ≤ segBufferSize
    · refine Or.inr ⟨_, if_pos hfit, ?_⟩
      rw [h.validate] at hfit
      exact ⟨h.read_le.trans (Nat.le_add_right _ _), congrArg (· + content.length) h.validate, hfit⟩
    · refine Or.inl ⟨if_neg hfit, ?_⟩
      rw [h.validate] at hfit
      exact not_le.1 hfit
  | dataTimeout => exact Or.inr ⟨_, rfl, h⟩
  | read len =>
    have hvalidate : (c.read len).2.validateBufferSize = c.validateBufferSize := by
      rw [Consumer.read]
      split_ifs <;> rfl
    exact Or.inr ⟨_, rfl, (Consumer.read_spec h.read_le len).2.1, hvalidate.trans h.validate, h.fits⟩

/-- while what arrives between two resets fits, no copy leaves the buffer -/
theorem run_sinceReset (c : Consumer) (events : List Event)
    (h : ∀ pre, pre <+: events → sinceReset pre ≤ segBufferSize) :
    ∃ c', run event (some c.resetSegBuffer) events = some c' ∧ Counts (sinceReset events) c' := by
  induction events using List.reverseRecOn with
  | nil => exact ⟨_, rfl, counts_reset c⟩
  | append_singleton events e ih =>
    obtain ⟨c', hrun, hcounts⟩ := ih fun pre hpre => h pre (hpre.trans (List.prefix_append _ _))
    rw [run_append, hrun, run_cons, run_nil]
    rcases event_spec hcounts e with ⟨-, hover⟩ | hnext
    · exact absurd (h _ (List.prefix_refl _)) (not_le.2 hover)
    · exact hnext

/-- a run whose states are all safe has never received too much -/
theorem sinceReset_le (c : Consumer) (events : List Event)
    (h : ∀ pre, pre <+: events → Safe (run event (some c.resetSegBuffer) pre)) :
    ∀ pre, pre <+: events → sinceReset pre ≤ segBufferSize := by
  induction events using List.reverseRecOn with
  | nil =>
    intro pre hpre
    rw [List.prefix_nil.1 hpre]
    exact Nat.zero_le _
  | append_singleton events e ih =>
    have hold := ih fun pre hpre => h pre (hpre.trans (List.prefix_append _ _))
    intro pre hpre
    rcases List.prefix_concat_iff.1 hpre with rfl | hpre
    · obtain ⟨c', hrun, hcounts⟩ := run_sinceReset c events hold
      obtain ⟨c'', hlast, -⟩ := h _ (List.prefix_refl _)
      rw [run_append, hrun, run_cons, run_nil] at hlast
      rcases event_spec hcounts e with ⟨hnone, -⟩ | ⟨_, -, hnext⟩
      · rw [hnone] at hlast
        cases hlast
      · exact hnext.fits
    · exact hold pre hpre

/-- **The bounds of the buffer.** From a reset on, over any sequence of downloads, every state is in bounds exactly when
at no point more than 4 MiB have arrived since the last reset. -/
theorem inBounds_iff (c : Consumer) (events : List Event) :
    (∀ pre, pre <+: events → Safe (run event (some c.resetSegBuffer) pre)) ↔
      ∀ pre, pre <+: events → sinceReset pre ≤ segBufferSize := by
  constructor
  · exact sinceReset_le c events
  · intro h pre hpre
    obtain ⟨c', hrun, hcounts⟩ := run_sinceReset c pre fun p hp => h p (hp.trans hpre)
    exact ⟨c', hrun, hcounts.inBounds⟩

theorem not_safe_of_over (c : Consumer) {n : ℕ} {content : Bytes} (h : segBufferSize < n * content.length) :
    ¬ ∀ pre, pre <+: List.replicate n (.dataArrive content) →
      Safe (run event (some c.resetSegBuffer) pre) := by
  have hcount : ∀ k, sinceReset (List.replicate k (.dataArrive content)) = k * content.length := by
    intro k
    induction k with
    | zero => rw [Nat.zero_mul]; rfl
    | succ k ih =>
      rw [List.replicate_succ', sinceReset_snoc, ih]
      exact (Nat.succ_mul _ _).symm
  intro hsafe
  have hle := sinceReset_le c _ hsafe _ (List.prefix_refl _)
  rw [hcount] at hle
  exact absurd h (not_lt.2 hle)

/-- 1025 full packets of the server, in one download -/
theorem packets_overrun :
    ¬ ∀ pre, pre <+: List.replicate 1025 (.dataArrive (List.replicate 4096 0)) →
      Safe (run event (some (Consumer.resetSegBuffer ⟨fun _ => 0, 0, 0, 0⟩)) pre) := by
  apply not_safe_of_over
  rw [List.length_replicate, segBufferSize]
  norm_num

/-! ## `PreDownload` is a run -/

section Download

variable {ε : Type} (ask : ε → Request → Option Bytes × ε)

/-- the callback of a packet request -/
def IsPacket (e : Event) : Prop := e = .dataTimeout ∨ ∃ content, e = .dataArrive content

theorem getRequestData_run (chunkName : Str) (i : ℕ) (c : Consumer) (e : ε) :
    ∃ ev, IsPacket ev ∧ (getRequestData ask chunkName i (c, e)).map Prod.fst = event (some c) ev := by
  unfold getRequestData
  generalize ask (c, e).2 (.data chunkName i) = answer
  obtain ⟨content, e'⟩ := answer
  cases content with
  | none => exact ⟨.dataTimeout, Or.inl rfl, rfl⟩
  | some content =>
    refine ⟨.dataArrive content, Or.inr ⟨content, rfl⟩, ?_⟩
    simp only [Option.map_map, event, Option.bind_some]
    exact Option.map_id'

theorem requestLoop_run (chunkName : Str) (k : ℕ) (c : Consumer) (e : ε) :
    ∃ events, events.length = k ∧ (∀ ev ∈ events, IsPacket ev) ∧
      (requestLoop ask chunkName k (c, e)).map Prod.fst = run event (some c) events := by
  induction k with
  | zero => exact ⟨[], rfl, nofun, rfl⟩
  | succ k ih =>
    obtain ⟨events, hlen, hpackets, hrun⟩ := ih
    have hnext : ∃ ev, IsPacket ev ∧
        (requestLoop ask chunkName (k + 1) (c, e)).map Prod.fst = run event (some c) (events ++ [ev]) := by
      rw [requestLoop]
      cases hloop : requestLoop ask chunkName k (c, e) with
      | none => exact ⟨.dataTimeout, Or.inl rfl, by rw [run_append, ← hrun, hloop]; rfl⟩
      | some s =>
        obtain ⟨c', e'⟩ := s
        obtain ⟨ev, hev, hget⟩ := getRequestData_run ask chunkName k c' e'
        refine ⟨ev, hev, ?_⟩
        rw [run_append, ← hrun, hloop]
        exact hget
    obtain ⟨ev, hev, hrun'⟩ := hnext
    refine ⟨events ++ [ev], by rw [List.length_append, hlen]; rfl, fun ev' hev' => ?_, hrun'⟩
    rcases List.mem_append.1 hev' with hold | hlast
    · exact hpackets ev' hold
    · rw [List.mem_singleton.1 hlast]
      exact hev

/-- **PreDownload is a run.** It resets the buffer, takes the announced number or its timeout, and then runs as many
packet callbacks as the network has announced. -/
theorem preDownload_run {absoluteURI name : Str} (hname : chunkName absoluteURI = some name) (c : Consumer) (e : ε)
    (h8 : ∀ content, (ask e (.number name)).1 = some content → content.length = 8) :
    ∃ number events, (number = .numberTimeout ∧ events = [] ∨
        ∃ announced : Announced, number = .numberArrive announced ∧ events.length = leValue announced.1) ∧
      (∀ ev ∈ events, IsPacket ev) ∧
      (preDownload ask absoluteURI (c, e)).map Prod.fst =
        run event (some c) (.resetSegBuffer :: number :: events) := by
  simp only [preDownload, hname, Option.bind_some, getRequestNumber]
  generalize ask e (.number name) = answer at h8 ⊢
  obtain ⟨content, e'⟩ := answer
  cases content with
  | none => exact ⟨.numberTimeout, [], Or.inl ⟨rfl, rfl⟩, nofun, rfl⟩
  | some content =>
    have hlen : content.length = 8 := h8 content rfl
    have harrive : ∃ c', c.resetSegBuffer.onRequestNumberArrive content = some c' ∧ c'.segNumber = leValue content := by
      refine ⟨_, if_pos hlen.le, ?_⟩
      rw [hlen, List.drop_of_length_le (length_leBytes 8 _).le, List.append_nil]
    obtain ⟨c', harrive, hnumber⟩ := harrive
    obtain ⟨events, hcount, hpackets, hrun⟩ := requestLoop_run ask name c'.segNumber c' e'
    refine ⟨.numberArrive ⟨content, hlen⟩, events, Or.inr ⟨⟨content, hlen⟩, rfl, hcount.trans hnumber⟩, hpackets, ?_⟩
    rw [run_cons, run_cons]
    simp only [event, Option.bind_some, harrive, Option.map_some]
    exact hrun

end Download

end NdnDash.Ndn
