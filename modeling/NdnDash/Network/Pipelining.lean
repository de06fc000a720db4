/-
Pipelined responses on a persistent HTTP connection: sequences of `Peek` and `Read` for the front chunk, over any responses
and any fragmentation of the stream.

- `step_read`: a Read returns the next bytes of the body, or ends the chunk with 0.
- `InvAt.readsApart`: without Peeks the chunks of readable responses get their bodies.
- `not_readsApart_of_peek`: a Peek in the middle of a body does not return, or counts the bytes it has peeked as read. The
  Reads then end early, or write more than their length.
- `readable_of_readsApart`: a length that is not that of the body gives another body, unless the connection ends with it.
- `kept_iff`: readable responses are kept apart exactly when no Peek is made in the middle of a body.
-/
import NdnDash.Core.Machine
import NdnDash.Network.PersistentHttp

namespace NdnDash.Http

open NdnDash.Machine

/-! ## Model -/

/-- a connection, with what its callers have seen -/
structure Session where
  conn : PersistentHTTPConnection
  /-- what the Reads of the front chunk have returned; `none` when one has returned 0 and the chunk is still there -/
  current : Option Bytes
  /-- the same for each chunk of which a Read has returned 0 -/
  ended : List Bytes
  /-- no call has written more than its length -/
  fits : Bool
deriving DecidableEq, Repr

/-- a call for the front chunk, with the number of bytes that have arrived -/
inductive Call where
  | peek (len : ℕ+) (arrived : ℕ)
  | read (len : ℕ+) (arrived : ℕ)
deriving DecidableEq, Repr

def Call.isRead : Call → Bool
  | .peek _ _ => false
  | .read _ _ => true

namespace Session

/-- what the Reads have returned -/
def seen (s : Session) : List Bytes × Option Bytes := (s.ended, s.current)

def afterPeek (len : ℕ) (s : Session) (r : Bytes × PersistentHTTPConnection) : Session :=
  { s with conn := r.2, fits := s.fits && decide (r.1.length ≤ len) }

def afterRead (len : ℕ) (s : Session) (r : Bytes × PersistentHTTPConnection) : Session where
  conn := r.2
  current :=
    if r.2.chunkQueue.length < s.conn.chunkQueue.length then some []
    else if r.1 = [] then none
    else s.current.map (· ++ r.1)
  ended := if r.1 = [] then s.ended ++ s.current.toList else s.ended
  fits := s.fits && decide (r.1.length ≤ len)

/-- one call; without a front chunk there is none -/
def step (reentrant : Bool) : Option Session → Call → Option Session
  | none, _ => none
  | some s, call =>
    if s.conn.chunkQueue = [] then some s
    else
      match call with
      | .peek len arrived => (s.conn.peek reentrant len arrived).map (s.afterPeek len)
      | .read len arrived => (s.conn.read len arrived).map (s.afterRead len)

end Session

/-! ## Whole sessions -/

namespace Session

variable {responses done todo : List Response} {rest : Bytes} {r : Response} {s : Session} {reentrant : Bool}

/-- a chunk for each response; more may follow on the socket -/
def init (responses : List Response) (rest : Bytes) : Session where
  conn :=
    { stream := written responses ++ rest
      peekBuffer := []
      contentLength := 0
      chunkQueue := List.replicate responses.length .new }
  current := some []
  ended := []
  fits := true

/-- the calls have returned, have written no more than their lengths, and each chunk of which a Read has returned 0 has got
the body of its response -/
def Apart (responses : List Response) (s : Option Session) : Prop :=
  ∃ t, s = some t ∧ t.fits = true ∧ t.ended <+: responses.map Response.body

/-- however the chunks are read on, they get their bodies -/
def ReadsApart (reentrant : Bool) (responses : List Response) (s : Option Session) : Prop :=
  ∀ reads : List Call, (∀ call ∈ reads, call.isRead = true) → Apart responses (run (step reentrant) s reads)

/-- the same behind some calls, whose Peeks do not change what the Reads return -/
def Kept (reentrant : Bool) (responses : List Response) (rest : Bytes) (calls : List Call) : Prop :=
  ReadsApart reentrant responses (run (step reentrant) (some (init responses rest)) calls) ∧
  ∀ reads : List Call, (∀ call ∈ reads, call.isRead = true) →
    (run (step reentrant) (some (init responses rest)) (calls ++ reads)).map seen =
      (run (step reentrant) (some (init responses rest)) (calls.filter Call.isRead ++ reads)).map seen

/-- a Peek is made before the first Read of a chunk, or when all of its body has been read -/
def PeeksOutside (s : Option Session) : Call → Prop
  | .peek _ _ => ∀ t ∈ s, ∀ front ∈ t.conn.chunkQueue.head?, front.bytesLeft = 0
  | .read _ _ => True

instance (s : Option Session) : (call : Call) → Decidable (PeeksOutside s call)
  | .peek _ _ => inferInstanceAs (Decidable (∀ t ∈ s, ∀ front ∈ t.conn.chunkQueue.head?, front.bytesLeft = 0))
  | .read _ _ => .isTrue trivial

/-- invariant: the chunks of `done` have been ended with their bodies, and the connection stands before those of `todo` -/
structure Inv (rest : Bytes) (done todo : List Response) (s : Session) : Prop where
  ended : s.ended = done.map Response.body
  fits : s.fits = true
  standing : ∃ current, s.current = some current ∧ Standing rest todo current s.conn

theorem inv_init (hreadable : Readable 0 responses) (rest : Bytes) : Inv rest [] responses (init responses rest) where
  ended := rfl
  fits := rfl
  standing := ⟨[], rfl, .before ⟨rfl, rfl, rfl⟩ hreadable⟩

theorem Inv.apart (h : Inv rest done todo s) : Apart (done ++ todo) (some s) :=
  ⟨s, rfl, h.fits, by rw [h.ended, List.map_append]; exact List.prefix_append _ _⟩

/-- a Peek outside of a body does nothing -/
theorem step_peek (reentrant : Bool) (s : Option Session) {len : ℕ+} {arrived : ℕ} (h : PeeksOutside s (.peek len arrived)) :
    step reentrant s (.peek len arrived) = s := by
  cases s with
  | none => rfl
  | some s =>
    cases hqueue : s.conn.chunkQueue with
    | nil => rw [step, if_pos hqueue]
    | cons front queue =>
      have houtside : front.bytesLeft = 0 := h s rfl front (by rw [hqueue]; rfl)
      rw [step, if_neg (by simp [hqueue])]
      simp only [PersistentHTTPConnection.peek_outside hqueue houtside, Option.map_some, afterPeek]
      simp

theorem step_read_some {data : Bytes} {c : PersistentHTTPConnection} (reentrant : Bool) (len : ℕ+) (arrived : ℕ)
    (hqueue : s.conn.chunkQueue ≠ []) (hread : s.conn.read len arrived = some (data, c)) :
    step reentrant (some s) (.read len arrived) = some (s.afterRead len (data, c)) := by
  rw [step, if_neg hqueue]
  simp only [hread, Option.map_some]

/-- a Read goes on in the body of the first response, or ends it -/
theorem step_read (h : Inv rest done todo s) (len : ℕ+) (arrived : ℕ) :
    ∃ done' todo' s', done' ++ todo' = done ++ todo ∧ step reentrant (some s) (.read len arrived) = some s' ∧
      Inv rest done' todo' s' := by
  obtain ⟨current, hcurrent, hstanding⟩ := h.standing
  cases todo with
  | nil =>
    have hqueue : s.conn.chunkQueue = [] := hstanding.chunkQueue_eq_nil.2 rfl
    exact ⟨done, [], s, rfl, if_pos hqueue, h⟩
  | cons r todo =>
    have hqueue : s.conn.chunkQueue ≠ [] := mt hstanding.chunkQueue_eq_nil.1 (by simp)
    have hlength := hstanding.length_chunkQueue
    obtain ⟨data, c', hread, hlen, hdata⟩ := hstanding.read len.pos arrived
    have hfits : (s.fits && decide (data.length ≤ len)) = true := by simp [h.fits, hlen]
    have hstep := step_read_some reentrant len arrived hqueue hread
    rcases hdata with ⟨hnil, hbody, hnext⟩ | ⟨hne, hnext⟩
    · have hpopped : c'.chunkQueue.length < s.conn.chunkQueue.length := by
        rw [hlength, hnext.length_chunkQueue]
        exact Nat.lt_succ_self _
      refine ⟨done ++ [r], todo, _, by simp, hstep, ?_, hfits, [], if_pos hpopped, hnext⟩
      simp [afterRead, hnil, h.ended, hcurrent, hbody]
    · have hsame : ¬ c'.chunkQueue.length < s.conn.chunkQueue.length := by
        rw [hlength, hnext.length_chunkQueue]
        exact lt_irrefl _
      refine ⟨done, r :: todo, _, rfl, hstep, ?_, hfits, current ++ data, ?_, hnext⟩
      · simp [afterRead, hne, h.ended]
      · simp [afterRead, hsame, hne, hcurrent]

/-- the invariant of a session that goes on -/
def InvAt (responses : List Response) (rest : Bytes) (s : Option Session) : Prop :=
  ∃ t done todo, s = some t ∧ done ++ todo = responses ∧ Inv rest done todo t

theorem step_inv (s : Option Session) (call : Call) (h : InvAt responses rest s) (hpeek : PeeksOutside s call) :
    InvAt responses rest (step reentrant s call) := by
  cases call with
  | peek len arrived => rwa [step_peek reentrant s hpeek]
  | read len arrived =>
    obtain ⟨t, done, todo, rfl, rfl, hinv⟩ := h
    obtain ⟨done', todo', t', hsplit, hstep, hinv'⟩ := step_read hinv len arrived
    exact ⟨t', done', todo', hstep, hsplit, hinv'⟩

theorem InvAt.apart {s : Option Session} (h : InvAt responses rest s) : Apart responses s := by
  obtain ⟨t, done, todo, rfl, rfl, hinv⟩ := h
  exact hinv.apart

theorem InvAt.readsApart {s : Option Session} (h : InvAt responses rest s) : ReadsApart reentrant responses s := by
  intro reads hreads
  have halong : Along (step reentrant) PeeksOutside s reads := by
    clear h
    induction reads generalizing s with
    | nil => trivial
    | cons call reads ih =>
      refine ⟨?_, ih fun call hcall => hreads call (List.mem_cons_of_mem _ hcall)⟩
      cases call with
      | peek len arrived => exact absurd (hreads _ (List.mem_cons_self ..)) (by simp [Call.isRead])
      | read len arrived => trivial
  exact (run_inv (step reentrant) step_inv h halong).apart

theorem run_filter {s : Option Session} {calls : List Call} (h : Along (step reentrant) PeeksOutside s calls) :
    run (step reentrant) s calls = run (step reentrant) s (calls.filter Call.isRead) := by
  induction calls generalizing s with
  | nil => rfl
  | cons call calls ih =>
    cases call with
    | peek len arrived =>
      have hsame := step_peek reentrant s h.1
      rw [run_cons, hsame, List.filter_cons_of_neg (by simp [Call.isRead])]
      exact ih (hsame ▸ h.2)
    | read len arrived =>
      rw [List.filter_cons_of_pos rfl, run_cons, run_cons]
      exact ih h.2

/-! ### What goes wrong -/

/-- a body of which so much has been read, and so much is counted as left -/
structure Counted (done : List Response) (current left : Bytes) (s : Session) : Prop where
  ended : s.ended = done.map Response.body
  current : s.current = some current
  front : ∃ front queue, Parsed front left ∧ s.conn.chunkQueue = front :: queue

variable {current left : Bytes}

theorem ReadsApart.step {s : Option Session} (h : ReadsApart reentrant responses s) (len : ℕ+) (arrived : ℕ) :
    ReadsApart reentrant responses (Session.step reentrant s (.read len arrived)) := by
  intro reads hreads
  refine h (.read len arrived :: reads) fun call hcall => ?_
  rcases List.mem_cons.1 hcall with rfl | hcall
  · rfl
  · exact hreads call hcall

/-- a chunk that has got something else than its body -/
theorem not_readsApart_of_ended {data : Bytes} (hended : s.ended = done.map Response.body ++ [data])
    (hne : data.length ≠ r.body.length) : ¬ ReadsApart reentrant (done ++ r :: todo) (some s) := by
  intro hreads
  obtain ⟨t, ht, -, hbegin⟩ := hreads [] (by simp)
  rw [run_nil, Option.some.injEq] at ht
  rw [← ht, hended, List.map_append, List.map_cons, List.prefix_append_right_inj] at hbegin
  exact hne (congrArg List.length (List.cons_prefix_cons.1 hbegin).1)

/-- nothing is counted as left, but not the body has been read -/
theorem Counted.not_readsApart_of_nil (h : Counted done current [] s) (hne : current.length ≠ r.body.length) :
    ¬ ReadsApart reentrant (done ++ r :: todo) (some s) := by
  intro hreads
  obtain ⟨front, queue, hfront, hqueue⟩ := h.front
  have hstep := step_read_some reentrant 1 0 (by simp [hqueue]) (PersistentHTTPConnection.read_end hqueue hfront _ _)
  have hnext := hreads.step 1 0
  rw [hstep] at hnext
  refine not_readsApart_of_ended (?_ : _ = done.map Response.body ++ [current]) hne hnext
  simp [afterRead, h.ended, h.current]

theorem Counted.not_readsApart (h : Counted done current left s) (hpeek : s.conn.peekBuffer = [])
    (hstream : left <+: s.conn.stream) (hne : current.length + left.length ≠ r.body.length) :
    ¬ ReadsApart reentrant (done ++ r :: todo) (some s) := by
  by_cases hleft : left = []
  · subst hleft
    exact h.not_readsApart_of_nil hne
  · intro hreads
    obtain ⟨front, queue, hfront, hqueue⟩ := h.front
    obtain ⟨more, hmore⟩ := hstream
    have hpos := List.length_pos_of_ne_nil hleft
    have hportion : PersistentHTTPConnection.portion left.length left.length left = left.length := by
      unfold PersistentHTTPConnection.portion
      omega
    -- all that is counted is read at once
    have hread := PersistentHTTPConnection.read_within hqueue hfront hleft hpeek hmore.symm hpos left.length
    have hparsed := PersistentHTTPConnection.parsed_addBytesRead hfront le_rfl
    rw [hportion, List.take_length, List.drop_length] at hread
    rw [List.drop_length] at hparsed
    have hstep := step_read_some reentrant ⟨left.length, hpos⟩ left.length (by simp [hqueue]) hread
    have hnext := hreads.step ⟨left.length, hpos⟩ left.length
    rw [hstep] at hnext
    refine Counted.not_readsApart_of_nil (?_ : Counted done (current ++ left) [] _) ?_ hnext
    · exact ⟨by simp [afterRead, hleft, h.ended], by simp [afterRead, hleft, hqueue, h.current], _, queue, hparsed, rfl⟩
    · rwa [List.length_append]

/-! ### A Peek in the middle of a body -/

/-- what has been peeked is counted as read, and is still to be read -/
theorem Counted.not_readsApart_of_buffered (h : Counted done current left s) (hpeek : s.conn.peekBuffer ≠ [])
    (hstream : left <+: s.conn.stream)
    (hlength : current.length + s.conn.peekBuffer.length + left.length = r.body.length) :
    ¬ ReadsApart reentrant (done ++ r :: todo) (some s) := by
  have hpos := List.length_pos_of_ne_nil hpeek
  by_cases hleft : left = []
  · -- the next Read ends the chunk
    subst hleft
    exact h.not_readsApart_of_nil (by simp at hlength; omega)
  · intro hreads
    obtain ⟨front, queue, hfront, hqueue⟩ := h.front
    have hread := PersistentHTTPConnection.read_buffered hqueue hfront hleft hpeek 1 0
    have hstep := step_read_some reentrant 1 0 (by simp [hqueue]) hread
    have hnext := hreads.step 1 0
    rw [hstep] at hnext
    by_cases hone : s.conn.peekBuffer.length = 1
    · -- the byte is counted twice
      have hcount := List.length_pos_of_ne_nil hleft
      have hparsed := PersistentHTTPConnection.parsed_addBytesRead hfront hcount
      have hlengths : (left.drop 1).length = (left.take (left.length - 1)).length := by
        rw [List.length_drop, List.length_take]
        omega
      refine Counted.not_readsApart
        (?_ : Counted done (current ++ s.conn.peekBuffer) (left.take (left.length - 1)) _) ?_ ?_ ?_ hnext
      · refine ⟨by simp [afterRead, hpeek, h.ended], by simp [afterRead, hpeek, hqueue, h.current], _, queue,
          ⟨hparsed.1, hparsed.2.trans hlengths⟩, ?_⟩
        rw [afterRead, hone]
      · rfl
      · exact (List.take_prefix _ _).trans hstream
      · rw [List.length_append, List.length_take, hone]
        omega
    · -- the Read writes more than the one byte it was asked for
      obtain ⟨t, ht, hfits, -⟩ := hnext [] (by simp)
      rw [run_nil, Option.some.injEq] at ht
      rw [← ht] at hfits
      have hle : s.conn.peekBuffer.length ≤ 1 := of_decide_eq_true (Bool.and_eq_true_iff.1 hfits).2
      omega

/-- **A Peek in the middle of a body.** It does not return, or the Reads after it go wrong. -/
theorem not_readsApart_of_peek (h : Inv rest done todo s) {len : ℕ+} {arrived : ℕ}
    (hmiddle : ¬ PeeksOutside (some s) (.peek len arrived)) :
    ¬ ReadsApart reentrant (done ++ todo) (step reentrant (some s) (.peek len arrived)) := by
  simp only [PeeksOutside, Option.mem_def, Option.some.injEq, forall_eq', not_forall] at hmiddle
  obtain ⟨front, hhead, hne⟩ := hmiddle
  obtain ⟨queue, hqueue⟩ : ∃ queue, s.conn.chunkQueue = front :: queue := ⟨_, List.eq_cons_of_mem_head? hhead⟩
  have hnonempty : s.conn.chunkQueue ≠ [] := by simp [hqueue]
  obtain ⟨current, hcurrent, hstanding⟩ := h.standing
  generalize hconn : s.conn = c at hstanding
  cases hstanding with
  | before hbefore hreadable =>
    -- a new chunk has nothing left
    rw [hconn, hbefore.chunkQueue] at hqueue
    have hnew : front = .new := List.eq_of_mem_replicate (hqueue ▸ List.mem_cons_self ..)
    exact absurd (hnew ▸ rfl) hne
  | within hwithin hreadable =>
    rename_i r todo left
    subst hconn
    obtain ⟨front', hfront, hqueue'⟩ := hwithin.chunkQueue
    have hleft : left ≠ [] := by
      rintro rfl
      obtain ⟨rfl, -⟩ := List.cons_eq_cons.1 (hqueue.symm.trans hqueue')
      exact hne (UInt64.toNat_inj.1 hfront.bytesLeft)
    cases reentrant with
    | false =>
      rw [step, if_neg hnonempty]
      simp only [PersistentHTTPConnection.peek_deadlock hqueue' hfront hleft hwithin.peekBuffer, Option.map_none]
      intro hreads
      obtain ⟨t, ht, -, -⟩ := hreads [] (by simp)
      exact absurd ht (by simp)
    | true =>
      obtain ⟨data, hpeek⟩ := PersistentHTTPConnection.peek_within hqueue' hfront hleft hwithin.peekBuffer hwithin.stream len
        arrived
      have hle := PersistentHTTPConnection.portion_le_left PersistentHTTPConnection.peekbuffer arrived left
      have hpos := PersistentHTTPConnection.portion_pos (by decide : 0 < PersistentHTTPConnection.peekbuffer) hleft arrived
      rw [step, if_neg hnonempty]
      simp only [hpeek, Option.map_some]
      refine Counted.not_readsApart_of_buffered
        ⟨h.ended, hcurrent, _, _, PersistentHTTPConnection.parsed_addBytesRead hfront hle, rfl⟩ ?_ (List.prefix_append _ _) ?_
      · change left.take _ ≠ []
        rw [ne_eq, List.take_eq_nil_iff, not_or]
        exact ⟨hpos.ne', hleft⟩
      · simp only [afterPeek, hwithin.body, List.length_append, List.length_take, List.length_drop]
        omega

/-! ### A length that is not that of the body -/

/-- Reads go on alike from a connection that reads alike -/
theorem ReadsApart.of_conn {c : PersistentHTTPConnection} (h : ReadsApart reentrant responses (some s))
    (hqueue : s.conn.chunkQueue ≠ []) (hlength : c.chunkQueue.length = s.conn.chunkQueue.length)
    (hread : ∀ len arrived, s.conn.read len arrived = c.read len arrived) :
    ReadsApart reentrant responses (some { s with conn := c }) := by
  intro reads hreads
  cases reads with
  | nil =>
    obtain ⟨t, ht, hfits, hbegin⟩ := h [] (by simp)
    rw [run_nil, Option.some.injEq] at ht
    exact ⟨_, rfl, ht ▸ hfits, ht ▸ hbegin⟩
  | cons call reads =>
    have hsame : Session.step reentrant (some { s with conn := c }) call = Session.step reentrant (some s) call := by
      cases call with
      | peek len arrived => exact absurd (hreads _ (List.mem_cons_self ..)) (by simp [Call.isRead])
      | read len arrived =>
        have hnonempty : c.chunkQueue ≠ [] := by rwa [← List.length_pos_iff, hlength, List.length_pos_iff]
        rw [Session.step, Session.step, if_neg hqueue, if_neg hnonempty]
        simp only [hread]
        refine congrArg (Option.map · _) (funext fun r => ?_)
        simp only [afterRead, hlength]
    rw [run_cons, hsame]
    exact h (call :: reads) hreads

/-- more is counted as left than is in the stream, and not only the body is in it -/
theorem not_readsApart_of_closed {size : ℕ} (h : Opened rest r todo size s.conn) (hended : s.ended = done.map Response.body)
    (hcurrent : s.current = some []) (hsize : s.conn.stream.length < size) (hmore : written todo ++ rest ≠ []) :
    ¬ ReadsApart reentrant (done ++ r :: todo) (some s) := by
  intro hreads
  obtain ⟨front, -, -, hqueue⟩ := h.chunkQueue
  have hlength : r.body.length < s.conn.stream.length := by
    rw [h.stream, List.length_append]
    exact Nat.lt_add_of_pos_right (List.length_pos_of_ne_nil hmore)
  have hpos : 0 < s.conn.stream.length := by omega
  have hne : s.conn.stream ≠ [] := List.length_pos_iff.1 hpos
  obtain ⟨c', hread, hsame, hclosed⟩ := h.read_all hne hsize
  have hnonempty : s.conn.chunkQueue ≠ [] := by simp [hqueue]
  have hnonempty' : c'.chunkQueue ≠ [] := by rwa [← List.length_pos_iff, hsame, List.length_pos_iff]
  have hnext := hreads.step ⟨s.conn.stream.length, hpos⟩ s.conn.stream.length
  rw [step_read_some reentrant ⟨s.conn.stream.length, hpos⟩ s.conn.stream.length hnonempty hread] at hnext
  have hlast := hnext.step 1 0
  have hstep : Session.step reentrant (some (s.afterRead s.conn.stream.length (s.conn.stream, c'))) (.read 1 0) = _ :=
    step_read_some reentrant 1 0 hnonempty' hclosed
  rw [PNat.mk_coe, hstep] at hlast
  refine not_readsApart_of_ended (?_ : _ = done.map Response.body ++ [s.conn.stream]) hlength.ne' hlast
  simp [afterRead, hne, hsame, hended, hcurrent]

/-- **A misread length.** The chunk gets another body, unless the connection ends with the body and more is counted. -/
theorem not_readsApart_of_misread (h : Before rest (r :: todo) s.conn) (hended : s.ended = done.map Response.body)
    (hcurrent : s.current = some []) (hmisread : r.size s.conn.contentLength ≠ r.body.length)
    (hshort : written todo ++ rest = [] → r.size s.conn.contentLength < r.body.length) :
    ¬ ReadsApart reentrant (done ++ r :: todo) (some s) := by
  intro hreads
  obtain ⟨c', hopened, -, hread⟩ := h.parse
  obtain ⟨front, hparsed, hsize, hqueue⟩ := hopened.chunkQueue
  have hnonempty : s.conn.chunkQueue ≠ [] := by simp [h.chunkQueue]
  have hparse : ReadsApart reentrant (done ++ r :: todo) (some { s with conn := c' }) :=
    hreads.of_conn hnonempty (by simp [hqueue, h.chunkQueue]) hread
  by_cases hfits : r.size s.conn.contentLength ≤ c'.stream.length
  · -- so many bytes are read, of the body or of what follows it
    have hlength : (c'.stream.take (r.size s.conn.contentLength)).length = r.size s.conn.contentLength := by
      rw [List.length_take, min_eq_left hfits]
    refine Counted.not_readsApart (?_ : Counted done [] (c'.stream.take (r.size s.conn.contentLength)) _) ?_ ?_ ?_ hparse
    · exact ⟨hended, hcurrent, front, _, ⟨hparsed, hsize.trans hlength.symm⟩, hqueue⟩
    · exact hopened.peekBuffer
    · exact List.take_prefix _ _
    · rwa [List.length_nil, Nat.zero_add, hlength]
  · refine not_readsApart_of_closed (s := { s with conn := c' }) hopened hended hcurrent (not_le.1 hfits) (fun hnil => ?_) hparse
    have hless := hshort hnil
    rw [hopened.stream, hnil, List.append_nil] at hfits
    omega

theorem ReadsApart.finish (hreads : ReadsApart reentrant responses (some s)) (h : Within rest r todo current [] s.conn) :
    ∃ s' : Session, ReadsApart reentrant responses (some s') ∧ Before rest todo s'.conn ∧
      s'.conn.contentLength = s.conn.contentLength ∧ s'.ended = s.ended ++ s.current.toList ∧ s'.current = some [] := by
  obtain ⟨front, hfront, hqueue⟩ := h.chunkQueue
  have hread := PersistentHTTPConnection.read_end hqueue hfront 1 0
  have hnext := hreads.step 1 0
  rw [step_read_some reentrant 1 0 (by simp [hqueue]) hread] at hnext
  refine ⟨_, hnext, ⟨h.stream, h.peekBuffer, rfl⟩, rfl, ?_, ?_⟩
  · simp [afterRead]
  · simp [afterRead, hqueue]

theorem ReadsApart.body (hreads : ReadsApart reentrant responses (some s)) (h : Before rest (r :: todo) s.conn)
    (hcurrent : s.current = some []) (hsize : r.size s.conn.contentLength = r.body.length) :
    ∃ s' : Session, ReadsApart reentrant responses (some s') ∧ Before rest todo s'.conn ∧
      s'.conn.contentLength = r.readLength s.conn.contentLength ∧ s'.ended = s.ended ++ [r.body] ∧ s'.current = some [] := by
  obtain ⟨c', hopened, hlength, hread⟩ := h.parse
  rw [hsize] at hopened
  have hwithin := hopened.within
  obtain ⟨front, hfront, hqueue⟩ := hwithin.chunkQueue
  have hparse := hreads.of_conn (by simp [h.chunkQueue]) (by simp [hqueue, h.chunkQueue]) hread
  by_cases hbody : r.body = []
  · rw [hbody] at hwithin
    obtain ⟨s', hs', hbefore, hlength', hended, hcurrent'⟩ := ReadsApart.finish (s := { s with conn := c' }) hparse hwithin
    exact ⟨s', hs', hbefore, hlength'.trans hlength, by rw [hended, hcurrent, hbody]; rfl, hcurrent'⟩
  · have hpos := List.length_pos_of_ne_nil hbody
    have hportion : PersistentHTTPConnection.portion r.body.length r.body.length r.body = r.body.length := by
      unfold PersistentHTTPConnection.portion
      omega
    have hall := PersistentHTTPConnection.read_within hqueue hfront hbody hwithin.peekBuffer hwithin.stream hpos r.body.length
    have hparsed := PersistentHTTPConnection.parsed_addBytesRead hfront le_rfl
    rw [hportion, List.take_length, List.drop_length] at hall
    rw [List.drop_length] at hparsed
    have hnext := hparse.step ⟨r.body.length, hpos⟩ r.body.length
    rw [step_read_some (s := { s with conn := c' }) reentrant ⟨r.body.length, hpos⟩ r.body.length (by simp [hqueue]) hall]
      at hnext
    have hdone : Within rest r todo r.body []
        { c' with
          stream := [] ++ (written todo ++ rest)
          chunkQueue := front.addBytesRead (UInt64.ofNat r.body.length) :: List.replicate todo.length .new } :=
      ⟨(List.append_nil _).symm, rfl, hwithin.peekBuffer, _, hparsed, rfl⟩
    obtain ⟨s', hs', hbefore, hlength', hended, hcurrent'⟩ := hnext.finish hdone
    refine ⟨s', hs', hbefore, hlength'.trans hlength, ?_, hcurrent'⟩
    rw [hended]
    simp [afterRead, hbody, hqueue, hcurrent]

/-- **Readable responses.** Where the Reads give the bodies, the lengths that are read are those of the bodies; but the last
may be greater when nothing follows it. -/
theorem readable_of_readsApart (h : Before rest todo s.conn) (hended : s.ended = done.map Response.body)
    (hcurrent : s.current = some []) (hreads : ReadsApart reentrant (done ++ todo) (some s)) :
    Readable s.conn.contentLength todo ∨ rest = [] ∧ LastLong s.conn.contentLength todo := by
  induction todo generalizing done s with
  | nil => exact Or.inl trivial
  | cons r todo ih =>
    by_cases hsize : r.size s.conn.contentLength = r.body.length
    · obtain ⟨s', hreads', hbefore, hlength, hended', hcurrent'⟩ := hreads.body h hcurrent hsize
      have hdone : done ++ r :: todo = (done ++ [r]) ++ todo := by simp
      rw [hdone] at hreads'
      rcases ih hbefore (by rw [hended', hended, List.map_append]; rfl) hcurrent' hreads' with hreadable | ⟨hrest, hlong⟩
      · exact Or.inl ⟨hsize, hlength ▸ hreadable⟩
      · refine Or.inr ⟨hrest, ?_⟩
        cases todo with
        | nil => exact hlong.elim
        | cons r' todo => exact ⟨hsize, hlength ▸ hlong⟩
    · by_contra hnot
      refine not_readsApart_of_misread h hended hcurrent hsize (fun hnil => ?_) hreads
      by_contra hlong
      obtain ⟨hwritten, hrest⟩ := List.append_eq_nil_iff.1 hnil
      refine hnot (Or.inr ⟨hrest, ?_⟩)
      cases todo with
      | nil => exact lt_of_le_of_ne (not_lt.1 hlong) (Ne.symm hsize)
      | cons r' todo => simp [written, Response.written, Response.header, crlf, bytes] at hwritten

/-- **When responses are kept apart.** For all chunks and responses, whatever their headers, every fragmentation of the
stream and all calls. If the lengths that are read are those of the bodies: whatever has been called, the calls return, write
no more than their lengths, give each chunk the body of its response, also when it is read on, and Peeks change nothing of
that, exactly when no Peek is made between the first Read of a chunk and the last byte of its body. And the lengths are those
of the bodies where this is so, but that of the last response may be greater when nothing follows it. -/
theorem kept_iff (reentrant : Bool) (responses : List Response) (rest : Bytes) (calls : List Call) :
    (Readable 0 responses →
      ((∀ pre, pre <+: calls → Kept reentrant responses rest pre) ↔
        Along (step reentrant) PeeksOutside (some (init responses rest)) calls)) ∧
    ((∀ pre, pre <+: calls → Kept reentrant responses rest pre) →
      Readable 0 responses ∨ rest = [] ∧ LastLong 0 responses) := by
  have hbad : ∀ s call, InvAt responses rest s → ¬ PeeksOutside s call →
      ¬ ReadsApart reentrant responses (step reentrant s call) := by
    intro s call h hmiddle
    cases call with
    | peek len arrived =>
      obtain ⟨t, done, todo, rfl, rfl, hinv⟩ := h
      exact not_readsApart_of_peek hinv hmiddle
    | read len arrived => exact absurd trivial hmiddle
  constructor
  · intro hreadable
    have hinit : InvAt responses rest (some (init responses rest)) :=
      ⟨_, [], responses, rfl, rfl, inv_init hreadable rest⟩
    have hiff := along_iff_of_first_bad (step reentrant) step_inv (fun s h => h.readsApart) hbad hinit calls
    rw [← hiff]
    refine ⟨fun h pre hpre => (h pre hpre).1, fun h pre hpre => ⟨h pre hpre, fun reads _ => ?_⟩⟩
    have halong : Along (step reentrant) PeeksOutside (some (init responses rest)) pre := by
      obtain ⟨post, rfl⟩ := hpre
      exact ((along_append _ _ _ _ _).1 (hiff.1 h)).1
    rw [run_append, run_append, run_filter halong]
  · intro h
    have hbefore : Before rest responses (init responses rest).conn := ⟨rfl, rfl, rfl⟩
    have hended : (init responses rest).ended = ([] : List Response).map Response.body := rfl
    exact readable_of_readsApart hbefore hended rfl (h [] List.nil_prefix).1

/-- a response with a body of two bytes -/
def twoBytes : Response where
  lines := ["HTTP/1.1 200 OK", "Content-Length: 2"].map fun line => bytes line.toList
  body := [1, 2]
  isLine := by decide

-- the last line that begins so counts, and a name is not read in another case
example :
    Readable 0 [⟨["Content-Length-X: 99", "Content-Length: 2"].map fun line => bytes line.toList, [1, 2], by decide⟩] ∧
    ¬ Readable 0 [⟨["content-length: 2"].map fun line => bytes line.toList, [1, 2], by decide⟩] := by
  decide +kernel

/-- two such responses, with Peeks before the first Read and behind the last byte -/
theorem kept_twoBytes :
    Kept false [twoBytes, twoBytes] []
      [.peek 1 0, .read 1 5, .read 3 1, .peek 2 0, .read 1 0, .peek 1 0, .read 2 2] :=
  ((kept_iff false [twoBytes, twoBytes] [] _).1 (by decide +kernel)).2 (by decide +kernel) _ (List.prefix_refl _)

/-- **A Peek between two bytes.** The byte that is peeked is counted as read: the next Read returns 0, and the chunk has got
one byte of two. Where the critical section cannot be entered twice, the Peek does not return. -/
theorem peek_between :
    (run (step true) (some (init [twoBytes] [])) [.read 1 0, .peek 1 0, .read 1 0]).map seen = some ([[1]], some []) ∧
    run (step false) (some (init [twoBytes] [])) [.read 1 0, .peek 1 0] = none ∧
    ¬ Kept true [twoBytes] [] [.read 1 0, .peek 1 0] ∧ ¬ Kept false [twoBytes] [] [.read 1 0, .peek 1 0] := by
  have hseen : (run (step true) (some (init [twoBytes] [])) [.read 1 0, .peek 1 0, .read 1 0]).map seen =
      some ([[1]], some []) := by decide +kernel
  have hnone : run (step false) (some (init [twoBytes] [])) [.read 1 0, .peek 1 0] = none := by decide +kernel
  refine ⟨hseen, hnone, fun h => ?_, fun h => ?_⟩
  · obtain ⟨t, ht, -, hbegin⟩ := h.1 [.read 1 0] (by decide)
    rw [← run_append] at ht
    change run (step true) (some (init [twoBytes] [])) [.read 1 0, .peek 1 0, .read 1 0] = some t at ht
    rw [ht, Option.map_some, Option.some.injEq] at hseen
    have hended : t.ended = [[1]] := congrArg Prod.fst hseen
    rw [hended] at hbegin
    exact absurd hbegin (by decide)
  · obtain ⟨t, ht, -, -⟩ := h.1 [] (by decide)
    rw [hnone, run_nil] at ht
    exact absurd ht.symm (Option.some_ne_none t)

end Session

end NdnDash.Http
