/-
A download over NDN, client and server together: `NDNConnection::PreDownload` asks, `NdnDasServer` answers, and each
request is answered or ends in its timeout (`Fate`). The library between them delivers a name as it was written.

- `lossy_replies`: to a request for a packet of the file, whatever the cache, the reply is that packet or nothing.
- `transfer_exact`: when nothing is lost, the packets announced cover the file once, packet `i` is appended at
  `4096 * i`, and reads of any positive lengths return the file.
-/
import NdnDash.Ndn.Consumer
import NdnDash.Server.Answers

namespace NdnDash.Ndn

open NdnDash.Text NdnDash.Slices NdnDash.Das

/-! ## The network -/

/-- what happens to a request -/
inductive Fate where
  | answered
  | interestLost
  | dataLost
deriving DecidableEq, Repr

/-- the server's answer; without a Data packet the Interest times out -/
def serve (srv : Server) (r : Request) : Option Bytes × Server :=
  match onInterest srv r.segName with
  | (.put content, srv) => (some content, srv)
  | (.silent, srv) | (.stopped, srv) => (none, srv)

/-- the network when request `r` has the fate `fate r` -/
def lossy (fate : Request → Fate) (srv : Server) (r : Request) : Option Bytes × Server :=
  match fate r with
  | .answered => serve srv r
  | .interestLost => (none, srv)
  | .dataLost => (none, (serve srv r).2)

/-- nothing is lost -/
theorem lossy_answered : lossy (fun _ => .answered) = serve := rfl

theorem serve_file (srv : Server) (r : Request) : (serve srv r).2.file = srv.file := by
  have h := onInterest_file srv r.segName
  unfold serve
  split <;> rename_i heq <;> rw [heq] at h <;> exact h

theorem lossy_file (fate : Request → Fate) (srv : Server) (r : Request) : (lossy fate srv r).2.file = srv.file := by
  unfold lossy
  split
  · exact serve_file srv r
  · rfl
  · exact serve_file srv r

theorem serve_of_put {srv : Server} {r : Request} {content : Bytes} (h : (onInterest srv r.segName).1 = .put content) :
    (serve srv r).1 = some content := by
  unfold serve
  split <;> rename_i heq <;> rw [heq] at h
  · cases h
    rfl
  · cases h
  · cases h

/-! ## The server's replies -/

variable {srv : Server} {name : Str} {F : Bytes}

/-- the number announced for a file -/
theorem serve_number (hF : srv.file name = some F) :
    (serve srv (.number name)).1 = some (leBytes 8 (packets packetSegSize F.length)) := by
  apply serve_of_put
  refine (onInterest_number srv name).trans ?_
  simp only [Das.sizeOf, hF, segNumber_eq (srv.disk.size_lt _ _ hF)]

theorem packetRequest_segName (name : Str) (i : ℕ) : PacketRequest (name ++ '/' :: decimal i) name i :=
  ⟨decimal i, rfl, decimal_ne_nil i, fun _ hc => isDigit_of_mem_decimal hc, value_decimal i⟩

/-- the packets of a file that fits into the client's buffer -/
theorem serve_data (hF : srv.file name = some F) (hlen : F.length ≤ segBufferSize) {i : ℕ}
    (hi : i < packets packetSegSize F.length) : (serve srv (.data name i)).1 = some (slice packetSegSize i F) := by
  have hs := (lt_packets (by decide)).1 hi
  have hlow : i + 1 < 2 ^ 20 := by
    simp only [packetSegSize, segBufferSize] at hs hlen
    omega
  exact serve_of_put (put_of_safe (packetRequest_segName name i) hF hs (Or.inl hlow)).1

/-- packet `i` arrives or is lost -/
def reply (fate : Request → Fate) (name : Str) (F : Bytes) (i : ℕ) : Option Bytes :=
  if fate (.data name i) = .answered then some (slice packetSegSize i F) else none

/-- **The replies.** A packet of the file comes as it is, or not at all. -/
theorem lossy_replies (fate : Request → Fate) (name : Str) (hlen : F.length ≤ segBufferSize) {k : ℕ}
    (hk : k ≤ packets packetSegSize F.length) :
    Replies (lossy fate) (fun srv => srv.file name = some F) name (reply fate name F) k := by
  intro i hi srv hF
  refine ⟨?_, (congrFun (lossy_file fate srv _) name).trans hF⟩
  unfold lossy reply
  cases hfate : fate (.data name i) with
  | answered =>
    rw [if_pos rfl]
    exact serve_data hF hlen (hi.trans_le hk)
  | interestLost => rfl
  | dataLost => rfl

/-- an 8-byte count replaces the number -/
theorem getRequestNumber_arrive {ε : Type} {ask : ε → Request → Option Bytes × ε} {e : ε} {n : ℕ}
    (hask : (ask e (.number name)).1 = some (leBytes 8 n)) (hn : n < 2 ^ 64) (c : Consumer) :
    getRequestNumber ask name (c, e) = some ({ c with segNumber := n }, (ask e (.number name)).2) := by
  unfold getRequestNumber
  generalize ask e (.number name) = answer at hask ⊢
  obtain ⟨content, e'⟩ := answer
  simp only at hask
  subst hask
  have hdrop : (leBytes 8 c.segNumber).drop 8 = [] := List.drop_of_length_le (by simp)
  have hvalue : leValue (leBytes 8 n) = n := leValue_leBytes (hn.trans_eq (by norm_num))
  simp only [Consumer.onRequestNumberArrive, length_leBytes, le_refl, if_true, Option.map_some, hdrop, List.append_nil,
    hvalue]

/-- the announced number of packets of a file fits into 64 bits -/
theorem packets_lt (hF : srv.file name = some F) : packets packetSegSize F.length < 2 ^ 64 := by
  have hsize := srv.disk.size_lt _ _ hF
  refine lt_of_le_of_lt ((packets_le (by decide)).2 ?_) (by norm_num : 2 ^ 63 < 2 ^ 64)
  simp only [packetSegSize]
  omega

/-- the number the client goes by -/
def announced (fate : Request → Fate) (name : Str) (F : Bytes) : ℕ :=
  if fate (.number name) = .answered then packets packetSegSize F.length else 0

theorem announced_le (fate : Request → Fate) (name : Str) (F : Bytes) :
    announced fate name F ≤ packets packetSegSize F.length := by
  unfold announced
  split_ifs
  · exact le_rfl
  · exact Nat.zero_le _

/-- **The number request**, answered or timed out -/
theorem getRequestNumber_lossy (hF : srv.file name = some F) (fate : Request → Fate) (c : Consumer) :
    ∃ s₀, getRequestNumber (lossy fate) name (c.resetSegBuffer, srv) = some s₀ ∧ Filled s₀.1 [] ∧
      s₀.2.file name = some F ∧ s₀.1.segNumber = announced fate name F := by
  have hfile := (congrFun (lossy_file fate srv (.number name)) name).trans hF
  have hfill := filled_resetSegBuffer c
  unfold announced
  by_cases hfate : fate (.number name) = .answered
  · have hask : (lossy fate srv (.number name)).1 = some (leBytes 8 (packets packetSegSize F.length)) := by
      rw [lossy, hfate]
      exact serve_number hF
    rw [if_pos hfate]
    exact ⟨_, getRequestNumber_arrive hask (packets_lt hF) _, { hfill with }, hfile, rfl⟩
  · have hask : (lossy fate srv (.number name)).1 = none := by
      unfold lossy
      cases hf : fate (.number name) with
      | answered => exact absurd hf hfate
      | interestLost => rfl
      | dataLost => rfl
    rw [if_neg hfate]
    refine ⟨(c.resetSegBuffer.onRequestNumberTimeout, (lossy fate srv (.number name)).2), ?_, { hfill with }, hfile, rfl⟩
    unfold getRequestNumber
    generalize lossy fate srv (.number name) = answer at hask ⊢
    obtain ⟨content, e⟩ := answer
    simp only at hask
    rw [hask]

/-- the packets of a file that fits are all taken, as far as they come -/
theorem requestLoop_lossy (hlen : F.length ≤ segBufferSize) (fate : Request → Fate) {s₀ : Consumer × Server}
    (hfill : Filled s₀.1 []) (hfile : s₀.2.file name = some F) {k : ℕ} (hk : k ≤ packets packetSegSize F.length)
    (hfits : (received (reply fate name F) k).length ≤ segBufferSize) :
    ∃ s, requestLoop (lossy fate) name k s₀ = some s ∧ Filled s.1 (received (reply fate name F) k) ∧
      s.2.file name = some F :=
  requestLoop_of_fits (lossy_replies fate name hlen hk) hfill hfile hfits

/-! ## Without loss -/

theorem received_answered (fate : Request → Fate) (name : Str) (F : Bytes) {k : ℕ}
    (hfate : ∀ i, i < k → fate (.data name i) = .answered) :
    received (reply fate name F) k = F.take (packetSegSize * k) := by
  induction k with
  | zero => simp
  | succ k ih =>
    rw [received_succ, ih fun i hi => hfate i (Nat.lt_succ_of_lt hi), take_succ_slice, reply,
      if_pos (hfate k (Nat.lt_succ_self k)), Option.getD_some]

/-- what an exact transfer of `F` comes to; `s₀` is the state after the number request, `s` that after the download -/
structure Transferred (name : Str) (F : Bytes) (lens : ℕ → ℕ) (s₀ s : Consumer × Server) : Prop where
  announced : s₀.1.segNumber = packets packetSegSize F.length
  cover : (List.range (packets packetSegSize F.length)).flatMap (slice packetSegSize · F) = F
  width : ∀ i, (slice packetSegSize i F).length = min packetSegSize (F.length - packetSegSize * i)
  offset : ∀ i, i < packets packetSegSize F.length → ∃ sᵢ, requestLoop serve name i s₀ = some sᵢ ∧
    sᵢ.1.validateBufferSize = packetSegSize * i ∧ (serve sᵢ.2 (.data name i)).1 = some (slice packetSegSize i F)
  reads : ∃ outs, Drain.Until Consumer.readBlock s.1 lens outs ∧ outs.flatten = F

/-- **The lossless transfer is exact**, for every file that fits into the client's buffer and every sequence of positive
read lengths. -/
theorem transfer_exact {absoluteURI : Str} (huri : chunkName absoluteURI = some name) (hF : srv.file name = some F)
    (hlen : F.length ≤ segBufferSize) (c : Consumer) {lens : ℕ → ℕ} (hlens : ∀ n, 0 < lens n) :
    ∃ s₀ s, getRequestNumber serve name (c.resetSegBuffer, srv) = some s₀ ∧
      preDownload serve absoluteURI (c, srv) = some s ∧ Transferred name F lens s₀ s := by
  obtain ⟨s₀, hnumber, hfill, hfile, hsegs⟩ := getRequestNumber_lossy hF (fun _ => .answered) c
  have hreceived := fun k => received_answered (fun _ => .answered) name F (k := k) fun _ _ => rfl
  -- the buffer after `k` requests holds the first `k` packets
  have hloop : ∀ k, k ≤ packets packetSegSize F.length → ∃ s, requestLoop serve name k s₀ = some s ∧
      Filled s.1 (F.take (packetSegSize * k)) ∧ s.2.file name = some F := by
    intro k hk
    rw [← lossy_answered, ← hreceived]
    apply requestLoop_lossy hlen _ hfill hfile hk
    rw [hreceived]
    exact (List.length_take_le' _ _).trans hlen
  obtain ⟨s, hs, hsfill, -⟩ := hloop _ le_rfl
  rw [List.take_of_length_le ((packets_le (by decide)).1 le_rfl)] at hsfill
  rw [lossy_answered] at hnumber
  rw [announced, if_pos rfl] at hsegs
  refine ⟨s₀, s, hnumber, ?_, hsegs, slices_flatten (by decide) F, fun i => length_slice _ i F, ?_, ?_⟩
  · simp only [preDownload, huri, Option.bind_some, hnumber, hsegs, hs]
  · intro i hi
    obtain ⟨sᵢ, hsᵢ, hfillᵢ, hfileᵢ⟩ := hloop i hi.le
    refine ⟨sᵢ, hsᵢ, ?_, serve_data hfileᵢ hlen hi⟩
    rw [hfillᵢ.validate, List.length_take, min_eq_left ((lt_packets (by decide)).1 hi).le]
  · obtain ⟨outs, hu, hflat⟩ := Drain.until_of_handsOut Consumer.readBlock Consumer.readBlock_handsOut ⟨hsfill.cursorOk, hlens⟩
    exact ⟨outs, hu, hflat.trans hsfill.pending⟩

/-- a consumer that has not been used -/
def freshConsumer : Consumer := ⟨fun _ => 0, 0, 0, 0⟩

/-- the three-byte file, read two bytes at a time -/
theorem transfer_exact_three_bytes :
    ∃ s₀ s, getRequestNumber serve ['a'] (freshConsumer.resetSegBuffer, smallServer) = some s₀ ∧
      preDownload serve "http://h/BigBuckBunny/a".toList (freshConsumer, smallServer) = some s ∧
      Transferred ['a'] [1, 2, 3] (fun _ => 2) s₀ s :=
  transfer_exact (by decide) (by decide) (by decide) freshConsumer (fun _ => Nat.succ_pos 1)

end NdnDash.Ndn
