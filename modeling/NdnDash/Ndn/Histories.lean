/-
One download after others with the same `NdnDashConsumer`. `resetSegBuffer` clears the first half of the buffer only, and a
number that is announced is copied over the old one; what the members hold besides is left from before.

- `rel_requestLoop`: two clients with the same in their buffers receive the same.
- `shown_eq`: whatever two consumers hold, a download from a `NdnDasServer` shows the same in both.
- `download_independent`: so it does after any two histories.
-/
import NdnDash.Ndn.SegBuffer
import NdnDash.Ndn.Transfer

namespace NdnDash.Ndn

open NdnDash.Machine NdnDash.Das NdnDash.Chunk

/-! ## What a download shows -/

section Shown

variable {ε : Type} (ask : ε → Request → Option Bytes × ε)

/-- the network with the Interests it has got -/
def recorded (s : ε × List Request) (r : Request) : Option Bytes × (ε × List Request) :=
  ((ask s.1 r).1, ((ask s.1 r).2, s.2 ++ [r]))

/-- the results of reads of the lengths `lens` -/
def reads (c : Consumer) : List ℕ → List ReadResult
  | [] => []
  | len :: lens => (c.read len).1 :: reads (c.read len).2 lens

/-- a `PreDownload` and reads after it: the Interests that are sent, the network after them, and what the reads return -/
def shown (absoluteURI : Str) (e : ε) (lens : List ℕ) (c : Consumer) : Option (List Request × ε × List ReadResult) :=
  (preDownload (recorded ask) absoluteURI (c, (e, []))).map fun s => (s.2.2, s.2.1, reads s.1 lens)

/-- every reply is one that a `NdnDasServer` has for the Interest -/
def FromServer : Prop :=
  ∀ e r content, (ask e r).1 = some content → ∃ srv, (onInterest srv r.segName).1 = .put content

end Shown

/-! ## Two clients -/

section Twins

variable {ε : Type} {ask : ε → Request → Option Bytes × ε} {s₁ s₂ : Consumer × ε} {c₁ c₂ : Consumer} {name : Str}

/-- two clients with the same bytes in their buffers, on the same network -/
structure Twins (s₁ s₂ : Consumer × ε) : Prop where
  network : s₁.2 = s₂.2
  filled : ∃ bytes, Filled s₁.1 bytes ∧ Filled s₂.1 bytes

theorem rel_bind {α β : Type} {R : α → α → Prop} {S : β → β → Prop} {f g : α → Option β} {x y : Option α}
    (h : Option.Rel R x y) (hstep : ∀ a b, R a b → Option.Rel S (f a) (g b)) : Option.Rel S (x.bind f) (y.bind g) := by
  cases h with
  | none => exact .none
  | some h => exact hstep _ _ h

theorem rel_getRequestData (i : ℕ) (h : Twins s₁ s₂) :
    Option.Rel Twins (getRequestData ask name i s₁) (getRequestData ask name i s₂) := by
  obtain ⟨c₁, e⟩ := s₁
  obtain ⟨c₂, e'⟩ := s₂
  obtain ⟨rfl, bytes, h₁, h₂⟩ := h
  have hask : (ask e (.data name i)).1 = (ask e (.data name i)).1 := rfl
  rcases getRequestData_spec hask h₁ with ⟨hnone, hover⟩ | ⟨c₁', hsome, hfill, -⟩
  · rcases getRequestData_spec hask h₂ with ⟨hnone', -⟩ | ⟨c₂', -, hfill', -⟩
    · rw [hnone, hnone']
      exact .none
    · exact absurd hfill'.fits (not_le.2 hover)
  · rcases getRequestData_spec hask h₂ with ⟨-, hover'⟩ | ⟨c₂', hsome', hfill', -⟩
    · exact absurd hfill.fits (not_le.2 hover')
    · rw [hsome, hsome']
      exact .some ⟨rfl, _, hfill, hfill'⟩

/-- **The packet loop** keeps two clients the same. -/
theorem rel_requestLoop (k : ℕ) (h : Twins s₁ s₂) :
    Option.Rel Twins (requestLoop ask name k s₁) (requestLoop ask name k s₂) := by
  induction k with
  | zero => exact .some h
  | succ k ih => exact rel_bind ih fun _ _ hk => rel_getRequestData k hk

theorem rel_getRequestNumber (h8 : ∀ e content, (ask e (.number name)).1 = some content → content.length = 8)
    (h : Twins s₁ s₂) :
    Option.Rel (fun s₁ s₂ => Twins s₁ s₂ ∧ s₁.1.segNumber = s₂.1.segNumber) (getRequestNumber ask name s₁)
      (getRequestNumber ask name s₂) := by
  obtain ⟨c₁, e⟩ := s₁
  obtain ⟨c₂, e'⟩ := s₂
  obtain ⟨rfl, bytes, h₁, h₂⟩ := h
  have hlen := h8 e
  unfold getRequestNumber
  simp only
  generalize ask e (.number name) = answer at hlen ⊢
  obtain ⟨content, e'⟩ := answer
  cases content with
  | none => exact .some ⟨⟨rfl, bytes, { h₁ with }, { h₂ with }⟩, rfl⟩
  | some content =>
    -- the content covers all bytes of the old number
    have hall : ∀ n, content ++ (leBytes 8 n).drop content.length = content := by
      intro n
      rw [hlen content rfl, List.drop_of_length_le (length_leBytes 8 n).le, List.append_nil]
    simp only [Consumer.onRequestNumberArrive, if_pos (hlen content rfl).le, hall, Option.map_some]
    exact .some ⟨⟨rfl, bytes, { h₁ with }, { h₂ with }⟩, rfl⟩

/-- the resets make two clients the same, whatever they hold -/
theorem rel_preDownload (h8 : ∀ name e content, (ask e (.number name)).1 = some content → content.length = 8)
    (absoluteURI : Str) (c₁ c₂ : Consumer) (e : ε) :
    Option.Rel Twins (preDownload ask absoluteURI (c₁, e)) (preDownload ask absoluteURI (c₂, e)) := by
  unfold preDownload
  cases chunkName absoluteURI with
  | none => exact .none
  | some name =>
    have hreset : Twins (c₁.resetSegBuffer, e) (c₂.resetSegBuffer, e) :=
      ⟨rfl, [], filled_resetSegBuffer c₁, filled_resetSegBuffer c₂⟩
    simp only [Option.bind_some]
    refine rel_bind (rel_getRequestNumber (h8 name) hreset) fun s₁ s₂ h => ?_
    rw [h.2]
    exact rel_requestLoop _ h.1

theorem reads_eq (h₁ : c₁.CursorOk) (h₂ : c₂.CursorOk) (hpending : c₁.pending = c₂.pending) (lens : List ℕ) :
    reads c₁ lens = reads c₂ lens := by
  induction lens generalizing c₁ c₂ with
  | nil => rfl
  | cons len lens ih =>
    obtain ⟨hr₁, hok₁, hp₁⟩ := Consumer.read_spec h₁ len
    obtain ⟨hr₂, hok₂, hp₂⟩ := Consumer.read_spec h₂ len
    rw [reads, reads, hr₁, hr₂, hpending, ih hok₁ hok₂ (by rw [hp₁, hp₂, hpending])]

end Twins

/-! ## Histories -/

section Histories

variable {ε : Type} {ask : ε → Request → Option Bytes × ε}

theorem FromServer.length_number (h : FromServer ask) (name : Str) (e : ε) (content : Bytes)
    (hreply : (ask e (.number name)).1 = some content) : content.length = 8 := by
  obtain ⟨srv, hput⟩ := h e (.number name) content hreply
  have hnumber : (onInterest srv (Request.number name).segName).1 = .put (leBytes 8 (segNumber (Das.sizeOf srv name))) :=
    onInterest_number srv name
  rw [hnumber, Outcome.put.injEq] at hput
  rw [← hput, length_leBytes]

/-- what two consumers hold makes no difference to a download -/
theorem shown_eq (hask : FromServer ask) (absoluteURI : Str) (e : ε) (lens : List ℕ) (c₁ c₂ : Consumer) :
    shown ask absoluteURI e lens c₁ = shown ask absoluteURI e lens c₂ := by
  have hrel : Option.Rel Twins (preDownload (recorded ask) absoluteURI (c₁, (e, [])))
      (preDownload (recorded ask) absoluteURI (c₂, (e, []))) :=
    rel_preDownload (fun name e => hask.length_number name e.1) absoluteURI c₁ c₂ (e, [])
  unfold shown
  generalize preDownload (recorded ask) absoluteURI (c₁, (e, [])) = o₁ at hrel ⊢
  generalize preDownload (recorded ask) absoluteURI (c₂, (e, [])) = o₂ at hrel ⊢
  cases hrel with
  | none => rfl
  | some h =>
    obtain ⟨hnetwork, bytes, h₁, h₂⟩ := h
    have hreads := reads_eq h₁.cursorOk h₂.cursorOk (h₁.pending.trans h₂.pending.symm) lens
    simp only [Option.map_some, hnetwork, hreads]

/-- **Downloads are independent.** After any two histories of resets, replies, timeouts and reads, of a consumer whatever
its memory held at first, a `PreDownload` that a `NdnDasServer` replies to, or not, sends the same Interests, and the reads
after it return the same. -/
theorem download_independent (hask : FromServer ask) (absoluteURI : Str) (e : ε) (lens : List ℕ)
    (start₁ start₂ : Consumer) (history₁ history₂ : List Event) :
    ∀ c₁ ∈ run event (some start₁) history₁, ∀ c₂ ∈ run event (some start₂) history₂,
      shown ask absoluteURI e lens c₁ = shown ask absoluteURI e lens c₂ :=
  fun c₁ _ c₂ _ => shown_eq hask absoluteURI e lens c₁ c₂

theorem fromServer_lossy (fate : Request → Fate) : FromServer (lossy fate) := by
  have hserve : ∀ srv r content, (serve srv r).1 = some content → (onInterest srv r.segName).1 = .put content := by
    intro srv r content h
    unfold serve at h
    split at h <;> rename_i heq
    · rw [heq, ← Option.some.inj h]
    · cases h
    · cases h
  intro srv r content h
  unfold lossy at h
  split at h
  · exact ⟨srv, hserve srv r content h⟩
  · cases h
  · cases h

/-- a longer file was downloaded, and half read -/
def longerFile : List Event :=
  [.resetSegBuffer, .numberArrive ⟨leBytes 8 1, length_leBytes 8 1⟩, .dataArrive [9, 9, 9, 9, 9, 9], .read 3]

/-- the three-byte file after the longer one, and after nothing -/
theorem download_after_longer :
    (∃ c₁ ∈ run event (some freshConsumer) longerFile, c₁.pending = [9, 9, 9]) ∧
      ∀ c₁ ∈ run event (some freshConsumer) longerFile, ∀ c₂ ∈ run event (some freshConsumer) [],
        shown (lossy fun _ => .answered) "http://h/BigBuckBunny/a".toList smallServer [2, 2, 2] c₁ =
          shown (lossy fun _ => .answered) "http://h/BigBuckBunny/a".toList smallServer [2, 2, 2] c₂ :=
  ⟨⟨_, rfl, by decide⟩, download_independent (fromServer_lossy _) _ smallServer [2, 2, 2] freshConsumer freshConsumer
    longerFile []⟩

end Histories

end NdnDash.Ndn
