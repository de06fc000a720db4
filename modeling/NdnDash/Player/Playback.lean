/-
What comes out of the player's threads (`Player.Pipeline`), in every interleaving.

- `Inv`: where the segments are (`Source`), the chain of decoders, and whose frames have been handed over (`Frames`).
  `step_inv` keeps it.
- `playback_in_order`: the decoders get the segments in the order in which the receiver returned them, none skipped or
  repeated; one of them decodes at a time; and the renderer gets the frames in the order of the segments and, within one, of
  their decoding.
-/
import NdnDash.Player.Pipeline

namespace NdnDash.Player.Pipeline

open NdnDash.Machine

variable {M : Type}

/-! ## What the player is for -/

/-- the thread decodes, or is about to -/
def DecoderPc.Decoding {M : Type} : DecoderPc M → Prop
  | .test | .decode | .addFrame _ | .checkRun | .flush | .notify => True
  | _ => False

theorem DecoderPc.Decoding.not_late {M : Type} {pc : DecoderPc M} (h : pc.Decoding) : ¬ pc.Late := by
  cases pc <;> simp_all [DecoderPc.Decoding, DecoderPc.Late]

theorem DecoderPc.Decoding.stage_eq {M : Type} {pc : DecoderPc M} (h : pc.Decoding) : pc.stage = none := by
  cases pc <;> simp_all [DecoderPc.Decoding, DecoderPc.stage]

structure InOrder (s : St M) : Prop where
  decoders : s.decoders.map (·.mediaSegment) <+: s.returned
  /-- only the newest decoder decodes -/
  oneAtATime : ∀ i d, s.decoders[i]? = some d → d.pc.Decoding → i + 1 = s.decoders.length
  /-- the renderer gets the frames of the decoders in their order, none of them twice -/
  shown : s.frameBuffer.delivered.Pairwise (· < ·)
  ofDecoders : ∀ f ∈ s.frameBuffer.delivered, ∃ d, s.decoders[(ofLex f).1]? = some d ∧ (ofLex f).2 < d.frames

/-! ## Where the segments are -/

section Source

/-- what the buffering thread holds has been returned last -/
def Pending (returned accepted : List M) : BufferingPc M → Prop
  | .test (some media) | .pushBack media => returned = accepted ++ [media]
  | .setEOS | .ended => accepted <+: returned
  | _ => returned = accepted

/-- what has been returned is held by the buffering thread, queued, has come out, or was cleared after it all -/
structure Source (returned : List M) (pc : BufferingPc M) (buffer : MediaObjectBuffer.St M) : Prop where
  pending : Pending returned buffer.accepted pc
  queue : buffer.accepted = buffer.delivered ++ (buffer.deleted ++ buffer.mediaobjects)
  cleared : buffer.deleted ≠ [] → buffer.mediaobjects = [] ∧ pc = .ended

variable {returned : List M} {pc : BufferingPc M} {buffer : MediaObjectBuffer.St M}

theorem Source.delivered_prefix (h : Source returned pc buffer) : buffer.delivered <+: returned := by
  have haccepted : buffer.delivered <+: buffer.accepted := ⟨_, h.queue.symm⟩
  refine haccepted.trans ?_
  have hpending := h.pending
  cases pc with
  | unborn => exact hpending ▸ List.prefix_refl _
  | downloadInitSegment => exact hpending ▸ List.prefix_refl _
  | getNextSegment => exact hpending ▸ List.prefix_refl _
  | test media =>
    cases media with
    | none => exact hpending ▸ List.prefix_refl _
    | some media => exact ⟨_, Eq.symm hpending⟩
  | pushBack media => exact ⟨_, Eq.symm hpending⟩
  | notify => exact hpending ▸ List.prefix_refl _
  | setEOS => exact hpending
  | ended => exact hpending

/-- the thread goes on with the buffer as it is -/
theorem Source.goto (h : Source returned pc buffer) {returned' : List M} {pc' : BufferingPc M}
    (hpending : Pending returned' buffer.accepted pc') (hne : pc ≠ .ended) : Source returned' pc' buffer :=
  ⟨hpending, h.queue, fun hdeleted => absurd (h.cleared hdeleted).2 hne⟩

theorem Source.eos (h : Source returned pc buffer) (eos : Bool) : Source returned pc { buffer with eos } :=
  ⟨h.pending, h.queue, h.cleared⟩

theorem Source.pushBack {size : UInt32} {media : M} (h : Source returned (.pushBack media) buffer)
    (hawake : ¬ (size.toNat ≤ buffer.mediaobjects.length ∧ buffer.eos = false)) :
    Source returned (if size.toNat ≤ buffer.mediaobjects.length then .ended else .notify)
      (MediaObjectBuffer.pushBack size buffer media) := by
  have hreturned : returned = buffer.accepted ++ [media] := h.pending
  have hdeleted : buffer.deleted = [] := by
    by_contra hne
    cases (h.cleared hne).2
  unfold MediaObjectBuffer.pushBack
  rw [if_neg hawake]
  by_cases hfull : size.toNat ≤ buffer.mediaobjects.length
  · rw [if_pos hfull, if_pos hfull]
    exact ⟨⟨[media], hreturned.symm⟩, h.queue, fun hne => absurd hdeleted hne⟩
  · rw [if_neg hfull, if_neg hfull]
    refine ⟨hreturned, ?_, fun hne => absurd hdeleted hne⟩
    rw [h.queue]
    simp only [List.append_assoc]

/-- what comes out is the first that is queued -/
theorem Source.getFront (h : Source returned pc buffer) : Source returned pc (MediaObjectBuffer.getFront buffer) := by
  cases hqueue : buffer.mediaobjects with
  | nil => simpa only [MediaObjectBuffer.getFront, hqueue] using h
  | cons media rest =>
    have hdeleted : buffer.deleted = [] := by
      by_contra hne
      rw [(h.cleared hne).1] at hqueue
      cases hqueue
    simp only [MediaObjectBuffer.getFront, hqueue]
    refine ⟨h.pending, ?_, fun hne => absurd hdeleted hne⟩
    rw [h.queue, hdeleted, hqueue]
    simp

theorem Source.clear (h : Source returned .ended buffer) {buffer' : MediaObjectBuffer.St M}
    (hclear : MediaObjectBuffer.clear buffer = some buffer') :
    Source returned .ended buffer' ∧ buffer'.delivered = buffer.delivered := by
  unfold MediaObjectBuffer.clear at hclear
  split_ifs at hclear with hlength
  rw [← Option.some.inj hclear]
  refine ⟨⟨h.pending, ?_, fun _ => ⟨rfl, rfl⟩⟩, rfl⟩
  rw [List.append_nil]
  exact h.queue

end Source

/-! ## Whose frames they are -/

section Frames

variable {size : UInt32} {decoders : List (MediaObjectDecoder M)} {frameBuffer : MediaObjectBuffer.St Frame}

/-- the frame buffer has taken frames that the decoders have handed over, in their order -/
structure Frames (size : UInt32) (decoders : List (MediaObjectDecoder M)) (frameBuffer : MediaObjectBuffer.St Frame) :
    Prop where
  buffer : MediaObjectBuffer.Inv size frameBuffer
  increasing : frameBuffer.accepted.Pairwise (· < ·)
  ofDecoders : ∀ f ∈ frameBuffer.accepted, ∃ d, decoders[(ofLex f).1]? = some d ∧ (ofLex f).2 < d.frames

theorem Frames.delivered_sublist (h : Frames size decoders frameBuffer) :
    frameBuffer.delivered.Sublist frameBuffer.accepted :=
  (List.sublist_append_left _ _).trans h.buffer.inOrder

theorem Frames.append (h : Frames size decoders frameBuffer) (d : MediaObjectDecoder M) :
    Frames size (decoders ++ [d]) frameBuffer := by
  refine ⟨h.buffer, h.increasing, fun f hf => ?_⟩
  obtain ⟨d', hd', hlt⟩ := h.ofDecoders f hf
  exact ⟨d', List.getElem?_append_left (List.getElem?_eq_some_iff.1 hd').1 ▸ hd', hlt⟩

theorem Frames.modify (h : Frames size decoders frameBuffer) (i : ℕ)
    {f : MediaObjectDecoder M → MediaObjectDecoder M} (hf : ∀ d, d.frames ≤ (f d).frames) :
    Frames size (decoders.modify i f) frameBuffer := by
  refine ⟨h.buffer, h.increasing, fun x hx => ?_⟩
  obtain ⟨d, hd, hlt⟩ := h.ofDecoders x hx
  rw [List.getElem?_modify, hd]
  by_cases hi : i = (ofLex x).1
  · exact ⟨f d, by simp [hi], hlt.trans_le (hf d)⟩
  · exact ⟨d, by simp [hi], hlt⟩

/-- nothing else is taken from the frame buffer -/
theorem Frames.buffered (h : Frames size decoders frameBuffer) {frameBuffer' : MediaObjectBuffer.St Frame}
    (hinv : MediaObjectBuffer.Inv size frameBuffer') (haccepted : frameBuffer'.accepted = frameBuffer.accepted) :
    Frames size decoders frameBuffer' :=
  ⟨hinv, haccepted ▸ h.increasing, haccepted ▸ h.ofDecoders⟩

/-- the newest decoder hands over its next frame -/
theorem Frames.pushBack (h : Frames size decoders frameBuffer) {i : ℕ} {d : MediaObjectDecoder M}
    (hd : decoders[i]? = some d) (hlast : i + 1 = decoders.length)
    {f : MediaObjectDecoder M → MediaObjectDecoder M} (hf : ∀ d, (f d).frames = d.frames + 1) :
    Frames size (decoders.modify i f) (MediaObjectBuffer.pushBack size frameBuffer (toLex (i, d.frames))) := by
  have hmore := h.modify i (f := f) fun d => (hf d).symm ▸ Nat.le_succ _
  unfold MediaObjectBuffer.pushBack
  split_ifs with hsleep hfull
  · exact hmore
  · exact ⟨⟨h.buffer.bounded, h.buffer.inOrder, h.buffer.accounted⟩, h.increasing, hmore.ofDecoders⟩
  · refine ⟨?_, ?_, fun x hx => ?_⟩
    · have hinv := MediaObjectBuffer.pushBack_inv h.buffer (toLex (i, d.frames))
      rw [MediaObjectBuffer.pushBack, if_neg hsleep, if_neg hfull] at hinv
      exact hinv
    · refine List.pairwise_append.2 ⟨h.increasing, List.pairwise_singleton _ _, fun x hx y hy => ?_⟩
      rw [List.mem_singleton.1 hy]
      obtain ⟨d', hd', hlt⟩ := h.ofDecoders x hx
      have hle : (ofLex x).1 < decoders.length := (List.getElem?_eq_some_iff.1 hd').1
      apply Prod.Lex.lt_iff.2
      by_cases hi : (ofLex x).1 = i
      · rw [hi, hd, Option.some.injEq] at hd'
        exact Or.inr ⟨hi, hd' ▸ hlt⟩
      · exact Or.inl (show (ofLex x).1 < i by omega)
    · rcases List.mem_append.1 hx with hx | hx
      · exact hmore.ofDecoders x hx
      · rw [List.mem_singleton.1 hx]
        refine ⟨f d, ?_, ?_⟩
        · change (decoders.modify i f)[i]? = _
          rw [List.getElem?_modify_eq, hd]
          rfl
        · change d.frames < (f d).frames
          rw [hf]
          exact Nat.lt_succ_self _

end Frames

/-! ## The invariant -/

section Invariant

/-- the segment that has come out and is not yet handed to a decoder -/
def hand {M : Type} : Option (Stage M) → List M
  | some (.construct media) => [media]
  | _ => []

/-- who may be in `CreateAVDecoder` -/
def St.actors (s : St M) : Actors M := ⟨s.manager.stage, s.decoders.map (·.pc)⟩

/-- the invariant, of a state whose threads stand where `x` says -/
structure Inv (setup : Setup) (x : Actors M) (s : St M) : Prop where
  source : Source s.returned s.buffering s.buffer
  chain : x.Chain
  length : x.pcs.length = s.decoders.length
  /-- actor `a` takes the segment of decoder `a` -/
  handed : s.buffer.delivered = s.decoders.map (·.mediaSegment) ++ hand (x.stageAt s.decoders.length)
  frames : Frames setup.frameBufferSize s.decoders s.frameBuffer

/-- the user has joined the buffering thread -/
def ManagerPc.Joined {M : Type} : ManagerPc M → Prop
  | .decoderStop | .testRun _ | .clearRun _ | .joinDecoder _ | .clear => True
  | _ => False

/-- the user has started the buffering thread, and has not told it to stop -/
def ManagerPc.Buffers {M : Type} : ManagerPc M → Prop
  | .starting _ | .setRunning | .started | .clearRunning | .receiverStop => True
  | _ => False

/-- `Stop` has found that the player does not run, or has cleared that -/
def ManagerPc.Stopping {M : Type} : ManagerPc M → Prop
  | .receiverStop | .bufferEOS | .joinBuffering | .decoderStop | .testRun _ | .clearRun _ | .joinDecoder _ | .clear
  | .clearFrames | .stopped => True
  | _ => False

/-- where the user stands with the buffering thread -/
structure Joined (s : St M) : Prop where
  idle : s.manager = .idle → s.buffering = .unborn ∧ s.decoders = []
  buffers : s.manager.Buffers ∨ s.isRunning = true → s.isBuffering = true
  cleared : s.manager.Stopping → s.isRunning = false
  joined : s.manager.Joined → s.buffering = .ended

variable {setup : Setup} {x x' : Actors M} {s : St M} {a i : ℕ}

theorem map_modify {α β : Type} {g : α → β} {f : α → α} (h : ∀ d, g (f d) = g d) (l : List α) (i : ℕ) :
    (l.modify i f).map g = l.map g := by
  apply List.ext_getElem?
  intro j
  rw [List.getElem?_map, List.getElem?_map, List.getElem?_modify]
  by_cases hi : i = j <;> cases l[j]? <;> simp [hi, h]

theorem map_modify_set {α β : Type} {g : α → β} {f : α → α} {b : β} (h : ∀ d, g (f d) = b) (l : List α) (i : ℕ) :
    (l.modify i f).map g = (l.map g).set i b := by
  apply List.ext_getElem?
  intro j
  rw [List.getElem?_map, List.getElem?_set, List.getElem?_map, List.getElem?_modify, List.length_map]
  by_cases hi : i = j
  · subst hi
    rcases Nat.lt_or_ge i l.length with hlt | hge
    · simp [hlt, h]
    · simp [not_lt.2 hge]
  · simp [hi]

theorem forall_mem_modify {α : Type} {p : α → Prop} {f : α → α} {l : List α} {i : ℕ} (h : ∀ d ∈ l, p d)
    (hf : ∀ d, p d → p (f d)) : ∀ d ∈ l.modify i f, p d := by
  intro d hd
  obtain ⟨j, hj⟩ := List.mem_iff_getElem?.1 hd
  rw [List.getElem?_modify] at hj
  obtain ⟨d', hd', rfl⟩ := Option.map_eq_some_iff.1 hj
  have hp := h d' (List.mem_of_getElem? hd')
  split_ifs
  · exact hf d' hp
  · exact hp

theorem goto_actors (s : St M) (i : ℕ) (pc : DecoderPc M) :
    (s.goto i pc).actors = { s.actors with pcs := s.actors.pcs.set i pc } :=
  congrArg (Actors.mk s.manager.stage)
    (map_modify_set (g := MediaObjectDecoder.pc) (f := fun d => { d with pc }) (fun _ => rfl) s.decoders i)

theorem setRun_actors (s : St M) (i : ℕ) (run : Bool) : (s.setDecoder i fun d => { d with run }).actors = s.actors :=
  congrArg (Actors.mk s.manager.stage)
    (map_modify (g := MediaObjectDecoder.pc) (f := fun d => { d with run }) (fun _ => rfl) s.decoders i)

theorem Inv.of_actors (h : Inv setup x s) (hchain : x'.Chain) (hlength : x'.pcs.length = x.pcs.length)
    (hhand : hand (x'.stageAt s.decoders.length) = hand (x.stageAt s.decoders.length)) : Inv setup x' s :=
  ⟨h.source, hchain, hlength.trans h.length, hhand ▸ h.handed, h.frames⟩

/-- a decoder keeps its segment -/
theorem Inv.setDecoder (h : Inv setup x s) (i : ℕ) {f : MediaObjectDecoder M → MediaObjectDecoder M}
    (hf : ∀ d, (f d).mediaSegment = d.mediaSegment ∧ d.frames ≤ (f d).frames) : Inv setup x (s.setDecoder i f) := by
  have hlength : (s.decoders.modify i f).length = s.decoders.length := List.length_modify _ _ _
  refine ⟨h.source, h.chain, h.length.trans hlength.symm, ?_, h.frames.modify i fun d => (hf d).2⟩
  change s.buffer.delivered = (s.decoders.modify i f).map (·.mediaSegment) ++ hand (x.stageAt (s.decoders.modify i f).length)
  rw [hlength, map_modify fun d => (hf d).1]
  exact h.handed

theorem Inv.goto (h : Inv setup x s) (i : ℕ) (pc : DecoderPc M) :
    Inv setup x (s.goto i pc) :=
  h.setDecoder i fun _ => ⟨rfl, le_rfl⟩

theorem hand_put (ha : x.stageAt a ≠ none) (stage : Option (Stage M)) (n : ℕ) :
    hand ((x.put stage a).stageAt n) = if n = a then hand stage else hand (x.stageAt n) := by
  by_cases hn : n = a
  · rw [if_pos hn, hn, Actors.stageAt_put_self ha]
  · rw [if_neg hn, Actors.stageAt_put_of_ne hn]

theorem hand_set {pc pc' : DecoderPc M} (hpc : x.pcs[i]? = some pc) (h : hand pc.stage = [])
    (h' : hand pc'.stage = []) (n : ℕ) :
    hand (({ x with pcs := x.pcs.set i pc' } : Actors M).stageAt n) = hand (x.stageAt n) := by
  cases n with
  | zero => rfl
  | succ j =>
    rw [Actors.stageAt, Actors.stageAt]
    by_cases hi : i = j
    · subst hi
      rw [List.getElem?_set_self (List.getElem?_eq_some_iff.1 hpc).1, hpc, Option.bind_some, Option.bind_some, h, h']
    · rw [List.getElem?_set_ne hi]

/-- an actor goes on in `CreateAVDecoder` with nothing in its hand -/
theorem Inv.put (h : Inv setup x s) {st : Stage M} (ha : x.stageAt a = some st)
    (hst : hand (some st) = []) {stage : Option (Stage M)} (hstage : hand stage = [])
    (hok : ∀ st, stage = some st → Actors.StageOk x.pcs a st)
    (hlate : a < x.pcs.length → (stage.elim DecoderPc.stop DecoderPc.creating : DecoderPc M).Late) :
    Inv setup (x.put stage a) s := by
  have hne : x.stageAt a ≠ none := by simp [ha]
  refine h.of_actors (h.chain.put hne hok hlate) (Actors.length_put x stage a) ?_
  rw [hand_put hne]
  split_ifs with hn
  · rw [hn, ha, hst, hstage]
  · rfl

/-- what the buffering thread changes -/
theorem Inv.buffering (h : Inv setup x s) {returned : List M} {pc : BufferingPc M} {buffer : MediaObjectBuffer.St M}
    (hsource : Source returned pc buffer) (hdelivered : buffer.delivered = s.buffer.delivered) :
    Inv setup x { s with returned, buffering := pc, buffer } :=
  ⟨hsource, h.chain, h.length, hdelivered.trans h.handed, h.frames⟩

/-- the frame buffer changes -/
theorem Inv.frameBuffer (h : Inv setup x s) {frameBuffer : MediaObjectBuffer.St Frame}
    (hframes : Frames setup.frameBufferSize s.decoders frameBuffer) : Inv setup x { s with frameBuffer } :=
  ⟨h.source, h.chain, h.length, h.handed, hframes⟩

theorem getFront_accepted {α : Type} (buffer : MediaObjectBuffer.St α) :
    (MediaObjectBuffer.getFront buffer).accepted = buffer.accepted := by
  unfold MediaObjectBuffer.getFront
  split <;> rfl

theorem Inv.clearFrames (h : Inv setup x s) {frameBuffer : MediaObjectBuffer.St Frame}
    (hclear : MediaObjectBuffer.clear s.frameBuffer = some frameBuffer) :
    Inv setup x { s with frameBuffer } := by
  unfold MediaObjectBuffer.clear at hclear
  split_ifs at hclear
  rw [← Option.some.inj hclear]
  exact h.frameBuffer (h.frames.buffered (MediaObjectBuffer.clear_inv h.frames.buffer) rfl)

theorem Inv.frameEOS (h : Inv setup x s) (eos : Bool) :
    Inv setup x { s with frameBuffer := { s.frameBuffer with eos } } :=
  h.frameBuffer (h.frames.buffered ⟨h.frames.buffer.bounded, h.frames.buffer.inOrder, h.frames.buffer.accounted⟩ rfl)

/-- a thread goes on outside `CreateAVDecoder` -/
theorem Inv.gotoOutside (h : Inv setup s.actors s) {d : MediaObjectDecoder M} (hd : s.decoders[i]? = some d)
    (hborn : d.pc ≠ .unborn) (hpc : d.pc.stage = none) {pc : DecoderPc M} (hlate : d.pc.Late → pc.Late)
    (hstage : pc.stage = none ∨ pc.stage = some .getFront ∧ ¬ d.pc.Late) :
    Inv setup (s.goto i pc).actors (s.goto i pc) := by
  have hpcs : s.actors.pcs[i]? = some d.pc := by
    rw [St.actors, List.getElem?_map, hd]
    rfl
  have hhand : hand pc.stage = [] := by
    rcases hstage with hstage | ⟨hstage, -⟩ <;> rw [hstage] <;> rfl
  rw [goto_actors]
  refine Inv.goto (h.of_actors (h.chain.set hpcs (h.chain.born hpcs hborn) (fun hlt => hlate (h.chain.late i _ hpcs hlt)) ?_)
    List.length_set (hand_set hpcs (by rw [hpc]; rfl) hhand _)) i pc
  intro stage hst
  rcases hstage with hstage | ⟨hstage, hnot⟩
  · rw [hstage] at hst
    cases hst
  · rw [hstage] at hst
    rw [← Option.some.inj hst]
    exact (h.chain.last_of_not_late hpcs hnot).symm

/-- who decodes goes on decoding, or calls `CreateAVDecoder`, or stops -/
theorem Inv.gotoDecoding (h : Inv setup s.actors s) {d : MediaObjectDecoder M}
    (hd : s.decoders[i]? = some d) (hdecoding : d.pc.Decoding) {pc : DecoderPc M}
    (hstage : pc.stage = none ∨ pc.stage = some .getFront) : Inv setup (s.goto i pc).actors (s.goto i pc) := by
  have hborn : d.pc ≠ .unborn := by
    intro hpc
    rw [hpc] at hdecoding
    exact hdecoding
  have hnot : ¬ d.pc.Late := hdecoding.not_late
  exact h.gotoOutside hd hborn hdecoding.stage_eq (fun hlate => absurd hlate hnot) (hstage.imp_right fun hst => ⟨hst, hnot⟩)

/-- a frame is handed over -/
theorem Inv.addFrame (h : Inv setup s.actors s) {d : MediaObjectDecoder M} (hd : s.decoders[i]? = some d)
    (hdecoding : d.pc.Decoding) {pc : DecoderPc M} (hstage : pc.stage = none) :
    let s' := { s with frameBuffer :=
      MediaObjectBuffer.pushBack setup.frameBufferSize s.frameBuffer (toLex (i, d.frames)) }.setDecoder i fun d =>
        { d with frames := d.frames + 1, pc }
    Inv setup s'.actors s' := by
  intro s'
  have hgoto := h.gotoDecoding hd hdecoding (Or.inl hstage)
  have hactors : s'.actors = (s.goto i pc).actors := by
    rw [goto_actors]
    exact congrArg (Actors.mk s.manager.stage) (map_modify_set (g := MediaObjectDecoder.pc)
      (f := fun d => { d with frames := d.frames + 1, pc }) (fun _ => rfl) s.decoders i)
  have hpcs : s.actors.pcs[i]? = some d.pc := by
    rw [St.actors, List.getElem?_map, hd]
    rfl
  have hlast : i + 1 = s.decoders.length := (h.chain.last_of_not_late hpcs hdecoding.not_late).trans h.length
  have hmore : Inv setup s'.actors (s.setDecoder i fun d => { d with frames := d.frames + 1, pc }) := by
    rw [hactors]
    refine Inv.setDecoder (h.of_actors hgoto.chain ?_ ?_) i fun _ => ⟨rfl, Nat.le_succ _⟩
    · rw [goto_actors]
      exact List.length_set
    · rw [goto_actors]
      exact hand_set hpcs (by rw [hdecoding.stage_eq]; rfl) (by rw [hstage]; rfl) _
  exact hmore.frameBuffer (h.frames.pushBack hd hlast fun _ => rfl)

/-- the user goes on -/
theorem Inv.members (h : Inv setup x s) (isBuffering isRunning : Bool)
    (manager : ManagerPc M) : Inv setup x { s with isBuffering, isRunning, manager } :=
  ⟨h.source, h.chain, h.length, h.handed, h.frames⟩

/-- the buffering thread is created, and the user calls `CreateAVDecoder` -/
theorem Inv.start (h : Inv setup s.actors s) (hpc : s.manager = .idle) (hjoined : Joined s) :
    let s' := { s with isBuffering := true, buffering := .downloadInitSegment, manager := .starting .getFront }
    Inv setup s'.actors s' := by
  intro s'
  obtain ⟨hbuffering, hdecoders⟩ := hjoined.idle hpc
  have hsource := h.source
  have hhanded := h.handed
  rw [hbuffering] at hsource
  have hactors : s'.actors = ⟨some .getFront, []⟩ := congrArg (Actors.mk (some .getFront)) (congrArg (List.map _) hdecoders)
  rw [hactors]
  refine ⟨hsource.goto hsource.pending nofun, ⟨fun a stage ha => ?_, fun i pc hi => ?_⟩, ?_, ?_, h.frames⟩
  · cases a with
    | zero =>
      rw [← Option.some.inj ha]
      rfl
    | succ i => cases ha
  · cases hi
  · exact congrArg List.length hdecoders.symm
  · change s.buffer.delivered = _
    rw [hhanded, hdecoders, St.actors, hpc]
    rfl

/-- the invariant before anything has been started -/
theorem init_inv (setup : Setup) : Inv setup (St.init : St M).actors St.init where
  source := ⟨rfl, rfl, fun hne => absurd rfl hne⟩
  chain := by
    refine ⟨fun a stage ha => ?_, fun i pc hi => ?_⟩
    · cases a with
      | zero => cases ha
      | succ i => cases ha
    · cases hi
  length := rfl
  handed := rfl
  frames := ⟨MediaObjectBuffer.inv_init _, List.Pairwise.nil, nofun⟩

end Invariant

/-! ## Where the user stands -/

section Joining

variable {setup : Setup} {s : St M}

/-- what the other threads do does not concern the user -/
theorem Joined.of_eq {s' : St M} (h : Joined s) (hmanager : s'.manager = s.manager)
    (hbuffers : s'.isBuffering = s.isBuffering ∧ s'.isRunning = s.isRunning)
    (hidle : s.manager = .idle → s'.buffering = s.buffering ∧ s'.decoders = s.decoders)
    (hended : s.buffering = .ended → s'.buffering = .ended) : Joined s' := by
  refine ⟨fun hm => ?_, fun hm => ?_, fun hm => ?_, fun hm => ?_⟩
  · rw [hmanager] at hm
    obtain ⟨hbuffering, hdecoders⟩ := hidle hm
    rw [hbuffering, hdecoders]
    exact h.idle hm
  · rw [hmanager, hbuffers.2] at hm
    exact hbuffers.1.trans (h.buffers hm)
  · rw [hmanager] at hm
    exact hbuffers.2.trans (h.cleared hm)
  · rw [hmanager] at hm
    exact hended (h.joined hm)

/-- what `CreateAVDecoder` and the threads of the decoders do not change -/
def SameUser (s s' : St M) : Prop :=
  s'.manager = s.manager ∧ s'.buffering = s.buffering ∧ s'.isBuffering = s.isBuffering ∧ s'.isRunning = s.isRunning

theorem sameUser (s : St M) : SameUser s s := ⟨rfl, rfl, rfl, rfl⟩

theorem create_frame (setup : Setup) (s : St M) (answer : Answer) (stage : Stage M) :
    SameUser s (s.create setup answer stage).1 := by
  cases stage with
  | getFront =>
    unfold St.create
    dsimp only
    split <;> exact sameUser s
  | construct media => exact sameUser s
  | init j => exact sameUser s
  | createThread j =>
    unfold St.create
    dsimp only
    split_ifs <;> exact sameUser s
  | setRun j => exact sameUser s

theorem decoderStep_frame (setup : Setup) (s : St M) (i : ℕ) (answer : Answer) : SameUser s (s.decoderStep setup i answer) := by
  unfold St.decoderStep
  split
  · exact sameUser s
  · rename_i d hd
    cases d.pc with
    | unborn => exact sameUser s
    | test => exact sameUser s
    | decode => cases answer <;> exact sameUser s
    | addFrame flushing =>
      dsimp only
      split_ifs <;> exact sameUser s
    | checkRun => exact sameUser s
    | flush => exact sameUser s
    | notify => exact sameUser s
    | creating stage =>
      have hframe := create_frame setup s answer stage
      dsimp only
      rcases hr : s.create setup answer stage with ⟨s', stage' | ok⟩
      · rw [hr] at hframe
        exact hframe
      · rw [hr] at hframe
        exact hframe
    | stop => exact sameUser s
    | ended => exact sameUser s

/-- the user goes on -/
theorem Joined.goto {s' : St M} (hidle : s'.manager ≠ .idle)
    (hbuffers : s'.manager.Buffers ∨ s'.isRunning = true → s'.isBuffering = true)
    (hcleared : s'.manager.Stopping → s'.isRunning = false) (hjoined : s'.manager.Joined → s'.buffering = .ended) :
    Joined s' :=
  ⟨fun hm => absurd hm hidle, hbuffers, hcleared, hjoined⟩

theorem managerStep_joined (h : Joined s) (answer : Answer) : Joined (s.managerStep setup answer) := by
  have hbuffers := h.buffers
  have hcleared := h.cleared
  have hended := h.joined
  unfold St.managerStep
  cases hpc : s.manager with
  | idle =>
    dsimp only
    split_ifs
    · exact .goto nofun (fun hm => hbuffers (hm.elim nofun Or.inr)) nofun nofun
    · exact .goto nofun (fun _ => rfl) nofun nofun
  | starting stage =>
    have hbuffering : s.isBuffering = true := hbuffers (Or.inl (hpc ▸ trivial))
    have hframe := create_frame setup s answer stage
    dsimp only
    rcases hr : s.create setup answer stage with ⟨s', stage' | ok⟩
    · rw [hr] at hframe
      exact .goto nofun (fun _ => hframe.2.2.1.trans hbuffering) nofun nofun
    · rw [hr] at hframe
      cases ok <;> exact .goto nofun (fun _ => hframe.2.2.1.trans hbuffering) nofun nofun
  | setRunning => exact .goto nofun (fun _ => hbuffers (Or.inl (hpc ▸ trivial))) nofun nofun
  | started => exact .goto nofun (fun _ => hbuffers (Or.inl (hpc ▸ trivial))) nofun nofun
  | notStarted => exact .goto nofun (fun hm => hbuffers (hm.elim nofun Or.inr)) nofun nofun
  | checkRunning =>
    dsimp only
    split_ifs with hrunning
    · exact .goto nofun (fun _ => hbuffers (Or.inr hrunning)) nofun nofun
    · exact .goto nofun (fun hm => hbuffers (hm.elim nofun Or.inr)) (fun _ => by simpa using hrunning) nofun
  | clearRunning => exact .goto nofun (fun _ => hbuffers (Or.inl (hpc ▸ trivial))) (fun _ => rfl) nofun
  | receiverStop =>
    have hbuffering : s.isBuffering = true := hbuffers (Or.inl (hpc ▸ trivial))
    have hrunning : s.isRunning = false := hcleared (hpc ▸ trivial)
    dsimp only
    rw [if_pos hbuffering]
    exact .goto nofun (fun hm => hm.elim nofun fun hr => by simp [hrunning] at hr) (fun _ => hrunning) nofun
  | bufferEOS =>
    have hrunning : s.isRunning = false := hcleared (hpc ▸ trivial)
    exact .goto nofun (fun hm => hbuffers (hm.elim nofun Or.inr)) (fun _ => hrunning) nofun
  | joinBuffering =>
    have hrunning : s.isRunning = false := hcleared (hpc ▸ trivial)
    dsimp only
    split
    · rename_i hbuffering
      exact .goto nofun (fun hm => hbuffers (hm.elim nofun Or.inr)) (fun _ => hrunning) fun _ => hbuffering
    · exact h
  | decoderStop =>
    have hrunning : s.isRunning = false := hcleared (hpc ▸ trivial)
    exact .goto nofun (fun hm => hbuffers (hm.elim nofun Or.inr)) (fun _ => hrunning) fun _ => hended (hpc ▸ trivial)
  | testRun j =>
    have hrunning : s.isRunning = false := hcleared (hpc ▸ trivial)
    have hbuffering := hended (hpc ▸ trivial)
    dsimp only
    split
    · split_ifs <;>
        exact .goto nofun (fun hm => hbuffers (hm.elim nofun Or.inr)) (fun _ => hrunning) fun _ => hbuffering
    · exact h
  | clearRun j =>
    have hrunning : s.isRunning = false := hcleared (hpc ▸ trivial)
    exact .goto nofun (fun hm => hbuffers (hm.elim nofun Or.inr)) (fun _ => hrunning) fun _ => hended (hpc ▸ trivial)
  | joinDecoder j =>
    have hrunning : s.isRunning = false := hcleared (hpc ▸ trivial)
    have hbuffering := hended (hpc ▸ trivial)
    dsimp only
    split
    · exact .goto nofun (fun hm => hbuffers (hm.elim nofun Or.inr)) (fun _ => hrunning) fun _ => hbuffering
    · exact .goto nofun (fun hm => hbuffers (hm.elim nofun Or.inr)) (fun _ => hrunning) fun _ => hbuffering
    · exact h
  | clear =>
    have hrunning : s.isRunning = false := hcleared (hpc ▸ trivial)
    dsimp only
    split
    · exact .goto nofun (fun hm => hbuffers (hm.elim nofun Or.inr)) (fun _ => hrunning) nofun
    · exact h
  | clearFrames =>
    have hrunning : s.isRunning = false := hcleared (hpc ▸ trivial)
    dsimp only
    split
    · exact .goto nofun (fun hm => hbuffers (hm.elim nofun Or.inr)) (fun _ => hrunning) nofun
    · exact h
  | stopped => exact h

/-- the buffering thread changes what has been returned and the segment buffer only -/
theorem bufferingStep_frame (setup : Setup) (s : St M) (media : Option M) :
    ∃ returned buffering buffer, s.bufferingStep setup media = { s with returned, buffering, buffer } := by
  unfold St.bufferingStep
  split
  case h_6 =>
    split_ifs
    · exact ⟨_, _, _, rfl⟩
    · exact ⟨s.returned, .ended, _, rfl⟩
    · exact ⟨s.returned, .notify, _, rfl⟩
  all_goals exact ⟨_, _, _, rfl⟩

theorem step_joined (h : Joined s) (op : Op M) : Joined (s.step setup op) := by
  cases op with
  | buffering media =>
    have hunborn : s.buffering = .unborn → s.bufferingStep setup media = s := fun hpc => by
      simp only [St.bufferingStep, hpc]
    have hended : s.buffering = .ended → s.bufferingStep setup media = s := fun hpc => by
      simp only [St.bufferingStep, hpc]
    obtain ⟨returned, buffering, buffer, heq⟩ := bufferingStep_frame setup s media
    change Joined (s.bufferingStep setup media)
    refine h.of_eq (by rw [heq]) (by rw [heq]; exact ⟨rfl, rfl⟩) (fun hm => ?_) fun hpc => ?_
    · rw [hunborn (h.idle hm).1]
      exact ⟨rfl, rfl⟩
    · rw [hended hpc]
      exact hpc
  | manager answer => exact managerStep_joined h answer
  | decoder i answer =>
    obtain ⟨hmanager, hbuffering, hbuffers⟩ := decoderStep_frame setup s i answer
    refine h.of_eq hmanager hbuffers (fun hm => ⟨hbuffering, ?_⟩) fun hended => hbuffering.trans hended
    change (s.decoderStep setup i answer).decoders = _
    simp [St.decoderStep, (h.idle hm).2]
  | render => exact h.of_eq rfl ⟨rfl, rfl⟩ (fun _ => ⟨rfl, rfl⟩) id

end Joining

/-! ## Steps and runs -/

section Steps

variable {setup : Setup} {x : Actors M} {s : St M} {a : ℕ}

theorem Inv.inOrder (h : Inv setup s.actors s) : InOrder s where
  decoders := (List.prefix_append _ _).trans (h.handed ▸ h.source.delivered_prefix)
  oneAtATime := by
    intro i d hd hdecoding
    have hpcs : s.actors.pcs[i]? = some d.pc := by
      rw [St.actors, List.getElem?_map, hd]
      rfl
    exact (h.chain.last_of_not_late hpcs hdecoding.not_late).trans h.length
  shown := h.frames.increasing.sublist h.frames.delivered_sublist
  ofDecoders := fun f hf => h.frames.ofDecoders f (h.frames.delivered_sublist.subset hf)

/-- the segment at the front is taken -/
theorem create_getFront_inv (h : Inv setup s.actors s) (answer : Answer) (ha : s.actors.stageAt a = some .getFront) :
    Inv setup ((s.create setup answer .getFront).1.actors.put (s.create setup answer .getFront).2.getLeft? a)
      (s.create setup answer .getFront).1 := by
  have hne : s.actors.stageAt a ≠ none := by simp [ha]
  have hlast : s.actors.pcs.length = a := h.chain.stages a _ ha
  cases hqueue : s.buffer.mediaobjects with
  | nil =>
    cases heos : s.buffer.eos with
    | true =>
      simp only [St.create, hqueue, heos]
      exact h.put ha rfl rfl (by simp) fun _ => trivial
    | false =>
      simp only [St.create, hqueue, heos]
      refine h.put ha rfl rfl (fun st hst => ?_) fun hlt => absurd hlast (Nat.ne_of_gt hlt)
      rw [← Option.some.inj hst]
      exact hlast
  | cons media rest =>
    simp only [St.create, hqueue]
    refine ⟨h.source.getFront, ?_, (Actors.length_put _ _ a).trans h.length, ?_, h.frames⟩
    · refine h.chain.put hne (fun st hst => ?_) fun hlt => absurd hlast (Nat.ne_of_gt hlt)
      rw [← Option.some.inj hst]
      exact hlast
    · -- the segment goes from the buffer into the hand of the actor
      have hhanded := h.handed
      have hlength : s.decoders.length = a := h.length.symm.trans hlast
      rw [hlength, ha] at hhanded
      change (MediaObjectBuffer.getFront s.buffer).delivered = _
      rw [MediaObjectBuffer.getFront, hqueue]
      change s.buffer.delivered ++ [media] = _ ++ hand ((s.actors.put _ a).stageAt s.decoders.length)
      rw [hand_put hne, if_pos hlength, hhanded]
      simp [hand]

/-- the next decoder is constructed with it -/
theorem create_construct_inv (h : Inv setup s.actors s) (answer : Answer) {media : M}
    (ha : s.actors.stageAt a = some (.construct media)) :
    Inv setup
      ((s.create setup answer (.construct media)).1.actors.put (s.create setup answer (.construct media)).2.getLeft? a)
      (s.create setup answer (.construct media)).1 := by
  have hlast : s.actors.pcs.length = a := h.chain.stages a _ ha
  have hlength : s.decoders.length = a := h.length.symm.trans hlast
  have hactors : (s.create setup answer (.construct media)).1.actors =
      { s.actors with pcs := s.actors.pcs ++ [.unborn] } :=
    congrArg (Actors.mk s.manager.stage) List.map_append
  have hchain := h.chain.construct ha
  have hhanded := h.handed
  rw [hlength, ha] at hhanded
  rw [hactors]
  refine ⟨h.source, ?_, ?_, ?_, h.frames.append _⟩
  · simpa only [St.create, Sum.getLeft?_inl, hlength] using hchain
  · rw [Actors.length_put]
    simp only [St.create, List.length_append, h.length, List.length_singleton]
  · -- the segment goes from the hand of the actor to the decoder
    have hborn : ({ s.actors with pcs := s.actors.pcs ++ [.unborn] } : Actors M).stageAt (a + 1) = none := by
      rw [Actors.stageAt, ← hlast, List.getElem?_concat_length]
      rfl
    simp only [St.create, List.length_append, List.length_singleton, hlength, List.map_append]
    rw [Actors.stageAt_put_of_ne (Nat.succ_ne_self a), hborn, hhanded]
    simp [hand]

/-- its thread is created -/
theorem create_createThread_inv (h : Inv setup s.actors s) (answer : Answer) {j : ℕ}
    (ha : s.actors.stageAt a = some (.createThread j)) :
    Inv setup
      ((s.create setup answer (.createThread j)).1.actors.put (s.create setup answer (.createThread j)).2.getLeft? a)
      (s.create setup answer (.createThread j)).1 := by
  have hok := h.chain.stages a _ ha
  have hne : s.actors.stageAt a ≠ none := by simp [ha]
  simp only [St.create]
  split_ifs with hfailure
  · exact h.put ha rfl rfl (by simp) fun _ => trivial
  · simp only [Sum.getLeft?_inl, goto_actors]
    refine Inv.goto (h.of_actors (h.chain.createThread ha) ?_ ?_) j _
    · rw [Actors.length_put, List.length_set]
    · obtain ⟨rfl, -, hunborn⟩ := hok
      rw [Actors.put_set _ _ (by omega), hand_set ((Actors.getElem?_put _ _ (by omega)).trans hunborn) rfl rfl, hand_put hne]
      split_ifs with hn
      · rw [hn, ha]
        rfl
      · rfl

/-- **One step of `CreateAVDecoder`.** -/
theorem create_inv (h : Inv setup s.actors s) (answer : Answer) {stage : Stage M}
    (ha : s.actors.stageAt a = some stage) :
    Inv setup ((s.create setup answer stage).1.actors.put (s.create setup answer stage).2.getLeft? a)
      (s.create setup answer stage).1 := by
  cases stage with
  | getFront => exact create_getFront_inv h answer ha
  | construct media => exact create_construct_inv h answer ha
  | init j =>
    have hok := h.chain.stages a _ ha
    simp only [St.create]
    split_ifs with hfailure
    · exact h.put ha rfl rfl (by simp) fun _ => trivial
    · refine h.put ha rfl rfl (fun st hst => ?_) fun _ => trivial
      rw [← Option.some.inj hst]
      exact hok
  | createThread j => exact create_createThread_inv h answer ha
  | setRun j =>
    have hput : Inv setup (s.actors.put none a) s := h.put ha rfl rfl (by simp) fun _ => trivial
    change Inv setup ((s.setDecoder j fun d => { d with run := true }).actors.put none a) _
    rw [setRun_actors]
    exact hput.setDecoder j fun _ => ⟨rfl, le_rfl⟩

/-- **One step of a decoder's thread.** -/
theorem decoderStep_inv (h : Inv setup s.actors s) (i : ℕ) (answer : Answer) :
    Inv setup (s.decoderStep setup i answer).actors (s.decoderStep setup i answer) := by
  unfold St.decoderStep
  split
  · exact h
  · rename_i d hd
    cases hpc : d.pc with
    | unborn => exact h
    | test =>
      have hdecoding : d.pc.Decoding := by rw [hpc]; trivial
      dsimp only
      split_ifs
      · exact h.gotoDecoding hd hdecoding (Or.inl rfl)
      · exact h.gotoDecoding hd hdecoding (Or.inl rfl)
    | decode =>
      have hdecoding : d.pc.Decoding := by rw [hpc]; trivial
      cases answer with
      | frame => exact h.gotoDecoding hd hdecoding (Or.inl rfl)
      | success => exact h.gotoDecoding hd hdecoding (Or.inl rfl)
      | failure => exact h.gotoDecoding hd hdecoding (Or.inl rfl)
    | addFrame flushing =>
      have hdecoding : d.pc.Decoding := by rw [hpc]; trivial
      dsimp only
      split_ifs with hsleep hflushing
      · exact h
      · exact h.addFrame hd hdecoding rfl
      · exact h.addFrame hd hdecoding rfl
    | checkRun =>
      have hdecoding : d.pc.Decoding := by rw [hpc]; trivial
      dsimp only
      split_ifs
      · exact h.gotoDecoding hd hdecoding (Or.inl rfl)
      · exact h.gotoDecoding hd hdecoding (Or.inl rfl)
    | flush =>
      have hdecoding : d.pc.Decoding := by rw [hpc]; trivial
      dsimp only
      split_ifs
      · exact h.gotoDecoding hd hdecoding (Or.inl rfl)
      · exact h.gotoDecoding hd hdecoding (Or.inl rfl)
    | notify =>
      have hdecoding : d.pc.Decoding := by rw [hpc]; trivial
      dsimp only
      split_ifs
      · exact h.gotoDecoding hd hdecoding (Or.inr rfl)
      · exact h.gotoDecoding hd hdecoding (Or.inl rfl)
    | creating stage =>
      have ha : s.actors.stageAt (i + 1) = some stage := by
        rw [Actors.stageAt, St.actors, List.getElem?_map, hd, Option.map_some, Option.bind_some, hpc]
        rfl
      have hcreate := create_inv h answer ha
      rcases hr : s.create setup answer stage with ⟨s', stage' | ok⟩
      · rw [hr] at hcreate
        simp only [hr, goto_actors]
        exact hcreate.goto i _
      · rw [hr] at hcreate
        simp only [hr, goto_actors]
        exact hcreate.goto i _
    | stop => exact h.gotoOutside hd (by simp [hpc]) (by rw [hpc]; rfl) (fun _ => trivial) (Or.inl rfl)
    | ended => exact h

/-- **One step of the user's thread.** -/
theorem managerStep_inv (h : Inv setup s.actors s) (hjoined : Joined s) (answer : Answer) :
    Inv setup (s.managerStep setup answer).actors (s.managerStep setup answer) := by
  -- in all the steps but two the user is outside `CreateAVDecoder` before and after
  have hout : ∀ {m : ManagerPc M}, s.manager = m → m.stage = none →
      (⟨none, s.actors.pcs⟩ : Actors M) = s.actors := by
    intro m hm hstage
    rw [St.actors, hm, hstage]
  unfold St.managerStep
  cases hpc : s.manager with
  | idle =>
    dsimp only
    split_ifs
    · exact (hout hpc rfl ▸ h).members _ _ _
    · exact h.start hpc hjoined
  | starting stage =>
    have ha : s.actors.stageAt 0 = some stage := by
      change s.manager.stage = _
      rw [hpc]
      rfl
    have hcreate := create_inv h answer ha
    rcases hr : s.create setup answer stage with ⟨s', stage' | ok⟩
    · rw [hr] at hcreate
      simp only [hr]
      exact hcreate.members _ _ _
    · rw [hr] at hcreate
      simp only [hr]
      cases ok with
      | true => exact hcreate.members _ _ _
      | false => exact hcreate.members _ _ _
  | setRunning => exact (hout hpc rfl ▸ h).members _ _ _
  | started => exact ((hout hpc rfl ▸ h).frameEOS true).members _ _ _
  | notStarted => exact ((hout hpc rfl ▸ h).frameEOS true).members _ _ _
  | checkRunning =>
    dsimp only
    split_ifs
    · exact (hout hpc rfl ▸ h).members _ _ _
    · exact (hout hpc rfl ▸ h).members _ _ _
  | clearRunning => exact (hout hpc rfl ▸ h).members _ _ _
  | receiverStop =>
    dsimp only
    split_ifs
    · exact (hout hpc rfl ▸ h).members _ _ _
    · exact (hout hpc rfl ▸ h).members _ _ _
  | bufferEOS =>
    have h' : Inv setup ⟨none, s.actors.pcs⟩ s := hout hpc rfl ▸ h
    exact (h'.buffering (h'.source.eos true) rfl).members _ _ _
  | joinBuffering =>
    dsimp only
    split
    · exact (hout hpc rfl ▸ h).members _ _ _
    · exact h
  | decoderStop => exact (hout hpc rfl ▸ h).members _ _ _
  | testRun j =>
    dsimp only
    split
    · split_ifs
      · exact (hout hpc rfl ▸ h).members _ _ _
      · exact (hout hpc rfl ▸ h).members _ _ _
    · exact h
  | clearRun j =>
    have h' := h.setDecoder j (f := fun d => { d with run := false }) fun _ => ⟨rfl, le_rfl⟩
    rw [← hout hpc rfl, ← setRun_actors s j false] at h'
    exact h'.members _ _ _
  | joinDecoder j =>
    dsimp only
    split
    · exact (hout hpc rfl ▸ h).members _ _ _
    · exact (hout hpc rfl ▸ h).members _ _ _
    · exact h
  | clear =>
    have hended : s.buffering = .ended := hjoined.joined (hpc ▸ trivial)
    have hsource := h.source
    dsimp only
    split
    · rename_i buffer hclear
      have h' : Inv setup ⟨none, s.actors.pcs⟩ s := hout hpc rfl ▸ h
      rw [hended] at hsource
      obtain ⟨hsource, hdelivered⟩ := hsource.clear hclear
      rw [← hended] at hsource
      exact (h'.buffering hsource hdelivered).members _ _ _
    · exact h
  | clearFrames =>
    dsimp only
    split
    · rename_i frameBuffer hclear
      have h' : Inv setup ⟨none, s.actors.pcs⟩ s := hout hpc rfl ▸ h
      exact (h'.clearFrames hclear).members _ _ _
    · exact h
  | stopped => exact h

/-- **One step of the buffering thread.** -/
theorem bufferingStep_inv (h : Inv setup x s) (media : Option M) : Inv setup x (s.bufferingStep setup media) := by
  have hsource := h.source
  unfold St.bufferingStep
  split
  · exact h
  · rename_i hpc
    rw [hpc] at hsource
    exact h.buffering (hsource.goto hsource.pending (by simp)) rfl
  · rename_i hpc
    rw [hpc] at hsource
    have hreturned : s.returned = s.buffer.accepted := hsource.pending
    have hpending : Pending (s.returned ++ media.toList) s.buffer.accepted (.test media) := by
      cases media with
      | none => simpa [Pending] using hreturned
      | some media => simpa [Pending] using hreturned
    exact h.buffering (hsource.goto hpending (by simp)) rfl
  · rename_i hpc
    rw [hpc] at hsource
    have hreturned : s.returned = s.buffer.accepted := hsource.pending
    have hpending : Pending s.returned s.buffer.accepted .setEOS := hreturned ▸ List.prefix_refl _
    exact h.buffering (hsource.goto hpending (by simp)) rfl
  · rename_i media hpc
    rw [hpc] at hsource
    have hreturned : s.returned = s.buffer.accepted ++ [media] := hsource.pending
    split_ifs
    · have hpending : Pending s.returned s.buffer.accepted (.pushBack media) := hreturned
      exact h.buffering (hsource.goto hpending (by simp)) rfl
    · have hpending : Pending s.returned s.buffer.accepted .setEOS := ⟨[media], hreturned.symm⟩
      exact h.buffering (hsource.goto hpending (by simp)) rfl
  · rename_i media hpc
    rw [hpc] at hsource
    split_ifs with hsleep hfull
    · exact h
    · have hpush := hsource.pushBack hsleep
      rw [if_pos hfull] at hpush
      refine h.buffering hpush ?_
      rw [MediaObjectBuffer.pushBack, if_neg hsleep, if_pos hfull]
    · have hpush := hsource.pushBack hsleep
      rw [if_neg hfull] at hpush
      refine h.buffering hpush ?_
      rw [MediaObjectBuffer.pushBack, if_neg hsleep, if_neg hfull]
  · rename_i hpc
    rw [hpc] at hsource
    exact h.buffering (hsource.goto hsource.pending (by simp)) rfl
  · rename_i hpc
    rw [hpc] at hsource
    refine h.buffering ((hsource.goto ?_ (by simp)).eos true) rfl
    exact hsource.pending
  · exact h

theorem step_inv (h : Inv setup s.actors s) (hjoined : Joined s) (op : Op M) :
    Inv setup (s.step setup op).actors (s.step setup op) := by
  cases op with
  | buffering media =>
    have hactors : (s.bufferingStep setup media).actors = s.actors := by
      obtain ⟨returned, buffering, buffer, heq⟩ := bufferingStep_frame setup s media
      rw [heq]
      rfl
    exact (congrArg (fun x => Inv setup x (s.bufferingStep setup media)) hactors).mpr (bufferingStep_inv h media)
  | manager answer => exact managerStep_inv h hjoined answer
  | decoder i answer => exact decoderStep_inv h i answer
  | render => exact h.frameBuffer (h.frames.buffered (MediaObjectBuffer.getFront_inv h.frames.buffer) (getFront_accepted _))

theorem run_inv (setup : Setup) (ops : List (Op M)) :
    let s := run (St.step setup) St.init ops
    Inv setup s.actors s ∧ Joined s := by
  have hinit : Inv setup (St.init : St M).actors St.init ∧ Joined (St.init : St M) :=
    ⟨init_inv setup, fun _ => ⟨rfl, rfl⟩, fun h => by simp [St.init, ManagerPc.Buffers] at h, nofun, nofun⟩
  have hstep : ∀ (s : St M) (op : Op M), Inv setup s.actors s ∧ Joined s →
      Inv setup (s.step setup op).actors (s.step setup op) ∧ Joined (s.step setup op) :=
    fun s op h => ⟨step_inv h.1 h.2 op, step_joined h.2 op⟩
  exact run_inv' (St.step setup) hstep hinit ops

/-- **Playback is in order.** In every interleaving of the user, the buffering thread, the decoders and the renderer, for any
capacities and whatever the receiver returns. -/
theorem playback_in_order (setup : Setup) (ops : List (Op M)) : InOrder (run (St.step setup) St.init ops) :=
  (run_inv setup ops).1.inOrder

/-- a segment is decoded while the next one is fetched; then the next decoder decodes -/
def twoDecoders : List (Op ℕ) :=
  [.manager .success, .buffering none, .buffering (some 7), .buffering none, .buffering none, .manager .success,
    .buffering none, .manager .success, .manager .success, .manager .success, .manager .success,
    .manager .success, .decoder 0 .success, .decoder 0 .frame, .buffering (some 8), .decoder 0 .success, .decoder 0 .failure,
    .decoder 0 .success, .decoder 0 .success, .decoder 0 .success, .buffering none, .buffering none, .decoder 0 .success,
    .decoder 0 .success, .decoder 0 .success, .decoder 0 .success, .decoder 0 .success, .render, .decoder 1 .success,
    .decoder 1 .frame, .decoder 1 .success, .render]

example : (run (St.step ⟨2, 3, fun _ => false⟩) St.init twoDecoders).frameBuffer.delivered.map ofLex = [(0, 0), (1, 0)] := by
  decide

end Steps

end NdnDash.Player.Pipeline
