/-
What `Stop` leaves behind (`MultimediaStream::Stop`, `DASHManager::Stop`, `DASHReceiver::Stop`, `MediaObjectDecoder::Stop`),
over the threads of `Player.Pipeline`.

`Stop` joins the buffering thread and the newest decoder it knows of. A decoder that is in `CreateAVDecoder` when
`isRunning` is cleared still makes a new one, which nobody stops; and a player whose `Start` has failed is not stopped at all.
Neither happens in a calm run.

- `Stopping`: the invariant. Who has been born runs until the user stops it; once `Stop` has cleared `isRunning`, nobody makes
  a decoder.
- `stop_quiet`: when `Stop` has returned in a calm run, the buffering thread has ended, every decoder is at its end, and both
  buffers are empty.
-/
import NdnDash.Player.Playback

namespace NdnDash.Player.Pipeline

open NdnDash.Machine

variable {M : Type}

/-! ## What stopping is for -/

section Spec

/-- the threads have been joined -/
def ManagerPc.Over : ManagerPc M → Prop
  | .clear | .clearFrames | .stopped => True
  | _ => False

/-- a thread that was never created, or does no more than stop its libav decoder -/
def DecoderPc.AtEnd : DecoderPc M → Prop
  | .unborn | .stop | .ended => True
  | _ => False

/-- `Stop` is about to test `isRunning` -/
def ManagerPc.tests : ManagerPc M → Bool
  | .checkRunning => true
  | _ => false

/-- `Stop` is about to clear `isRunning` -/
def ManagerPc.clears : ManagerPc M → Bool
  | .clearRunning => true
  | _ => false

/-- `Stop` has returned -/
def ManagerPc.returned : ManagerPc M → Bool
  | .stopped => true
  | _ => false

theorem ManagerPc.returned_eq {m : ManagerPc M} (h : m.returned = true) : m = .stopped := by
  cases m <;> first | rfl | cases h

/-- `Stop` tests `isRunning` while the player runs, and clears it while no decoder is in `CreateAVDecoder` -/
def Calm (s : St M) : Op M → Prop
  | .manager _ =>
    (s.manager.tests = true → s.isRunning = true) ∧
      (s.manager.clears = true → ∀ d ∈ s.decoders, d.pc.stage.isNone = true)
  | _ => True

instance (s : St M) : ∀ op : Op M, Decidable (Calm s op)
  | .manager _ => inferInstanceAs (Decidable ((s.manager.tests = true → _) ∧ (s.manager.clears = true → _)))
  | .buffering _ => .isTrue trivial
  | .decoder _ _ => .isTrue trivial
  | .render => .isTrue trivial

structure Quiet (s : St M) : Prop where
  buffering : s.buffering = .ended
  decoders : ∀ d ∈ s.decoders, d.pc.AtEnd
  buffer : s.buffer.mediaobjects = []
  frameBuffer : s.frameBuffer.mediaobjects = []

end Spec

/-! ## Who runs -/

section RunOk

variable {setup : Setup} {s s' : St M} {x x' : Actors M} {a i : ℕ}

/-- who has been born runs, unless its creator has not got so far -/
def RunOk (x : Actors M) (s : St M) : Prop :=
  ∀ i d, s.decoders[i]? = some d → d.pc ≠ .unborn → d.run = true ∨ x.stageAt i = some (.setRun i)

theorem RunOk.mono (h : RunOk x s)
    (hdecoders : ∀ (i : ℕ) (d' : MediaObjectDecoder M), s'.decoders[i]? = some d' → d'.pc ≠ .unborn →
      ∃ d : MediaObjectDecoder M, s.decoders[i]? = some d ∧ d.pc ≠ .unborn ∧ d'.run = d.run)
    (hstage : ∀ k, x.stageAt k = some (.setRun k) → x'.stageAt k = some (.setRun k)) : RunOk x' s' := by
  intro i d' hd' hborn'
  obtain ⟨d, hd, hborn, hrun⟩ := hdecoders i d' hd' hborn'
  rcases h i d hd hborn with hr | hst
  · exact Or.inl (hrun.trans hr)
  · exact Or.inr (hstage i hst)

/-- a thread goes on, and nothing else changes for the decoders -/
theorem RunOk.modify (h : RunOk x s) {d : MediaObjectDecoder M} (hd : s.decoders[i]? = some d) (hborn : d.pc ≠ .unborn)
    {f : MediaObjectDecoder M → MediaObjectDecoder M} (hf : ∀ d, (f d).run = d.run)
    (hdecoders : s'.decoders = s.decoders.modify i f)
    (hstage : ∀ k, x.stageAt k = some (.setRun k) → x'.stageAt k = some (.setRun k)) : RunOk x' s' := by
  refine h.mono (fun k d' hd' hborn' => ?_) hstage
  rw [hdecoders, List.getElem?_modify] at hd'
  obtain ⟨d'', hd'', rfl⟩ := Option.map_eq_some_iff.1 hd'
  by_cases hk : i = k
  · subst hk
    rw [hd, Option.some.injEq] at hd''
    subst hd''
    refine ⟨d, hd, hborn, ?_⟩
    rw [if_pos rfl, hf]
  · rw [if_neg hk] at hborn' ⊢
    exact ⟨d'', hd'', hborn', rfl⟩

/-- the stage of one actor changes that has set nobody's `run` yet -/
theorem stageAt_put_setRun (ha : x.stageAt a ≠ none) (hne : ∀ j, x.stageAt a ≠ some (.setRun j))
    (stage : Option (Stage M)) (k : ℕ) (hk : x.stageAt k = some (.setRun k)) :
    (x.put stage a).stageAt k = some (.setRun k) := by
  have hka : k ≠ a := by
    rintro rfl
    exact hne k hk
  rw [Actors.stageAt_put_of_ne hka]
  exact hk

/-- a decoder is constructed: nobody has been born -/
theorem construct_runOk (setup : Setup) (h : RunOk s.actors s) (answer : Answer) {media : M}
    (ha : s.actors.stageAt a = some (.construct media)) :
    RunOk ((s.create setup answer (.construct media)).1.actors.put (s.create setup answer (.construct media)).2.getLeft? a)
      (s.create setup answer (.construct media)).1 := by
  have hactors : (s.create setup answer (.construct media)).1.actors =
      { s.actors with pcs := s.actors.pcs ++ [.unborn] } :=
    congrArg (Actors.mk s.manager.stage) List.map_append
  rw [hactors]
  refine h.mono (fun i d hd hborn => ?_) fun k hk => ?_
  · -- the new decoder has not been born
    rcases Nat.lt_or_ge i s.decoders.length with hi | hi
    · exact ⟨d, (List.getElem?_append_left hi).symm.trans hd, hborn, rfl⟩
    · simp only [St.create, List.getElem?_append_right hi, List.getElem?_singleton] at hd
      split_ifs at hd
      rw [← Option.some.inj hd] at hborn
      exact absurd rfl hborn
  · have hka : k ≠ a := by
      rintro rfl
      rw [ha] at hk
      cases hk
    rw [Actors.stageAt_put_of_ne hka]
    cases k with
    | zero => exact hk
    | succ i =>
      rw [Actors.stageAt] at hk ⊢
      have hi : i < s.actors.pcs.length := by
        by_contra hge
        rw [List.getElem?_eq_none (not_lt.1 hge)] at hk
        cases hk
      rw [List.getElem?_append_left hi]
      exact hk

/-- its thread is created: the creator is about to set `run` -/
theorem createThread_runOk (setup : Setup) (hchain : s.actors.Chain) (h : RunOk s.actors s) (answer : Answer) {j : ℕ}
    (ha : s.actors.stageAt a = some (.createThread j)) :
    RunOk ((s.create setup answer (.createThread j)).1.actors.put (s.create setup answer (.createThread j)).2.getLeft? a)
      (s.create setup answer (.createThread j)).1 := by
  have hne : s.actors.stageAt a ≠ none := by simp [ha]
  have hok := hchain.stages a _ ha
  unfold St.create
  dsimp only
  split_ifs
  · exact h.mono (fun i d hd hborn => ⟨d, hd, hborn, rfl⟩) (stageAt_put_setRun hne (by simp [ha]) _)
  · -- the thread has been born, and its creator is about to set `run`
    obtain ⟨rfl, -, hunborn⟩ := hok
    rw [goto_actors]
    intro i d hd hborn
    have hstages : ∀ k, k ≠ j + 1 → ({ s.actors with pcs := s.actors.pcs.set j .test } : Actors M).stageAt k =
        s.actors.stageAt k := by
      intro k hk
      cases k with
      | zero => rfl
      | succ k => rw [Actors.stageAt, Actors.stageAt, List.getElem?_set_ne (by omega)]
    have hself : ({ s.actors with pcs := s.actors.pcs.set j .test } : Actors M).stageAt j ≠ none := by
      rw [hstages j (by omega)]
      exact hne
    by_cases hij : i = j
    · subst hij
      exact Or.inr (Actors.stageAt_put_self hself _)
    · simp only [St.goto, St.setDecoder] at hd
      rw [List.getElem?_modify_ne _ _ (Ne.symm hij)] at hd
      rcases h i d hd hborn with hrun | hset
      · exact Or.inl hrun
      · refine Or.inr ?_
        have hi : i ≠ j + 1 := by
          rintro rfl
          rw [Actors.stageAt, hunborn] at hset
          cases hset
        rw [Sum.getLeft?_inl, Actors.stageAt_put_of_ne hij, hstages i hi]
        exact hset

/-- the creator sets `run` -/
theorem setRun_runOk (setup : Setup) (hchain : s.actors.Chain) (h : RunOk s.actors s) (answer : Answer) {j : ℕ}
    (ha : s.actors.stageAt a = some (.setRun j)) :
    RunOk ((s.create setup answer (.setRun j)).1.actors.put (s.create setup answer (.setRun j)).2.getLeft? a)
      (s.create setup answer (.setRun j)).1 := by
  have hok := hchain.stages a _ ha
  have hj : j = a := hok
  subst hj
  intro i d hd hborn
  simp only [St.create, St.setDecoder, List.getElem?_modify] at hd
  obtain ⟨d', hd', rfl⟩ := Option.map_eq_some_iff.1 hd
  by_cases hij : j = i
  · subst hij
    rw [if_pos rfl]
    exact Or.inl rfl
  · rw [if_neg hij] at hborn ⊢
    rcases h i d' hd' hborn with hrun | hset
    · exact Or.inl hrun
    · refine Or.inr ?_
      change ((s.setDecoder j fun d => { d with run := true }).actors.put none j).stageAt i = _
      rw [setRun_actors, Actors.stageAt_put_of_ne (Ne.symm hij)]
      exact hset

/-- one step of `CreateAVDecoder` -/
theorem create_runOk (setup : Setup) (hchain : s.actors.Chain) (h : RunOk s.actors s) (answer : Answer) {stage : Stage M}
    (ha : s.actors.stageAt a = some stage) :
    RunOk ((s.create setup answer stage).1.actors.put (s.create setup answer stage).2.getLeft? a)
      (s.create setup answer stage).1 := by
  have hne : s.actors.stageAt a ≠ none := by simp [ha]
  cases stage with
  | getFront =>
    have hput : ∀ st, RunOk (s.actors.put st a) s := fun st =>
      h.mono (fun i d hd hborn => ⟨d, hd, hborn, rfl⟩) (stageAt_put_setRun hne (by simp [ha]) st)
    unfold St.create
    dsimp only
    split
    · exact hput _
    · exact hput _
  | construct media => exact construct_runOk setup h answer ha
  | init j =>
    exact h.mono (fun i d hd hborn => ⟨d, hd, hborn, rfl⟩) (stageAt_put_setRun hne (by simp [ha]) _)
  | createThread j => exact createThread_runOk setup hchain h answer ha
  | setRun j => exact setRun_runOk setup hchain h answer ha

/-- who is in `CreateAVDecoder` stays where it is while it makes another decoder -/
theorem create_creator (setup : Setup) (hchain : s.actors.Chain) (answer : Answer) {stage : Stage M}
    (ha : s.actors.stageAt (i + 1) = some stage) :
    (s.create setup answer stage).1.actors.pcs[i]? = s.actors.pcs[i]? := by
  have hok := hchain.stages _ _ ha
  cases stage with
  | getFront =>
    unfold St.create
    dsimp only
    split <;> rfl
  | construct media =>
    have hi : i < s.actors.pcs.length := by
      have hlast : s.actors.pcs.length = i + 1 := hok
      omega
    have hpcs : (s.create setup answer (.construct media)).1.actors.pcs = s.actors.pcs ++ [.unborn] := List.map_append
    rw [hpcs, List.getElem?_append_left hi]
  | init j => rfl
  | createThread j =>
    unfold St.create
    dsimp only
    split_ifs
    · rfl
    · rw [goto_actors]
      exact List.getElem?_set_ne (by have hj : j = i + 1 := hok.1; omega)
  | setRun j =>
    change (s.setDecoder j fun d => { d with run := true }).actors.pcs[i]? = _
    rw [setRun_actors]

end RunOk

/-! ## Steps -/

section Steps

variable {setup : Setup} {s s' : St M} {i : ℕ} {d : MediaObjectDecoder M}

/-- a thread outside `CreateAVDecoder` goes on, with a frame or without -/
structure Moved (s : St M) (i : ℕ) (d : MediaObjectDecoder M) (s' : St M) : Prop where
  decoder : s.decoders[i]? = some d
  born : d.pc ≠ .unborn
  outside : d.pc.stage = none
  moved : ∃ (pc : DecoderPc M) (frames : MediaObjectDecoder M → ℕ),
    s' = { s with
      frameBuffer := s'.frameBuffer
      decoders := s.decoders.modify i fun d => { d with frames := frames d, pc } } ∧
    (pc.stage ≠ none → s.isRunning = true) ∧ (d.pc.AtEnd → pc.AtEnd) ∧ ∀ j, pc.stage ≠ some (.setRun j)
  frameBuffer : d.pc.AtEnd → s'.frameBuffer = s.frameBuffer

theorem Moved.goto (hd : s.decoders[i]? = some d) (hborn : d.pc ≠ .unborn) (hstage : d.pc.stage = none)
    {pc : DecoderPc M} (hrunning : pc.stage ≠ none → s.isRunning = true) (hend : d.pc.AtEnd → pc.AtEnd)
    (hset : ∀ j, pc.stage ≠ some (.setRun j)) : Moved s i d (s.goto i pc) :=
  ⟨hd, hborn, hstage, ⟨pc, MediaObjectDecoder.frames, rfl, hrunning, hend, hset⟩, fun _ => rfl⟩

theorem DecoderPc.Decoding.born {pc : DecoderPc M} (h : pc.Decoding) : pc ≠ .unborn := by
  rintro rfl
  exact h

theorem DecoderPc.Decoding.not_atEnd {pc : DecoderPc M} (h : pc.Decoding) : ¬ pc.AtEnd := by
  intro hend
  cases pc with
  | unborn => exact h
  | stop => exact h
  | ended => exact h
  | _ => exact hend

/-- a thread that decodes goes on outside `CreateAVDecoder` -/
theorem Moved.decoding (hd : s.decoders[i]? = some d) (h : d.pc.Decoding) {pc : DecoderPc M} (hpc : pc.stage = none) :
    Moved s i d (s.goto i pc) :=
  Moved.goto hd h.born h.stage_eq (fun hne => absurd hpc hne) (fun hend => absurd hend h.not_atEnd) (by simp [hpc])

/-- it hands over a frame -/
theorem Moved.addFrame (hd : s.decoders[i]? = some d) (h : d.pc.Decoding) {pc : DecoderPc M} (hpc : pc.stage = none)
    (frameBuffer : MediaObjectBuffer.St Frame) :
    Moved s i d ({ s with frameBuffer }.setDecoder i fun d => { d with frames := d.frames + 1, pc }) where
  decoder := hd
  born := h.born
  outside := h.stage_eq
  moved := ⟨pc, fun d => d.frames + 1, rfl, fun hne => absurd hpc hne, fun hend => absurd hend h.not_atEnd, by simp [hpc]⟩
  frameBuffer := fun hend => absurd hend h.not_atEnd

/-- **What a decoder's thread can do.** -/
theorem decoderStep_cases (setup : Setup) (s : St M) (i : ℕ) (answer : Answer) :
    s.decoderStep setup i answer = s ∨
      ∃ d, (∃ stage, s.decoders[i]? = some d ∧ d.pc = .creating stage) ∨ Moved s i d (s.decoderStep setup i answer) := by
  unfold St.decoderStep
  cases hd : s.decoders[i]? with
  | none => exact Or.inl rfl
  | some d =>
    dsimp only
    cases hpc : d.pc with
    | unborn => exact Or.inl rfl
    | test =>
      have hdecoding : d.pc.Decoding := by rw [hpc]; trivial
      refine Or.inr ⟨d, Or.inr (Moved.decoding hd hdecoding ?_)⟩
      split_ifs <;> rfl
    | decode =>
      have hdecoding : d.pc.Decoding := by rw [hpc]; trivial
      refine Or.inr ⟨d, Or.inr ?_⟩
      cases answer with
      | frame => exact Moved.decoding hd hdecoding rfl
      | success => exact Moved.decoding hd hdecoding rfl
      | failure => exact Moved.decoding hd hdecoding rfl
    | addFrame flushing =>
      have hdecoding : d.pc.Decoding := by rw [hpc]; trivial
      dsimp only
      split_ifs with hsleep hflushing
      · exact Or.inl rfl
      · exact Or.inr ⟨d, Or.inr (Moved.addFrame hd hdecoding rfl _)⟩
      · exact Or.inr ⟨d, Or.inr (Moved.addFrame hd hdecoding rfl _)⟩
    | checkRun =>
      have hdecoding : d.pc.Decoding := by rw [hpc]; trivial
      refine Or.inr ⟨d, Or.inr (Moved.decoding hd hdecoding ?_)⟩
      split_ifs <;> rfl
    | flush =>
      have hdecoding : d.pc.Decoding := by rw [hpc]; trivial
      refine Or.inr ⟨d, Or.inr (Moved.decoding hd hdecoding ?_)⟩
      split_ifs <;> rfl
    | notify =>
      have hdecoding : d.pc.Decoding := by rw [hpc]; trivial
      refine Or.inr ⟨d, Or.inr (Moved.goto hd hdecoding.born hdecoding.stage_eq ?_ ?_ ?_)⟩
      · intro hne
        by_contra hrunning
        rw [if_neg hrunning] at hne
        exact hne rfl
      · intro hend
        exact absurd hend hdecoding.not_atEnd
      · intro j
        split_ifs <;> simp [DecoderPc.stage]
    | creating stage => exact Or.inr ⟨d, Or.inl ⟨stage, rfl, hpc⟩⟩
    | stop =>
      have hborn : d.pc ≠ .unborn := by simp [hpc]
      have hstage : d.pc.stage = none := by rw [hpc]; rfl
      refine Or.inr ⟨d, Or.inr (Moved.goto hd hborn hstage ?_ ?_ ?_)⟩
      · intro hne
        exact absurd rfl hne
      · intro _
        trivial
      · intro j hj
        cases hj
    | ended => exact Or.inl rfl

end Steps

/-! ## The invariant -/

section Invariant

variable {setup : Setup} {s s' : St M} {i : ℕ}

/-- the user may have cleared the `run` of the newest decoder -/
def ManagerPc.Cleared : ManagerPc M → Prop
  | .joinDecoder _ | .clear | .clearFrames | .stopped => True
  | _ => False

/-- the decoder that is being stopped -/
def ManagerPc.decoder : ManagerPc M → Option ℕ
  | .testRun j | .clearRun j | .joinDecoder j => some j
  | _ => none

structure Stopping (s : St M) : Prop where
  run : ¬ s.manager.Cleared → RunOk s.actors s
  alone : s.manager.Stopping → s.isRunning = false ∧ ∀ a, s.actors.stageAt a = none
  newest : ∀ j, s.manager.decoder = some j → j = s.decoders.length - 1
  atEnd : s.manager.Over → s.buffering = .ended ∧ ∀ d ∈ s.decoders, d.pc.AtEnd
  buffer : s.manager = .clearFrames ∨ s.manager = .stopped → s.buffer.mediaobjects = []
  frameBuffer : s.manager = .stopped → s.frameBuffer.mediaobjects = []

theorem ManagerPc.Cleared.stopping {m : ManagerPc M} (h : m.Cleared) : m.Stopping := by
  cases m <;> first | exact trivial | exact h.elim

theorem ManagerPc.Over.stopping {m : ManagerPc M} (h : m.Over) : m.Stopping := by
  cases m <;> first | exact trivial | exact h.elim

theorem ManagerPc.stopping_of_decoder {m : ManagerPc M} {j : ℕ} (h : m.decoder = some j) : m.Stopping := by
  cases m <;> first | exact trivial | cases h

/-- a step of the user that is not yet stopping the player -/
theorem Stopping.before (hrun : RunOk s.actors s) (h : ¬ s.manager.Stopping) : Stopping s := by
  refine ⟨fun _ => hrun, fun hm => absurd hm h, fun j hm => absurd (ManagerPc.stopping_of_decoder hm) h,
    fun hm => absurd hm.stopping h, fun hm => ?_, fun hm => ?_⟩
  · rcases hm with hm | hm <;> exact absurd (hm ▸ trivial) h
  · exact absurd (hm ▸ trivial) h

theorem ManagerPc.Over.cleared {m : ManagerPc M} (h : m.Over) : m.Cleared := by
  cases m <;> first | exact trivial | exact h.elim

theorem ManagerPc.not_over_of_decoder {m : ManagerPc M} {j : ℕ} (h : m.decoder = some j) : ¬ m.Over := by
  cases m <;> first | exact id | cases h

theorem ManagerPc.joined_of_decoder {m : ManagerPc M} {j : ℕ} (h : m.decoder = some j) : m.Joined := by
  cases m <;> first | exact trivial | cases h

/-- what the buffering thread and the renderer do does not concern the decoders -/
theorem Stopping.of_frame (h : Stopping s) (hmanager : s'.manager = s.manager) (hdecoders : s'.decoders = s.decoders)
    (hrunning : s'.isRunning = s.isRunning)
    (hended : s.buffering = .ended → s'.buffering = .ended ∧ s'.buffer = s.buffer)
    (hframes : s.frameBuffer.mediaobjects = [] → s'.frameBuffer.mediaobjects = []) : Stopping s' := by
  have hactors : s'.actors = s.actors := by
    rw [St.actors, hmanager, hdecoders]
    rfl
  refine ⟨fun hm i d hd hborn => ?_, fun hm => ?_, fun j hm => ?_, fun hm => ?_, fun hm => ?_, fun hm => ?_⟩
  · rw [hdecoders] at hd
    rw [hactors]
    exact h.run (hmanager ▸ hm) i d hd hborn
  · rw [hrunning, hactors]
    exact h.alone (hmanager ▸ hm)
  · rw [hdecoders]
    exact h.newest j (hmanager ▸ hm)
  · obtain ⟨hbuffering, hends⟩ := h.atEnd (hmanager ▸ hm)
    exact ⟨(hended hbuffering).1, hdecoders ▸ hends⟩
  · have hover : s.manager.Over := by
      rw [hmanager] at hm
      rcases hm with hm | hm <;> rw [hm] <;> trivial
    rw [(hended (h.atEnd hover).1).2]
    exact h.buffer (hmanager ▸ hm)
  · exact hframes (h.frameBuffer (hmanager ▸ hm))

/-- a decoder that nobody waits for is at its end -/
theorem atEnd_of_late {pc : DecoderPc M} (hlate : pc.Late) (hstage : pc.stage = none) : pc.AtEnd := by
  cases pc <;> simp_all [DecoderPc.Late, DecoderPc.AtEnd, DecoderPc.stage]

/-- when the newest decoder is at its end, and nobody is in `CreateAVDecoder`, all are -/
theorem atEnd_all (hchain : s.actors.Chain) (halone : ∀ a, s.actors.stageAt a = none)
    (hlast : ∀ d, s.decoders[s.decoders.length - 1]? = some d → d.pc.AtEnd) : ∀ d ∈ s.decoders, d.pc.AtEnd := by
  intro d hd
  obtain ⟨i, hi⟩ := List.mem_iff_getElem?.1 hd
  have hlt : i < s.decoders.length := (List.getElem?_eq_some_iff.1 hi).1
  have hpcs : s.actors.pcs[i]? = some d.pc := by
    rw [St.actors, List.getElem?_map, hi]
    rfl
  by_cases hnewest : i = s.decoders.length - 1
  · exact hlast d (hnewest ▸ hi)
  · have hlength : s.actors.pcs.length = s.decoders.length := List.length_map _
    have hstage := halone (i + 1)
    rw [Actors.stageAt, hpcs, Option.bind_some] at hstage
    exact atEnd_of_late (hchain.late i d.pc hpcs (by omega)) hstage

theorem Moved.stopping {d : MediaObjectDecoder M} (hmoved : Moved s i d s') (h : Stopping s) : Stopping s' := by
  obtain ⟨pc, frames, heq, hrunning, hend, hset⟩ := hmoved.moved
  have hactors : s'.actors = { s.actors with pcs := s.actors.pcs.set i pc } := by
    rw [heq]
    exact congrArg (Actors.mk s.manager.stage) (map_modify_set (g := MediaObjectDecoder.pc)
      (f := fun d => { d with frames := frames d, pc }) (fun _ => rfl) s.decoders i)
  have hpcs : s.actors.pcs[i]? = some d.pc := by
    rw [St.actors, List.getElem?_map, hmoved.decoder]
    rfl
  have hstage : ∀ k, s'.actors.stageAt k = if k = i + 1 then pc.stage else s.actors.stageAt k := by
    intro k
    rw [hactors]
    cases k with
    | zero => rfl
    | succ j =>
      by_cases hij : i = j
      · rw [← hij, if_pos rfl, Actors.stageAt, List.getElem?_set_self (List.getElem?_eq_some_iff.1 hpcs).1, Option.bind_some]
      · rw [if_neg (by omega), Actors.stageAt, Actors.stageAt, List.getElem?_set_ne hij]
  have hmanager : s'.manager = s.manager := by rw [heq]
  have hdecoders : s'.decoders = s.decoders.modify i fun d => { d with frames := frames d, pc } := by rw [heq]
  have hmem : d ∈ s.decoders := List.mem_of_getElem? hmoved.decoder
  refine ⟨fun hm => ?_, fun hm => ?_, fun j hm => ?_, fun hm => ?_, fun hm => ?_, fun hm => ?_⟩
  · refine (h.run (hmanager ▸ hm)).modify (f := fun d => { d with frames := frames d, pc }) hmoved.decoder hmoved.born
      (fun _ => rfl) hdecoders fun k hk => ?_
    rw [hstage]
    split_ifs with hki
    · rw [hki, Actors.stageAt, hpcs, Option.bind_some, hmoved.outside] at hk
      cases hk
    · exact hk
  · obtain ⟨hnot, halone⟩ := h.alone (hmanager ▸ hm)
    refine ⟨by rw [heq]; exact hnot, fun a => ?_⟩
    rw [hstage]
    split_ifs with ha
    · by_contra hne
      rw [hrunning hne] at hnot
      cases hnot
    · exact halone a
  · rw [hdecoders, List.length_modify]
    exact h.newest j (hmanager ▸ hm)
  · obtain ⟨hbuffering, hends⟩ := h.atEnd (hmanager ▸ hm)
    refine ⟨by rw [heq]; exact hbuffering, ?_⟩
    rw [hdecoders]
    exact forall_mem_modify hends fun d' _ => hend (hends d hmem)
  · rw [heq]
    exact h.buffer (hmanager ▸ hm)
  · have hover : s.manager.Over := by
      rw [← hmanager, hm]
      trivial
    rw [hmoved.frameBuffer ((h.atEnd hover).2 d hmem)]
    exact h.frameBuffer (hmanager ▸ hm)

theorem decoderStep_stopping (hchain : s.actors.Chain) (h : Stopping s) (i : ℕ) (answer : Answer) :
    Stopping (s.decoderStep setup i answer) := by
  rcases decoderStep_cases setup s i answer with hsame | ⟨d, ⟨stage, hd, hpc⟩ | hmoved⟩
  · rw [hsame]
    exact h
  · -- it is in `CreateAVDecoder`, so the player is not being stopped
    have ha : s.actors.stageAt (i + 1) = some stage := by
      rw [Actors.stageAt, St.actors, List.getElem?_map, hd, Option.map_some, Option.bind_some, hpc]
      rfl
    have hnot : ¬ s.manager.Stopping := by
      intro hm
      rw [(h.alone hm).2 (i + 1)] at ha
      cases ha
    have hrun : RunOk s.actors s := h.run fun hm => hnot hm.stopping
    have hcreate := create_runOk setup hchain hrun answer ha
    have hcreator := create_creator setup hchain answer ha
    have hframe := create_frame setup s answer stage
    unfold St.decoderStep
    rw [hd]
    dsimp only
    rw [hpc]
    dsimp only
    rcases hr : s.create setup answer stage with ⟨s', r⟩
    rw [hr] at hcreate hcreator hframe
    have hgoto : ∀ pc : DecoderPc M, s'.actors.put r.getLeft? (i + 1) = (s'.goto i pc).actors →
        Stopping (s'.goto i pc) := by
      intro pc hactors
      have hborn : ∃ d', s'.decoders[i]? = some d' ∧ d'.pc ≠ .unborn := by
        rw [St.actors, List.getElem?_map, St.actors, List.getElem?_map, hd] at hcreator
        obtain ⟨d', hd', heq⟩ := Option.map_eq_some_iff.1 hcreator
        refine ⟨d', hd', ?_⟩
        rw [heq]
        change d.pc ≠ _
        rw [hpc]
        simp
      obtain ⟨d', hd', hborn⟩ := hborn
      refine Stopping.before ?_ (hframe.1 ▸ hnot)
      rw [← hactors]
      exact hcreate.modify (f := fun d => { d with pc }) hd' hborn (fun _ => rfl) rfl fun _ hk => hk
    cases r with
    | inl stage' => exact hgoto _ (goto_actors s' i _).symm
    | inr ok => exact hgoto _ (goto_actors s' i _).symm
  · exact hmoved.stopping h

/-- nobody is in `CreateAVDecoder`, nor is the user after its step -/
theorem alone_of_pcs (hstage : s.manager.stage = none) (halone : ∀ a, s.actors.stageAt a = none)
    (hstage' : s'.manager.stage = none)
    (hpcs : s'.decoders.map (·.pc) = s.decoders.map (·.pc)) : ∀ a, s'.actors.stageAt a = none := by
  intro a
  rw [← halone a, St.actors, St.actors, hstage, hstage', hpcs]

/-- the user goes on and leaves the decoders as they are -/
theorem Stopping.goto (h : Stopping s) (hcleared : ¬ s.manager.Cleared) (hdecoders : s'.decoders = s.decoders)
    (hstage : s'.manager.stage = s.manager.stage)
    (halone : s'.manager.Stopping → s'.isRunning = false ∧ ∀ a, s.actors.stageAt a = none)
    (hnewest : ∀ j, s'.manager.decoder = some j → j = s.decoders.length - 1) (hcleared' : ¬ s'.manager.Cleared) :
    Stopping s' := by
  have hactors : s'.actors = s.actors := by
    rw [St.actors, hstage, hdecoders]
    rfl
  refine ⟨fun _ i d hd hborn => ?_, fun hm => ?_, fun j hm => ?_, fun hm => absurd hm.cleared hcleared', fun hm => ?_,
    fun hm => absurd (hm ▸ trivial) hcleared'⟩
  · rw [hactors]
    exact h.run hcleared i d (hdecoders ▸ hd) hborn
  · rw [hactors]
    exact halone hm
  · rw [hdecoders]
    exact hnewest j hm
  · rcases hm with hm | hm <;> exact absurd (hm ▸ trivial) hcleared'

/-- the user goes on towards the decoder, which it has not asked to stop -/
theorem Stopping.next (h : Stopping s) (hstopping : s.manager.Stopping) (hcleared : ¬ s.manager.Cleared)
    (hdecoders : s'.decoders = s.decoders) (hrunning : s'.isRunning = s.isRunning)
    (hstage : s'.manager.stage = s.manager.stage)
    (hnewest : ∀ j, s'.manager.decoder = some j → j = s.decoders.length - 1) (hcleared' : ¬ s'.manager.Cleared) : Stopping s' :=
  h.goto hcleared hdecoders hstage (fun _ => ⟨hrunning.trans (h.alone hstopping).1, (h.alone hstopping).2⟩) hnewest hcleared'

/-- the threads have been joined -/
theorem Stopping.over (hrunning : s.isRunning = false) (halone : ∀ a, s.actors.stageAt a = none) (hover : s.manager.Over)
    (hends : s.buffering = .ended ∧ ∀ d ∈ s.decoders, d.pc.AtEnd)
    (hbuffer : s.manager = .clearFrames ∨ s.manager = .stopped → s.buffer.mediaobjects = [])
    (hframes : s.manager = .stopped → s.frameBuffer.mediaobjects = []) : Stopping s := by
  refine ⟨fun hnot => absurd hover.cleared hnot, fun _ => ⟨hrunning, halone⟩, fun j hm => ?_, fun _ => hends, hbuffer, hframes⟩
  exact absurd hover (ManagerPc.not_over_of_decoder hm)

/-- the newest decoder has been joined -/
theorem Stopping.joined (h : Stopping s) (hchain : s.actors.Chain) (hjoined : Joined s) {j : ℕ} (hj : s.manager.decoder = some j)
    (hlast : ∀ d, s.decoders[j]? = some d → d.pc.AtEnd) : Stopping { s with manager := .clear } := by
  obtain ⟨hrunning, halone⟩ := h.alone (ManagerPc.stopping_of_decoder hj)
  have hnewest := h.newest j hj
  have hbuffering : s.buffering = .ended := hjoined.joined (ManagerPc.joined_of_decoder hj)
  exact .over hrunning (alone_of_pcs (halone 0) halone rfl rfl) trivial
    ⟨hbuffering, atEnd_all (s := s) hchain halone (hnewest ▸ hlast)⟩ (fun hm => hm.elim nofun nofun) nofun

theorem idle_stopping (h : Stopping s) (hjoined : Joined s) (hpc : s.manager = .idle) (answer : Answer) :
    Stopping (s.managerStep setup answer) := by
  simp only [St.managerStep, hpc]
  split_ifs
  · exact h.goto (hpc ▸ id) rfl (hpc ▸ rfl) False.elim nofun id
  · refine Stopping.before (fun i d hd => ?_) id
    rw [show St.decoders _ = s.decoders from rfl, (hjoined.idle hpc).2] at hd
    cases hd

theorem starting_stopping (hchain : s.actors.Chain) (h : Stopping s) {stage : Stage M} (hpc : s.manager = .starting stage)
    (answer : Answer) : Stopping (s.managerStep setup answer) := by
  have ha : s.actors.stageAt 0 = some stage := by
    change s.manager.stage = _
    rw [hpc]
    rfl
  have hcreate := create_runOk setup hchain (h.run (hpc ▸ id)) answer ha
  simp only [St.managerStep, hpc]
  rcases hr : s.create setup answer stage with ⟨s', stage' | ok⟩
  · rw [hr] at hcreate
    exact Stopping.before hcreate id
  · rw [hr] at hcreate
    cases ok with
    | true => exact Stopping.before hcreate id
    | false => exact Stopping.before hcreate id

theorem joinBuffering_stopping (h : Stopping s) (hpc : s.manager = .joinBuffering) (answer : Answer) :
    Stopping (s.managerStep setup answer) := by
  simp only [St.managerStep, hpc]
  split
  · exact h.next (hpc ▸ trivial) (hpc ▸ id) rfl rfl (hpc ▸ rfl) nofun id
  · exact h

theorem testRun_stopping (hchain : s.actors.Chain) (hjoined : Joined s) (h : Stopping s) {j : ℕ} (hpc : s.manager = .testRun j)
    (answer : Answer) : Stopping (s.managerStep setup answer) := by
  have hnewest := h.newest j (hpc ▸ rfl)
  simp only [St.managerStep, hpc]
  split
  · rename_i d hd
    split_ifs with hrun
    · refine h.next (hpc ▸ trivial) (hpc ▸ id) rfl rfl (hpc ▸ rfl) (fun k hk => ?_) id
      rw [← Option.some.inj hk]
      exact hnewest
    · -- it does not run, so it was never born
      have hend : d.pc.AtEnd := by
        by_contra hnot
        have hborn : d.pc ≠ .unborn := by
          intro hunborn
          rw [hunborn] at hnot
          exact hnot trivial
        rcases h.run (hpc ▸ id) j d hd hborn with hr | hset
        · exact hrun hr
        · rw [(h.alone (hpc ▸ trivial)).2 j] at hset
          cases hset
      exact h.joined hchain hjoined (congrArg ManagerPc.decoder hpc) fun d' hd' => by rwa [← Option.some.inj (hd.symm.trans hd')]
  · exact h

theorem clearRun_stopping (h : Stopping s) {j : ℕ} (hpc : s.manager = .clearRun j) (answer : Answer) :
    Stopping (s.managerStep setup answer) := by
  obtain ⟨hrunning, halone⟩ := h.alone (hpc ▸ trivial)
  have hpcs := congrArg Actors.pcs (setRun_actors s j false)
  simp only [St.managerStep, hpc]
  refine ⟨fun hnot => absurd trivial hnot, fun _ => ⟨hrunning, alone_of_pcs (halone 0) halone rfl hpcs⟩, fun k hk => ?_,
    False.elim, fun hm => hm.elim nofun nofun, nofun⟩
  rw [← Option.some.inj hk, h.newest j (hpc ▸ rfl)]
  exact congrArg (· - 1) (List.length_modify _ _ _).symm

theorem joinDecoder_stopping (hchain : s.actors.Chain) (hjoined : Joined s) (h : Stopping s) {j : ℕ}
    (hpc : s.manager = .joinDecoder j) (answer : Answer) : Stopping (s.managerStep setup answer) := by
  have hclear : ∀ {pc : DecoderPc M}, s.decoders[j]?.map MediaObjectDecoder.pc = some pc → pc.AtEnd →
      Stopping { s with manager := .clear } := by
    intro pc hj hend
    refine h.joined hchain hjoined (congrArg ManagerPc.decoder hpc) fun d hd => ?_
    rw [hd, Option.map_some, Option.some.injEq] at hj
    exact hj ▸ hend
  simp only [St.managerStep, hpc]
  split
  · rename_i hunborn
    exact hclear hunborn trivial
  · rename_i hended
    exact hclear hended trivial
  · exact h

theorem clear_stopping (h : Stopping s) (hpc : s.manager = .clear) (answer : Answer) :
    Stopping (s.managerStep setup answer) := by
  obtain ⟨hrunning, halone⟩ := h.alone (hpc ▸ trivial)
  simp only [St.managerStep, hpc]
  split
  · rename_i buffer hbuffer
    refine .over hrunning (alone_of_pcs (halone 0) halone rfl rfl) trivial (h.atEnd (hpc ▸ trivial)) (fun _ => ?_) nofun
    unfold MediaObjectBuffer.clear at hbuffer
    split_ifs at hbuffer
    rw [← Option.some.inj hbuffer]
  · exact h

theorem clearFrames_stopping (h : Stopping s) (hpc : s.manager = .clearFrames) (answer : Answer) :
    Stopping (s.managerStep setup answer) := by
  obtain ⟨hrunning, halone⟩ := h.alone (hpc ▸ trivial)
  simp only [St.managerStep, hpc]
  split
  · rename_i frameBuffer hframeBuffer
    refine .over hrunning (alone_of_pcs (halone 0) halone rfl rfl) trivial (h.atEnd (hpc ▸ trivial))
      (fun _ => h.buffer (Or.inl hpc)) fun _ => ?_
    unfold MediaObjectBuffer.clear at hframeBuffer
    split_ifs at hframeBuffer
    rw [← Option.some.inj hframeBuffer]
  · exact h

theorem managerStep_stopping (hchain : s.actors.Chain) (hjoined : Joined s) (h : Stopping s) (answer : Answer)
    (htests : s.manager = .checkRunning → s.isRunning = true)
    (hclears : s.manager = .clearRunning → ∀ a, s.actors.stageAt a = none) : Stopping (s.managerStep setup answer) := by
  cases hpc : s.manager with
  | idle => exact idle_stopping h hjoined hpc answer
  | starting stage => exact starting_stopping hchain h hpc answer
  | checkRunning =>
    simp only [St.managerStep, hpc, htests hpc, if_true]
    exact h.goto (hpc ▸ id) rfl (hpc ▸ rfl) False.elim nofun id
  | clearRunning =>
    simp only [St.managerStep, hpc]
    exact h.goto (hpc ▸ id) rfl (hpc ▸ rfl) (fun _ => ⟨rfl, hclears hpc⟩) nofun id
  | receiverStop =>
    have hbuffering : s.isBuffering = true := hjoined.buffers (Or.inl (hpc ▸ trivial))
    simp only [St.managerStep, hpc, hbuffering, if_true]
    exact h.next (hpc ▸ trivial) (hpc ▸ id) rfl rfl (hpc ▸ rfl) nofun id
  | joinBuffering => exact joinBuffering_stopping h hpc answer
  | testRun j => exact testRun_stopping hchain hjoined h hpc answer
  | clearRun j => exact clearRun_stopping h hpc answer
  | joinDecoder j => exact joinDecoder_stopping hchain hjoined h hpc answer
  | clear => exact clear_stopping h hpc answer
  | clearFrames => exact clearFrames_stopping h hpc answer
  | setRunning =>
    simp only [St.managerStep, hpc]
    exact h.goto (hpc ▸ id) rfl (hpc ▸ rfl) False.elim nofun id
  | started =>
    simp only [St.managerStep, hpc]
    exact h.goto (hpc ▸ id) rfl (hpc ▸ rfl) False.elim nofun id
  | notStarted =>
    simp only [St.managerStep, hpc]
    exact h.goto (hpc ▸ id) rfl (hpc ▸ rfl) False.elim nofun id
  | bufferEOS =>
    simp only [St.managerStep, hpc]
    exact h.next (hpc ▸ trivial) (hpc ▸ id) rfl rfl (hpc ▸ rfl) nofun id
  | decoderStop =>
    simp only [St.managerStep, hpc]
    refine h.next (hpc ▸ trivial) (hpc ▸ id) rfl rfl (hpc ▸ rfl) (fun j hj => ?_) id
    exact (Option.some.inj hj).symm
  | stopped => simpa only [St.managerStep, hpc] using h

theorem init_stopping : Stopping (St.init : St M) :=
  Stopping.before (fun i d hd => by cases hd) id

theorem bufferingStep_stopping (h : Stopping s) (media : Option M) : Stopping (s.bufferingStep setup media) := by
  have hended : s.buffering = .ended → s.bufferingStep setup media = s := fun hpc => by
    simp only [St.bufferingStep, hpc]
  obtain ⟨returned, buffering, buffer, heq⟩ := bufferingStep_frame setup s media
  refine h.of_frame (by rw [heq]) (by rw [heq]) (by rw [heq]) (fun hpc => ?_) fun hframes => by rw [heq]; exact hframes
  rw [hended hpc]
  exact ⟨hpc, rfl⟩

theorem Calm.alone {answer : Answer} (h : Calm s (.manager answer)) (hpc : s.manager = .clearRunning) :
    ∀ a, s.actors.stageAt a = none := by
  have houtside := h.2 (hpc ▸ rfl)
  intro a
  cases a with
  | zero =>
    change s.manager.stage = none
    rw [hpc]
    rfl
  | succ i =>
    rw [Actors.stageAt, St.actors, List.getElem?_map]
    cases hd : s.decoders[i]? with
    | none => rfl
    | some d => exact Option.isNone_iff_eq_none.1 (houtside d (List.mem_of_getElem? hd))

/-- **A step of a calm run.** -/
theorem step_stopping (hchain : s.actors.Chain) (hjoined : Joined s) (h : Stopping s) (op : Op M) (hcalm : Calm s op) :
    Stopping (s.step setup op) := by
  cases op with
  | buffering media => exact bufferingStep_stopping h media
  | manager answer => exact managerStep_stopping hchain hjoined h answer (fun hpc => hcalm.1 (hpc ▸ rfl)) hcalm.alone
  | decoder i answer => exact decoderStep_stopping hchain h i answer
  | render =>
    refine h.of_frame rfl rfl rfl (fun hended => ⟨hended, rfl⟩) fun hframes => ?_
    change (MediaObjectBuffer.getFront s.frameBuffer).mediaobjects = []
    rw [MediaObjectBuffer.getFront, hframes]
    exact hframes

/-- **Stop is quiet.** In every calm run, whatever the receiver returns: once `Stop` has returned, the buffering thread has
ended, every decoder is at its end, and the buffers are empty, and so they stay. -/
theorem stop_quiet (setup : Setup) (ops : List (Op M)) (hcalm : Along (St.step setup) Calm St.init ops)
    (hstopped : (run (St.step setup) St.init ops).manager.returned = true) : Quiet (run (St.step setup) St.init ops) := by
  have hstep : ∀ (s : St M) (op : Op M), (Inv setup s.actors s ∧ Joined s) ∧ Stopping s → Calm s op →
      (Inv setup (s.step setup op).actors (s.step setup op) ∧ Joined (s.step setup op)) ∧ Stopping (s.step setup op) :=
    fun s op h hop =>
      ⟨⟨step_inv h.1.1 h.1.2 op, step_joined h.1.2 op⟩, step_stopping h.1.1.chain h.1.2 h.2 op hop⟩
  obtain ⟨-, h⟩ := Machine.run_inv (St.step setup) hstep ⟨run_inv setup [], init_stopping⟩ hcalm
  have hstopped := ManagerPc.returned_eq hstopped
  obtain ⟨hbuffering, hends⟩ := h.atEnd (hstopped ▸ trivial)
  exact ⟨hbuffering, hends, h.buffer (Or.inr hstopped), h.frameBuffer hstopped⟩

/-- the first segment is decoded, and the player is stopped while its frame is handed over -/
def stopped : List (Op ℕ) :=
  [.manager .success, .buffering none, .buffering (some 7), .buffering none, .buffering none, .manager .success,
    .manager .success, .manager .success, .manager .success, .manager .success, .manager .success, .decoder 0 .success,
    .decoder 0 .frame, .manager .success, .manager .success, .manager .success, .manager .success, .buffering none,
    .buffering (some 8), .buffering none, .buffering none, .manager .success, .manager .success, .manager .success,
    .manager .success, .manager .success, .decoder 0 .success, .decoder 0 .success, .decoder 0 .success,
    .decoder 0 .success, .decoder 0 .success, .manager .success, .manager .success, .manager .success]

theorem stop_quiet_stopped :
    (run (St.step ⟨2, 3, fun _ => false⟩) St.init stopped).frameBuffer.deleted.map ofLex = [(0, 0)] ∧
      Quiet (run (St.step ⟨2, 3, fun _ => false⟩) St.init stopped) :=
  ⟨by decide, stop_quiet ⟨2, 3, fun _ => false⟩ stopped (by decide) (by decide)⟩

/-- the same, but the decoder has the next segment in its hand when the player is stopped -/
def stoppedCreating : List (Op ℕ) :=
  [.manager .success, .buffering none, .buffering (some 7), .buffering none, .buffering none, .manager .success,
    .manager .success, .manager .success, .manager .success, .manager .success, .manager .success, .buffering none,
    .buffering (some 8), .buffering none, .buffering none, .decoder 0 .success, .decoder 0 .failure, .decoder 0 .success,
    .decoder 0 .success, .manager .success, .manager .success, .decoder 0 .success, .decoder 0 .success, .manager .success,
    .manager .success, .manager .success, .buffering none, .buffering none, .buffering none, .buffering none,
    .manager .success, .manager .success, .manager .success, .manager .success, .decoder 0 .success, .decoder 0 .success,
    .decoder 0 .success, .decoder 0 .success, .decoder 0 .success, .manager .success, .manager .success, .manager .success,
    .decoder 1 .success]

-- `Stop` has returned, and the decoder that was made meanwhile decodes
example :
    let s := run (St.step ⟨2, 3, fun _ => false⟩) St.init stoppedCreating
    s.manager.returned = true ∧ s.decoders.map (·.run) = [false, true] := by
  decide

end Invariant

end NdnDash.Player.Pipeline
