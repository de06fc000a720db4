/-
The player as a whole: the buffering thread of `DASHReceiver`, the segment buffer, the decoders that `DASHManager` creates
one after the other, the frame buffer and the renderer, with the user who starts and stops them (`DASHManager.cpp`,
`MediaObjectDecoder.cpp`, `MultimediaStream.cpp`, `DASHReceiver::DoBuffering`).

`CreateAVDecoder` runs in the user's thread for the first decoder (`Start`), and for every other one in the thread of the
decoder before it (`OnDecodingFinished`). Actor 0 is the user, actor `i + 1` the thread of decoder `i`; actor `a` creates
decoder `a`. A step is one access to what the threads share; a call that would sleep leaves the state as it is. The receiver
answers every `GetNextSegment` as it likes, so that `SetRepresentation` and whatever else concerns the receiver alone may
run at any time beside it; libav and thread creation answer as they like as well. `run` of a new decoder is whatever the
memory holds until `Start` sets it.

`Chain` is the protocol between the decoders: only the newest may be anywhere but at its end, and the next one is born while
its creator waits for it.

Left out: the receiver (`Player.DASHReceiver`) with the initialization segments it finds, the downloads
(`Player.MediaObject`), audio samples, the fill states, a second `Start`; what is undefined leaves the state as it is.
-/
import NdnDash.Core.Machine
import NdnDash.Player.MediaObjectBuffer
import Mathlib.Data.Prod.Lex

namespace NdnDash.Player.Pipeline

open NdnDash.Machine

variable {M : Type}

/-! ## State -/

/-- what libav or the system answers -/
inductive Answer where
  | success
  /-- a frame has been decoded -/
  | frame
  | failure
deriving DecidableEq

/-- where a call of `CreateAVDecoder` stands -/
inductive Stage (M : Type) where
  | getFront
  | construct (media : M)
  | init (decoder : ℕ)
  | createThread (decoder : ℕ)
  | setRun (decoder : ℕ)

/-- where the thread of a decoder stands (`MediaObjectDecoder::Decode`) -/
inductive DecoderPc (M : Type) where
  | unborn
  /-- before `run` is tested in the loop condition -/
  | test
  | decode
  /-- in `AddFrame`, called from the loop or from `Flush` -/
  | addFrame (flushing : Bool)
  | checkRun
  | flush
  | notify
  | creating (stage : Stage M)
  | stop
  | ended

structure MediaObjectDecoder (M : Type) where
  mediaSegment : M
  run : Bool
  /-- number of frames it has handed over -/
  frames : ℕ
  pc : DecoderPc M

/-- where the buffering thread stands (`DoBuffering`) -/
inductive BufferingPc (M : Type) where
  | unborn
  | downloadInitSegment
  | getNextSegment
  | test (media : Option M)
  | pushBack (media : M)
  /-- the segment has been downloaded -/
  | notify
  | setEOS
  | ended

/-- where the user's thread stands, in `Start` and `Stop` -/
inductive ManagerPc (M : Type) where
  | idle
  | starting (stage : Stage M)
  | setRunning
  | started
  | notStarted
  | checkRunning
  | clearRunning
  | receiverStop
  | bufferEOS
  | joinBuffering
  | decoderStop
  | testRun (decoder : ℕ)
  | clearRun (decoder : ℕ)
  | joinDecoder (decoder : ℕ)
  | clear
  | clearFrames
  | stopped

/-- a frame by its decoder and its number -/
abbrev Frame := ℕ ×ₗ ℕ

structure St (M : Type) where
  /-- what `GetNextSegment` has returned -/
  returned : List M
  buffering : BufferingPc M
  isBuffering : Bool
  buffer : MediaObjectBuffer.St M
  isRunning : Bool
  manager : ManagerPc M
  decoders : List (MediaObjectDecoder M)
  frameBuffer : MediaObjectBuffer.St Frame

inductive Op (M : Type) where
  /-- the buffering thread, with the answer of `GetNextSegment` -/
  | buffering (media : Option M)
  | manager (answer : Answer)
  | decoder (i : ℕ) (answer : Answer)
  | render

/-- the capacities of the two buffers, and what memory holds before it is set -/
structure Setup where
  segmentBufferSize : UInt32
  frameBufferSize : UInt32
  memory : ℕ → Bool

namespace St

/-- nothing has been started -/
def init : St M where
  returned := []
  buffering := .unborn
  isBuffering := false
  buffer := MediaObjectBuffer.init
  isRunning := false
  manager := .idle
  decoders := []
  frameBuffer := MediaObjectBuffer.init

def setDecoder (s : St M) (i : ℕ) (f : MediaObjectDecoder M → MediaObjectDecoder M) : St M :=
  { s with decoders := s.decoders.modify i f }

/-- the thread of a decoder goes on -/
def goto (s : St M) (i : ℕ) (pc : DecoderPc M) : St M := s.setDecoder i fun d => { d with pc }

/-! ## Steps -/

section Steps

variable (setup : Setup)

def bufferingStep (s : St M) (media : Option M) : St M :=
  match s.buffering with
  | .unborn => s
  | .downloadInitSegment => { s with buffering := .getNextSegment }
  | .getNextSegment => { s with returned := s.returned ++ media.toList, buffering := .test media }
  | .test none => { s with buffering := .setEOS }
  | .test (some media) => { s with buffering := if s.isBuffering then .pushBack media else .setEOS }
  | .pushBack media =>
    if setup.segmentBufferSize.toNat ≤ s.buffer.mediaobjects.length ∧ s.buffer.eos = false then s
    else
      { s with
        buffer := MediaObjectBuffer.pushBack setup.segmentBufferSize s.buffer media
        buffering := if setup.segmentBufferSize.toNat ≤ s.buffer.mediaobjects.length then .ended else .notify }
  | .notify => { s with buffering := .getNextSegment }
  | .setEOS => { s with buffer := { s.buffer with eos := true }, buffering := .ended }
  | .ended => s

/-- one step of `CreateAVDecoder`: where it stands after it, or what it returns -/
def create (s : St M) (answer : Answer) : Stage M → St M × (Stage M ⊕ Bool)
  | .getFront =>
    match s.buffer.mediaobjects with
    | [] => (s, if s.buffer.eos then .inr false else .inl .getFront)
    | media :: _ => ({ s with buffer := MediaObjectBuffer.getFront s.buffer }, .inl (.construct media))
  | .construct media =>
    ({ s with
      decoders := s.decoders ++ [
        { mediaSegment := media
          run := setup.memory s.decoders.length
          frames := 0
          pc := .unborn }] }, .inl (.init s.decoders.length))
  | .init j => (s, if answer = .failure then .inr false else .inl (.createThread j))
  | .createThread j => if answer = .failure then (s, .inr false) else (s.goto j .test, .inl (.setRun j))
  | .setRun j => (s.setDecoder j fun d => { d with run := true }, .inr true)

def decoderStep (s : St M) (i : ℕ) (answer : Answer) : St M :=
  match s.decoders[i]? with
  | none => s
  | some d =>
    match d.pc with
    | .unborn => s
    | .test => s.goto i (if d.run then .decode else .checkRun)
    | .decode =>
      match answer with
      | .frame => s.goto i (.addFrame false)
      | .success => s.goto i .test
      | .failure => s.goto i .checkRun
    | .addFrame flushing =>
      if setup.frameBufferSize.toNat ≤ s.frameBuffer.mediaobjects.length ∧ s.frameBuffer.eos = false then s
      else
        { s with frameBuffer := MediaObjectBuffer.pushBack setup.frameBufferSize s.frameBuffer (toLex (i, d.frames)) }.setDecoder
          i fun d => { d with frames := d.frames + 1, pc := if flushing then .flush else .decode }
    | .checkRun => s.goto i (if d.run then .flush else .stop)
    | .flush => s.goto i (if answer = .frame then .addFrame true else .notify)
    | .notify => s.goto i (if s.isRunning then .creating .getFront else .stop)
    | .creating stage =>
      match s.create setup answer stage with
      | (s, .inl stage) => s.goto i (.creating stage)
      | (s, .inr _) => s.goto i .stop
    | .stop => s.goto i .ended
    | .ended => s

def managerStep (s : St M) (answer : Answer) : St M :=
  match s.manager with
  | .idle =>
    if answer = .failure then { s with manager := .notStarted }
    else { s with isBuffering := true, buffering := .downloadInitSegment, manager := .starting .getFront }
  | .starting stage =>
    match s.create setup answer stage with
    | (s, .inl stage) => { s with manager := .starting stage }
    | (s, .inr ok) => { s with manager := if ok then .setRunning else .notStarted }
  | .setRunning => { s with isRunning := true, manager := .started }
  | .started | .notStarted => { s with frameBuffer := { s.frameBuffer with eos := true }, manager := .checkRunning }
  | .checkRunning => { s with manager := if s.isRunning then .clearRunning else .clearFrames }
  | .clearRunning => { s with isRunning := false, manager := .receiverStop }
  | .receiverStop =>
    if s.isBuffering then { s with isBuffering := false, manager := .bufferEOS } else { s with manager := .decoderStop }
  | .bufferEOS => { s with buffer := { s.buffer with eos := true }, manager := .joinBuffering }
  | .joinBuffering =>
    match s.buffering with
    | .ended => { s with manager := .decoderStop }
    | _ => s
  | .decoderStop => { s with manager := .testRun (s.decoders.length - 1) }
  | .testRun j =>
    match s.decoders[j]? with
    | some d => { s with manager := if d.run then .clearRun j else .clear }
    | none => s
  | .clearRun j => { s.setDecoder j fun d => { d with run := false } with manager := .joinDecoder j }
  | .joinDecoder j =>
    match s.decoders[j]?.map MediaObjectDecoder.pc with
    | some .unborn | some .ended => { s with manager := .clear }
    | _ => s
  | .clear =>
    match MediaObjectBuffer.clear s.buffer with
    | some buffer => { s with buffer, manager := .clearFrames }
    | none => s
  | .clearFrames =>
    match MediaObjectBuffer.clear s.frameBuffer with
    | some frameBuffer => { s with frameBuffer, manager := .stopped }
    | none => s
  | .stopped => s

def step (s : St M) : Op M → St M
  | .buffering media => s.bufferingStep setup media
  | .manager answer => s.managerStep setup answer
  | .decoder i answer => s.decoderStep setup i answer
  | .render => { s with frameBuffer := MediaObjectBuffer.getFront s.frameBuffer }

end Steps

end St

/-! ## The chain of decoders -/

section Chain

def DecoderPc.stage : DecoderPc M → Option (Stage M)
  | .creating stage => some stage
  | _ => none

def ManagerPc.stage : ManagerPc M → Option (Stage M)
  | .starting stage => some stage
  | _ => none

/-- the thread has constructed the next decoder, or is at its end -/
def DecoderPc.Late : DecoderPc M → Prop
  | .creating .getFront | .creating (.construct _) => False
  | .creating _ | .stop | .ended => True
  | _ => False

/-- who may be in `CreateAVDecoder`: the user and the threads of the decoders -/
structure Actors (M : Type) where
  manager : Option (Stage M)
  pcs : List (DecoderPc M)

namespace Actors

/-- where actor `a` stands in `CreateAVDecoder`, if it is in it -/
def stageAt (x : Actors M) : ℕ → Option (Stage M)
  | 0 => x.manager
  | i + 1 => x.pcs[i]?.bind DecoderPc.stage

/-- actor `a` goes on in `CreateAVDecoder`, or returns from it -/
def put (x : Actors M) (stage : Option (Stage M)) : ℕ → Actors M
  | 0 => { x with manager := stage }
  | i + 1 => { x with pcs := x.pcs.set i (stage.elim .stop .creating) }

/-- actor `a` creates decoder `a` -/
def StageOk (pcs : List (DecoderPc M)) (a : ℕ) : Stage M → Prop
  | .getFront | .construct _ => pcs.length = a
  | .init j | .createThread j => j = a ∧ pcs.length = a + 1 ∧ pcs[a]? = some .unborn
  | .setRun j => j = a

/-- invariant: every decoder but the newest has constructed the next one -/
structure Chain (x : Actors M) : Prop where
  stages : ∀ a stage, x.stageAt a = some stage → StageOk x.pcs a stage
  late : ∀ i pc, x.pcs[i]? = some pc → i + 1 < x.pcs.length → pc.Late

variable {x : Actors M} {a i : ℕ} {pc pc' : DecoderPc M}

theorem stageAt_put_self (h : x.stageAt a ≠ none) (stage : Option (Stage M)) : (x.put stage a).stageAt a = stage := by
  cases a with
  | zero => rfl
  | succ i =>
    have hi : i < x.pcs.length := by
      by_contra hge
      exact h (by rw [stageAt, List.getElem?_eq_none (not_lt.1 hge), Option.bind_none])
    rw [put, stageAt, List.getElem?_set_self hi, Option.bind_some]
    cases stage <;> rfl

theorem stageAt_put_of_ne {b : ℕ} (h : b ≠ a) (stage : Option (Stage M)) : (x.put stage a).stageAt b = x.stageAt b := by
  cases a with
  | zero =>
    cases b with
    | zero => exact absurd rfl h
    | succ j => rfl
  | succ i =>
    cases b with
    | zero => rfl
    | succ j => rw [put, stageAt, stageAt, List.getElem?_set_ne (by omega)]

@[simp] theorem length_put (x : Actors M) (stage : Option (Stage M)) (a : ℕ) : (x.put stage a).pcs.length = x.pcs.length := by
  cases a with
  | zero => rfl
  | succ i => exact List.length_set

theorem getElem?_put (x : Actors M) (stage : Option (Stage M)) {a j : ℕ} (h : a ≠ j + 1) :
    (x.put stage a).pcs[j]? = x.pcs[j]? := by
  cases a with
  | zero => rfl
  | succ i => exact List.getElem?_set_ne (by omega)

theorem Chain.last_of_not_late (h : Chain x) (hpc : x.pcs[i]? = some pc) (hlate : ¬ pc.Late) : i + 1 = x.pcs.length := by
  have hi : i < x.pcs.length := (List.getElem?_eq_some_iff.1 hpc).1
  by_contra hne
  exact hlate (h.late i pc hpc (by omega))

theorem StageOk.congr {pcs pcs' : List (DecoderPc M)} {stage : Stage M} (h : StageOk pcs a stage)
    (hlength : pcs'.length = pcs.length) (hpc : pcs[a]? = some .unborn → pcs'[a]? = some .unborn) : StageOk pcs' a stage := by
  cases stage with
  | getFront => exact hlength.trans h
  | construct media => exact hlength.trans h
  | init j => exact ⟨h.1, hlength.trans h.2.1, hpc h.2.2⟩
  | createThread j => exact ⟨h.1, hlength.trans h.2.1, hpc h.2.2⟩
  | setRun j => exact h

/-- **A thread goes on**, while nobody waits for it to be born. -/
theorem Chain.set (h : Chain x) (hpc : x.pcs[i]? = some pc)
    (hborn : ∀ j, x.stageAt i ≠ some (.init j) ∧ x.stageAt i ≠ some (.createThread j))
    (hlate : i + 1 < x.pcs.length → pc'.Late) (hstage : ∀ stage, pc'.stage = some stage → StageOk x.pcs (i + 1) stage) :
    Chain { x with pcs := x.pcs.set i pc' } where
  stages := by
    have hi : i < x.pcs.length := (List.getElem?_eq_some_iff.1 hpc).1
    intro b stage hb
    have hok : StageOk x.pcs b stage ∧ (b = i → ∀ j, stage ≠ .init j ∧ stage ≠ .createThread j) := by
      by_cases hbi : b = i + 1
      · subst hbi
        rw [stageAt, List.getElem?_set_self hi, Option.bind_some] at hb
        exact ⟨hstage stage hb, fun hne => absurd hne (by omega)⟩
      · have hb' : x.stageAt b = some stage := by
          cases b with
          | zero => exact hb
          | succ j => rwa [stageAt, List.getElem?_set_ne (by omega)] at hb
        refine ⟨h.stages b stage hb', fun hbi j => ?_⟩
        subst hbi
        rw [hb'] at hborn
        exact ⟨fun heq => (hborn j).1 (congrArg some heq), fun heq => (hborn j).2 (congrArg some heq)⟩
    by_cases hbi : b = i
    · obtain ⟨hok, hne⟩ := hok
      cases stage with
      | getFront => exact List.length_set.trans hok
      | construct media => exact List.length_set.trans hok
      | init j => exact absurd rfl (hne hbi j).1
      | createThread j => exact absurd rfl (hne hbi j).2
      | setRun j => exact hok
    · exact hok.1.congr List.length_set fun hunborn => by rwa [List.getElem?_set_ne (Ne.symm hbi)]
  late := by
    have hi : i < x.pcs.length := (List.getElem?_eq_some_iff.1 hpc).1
    intro j pc'' hj hlt
    rw [List.length_set] at hlt
    by_cases hij : i = j
    · subst hij
      rw [List.getElem?_set_self hi, Option.some.injEq] at hj
      exact hj ▸ hlate hlt
    · rw [List.getElem?_set_ne hij] at hj
      exact h.late j pc'' hj hlt

/-- who has been born has nobody waiting for its birth -/
theorem Chain.born (h : Chain x) (hpc : x.pcs[i]? = some pc) (hne : pc ≠ .unborn) (j : ℕ) :
    x.stageAt i ≠ some (.init j) ∧ x.stageAt i ≠ some (.createThread j) := by
  refine ⟨fun hstage => ?_, fun hstage => ?_⟩
  · have hunborn := (h.stages i _ hstage).2.2
    rw [hpc, Option.some.injEq] at hunborn
    exact hne hunborn
  · have hunborn := (h.stages i _ hstage).2.2
    rw [hpc, Option.some.injEq] at hunborn
    exact hne hunborn

/-- **An actor goes on** in `CreateAVDecoder`, or returns. -/
theorem Chain.put (h : Chain x) (ha : x.stageAt a ≠ none) {stage : Option (Stage M)}
    (hstage : ∀ st, stage = some st → StageOk x.pcs a st)
    (hlate : a < x.pcs.length → (stage.elim DecoderPc.stop DecoderPc.creating : DecoderPc M).Late) :
    Chain (x.put stage a) where
  stages := by
    intro b st hb
    have hok : StageOk x.pcs b st := by
      by_cases hba : b = a
      · subst hba
        rw [stageAt_put_self ha] at hb
        exact hstage st hb
      · rw [stageAt_put_of_ne hba] at hb
        exact h.stages b st hb
    refine hok.congr (length_put x stage a) fun hunborn => ?_
    by_cases hab : a = b + 1
    · -- the thread of the actor has been born
      subst hab
      rw [stageAt, hunborn] at ha
      exact absurd rfl ha
    · rwa [getElem?_put x stage hab]
  late := by
    intro j pc hj hlt
    rw [length_put] at hlt
    by_cases haj : a = j + 1
    · subst haj
      have hj' : j < x.pcs.length := by omega
      rw [Actors.put, List.getElem?_set_self hj', Option.some.injEq] at hj
      exact hj ▸ hlate hlt
    · rw [getElem?_put x stage haj] at hj
      exact h.late j pc hj hlt

/-- **The next decoder is constructed.** -/
theorem Chain.construct (h : Chain x) {media : M} (ha : x.stageAt a = some (.construct media)) :
    Chain (({ x with pcs := x.pcs ++ [.unborn] } : Actors M).put (some (.init a)) a) := by
  have hlength : x.pcs.length = a := h.stages a _ ha
  set y : Actors M := { x with pcs := x.pcs ++ [.unborn] } with hy
  have hpcs : ∀ j, j < x.pcs.length → y.pcs[j]? = x.pcs[j]? := fun j hj => List.getElem?_append_left hj
  have hlast : y.pcs[a]? = some .unborn := by rw [hy, ← hlength]; simp
  have hylength : y.pcs.length = a + 1 := by rw [hy, List.length_append, hlength]; rfl
  have hstage : ∀ b stage, y.stageAt b = some stage → x.stageAt b = some stage := by
    intro b stage hb
    cases b with
    | zero => exact hb
    | succ j =>
      rw [stageAt] at hb ⊢
      rcases Nat.lt_trichotomy j x.pcs.length with hj | hj | hj
      · rwa [hpcs j hj] at hb
      · rw [hj, hlength, hlast] at hb
        cases hb
      · rw [List.getElem?_eq_none (by omega)] at hb
        cases hb
  have hya : y.stageAt a ≠ none := by
    have hsame : y.stageAt a = x.stageAt a := by
      cases a with
      | zero => rfl
      | succ j => rw [stageAt, stageAt, hpcs j (by omega)]
    rw [hsame, ha]
    exact Option.some_ne_none _
  refine ⟨fun b st hb => ?_, fun j pc hj hlt => ?_⟩
  · by_cases hba : b = a
    · subst hba
      rw [stageAt_put_self hya, Option.some.injEq] at hb
      subst hb
      exact ⟨rfl, (length_put y _ b).trans hylength, (getElem?_put y _ (by omega)).trans hlast⟩
    · rw [stageAt_put_of_ne hba] at hb
      have hb := hstage b st hb
      have hok := h.stages b st hb
      cases st with
      | getFront => exact absurd (hok.symm.trans hlength) hba
      | construct media' => exact absurd (hok.symm.trans hlength) hba
      | setRun j => exact hok
      | init j =>
        have hab : a = b + 1 := hlength.symm.trans hok.2.1
        rw [hab, stageAt, hok.2.2] at ha
        cases ha
      | createThread j =>
        have hab : a = b + 1 := hlength.symm.trans hok.2.1
        rw [hab, stageAt, hok.2.2] at ha
        cases ha
  · rw [length_put, hylength] at hlt
    by_cases haj : a = j + 1
    · subst haj
      rw [Actors.put, List.getElem?_set_self (by omega), Option.some.injEq] at hj
      subst hj
      trivial
    · rw [getElem?_put y _ haj, hpcs j (by omega)] at hj
      exact h.late j pc hj (by omega)

/-- one that is not the actor's thread goes on meanwhile -/
theorem put_set (x : Actors M) (stage : Option (Stage M)) {j : ℕ} (h : a ≠ j + 1) (pc : DecoderPc M) :
    ({ x with pcs := x.pcs.set j pc } : Actors M).put stage a =
      { x.put stage a with pcs := (x.put stage a).pcs.set j pc } := by
  cases a with
  | zero => rfl
  | succ i =>
    rw [Actors.put, Actors.put]
    exact congrArg (Actors.mk x.manager) (List.set_comm _ _ (by omega))

/-- **The thread of the next decoder is created.** -/
theorem Chain.createThread (h : Chain x) {j : ℕ} (ha : x.stageAt a = some (.createThread j)) :
    Chain (({ x with pcs := x.pcs.set j .test } : Actors M).put (some (.setRun j)) a) := by
  obtain ⟨rfl, hlength, hunborn⟩ := h.stages a _ ha
  rw [put_set x _ (by omega)]
  have hne : x.stageAt j ≠ none := by simp [ha]
  have hput : Chain (x.put (some (.setRun j)) j) := by
    refine h.put hne (fun st hst => ?_) fun _ => trivial
    rw [← Option.some.inj hst]
    rfl
  refine hput.set ((getElem?_put x _ (by omega)).trans hunborn) (fun k => ?_) (fun hlt => ?_) fun _ hst => ?_
  · rw [stageAt_put_self hne]
    exact ⟨by simp, by simp⟩
  · rw [length_put] at hlt
    omega
  · cases hst

end Actors

end Chain

end NdnDash.Player.Pipeline
