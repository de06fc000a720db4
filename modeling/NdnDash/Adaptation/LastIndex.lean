/-
The index that three of the logics remember from one call of `GetRepresentation` to the next (`QoeFairAdaptation.cpp`,
`RateBufferBaseAdaptation.cpp`, `GameAdaptation.cpp`). Each call begins with the representation at the remembered index
and ends with the one at the index that it remembers.

A member that a constructor does not set has an arbitrary value. Two constructors set `last_index` to 0; that of
`RateBufferBaseAdaptation` does not set it.

- `getRepresentation_ready`: one call that asks for the index, from a valid one.
- `along_of_ready`: from a valid index, every use in every run of calls is valid.
- `remembered_iff`: from the constructors, every use is valid exactly when the logic is not `RateBufferBaseAdaptation`,
  or is never called, or found a valid index in its memory.
-/
import NdnDash.Adaptation.Manager

namespace NdnDash.Adaptation

open NdnDash.Player
open RateBufferBase (Input)

/-! ## Model -/

/-- the classes with a remembered index -/
inductive Remembering
  | qoeFair
  | rateBufferBase
  | game
deriving DecidableEq

/-- what the memory of a new object holds in the members that a constructor may leave open -/
structure Unset where
  predictBandwidth : Option ℚ
  last_index : ℤ
deriving DecidableEq

namespace Remembering

/-- the constructors -/
def construct (unset : Unset) : Remembering → VideoLogic
  | .qoeFair => .qoeFair { QoeFair.construct with predictBandwidth := unset.predictBandwidth }
  | .rateBufferBase =>
    .rateBufferBase
      { Logic.construct with
        predictBandwidth := unset.predictBandwidth
        last_index := unset.last_index }
  | .game => .game { Game.construct with predictBandwidth := unset.predictBandwidth }

end Remembering

namespace VideoLogic

/-- what the manager has written before a call -/
def receive (i : Input) : VideoLogic → VideoLogic
  | .qoeFair l =>
    .qoeFair
      { l with
        throughputTrace := i.throughputTrace
        currentSegmentBufferfillPercent := i.currentSegmentBufferfillPercent }
  | .rateBase l =>
    .rateBase
      { l with
        throughputTrace := i.throughputTrace
        currentSegmentBufferfillPercent := i.currentSegmentBufferfillPercent }
  | .rateBufferBase l => .rateBufferBase (l.receive i)
  | .game l =>
    .game
      { l with
        throughputTrace := i.throughputTrace
        currentSegmentBufferfillPercent := i.currentSegmentBufferfillPercent }

/-- `GetRepresentation` comes to `get_last_download_index`; in `GameAdaptation` only if there is a measured segment, since
`throughputTrace.at` throws before it otherwise -/
def Asks : VideoLogic → Prop
  | .qoeFair _ => True
  | .rateBase _ => False
  | .rateBufferBase _ => True
  | .game l => l.throughputTrace ≠ []

end VideoLogic

/-- one call; nothing is left of the logic when an exception has ended the buffering thread -/
def callLogic (m : Libm) (bandwidths : List UInt32) (v : Option VideoLogic) (i : Input) : Option VideoLogic :=
  v.bind fun v => ((v.receive i).getRepresentation m bandwidths).map Prod.snd

/-- every use of the remembered index in a call is valid: the last index is that of a representation, and so is the
one that is remembered next, with which `at` ends the call -/
def UsesValid (m : Libm) (bandwidths : List UInt32) (v : Option VideoLogic) (i : Input) : Prop :=
  ∀ l ∈ v, (l.receive i).Asks → Ready bandwidths (l.receive i) ∧
    ∃ r, (l.receive i).getRepresentation m bandwidths = some r ∧ Ready bandwidths r.2

/-! ## One call -/

variable {bandwidths : List UInt32} {v : VideoLogic}

theorem ready_receive (hv : Ready bandwidths v) (i : Input) : Ready bandwidths (v.receive i) := by
  cases hv with
  | qoeFair hlast => exact .qoeFair hlast
  | rateBase => exact .rateBase
  | rateBufferBase hlast => exact .rateBufferBase hlast
  | game hlast => exact .game hlast

/-- **One call.** From a valid index, a call that asks for it returns and leaves a valid one. -/
theorem getRepresentation_ready (m : Libm) (hne : bandwidths ≠ []) (hv : Ready bandwidths v) (hasks : v.Asks) :
    ∃ r, v.getRepresentation m bandwidths = some r ∧ Ready bandwidths r.2 := by
  cases hv with
  | @qoeFair l last hlast =>
    obtain ⟨index, hlt, hget⟩ := QoeFair.getRepresentation_eq m hne hlast
    exact ⟨_, by rw [VideoLogic.getRepresentation, hget]; rfl, .qoeFair (at?_of_lt hlt)⟩
  | rateBase => exact absurd hasks id
  | @rateBufferBase l last hlast =>
    obtain ⟨b, hb, -, -⟩ := RateBufferBase.chosenIndex_spec hne l.currentSegmentBufferfillPercent last
      (RateBufferBase.curDownloadSpeed l.throughputTrace)
    have hget := RateBufferBase.getRepresentation_eq hlast hb
    exact ⟨_, by rw [VideoLogic.getRepresentation, hget]; rfl, .rateBufferBase ((at?_natCast _ _).trans hb)⟩
  | @game l last hlast =>
    obtain ⟨r, hr, hready, -, -⟩ := getRepresentation_spec m hne (.game hlast) hasks
    exact ⟨r, hr, hready⟩

/-! ## Runs of calls -/

/-- a logic that an exception has ended uses no index any more -/
theorem callLogic_ready (m : Libm) (hne : bandwidths ≠ []) (v : Option VideoLogic) (i : Input)
    (hv : ∀ l ∈ v, Ready bandwidths l) : ∀ l ∈ callLogic m bandwidths v i, Ready bandwidths l := by
  intro l hl
  obtain ⟨l₀, hl₀, hcall⟩ := Option.bind_eq_some_iff.1 hl
  obtain ⟨r, hr, rfl⟩ := Option.map_eq_some_iff.1 hcall
  have hready := ready_receive (hv l₀ hl₀) i
  by_cases hasks : (l₀.receive i).Asks
  · obtain ⟨r', hr', hready'⟩ := getRepresentation_ready m hne hready hasks
    obtain rfl := Option.some.inj (hr.symm.trans hr')
    exact hready'
  · -- no logic that remembers an index returns without asking for it
    generalize l₀.receive i = received at hr hready hasks
    cases hready with
    | qoeFair => exact absurd trivial hasks
    | rateBase =>
      obtain ⟨r', hr', rfl⟩ := Option.map_eq_some_iff.1 hr
      exact .rateBase
    | rateBufferBase => exact absurd trivial hasks
    | @game l last hlast =>
      have htrace : l.throughputTrace = [] := not_not.1 hasks
      obtain ⟨r', hr', -⟩ := Option.map_eq_some_iff.1 hr
      rw [Game.getRepresentation, htrace] at hr'
      exact absurd hr' (by simp)

/-- from a valid index, every use in every run is valid -/
theorem along_of_ready (m : Libm) (hne : bandwidths ≠ []) (hv : Ready bandwidths v) (inputs : List Input) :
    Machine.Along (callLogic m bandwidths) (UsesValid m bandwidths) (some v) inputs := by
  have hinit : ∀ l ∈ some v, Ready bandwidths l := by
    intro l hl
    rwa [← Option.some.inj hl]
  refine Machine.along_of_inv (callLogic m bandwidths) (callLogic_ready m hne) ?_ hinit inputs
  intro v i hv l hl hasks
  have hready := ready_receive (hv l hl) i
  exact ⟨hready, getRepresentation_ready m hne hready hasks⟩

/-- **The remembered index.** For all three classes, whatever their memory held before, and for every run of calls, every
use of the index is valid exactly when the class is not `RateBufferBaseAdaptation`, or there is no call, or the memory
happened to hold a valid index. -/
theorem remembered_iff (m : Libm) (hne : bandwidths ≠ []) (c : Remembering) (unset : Unset) (inputs : List Input) :
    Machine.Along (callLogic m bandwidths) (UsesValid m bandwidths) (some (c.construct unset)) inputs ↔
      c ≠ .rateBufferBase ∨ inputs = [] ∨ ∃ last, at? bandwidths unset.last_index = some last := by
  obtain ⟨first, rest, rfl⟩ := List.exists_cons_of_ne_nil hne
  have hfirst : at? (first :: rest) 0 = some first := rfl
  cases c with
  | qoeFair => exact iff_of_true (along_of_ready m hne (.qoeFair hfirst) inputs) (Or.inl (by decide))
  | game => exact iff_of_true (along_of_ready m hne (.game hfirst) inputs) (Or.inl (by decide))
  | rateBufferBase =>
    rw [or_iff_right (not_not_intro rfl)]
    refine ⟨fun h => ?_, fun h => ?_⟩
    · cases inputs with
      | nil => exact Or.inl rfl
      | cons i is =>
        obtain ⟨hready, -⟩ := h.1 _ rfl trivial
        cases hready with
        | rateBufferBase hlast => exact Or.inr ⟨_, hlast⟩
    · rcases h with rfl | ⟨last, hlast⟩
      · trivial
      · exact along_of_ready m hne (.rateBufferBase hlast) inputs

/-- two calls, the first with nothing measured yet -/
def twoCalls : List Input := [⟨[], 0⟩, ⟨[⟨0, 8, 4, 4000⟩], 50⟩]

theorem remembered_two_calls :
    Machine.Along (callLogic .roots [1000, 2000]) (UsesValid .roots [1000, 2000])
      (some (Remembering.rateBufferBase.construct ⟨none, 1⟩)) twoCalls :=
  (remembered_iff .roots (by decide) .rateBufferBase ⟨none, 1⟩ twoCalls).2 (Or.inr (Or.inr ⟨2000, rfl⟩))

/-- a new `RateBufferBaseAdaptation` in whose memory there was a 7: with two representations the first call throws -/
theorem unset_index_throws :
    at? ([1000, 2000] : List UInt32) 7 = none ∧
      callLogic .roots [1000, 2000] (some (Remembering.rateBufferBase.construct ⟨none, 7⟩)) ⟨[], 0⟩ = none ∧
      ¬ Machine.Along (callLogic .roots [1000, 2000]) (UsesValid .roots [1000, 2000])
        (some (Remembering.rateBufferBase.construct ⟨none, 7⟩)) [⟨[], 0⟩] := by
  have hthrows : callLogic .roots [1000, 2000] (some (Remembering.rateBufferBase.construct ⟨none, 7⟩)) ⟨[], 0⟩ = none := by
    decide +kernel
  refine ⟨by decide, hthrows, fun h => ?_⟩
  obtain ⟨-, r, hr, -⟩ := h.1 _ rfl trivial
  rw [callLogic, Option.bind_some, hr] at hthrows
  exact absurd hthrows (Option.some_ne_none _)

end NdnDash.Adaptation
