/-
Model of `RateBufferBaseAdaptation::GetRepresentation` (`RateBufferBaseAdaptation.cpp`): the buffer decides the direction,
the last measured rate bounds it.

Each branch looks for the best candidate beside the last representation, from index 0; when there is no candidate, the
index stays 0, the lowest representation. `BufferBasedAdaptationLogic::GetNextSegment`, which it follows, starts from the
last representation instead.

- `low_spec`, `high_spec`: what each branch chooses.
- `call_spec`: one call, from a valid last index.
- `right_iff`: a call goes in the right direction exactly when it is `Rising`.
- `direction_iff`: over every run of calls, all go in the right direction exactly when all are `Rising`; while the buffer
  is above the threshold, this means that the bandwidths never decrease.
-/
import NdnDash.Adaptation.Logic
import NdnDash.Core.Machine
import NdnDash.Core.Search

namespace NdnDash.Adaptation

open NdnDash.Search NdnDash.Player

/-! ## Model -/

/-- the logic; its constructor leaves `last_index` open -/
structure RateBufferBase extends Logic where
  last_index : ℤ
deriving DecidableEq

namespace RateBufferBase

/-- the last measured rate -/
def curDownloadSpeed (throughputTrace : List ThroughputTrace) : ℕ :=
  match throughputTrace.getLast? with
  | none => 0
  | some t => t.bitRate.toNat

/-- `currentSegmentBufferfillPercent*50/100 < 8` -/
def Low (currentSegmentBufferfillPercent : UInt32) : Prop := currentSegmentBufferfillPercent * 50 / 100 < 8

instance (percent : UInt32) : Decidable (Low percent) := by
  unfold Low; infer_instance

/-- the loop of the first branch: the highest below the last and below the measured rate -/
def chooseLower (bandwidths : List UInt32) (speedOfLastRep : UInt32) (curDownloadSpeed : ℕ) : ℕ :=
  (search (fun (tmp : UInt32) (highest : ℚ) =>
      (tmp < speedOfLastRep ∧ tmp.toNat < curDownloadSpeed) ∧ highest < tmp.toNat)
    (fun tmp => (tmp.toNat : ℚ)) bandwidths 0 (0, 0)).1

/-- the loop of the second branch: the lowest above the last and below the measured rate -/
def chooseHigher (bandwidths : List UInt32) (speedOfLastRep : UInt32) (curDownloadSpeed : ℕ) : ℕ :=
  (search (fun (tmp : UInt32) (lowest : ℚ) =>
      (speedOfLastRep < tmp ∧ tmp.toNat < curDownloadSpeed) ∧ (tmp.toNat : ℚ) < lowest)
    (fun tmp => (tmp.toNat : ℚ)) bandwidths 0 (0, 999999999.99)).1

/-- the two branches -/
def chosenIndex (bandwidths : List UInt32) (percent speedOfLastRep : UInt32) (curDownloadSpeed : ℕ) : ℕ :=
  if Low percent then chooseLower bandwidths speedOfLastRep curDownloadSpeed
  else chooseHigher bandwidths speedOfLastRep curDownloadSpeed

/-- `GetRepresentation`; `none` is the exception of `at` -/
def getRepresentation (bandwidths : List UInt32) (l : RateBufferBase) : Option (ℕ × RateBufferBase) :=
  (at? bandwidths l.last_index).bind fun speedOfLastRep =>
    let index := chosenIndex bandwidths l.currentSegmentBufferfillPercent speedOfLastRep
      (curDownloadSpeed l.throughputTrace)
    (bandwidths[index]?).map fun _ => (index, { l with last_index := index })

/-! ## One branch at a time -/

variable {bandwidths : List UInt32} {last : UInt32} {speed : ℕ}

/-- the first branch: a lower representation, or the first one -/
theorem low_spec (bandwidths : List UInt32) (last : UInt32) (speed : ℕ) :
    chooseLower bandwidths last speed = 0 ∨
      ∃ b, bandwidths[chooseLower bandwidths last speed]? = some b ∧ b < last := by
  have haccepts : ∀ (b : UInt32) (v : ℚ), ((b < last ∧ b.toNat < speed) ∧ v < b.toNat) ↔
      (b < last ∧ b.toNat < speed) ∧ v < (fun b : UInt32 => (b.toNat : ℚ)) b := fun b v => Iff.rfl
  unfold chooseLower
  rcases search_greatest haccepts (0, 0) bandwidths with ⟨h, -⟩ | ⟨i, b, h, hget, hc, -, -⟩
  · exact Or.inl (congrArg Prod.fst h)
  · exact Or.inr ⟨b, by rw [h]; exact hget, hc.1⟩

/-- a candidate of the second branch -/
def Candidate (last : UInt32) (speed : ℕ) (b : UInt32) : Prop := last < b ∧ b.toNat < speed ∧ (b.toNat : ℚ) < 999999999.99

/-- the second branch: a higher representation if there is a candidate, else the first one -/
theorem high_spec (bandwidths : List UInt32) (last : UInt32) (speed : ℕ) :
    ((∃ b ∈ bandwidths, Candidate last speed b) ∧
        ∃ b, bandwidths[chooseHigher bandwidths last speed]? = some b ∧ last < b) ∨
      ((¬ ∃ b ∈ bandwidths, Candidate last speed b) ∧ chooseHigher bandwidths last speed = 0) := by
  have hfound : Found (fun b => last < b ∧ b.toNat < speed) (fun b : UInt32 => (b.toNat : ℚ)) (0, 999999999.99) bandwidths
      (search (fun (b : UInt32) (v : ℚ) => (last < b ∧ b.toNat < speed) ∧ (b.toNat : ℚ) < v) (fun b => (b.toNat : ℚ))
        bandwidths 0 (0, 999999999.99)) :=
    search_found (fun b v => Iff.rfl) _ _
  unfold chooseHigher
  generalize search (fun (b : UInt32) (v : ℚ) => (last < b ∧ b.toNat < speed) ∧ (b.toNat : ℚ) < v)
    (fun b => (b.toNat : ℚ)) bandwidths 0 (0, 999999999.99) = best at hfound ⊢
  cases hfound with
  | nothing hall =>
    refine Or.inr ⟨?_, rfl⟩
    intro h
    obtain ⟨b, hb, h1, h2, h3⟩ := h
    exact absurd h3 (not_lt.2 (hall b hb ⟨h1, h2⟩))
  | least i b hget hc hlt hleast hfirst =>
    exact Or.inl ⟨⟨b, List.mem_of_getElem? hget, hc.1, hc.2, hlt⟩, b, hget, hc.1⟩

/-! ## Runs of calls -/

/-- what the manager sets before a call -/
structure Input where
  throughputTrace : List ThroughputTrace
  currentSegmentBufferfillPercent : UInt32
deriving DecidableEq

def receive (l : RateBufferBase) (i : Input) : RateBufferBase :=
  { l with
    throughputTrace := i.throughputTrace
    currentSegmentBufferfillPercent := i.currentSegmentBufferfillPercent }

/-- the logic after one call -/
def call (bandwidths : List UInt32) (l : RateBufferBase) (i : Input) : RateBufferBase :=
  match getRepresentation bandwidths (receive l i) with
  | some r => r.2
  | none => l

/-- the bandwidth of the last representation -/
def lastBandwidth (bandwidths : List UInt32) (l : RateBufferBase) : UInt32 := (at? bandwidths l.last_index).getD 0

/-- the last index is that of a representation -/
def Valid (bandwidths : List UInt32) (l : RateBufferBase) : Prop := (at? bandwidths l.last_index).isSome = true

instance (bandwidths : List UInt32) (l : RateBufferBase) : Decidable (Valid bandwidths l) := by
  unfold Valid; infer_instance

/-- the call returns and goes in the right direction -/
def Right (bandwidths : List UInt32) (l : RateBufferBase) (i : Input) : Prop :=
  (getRepresentation bandwidths (receive l i)).isSome = true ∧
    if Low i.currentSegmentBufferfillPercent then
      lastBandwidth bandwidths (call bandwidths l i) ≤ lastBandwidth bandwidths l
    else lastBandwidth bandwidths l ≤ lastBandwidth bandwidths (call bandwidths l i)

/-- the buffer is low, or there is a candidate above the last representation, or that is the lowest anyway -/
def Rising (bandwidths : List UInt32) (l : RateBufferBase) (i : Input) : Prop :=
  Low i.currentSegmentBufferfillPercent ∨
    (∃ b ∈ bandwidths, Candidate (lastBandwidth bandwidths l) (curDownloadSpeed i.throughputTrace) b) ∨
      bandwidths.head? = some (lastBandwidth bandwidths l)

instance (bandwidths : List UInt32) (l : RateBufferBase) (i : Input) : Decidable (Rising bandwidths l i) := by
  unfold Rising Candidate; infer_instance

/-- the bandwidths chosen in a run -/
def chosen (bandwidths : List UInt32) : RateBufferBase → List Input → List UInt32
  | _, [] => []
  | l, i :: is => lastBandwidth bandwidths (call bandwidths l i) :: chosen bandwidths (call bandwidths l i) is

section Calls

variable {l : RateBufferBase}

theorem chosenIndex_spec (hne : bandwidths ≠ []) (percent last : UInt32) (speed : ℕ) :
    ∃ b, bandwidths[chosenIndex bandwidths percent last speed]? = some b ∧
      (Low percent → bandwidths.head? = some b ∨ b < last) ∧
      (¬ Low percent → ((∃ c ∈ bandwidths, Candidate last speed c) ∧ last < b) ∨
        ((¬ ∃ c ∈ bandwidths, Candidate last speed c) ∧ bandwidths.head? = some b)) := by
  obtain ⟨first, rest, rfl⟩ := List.exists_cons_of_ne_nil hne
  unfold chosenIndex
  by_cases hlow : Low percent
  · rw [if_pos hlow]
    rcases low_spec (first :: rest) last speed with h | ⟨b, hb, hlt⟩
    · exact ⟨first, by rw [h]; rfl, fun _ => Or.inl rfl, fun h => absurd hlow h⟩
    · exact ⟨b, hb, fun _ => Or.inr hlt, fun h => absurd hlow h⟩
  · rw [if_neg hlow]
    rcases high_spec (first :: rest) last speed with ⟨hcand, b, hb, hlt⟩ | ⟨hnone, h⟩
    · exact ⟨b, hb, fun h => absurd h hlow, fun _ => Or.inl ⟨hcand, hlt⟩⟩
    · exact ⟨first, by rw [h]; rfl, fun h => absurd h hlow, fun _ => Or.inr ⟨hnone, rfl⟩⟩

theorem getRepresentation_eq {last b : UInt32} (hlast : at? bandwidths l.last_index = some last)
    (hb : bandwidths[chosenIndex bandwidths l.currentSegmentBufferfillPercent last
      (curDownloadSpeed l.throughputTrace)]? = some b) :
    getRepresentation bandwidths l =
      some (chosenIndex bandwidths l.currentSegmentBufferfillPercent last (curDownloadSpeed l.throughputTrace),
        { l with
          last_index := chosenIndex bandwidths l.currentSegmentBufferfillPercent last
            (curDownloadSpeed l.throughputTrace) }) := by
  rw [getRepresentation, hlast, Option.bind_some]
  exact Option.map_eq_some_iff.2 ⟨b, hb, rfl⟩

/-- **One call.** From a valid last index it returns, leaves a valid one, and the new last bandwidth is the choice. -/
theorem call_spec (hne : bandwidths ≠ []) (hvalid : Valid bandwidths l) (i : Input) :
    (getRepresentation bandwidths (receive l i)).isSome = true ∧ Valid bandwidths (call bandwidths l i) ∧
      bandwidths[chosenIndex bandwidths i.currentSegmentBufferfillPercent (lastBandwidth bandwidths l)
        (curDownloadSpeed i.throughputTrace)]? = some (lastBandwidth bandwidths (call bandwidths l i)) := by
  obtain ⟨last, hlast⟩ := Option.isSome_iff_exists.1 hvalid
  have hlastBandwidth : lastBandwidth bandwidths l = last := by rw [lastBandwidth, hlast, Option.getD_some]
  obtain ⟨b, hb, -, -⟩ :=
    chosenIndex_spec hne i.currentSegmentBufferfillPercent last (curDownloadSpeed i.throughputTrace)
  have hget : getRepresentation bandwidths (receive l i) = _ := getRepresentation_eq hlast hb
  have hat : at? bandwidths (call bandwidths l i).last_index = some b := by
    rw [call, hget, at?_natCast]
    exact hb
  rw [hlastBandwidth, lastBandwidth, hat, Option.getD_some]
  exact ⟨by rw [hget]; rfl, by rw [Valid, hat]; rfl, hb⟩

end Calls

/-! ## The direction -/

section Direction

variable {l : RateBufferBase}

theorem head_le {first b : UInt32} (hsorted : bandwidths.Pairwise (· ≤ ·)) (hfirst : bandwidths.head? = some first)
    (hb : b ∈ bandwidths) : first ≤ b := by
  cases bandwidths with
  | nil => exact absurd hb List.not_mem_nil
  | cons a rest =>
    obtain rfl := Option.some.inj hfirst
    rcases List.mem_cons.1 hb with rfl | hb
    · exact UInt32.le_refl _
    · exact (List.pairwise_cons.1 hsorted).1 b hb

theorem lastBandwidth_mem (hvalid : Valid bandwidths l) : lastBandwidth bandwidths l ∈ bandwidths := by
  obtain ⟨last, hlast⟩ := Option.isSome_iff_exists.1 hvalid
  rw [lastBandwidth, hlast, Option.getD_some]
  unfold at? at hlast
  split_ifs at hlast
  exact List.mem_of_getElem? hlast

/-- **One call goes in the right direction** exactly when it is rising. -/
theorem right_iff (hne : bandwidths ≠ []) (hsorted : bandwidths.Pairwise (· ≤ ·)) (hvalid : Valid bandwidths l)
    (i : Input) : Right bandwidths l i ↔ Rising bandwidths l i := by
  obtain ⟨hsome, -, hchosen⟩ := call_spec hne hvalid i
  obtain ⟨b, hb, hlow, hhigh⟩ := chosenIndex_spec hne i.currentSegmentBufferfillPercent (lastBandwidth bandwidths l)
    (curDownloadSpeed i.throughputTrace)
  obtain rfl := Option.some.inj (hchosen.symm.trans hb)
  rw [Right, and_iff_right hsome, Rising]
  by_cases h : Low i.currentSegmentBufferfillPercent
  · rw [if_pos h]
    refine iff_of_true ?_ (Or.inl h)
    rcases hlow h with hfirst | hlt
    · exact head_le hsorted hfirst (lastBandwidth_mem hvalid)
    · exact UInt32.le_of_lt hlt
  · rw [if_neg h, or_iff_right h]
    rcases hhigh h with ⟨hcand, hlt⟩ | ⟨hnone, hfirst⟩
    · exact iff_of_true (UInt32.le_of_lt hlt) (Or.inl hcand)
    · -- the lowest was chosen for want of a candidate
      rw [or_iff_right hnone, hfirst, Option.some.injEq]
      have hle := head_le hsorted hfirst (lastBandwidth_mem hvalid)
      constructor
      · intro hge
        exact UInt32.le_antisymm hle hge
      · intro heq
        rw [heq]
        exact UInt32.le_refl _

/-- with the buffer above the threshold, the bandwidths never decrease exactly when every call goes in the right
direction -/
theorem pairwise_iff (hne : bandwidths ≠ []) (hvalid : Valid bandwidths l) (inputs : List Input)
    (hhigh : ∀ i ∈ inputs, ¬ Low i.currentSegmentBufferfillPercent) :
    (lastBandwidth bandwidths l :: chosen bandwidths l inputs).Pairwise (· ≤ ·) ↔
      Machine.Along (call bandwidths) (Right bandwidths) l inputs := by
  have htrans : IsTrans UInt32 (· ≤ ·) := ⟨fun _ _ _ => UInt32.le_trans⟩
  rw [← List.isChain_iff_pairwise]
  induction inputs generalizing l with
  | nil => exact iff_of_true (by simp [chosen]) trivial
  | cons i is ih =>
    obtain ⟨hsome, hvalid', -⟩ := call_spec hne hvalid i
    have hi := hhigh i List.mem_cons_self
    have hright : Right bandwidths l i ↔
        lastBandwidth bandwidths l ≤ lastBandwidth bandwidths (call bandwidths l i) := by
      rw [Right, and_iff_right hsome, if_neg hi]
    rw [chosen, List.isChain_cons_cons, Machine.Along, hright]
    exact and_congr_right fun _ => ih hvalid' fun j hj => hhigh j (List.mem_cons_of_mem _ hj)

/-- **The direction.** Over every run from a valid last index, every call goes in the right direction exactly when every
call is rising, and while the buffer is above the threshold this means that the bandwidths never decrease. -/
theorem direction_iff (hne : bandwidths ≠ []) (hsorted : bandwidths.Pairwise (· ≤ ·)) (hvalid : Valid bandwidths l)
    (inputs : List Input) :
    (Machine.Along (call bandwidths) (Right bandwidths) l inputs ↔
        Machine.Along (call bandwidths) (Rising bandwidths) l inputs) ∧
      ((∀ i ∈ inputs, ¬ Low i.currentSegmentBufferfillPercent) →
        ((lastBandwidth bandwidths l :: chosen bandwidths l inputs).Pairwise (· ≤ ·) ↔
          Machine.Along (call bandwidths) (Rising bandwidths) l inputs)) := by
  have hstep : ∀ l i, Valid bandwidths l → Rising bandwidths l i → Valid bandwidths (call bandwidths l i) :=
    fun l i hl _ => (call_spec hne hl i).2.1
  have hrun := Machine.along_congr (call bandwidths) hstep (fun l i hl => right_iff hne hsorted hl i) hvalid inputs
  refine ⟨hrun, fun hhigh => ?_⟩
  rw [pairwise_iff hne hvalid inputs hhigh, hrun]

end Direction

/-- a logic whose last representation is the second -/
def atSecond : RateBufferBase := { Logic.construct with last_index := 1 }

theorem direction_up :
    Machine.Along (call [1000, 2000, 3000]) (Right [1000, 2000, 3000]) atSecond [⟨[⟨0, 8, 4, 4000⟩], 50⟩] ∧
      (lastBandwidth [1000, 2000, 3000] atSecond ::
        chosen [1000, 2000, 3000] atSecond [⟨[⟨0, 8, 4, 4000⟩], 50⟩]).Pairwise (· ≤ ·) := by
  have hrising : Machine.Along (call [1000, 2000, 3000]) (Rising [1000, 2000, 3000]) atSecond
      [⟨[⟨0, 8, 4, 4000⟩], 50⟩] := by
    decide +kernel
  have hvalid : Valid [1000, 2000, 3000] atSecond := by decide
  have h := direction_iff (by decide) (by decide) hvalid [⟨[⟨0, 8, 4, 4000⟩], 50⟩]
  exact ⟨h.1.2 hrising, (h.2 (by decide)).2 hrising⟩

/-- with the highest representation playing and the buffer half full, the lowest is chosen -/
theorem top_drops_to_lowest :
    ¬ Low 50 ∧ lastBandwidth [1000, 2000] atSecond = 2000 ∧
      lastBandwidth [1000, 2000] (call [1000, 2000] atSecond ⟨[⟨0, 8, 4, 4000⟩], 50⟩) = 1000 ∧
      ¬ Right [1000, 2000] atSecond ⟨[⟨0, 8, 4, 4000⟩], 50⟩ := by
  have hchosen : lastBandwidth [1000, 2000] (call [1000, 2000] atSecond ⟨[⟨0, 8, 4, 4000⟩], 50⟩) = 1000 := by
    decide +kernel
  refine ⟨by decide, by decide, hchosen, fun h => ?_⟩
  have hdirection := h.2
  rw [if_neg (by decide), hchosen] at hdirection
  exact absurd hdirection (by decide)

end RateBufferBase

end NdnDash.Adaptation
