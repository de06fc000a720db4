/-
Model of `RateBaseAdaptation::GetRepresentation` (`RateBaseAdaptation.cpp`): the representation nearest to the prediction.

The least distance so far is kept in an `int`, so it is cut to a whole number, and it starts at 0x1FFFFFFF. The new
distance is compared before it is cut.

- `chosenIndex_first`: the chosen one is the first of those whose cut distance is least.
- `nearest_iff`: for all bandwidths and every prediction, it is nearest exactly when it is so among those with the same
  cut distance.
-/
import NdnDash.Adaptation.Logic
import NdnDash.Core.Search

namespace NdnDash.Adaptation.RateBase

open NdnDash.Search

/-! ## Model -/

/-- the distance of a bandwidth from the prediction -/
def distance (predictBandwidth : ℚ) (bandwidth : UInt32) : ℚ := |(bandwidth.toNat : ℚ) - predictBandwidth|

/-- the loop over the representations, on their bandwidths; no comparison with what is not a number holds -/
def chosenIndex (bandwidths : List UInt32) (predictBandwidth : Option ℚ) : ℕ :=
  match predictBandwidth with
  | none => 0
  | some p =>
    (search (fun bandwidth (minValue : ℤ) => distance p bandwidth < minValue) (fun bandwidth => ⌊distance p bandwidth⌋)
      bandwidths 0 (0, 0x1FFFFFFF)).1

/-- `GetRepresentation`: the index of the representation; `none` is the exception of `at` -/
def getRepresentation (bandwidths : List UInt32) (l : Logic) : Option (ℕ × Logic) :=
  let l := l.predict
  let index := chosenIndex bandwidths l.predictBandwidth
  (bandwidths[index]?).map fun _ => (index, l)

/-! ## What it is for -/

/-- no representation is nearer to the prediction -/
def Nearest (bandwidths : List UInt32) (p : ℚ) (index : ℕ) : Prop :=
  ∃ bandwidth, bandwidths[index]? = some bandwidth ∧ ∀ b ∈ bandwidths, distance p bandwidth ≤ distance p b

/-- the distance as the loop keeps it -/
def cut (p : ℚ) (bandwidth : UInt32) : ℤ := min ⌊distance p bandwidth⌋ 0x1FFFFFFF

/-- the first of those with the least cut distance -/
structure First (bandwidths : List UInt32) (p : ℚ) (index : ℕ) (bandwidth : UInt32) : Prop where
  get : bandwidths[index]? = some bandwidth
  least : ∀ b ∈ bandwidths, cut p bandwidth ≤ cut p b
  first : ∀ j b, j < index → bandwidths[j]? = some b → cut p bandwidth < cut p b

/-- the first of those with the least cut distance is the nearest of them -/
def FirstNearest (bandwidths : List UInt32) (p : ℚ) : Prop :=
  ∀ index bandwidth, First bandwidths p index bandwidth →
    ∀ b ∈ bandwidths, cut p b = cut p bandwidth → distance p bandwidth ≤ distance p b

/-! ## The choice -/

variable {bandwidths : List UInt32} {p : ℚ}

theorem First.unique {i j : ℕ} {b c : UInt32} (hi : First bandwidths p i b) (hj : First bandwidths p j c) : i = j := by
  rcases Nat.lt_trichotomy i j with h | h | h
  · exact absurd (hj.first i b h hi.get) (not_lt.2 (hi.least c (List.mem_of_getElem? hj.get)))
  · exact h
  · exact absurd (hi.first j c h hj.get) (not_lt.2 (hj.least b (List.mem_of_getElem? hi.get)))

/-- **The choice.** It is the first of those with the least cut distance. -/
theorem chosenIndex_first (hne : bandwidths ≠ []) (p : ℚ) :
    ∃ bandwidth, First bandwidths p (chosenIndex bandwidths (some p)) bandwidth := by
  have hfound : Found (fun _ => True) (fun b => ⌊distance p b⌋) (0, 0x1FFFFFFF) bandwidths
      (search (fun b (m : ℤ) => distance p b < m) (fun b => ⌊distance p b⌋) bandwidths 0 (0, 0x1FFFFFFF)) :=
    search_found (fun b m => by rw [Int.floor_lt, true_and]) _ _
  change ∃ bandwidth, First bandwidths p
    (search (fun b (m : ℤ) => distance p b < m) (fun b => ⌊distance p b⌋) bandwidths 0 (0, 0x1FFFFFFF)).1 bandwidth
  generalize search (fun b (m : ℤ) => distance p b < m) (fun b => ⌊distance p b⌋) bandwidths 0 (0, 0x1FFFFFFF) =
    best at hfound ⊢
  cases hfound with
  | nothing hall =>
    -- every distance is cut to the initial one
    have hcut : ∀ b ∈ bandwidths, cut p b = 0x1FFFFFFF := fun b hb => min_eq_right (hall b hb trivial)
    obtain ⟨bandwidth, rest, rfl⟩ := List.exists_cons_of_ne_nil hne
    refine ⟨bandwidth, rfl, ?_, ?_⟩
    · intro b hb
      rw [hcut bandwidth List.mem_cons_self, hcut b hb]
    · intro j b hj
      exact absurd hj (Nat.not_lt_zero j)
  | least i b hget _ hlt hleast hfirst =>
    have hb : cut p b = ⌊distance p b⌋ := min_eq_left hlt.le
    refine ⟨b, hget, ?_, ?_⟩
    · intro c hc
      rw [hb]
      exact le_min (hleast c hc trivial) hlt.le
    · intro j c hj hgetj
      rw [hb]
      exact lt_min (hfirst j c hj hgetj trivial) hlt

theorem distance_lt_of_cut_lt {b c : UInt32} (h : cut p b < cut p c) : distance p b < distance p c := by
  have hfloor : ⌊distance p b⌋ < ⌊distance p c⌋ := by
    rcases min_lt_iff.1 h with hb | hb
    · exact hb.trans_le (min_le_left _ _)
    · exact absurd (hb.trans_le (min_le_right _ _)) (lt_irrefl _)
  exact (Int.floor_lt.1 hfloor).trans_le (Int.floor_le _)

theorem getRepresentation_eq (hne : bandwidths ≠ []) (l : Logic) :
    getRepresentation bandwidths l = some (chosenIndex bandwidths l.predict.predictBandwidth, l.predict) := by
  have hget : ∃ b, bandwidths[chosenIndex bandwidths l.predict.predictBandwidth]? = some b := by
    cases l.predict.predictBandwidth with
    | none =>
      obtain ⟨b, rest, rfl⟩ := List.exists_cons_of_ne_nil hne
      exact ⟨b, rfl⟩
    | some p =>
      obtain ⟨b, hfirst⟩ := chosenIndex_first hne p
      exact ⟨b, hfirst.get⟩
  obtain ⟨b, hb⟩ := hget
  simp only [getRepresentation, hb, Option.map_some]

/-- **The nearest representation.** For all bandwidths and every prediction, the chosen one is nearest exactly when the
first of those with the least cut distance is the nearest of them. -/
theorem nearest_iff (hne : bandwidths ≠ []) (p : ℚ) :
    Nearest bandwidths p (chosenIndex bandwidths (some p)) ↔ FirstNearest bandwidths p := by
  obtain ⟨bandwidth, hfirst⟩ := chosenIndex_first hne p
  constructor
  · intro h index b hb c hc _
    obtain ⟨b', hget, hnearest⟩ := h
    obtain rfl := hb.unique hfirst
    rw [hb.get, Option.some.injEq] at hget
    rw [hget]
    exact hnearest c hc
  · intro h
    refine ⟨bandwidth, hfirst.get, fun c hc => ?_⟩
    rcases (hfirst.least c hc).lt_or_eq with hlt | heq
    · exact (distance_lt_of_cut_lt hlt).le
    · exact h _ _ hfirst c hc heq.symm

/-- equal cut distances of integers are equal distances -/
theorem firstNearest_two : FirstNearest [1000, 2000] 1600 := by
  intro index bandwidth hb c hc hcut
  have hmem := List.mem_of_getElem? hb.get
  simp only [List.mem_cons, List.not_mem_nil, or_false] at hmem hc
  have hapart : cut 1600 1000 ≠ cut 1600 2000 := by decide +kernel
  rcases hmem with rfl | rfl
  · rcases hc with rfl | rfl
    · exact le_rfl
    · exact absurd hcut.symm hapart
  · rcases hc with rfl | rfl
    · exact absurd hcut hapart
    · exact le_rfl

theorem nearest_two : Nearest [1000, 2000] 1600 (chosenIndex [1000, 2000] (some 1600)) :=
  (nearest_iff (by decide) 1600).2 firstNearest_two

/-- with rates of one and two megabits the prediction is a third of a bit above the second bandwidth and two thirds below
the first; with both distances cut to 0 the first is chosen -/
theorem nearest_cut :
    Logic.predictOf [⟨0, 8, 1000, 1000000⟩, ⟨0, 8, 2000, 2000000⟩] = some (4000000 / 3) ∧
      ¬ Nearest [1333334, 1333333] (4000000 / 3) (chosenIndex [1333334, 1333333] (some (4000000 / 3))) := by
  have hindex : chosenIndex [1333334, 1333333] (some (4000000 / 3)) = 0 := by decide +kernel
  refine ⟨by decide +kernel, fun h => ?_⟩
  obtain ⟨b, hget, hnearest⟩ := h
  rw [hindex] at hget
  obtain rfl : (1333334 : UInt32) = b := Option.some.inj hget
  exact absurd (hnearest 1333333 (by decide)) (by decide +kernel)

end NdnDash.Adaptation.RateBase
