/-
What the adaptation logics have in common: the members the manager writes (`MultimediaManager.cpp`,
`UpdateThroughputTraceAdaptationParameter`) and the predicted bandwidth that three of them compute in the same loop.

Doubles are exact rationals; an absent value is one that is not a number. A reciprocal of zero is infinite, and so is a
sum with one; the quotient by it is 0.

- `Holds.update`: the trace stays the last ones measured, at most five.
- `reciprocalSum_eq_none_iff`: a reciprocal of zero is taken exactly when a rate is 0.
- `predict_bounds`: the prediction then lies between the least and the greatest rate.
-/
import NdnDash.Core.Mean
import NdnDash.Core.Window
import NdnDash.Player.Throughput

namespace NdnDash.Adaptation

open NdnDash.Player (ThroughputTrace)

/-! ## Model -/

/-- the public members of the logics that the manager writes, and the prediction -/
structure Logic where
  currentSegmentBufferfillPercent : UInt32
  throughputTraceMaxCapacity : UInt32
  throughputTrace : List ThroughputTrace
  predictBandwidth : Option ℚ
deriving DecidableEq

/-- the functions of the C library whose values are not rational in general -/
structure Libm where
  pow : ℚ → ℚ → ℚ
  exp : ℚ → ℚ
  sqrt : ℚ → ℚ

/-- roots that are exact where they are rational; the other functions do not matter -/
def Libm.roots : Libm where
  pow := fun _ _ => 1
  exp := fun _ => 1
  sqrt := Rat.sqrt

/-- `vector::at` with an `int` -/
def at? {α : Type} (xs : List α) (i : ℤ) : Option α := if 0 ≤ i then xs[i.toNat]? else none

theorem at?_natCast {α : Type} (xs : List α) (i : ℕ) : at? xs (i : ℤ) = xs[i]? := by
  rw [at?, if_pos (Int.natCast_nonneg i), Int.toNat_natCast]

theorem at?_of_lt {α : Type} {xs : List α} {i : ℕ} (h : i < xs.length) : at? xs (i : ℤ) = some xs[i] := by
  rw [at?_natCast, List.getElem?_eq_getElem h]

/-- an index that does not throw is one of an element -/
theorem exists_of_at? {α : Type} {xs : List α} {i : ℤ} {x : α} (h : at? xs i = some x) : ∃ j < xs.length, i = (j : ℤ) := by
  unfold at? at h
  split_ifs at h with hi
  exact ⟨i.toNat, (List.getElem?_eq_some_iff.1 h).1, (Int.toNat_of_nonneg hi).symm⟩

namespace Logic

/-- what the constructors set; `THROUGHPUTTRACE_SIZE` is 5 -/
def construct : Logic where
  currentSegmentBufferfillPercent := 0
  throughputTraceMaxCapacity := 5
  throughputTrace := []
  predictBandwidth := none

/-- `UpdateThroughputTraceAdaptationParameter`, the same in its four branches -/
def update (l : Logic) (videoBufferFillPercent : UInt32) (currentThroughput : ThroughputTrace) : Logic :=
  { l with
    currentSegmentBufferfillPercent := videoBufferFillPercent
    throughputTrace := Window.push l.throughputTraceMaxCapacity.toNat l.throughputTrace currentThroughput }

/-- the reciprocals of the rates added up; `none` is infinite -/
def reciprocalSum : List ThroughputTrace → Option ℚ
  | [] => some 0
  | t :: ts => if t.bitRate = 0 then none else (reciprocalSum ts).map (1 / t.bitRate.toNat + ·)

/-- the prediction of `RateBaseAdaptation`, `QoeFairAdaptation` and `GameAdaptation`; `none` is 0 / 0 -/
def predictOf (throughputTrace : List ThroughputTrace) : Option ℚ :=
  match reciprocalSum throughputTrace with
  | none => some 0
  | some sum => if sum = 0 then none else some (throughputTrace.length / sum)

def predict (l : Logic) : Logic := { l with predictBandwidth := predictOf l.throughputTrace }

/-! ## The trace -/

section Trace

variable {l : Logic}

@[simp] theorem update_trace (l : Logic) (percent : UInt32) (t : ThroughputTrace) :
    (l.update percent t).throughputTrace =
      Window.push l.throughputTraceMaxCapacity.toNat l.throughputTrace t := rfl

/-- the window of a logic: the last traces of those measured, at most five -/
structure Holds (l : Logic) (measured : List ThroughputTrace) : Prop where
  capacity : l.throughputTraceMaxCapacity = 5
  trace : l.throughputTrace = measured.rtake 5

theorem holds_construct : construct.Holds [] := ⟨rfl, rfl⟩

theorem Holds.update {measured : List ThroughputTrace} (h : l.Holds measured) (percent : UInt32) (t : ThroughputTrace) :
    (l.update percent t).Holds (measured ++ [t]) := by
  refine ⟨h.capacity, ?_⟩
  rw [update_trace, h.capacity, h.trace]
  exact Window.push_rtake measured t

theorem Holds.predict {measured : List ThroughputTrace} (h : l.Holds measured) : l.predict.Holds measured :=
  ⟨h.capacity, h.trace⟩

end Trace

/-! ## The prediction -/

section Prediction

variable {ts : List ThroughputTrace}

theorem reciprocalSum_eq (h : ∀ t ∈ ts, t.bitRate ≠ 0) :
    reciprocalSum ts = some (Mean.reciprocals (ts.map fun t => (t.bitRate.toNat : ℚ))) := by
  induction ts with
  | nil => rfl
  | cons t ts ih =>
    have ht := h t List.mem_cons_self
    rw [reciprocalSum, if_neg ht, ih fun t' ht' => h t' (List.mem_cons_of_mem _ ht'), Option.map_some]
    rfl

/-- a reciprocal of zero makes the sum infinite -/
theorem reciprocalSum_eq_none_iff : reciprocalSum ts = none ↔ ∃ t ∈ ts, t.bitRate = 0 := by
  induction ts with
  | nil => exact iff_of_false (by simp [reciprocalSum]) (by simp)
  | cons t ts ih =>
    rw [reciprocalSum, List.exists_mem_cons_iff]
    split_ifs with h
    · exact iff_of_true rfl (Or.inl h)
    · rw [Option.map_eq_none_iff, ih, or_iff_right h]

/-- **The prediction.** It is the harmonic mean of the rates, so it lies between the least and the greatest. -/
theorem predict_bounds (hne : ts ≠ []) (h : ∀ t ∈ ts, t.bitRate ≠ 0) :
    ∃ p, predictOf ts = some p ∧ ∃ lo ∈ ts, ∃ hi ∈ ts, (∀ t ∈ ts, lo.bitRate ≤ t.bitRate ∧ t.bitRate ≤ hi.bitRate) ∧
      (lo.bitRate.toNat : ℚ) ≤ p ∧ p ≤ hi.bitRate.toNat := by
  set rates := ts.map fun t => (t.bitRate.toNat : ℚ) with hdef
  have hrates : rates ≠ [] := by simpa [hdef] using hne
  have hpos : ∀ x ∈ rates, 0 < x := by
    intro x hx
    obtain ⟨t, ht, rfl⟩ := List.mem_map.1 hx
    exact_mod_cast Nat.pos_of_ne_zero fun h0 => h t ht (UInt32.toNat_inj.1 h0)
  have hsum := Mean.reciprocals_pos hrates hpos
  have hlength : ((rates.length : ℕ) : ℚ) = ts.length := by rw [List.length_map]
  obtain ⟨lo, hlo, hi, hhi, hbounds⟩ := Mean.exists_bounds hrates
  obtain ⟨tlo, htlo, rfl⟩ := List.mem_map.1 hlo
  obtain ⟨thi, hthi, rfl⟩ := List.mem_map.1 hhi
  refine ⟨ts.length / Mean.reciprocals rates, ?_, tlo, htlo, thi, hthi, ?_, ?_, ?_⟩
  · simp only [predictOf, reciprocalSum_eq h]
    exact if_neg hsum.ne'
  · intro t ht
    obtain ⟨h1, h2⟩ := hbounds _ (List.mem_map_of_mem ht)
    exact ⟨UInt32.le_iff_toNat_le.2 (by exact_mod_cast h1), UInt32.le_iff_toNat_le.2 (by exact_mod_cast h2)⟩
  · rw [← hlength]
    exact Mean.le_harmonic hrates (hpos _ hlo) fun x hx => (hbounds x hx).1
  · rw [← hlength]
    exact Mean.harmonic_le hrates hpos fun x hx => (hbounds x hx).2

end Prediction

end Logic

end NdnDash.Adaptation
