/-
The start times that a `SegmentTimeline` stands for, against those that `CalculateSegmentStartTimes` computes
(`SegmentTemplateStream.cpp`). A start time of 0 stands for an absent one, as `Timeline` has it.

- `startTimes_iff`: one `S` element, the next time expected at `next`.
- `calculateSegmentStartTimes_iff`: the computed times are those expected exactly when every `S` element without a start
  time is not repeated and expected at 0, and every time is below 2^32.
-/
import NdnDash.Core.Pieces
import NdnDash.Mpd.RepresentationStream

namespace NdnDash.Mpd

/-! ## What a timeline stands for -/

namespace Timeline

/-- where the element starts: at its own time, else where the one before it ends -/
def start (next : ℕ) (s : Timeline) : ℕ := if s.startTime = 0 then next else s.startTime.toNat

/-- its segments, one more than it is repeated -/
def expectedTimes (next : ℕ) (s : Timeline) : List ℕ :=
  (List.range (s.repeatCount.toNat + 1)).map fun j => s.start next + s.duration.toNat * j

/-- where it ends -/
def stop (next : ℕ) (s : Timeline) : ℕ := s.start next + s.duration.toNat * (s.repeatCount.toNat + 1)

/-- an element the code expands: it has a start time or needs none, and its times fit -/
def Explicit (next : ℕ) (s : Timeline) : Prop :=
  (s.startTime = 0 → s.repeatCount = 0 ∧ next = 0) ∧ s.start next + s.duration.toNat * s.repeatCount.toNat < 2 ^ 32

end Timeline

/-- the times of every element -/
def expectedPieces (next : ℕ) : List Timeline → List (List ℕ)
  | [] => []
  | s :: ss => s.expectedTimes next :: expectedPieces (s.stop next) ss

/-- the times of a timeline -/
def expectedStartTimes (timelines : List Timeline) : List ℕ := (expectedPieces 0 timelines).flatten

/-- every element is one the code expands -/
def AllExplicit (next : ℕ) : List Timeline → Prop
  | [] => True
  | s :: ss => s.Explicit next ∧ AllExplicit (s.stop next) ss

/-! ## What the code computes -/

section Times

variable {next : ℕ} {s : Timeline} {timelines : List Timeline}

/-- the repeated additions wrap unless the last one fits -/
theorem map_range_iff (t d r : UInt32) :
    (List.range (r.toNat + 1)).map (fun j => (t + d * UInt32.ofNat j).toNat) =
        (List.range (r.toNat + 1)).map (fun j => t.toNat + d.toNat * j) ↔
      t.toNat + d.toNat * r.toNat < 2 ^ 32 := by
  have hr := r.toNat_lt
  have hwrap : ∀ j, j ≤ r.toNat → (t + d * UInt32.ofNat j).toNat = (t.toNat + d.toNat * j) % 2 ^ 32 := by
    intro j hj
    rw [UInt32.toNat_add, UInt32.toNat_mul, UInt32.toNat_ofNat', Nat.mod_eq_of_lt (by omega : j < 2 ^ 32)]
    omega
  rw [List.map_inj_left]
  constructor
  · intro h
    have hlast := h r.toNat (List.mem_range.2 (Nat.lt_succ_self _))
    rw [hwrap _ le_rfl] at hlast
    omega
  · intro h j hj
    have hj' : j ≤ r.toNat := Nat.lt_succ_iff.1 (List.mem_range.1 hj)
    have hle : d.toNat * j ≤ d.toNat * r.toNat := Nat.mul_le_mul_left _ hj'
    rw [hwrap j hj', Nat.mod_eq_of_lt (by omega)]

theorem toNat_pos_iff (v : UInt32) : 0 < v ↔ v ≠ 0 := by
  rw [UInt32.lt_iff_toNat_lt, ← UInt32.toNat_inj.ne]
  exact Nat.pos_iff_ne_zero

/-- **One element.** -/
theorem startTimes_iff (next : ℕ) (s : Timeline) :
    s.startTimes.map (·.toNat) = s.expectedTimes next ↔ s.Explicit next := by
  unfold Timeline.startTimes Timeline.expectedTimes Timeline.Explicit Timeline.start
  by_cases hr : s.repeatCount = 0
  · rw [if_neg (by simp [hr]), hr]
    by_cases ht : s.startTime = 0
    · have hlt : (0 : ℕ) < 2 ^ 32 := by decide
      simp only [ht, if_true, true_imp_iff, true_and]
      simp
      omega
    · have hlt := s.startTime.toNat_lt
      simp only [ht, if_false, false_imp_iff, true_and]
      simp
      omega
  · rw [if_pos ((toNat_pos_iff _).2 hr)]
    by_cases ht : s.startTime = 0
    · rw [if_neg (by simp [ht])]
      simp [ht, hr]
    · rw [if_pos ((toNat_pos_iff _).2 ht), List.map_map, if_neg ht]
      simp only [ht, false_imp_iff, true_and]
      exact map_range_iff _ _ _

/-- the code adds no more times than expected -/
theorem length_startTimes_le (next : ℕ) (s : Timeline) :
    (s.startTimes.map (·.toNat)).length ≤ (s.expectedTimes next).length := by
  unfold Timeline.startTimes Timeline.expectedTimes
  split_ifs <;> simp

theorem forall₂_length (next : ℕ) (timelines : List Timeline) :
    List.Forall₂ (fun x y => x.length ≤ y.length) (timelines.map fun s => s.startTimes.map (·.toNat))
      (expectedPieces next timelines) := by
  induction timelines generalizing next with
  | nil => exact .nil
  | cons s ss ih => exact .cons (length_startTimes_le next s) (ih _)

theorem pieces_iff (next : ℕ) (timelines : List Timeline) :
    (timelines.map fun s => s.startTimes.map (·.toNat)) = expectedPieces next timelines ↔
      AllExplicit next timelines := by
  induction timelines generalizing next with
  | nil => exact iff_of_true rfl trivial
  | cons s ss ih => rw [List.map_cons, expectedPieces, List.cons.injEq, startTimes_iff, ih, AllExplicit]

theorem map_toNat_calculate {t : SegmentTemplate} (h : t.segmentTimeline = some timelines) :
    (calculateSegmentStartTimes t).map (·.toNat) = (timelines.map fun s => s.startTimes.map (·.toNat)).flatten := by
  rw [calculateSegmentStartTimes, h]
  simp [List.flatMap, List.map_flatten, Function.comp_def]

theorem length_calculate_le {t : SegmentTemplate} (h : t.segmentTimeline = some timelines) :
    (calculateSegmentStartTimes t).length ≤ (expectedStartTimes timelines).length := by
  rw [← List.length_map (f := fun time : UInt32 => time.toNat), map_toNat_calculate h]
  exact Pieces.length_flatten_le (forall₂_length 0 timelines)

/-- **The whole timeline.** The computed times are those expected exactly when every element is explicit. -/
theorem calculateSegmentStartTimes_iff {t : SegmentTemplate} (h : t.segmentTimeline = some timelines) :
    (calculateSegmentStartTimes t).map (·.toNat) = expectedStartTimes timelines ↔ AllExplicit 0 timelines := by
  rw [map_toNat_calculate h, expectedStartTimes, ← pieces_iff]
  constructor
  · exact Pieces.eq_of_flatten_eq (forall₂_length 0 timelines)
  · intro heq
    rw [heq]

end Times

end NdnDash.Mpd
