/-
A sliding window, over any element type: a queue that is pushed at the back and loses its front when it grows beyond its
capacity.

- `push_rtake`: if it holds the last elements of a list, it does so after a push too.
-/
import Mathlib.Data.List.DropRight
import Mathlib.Tactic

namespace NdnDash.Window

variable {α : Type} {capacity : ℕ}

/-- push at the back, then drop the front if there are too many -/
def push (capacity : ℕ) (xs : List α) (x : α) : List α :=
  if capacity < (xs ++ [x]).length then (xs ++ [x]).tail else xs ++ [x]

theorem length_rtake (xs : List α) (n : ℕ) : (xs.rtake n).length = min n xs.length := by
  rw [List.rtake, List.length_drop]
  omega

/-- **The window.** A push keeps it at the last elements. -/
theorem push_rtake (xs : List α) (x : α) : push capacity (xs.rtake capacity) x = (xs ++ [x]).rtake capacity := by
  have hlength := length_rtake xs capacity
  have hle : xs.length - capacity ≤ xs.length := Nat.sub_le _ _
  have happend : xs.rtake capacity ++ [x] = (xs ++ [x]).drop (xs.length - capacity) := by
    rw [List.drop_append_of_le_length hle, List.rtake]
  rw [push, happend, List.length_drop, List.rtake, List.length_append, List.length_singleton]
  split_ifs with h
  · rw [List.tail_drop]
    congr 1
    omega
  · congr 1
    omega

end NdnDash.Window
