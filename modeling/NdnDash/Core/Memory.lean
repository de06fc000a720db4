/-
A byte memory addressed by natural numbers: block writes (`memcpy` to it) and block reads (`memcpy` from it), over any
cell type. Bounds are the caller's: a model of a fixed array checks them before it writes or reads.
-/
import Mathlib.Tactic

namespace NdnDash.Memory

variable {α : Type}

/-- the memory after `xs` has been copied to address `off` -/
def write (m : ℕ → α) (off : ℕ) (xs : List α) : ℕ → α :=
  fun i => if off ≤ i then xs.getD (i - off) (m i) else m i

/-- the `n` cells from address `off` -/
def read (m : ℕ → α) (off n : ℕ) : List α := (List.range n).map fun k => m (off + k)

@[simp] theorem length_read (m : ℕ → α) (off n : ℕ) : (read m off n).length = n := by simp [read]

@[simp] theorem read_zero (m : ℕ → α) (off : ℕ) : read m off 0 = [] := rfl

theorem read_add (m : ℕ → α) (off a b : ℕ) : read m off (a + b) = read m off a ++ read m (off + a) b := by
  simp [read, List.range_add, Function.comp_def, add_assoc]

theorem read_congr {m m' : ℕ → α} {off n : ℕ} (h : ∀ i, off ≤ i → i < off + n → m i = m' i) :
    read m off n = read m' off n := by
  simp only [read, List.map_inj_left, List.mem_range]
  intro k hk
  exact h _ (by omega) (by omega)

theorem take_read (m : ℕ → α) (off n k : ℕ) : (read m off n).take k = read m off (min k n) := by
  rcases le_total k n with h | h
  · obtain ⟨d, rfl⟩ := Nat.exists_eq_add_of_le h
    rw [read_add, List.take_left' (length_read m off k), min_eq_left h]
  · rw [List.take_of_length_le (by simpa using h), min_eq_right h]

theorem drop_read (m : ℕ → α) (off n k : ℕ) (h : k ≤ n) : (read m off n).drop k = read m (off + k) (n - k) := by
  obtain ⟨d, rfl⟩ := Nat.exists_eq_add_of_le h
  rw [read_add, List.drop_left' (length_read m off k), Nat.add_sub_cancel_left]

theorem write_of_lt (m : ℕ → α) (off : ℕ) (xs : List α) {i : ℕ} (h : i < off) : write m off xs i = m i := by
  rw [write, if_neg (by omega)]

theorem write_of_ge (m : ℕ → α) (off : ℕ) (xs : List α) {i : ℕ} (h : off + xs.length ≤ i) : write m off xs i = m i := by
  unfold write
  split_ifs
  · rw [List.getD_eq_getElem?_getD, List.getElem?_eq_none (by omega), Option.getD_none]
  · rfl

@[simp] theorem write_nil (m : ℕ → α) (off : ℕ) : write m off [] = m := by
  funext i
  exact (Nat.lt_or_ge i off).elim (write_of_lt m off []) (write_of_ge m off [])

/-- a written cell -/
theorem write_getElem (m : ℕ → α) (off : ℕ) (xs : List α) {i : ℕ} (h : i < xs.length) :
    write m off xs (off + i) = xs[i] := by
  rw [write, if_pos (Nat.le_add_right _ _), Nat.add_sub_cancel_left, List.getD_eq_getElem?_getD,
    List.getElem?_eq_getElem h, Option.getD_some]

/-- a memory that shows the block at 0 and is otherwise unchanged -/
theorem eq_write {m m' : ℕ → α} {xs : List α} (hread : read m' 0 xs.length = xs)
    (hrest : ∀ i, xs.length ≤ i → m' i = m i) : m' = write m 0 xs := by
  funext i
  rcases Nat.lt_or_ge i xs.length with h | h
  · have hwritten := write_getElem m 0 xs h
    have hcell : (read m' 0 xs.length)[i]? = xs[i]? := by rw [hread]
    rw [List.getElem?_eq_getElem h] at hcell
    rw [zero_add] at hwritten
    rw [hwritten]
    simpa [read, h] using hcell
  · rw [hrest i h, write_of_ge m 0 xs (by omega)]

/-- what was just written is read back -/
theorem read_write (m : ℕ → α) (off : ℕ) (xs : List α) : read (write m off xs) off xs.length = xs := by
  apply List.ext_getElem
  · simp
  · intro i h1 h2
    simp only [read, List.getElem_map, List.getElem_range, write]
    rw [if_pos (by omega), Nat.add_sub_cancel_left, List.getD_eq_getElem?_getD, List.getElem?_eq_getElem h2]
    rfl

/-- cells below the written block keep their values -/
theorem read_write_before (m : ℕ → α) (off : ℕ) (xs : List α) {off' n : ℕ} (h : off' + n ≤ off) :
    read (write m off xs) off' n = read m off' n :=
  read_congr fun _ _ hi => write_of_lt m off xs (by omega)

/-- appending a block behind the cells read so far appends to what is read -/
theorem read_write_append (m : ℕ → α) (off n : ℕ) (xs : List α) :
    read (write m (off + n) xs) off (n + xs.length) = read m off n ++ xs := by
  rw [read_add, read_write, read_write_before m _ xs le_rfl]

end NdnDash.Memory
