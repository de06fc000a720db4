/-
Floating-point numbers without rounding: exact rationals, the two infinities, and what is not a number. There is one
zero, which counts as positive where it is divided by.
-/
import Mathlib.Tactic

namespace NdnDash

inductive Double
  | nan
  | inf (negative : Bool)
  | finite (x : ℚ)
deriving DecidableEq

namespace Double

def negative (x : ℚ) : Bool := decide (x < 0)

def neg : Double → Double
  | nan => nan
  | inf n => inf (!n)
  | finite x => finite (-x)

def add : Double → Double → Double
  | finite x, finite y => finite (x + y)
  | inf n, finite _ => inf n
  | finite _, inf n => inf n
  | inf n, inf n' => if n = n' then inf n else nan
  | nan, _ => nan
  | _, nan => nan

def mul : Double → Double → Double
  | finite x, finite y => finite (x * y)
  | inf n, finite y => if y = 0 then nan else inf (n ^^ negative y)
  | finite x, inf n => if x = 0 then nan else inf (negative x ^^ n)
  | inf n, inf n' => inf (n ^^ n')
  | nan, _ => nan
  | _, nan => nan

def div : Double → Double → Double
  | finite x, finite y => if y = 0 then if x = 0 then nan else inf (negative x) else finite (x / y)
  | inf n, finite y => inf (n ^^ negative y)
  | finite _, inf _ => finite 0
  | inf _, inf _ => nan
  | nan, _ => nan
  | _, nan => nan

instance : Neg Double := ⟨neg⟩
instance : Add Double := ⟨add⟩
instance : Sub Double := ⟨fun x y => x + -y⟩
instance : Mul Double := ⟨mul⟩
instance : Div Double := ⟨div⟩
instance : Coe ℚ Double := ⟨finite⟩
instance (n : ℕ) : OfNat Double n := ⟨finite n⟩
instance : OfScientific Double := ⟨fun mantissa sign exponent => finite (OfScientific.ofScientific mantissa sign exponent)⟩

/-- no comparison with what is not a number holds -/
def lt : Double → Double → Bool
  | finite x, finite y => decide (x < y)
  | inf n, finite _ => n
  | finite _, inf n => !n
  | inf n, inf n' => n && !n'
  | nan, _ => false
  | _, nan => false

instance : LT Double := ⟨fun x y => lt x y = true⟩

instance (x y : Double) : Decidable (x < y) := inferInstanceAs (Decidable (lt x y = true))

def abs : Double → Double
  | nan => nan
  | inf _ => inf false
  | finite x => finite |x|

/-! ## Numbers -/

section Numbers

variable (x y : ℚ)

@[simp] theorem finite_add : (finite x + finite y : Double) = finite (x + y) := rfl

@[simp] theorem finite_mul : (finite x * finite y : Double) = finite (x * y) := rfl

@[simp] theorem nan_mul (x : Double) : nan * x = nan := by cases x <;> rfl

theorem inf_mul {y : ℚ} (n : Bool) (hy : 0 < y) : (inf n * finite y : Double) = inf n := by
  change (if y = 0 then nan else inf (n ^^ negative y)) = inf n
  rw [if_neg hy.ne', negative, decide_eq_false (not_lt.2 hy.le), Bool.xor_false]

@[simp] theorem mul_finite_one (x : Double) : x * finite 1 = x := by
  cases x with
  | nan => rfl
  | inf n => exact inf_mul n one_pos
  | finite x => rw [finite_mul, mul_one]

@[simp] theorem finite_lt : (finite x : Double) < finite y ↔ x < y := decide_eq_true_iff

@[simp] theorem finite_lt_inf (n : Bool) : (finite x : Double) < inf n ↔ n = false := by
  change (!n) = true ↔ n = false
  rw [Bool.not_eq_true']

@[simp] theorem inf_lt_finite (n : Bool) : (inf n : Double) < finite y ↔ n = true := Iff.rfl

@[simp] theorem not_lt_nan (x : Double) : ¬ x < nan := by cases x <;> exact Bool.false_ne_true

theorem finite_div {y : ℚ} (hy : y ≠ 0) : (finite x / finite y : Double) = finite (x / y) :=
  if_neg hy

end Numbers

end Double

end NdnDash
