import Mathlib.Algebra.Order.Field.Rat
import Mathlib.Data.Rat.Defs

/-!
# The numbers of binary64

`value` is the number that a finite `Float` stands for, read off its bits.
-/

namespace Binary64

/-- The bits after the point. -/
def fraction (x : Float) : ℕ := x.toBits.toNat % 2 ^ 52

/-- The exponent as it is stored. -/
def exponent (x : Float) : ℕ := x.toBits.toNat / 2 ^ 52 % 2 ^ 11

/-- The digits; a subnormal number has no hidden one, and the exponent of the smallest normal
number. -/
def significand (x : Float) : ℕ :=
  if exponent x = 0 then 2 * fraction x else 2 ^ 52 + fraction x

def value (x : Float) : ℚ :=
  (if 2 ^ 63 ≤ x.toBits.toNat then -1 else 1) * (significand x * 2 ^ exponent x : ℕ)
    / (2 ^ 1075 : ℕ)

@[simp] theorem value_zero : value 0.0 = 0 := by decide +kernel

@[simp] theorem value_half : value 0.5 = 1 / 2 := by decide +kernel

@[simp] theorem value_one : value 1.0 = 1 := by decide +kernel

example : value (-2.75) = -11 / 4 := by decide +kernel

end Binary64
