import Mathlib.Tactic.Linarith
import Mathlib.Tactic.Positivity
import Mathlib.Tactic.Ring

/-! Newton's method for one over the square root of a count. A step never
leaves more than the value, and never less than it had if it had no more. -/

namespace Egsr.Lib.InverseSqrt

variable {K : Type*} [Field K] [LinearOrder K] [IsStrictOrderedRing K]

def newtonStep (count x : K) : K := x * (3 - count * x ^ 2) / 2

variable {count x y : K}

theorem mul_sq_newtonStep (count x : K) :
    4 * (1 - count * newtonStep count x ^ 2) = (4 - count * x ^ 2) * (count * x ^ 2 - 1) ^ 2 := by
  rw [newtonStep]
  ring

theorem newtonStep_le (h : count * x ^ 2 ≤ 4) : count * newtonStep count x ^ 2 ≤ 1 := by
  have hprod := mul_nonneg (sub_nonneg.mpr h) (sq_nonneg (count * x ^ 2 - 1))
  rw [← mul_sq_newtonStep] at hprod
  linarith

theorem truncated_le (hcount : 0 ≤ count) (h : count * x ^ 2 ≤ 4) (hy : 0 ≤ y)
    (hle : y ≤ newtonStep count x) : count * y ^ 2 ≤ 1 :=
  (mul_le_mul_of_nonneg_left (pow_le_pow_left₀ hy hle 2) hcount).trans (newtonStep_le h)

end Egsr.Lib.InverseSqrt
