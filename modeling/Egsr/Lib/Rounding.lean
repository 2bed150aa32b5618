import Mathlib.Algebra.Order.Floor.Ring

/-! Rounding to the nearest of a set of values. What a nearest value is decides how rounding
behaves: values of the set stay as they are, and the order of two numbers is not turned round. -/

namespace Egsr.Lib.Rounding

variable {α : Type*} [Field α] [LinearOrder α] [IsStrictOrderedRing α]

/-- `y` is one of the values, and none of them is closer to `x`. -/
structure Nearest (values : Set α) (x y : α) : Prop where
  mem : y ∈ values
  least : ∀ z ∈ values, |x - y| ≤ |x - z|

variable {values : Set α} {x x' y y' lo hi : α}

theorem Nearest.eq_of_mem (h : Nearest values x y) (hx : x ∈ values) : y = x := by
  have hle := h.least x hx
  rw [sub_self, abs_zero] at hle
  exact (sub_eq_zero.mp (abs_nonpos_iff.mp hle)).symm

theorem Nearest.mono (h : Nearest values x y) (h' : Nearest values x' y') (lt : x < x') : y ≤
    y' := by
  by_contra hgt
  have near := h.least y' h'.mem
  have near' := h'.least y h.mem
  rw [← sq_le_sq] at near near'
  nlinarith [mul_pos (sub_pos.mpr (not_le.mp hgt)) (sub_pos.mpr lt)]

theorem nearest_of_bounds (mem : y ∈ values) (hlo : lo ≤ x) (hhi : x ≤ hi)
    (nearLo : |x - y| ≤ |x - lo|)
    (nearHi : |x - y| ≤ |x - hi|) (between : ∀ z ∈ values, lo < z → z < hi → |x - y| ≤ |x - z|) :
    Nearest values x y := by
  refine ⟨mem, fun z hz => ?_⟩
  by_cases below : z ≤ lo
  · refine nearLo.trans ?_
    rw [abs_of_nonneg (sub_nonneg.mpr hlo), abs_of_nonneg (sub_nonneg.mpr (below.trans hlo))]
    exact sub_le_sub_left below x
  · by_cases above : hi ≤ z
    · refine nearHi.trans ?_
      rw [abs_of_nonpos (sub_nonpos.mpr hhi), abs_of_nonpos (sub_nonpos.mpr (hhi.trans above))]
      exact neg_le_neg (sub_le_sub_left above x)
    · exact between z hz (not_le.mp below) (not_le.mp above)

variable [FloorRing α]

theorem abs_sub_ceil_half (t : α) : |t - ⌈t - 1 / 2⌉| ≤ 1 / 2 := by
  have upper := Int.ceil_lt_add_one (t - 1 / 2)
  have lower := Int.le_ceil (t - 1 / 2)
  rw [abs_le]
  constructor <;> linarith

theorem abs_sub_ceil_half_le (t : α) (k : ℤ) : |t - ⌈t - 1 / 2⌉| ≤ |t - k| := by
  have half := abs_le.mp (abs_sub_ceil_half t)
  rcases lt_trichotomy k ⌈t - 1 / 2⌉ with below | same | above
  · have apart : (k : α) + 1 ≤ ⌈t - 1 / 2⌉ := by exact_mod_cast below
    refine (abs_sub_ceil_half t).trans (le_trans ?_ (le_abs_self _))
    linarith
  · rw [same]
  · have apart : (⌈t - 1 / 2⌉ : α) + 1 ≤ k := by exact_mod_cast above
    refine (abs_sub_ceil_half t).trans (le_trans ?_ (neg_le_abs _))
    linarith

end Egsr.Lib.Rounding
