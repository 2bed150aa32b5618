import Mathlib.Data.Nat.Bitwise

/-! Fields of bits in numbers. A mask cuts a field out, and fields that do not
overlap add up. -/

namespace Egsr.Lib.BitFields

theorem and_low (x k : ℕ) : x &&& (2 ^ k - 1) = x % 2 ^ k := Nat.and_two_pow_sub_one_eq_mod x k

theorem and_field (x k j : ℕ) : x &&& (2 ^ k - 1) * 2 ^ j = x / 2 ^ j % 2 ^ k * 2 ^ j := by
  apply Nat.eq_of_testBit_eq
  intro i
  rw [Nat.testBit_and, Nat.testBit_mul_two_pow, Nat.testBit_mul_two_pow,
    Nat.testBit_two_pow_sub_one, Nat.testBit_mod_two_pow, Nat.testBit_div_two_pow]
  by_cases hj : j ≤ i
  · rw [Nat.sub_add_cancel hj, Bool.and_comm, Bool.and_assoc]
  · simp [hj]

theorem field_shiftRight (x k j : ℕ) : (x &&& (2 ^ k - 1) * 2 ^ j) >>> j = x / 2 ^ j % 2 ^ k := by
  rw [and_field, Nat.shiftRight_eq_div_pow, Nat.mul_div_cancel _ (Nat.two_pow_pos j)]

theorem shiftLeft_field (x k j : ℕ) : x <<< j &&& (2 ^ k - 1) * 2 ^ j = x % 2 ^ k * 2 ^ j := by
  rw [and_field, Nat.shiftLeft_eq, Nat.mul_div_cancel _ (Nat.two_pow_pos j)]

theorem shiftRight_low (x j k : ℕ) : x >>> j &&& (2 ^ k - 1) = x / 2 ^ j % 2 ^ k := by
  rw [and_low, Nat.shiftRight_eq_div_pow]

theorem low_shiftLeft (x k j : ℕ) : (x &&& (2 ^ k - 1)) <<< j = x % 2 ^ k * 2 ^ j := by
  rw [and_low, Nat.shiftLeft_eq]

theorem or_below {x y : ℕ} (j : ℕ) (hx : 2 ^ j ∣ x) (hy : y < 2 ^ j) : x ||| y = x + y := by
  obtain ⟨a, rfl⟩ := hx
  exact (Nat.two_pow_add_eq_or_of_lt hy a).symm

theorem field_eq {n high field low : ℕ} (j k : ℕ) (h : n = high * 2 ^ (j + k) + field * 2 ^ j + low)
    (hfield : field < 2 ^ k) (hlow : low < 2 ^ j) : n / 2 ^ j % 2 ^ k = field := by
  have hsplit : n = 2 ^ j * (high * 2 ^ k + field) + low := by
    rw [h, Nat.pow_add, Nat.mul_add, Nat.mul_comm field, Nat.mul_left_comm]
  rw [hsplit, Nat.mul_add_div (Nat.two_pow_pos j), Nat.div_eq_of_lt hlow, Nat.add_zero,
    Nat.mul_comm, Nat.mul_add_mod, Nat.mod_eq_of_lt hfield]

theorem or_and_self (x y : ℕ) : x ||| (x &&& y) = x := by
  apply Nat.eq_of_testBit_eq
  intro i
  rw [Nat.testBit_or, Nat.testBit_and]
  cases x.testBit i <;> cases y.testBit i <;> rfl

end Egsr.Lib.BitFields
