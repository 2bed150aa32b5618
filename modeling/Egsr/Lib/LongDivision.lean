import Mathlib.Tactic.Ring

/-! Quotients of numbers developed bit by bit. The remainder may be doubled and an
even divisor halved in any order; each time a bit more is asked for, and a division
gives all of them at once. -/

namespace Egsr.Lib.LongDivision

/-- The quotient has the first bits after the point, and `shift` more are asked for. -/
def Developed (a b bits quo rem den shift : ℕ) : Prop :=
  ∃ k, b = den * 2 ^ k ∧ a * 2 ^ (bits + shift) = quo * 2 ^ shift * b + rem * 2 ^ k ∧
    rem < den * 2 ^ shift

variable {a b bits quo rem den shift n : ℕ}

theorem developed_start (hb : 0 < b) : Developed a b 0 (a / b) (a % b) b 0 := by
  refine ⟨0, (Nat.mul_one b).symm, ?_, ?_⟩
  · rw [Nat.add_zero, pow_zero, Nat.mul_one, Nat.mul_one, Nat.mul_one, Nat.mul_comm,
      Nat.div_add_mod]
  · rw [pow_zero, Nat.mul_one]
    exact Nat.mod_lt a hb

theorem Developed.double (h : Developed a b bits quo rem den shift) :
    Developed a b bits quo (rem * 2) den (shift + 1) := by
  obtain ⟨k, hb, ha, hrem⟩ := h
  refine ⟨k, hb, ?_, ?_⟩
  · calc a * 2 ^ (bits + (shift + 1)) = a * 2 ^ (bits + shift) * 2 := by ring
      _ = (quo * 2 ^ shift * b + rem * 2 ^ k) * 2 := by rw [ha]
      _ = quo * 2 ^ (shift + 1) * b + rem * 2 * 2 ^ k := by ring
  · rw [pow_succ, ← Nat.mul_assoc]
    exact Nat.mul_lt_mul_of_pos_right hrem Nat.two_pos

theorem Developed.halve (h : Developed a b bits quo rem den shift) (even : den % 2 = 0) :
    Developed a b bits quo rem (den / 2) (shift + 1) := by
  obtain ⟨k, hb, ha, hrem⟩ := h
  have hden : den = den / 2 * 2 := by omega
  refine ⟨k + 1, ?_, ?_, ?_⟩
  · rw [hb, pow_succ, Nat.mul_comm (2 ^ k), ← Nat.mul_assoc, ← hden]
  · calc a * 2 ^ (bits + (shift + 1)) = a * 2 ^ (bits + shift) * 2 := by ring
      _ = (quo * 2 ^ shift * b + rem * 2 ^ k) * 2 := by rw [ha]
      _ = quo * 2 ^ (shift + 1) * b + rem * 2 ^ (k + 1) := by ring
  · rwa [pow_succ, Nat.mul_comm (2 ^ shift), ← Nat.mul_assoc, ← hden]

theorem Developed.divide (h : Developed a b bits quo rem den shift) :
    Developed a b (bits + shift) (quo * 2 ^ shift + rem / den) (rem % den) den 0 := by
  obtain ⟨k, hb, ha, hrem⟩ := h
  have hden : 0 < den := Nat.pos_of_ne_zero fun zero => by simp [zero] at hrem
  refine ⟨k, hb, ?_, ?_⟩
  · calc a * 2 ^ (bits + shift + 0) = quo * 2 ^ shift * b + rem * 2 ^ k := ha
      _ = quo * 2 ^ shift * b + (den * (rem / den) + rem % den) * 2 ^ k := by rw [Nat.div_add_mod]
      _ = quo * 2 ^ shift * b + rem / den * (den * 2 ^ k) + rem % den * 2 ^ k := by ring
      _ = (quo * 2 ^ shift + rem / den) * 2 ^ 0 * b + rem % den * 2 ^ k := by rw [← hb]; ring
  · rw [pow_zero, Nat.mul_one]
    exact Nat.mod_lt rem hden

theorem Developed.rem_lt (h : Developed a b bits quo rem den 0) : rem < den := by
  obtain ⟨k, -, -, hrem⟩ := h
  rwa [pow_zero, Nat.mul_one] at hrem

theorem Developed.quo_mul_le (h : Developed a b bits quo rem den shift) : quo * b ≤
    a * 2 ^ bits := by
  obtain ⟨k, -, ha, -⟩ := h
  refine Nat.le_of_mul_le_mul_right ?_ (Nat.two_pow_pos shift)
  calc quo * b * 2 ^ shift = quo * 2 ^ shift * b := by ring
    _ ≤ quo * 2 ^ shift * b + rem * 2 ^ k := Nat.le_add_right _ _
    _ = a * 2 ^ bits * 2 ^ shift := by rw [← ha]; ring

theorem Developed.eq_div (h : Developed a b bits quo rem den 0) : quo = a * 2 ^ bits / b := by
  obtain ⟨k, hb, ha, hrem⟩ := h
  rw [pow_zero, Nat.mul_one] at ha hrem
  rw [Nat.add_zero] at ha
  symm
  rw [ha]
  apply Nat.div_eq_of_lt_le
  · exact Nat.le_add_right _ _
  · rw [Nat.succ_mul]
    apply Nat.add_lt_add_left
    rw [hb]
    exact Nat.mul_lt_mul_of_pos_right hrem (Nat.two_pow_pos k)

theorem Developed.eq_div_of_zero (h : Developed a b bits quo 0 den shift) (hb : 0 < b)
    (hn : bits ≤ n) : quo * 2 ^ (n - bits) = a * 2 ^ n / b := by
  obtain ⟨k, -, ha, -⟩ := h
  have exact : quo * b = a * 2 ^ bits := by
    refine Nat.eq_of_mul_eq_mul_right (Nat.two_pow_pos shift) ?_
    calc quo * b * 2 ^ shift = quo * 2 ^ shift * b + 0 * 2 ^ k := by ring
      _ = a * 2 ^ bits * 2 ^ shift := by rw [← ha]; ring
  symm
  apply Nat.div_eq_of_eq_mul_left hb
  calc
    a * 2 ^ n = a * 2 ^ bits * 2 ^ (n - bits) := by
      rw [Nat.mul_assoc, ← pow_add, Nat.add_sub_cancel' hn]
    _ = quo * 2 ^ (n - bits) * b := by rw [← exact]; ring

section Reciprocal

variable {r v e x k m : ℕ}

theorem mul_reciprocal_div (hv : 0 < v) (hr : r * v = n + e) (hx : x * e < n) : x * r / n =
    x / v := by
  have product : x * r * v = x * n + x * e := by rw [Nat.mul_assoc, hr, Nat.mul_add]
  apply Nat.div_eq_of_lt_le
  · refine Nat.le_of_mul_le_mul_right ?_ hv
    calc x / v * n * v = x / v * v * n := by ring
      _ ≤ x * n := Nat.mul_le_mul_right n (Nat.div_mul_le_self x v)
      _ ≤ x * r * v := by omega
  · refine Nat.lt_of_mul_lt_mul_right (a := v) ?_
    calc x * r * v < x * n + n := by omega
      _ = (x + 1) * n := by ring
      _ ≤ v * (x / v + 1) * n := Nat.mul_le_mul_right n (Nat.lt_mul_div_succ x hv)
      _ = (x / v + 1) * n * v := by ring

theorem multiple_mul_reciprocal_div (hr : r * v = m * m + e) (hk : k * e < m) : k * v * r / m =
    k * m := by
  have product : k * v * r = k * e + m * (k * m) := by
    calc k * v * r = k * (r * v) := by ring
      _ = k * e + m * (k * m) := by rw [hr]; ring
  have hm : 0 < m := (Nat.zero_le _).trans_lt hk
  rw [product, Nat.add_mul_div_left _ _ hm, Nat.div_eq_of_lt hk, Nat.zero_add]

end Reciprocal

end Egsr.Lib.LongDivision
