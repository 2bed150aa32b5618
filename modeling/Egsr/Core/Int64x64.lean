import Egsr.Lib.BitFields
import Mathlib.Algebra.Order.Ring.Int
import Mathlib.Tactic.Ring

/-! Numbers of 64 integer and 64 fraction bits, kept in one number of 128 bits. A
product is put together from those of the halves. The test whether it is too large
uses a mask that has no bits. -/

namespace Egsr.Core.Int64x64

abbrev uint128_t := BitVec 128

inductive Fault where
  /-- The program is aborted because a product is too large. -/
  | overflow
  /-- An assertion fails. -/
  | assertion
  /-- The divisor is zero. -/
  | divisor
  /-- A loop goes on without getting a digit. -/
  | endless
deriving DecidableEq

def hP128_MASK_HI_BIT : uint128_t := 1 <<< 127

def hP_MASK_LO : BitVec 64 := 0xffffffffffffffff

/-- The complement is taken of 64 bits. -/
def hP_MASK_HI : BitVec 64 := ~~~hP_MASK_LO

structure int64x64_t where
  _v : BitVec 128
deriving DecidableEq

/-! ## Products -/

/-- Whether the result is negative, and the magnitudes of the operands. -/
def output_sign (sa sb : BitVec 128) : Bool × uint128_t × uint128_t :=
  let negA : Bool := sa.toInt < 0
  let negB : Bool := sb.toInt < 0
  let ua := if negA then -sa else sa
  let ub := if negB then -sb else sb
  ((negA && !negB) || (!negA && negB), ua, ub)

def umul (a b : uint128_t) : Except Fault uint128_t :=
  let aL := a &&& hP_MASK_LO.setWidth 128
  let bL := b &&& hP_MASK_LO.setWidth 128
  let aH := (a >>> 64) &&& hP_MASK_LO.setWidth 128
  let bH := (b >>> 64) &&& hP_MASK_LO.setWidth 128
  let loPart := aL * bL
  let midPart := aL * bH + aH * bL
  let hiPart := aH * bH
  if hiPart &&& hP_MASK_HI.setWidth 128 ≠ 0 then throw .overflow
  else
    -- the carries of the 64-bit terms
    let res1 := loPart >>> 64
    let res2 := midPart &&& hP_MASK_LO.setWidth 128
    let result := res1 + res2
    let res1 := midPart >>> 64
    let res2 := hiPart &&& hP_MASK_LO.setWidth 128
    let res1 := res1 + res2
    let res1 := res1 <<< 64
    pure (result + res1)

namespace int64x64_t

def mul (s o : int64x64_t) : Except Fault int64x64_t := do
  let (negative, a, b) := output_sign s._v o._v
  let result ← umul a b
  pure ⟨if negative then -result else result⟩

end int64x64_t

section Product

variable {a b : uint128_t}

@[simp] theorem toNat_and_lo (x : uint128_t) :
    (x &&& hP_MASK_LO.setWidth 128).toNat = x.toNat % 2 ^ 64 := by
  rw [BitVec.toNat_and]
  exact Lib.BitFields.and_low x.toNat 64

@[simp] theorem toNat_high (x : uint128_t) : (x >>> 64).toNat = x.toNat / 2 ^ 64 := by
  rw [BitVec.toNat_ushiftRight, Nat.shiftRight_eq_div_pow]

theorem hP_MASK_HI_eq : hP_MASK_HI = 0 := by decide

theorem mul_halves (m n : ℕ) : m * n / 2 ^ 64 = m / 2 ^ 64 * (n / 2 ^ 64) * 2 ^ 64 +
    (m % 2 ^ 64 * (n / 2 ^ 64) + m / 2 ^ 64 * (n % 2 ^ 64)) + m % 2 ^ 64 *
    (n % 2 ^ 64) / 2 ^ 64 := by
  have whole : m * n = m % 2 ^ 64 * (n % 2 ^ 64) + 2 ^ 64 * (m / 2 ^ 64 * (n / 2 ^ 64) * 2 ^ 64 +
      (m % 2 ^ 64 * (n / 2 ^ 64) + m / 2 ^ 64 * (n % 2 ^ 64))) := by
    calc m * n = (m % 2 ^ 64 + 2 ^ 64 * (m / 2 ^ 64)) * (n % 2 ^ 64 + 2 ^ 64 * (n / 2 ^ 64)) := by
          rw [Nat.mod_add_div, Nat.mod_add_div]
      _ = _ := by ring
  rw [whole, Nat.add_mul_div_left _ _ (Nat.two_pow_pos 64), Nat.add_comm]

/-- The abort is never taken, and the product is that of the magnitudes without the bits it has no
room for. -/
theorem umul_eq (ha : a.toNat ≤ 2 ^ 127) (hb : b.toNat ≤ 2 ^ 127) :
    ∃ r, umul a b = .ok r ∧ r.toNat = a.toNat * b.toNat / 2 ^ 64 % 2 ^ 128 := by
  have nothing : ∀ x : uint128_t, x &&& hP_MASK_HI.setWidth 128 = 0 := by
    intro x
    rw [hP_MASK_HI_eq]
    exact BitVec.and_zero
  refine ⟨_, if_neg fun h => h (nothing _), ?_⟩
  have hp : a.toNat % 2 ^ 64 < 2 ^ 64 := Nat.mod_lt _ (Nat.two_pow_pos 64)
  have hr : b.toNat % 2 ^ 64 < 2 ^ 64 := Nat.mod_lt _ (Nat.two_pow_pos 64)
  have hq : a.toNat / 2 ^ 64 ≤ 2 ^ 63 := Nat.div_le_of_le_mul (by omega)
  have hs : b.toNat / 2 ^ 64 ≤ 2 ^ 63 := Nat.div_le_of_le_mul (by omega)
  rw [mul_halves]
  simp only [BitVec.toNat_add, BitVec.toNat_mul, BitVec.toNat_shiftLeft, Nat.shiftLeft_eq,
    toNat_and_lo, toNat_high]
  rw [Nat.mod_eq_of_lt (a := a.toNat / 2 ^ 64) (by omega),
    Nat.mod_eq_of_lt (a := b.toNat / 2 ^ 64) (by omega)]
  generalize a.toNat % 2 ^ 64 = p, a.toNat / 2 ^ 64 = q, b.toNat % 2 ^ 64 = r,
    b.toNat / 2 ^ 64 = t at *
  have lo : p * r < 2 ^ 128 := (Nat.mul_lt_mul'' hp hr).trans_eq (pow_add 2 64 64).symm
  have mid1 : p * t < 2 ^ 127 := (Nat.mul_le_mul_left p hs).trans_lt (by omega)
  have mid2 : q * r < 2 ^ 127 := (Nat.mul_le_mul_right r hq).trans_lt (by omega)
  have hi : q * t ≤ 2 ^ 126 := (Nat.mul_le_mul hq hs).trans_eq (pow_add 2 63 63).symm
  generalize p * r = x, p * t = y, q * r = z, q * t = w at *
  omega

end Product

section Sign

variable {sa sb : BitVec 128}

theorem toInt_eq (v : BitVec 128) : v.toInt = if v.toNat < 2 ^ 127 then (v.toNat : ℤ)
    else v.toNat - 2 ^ 128 := by
  rw [BitVec.toInt_eq_toNat_cond]
  split_ifs <;> omega

theorem toNat_magnitude (v : BitVec 128) :
    (if v.toInt < 0 then -v else v).toNat = v.toInt.natAbs := by
  have hv := v.isLt
  rw [toInt_eq]
  by_cases small : v.toNat < 2 ^ 127
  · rw [if_pos small, if_neg (by omega), Int.natAbs_natCast]
  · rw [if_neg small, if_pos (by omega), BitVec.toNat_neg]
    omega

theorem natAbs_le (v : BitVec 128) : v.toInt.natAbs ≤ 2 ^ 127 := by
  have hv := v.isLt
  rw [toInt_eq]
  split_ifs <;> omega

theorem output_sign_magnitudes (sa sb : BitVec 128) :
    (output_sign sa sb).2.1.toNat = sa.toInt.natAbs ∧
    (output_sign sa sb).2.2.toNat = sb.toInt.natAbs := by
  simp only [output_sign, decide_eq_true_eq]
  exact ⟨toNat_magnitude sa, toNat_magnitude sb⟩

theorem output_sign_negative (sa sb : BitVec 128) :
    (output_sign sa sb).1 = true ↔ sa.toInt < 0 ∧ 0 ≤ sb.toInt ∨ 0 ≤ sa.toInt ∧ sb.toInt < 0 := by
  simp [output_sign]

theorem sign_mul_eq (m n : ℤ) (q : ℕ) (hq : m = 0 ∨ n = 0 → q = 0) :
    (m * n).sign * q = if m < 0 ∧ 0 ≤ n ∨ 0 ≤ m ∧ n < 0 then -(q : ℤ) else q := by
  rw [Int.sign_mul]
  rcases Int.lt_trichotomy m 0 with hm | hm | hm
  · rcases Int.lt_trichotomy n 0 with hn | hn | hn
    · rw [Int.sign_eq_neg_one_of_neg hm, Int.sign_eq_neg_one_of_neg hn, if_neg (by omega)]
      omega
    · simp [hq (.inr hn)]
    · rw [Int.sign_eq_neg_one_of_neg hm, Int.sign_eq_one_of_pos hn, if_pos (by omega)]
      omega
  · simp [hq (.inl hm)]
  · rcases Int.lt_trichotomy n 0 with hn | hn | hn
    · rw [Int.sign_eq_one_of_pos hm, Int.sign_eq_neg_one_of_neg hn, if_pos (by omega)]
      omega
    · simp [hq (.inr hn)]
    · rw [Int.sign_eq_one_of_pos hm, Int.sign_eq_one_of_pos hn, if_neg (by omega)]
      omega

end Sign

/-! ## What a product should be -/

def exactProduct (a b : int64x64_t) : ℤ :=
  (a._v.toInt * b._v.toInt).sign * (a._v.toInt.natAbs * b._v.toInt.natAbs / 2 ^ 64 : ℕ)

def Fits (n : ℤ) : Prop := -2 ^ 127 ≤ n ∧ n < 2 ^ 127

structure MulRight (a b : int64x64_t) : Prop where
  exact : ∀ r, a.mul b = .ok r → r._v.toInt = exactProduct a b
  aborts : ¬ Fits (exactProduct a b) → ∃ e, a.mul b = .error e

/-- The magnitudes are not too large, for the sign that the product has. -/
def InRange (a b : int64x64_t) : Prop :=
  a._v.toInt.natAbs * b._v.toInt.natAbs < 2 ^ 191 ∨
    a._v.toInt.natAbs * b._v.toInt.natAbs < 2 ^ 191 + 2 ^ 64 ∧ a._v.toInt * b._v.toInt < 0

section Exact

variable {a b : int64x64_t}

def magnitude (a b : int64x64_t) : ℕ := a._v.toInt.natAbs * b._v.toInt.natAbs / 2 ^ 64

theorem exactProduct_eq (a b : int64x64_t) :
    exactProduct a b = if (output_sign a._v b._v).1 = true then -(magnitude a b : ℤ)
      else magnitude a b := by
  rw [exactProduct, sign_mul_eq, magnitude]
  · simp only [output_sign_negative]
  · rintro (h | h) <;> simp [h]

theorem mul_eq (a b : int64x64_t) : ∃ r : uint128_t, r.toNat = magnitude a b % 2 ^ 128 ∧
    a.mul b = .ok ⟨if (output_sign a._v b._v).1 = true then -r else r⟩ := by
  obtain ⟨ha, hb⟩ := output_sign_magnitudes a._v b._v
  obtain ⟨r, hr, value⟩ := umul_eq (ha.trans_le (natAbs_le a._v)) (hb.trans_le (natAbs_le b._v))
  rw [ha, hb] at value
  refine ⟨r, value, ?_⟩
  rw [int64x64_t.mul]
  dsimp only
  rw [hr]
  rfl

theorem magnitude_le (a b : int64x64_t) : magnitude a b ≤ 2 ^ 190 := by
  rw [magnitude]
  refine Nat.div_le_of_le_mul ((Nat.mul_le_mul (natAbs_le a._v) (natAbs_le b._v)).trans_eq ?_)
  rw [← pow_add, ← pow_add]

theorem inRange_iff (a b : int64x64_t) : InRange a b ↔ Fits (exactProduct a b) := by
  have sign : if (output_sign a._v b._v).1 = true then a._v.toInt * b._v.toInt ≤ 0
      else 0 ≤ a._v.toInt * b._v.toInt := by
    simp only [output_sign_negative]
    split_ifs with h
    · rcases h with ⟨ha, hb⟩ | ⟨ha, hb⟩
      · exact Int.mul_nonpos_of_nonpos_of_nonneg ha.le hb
      · exact Int.mul_nonpos_of_nonneg_of_nonpos ha hb.le
    · rcases Int.lt_or_le a._v.toInt 0 with ha | ha
      · exact Int.mul_nonneg_of_nonpos_of_nonpos ha.le (by omega)
      · exact Int.mul_nonneg ha (by omega)
  rw [exactProduct_eq, magnitude, InRange, Fits, ← Int.natAbs_mul]
  generalize a._v.toInt * b._v.toInt = product at sign ⊢
  split_ifs at sign ⊢ <;> omega

/-- A product is right if and only if it fits; one that does not fit is never aborted. -/
theorem mulRight_iff (a b : int64x64_t) : MulRight a b ↔ InRange a b := by
  obtain ⟨r, value, run⟩ := mul_eq a b
  have bound := magnitude_le a b
  rw [inRange_iff]
  constructor
  · intro right
    by_contra out
    obtain ⟨e, he⟩ := right.aborts out
    rw [run] at he
    cases he
  · intro inside
    refine ⟨fun r' hr' => ?_, fun out => absurd inside out⟩
    rw [run] at hr'
    cases hr'
    rw [exactProduct_eq, Fits] at inside
    rw [exactProduct_eq]
    dsimp only
    split_ifs at inside ⊢ with negative
    · rw [toInt_eq, BitVec.toNat_neg, value]
      split_ifs <;> omega
    · rw [toInt_eq, value]
      split_ifs <;> omega

end Exact

/-- 2^32 times itself does not fit, and is 0. -/
theorem mul_overflow : ¬ MulRight ⟨1 <<< 96⟩ ⟨1 <<< 96⟩ ∧ int64x64_t.mul ⟨1 <<< 96⟩ ⟨1 <<< 96⟩ =
    .ok ⟨0⟩ := by
  have run : int64x64_t.mul ⟨1 <<< 96⟩ ⟨1 <<< 96⟩ = .ok ⟨0⟩ := by decide
  exact ⟨fun right => absurd (right.exact ⟨0⟩ run) (by decide), run⟩

end Egsr.Core.Int64x64
