import Egsr.Core.Int64x64
import Egsr.Lib.LongDivision
import Mathlib.Algebra.Order.Field.Rat
import Mathlib.Data.Nat.Cast.Order.Field

/-! The division of magnitudes. Remainder and divisor are shifted before each
division so that as many digits as possible come out of it. -/

namespace Egsr.Core.Int64x64

open Lib.LongDivision

def dIGITS : ℕ := 64

def skipTrailing (shift : ℕ) (den : uint128_t) : ℕ × uint128_t :=
  if shift < dIGITS ∧ den &&& 1 = 0 then skipTrailing (shift + 1) (den >>> 1) else (shift, den)
termination_by dIGITS - shift

def skipLeading (digis shift : ℕ) (rem : uint128_t) : ℕ × uint128_t :=
  if digis + shift < dIGITS ∧
    rem &&& hP128_MASK_HI_BIT = 0 then skipLeading digis (shift + 1) (rem <<< 1)
  else (shift, rem)
termination_by dIGITS - (digis + shift)

def castOff (digis shift : ℕ) (rem den : uint128_t) : ℕ × uint128_t :=
  if digis + shift < dIGITS ∧
    (den &&& 1 = 0 ∨ rem < den) then castOff digis (shift + 1) rem (den >>> 1)
  else (shift, den)
termination_by dIGITS - (digis + shift)

/-- The main loop. A round without a new digit would be followed by the same round. -/
def rounds : ℕ → ℕ → ℕ → uint128_t → uint128_t → uint128_t → Except Fault uint128_t
  | fuel, digis, shift, rem, den, result =>
    if digis < dIGITS ∧ rem ≠ 0 then
      match fuel with
      | 0 => throw .endless
      | fuel + 1 =>
        let leading := skipLeading digis shift rem
        let cast := castOff digis leading.1 leading.2 den
        let quo := leading.2 / cast.2
        rounds fuel (digis + cast.1) 0 (leading.2 % cast.2) cast.2 ((result <<< cast.1) + quo)
    else
      -- the remainder may have run out before the digits
      pure (if digis < dIGITS then result <<< (dIGITS - digis) else result)

def udiv (a b : uint128_t) : Except Fault uint128_t :=
  if b = 0 then throw .divisor
  else
    let quo := a / b
    let rem := a % b
    if ¬ rem < b then throw .assertion
    else
      let trailing := skipTrailing 0 b
      rounds dIGITS 0 trailing.1 rem trailing.2 quo

/-! ## The loops -/

section Loops

variable {a b digis shift quo fuel : ℕ} {rem den result : uint128_t}

theorem and_one_eq_zero_iff (x : uint128_t) : x &&& 1 = 0 ↔ x.toNat % 2 = 0 := by
  rw [← BitVec.toNat_inj, BitVec.toNat_and]
  change x.toNat &&& 1 = 0 ↔ _
  rw [Nat.and_one_is_mod]

theorem and_high_eq_zero_iff (x : uint128_t) : x &&& hP128_MASK_HI_BIT = 0 ↔ x.toNat < 2 ^ 127 := by
  have mask : hP128_MASK_HI_BIT = BitVec.twoPow 128 127 := by decide
  have bit : x.getLsbD 127 = decide (2 ^ 127 ≤ x.toNat) :=
    (BitVec.msb_eq_getLsbD_last x).symm.trans (BitVec.msb_eq_decide x)
  rw [mask, BitVec.and_twoPow, bit]
  by_cases large : 2 ^ 127 ≤ x.toNat
  · rw [if_pos (decide_eq_true large)]
    exact iff_of_false (by decide) (not_lt.mpr large)
  · rw [if_neg fun h => large (of_decide_eq_true h)]
    exact iff_of_true rfl (not_le.mp large)

theorem toNat_half (x : uint128_t) : (x >>> 1).toNat = x.toNat / 2 := by
  rw [BitVec.toNat_ushiftRight, Nat.shiftRight_eq_div_pow, pow_one]

theorem toNat_double {x : uint128_t} (hx : x.toNat < 2 ^ 127) : (x <<< 1).toNat = x.toNat * 2 := by
  rw [BitVec.toNat_shiftLeft, Nat.shiftLeft_eq, pow_one, Nat.mod_eq_of_lt (by omega)]

theorem skipTrailing_spec (h : Developed a b digis quo rem.toNat den.toNat shift)
    (hs : shift ≤ dIGITS) :
    Developed a b digis quo rem.toNat (skipTrailing shift den).2.toNat (skipTrailing shift den).1 ∧
      (skipTrailing shift den).1 ≤ dIGITS ∧ (skipTrailing shift den).2.toNat ≤ den.toNat := by
  fun_induction skipTrailing shift den with
  | case1 shift den hcond ih =>
    have even := (and_one_eq_zero_iff den).mp hcond.2
    have next := h.halve even
    rw [← toNat_half] at next
    obtain ⟨developed, hs', hden⟩ := ih next hcond.1
    refine ⟨developed, hs', hden.trans ?_⟩
    rw [toNat_half]
    omega
  | case2 shift den hcond => exact ⟨h, hs, le_rfl⟩

theorem le_skipLeading (digis shift : ℕ) (rem : uint128_t) : shift ≤
    (skipLeading digis shift rem).1 := by
  fun_induction skipLeading digis shift rem with
  | case1 shift rem hcond ih => exact (Nat.le_succ shift).trans ih
  | case2 shift rem hcond => exact le_rfl

theorem lt_skipLeading (more : digis + shift < dIGITS) (small : rem.toNat < 2 ^ 127) :
    shift < (skipLeading digis shift rem).1 := by
  rw [skipLeading, if_pos ⟨more, (and_high_eq_zero_iff rem).mpr small⟩]
  exact le_skipLeading digis (shift + 1) (rem <<< 1)

theorem skipLeading_spec (h : Developed a b digis quo rem.toNat den.toNat shift)
    (hs : digis + shift ≤ dIGITS) :
    Developed a b digis quo (skipLeading digis shift rem).2.toNat den.toNat
    (skipLeading digis shift rem).1 ∧
      digis + (skipLeading digis shift rem).1 ≤ dIGITS ∧
      (digis + (skipLeading digis shift rem).1 < dIGITS →
        2 ^ 127 ≤ (skipLeading digis shift rem).2.toNat) := by
  fun_induction skipLeading digis shift rem with
  | case1 shift rem hcond ih =>
    have small := (and_high_eq_zero_iff rem).mp hcond.2
    have next := h.double
    rw [← toNat_double small] at next
    exact ih next hcond.1
  | case2 shift rem hcond =>
    refine ⟨h, hs, fun more => ?_⟩
    by_contra small
    exact hcond ⟨more, (and_high_eq_zero_iff rem).mpr (not_le.mp small)⟩

theorem castOff_spec (h : Developed a b digis quo rem.toNat den.toNat shift)
    (hs : digis + shift ≤ dIGITS)
    (hden : den.toNat < 2 ^ 127) (full : digis + shift < dIGITS → 2 ^ 127 ≤ rem.toNat) :
    Developed a b digis quo rem.toNat (castOff digis shift rem den).2.toNat
    (castOff digis shift rem den).1 ∧
      digis + (castOff digis shift rem den).1 ≤ dIGITS ∧ shift ≤ (castOff digis shift rem den).1 ∧
      (castOff digis shift rem den).2.toNat < 2 ^ 127 := by
  fun_induction castOff digis shift rem den with
  | case1 shift den hcond ih =>
    have not_less : ¬ rem < den := by
      rw [BitVec.lt_def]
      exact not_lt.mpr (hden.le.trans (full hcond.1))
    have even := (and_one_eq_zero_iff den).mp (hcond.2.resolve_right not_less)
    have next := h.halve even
    rw [← toNat_half] at next
    have less : (den >>> 1).toNat < 2 ^ 127 := by
      rw [toNat_half]
      omega
    obtain ⟨developed, hs', le, hden'⟩ := ih next hcond.1 less fun _ => full hcond.1
    exact ⟨developed, hs', (Nat.le_succ shift).trans le, hden'⟩
  | case2 shift den hcond => exact ⟨h, hs, le_rfl, hden⟩

def QuotientFits (a b : ℕ) : Prop := a * 2 ^ dIGITS < 2 ^ 128 * b

theorem toNat_append (h : Developed a b digis result.toNat rem.toNat den.toNat shift)
    (fits : QuotientFits a b) (hs : digis + shift ≤ dIGITS) :
    ((result <<< shift) + rem / den).toNat = result.toNat * 2 ^ shift + rem.toNat / den.toNat := by
  have room : result.toNat * 2 ^ shift + rem.toNat / den.toNat < 2 ^ 128 := by
    have le := h.divide.quo_mul_le
    have more : a * 2 ^ (digis + shift) ≤ a * 2 ^ dIGITS :=
      Nat.mul_le_mul_left a (Nat.pow_le_pow_right Nat.two_pos hs)
    exact Nat.lt_of_mul_lt_mul_right ((le.trans more).trans_lt fits)
  rw [BitVec.toNat_add, BitVec.toNat_shiftLeft, BitVec.toNat_udiv, Nat.shiftLeft_eq,
    Nat.mod_eq_of_lt ((Nat.le_add_right _ _).trans_lt room), Nat.mod_eq_of_lt room]

theorem rounds_spec (hb : 0 < b) (fits : QuotientFits a b)
    (h : Developed a b digis result.toNat rem.toNat den.toNat shift) (hs : digis + shift ≤ dIGITS)
    (hden : den.toNat < 2 ^ 127) (progress : 0 < shift ∨ rem.toNat < den.toNat)
    (enough : dIGITS ≤ digis + fuel) :
    ∃ r, rounds fuel digis shift rem den result = .ok r ∧ r.toNat = a * 2 ^ dIGITS / b := by
  induction fuel generalizing digis shift rem den result with
  | zero =>
    have all : digis = dIGITS := by omega
    have none : shift = 0 := by omega
    subst all none
    refine ⟨result, ?_, h.eq_div⟩
    rw [rounds, if_neg fun hcond => lt_irrefl _ hcond.1, if_neg (lt_irrefl _)]
    rfl
  | succ fuel ih =>
    rw [rounds]
    by_cases more : digis < dIGITS
    · by_cases hrem : rem = 0
      · rw [if_neg fun hcond => hcond.2 hrem, if_pos more]
        subst hrem
        have value := h.eq_div_of_zero hb (Nat.le_of_lt more)
        refine ⟨_, rfl, ?_⟩
        rw [BitVec.toNat_shiftLeft, Nat.shiftLeft_eq, value,
          Nat.mod_eq_of_lt ((Nat.div_lt_iff_lt_mul hb).mpr fits)]
      · rw [if_pos ⟨more, hrem⟩]
        dsimp only
        obtain ⟨leading, hs1, full⟩ := skipLeading_spec h hs
        obtain ⟨cast, hs2, le2, hden'⟩ := castOff_spec leading hs1 hden full
        have digit : 0 < (skipLeading digis shift rem).1 := by
          rcases progress with some | less
          · exact some.trans_le (le_skipLeading digis shift rem)
          · by_cases none : shift = 0
            · subst none
              exact lt_skipLeading more (less.trans hden)
            · exact (Nat.pos_of_ne_zero none).trans_le (le_skipLeading digis shift rem)
        have next := cast.divide
        rw [← toNat_append cast fits hs2, ← BitVec.toNat_umod] at next
        exact ih next hs2 hden' (.inr next.rem_lt) (by omega)
    · have all : digis = dIGITS := by omega
      have none : shift = 0 := by omega
      subst all none
      refine ⟨result, ?_, h.eq_div⟩
      rw [if_neg fun hcond => more hcond.1, if_neg more]
      rfl

end Loops

theorem udiv_eq {a b : uint128_t} (hb : 0 < b.toNat) (small : b.toNat < 2 ^ 127)
    (fits : QuotientFits a.toNat b.toNat) :
    ∃ r, udiv a b = .ok r ∧ r.toNat = a.toNat * 2 ^ dIGITS / b.toNat := by
  have nonzero : b ≠ 0 := fun heq => by simp [heq] at hb
  have less : a % b < b := by
    rw [BitVec.lt_def, BitVec.toNat_umod]
    exact Nat.mod_lt _ hb
  have start := developed_start (a := a.toNat) hb
  rw [← BitVec.toNat_umod] at start
  obtain ⟨developed, hs, hden⟩ := skipTrailing_spec start (Nat.zero_le dIGITS)
  rw [← BitVec.toNat_udiv] at developed
  rw [udiv, if_neg nonzero, if_neg (not_not.mpr less)]
  apply rounds_spec hb fits developed (by omega) (hden.trans_lt small) _ (by omega)
  by_cases none : (skipTrailing 0 b).1 = 0
  · right
    have := developed
    rw [none] at this
    exact this.rem_lt
  · exact .inl (Nat.pos_of_ne_zero none)

theorem abs_div_sub_le (m : ℕ) {n : ℕ} (hn : 0 < n) : |((m / n : ℕ) : ℚ) - m / n| ≤ 1 := by
  have below : ((m / n : ℕ) : ℚ) ≤ m / n := Nat.cast_div_le
  have above : (m : ℚ) / n ≤ (m / n : ℕ) + 1 := by
    rw [div_le_iff₀ (Nat.cast_pos.mpr hn)]
    have le := (Nat.lt_mul_div_succ m hn).le
    rw [Nat.mul_comm] at le
    exact_mod_cast le
  rw [abs_sub_comm, abs_of_nonneg (sub_nonneg.mpr below)]
  exact sub_le_iff_le_add'.mpr above

/-- The division ends, and its result is less than a unit in the last place below the quotient. -/
theorem udiv_ulp {a b : uint128_t} (hb : 0 < b.toNat) (small : b.toNat < 2 ^ 127)
    (quotient : a.toNat < 2 ^ 63 * b.toNat) :
    ∃ r, udiv a b = .ok r ∧ r.toNat = a.toNat * 2 ^ 64 / b.toNat ∧
      |(r.toNat : ℚ) - (a.toNat * 2 ^ 64 : ℕ) / b.toNat| ≤ 1 := by
  have fits : QuotientFits a.toNat b.toNat := by
    rw [QuotientFits, dIGITS]
    omega
  obtain ⟨r, run, value⟩ := udiv_eq hb small fits
  refine ⟨r, run, value, ?_⟩
  rw [value]
  exact abs_div_sub_le _ hb

theorem udiv_ulp_third : 0 < (3 : uint128_t).toNat ∧ (3 : uint128_t).toNat < 2 ^ 127 ∧
    (1 <<< 64 : uint128_t).toNat < 2 ^ 63 * (3 : uint128_t).toNat ∧
    ∃ r, udiv (1 <<< 64) 3 = .ok r ∧ r.toNat =
    (1 <<< 64 : uint128_t).toNat * 2 ^ 64 / (3 : uint128_t).toNat ∧
      |(r.toNat : ℚ) - ((1 <<< 64 : uint128_t).toNat * 2 ^ 64 : ℕ) / (3 : uint128_t).toNat| ≤ 1 :=
  ⟨by decide, by decide, by decide, udiv_ulp (by decide) (by decide) (by decide)⟩

end Egsr.Core.Int64x64
