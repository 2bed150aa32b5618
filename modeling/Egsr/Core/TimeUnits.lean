import Egsr.Core.Int64x64Division

/-! Times in other units. A unit that is larger than that of the clock is divided by,
which is done by multiplying with its reciprocal. The reciprocal is rounded up, so
that the error is too small to be seen in the quotient. -/

namespace Egsr.Core.Int64x64

open Lib.LongDivision

def umulByInvert (a b : uint128_t) : uint128_t :=
  let ah := a >>> 64
  let bh := b >>> 64
  let al := a &&& hP_MASK_LO.setWidth 128
  let bl := b &&& hP_MASK_LO.setWidth 128
  let hi := ah * bh
  let mid := ah * bl + al * bh
  let mid := mid >>> 64
  hi + mid

namespace int64x64_t

def ofInteger (v : BitVec 64) : int64x64_t := ⟨v.signExtend 128 <<< 64⟩

/-- The constructor from the integer part and the fraction. -/
def ofHiLo (hi lo : BitVec 64) : int64x64_t := ⟨(hi.signExtend 128 <<< 64) ||| lo.setWidth 128⟩

def getHigh (s : int64x64_t) : BitVec 64 := (s._v.sshiftRight 64).setWidth 64

def mulByInvert (s o : int64x64_t) : int64x64_t :=
  let negResult : Bool := s._v.toInt < 0
  let a := if negResult then -s._v else s._v
  let result := umulByInvert a o._v
  ⟨if negResult then -result else result⟩

def invert (v : BitVec 64) : Except Fault int64x64_t :=
  if ¬ 1 < v then throw .assertion
  else do
    let r ← udiv (1 <<< 64) (v.setWidth 128)
    let result : int64x64_t := ⟨r⟩
    let tmp := (ofHiLo v 0).mulByInvert result
    pure (if tmp.getHigh ≠ 1 then ⟨result._v + 1⟩ else result)

end int64x64_t

open int64x64_t

/-- How times are converted to a unit and from it. -/
structure Information where
  toMul : Bool
  fromMul : Bool
  factor : BitVec 64
  timeTo : int64x64_t
  timeFrom : int64x64_t

/-- The entry that `SetResolution` makes for a unit, as it compares with that of the clock. -/
def setResolution (factor : BitVec 64) : Ordering → Except Fault Information
  | .eq => pure ⟨true, true, factor, ofInteger 1, ofInteger 1⟩
  | .gt => do
    let timeTo ← invert factor
    pure ⟨false, true, factor, timeTo, ofInteger factor⟩
  | .lt => do
    let timeFrom ← invert factor
    pure ⟨true, false, factor, ofInteger factor, timeFrom⟩

namespace Time

def To (info : Information) (m_data : BitVec 64) : Except Fault int64x64_t :=
  if info.toMul then (ofInteger m_data).mul info.timeTo
    else pure ((ofInteger m_data).mulByInvert info.timeTo)

def From (info : Information) (value : int64x64_t) : Except Fault (BitVec 64) := do
  let retval ← if info.fromMul then value.mul info.timeFrom
    else pure (value.mulByInvert info.timeFrom)
  pure retval.getHigh

end Time

section Values

variable {a b : uint128_t} {n : ℕ}

theorem eq_of_toInt {s o : int64x64_t} (h : s._v.toInt = o._v.toInt) : s = o := by
  cases s
  cases o
  exact congrArg int64x64_t.mk (BitVec.toInt_inj.mp h)

theorem toInt_ofInteger (v : BitVec 64) : (ofInteger v)._v.toInt = v.toInt * 2 ^ 64 := by
  have low := BitVec.le_toInt v
  have high : v.toInt < 2 ^ 63 := BitVec.toInt_lt
  have wide : (v.signExtend 128).toInt = v.toInt := BitVec.toInt_signExtend_of_le (by decide)
  rw [toInt_eq] at wide ⊢
  rw [ofInteger, BitVec.toNat_shiftLeft, Nat.shiftLeft_eq]
  have bound := (v.signExtend 128).isLt
  split_ifs at wide ⊢ <;> omega

theorem toInt_getHigh (s : int64x64_t) : s.getHigh.toInt = s._v.toInt / 2 ^ 64 := by
  have low := BitVec.le_toInt s._v
  have high : s._v.toInt < 2 ^ 127 := BitVec.toInt_lt
  have shifted : (s._v.sshiftRight 64).toInt = s._v.toInt / 2 ^ 64 := by
    rw [BitVec.toInt_sshiftRight, Int.shiftRight_eq_div_pow]
    rfl
  have bound := (s._v.sshiftRight 64).isLt
  rw [toInt_eq] at shifted
  rw [getHigh, BitVec.toInt_eq_toNat_cond, BitVec.toNat_setWidth]
  split_ifs at shifted ⊢ <;> omega

theorem toNat_umulByInvert (ha : a.toNat = n * 2 ^ 64) (hn : n ≤ 2 ^ 63) (hb : b.toNat ≤ 2 ^ 127) :
    (umulByInvert a b).toNat = n * b.toNat / 2 ^ 64 := by
  have hlow : b.toNat % 2 ^ 64 < 2 ^ 64 := Nat.mod_lt _ (Nat.two_pow_pos 64)
  have hhigh : b.toNat / 2 ^ 64 ≤ 2 ^ 63 := Nat.div_le_of_le_mul (by omega)
  simp only [umulByInvert, BitVec.toNat_add, BitVec.toNat_mul, toNat_and_lo, toNat_high, ha]
  rw [Nat.mul_div_cancel _ (Nat.two_pow_pos 64), Nat.mul_mod_left, Nat.zero_mul, Nat.zero_mod,
    Nat.add_zero]
  have whole : n * b.toNat = n * (b.toNat % 2 ^ 64) + 2 ^ 64 * (n * (b.toNat / 2 ^ 64)) := by
    calc
      n * b.toNat = n * (b.toNat % 2 ^ 64 + 2 ^ 64 * (b.toNat / 2 ^ 64)) := by rw [Nat.mod_add_div]
      _ = _ := by ring
  rw [whole, Nat.add_mul_div_left _ _ (Nat.two_pow_pos 64)]
  generalize b.toNat % 2 ^ 64 = l, b.toNat / 2 ^ 64 = h at *
  have hi : n * h ≤ 2 ^ 126 := (Nat.mul_le_mul hn hhigh).trans_eq (pow_add 2 63 63).symm
  have mid : n * l < 2 ^ 127 := (Nat.mul_le_mul_right l hn).trans_lt (by omega)
  generalize n * h = x, n * l = y at *
  omega

theorem toInt_mulByInvert {s o : int64x64_t} {x : ℤ} (hs : s._v.toInt = x * 2 ^ 64)
    (ho : o._v.toNat ≤ 2 ^ 127) :
    (s.mulByInvert o)._v.toInt = if x < 0 then -((x.natAbs * o._v.toNat / 2 ^ 64 : ℕ) : ℤ)
      else (x.natAbs * o._v.toNat / 2 ^ 64 : ℕ) := by
  have abs := natAbs_le s._v
  have value : (if s._v.toInt < 0 then -s._v else s._v).toNat = x.natAbs * 2 ^ 64 := by
    rw [toNat_magnitude, hs, Int.natAbs_mul]
    rfl
  rw [← toNat_magnitude, value] at abs
  have small : x.natAbs ≤ 2 ^ 63 := by omega
  have product := toNat_umulByInvert value small ho
  have bound : x.natAbs * o._v.toNat / 2 ^ 64 ≤ 2 ^ 126 := by
    refine Nat.div_le_of_le_mul ((Nat.mul_le_mul small ho).trans_eq ?_)
    rw [← pow_add, ← pow_add]
  have sign : s._v.toInt < 0 ↔ x < 0 := by omega
  simp only [mulByInvert, decide_eq_true_eq]
  by_cases hneg : s._v.toInt < 0
  · rw [if_pos hneg] at product ⊢
    rw [if_pos hneg, if_pos (sign.mp hneg), toInt_eq, BitVec.toNat_neg, product]
    split_ifs <;> omega
  · rw [if_neg hneg] at product ⊢
    rw [if_neg hneg, if_neg fun hx => hneg (sign.mpr hx), toInt_eq, product]
    split_ifs <;> omega

end Values

/-! ## Reciprocals -/

def Reciprocal (v : ℕ) (r : int64x64_t) : Prop :=
  r._v.toNat ≤ 2 ^ 127 ∧ ∃ e, e < v ∧ r._v.toNat * v = 2 ^ 128 + e

section Reciprocals

variable {v x : BitVec 64} {r : int64x64_t}

theorem ofHiLo_zero (v : BitVec 64) : ofHiLo v 0 = ofInteger v := by
  rw [ofHiLo, ofInteger]
  exact congrArg int64x64_t.mk (BitVec.or_zero)

theorem invert_spec (hv : 1 < v.toNat) (small : v.toNat < 2 ^ 63) :
    ∃ r, invert v = .ok r ∧ Reciprocal v.toNat r := by
  have width : (v.setWidth 128).toNat = v.toNat := by
    rw [BitVec.toNat_setWidth]
    omega
  have one : (1 <<< 64 : uint128_t).toNat = 2 ^ 64 := by decide
  have fits : QuotientFits (1 <<< 64 : uint128_t).toNat (v.setWidth 128).toNat := by
    rw [QuotientFits, dIGITS, one, width]
    omega
  have hv' : 1 < v := by
    rw [BitVec.lt_def]
    exact hv
  obtain ⟨q, run, value⟩ := udiv_eq (by omega) (by omega) fits
  rw [one, width, dIGITS] at value
  have hq : q.toNat * v.toNat ≤ 2 ^ 128 := by
    rw [value]
    exact Nat.div_mul_le_self _ _
  have above : 2 ^ 128 < (q.toNat + 1) * v.toNat := by
    rw [value, Nat.mul_comm]
    exact Nat.lt_mul_div_succ _ (by omega)
  have half : q.toNat ≤ 2 ^ 127 := by
    by_contra large
    have := Nat.mul_le_mul (not_le.mp large) hv
    omega
  have signed : v.toInt = v.toNat := BitVec.toInt_eq_toNat_of_lt (by omega)
  have trial : ((ofHiLo v 0).mulByInvert ⟨q⟩).getHigh = 1 ↔ q.toNat * v.toNat = 2 ^ 128 := by
    rw [ofHiLo_zero, ← BitVec.toInt_inj, toInt_getHigh,
      toInt_mulByInvert (toInt_ofInteger v) half, signed,
      if_neg (by omega), Int.natAbs_natCast, Nat.mul_comm v.toNat]
    change ((q.toNat * v.toNat / 2 ^ 64 : ℕ) : ℤ) / 2 ^ 64 = 1 ↔ _
    omega
  rw [invert, if_neg (not_not.mpr hv'), run]
  by_cases exact : q.toNat * v.toNat = 2 ^ 128
  · exact ⟨⟨q⟩, congrArg Except.ok (if_neg (not_not.mpr (trial.mpr exact))), half, 0, by
      omega, exact⟩
  · refine ⟨⟨q + 1⟩, congrArg Except.ok (if_pos fun h => exact (trial.mp h)), ?_⟩
    have next : (q + 1).toNat = q.toNat + 1 := by
      rw [BitVec.toNat_add]
      change (q.toNat + 1) % 2 ^ 128 = q.toNat + 1
      omega
    have strict : q.toNat ≠ 2 ^ 127 := by
      intro heq
      rw [heq] at exact hq
      omega
    rw [Reciprocal, next]
    exact ⟨by omega, (q.toNat + 1) * v.toNat - 2 ^ 128, by rw [Nat.add_one_mul]; omega, by omega⟩

theorem natAbs_toInt_le (x : BitVec 64) : x.toInt.natAbs ≤ 2 ^ 63 := by
  have low := BitVec.le_toInt x
  have high : x.toInt < 2 ^ 63 := BitVec.toInt_lt
  omega

theorem Reciprocal.error_lt {m : ℕ} (h : Reciprocal v.toNat r) (small : v.toNat < 2 ^ 63)
    (hm : m ≤ 2 ^ 63) : ∃ e, r._v.toNat * v.toNat = 2 ^ 128 + e ∧ m * e < 2 ^ 128 := by
  obtain ⟨-, e, he, heq⟩ := h
  refine ⟨e, heq, (Nat.mul_le_mul hm (he.trans small).le).trans_lt ?_⟩
  rw [← pow_add]
  exact Nat.pow_lt_pow_right (by decide) (by decide)

theorem Reciprocal.getHigh_mulByInvert (h : Reciprocal v.toNat r) (hv : 0 < v.toNat)
    (small : v.toNat < 2 ^ 63)
    (hx : x.toNat < 2 ^ 63) : ((ofInteger x).mulByInvert r).getHigh.toInt =
    (x.toNat / v.toNat : ℕ) := by
  have signed : x.toInt = x.toNat := BitVec.toInt_eq_toNat_of_lt (by omega)
  obtain ⟨e, heq, error⟩ := h.error_lt small hx.le
  have quotient := mul_reciprocal_div hv heq error
  rw [toInt_getHigh, toInt_mulByInvert (toInt_ofInteger x) h.1, signed, if_neg (by omega),
    Int.natAbs_natCast, ← quotient]
  omega

theorem Reciprocal.mulByInvert_multiple {k : ℤ} (h : Reciprocal v.toNat r) (hv : 1 < v.toNat)
    (hx : x.toInt = k * v.toNat) : (ofInteger x).mulByInvert r = ofInteger (BitVec.ofInt 64 k) := by
  obtain ⟨half, e, he, heq⟩ := h
  have abs := natAbs_toInt_le x
  have factors : x.toInt.natAbs = k.natAbs * v.toNat := by
    rw [hx, Int.natAbs_mul, Int.natAbs_natCast]
  have error : k.natAbs * e < 2 ^ 64 := by
    have le := Nat.mul_le_mul_left k.natAbs he.le
    omega
  have square : r._v.toNat * v.toNat = 2 ^ 64 * 2 ^ 64 + e := by omega
  have product := multiple_mul_reciprocal_div square error
  have positive : (0 : ℤ) < v.toNat := by omega
  have sign : x.toInt < 0 ↔ k < 0 := by
    rw [hx]
    exact ⟨fun h => neg_of_mul_neg_left h positive.le, fun h => mul_neg_of_neg_of_pos h positive⟩
  have kept : (BitVec.ofInt 64 k).toInt = k := by
    have le := Nat.mul_le_mul_left k.natAbs hv
    rw [BitVec.toInt_ofInt, Int.bmod_eq_of_le] <;> omega
  apply eq_of_toInt
  rw [toInt_mulByInvert (toInt_ofInteger x) half, toInt_ofInteger, kept, factors, product]
  by_cases negative : k < 0
  · rw [if_pos (sign.mpr negative)]
    omega
  · rw [if_neg (mt sign.mp negative)]
    omega

end Reciprocals

/-- Division by a unit is exact in the integer part, and for multiples of the unit also in the
fraction. -/
theorem invert_exact {v : BitVec 64} (hv : 1 < v.toNat) (small : v.toNat < 2 ^ 63) :
    ∃ r, invert v = .ok r ∧
      (∀ x : BitVec 64, x.toNat < 2 ^ 63 → ((ofInteger x).mulByInvert r).getHigh.toInt =
        (x.toNat / v.toNat : ℕ)) ∧
      ∃ larger smaller, setResolution v .gt = .ok larger ∧ setResolution v .lt = .ok smaller ∧
        ∀ (x : BitVec 64) (k : ℤ), x.toInt = k * v.toNat →
          Time.To larger x = .ok (ofInteger (BitVec.ofInt 64 k)) ∧
          Time.From smaller (ofInteger x) = .ok (BitVec.ofInt 64 k) := by
  obtain ⟨r, run, reciprocal⟩ := invert_spec hv small
  have larger : setResolution v .gt = .ok ⟨false, true, v, r, ofInteger v⟩ := by
    rw [setResolution, run]
    rfl
  have smaller : setResolution v .lt = .ok ⟨true, false, v, ofInteger v, r⟩ := by
    rw [setResolution, run]
    rfl
  refine ⟨r, run, fun x hx => reciprocal.getHigh_mulByInvert (Nat.zero_lt_one.trans hv) small hx,
    _, _, larger, smaller, fun x k hx => ?_⟩
  have multiple := reciprocal.mulByInvert_multiple hv hx
  have high : (ofInteger (BitVec.ofInt 64 k)).getHigh = BitVec.ofInt 64 k := by
    rw [← BitVec.toInt_inj, toInt_getHigh, toInt_ofInteger]
    exact Int.mul_ediv_cancel _ (by decide)
  exact ⟨congrArg Except.ok multiple, congrArg Except.ok ((congrArg getHigh multiple).trans high)⟩

theorem invert_exact_thousand : ∃ r, invert 1000 = .ok r ∧
    (∀ x : BitVec 64, x.toNat < 2 ^ 63 → ((ofInteger x).mulByInvert r).getHigh.toInt =
      (x.toNat / 1000 : ℕ)) ∧
    ∃ larger smaller, setResolution 1000 .gt = .ok larger ∧ setResolution 1000 .lt = .ok smaller ∧
      ∀ (x : BitVec 64) (k : ℤ), x.toInt = k * (1000 : ℕ) →
        Time.To larger x = .ok (ofInteger (BitVec.ofInt 64 k)) ∧
        Time.From smaller (ofInteger x) = .ok (BitVec.ofInt 64 k) :=
  invert_exact (v := 1000) (by decide) (by decide)

end Egsr.Core.Int64x64
