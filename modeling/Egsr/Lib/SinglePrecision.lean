import Mathlib.Data.Nat.Log
import Mathlib.Data.Rat.Floor
import Mathlib.Tactic.Positivity

/-! Finite binary32 values as rationals with a 24-bit significand, the
truncating conversion to a 32-bit unsigned integer and the round-to-even
conversion back. Exponent range, infinities and NaN are outside the model: no
32-bit integer reaches them. -/

namespace Egsr.Lib.SinglePrecision

def IsBinary32 (q : ℚ) : Prop := ∃ m e : ℤ, |m| < 2 ^ 24 ∧ q = m * 2 ^ e

/-- A rational that a 24-bit significand represents. -/
structure Binary32 where
  val : ℚ
  isBinary32 : IsBinary32 val

@[ext] theorem Binary32.ext {x y : Binary32} (h : x.val = y.val) : x = y := by
  cases x; cases y; cases h; rfl

instance : DecidableEq Binary32 := fun x y =>
  decidable_of_iff (x.val = y.val) ⟨Binary32.ext, fun h => h ▸ rfl⟩

/-- The truncation of a value in `(-1, 2^32)`; outside that range the conversion is undefined. -/
def Binary32.toUInt32 (x : Binary32) : Option UInt32 :=
  if -1 < x.val ∧ x.val < 2 ^ 32 then some (.ofNat ⌊x.val⌋.toNat) else none

def roundMultiple (n s : ℕ) : ℕ :=
  let q := n / 2 ^ s
  let r := n % 2 ^ s
  if 2 * r < 2 ^ s then q else if 2 ^ s < 2 * r then q + 1 else q + q % 2

theorem roundMultiple_dvd {n s : ℕ} (h : 2 ^ s ∣ n) : roundMultiple n s = n / 2 ^ s := by
  have hr : n % 2 ^ s = 0 := Nat.mod_eq_zero_of_dvd h
  simp [roundMultiple, hr]

theorem roundMultiple_le (n s : ℕ) : roundMultiple n s ≤ n / 2 ^ s + 1 := by
  unfold roundMultiple
  dsimp only
  split_ifs <;> omega

def excess (n : ℕ) : ℕ := n.log2 + 1 - 24

theorem lt_pow_excess (n : ℕ) : n < 2 ^ (24 + excess n) := by
  refine Nat.lt_of_lt_of_le Nat.lt_log2_self (Nat.pow_le_pow_right (by norm_num) ?_)
  unfold excess
  omega

private theorem isBinary32_round (n : ℕ) :
    IsBinary32 ((roundMultiple n (excess n) : ℚ) * 2 ^ (excess n)) := by
  have hq : n / 2 ^ excess n < 2 ^ 24 := by
    rw [Nat.div_lt_iff_lt_mul (by positivity), ← pow_add]
    exact lt_pow_excess n
  have hle := roundMultiple_le n (excess n)
  rcases Nat.lt_or_ge (roundMultiple n (excess n)) (2 ^ 24) with hlt | hge
  · refine ⟨roundMultiple n (excess n), excess n, ?_, ?_⟩
    · rw [abs_of_nonneg (by positivity)]
      exact_mod_cast hlt
    · push_cast
      rw [zpow_natCast]
  · have heq : roundMultiple n (excess n) = 2 ^ 24 := by omega
    refine ⟨2 ^ 23, excess n + 1, by norm_num, ?_⟩
    rw [heq, zpow_add₀ (by norm_num), zpow_natCast]
    push_cast
    ring

/-- The nearest binary32 value of a 32-bit integer, ties to even. -/
def ofUInt32 (n : UInt32) : Binary32 :=
  ⟨(roundMultiple n.toNat (excess n.toNat) : ℚ) * 2 ^ (excess n.toNat), isBinary32_round _⟩

theorem pow_excess_dvd {n : ℕ} (h : IsBinary32 (n : ℚ)) : 2 ^ excess n ∣ n := by
  obtain ⟨m, e, hm, hn⟩ := h
  rcases Nat.eq_zero_or_pos (excess n) with h0 | hpos
  · simp [h0]
  have hlow : 2 ^ (23 + excess n) ≤ n := by
    have hlog : n.log2 = 23 + excess n := by unfold excess at hpos ⊢; omega
    rw [← hlog]
    exact Nat.log2_self_le (by rintro rfl; simp [excess] at hpos)
  have hmlt : (m : ℚ) < 2 ^ 24 := by
    have := (abs_lt.mp hm).2
    exact_mod_cast this
  have hexp : ((23 + excess n : ℕ) : ℤ) < 24 + e := by
    rw [← zpow_lt_zpow_iff_right₀ (show (1 : ℚ) < 2 by norm_num)]
    calc (2 : ℚ) ^ ((23 + excess n : ℕ) : ℤ) = ((2 ^ (23 + excess n) : ℕ) : ℚ) := by
          rw [zpow_natCast]; push_cast; rfl
      _ ≤ (n : ℚ) := by exact_mod_cast hlow
      _ = m * 2 ^ e := hn
      _ < 2 ^ 24 * 2 ^ e := by
          exact mul_lt_mul_of_pos_right hmlt (zpow_pos (by norm_num) e)
      _ = 2 ^ (24 + e) := by
          rw [zpow_add₀ (by norm_num)]
          norm_cast
  obtain ⟨k, hk⟩ : ∃ k : ℕ, e = excess n + k := ⟨(e - excess n).toNat, by push_cast at hexp; omega⟩
  have hint : (n : ℤ) = m * 2 ^ k * 2 ^ excess n := by
    have : (n : ℚ) = ((m * 2 ^ k * 2 ^ excess n : ℤ) : ℚ) := by
      rw [hn, hk, zpow_add₀ (by norm_num), zpow_natCast, zpow_natCast]
      push_cast
      ring
    exact_mod_cast this
  have hdvd : ((2 ^ excess n : ℕ) : ℤ) ∣ (n : ℤ) := ⟨m * 2 ^ k, by rw [hint]; push_cast; ring⟩
  exact_mod_cast hdvd

theorem ofUInt32_toUInt32 {x : Binary32} {n : ℕ} (hx : x.val = n) (hn : n < 2 ^ 32) :
    x.toUInt32.map ofUInt32 = some x := by
  have hfloor : ⌊x.val⌋.toNat = n := by simp [hx]
  have hrange : -1 < x.val ∧ x.val < 2 ^ 32 := by
    rw [hx]
    exact ⟨by linarith [Nat.cast_nonneg (α := ℚ) n], by exact_mod_cast hn⟩
  have hto : (UInt32.ofNat n).toNat = n := by
    rw [UInt32.toNat_ofNat', Nat.mod_eq_of_lt hn]
  have hdvd : 2 ^ excess n ∣ n := pow_excess_dvd (hx ▸ x.isBinary32)
  rw [Binary32.toUInt32, if_pos hrange, hfloor, Option.map_some, Option.some_inj]
  apply Binary32.ext
  change (roundMultiple (UInt32.ofNat n).toNat (excess (UInt32.ofNat n).toNat) : ℚ) *
    2 ^ excess (UInt32.ofNat n).toNat = x.val
  rw [hto, roundMultiple_dvd hdvd, hx]
  exact_mod_cast Nat.div_mul_cancel hdvd

theorem Binary32.toUInt32_isSome {x : Binary32} :
    x.toUInt32.isSome ↔ -1 < x.val ∧ x.val < 2 ^ 32 := by
  unfold Binary32.toUInt32
  split_ifs with h <;> simp [h]

theorem exists_ofUInt32 (n : UInt32) : ∃ k : ℕ, (ofUInt32 n).val = k :=
  ⟨roundMultiple n.toNat (excess n.toNat) * 2 ^ excess n.toNat, by push_cast [ofUInt32]; rfl⟩

end Egsr.Lib.SinglePrecision
