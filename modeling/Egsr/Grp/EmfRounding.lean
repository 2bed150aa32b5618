import Egsr.Grp.Emf
import Egsr.Lib.Rounding

/-! Coding a validity time rounds it to the nearest of the 256 times that the format can say. A time
lies between two powers of two, and the sixteenths in between and both powers are times of the
format, the upper one by the carry into the exponent. -/

namespace Egsr.Grp.Emf

open Lib.Rounding

/-- What one sixteenth is worth beside a time. -/
def unit (seconds : ℚ) : ℚ := grpC * 2 ^ exponent seconds / 16

theorem grpC_pos : 0 < grpC := by norm_num [grpC]

theorem unit_pos (seconds : ℚ) : 0 < unit seconds := by
  have hc := grpC_pos
  unfold unit
  positivity

section Units

variable {seconds : ℚ} {a b : ℕ}

theorem sub_eq_unit (seconds m : ℚ) :
    seconds - grpC * (1 + m / 16) * 2 ^ exponent seconds =
      unit seconds * (sixteenths seconds - m) := by
  have hc := grpC_pos.ne'
  have hpow : (2 : ℚ) ^ exponent seconds ≠ 0 := by positivity
  rw [sixteenths, unit]
  field_simp
  ring

theorem abs_sub_eq_unit (seconds m : ℚ) :
    |seconds - grpC * (1 + m / 16) * 2 ^ exponent seconds| =
      unit seconds * |sixteenths seconds - m| := by
  rw [sub_eq_unit, abs_mul, abs_of_pos (unit_pos seconds)]

theorem emfToSeconds_eq (v : UInt8) : ∃ a b : ℕ, a < 16 ∧ b < 16 ∧
    emfToSeconds v = grpC * (1 + a / 16) * 2 ^ b :=
  ⟨v.toNat / 16, v.toNat % 16, by have := v.toNat_lt; omega, by omega, rfl⟩

theorem value_lt (ha : a < 16) (b : ℕ) : grpC * (1 + a / 16) * 2 ^ b < grpC * 2 ^ (b + 1) := by
  have hc := grpC_pos
  have hpow : (0 : ℚ) < 2 ^ b := by positivity
  have ha' : (a : ℚ) < 16 := by exact_mod_cast ha
  rw [pow_succ, mul_assoc, mul_comm ((2 : ℚ) ^ b) 2, mul_lt_mul_iff_right₀ hc,
    mul_lt_mul_iff_left₀ hpow]
  linarith

theorem le_value (a b : ℕ) : grpC * 2 ^ b ≤ grpC * (1 + a / 16) * 2 ^ b := by
  have hc := grpC_pos
  have hpow : (0 : ℚ) < 2 ^ b := by positivity
  rw [mul_assoc, mul_le_mul_iff_right₀ hc, le_mul_iff_one_le_left hpow]
  have hcast : (0 : ℚ) ≤ a := Nat.cast_nonneg a
  linarith

theorem power_le_power (h : a ≤ b) : grpC * 2 ^ a ≤ grpC * 2 ^ b :=
  mul_le_mul_of_nonneg_left (pow_le_pow_right₀ one_le_two h) grpC_pos.le

theorem exponent_of_between {v : UInt8} (lo : grpC * 2 ^ b < emfToSeconds v)
    (hi : emfToSeconds v < grpC * 2 ^ (b + 1)) : ∃ k : ℕ, emfToSeconds v =
      grpC * (1 + k / 16) * 2 ^ b := by
  obtain ⟨k, c, hk, -, hv⟩ := emfToSeconds_eq v
  rw [hv] at lo hi
  have hle : b ≤ c := by
    by_contra hlt
    exact absurd (lo.trans (value_lt hk c)) (not_lt.mpr (power_le_power (by omega)))
  have hge : c ≤ b := by
    by_contra hlt
    exact absurd ((power_le_power (by omega)).trans (le_value k c)) (not_le.mpr hi)
  exact ⟨k, by rw [hv, le_antisymm hge hle]⟩

theorem emfToSeconds_last : emfToSeconds 0xff = 3968 := by
  have last : (0xff : UInt8).toNat = 255 := rfl
  rw [emfToSeconds, last]
  norm_num [grpC]

theorem Accepted.nearest (h : Accepted seconds) {v : UInt8} (code : secondsToEmf seconds = .ok v) :
    Nearest (Set.range emfToSeconds) seconds (emfToSeconds v) := by
  obtain ⟨w, hw, hval⟩ := h.secondsToEmf_eq
  obtain rfl : w = v := Except.ok.inj (hw.symm.trans code)
  have near : ∀ k : ℤ, |seconds - emfToSeconds w| ≤
      |seconds - grpC * (1 + k / 16) * 2 ^ exponent seconds| := by
    intro k
    rw [hval, abs_sub_eq_unit, abs_sub_eq_unit]
    exact mul_le_mul_of_nonneg_left (abs_sub_ceil_half_le (sixteenths seconds) k)
      (unit_pos seconds).le
  have lo : grpC * 2 ^ exponent seconds ≤ seconds := by
    have hle := h.exponent_le
    rwa [le_div_iff₀ grpC_pos, mul_comm] at hle
  have hi : seconds ≤ grpC * 2 ^ (exponent seconds + 1) := by
    have hlt := lt_exponent seconds
    rw [div_lt_iff₀ grpC_pos, mul_comm] at hlt
    exact hlt.le
  refine nearest_of_bounds (Set.mem_range_self w) lo hi ?_ ?_ fun z hz above below => ?_
  · have first := near 0
    rwa [Int.cast_zero, zero_div, add_zero, mul_one] at first
  · have carried := near 16
    have double : grpC * (1 + ((16 : ℤ) : ℚ) / 16) * 2 ^ exponent seconds =
        grpC * 2 ^ (exponent seconds + 1) := by
      push_cast
      ring
    rwa [double] at carried
  · obtain ⟨u, rfl⟩ := hz
    obtain ⟨k, hk⟩ := exponent_of_between above below
    have middle := near k
    rwa [Int.cast_natCast, ← hk] at middle

theorem Accepted.error_le (h : Accepted seconds) {v : UInt8} (code : secondsToEmf seconds = .ok v) :
    |seconds - emfToSeconds v| ≤ seconds / 32 := by
  obtain ⟨w, hw, hval⟩ := h.secondsToEmf_eq
  obtain rfl : w = v := Except.ok.inj (hw.symm.trans code)
  have power := h.exponent_le
  rw [le_div_iff₀ grpC_pos] at power
  calc |seconds - emfToSeconds w| = unit seconds * |sixteenths seconds - mantissa seconds| := by
        rw [hval, abs_sub_eq_unit]
    _ ≤ unit seconds * (1 / 2) :=
        mul_le_mul_of_nonneg_left (abs_sub_ceil_half (sixteenths seconds)) (unit_pos seconds).le
    _ = 2 ^ exponent seconds * grpC / 32 := by
        rw [unit]
        ring
    _ ≤ seconds / 32 := by linarith

theorem accepted_of_le_last (least : grpC ≤ seconds) (last : seconds ≤ emfToSeconds 0xff) :
    Accepted seconds := by
  rw [emfToSeconds_last] at last
  exact ⟨least, by linarith⟩

/-- Every time that the format spans is coded, to the nearest of its values: the values themselves
exactly, later times no earlier, and none by more than one part in 32. -/
theorem secondsToEmf_nearest {seconds : ℚ} (least : grpC ≤ seconds)
    (last : seconds ≤ emfToSeconds 0xff) : ∃ v, secondsToEmf seconds = .ok v ∧
      Nearest (Set.range emfToSeconds) seconds (emfToSeconds v) ∧
      (∀ later v', seconds ≤ later → secondsToEmf later = .ok v' →
        emfToSeconds v ≤ emfToSeconds v') ∧
      (seconds ∈ Set.range emfToSeconds → emfToSeconds v = seconds) ∧
      |seconds - emfToSeconds v| ≤ seconds / 32 := by
  have h := accepted_of_le_last least last
  obtain ⟨v, code⟩ := accepted_iff.mp h
  have nearest := h.nearest code
  refine ⟨v, code, nearest, fun later v' hle code' => ?_, nearest.eq_of_mem, h.error_le code⟩
  rcases hle.eq_or_lt with rfl | lt
  · rw [Except.ok.inj (code.symm.trans code')]
  · exact nearest.mono ((accepted_iff.mpr ⟨v', code'⟩).nearest code') lt

/-- A tenth of a second is coded to the time below it that is nearest. -/
theorem secondsToEmf_nearest_tenth : grpC ≤ 1 / 10 ∧ 1 / 10 ≤ emfToSeconds 0xff ∧
    ∃ v, secondsToEmf (1 / 10) = .ok v ∧ |1 / 10 - emfToSeconds v| ≤ 1 / 10 / 32 := by
  have least : grpC ≤ 1 / 10 := by norm_num [grpC]
  have last : 1 / 10 ≤ emfToSeconds 0xff := by norm_num [emfToSeconds_last]
  obtain ⟨v, code, -, -, -, error⟩ := secondsToEmf_nearest least last
  exact ⟨least, last, v, code, error⟩

end Units

end Egsr.Grp.Emf
