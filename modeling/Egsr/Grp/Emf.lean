import Egsr.Grp.Road

/-! The 8-bit format of validity times: a mantissa of four bits over an exponent
of four. Coding a time rounds it to the nearest sixteenth of a power of two, ties
downwards. -/

namespace Egsr.Grp.Emf

open Grp.Road Lib.Outcome

def grpC : ℚ := 0.0625

/-- `for (b = 1; q >= (1 << b); ++b)`. From 30 rounds on the assertion on `b`
fails in any case. -/
def emfExponent (q : ℚ) : ℕ → ℕ → Option ℕ
  | 0, _ => none
  | rounds + 1, b => if 2 ^ b ≤ q then emfExponent q rounds (b + 1) else some b

variable (seconds : ℚ)

def secondsToEmf : Except Fault UInt8 :=
  if seconds < grpC then throw .assertion
  else
    match emfExponent (seconds / grpC) 30 1 with
    | none => throw .assertion
    | some b =>
      if ¬ (seconds / grpC < 2 ^ b ∧ 2 ^ (b - 1) ≤ seconds / grpC) then throw .assertion
      else
      let b := b - 1
      let tmp := 16 * (seconds / (grpC * 2 ^ b) - 1)
      let a := ⌈tmp - 1 / 2⌉
      let (a, b) := if a = 16 then (0, b + 1) else (a, b)
      if 0 ≤ a ∧ a < 16 ∧ b < 16 then pure (.ofNat (a.toNat * 16 + b)) else throw .assertion

def emfToSeconds (grpFormat : UInt8) : ℚ :=
  let a := grpFormat.toNat / 16
  let b := grpFormat.toNat % 16
  grpC * (1 + a / 16) * 2 ^ b

/-! ## Rounding -/

def exponent : ℕ := Nat.log 2 ⌊seconds / grpC⌋₊

def sixteenths : ℚ := 16 * (seconds / (grpC * 2 ^ exponent seconds) - 1)

def RoundsDown : Prop := Int.fract (sixteenths seconds) ≤ 1 / 2
deriving Decidable

theorem emfExponent_eq {q : ℚ} {b : ℕ} (below : 2 ^ b ≤ q) (above : q < 2 ^ (b + 1)) :
    ∀ rounds start, 1 ≤ start → start ≤ b + 1 → b + 1 < rounds + start →
      emfExponent q rounds start = some (b + 1) := by
  intro rounds
  induction rounds with
  | zero =>
    intro start _ hle hlt
    omega
  | succ rounds ih =>
    intro start hpos hle hlt
    by_cases hstart : start = b + 1
    · rw [emfExponent, hstart, if_neg (not_le.mpr above)]
    · have hstep : (2 : ℚ) ^ start ≤ q :=
        le_trans (pow_le_pow_right₀ (by norm_num) (by omega)) below
      rw [emfExponent, if_pos hstep]
      exact ih (start + 1) (by omega) (by omega) (by omega)

theorem ceil_sub_half_le_iff (t : ℚ) : (⌈t - 1 / 2⌉ : ℚ) ≤ t ↔ Int.fract t ≤ 1 / 2 := by
  calc (⌈t - 1 / 2⌉ : ℚ) ≤ t ↔ ⌈t - 1 / 2⌉ ≤ ⌊t⌋ := Int.le_floor.symm
    _ ↔ t - 1 / 2 ≤ ⌊t⌋ := Int.ceil_le
    _ ↔ Int.fract t ≤ 1 / 2 := by
      rw [Int.fract]
      constructor <;> intro h <;> linarith

structure Accepted : Prop where
  least : grpC ≤ seconds
  largest : seconds ≤ 4032

section Accepted

variable {seconds : ℚ}

theorem Accepted.exponent_le (h : Accepted seconds) : 2 ^ exponent seconds ≤ seconds / grpC := by
  have hone : 1 ≤ seconds / grpC := (one_le_div (by norm_num [grpC])).mpr h.least
  have hne : ⌊seconds / grpC⌋₊ ≠ 0 := (Nat.floor_pos.mpr hone).ne'
  have hpow : 2 ^ exponent seconds ≤ ⌊seconds / grpC⌋₊ := Nat.pow_log_le_self 2 hne
  calc (2 : ℚ) ^ exponent seconds = ((2 ^ exponent seconds : ℕ) : ℚ) := by push_cast; rfl
    _ ≤ (⌊seconds / grpC⌋₊ : ℚ) := Nat.cast_le.mpr hpow
    _ ≤ seconds / grpC := Nat.floor_le (le_trans zero_le_one hone)

theorem lt_exponent (seconds : ℚ) : seconds / grpC < 2 ^ (exponent seconds + 1) := by
  have hpow : ⌊seconds / grpC⌋₊ + 1 ≤ 2 ^ (exponent seconds + 1) :=
    Nat.lt_pow_succ_log_self one_lt_two _
  calc seconds / grpC < (⌊seconds / grpC⌋₊ + 1 : ℕ) := by
        push_cast
        exact Nat.lt_floor_add_one _
    _ ≤ ((2 ^ (exponent seconds + 1) : ℕ) : ℚ) := Nat.cast_le.mpr hpow
    _ = 2 ^ (exponent seconds + 1) := by push_cast; rfl

theorem Accepted.exponent_lt (h : Accepted seconds) : exponent seconds < 16 := by
  by_contra hge
  have hpow : (2 : ℚ) ^ 16 ≤ 2 ^ exponent seconds :=
    pow_le_pow_right₀ (by norm_num) (not_lt.mp hge)
  have hle := le_trans hpow h.exponent_le
  rw [le_div_iff₀ (by norm_num [grpC])] at hle
  have hmax := h.largest
  norm_num [grpC] at hle
  linarith

theorem sixteenths_eq (seconds : ℚ) :
    sixteenths seconds = 16 * (seconds / grpC / 2 ^ exponent seconds - 1) := by
  rw [sixteenths, div_div]

theorem Accepted.sixteenths_nonneg (h : Accepted seconds) : 0 ≤ sixteenths seconds := by
  have hratio : 1 ≤ seconds / grpC / 2 ^ exponent seconds :=
    (one_le_div (by positivity)).mpr h.exponent_le
  rw [sixteenths_eq]
  linarith

theorem sixteenths_lt (seconds : ℚ) : sixteenths seconds < 16 := by
  have hratio : seconds / grpC / 2 ^ exponent seconds < 2 := by
    rw [div_lt_iff₀ (by positivity), ← pow_succ']
    exact lt_exponent seconds
  rw [sixteenths_eq]
  linarith

def mantissa (seconds : ℚ) : ℤ := ⌈sixteenths seconds - 1 / 2⌉

theorem Accepted.mantissa_nonneg (h : Accepted seconds) : 0 ≤ mantissa seconds := by
  have hlt : (-1 : ℤ) < mantissa seconds := by
    rw [mantissa, Int.lt_ceil]
    push_cast
    linarith [h.sixteenths_nonneg]
  omega

theorem mantissa_le (seconds : ℚ) : mantissa seconds ≤ 16 := by
  rw [mantissa, Int.ceil_le]
  push_cast
  linarith [sixteenths_lt seconds]

theorem Accepted.mantissa_le_of_exponent (h : Accepted seconds) (top : exponent seconds = 15) :
    mantissa seconds ≤ 15 := by
  rw [mantissa, Int.ceil_le, sixteenths_eq, top]
  have hmax := h.largest
  have hratio : seconds / grpC / 2 ^ 15 ≤ 63 / 32 := by
    rw [div_le_iff₀ (by positivity), div_le_iff₀ (by norm_num [grpC])]
    norm_num [grpC]
    linarith
  push_cast
  linarith

theorem emfToSeconds_ofNat {a b : ℕ} (ha : a < 16) (hb : b < 16) :
    emfToSeconds (UInt8.ofNat (a * 16 + b)) = grpC * (1 + a / 16) * 2 ^ b := by
  have hval : (UInt8.ofNat (a * 16 + b)).toNat = a * 16 + b := by
    rw [UInt8.toNat_ofNat', Nat.mod_eq_of_lt (by omega)]
  have hdiv : (a * 16 + b) / 16 = a := by omega
  have hmod : (a * 16 + b) % 16 = b := by omega
  simp only [emfToSeconds, hval, hdiv, hmod]

theorem Accepted.secondsToEmf_eq (h : Accepted seconds) : ∃ v, secondsToEmf seconds = .ok v ∧
      emfToSeconds v = grpC * (1 + mantissa seconds / 16) * 2 ^ exponent seconds := by
  have hexp : emfExponent (seconds / grpC) 30 1 = some (exponent seconds + 1) :=
    emfExponent_eq h.exponent_le (lt_exponent seconds) 30 1 le_rfl (by omega)
      (by have := h.exponent_lt; omega)
  have hlt := h.exponent_lt
  have hunfold : secondsToEmf seconds = (let (a, b) := if mantissa seconds = 16 then
      ((0 : ℤ), exponent seconds + 1) else (mantissa seconds, exponent seconds)
      if 0 ≤ a ∧ a < 16 ∧ b < 16 then pure (.ofNat (a.toNat * 16 + b))
      else throw .assertion) := by
    rw [secondsToEmf, if_neg (not_lt.mpr h.least), hexp]
    exact if_neg (not_not.mpr ⟨lt_exponent seconds, h.exponent_le⟩)
  by_cases hcarry : mantissa seconds = 16
  · have hb : exponent seconds + 1 < 16 := by
      by_contra hge
      have hle := h.mantissa_le_of_exponent (by omega)
      omega
    refine ⟨.ofNat (0 * 16 + (exponent seconds + 1)), ?_, ?_⟩
    · rw [hunfold, if_pos hcarry]
      exact if_pos ⟨le_rfl, by norm_num, hb⟩
    · rw [emfToSeconds_ofNat (by norm_num) hb, hcarry]
      push_cast
      ring
  · have hnonneg := h.mantissa_nonneg
    have hle := mantissa_le seconds
    have ha : (mantissa seconds).toNat < 16 := by omega
    refine ⟨.ofNat ((mantissa seconds).toNat * 16 + exponent seconds), ?_, ?_⟩
    · rw [hunfold, if_neg hcarry]
      exact if_pos ⟨hnonneg, by omega, hlt⟩
    · have hcast : (((mantissa seconds).toNat : ℤ) : ℚ) = mantissa seconds := by
        rw [Int.toNat_of_nonneg hnonneg]
      rw [emfToSeconds_ofNat ha hlt, ← hcast]
      push_cast
      ring

theorem le_of_secondsToEmf {v : UInt8} (code : secondsToEmf seconds = .ok v) : seconds ≤ 4032 := by
  by_contra hlarge
  have hratio : 64512 < seconds / grpC := by
    rw [lt_div_iff₀ (by norm_num [grpC])]
    norm_num [grpC]
    linarith
  unfold secondsToEmf at code
  split at code
  · cases code
  · split at code
    · cases code
    · rename_i b hb
      have hbound : seconds / grpC < 2 ^ b ∧ 2 ^ (b - 1) ≤ seconds / grpC := by
        by_contra hout
        rw [if_pos hout] at code
        cases code
      rw [if_neg (not_not.mpr hbound)] at code
      have hlt := hbound.1
      have hexp : 15 ≤ b - 1 := by
        by_contra hsmall
        have hpow : (2 : ℚ) ^ b ≤ 2 ^ 15 := pow_le_pow_right₀ (by norm_num) (by omega)
        linarith
      dsimp only at code
      by_cases hcarry : ⌈16 * (seconds / (grpC * 2 ^ (b - 1)) - 1) - 1 / 2⌉ = 16
      · rw [if_pos hcarry, if_neg fun room => by omega] at code
        cases code
      · rw [if_neg hcarry] at code
        have hroom : ¬ (0 ≤ ⌈16 * (seconds / (grpC * 2 ^ (b - 1)) - 1) - 1 / 2⌉ ∧
            ⌈16 * (seconds / (grpC * 2 ^ (b - 1)) - 1) - 1 / 2⌉ < 16 ∧ b - 1 < 16) := by
          intro room
          have htop : b - 1 = 15 := by omega
          have hmantissa : (15 : ℤ) < ⌈16 * (seconds / (grpC * 2 ^ (b - 1)) - 1) - 1 / 2⌉ := by
            rw [Int.lt_ceil, htop, ← div_div]
            have hhalf : 63 / 32 < seconds / grpC / 2 ^ 15 := by
              rw [lt_div_iff₀ (by norm_num)]
              norm_num
              linarith
            push_cast
            linarith
          omega
        rw [if_neg hroom] at code
        cases code

theorem accepted_iff : Accepted seconds ↔ ∃ v, secondsToEmf seconds = .ok v := by
  constructor
  · intro h
    obtain ⟨v, hv, -⟩ := h.secondsToEmf_eq
    exact ⟨v, hv⟩
  · intro h
    obtain ⟨v, hv⟩ := h
    refine ⟨?_, le_of_secondsToEmf hv⟩
    by_contra hsmall
    rw [secondsToEmf, if_pos (not_le.mp hsmall)] at hv
    cases hv

/-- The validity time announced is at most the time it stands for just if coding rounds down. -/
theorem Accepted.emfToSeconds_le_iff (h : Accepted seconds) {v : UInt8}
    (code : secondsToEmf seconds = .ok v) : emfToSeconds v ≤ seconds ↔ RoundsDown seconds := by
  obtain ⟨w, hw, hval⟩ := h.secondsToEmf_eq
  obtain rfl : w = v := by
    rw [hw] at code
    exact Except.ok.inj code
  have hpow : (0 : ℚ) < 2 ^ exponent seconds := by positivity
  have hc : (0 : ℚ) < grpC := by norm_num [grpC]
  calc emfToSeconds w ≤ seconds
      ↔ (1 + mantissa seconds / 16 : ℚ) ≤ seconds / grpC / 2 ^ exponent seconds := by
        rw [hval, le_div_iff₀ hpow, le_div_iff₀ hc]
        constructor <;> intro hle <;> linarith
    _ ↔ (mantissa seconds : ℚ) ≤ sixteenths seconds := by
        rw [sixteenths_eq]
        constructor <;> intro hle <;> linarith
    _ ↔ RoundsDown seconds := ceil_sub_half_le_iff _

end Accepted

end Egsr.Grp.Emf
