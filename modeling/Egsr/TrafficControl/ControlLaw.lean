import Egsr.Lib.InverseSqrt
import Egsr.TrafficControl.FqCoDelQueueDisc
import Egsr.TrafficControl.TimedCalls

/-! The law that sets the next drop time: the value for one over the square
root of the count is never too large, so the step that improves it neither
wraps nor overflows, and the next drop time is never later than the law. -/

namespace Egsr.TrafficControl.ControlLaw

open Lib.Outcome Lib.Run QueueDisc List

/-- No subtraction of the step goes below zero and no product of it exceeds 64 bits. -/
structure Exact (q : CoDelQueueDisc) : Prop where
  square : (q.m_recInvSqrt.toNat * 2 ^ 16) * (q.m_recInvSqrt.toNat * 2 ^ 16) < 2 ^ 64
  product : q.m_count.toNat * q.m_recInvSqrt.toNat ^ 2 < 2 ^ 64
  difference : q.m_count.toNat * q.m_recInvSqrt.toNat ^ 2 ≤ 3 * 2 ^ 32
  last : (3 * 2 ^ 32 - q.m_count.toNat * q.m_recInvSqrt.toNat ^ 2) / 4 *
    (q.m_recInvSqrt.toNat * 2 ^ 16) < 2 ^ 64

theorem toNat_shifted (r : UInt16) :
    (r.toUInt32 <<< REC_INV_SQRT_SHIFT.toUInt32).toNat = r.toNat * 2 ^ 16 := by
  have hr := r.toNat_lt
  rw [UInt32.toNat_shiftLeft, UInt16.toNat_toUInt32, Nat.shiftLeft_eq]
  exact Nat.mod_eq_of_lt (by change _ * 2 ^ 16 < _; omega)

theorem toNat_square {r : UInt16} {invsqrt : UInt64} (h : invsqrt.toNat = r.toNat * 2 ^ 16)
    (small : (r.toNat * 2 ^ 16) * (r.toNat * 2 ^ 16) < 2 ^ 64) :
    ((invsqrt * invsqrt) >>> 32).toUInt32.toNat = r.toNat ^ 2 := by
  have hsplit : r.toNat * 2 ^ 16 * (r.toNat * 2 ^ 16) = r.toNat ^ 2 * 2 ^ 32 := by ring
  have hsq : r.toNat ^ 2 < 2 ^ 32 := by
    rw [hsplit] at small
    omega
  rw [UInt64.toNat_toUInt32, UInt64.toNat_shiftRight, UInt64.toNat_mul, h,
    Nat.mod_eq_of_lt small, hsplit, Nat.shiftRight_eq_div_pow]
  change _ / 2 ^ 32 % 2 ^ 32 = _
  rw [Nat.mul_div_cancel _ (by decide), Nat.mod_eq_of_lt hsq]

theorem toNat_newtonStep {q : CoDelQueueDisc} (h : Exact q) : q.newtonStep.m_recInvSqrt.toNat =
    (3 * 2 ^ 32 - q.m_count.toNat * q.m_recInvSqrt.toNat ^ 2) / 4 *
    (q.m_recInvSqrt.toNat * 2 ^ 16) / 2 ^ 31 / 2 ^ 16 %
      2 ^ 16 := by
  have hshifted := toNat_shifted q.m_recInvSqrt
  rw [← UInt32.toNat_toUInt64] at hshifted
  have hsquare := toNat_square hshifted h.square
  rw [CoDelQueueDisc.newtonStep]
  dsimp only
  generalize (q.m_recInvSqrt.toUInt32 <<< REC_INV_SQRT_SHIFT.toUInt32).toUInt64 = invsqrt at *
  rw [← UInt32.toNat_toUInt64] at hsquare
  generalize ((invsqrt * invsqrt) >>> 32).toUInt32.toUInt64 = invsqrt2 at *
  have hprod : (q.m_count.toUInt64 * invsqrt2).toNat =
      q.m_count.toNat * q.m_recInvSqrt.toNat ^ 2 := by
    rw [UInt64.toNat_mul, UInt32.toNat_toUInt64, hsquare, Nat.mod_eq_of_lt h.product]
  have hdiff : (((3 : UInt64) <<< 32) - q.m_count.toUInt64 * invsqrt2).toNat =
      3 * 2 ^ 32 - q.m_count.toNat * q.m_recInvSqrt.toNat ^ 2 := by
    have hle : q.m_count.toUInt64 * invsqrt2 ≤ (3 : UInt64) <<< 32 := by
      rw [UInt64.le_iff_toNat_le, hprod]
      exact h.difference
    rw [UInt64.toNat_sub_of_le _ _ hle, hprod]
    rfl
  rw [UInt64.toNat_toUInt16, UInt64.toNat_shiftRight, UInt64.toNat_shiftRight, UInt64.toNat_mul,
    UInt64.toNat_shiftRight, hdiff, hshifted, Nat.shiftRight_eq_div_pow, Nat.shiftRight_eq_div_pow,
      Nat.shiftRight_eq_div_pow]
  change _ / 2 ^ 2 * _ % 2 ^ 64 / 2 ^ 31 / 2 ^ 16 % 2 ^ 16 = _
  rw [show (2 : ℕ) ^ 2 = 4 by rfl, Nat.mod_eq_of_lt h.last]

/-- The step on numbers: what is left of it, with 16 bits behind the point. -/
def truncatedStep (c r : ℕ) : ℕ := (3 * 2 ^ 32 - c * r ^ 2) / 4 * (r * 2 ^ 16) / 2 ^ 31 / 2 ^ 16

theorem truncatedStep_eq (c r : ℕ) : truncatedStep c r =
    (3 * 2 ^ 32 - c * r ^ 2) / 4 * r / 2 ^ 31 := by
  rw [truncatedStep, Nat.div_div_eq_div_mul, ← mul_assoc, Nat.mul_div_mul_right _ _ (by decide)]

theorem truncatedStep_le {c r : ℕ} (h : c * r ^ 2 ≤ 3 * 2 ^ 32) :
    (truncatedStep c r : ℚ) * 2 ^ 33 ≤ (3 * 2 ^ 32 - c * r ^ 2) * r := by
  have hnat : truncatedStep c r * 2 ^ 33 ≤ (3 * 2 ^ 32 - c * r ^ 2) * r := by
    have hout := Nat.div_mul_le_self ((3 * 2 ^ 32 - c * r ^ 2) / 4 * r) (2 ^ 31)
    have hin := Nat.mul_le_mul_right r (Nat.div_mul_le_self (3 * 2 ^ 32 - c * r ^ 2) 4)
    rw [← truncatedStep_eq] at hout
    calc truncatedStep c r * 2 ^ 33 = truncatedStep c r * 2 ^ 31 * 4 := by ring
      _ ≤ (3 * 2 ^ 32 - c * r ^ 2) / 4 * r * 4 := Nat.mul_le_mul_right 4 hout
      _ = (3 * 2 ^ 32 - c * r ^ 2) / 4 * 4 * r := by ring
      _ ≤ (3 * 2 ^ 32 - c * r ^ 2) * r := hin
  have hcast : ((truncatedStep c r * 2 ^ 33 : ℕ) : ℚ) ≤ ((3 * 2 ^ 32 - c * r ^ 2 : ℕ) * r : ℕ) := by
    exact_mod_cast hnat
  rw [Nat.cast_mul, Nat.cast_mul, Nat.cast_sub h] at hcast
  norm_num at hcast ⊢
  linarith

theorem mul_sq_truncatedStep {c r : ℕ} (h : c * r ^ 2 ≤ 3 * 2 ^ 32) : c * truncatedStep c r ^ 2 ≤
    2 ^ 32 := by
  have hfour : (c : ℚ) * (r / 2 ^ 16) ^ 2 ≤ 4 := by
    have hcast : (c : ℚ) * r ^ 2 ≤ 3 * 2 ^ 32 := by exact_mod_cast h
    rw [div_pow, ← mul_div_assoc, div_le_iff₀ (by positivity)]
    linarith
  have hstep : (truncatedStep c r : ℚ) / 2 ^ 16 ≤
      Lib.InverseSqrt.newtonStep (c : ℚ) (r / 2 ^ 16) := by
    have hle := truncatedStep_le h
    rw [Lib.InverseSqrt.newtonStep]
    linarith
  have hone := Lib.InverseSqrt.truncated_le (Nat.cast_nonneg c) hfour (by positivity) hstep
  rw [div_pow, ← mul_div_assoc, div_le_iff₀ (by positivity)] at hone
  have hbound : (c : ℚ) * truncatedStep c r ^ 2 ≤ 2 ^ 32 := by linarith
  exact_mod_cast hbound

theorem truncatedStep_lt {c r : ℕ} (count : 1 ≤ c) (hr : r < 2 ^ 16) (h : c * r ^ 2 ≤ 3 * 2 ^ 32) :
    truncatedStep c r < 2 ^ 16 := by
  have hle := truncatedStep_le h
  have hcount : (1 : ℚ) ≤ c := by exact_mod_cast count
  have hr' : (r : ℚ) < 2 ^ 16 := by exact_mod_cast hr
  have hnonneg : (0 : ℚ) ≤ r := Nat.cast_nonneg r
  have hmore : (r : ℚ) ^ 2 * r ≤ c * r ^ 2 * r :=
    mul_le_mul_of_nonneg_right (le_mul_of_one_le_left (sq_nonneg _) hcount) hnonneg
  have hgap : 0 < ((2 : ℚ) ^ 16 - r) ^ 2 * (2 * 2 ^ 16 + r) :=
    mul_pos (pow_pos (sub_pos.mpr hr') 2) (by positivity)
  have hbound : (truncatedStep c r : ℚ) < 2 ^ 16 := by linarith
  exact_mod_cast hbound

theorem truncatedStep_pos {c r : ℕ} (small : c < 2 ^ 31) (positive : 1 ≤ r)
    (h : c * r ^ 2 ≤ 2 * 2 ^ 32) : 1 ≤ truncatedStep c r := by
  rw [truncatedStep_eq, Nat.le_div_iff_mul_le (by decide), one_mul]
  rcases Nat.eq_or_lt_of_le positive with rfl | hmore
  · omega
  · calc 2 ^ 31 = 2 ^ 30 * 2 := rfl
      _ ≤ (3 * 2 ^ 32 - c * r ^ 2) / 4 * r := Nat.mul_le_mul (by omega) hmore

theorem newtonStep_spec {q : CoDelQueueDisc} (count : 1 ≤ q.m_count.toNat)
    (small : q.m_count.toNat < 2 ^ 31) (positive : 1 ≤ q.m_recInvSqrt.toNat)
    (old : q.m_count.toNat * q.m_recInvSqrt.toNat ^ 2 ≤ 2 * 2 ^ 32) :
    Exact q ∧ 1 ≤ q.newtonStep.m_recInvSqrt.toNat ∧
      q.m_count.toNat * q.newtonStep.m_recInvSqrt.toNat ^ 2 ≤ 2 ^ 32 := by
  have hr := q.m_recInvSqrt.toNat_lt
  have hshift : q.m_recInvSqrt.toNat * 2 ^ 16 < 2 ^ 32 := by
    omega
  have hthree : q.m_count.toNat * q.m_recInvSqrt.toNat ^ 2 ≤ 3 * 2 ^ 32 := by
    omega
  have hexact : Exact q := by
    refine ⟨?_, by omega, hthree, ?_⟩
    · exact (Nat.mul_lt_mul'' hshift hshift).trans_eq (by norm_num)
    · exact (Nat.mul_lt_mul'' (show _ < 2 ^ 32 by omega) hshift).trans_eq (by norm_num)
  have hnew : q.newtonStep.m_recInvSqrt.toNat =
      truncatedStep q.m_count.toNat q.m_recInvSqrt.toNat := by
    rw [toNat_newtonStep hexact]
    exact Nat.mod_eq_of_lt (truncatedStep_lt count hr hthree)
  rw [hnew]
  exact ⟨hexact, truncatedStep_pos small positive old, mul_sq_truncatedStep hthree⟩

/-- By how much `ControlLaw` makes the next drop time later. -/
def spacing (q : CoDelQueueDisc) (t : UInt32) : ℕ := (q.controlLaw t - t).toNat

theorem spacing_eq (q : CoDelQueueDisc) (t : UInt32) :
    spacing q t = (time2CoDel q.m_interval).toNat * q.m_recInvSqrt.toNat / 2 ^ 16 := by
  have hinterval := (time2CoDel q.m_interval).toNat_lt
  have hr := q.m_recInvSqrt.toNat_lt
  have hshift := toNat_shifted q.m_recInvSqrt
  have hprod : (time2CoDel q.m_interval).toNat * (q.m_recInvSqrt.toNat * 2 ^ 16) < 2 ^ 64 :=
    (Nat.mul_lt_mul'' hinterval (show _ < 2 ^ 32 by omega)).trans_eq (by norm_num)
  have hquot : (time2CoDel q.m_interval).toNat * (q.m_recInvSqrt.toNat * 2 ^ 16) / 2 ^ 32 <
      2 ^ 32 := by
    omega
  rw [spacing, CoDelQueueDisc.controlLaw, UInt32.add_comm, UInt32.add_sub_cancel, reciprocalDivide,
    UInt64.toNat_toUInt32,
    UInt64.toNat_shiftRight, UInt64.toNat_mul, UInt32.toNat_toUInt64, UInt32.toNat_toUInt64, hshift,
      Nat.mod_eq_of_lt hprod,
    Nat.shiftRight_eq_div_pow]
  change _ / 2 ^ 32 % 2 ^ 32 = _
  rw [Nat.mod_eq_of_lt hquot, ← mul_assoc, show (2 : ℕ) ^ 32 = 2 ^ 16 * 2 ^ 16 by norm_num,
    Nat.mul_div_mul_right _ _ (by decide)]

/-- Not later than the interval divided by the square root of the count, and forward. -/
structure Lawful (q : CoDelQueueDisc) (t : UInt32) : Prop where
  notLater : spacing q t ^ 2 * q.m_count.toNat ≤ (time2CoDel q.m_interval).toNat ^ 2
  forward : 2 ^ 16 ≤ (time2CoDel q.m_interval).toNat →
    1 ≤ spacing q t ∧ spacing q t < (time2CoDel q.m_interval).toNat
  after : 2 ^ 16 ≤ (time2CoDel q.m_interval).toNat → (time2CoDel q.m_interval).toNat ≤ 2 ^ 31 →
    codelTimeAfter (q.controlLaw t) t

theorem controlLaw_spec {q : CoDelQueueDisc} (positive : 1 ≤ q.m_recInvSqrt.toNat)
    (bounded : q.m_count.toNat * q.m_recInvSqrt.toNat ^ 2 ≤ 2 ^ 32) (t : UInt32) : Lawful q t := by
  have hspacing := spacing_eq q t
  have hr := q.m_recInvSqrt.toNat_lt
  have hcut := Nat.div_mul_le_self ((time2CoDel q.m_interval).toNat * q.m_recInvSqrt.toNat) (2 ^ 16)
  have hforward : 2 ^ 16 ≤ (time2CoDel q.m_interval).toNat →
      1 ≤ spacing q t ∧ spacing q t < (time2CoDel q.m_interval).toNat := by
    intro hlong
    rw [hspacing]
    constructor
    · rw [Nat.le_div_iff_mul_le (by decide)]
      exact (one_mul _).trans_le (hlong.trans (Nat.le_mul_of_pos_right _ positive))
    · rw [Nat.div_lt_iff_lt_mul (by decide)]
      exact Nat.mul_lt_mul_of_pos_left hr (by omega)
  refine ⟨?_, hforward, fun hlong hshort => ?_⟩
  · rw [← hspacing] at hcut
    have hsq : (spacing q t * 2 ^ 16) ^ 2 * q.m_count.toNat ≤
      (time2CoDel q.m_interval).toNat ^ 2 * 2 ^ 32 :=
      calc (spacing q t * 2 ^ 16) ^ 2 * q.m_count.toNat
          ≤ ((time2CoDel q.m_interval).toNat * q.m_recInvSqrt.toNat) ^ 2 * q.m_count.toNat :=
            Nat.mul_le_mul_right _ (Nat.pow_le_pow_left hcut 2)
        _ = (time2CoDel q.m_interval).toNat ^ 2 * (q.m_count.toNat * q.m_recInvSqrt.toNat ^ 2) := by
          ring
        _ ≤ (time2CoDel q.m_interval).toNat ^ 2 * 2 ^ 32 := Nat.mul_le_mul_left _ bounded
    refine Nat.le_of_mul_le_mul_right ?_ (show 0 < 2 ^ 32 by decide)
    calc spacing q t ^ 2 * q.m_count.toNat * 2 ^ 32 =
      (spacing q t * 2 ^ 16) ^ 2 * q.m_count.toNat := by ring
      _ ≤ _ := hsq
  · obtain ⟨hpos, hless⟩ := hforward hlong
    rw [codelTimeAfter, codelTimeDiff,
      if_pos (show (q.controlLaw t - t).toNat < 0x80000000 from hless.trans_le hshort)]
    exact decide_eq_true (by exact_mod_cast hpos)

/-! ## The variables in a run -/

structure Fits (q : CoDelQueueDisc) : Prop where
  positive : 1 ≤ q.m_recInvSqrt.toNat
  bounded : q.m_count.toNat * q.m_recInvSqrt.toNat ^ 2 ≤ 2 ^ 32

structure Inv (q : CoDelQueueDisc) : Prop extends Fits q where
  last : q.m_lastCount.toNat ≤ q.m_count.toNat
  small : q.m_count.toNat < 2 ^ 31
  dropping : q.m_dropping → 1 ≤ q.m_count.toNat

inductive Use where
  | newtonStep (q : CoDelQueueDisc)
  | controlLaw (q : CoDelQueueDisc) (t : UInt32)
deriving DecidableEq

namespace Use

def m_count : Use → ℕ
  | newtonStep q => q.m_count.toNat
  | controlLaw q _ => q.m_count.toNat

def Right : Use → Prop
  | newtonStep q =>
    Exact q ∧ 1 ≤ q.newtonStep.m_recInvSqrt.toNat ∧
      q.m_count.toNat * q.newtonStep.m_recInvSqrt.toNat ^ 2 ≤ 2 ^ 32
  | controlLaw q t => Lawful q t

end Use

def AllRight (uses : List Use) : Prop := ∀ u ∈ uses, u.Right

def AllSmall (uses : List Use) : Prop := ∀ u ∈ uses, u.m_count < 2 ^ 31

open CoDelDisc

def enterUses (q : CoDelQueueDisc) (now : UInt32) : List Use :=
  let delta : ℤ := codelTimeDiff q.m_count q.m_lastCount
  if 1 < delta ∧ codelTimeBefore (now - q.m_dropNext) (16 * time2CoDel q.m_interval) then
    let q := { q with m_count := q.m_count - q.m_lastCount }
    [.newtonStep q,
      .controlLaw { q.newtonStep with m_dropping := true, m_lastCount := q.m_count } now]
  else
    let q := { q with m_count := 1, m_recInvSqrt := 0xFFFF }
    [.controlLaw { q with m_dropping := true, m_lastCount := q.m_count } now]

def keepUses (ok : Bool) (q : CoDelQueueDisc) : List Use :=
  if ok then [.controlLaw q q.m_dropNext] else []

def countUse (q : CoDelQueueDisc) : Use := .newtonStep { q with m_count := q.m_count + 1 }

def whileUses (now : ℕ) (item : QueueDiscItem) : List QueueDiscItem → CoDelDisc → List Use
  | [], d => if d.own.m_dropping ∧
    codelTimeAfterEq (time2CoDel now) d.own.m_dropNext then [countUse d.own] else []
  | next :: rest, d =>
    if d.own.m_dropping ∧ codelTimeAfterEq (time2CoDel now) d.own.m_dropNext then
      let out := okToDrop now next (popped next rest (dropCounted now item d))
      countUse d.own ::
        (keepUses out.1 out.2.own ++ whileUses now next rest (keepDropping out.1 out.2))
    else []

def dequeueUses (now : ℕ) (d : CoDelDisc) : List Use :=
  let q := d.own
  match q.internalQueue with
  | [] => []
  | item :: rest =>
    let out := okToDrop now item (popped item rest d)
    let d := out.2
    let q := d.own
    if q.m_dropping then
      if !out.1 then [] else whileUses now item q.internalQueue d
    else if out.1 then
      enterUses (nextItem now (d.dropAfterDequeue now item .TARGET_EXCEEDED_DROP)).2.own
        (time2CoDel now)
    else []

variable {q : CoDelQueueDisc} (now : ℕ) (item : QueueDiscItem) {d : CoDelDisc}

theorem Fits.newtonStep (h : Fits q) {c : UInt32} (count : 1 ≤ c.toNat) (small : c.toNat < 2 ^ 31)
    (old : c.toNat * q.m_recInvSqrt.toNat ^ 2 ≤ 2 * 2 ^ 32) :
    Fits { q with m_count := c }.newtonStep ∧ (Use.newtonStep { q with m_count := c }).Right := by
  obtain ⟨hexact, hpositive, hbounded⟩ :=
    @newtonStep_spec { q with m_count := c } count small h.positive old
  refine ⟨?_, hexact, hpositive, hbounded⟩
  obtain ⟨r, hr⟩ := CoDelQueueDisc.newtonStep_eq { q with m_count := c }
  rw [hr] at hpositive hbounded ⊢
  exact ⟨hpositive, hbounded⟩

theorem Inv.counted (h : Inv q) (dropping : q.m_dropping) (small : (countUse q).m_count < 2 ^ 31) :
    Inv { q with m_count := q.m_count + 1 }.newtonStep ∧ (countUse q).Right := by
  have hcount := h.dropping dropping
  have hmore : (q.m_count + 1).toNat = q.m_count.toNat + 1 := by
    have hsmall := h.small
    rw [UInt32.toNat_add]
    exact Nat.mod_eq_of_lt (by change _ + 1 < 2 ^ 32; omega)
  have hone : 1 ≤ (q.m_count + 1).toNat := by omega
  have hlast : q.m_lastCount.toNat ≤ (q.m_count + 1).toNat := by
    rw [hmore]
    exact h.last.trans (Nat.le_succ _)
  have hold : (q.m_count + 1).toNat * q.m_recInvSqrt.toNat ^ 2 ≤ 2 * 2 ^ 32 :=
    calc (q.m_count + 1).toNat * q.m_recInvSqrt.toNat ^ 2
        ≤ 2 * q.m_count.toNat * q.m_recInvSqrt.toNat ^ 2 := Nat.mul_le_mul_right _ (by omega)
      _ = 2 * (q.m_count.toNat * q.m_recInvSqrt.toNat ^ 2) := mul_assoc ..
      _ ≤ 2 * 2 ^ 32 := Nat.mul_le_mul_left 2 h.bounded
  obtain ⟨hfits, hright⟩ := h.toFits.newtonStep hone small hold
  refine ⟨?_, hright⟩
  obtain ⟨r, hr⟩ := CoDelQueueDisc.newtonStep_eq { q with m_count := q.m_count + 1 }
  rw [hr] at hfits ⊢
  exact ⟨hfits, hlast, small, fun _ => hone⟩

theorem Inv.enterDropping (h : Inv q) (now : UInt32) : Inv (q.enterDropping now) ∧
    AllRight (enterUses q now) := by
  rw [CoDelQueueDisc.enterDropping, enterUses]
  dsimp only
  split_ifs with hsoon
  · have hsub : (q.m_count - q.m_lastCount).toNat = q.m_count.toNat - q.m_lastCount.toNat :=
      UInt32.toNat_sub_of_le _ _ h.last
    have hsmall : (q.m_count - q.m_lastCount).toNat < 2 ^ 31 := by
      rw [hsub]
      exact (Nat.sub_le _ _).trans_lt h.small
    have hone : 1 ≤ (q.m_count - q.m_lastCount).toNat := by
      have hdelta := hsoon.1
      rw [codelTimeDiff, if_pos (show _ < 0x80000000 from hsmall)] at hdelta
      omega
    have hold : (q.m_count - q.m_lastCount).toNat * q.m_recInvSqrt.toNat ^ 2 ≤ 2 ^ 32 := by
      rw [hsub]
      exact (Nat.mul_le_mul_right _ (Nat.sub_le _ _)).trans h.bounded
    obtain ⟨hfits, hright⟩ := h.toFits.newtonStep hone hsmall (hold.trans (by norm_num))
    obtain ⟨r, hr⟩ := CoDelQueueDisc.newtonStep_eq { q with m_count := q.m_count - q.m_lastCount }
    rw [hr] at hfits ⊢
    refine ⟨⟨⟨hfits.positive, hfits.bounded⟩, le_rfl, hsmall, fun _ => hone⟩, ?_⟩
    intro u hu
    rcases mem_pair.mp hu with rfl | rfl
    · exact hright
    · refine controlLaw_spec ?_ ?_ now
      · exact hfits.positive
      · exact hfits.bounded
  · have hpositive : 1 ≤ (0xFFFF : UInt16).toNat := by decide
    have hbounded : (1 : UInt32).toNat * (0xFFFF : UInt16).toNat ^ 2 ≤ 2 ^ 32 := by decide
    have hsmall : (1 : UInt32).toNat < 2 ^ 31 := by decide
    refine ⟨⟨⟨hpositive, hbounded⟩, le_rfl, hsmall, fun _ => le_rfl⟩, ?_⟩
    intro u hu
    rw [mem_singleton.mp hu]
    refine controlLaw_spec ?_ ?_ now
    · exact hpositive
    · exact hbounded

theorem dropCounted_own : (dropCounted now item d).own =
    { d.own with m_count := d.own.m_count + 1 }.newtonStep := by
  rw [dropCounted]
  dsimp only
  rw [dropAfterDequeue_own]

theorem Inv.leave (h : Inv q) {q' : CoDelQueueDisc} (count : q'.m_count = q.m_count)
    (lastCount : q'.m_lastCount = q.m_lastCount) (recInvSqrt : q'.m_recInvSqrt = q.m_recInvSqrt)
    (left : q'.m_dropping = false) : Inv q' := by
  refine ⟨⟨?_, ?_⟩, ?_, ?_, fun hdropping =>
    absurd (left.symm.trans hdropping) Bool.false_ne_true⟩ <;>
    simp only [count, lastCount, recInvSqrt, h.positive, h.bounded, h.last, h.small]

theorem Inv.okToDrop (h : Inv d.own) : Inv (okToDrop now item d).2.own := by
  rw [CoDelDisc.okToDrop]
  split_ifs <;> exact ⟨⟨h.positive, h.bounded⟩, h.last, h.small, h.dropping⟩

theorem Inv.popped (h : Inv d.own) (rest : List QueueDiscItem) : Inv (popped item rest d).own := by
  rw [CoDelDisc.popped, packetDequeued_own]
  exact ⟨⟨h.positive, h.bounded⟩, h.last, h.small, h.dropping⟩

theorem Inv.keepDropping (h : Inv d.own) (ok : Bool) : Inv (keepDropping ok d).own ∧
    AllRight (keepUses ok d.own) := by
  cases ok with
  | true =>
    refine ⟨⟨⟨h.positive, h.bounded⟩, h.last, h.small, h.dropping⟩, fun u hu => ?_⟩
    rw [mem_singleton.mp hu]
    exact controlLaw_spec h.positive h.bounded _
  | false => exact ⟨h.leave rfl rfl rfl rfl, forall_mem_nil _⟩

theorem Inv.dropWhile {rest : List QueueDiscItem} (h : Inv d.own)
    (small : AllSmall (whileUses now item rest d)) :
    Inv (dropWhile now item rest d).2.own ∧ AllRight (whileUses now item rest d) := by
  induction rest generalizing item d with
  | nil =>
    rw [CoDelDisc.dropWhile, whileUses] at *
    split_ifs at small ⊢ with hdrop
    · obtain ⟨hcounted, hright⟩ := h.counted hdrop.1 (small _ mem_cons_self)
      rw [← dropCounted_own now item] at hcounted
      refine ⟨hcounted.leave rfl rfl rfl rfl, fun u hu => ?_⟩
      rw [mem_singleton.mp hu]
      exact hright
    · exact ⟨h, forall_mem_nil _⟩
  | cons next rest ih =>
    rw [CoDelDisc.dropWhile, whileUses] at *
    split_ifs at small ⊢ with hdrop
    · obtain ⟨hcounted, hright⟩ := h.counted hdrop.1 (small _ mem_cons_self)
      rw [← dropCounted_own now item] at hcounted
      have hexamined := (hcounted.popped next rest).okToDrop now next
      dsimp only at small ⊢
      generalize CoDelDisc.okToDrop now next (CoDelDisc.popped next rest (dropCounted now item d)) =
        out at small hexamined ⊢
      obtain ⟨hkept, hlaw⟩ := hexamined.keepDropping out.1
      obtain ⟨hinv, hrest⟩ := ih next hkept fun u hu =>
        small u (mem_cons_of_mem _ (mem_append_right _ hu))
      refine ⟨hinv, fun u hu => ?_⟩
      rcases mem_cons.mp hu with rfl | hu
      · exact hright
      · exact (mem_append.mp hu).elim (hlaw u) (hrest u)
    · exact ⟨h, forall_mem_nil _⟩

theorem Inv.nextItem (h : Inv d.own) : Inv (nextItem now d).2.own := by
  rw [CoDelDisc.nextItem]
  cases d.own.internalQueue with
  | nil => exact ⟨⟨h.positive, h.bounded⟩, h.last, h.small, h.dropping⟩
  | cons next rest => exact (h.popped next rest).okToDrop now next

theorem Inv.doDequeue (h : Inv d.own) (small : AllSmall (dequeueUses now d)) :
    Inv (doDequeue now d).2.own ∧ AllRight (dequeueUses now d) := by
  rw [CoDelDisc.doDequeue, dequeueUses] at *
  dsimp only at small ⊢
  cases hqueue : d.own.internalQueue with
  | nil => exact ⟨h.leave rfl rfl rfl rfl, forall_mem_nil _⟩
  | cons item rest =>
    rw [hqueue] at small
    have hexamined := (h.popped item rest).okToDrop now item
    dsimp only at small ⊢
    generalize CoDelDisc.okToDrop now item (CoDelDisc.popped item rest d) = out at small hexamined ⊢
    obtain ⟨ok, d'⟩ := out
    rw [dropOrNot]
    dsimp only at small hexamined ⊢
    split_ifs at small ⊢ with hdropping hok hok
    · exact ⟨hexamined.leave rfl rfl rfl rfl, forall_mem_nil _⟩
    · exact hexamined.dropWhile now item small
    · rw [← dropAfterDequeue_own d' item .TARGET_EXCEEDED_DROP now] at hexamined
      exact (hexamined.nextItem now).enterDropping _
    · exact ⟨hexamined, forall_mem_nil _⟩

/-! ## Recorded runs -/

structure Recorded where
  codel : CoDelQueueDisc
  uses : List Use
deriving DecidableEq

def erase (d : QueueDisc Recorded) : CoDelDisc := d.mapOwn Recorded.codel

def record (uses : List Use) (d : CoDelDisc) : QueueDisc Recorded := d.mapOwn fun q => ⟨q, uses⟩

instance : Subclass Recorded where
  doEnqueue _ item d :=
    let out := CoDelDisc.doEnqueue item (erase d)
    .ok (out.1, record d.own.uses out.2)
  doDequeue now d :=
    let out := CoDelDisc.doDequeue now (erase d)
    .ok (out.1, record (d.own.uses ++ dequeueUses now (erase d)) out.2)

theorem erase_maps : Maps Recorded.codel where
  doEnqueue _ _ _ := rfl
  doDequeue _ _ := rfl

def start (clock : ℕ) (d : CoDelDisc) : Timed CoDelQueueDisc :=
  let q := d.own
  ⟨clock, { d with own := { q with
    m_count := 0, m_lastCount := 0, m_dropping := false, m_recInvSqrt := 0xFFFF
    m_firstAboveTime := 0, m_dropNext := 0 } }⟩

def recordedRun (s : Timed CoDelQueueDisc) (as : List (ℕ × Call)) : Except Fault (Timed Recorded) :=
  exec Timed.step (s.map fun q => ⟨q, []⟩) as

theorem recordedRun_erase (s : Timed CoDelQueueDisc) (as : List (ℕ × Call)) :
    exec Timed.step s as = (recordedRun s as).map fun r => r.map Recorded.codel :=
  erase_maps.exec (s.map fun q => ⟨q, []⟩) as

def Recorded.Holds (r : Recorded) : Prop := AllSmall r.uses → Inv r.codel ∧ AllRight r.uses

theorem enqueue_holds (now : ℕ) : EnqueueKeeps now Recorded.Holds := by
  intro item d h
  change Recorded.Holds ⟨(CoDelDisc.doEnqueue item (erase d)).2.own, d.own.uses⟩
  intro small
  obtain ⟨hinv, hright⟩ := h small
  refine ⟨?_, hright⟩
  rw [CoDelDisc.doEnqueue]
  split_ifs <;> exact ⟨⟨hinv.positive, hinv.bounded⟩, hinv.last, hinv.small, hinv.dropping⟩

theorem dequeue_holds (now : ℕ) : DequeueKeeps now Recorded.Holds := by
  intro d h
  change Recorded.Holds
    ⟨(CoDelDisc.doDequeue now (erase d)).2.own, d.own.uses ++ dequeueUses now (erase d)⟩
  intro small
  obtain ⟨hinv, hright⟩ := h fun u hu => small u (mem_append_left _ hu)
  obtain ⟨hinv', hright'⟩ :=
    Inv.doDequeue now (d := erase d) hinv fun u hu => small u (mem_append_right _ hu)
  exact ⟨hinv', fun u hu => (mem_append.mp hu).elim (hright u) (hright' u)⟩

theorem start_holds (clock : ℕ) (d : CoDelDisc) :
    Recorded.Holds ⟨(start clock d).disc.own, []⟩ := by
  have hpositive : 1 ≤ (0xFFFF : UInt16).toNat := by decide
  have hbounded : (0 : UInt32).toNat * (0xFFFF : UInt16).toNat ^ 2 ≤ 2 ^ 32 := by decide
  have hsmall : (0 : UInt32).toNat < 2 ^ 31 := by decide
  exact fun _ => ⟨⟨⟨hpositive, hbounded⟩, le_rfl, hsmall, nofun⟩, nofun⟩

theorem step_holds (r : Timed Recorded) (a : ℕ × Call) (r' : Timed Recorded) (h : r.disc.own.Holds)
    (hstep : r.step a = .ok r') : r'.disc.own.Holds :=
  ((Timed.step_keeps h (fun _ _ => enqueue_holds a.1) fun _ => dequeue_holds a.1).of_ok hstep).1

/-- In a run in which the counts stay small no step of the method goes wrong, and no drop time is
later than the law. -/
theorem control_law (clock : ℕ) (d : CoDelDisc) {as : List (ℕ × Call)} {s : Timed CoDelQueueDisc}
    (run : exec Timed.step (start clock d) as = .ok s) :
    ∃ r, recordedRun (start clock d) as = .ok r ∧ r.map Recorded.codel = s ∧
      (AllSmall r.disc.own.uses → AllRight r.disc.own.uses) := by
  rw [recordedRun_erase] at run
  obtain ⟨r, hr, herased⟩ := map_ok_inv run
  have hholds : r.disc.own.Holds :=
    exec_invariant (fun r a r' h _ hstep => step_holds r a r' h hstep) (start_holds clock d)
      (along_of_forall (fun _ _ => trivial) _ _) hr
  exact ⟨r, hr, herased, fun small => (hholds small).2⟩

def someCoDel : CoDelDisc := freshCoDel ⟨.PACKETS, 100⟩ 1500 100000000 5000000

def someDrops : List (ℕ × Call) :=
  ((range 8).map fun n => (0, .enqueue ⟨n, 1000, 0, 0, false⟩)) ++
    [(10000000, .dequeue), (120000000, .dequeue), (230000000, .dequeue), (290000000, .dequeue)]

theorem allSmall_of_counts {uses : List Use} {counts : List ℕ} (h : uses.map Use.m_count = counts)
    (small : ∀ c ∈ counts, c < 2 ^ 31) : AllSmall uses := by
  subst h
  exact forall_mem_map.mp small

theorem someDrops_uses :
    (recordedRun (start 0 someCoDel) someDrops).map (fun r => r.disc.own.uses.map Use.m_count) =
    .ok [1, 2, 2, 3] := by
  decide +kernel

theorem control_law_third_drop : ∃ r, recordedRun (start 0 someCoDel) someDrops = .ok r ∧
    r.disc.own.uses.map Use.m_count = [1, 2, 2, 3] ∧ AllRight r.disc.own.uses := by
  obtain ⟨r, hr, hcounts⟩ := map_ok_inv someDrops_uses
  have hrun : exec Timed.step (start 0 someCoDel) someDrops = .ok (r.map Recorded.codel) := by
    rw [recordedRun_erase, hr]
    rfl
  obtain ⟨r', hr', -, hright⟩ := control_law 0 someCoDel hrun
  obtain rfl : r' = r := Except.ok.inj (hr'.symm.trans hr)
  exact ⟨r', hr, hcounts, hright (allSmall_of_counts hcounts (by decide))⟩

/-- Not earlier than the interval divided by the square root of the count, except for what is cut
off: less than one of the value, less than one of the product. -/
def NotFaster : Use → Prop
  | .newtonStep _ => True
  | .controlLaw q t =>
    (time2CoDel q.m_interval).toNat ^ 2 ≤
      (spacing q t + (time2CoDel q.m_interval).toNat / 2 ^ 16 + 2) ^ 2 * q.m_count.toNat

instance : DecidablePred NotFaster
  | .newtonStep _ => isTrue trivial
  | .controlLaw .. => inferInstanceAs (Decidable (_ ≤ _))

/-- The one step to a count of two leaves the value for a count of four. -/
theorem second_drop_faster : ¬∀ clock d as r, recordedRun (start clock d) as = .ok r →
    AllSmall r.disc.own.uses → ∀ u ∈ r.disc.own.uses, NotFaster u := by
  intro h
  have hrun : (recordedRun (start 0 someCoDel) someDrops).map
      (fun r => (r.disc.own.uses.map Use.m_count, decide (∀ u ∈ r.disc.own.uses, NotFaster u))) =
        .ok ([1, 2, 2, 3], false) := by
    decide +kernel
  obtain ⟨r, hr, hout⟩ := map_ok_inv hrun
  obtain ⟨hcounts, hfaster⟩ := Prod.mk.inj hout
  exact of_decide_eq_false hfaster
    (h 0 someCoDel someDrops r hr (allSmall_of_counts hcounts (by decide)))

end Egsr.TrafficControl.ControlLaw
