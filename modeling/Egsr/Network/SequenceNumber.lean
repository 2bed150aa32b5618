import Mathlib.Algebra.Group.Nat.Defs
import Mathlib.Data.Nat.Basic
import Mathlib.Tactic.Common

/-! Sequence numbers of 32 bits. The comparisons are those of the source, on
the wrapped values; on numbers less than half of the range apart they are the
comparisons of the places in the stream. -/

namespace Egsr.Network

structure SequenceNumber32 where
  m_value : UInt32
deriving DecidableEq

namespace SequenceNumber32

def halfMaxValue : UInt32 := 2147483647

def add (a : SequenceNumber32) (delta : UInt32) : SequenceNumber32 := ⟨a.m_value + delta⟩

def sub (a other : SequenceNumber32) : UInt32 := a.m_value - other.m_value

def greater (a other : SequenceNumber32) : Bool :=
  (a.m_value > other.m_value && a.m_value - other.m_value ≤ halfMaxValue) ||
    (other.m_value > a.m_value && other.m_value - a.m_value > halfMaxValue)

def lessEqual (a other : SequenceNumber32) : Bool := !a.greater other

def greaterEqual (a other : SequenceNumber32) : Bool := a.greater other || a = other

def less (a other : SequenceNumber32) : Bool := !a.greater other && a ≠ other

/-- The sequence number of byte `q` of a stream whose first byte has the number `n`. -/
def offset (n : UInt32) (q : ℕ) : SequenceNumber32 := ⟨n + .ofNat q⟩

section Offset

variable (n : UInt32) {p q : ℕ}

theorem add_offset (p k : ℕ) : (offset n p).add (.ofNat k) = offset n (p + k) := by
  simp only [add, offset, UInt32.ofNat_add, UInt32.add_assoc]

theorem sub_offset (le : p ≤ q) : (offset n q).sub (offset n p) = .ofNat (q - p) := by
  obtain ⟨k, rfl⟩ := Nat.exists_eq_add_of_le le
  rw [← add_offset, sub, add, Nat.add_sub_cancel_left, UInt32.add_comm, UInt32.add_sub_cancel]

theorem toNat_offset (q : ℕ) : (offset n q).m_value.toNat = (n.toNat + q) % 2 ^ 32 := by
  simp [offset, UInt32.toNat_add]

variable (below : p < q + 2 ^ 31) (above : q < p + 2 ^ 31)
include below above

theorem offset_inj : offset n p = offset n q ↔ p = q := by
  refine ⟨fun h => ?_, fun h => by rw [h]⟩
  have hvalue := congrArg (fun s : SequenceNumber32 => s.m_value.toNat) h
  simp only [toNat_offset] at hvalue
  omega

theorem greater_offset : (offset n p).greater (offset n q) = decide (q < p) := by
  have hp := toNat_offset n p
  have hq := toNat_offset n q
  have hn := n.toNat_lt
  rw [Bool.eq_iff_iff, decide_eq_true_iff]
  simp only [greater, halfMaxValue, Bool.or_eq_true, Bool.and_eq_true, decide_eq_true_eq, gt_iff_lt,
    UInt32.lt_iff_toNat_lt, UInt32.le_iff_toNat_le, UInt32.toNat_sub, hp, hq, UInt32.reduceToNat]
  omega

theorem lessEqual_offset : (offset n p).lessEqual (offset n q) = decide (p ≤ q) := by
  rw [Bool.eq_iff_iff]
  simp only [lessEqual, greater_offset n below above, Bool.not_eq_true', decide_eq_false_iff_not,
    decide_eq_true_eq, Nat.not_lt]

theorem less_offset : (offset n p).less (offset n q) = decide (p < q) := by
  rw [Bool.eq_iff_iff]
  simp only [less, greater_offset n below above, ne_eq, offset_inj n below above, Bool.and_eq_true,
    Bool.not_eq_true', decide_eq_false_iff_not, decide_eq_true_eq]
  omega

theorem greaterEqual_offset : (offset n p).greaterEqual (offset n q) = decide (q ≤ p) := by
  rw [Bool.eq_iff_iff]
  simp only [greaterEqual, greater_offset n below above, offset_inj n below above, Bool.or_eq_true,
    decide_eq_true_eq]
  omega

end Offset

end SequenceNumber32

end Egsr.Network
