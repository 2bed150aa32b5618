import Mathlib.Data.Fintype.Basic
import Mathlib.Algebra.Group.Nat.Defs

/-! Masks of IPv4 networks. The length of a prefix is found by shifting the mask until
nothing is left of it, which counts the ones where these are the leading bits. -/

namespace Egsr.Network.Ipv4Mask

/-- The loop of `GetPrefixLength`; after 32 rounds the mask is zero. -/
def prefixLengthFrom : ℕ → (mask : UInt32) → (tmp : UInt16) → UInt16
  | 0, _, tmp => tmp
  | fuel + 1, mask, tmp => if mask ≠ 0 then prefixLengthFrom fuel (mask <<< 1) (tmp + 1) else tmp

def getPrefixLength (mask : UInt32) : UInt16 := prefixLengthFrom 32 mask 0

def isMatch (mask a b : UInt32) : Bool := (a &&& mask) = (b &&& mask)

def prefixMask (k : ℕ) : UInt32 := UInt32.ofNat (2 ^ 32 - 2 ^ (32 - k))

def Contiguous (mask : UInt32) : Prop := ∃ k ≤ 32, mask = prefixMask k

def maskLength (mask : UInt32) : ℕ := ((List.range 32).filter fun i => mask.toNat.testBit i).length

theorem prefixMask_spec : ∀ k : Fin 33,
    (getPrefixLength (prefixMask k)).toNat = k ∧ maskLength (prefixMask k) = k ∧
    (prefixMask k = 0xffffffff ↔ k.val = 32) := by decide +kernel

theorem getPrefixLength_eq {mask : UInt32} (h : Contiguous mask) :
    (getPrefixLength mask).toNat = maskLength mask := by
  obtain ⟨k, hk, rfl⟩ := h
  obtain ⟨code, spec, -⟩ := prefixMask_spec ⟨k, Nat.lt_succ_of_le hk⟩
  exact code.trans spec.symm

theorem maskLength_le {mask : UInt32} (h : Contiguous mask) : maskLength mask ≤ 32 := by
  obtain ⟨k, hk, rfl⟩ := h
  obtain ⟨-, spec, -⟩ := prefixMask_spec ⟨k, Nat.lt_succ_of_le hk⟩
  exact spec.trans_le hk

theorem maskLength_eq_iff {mask : UInt32} (h : Contiguous mask) : maskLength mask = 32 ↔
    mask = 0xffffffff := by
  obtain ⟨k, hk, rfl⟩ := h
  obtain ⟨-, spec, ones⟩ := prefixMask_spec ⟨k, Nat.lt_succ_of_le hk⟩
  rw [spec]
  exact ones.symm

end Egsr.Network.Ipv4Mask
