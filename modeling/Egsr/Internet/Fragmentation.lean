import Egsr.Internet.Ipv4Fragments
import Mathlib.Data.Fintype.Basic

/-! What fragmentation makes of a datagram. However often its fragments are
fragmented again, each one is a piece of the payload at a multiple of eight,
and only those that end the payload are marked as last. -/

namespace Egsr.Internet.Ipv4

open Internet List UInt32

structure Datagram where
  payload : Packet
  header : Ipv4Header
  nonempty : 0 < payload.length
  short : payload.length ≤ 65515
  headerSize : header.m_headerSize = 20
  first : header.m_fragmentOffset = 0
  last : header.isLastFragment = true

inductive Piece (d : Datagram) : PayloadHeaderPair → Prop
  | whole : Piece d (d.payload, d.header)
  | split {p : Packet} {h : Ipv4Header} {mtu : UInt32} {l : List PayloadHeaderPair}
      {x : PayloadHeaderPair} (piece : Piece d (p, h)) (enough : 68 ≤ mtu)
      (run : doFragmentation p h mtu = .ok l) (mem : x ∈ l) : Piece d x

namespace Ipv4Header

variable (h : Ipv4Header)

@[simp] theorem isLastFragment_setMoreFragments : h.setMoreFragments.isLastFragment = false := by
  have hall : ∀ flags : BitVec 3, (flags ||| moreFragments) &&& moreFragments ≠ 0 := by decide
  exact decide_eq_false (hall h.m_flags)

@[simp] theorem isLastFragment_setLastFragment : h.setLastFragment.isLastFragment = true := by
  have hall : ∀ flags : BitVec 3, (flags &&& ~~~moreFragments) &&& moreFragments = 0 := by decide
  exact decide_eq_true (hall h.m_flags)

end Ipv4Header

theorem toNat_and_seven (x : UInt16) : (x &&& 7).toNat = x.toNat % 8 := by
  rw [UInt16.toNat_and]
  exact Nat.and_two_pow_sub_one_eq_mod x.toNat 3

theorem toNat_and_not_seven (x : UInt32) : (x &&& ~~~7).toNat = x.toNat / 8 * 8 := by
  have hmask : (~~~7 : UInt32).toNat = (2 ^ 29 - 1) * 2 ^ 3 := rfl
  have hlt := x.toNat_lt
  rw [UInt32.toNat_and, hmask]
  have height : (8 : ℕ) = 2 ^ 3 := rfl
  apply Nat.eq_of_testBit_eq
  intro i
  rw [height, Nat.testBit_and, Nat.testBit_mul_two_pow, Nat.testBit_mul_two_pow,
    Nat.testBit_div_two_pow, Nat.testBit_two_pow_sub_one]
  by_cases hi : 3 ≤ i
  · simp only [hi, decide_true, Bool.true_and, Nat.sub_add_cancel hi]
    by_cases hhigh : i - 3 < 29
    · simp [hhigh]
    · have hbit : x.toNat.testBit i = false :=
        Nat.testBit_lt_two_pow (hlt.trans_le (Nat.pow_le_pow_right (by omega) (by omega)))
      simp [hhigh, hbit]
  · simp [hi]

theorem createFragment_eq {p : Packet} {j k : ℕ} (le : j + k ≤ p.length)
    (short : p.length < 2 ^ 32) :
    Packet.createFragment p (.ofNat j) (.ofNat k) = (p.drop j).take k := by
  have hj : (UInt32.ofNat j).toNat = j := by
    rw [toNat_ofNat']
    omega
  have hback : (UInt32.ofNat p.length - (UInt32.ofNat j + UInt32.ofNat k)).toNat =
      p.length - (j + k) := by
    rw [← ofNat_add, UInt32.toNat_sub, toNat_ofNat', toNat_ofNat']
    omega
  unfold Packet.createFragment Packet.getSize
  rw [hback, hj]
  dsimp only
  rw [length_drop]
  congr 1
  omega

/-! ## Parts of a payload -/

structure Part (d : Datagram) (x : PayloadHeaderPair) : Prop where
  filled : 0 < x.1.length
  inside : x.2.m_fragmentOffset.toNat + x.1.length ≤ d.payload.length
  content : x.1 = (d.payload.drop x.2.m_fragmentOffset.toNat).take x.1.length
  aligned : x.2.m_fragmentOffset.toNat % 8 = 0
  last : x.2.isLastFragment = true ↔ x.2.m_fragmentOffset.toNat + x.1.length = d.payload.length
  headerSize : x.2.m_headerSize = 20

theorem Datagram.part (d : Datagram) : Part d (d.payload, d.header) := by
  have hzero : d.header.m_fragmentOffset.toNat = 0 := by rw [d.first]; rfl
  refine ⟨d.nonempty, ?_, ?_, ?_, ?_, d.headerSize⟩ <;> dsimp only <;> rw [hzero]
  · omega
  · rw [drop_zero, take_length]
  · exact ⟨fun _ => by omega, fun _ => d.last⟩

/-- A fragment: a part that fits, with its own length in the header. -/
structure Fits (d : Datagram) (mtu : ℕ) (y : PayloadHeaderPair) : Prop where
  part : Part d y
  fits : y.1.length + 20 ≤ mtu
  payloadSize : y.2.m_payloadSize.toNat = y.1.length

section Rounds

variable {d : Datagram} {p : Packet} {h : Ipv4Header} (part : Part d (p, h))
include part

theorem Part.short : p.length ≤ 65515 := by
  have hinside := part.inside
  have hshort := d.short
  dsimp only at hinside
  omega

theorem Part.sub {o k : ℕ} (aligned : o % 8 = 0) (pos : 0 < k) (le : o + k ≤ p.length)
    {h' : Ipv4Header} (offset : h'.m_fragmentOffset.toNat = o + h.m_fragmentOffset.toNat)
    (last : h'.isLastFragment = true ↔ o + k = p.length ∧ h.isLastFragment = true)
    (size : h'.m_headerSize = h.m_headerSize) : Part d ((p.drop o).take k, h') := by
  obtain ⟨-, hinside, hcontent, haligned, hlast, hsize⟩ := part
  dsimp only at hinside hcontent haligned hlast hsize
  have hlength : ((p.drop o).take k).length = k := by
    rw [length_take, length_drop]
    omega
  refine ⟨?_, ?_, ?_, ?_, ?_, size.trans hsize⟩ <;> dsimp only
  · rw [hlength]
    exact pos
  · rw [hlength]
    omega
  · rw [hlength, offset, hcontent, drop_take, take_take, drop_drop]
    congr 1
    · omega
    · congr 1
      omega
  · omega
  · rw [hlength, last, hlast, offset]
    omega

theorem fragmentsFrom_spec {f o fuel : ℕ} (pos : 0 < f) (multiple : f % 8 = 0)
    (short : o + f < 2 ^ 32)
    (aligned : o % 8 = 0) (lt : o < p.length) (enough : p.length < o + fuel) :
    ∃ l, fragmentsFrom p h (.ofNat f) fuel (.ofNat o) = .ok l ∧
      l.flatMap Prod.fst = p.drop o ∧ ∀ y ∈ l, Fits d (f + 20) y := by
  have hshort := part.short
  have hinside := part.inside
  have haligned := part.aligned
  have hpayload := d.short
  dsimp only at hinside haligned
  induction fuel generalizing o with
  | zero => omega
  | succ fuel ih =>
    have hoffset : (UInt16.ofNat o).toUInt32 = UInt32.ofNat o := by
      rw [← UInt32.toNat_inj, UInt16.toNat_toUInt32, UInt16.toNat_ofNat', toNat_ofNat']
      omega
    have hmore : (p.getSize > .ofNat o + .ofNat f) ↔ o + f < p.length := by
      rw [gt_iff_lt, lt_iff_toNat_lt, ← ofNat_add, Packet.getSize, toNat_ofNat',
        toNat_ofNat']
      omega
    have hplace : (.ofNat o + h.m_fragmentOffset).toNat = o + h.m_fragmentOffset.toNat := by
      rw [UInt16.toNat_add, UInt16.toNat_ofNat']
      omega
    have hset : ∀ h' : Ipv4Header, h'.setFragmentOffset (.ofNat o + h.m_fragmentOffset) =
        .ok { h' with m_fragmentOffset := .ofNat o + h.m_fragmentOffset } := by
      intro h'
      have hnat := toNat_and_seven (.ofNat o + h.m_fragmentOffset)
      refine if_neg fun hne => hne ?_
      rw [← UInt16.toNat_inj, hnat, hplace]
      change _ = 0
      omega
    have hpart : ∀ k, ∀ h' : Ipv4Header, 0 < k → o + k ≤ p.length → k ≤ f →
        (h'.isLastFragment = true ↔ o + k = p.length ∧ h.isLastFragment = true) →
        h'.m_headerSize = h.m_headerSize →
        Fits d (f + 20) (p.createFragment (.ofNat o) (.ofNat k),
          { h' with
            m_fragmentOffset := .ofNat o + h.m_fragmentOffset
            m_payloadSize := (UInt32.ofNat k).toUInt16 }) := by
      intro k h' hpos hle hfit hlast hsize
      rw [createFragment_eq hle (by omega)]
      have hlength : ((p.drop o).take k).length = k := by
        rw [length_take, length_drop]
        omega
      refine ⟨part.sub aligned hpos hle hplace hlast hsize, ?_, ?_⟩ <;> dsimp only <;> rw [hlength]
      · omega
      · rw [toNat_toUInt16, toNat_ofNat']
        omega
    rw [fragmentsFrom, hoffset]
    simp only [hset]
    by_cases more : o + f < p.length
    · have hnext : UInt16.ofNat o + (UInt32.ofNat f).toUInt16 = UInt16.ofNat (o + f) := by
        rw [← UInt16.toNat_inj, UInt16.toNat_add, UInt16.toNat_ofNat', UInt16.toNat_ofNat',
          toNat_toUInt16, toNat_ofNat']
        omega
      obtain ⟨l, hrun, hbytes, hfits⟩ := ih (o := o + f) (by omega) (by omega) more (by omega)
      simp only [hmore.mpr more, if_true, bind, Except.bind, hnext, hrun]
      refine ⟨_, rfl, ?_, ?_⟩
      · rw [flatMap_cons, hbytes, createFragment_eq (by omega) (by omega), ← drop_drop,
          take_append_drop]
      · refine forall_mem_cons.mpr ⟨hpart f _ pos (by omega) (Nat.le_refl f) ?_ rfl, hfits⟩
        rw [Ipv4Header.isLastFragment_setMoreFragments]
        simp
        omega
    · have hrest : p.getSize - .ofNat o = .ofNat (p.length - o) := by
        rw [Packet.getSize, ← UInt32.toNat_inj, UInt32.toNat_sub, toNat_ofNat',
          toNat_ofNat', toNat_ofNat']
        omega
      simp only [mt hmore.mp more, if_false, bind, Except.bind, hrest]
      refine ⟨_, rfl, ?_, ?_⟩
      · rw [flatMap_cons, flatMap_nil, append_nil, createFragment_eq (by omega) (by omega)]
        exact take_of_length_le (by simp)
      · refine forall_mem_singleton.mpr (hpart _ _ (by omega) (by omega) (by omega) ?_ ?_)
        · by_cases hlast : h.isLastFragment
          · simp [hlast]
            omega
          · simp [hlast]
        · split_ifs <;> rfl

end Rounds

theorem doFragmentation_spec {d : Datagram} {p : Packet} {h : Ipv4Header} (part : Part d (p, h))
    {mtu : UInt32} (enough : 68 ≤ mtu) :
    ∃ l, doFragmentation p h mtu = .ok l ∧ l.flatMap Prod.fst = p ∧
      ∀ y ∈ l, Fits d mtu.toNat y := by
  have hmtu : 68 ≤ mtu.toNat := by
    rw [le_iff_toNat_le] at enough
    exact enough
  have hlt := mtu.toNat_lt
  obtain ⟨f, hf⟩ : ∃ f, f = (mtu.toNat - 20) / 8 * 8 := ⟨_, rfl⟩
  have hsize : (mtu - h.m_headerSize.toUInt32) &&& ~~~7 = .ofNat f := by
    have hheader : h.m_headerSize = 20 := part.headerSize
    have htwenty : (20 : UInt16).toUInt32.toNat = 20 := rfl
    rw [← UInt32.toNat_inj, toNat_and_not_seven, hheader, UInt32.toNat_sub, htwenty, toNat_ofNat']
    omega
  have hfilled : 0 < p.length := part.filled
  have henough : p.length < 0 + (p.length + 1) := by omega
  obtain ⟨l, hrun, hbytes, hfits⟩ :=
    fragmentsFrom_spec part (f := f) (by omega) (by omega) (by omega)
    rfl hfilled henough
  refine ⟨l, ?_, hbytes, fun y hy => ?_⟩
  · rw [doFragmentation, hsize]
    exact hrun
  · obtain ⟨hpart, hle, hpayload⟩ := hfits y hy
    exact ⟨hpart, by omega, hpayload⟩

theorem Piece.part {d : Datagram} {x : PayloadHeaderPair} (piece : Piece d x) : Part d x := by
  induction piece with
  | whole => exact d.part
  | split _ enough run mem ih =>
    obtain ⟨l, hrun, -, hfits⟩ := doFragmentation_spec ih enough
    rw [hrun] at run
    cases run
    exact (hfits _ mem).part

end Egsr.Internet.Ipv4
