import Mathlib.Data.List.Basic
import Mathlib.Data.Nat.Basic

/-! Bits in octets, the most significant bit first. A bit is put behind those
of an octet that is filled from the left, an octet is read from the left by
masking or by shifting it, and the bits of a number are set from the top. -/

namespace Egsr.Lib.BitOrder

open List

abbrev Octet := BitVec 8

def firstBits (o : Octet) (k : ℕ) : List Bool := (range k).map o.getMsbD

def stream (octets : List Octet) : List Bool := octets.flatMap fun o => firstBits o 8

def lowBits {n : ℕ} (x : BitVec n) : ℕ → List Bool
  | 0 => []
  | k + 1 => x.getLsbD k :: lowBits x k

section Octets

variable (o : Octet) (os os' : List Octet) (k : ℕ)

@[simp] theorem length_firstBits : (firstBits o k).length = k := by simp [firstBits]

@[simp] theorem firstBits_zero : firstBits o 0 = [] := rfl

theorem firstBits_succ : firstBits o (k + 1) = firstBits o k ++ [o.getMsbD k] := by
  simp [firstBits, range_succ]

theorem firstBits_succ_eq_cons : firstBits o (k + 1) = o.getMsbD 0 :: firstBits (o <<< 1) k := by
  simp [firstBits, range_succ_eq_map]

@[simp] theorem stream_nil : stream [] = [] := rfl

@[simp] theorem stream_cons : stream (o :: os) = firstBits o 8 ++ stream os := rfl

@[simp] theorem stream_append : stream (os ++ os') = stream os ++ stream os' := flatMap_append

@[simp] theorem length_stream : (stream os).length = 8 * os.length := by
  induction os with
  | nil => rfl
  | cons o os ih =>
    rw [stream_cons, length_append, length_firstBits, ih, length_cons]
    omega

theorem take_firstBits {j : ℕ} (le : j ≤ k) : (firstBits o k).take j = firstBits o j := by
  rw [firstBits, ← map_take, take_range, Nat.min_eq_left le]
  rfl

theorem firstBits_shiftLeft (j : ℕ) : firstBits (o <<< j) k = (firstBits o (j + k)).drop j := by
  apply ext_getElem
  · simp
  · intro i hi hi'
    simp [firstBits, Nat.add_comm]

theorem and_mask {i : ℕ} (lt : i < 8) : decide (o &&& ((0x80 : Octet) >>> i) ≠ 0) =
    o.getMsbD i := by
  have hmask : ∀ i : Fin 8, (0x80 : Octet) >>> i.val = BitVec.twoPow 8 (7 - i) ∧
      BitVec.twoPow 8 (7 - i.val) ≠ 0 := by
    decide
  obtain ⟨hshift, hne⟩ := hmask ⟨i, lt⟩
  rw [hshift, BitVec.and_twoPow, BitVec.getMsbD_eq_getLsbD, decide_eq_true lt, Bool.true_and]
  cases o.getLsbD (7 - i) with
  | false => simp
  | true =>
    rw [if_pos rfl]
    exact decide_eq_true hne

theorem mask_step (i : ℕ) : ((0x80 : Octet) >>> i >>> 1) = (0x80 : Octet) >>> (i + 1) :=
  (BitVec.shiftRight_add (0x80 : Octet) i 1).symm

theorem mask_next (i : ℕ) :
    ((0x80 : Octet) >>> i >>> 1) &&& ~~~((0x80 : Octet) >>> i) = (0x80 : Octet) >>> (i + 1) := by
  have hall : ∀ i : Fin 8,
      ((0x80 : Octet) >>> i.val >>> 1) &&& ~~~((0x80 : Octet) >>> i.val) =
        (0x80 : Octet) >>> (i.val + 1) := by
    decide
  by_cases hi : i < 8
  · exact hall ⟨i, hi⟩
  · have hzero : ∀ j, 8 ≤ j → (0x80 : Octet) >>> j = 0 := fun j hj => BitVec.ushiftRight_eq_zero hj
    rw [mask_step, hzero i (by omega), hzero (i + 1) (by omega)]
    decide

end Octets

/-- An octet has bits at its first `k` places only. -/
def Filled (o : Octet) (k : ℕ) : Prop := ∀ i, k ≤ i → o.getMsbD i = false

theorem filled_zero : Filled 0 0 := fun _ _ => BitVec.getMsbD_zero

theorem firstBits_or {o : Octet} {k : ℕ} (filled : Filled o k) (lt : k < 8) (b : Bool) :
    firstBits (o ||| if b then (0x80 : Octet) >>> k else 0) (k + 1) = firstBits o k ++ [b] ∧
      Filled (o ||| if b then (0x80 : Octet) >>> k else 0) (k + 1) := by
  have hmask : ∀ i, (if b then (0x80 : Octet) >>> k else 0).getMsbD i = (decide (i = k) && b) := by
    have hall : ∀ k i : Fin 8, ((0x80 : Octet) >>> k.val).getMsbD i.val =
        decide (i.val = k.val) := by
      decide +kernel
    intro i
    cases b
    · simp
    · by_cases hi : i < 8
      · simpa using hall ⟨k, lt⟩ ⟨i, hi⟩
      · have hne : i ≠ k := by omega
        simp [hne, BitVec.getMsbD_of_ge _ i (Nat.le_of_not_lt hi)]
  constructor
  · rw [firstBits_succ, BitVec.getMsbD_or, filled k (Nat.le_refl k), hmask]
    congr 1
    · refine map_congr_left fun i hi => ?_
      have hne : i ≠ k := Nat.ne_of_lt (mem_range.mp hi)
      rw [BitVec.getMsbD_or, hmask]
      simp [hne]
    · simp
  · intro i hi
    have hne : i ≠ k := by omega
    rw [BitVec.getMsbD_or, hmask, filled i (by omega)]
    simp [hne]

theorem firstBits_eq_append {o : Octet} {k : ℕ} (filled : Filled o k) (le : k ≤ 8) :
    firstBits o 8 = firstBits o k ++ replicate (8 - k) false := by
  apply ext_getElem
  · simp
    omega
  · intro i hi hi'
    rw [getElem_append]
    split_ifs with hlt
    · simp [firstBits]
    · rw [length_firstBits] at hlt
      simp [firstBits, filled i (by omega)]

section Numbers

variable {n : ℕ} (x : BitVec n)

@[simp] theorem length_lowBits (k : ℕ) : (lowBits x k).length = k := by
  induction k with
  | zero => rfl
  | succ k ih => simp [lowBits, ih]

theorem firstBits_eq_lowBits (o : Octet) : firstBits o 8 = lowBits o 8 := by
  simp [firstBits, lowBits, range_succ, BitVec.getMsbD]

def setBit (i : ℕ) (b : Bool) : BitVec n :=
  if b then x ||| BitVec.twoPow n i else x &&& ~~~BitVec.twoPow n i

theorem getLsbD_setBit {i j : ℕ} (b : Bool) (hj : j < n) :
    (setBit x i b).getLsbD j = if j = i then b else x.getLsbD j := by
  unfold setBit
  by_cases hij : j = i
  · subst hij
    cases b <;> simp [hj]
  · cases b
    · simp [hij, hj]
    · simp [BitVec.getLsbD_twoPow, hij, Ne.symm hij]

/-- The bits below place `k` are set one by one, from the top. -/
def assign (x : BitVec n) : ℕ → List Bool → BitVec n
  | _, [] => x
  | k, b :: bs => assign (setBit x (k - 1) b) (k - 1) bs

theorem assign_append (k : ℕ) (bs bs' : List Bool) :
    assign x k (bs ++ bs') = assign (assign x k bs) (k - bs.length) bs' := by
  induction bs generalizing x k with
  | nil => rfl
  | cons b bs ih =>
    simp only [cons_append, assign, ih, length_cons]
    congr 1
    omega

theorem getLsbD_assign (x y : BitVec n) {k j : ℕ} (hk : k ≤ n) (hj : j < n) :
    (assign x k (lowBits y k)).getLsbD j = if j < k then y.getLsbD j else x.getLsbD j := by
  induction k generalizing x with
  | zero => rfl
  | succ k ih =>
    rw [lowBits, assign, Nat.add_sub_cancel, ih _ (by omega), getLsbD_setBit x _ hj]
    by_cases hjk : j = k
    · subst hjk
      simp
    · split_ifs <;> first | rfl | omega

theorem assign_lowBits (x y : BitVec n) : assign x n (lowBits y n) = y := by
  refine BitVec.eq_of_getLsbD_eq fun j hj => ?_
  rw [getLsbD_assign x y (Nat.le_refl n) hj, if_pos hj]

end Numbers

end Egsr.Lib.BitOrder
