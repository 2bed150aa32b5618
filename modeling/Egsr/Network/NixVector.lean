import Egsr.Lib.BitFields
import Egsr.Lib.BitStack
import Mathlib.Data.List.Induction

/-! Indices of neighbours put one above the other in words of 32 bits, and taken from
the end again. Words keep what has been taken; only the counts tell how much is left. -/

namespace Egsr.Network

open Lib.BitStack List

abbrev uint32_t := BitVec 32

def shl (x n : uint32_t) : uint32_t := x <<< (n.toNat % 32)

def shr (x n : uint32_t) : uint32_t := x >>> (n.toNat % 32)

structure NixVector where
  m_nixVector : List uint32_t
  m_used : uint32_t
  m_currentVectorBitSize : uint32_t
  m_totalBitSize : uint32_t
deriving DecidableEq

namespace NixVector

inductive Fatal where
  /-- Can't add more than 32 bits to a nix-vector at one time -/
  | addTooMany
  /-- Can't extract more than 32 bits to a nix-vector at one time -/
  | extractTooMany
  /-- You've tried to extract too many bits of the Nix-vector -/
  | notRemaining
  /-- You've specified a number of bits for Nix-vector <= 0! -/
  | nothing
  /-- An index is out of range. -/
  | outOfRange
deriving DecidableEq

def empty : NixVector := ⟨[0], 0, 0, 0⟩

variable (words : List uint32_t)

def back : uint32_t := words.getLastD 0

def setBack (word : uint32_t) : List uint32_t := words.dropLast ++ [word]

def entry (index : uint32_t) : Except Fatal uint32_t :=
  match words[index.toNat]? with
  | some word => pure word
  | none => throw .outOfRange

variable (s : NixVector)

def getRemainingBits : uint32_t := s.m_totalBitSize - s.m_used

def addNeighborIndex (newBits numberOfBits : uint32_t) : Except Fatal NixVector :=
  if numberOfBits > 32 then throw .addTooMany
  else if s.m_currentVectorBitSize + numberOfBits > 32 then
    if s.m_currentVectorBitSize = 32 then
      pure { s with
        m_nixVector := s.m_nixVector ++ [newBits]
        m_currentVectorBitSize := numberOfBits
        m_totalBitSize := s.m_totalBitSize + numberOfBits }
    else
      -- what there is room for, and the rest in a new entry
      let tempBits := shl newBits s.m_currentVectorBitSize
      let tempBits := tempBits ||| back s.m_nixVector
      let newBits := shr newBits (32 - s.m_currentVectorBitSize)
      pure { s with
        m_nixVector := setBack s.m_nixVector tempBits ++ [newBits]
        m_currentVectorBitSize := numberOfBits - (32 - s.m_currentVectorBitSize)
        m_totalBitSize := s.m_totalBitSize + numberOfBits }
  else
    let newBits := shl newBits s.m_currentVectorBitSize
    let newBits := newBits ||| back s.m_nixVector
    pure { s with
      m_nixVector := setBack s.m_nixVector newBits
      m_currentVectorBitSize := s.m_currentVectorBitSize + numberOfBits
      m_totalBitSize := s.m_totalBitSize + numberOfBits }

def extractedBits (totalRemainingBits numberOfBits : uint32_t) : Except Fatal uint32_t := do
  let vectorIndex := (totalRemainingBits - 1) / 32
  if vectorIndex > 0 ∧ numberOfBits - 1 > (totalRemainingBits - 1) % 32 then
    -- the bits span two entries
    let word ← entry words vectorIndex
    let extractedBits := shl word (32 - totalRemainingBits % 32)
    let extractedBits := shr extractedBits
      ((32 - totalRemainingBits % 32) - (numberOfBits - totalRemainingBits % 32))
    let below ← entry words (vectorIndex - 1)
    pure (extractedBits ||| shr below (32 - (numberOfBits - totalRemainingBits % 32)))
  else
    let word ← entry words vectorIndex
    let extractedBits := shl word (32 - totalRemainingBits % 32)
    pure (shr extractedBits (32 - numberOfBits))

def extractNeighborIndex (numberOfBits : uint32_t) : Except Fatal (uint32_t × NixVector) :=
  if numberOfBits > 32 then throw .extractTooMany
  else
    let totalRemainingBits := s.getRemainingBits
    if numberOfBits > totalRemainingBits then throw .notRemaining
    else if numberOfBits ≤ 0 then throw .nothing
    else do
      let extracted ← extractedBits s.m_nixVector totalRemainingBits numberOfBits
      pure (extracted, { s with m_used := s.m_used + numberOfBits })

def addAll (s : NixVector) : List (uint32_t × uint32_t) → Except Fatal NixVector
  | [] => pure s
  | (newBits, numberOfBits) :: rest => do
    let s ← s.addNeighborIndex newBits numberOfBits
    addAll s rest

def extractAll (s : NixVector) : List uint32_t → Except Fatal (List uint32_t × NixVector)
  | [] => pure ([], s)
  | numberOfBits :: rest => do
    let (value, s) ← s.extractNeighborIndex numberOfBits
    let (values, s) ← extractAll s rest
    pure (value :: values, s)

/-! ## Words -/

section Words

variable {words : List uint32_t} {n p r : ℕ} {x y total count : uint32_t}

theorem toNat_shl (x n : uint32_t) : (shl x n).toNat = x.toNat * 2 ^ (n.toNat % 32) % 2 ^ 32 := by
  rw [shl, BitVec.toNat_shiftLeft, Nat.shiftLeft_eq]

theorem toNat_shr (x n : uint32_t) : (shr x n).toNat = x.toNat / 2 ^ (n.toNat % 32) := by
  rw [shr, BitVec.toNat_ushiftRight, Nat.shiftRight_eq_div_pow]

def Holds (words : List uint32_t) (n : ℕ) : Prop :=
  ∀ i (h : i < words.length), words[i].toNat = field n (32 * i) 32

theorem Holds.entry_eq (holds : Holds words n) (index : uint32_t) (h : index.toNat < words.length) :
    ∃ word, entry words index = .ok word ∧ word.toNat = field n (32 * index.toNat) 32 := by
  refine ⟨words[index.toNat], ?_, holds _ h⟩
  rw [entry, List.getElem?_eq_getElem h]
  rfl

theorem toNat_front (hr : 0 < r) (hr' : r ≤ 32) (htotal : total.toNat % 32 = r % 32) :
    (32 - total % 32).toNat % 32 = 32 - r := by
  rw [BitVec.toNat_sub, BitVec.toNat_umod]
  change (2 ^ 32 - total.toNat % 32 + 32) % 2 ^ 32 % 32 = 32 - r
  omega

theorem toNat_rest (hw : 0 < count.toNat) (hw' : count.toNat ≤ 32) :
    (32 - count).toNat % 32 = 32 - count.toNat := by
  rw [BitVec.toNat_sub]
  change (2 ^ 32 - count.toNat + 32) % 2 ^ 32 % 32 = 32 - count.toNat
  omega

theorem toNat_pred (hx : 0 < x.toNat) : (x - 1).toNat = x.toNat - 1 := by
  rw [BitVec.toNat_sub]
  change (2 ^ 32 - 1 + x.toNat) % 2 ^ 32 = x.toNat - 1
  omega

theorem toNat_sub_of_le (h : y.toNat ≤ x.toNat) : (x - y).toNat = x.toNat - y.toNat := by
  rw [BitVec.toNat_sub]
  omega

theorem cut_eq {word : uint32_t} (hw : word.toNat = field n (32 * p) 32) (hcount : 0 < count.toNat)
    (le : count.toNat ≤ r) (hr : r ≤ 32) (htotal : total.toNat % 32 = r % 32) :
    (shr (shl word (32 - total % 32)) (32 - count)).toNat =
      field n (32 * p + r - count.toNat) count.toNat := by
  rw [toNat_shr, toNat_shl, toNat_front (by omega) hr htotal, toNat_rest hcount (le.trans hr),
    shifts_cut _ le hr, hw, field_field (by omega), Nat.add_sub_assoc le]

theorem span_eq {word below : uint32_t} (hw : word.toNat = field n (32 * (p + 1)) 32)
    (hbelow : below.toNat = field n (32 * p) 32) (hr : 0 < r) (less : r < count.toNat)
    (hcount : count.toNat ≤ 32) (htotal : total.toNat % 32 = r) :
    (shr (shl word (32 - total % 32)) ((32 - total % 32) - (count - total % 32)) |||
      shr below (32 - (count - total % 32))).toNat =
        field n (32 * (p + 1) + r - count.toNat) count.toNat := by
  have rest : (total % 32).toNat = r := by
    rw [BitVec.toNat_umod]
    exact htotal
  have front : (32 - total % 32).toNat = 32 - r := by
    rw [toNat_sub_of_le (by rw [rest]; exact (less.trans_le hcount).le), rest]
    rfl
  have lower : (count - total % 32).toNat = count.toNat - r := by
    rw [toNat_sub_of_le (by omega), rest]
  have back : ((32 - total % 32) - (count - total % 32)).toNat % 32 = 32 - count.toNat := by
    rw [toNat_sub_of_le (by omega), front, lower]
    omega
  have part : (32 - (count - total % 32)).toNat % 32 = 32 - (count.toNat - r) := by
    rw [toNat_rest (by omega) (by omega), lower]
  have high : (shr (shl word (32 - total % 32)) ((32 - total % 32) - (count - total % 32))).toNat =
      field n (32 * (p + 1)) r * 2 ^ (count.toNat - r) := by
    rw [toNat_shr, toNat_shl, toNat_front hr (by omega) (by omega), back,
      shifts_keep _ less.le hcount, hw, field_field (by omega), Nat.add_zero]
  have low : (shr below (32 - (count - total % 32))).toNat =
      field n (32 * (p + 1) - (count.toNat - r)) (count.toNat - r) := by
    have shift :=
      shifts_cut below.toNat (w := count.toNat - r) (r := 32) (b := 32) (by omega) le_rfl
    rw [Nat.sub_self, pow_zero, Nat.mul_one, Nat.mod_eq_of_lt below.isLt] at shift
    rw [toNat_shr, part, shift, hbelow, field_field (by omega)]
    congr 1
    omega
  rw [BitVec.toNat_or, high, low, Lib.BitFields.or_below _ (Nat.dvd_mul_left _ _) (field_lt _ _ _)]
  have append := field_append n (32 * (p + 1) - (count.toNat - r)) (count.toNat - r) r
  rw [Nat.sub_add_cancel (by omega : count.toNat - r ≤ 32 * (p + 1)),
    Nat.sub_add_cancel less.le] at append
  rw [← append]
  congr 1
  omega

theorem extractedBits_eq (holds : Holds words n) (hcount : 0 < count.toNat)
    (hcount' : count.toNat ≤ 32)
    (le : count.toNat ≤ total.toNat) (room : total.toNat ≤ 32 * words.length) :
    ∃ bits, extractedBits words total count = .ok bits ∧
      bits.toNat = field n (total.toNat - count.toNat) count.toNat := by
  have pred : (total - 1).toNat = total.toNat - 1 := toNat_pred (hcount.trans_le le)
  have index : ((total - 1) / 32).toNat = (total.toNat - 1) / 32 := by
    rw [BitVec.toNat_udiv, pred]
    rfl
  have last : ((total - 1) % 32).toNat = (total.toNat - 1) % 32 := by
    rw [BitVec.toNat_umod, pred]
    rfl
  -- the bits that are left in the last entry
  obtain ⟨r, hr⟩ : ∃ r, r = (total.toNat - 1) % 32 + 1 := ⟨_, rfl⟩
  have spans : (total - 1) / 32 > 0 ∧ count - 1 > (total - 1) % 32 ↔
      0 < (total.toNat - 1) / 32 ∧ r < count.toNat := by
    rw [gt_iff_lt, gt_iff_lt, BitVec.lt_def, BitVec.lt_def, index, last, toNat_pred hcount]
    change 0 < _ ∧ _ ↔ _
    omega
  obtain ⟨word, hword, value⟩ := holds.entry_eq ((total - 1) / 32) (by omega)
  rw [index] at value
  by_cases two : (total - 1) / 32 > 0 ∧ count - 1 > (total - 1) % 32
  · obtain ⟨more, less⟩ := spans.mp two
    obtain ⟨p, hp⟩ := Nat.exists_eq_add_of_lt more
    have previous : ((total - 1) / 32 - 1).toNat = p := by
      rw [toNat_pred (by omega), index]
      omega
    obtain ⟨below, hbelow, value'⟩ := holds.entry_eq ((total - 1) / 32 - 1) (by omega)
    rw [previous] at value'
    rw [Nat.zero_add] at hp
    rw [hp] at value
    have run : extractedBits words total count = .ok
        (shr (shl word (32 - total % 32)) ((32 - total % 32) - (count - total % 32)) |||
          shr below (32 - (count - total % 32))) := by
      simp only [extractedBits, if_pos two, hword, hbelow]
      rfl
    refine ⟨_, run, ?_⟩
    rw [span_eq value value' (by omega) less hcount' (by omega)]
    congr 1
    omega
  · have run : extractedBits words total count =
        .ok (shr (shl word (32 - total % 32)) (32 - count)) := by
      simp only [extractedBits, if_neg two, hword]
      rfl
    have ends := mt spans.mpr two
    refine ⟨_, run, ?_⟩
    rw [cut_eq (r := r) value hcount (by omega) (by omega) (by omega)]
    congr 1
    omega

theorem holds_concat : Holds (words ++ [x]) n ↔ Holds words n ∧
    x.toNat = field n (32 * words.length) 32 := by
  constructor
  · intro holds
    refine ⟨fun i h => ?_, ?_⟩
    · rw [← holds i (by rw [length_append]; omega), getElem_append_left h]
    · rw [← holds words.length (by simp), getElem_concat_length rfl]
  · rintro ⟨holds, last⟩ i h
    by_cases hi : i < words.length
    · rw [getElem_append_left hi, holds i hi]
    · have hi : i = words.length := by
        rw [length_append, length_singleton] at h
        omega
      subst hi
      rw [getElem_concat_length rfl, last]

theorem Holds.push (holds : Holds words n) {t : ℕ} (v : ℕ) (h : 32 * words.length ≤ t) :
    Holds words (n + v * 2 ^ t) := by
  intro i hi
  rw [field_below n v (by omega), holds i hi]

theorem Holds.fill (holds : Holds (words ++ [x]) n) {cur : uint32_t} (v : uint32_t)
    (hcur : cur.toNat < 32) (hn : n < 2 ^ (32 * words.length + cur.toNat)) :
    Holds (words ++ [shl v cur ||| x]) (n + v.toNat * 2 ^ (32 * words.length + cur.toNat)) ∧
      field (n + v.toNat * 2 ^ (32 * words.length + cur.toNat)) (32 * (words.length + 1)) 32 =
        v.toNat / 2 ^ (32 - cur.toNat) := by
  obtain ⟨lower, last⟩ := holds_concat.mp holds
  have top : n / 2 ^ (32 * words.length) < 2 ^ cur.toNat := by
    rw [pow_add] at hn
    exact Nat.div_lt_of_lt_mul hn
  have entry : x.toNat = n / 2 ^ (32 * words.length) := by
    rw [last, field, Nat.mod_eq_of_lt (top.trans (Nat.pow_lt_pow_right (by decide) hcur))]
  have shifted : 2 ^ cur.toNat ∣ v.toNat * 2 ^ cur.toNat % 2 ^ 32 :=
    (Nat.dvd_mod_iff (Nat.pow_dvd_pow 2 hcur.le)).mpr (Nat.dvd_mul_left _ _)
  refine ⟨holds_concat.mpr ⟨lower.push _ (Nat.le_add_right _ _), ?_⟩, ?_⟩
  · rw [field_above (Nat.le_add_right _ _), Nat.add_sub_cancel_left, join_mod _ top hcur.le,
      BitVec.toNat_or, toNat_shl,
      Nat.mod_eq_of_lt (a := cur.toNat) hcur, Lib.BitFields.or_below _ shifted (entry ▸ top), entry]
  · have next : 32 * (words.length + 1) = 32 * words.length + 32 := by omega
    have split : n + v.toNat * 2 ^ (32 * words.length + cur.toNat) =
        n + 2 ^ (32 * words.length) * (v.toNat * 2 ^ cur.toNat) := by ring
    rw [field, split, next, pow_add 2 _ 32, ← Nat.div_div_eq_div_mul,
      Nat.add_mul_div_left _ _ (Nat.two_pow_pos _), join_div _ top hcur.le]
    exact Nat.mod_eq_of_lt ((Nat.div_le_self _ _).trans_lt v.isLt)

end Words

/-! ## Runs -/

structure Packed (fields : List (ℕ × ℕ)) : Prop where
  nonempty : 0 < s.m_nixVector.length
  current : s.m_currentVectorBitSize.toNat ≤ 32
  size : height fields + 32 = 32 * s.m_nixVector.length + s.m_currentVectorBitSize.toNat
  holds : Holds s.m_nixVector (pack fields)
  total : s.m_totalBitSize.toNat = height fields % 2 ^ 32
  unused : s.m_used = 0

section Runs

variable {s : NixVector} {fields : List (ℕ × ℕ)} {newBits numberOfBits : uint32_t}

theorem packed_empty : Packed empty [] where
  nonempty := by decide
  current := by decide
  size := rfl
  holds := by
    intro i h
    have hi : i = 0 := by
      change i < 1 at h
      omega
    subst hi
    rfl
  total := rfl
  unused := rfl

theorem setBack_concat (x y : uint32_t) : setBack (words ++ [x]) y = words ++ [y] := by
  rw [setBack, dropLast_concat]

theorem back_concat (x : uint32_t) : back (words ++ [x]) = x := by
  rw [back, getLastD_concat]

theorem toNat_count (h : Packed s fields) (hwidth : numberOfBits.toNat ≤ 32) :
    (s.m_currentVectorBitSize + numberOfBits).toNat =
      s.m_currentVectorBitSize.toNat + numberOfBits.toNat := by
  have current := h.current
  rw [BitVec.toNat_add]
  omega

theorem Holds.next {words : List uint32_t} {n : ℕ} {v : uint32_t} (holds : Holds words n)
    (hn : n < 2 ^ (32 * words.length)) : Holds (words ++ [v])
    (n + v.toNat * 2 ^ (32 * words.length)) := by
  refine holds_concat.mpr ⟨holds.push _ le_rfl, ?_⟩
  rw [field_above le_rfl, Nat.div_eq_of_lt hn, Nat.sub_self, pow_zero, Nat.mul_one, Nat.zero_add,
    Nat.mod_eq_of_lt v.isLt]

theorem Packed.add (h : Packed s fields) {words : List uint32_t} {current : uint32_t}
    (nonempty : 0 < words.length) (hcurrent : current.toNat ≤ 32)
    (size : height fields + numberOfBits.toNat + 32 = 32 * words.length + current.toNat)
    (holds : Holds words (pack fields + newBits.toNat * 2 ^ height fields)) :
    Packed { s with
      m_nixVector := words
      m_currentVectorBitSize := current
      m_totalBitSize :=
        s.m_totalBitSize + numberOfBits } (fields ++ [(newBits.toNat, numberOfBits.toNat)]) := by
  have higher : height (fields ++ [(newBits.toNat, numberOfBits.toNat)]) =
      height fields + numberOfBits.toNat := by
    rw [height_append, height_cons, height_nil, Nat.add_zero]
  refine ⟨nonempty, hcurrent, higher ▸ size, pack_concat .. ▸ holds, ?_, h.unused⟩
  rw [BitVec.toNat_add, h.total, Nat.mod_add_mod, higher]

theorem Packed.exists_last (h : Packed s fields) : ∃ init last, s.m_nixVector = init ++ [last] ∧
    height fields = 32 * init.length + s.m_currentVectorBitSize.toNat := by
  have filled : s.m_nixVector ≠ [] := ne_nil_of_length_pos h.nonempty
  refine ⟨s.m_nixVector.dropLast, s.m_nixVector.getLast filled,
    (dropLast_append_getLast filled).symm, ?_⟩
  have size := h.size
  have length : s.m_nixVector.dropLast.length = s.m_nixVector.length - 1 := length_dropLast
  have nonempty := h.nonempty
  omega

theorem Packed.push (h : Packed s fields) (fits : ∀ f ∈ fields, Fits f)
    (hwidth : numberOfBits.toNat ≤ 32) (full : s.m_currentVectorBitSize = 32) :
    Packed { s with
      m_nixVector := s.m_nixVector ++ [newBits]
      m_currentVectorBitSize := numberOfBits
      m_totalBitSize :=
        s.m_totalBitSize + numberOfBits } (fields ++ [(newBits.toNat, numberOfBits.toNat)]) := by
  have place : height fields = 32 * s.m_nixVector.length := by
    have size := h.size
    rw [full] at size
    exact Nat.add_right_cancel size
  refine h.add ?_ hwidth ?_ ?_
  · simp
  · rw [place, length_append, length_singleton]
    omega
  · rw [place]
    exact h.holds.next (place ▸ pack_lt fits)

theorem Packed.fillBoth (h : Packed s fields) (fits : ∀ f ∈ fields, Fits f)
    (hwidth : numberOfBits.toNat ≤ 32) (less : s.m_currentVectorBitSize.toNat < 32)
    (more : 32 < s.m_currentVectorBitSize.toNat + numberOfBits.toNat) : Packed { s with
      m_nixVector :=
  setBack s.m_nixVector (shl newBits s.m_currentVectorBitSize ||| back s.m_nixVector) ++
        [shr newBits (32 - s.m_currentVectorBitSize)]
      m_currentVectorBitSize := numberOfBits - (32 - s.m_currentVectorBitSize)
      m_totalBitSize :=
        s.m_totalBitSize + numberOfBits } (fields ++ [(newBits.toNat, numberOfBits.toNat)]) := by
  obtain ⟨init, last, words, place⟩ := h.exists_last
  have left : (32 - s.m_currentVectorBitSize).toNat = 32 - s.m_currentVectorBitSize.toNat :=
    toNat_sub_of_le less.le
  have taken : (numberOfBits - (32 - s.m_currentVectorBitSize)).toNat =
      numberOfBits.toNat - (32 - s.m_currentVectorBitSize.toNat) := by
    rw [toNat_sub_of_le (by omega), left]
  have holds := h.holds
  rw [words] at holds
  obtain ⟨filled, rest⟩ := holds.fill newBits less (place ▸ pack_lt fits)
  refine h.add ?_ ?_ ?_ ?_
  · simp
  · omega
  · rw [words, setBack_concat, place, taken]
    simp only [length_append, length_singleton]
    omega
  · rw [words, setBack_concat, back_concat, place]
    refine holds_concat.mpr ⟨filled, ?_⟩
    rw [length_append, length_singleton, rest, toNat_shr, left, Nat.mod_eq_of_lt (by omega)]

theorem Packed.fillLast (h : Packed s fields) (fits : ∀ f ∈ fields, Fits f)
    (positive : 1 ≤ numberOfBits.toNat)
    (room : s.m_currentVectorBitSize.toNat + numberOfBits.toNat ≤ 32) :
    Packed { s with
      m_nixVector :=
  setBack s.m_nixVector (shl newBits s.m_currentVectorBitSize ||| back s.m_nixVector)
      m_currentVectorBitSize := s.m_currentVectorBitSize + numberOfBits
      m_totalBitSize :=
        s.m_totalBitSize + numberOfBits } (fields ++ [(newBits.toNat, numberOfBits.toNat)]) := by
  obtain ⟨init, last, words, place⟩ := h.exists_last
  have count := toNat_count h (by omega : numberOfBits.toNat ≤ 32)
  have holds := h.holds
  rw [words] at holds
  obtain ⟨filled, -⟩ := holds.fill newBits (by omega) (place ▸ pack_lt fits)
  refine h.add ?_ ?_ ?_ ?_
  · rw [words, setBack_concat]
    simp
  · omega
  · rw [words, setBack_concat, place, length_append, length_singleton, count]
    omega
  · rw [words, setBack_concat, back_concat, place]
    exact filled

theorem addNeighborIndex_packed (newBits : uint32_t) (h : Packed s fields)
    (fits : ∀ f ∈ fields, Fits f)
    (positive : 1 ≤ numberOfBits.toNat) (hwidth : numberOfBits.toNat ≤ 32) :
    ∃ s', s.addNeighborIndex newBits numberOfBits = .ok s' ∧
      Packed s' (fields ++ [(newBits.toNat, numberOfBits.toNat)]) := by
  have at_most : ¬numberOfBits > 32 := by
    rw [gt_iff_lt, BitVec.lt_def]
    exact not_lt.mpr hwidth
  have room : s.m_currentVectorBitSize + numberOfBits > 32 ↔
      32 < s.m_currentVectorBitSize.toNat + numberOfBits.toNat := by
    rw [gt_iff_lt, BitVec.lt_def, toNat_count h hwidth]
    rfl
  rw [addNeighborIndex, if_neg at_most]
  by_cases spills : s.m_currentVectorBitSize + numberOfBits > 32
  · rw [if_pos spills]
    by_cases full : s.m_currentVectorBitSize = 32
    · rw [if_pos full]
      exact ⟨_, rfl, h.push fits hwidth full⟩
    · have less : s.m_currentVectorBitSize.toNat < 32 := lt_of_le_of_ne h.current fun same =>
        full (BitVec.toNat_inj.mp same)
      rw [if_neg full]
      exact ⟨_, rfl, h.fillBoth fits hwidth less (room.mp spills)⟩
  · rw [if_neg spills]
    exact ⟨_, rfl, h.fillLast fits positive (not_lt.mp (mt room.mpr spills))⟩

def fieldsOf (pairs : List (uint32_t × uint32_t)) : List (ℕ × ℕ) :=
  pairs.map fun p => (p.1.toNat, p.2.toNat)

/-- What may be added: a number of bits from 1 to 32, and an index for which it is enough. -/
def Index (p : uint32_t × uint32_t) : Prop :=
  1 ≤ p.2.toNat ∧ p.2.toNat ≤ 32 ∧ p.1.toNat < 2 ^ p.2.toNat
deriving Decidable

variable {pairs : List (uint32_t × uint32_t)}

theorem fits_fieldsOf (h : ∀ p ∈ pairs, Index p) : ∀ f ∈ fieldsOf pairs, Fits f := by
  intro f hf
  obtain ⟨p, hp, rfl⟩ := mem_map.mp hf
  exact (h p hp).2.2

theorem addAll_packed (h : Packed s fields) (fits : ∀ f ∈ fields, Fits f)
    (indices : ∀ p ∈ pairs, Index p) :
    ∃ s', s.addAll pairs = .ok s' ∧ Packed s' (fields ++ fieldsOf pairs) := by
  induction pairs generalizing s fields with
  | nil => exact ⟨s, rfl, by rwa [fieldsOf, map_nil, append_nil]⟩
  | cons p pairs ih =>
    obtain ⟨value, width⟩ := p
    obtain ⟨positive, atMost, fit⟩ := indices _ mem_cons_self
    obtain ⟨s', run, packed⟩ := addNeighborIndex_packed value h fits positive atMost
    have fits' : ∀ f ∈ fields ++ [(value.toNat, width.toNat)], Fits f := by
      intro f hf
      rcases mem_append.mp hf with hf | hf
      · exact fits f hf
      · cases mem_singleton.mp hf
        exact fit
    obtain ⟨s'', rest, packed'⟩ := ih packed fits' fun p hp => indices p (mem_cons_of_mem _ hp)
    refine ⟨s'', ?_, ?_⟩
    · rw [addAll, run]
      exact rest
    · rwa [append_assoc] at packed'

structure Reading (s : NixVector) (n remaining : ℕ) : Prop where
  holds : Holds s.m_nixVector n
  room : remaining ≤ 32 * s.m_nixVector.length
  remaining_eq : s.getRemainingBits.toNat = remaining

theorem toNat_getRemainingBits_used (s : NixVector)
    (h : numberOfBits.toNat ≤ s.getRemainingBits.toNat) :
    (getRemainingBits { s with m_used := s.m_used + numberOfBits }).toNat =
      s.getRemainingBits.toNat - numberOfBits.toNat := by
  have regroup : getRemainingBits { s with m_used := s.m_used + numberOfBits } =
      s.getRemainingBits - numberOfBits := by
    simp only [getRemainingBits]
    rw [BitVec.sub_sub]
  rw [regroup, toNat_sub_of_le h]

theorem extractNeighborIndex_reading {n remaining : ℕ} (h : Reading s n remaining)
    (hwidth : 1 ≤ numberOfBits.toNat)
    (hwidth' : numberOfBits.toNat ≤ 32) (le : numberOfBits.toNat ≤ remaining) :
    ∃ bits s', s.extractNeighborIndex numberOfBits = .ok (bits, s') ∧
      bits.toNat = field n (remaining - numberOfBits.toNat) numberOfBits.toNat ∧
      Reading s' n (remaining - numberOfBits.toNat) := by
  obtain ⟨holds, room, rfl⟩ := h
  obtain ⟨bits, run, value⟩ := extractedBits_eq holds hwidth hwidth' le room
  have at_most : ¬ numberOfBits > 32 := by
    rw [gt_iff_lt, BitVec.lt_def]
    exact not_lt.mpr hwidth'
  have there : ¬ numberOfBits > s.getRemainingBits := by
    rw [gt_iff_lt, BitVec.lt_def]
    exact not_lt.mpr le
  have some : ¬ numberOfBits ≤ 0 := by
    rw [BitVec.le_def]
    exact not_le.mpr hwidth
  refine ⟨bits, { s with m_used := s.m_used + numberOfBits }, ?_, value, holds,
    (Nat.sub_le _ _).trans room, ?_⟩
  · rw [extractNeighborIndex, if_neg at_most]
    dsimp only
    rw [if_neg there, if_neg some, run]
    rfl
  · exact toNat_getRemainingBits_used s le

theorem extractAll_reading {above : List (uint32_t × uint32_t)} (indices : ∀ p ∈ pairs, Index p)
    (h : Reading s (pack (fieldsOf (pairs ++ above))) (height (fieldsOf pairs))) :
    ∃ s', s.extractAll (pairs.reverse.map Prod.snd) = .ok (pairs.reverse.map Prod.fst, s') ∧
      s'.getRemainingBits.toNat = 0 := by
  induction pairs using List.reverseRecOn generalizing s above with
  | nil => exact ⟨s, rfl, h.remaining_eq⟩
  | append_singleton pairs p ih =>
    obtain ⟨value, width⟩ := p
    obtain ⟨positive, atMost, fit⟩ := indices _ mem_concat_self
    have lower : ∀ p ∈ pairs, Index p := fun p hp => indices p (mem_append_left _ hp)
    have higher : height (fieldsOf (pairs ++ [(value, width)])) =
        height (fieldsOf pairs) + width.toNat := by
      rw [fieldsOf, map_append, height_append]
      rfl
    have split : fieldsOf (pairs ++ (value, width) :: above) =
        fieldsOf pairs ++ (value.toNat, width.toNat) :: fieldsOf above := map_append
    rw [higher, append_assoc, singleton_append] at h
    obtain ⟨bits, s', run, hbits, reading⟩ :=
      extractNeighborIndex_reading h positive atMost (Nat.le_add_left _ _)
    rw [Nat.add_sub_cancel] at hbits reading
    rw [split, field_pack (f := (value.toNat, width.toNat)) (fits_fieldsOf lower) fit,
      BitVec.toNat_inj] at hbits
    obtain ⟨s'', rest, none⟩ := ih lower reading
    refine ⟨s'', ?_, none⟩
    rw [reverse_append, reverse_singleton, singleton_append, map_cons, extractAll, run]
    dsimp only [bind, Except.bind]
    rw [rest, hbits]
    rfl

theorem of_extractNeighborIndex {bits : uint32_t} {s' : NixVector}
    (run : s.extractNeighborIndex numberOfBits = .ok (bits, s')) :
    s'.getRemainingBits.toNat + numberOfBits.toNat = s.getRemainingBits.toNat := by
  rw [extractNeighborIndex] at run
  dsimp only at run
  split_ifs at run with large missing
  have le : numberOfBits.toNat ≤ s.getRemainingBits.toNat := by
    rw [gt_iff_lt, BitVec.lt_def] at missing
    exact not_lt.mp missing
  cases extracted : extractedBits s.m_nixVector s.getRemainingBits numberOfBits with
  | error e =>
    rw [extracted] at run
    cases run
  | ok bits =>
    rw [extracted] at run
    cases run
    rw [toNat_getRemainingBits_used s le, Nat.sub_add_cancel le]

theorem sum_le_of_extractAll {widths values : List uint32_t} {s' : NixVector}
    (run : s.extractAll widths = .ok (values, s')) :
    (widths.map BitVec.toNat).sum ≤ s.getRemainingBits.toNat := by
  induction widths generalizing s values with
  | nil => exact Nat.zero_le _
  | cons width widths ih =>
    rw [extractAll] at run
    cases first : s.extractNeighborIndex width with
    | error e =>
      rw [first] at run
      cases run
    | ok taken =>
      obtain ⟨bits, next⟩ := taken
      rw [first] at run
      have total := of_extractNeighborIndex first
      cases others : next.extractAll widths with
      | error e =>
        simp only [bind, Except.bind, others] at run
        cases run
      | ok r =>
        obtain ⟨rest, last⟩ := r
        simp only [bind, Except.bind, others, pure, Except.pure] at run
        cases run
        have le := ih others
        rw [map_cons, sum_cons]
        omega

end Runs

def BitStack (pairs : List (uint32_t × uint32_t)) : Prop :=
  ∃ s s', empty.addAll pairs = .ok s ∧
    s.extractAll (pairs.reverse.map Prod.snd) = .ok (pairs.reverse.map Prod.fst, s') ∧
      s'.getRemainingBits = 0

section Stack

variable {pairs : List (uint32_t × uint32_t)}

def totalWidth (pairs : List (uint32_t × uint32_t)) : ℕ := (pairs.map fun p => p.2.toNat).sum

theorem height_fieldsOf (pairs : List (uint32_t × uint32_t)) : height (fieldsOf pairs) =
    totalWidth pairs := by
  rw [height, fieldsOf, map_map]
  rfl

theorem added (indices : ∀ p ∈ pairs, Index p) : ∃ s, empty.addAll pairs = .ok s ∧
    Packed s (fieldsOf pairs) :=
  addAll_packed packed_empty (fun _ hf => absurd hf not_mem_nil) indices

theorem Packed.toNat_getRemainingBits {s : NixVector} (h : Packed s (fieldsOf pairs)) :
    s.getRemainingBits.toNat = totalWidth pairs % 2 ^ 32 := by
  rw [getRemainingBits, h.unused]
  exact (congrArg BitVec.toNat (BitVec.sub_zero _)).trans (h.total.trans (by rw [height_fieldsOf]))

theorem bitStack_of_lt (indices : ∀ p ∈ pairs, Index p) (small : totalWidth pairs < 2 ^ 32) :
    BitStack pairs := by
  obtain ⟨s, run, packed⟩ := added indices
  have size := packed.size
  have current := packed.current
  have reading : Reading s (pack (fieldsOf (pairs ++ []))) (height (fieldsOf pairs)) := by
    rw [append_nil]
    refine ⟨packed.holds, by omega, ?_⟩
    rw [packed.toNat_getRemainingBits, height_fieldsOf, Nat.mod_eq_of_lt small]
  obtain ⟨s', rest, none⟩ := extractAll_reading indices reading
  exact ⟨s, s', run, rest, BitVec.toNat_inj.mp none⟩

theorem totalWidth_lt (indices : ∀ p ∈ pairs, Index p) (right : BitStack pairs) : totalWidth pairs <
    2 ^ 32 := by
  obtain ⟨s, s', run, rest, -⟩ := right
  obtain ⟨s₁, run₁, packed⟩ := added indices
  rw [run₁] at run
  cases run
  have le := sum_le_of_extractAll rest
  have sum : ((pairs.reverse.map Prod.snd).map BitVec.toNat).sum = totalWidth pairs := by
    rw [map_map, map_reverse, sum_reverse]
    rfl
  rw [sum, packed.toNat_getRemainingBits] at le
  exact le.trans_lt (Nat.mod_lt _ (Nat.two_pow_pos 32))

theorem bitStack_iff (indices : ∀ p ∈ pairs, Index p) : BitStack pairs ↔
    totalWidth pairs < 2 ^ 32 :=
  ⟨totalWidth_lt indices, bitStack_of_lt indices⟩

end Stack

theorem bitStack_iff_three : (∀ p ∈ [(5, 3), (0xffffffff, 32), (1, 30)], Index p) ∧
    (BitStack [(5, 3), (0xffffffff, 32), (1, 30)] ↔ totalWidth [(5, 3), (0xffffffff, 32), (1, 30)] <
      2 ^ 32) := by
  have indices : ∀ p ∈ [(5, 3), (0xffffffff, 32), (1, 30)], Index p := by simp [Index]
  exact ⟨indices, bitStack_iff indices⟩

/-- 2^27 entries have 2^32 bits. -/
theorem many_entries :
    (∀ p ∈ replicate (2 ^ 27) (0, 32), Index p) ∧ ¬ BitStack (replicate (2 ^ 27) (0, 32)) := by
  have indices : ∀ p ∈ replicate (2 ^ 27) (0, 32), Index p := by
    intro p hp
    rw [eq_of_mem_replicate hp]
    decide
  refine ⟨indices, fun right => ?_⟩
  have small := totalWidth_lt indices right
  rw [totalWidth, map_replicate, sum_replicate] at small
  exact absurd small (by decide)

end NixVector

end Egsr.Network
