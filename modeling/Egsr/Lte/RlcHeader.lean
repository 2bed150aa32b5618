import Egsr.Lib.BitFields

/-! The header of a UMD PDU. Extension bits and length indicators, which AMD
PDUs have as well, are packed two to three bytes. -/

namespace Egsr.Lte.Rlc

open List

variable (n : ℕ)

abbrev u8 : UInt8 := UInt8.ofNat n

/-- What a `uint16_t` holds of a number. -/
def u16 : ℕ := n % 2 ^ 16

theorem u16_of_lt {n : ℕ} (hn : n < 2 ^ 16) : u16 n = n := Nat.mod_eq_of_lt hn

theorem u16_eq_iff {n : ℕ} : u16 n = n ↔ n < 2 ^ 16 :=
  ⟨fun h => h ▸ Nat.mod_lt n (by decide), u16_of_lt⟩

theorem u16_u16_add (n m : ℕ) : u16 (u16 n + m) = u16 (n + m) := Nat.mod_add_mod n (2 ^ 16) m

abbrev DATA_FIELD_FOLLOWS : ℕ := 0

abbrev E_LI_FIELDS_FOLLOWS : ℕ := 1

/-- The loop of `Serialize` over the extension bits after the first and the length indicators. -/
def writeLengthIndicators : List ℕ → List ℕ → List UInt8
  | oddE :: evenE :: extensionBits, oddLi :: evenLi :: lengthIndicators =>
    u8 ((oddE <<< 7 &&& 0x80) ||| (oddLi >>> 4 &&& 0x7F)) ::
      u8 ((oddLi <<< 4 &&& 0xF0) ||| (evenE <<< 3 &&& 0x08) ||| (evenLi >>> 8 &&& 0x07)) ::
        u8 (evenLi &&& 0xFF) :: writeLengthIndicators extensionBits lengthIndicators
  | oddE :: _, oddLi :: _ =>
    -- the padding is implicit
    [u8 ((oddE <<< 7 &&& 0x80) ||| (oddLi >>> 4 &&& 0x7F)), u8 (oddLi <<< 4 &&& 0xF0)]
  | _, _ => []

/-- The loop of `Deserialize`: what is pushed to both lists and by how much the header gets
longer. -/
def readLengthIndicators : List UInt8 → Option (List ℕ × List ℕ × ℕ)
  | byte_1 :: byte_2 :: bytes =>
    let oddE := (byte_1.toNat &&& 0x80) >>> 7
    let oddLi := ((byte_1.toNat &&& 0x7F) <<< 4) ||| ((byte_2.toNat &&& 0xF0) >>> 4)
    if oddE = E_LI_FIELDS_FOLLOWS then
      match bytes with
      | byte_3 :: bytes =>
        let evenE := (byte_2.toNat &&& 0x08) >>> 3
        let evenLi := ((byte_2.toNat &&& 0x07) <<< 8) ||| (byte_3.toNat &&& 0xFF)
        if evenE = E_LI_FIELDS_FOLLOWS then
          (readLengthIndicators bytes).map fun out =>
            (oddE :: evenE :: out.1, oddLi :: evenLi :: out.2.1, 3 + out.2.2)
        else some ([oddE, evenE], [oddLi, evenLi], 3)
      | [] => none
    else some ([oddE], [oddLi], 2)
  | _ => none

structure LteRlcHeader where
  m_headerLength : ℕ
  m_framingInfo : ℕ
  m_sequenceNumber : ℕ
  m_extensionBits : List ℕ
  m_lengthIndicators : List ℕ
deriving DecidableEq

namespace LteRlcHeader

variable (h : LteRlcHeader)

def fresh : LteRlcHeader := ⟨0, 0xff, 0xfffa % 1024, [], []⟩

def setFramingInfo (framingInfo : ℕ) : LteRlcHeader :=
  { h with m_framingInfo := framingInfo &&& 0x03 }

def setSequenceNumber (sequenceNumber : ℕ) : LteRlcHeader :=
  { h with m_sequenceNumber := sequenceNumber }

def pushExtensionBit (extensionBit : ℕ) : LteRlcHeader :=
  let extensionBits := h.m_extensionBits ++ [extensionBit]
  { h with
    m_extensionBits := extensionBits
    m_headerLength :=
      if extensionBits.length = 1 then 2
      else if extensionBits.length % 2 ≠ 0 then u16 (h.m_headerLength + 1)
      else u16 (h.m_headerLength + 2) }

def pushLengthIndicator (lengthIndicator : ℕ) : LteRlcHeader :=
  { h with m_lengthIndicators := h.m_lengthIndicators ++ [lengthIndicator] }

def getSerializedSize : ℕ := h.m_headerLength

/-- Nothing for a header without extension bits, which has no first one to write. -/
def serialize : List UInt8 :=
  match h.m_extensionBits with
  | [] => []
  | e :: extensionBits =>
    u8 ((h.m_framingInfo <<< 3 &&& 0x18) ||| (e <<< 2 &&& 0x04) |||
      (h.m_sequenceNumber >>> 8 &&& 0x03)) ::
      u8 (h.m_sequenceNumber &&& 0xFF) :: writeLengthIndicators extensionBits h.m_lengthIndicators

/-- The header with its size; none when there are not enough bytes. -/
def deserialize (bytes : List UInt8) : Option (LteRlcHeader × ℕ) :=
  match bytes with
  | byte_1 :: byte_2 :: rest =>
    let extensionBit := (byte_1.toNat &&& 0x04) >>> 2
    let header := { h with
      m_headerLength := 2
      m_framingInfo := (byte_1.toNat &&& 0x18) >>> 3
      m_sequenceNumber := (((byte_1.toNat &&& 0x03) <<< 8) ||| byte_2.toNat) % 1024
      m_extensionBits := h.m_extensionBits ++ [extensionBit] }
    if extensionBit = DATA_FIELD_FOLLOWS then some (header, header.getSerializedSize)
    else (readLengthIndicators rest).map fun out =>
      let header := { header with
        m_headerLength := u16 (header.m_headerLength + out.2.2)
        m_extensionBits := header.m_extensionBits ++ out.1
        m_lengthIndicators := header.m_lengthIndicators ++ out.2.1 }
      (header, header.getSerializedSize)
  | _ => none

end LteRlcHeader

section Bytes

open Lib.BitFields

variable {e li e' li' : ℕ}

theorem toNat_odd (e li : ℕ) :
    (u8 ((e <<< 7 &&& 0x80) ||| (li >>> 4 &&& 0x7F))).toNat = e % 2 * 128 + li / 16 % 128 := by
  have hhigh : e <<< 7 &&& 0x80 = e % 2 * 128 := shiftLeft_field e 1 7
  have hlow : li >>> 4 &&& 0x7F = li / 16 % 128 := shiftRight_low li 4 7
  rw [UInt8.toNat_ofNat', hhigh, hlow, or_below 7 (by omega) (by omega)]
  exact Nat.mod_eq_of_lt (by omega)

theorem toNat_even (li e' li' : ℕ) :
    (u8 ((li <<< 4 &&& 0xF0) ||| (e' <<< 3 &&& 0x08) ||| (li' >>> 8 &&& 0x07))).toNat =
      li % 16 * 16 + e' % 2 * 8 + li' / 256 % 8 := by
  have hhigh : li <<< 4 &&& 0xF0 = li % 16 * 16 := shiftLeft_field li 4 4
  have hbit : e' <<< 3 &&& 0x08 = e' % 2 * 8 := shiftLeft_field e' 1 3
  have hlow : li' >>> 8 &&& 0x07 = li' / 256 % 8 := shiftRight_low li' 8 3
  rw [UInt8.toNat_ofNat', hhigh, hbit, hlow, or_below (y := e' % 2 * 8) 4 (by omega) (by omega),
    or_below 3 (by omega) (by omega)]
  exact Nat.mod_eq_of_lt (by omega)

theorem toNat_lastOdd (li : ℕ) : (u8 (li <<< 4 &&& 0xF0)).toNat = li % 16 * 16 := by
  have hhigh : li <<< 4 &&& 0xF0 = li % 16 * 16 := shiftLeft_field li 4 4
  rw [UInt8.toNat_ofNat', hhigh]
  exact Nat.mod_eq_of_lt (by omega)

theorem toNat_low (li : ℕ) : (u8 (li &&& 0xFF)).toNat = li % 256 := by
  have hlow : li &&& 0xFF = li % 256 := and_low li 8
  rw [UInt8.toNat_ofNat', hlow]
  exact Nat.mod_mod li 256

theorem read_oddE : (n &&& 0x80) >>> 7 = n / 128 % 2 := field_shiftRight n 1 7

theorem read_oddLi (m n : ℕ) :
    ((m &&& 0x7F) <<< 4) ||| ((n &&& 0xF0) >>> 4) = m % 128 * 16 + n / 16 % 16 := by
  have hhigh : (m &&& 0x7F) <<< 4 = m % 128 * 16 := low_shiftLeft m 7 4
  have hlow : (n &&& 0xF0) >>> 4 = n / 16 % 16 := field_shiftRight n 4 4
  rw [hhigh, hlow, or_below 4 (by omega) (by omega)]

theorem read_evenE : (n &&& 0x08) >>> 3 = n / 8 % 2 := field_shiftRight n 1 3

theorem read_evenLi (m n : ℕ) : ((m &&& 0x07) <<< 8) ||| (n &&& 0xFF) = m % 8 * 256 + n % 256 := by
  have hhigh : (m &&& 0x07) <<< 8 = m % 8 * 256 := low_shiftLeft m 3 8
  have hbyte : n &&& 0xFF = n % 256 := and_low n 8
  rw [hhigh, hbyte, or_below 8 (by omega) (by omega)]

theorem read_extensionBit : (n &&& 0x04) >>> 2 = n / 4 % 2 := field_shiftRight n 1 2

theorem read_framingInfo : (n &&& 0x18) >>> 3 = n / 8 % 4 := field_shiftRight n 2 3

theorem read_sequenceNumber (m : ℕ) {n : ℕ} (hn : n < 256) :
    ((m &&& 0x03) <<< 8) ||| n = m % 4 * 256 + n := by
  have hhigh : (m &&& 0x03) <<< 8 = m % 4 * 256 := low_shiftLeft m 2 8
  rw [hhigh, or_below 8 (by omega) hn]

end Bytes

/-! ## Round trip -/

def packedSize : ℕ := (3 * n + 1) / 2

theorem length_writeLengthIndicators {e li : List ℕ} (len : e.length = li.length) :
    (writeLengthIndicators e li).length = packedSize li.length := by
  fun_induction writeLengthIndicators e li with
  | case1 oddE evenE e oddLi evenLi li ih =>
    simp only [length_cons] at len ⊢
    rw [ih (by omega), packedSize, packedSize]
    omega
  | case2 oddE e oddLi li neither =>
    have hnil : li = [] := by
      cases e with
      | nil => exact eq_nil_of_length_eq_zero (by simpa using len.symm)
      | cons evenE e =>
        cases li with
        | nil => rfl
        | cons evenLi li => exact (neither evenE e evenLi li rfl rfl).elim
    subst hnil
    change 2 = packedSize 1
    rfl
  | case3 e li _ none =>
    have hnil : li = [] := by
      cases li with
      | nil => rfl
      | cons l li =>
        cases e with
        | nil => simp at len
        | cons b e => exact (none b e l li rfl rfl).elim
    rw [hnil]
    rfl

theorem write_cons_cons (oddE oddLi : ℕ) (e li : List ℕ) : ∃ byte_1 byte_2 bytes,
    writeLengthIndicators (oddE :: e) (oddLi :: li) = byte_1 :: byte_2 :: bytes ∧
      (byte_1 : UInt8).toNat = oddE % 2 * 128 + oddLi / 16 % 128 ∧
      (byte_2 : UInt8).toNat / 16 = oddLi % 16 := by
  cases e with
  | nil =>
    refine ⟨_, _, _, rfl, toNat_odd oddE oddLi, ?_⟩
    rw [toNat_lastOdd]
    omega
  | cons evenE e =>
    cases li with
    | nil =>
      refine ⟨_, _, _, rfl, toNat_odd oddE oddLi, ?_⟩
      rw [toNat_lastOdd]
      omega
    | cons evenLi li =>
      refine ⟨_, _, _, rfl, toNat_odd oddE oddLi, ?_⟩
      rw [toNat_even]
      omega

theorem pair_numbers {oddLi evenLi : ℕ} (hodd : oddLi < 2048) (heven : evenLi < 2048) (evenE : ℕ) :
    (u8 ((1 <<< 7 &&& 0x80) ||| (oddLi >>> 4 &&& 0x7F))).toNat % 128 * 16 +
        (u8 ((oddLi <<< 4 &&& 0xF0) ||| (evenE <<< 3 &&& 0x08) ||| (evenLi >>> 8 &&& 0x07))).toNat /
          16 % 16 = oddLi ∧
      (u8 ((oddLi <<< 4 &&& 0xF0) ||| (evenE <<< 3 &&& 0x08) ||| (evenLi >>> 8 &&& 0x07))).toNat %
        8 * 256 + (u8 (evenLi &&& 0xFF)).toNat % 256 = evenLi := by
  rw [toNat_odd, toNat_even, toNat_low]
  omega

theorem read_odd {byte_1 byte_2 : UInt8} (bytes : List UInt8) (clear : byte_1.toNat / 128 % 2 = 0) :
    readLengthIndicators (byte_1 :: byte_2 :: bytes) =
      some ([0], [byte_1.toNat % 128 * 16 + byte_2.toNat / 16 % 16], 2) := by
  rw [readLengthIndicators.eq_def]
  simp only [read_oddE, read_oddLi]
  rw [clear, if_neg (by decide)]

theorem read_pair {byte_1 byte_2 byte_3 : UInt8} (bytes : List UInt8)
    (set : byte_1.toNat / 128 % 2 = 1) :
    readLengthIndicators (byte_1 :: byte_2 :: byte_3 :: bytes) =
      if byte_2.toNat / 8 % 2 = 1 then (readLengthIndicators bytes).map fun out =>
        (1 :: 1 :: out.1, (byte_1.toNat % 128 * 16 + byte_2.toNat / 16 % 16) ::
          (byte_2.toNat % 8 * 256 + byte_3.toNat % 256) :: out.2.1, 3 + out.2.2)
      else some ([1, 0], [byte_1.toNat % 128 * 16 + byte_2.toNat / 16 % 16,
        byte_2.toNat % 8 * 256 + byte_3.toNat % 256], 3) := by
  rw [readLengthIndicators.eq_def]
  simp only [read_oddE, read_oddLi, read_evenE, read_evenLi]
  rw [set, if_pos rfl]
  by_cases heven : byte_2.toNat / 8 % 2 = 1
  · rw [if_pos heven, if_pos heven, heven]
  · rw [if_neg heven, if_neg heven, show byte_2.toNat / 8 % 2 = 0 by omega]

theorem readLengthIndicators_write {lis : List ℕ} (len : lis.length = n + 1)
    (small : ∀ li ∈ lis, li < 2048) (e li : List ℕ) (rest : List UInt8) :
    readLengthIndicators (writeLengthIndicators (replicate n 1 ++ 0 :: e) (lis ++ li) ++ rest) =
      some (replicate n 1 ++ [0], lis, packedSize (n + 1)) := by
  induction n using Nat.twoStepInduction generalizing lis with
  | zero =>
    obtain ⟨oddLi, rfl⟩ := length_eq_one_iff.mp len
    have hsmall := small oddLi mem_cons_self
    obtain ⟨byte_1, byte_2, bytes, hwrite, hodd, heven⟩ := write_cons_cons 0 oddLi e li
    have hli : byte_1.toNat % 128 * 16 + byte_2.toNat / 16 % 16 = oddLi := by omega
    change readLengthIndicators (writeLengthIndicators (0 :: e) (oddLi :: li) ++ rest) = _
    rw [hwrite, cons_append, cons_append, read_odd _ (by omega), hli]
    rfl
  | one =>
    match lis, len with
    | [oddLi, evenLi], _ =>
      have hodd := small oddLi mem_cons_self
      have heven := small evenLi (mem_cons_of_mem _ mem_cons_self)
      obtain ⟨ho, he⟩ := pair_numbers hodd heven 0
      change readLengthIndicators
        (writeLengthIndicators (1 :: 0 :: e) (oddLi :: evenLi :: li) ++ rest) = _
      rw [writeLengthIndicators, cons_append, cons_append, cons_append,
        read_pair _ (by rw [toNat_odd]; omega), ho, he, toNat_even, if_neg (by omega)]
      rfl
  | more n ih =>
    match lis, len with
    | oddLi :: evenLi :: lis, len =>
      have hodd := small oddLi mem_cons_self
      have heven := small evenLi (mem_cons_of_mem _ mem_cons_self)
      have hrest := @ih lis (by simpa using len) fun li hli =>
        small li (mem_cons_of_mem _ (mem_cons_of_mem _ hli))
      obtain ⟨ho, he⟩ := pair_numbers hodd heven 1
      change readLengthIndicators (writeLengthIndicators (1 :: 1 :: (replicate n 1 ++ 0 :: e))
        (oddLi :: evenLi :: (lis ++ li)) ++ rest) = _
      rw [writeLengthIndicators, cons_append, cons_append, cons_append,
        read_pair _ (by rw [toNat_odd]; omega), ho, he, toNat_even, if_pos (by omega), hrest,
          Option.map_some]
      have hsize : 3 + packedSize (n + 1) = packedSize (n + 2 + 1) := by
        rw [packedSize, packedSize]
        omega
      rw [hsize]
      rfl

theorem read_bits (r : List ℕ) {li : List ℕ} (small : ∀ l ∈ li, l < 2048) (len : n ≤ li.length)
    (rest : List UInt8) :
    ∃ first tail e, replicate n 1 ++ 0 :: r = first :: tail ∧ first :: e = replicate n 1 ++
    [0] ∧ first < 2 ∧
      if first = 0 then e = [] ∧ li.take n = [] ∧ packedSize n = 0
      else readLengthIndicators (writeLengthIndicators tail li ++ rest) =
        some (e, li.take n, packedSize n) := by
  cases n with
  | zero => exact ⟨0, r, [], rfl, rfl, by decide, rfl, rfl, rfl⟩
  | succ n =>
    have hread := @readLengthIndicators_write n (li.take (n + 1)) (by rw [length_take]; omega)
      (fun l hl => small l (mem_of_mem_take hl)) r (li.drop (n + 1)) rest
    rw [take_append_drop] at hread
    exact ⟨1, replicate n 1 ++ 0 :: r, replicate n 1 ++ [0], rfl, rfl, by decide, hread⟩

end Egsr.Lte.Rlc
