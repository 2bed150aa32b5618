import Mathlib.Data.List.Induction
import Egsr.Lte.RlcHeader

/-! The header of AMD PDUs and of STATUS PDUs. -/

namespace Egsr.Lte.Rlc

open List

abbrev CONTROL_PDU : ℕ := 0

abbrev DATA_PDU : ℕ := 1

abbrev STATUS_PDU : ℕ := 0

abbrev SEGMENT : ℕ := 1

structure LteRlcAmHeader where
  m_headerLength : ℕ
  m_dataControlBit : ℕ
  m_resegmentationFlag : ℕ
  m_pollingBit : ℕ
  m_framingInfo : ℕ
  m_sequenceNumber : ℕ
  m_lastSegmentFlag : ℕ
  m_segmentOffset : ℕ
  /-- Found out on reception, from the size of the PDU. -/
  m_lastOffset : ℕ
  m_extensionBits : List ℕ
  m_lengthIndicators : List ℕ
  m_controlPduType : ℕ
  m_ackSn : ℕ
  m_nackSnList : List ℕ
deriving DecidableEq

/-- The loop of `Serialize` over the negative acknowledgements. The highest bit of the first one was
written before. -/
def writeNacks (oddNack : ℕ) : List ℕ → List UInt8
  | [] => [u8 (oddNack >>> 1 &&& 0xFF), u8 (oddNack <<< 7 &&& 0x80)]
  | [evenNack] =>
    [u8 (oddNack >>> 1 &&& 0xFF),
      u8 ((oddNack <<< 7 &&& 0x80) ||| 0x40 ||| (evenNack >>> 5 &&& 0x1F)),
      u8 (evenNack <<< 3 &&& 0xF8)]
  | evenNack :: nextNack :: nacks =>
    u8 (oddNack >>> 1 &&& 0xFF) ::
      u8 ((oddNack <<< 7 &&& 0x80) ||| 0x40 ||| (evenNack >>> 5 &&& 0x1F)) ::
      u8 ((evenNack <<< 3 &&& 0xF8) ||| 0x04 ||| (nextNack >>> 9 &&& 0x01)) ::
        writeNacks nextNack nacks

/-- The loop of `Deserialize`, after a byte with a bit that says whether there are more: what is
pushed and by how much the header gets longer. -/
def readNacks (byte : ℕ) : List UInt8 → Option (List ℕ × ℕ)
  | [] => if (byte &&& 0x40) >>> 6 = 1 then none else some ([], 0)
  | nextByte :: bytes =>
    if (byte &&& 0x40) >>> 6 = 1 then
      let even := ((byte &&& 0x1F) <<< 5) ||| ((nextByte.toNat &&& 0xF8) >>> 3)
      if (nextByte.toNat &&& 0x04) >>> 2 = 1 then
        match bytes with
        | middleByte :: finalByte :: bytes =>
          let odd := ((nextByte.toNat &&& 0x01) <<< 9) ||| (middleByte.toNat <<< 1) |||
            ((finalByte.toNat &&& 0x80) >>> 7)
          (readNacks finalByte.toNat bytes).map fun out => (even :: odd :: out.1, 3 + out.2)
        | _ => none
      else some ([even], 1)
    else some ([], 0)

namespace LteRlcAmHeader

variable (h : LteRlcAmHeader)

/-- The constructor, which leaves the last segment flag as it is. -/
def fresh (lastSegmentFlag : ℕ) : LteRlcAmHeader :=
  ⟨0, 0xff, 0xff, 0xff, 0xff, 0xfffa % 1024, lastSegmentFlag, 0xffff, 0xffff, [], [], 0xff,
    0xffff % 1024, []⟩

def setDataPdu : LteRlcAmHeader := { h with m_headerLength := 4, m_dataControlBit := DATA_PDU }

def setControlPdu (controlPduType : ℕ) : LteRlcAmHeader :=
  { h with
    m_headerLength := 2, m_dataControlBit := CONTROL_PDU, m_controlPduType := controlPduType }

def setFramingInfo (framingInfo : ℕ) : LteRlcAmHeader :=
  { h with m_framingInfo := framingInfo &&& 0x03 }

def setSequenceNumber (sequenceNumber : ℕ) : LteRlcAmHeader :=
  { h with m_sequenceNumber := sequenceNumber }

def pushExtensionBit (extensionBit : ℕ) : LteRlcAmHeader :=
  let extensionBits := h.m_extensionBits ++ [extensionBit]
  { h with
    m_extensionBits := extensionBits
    m_headerLength :=
      if extensionBits.length > 1 then
        if extensionBits.length % 2 ≠ 0 then u16 (h.m_headerLength + 1)
          else u16 (h.m_headerLength + 2)
      else h.m_headerLength }

def pushLengthIndicator (lengthIndicator : ℕ) : LteRlcAmHeader :=
  { h with m_lengthIndicators := h.m_lengthIndicators ++ [lengthIndicator] }

def setResegmentationFlag (resegFlag : ℕ) : LteRlcAmHeader :=
  { h with m_resegmentationFlag := resegFlag &&& 0x01 }

def setPollingBit (pollingBit : ℕ) : LteRlcAmHeader :=
  { h with m_pollingBit := pollingBit &&& 0x01 }

def setLastSegmentFlag (lsf : ℕ) : LteRlcAmHeader := { h with m_lastSegmentFlag := lsf &&& 0x01 }

def setSegmentOffset (segmentOffset : ℕ) : LteRlcAmHeader :=
  { h with m_segmentOffset := segmentOffset &&& 0x7FFF }

def setAckSn (ackSn : ℕ) : LteRlcAmHeader := { h with m_ackSn := ackSn }

/-- The sizes are compared as `int`, which holds `bytes - 1` for zero bytes. -/
def oneMoreNackWouldFitIn (bytes : ℕ) : Bool :=
  let bytes := u16 bytes
  if h.m_nackSnList.length % 2 = 0 then h.m_headerLength < bytes
    else (h.m_headerLength : ℤ) < (bytes : ℤ) - 1

def pushNack (nack : ℕ) : LteRlcAmHeader :=
  let nackSnList := h.m_nackSnList ++ [nack]
  { h with
    m_nackSnList := nackSnList
    m_headerLength := if nackSnList.length % 2 = 0 then u16 (h.m_headerLength + 1)
      else u16 (h.m_headerLength + 2) }

def getSerializedSize : ℕ := h.m_headerLength

/-- Nothing for a data header without extension bits, which has no first one to write. -/
def serialize : List UInt8 :=
  if h.m_dataControlBit = DATA_PDU then
    match h.m_extensionBits with
    | [] => []
    | e :: extensionBits =>
      u8 ((DATA_PDU <<< 7 &&& 0x80) ||| (h.m_resegmentationFlag <<< 6 &&& 0x40) |||
        (h.m_pollingBit <<< 5 &&& 0x20) |||
          (h.m_framingInfo <<< 3 &&& 0x18) ||| (e <<< 2 &&& 0x04) |||
            (h.m_sequenceNumber >>> 8 &&& 0x03)) ::
        u8 (h.m_sequenceNumber &&& 0xFF) ::
          u8 ((h.m_lastSegmentFlag <<< 7 &&& 0x80) ||| (h.m_segmentOffset >>> 8 &&& 0x7F)) ::
            u8 (h.m_segmentOffset &&& 0xFF) ::
              writeLengthIndicators extensionBits h.m_lengthIndicators
  else
    u8 ((CONTROL_PDU <<< 7 &&& 0x80) ||| (h.m_controlPduType <<< 4 &&& 0x70) |||
      (h.m_ackSn >>> 6 &&& 0x0F)) ::
      match h.m_nackSnList with
      | [] => [u8 (h.m_ackSn <<< 2 &&& 0xFC)]
      | oddNack :: nacks =>
        u8 ((h.m_ackSn <<< 2 &&& 0xFC) ||| 0x02 ||| (oddNack >>> 9 &&& 0x01)) ::
          writeNacks oddNack nacks

/-- The rest of `Deserialize` for an AMD PDU of so many bytes, after the first byte. -/
def deserializeData (byte_1 size : ℕ) : List UInt8 → Option LteRlcAmHeader
  | byte_2 :: byte_3 :: byte_4 :: rest =>
    let extensionBit := (byte_1 &&& 0x04) >>> 2
    let header := { h with
      m_headerLength := u16 (h.m_headerLength + 3)
      m_resegmentationFlag := (byte_1 &&& 0x40) >>> 6
      m_pollingBit := (byte_1 &&& 0x20) >>> 5
      m_framingInfo := (byte_1 &&& 0x18) >>> 3
      m_sequenceNumber := (((byte_1 &&& 0x03) <<< 8) ||| byte_2.toNat) % 1024
      m_lastSegmentFlag := (byte_3.toNat &&& 0x80) >>> 7
      m_segmentOffset := (byte_3.toNat &&& 0x7F) ||| byte_4.toNat
      m_extensionBits := h.m_extensionBits ++ [extensionBit] }
    if extensionBit = DATA_FIELD_FOLLOWS then some header
    else (readLengthIndicators rest).map fun out =>
      let header := { header with
        m_headerLength := u16 (header.m_headerLength + out.2.2)
        m_extensionBits := header.m_extensionBits ++ out.1
        m_lengthIndicators := header.m_lengthIndicators ++ out.2.1 }
      if header.m_resegmentationFlag = SEGMENT then
        { header with m_lastOffset := u16 (header.m_segmentOffset + size - header.m_headerLength) }
      else header
  | _ => none

/-- The rest of `Deserialize` for a STATUS PDU. -/
def deserializeControl (byte_1 : ℕ) : List UInt8 → Option LteRlcAmHeader
  | byte_2 :: rest =>
    let header := { h with
      m_controlPduType := (byte_1 &&& 0x70) >>> 4
      m_ackSn := (((byte_1 &&& 0x0F) <<< 6) ||| ((byte_2.toNat &&& 0xFC) >>> 2)) % 1024 }
    if (byte_2.toNat &&& 0x02) >>> 1 = 1 then
      match rest with
      | byte_3 :: byte_4 :: rest =>
        let nack := ((byte_2.toNat &&& 0x01) <<< 9) ||| (byte_3.toNat <<< 1) |||
          ((byte_4.toNat &&& 0x80) >>> 7)
        (readNacks byte_4.toNat rest).map fun out =>
          { header with
            m_headerLength := u16 (4 + out.2)
            m_nackSnList := header.m_nackSnList ++ nack :: out.1 }
      | _ => none
    else some { header with m_headerLength := u16 (header.m_headerLength + 1) }
  | [] => none

/-- The header with its size; none when there are not enough bytes. -/
def deserialize (bytes : List UInt8) : Option (LteRlcAmHeader × ℕ) :=
  match bytes with
  | [] => none
  | byte_1 :: rest =>
    let header := { h with m_headerLength := 1, m_dataControlBit := (byte_1.toNat &&& 0x80) >>> 7 }
    let header :=
      if header.m_dataControlBit =
        DATA_PDU then header.deserializeData byte_1.toNat bytes.length rest
      else header.deserializeControl byte_1.toNat rest
    header.map fun header => (header, header.getSerializedSize)

end LteRlcAmHeader

/-- The fields of a data header with their widths: the extension bits end in 0 and each 1 has its
length indicator. -/
structure DataFields where
  resegmentationFlag : Fin 2
  pollingBit : Fin 2
  lastSegmentFlag : Fin 2
  framingInfo : Fin 4
  sequenceNumber : Fin 1024
  segmentOffset : Fin 32768
  extensionBits : List (Fin 2)
  lengthIndicators : List (Fin 2048)
  last : extensionBits.getLast? = some 0
  counted : lengthIndicators.length = extensionBits.count 1

open LteRlcAmHeader

def dataHeader (garbage : ℕ) (d : DataFields) : LteRlcAmHeader :=
  let h := (fresh garbage).setDataPdu.setResegmentationFlag d.resegmentationFlag |>.setPollingBit
    d.pollingBit
    |>.setLastSegmentFlag d.lastSegmentFlag |>.setFramingInfo d.framingInfo |>.setSequenceNumber
      d.sequenceNumber
    |>.setSegmentOffset d.segmentOffset
  let h := d.extensionBits.foldl (fun h (e : Fin 2) => h.pushExtensionBit e) h
  d.lengthIndicators.foldl (fun h (li : Fin 2048) => h.pushLengthIndicator li) h

def statusHeader (garbage : ℕ) (ackSn : Fin 1024) (nacks : List (Fin 1024)) : LteRlcAmHeader :=
  nacks.foldl (fun h (nack : Fin 1024) => h.pushNack nack)
    (((fresh garbage).setControlPdu STATUS_PDU).setAckSn ackSn)

section Lists

variable (h : LteRlcAmHeader)

theorem foldl_pushExtensionBit (empty : h.m_extensionBits = []) (short : h.m_headerLength < 2 ^ 16)
    (e : List (Fin 2)) : e.foldl (fun h (e : Fin 2) => h.pushExtensionBit e) h =
      { h with
        m_extensionBits := e.map (·.val)
        m_headerLength := u16 (h.m_headerLength + packedSize (e.length - 1)) } := by
  induction e using List.reverseRecOn with
  | nil =>
    change h = { h with m_extensionBits := [], m_headerLength := u16 h.m_headerLength }
    rw [u16_of_lt short, ← empty]
  | append_singleton l e ih =>
    have hlength : (if (l.map (·.val) ++ [e.val]).length > 1 then
        if (l.map (·.val) ++ [e.val]).length % 2 ≠
          0 then u16 (u16 (h.m_headerLength + packedSize (l.length - 1)) + 1)
        else u16 (u16 (h.m_headerLength + packedSize (l.length - 1)) + 2)
        else u16 (h.m_headerLength + packedSize (l.length - 1))) =
          u16 (h.m_headerLength + packedSize l.length) := by
      rw [length_append, length_map, length_singleton, u16_u16_add, u16_u16_add, packedSize,
        packedSize]
      split_ifs
      · exact congrArg u16 (by omega)
      · exact congrArg u16 (by omega)
      · exact congrArg u16 (by omega)
    rw [foldl_append, foldl_cons, foldl_nil, ih, map_append, length_append,
      length_singleton, Nat.add_sub_cancel, ← hlength]
    rfl

theorem foldl_pushLengthIndicator (empty : h.m_lengthIndicators = []) (li : List (Fin 2048)) :
    li.foldl (fun h (li : Fin 2048) => h.pushLengthIndicator li) h =
    { h with m_lengthIndicators := li.map (·.val) } := by
  induction li using List.reverseRecOn with
  | nil =>
    rw [map_nil, ← empty]
    rfl
  | append_singleton l li ih =>
    rw [foldl_append, foldl_cons, foldl_nil, ih, map_append]
    rfl

theorem foldl_pushNack (empty : h.m_nackSnList = []) (short : h.m_headerLength < 2 ^ 16)
    (nacks : List (Fin 1024)) : nacks.foldl (fun h (nack : Fin 1024) => h.pushNack nack) h =
      { h with
        m_nackSnList := nacks.map (·.val)
        m_headerLength := u16 (h.m_headerLength + packedSize nacks.length) } := by
  induction nacks using List.reverseRecOn with
  | nil =>
    change h = { h with m_nackSnList := [], m_headerLength := u16 h.m_headerLength }
    rw [u16_of_lt short, ← empty]
  | append_singleton l nack ih =>
    have hlength : (if (l.map (·.val) ++ [nack.val]).length % 2 =
      0 then u16 (u16 (h.m_headerLength + packedSize l.length) + 1)
        else u16 (u16 (h.m_headerLength + packedSize l.length) + 2)) =
          u16 (h.m_headerLength + packedSize (l.length + 1)) := by
      rw [length_append, length_map, length_singleton, u16_u16_add, u16_u16_add, packedSize,
        packedSize]
      split_ifs
      · exact congrArg u16 (by omega)
      · exact congrArg u16 (by omega)
    rw [foldl_append, foldl_cons, foldl_nil, ih, map_append, length_append,
      length_singleton, ← hlength]
    rfl

end Lists

/-! ## Bytes of the status header -/

section Bytes

open Lib.BitFields

theorem toNat_nackMiddle (odd : ℕ) : (u8 (odd >>> 1 &&& 0xFF)).toNat = odd / 2 % 256 := by
  rw [toNat_low, Nat.shiftRight_eq_div_pow]

theorem toNat_nackLast (odd : ℕ) : (u8 (odd <<< 7 &&& 0x80)).toNat = odd % 2 * 128 := by
  have hhigh : odd <<< 7 &&& 0x80 = odd % 2 * 128 := shiftLeft_field odd 1 7
  rw [UInt8.toNat_ofNat', hhigh]
  exact Nat.mod_eq_of_lt (by omega)

theorem toNat_nackEven (odd even : ℕ) :
    (u8 ((odd <<< 7 &&& 0x80) ||| 0x40 ||| (even >>> 5 &&& 0x1F))).toNat =
      odd % 2 * 128 + 64 + even / 32 % 32 := by
  have hhigh : odd <<< 7 &&& 0x80 = odd % 2 * 128 := shiftLeft_field odd 1 7
  have hlow : even >>> 5 &&& 0x1F = even / 32 % 32 := shiftRight_low even 5 5
  rw [UInt8.toNat_ofNat', hhigh, hlow, or_below (y := 0x40) 7 (by omega) (by omega),
    or_below 6 (by omega) (by omega)]
  exact Nat.mod_eq_of_lt (by omega)

theorem toNat_nackEvenLast (even : ℕ) : (u8 (even <<< 3 &&& 0xF8)).toNat = even % 32 * 8 := by
  have hhigh : even <<< 3 &&& 0xF8 = even % 32 * 8 := shiftLeft_field even 5 3
  rw [UInt8.toNat_ofNat', hhigh]
  exact Nat.mod_eq_of_lt (by omega)

theorem toNat_nackNext (even next : ℕ) :
    (u8 ((even <<< 3 &&& 0xF8) ||| 0x04 ||| (next >>> 9 &&& 0x01))).toNat =
      even % 32 * 8 + 4 + next / 512 % 2 := by
  have hhigh : even <<< 3 &&& 0xF8 = even % 32 * 8 := shiftLeft_field even 5 3
  have hlow : next >>> 9 &&& 0x01 = next / 512 % 2 := shiftRight_low next 9 1
  rw [UInt8.toNat_ofNat', hhigh, hlow, or_below (y := 0x04) 3 (by omega) (by omega),
    or_below 2 (by omega) (by omega)]
  exact Nat.mod_eq_of_lt (by omega)

theorem read_more (n : ℕ) : (n &&& 0x40) >>> 6 = n / 64 % 2 := field_shiftRight n 1 6

theorem read_evenNack (m n : ℕ) :
    ((m &&& 0x1F) <<< 5) ||| ((n &&& 0xF8) >>> 3) = m % 32 * 32 + n / 8 % 32 := by
  have hhigh : (m &&& 0x1F) <<< 5 = m % 32 * 32 := low_shiftLeft m 5 5
  have hlow : (n &&& 0xF8) >>> 3 = n / 8 % 32 := field_shiftRight n 5 3
  rw [hhigh, hlow, or_below 5 (by omega) (by omega)]

theorem read_oddNack (m k : ℕ) {n : ℕ} (hn : n < 256) :
    ((m &&& 0x01) <<< 9) ||| (n <<< 1) ||| ((k &&& 0x80) >>> 7) =
      m % 2 * 512 + n * 2 + k / 128 % 2 := by
  have hhigh : (m &&& 0x01) <<< 9 = m % 2 * 512 := low_shiftLeft m 1 9
  have hmiddle : n <<< 1 = n * 2 := Nat.shiftLeft_eq n 1
  rw [read_oddE, hhigh, hmiddle, or_below (y := n * 2) 9 (by omega) (by omega),
    or_below 1 (by omega) (by omega)]

theorem readNacks_write (odd : ℕ) (nacks : List ℕ) (small : ∀ nack ∈ nacks, nack < 1024) :
    ∃ byte_3 byte_4 bytes, writeNacks odd nacks = byte_3 :: byte_4 :: bytes ∧
      byte_3.toNat = odd / 2 % 256 ∧ byte_4.toNat / 128 % 2 = odd % 2 ∧
        readNacks byte_4.toNat bytes = some (nacks, packedSize (nacks.length + 1) - 2) ∧
          (writeNacks odd nacks).length = packedSize (nacks.length + 1) := by
  fun_induction writeNacks odd nacks with
  | case1 odd =>
    refine ⟨_, _, _, rfl, toNat_nackMiddle odd, ?_, ?_, (show 2 = packedSize 1 from rfl)⟩
    · rw [toNat_nackLast]
      omega
    · rw [readNacks, read_more, toNat_nackLast, if_neg (by omega)]
      rfl
  | case2 odd even =>
    have heven := small even mem_cons_self
    refine ⟨_, _, _, rfl, toNat_nackMiddle odd, ?_, ?_, (show 3 = packedSize 2 from rfl)⟩
    · rw [toNat_nackEven]
      omega
    · have hnack : (odd % 2 * 128 + 64 + even / 32 % 32) % 32 * 32 + even % 32 * 8 / 8 % 32 =
          even := by omega
      rw [readNacks.eq_def]
      simp only [read_more, read_evenNack, read_extensionBit]
      rw [toNat_nackEven, toNat_nackEvenLast, if_pos (by omega), if_neg (by omega), hnack]
      change _ = some ([even], packedSize 2 - 2)
      rfl
  | case3 odd even next nacks ih =>
    have heven := small even mem_cons_self
    have hnext := small next (mem_cons_of_mem _ mem_cons_self)
    obtain ⟨byte_3, byte_4, bytes, hwrite, hmiddle, hlast, hread, hlen⟩ := ih fun nack hnack =>
      small nack (mem_cons_of_mem _ (mem_cons_of_mem _ hnack))
    refine ⟨_, _, _, rfl, toNat_nackMiddle odd, ?_, ?_, ?_⟩
    · rw [toNat_nackEven]
      omega
    · have hevenNack : (odd % 2 * 128 + 64 + even / 32 % 32) % 32 * 32 +
          (even % 32 * 8 + 4 + next / 512 % 2) / 8 % 32 = even := by omega
      have hnextNack : (even % 32 * 8 + 4 + next / 512 % 2) % 2 * 512 + byte_3.toNat * 2 +
          byte_4.toNat / 128 % 2 = next := by
        omega
      have hsize : 3 + (packedSize (nacks.length + 1) - 2) =
          packedSize (nacks.length + 2 + 1) - 2 := by
        rw [packedSize, packedSize]
        omega
      rw [readNacks.eq_def]
      simp only [read_more, read_evenNack, read_extensionBit, hwrite,
        read_oddNack _ _ byte_3.toNat_lt]
      rw [toNat_nackEven, toNat_nackNext, if_pos (by omega), if_pos (by omega), hread, hevenNack,
        hnextNack, Option.map_some, hsize]
      rfl
    · rw [length_cons, length_cons, length_cons, hlen, length_cons, length_cons, packedSize,
        packedSize]
      omega

end Bytes

/-! ## Round trip -/

/-- The header has the same kind, size, lists and fields, as far as they are sent. -/
structure Same (h h' : LteRlcAmHeader) : Prop where
  headerLength : h'.m_headerLength = h.m_headerLength
  dataControlBit : h'.m_dataControlBit = h.m_dataControlBit
  extensionBits : h'.m_extensionBits = h.m_extensionBits
  lengthIndicators : h'.m_lengthIndicators = h.m_lengthIndicators
  nackSnList : h'.m_nackSnList = h.m_nackSnList
  data : h.m_dataControlBit = DATA_PDU → h'.m_resegmentationFlag = h.m_resegmentationFlag ∧
    h'.m_pollingBit = h.m_pollingBit ∧ h'.m_framingInfo = h.m_framingInfo ∧
      h'.m_sequenceNumber = h.m_sequenceNumber ∧
      h'.m_lastSegmentFlag = h.m_lastSegmentFlag ∧ h'.m_segmentOffset = h.m_segmentOffset
  control : h.m_dataControlBit ≠ DATA_PDU → h'.m_controlPduType = h.m_controlPduType ∧
    h'.m_ackSn = h.m_ackSn

/-- The header is written in as many bytes as it says and read back into a fresh one. -/
def RoundTrips (garbage : ℕ) (h : LteRlcAmHeader) : Prop :=
  h.serialize.length = h.getSerializedSize ∧
    ∃ h', (fresh garbage).deserialize h.serialize = some (h', h.getSerializedSize) ∧ Same h h'

section RoundTrip

open Lib.BitFields

variable (garbage : ℕ)

theorem statusHeader_eq (ackSn : Fin 1024) (nacks : List (Fin 1024)) :
    statusHeader garbage ackSn nacks =
    { ((fresh garbage).setControlPdu STATUS_PDU).setAckSn ackSn with
      m_nackSnList := nacks.map (·.val), m_headerLength := u16 (2 + packedSize nacks.length) } :=
  foldl_pushNack _ rfl (show 2 < 2 ^ 16 by decide) nacks

theorem toNat_status (ackSn : ℕ) :
    (u8 ((CONTROL_PDU <<< 7 &&& 0x80) ||| (STATUS_PDU <<< 4 &&& 0x70) |||
      (ackSn >>> 6 &&& 0x0F))).toNat = ackSn / 64 % 16 := by
  have hlow : ∀ x, x &&& 0x0F = x % 16 := fun x => and_low x 4
  have hzero : (CONTROL_PDU <<< 7 &&& 0x80) ||| (STATUS_PDU <<< 4 &&& 0x70) = 0 := rfl
  rw [hzero, Nat.zero_or, UInt8.toNat_ofNat', hlow, Nat.shiftRight_eq_div_pow]
  omega

theorem toNat_ackLast (ackSn : ℕ) : (u8 (ackSn <<< 2 &&& 0xFC)).toNat = ackSn % 64 * 4 := by
  have hhigh : ackSn <<< 2 &&& 0xFC = ackSn % 64 * 4 := shiftLeft_field ackSn 6 2
  rw [UInt8.toNat_ofNat', hhigh]
  exact Nat.mod_eq_of_lt (by omega)

theorem toNat_ackNack (ackSn odd : ℕ) :
    (u8 ((ackSn <<< 2 &&& 0xFC) ||| 0x02 ||| (odd >>> 9 &&& 0x01))).toNat =
      ackSn % 64 * 4 + 2 + odd / 512 % 2 := by
  have hhigh : ackSn <<< 2 &&& 0xFC = ackSn % 64 * 4 := shiftLeft_field ackSn 6 2
  have hlow : odd >>> 9 &&& 0x01 = odd / 512 % 2 := shiftRight_low odd 9 1
  rw [UInt8.toNat_ofNat', hhigh, hlow, or_below (y := 0x02) 2 (by omega) (by omega),
    or_below 1 (by omega) (by omega)]
  exact Nat.mod_eq_of_lt (by omega)

theorem read_type (n : ℕ) : (n &&& 0x70) >>> 4 = n / 16 % 8 := field_shiftRight n 3 4

theorem read_ackSn (m n : ℕ) :
    ((m &&& 0x0F) <<< 6) ||| ((n &&& 0xFC) >>> 2) = m % 16 * 64 + n / 4 % 64 := by
  have hhigh : (m &&& 0x0F) <<< 6 = m % 16 * 64 := low_shiftLeft m 4 6
  have hlow : (n &&& 0xFC) >>> 2 = n / 4 % 64 := field_shiftRight n 6 2
  rw [hhigh, hlow, or_below 6 (by omega) (by omega)]

theorem read_moreFirst (n : ℕ) : (n &&& 0x02) >>> 1 = n / 2 % 2 := field_shiftRight n 1 1

theorem deserialize_noNacks {byte_1 byte_2 : UInt8} (control : byte_1.toNat < 128)
    (none : byte_2.toNat / 2 % 2 = 0) : (fresh garbage).deserialize [byte_1, byte_2] =
      some ({ fresh garbage with
        m_headerLength := 2, m_dataControlBit := CONTROL_PDU
        m_controlPduType := byte_1.toNat / 16 % 8
        m_ackSn := (byte_1.toNat % 16 * 64 + byte_2.toNat / 4 % 64) % 1024 }, 2) := by
  have hcontrol : byte_1.toNat / 128 % 2 = CONTROL_PDU := (show _ = 0 by omega)
  simp only [deserialize, deserializeControl, read_oddE, read_moreFirst, read_type, read_ackSn]
  rw [hcontrol, if_neg (by decide), if_neg (by omega)]
  rfl

theorem deserialize_nacks {byte_1 byte_2 byte_3 byte_4 : UInt8} {bytes : List UInt8}
    {nacks : List ℕ} {size : ℕ}
    (garbage : ℕ) (control : byte_1.toNat < 128) (more : byte_2.toNat / 2 % 2 = 1)
    (rest : readNacks byte_4.toNat bytes = some (nacks, size)) :
    (fresh garbage).deserialize (byte_1 :: byte_2 :: byte_3 :: byte_4 :: bytes) =
      some ({ fresh garbage with
        m_headerLength := u16 (4 + size), m_dataControlBit := CONTROL_PDU
        m_controlPduType := byte_1.toNat / 16 % 8
        m_ackSn := (byte_1.toNat % 16 * 64 + byte_2.toNat / 4 % 64) % 1024
        m_nackSnList := (byte_2.toNat % 2 * 512 + byte_3.toNat * 2 + byte_4.toNat / 128 % 2) ::
          nacks }, u16 (4 + size)) := by
  have hcontrol : byte_1.toNat / 128 % 2 = CONTROL_PDU := (show _ = 0 by omega)
  have hnack := read_oddNack byte_2.toNat byte_4.toNat byte_3.toNat_lt
  simp only [deserialize, deserializeControl, hnack, read_moreFirst, read_type, read_ackSn, rest]
  rw [read_oddE, hcontrol, if_neg (by decide), if_pos more]
  rfl

theorem statusHeader_back (garbage garbage' : ℕ) (ackSn : Fin 1024) (nacks : List (Fin 1024)) :
    (statusHeader garbage ackSn nacks).serialize.length = 2 + packedSize nacks.length ∧
      ∃ h', (fresh garbage').deserialize (statusHeader garbage ackSn nacks).serialize =
        some (h', u16 (2 + packedSize nacks.length)) ∧
          Same (statusHeader garbage ackSn nacks) h' := by
  have hack := ackSn.isLt
  have htype := toNat_status ackSn
  have hserialize : (statusHeader garbage ackSn nacks).serialize =
      u8 ((CONTROL_PDU <<< 7 &&& 0x80) ||| (STATUS_PDU <<< 4 &&& 0x70) |||
        (ackSn.val >>> 6 &&& 0x0F)) ::
        match nacks.map (·.val) with
        | [] => [u8 (ackSn.val <<< 2 &&& 0xFC)]
        | odd :: nacks =>
          u8 ((ackSn.val <<< 2 &&& 0xFC) ||| 0x02 ||| (odd >>> 9 &&& 0x01)) ::
            writeNacks odd nacks := by
    rw [statusHeader_eq]
    rfl
  rw [hserialize, statusHeader_eq]
  clear hserialize
  generalize u8 ((CONTROL_PDU <<< 7 &&& 0x80) ||| (STATUS_PDU <<< 4 &&& 0x70) |||
    (ackSn.val >>> 6 &&& 0x0F)) = byte_1 at htype ⊢
  cases nacks with
  | nil =>
    have hlast := toNat_ackLast ackSn
    change [byte_1, u8 (ackSn.val <<< 2 &&& 0xFC)].length = _ ∧
      ∃ h', (fresh garbage').deserialize [byte_1, u8 (ackSn.val <<< 2 &&& 0xFC)] = some (h', 2) ∧ _
    generalize u8 (ackSn.val <<< 2 &&& 0xFC) = byte_2 at hlast ⊢
    refine ⟨rfl, _, deserialize_noNacks garbage' (by omega) (by omega), rfl, rfl, rfl, rfl, rfl,
      fun h => absurd h (show ¬CONTROL_PDU = DATA_PDU by decide), fun _ => ⟨?_, ?_⟩⟩
    · exact (show byte_1.toNat / 16 % 8 = 0 by omega)
    · exact (show (byte_1.toNat % 16 * 64 + byte_2.toNat / 4 % 64) % 1024 = ackSn.val by omega)
  | cons odd nacks =>
    have hodd := odd.isLt
    have hfirst := toNat_ackNack ackSn odd
    obtain ⟨byte_3, byte_4, bytes, hwrite, hmiddle, hlast, hread, hlen⟩ :=
      readNacks_write odd (nacks.map (·.val)) fun nack hnack => by
        obtain ⟨i, -, rfl⟩ := mem_map.mp hnack
        exact i.isLt
    rw [length_map] at hread hlen
    have hsize : 4 + (packedSize (nacks.length + 1) - 2) = 2 + packedSize (nacks.length + 1) := by
      rw [packedSize]
      omega
    change (byte_1 :: u8 ((ackSn.val <<< 2 &&& 0xFC) ||| 0x02 ||| (odd.val >>> 9 &&& 0x01)) ::
        writeNacks odd (nacks.map (·.val))).length = 2 + packedSize (nacks.length + 1) ∧
      ∃ h', (fresh garbage').deserialize
        (byte_1 :: u8 ((ackSn.val <<< 2 &&& 0xFC) ||| 0x02 ||| (odd.val >>> 9 &&& 0x01)) ::
        writeNacks odd (nacks.map (·.val))) = some (h', u16 (2 + packedSize (nacks.length + 1))) ∧ _
    generalize u8 ((ackSn.val <<< 2 &&& 0xFC) ||| 0x02 ||| (odd.val >>> 9 &&& 0x01)) =
      byte_2 at hfirst ⊢
    have hback :=
      @deserialize_nacks byte_1 byte_2 byte_3 _ _ _ _ garbage' (by omega) (by omega) hread
    rw [hsize, ← hwrite] at hback
    refine ⟨?_, _, hback, rfl, rfl, rfl, rfl, ?_, fun h =>
      absurd h (show ¬CONTROL_PDU = DATA_PDU by decide), fun _ => ⟨?_, ?_⟩⟩
    · rw [length_cons, length_cons, hlen]
      omega
    · have hnack : byte_2.toNat % 2 * 512 + byte_3.toNat * 2 + byte_4.toNat / 128 % 2 = odd := by
        omega
      exact congrArg (· :: nacks.map (·.val)) hnack
    · exact (show byte_1.toNat / 16 % 8 = 0 by omega)
    · exact (show (byte_1.toNat % 16 * 64 + byte_2.toNat / 4 % 64) % 1024 = ackSn.val by omega)

/-- A STATUS header is read back as it was just when its size fits the counter. -/
theorem statusHeader_roundTrips_iff (garbage garbage' : ℕ) (ackSn : Fin 1024)
    (nacks : List (Fin 1024)) :
    RoundTrips garbage' (statusHeader garbage ackSn nacks) ↔
      2 + packedSize nacks.length < 2 ^ 16 := by
  obtain ⟨hlength, h', hback, hsame⟩ := statusHeader_back garbage garbage' ackSn nacks
  have hsize : (statusHeader garbage ackSn nacks).getSerializedSize =
      u16 (2 + packedSize nacks.length) := by
    rw [statusHeader_eq]
    rfl
  rw [RoundTrips, hsize, hlength]
  refine ⟨fun h => u16_eq_iff.mp h.1.symm, fun hshort =>
    ⟨(u16_of_lt hshort).symm, h', hback, hsame⟩⟩

/-! ## Data headers -/

theorem toNat_data (rf p fi e sn : ℕ) :
    (u8 ((DATA_PDU <<< 7 &&& 0x80) ||| (rf <<< 6 &&& 0x40) ||| (p <<< 5 &&& 0x20) |||
      (fi <<< 3 &&& 0x18) |||
        (e <<< 2 &&& 0x04) ||| (sn >>> 8 &&& 0x03))).toNat =
      128 + rf % 2 * 64 + p % 2 * 32 + fi % 4 * 8 + e % 2 * 4 + sn / 256 % 4 := by
  have hdata : DATA_PDU <<< 7 &&& 0x80 = 128 := rfl
  have hrf : rf <<< 6 &&& 0x40 = rf % 2 * 64 := shiftLeft_field rf 1 6
  have hp : p <<< 5 &&& 0x20 = p % 2 * 32 := shiftLeft_field p 1 5
  have hfi : fi <<< 3 &&& 0x18 = fi % 4 * 8 := shiftLeft_field fi 2 3
  have he : e <<< 2 &&& 0x04 = e % 2 * 4 := shiftLeft_field e 1 2
  have hsn : sn >>> 8 &&& 0x03 = sn / 256 % 4 := shiftRight_low sn 8 2
  rw [UInt8.toNat_ofNat', hdata, hrf, hp, hfi, he, hsn,
    or_below (y := rf % 2 * 64) 7 (by omega) (by omega),
    or_below (y := p % 2 * 32) 6 (by omega) (by omega),
      or_below (y := fi % 4 * 8) 5 (by omega) (by omega),
    or_below (y := e % 2 * 4) 3 (by omega) (by omega), or_below 2 (by omega) (by omega)]
  exact Nat.mod_eq_of_lt (by omega)

theorem toNat_offset (lsf so : ℕ) :
    (u8 ((lsf <<< 7 &&& 0x80) ||| (so >>> 8 &&& 0x7F))).toNat = lsf % 2 * 128 + so / 256 % 128 := by
  have hhigh : lsf <<< 7 &&& 0x80 = lsf % 2 * 128 := shiftLeft_field lsf 1 7
  have hlow : so >>> 8 &&& 0x7F = so / 256 % 128 := shiftRight_low so 8 7
  rw [UInt8.toNat_ofNat', hhigh, hlow, or_below 7 (by omega) (by omega)]
  exact Nat.mod_eq_of_lt (by omega)

theorem read_pollingBit (n : ℕ) : (n &&& 0x20) >>> 5 = n / 32 % 2 := field_shiftRight n 1 5

theorem deserialize_data {byte_1 byte_2 byte_3 byte_4 : UInt8} {rest : List UInt8} {e li : List ℕ}
    {size : ℕ} (garbage : ℕ) (data : byte_1.toNat / 128 % 2 = 1)
    (read : if byte_1.toNat / 4 % 2 = 0 then e = [] ∧ li = [] ∧ size = 0
      else readLengthIndicators rest = some (e, li, size)) :
    ∃ h', (fresh garbage).deserialize (byte_1 :: byte_2 :: byte_3 :: byte_4 :: rest) =
      some (h', u16 (4 + size)) ∧
      h'.m_headerLength = u16 (4 + size) ∧ h'.m_dataControlBit = DATA_PDU ∧
        h'.m_resegmentationFlag = byte_1.toNat / 64 % 2 ∧
      h'.m_pollingBit = byte_1.toNat / 32 % 2 ∧ h'.m_framingInfo = byte_1.toNat / 8 % 4 ∧
      h'.m_sequenceNumber = (byte_1.toNat % 4 * 256 + byte_2.toNat) % 1024 ∧
      h'.m_lastSegmentFlag = byte_3.toNat / 128 % 2 ∧
        h'.m_segmentOffset = byte_3.toNat % 128 ||| byte_4.toNat ∧
      h'.m_extensionBits = byte_1.toNat / 4 % 2 :: e ∧ h'.m_lengthIndicators = li ∧
        h'.m_nackSnList = [] := by
  have hlow : byte_3.toNat &&& 0x7F = byte_3.toNat % 128 := and_low byte_3.toNat 7
  have hdata : (byte_1.toNat &&& 0x80) >>> 7 = DATA_PDU := (read_oddE _).trans data
  rw [deserialize]
  simp only [hdata, deserializeData, read_more, read_pollingBit, read_framingInfo,
    read_extensionBit, hlow, read_sequenceNumber _ byte_2.toNat_lt, read_oddE]
  rw [if_pos trivial]
  by_cases hfirst : byte_1.toNat / 4 % 2 = 0
  · rw [if_pos hfirst] at read
    obtain ⟨rfl, rfl, rfl⟩ := read
    rw [if_pos hfirst]
    exact ⟨_, rfl, rfl, rfl, rfl, rfl, rfl, rfl, rfl, rfl, rfl, rfl, rfl⟩
  · rw [if_neg hfirst] at read
    rw [if_neg hfirst, read]
    by_cases hsegment : byte_1.toNat / 64 % 2 = SEGMENT
    · rw [Option.map_some, Option.map_some, if_pos hsegment]
      exact ⟨_, rfl, rfl, rfl, rfl, rfl, rfl, rfl, rfl, rfl, rfl, rfl, rfl⟩
    · rw [Option.map_some, Option.map_some, if_neg hsegment]
      exact ⟨_, rfl, rfl, rfl, rfl, rfl, rfl, rfl, rfl, rfl, rfl, rfl, rfl⟩

theorem dataHeader_eq (d : DataFields) : dataHeader garbage d =
    ⟨u16 (4 + packedSize (d.extensionBits.length - 1)), DATA_PDU, d.resegmentationFlag,
      d.pollingBit, d.framingInfo,
      d.sequenceNumber, d.lastSegmentFlag, d.segmentOffset, 0xffff, d.extensionBits.map (·.val),
      d.lengthIndicators.map (·.val), 0xff, 0xffff % 1024, []⟩ := by
  have hone : ∀ x : Fin 2, x.val &&& 0x01 = x := by decide
  have htwo : ∀ x : Fin 4, x.val &&& 0x03 = x := by decide
  have hso : d.segmentOffset.val &&& 0x7FFF = d.segmentOffset :=
    (and_low _ 15).trans (Nat.mod_eq_of_lt d.segmentOffset.isLt)
  rw [dataHeader, foldl_pushExtensionBit _ rfl (show 4 < 2 ^ 16 by decide),
    foldl_pushLengthIndicator _ rfl]
  simp only [fresh, setDataPdu, setResegmentationFlag, setPollingBit, setLastSegmentFlag,
    setFramingInfo, setSequenceNumber, setSegmentOffset, hone, htwo, hso]

theorem exists_ones {e : List (Fin 2)} (last : e.getLast? = some 0) : ∃ n r, e =
    replicate n 1 ++ 0 :: r := by
  induction e with
  | nil => cases last
  | cons b e ih =>
    by_cases hb : b = 0
    · exact ⟨0, e, by rw [hb]; rfl⟩
    · have hone : b = 1 := by omega
      cases e with
      | nil => exact (hb (Option.some.inj last)).elim
      | cons c e =>
        obtain ⟨n, r, hr⟩ := ih (by rwa [List.getLast?_cons_cons] at last)
        exact ⟨n + 1, r, by rw [hr, hone]; rfl⟩

theorem rest_eq_nil {n n' : ℕ} {r : List (Fin 2)}
    (ones : replicate n 1 ++ 0 :: r = replicate n' 1 ++ [0]) : r = [] := by
  induction n generalizing n' with
  | zero =>
    cases n' with
    | zero => exact (List.cons.inj ones).2
    | succ n' => exact absurd (List.cons.inj ones).1 (by decide)
  | succ n ih =>
    cases n' with
    | zero => exact absurd (List.cons.inj ones).1 (by decide)
    | succ n' => exact ih (List.cons.inj ones).2

theorem or_offset_eq_iff (so : Fin 32768) : so.val / 256 % 128 ||| so.val % 256 = so ↔
    so.val < 256 := by
  have hlt := so.isLt
  refine ⟨fun h => ?_, fun h => ?_⟩
  · rw [← h]
    exact Nat.or_lt_two_pow (n := 8) (show _ < 256 by omega) (show _ < 256 by omega)
  · rw [show so.val / 256 % 128 = 0 by omega, Nat.zero_or]
    omega

theorem serialize_dataHeader (d : DataFields) {first : ℕ} {tail : List ℕ}
    (bits : d.extensionBits.map (·.val) = first :: tail) :
    ∃ byte_1 byte_2 byte_3 byte_4 : UInt8, (dataHeader garbage d).serialize =
        byte_1 :: byte_2 :: byte_3 :: byte_4 :: writeLengthIndicators tail
        (d.lengthIndicators.map (·.val)) ∧
      byte_1.toNat = 128 + d.resegmentationFlag.val * 64 + d.pollingBit.val * 32 +
        d.framingInfo.val * 8 + first % 2 * 4 +
        d.sequenceNumber.val / 256 ∧ byte_2.toNat = d.sequenceNumber.val % 256 ∧
      byte_3.toNat = d.lastSegmentFlag.val * 128 + d.segmentOffset.val / 256 ∧
      byte_4.toNat = d.segmentOffset.val % 256 := by
  have hbyte_1 := toNat_data d.resegmentationFlag d.pollingBit d.framingInfo first d.sequenceNumber
  have hbyte_3 := toNat_offset d.lastSegmentFlag d.segmentOffset
  have hrf := d.resegmentationFlag.isLt
  have hp := d.pollingBit.isLt
  have hfi := d.framingInfo.isLt
  have hsn := d.sequenceNumber.isLt
  have hlsf := d.lastSegmentFlag.isLt
  have hso := d.segmentOffset.isLt
  refine ⟨_, _, _, _, ?_, hbyte_1.trans ?_, toNat_low d.sequenceNumber, hbyte_3.trans ?_,
    toNat_low d.segmentOffset⟩
  · rw [dataHeader_eq, bits]
    rfl
  · rw [Nat.mod_eq_of_lt hrf, Nat.mod_eq_of_lt hp, Nat.mod_eq_of_lt hfi,
      Nat.mod_eq_of_lt (Nat.div_lt_of_lt_mul hsn)]
  · rw [Nat.mod_eq_of_lt hlsf, Nat.mod_eq_of_lt (Nat.div_lt_of_lt_mul hso)]

theorem data_fields {n rf p fi e sn : ℕ} (h : n = 128 + rf * 64 + p * 32 + fi * 8 + e * 4 + sn)
    (hrf : rf < 2) (hp : p < 2) (hfi : fi < 4) (he : e < 2) (hsn : sn < 4) :
    n / 128 % 2 = 1 ∧ n / 64 % 2 = rf ∧ n / 32 % 2 = p ∧ n / 8 % 4 = fi ∧ n / 4 % 2 = e ∧
      n % 4 = sn := by
  refine ⟨by omega, ?_, ?_, ?_, ?_, by omega⟩
  · exact field_eq 6 1 (show n = 1 * 128 + rf * 64 + (p * 32 + fi * 8 + e * 4 + sn) by
      omega) hrf (by omega)
  · exact field_eq 5 1 (show n = (2 + rf) * 64 + p * 32 + (fi * 8 + e * 4 + sn) by
      omega) hp (by omega)
  · exact field_eq 3 2 (show n = (4 + rf * 2 + p) * 32 + fi * 8 + (e * 4 + sn) by
      omega) hfi (by omega)
  · exact field_eq 2 1 (show n = (16 + rf * 8 + p * 4 + fi) * 8 + e * 4 + sn by omega) he hsn

theorem deserialize_dataHeader (garbage garbage' : ℕ) (d : DataFields) {n : ℕ} {r : List (Fin 2)}
    (ones : d.extensionBits = replicate n 1 ++ 0 :: r) :
    ∃ h', (fresh garbage').deserialize (dataHeader garbage d).serialize =
      some (h', u16 (4 + packedSize n)) ∧
      h'.m_headerLength = u16 (4 + packedSize n) ∧ h'.m_dataControlBit = DATA_PDU ∧
      h'.m_resegmentationFlag = d.resegmentationFlag ∧ h'.m_pollingBit = d.pollingBit ∧
      h'.m_framingInfo = d.framingInfo ∧ h'.m_sequenceNumber = d.sequenceNumber ∧
      h'.m_lastSegmentFlag = d.lastSegmentFlag ∧
      h'.m_segmentOffset = d.segmentOffset.val / 256 % 128 ||| d.segmentOffset.val % 256 ∧
      h'.m_extensionBits = replicate n 1 ++ [0] ∧
      h'.m_lengthIndicators = (d.lengthIndicators.map (·.val)).take n ∧ h'.m_nackSnList = [] := by
  have hcount : n ≤ (d.lengthIndicators.map (·.val)).length := by
    rw [length_map, d.counted, ones, count_append, count_replicate_self]
    exact Nat.le_add_right _ _
  have hbits : d.extensionBits.map (·.val) = replicate n 1 ++ 0 :: r.map (·.val) := by
    rw [ones, map_append, map_replicate]
    rfl
  have hsmall : ∀ l ∈ d.lengthIndicators.map (·.val), l < 2048 := by
    intro l hl
    obtain ⟨i, -, rfl⟩ := mem_map.mp hl
    exact i.isLt
  obtain ⟨first, tail, e, htail, he, hfirst, hread⟩ := read_bits n (r.map (·.val)) hsmall hcount []
  obtain ⟨byte_1, byte_2, byte_3, byte_4, hserialize, hbyte_1, hbyte_2, hbyte_3, hbyte_4⟩ :=
    serialize_dataHeader garbage d (hbits.trans htail)
  have hrf := d.resegmentationFlag.isLt
  have hp := d.pollingBit.isLt
  have hfi := d.framingInfo.isLt
  have hsn := d.sequenceNumber.isLt
  have hlsf := d.lastSegmentFlag.isLt
  have hso := d.segmentOffset.isLt
  rw [Nat.mod_eq_of_lt hfirst] at hbyte_1
  obtain ⟨hcontrol, hsegment, hpolling, hframe, hbit, hhighest⟩ :=
    data_fields hbyte_1 hrf hp hfi hfirst (Nat.div_lt_of_lt_mul hsn)
  rw [← hbit, append_nil] at hread
  obtain ⟨h', hback, hlength, hdata, hflag, hpoll, hframing, hnumber, hlast, hoffset, hext, hli,
    hnack⟩ :=
    @deserialize_data byte_1 byte_2 byte_3 byte_4 _ e _ _ garbage' hcontrol hread
  have hhigh : byte_3.toNat % 128 = d.segmentOffset.val / 256 % 128 := by
    rw [hbyte_3, Nat.mul_comm, Nat.mul_add_mod]
  rw [hserialize]
  refine ⟨h', hback, hlength, hdata, hflag.trans hsegment, hpoll.trans hpolling,
    hframing.trans hframe, hnumber.trans ?_, hlast.trans ?_, ?_, ?_, hli, hnack⟩
  · rw [hhighest, hbyte_2]
    omega
  · omega
  · rw [hoffset, hbyte_4, hhigh]
  · rw [hext, hbit, he]

theorem length_serialize_dataHeader (d : DataFields) {n : ℕ}
    (ones : d.extensionBits = replicate n 1 ++ [0]) :
    (dataHeader garbage d).serialize.length = 4 + packedSize n ∧
    (dataHeader garbage d).m_headerLength = u16 (4 + packedSize n) ∧
      d.lengthIndicators.length = n := by
  have hn : d.lengthIndicators.length = n := by
    rw [d.counted, ones, count_append, count_replicate_self]
    rfl
  have hlen : d.extensionBits.length = n + 1 := by
    rw [ones, length_append, length_replicate]
    rfl
  refine ⟨?_, ?_, hn⟩
  · rw [dataHeader_eq]
    cases hbits : d.extensionBits.map (·.val) with
    | nil =>
      have hnil := congrArg List.length hbits
      rw [length_map, hlen] at hnil
      cases hnil
    | cons first tail =>
      have htail := congrArg List.length hbits
      rw [length_map, hlen, length_cons] at htail
      have hwrite : (writeLengthIndicators tail (d.lengthIndicators.map (·.val))).length =
          packedSize n := by
        rw [length_writeLengthIndicators (by rw [length_map, hn]; exact (Nat.succ.inj htail).symm),
          length_map, hn]
      rw [← hwrite]
      exact Nat.add_comm _ 4
  · rw [dataHeader_eq, hlen]
    rfl

/-- A data header is read back as it was just when its segment offset fits a byte, only the last
extension bit is 0 and its size fits the counter. -/
theorem dataHeader_roundTrips_iff (garbage garbage' : ℕ) (d : DataFields) : RoundTrips garbage'
    (dataHeader garbage d) ↔ d.segmentOffset.val < 256 ∧ ∃ n, d.extensionBits = replicate n 1 ++
    [0] ∧ 4 + packedSize n < 2 ^ 16 := by
  obtain ⟨n, r, hr⟩ := exists_ones d.last
  have hso := or_offset_eq_iff d.segmentOffset
  obtain ⟨h', hback, hlength, hdata, hflag, hpoll, hframing, hnumber, hlast, hoffset, hext, hli,
    hnack⟩ :=
    deserialize_dataHeader garbage garbage' d hr
  have heq := dataHeader_eq garbage d
  have hbits : (dataHeader garbage d).m_extensionBits = d.extensionBits.map (·.val) := by rw [heq]
  have hkind : (dataHeader garbage d).m_dataControlBit = DATA_PDU := by rw [heq]
  constructor
  · rintro ⟨hwritten, h'', hback', hsame⟩
    rw [hback] at hback'
    obtain ⟨rfl, -⟩ := Prod.mk.inj (Option.some.inj hback')
    have hoff := (hsame.data hkind).2.2.2.2.2
    have hsameBits := hsame.extensionBits
    rw [hoffset, heq] at hoff
    rw [hext, hbits, hr, map_append, map_replicate] at hsameBits
    have hnil : r = [] := map_eq_nil_iff.mp (List.cons.inj (append_cancel_left hsameBits)).2.symm
    subst hnil
    obtain ⟨hserialize, hsize, -⟩ := length_serialize_dataHeader garbage d hr
    exact ⟨hso.mp hoff, n, hr, u16_eq_iff.mp (hsize.symm.trans (hwritten.symm.trans hserialize))⟩
  · rintro ⟨hsmallOffset, n', hones, hshort⟩
    have hnil : r = [] := rest_eq_nil (hr.symm.trans hones)
    subst hnil
    obtain ⟨hserialize, hsize, hcount⟩ := length_serialize_dataHeader garbage d hr
    have hn : n = n' := by
      have hlen := congrArg List.length (hr.symm.trans hones)
      simpa using hlen
    rw [← hn] at hshort
    rw [take_of_length_le (by rw [length_map, hcount])] at hli
    refine ⟨(hserialize.trans (u16_of_lt hshort).symm).trans hsize.symm, h', by
      rw [hback, getSerializedSize, hsize],
      ⟨hlength.trans hsize.symm, hdata.trans hkind.symm, ?_, ?_, ?_, fun _ => ?_, fun hcontrol =>
        (hcontrol hkind).elim⟩⟩
    · rw [hext, hbits, hr, map_append, map_replicate]
      rfl
    · rw [hli, heq]
    · rw [hnack, heq]
    · rw [heq]
      exact ⟨hflag, hpoll, hframing, hnumber, hlast, hoffset.trans (hso.mpr hsmallOffset)⟩

/-- Headers whose size fits the counter go round: STATUS headers, and data headers with a small
segment offset and no extension bit after the last that counts. -/
theorem am_header_round_trip (garbage garbage' : ℕ) :
    (∀ d : DataFields, RoundTrips garbage' (dataHeader garbage d) ↔
      d.segmentOffset.val < 256 ∧ ∃ n, d.extensionBits = replicate n 1 ++
      [0] ∧ 4 + packedSize n < 2 ^ 16) ∧
    ∀ (ackSn : Fin 1024) (nacks : List (Fin 1024)),
      RoundTrips garbage' (statusHeader garbage ackSn nacks) ↔
        2 + packedSize nacks.length < 2 ^ 16 :=
  ⟨dataHeader_roundTrips_iff garbage garbage', statusHeader_roundTrips_iff garbage garbage'⟩

/-- A segment that starts at byte 256 says on reception that it starts at byte 1. -/
theorem am_header_segment_offset : ∃ d : DataFields, ¬RoundTrips 0 (dataHeader 0 d) := by
  refine ⟨⟨1, 0, 1, 0, 5, 256, [0], [], rfl, rfl⟩, ?_⟩
  rintro ⟨-, h', hback, hsame⟩
  have hread : (fresh 0).deserialize [0xC0, 5, 0x81, 0] =
      some (⟨4, DATA_PDU, 1, 0, 0, 5, 1, 1, 0xffff, [0], [], 0xff, 0xffff % 1024, []⟩, 4) := by
        decide
  obtain ⟨rfl, -⟩ := Prod.mk.inj (Option.some.inj (hread.symm.trans hback))
  exact absurd (hsame.data rfl).2.2.2.2.2 (by decide)

end RoundTrip

end Egsr.Lte.Rlc
