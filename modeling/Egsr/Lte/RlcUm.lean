import Egsr.Lib.Outcome
import Egsr.Lte.RlcHeader

/-! The unacknowledged mode of RLC. The transmitting side packs SDUs and parts of
them into PDUs, the receiving side puts PDUs in order and SDUs together. -/

namespace Egsr.Lte.Rlc

abbrev Bytes : Type := List UInt8

def u32 (n : ℕ) : ℕ := n % 2 ^ 32

def sub32 (n m : ℕ) : ℕ := u32 (n + (2 ^ 32 - u32 m))

theorem u32_of_lt {n : ℕ} (hn : n < 2 ^ 32) : u32 n = n := Nat.mod_eq_of_lt hn

theorem sub32_of_le {n m : ℕ} (hle : m ≤ n) (hn : n < 2 ^ 32) : sub32 n m = n - m := by
  rw [sub32, u32_of_lt (n := m) (by omega), show n + (2 ^ 32 - m) = n - m + 2 ^ 32 by
    omega, u32, Nat.add_mod_right]
  exact Nat.mod_eq_of_lt (by omega)

inductive Fault where
  | nullPointer
  | emptyList
  | bufferOverrun
  | endless
deriving DecidableEq

structure SequenceNumber10 where
  m_value : ℕ
  m_modulusBase : ℕ
deriving DecidableEq

namespace SequenceNumber10

variable (s : SequenceNumber10)

def ofValue (value : ℕ) : SequenceNumber10 := ⟨value % 1024, 0⟩

def assign (value : ℕ) : SequenceNumber10 := { s with m_value := value % 1024 }

def setModulusBase (modulusBase : SequenceNumber10) : SequenceNumber10 :=
  { s with m_modulusBase := modulusBase.m_value }

def next : SequenceNumber10 := { s with m_value := (s.m_value + 1) % 1024 }

def add (delta : ℕ) : SequenceNumber10 := ⟨(s.m_value + delta) % 1024, s.m_modulusBase⟩

/-- The remainder in C++ is negative for a negative difference, and the constructor takes it as a
`uint16_t`. -/
def sub (delta : ℕ) : SequenceNumber10 :=
  ⟨((((s.m_value : ℤ) - delta).tmod 1024) % 2 ^ 16).toNat % 1024, s.m_modulusBase⟩

def fromBase : ℕ := ((((s.m_value : ℤ) - s.m_modulusBase).tmod 1024) % 2 ^ 16).toNat

variable (other : SequenceNumber10)

def gt : Bool := other.fromBase < s.fromBase

def le : Bool := !s.gt other

def lt : Bool := !s.gt other && s.m_value != other.m_value

end SequenceNumber10

theorem lt_same {s t : SequenceNumber10} (h : s.m_value = t.m_value) : s.lt t = false := by
  rw [SequenceNumber10.lt, h]
  simp

theorem tmod_small {d : ℤ} (hlow : -1024 < d) (hhigh : d < 1024) : d.tmod 1024 = d := by
  obtain hneg | hnonneg : d < 0 ∨ 0 ≤ d := by omega
  · have hpos := Int.tmod_eq_of_lt (a := -d) (b := 1024) (by omega) (by omega)
    rw [Int.neg_tmod] at hpos
    omega
  · exact Int.tmod_eq_of_lt hnonneg hhigh

theorem fromBase_eq {s : SequenceNumber10} (hvalue : s.m_value < 1024)
    (hbase : s.m_modulusBase < 1024) :
    s.fromBase = if s.m_modulusBase ≤ s.m_value then s.m_value - s.m_modulusBase
      else 65536 - (s.m_modulusBase - s.m_value) := by
  rw [SequenceNumber10.fromBase, tmod_small (by omega) (by omega)]
  split_ifs <;> omega

theorem lt_iff {s t : SequenceNumber10} : s.lt t = true ↔ s.fromBase ≤ t.fromBase ∧
    s.m_value ≠ t.m_value := by
  simp [SequenceNumber10.lt, SequenceNumber10.gt]

/-! ## The transmitting side -/

/-- `LteRlcSduStatusTag`. -/
inductive SduStatus where
  | FULL_SDU
  | FIRST_SEGMENT
  | MIDDLE_SEGMENT
  | LAST_SEGMENT
  | ANY_SEGMENT
deriving DecidableEq

/-- An SDU or a part of one with its tag. -/
structure TxPdu where
  m_pdu : Bytes
  status : SduStatus
deriving DecidableEq

structure LteRlcUmTx where
  m_maxTxBufferSize : ℕ
  m_txBufferSize : ℕ
  m_txBuffer : List TxPdu
  m_sequenceNumber : SequenceNumber10
deriving DecidableEq

structure Building where
  nextSegmentSize : ℕ
  nextSegmentId : ℕ
  dataField : List TxPdu
  rlcHeader : LteRlcHeader
  m_txBufferSize : ℕ
  m_txBuffer : List TxPdu

/-- The tags of the new and of the remaining segment. -/
def splitStatus : SduStatus → SduStatus × SduStatus
  | .FULL_SDU => (.FIRST_SEGMENT, .LAST_SEGMENT)
  | .LAST_SEGMENT => (.MIDDLE_SEGMENT, .LAST_SEGMENT)
  | status => (status, status)

/-- The tag of the new segment when nothing remains. -/
def wholeStatus : SduStatus → SduStatus
  | .FIRST_SEGMENT => .FULL_SDU
  | .MIDDLE_SEGMENT => .LAST_SEGMENT
  | status => status

namespace Building

variable (b : Building)

def addSegment (firstSegment : TxPdu) (m_txBuffer : List TxPdu) : Building :=
  let currSegmentSize := min firstSegment.m_pdu.length b.nextSegmentSize
  let (newTag, oldTag) := splitStatus firstSegment.status
  let rest := firstSegment.m_pdu.drop currSegmentSize
  let newSegment := firstSegment.m_pdu.take currSegmentSize
  let b := { b with
    rlcHeader := b.rlcHeader.pushExtensionBit DATA_FIELD_FOLLOWS
    nextSegmentSize := b.nextSegmentSize - newSegment.length
    nextSegmentId := b.nextSegmentId + 1 }
  if 0 < rest.length then
    { b with
      dataField := b.dataField ++ [⟨newSegment, newTag⟩]
      m_txBuffer := ⟨rest, oldTag⟩ :: m_txBuffer
      m_txBufferSize := u32 (b.m_txBufferSize + rest.length) }
  else { b with
    dataField := b.dataField ++ [⟨newSegment, wholeStatus newTag⟩], m_txBuffer := m_txBuffer }

def addLast (firstSegment : TxPdu) (m_txBuffer : List TxPdu) : Building :=
  { b with
    dataField := b.dataField ++ [firstSegment]
    rlcHeader := b.rlcHeader.pushExtensionBit DATA_FIELD_FOLLOWS
    nextSegmentSize := b.nextSegmentSize - firstSegment.m_pdu.length
    nextSegmentId := b.nextSegmentId + 1
    m_txBuffer := m_txBuffer }

/-- A packet with another one behind it, which leaves the transmission buffer. -/
def addWithLi (firstSegment second : TxPdu) : Building :=
  { b with
    dataField := b.dataField ++ [firstSegment]
    rlcHeader :=
      (b.rlcHeader.pushExtensionBit E_LI_FIELDS_FOLLOWS).pushLengthIndicator
        firstSegment.m_pdu.length
    nextSegmentSize :=
      b.nextSegmentSize - ((if b.nextSegmentId % 2 ≠ 0 then 2 else 1) + firstSegment.m_pdu.length)
    nextSegmentId := b.nextSegmentId + 1
    m_txBufferSize := sub32 b.m_txBufferSize second.m_pdu.length }

/-- The loop of `DoNotifyTxOpportunity`, with the packets behind the first one. -/
def fill (firstSegment : TxPdu) : List TxPdu → Building → Building
  | m_txBuffer, b =>
    if firstSegment.m_pdu.length = 0 ∨
      b.nextSegmentSize = 0 then { b with m_txBuffer := m_txBuffer }
    else if b.nextSegmentSize < firstSegment.m_pdu.length ∨ 2047 < firstSegment.m_pdu.length then
      b.addSegment firstSegment m_txBuffer
    else
      match m_txBuffer with
      | [] => b.addLast firstSegment []
      | second :: m_txBuffer =>
        if b.nextSegmentSize - firstSegment.m_pdu.length ≤
          2 then b.addLast firstSegment (second :: m_txBuffer)
        else fill second m_txBuffer (b.addWithLi firstSegment second)

end Building

abbrev FIRST_BYTE : ℕ := 0x00

abbrev NO_FIRST_BYTE : ℕ := 0x02

abbrev LAST_BYTE : ℕ := 0x00

abbrev NO_LAST_BYTE : ℕ := 0x01

/-- What the first and the last segment of the data field say. -/
def framingInfoOf (first last : SduStatus) : ℕ :=
  (if first = .FULL_SDU ∨ first = .FIRST_SEGMENT then FIRST_BYTE else NO_FIRST_BYTE) |||
    (if last = .FULL_SDU ∨ last = .LAST_SEGMENT then LAST_BYTE else NO_LAST_BYTE)

/-- `AddHeader`: so many bytes as the header says are put in front, and the header is written from
the beginning. -/
def addHeader (rlcHeader : LteRlcHeader) (packet : Bytes) : Except Fault Bytes :=
  let written := rlcHeader.serialize
  let buffer := List.replicate rlcHeader.getSerializedSize 0 ++ packet
  if buffer.length < written.length then .error .bufferOverrun
    else .ok (written ++ buffer.drop written.length)

namespace LteRlcUmTx

variable (tx : LteRlcUmTx)

def doTransmitPdcpPdu (p : Bytes) : LteRlcUmTx :=
  if u32 (tx.m_txBufferSize + p.length) ≤ tx.m_maxTxBufferSize then
    { tx with
      m_txBuffer := tx.m_txBuffer ++ [⟨p, .FULL_SDU⟩]
      m_txBufferSize := u32 (tx.m_txBufferSize + p.length) }
  else tx

def doNotifyTxOpportunity (bytes : ℕ) : Except Fault (Option (LteRlcHeader × Bytes) × LteRlcUmTx) :=
  if bytes ≤ 2 then .ok (none, tx)
  else
    match tx.m_txBuffer with
    | [] => .ok (none, tx)
    | firstSegment :: m_txBuffer => do
      let b := Building.fill firstSegment m_txBuffer
        ⟨bytes - 2, 1, [], .fresh, sub32 tx.m_txBufferSize firstSegment.m_pdu.length, []⟩
      match b.dataField.head?, b.dataField.getLast? with
      | some first, some last =>
        let rlcHeader := (b.rlcHeader.setSequenceNumber tx.m_sequenceNumber.m_value).setFramingInfo
          (framingInfoOf first.status last.status)
        let packet ← addHeader rlcHeader (b.dataField.flatMap TxPdu.m_pdu)
        .ok (some (rlcHeader, packet), { tx with
          m_txBuffer := b.m_txBuffer
          m_txBufferSize := b.m_txBufferSize
          m_sequenceNumber := tx.m_sequenceNumber.next })
      | _, _ => .error .emptyList

end LteRlcUmTx

inductive ReassemblingState where
  | WAITING_S0_FULL
  | WAITING_SI_SF
deriving DecidableEq

structure LteRlcUmRx where
  m_vrUr : SequenceNumber10
  m_vrUx : SequenceNumber10
  m_vrUh : SequenceNumber10
  m_windowSize : ℕ
  /-- In the order of the sequence numbers. -/
  m_rxBuffer : List (ℕ × Bytes)
  /-- Whether the timer is running. -/
  m_reorderingTimer : Bool
  m_reassemblingState : ReassemblingState
  m_keepS0 : Option Bytes
  m_sdusBuffer : List Bytes
  m_expectedSeqNumber : SequenceNumber10
  /-- The SDUs that the upper layer got. -/
  delivered : List Bytes
deriving DecidableEq

namespace LteRlcUmRx

def fresh : LteRlcUmRx :=
  ⟨.ofValue 0, .ofValue 0, .ofValue 0, 512, [], false, .WAITING_S0_FULL, none, [], .ofValue 0, []⟩

variable (rx : LteRlcUmRx)

/-- The loop over the extension bits, which splits the data field. -/
def splitDataField : List ℕ → List ℕ → Bytes → Except Fault (List Bytes)
  | [], _, _ => .error .emptyList
  | extensionBit :: extensionBits, lengthIndicators, packet =>
    if extensionBit = 0 then .ok [packet]
    else
      match lengthIndicators with
      | [] => .error .emptyList
      | lengthIndicator :: lengthIndicators =>
        if packet.length < lengthIndicator then .error .bufferOverrun
        else (splitDataField extensionBits lengthIndicators (packet.drop lengthIndicator)).map
          (packet.take lengthIndicator :: ·)

def deliverAll : LteRlcUmRx :=
  { rx with delivered := rx.delivered ++ rx.m_sdusBuffer, m_sdusBuffer := [] }

def deliverFull : LteRlcUmRx :=
  { rx with
    delivered := rx.delivered ++ rx.m_sdusBuffer.dropLast
    m_keepS0 := rx.m_sdusBuffer.getLast?
    m_sdusBuffer := [] }

def discardFirst : LteRlcUmRx := { rx with m_sdusBuffer := rx.m_sdusBuffer.tail }

def reassembleFull (framingInfo : ℕ) : LteRlcUmRx :=
  if framingInfo =
    FIRST_BYTE ||| LAST_BYTE then { rx with m_reassemblingState := .WAITING_S0_FULL }.deliverAll
  else if framingInfo =
    FIRST_BYTE ||| NO_LAST_BYTE then { rx with m_reassemblingState := .WAITING_SI_SF }.deliverFull
  else if framingInfo = NO_FIRST_BYTE ||| LAST_BYTE then
    { rx with m_reassemblingState := .WAITING_S0_FULL }.discardFirst.deliverAll
  else if framingInfo = NO_FIRST_BYTE ||| NO_LAST_BYTE then
    if rx.m_sdusBuffer.length =
      1 then { rx with m_reassemblingState := .WAITING_S0_FULL }.discardFirst
    else { rx with m_reassemblingState := .WAITING_SI_SF }.discardFirst.deliverFull
  else rx

def joinFirst : Except Fault LteRlcUmRx :=
  match rx.m_keepS0, rx.m_sdusBuffer with
  | some kept, first :: sdus =>
    .ok { rx with m_keepS0 := some (kept ++ first), m_sdusBuffer := sdus }
  | none, _ => .error .nullPointer
  | _, [] => .error .emptyList

def deliverKept : LteRlcUmRx := { rx with delivered := rx.delivered ++ rx.m_keepS0.toList }

def reassembleKept (framingInfo : ℕ) : Except Fault LteRlcUmRx :=
  if framingInfo = NO_FIRST_BYTE ||| LAST_BYTE then do
    let rx ← { rx with m_reassemblingState := .WAITING_S0_FULL }.joinFirst
    .ok rx.deliverKept.deliverAll
  else if framingInfo = NO_FIRST_BYTE ||| NO_LAST_BYTE then
    if rx.m_sdusBuffer.length = 1 then { rx with m_reassemblingState := .WAITING_SI_SF }.joinFirst
    else do
      let rx ← { rx with m_reassemblingState := .WAITING_SI_SF }.joinFirst
      .ok rx.deliverKept.deliverFull
  else .ok rx

/-- With losses, what was kept is discarded and the cases are those of the other state. -/
def reassemble (expectedSnLost : Bool) (framingInfo : ℕ) : Except Fault LteRlcUmRx :=
  match rx.m_reassemblingState with
  | .WAITING_S0_FULL => .ok (rx.reassembleFull framingInfo)
  | .WAITING_SI_SF =>
    if expectedSnLost then .ok ({ rx with m_keepS0 := none }.reassembleFull framingInfo)
      else rx.reassembleKept framingInfo

def reassembleAndDeliver (packet : Bytes) : Except Fault LteRlcUmRx :=
  match LteRlcHeader.fresh.deserialize packet with
  | none => .error .bufferOverrun
  | some (rlcHeader, size) => do
    let expectedSnLost := rlcHeader.m_sequenceNumber != rx.m_expectedSeqNumber.m_value
    let rx := { rx with
      m_expectedSeqNumber :=
        if expectedSnLost then (SequenceNumber10.ofValue rlcHeader.m_sequenceNumber).add 1
        else rx.m_expectedSeqNumber.next }
    let sdus ← splitDataField rlcHeader.m_extensionBits rlcHeader.m_lengthIndicators
      (packet.drop size)
    { rx with m_sdusBuffer := rx.m_sdusBuffer ++ sdus }.reassemble expectedSnLost
      rlcHeader.m_framingInfo

/-! ### Reordering -/

/-- `m_rxBuffer[sn] = p`. -/
def insertPdu (sn : ℕ) (p : Bytes) : List (ℕ × Bytes) → List (ℕ × Bytes)
  | [] => [(sn, p)]
  | (sn', p') :: rest =>
    if sn < sn' then (sn, p) :: (sn', p') :: rest
    else if sn = sn' then (sn, p) :: rest
    else (sn', p') :: insertPdu sn p rest

def hasPdu (sn : ℕ) : Bool := rx.m_rxBuffer.any fun entry => entry.1 == sn

def windowStart : SequenceNumber10 := rx.m_vrUh.sub rx.m_windowSize

/-- The base of `m_vrUh` is set as well. -/
def isInsideReorderingWindow (seqNumber : SequenceNumber10) : Bool × LteRlcUmRx :=
  let rx := { rx with m_vrUh := rx.m_vrUh.setModulusBase rx.windowStart }
  let seqNumber := seqNumber.setModulusBase rx.windowStart
  (rx.windowStart.le seqNumber && seqNumber.lt rx.m_vrUh, rx)

def outsideWindow : List (ℕ × Bytes) → LteRlcUmRx → Except Fault LteRlcUmRx
  | [], rx => .ok rx
  | (sn, p) :: rest, rx =>
    let inside := rx.isInsideReorderingWindow (.ofValue sn)
    if inside.1 then .ok inside.2
    else do
      let rx ← inside.2.reassembleAndDeliver p
      outsideWindow rest { rx with m_rxBuffer := rest }

def reassembleOutsideWindow : Except Fault LteRlcUmRx := outsideWindow rx.m_rxBuffer rx

/-- The loop of `ReassembleSnInterval`, for so many numbers at most. -/
def snInterval (highSeqNumber : SequenceNumber10) : ℕ → SequenceNumber10 → LteRlcUmRx →
    Except Fault LteRlcUmRx
  | 0, _, _ => .error .endless
  | rounds + 1, reassembleSn, rx =>
    if reassembleSn.lt highSeqNumber then
      match rx.m_rxBuffer.lookup reassembleSn.m_value with
      | some p => do
        let rx ← rx.reassembleAndDeliver p
        snInterval highSeqNumber rounds reassembleSn.next
          { rx with m_rxBuffer := rx.m_rxBuffer.filter fun entry => entry.1 ≠ reassembleSn.m_value }
      | none => snInterval highSeqNumber rounds reassembleSn.next rx
    else .ok rx

/-- There are 1024 sequence numbers. -/
def reassembleSnInterval (lowSeqNumber highSeqNumber : SequenceNumber10) :
    Except Fault LteRlcUmRx :=
  snInterval highSeqNumber 1025 lowSeqNumber rx

/-- The first number from here on that is not in the reception buffer; the numbers are those of an
`uint16_t`. -/
def firstMissing (rx : LteRlcUmRx) : ℕ → ℕ → ℕ
  | 0, sn => sn
  | rounds + 1, sn => if rx.hasPdu sn then firstMissing rx rounds (u16 (sn + 1)) else sn

def advanceVrUr : Except Fault LteRlcUmRx :=
  if rx.hasPdu rx.m_vrUr.m_value then
    let oldVrUr := rx.m_vrUr
    let rx := { rx with
      m_vrUr := rx.m_vrUr.assign
        (rx.firstMissing rx.m_rxBuffer.length (u16 (rx.m_vrUr.m_value + 1))) }
    rx.reassembleSnInterval oldVrUr rx.m_vrUr
  else .ok rx

def moveWindow (seqNumber : SequenceNumber10) : Except Fault LteRlcUmRx :=
  let inside := rx.isInsideReorderingWindow seqNumber
  if inside.1 then .ok inside.2
  else do
    let rx ← { inside.2 with m_vrUh := seqNumber.add 1 }.reassembleOutsideWindow
    let inside := rx.isInsideReorderingWindow rx.m_vrUr
    let rx := inside.2
    .ok (if inside.1 then rx else { rx with m_vrUr := rx.windowStart })

def updateTimer : LteRlcUmRx :=
  let base := rx.windowStart
  let rx := { rx with
    m_vrUr := rx.m_vrUr.setModulusBase base
    m_vrUx := rx.m_vrUx.setModulusBase base
    m_vrUh := rx.m_vrUh.setModulusBase base }
  let stopped := rx.m_vrUx.le rx.m_vrUr ||
    (!(rx.isInsideReorderingWindow rx.m_vrUx).1 && rx.m_vrUx.m_value != rx.m_vrUh.m_value)
  let rx := if rx.m_reorderingTimer && stopped then { rx with m_reorderingTimer := false } else rx
  if !rx.m_reorderingTimer && rx.m_vrUh.gt rx.m_vrUr then { rx with
    m_reorderingTimer := true, m_vrUx := rx.m_vrUh }
  else rx

def doReceivePdu (p : Bytes) : Except Fault LteRlcUmRx :=
  match LteRlcHeader.fresh.deserialize p with
  | none => .error .bufferOverrun
  | some (rlcHeader, _) =>
    let base := rx.windowStart
    let rx := { rx with
      m_vrUr := rx.m_vrUr.setModulusBase base, m_vrUh := rx.m_vrUh.setModulusBase base }
    let seqNumber := (SequenceNumber10.ofValue rlcHeader.m_sequenceNumber).setModulusBase base
    if rx.m_vrUr.lt seqNumber && seqNumber.lt rx.m_vrUh && rx.hasPdu seqNumber.m_value ||
        rx.windowStart.le seqNumber && seqNumber.lt rx.m_vrUr then .ok rx
    else do
      let rx ← { rx with m_rxBuffer := insertPdu seqNumber.m_value p rx.m_rxBuffer }.moveWindow
        seqNumber
      let rx ← rx.advanceVrUr
      .ok rx.updateTimer

end LteRlcUmRx

end Egsr.Lte.Rlc
