import Egsr.Network.SequenceNumber

/-! The receive buffer of a TCP connection. Segments are trimmed against the
window and against the stored packets and stored under their first sequence
number; what is stored without a gap from the front can be extracted. Packets
are their bytes. -/

namespace Egsr.Internet

open Network

abbrev Packet := List UInt8

namespace Packet

def getSize (p : Packet) : UInt32 := UInt32.ofNat p.length

/-- Bytes are removed at the start and then at the end, as many as there are. -/
def createFragment (p : Packet) (start length : UInt32) : Packet :=
  let tmp := p.drop start.toNat
  tmp.take (tmp.length - (getSize p - (start + length)).toNat)

end Packet

namespace RxBuffer

inductive Fault where
  /-- The end of a map is dereferenced. -/
  | badIterator
  | noReturn
deriving DecidableEq

abbrev SackBlock := SequenceNumber32 × SequenceNumber32

/-- `m_data` is a map from sequence numbers, in their order. -/
abbrev Data := List (SequenceNumber32 × Packet)

structure TcpRxBuffer where
  m_nextRxSeq : SequenceNumber32
  m_gotFin : Bool
  m_finSeq : SequenceNumber32
  m_size : UInt32
  m_maxBuffer : UInt32
  m_availBytes : UInt32
  m_data : Data
  m_sackList : List SackBlock
deriving DecidableEq

/-- The constructor with the first sequence number `n`, and `SetMaxBufferSize`. -/
def initial (n maxBuffer : UInt32) : TcpRxBuffer :=
  ⟨⟨n⟩, false, ⟨0⟩, 0, maxBuffer, 0, [], []⟩

/-- The first block is merged with the others that touch it; after each merge the others are
examined again. -/
def mergeSackBlocks : ℕ → (begin : SackBlock) → (examined rest : List SackBlock) →
    Except Fault (List SackBlock)
  | 0, _, _, _ => .error .noReturn
  | _ + 1, begin, examined, [] => .ok (begin :: examined)
  | fuel + 1, begin, examined, current :: rest =>
    if begin.1 = current.2 then mergeSackBlocks fuel (current.1, begin.2) [] (examined ++ rest)
    else if begin.2 = current.1 then
      mergeSackBlocks fuel (begin.1, current.2) [] (examined ++ rest)
    else mergeSackBlocks fuel begin (examined ++ [current]) rest

def updateSackList (sackList : List SackBlock) (head tail : SequenceNumber32) :
    Except Fault (List SackBlock) := do
  let merged ← mergeSackBlocks ((sackList.length + 1) * (sackList.length + 1)) (head, tail) []
    sackList
  .ok (if merged.length > 4 then merged.dropLast else merged)

def clearSackList (sackList : List SackBlock) (seq : SequenceNumber32) : List SackBlock :=
  sackList.filter fun block => !block.2.lessEqual seq

/-! ## Add -/

def trimToWindow (b : TcpRxBuffer) (headSeq tailSeq : SequenceNumber32) :
    SequenceNumber32 × SequenceNumber32 :=
  let headSeq := if headSeq.less b.m_nextRxSeq then b.m_nextRxSeq else headSeq
  match b.m_data with
  | [] => (headSeq, tailSeq)
  | (first, _) :: _ =>
    let maxSeq := first.add b.m_maxBuffer
    let tailSeq := if maxSeq.less tailSeq then maxSeq else tailSeq
    (if tailSeq.less headSeq then tailSeq else headSeq, tailSeq)

structure Trim where
  data : Data
  size : UInt32
  headSeq : SequenceNumber32
  tailSeq : SequenceNumber32
deriving DecidableEq

/-- Remove overlapped bytes from packet: the packets from the iterator on, with `m_size` and
what is left of the incoming one. -/
def removeOverlap : Data → UInt32 → (headSeq tailSeq : SequenceNumber32) → Trim
  | [], size, headSeq, tailSeq => ⟨[], size, headSeq, tailSeq⟩
  | (first, pkt) :: rest, size, headSeq, tailSeq =>
    if first.lessEqual tailSeq then
      let lastByteSeq := first.add (Packet.getSize pkt)
      if lastByteSeq.greater headSeq then
        if first.greater headSeq && lastByteSeq.less tailSeq then
          removeOverlap rest (size - Packet.getSize pkt) headSeq tailSeq
        else
          let head := if first.lessEqual headSeq then lastByteSeq else headSeq
          let tail := if lastByteSeq.greaterEqual tailSeq then first else tailSeq
          let trim := removeOverlap rest size head tail
          { trim with data := (first, pkt) :: trim.data }
      else
        let trim := removeOverlap rest size headSeq tailSeq
        { trim with data := (first, pkt) :: trim.data }
    else ⟨(first, pkt) :: rest, size, headSeq, tailSeq⟩

def insert : Data → SequenceNumber32 → Packet → Data
  | [], seq, p => [(seq, p)]
  | (first, pkt) :: rest, seq, p =>
    if first.less seq then (first, pkt) :: insert rest seq p
    else if seq.less first then (seq, p) :: (first, pkt) :: rest
    else (seq, p) :: rest

structure Frontier where
  nextRxSeq : SequenceNumber32
  availBytes : UInt32
  sackList : List SackBlock
deriving DecidableEq

/-- What is stored without a gap from `m_nextRxSeq` on becomes available. -/
def advance : Data → Frontier → Frontier
  | [], f => f
  | (first, pkt) :: rest, f =>
    if first.less f.nextRxSeq then advance rest f
    else if first.greater f.nextRxSeq then f
    else
      let nextRxSeq := first.add (Packet.getSize pkt)
      advance rest
        ⟨nextRxSeq, f.availBytes + Packet.getSize pkt, clearSackList f.sackList nextRxSeq⟩

def add (b : TcpRxBuffer) (p : Packet) (seq : SequenceNumber32) :
    Except Fault (Bool × TcpRxBuffer) :=
  let window := trimToWindow b seq (seq.add (Packet.getSize p))
  let trim := removeOverlap b.m_data b.m_size window.1 window.2
  if trim.headSeq.greaterEqual trim.tailSeq then
    .ok (false, { b with m_data := trim.data, m_size := trim.size })
  else do
    let p := Packet.createFragment p (trim.headSeq.sub seq) (trim.tailSeq.sub trim.headSeq)
    let data := insert trim.data trim.headSeq p
    let sackList ←
      if trim.headSeq.greater b.m_nextRxSeq then
        updateSackList b.m_sackList trim.headSeq trim.tailSeq
      else .ok b.m_sackList
    let frontier := advance data ⟨b.m_nextRxSeq, b.m_availBytes, sackList⟩
    .ok (true, { b with
      m_data := data
      m_size := trim.size + Packet.getSize p
      m_availBytes := frontier.availBytes
      m_sackList := frontier.sackList
      m_nextRxSeq :=
        if b.m_gotFin && frontier.nextRxSeq = b.m_finSeq then frontier.nextRxSeq.add 1
        else frontier.nextRxSeq })

/-- Moves packets from the front of the buffer to the end of `outPkt`. -/
def extractLoop : (extractSize : UInt32) → TcpRxBuffer → (data : Data) → (outPkt : Packet) →
    Except Fault (Packet × TcpRxBuffer)
  | extractSize, b, [], outPkt =>
    if extractSize = 0 then .ok (outPkt, { b with m_data := [] }) else .error .badIterator
  | extractSize, b, (first, pkt) :: rest, outPkt =>
    if extractSize = 0 then .ok (outPkt, { b with m_data := (first, pkt) :: rest })
    else
      let pktSize := Packet.getSize pkt
      if pktSize ≤ extractSize then
        extractLoop (extractSize - pktSize)
          { b with m_size := b.m_size - pktSize, m_availBytes := b.m_availBytes - pktSize } rest
          (outPkt ++ pkt)
      else
        let behind := Packet.createFragment pkt extractSize (pktSize - extractSize)
        -- the key is new, so that it makes no difference that `i` is erased after the insertion
        .ok (outPkt ++ Packet.createFragment pkt 0 extractSize,
          { b with
            m_data := insert rest (first.add extractSize) behind
            m_size := b.m_size - extractSize
            m_availBytes := b.m_availBytes - extractSize })

def extract (b : TcpRxBuffer) (maxSize : UInt32) : Except Fault (Option Packet × TcpRxBuffer) :=
  let extractSize := min maxSize b.m_availBytes
  if extractSize = 0 then .ok (none, b)
  else do
    let (outPkt, b) ← extractLoop extractSize b b.m_data []
    if Packet.getSize outPkt = 0 then .ok (none, b) else .ok (some outPkt, b)

end RxBuffer

end Egsr.Internet
