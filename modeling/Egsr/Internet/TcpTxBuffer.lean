import Mathlib.Algebra.Group.Int.Defs
import Egsr.Internet.TcpRxBuffer

/-! The send buffer of a TCP connection: the items that were sent and wait to be
acknowledged, with their flags, and the data of the application behind them. A
request is served by splitting and merging items. The assertions of the source
are compiled out, its aborts are not. -/

namespace Egsr.Internet.TxBuffer

open Network

inductive Fault where
  /-- `NS_ABORT_MSG_IF`, `NS_ABORT_MSG_UNLESS`. -/
  | abort
  /-- `NS_FATAL_ERROR`. -/
  | fatalError
  | nullPointer
  /-- An iterator is dereferenced that refers to no node of the list. -/
  | badIterator
  | noReturn
deriving DecidableEq

structure TcpTxItem where
  m_startSeq : SequenceNumber32
  m_packet : Packet
  m_lost : Bool
  m_retrans : Bool
  m_lastSent : ℤ
  m_sacked : Bool
deriving DecidableEq

namespace TcpTxItem

def getSize (t : TcpTxItem) : UInt32 := Packet.getSize t.m_packet

/-- `new TcpTxItem ()` with a packet; `Time::Min ()` is the least 64-bit time. -/
def ofPacket (p : Packet) : TcpTxItem := ⟨⟨0⟩, p, false, false, -2 ^ 63, false⟩

end TcpTxItem

/-- A node of a list. Iterators refer to nodes by their number, which no other node ever has. -/
structure Node where
  number : ℕ
  item : TcpTxItem
deriving DecidableEq

structure TcpTxBuffer where
  m_appList : List Node
  m_sentList : List Node
  m_maxBuffer : UInt32
  m_size : UInt32
  m_sentSize : UInt32
  m_firstByteSeq : SequenceNumber32
  /-- No node stands for the end of the list. -/
  m_highestSack : Option ℕ × SequenceNumber32
  m_lostOut : UInt32
  m_sackedOut : UInt32
  m_retrans : UInt32
  m_dupAckThresh : UInt32
  /-- The number of the next node. -/
  nextNode : ℕ
  /-- Whether `MergeItems` was ever called on items that differ in `m_sacked` or `m_lost`. -/
  mergedApart : Bool
deriving DecidableEq

/-- The constructor, `SetHeadSequence`, `SetMaxBufferSize` and `SetDupAckThresh`. -/
def initial (n maxBuffer dupAckThresh : UInt32) : TcpTxBuffer :=
  ⟨[], [], maxBuffer, 0, 0, ⟨n⟩, (none, ⟨0⟩), 0, 0, 0, dupAckThresh, 0, false⟩

namespace TcpTxBuffer

variable (b : TcpTxBuffer)

def headSequence : SequenceNumber32 := b.m_firstByteSeq

def tailSequence : SequenceNumber32 := b.m_firstByteSeq.add b.m_size

def available : UInt32 := b.m_maxBuffer - b.m_size

def sizeFromSequence (seq : SequenceNumber32) : UInt32 :=
  if b.tailSequence.greaterEqual seq then b.tailSequence.sub seq else 0

def bytesInFlight : UInt32 :=
  b.m_sentSize - (b.m_sackedOut + b.m_lostOut) + b.m_retrans

def add (p : Packet) : Bool × TcpTxBuffer :=
  if Packet.getSize p ≤ b.available then
    if Packet.getSize p > 0 then
      (true, { b with
        m_appList := b.m_appList ++ [⟨b.nextNode, .ofPacket p⟩]
        m_size := b.m_size + Packet.getSize p
        nextNode := b.nextNode + 1 })
    else (true, b)
  else (false, b)

end TcpTxBuffer

def splitItems (t2 : TcpTxItem) (size : UInt32) : TcpTxItem × TcpTxItem :=
  ({ t2 with m_packet := Packet.createFragment t2.m_packet 0 size },
    { t2 with
      m_packet := t2.m_packet.drop size.toNat
      m_startSeq := t2.m_startSeq.add size })

/-- The merged item, and `m_retrans`: if one of the items is retransmitted and the other is not,
the flag is cancelled. -/
def mergeItems (t1 t2 : TcpTxItem) (retrans : UInt32) : TcpTxItem × UInt32 :=
  ({ t1 with
      m_packet := t1.m_packet ++ t2.m_packet
      m_retrans := t1.m_retrans && t2.m_retrans
      m_lastSent := max t1.m_lastSent t2.m_lastSent },
    if t1.m_retrans = t2.m_retrans then retrans
    else if t1.m_retrans then retrans - t1.getSize else retrans - t2.getSize)

/-- A list around one of its items, and what is edited besides the list. -/
structure Found where
  before : List Node
  node : Node
  after : List Node
  retrans : UInt32
  nextNode : ℕ
  mergedApart : Bool
deriving DecidableEq

def Found.list (f : Found) : List Node := f.before ++ f.node :: f.after

def locate (seq : SequenceNumber32) : (list : List Node) →
    (beginOfCurrentPacket : SequenceNumber32) →
    Option (List Node × Node × List Node × SequenceNumber32)
  | [], _ => none
  | current :: rest, begin =>
    let next := begin.add current.item.getSize
    if seq.less next then some ([], current, rest, begin)
    else (locate seq rest next).map fun r => (current :: r.1, r.2)

/-- An item that is the bytes from `seq` to `seq + numBytes`, after splitting and merging items of
the list. The source's branch that merges an item with the one before it is never taken: the
item the bytes start in is always the current one. -/
def getPacketFromList (listStartFrom : SequenceNumber32) (numBytes : UInt32)
    (seq : SequenceNumber32) :
    ℕ → (list : List Node) → (retrans : UInt32) → (nextNode : ℕ) → (mergedApart : Bool) →
    Except Fault Found
  | 0, _, _, _, _ => .error .noReturn
  | fuel + 1, list, retrans, nextNode, mergedApart =>
    match locate seq list listStartFrom with
    | none => .error .fatalError
    | some (before, current, after, begin) =>
      let size := current.item.getSize
      if seq = begin then
        if (seq.add numBytes).lessEqual (begin.add size) then
          if numBytes = size then .ok ⟨before, current, after, retrans, nextNode, mergedApart⟩
          else if numBytes < size then
            let parts := splitItems current.item numBytes
            .ok ⟨before, ⟨nextNode, parts.1⟩, ⟨current.number, parts.2⟩ :: after, retrans,
              nextNode + 1, mergedApart⟩
          else .error .noReturn -- the loop goes on with the same item
        else
          match after with
          | [] => .ok ⟨before, current, [], retrans, nextNode, mergedApart⟩
          | next :: after =>
            let merged := mergeItems current.item next.item retrans
            getPacketFromList listStartFrom numBytes seq fuel
              (before ++ ⟨current.number, merged.1⟩ :: after) merged.2 nextNode
              (mergedApart || current.item.m_sacked != next.item.m_sacked ||
                current.item.m_lost != next.item.m_lost)
      else if seq.greater begin then
        let parts := splitItems current.item (seq.sub begin)
        getPacketFromList listStartFrom numBytes seq fuel
          (before ++ ⟨nextNode, parts.1⟩ :: ⟨current.number, parts.2⟩ :: after) retrans
          (nextNode + 1) mergedApart
      else .error .fatalError

/-- Calls of `GetPacketFromList`: one that splits, one for each merge, and the last one. -/
def fuelFor (list : List Node) : ℕ := list.length + 3

namespace TcpTxBuffer

variable (b : TcpTxBuffer)

/-- The item moves to the end of the sent list, into a node of its own. -/
def getNewSegment (numBytes : UInt32) : Except Fault (TcpTxItem × TcpTxBuffer) := do
  let startOfAppList := b.m_firstByteSeq.add b.m_sentSize
  let f ← getPacketFromList startOfAppList numBytes startOfAppList (fuelFor b.m_appList) b.m_appList
    b.m_retrans b.nextNode b.mergedApart
  let item := { f.node.item with m_startSeq := startOfAppList }
  .ok (item, { b with
    m_appList := f.before ++ f.after
    m_sentList := b.m_sentList ++ [⟨f.nextNode, item⟩]
    m_sentSize := b.m_sentSize + item.getSize
    m_retrans := f.retrans
    nextNode := f.nextNode + 1
    mergedApart := f.mergedApart })

/-- Avoid to merge different packet for this retransmission if flags are different. -/
def segmentSize (numBytes : UInt32) (seq : SequenceNumber32) : List Node → UInt32
  | [] => numBytes
  | node :: rest =>
    if node.item.m_startSeq = seq then
      match rest with
      | next :: _ =>
        if next.item.m_sacked then min numBytes node.item.getSize
        else min numBytes (node.item.getSize + next.item.getSize)
      | [] => min numBytes node.item.getSize
    else segmentSize numBytes seq rest

/-- The item that is sent again is flagged and counted. -/
def getTransmittedSegment (numBytes : UInt32) (seq : SequenceNumber32) :
    Except Fault (Found × TcpTxBuffer) := do
  let f ← getPacketFromList b.m_firstByteSeq (segmentSize numBytes seq b.m_sentList) seq
    (fuelFor b.m_sentList) b.m_sentList b.m_retrans b.nextNode b.mergedApart
  let f :=
    if f.node.item.m_retrans then f
    else { f with
      retrans := f.retrans + f.node.item.getSize
      node := { f.node with item := { f.node.item with m_retrans := true } } }
  .ok (f, { b with
    m_sentList := f.list
    m_retrans := f.retrans
    nextNode := f.nextNode
    mergedApart := f.mergedApart })

def setLastSent (now : ℤ) (node : Node) : Node :=
  { node with item := { node.item with m_lastSent := now } }

/-- The fuel is the depth of the recursion. -/
def copyFromSequenceDepth (now : ℤ) : ℕ → (b : TcpTxBuffer) → (numBytes : UInt32) →
    (seq : SequenceNumber32) → Except Fault (Packet × TcpTxBuffer)
  | 0, _, _, _ => .error .noReturn
  | depth + 1, b, numBytes, seq =>
    if b.m_firstByteSeq.greater seq then .error .abort
    else
      let s := min numBytes (b.sizeFromSequence seq)
      let endOfSent := b.m_firstByteSeq.add b.m_sentSize
      if s = 0 then .ok ([], b)
      else if endOfSent.greaterEqual (seq.add s) then do
        -- already sent this block completely
        let (f, b) ← b.getTransmittedSegment s seq
        .ok (f.node.item.m_packet,
          { b with m_sentList := f.before ++ setLastSent now f.node :: f.after })
      else if endOfSent.lessEqual seq then
        if endOfSent = seq then do
          -- this is the first time we transmit this block
          let (item, b) ← b.getNewSegment s
          .ok (item.m_packet, { b with m_sentList := b.m_sentList.dropLast ++
                (b.m_sentList.getLast?.map (setLastSent now)).toList })
        else .error .abort
      else if endOfSent.m_value > seq.m_value && endOfSent.m_value < seq.m_value + s then
        -- partial: a part is retransmission, the remaining data is new
        copyFromSequenceDepth now depth b (endOfSent.m_value - seq.m_value) seq
      else .error .nullPointer

def copyFromSequence (now : ℤ) (b : TcpTxBuffer) (numBytes : UInt32) (seq : SequenceNumber32) :
    Except Fault (Packet × TcpTxBuffer) :=
  copyFromSequenceDepth now 2 b numBytes seq

/-! ## The scoreboard -/

def addRenoSack : Except Fault TcpTxBuffer :=
  match b.m_sentList with
  | [] => .error .badIterator
  | head :: rest =>
    let sacked := rest.takeWhile fun node => node.item.m_sacked
    match rest.dropWhile fun node => node.item.m_sacked with
    | [] => .ok b
    | node :: behind =>
      .ok { b with
        m_sentList :=
          head :: sacked ++ { node with item := { node.item with m_sacked := true } } :: behind
        m_sackedOut := b.m_sackedOut + node.item.getSize
        m_highestSack := (some node.number, node.item.m_startSeq) }

def markHeadAsLost : TcpTxBuffer :=
  match b.m_sentList with
  | [] => b
  | head :: rest =>
    let size := head.item.getSize
    { b with
      m_sentList := { head with item := { head.item with
        m_sacked := false
        m_retrans := false
        m_lost := true } } :: rest
      m_sackedOut := if head.item.m_sacked then b.m_sackedOut - size else b.m_sackedOut
      m_retrans := if head.item.m_retrans then b.m_retrans - size else b.m_retrans
      m_lostOut := if head.item.m_lost then b.m_lostOut else b.m_lostOut + size }

def resetRenoSack : TcpTxBuffer :=
  { b with
    m_sackedOut := 0
    m_sentList := b.m_sentList.map fun node =>
      { node with item := { node.item with m_sacked := false } }
    m_highestSack := (none, ⟨0⟩) }

def renumber (first : ℕ) (list : List Node) : List Node :=
  list.zipIdx.map fun e => { e.1 with number := first + e.2 }

def resetSentList : TcpTxBuffer :=
  { b with
    m_appList := renumber b.nextNode (b.m_sentList.map fun node =>
      { node with item := { node.item with
        m_retrans := false, m_sacked := false, m_lost := false } }) ++ b.m_appList
    m_sentList := []
    m_sentSize := 0
    m_lostOut := 0
    m_retrans := 0
    m_sackedOut := 0
    m_highestSack := (none, ⟨0⟩)
    nextNode := b.nextNode + b.m_sentList.length }

def resetLastSegmentSent : TcpTxBuffer :=
  match b.m_sentList.getLast? with
  | none => b
  | some node =>
    { b with
      m_sentList := b.m_sentList.dropLast
      m_sentSize := b.m_sentSize - node.item.getSize
      m_retrans := if node.item.m_retrans then b.m_retrans - node.item.getSize else b.m_retrans
      m_appList := ⟨b.nextNode, node.item⟩ :: b.m_appList
      nextNode := b.nextNode + 1 }

def setSentListLost (resetSack : Bool) : TcpTxBuffer :=
  if resetSack then
    { b with
      m_retrans := 0
      m_sackedOut := 0
      m_lostOut := b.m_sentSize
      m_highestSack := (none, ⟨0⟩)
      m_sentList := b.m_sentList.map fun node =>
        { node with item := { node.item with
          m_sacked := false, m_lost := true, m_retrans := false } } }
  else
    { b with
      m_retrans := 0
      m_lostOut := b.m_sentList.foldl (fun lostOut node =>
        if node.item.m_lost || !node.item.m_sacked then lostOut + node.item.getSize else lostOut) 0
      m_sentList := b.m_sentList.map fun node =>
        { node with item := { node.item with
          m_lost := node.item.m_lost || !node.item.m_sacked
          m_retrans := false } } }

def deleteRetransmittedFlagFromHead : Except Fault TcpTxBuffer :=
  if b.m_sentSize = 0 then .ok b
  else
    match b.m_sentList with
    | [] => .error .badIterator
    | head :: rest =>
      if head.item.m_retrans then
        .ok { b with
          m_sentList := { head with item := { head.item with m_retrans := false } } :: rest
          m_retrans := b.m_retrans - head.item.getSize }
      else .ok b

/-! ## Update -/

/-- What the loops of `Update` change besides the flags. -/
structure Scan where
  sackedOut : UInt32
  lostOut : UInt32
  highestSack : Option ℕ × SequenceNumber32
  modified : Bool
deriving DecidableEq

def sackItem (node : Node) (begin : SequenceNumber32) (s : Scan) : Node × Scan :=
  if node.item.m_sacked then (node, { s with modified := true })
  else
    ({ node with item := { node.item with m_lost := false, m_sacked := true } },
      { sackedOut := s.sackedOut + node.item.getSize
        lostOut := if node.item.m_lost then s.lostOut - node.item.getSize else s.lostOut
        highestSack :=
          if s.highestSack.1 = none || s.highestSack.2.lessEqual (begin.add node.item.getSize) then
            (some node.number, begin)
          else s.highestSack
        modified := true })

def sackBlock (block : SequenceNumber32 × SequenceNumber32) :
    List Node → (begin : SequenceNumber32) → Scan → List Node × Scan
  | [], _, s => ([], s)
  | node :: rest, begin, s =>
    let next := begin.add node.item.getSize
    if begin.greaterEqual block.1 && next.lessEqual block.2 then
      let marked := sackItem node begin s
      let r := sackBlock block rest next marked.2
      (marked.1 :: r.1, r.2)
    else if next.greater block.2 then (node :: rest, s)
    else
      let r := sackBlock block rest next s
      (node :: r.1, r.2)

def sackBlocks (first endOfSent : SequenceNumber32) :
    List (SequenceNumber32 × SequenceNumber32) → List Node → Scan → Option (List Node × Scan)
  | [], list, s => some (list, s)
  | block :: blocks, list, s =>
    if endOfSent.less block.1 && !s.modified then none
    else
      let r := sackBlock block list first s
      sackBlocks first endOfSent blocks r.1 r.2

def markLost (dupAckThresh : UInt32) : List Node → (sacked : UInt32) → (lostOut : UInt32) →
    List Node × UInt32 × UInt32
  | [], sacked, lostOut => ([], sacked, lostOut)
  | node :: rest, sacked, lostOut =>
    let sacked := if node.item.m_sacked then sacked + 1 else sacked
    if sacked ≥ dupAckThresh && !node.item.m_sacked && !node.item.m_lost then
      let r := markLost dupAckThresh rest sacked (lostOut + node.item.getSize)
      ({ node with item := { node.item with m_lost := true } } :: r.1, r.2)
    else
      let r := markLost dupAckThresh rest sacked lostOut
      (node :: r.1, r.2)

def updateLostCount : Except Fault TcpTxBuffer :=
  match b.m_sentList, b.m_highestSack.1 with
  | [], none => if b.m_dupAckThresh = 0 then .error .badIterator else .ok b
  | [], some _ => .error .badIterator
  | _ :: _, none => .error .badIterator
  | head :: rest, some number =>
    if head.number = number || rest.any fun node => node.number = number then
      let walked := rest.take ((rest.findIdx? fun node => node.number = number).elim 0 (· + 1))
      let r := markLost b.m_dupAckThresh walked.reverse 0 b.m_lostOut
      let behind := r.1.reverse ++ rest.drop walked.length
      .ok
        (if r.2.1 ≥ b.m_dupAckThresh && !head.item.m_lost then
          { b with
            m_sentList := { head with item := { head.item with m_lost := true } } :: behind
            m_lostOut := r.2.2 + head.item.getSize }
        else { b with m_sentList := head :: behind, m_lostOut := r.2.2 })
    else .error .badIterator

def update (list : List (SequenceNumber32 × SequenceNumber32)) :
    Except Fault (Bool × TcpTxBuffer) :=
  match sackBlocks b.m_firstByteSeq (b.m_firstByteSeq.add b.m_sentSize) list b.m_sentList
      ⟨b.m_sackedOut, b.m_lostOut, b.m_highestSack, false⟩ with
  | none => .ok (false, b)
  | some (sentList, s) =>
    let b := { b with
      m_sentList := sentList
      m_sackedOut := s.sackedOut
      m_lostOut := s.lostOut
      m_highestSack := s.highestSack }
    if s.modified then (updateLostCount b).map fun b => (true, b) else .ok (false, b)

def removeFromCounts (item : TcpTxItem) (size : UInt32) : TcpTxBuffer :=
  { b with
    m_sackedOut := if item.m_sacked then b.m_sackedOut - size else b.m_sackedOut
    m_retrans := if item.m_retrans then b.m_retrans - size else b.m_retrans
    m_lostOut := if item.m_lost then b.m_lostOut - size else b.m_lostOut }

/-- The items in front are removed until `offset` bytes are gone; each round removes one. -/
def discardLoop (now : ℤ) : ℕ → (offset : UInt32) → TcpTxBuffer → Except Fault TcpTxBuffer
  | 0, _, _ => .error .noReturn
  | fuel + 1, offset, b =>
    if b.m_size > 0 && offset > 0 then do
      -- move data from app list to sent list, so we can delete the item
      let b ←
        if b.m_sentList.isEmpty then
          (b.copyFromSequence now offset b.m_firstByteSeq).map fun r => r.2
        else .ok b
      match b.m_sentList with
      | [] => .error .badIterator
      | node :: rest =>
        let pktSize := node.item.getSize
        if offset ≥ pktSize then
          discardLoop now fuel (offset - pktSize) (removeFromCounts { b with
            m_size := b.m_size - pktSize
            m_sentSize := b.m_sentSize - pktSize
            m_firstByteSeq := b.m_firstByteSeq.add pktSize
            m_sentList := rest } node.item pktSize)
        else
          .ok (removeFromCounts { b with
            m_size := b.m_size - offset
            m_sentSize := b.m_sentSize - offset
            m_firstByteSeq := b.m_firstByteSeq.add offset
            m_sentList := { node with item := { node.item with
              m_packet := Packet.createFragment node.item.m_packet offset (pktSize - offset)
              m_startSeq := node.item.m_startSeq.add offset } } :: rest } node.item offset)
    else .ok b

/-- It is not possible to have the UNA sacked: the flag moves from the head to another segment. -/
def unsackHead : Except Fault TcpTxBuffer :=
  match b.m_sentList with
  | [] => .ok b
  | head :: rest =>
    if head.item.m_sacked then
      (addRenoSack { b with
        m_sentList := { head with item := { head.item with m_sacked := false } } :: rest
        m_sackedOut := b.m_sackedOut - head.item.getSize }).map markHeadAsLost
    else .ok b

def discardUpTo (now : ℤ) (b : TcpTxBuffer) (seq : SequenceNumber32) : Except Fault TcpTxBuffer :=
  if b.m_firstByteSeq.greaterEqual seq then .ok b
  else do
    let b ← discardLoop now (b.m_sentList.length + 3) (seq.sub b.m_firstByteSeq) b
    -- catching the case of ACKing a FIN
    let b := if b.m_size = 0 then { b with m_firstByteSeq := seq } else b
    let b ← unsackHead b
    .ok (if b.m_highestSack.2.lessEqual b.m_firstByteSeq then { b with
      m_highestSack := (none, ⟨0⟩) } else b)

end TcpTxBuffer

end Egsr.Internet.TxBuffer
