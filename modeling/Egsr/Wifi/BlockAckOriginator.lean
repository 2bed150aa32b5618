import Egsr.Lib.RingBuffer
import Egsr.Wifi.BlockAckReordering

/-! The originator of a block-ack agreement: the transmit window, the
outstanding MPDUs and the retransmit queue. -/

namespace Egsr.Wifi.BlockAck.Originator

structure BlockAckWindow where
  m_winStart : ℕ
  m_window : List Bool
  m_head : ℕ
deriving DecidableEq

namespace BlockAckWindow

variable (w : BlockAckWindow)

def init (winStart winSize : ℕ) : BlockAckWindow := ⟨winStart, List.replicate winSize false, 0⟩

def getWinSize : ℕ := w.m_window.length

def reset (winStart : ℕ) : BlockAckWindow := init winStart w.getWinSize

def at' (distance : ℕ) : Bool := Lib.RingBuffer.entry false w.m_window w.m_head distance

def setAt (distance : ℕ) : BlockAckWindow :=
  { w with m_window := Lib.RingBuffer.write w.m_window w.m_head distance true }

def clearHead : BlockAckWindow :=
  { w with
    m_window := Lib.RingBuffer.drop false w.m_window w.m_head
    m_head := (w.m_head + 1) % w.m_window.length }

def advance (count : ℕ) : BlockAckWindow :=
  if w.getWinSize ≤ count then w.reset ((w.m_winStart + count) % 4096)
  else { clearHead^[count] w with m_winStart := (w.m_winStart + count) % 4096 }

def advanceWhile : ℕ → BlockAckWindow → BlockAckWindow
  | 0, w => w
  | rounds + 1, w => if w.at' 0 then advanceWhile rounds (w.advance 1) else w

/-- Each round resets the head, so there are no more rounds than flags. -/
def advanceTxWindow : BlockAckWindow := advanceWhile w.getWinSize w

end BlockAckWindow

/-- The defaults of `MaxQueueSize`, in packets, and of `MaxDelay`, in nanoseconds. -/
def maxQueueSize : ℕ := 500

def maxDelay : ℕ := 500000000

/-- An MPDU of the agreement in a queue; items are numbered as they are made. -/
structure WifiMacQueueItem where
  mpdu : Mpdu
  number : ℕ
  m_tstamp : ℕ
deriving DecidableEq

namespace WifiMacQueueItem

variable (item : WifiMacQueueItem)

def getSequenceNumber : ℕ := item.mpdu.m_seqSeq

def getFragmentNumber : ℕ := item.mpdu.m_seqFrag

def getSequenceControl : ℕ := item.mpdu.getSequenceControl

end WifiMacQueueItem

structure OriginatorAgreement where
  m_txWindow : BlockAckWindow
  /-- The outstanding MPDUs. -/
  outstanding : List WifiMacQueueItem
  /-- Those of the agreement in the queue that all agreements share. -/
  m_retryPackets : List WifiMacQueueItem
  /-- The sequence number of the next new MPDU. -/
  nextSequenceNumber : ℕ
  /-- How many items were made. -/
  made : ℕ
  /-- The MPDUs in either list that a block ack reported received. -/
  reported : List WifiMacQueueItem
  /-- The MPDUs, not old, that the last action, a block ack, reported missing. -/
  missing : List WifiMacQueueItem
  /-- How many MPDUs of other agreements the retransmit queue holds. -/
  elsewhere : ℕ
  now : ℕ
deriving DecidableEq

inductive Fault where
  /-- The new starting sequence number is an old sequence number. -/
  | abort
deriving DecidableEq

/-- What a queue is when the MPDU is put before the first one that is farther; none when it is
there. -/
def insertByDistance (startingSeq : ℕ) (item : WifiMacQueueItem) : List WifiMacQueueItem →
    Option (List WifiMacQueueItem)
  | [] => some [item]
  | i :: rest =>
    let mpduDist := distance startingSeq item.getSequenceNumber
    let dist := distance startingSeq i.getSequenceNumber
    if item.getSequenceControl = i.getSequenceControl then none
    else if mpduDist < dist ∨ mpduDist = dist ∧ item.getFragmentNumber < i.getFragmentNumber then
      some (item :: i :: rest)
    else (insertByDistance startingSeq item rest).map (i :: ·)

namespace OriginatorAgreement

variable (s : OriginatorAgreement)

def getStartingSequence : ℕ := s.m_txWindow.m_winStart

variable (seqNumber : ℕ)

def getDistance : ℕ := distance s.getStartingSequence seqNumber

def notifyTransmittedMpdu : OriginatorAgreement :=
  let distance := s.getDistance seqNumber
  if 2048 ≤ distance then s
  else if s.m_txWindow.getWinSize ≤ distance then
    { s with m_txWindow := (s.m_txWindow.advance
      (distance - s.m_txWindow.getWinSize + 1)).advanceTxWindow }
  else s

def notifyAckedMpdu : OriginatorAgreement :=
  let distance := s.getDistance seqNumber
  if 2048 ≤ distance then s
  else { s with m_txWindow := (s.m_txWindow.setAt distance).advanceTxWindow }

def advancePast : OriginatorAgreement :=
  let distance := s.getDistance seqNumber
  if 2048 ≤ distance then s
  else { s with m_txWindow := (s.m_txWindow.advance (distance + 1)).advanceTxWindow }

/-! ## The manager -/

variable (item : WifiMacQueueItem)

def storePacket : OriginatorAgreement :=
  if 2048 ≤ s.getDistance item.getSequenceNumber then s
  else
    match insertByDistance s.getStartingSequence item s.outstanding with
    | none => s
    | some queue => { s with outstanding := queue }.notifyTransmittedMpdu item.getSequenceNumber

/-- No MPDU in the queue has outlived its lifetime. -/
def Fresh : Prop := ∀ i ∈ s.m_retryPackets, s.now ≤ i.m_tstamp + maxDelay
deriving Decidable

/-- In a fresh queue `PeekByTidAndAddress` skips nothing, and `Insert` finds nothing to take out of
a full one, which drops the newest. -/
def insertInRetryQueue : OriginatorAgreement :=
  if 2048 ≤ s.getDistance item.getSequenceNumber then s
  else
    match insertByDistance s.getStartingSequence item s.m_retryPackets with
    | none => s
    | some queue =>
      if s.m_retryPackets.length + s.elsewhere <
        maxQueueSize then { s with m_retryPackets := queue }
      else s

def eraseOutstanding : OriginatorAgreement :=
  { s with outstanding := s.outstanding.filter fun i => i.getSequenceNumber ≠ seqNumber }

def notifyGotAck : OriginatorAgreement :=
  (s.eraseOutstanding item.getSequenceNumber).notifyAckedMpdu item.getSequenceNumber

def notifyMissedAck : OriginatorAgreement :=
  (s.eraseOutstanding item.getSequenceNumber).insertInRetryQueue item

variable (isPacketReceived : ℕ → Bool)

/-- What the loop of `NotifyGotBlockAck` does with an outstanding MPDU, which it then erases. -/
def gotBlockAckOf (currentStartingSeq : ℕ) (item : WifiMacQueueItem) : OriginatorAgreement :=
  if isPacketReceived item.getSequenceNumber then s.notifyAckedMpdu item.getSequenceNumber
  else if !isOldPacket currentStartingSeq item.getSequenceNumber then s.insertInRetryQueue item
  else s

def isLost (item : WifiMacQueueItem) : Bool :=
  !isPacketReceived item.getSequenceNumber &&
    !isOldPacket s.getStartingSequence item.getSequenceNumber

def notifyGotBlockAck : OriginatorAgreement :=
  let t := s.outstanding.foldl
    (fun t item => t.gotBlockAckOf isPacketReceived s.getStartingSequence item) s
  { t with
    outstanding := []
    reported := s.reported ++
      (s.outstanding ++ s.m_retryPackets).filter fun i => isPacketReceived i.getSequenceNumber
    missing := s.outstanding.filter (s.isLost isPacketReceived) }

def notifyMissedBlockAck : OriginatorAgreement :=
  { s.outstanding.foldl insertInRetryQueue s with outstanding := [] }

def removeFromRetryQueue (startSeq endSeq : ℕ) : OriginatorAgreement :=
  { s with m_retryPackets := s.m_retryPackets.filter fun i =>
      ¬(s.getDistance startSeq ≤ s.getDistance i.getSequenceNumber ∧
        s.getDistance i.getSequenceNumber ≤ s.getDistance endSeq) }

def removeOldPackets (startingSeq : ℕ) : Except Fault OriginatorAgreement :=
  if 2048 ≤ s.getDistance startingSeq then .error .abort
  else if startingSeq = s.getStartingSequence then .ok s
  else
    let lastRemovedSeq := (startingSeq + 4096 - 1) % 4096
    let t := s.removeFromRetryQueue s.getStartingSequence lastRemovedSeq
    .ok { t with outstanding := t.outstanding.filter fun i =>
      ¬t.getDistance i.getSequenceNumber ≤ t.getDistance lastRemovedSeq }

def notifyDiscardedMpdu : Except Fault OriginatorAgreement :=
  if isOldPacket s.getStartingSequence seqNumber then .ok s
  else (s.removeOldPackets ((seqNumber + 1) % 4096)).map fun t => t.advancePast seqNumber

end OriginatorAgreement

/-- After `UpdateAgreement` for a response with the buffer size: a field of ten bits. -/
def established (startingSeq : Fin 4096) (bufferSize : Fin 1024) : OriginatorAgreement :=
  ⟨BlockAckWindow.init startingSeq (bufferSize + 1), [], [], startingSeq, 0, [], [], 0, 0⟩

inductive Frame where
  /-- The next of the EDCA queue; responses are compressed, so it is not fragmented. -/
  | new (packet : List UInt8)
  /-- Taken from the retransmit queue, at the position. -/
  | retransmitted (position : ℕ)
  /-- Outstanding, at the position. -/
  | outstanding (position : ℕ)
deriving DecidableEq

inductive Action where
  | storePacket (frame : Frame)
  | notifyGotAck (frame : Frame)
  | notifyMissedAck (frame : Frame)
  /-- With what the response says of each sequence number. -/
  | notifyGotBlockAck (isPacketReceived : ℕ → Bool)
  | notifyMissedBlockAck
  | notifyDiscardedMpdu (seqNumber : Fin 4096)
  /-- Time passes, and other agreements come to have so many MPDUs in the retransmit queue. -/
  | elapse (time elsewhere : ℕ)

theorem sequenceNumbers_ne_zero : NeZero 4096 := ⟨by decide⟩

theorem fragmentNumbers_ne_zero : NeZero 16 := ⟨by decide⟩

attribute [local instance] sequenceNumbers_ne_zero fragmentNumbers_ne_zero

variable (s : OriginatorAgreement)

/-- Gives a new MPDU its sequence number, or takes the MPDU from the retransmit queue. -/
def take : Frame → Option (WifiMacQueueItem × OriginatorAgreement)
  | .new packet =>
    some (⟨⟨Fin.ofNat 4096 s.nextSequenceNumber, 0, false, packet⟩, s.made, s.now⟩,
      { s with nextSequenceNumber := (s.nextSequenceNumber + 1) % 4096, made := s.made + 1 })
  | .retransmitted position => s.m_retryPackets[position]?.map fun item =>
    (item, { s with m_retryPackets := s.m_retryPackets.eraseIdx position })
  | .outstanding position => s.outstanding[position]?.map fun item => (item, s)

def withFrame (frame : Frame)
    (f : OriginatorAgreement → WifiMacQueueItem → OriginatorAgreement) : OriginatorAgreement :=
  match take s frame with
  | none => s
  | some (item, t) => f t item

def step (a : Action) : Except Fault OriginatorAgreement :=
  let s := { s with missing := [] }
  match a with
  | .storePacket frame => .ok (withFrame s frame .storePacket)
  | .notifyGotAck frame => .ok (withFrame s frame .notifyGotAck)
  | .notifyMissedAck frame => .ok (withFrame s frame .notifyMissedAck)
  | .notifyGotBlockAck isPacketReceived => .ok (s.notifyGotBlockAck isPacketReceived)
  | .notifyMissedBlockAck => .ok s.notifyMissedBlockAck
  | .notifyDiscardedMpdu seqNumber => s.notifyDiscardedMpdu seqNumber
  | .elapse time elsewhere => .ok { s with now := s.now + time, elsewhere := elsewhere }

end Egsr.Wifi.BlockAck.Originator
