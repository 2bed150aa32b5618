import Egsr.Lib.Outcome

/-! Duplicate detection and defragmentation of 802.11 frames, and a sender that
hands its MSDUs over fragment by fragment. Packets are their bytes. -/

namespace Egsr.Wifi.Defragmentation

open Lib.Run

inductive Fault where
  /-- `NS_ASSERT` on `m_defragmenting`. -/
  | defragmenting
deriving DecidableEq

abbrev Packet := List UInt8

/-- The octets, the first one in the highest bits. -/
abbrev Mac48Address := BitVec 48

def Mac48Address.isGroup (a : Mac48Address) : Bool := a.getLsbD 40

/-- The fields that a receiver of data and management frames reads. -/
structure WifiMacHeader where
  m_addr1 : Mac48Address
  m_addr2 : Mac48Address
  /-- The TID, if the frame is QoS data. -/
  m_qosTid : Option UInt8
  m_ctrlMoreFrag : Bool
  m_ctrlRetry : Bool
  m_seqSeq : UInt16
  m_seqFrag : UInt8
deriving DecidableEq

variable (hdr : WifiMacHeader)

def WifiMacHeader.getSequenceControl : UInt16 :=
  (hdr.m_seqSeq <<< 4) ||| hdr.m_seqFrag.toUInt16

structure OriginatorRxStatus where
  m_defragmenting : Bool
  m_lastSequenceControl : UInt16
  m_fragments : List Packet
deriving DecidableEq

namespace OriginatorRxStatus

def initial : OriginatorRxStatus := ⟨false, 0xffff, []⟩

variable (o : OriginatorRxStatus)

def accumulateFirstFragment (packet : Packet) : Except Fault OriginatorRxStatus :=
  if o.m_defragmenting then .error .defragmenting
  else .ok { o with m_defragmenting := true, m_fragments := o.m_fragments ++ [packet] }

def accumulateLastFragment (packet : Packet) : Except Fault (Packet × OriginatorRxStatus) :=
  if !o.m_defragmenting then .error .defragmenting
  else .ok ((o.m_fragments ++ [packet]).flatten,
    { o with m_defragmenting := false, m_fragments := [] })

def accumulateFragment (packet : Packet) : Except Fault OriginatorRxStatus :=
  if !o.m_defragmenting then .error .defragmenting
  else .ok { o with m_fragments := o.m_fragments ++ [packet] }

def isNextFragment (sequenceControl : UInt16) : Bool :=
  sequenceControl >>> 4 = o.m_lastSequenceControl >>> 4 &&
    sequenceControl &&& 0x0f = (o.m_lastSequenceControl &&& 0x0f) + 1

def setSequenceControl (sequenceControl : UInt16) : OriginatorRxStatus :=
  { o with m_lastSequenceControl := sequenceControl }

end OriginatorRxStatus

/-- What `Lookup` finds a status by; only QoS data has one for each TID. -/
abbrev Originator := Mac48Address × Option UInt8

def WifiMacHeader.originator : Originator :=
  (hdr.m_addr2, if Mac48Address.isGroup hdr.m_addr2 then none else hdr.m_qosTid)

/-- `m_originatorStatus` and `m_qosOriginatorStatus`; what is not there yet is initial. -/
abbrev MacRxMiddle := Originator → OriginatorRxStatus

def isDuplicate (originator : OriginatorRxStatus) : Bool :=
  hdr.m_ctrlRetry && originator.m_lastSequenceControl = hdr.getSequenceControl

def handleFragments (packet : Packet) (hdr : WifiMacHeader) (originator : OriginatorRxStatus) :
    Except Fault (Option Packet × OriginatorRxStatus) :=
  if originator.m_defragmenting then
    if hdr.m_ctrlMoreFrag then
      if originator.isNextFragment hdr.getSequenceControl then do
        let originator ← originator.accumulateFragment packet
        .ok (none, originator.setSequenceControl hdr.getSequenceControl)
      else .ok (none, originator)
    else
      if originator.isNextFragment hdr.getSequenceControl then do
        let (p, originator) ← originator.accumulateLastFragment packet
        .ok (some p, originator.setSequenceControl hdr.getSequenceControl)
      else .ok (none, originator)
  else
    if hdr.m_ctrlMoreFrag then do
      let originator ← originator.accumulateFirstFragment packet
      .ok (none, originator.setSequenceControl hdr.getSequenceControl)
    else .ok (some packet, originator)

/-- `Receive`, for one status: what is forwarded up, and the status after it. -/
def receiveFrom (packet : Packet) (hdr : WifiMacHeader) (originator : OriginatorRxStatus) :
    Except Fault (Option Packet × OriginatorRxStatus) :=
  if isDuplicate hdr originator then .ok (none, originator)
  else do
    let (aggregate, originator) ← handleFragments packet hdr originator
    match aggregate with
    | none => .ok (none, originator)
    | some p =>
      .ok (some p, if !Mac48Address.isGroup hdr.m_addr1 then
        originator.setSequenceControl hdr.getSequenceControl else originator)

def MacRxMiddle.receive (m : MacRxMiddle) (packet : Packet) (hdr : WifiMacHeader) :
    Except Fault (Option Packet × MacRxMiddle) := do
  let (forwarded, originator) ← receiveFrom packet hdr (m hdr.originator)
  .ok (forwarded, Function.update m hdr.originator originator)

/-! ## The sender -/

/-- Group addressed frames are not fragmented. -/
structure Msdu where
  addr1 : Mac48Address
  fragments : List Packet
  length_pos : 0 < fragments.length
  length_le : fragments.length ≤ 16
  length_group : Mac48Address.isGroup addr1 → fragments.length = 1

def Msdu.bytes (m : Msdu) : Packet := m.fragments.flatten

/-- An MSDU, and which of its fragments have been received. -/
structure Transmission where
  msdu : Msdu
  received : List ℕ

def Transmission.Complete (t : Transmission) : Prop := ∀ i < t.msdu.fragments.length, i ∈ t.received

instance (t : Transmission) : Decidable t.Complete := by
  unfold Transmission.Complete
  infer_instance

structure Sender where
  addr2 : Mac48Address
  qosTid : Option UInt8
  first : ℕ

variable (S : Sender)

def Sender.originator : Originator :=
  (S.addr2, if Mac48Address.isGroup S.addr2 then none else S.qosTid)

structure Channel where
  past : List Transmission
  current : Transmission
  fragment : ℕ
  /-- How often the fragment was sent. -/
  copies : ℕ
  rx : MacRxMiddle
  /-- What was forwarded up, and with which header. -/
  forwarded : List (Packet × WifiMacHeader)

def Channel.start (m : Msdu) : Channel :=
  ⟨[], ⟨m, []⟩, 0, 0, fun _ => .initial, []⟩

variable (c : Channel)

def Channel.sent : List Transmission := c.past ++ [c.current]

def Channel.number : ℕ := S.first + c.past.length

def Channel.header : WifiMacHeader where
  m_addr1 := c.current.msdu.addr1
  m_addr2 := S.addr2
  m_qosTid := S.qosTid
  m_ctrlMoreFrag := decide (c.fragment + 1 < c.current.msdu.fragments.length)
  m_ctrlRetry := decide (0 < c.copies)
  m_seqSeq := UInt16.ofNat (c.number S % 4096)
  m_seqFrag := UInt8.ofNat c.fragment

inductive Action where
  /-- The fragment is sent, for the first time or again. -/
  | copy (received : Bool)
  | nextFragment
  /-- The sender goes on to another MSDU, whether or not the last one was received. -/
  | nextMsdu (m : Msdu)
  /-- A frame of another originator is received. -/
  | other (packet : Packet) (hdr : WifiMacHeader)

def Channel.forward (packet : Packet) (hdr : WifiMacHeader) : Except Fault Channel := do
  let (p, rx) ← c.rx.receive packet hdr
  .ok { c with rx, forwarded := c.forwarded ++ (p.map fun p => (p, hdr)).toList }

def step : Action → Except Fault Channel
  | .copy false => .ok { c with copies := c.copies + 1 }
  | .copy true => do
    let c ← c.forward (c.current.msdu.fragments.getD c.fragment []) (c.header S)
    .ok { c with
      copies := c.copies + 1
      current := { c.current with received := c.current.received ++ [c.fragment] } }
  | .nextFragment => .ok { c with fragment := c.fragment + 1, copies := 0 }
  | .nextMsdu m =>
    .ok { c with past := c.past ++ [c.current], current := ⟨m, []⟩, fragment := 0, copies := 0 }
  | .other packet hdr => c.forward packet hdr

/-- Group addressed frames are sent once; fragments are sent before the next one. -/
def Possible : Action → Prop
  | .copy _ => Mac48Address.isGroup c.current.msdu.addr1 → c.copies = 0
  | .nextFragment => 0 < c.copies ∧ c.fragment + 1 < c.current.msdu.fragments.length
  | .nextMsdu _ => True
  | .other _ hdr => hdr.originator ≠ S.originator

def Channel.passedUp : List Packet :=
  (c.forwarded.filter fun f => f.2.originator = S.originator).map fun f => f.1

def Channel.completed : List Packet :=
  (c.sent.filter fun t => t.Complete).map fun t => t.msdu.bytes

end Egsr.Wifi.Defragmentation
