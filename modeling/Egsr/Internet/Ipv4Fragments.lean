import Egsr.Internet.TcpRxBuffer

/-! Fragmentation of IPv4 datagrams, and the lists from which they are put
together again. Headers have the fields these functions read and write. -/

namespace Egsr.Internet.Ipv4

open Internet

inductive Fault where
  /-- `NS_ABORT_MSG_IF` on an offset that is not a multiple of eight. -/
  | abort
  /-- The first fragment of an empty list is dereferenced. -/
  | badIterator
  | noReturn
deriving DecidableEq

structure Ipv4Header where
  m_payloadSize : UInt16
  m_identification : UInt16
  m_protocol : UInt8
  m_flags : BitVec 3
  m_fragmentOffset : UInt16
  m_source : UInt32
  m_destination : UInt32
  m_headerSize : UInt16
deriving DecidableEq

namespace Ipv4Header

def moreFragments : BitVec 3 := 2

variable (h : Ipv4Header)

def setMoreFragments : Ipv4Header := { h with m_flags := h.m_flags ||| moreFragments }

def setLastFragment : Ipv4Header := { h with m_flags := h.m_flags &&& ~~~moreFragments }

def isLastFragment : Bool := h.m_flags &&& moreFragments = 0

def setFragmentOffset (offsetBytes : UInt16) : Except Fault Ipv4Header :=
  if offsetBytes &&& 7 ≠ 0 then .error .abort else .ok { h with m_fragmentOffset := offsetBytes }

end Ipv4Header

abbrev PayloadHeaderPair := Packet × Ipv4Header

def fragmentsFrom (p : Packet) (ipv4Header : Ipv4Header) (fragmentSize : UInt32) :
    ℕ → (offset : UInt16) → Except Fault (List PayloadHeaderPair)
  | 0, _ => .error .noReturn
  | fuel + 1, offset => do
    let moreFragment := p.getSize > offset.toUInt32 + fragmentSize
    let currentFragmentablePartSize :=
      if moreFragment then fragmentSize else p.getSize - offset.toUInt32
    let fragmentHeader :=
      if moreFragment then ipv4Header.setMoreFragments
      else if ipv4Header.isLastFragment then ipv4Header.setLastFragment
      else ipv4Header.setMoreFragments
    let fragment := p.createFragment offset.toUInt32 currentFragmentablePartSize
    let fragmentHeader ← fragmentHeader.setFragmentOffset (offset + ipv4Header.m_fragmentOffset)
    let fragmentHeader :=
      { fragmentHeader with m_payloadSize := currentFragmentablePartSize.toUInt16 }
    if moreFragment then
      let rest ← fragmentsFrom p ipv4Header fragmentSize fuel
        (offset + currentFragmentablePartSize.toUInt16)
      .ok ((fragment, fragmentHeader) :: rest)
    else .ok [(fragment, fragmentHeader)]

def doFragmentation (packet : Packet) (ipv4Header : Ipv4Header) (outIfaceMtu : UInt32) :
    Except Fault (List PayloadHeaderPair) :=
  -- IPv4 fragments are all 8 bytes aligned but the last
  fragmentsFrom packet ipv4Header ((outIfaceMtu - ipv4Header.m_headerSize.toUInt32) &&& ~~~7)
    (packet.length + 1) 0

/-! ## Fragments -/

structure Fragments where
  m_moreFragment : Bool
  m_fragments : List (Packet × UInt16)
deriving DecidableEq

namespace Fragments

def empty : Fragments := ⟨false, []⟩

variable (f : Fragments)

def addFragment (fragment : Packet) (fragmentOffset : UInt16) (moreFragment : Bool) : Fragments :=
  let before := f.m_fragments.takeWhile fun it => !(it.2 > fragmentOffset)
  let after := f.m_fragments.dropWhile fun it => !(it.2 > fragmentOffset)
  { m_moreFragment := if after.isEmpty then moreFragment else f.m_moreFragment
    m_fragments := before ++ (fragment, fragmentOffset) :: after }

def entireFrom : (lastEndOffset : UInt16) → List (Packet × UInt16) → Bool
  | _, [] => true
  | lastEndOffset, it :: rest =>
    if lastEndOffset < it.2 then false
    else entireFrom (max lastEndOffset (it.1.getSize + it.2.toUInt32).toUInt16) rest

def isEntire : Bool := !f.m_moreFragment && f.m_fragments.length > 0 && entireFrom 0 f.m_fragments

def packetFrom : (p : Packet) → (lastEndOffset : UInt16) → List (Packet × UInt16) → Packet
  | p, _, [] => p
  | p, lastEndOffset, it :: rest =>
    let p :=
      if lastEndOffset > it.2 then
        let newStart := lastEndOffset.toUInt32 - it.2.toUInt32
        if it.1.getSize > newStart then
          p ++ it.1.createFragment newStart (it.1.getSize - newStart)
        else p
      else p ++ it.1
    packetFrom p p.getSize.toUInt16 rest

def getPacket : Except Fault Packet :=
  match f.m_fragments with
  | [] => .error .badIterator
  | it :: rest => .ok (packetFrom it.1 it.1.getSize.toUInt16 rest)

structure Request where
  fragment : Packet
  start : UInt32
  length : UInt32
deriving DecidableEq

/-- The loop of `GetPartialPacket`, with the calls of `CreateFragment`. -/
def partialFrom : (p : Packet) →
    (lastEndOffset : UInt16) → List (Packet × UInt16) → Packet × List Request
  | p, _, [] => (p, [])
  | p, lastEndOffset, it :: rest =>
    if lastEndOffset > it.2 then
      let newStart := lastEndOffset.toUInt32 - it.2.toUInt32
      let newSize := it.1.getSize - newStart
      let p := p ++ it.1.createFragment newStart newSize
      let r := partialFrom p p.getSize.toUInt16 rest
      (r.1, ⟨it.1, newStart, newSize⟩ :: r.2)
    else
      let p := if lastEndOffset = it.2 then p ++ it.1 else p
      partialFrom p p.getSize.toUInt16 rest

def getPartialPacket : Except Fault (Packet × List Request) :=
  match f.m_fragments with
  | [] => .error .badIterator
  | it :: rest => .ok (if it.2 > 0 then ([], []) else partialFrom [] 0 (it :: rest))

end Fragments

abbrev Key := UInt64 × UInt32

def keyOf (ipHeader : Ipv4Header) : Key :=
  ((ipHeader.m_source.toUInt64 <<< 32) ||| ipHeader.m_destination.toUInt64,
    (ipHeader.m_identification.toUInt32 <<< 16) ||| ipHeader.m_protocol.toUInt32)

abbrev MapFragments := Key → Option Fragments

/-- Whether the packet is complete, the packet, and the datagrams that are still incomplete. The
timers are those of the entries. -/
def processFragment (m_fragments : MapFragments) (packet : Packet) (ipHeader : Ipv4Header) :
    Except Fault (Bool × Packet × MapFragments) :=
  let key := keyOf ipHeader
  let fragments := ((m_fragments key).getD .empty).addFragment packet ipHeader.m_fragmentOffset
    !ipHeader.isLastFragment
  if fragments.isEntire then
    fragments.getPacket.map fun packet => (true, packet, Function.update m_fragments key none)
  else .ok (false, packet, Function.update m_fragments key (some fragments))

end Egsr.Internet.Ipv4
