import Mathlib.Algebra.Order.Group.Int
import Egsr.Lib.Outcome

/-! Link sensing of OLSR: the link set, the neighbour set and the MPR selector
set of a node, the HELLO messages that fill them and the timers that empty them.
Times are in nanoseconds. -/

namespace Egsr.Olsr.NeighborSensing

inductive Fault where
  /-- `NS_FATAL_ERROR`: bad link type. -/
  | badLinkType
  /-- There is no such event. -/
  | noEvent
deriving DecidableEq

abbrev Ipv4Address := UInt32

structure IfaceAssocTuple where
  ifaceAddr : Ipv4Address
  mainAddr : Ipv4Address
deriving DecidableEq

structure LinkTuple where
  localIfaceAddr : Ipv4Address
  neighborIfaceAddr : Ipv4Address
  symTime : ℤ
  asymTime : ℤ
  time : ℤ
deriving DecidableEq

inductive Status where
  /-- `STATUS_NOT_SYM`. -/
  | notSym
  /-- `STATUS_SYM`. -/
  | sym
deriving DecidableEq

structure NeighborTuple where
  neighborMainAddr : Ipv4Address
  status : Status
  willingness : UInt8
deriving DecidableEq

structure MprSelectorTuple where
  mainAddr : Ipv4Address
  expirationTime : ℤ
deriving DecidableEq

inductive Handler where
  | linkTupleTimerExpire (neighborIfaceAddr : Ipv4Address)
  | mprSelTupleTimerExpire (mainAddr : Ipv4Address)
deriving DecidableEq

structure Event where
  ts : ℤ
  handler : Handler
deriving DecidableEq

/-- The node's address, its holding time, and what MID messages have said. -/
structure Config where
  m_mainAddress : Ipv4Address
  /-- `OLSR_NEIGHB_HOLD_TIME`. -/
  neighbHoldTime : ℤ
  ifaceAssocSet : List IfaceAssocTuple

def Config.getMainAddress (c : Config) (ifaceAddr : Ipv4Address) : Ipv4Address :=
  match c.ifaceAssocSet.find? fun tuple => tuple.ifaceAddr = ifaceAddr with
  | some tuple => tuple.mainAddr
  | none => ifaceAddr

structure RoutingProtocol where
  /-- `Simulator::Now ()`. -/
  now : ℤ
  m_linkSet : List LinkTuple
  m_neighborSet : List NeighborTuple
  m_mprSelectorSet : List MprSelectorTuple
  m_ansn : UInt16
  /-- How often `m_ansn` was incremented. -/
  increments : ℕ
  m_linkTupleTimerFirstTime : Bool
  pending : List Event
deriving DecidableEq

def RoutingProtocol.initial : RoutingProtocol := ⟨0, [], [], [], 65535, 0, true, []⟩

def second : ℤ := 1000000000

def microsecond : ℤ := 1000

def replaceLink (tuple : LinkTuple) : List LinkTuple → List LinkTuple
  | [] => []
  | it :: rest =>
    if it.neighborIfaceAddr = tuple.neighborIfaceAddr then tuple :: rest
      else it :: replaceLink tuple rest

def eraseLinkTuple (tuple : LinkTuple) (links : List LinkTuple) : List LinkTuple :=
  links.eraseP fun it =>
    it.localIfaceAddr = tuple.localIfaceAddr && it.neighborIfaceAddr = tuple.neighborIfaceAddr

def insertNeighborTuple (tuple : NeighborTuple) : List NeighborTuple → List NeighborTuple
  | [] => [tuple]
  | it :: rest =>
    if it.neighborMainAddr = tuple.neighborMainAddr then tuple :: rest
    else it :: insertNeighborTuple tuple rest

def eraseNeighborTuple (mainAddr : Ipv4Address) (neighbors : List NeighborTuple) :
    List NeighborTuple :=
  neighbors.eraseP fun it => it.neighborMainAddr = mainAddr

def findNeighborTuple (mainAddr : Ipv4Address) (neighbors : List NeighborTuple) :
    Option NeighborTuple :=
  neighbors.find? fun it => it.neighborMainAddr = mainAddr

def modifyNeighborTuple (mainAddr : Ipv4Address) (f : NeighborTuple → NeighborTuple) :
    List NeighborTuple → List NeighborTuple
  | [] => []
  | it :: rest =>
    if it.neighborMainAddr = mainAddr then f it :: rest
      else it :: modifyNeighborTuple mainAddr f rest

namespace RoutingProtocol

variable (c : Config) (s : RoutingProtocol)

def findLinkTuple (ifaceAddr : Ipv4Address) : Option LinkTuple :=
  s.m_linkSet.find? fun it => it.neighborIfaceAddr = ifaceAddr

variable (mainAddr : Ipv4Address)

def findMprSelectorTuple : Option MprSelectorTuple :=
  s.m_mprSelectorSet.find? fun it => it.mainAddr = mainAddr

def delay (time : ℤ) : ℤ := if time < s.now then microsecond else time - s.now + microsecond

def schedule (time : ℤ) (handler : Handler) : RoutingProtocol :=
  { s with pending := s.pending ++ [⟨s.now + s.delay time, handler⟩] }

def incrementAnsn : RoutingProtocol :=
  { s with
    m_ansn := UInt16.ofNat ((s.m_ansn.toNat + 1) % (65535 + 1))
    increments := s.increments + 1 }

def addNeighborTuple (tuple : NeighborTuple) : RoutingProtocol :=
  { s with m_neighborSet := insertNeighborTuple tuple s.m_neighborSet }.incrementAnsn

variable (tuple : LinkTuple)

def linkTupleAdded (willingness : UInt8) : RoutingProtocol :=
  s.addNeighborTuple
    { neighborMainAddr := c.getMainAddress tuple.neighborIfaceAddr
      status := if tuple.symTime ≥ s.now then .sym else .notSym
      willingness }

def hasSymmetricLink : Bool :=
  s.m_linkSet.any fun it => c.getMainAddress it.neighborIfaceAddr = mainAddr && it.symTime ≥ s.now

def updateStatus : RoutingProtocol :=
  { s with
    m_neighborSet := modifyNeighborTuple mainAddr
      (fun it => { it with status := if s.hasSymmetricLink c mainAddr then .sym else .notSym })
      s.m_neighborSet }

def linkTupleUpdated (willingness : UInt8) : RoutingProtocol :=
  let mainAddr := c.getMainAddress tuple.neighborIfaceAddr
  if (findNeighborTuple mainAddr s.m_neighborSet).isNone then
    (s.linkTupleAdded c tuple willingness).updateStatus c mainAddr
  else s.updateStatus c mainAddr

def removeLinkTuple : RoutingProtocol :=
  { s with
    m_neighborSet := eraseNeighborTuple (c.getMainAddress tuple.neighborIfaceAddr) s.m_neighborSet
    m_linkSet := eraseLinkTuple tuple s.m_linkSet }

def eraseMprSelectorTuples : RoutingProtocol :=
  { s with m_mprSelectorSet := s.m_mprSelectorSet.filter fun it => it.mainAddr ≠ mainAddr }

/-- `OLSR_WILL_DEFAULT` is 3. -/
def neighborLoss : RoutingProtocol :=
  (s.linkTupleUpdated c tuple 3).eraseMprSelectorTuples (c.getMainAddress tuple.neighborIfaceAddr)

/-! ## HELLO messages -/

end RoutingProtocol

structure LinkMessage where
  linkCode : UInt8
  neighborInterfaceAddresses : List Ipv4Address
deriving DecidableEq

structure Hello where
  vTime : ℤ
  originatorAddress : Ipv4Address
  willingness : UInt8
  linkMessages : List LinkMessage
deriving DecidableEq

inductive LinkType where
  | unspec
  | asym
  | sym
  | lost
deriving DecidableEq

def LinkMessage.linkType (m : LinkMessage) : LinkType :=
  match (m.linkCode &&& 0x03).toNat with
  | 0 => .unspec
  | 1 => .asym
  | 2 => .sym
  | _ => .lost

/-- `nt`: 0, 1 and 2 are `NOT_NEIGH`, `SYM_NEIGH` and `MPR_NEIGH`. -/
def LinkMessage.neighborType (m : LinkMessage) : ℕ := ((m.linkCode >>> 2) &&& 0x03).toNat

def LinkMessage.ignored (m : LinkMessage) : Bool :=
  (m.linkType = .sym && m.neighborType = 0) || m.neighborType = 3

/-- The loop over the link messages: the link tuple, and whether it is updated. -/
def senseLink (c : Config) (now vTime : ℤ) (receiverIface : Ipv4Address) :
    (messages : List LinkMessage) → (tuple : LinkTuple) → (updated : Bool) →
      Except Fault (LinkTuple × Bool)
  | [], tuple, updated => .ok (tuple, updated)
  | m :: messages, tuple, updated =>
    if m.ignored then senseLink c now vTime receiverIface messages tuple updated
    else if receiverIface ∈ m.neighborInterfaceAddresses then
      match m.linkType with
      | .lost =>
        senseLink c now vTime receiverIface messages { tuple with symTime := now - second } true
      | .sym | .asym =>
        senseLink c now vTime receiverIface messages
          { tuple with symTime := now + vTime, time := now + vTime + c.neighbHoldTime } true
      | .unspec => .error .badLinkType
    else senseLink c now vTime receiverIface messages tuple updated

namespace RoutingProtocol

variable (c : Config) (s : RoutingProtocol) (hello : Hello)

def linkSensing (receiverIface senderIface : Ipv4Address) : Except Fault RoutingProtocol :=
  match s.findLinkTuple senderIface with
  | none => do
    let newLinkTuple : LinkTuple :=
      { neighborIfaceAddr := senderIface
        localIfaceAddr := receiverIface
        symTime := s.now - second
        asymTime := s.now + hello.vTime
        time := s.now + hello.vTime }
    let (tuple, updated) ← senseLink c s.now hello.vTime receiverIface hello.linkMessages
      newLinkTuple false
    let tuple := { tuple with time := max tuple.time tuple.asymTime }
    let s := { s with m_linkSet := s.m_linkSet ++ [tuple] }
    let s := if updated then s.linkTupleUpdated c tuple hello.willingness else s
    .ok ((s.linkTupleAdded c tuple hello.willingness).schedule (min tuple.time tuple.symTime)
      (.linkTupleTimerExpire tuple.neighborIfaceAddr))
  | some tuple => do
    let (tuple, _) ← senseLink c s.now hello.vTime receiverIface hello.linkMessages
      { tuple with asymTime := s.now + hello.vTime } true
    let tuple := { tuple with time := max tuple.time tuple.asymTime }
    let s := { s with m_linkSet := replaceLink tuple s.m_linkSet }
    .ok (s.linkTupleUpdated c tuple hello.willingness)

def populateNeighborSet : RoutingProtocol :=
  { s with
    m_neighborSet := modifyNeighborTuple hello.originatorAddress
      (fun it => { it with willingness := hello.willingness }) s.m_neighborSet }

def modifyMprSelectorTuple (mainAddr : Ipv4Address) (expirationTime : ℤ) :
    List MprSelectorTuple → List MprSelectorTuple
  | [] => []
  | it :: rest =>
    if it.mainAddr = mainAddr then { it with expirationTime } :: rest
    else it :: modifyMprSelectorTuple mainAddr expirationTime rest

def addMprSelectorTuple (tuple : MprSelectorTuple) : RoutingProtocol :=
  { s with m_mprSelectorSet := s.m_mprSelectorSet ++ [tuple] }.incrementAnsn

def removeMprSelectorTuple (tuple : MprSelectorTuple) : RoutingProtocol :=
  { s with
    m_mprSelectorSet :=
      s.m_mprSelectorSet.eraseP fun it => it.mainAddr = tuple.mainAddr }.incrementAnsn

def selectedAsMpr (s : RoutingProtocol) : RoutingProtocol :=
  match s.findMprSelectorTuple hello.originatorAddress with
  | none =>
    (s.addMprSelectorTuple ⟨hello.originatorAddress, s.now + hello.vTime⟩).schedule
      (s.now + hello.vTime) (.mprSelTupleTimerExpire hello.originatorAddress)
  | some _ =>
    { s with
      m_mprSelectorSet := modifyMprSelectorTuple hello.originatorAddress (s.now + hello.vTime)
        s.m_mprSelectorSet }

/-- `nt` is not masked here. -/
def populateMprSelectorSet : RoutingProtocol :=
  hello.linkMessages.foldl
    (fun (s : RoutingProtocol) (m : LinkMessage) =>
      if m.linkCode >>> 2 = 2 then
        m.neighborInterfaceAddresses.foldl
          (fun s addr => if c.getMainAddress addr = c.m_mainAddress then selectedAsMpr hello s
            else s) s
      else s) s

def processHello (receiverIface senderIface : Ipv4Address) : Except Fault RoutingProtocol := do
  let s ← s.linkSensing c hello receiverIface senderIface
  .ok ((s.populateNeighborSet hello).populateMprSelectorSet c hello)

def linkTupleTimerExpire (neighborIfaceAddr : Ipv4Address) : RoutingProtocol :=
  match s.findLinkTuple neighborIfaceAddr with
  | none => s
  | some tuple =>
    if tuple.time < s.now then s.removeLinkTuple c tuple
    else if tuple.symTime < s.now then
      let s := if s.m_linkTupleTimerFirstTime then { s with m_linkTupleTimerFirstTime := false }
        else s.neighborLoss c tuple
      s.schedule tuple.time (.linkTupleTimerExpire neighborIfaceAddr)
    else s.schedule (min tuple.time tuple.symTime) (.linkTupleTimerExpire neighborIfaceAddr)

def mprSelTupleTimerExpire (mainAddr : Ipv4Address) : RoutingProtocol :=
  match s.findMprSelectorTuple mainAddr with
  | none => s
  | some tuple =>
    if tuple.expirationTime < s.now then s.removeMprSelectorTuple tuple
    else s.schedule tuple.expirationTime (.mprSelTupleTimerExpire mainAddr)

def fire (k : ℕ) : Except Fault RoutingProtocol :=
  match s.pending[k]? with
  | none => .error .noEvent
  | some e =>
    let s := { s with now := e.ts, pending := s.pending.eraseIdx k }
    match e.handler with
    | .linkTupleTimerExpire neighborIfaceAddr => .ok (s.linkTupleTimerExpire c neighborIfaceAddr)
    | .mprSelTupleTimerExpire mainAddr => .ok (s.mprSelTupleTimerExpire mainAddr)

end RoutingProtocol

end Egsr.Olsr.NeighborSensing
