import Egsr.Aodv.RoutingTable
import Egsr.Lib.Outcome

/-! The AODV routing protocol at one node. Messages that a node sends are
recorded; times are in nanoseconds. -/

namespace Egsr.Aodv

/-- The sequence number of the destination is unknown if the flag says so. -/
structure RreqHeader where
  hopCount : UInt8
  requestID : UInt32
  dst : Ipv4Address
  dstSeqNo : UInt32
  origin : Ipv4Address
  originSeqNo : UInt32
  unknownSeqno : Bool
  gratuitousRrep : Bool
  destinationOnly : Bool
deriving DecidableEq

structure RrepHeader where
  hopCount : UInt8
  dst : Ipv4Address
  dstSeqNo : UInt32
  origin : Ipv4Address
  /-- In milliseconds. -/
  lifeTime : UInt32
  ackRequired : Bool
deriving DecidableEq

abbrev RerrHeader := List (Ipv4Address × UInt32)

inductive Message where
  | rreq (rreqHeader : RreqHeader)
  | rrep (rrepHeader : RrepHeader)
  | rerr (rerrHeader : RerrHeader)
  | rrepAck
deriving DecidableEq

structure Sent where
  socket : Ipv4InterfaceAddress
  destination : Ipv4Address
  ttl : UInt8
  message : Message
deriving DecidableEq

def milliseconds (n : ℤ) : ℤ := 1000000 * n

def microseconds (n : ℤ) : ℤ := 1000 * n

def RrepHeader.create (hopCount : UInt8) (dst : Ipv4Address) (dstSeqNo : UInt32)
    (origin : Ipv4Address) (lifeTime : ℤ) : RrepHeader :=
  ⟨hopCount, dst, dstSeqNo, origin, UInt32.ofNat ((lifeTime.tdiv 1000000) % 2 ^ 32).toNat, false⟩

def RrepHeader.getLifeTime (h : RrepHeader) : ℤ := milliseconds h.lifeTime.toNat

/-- A destination that is listed stays as it is. The list is in the order of destinations. -/
def addUnDestination (dst : Ipv4Address) (seqNo : UInt32) : RerrHeader → RerrHeader
  | [] => [(dst, seqNo)]
  | un :: rest =>
    if un.1 = dst then un :: rest
    else if dst < un.1 then (dst, seqNo) :: un :: rest
    else un :: addUnDestination dst seqNo rest

/-! ## A node -/

structure Interface where
  number : ℕ
  address : Ipv4InterfaceAddress
deriving DecidableEq

structure Config where
  /-- `m_socketAddresses`. -/
  interfaces : List Interface
  m_rreqRetries : UInt32
  m_ttlStart : UInt16
  m_ttlIncrement : UInt16
  m_ttlThreshold : UInt16
  m_timeoutBuffer : UInt16
  m_rreqRateLimit : UInt16
  m_rerrRateLimit : UInt16
  m_activeRouteTimeout : ℤ
  m_netDiameter : UInt32
  m_nodeTraversalTime : ℤ
  m_netTraversalTime : ℤ
  m_pathDiscoveryTime : ℤ
  m_myRouteTimeout : ℤ
  m_helloInterval : ℤ
  m_allowedHelloLoss : UInt32
  m_destinationOnly : Bool
  m_gratuitousReply : Bool
  /-- Of the routing table. -/
  m_badLinkLifetime : ℤ
  /-- Of the cache of request numbers. -/
  idLifetime : ℤ

namespace Config

def standard (interfaces : List Interface) : Config where
  interfaces := interfaces
  m_rreqRetries := 2
  m_ttlStart := 1
  m_ttlIncrement := 2
  m_ttlThreshold := 7
  m_timeoutBuffer := 2
  m_rreqRateLimit := 10
  m_rerrRateLimit := 10
  m_activeRouteTimeout := milliseconds 3000
  m_netDiameter := 35
  m_nodeTraversalTime := milliseconds 40
  m_netTraversalTime := milliseconds 2800
  m_pathDiscoveryTime := milliseconds 5600
  m_myRouteTimeout := milliseconds 11200
  m_helloInterval := milliseconds 1000
  m_allowedHelloLoss := 2
  m_destinationOnly := false
  m_gratuitousReply := true
  m_badLinkLifetime := milliseconds 15000
  idLifetime := milliseconds 5600

variable (c : Config)

def isMyOwnAddress (src : Ipv4Address) : Bool := c.interfaces.any fun i => i.address.m_local = src

def device (receiver : Ipv4Address) : Option ℕ :=
  (c.interfaces.find? fun i => i.address.m_local = receiver).map fun i => i.number

def ifaceAddress (receiver : Ipv4Address) : Ipv4InterfaceAddress :=
  match c.interfaces.find? fun i => i.address.m_local = receiver with
  | some i => i.address
  | none => .unset

def findSocketWithInterfaceAddress (addr : Ipv4InterfaceAddress) : Option Ipv4InterfaceAddress :=
  (c.interfaces.find? fun i => i.address = addr).map fun i => i.address

end Config

def broadcastDestination (iface : Ipv4InterfaceAddress) : Ipv4Address :=
  if iface.m_mask = 0xffffffff then 0xffffffff else iface.broadcast

structure UniqueId where
  m_context : Ipv4Address
  m_id : UInt32
  m_expire : ℤ
deriving DecidableEq

/-- `m_addressReqTimer` of a destination: when it expires, if it is running. -/
structure AddressReqTimer where
  dst : Ipv4Address
  expires : Option ℤ
deriving DecidableEq

/-- A `SendRequest` that was put off by the rate limit. -/
structure DeferredRequest where
  ts : ℤ
  dst : Ipv4Address
deriving DecidableEq

structure RoutingProtocol where
  /-- `Simulator::Now ()`. -/
  now : ℤ
  m_routingTable : List RoutingTableEntry
  m_queue : RequestQueue
  m_requestId : UInt32
  m_seqNo : UInt32
  /-- How often `m_seqNo` was incremented. -/
  increments : ℕ
  m_rreqIdCache : List UniqueId
  m_rreqCount : UInt16
  m_rerrCount : UInt16
  m_addressReqTimer : List AddressReqTimer
  deferred : List DeferredRequest
  /-- When `m_rreqRateLimitTimer` expires. -/
  rreqRateLimitExpires : ℤ
  sent : List Sent
deriving DecidableEq

inductive Fault where
  /-- `NS_ABORT_MSG_UNLESS`: unexpected value for `GetRreqCount`. -/
  | rreqCount
  /-- `NS_ASSERT`: no socket has the interface's address. -/
  | noSocket
  /-- There is no such event. -/
  | noEvent
deriving DecidableEq

namespace RoutingProtocol

variable (c : Config) (s : RoutingProtocol)

def purge : RoutingProtocol :=
  { s with m_routingTable := RoutingTable.purge s.now c.m_badLinkLifetime s.m_routingTable }

def find (id : Ipv4Address) : Option RoutingTableEntry := RoutingTable.find id s.m_routingTable

variable (rt : RoutingTableEntry)

def addRoute : RoutingProtocol :=
  let s := s.purge c
  { s with m_routingTable := RoutingTable.insert rt.settle s.m_routingTable }

def update : RoutingProtocol :=
  { s with m_routingTable := RoutingTable.update rt s.m_routingTable }

variable (dst : Ipv4Address)

def deleteRoute : RoutingProtocol :=
  let s := s.purge c
  { s with m_routingTable := RoutingTable.deleteRoute dst s.m_routingTable }

def invalidateRoutesWithDst (unreachable : List (Ipv4Address × UInt32)) : RoutingProtocol :=
  let s := s.purge c
  { s with
    m_routingTable :=
      RoutingTable.invalidateRoutesWithDst s.now c.m_badLinkLifetime unreachable s.m_routingTable }

def rememberId (addr : Ipv4Address) (id : UInt32) : RoutingProtocol :=
  let cache := s.m_rreqIdCache.filter fun u => !(u.m_expire < s.now)
  if cache.any fun i => i.m_context = addr && i.m_id = id then { s with m_rreqIdCache := cache }
  else { s with m_rreqIdCache := cache ++ [⟨addr, id, c.idLifetime + s.now⟩] }

def isDuplicate (addr : Ipv4Address) (id : UInt32) : Bool :=
  s.m_rreqIdCache.any fun i => !(i.m_expire < s.now) && i.m_context = addr && i.m_id = id

def send (socket : Ipv4InterfaceAddress) (destination : Ipv4Address) (ttl : UInt8)
    (message : Message) : RoutingProtocol :=
  { s with sent := s.sent ++ [⟨socket, destination, ttl, message⟩] }

def sendOver (iface : Ipv4InterfaceAddress) (destination : Ipv4Address) (ttl : UInt8)
    (message : Message) : Except Fault RoutingProtocol :=
  match c.findSocketWithInterfaceAddress iface with
  | none => .error .noSocket
  | some socket => .ok (s.send socket destination ttl message)

/-! ## Requests -/

def ringTtl : UInt16 :=
  if rt.m_flag ≠ .inSearch then min (rt.m_hops + c.m_ttlIncrement) c.m_netDiameter.toUInt16
  else
    let ttl := rt.m_hops + c.m_ttlIncrement
    if ttl > c.m_ttlThreshold then c.m_netDiameter.toUInt16 else ttl

/-- `IncrementRreqCnt` at the full TTL. -/
def countRing (ttl : UInt16) (rt : RoutingTableEntry) : RoutingTableEntry :=
  if ttl.toUInt32 = c.m_netDiameter then { rt with m_reqCount := rt.m_reqCount + 1 } else rt

def removeTimer : RoutingProtocol :=
  { s with m_addressReqTimer := s.m_addressReqTimer.filter (fun t => t.dst ≠ dst) ++ [⟨dst, none⟩] }

def eraseTimer : RoutingProtocol :=
  { s with m_addressReqTimer := s.m_addressReqTimer.filter fun t => t.dst ≠ dst }

def scheduleTimer (delay : ℤ) : RoutingProtocol :=
  { s with
    m_addressReqTimer :=
      s.m_addressReqTimer.filter (fun t => t.dst ≠ dst) ++ [⟨dst, some (s.now + delay)⟩] }

def scheduleRreqRetry : Except Fault RoutingProtocol :=
  let s := (s.removeTimer dst).purge c
  let rt := (s.find dst).getD (.unset s.now)
  if rt.m_hops.toUInt32 < c.m_netDiameter then
    .ok (s.scheduleTimer dst
      (2 * c.m_nodeTraversalTime * (rt.m_hops.toNat + c.m_timeoutBuffer.toNat)))
  else if rt.m_reqCount = 0 then .error .rreqCount
  else .ok (s.scheduleTimer dst (c.m_netTraversalTime * 2 ^ (rt.m_reqCount.toNat - 1)))

def beginSearch : RoutingProtocol × UInt16 × Option UInt32 :=
  let s := s.purge c
  match s.find dst with
  | some rt =>
    let ttl := ringTtl c rt
    let known := if rt.m_validSeqNo then some rt.m_seqNo else none
    let rt := { countRing c ttl rt with m_hops := ttl, m_flag := .inSearch }
    (s.update (rt.setLifeTime s.now c.m_pathDiscoveryTime), ttl, known)
  | none =>
    let newEntry := countRing c c.m_ttlStart
      (.create s.now none dst false 0 .unset c.m_ttlStart unsetAddress c.m_pathDiscoveryTime)
    (s.addRoute c { newEntry with m_flag := .inSearch }, c.m_ttlStart, none)

variable (rreqHeader : RreqHeader)

def broadcastRequest (ttl : UInt16) (s : RoutingProtocol) (i : Interface) : RoutingProtocol :=
  (s.rememberId c i.address.m_local rreqHeader.requestID).send i.address
    (broadcastDestination i.address)
    ttl.toUInt8 (.rreq { rreqHeader with origin := i.address.m_local })

def sendRequest : Except Fault RoutingProtocol :=
  if s.m_rreqCount = c.m_rreqRateLimit then
    .ok { s with deferred := s.deferred ++ [⟨s.rreqRateLimitExpires + microseconds 100, dst⟩] }
  else
    let (s, ttl, known) := { s with m_rreqCount := s.m_rreqCount + 1 }.beginSearch c dst
    let s :=
      { s with
        m_seqNo := s.m_seqNo + 1
        increments := s.increments + 1
        m_requestId := s.m_requestId + 1 }
    let rreqHeader : RreqHeader :=
      { hopCount := 0
        requestID := s.m_requestId
        dst
        dstSeqNo := known.getD 0
        origin := unsetAddress
        originSeqNo := s.m_seqNo
        unknownSeqno := known.isNone
        gratuitousRrep := c.m_gratuitousReply
        destinationOnly := c.m_destinationOnly }
    (c.interfaces.foldl (broadcastRequest c rreqHeader ttl) s).scheduleRreqRetry c dst

def deferredRouteOutput (p : Packet) (header : Ipv4Header) (ucb ecb : ℕ) :
    Except Fault RoutingProtocol :=
  let newEntry : QueueEntry := ⟨p, header, ucb, ecb, s.now + s.now⟩
  match s.m_queue.enqueue s.now newEntry with
  | (queue, false) => .ok { s with m_queue := queue }
  | (queue, true) =>
    let s := { s with m_queue := queue }.purge c
    if ((s.find header.m_destination).map fun rt => rt.m_flag) = some .inSearch then .ok s
    else s.sendRequest c header.m_destination

def sendPacketFromQueue (route : Ipv4Route) : RoutingProtocol :=
  { s with m_queue := s.m_queue.sendPacketFromQueue s.now dst route }

def stopSearch : RoutingProtocol :=
  let s := (s.eraseTimer dst).deleteRoute c dst
  { s with m_queue := s.m_queue.dropPacketWithDst s.now dst }

def routeRequestTimerExpire : Except Fault RoutingProtocol :=
  let s := s.purge c
  let toDst := (s.find dst).getD (.unset s.now)
  if (s.find dst).isSome ∧
    toDst.m_flag = .valid then .ok (s.sendPacketFromQueue dst toDst.m_ipv4Route)
  else if toDst.m_reqCount.toUInt32 = c.m_rreqRetries then .ok (s.stopSearch c dst)
  else if toDst.m_flag = .inSearch then s.sendRequest c dst
  else .ok (s.stopSearch c dst)

def stopTimer (timers : List AddressReqTimer) : List AddressReqTimer :=
  timers.map fun t => if t.dst = dst then { t with expires := none } else t

def fireTimer : Except Fault RoutingProtocol :=
  match s.m_addressReqTimer.find? fun t => t.dst = dst with
  | some ⟨_, some expires⟩ =>
    { s with
      now := expires
      m_addressReqTimer := stopTimer dst s.m_addressReqTimer }.routeRequestTimerExpire c dst
  | _ => .error .noEvent

def fireDeferred (k : ℕ) : Except Fault RoutingProtocol :=
  match s.deferred[k]? with
  | none => .error .noEvent
  | some request =>
    { s with now := request.ts, deferred := s.deferred.eraseIdx k }.sendRequest c request.dst

def rreqRateLimitTimerExpire : RoutingProtocol :=
  { s with
    now := s.rreqRateLimitExpires
    m_rreqCount := 0
    rreqRateLimitExpires := s.rreqRateLimitExpires + milliseconds 1000 }

def rerrRateLimitTimerExpire : RoutingProtocol := { s with m_rerrCount := 0 }

def sendRerrMessage (rerrHeader : RerrHeader) (precursors : List Ipv4Address) :
    Except Fault RoutingProtocol :=
  if precursors.isEmpty ∨ s.m_rerrCount = c.m_rerrRateLimit then .ok s
  else
    let s := s.purge c
    match precursors with
    | [precursor] =>
      match s.find precursor with
      | some toPrecursor =>
        if toPrecursor.m_flag = .valid then
          { s with m_rerrCount := s.m_rerrCount + 1 }.sendOver c toPrecursor.m_iface precursor 1
            (.rerr rerrHeader)
        else .ok s
      | none => .ok s
    | _ =>
      let ifaces :=
        ((precursors.filterMap s.find).filter fun rt => rt.m_flag = .valid).map fun rt => rt.m_iface
      ifaces.eraseDups.foldlM
        (fun (s : RoutingProtocol) (iface : Ipv4InterfaceAddress) =>
          s.sendOver c iface (broadcastDestination iface) 1 (.rerr rerrHeader)) s

def precursorsOf (unreachable : List (Ipv4Address × UInt32)) (precursors : List Ipv4Address) :
    List Ipv4Address :=
  unreachable.foldl (fun prec un => ((s.find un.1).getD (.unset s.now)).getPrecursors prec)
    precursors

def sendRerrWhenBreaksLinkToNextHop (nextHop : Ipv4Address) : Except Fault RoutingProtocol := do
  let s := s.purge c
  match s.find nextHop with
  | none => .ok s
  | some toNextHop =>
    let unreachable := RoutingTable.getListOfDestinationWithNextHop nextHop s.m_routingTable
    let rerrHeader := unreachable.foldl (fun header un => addUnDestination un.1 un.2 header)
      [(nextHop, toNextHop.m_seqNo)]
    let s ← s.sendRerrMessage c rerrHeader (s.precursorsOf unreachable (toNextHop.getPrecursors []))
    .ok (s.invalidateRoutesWithDst c (addUnDestination nextHop toNextHop.m_seqNo unreachable))

def recvError (rerrHeader : RerrHeader) (src : Ipv4Address) : Except Fault RoutingProtocol := do
  let s := s.purge c
  let dstWithNextHopSrc := RoutingTable.getListOfDestinationWithNextHop src s.m_routingTable
  let unreachable := rerrHeader.filter fun un => dstWithNextHopSrc.any fun i => i.1 = un.1
  let s ← (if unreachable.isEmpty then .ok s
    else s.sendRerrMessage c unreachable (s.precursorsOf unreachable []))
  .ok (s.invalidateRoutesWithDst c unreachable)

/-! ## Messages -/

def updateRouteToNeighbor (sender receiver : Ipv4Address) : RoutingProtocol :=
  let s := s.purge c
  let newEntry (lifetime : ℤ) : RoutingTableEntry :=
    .create s.now (c.device receiver) sender false 0 (c.ifaceAddress receiver) 1 sender lifetime
  match s.find sender with
  | none => s.addRoute c (newEntry c.m_activeRouteTimeout)
  | some toNeighbor =>
    -- the changed lifetime of the entry itself is not stored
    if toNeighbor.m_validSeqNo ∧ toNeighbor.m_hops = 1 ∧ toNeighbor.m_ipv4Route.outputDevice =
      c.device receiver
    then s
    else s.update (newEntry (max c.m_activeRouteTimeout (toNeighbor.getLifeTime s.now)))

/-- The sequence numbers of the code are compared as signed integers. -/
def newer (a b : UInt32) : Bool := 0 < a.toInt32.toInt - b.toInt32.toInt

def reverseLifeTime (hop : UInt8) : ℤ :=
  2 * c.m_netTraversalTime - 2 * hop.toNat * c.m_nodeTraversalTime

def updateReverseRoute (receiver src : Ipv4Address) : RoutingProtocol × RoutingTableEntry :=
  let s := s.purge c
  match s.find rreqHeader.origin with
  | none =>
    (s.addRoute c (.create s.now (c.device receiver) rreqHeader.origin true rreqHeader.originSeqNo
      (c.ifaceAddress receiver) rreqHeader.hopCount.toUInt16 src
        (reverseLifeTime c rreqHeader.hopCount)),
      .unset s.now)
  | some toOrigin =>
    let seqNo := if toOrigin.m_validSeqNo ∧
      ¬newer rreqHeader.originSeqNo toOrigin.m_seqNo then toOrigin.m_seqNo
      else rreqHeader.originSeqNo
    let lifetime := max (reverseLifeTime c rreqHeader.hopCount) (toOrigin.getLifeTime s.now)
    let toOrigin :=
      ({ toOrigin with
        m_seqNo := seqNo
        m_validSeqNo := true
        m_hops := rreqHeader.hopCount.toUInt16 }.setNextHop src
        (c.device receiver) (c.ifaceAddress receiver)).setLifeTime s.now lifetime
    (s.update toOrigin, toOrigin)

def updateRequestNeighbor (receiver src : Ipv4Address) : RoutingProtocol :=
  let s := s.purge c
  match s.find src with
  | none =>
    s.addRoute c (.create s.now (c.device receiver) src false rreqHeader.originSeqNo
      (c.ifaceAddress receiver) 1 src c.m_activeRouteTimeout)
  | some toNeighbor =>
    let toNeighbor :=
      { toNeighbor with
        m_validSeqNo := false, m_seqNo := rreqHeader.originSeqNo, m_flag := .valid, m_hops := 1 }
    s.update ((toNeighbor.setNextHop src (c.device receiver) (c.ifaceAddress receiver)).setLifeTime
      s.now c.m_activeRouteTimeout)

def sendReply (toOrigin : RoutingTableEntry) : Except Fault RoutingProtocol :=
  let s := if !rreqHeader.unknownSeqno && rreqHeader.dstSeqNo = s.m_seqNo + 1 then
    { s with m_seqNo := s.m_seqNo + 1, increments := s.increments + 1 } else s
  s.sendOver c toOrigin.m_iface toOrigin.getNextHop toOrigin.m_hops.toUInt8
    (.rrep (.create 0 rreqHeader.dst s.m_seqNo toOrigin.getDestination c.m_myRouteTimeout))

def sendReplyByIntermediateNode (toDst toOrigin : RoutingTableEntry) (gratRep : Bool) :
    Except Fault RoutingProtocol := do
  let rrepHeader :=
    RrepHeader.create toDst.m_hops.toUInt8 toDst.getDestination toDst.m_seqNo
      toOrigin.getDestination
    (toDst.getLifeTime s.now)
  -- the timer that waits for the acknowledgement is one of a copy, and is never started
  let rrepHeader := { rrepHeader with ackRequired := toDst.m_hops = 1 }
  let s := if toDst.m_hops = 1 then s.purge c else s
  let toDst := toDst.insertPrecursor toOrigin.getNextHop
  let toOrigin := toOrigin.insertPrecursor toDst.getNextHop
  let s ← ((s.update toDst).update toOrigin).sendOver c toOrigin.m_iface toOrigin.getNextHop
    toOrigin.m_hops.toUInt8 (.rrep rrepHeader)
  if gratRep = true then
    s.sendOver c toDst.m_iface toDst.getNextHop toDst.m_hops.toUInt8
      (.rrep (.create toOrigin.m_hops.toUInt8 toOrigin.getDestination toOrigin.m_seqNo
        toDst.getDestination (toOrigin.getLifeTime s.now)))
  else .ok s

def forwardRequest (ttl : UInt8) : RoutingProtocol :=
  if ttl < 2 then s
  else
    c.interfaces.foldl
      (fun (s : RoutingProtocol) (i : Interface) =>
        s.send i.address (broadcastDestination i.address) (ttl - 1) (.rreq rreqHeader)) s

def relayRequest (ttl : UInt8) (src : Ipv4Address) (toOrigin : RoutingTableEntry) :
    Except Fault RoutingProtocol :=
  let s := s.purge c
  match s.find rreqHeader.dst with
  | none => .ok (s.forwardRequest c rreqHeader ttl)
  | some toDst =>
    if toDst.getNextHop = src then .ok s
    else if (rreqHeader.unknownSeqno || !newer rreqHeader.dstSeqNo toDst.m_seqNo) &&
      toDst.m_validSeqNo then
      if !rreqHeader.destinationOnly ∧ toDst.m_flag = .valid then
        let s := s.purge c
        s.sendReplyByIntermediateNode c toDst ((s.find rreqHeader.origin).getD toOrigin)
          rreqHeader.gratuitousRrep
      else .ok (s.forwardRequest c { rreqHeader with
        dstSeqNo := toDst.m_seqNo, unknownSeqno := false } ttl)
    else .ok (s.forwardRequest c rreqHeader ttl)

def recvRequest (ttl : UInt8) (receiver src : Ipv4Address) : Except Fault RoutingProtocol :=
  let s := s.purge c
  if ((s.find src).map fun toPrev => toPrev.m_blackListState) = some true then .ok s
  else
    let duplicate := s.isDuplicate rreqHeader.origin rreqHeader.requestID
    let s := s.rememberId c rreqHeader.origin rreqHeader.requestID
    if duplicate then .ok s
    else
      let rreqHeader := { rreqHeader with hopCount := rreqHeader.hopCount + 1 }
      let (s, toOrigin) := s.updateReverseRoute c rreqHeader receiver src
      let s := s.updateRequestNeighbor c rreqHeader receiver src
      if c.isMyOwnAddress rreqHeader.dst then
        let s := s.purge c
        s.sendReply c rreqHeader ((s.find rreqHeader.origin).getD toOrigin)
      else s.relayRequest c rreqHeader ttl src toOrigin

variable (rrepHeader : RrepHeader)

def processHello (receiver : Ipv4Address) : RoutingProtocol :=
  let s := s.purge c
  match s.find rrepHeader.dst with
  | none =>
    s.addRoute c (.create s.now (c.device receiver) rrepHeader.dst true rrepHeader.dstSeqNo
      (c.ifaceAddress receiver) 1 rrepHeader.dst rrepHeader.getLifeTime)
  | some toNeighbor =>
    let lifetime :=
      max (c.m_allowedHelloLoss.toNat * c.m_helloInterval) (toNeighbor.getLifeTime s.now)
    let toNeighbor :=
      { toNeighbor with
        m_seqNo := rrepHeader.dstSeqNo, m_validSeqNo := true, m_flag := .valid, m_hops := 1 }
    s.update ((toNeighbor.setNextHop rrepHeader.dst (c.device receiver)
      (c.ifaceAddress receiver)).setLifeTime s.now lifetime)

def replaces (toDst : RoutingTableEntry) : Bool :=
  !toDst.m_validSeqNo || newer rrepHeader.dstSeqNo toDst.m_seqNo ||
    rrepHeader.dstSeqNo = toDst.m_seqNo &&
      (toDst.m_flag ≠ .valid || rrepHeader.hopCount.toUInt16 < toDst.m_hops)

def updateForwardRoute (newEntry : RoutingTableEntry) : RoutingProtocol :=
  match s.find rrepHeader.dst with
  | none => s.addRoute c newEntry
  | some toDst => if replaces rrepHeader toDst then s.update newEntry else s

def sendReplyAck (neighbor : Ipv4Address) : Except Fault RoutingProtocol :=
  let s := s.purge c
  s.sendOver c ((s.find neighbor).getD (.unset s.now)).m_iface neighbor 1 .rrepAck

def replyArrived (searching : Bool) (newEntry : RoutingTableEntry)
    (toDst : RoutingTableEntry) : RoutingProtocol :=
  let s := if searching then (s.update newEntry).eraseTimer dst else s
  let s := s.purge c
  s.sendPacketFromQueue dst ((s.find dst).getD toDst).m_ipv4Route

def insertPrecursorAt (nextHop precursor : Ipv4Address) : RoutingProtocol :=
  let s := s.purge c
  s.update (((s.find nextHop).getD (.unset s.now)).insertPrecursor precursor)

def updatePrecursors (toOrigin : RoutingTableEntry) : RoutingProtocol :=
  let s := s.purge c
  match s.find dst with
  | none => s
  | some toDst =>
    if toDst.m_flag = .valid then
      let s := s.update (toDst.insertPrecursor toOrigin.getNextHop)
      let s := s.insertPrecursorAt c toDst.getNextHop toOrigin.getNextHop
      let s := s.update (toOrigin.insertPrecursor toDst.getNextHop)
      s.insertPrecursorAt c toOrigin.getNextHop toDst.getNextHop
    else s

def relayReply (ttl : UInt8) : Except Fault RoutingProtocol :=
  let s := s.purge c
  match s.find rrepHeader.origin with
  | none => .ok s
  | some toOrigin =>
    if toOrigin.m_flag = .inSearch then .ok s
    else
      let toOrigin :=
        toOrigin.setLifeTime s.now (max c.m_activeRouteTimeout (toOrigin.getLifeTime s.now))
      let s := (s.update toOrigin).updatePrecursors c rrepHeader.dst toOrigin
      if ttl < 2 then .ok s
      else s.sendOver c toOrigin.m_iface toOrigin.getNextHop (ttl - 1) (.rrep rrepHeader)

def recvReply (ttl : UInt8) (receiver sender : Ipv4Address) : Except Fault RoutingProtocol := do
  let rrepHeader := { rrepHeader with hopCount := rrepHeader.hopCount + 1 }
  if rrepHeader.dst = rrepHeader.origin then .ok (s.processHello c rrepHeader receiver)
  else
    let newEntry :=
      RoutingTableEntry.create s.now (c.device receiver) rrepHeader.dst true rrepHeader.dstSeqNo
      (c.ifaceAddress receiver) rrepHeader.hopCount.toUInt16 sender rrepHeader.getLifeTime
    let s := s.purge c
    let toDst := (s.find rrepHeader.dst).getD (.unset s.now)
    let s := s.updateForwardRoute c rrepHeader newEntry
    let s ← (if rrepHeader.ackRequired then s.sendReplyAck c sender else .ok s)
    let rrepHeader := { rrepHeader with ackRequired := false }
    if c.isMyOwnAddress rrepHeader.origin then
      .ok (s.replyArrived c rrepHeader.dst (toDst.m_flag = .inSearch) newEntry toDst)
    else s.relayReply c rrepHeader ttl

def recvReplyAck (neighbor : Ipv4Address) : RoutingProtocol :=
  let s := s.purge c
  match s.find neighbor with
  | none => s
  | some rt => s.update { rt with m_flag := .valid }

def recvAodv (message : Message) (ttl : UInt8) (receiver sender : Ipv4Address) :
    Except Fault RoutingProtocol :=
  let s := s.updateRouteToNeighbor c sender receiver
  match message with
  | .rreq rreqHeader => s.recvRequest c rreqHeader ttl receiver sender
  | .rrep rrepHeader => s.recvReply c rrepHeader ttl receiver sender
  | .rerr rerrHeader => s.recvError c rerrHeader sender
  | .rrepAck => .ok (s.recvReplyAck c sender)

def sendHello : RoutingProtocol :=
  c.interfaces.foldl
    (fun (s : RoutingProtocol) (i : Interface) =>
      s.send i.address (broadcastDestination i.address) 1
        (.rrep (.create 0 i.address.m_local s.m_seqNo i.address.m_local
          (c.m_allowedHelloLoss.toNat * c.m_helloInterval)))) s

end RoutingProtocol

inductive Action where
  | deferredRouteOutput (p : Packet) (header : Ipv4Header) (ucb ecb : ℕ)
  /-- The request timer of a destination expires. -/
  | fireTimer (dst : Ipv4Address)
  /-- The `k`-th request that was put off is made. -/
  | fireDeferred (k : ℕ)
  | rreqRateLimitTimerExpire
  | rerrRateLimitTimerExpire
  | recvAodv (message : Message) (ttl : UInt8) (receiver sender : Ipv4Address)
  | sendHello
  /-- The link to a neighbour breaks. -/
  | sendRerrWhenBreaksLinkToNextHop (nextHop : Ipv4Address)
  | wait (now : ℤ)
deriving DecidableEq

def step (c : Config) (s : RoutingProtocol) : Action → Except Fault RoutingProtocol
  | .deferredRouteOutput p header ucb ecb => s.deferredRouteOutput c p header ucb ecb
  | .fireTimer dst => s.fireTimer c dst
  | .fireDeferred k => s.fireDeferred c k
  | .rreqRateLimitTimerExpire => .ok s.rreqRateLimitTimerExpire
  | .rerrRateLimitTimerExpire => .ok s.rerrRateLimitTimerExpire
  | .recvAodv message ttl receiver sender => s.recvAodv c message ttl receiver sender
  | .sendHello => .ok (s.sendHello c)
  | .sendRerrWhenBreaksLinkToNextHop nextHop => s.sendRerrWhenBreaksLinkToNextHop c nextHop
  | .wait now => .ok { s with now }

def loopback : Ipv4InterfaceAddress := ⟨0x7f000001, 0xff000000⟩

/-- The table after `SetIpv4` and `NotifyInterfaceUp` of every interface. -/
def initialTable (c : Config) : List RoutingTableEntry :=
  c.interfaces.foldl
    (fun table i => RoutingTable.insert
      (.create 0 (some i.number) i.address.broadcast true 0 i.address 1 i.address.broadcast
        9223372036854775807) table)
    [.create 0 (some 0) loopback.m_local true 0 loopback 1 loopback.m_local 9223372036854775807]

def RoutingProtocol.initial (c : Config) (maxQueueLen : UInt32) (maxQueueTime : ℤ) :
    RoutingProtocol where
  now := 0
  m_routingTable := initialTable c
  m_queue := ⟨[], maxQueueLen, maxQueueTime, []⟩
  m_requestId := 0
  m_seqNo := 0
  increments := 0
  m_rreqIdCache := []
  m_rreqCount := 0
  m_rerrCount := 0
  m_addressReqTimer := []
  deferred := []
  rreqRateLimitExpires := milliseconds 1000
  sent := []

end Egsr.Aodv
