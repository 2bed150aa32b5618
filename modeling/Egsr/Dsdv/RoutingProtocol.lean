import Mathlib.Algebra.Group.Int.Defs
import Egsr.Dsdv.RoutingTable

/-! The DSDV routing protocol. A node keeps the routes that it forwards over in
`m_routingTable` and the changes that it has not told its neighbours yet in
`m_advRoutingTable`. An update with a new metric waits for the settling event of
its destination, which may happen at any time. -/

namespace Egsr.Dsdv

open List Function

open Lib (OrderedMap)

structure DsdvHeader where
  dst : Ipv4Address
  dstSeqno : ℕ
  hopCount : ℕ
deriving DecidableEq

/-- The headers in the order in which they are taken off. -/
structure Packet where
  source : Ipv4Address
  headers : List DsdvHeader
deriving DecidableEq

structure Config where
  /-- The interfaces that there is a socket for. -/
  m_socketAddresses : List Ipv4InterfaceAddress
  /-- `m_ipv4->GetAddress (1, 0)`. -/
  mainAddress : Ipv4InterfaceAddress
  mainAddress_mem : mainAddress ∈ m_socketAddresses
  m_holddownTime : ℤ

def Config.isLocal (c : Config) (dst : Ipv4Address) : Bool :=
  c.m_socketAddresses.any fun i => dst = i.m_local

def oneInterface (host : Ipv4Address) : Config where
  m_socketAddresses := [⟨host, 0x0a0101ff⟩]
  mainAddress := ⟨host, 0x0a0101ff⟩
  mainAddress_mem := mem_cons_self
  m_holddownTime := 45000000000

structure RoutingProtocol where
  m_routingTable : RoutingTable
  m_advRoutingTable : RoutingTable
  /-- The settling events of `m_advRoutingTable`, and whether they are still to happen. -/
  m_ipv4Events : OrderedMap Ipv4Address Bool
  gateways : Gateways
  /-- How many route objects there are. -/
  created : ℕ

def RoutingTableEntry.create (route seqNo hops : ℕ) (lifetime : ℤ) (areChanged : Bool) :
    RoutingTableEntry where
  m_ipv4Route := route
  m_seqNo := seqNo
  m_hops := hops
  m_lifeTime := lifetime
  m_flag := .valid
  m_entriesChanged := areChanged

def maximumSimulationTime : ℤ := 2 ^ 63 - 1

namespace RoutingProtocol

def headersFor (d : Ipv4Address) (hs : List DsdvHeader) : List ℕ :=
  (hs.filter fun h => h.dst = d).map (·.dstSeqno)

variable (c : Config) (now : ℤ) (sender : Ipv4Address) (h : DsdvHeader) (n : RoutingProtocol)
  (dst : Ipv4Address)

/-- `rt.SetNextHop (nextHop)`, for an entry of the destination. -/
def setNextHop (rt : RoutingTableEntry) (nextHop : Ipv4Address) : RoutingProtocol :=
  { n with gateways := update n.gateways dst (update (n.gateways dst) rt.m_ipv4Route nextHop) }

def createRoute (dst gateway : Ipv4Address) : RoutingProtocol :=
  { n with
    gateways := update n.gateways dst (update (n.gateways dst) n.created gateway)
    created := n.created + 1 }

section Objects

variable {n} {dst gateway : Ipv4Address} {rt : RoutingTableEntry}

@[simp] theorem setNextHop_m_routingTable :
    (n.setNextHop dst rt gateway).m_routingTable = n.m_routingTable := rfl

@[simp] theorem setNextHop_m_advRoutingTable :
    (n.setNextHop dst rt gateway).m_advRoutingTable = n.m_advRoutingTable := rfl

@[simp] theorem createRoute_m_routingTable :
    (n.createRoute dst gateway).m_routingTable = n.m_routingTable := rfl

@[simp] theorem createRoute_m_advRoutingTable :
    (n.createRoute dst gateway).m_advRoutingTable = n.m_advRoutingTable := rfl

theorem setNextHop_gateways : (n.setNextHop dst rt gateway).gateways =
    update n.gateways dst (update (n.gateways dst) rt.m_ipv4Route gateway) := rfl

theorem createRoute_gateways : (n.createRoute dst gateway).gateways =
    update n.gateways dst (update (n.gateways dst) n.created gateway) := rfl

end Objects

def addZeroHopRoute (flag : RouteFlags) : RoutingProtocol :=
  let rt := { RoutingTableEntry.create n.created 0 0 maximumSimulationTime false with
    m_flag := flag }
  { n.createRoute dst dst with m_routingTable := n.m_routingTable.add dst rt }

/-- After `SetIpv4` and `NotifyInterfaceUp` for every interface. -/
def start : RoutingProtocol :=
  c.m_socketAddresses.foldl (fun n iface => n.addZeroHopRoute iface.m_broadcast .valid)
    (addZeroHopRoute ⟨.empty, .empty, .empty, fun _ _ => unsetAddress, 0⟩ loopback .invalid)

def anyRunningEvent : Bool := n.m_ipv4Events.find? dst = some true

def deleteIpv4Event : OrderedMap Ipv4Address Bool :=
  if n.m_ipv4Events.find? dst = some false then n.m_ipv4Events.erase dst else n.m_ipv4Events

/-! ## Receiving updates -/

def newRoute : RoutingProtocol :=
  let newEntry := RoutingTableEntry.create n.created h.dstSeqno h.hopCount now true
  { n.createRoute h.dst sender with
    m_routingTable := n.m_routingTable.add h.dst newEntry
    m_advRoutingTable := n.m_advRoutingTable.add h.dst newEntry }

def updated (rt : RoutingTableEntry) : RoutingTableEntry :=
  { rt with
    m_seqNo := h.dstSeqno
    m_lifeTime := now
    m_flag := .valid
    m_entriesChanged := true
    m_hops := h.hopCount }

variable (advTableEntry : RoutingTableEntry)

/-- The update is used, but advertised only after the settling time. -/
def acceptAndWait : RoutingProtocol :=
  let rt := updated now h advTableEntry
  { n.setNextHop h.dst advTableEntry sender with
    m_ipv4Events := (n.m_ipv4Events.erase h.dst).add h.dst true
    m_routingTable := n.m_routingTable.update h.dst rt
    m_advRoutingTable := n.m_advRoutingTable.update h.dst rt }

def acceptUnchanged : RoutingProtocol :=
  { n.setNextHop h.dst advTableEntry sender with
    m_ipv4Events := n.m_ipv4Events.erase h.dst
    m_advRoutingTable := n.m_advRoutingTable.update h.dst (updated now h advTableEntry) }

def discardSame : RoutingProtocol :=
  if n.anyRunningEvent h.dst then n
  else
    { n with
      m_routingTable :=
        if advTableEntry.getNextHop n.gateways h.dst = sender then
          n.m_routingTable.update h.dst { advTableEntry with m_lifeTime := now }
        else n.m_routingTable
      m_advRoutingTable := n.m_advRoutingTable.erase h.dst }

def discard : RoutingProtocol :=
  if n.anyRunningEvent dst then n else { n with m_advRoutingTable := n.m_advRoutingTable.erase dst }

/-- A route over a destination that is out of reach is out of reach, too. -/
def loseRoute (e : Ipv4Address × RoutingTableEntry) : RoutingProtocol :=
  { n with
    m_advRoutingTable :=
      n.m_advRoutingTable.add e.1 { e.2 with m_seqNo := e.2.m_seqNo + 1, m_entriesChanged := true }
    m_routingTable := n.m_routingTable.erase e.1 }

def loseDestination : RoutingProtocol :=
  let dstsWithNextHopSrc := n.m_routingTable.getListOfDestinationWithNextHop n.gateways h.dst
  dstsWithNextHopSrc.entries.foldl loseRoute
    { n with
      m_routingTable := n.m_routingTable.erase h.dst
      m_advRoutingTable := n.m_advRoutingTable.update h.dst
        { advTableEntry with m_seqNo := h.dstSeqno, m_entriesChanged := true } }

def recvUpdate : RoutingProtocol :=
  if h.dstSeqno % 2 ≠ 1 then
    if h.dstSeqno > advTableEntry.m_seqNo then
      if h.hopCount ≠ advTableEntry.m_hops then n.acceptAndWait now sender h advTableEntry
      else n.acceptUnchanged now sender h advTableEntry
    else if h.dstSeqno = advTableEntry.m_seqNo then
      if h.hopCount < advTableEntry.m_hops then n.acceptAndWait now sender h advTableEntry
      else n.discardSame now sender h advTableEntry
    else n.discard h.dst
  else if sender = advTableEntry.getNextHop n.gateways h.dst then n.loseDestination h advTableEntry
  else n.discard h.dst

/-- What is advertised for the destination, or what would be. -/
def advEntry (fwdTableEntry : RoutingTableEntry) : RoutingTableEntry :=
  (n.m_advRoutingTable.find? dst).getD fwdTableEntry

def recvHeader : RoutingProtocol :=
  if c.isLocal h.dst then n
  else
    match n.m_routingTable.find? h.dst with
    | none => if h.dstSeqno % 2 ≠ 1 then n.newRoute now sender h else n
    | some fwdTableEntry =>
      recvUpdate now sender h { n with
        m_advRoutingTable := n.m_advRoutingTable.add h.dst fwdTableEntry }
        (n.advEntry h.dst fwdTableEntry)

def recvDsdv (packet : Packet) : RoutingProtocol :=
  packet.headers.foldl (fun n h => n.recvHeader c now packet.source h) n

def EveryHeader (P : RoutingProtocol → DsdvHeader → Prop) : RoutingProtocol → List DsdvHeader → Prop
  | _, [] => True
  | n, h :: hs => P n h ∧ EveryHeader P (n.recvHeader c now sender h) hs

instance decidableEveryHeader (P : RoutingProtocol → DsdvHeader → Prop) [∀ n h, Decidable (P n h)] :
    ∀ (n : RoutingProtocol) (hs : List DsdvHeader), Decidable (EveryHeader c now sender P n hs)
  | _, [] => isTrue trivial
  | n, h :: hs =>
    haveI := decidableEveryHeader P (n.recvHeader c now sender h) hs
    instDecidableAnd

/-! ## Sending updates -/

/-- An advertised route that waits for no event goes into the packet and out of the table. -/
def triggerRoute (s : RoutingProtocol × List DsdvHeader) (e : Ipv4Address × RoutingTableEntry) :
    RoutingProtocol × List DsdvHeader :=
  if e.2.m_entriesChanged ∧ !s.1.anyRunningEvent e.1 then
    ({ s.1 with
        m_ipv4Events := s.1.deleteIpv4Event e.1
        m_routingTable :=
          if e.2.m_seqNo % 2 = 0 then
            s.1.m_routingTable.update e.1 { e.2 with m_flag := .valid, m_entriesChanged := false }
          else s.1.m_routingTable
        m_advRoutingTable := s.1.m_advRoutingTable.erase e.1 },
      ⟨e.1, e.2.m_seqNo, e.2.m_hops + 1⟩ :: s.2)
  else s

def ownNumbers : ℕ × ℕ :=
  match n.m_routingTable.find? c.mainAddress.m_broadcast with
  | some rt => (rt.m_seqNo, rt.m_hops)
  | none => (0, 0)

def triggerOver (allRoutes : List (Ipv4Address × RoutingTableEntry))
    (s : RoutingProtocol × List Packet)
    (iface : Ipv4InterfaceAddress) : RoutingProtocol × List Packet :=
  let r := allRoutes.foldl triggerRoute (s.1, [])
  if r.2 = [] then (r.1, s.2)
  else
    let own := r.1.ownNumbers c
    (r.1, s.2 ++ [⟨iface.m_local, ⟨c.mainAddress.m_local, own.1, own.2 + 1⟩ :: r.2⟩])

def sendTriggeredUpdate : RoutingProtocol × List Packet :=
  c.m_socketAddresses.foldl (triggerOver c n.m_advRoutingTable.getListOfAllRoutes) (n, [])

def mergeRoute (n : RoutingProtocol) (e : Ipv4Address × RoutingTableEntry) : RoutingProtocol :=
  if e.2.m_entriesChanged ∧ !n.anyRunningEvent e.1 then
    { n with
      m_routingTable :=
        if e.2.m_seqNo % 2 = 0 then
          n.m_routingTable.update e.1 { e.2 with m_flag := .valid, m_entriesChanged := false }
        else n.m_routingTable
      m_advRoutingTable := n.m_advRoutingTable.erase e.1 }
  else n

def mergeTriggerPeriodicUpdates : RoutingProtocol :=
  n.m_advRoutingTable.getListOfAllRoutes.foldl mergeRoute n

/-- The entry is looked up into a new one, so that it is the new one when there is none. -/
def setOwnSeqNo (seqNo : ℕ) : RoutingProtocol :=
  let created := n.createRoute unsetAddress unsetAddress
  match n.m_routingTable.find? c.mainAddress.m_broadcast with
  | some ownEntry =>
    { created with
      m_routingTable :=
        n.m_routingTable.update c.mainAddress.m_broadcast { ownEntry with m_seqNo := seqNo } }
  | none =>
    { created with
      m_routingTable := n.m_routingTable.update unsetAddress (.create n.created seqNo 0 now false) }

def periodicRoute (s : RoutingProtocol × List DsdvHeader) (e : Ipv4Address × RoutingTableEntry) :
    RoutingProtocol × List DsdvHeader :=
  if e.2.m_hops = 0 then
    (s.1.setOwnSeqNo c now (e.2.m_seqNo + 2),
      ⟨c.mainAddress.m_local, e.2.m_seqNo + 2, e.2.m_hops + 1⟩ :: s.2)
  else (s.1, ⟨e.1, e.2.m_seqNo, e.2.m_hops + 1⟩ :: s.2)

def removedHeader (e : Ipv4Address × RoutingTableEntry) : DsdvHeader :=
  ⟨e.1, e.2.m_seqNo + 1, e.2.m_hops + 1⟩

def periodicOver (allRoutes removedAddresses : List (Ipv4Address × RoutingTableEntry))
    (s : RoutingProtocol × List Packet) (iface : Ipv4InterfaceAddress) :
      RoutingProtocol × List Packet :=
  let r := allRoutes.foldl (periodicRoute c now) (s.1, [])
  (r.1, s.2 ++ [⟨iface.m_local, (removedAddresses.map removedHeader).reverse ++ r.2⟩])

def sendPeriodicUpdate : RoutingProtocol × List Packet :=
  let tables := n.m_routingTable.purge n.gateways now c.m_holddownTime
  let n := mergeTriggerPeriodicUpdates { n with m_routingTable := tables.1 }
  let allRoutes := n.m_routingTable.getListOfAllRoutes
  if allRoutes = [] then (n, [])
  else c.m_socketAddresses.foldl (periodicOver c now allRoutes tables.2.entries) (n, [])

inductive Event where
  | recvDsdv (packet : Packet)
  | sendTriggeredUpdate
  | sendPeriodicUpdate
  /-- The settling event of a destination. -/
  | settled (dst : Ipv4Address)
deriving DecidableEq

def perform : Event → RoutingProtocol × List Packet
  | .recvDsdv packet => (n.recvDsdv c now packet, [])
  | .sendTriggeredUpdate => n.sendTriggeredUpdate c
  | .sendPeriodicUpdate => n.sendPeriodicUpdate c now
  | .settled dst =>
    if n.anyRunningEvent dst then
      sendTriggeredUpdate c { n with m_ipv4Events := n.m_ipv4Events.set dst false }
    else (n, [])

def HasOwnEntry : Prop := (n.m_routingTable.find? c.mainAddress.m_broadcast).isSome

variable {c now n} {d : Ipv4Address}

theorem fwd_setOwnSeqNo (own : n.HasOwnEntry c) (seqNo : ℕ) :
    (n.setOwnSeqNo c now seqNo).m_routingTable.find? d = if d = c.mainAddress.m_broadcast then
      (n.m_routingTable.find? d).map fun rt => { rt with m_seqNo := seqNo }
        else n.m_routingTable.find? d := by
  obtain ⟨rt, hrt⟩ := Option.isSome_iff_exists.mp own
  rw [setOwnSeqNo, hrt, OrderedMap.find?_update, hrt]
  split_ifs with hd
  · rw [hd, hrt]
    rfl
  · rfl

theorem adv_setOwnSeqNo (seqNo : ℕ) :
    (n.setOwnSeqNo c now seqNo).m_advRoutingTable = n.m_advRoutingTable := by
  rw [setOwnSeqNo]
  split <;> rfl

theorem start_hasOwnEntry (c : Config) : (start c).HasOwnEntry c := by
  rw [HasOwnEntry, start]
  obtain ⟨before, after, split⟩ := append_of_mem c.mainAddress_mem
  rw [split, foldl_append, foldl_cons]
  refine foldlRecOn
    (motive := fun n : RoutingProtocol => (n.m_routingTable.find? c.mainAddress.m_broadcast).isSome)
      _ _ ?_
    fun n hn iface hi => ?_
  · rw [addZeroHopRoute, OrderedMap.isSome_find?_add, decide_eq_true rfl, Bool.true_or]
  · rw [addZeroHopRoute, OrderedMap.isSome_find?_add, hn, Bool.or_true]

end RoutingProtocol

end Egsr.Dsdv
