import Egsr.Lib.Outcome

/-! The routing table of RIP: routes with the one event of each, which is a
timeout or a deletion, and what responses of neighbours, interfaces and events
do to it. Routes are identified by their pointer, which is never used again. -/

namespace Egsr.Internet.RipProtocol

open Lib

inductive Fault where
  /-- `NS_ABORT_MSG`: the route to update or to delete is not in the table. -/
  | abort
  /-- An iterator that is not in the list is dereferenced. -/
  | badIterator
  /-- There is no such event. -/
  | noEvent
deriving DecidableEq

inductive Scope where
  | host
  | link
  | global
deriving DecidableEq

structure Ipv4InterfaceAddress where
  m_local : UInt32
  m_mask : UInt32
  m_scope : Scope
deriving DecidableEq

def Ipv4InterfaceAddress.network (a : Ipv4InterfaceAddress) : UInt32 := a.m_local &&& a.m_mask

inductive SplitHorizonType where
  | noSplitHorizon
  | splitHorizon
  | poisonReverse
deriving DecidableEq

/-- The attributes, and what `m_ipv4` says about the interfaces. -/
structure Config where
  nInterfaces : ℕ
  m_linkDown : UInt32
  m_timeoutDelay : ℕ
  m_garbageCollectionDelay : ℕ
  m_splitHorizonStrategy : SplitHorizonType
  m_interfaceExclusions : List ℕ
  m_interfaceMetrics : ℕ → Option UInt8
  addresses : ℕ → List Ipv4InterfaceAddress
  isLoopback : ℕ → Bool
  mtu : ℕ → UInt16

/-! ## Entries -/

inductive Status where
  /-- `RIP_VALID`. -/
  | valid
  /-- `RIP_INVALID`. -/
  | invalid
deriving DecidableEq

structure RipRoutingTableEntry where
  m_destNetwork : UInt32
  m_destNetworkMask : UInt32
  m_gateway : UInt32
  m_interface : ℕ
  m_tag : UInt16
  m_metric : UInt8
  m_status : Status
  m_changed : Bool
deriving DecidableEq

namespace RipRoutingTableEntry

/-- The constructor; the one without a next hop has the gateway `0.0.0.0`. -/
def create (network networkPrefix nextHop : UInt32) (interface : ℕ) : RipRoutingTableEntry :=
  ⟨network, networkPrefix, nextHop, interface, 0, 0, .invalid, false⟩

variable (e : RipRoutingTableEntry)

def setRouteMetric (routeMetric : UInt8) : RipRoutingTableEntry :=
  if e.m_metric ≠ routeMetric then { e with m_metric := routeMetric, m_changed := true } else e

def setRouteStatus (status : Status) : RipRoutingTableEntry :=
  if e.m_status ≠ status then { e with m_status := status, m_changed := true } else e

def setRouteTag (routeTag : UInt16) : RipRoutingTableEntry :=
  if e.m_tag ≠ routeTag then { e with m_tag := routeTag, m_changed := true } else e

def setRouteChanged (changed : Bool) : RipRoutingTableEntry := { e with m_changed := changed }

def key : UInt32 × UInt32 := (e.m_destNetwork, e.m_destNetworkMask)

end RipRoutingTableEntry

/-- `EventId`: none, or the number of an event. -/
abbrev EventId := Option ℕ

inductive Handler where
  | invalidateRoute
  | deleteRoute
deriving DecidableEq

structure Event where
  uid : ℕ
  ts : ℕ
  handler : Handler
  route : ℕ
deriving DecidableEq

structure Route where
  /-- The pointer. -/
  route : ℕ
  entry : RipRoutingTableEntry
  event : EventId
  /-- Whether a message of a neighbour made or changed the entry. -/
  learned : Bool
  /-- When the entry became invalid last. -/
  invalidSince : ℕ
deriving DecidableEq

structure Rip where
  m_routes : List Route
  /-- The address that a socket is bound to, and its interface. -/
  m_sendSocketList : List (UInt32 × ℕ)
  m_initialized : Bool
  /-- Whether `m_nextTriggeredUpdate` is running. -/
  m_nextTriggeredUpdate : Bool
  /-- `Simulator::Now ()`. -/
  now : ℕ
  pending : List Event
  nextUid : ℕ
  nextRoute : ℕ
deriving DecidableEq

def Rip.initial : Rip := ⟨[], [], false, false, 0, [], 0, 0⟩

namespace Rip

variable (c : Config) (s : Rip) (id : EventId)

def find : Option Event := s.pending.find? fun e => id = some e.uid

def isRunning : Bool := (s.find id).isSome

def getDelayLeft : ℕ :=
  match s.find id with
  | none => 0
  | some e => e.ts - s.now

def cancel : Rip :=
  { s with pending := s.pending.filter fun e => decide (id ≠ some e.uid) }

/-- `Simulator::Schedule` for the event of the `k`-th route, which is `it`. -/
def schedule (k : ℕ) (it : Route) (delay : ℕ) (handler : Handler) : Rip :=
  { s with
    m_routes := s.m_routes.set k { it with event := some s.nextUid }
    pending := s.pending ++ [⟨s.nextUid, s.now + delay, handler, it.route⟩]
    nextUid := s.nextUid + 1 }

def addNetworkRouteTo (network networkPrefix : UInt32) (interface : ℕ) : Rip :=
  let route := (((RipRoutingTableEntry.create network networkPrefix 0 interface).setRouteMetric
    1).setRouteStatus .valid).setRouteChanged true
  { s with
    m_routes := s.m_routes ++ [⟨s.nextRoute, route, none, false, 0⟩]
    nextRoute := s.nextRoute + 1 }

def invalidateRoute (route : ℕ) : Except Fault Rip :=
  match s.m_routes.findIdx? fun it => it.route = route with
  | none => .error .abort
  | some k =>
    match s.m_routes[k]? with
    | none => .error .badIterator
    | some it =>
      let since := if it.entry.m_status = .valid then s.now else it.invalidSince
      let entry := ((it.entry.setRouteStatus .invalid).setRouteMetric
        c.m_linkDown.toUInt8).setRouteChanged true
      let s := if s.isRunning it.event then s.cancel it.event else s
      .ok (s.schedule k { it with entry, invalidSince := since } c.m_garbageCollectionDelay
        .deleteRoute)

def deleteRoute (route : ℕ) : Except Fault Rip :=
  match s.m_routes.findIdx? fun it => it.route = route with
  | none => .error .abort
  | some k => .ok { s with m_routes := s.m_routes.eraseIdx k }

/-- The random delay is that of the event which is not modelled. -/
def sendTriggeredRouteUpdate : Rip := { s with m_nextTriggeredUpdate := true }

def notifyInterfaceUp (i : ℕ) : Rip :=
  if c.isLoopback i then s
  else
    let s := (c.addresses i).foldl
      (fun s address =>
        if address.m_scope = .global then s.addNetworkRouteTo address.network address.m_mask i
        else s) s
    if !s.m_initialized then s
    else
      let sendSocketFound := s.m_sendSocketList.any fun iter => iter.2 = i
      let activeInterface := i ∉ c.m_interfaceExclusions
      (c.addresses i).foldl
        (fun s address =>
          let s :=
            if address.m_scope ≠ .host ∧ !sendSocketFound ∧ activeInterface then
              { s with m_sendSocketList := s.m_sendSocketList ++ [(address.m_local, i)] }
            else s
          if address.m_scope = .global then s.sendTriggeredRouteUpdate else s) s

def invalidateInterface (interface : ℕ) : (ks : List ℕ) → (s : Rip) → Except Fault Rip
  | [], s => .ok s
  | k :: ks, s =>
    match s.m_routes[k]? with
    | none => .error .badIterator
    | some it =>
      if it.entry.m_interface = interface then do
        let s ← s.invalidateRoute c it.route
        invalidateInterface interface ks s
      else invalidateInterface interface ks s

def notifyInterfaceDown (interface : ℕ) : Except Fault Rip := do
  let s ← invalidateInterface c interface (List.range s.m_routes.length) s
  let s := { s with m_sendSocketList := s.m_sendSocketList.eraseP fun iter => iter.2 = interface }
  .ok (if interface ∉ c.m_interfaceExclusions then s.sendTriggeredRouteUpdate else s)

/-! ## HandleResponses -/

end Rip

structure RipRte where
  m_prefix : UInt32
  m_subnetMask : UInt32
  m_tag : UInt16
  m_metric : UInt32
deriving DecidableEq

namespace RipRte

def network (rte : RipRte) : UInt32 := rte.m_prefix &&& rte.m_subnetMask

def key (rte : RipRte) : UInt32 × UInt32 := (rte.network, rte.m_subnetMask)

/-- `IsLocalhost`, `IsBroadcast` and `IsMulticast` of the prefix, and the metric. -/
def malformed (linkDown : UInt32) (rte : RipRte) : Bool :=
  rte.m_metric = 0 || rte.m_metric > linkDown || rte.m_prefix = 0x7f000001 ||
    rte.m_prefix = 0xffffffff || (0xe0000000 ≤ rte.m_prefix && rte.m_prefix ≤ 0xefffffff)

end RipRte

structure Response where
  rtes : List RipRte
  senderAddress : UInt32
  incomingInterface : ℕ
deriving DecidableEq

def Config.interfaceMetric (c : Config) (interface : ℕ) : UInt32 :=
  match c.m_interfaceMetrics interface with
  | some metric => metric.toUInt32
  | none => 1

def Config.rteMetric (c : Config) (incomingInterface : ℕ) (rte : RipRte) : UInt32 :=
  let rteMetric := rte.m_metric + c.interfaceMetric incomingInterface
  if rteMetric > c.m_linkDown then c.m_linkDown else rteMetric

namespace Rip

variable (c : Config)

def renewed (e : RipRoutingTableEntry) (rteMetric : UInt32) (tag : UInt16) : RipRoutingTableEntry :=
  (((e.setRouteMetric rteMetric.toUInt8).setRouteStatus .valid).setRouteTag
    tag).setRouteChanged true

/-- A round of the loop over the routes; the flags are `found` and `changed`. -/
def responseRound (m : Response) (rte : RipRte) (k : ℕ) (s : Rip) (found changed : Bool) :
    Except Fault (Rip × Bool × Bool) :=
  let rteMetric := c.rteMetric m.incomingInterface rte
  match s.m_routes[k]? with
  | none => .error .badIterator
  | some it =>
    if it.entry.m_destNetwork = rte.network ∧ it.entry.m_destNetworkMask = rte.m_subnetMask then
      let metric := it.entry.m_metric.toUInt32
      let route := RipRoutingTableEntry.create rte.network rte.m_subnetMask m.senderAddress
        m.incomingInterface
      -- the new route takes the place of the old one
      let replaced : Route :=
        { it with route := s.nextRoute, entry := renewed route rteMetric rte.m_tag }
      let updated : Route := { it with entry := renewed it.entry rteMetric rte.m_tag }
      if rteMetric < metric then
        if m.senderAddress ≠ it.entry.m_gateway then
          .ok (({ s with nextRoute := s.nextRoute + 1 }.cancel it.event).schedule k
            { replaced with learned := true } c.m_timeoutDelay .invalidateRoute, true, true)
        else
          .ok ((s.cancel it.event).schedule k { updated with learned := true } c.m_timeoutDelay
            .invalidateRoute, true, true)
      else if rteMetric = metric then
        if m.senderAddress = it.entry.m_gateway then
          .ok ((s.cancel it.event).schedule k { it with learned := true } c.m_timeoutDelay
            .invalidateRoute, true, changed)
        else if s.getDelayLeft it.event < c.m_timeoutDelay / 2 then
          .ok (({ s with nextRoute := s.nextRoute + 1 }.cancel it.event).schedule k
            { replaced with learned := true } c.m_timeoutDelay .invalidateRoute, true, true)
        else .ok (s, true, changed)
      else if m.senderAddress = it.entry.m_gateway then
        if rteMetric < c.m_linkDown then
          .ok ((s.cancel it.event).schedule k { updated with learned := true } c.m_timeoutDelay
            .invalidateRoute, true, true)
        else do
          let s ← (s.cancel it.event).invalidateRoute c it.route
          .ok (s, true, true)
      else .ok (s, true, changed)
    else .ok (s, found, changed)

def responseLoop (m : Response) (rte : RipRte) :
    (ks : List ℕ) → (s : Rip) → (found changed : Bool) → Except Fault (Rip × Bool × Bool)
  | [], s, found, changed => .ok (s, found, changed)
  | k :: ks, s, found, changed => do
    let (s, found, changed) ← responseRound c m rte k s found changed
    responseLoop m rte ks s found changed

def addRoute (s : Rip) (m : Response) (rte : RipRte) : Rip :=
  let route := (((RipRoutingTableEntry.create rte.network rte.m_subnetMask m.senderAddress
    m.incomingInterface).setRouteMetric
      (c.rteMetric m.incomingInterface rte).toUInt8).setRouteStatus .valid).setRouteChanged true
  let it : Route := ⟨s.nextRoute, route, none, true, 0⟩
  { s with m_routes := it :: s.m_routes, nextRoute := s.nextRoute + 1 }.schedule 0 it
    c.m_timeoutDelay .invalidateRoute

def handleRte (m : Response) (rte : RipRte) (s : Rip) (changed : Bool) :
    Except Fault (Rip × Bool) := do
  let (s, found, changed) ← responseLoop c m rte (List.range s.m_routes.length) s false changed
  if !found ∧ c.rteMetric m.incomingInterface rte ≠ c.m_linkDown then .ok (addRoute c s m rte, true)
  else .ok (s, changed)

def handleRtes (m : Response) : (rtes : List RipRte) → (s : Rip) → (changed : Bool) →
    Except Fault (Rip × Bool)
  | [], s, changed => .ok (s, changed)
  | rte :: rtes, s, changed => do
    let (s, changed) ← handleRte c m rte s changed
    handleRtes m rtes s changed

def handleResponses (m : Response) (s : Rip) : Except Fault Rip :=
  if m.incomingInterface ∈ c.m_interfaceExclusions then .ok s
  else if m.rtes.any fun rte => rte.malformed c.m_linkDown then .ok s
  else do
    let (s, changed) ← handleRtes c m m.rtes s false
    .ok (if changed then s.sendTriggeredRouteUpdate else s)

/-- `maxRte`: IP, UDP and RIP headers have 32 bytes, an entry has 20. -/
def maxRte (interface : ℕ) : UInt16 := (((c.mtu interface).toUInt32 - 20 - 8 - 4) / 20).toUInt16

/-- The entry that is sent for a route; `GetScope` of its destination is always `GLOBAL`. -/
def rteOf (interface : ℕ) (periodic : Bool) (e : RipRoutingTableEntry) : Option RipRte :=
  let splitHorizoning := decide (e.m_interface = interface)
  let sameNetwork := (c.addresses interface).any fun addr => addr.network = e.m_destNetwork
  if (periodic ∨ e.m_changed) ∧ !sameNetwork then
    let rte : RipRte :=
      { m_prefix := e.m_destNetwork
        m_subnetMask := e.m_destNetworkMask
        m_tag := e.m_tag
        m_metric :=
          if c.m_splitHorizonStrategy = .poisonReverse ∧ splitHorizoning then c.m_linkDown
          else e.m_metric.toUInt32 }
    if c.m_splitHorizonStrategy = .splitHorizon ∧ !splitHorizoning then some rte
    else if c.m_splitHorizonStrategy ≠ .splitHorizon then some rte
    else none
  else none

def packets (interface : ℕ) (periodic : Bool) :
    (hdr : List RipRte) → List Route → List (List RipRte)
  | hdr, [] => if hdr.length > 0 then [hdr] else []
  | hdr, it :: rest =>
    let hdr := hdr ++ (rteOf c interface periodic it.entry).toList
    if UInt16.ofNat hdr.length = maxRte c interface then hdr :: packets interface periodic [] rest
    else packets interface periodic hdr rest

def doSendRouteUpdate (periodic : Bool) (s : Rip) : List (UInt32 × ℕ × List RipRte) × Rip :=
  ((s.m_sendSocketList.filter fun iter => iter.2 ∉ c.m_interfaceExclusions).flatMap fun iter =>
      (packets c iter.2 periodic [] s.m_routes).map fun hdr => (iter.1, iter.2, hdr),
    { s with
      m_routes := s.m_routes.map fun it => { it with entry := it.entry.setRouteChanged false } })

def triggeredRouteUpdate (s : Rip) : List (UInt32 × ℕ × List RipRte) × Rip :=
  doSendRouteUpdate c false { s with m_nextTriggeredUpdate := false }

def sendUnsolicitedRouteUpdate (s : Rip) : List (UInt32 × ℕ × List RipRte) × Rip :=
  doSendRouteUpdate c true { s with m_nextTriggeredUpdate := false }

def doInitialize (s : Rip) : Rip :=
  { s with
    m_initialized := true
    m_sendSocketList := s.m_sendSocketList ++
      (List.range c.nInterfaces).flatMap fun i =>
        if c.isLoopback i ∨ i ∈ c.m_interfaceExclusions then []
        else ((c.addresses i).filter fun address => address.m_scope ≠ .host).map fun address =>
          (address.m_local, i) }

end Rip

end Egsr.Internet.RipProtocol
