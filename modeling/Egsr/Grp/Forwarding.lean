import Egsr.Grp.State
import Egsr.Grp.HeaderRoundTrip

/-! The data plane of a node: `RouteOutput`, `AddHeader`, `RouteInput`,
`CheckPacketQueue` and `SendFromSQueue`. -/

namespace Egsr.Grp.Forwarding

open Grp.Road Grp.Dijkstra Grp.Header Grp.State Lib.Outcome Network.ByteIterator

def pushHeader (header : DataPacketHeader) (bytes : List UInt8) : Except Fault (List UInt8) :=
  match addHeader (fun _ => 0) header bytes with
  | some bytes => pure bytes
  | none => throw .header

def popHeader (bytes : List UInt8) : Except Fault (DataPacketHeader × List UInt8) :=
  match removeHeader (⟨0, 0, []⟩ : DataPacketHeader) bytes with
  | some p => pure p
  | none => throw .header

def readPath (path : List UInt16) (k : ℕ) : Except Fault ℕ :=
  match path[k]? with
  | some jid => pure jid.toNat
  | none => throw .cursor

section Decisions

variable [Platform] (v : Vehicle)

/-- The edges of the virtual vertex to both ends of the current road. -/
def joinRoad (toCurrent toNext : ℚ) : Except Fault Vehicle := do
  let graph ← v.graph.setBoth mJuncNum v.currentJID toCurrent
  let graph ← graph.setBoth mJuncNum v.nextJID toNext
  pure { v with graph }

/-- The block that `AddHeader`, `RouteOutput`, `RouteInput` and
`CheckPacketQueue` each spell out: the path to the road-side unit, from the
current junction or from a virtual vertex that is joined to the graph and taken
off it again. -/
def pathToRsu : Except Fault (List UInt16 × Vehicle) := do
  let c ← junction v.map v.currentJID
  let n ← junction v.map v.nextJID
  if v.junAreaTag then
    let path ← dijkstraAlgorithm v.graph v.currentJID mRsujid
    pure (path, v)
  else
    let joined ← joinRoad v (distance v.position c.position) (distance v.position n.position)
    let path ← dijkstraAlgorithm joined.graph mJuncNum mRsujid
    let v ← joinRoad joined infinite infinite
    pure (path, v)

def refreshPath (header : DataPacketHeader) : Except Fault (DataPacketHeader × Vehicle) := do
  let (path, v) ← pathToRsu v
  let header := { header with path }
  pure (if path.length ≠ 0 then { header with nextJidIdx := 0 } else header, v)

def receiverIface (nextHop : Ipv4Address) : Except Fault Ipv4Address :=
  match v.neiTable[nextHop]? with
  | some entry => pure entry.receiverIfaceAddr
  | none =>
    match v.pastEnd with
    | some addr => pure addr
    | none => throw .endIterator

variable (dest : Ipv4Address)

def routeOutput : Except Fault (Ipv4Route × Vehicle) := do
  let (path, v) ← pathToRsu v
  match path with
  | [] =>
    let (dstjid, v) ← (if v.junAreaTag then getPacketNextJID v else do
      let jid ← getNearestJID v
      pure ((jid : ℤ), v))
    let nextHop ← intraPathRouting v dest dstjid
    if nextHop = loopback ∨ nextHop = dest ∨ v.junAreaTag then
      pure (⟨dest, v.mainAddress, loopback⟩, v)
    else do
      let receiverIfaceAddr ← receiverIface v nextHop
      pure (⟨dest, receiverIfaceAddr, nextHop⟩, v)
  | jid :: _ =>
    let nextHop ← intraPathRouting v dest jid.toNat
    if nextHop = loopback ∨ nextHop = dest then
      pure (⟨dest, v.mainAddress, loopback⟩, v)
    else do
      let receiverIfaceAddr ← receiverIface v nextHop
      pure (⟨dest, receiverIfaceAddr, nextHop⟩, v)

def matchesBroadcast (destination : Ipv4Address) : Prop := destination &&& 0xffff = 0xffff
deriving Decidable

variable (n : Node)

/-- The down target sends with the default time to live. -/
def addDataHeader (p : Packet) (source destination : Ipv4Address) (route : Ipv4Route) :
    Except Fault Node := do
  let (v, bytes) ← (if matchesBroadcast destination then pure (n.toVehicle, p.bytes) else do
    let (path, v) ← pathToRsu n.toVehicle
    let dheader : DataPacketHeader := match path with
      | [] => { n.staleHeader with path := [] }
      | jid :: _ => ⟨0, jid, path⟩
    let bytes ← pushHeader dheader p.bytes
    pure (v, bytes))
  let sent : Sent := ⟨route, { p with bytes }, ⟨source, destination, 64⟩⟩
  pure { n with toVehicle := v, downTargetCalls := n.downTargetCalls ++ [sent] }

def isMulticast (address : Ipv4Address) : Prop := address &&& 0xf0000000 = 0xe0000000
deriving Decidable

/-- `IsDestinationAddress`, for a node with one address beside the loopback. -/
def isDestinationAddress : Prop :=
  dest = v.mainAddress ∨ dest = v.broadcast ∨ isMulticast dest ∨ dest = 0xffffffff ∨
    dest = loopback
deriving Decidable

def flow (header : Ipv4Header) : Ipv4Address × Ipv4Address := (header.source, header.destination)

/-- The store branch of `RouteInput`: the clock of the flow is started unless it runs. -/
def storePacket (p : Packet) (header : Ipv4Header) (dheader : DataPacketHeader)
    (bytes : List UInt8) : Except Fault Node := do
  let bytes ← pushHeader dheader bytes
  let cache := if n.wTimeCache (flow header) = none then
      Function.update n.wTimeCache (flow header) (some n.now)
    else n.wTimeCache
  pure { n with
    wTimeCache := cache
    pwaitqueue := n.pwaitqueue ++ [⟨{ p with bytes }, header, n.now⟩]
    storePacketTrace := n.storePacketTrace ++ [header] }

/-- The block of `RouteInput` for a node in a junction area: the cursor steps
past the current junction, or the path is planned anew. Gives the header with
its path, the cursor and the junction under it. -/
def junctionStep (dheader : DataPacketHeader) (idx nextjid : ℕ) :
    Except Fault (DataPacketHeader × ℕ × ℕ × Vehicle) := do
  if v.junAreaTag then
    if nextjid = v.currentJID ∧ v.currentJID ≠ mRsujid ∧ idx < dheader.path.length then
      let nextjid ← readPath dheader.path (idx + 1)
      pure (dheader, idx + 1, nextjid, v)
    else
      let (path, v) ← pathToRsu v
      let dheader := { dheader with path }
      match path with
      | [] => pure (dheader, idx, nextjid, v)
      | jid :: _ => pure (dheader, 0, jid.toNat, v)
  else pure (dheader, idx, nextjid, v)

/-- `RouteInput` for a packet that is neither delivered nor out of time, from
the header on. -/
def forwardPacket (p : Packet) (header : Ipv4Header) : Except Fault Node := do
  let dest := header.destination
  let (dheader, bytes) ← popHeader p.bytes
  let (dheader, v) ← (if dheader.path.length = 0 then refreshPath n.toVehicle dheader
    else pure (dheader, n.toVehicle))
  let n := { n with toVehicle := v }
  if dheader.path.length = 0 then
    storePacket n p header { n.staleHeader with path := [] } bytes
  else
    let nextjid ← readPath dheader.path dheader.nextJidIdx.toNat
    let (dheader, idx, nextjid, v) ←
      junctionStep n.toVehicle dheader dheader.nextJidIdx.toNat nextjid
    let n := { n with toVehicle := v }
    if dheader.path.length = 0 then
      storePacket n p header { n.staleHeader with path := [] } bytes
    else
      let nextHop ← intraPathRouting n.toVehicle dest nextjid
      let dheader := { dheader with
        nextJidIdx := .ofNat idx
        nextJid := .ofNat nextjid }
      if nextHop ≠ loopback then
        let receiverIfaceAddr ← receiverIface n.toVehicle nextHop
        let receiverIfaceAddr := if nextHop = dest then n.mainAddress else receiverIfaceAddr
        let bytes ← (if nextHop ≠ dest then pushHeader dheader bytes else pure bytes)
        let sent : Sent := ⟨⟨dest, receiverIfaceAddr, nextHop⟩, { p with bytes }, header⟩
        pure { n with ucbCalls := n.ucbCalls ++ [sent] }
      else storePacket n p header dheader bytes

def routeInput (p : Packet) (header : Ipv4Header) : Except Fault Node :=
  if isDestinationAddress n.toVehicle header.destination then
    pure { n with lcbCalls := n.lcbCalls ++ [(p, header)] }
  else if header.ttl ≤ 1 then
    pure { n with
      dropPacketTrace := n.dropPacketTrace ++ [(p, header)]
      outlived := n.outlived ++ [(p, header)] }
  else forwardPacket { n with accepted := n.accepted ++ [(p, header)] } p header

def expired (header : Ipv4Header) : Prop :=
  ∃ start, n.wTimeCache (flow header) = some start ∧ n.carryTimeThreshold ≤ n.now - start

instance (n : Node) (header : Ipv4Header) : Decidable (expired n header) :=
  match h : n.wTimeCache (flow header) with
  | none => isFalse (by simp [expired, h])
  | some start => decidable_of_iff (n.carryTimeThreshold ≤ n.now - start) (by simp [expired, h])

/-- The cursor step of `CheckPacketQueue`: the junction under the cursor is
passed over in a junction area if the node is there already. -/
def passJunction (path : List UInt16) (idx nextjid : ℕ) : Except Fault (ℕ × ℕ) := do
  if v.junAreaTag ∧ nextjid = v.currentJID ∧ idx < path.length then
    let nextjid ← readPath path (idx + 1)
    pure (idx + 1, nextjid)
  else pure (idx, nextjid)

/-- What `CheckPacketQueue` decides for a packet that stays: its header and its
next hop, the loopback address if it goes on waiting. -/
def replan (dheader : DataPacketHeader) :
    Except Fault (DataPacketHeader × Ipv4Address × Vehicle) := do
  let (dheader, v) ← refreshPath v dheader
  if dheader.path.length = 0 then pure (dheader, loopback, v)
  else
    let nextjid ← readPath dheader.path dheader.nextJidIdx.toNat
    let (idx, nextjid) ← passJunction v dheader.path dheader.nextJidIdx.toNat nextjid
    let nextHop ← intraPathRouting v dest nextjid
    let dheader := { dheader with
      nextJidIdx := .ofNat idx
      nextJid := .ofNat nextjid }
    pure (dheader, nextHop, v)

/-- One round of the loop of `CheckPacketQueue`. The drop trace gets the header
only; the packet is kept with it here. -/
def checkEntry (q : PacketQueueEntry) : Except Fault Node := do
  if expired n q.header then
    pure { n with
      dropPacketTrace := n.dropPacketTrace ++ [(q.packet, q.header)]
      wTimeCache := Function.update n.wTimeCache (flow q.header) none }
  else
    let (dheader, bytes) ← popHeader q.packet.bytes
    let (dheader, nextHop, v) ← replan n.toVehicle q.header.destination dheader
    let bytes ← pushHeader dheader bytes
    let n := { n with toVehicle := v }
    let packet := { q.packet with bytes }
    if nextHop = loopback then
      pure { n with pwaitqueue := n.pwaitqueue ++ [{ q with packet }] }
    else
      pure { n with
        wTimeCache := Function.update n.wTimeCache (flow q.header) none
        squeue := n.squeue ++ [⟨packet, q.header, nextHop⟩] }

/-- `while (m_pqueue.empty() == false)`, taking from the back; no round puts
anything into the queue. -/
def checkLoop : ℕ → Node → Except Fault Node
  | 0, n => pure n
  | rounds + 1, n =>
    match n.pqueue.getLast? with
    | none => pure n
    | some q => do
      let n ← checkEntry { n with pqueue := n.pqueue.dropLast } q
      checkLoop rounds n

def sendFromSQueue : Node :=
  match n.squeue.getLast? with
  | none => n
  | some s =>
    let route : Ipv4Route := ⟨s.header.destination, s.header.source, s.nexthop⟩
    { n with
      squeue := n.squeue.dropLast
      ucbCalls := n.ucbCalls ++ [⟨route, s.packet, s.header⟩]
      sendEvents := n.sendEvents ++ [n.now + 10 / 1000] }

def checkPacketQueue : Except Fault Node := do
  let n := { n with pqueue := n.pwaitqueue, pwaitqueue := [] }
  let n ← checkLoop n.pqueue.length n
  pure (if n.squeue.isEmpty then n else sendFromSQueue n)

end Decisions

end Egsr.Grp.Forwarding
