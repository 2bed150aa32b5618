import Egsr.Lib.Layers
import Egsr.Lib.OrderedMap
import Egsr.Olsr.AdvertisedSet
import Egsr.Olsr.ExternalRoutes
import Egsr.Olsr.MprComputation

/-! The routing table of OLSR: the neighbours first, then those listed in
two-hop tuples, then one layer after the other of what topology tuples lead to. -/

namespace Egsr.Olsr.RoutingTable

open NeighborSensing Lib.Layers
open ExternalRoutes (RoutingTableEntry)

abbrev Table : Type := Lib.OrderedMap Ipv4Address RoutingTableEntry

structure Input where
  config : Config
  now : ℤ
  /-- The addresses of each interface of `m_ipv4`. -/
  interfaces : List (List Ipv4Address)
  linkSet : List LinkTuple
  neighborSet : List NeighborTuple
  twoHopNeighbors : List TwoHopNeighborTuple
  topology : List TopologyTuple

def addEntry (dest next : Ipv4Address) (interface distance : UInt32) (t : Table) : Table :=
  t.set dest ⟨dest, next, interface, distance⟩

def findSymNeighborTuple (mainAddr : Ipv4Address) (neighbors : List NeighborTuple) :
    Option NeighborTuple :=
  neighbors.find? fun it => it.neighborMainAddr = mainAddr && it.status = .sym

structure Linked where
  table : Table
  nb_main_addr : Bool
  lt : Option LinkTuple

def topologyRound (h : UInt32) (v : Table × Bool) (topology_tuple : TopologyTuple) : Table × Bool :=
  match v.1.find? topology_tuple.destAddr, v.1.find? topology_tuple.lastAddr with
  | none, some lastAddrEntry =>
    if lastAddrEntry.distance = h then
      (addEntry topology_tuple.destAddr lastAddrEntry.nextAddr lastAddrEntry.interface (h + 1) v.1,
        true)
    else v
  | _, _ => v

def assocRound (t : Table) (tuple : IfaceAssocTuple) : Table :=
  match t.find? tuple.mainAddr, t.find? tuple.ifaceAddr with
  | some entry1, none => addEntry tuple.ifaceAddr entry1.nextAddr entry1.interface entry1.distance t
  | _, _ => t

namespace Input

variable (s : Input)

/-- `AddEntry` with the address of an interface. Behind the loop over the interfaces stands
`NS_ASSERT (false)`, and then the interface zero. -/
def addEntryVia (dest next interfaceAddress : Ipv4Address) (distance : UInt32) (t : Table) :
    Table :=
  let i := (s.interfaces.findIdx? fun addresses => interfaceAddress ∈ addresses).getD 0
  addEntry dest next (.ofNat i) distance t

def linkRound (nb_tuple : NeighborTuple) (v : Linked) (link_tuple : LinkTuple) : Linked :=
  if s.config.getMainAddress link_tuple.neighborIfaceAddr = nb_tuple.neighborMainAddr ∧
    s.now ≤ link_tuple.time then
    { table := s.addEntryVia link_tuple.neighborIfaceAddr link_tuple.neighborIfaceAddr
        link_tuple.localIfaceAddr 1 v.table
      nb_main_addr := v.nb_main_addr || link_tuple.neighborIfaceAddr = nb_tuple.neighborMainAddr
      lt := some link_tuple }
  else v

def neighborRound (t : Table) (nb_tuple : NeighborTuple) : Table :=
  if nb_tuple.status = .sym then
    let v := s.linkSet.foldl (s.linkRound nb_tuple) ⟨t, false, none⟩
    match v.nb_main_addr, v.lt with
    | false, some lt =>
      s.addEntryVia nb_tuple.neighborMainAddr lt.neighborIfaceAddr lt.localIfaceAddr 1 v.table
    | _, _ => v.table
  else t

def twoHopRound (t : Table) (nb2hop_tuple : TwoHopNeighborTuple) : Table :=
  if (findSymNeighborTuple nb2hop_tuple.twoHopNeighborAddr s.neighborSet).isSome then t
  else if nb2hop_tuple.twoHopNeighborAddr = s.config.m_mainAddress then t
  else
    let nb2hopOk := s.neighborSet.any fun neighbor =>
      neighbor.neighborMainAddr = nb2hop_tuple.neighborMainAddr && neighbor.willingness ≠ willNever
    if !nb2hopOk then t
    else
      match t.find? nb2hop_tuple.neighborMainAddr with
      | some entry => addEntry nb2hop_tuple.twoHopNeighborAddr entry.nextAddr entry.interface 2 t
      | none => t

/-- The loop over `h`; `none` if it has not ended after so many passes. -/
def topologyPasses : ℕ → UInt32 → Table → Option Table
  | 0, _, _ => none
  | fuel + 1, h, t =>
    let (t, added) := s.topology.foldl (topologyRound h) (t, false)
    if !added then some t else topologyPasses fuel (h + 1) t

/-- Without the external routes, which are a table of their own. -/
def routingTableComputation (fuel : ℕ) : Option Table :=
  let t := s.neighborSet.foldl s.neighborRound .empty
  let t := s.twoHopNeighbors.foldl s.twoHopRound t
  (s.topologyPasses fuel 2 t).map fun t => s.config.ifaceAssocSet.foldl assocRound t

end Input

/-- The entry in `outEntry`, if any; no answer if the loop has not ended after so many rounds. -/
def findSendEntry (t : Table) : ℕ → RoutingTableEntry → Option (Option RoutingTableEntry)
  | 0, _ => none
  | fuel + 1, entry =>
    if entry.destAddr = entry.nextAddr then some (some entry)
    else
      match t.find? entry.nextAddr with
      | none => some none
      | some entry => findSendEntry t fuel entry

namespace Input

variable (s : Input)

def NoAssociations : Prop := s.config.ifaceAssocSet = []

def LinkedNeighbor (a : Ipv4Address) : Prop :=
  ∃ nb ∈ s.neighborSet, nb.status = .sym ∧ nb.neighborMainAddr = a ∧
    ∃ l ∈ s.linkSet, l.neighborIfaceAddr = a ∧ s.now ≤ l.time
deriving Decidable

def SymNeighbor (a : Ipv4Address) : Prop :=
  ∃ nb ∈ s.neighborSet, nb.neighborMainAddr = a ∧ nb.status = .sym

def Listed (neighbor a : Ipv4Address) : Prop :=
  (∃ tuple ∈ s.twoHopNeighbors, tuple.neighborMainAddr = neighbor ∧ tuple.twoHopNeighborAddr = a) ∧
    ∃ nb ∈ s.neighborSet, nb.neighborMainAddr = neighbor ∧ nb.willingness ≠ willNever
deriving Decidable

structure TwoHop (neighbor a : Ipv4Address) : Prop where
  listed : s.Listed neighbor a
  notSelf : a ≠ s.config.m_mainAddress
  notSym : ¬s.SymNeighbor a

def Leads (a b : Ipv4Address) : Prop :=
  ∃ tuple ∈ s.topology, tuple.lastAddr = a ∧ tuple.destAddr = b
deriving Decidable

def Onward (a b : Ipv4Address) : Prop := s.Leads a b ∧ ¬s.LinkedNeighbor b

/-- Two-hop tuples hang only on such neighbours. -/
def Hanging : Prop := ∀ tuple ∈ s.twoHopNeighbors, s.LinkedNeighbor tuple.neighborMainAddr
deriving Decidable

abbrev Beyond : ℕ → Ipv4Address → Prop := Layer (fun a => ∃ neighbor, s.TwoHop neighbor a) s.Onward

end Input

end Egsr.Olsr.RoutingTable
