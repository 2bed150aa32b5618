import Egsr.Grp.QueueCheck

/-! Nodes that pass data packets to one another. A packet sent is addressed by
its gateway; the network may deliver it late, again or never. Of every packet
it is kept what `AddHeader` was given. -/

namespace Egsr.Grp.Network

open Grp.Road Grp.State Grp.Forwarding Grp.SourceRoute Grp.DataPlane
open Grp.HeaderRoundTrip Grp.QueueCheck Lib.Outcome Lib.Run Network.ByteIterator

/-! ## Steps -/

/-- `given` holds the destination and the bytes of the packets sent so far; the
place in it is the identifier of the packet. -/
structure Net where
  node : Ipv4Address → Node
  given : List (Ipv4Address × List UInt8)

inductive NetAction where
  | observe (a : Ipv4Address) (v : Vehicle)
  | originate (a dest : Ipv4Address) (bytes : List UInt8)
  /-- What went down at `a` arrives, at `a` itself through the loopback device. -/
  | launch (a : Ipv4Address) (s : Sent)
  /-- What `a` passed on arrives, with a shorter time to live. -/
  | relay (a : Ipv4Address) (s : Sent)
  | checkPacketQueue (a : Ipv4Address)
  | sendFromSQueue (a : Ipv4Address) (k : ℕ)

section Decisions

variable [Platform]

def Net.act (net : Net) (a : Ipv4Address) (act : NodeAction) : Except Fault Net := do
  let n ← nodeStep (net.node a) act
  pure { net with node := Function.update net.node a n }

def netStep (net : Net) : NetAction → Except Fault Net
  | .observe a v => net.act a (.observe v)
  | .originate a dest bytes => do
    let net' ← net.act a (.originate dest ⟨net.given.length, bytes⟩)
    pure { net' with given := net'.given ++ [(dest, bytes)] }
  | .launch a s =>
    if s ∈ (net.node a).downTargetCalls then
      net.act (if s.route.gateway = loopback then a else s.route.gateway)
        (.routeInput s.packet s.header)
    else pure net
  | .relay a s =>
    if s ∈ (net.node a).ucbCalls then
      net.act s.route.gateway (.routeInput s.packet { s.header with ttl := s.header.ttl - 1 })
    else pure net
  | .checkPacketQueue a => net.act a .checkPacketQueue
  | .sendFromSQueue a k => net.act a (.sendFromSQueue k)

end Decisions

/-- An address that is one node's own and no broadcast by any node's or the
header's measure. -/
structure Unicast (net : Net) (dest : Ipv4Address) : Prop where
  notBroadcast : ¬ matchesBroadcast dest
  notMulticast : ¬ isMulticast dest
  notLoopback : dest ≠ loopback
  notSubnet : ∀ a, dest ≠ (net.node a).broadcast

structure NetStarted (net : Net) : Prop where
  address : ∀ a, (net.node a).mainAddress = a
  pwaitqueue : ∀ a, (net.node a).pwaitqueue = []
  squeue : ∀ a, (net.node a).squeue = []
  ucbCalls : ∀ a, (net.node a).ucbCalls = []
  downTargetCalls : ∀ a, (net.node a).downTargetCalls = []
  lcbCalls : ∀ a, (net.node a).lcbCalls = []
  given : net.given = []

/-- Nodes under their addresses that all stand where this vehicle does. -/
def gathered (v : Vehicle) : Net := ⟨fun a => emptyNode { v with mainAddress := a }, []⟩

theorem gathered_started (v : Vehicle) : NetStarted (gathered v) :=
  ⟨fun _ => rfl, fun _ => rfl, fun _ => rfl, fun _ => rfl, fun _ => rfl, fun _ => rfl, rfl⟩

theorem gathered_unicast {v : Vehicle} {dest : Ipv4Address} (notBroadcast : ¬ matchesBroadcast dest)
    (notMulticast : ¬ isMulticast dest) (notLoopback : dest ≠ loopback)
    (notSubnet : dest ≠ v.broadcast) : Unicast (gathered v) dest :=
  ⟨notBroadcast, notMulticast, notLoopback, fun _ => notSubnet⟩

/-- The bytes `AddHeader` was given for this destination, and nothing else. -/
def Whole (given : List (Ipv4Address × List UInt8)) (p : Packet) (dest : Ipv4Address) : Prop :=
  given[p.uid]? = some (dest, p.bytes)

def Wrapped (given : List (Ipv4Address × List UInt8)) (p : Packet) (dest : Ipv4Address) : Prop :=
  ∃ h payload, HeaderOk h ∧ p.bytes = dataBytes h ++ payload ∧
    given[p.uid]? = some (dest, payload)

variable {given : List (Ipv4Address × List UInt8)} {p : Packet} {dest : Ipv4Address}

theorem Whole.append (h : Whole given p dest) (more : List (Ipv4Address × List UInt8)) :
    Whole (given ++ more) p dest := by
  have hlt := (List.getElem?_eq_some_iff.mp h).1
  rw [Whole, List.getElem?_append_left hlt]
  exact h

theorem Wrapped.append (h : Wrapped given p dest) (more : List (Ipv4Address × List UInt8)) :
    Wrapped (given ++ more) p dest := by
  obtain ⟨header, payload, hok, hbytes, hgiven⟩ := h
  refine ⟨header, payload, hok, hbytes, ?_⟩
  rw [List.getElem?_append_left (List.getElem?_eq_some_iff.mp hgiven).1]
  exact hgiven

theorem Wrapped.readsOk [Platform] (h : Wrapped given p dest) : ReadsOk p.bytes := by
  obtain ⟨header, payload, hok, hbytes, -⟩ := h
  intro d rest hpop
  rw [hbytes, popHeader_push hok.short] at hpop
  cases hpop
  exact hok

theorem Wrapped.pop (h : Wrapped given p dest) {d : Header.DataPacketHeader} {payload : List UInt8}
    (hpop : popHeader p.bytes = .ok (d, payload)) : given[p.uid]? = some (dest, payload) := by
  obtain ⟨header, rest, hok, hbytes, hgiven⟩ := h
  rw [hbytes, popHeader_push hok.short] at hpop
  cases hpop
  exact hgiven

theorem Wrapped.mem (h : Wrapped given p dest) : ∃ bytes, (dest, bytes) ∈ given := by
  obtain ⟨header, payload, -, -, hgiven⟩ := h
  exact ⟨payload, List.mem_of_getElem? hgiven⟩

end Egsr.Grp.Network
