import Mathlib.Data.Int.Order.Basic
import Egsr.Lib.OrderedMap

/-! The routing tables of DSDV. A table is a map from destinations to entries.
An entry points to a route object, which holds the next hop; copies of an entry
share the object, in whatever table they are. Sequence numbers and hop counts
do not wrap. Times are in nanoseconds. -/

namespace Egsr.Dsdv

open Lib (OrderedMap)

abbrev Ipv4Address := UInt32

def loopback : Ipv4Address := 0x7f000001

def unsetAddress : Ipv4Address := 0x66666666

structure Ipv4InterfaceAddress where
  m_local : Ipv4Address
  m_broadcast : Ipv4Address
deriving DecidableEq

inductive RouteFlags where
  | valid
  | invalid
deriving DecidableEq

/-- The destination of an entry is the key that it is stored under. -/
structure RoutingTableEntry where
  /-- Which of the route objects to the destination the entry points to. -/
  m_ipv4Route : ℕ
  m_seqNo : ℕ
  m_hops : ℕ
  m_lifeTime : ℤ
  m_flag : RouteFlags
  m_entriesChanged : Bool
deriving DecidableEq

abbrev RoutingTable := OrderedMap Ipv4Address RoutingTableEntry

abbrev Gateways := Ipv4Address → ℕ → Ipv4Address

def RoutingTableEntry.getLifeTime (rt : RoutingTableEntry) (now : ℤ) : ℤ := now - rt.m_lifeTime

def RoutingTableEntry.getNextHop (rt : RoutingTableEntry) (gateways : Gateways)
    (dst : Ipv4Address) : Ipv4Address :=
  gateways dst rt.m_ipv4Route

namespace RoutingTable

def getListOfAllRoutes (table : RoutingTable) : List (Ipv4Address × RoutingTableEntry) :=
  (table.filter fun dst rt => dst ≠ loopback ∧ rt.m_flag = .valid).entries

variable (gateways : Gateways)

def getListOfDestinationWithNextHop (nextHop : Ipv4Address) (table : RoutingTable) : RoutingTable :=
  table.filter fun dst rt => rt.getNextHop gateways dst = nextHop

def Expired (now holddownTime : ℤ) (rt : RoutingTableEntry) : Prop :=
  rt.getLifeTime now > holddownTime ∧ rt.m_hops > 0
deriving Decidable

def purgeEntry (now holddownTime : ℤ) (tables : RoutingTable × RoutingTable)
    (i : Ipv4Address) : RoutingTable × RoutingTable :=
  match tables.1.find? i with
  | none => tables
  | some rt =>
    if Expired now holddownTime rt then
      let through := fun j rt' => decide (rt'.getNextHop gateways j = i ∧ rt.m_hops ≠ rt'.m_hops)
      let removed :=
        (tables.1.filter through).entries.foldl (fun removed e => removed.add e.1 e.2) tables.2
      ((tables.1.filter fun j rt' => !through j rt').erase i, removed.add i rt)
    else tables

def purge (now holddownTime : ℤ) (table : RoutingTable) : RoutingTable × RoutingTable :=
  table.keys.foldl (purgeEntry gateways now holddownTime) (table, .empty)

end RoutingTable

section Operations

variable {gateways : Gateways} {now holddownTime : ℤ} {table removed : RoutingTable}
  {dst : Ipv4Address} {rt : RoutingTableEntry}

theorem mem_getListOfAllRoutes : (dst, rt) ∈ table.getListOfAllRoutes ↔
    table.find? dst = some rt ∧ dst ≠ loopback ∧ rt.m_flag = .valid := by
  rw [RoutingTable.getListOfAllRoutes, ← OrderedMap.find?_eq_some, OrderedMap.find?_filter,
    Option.filter_eq_some_iff, decide_eq_true_iff]

theorem purge_of_unexpired
    (fresh : ∀ e ∈ table.entries, ¬RoutingTable.Expired now holddownTime e.2) :
    table.purge gateways now holddownTime = (table, .empty) := by
  refine List.foldlRecOn (motive := fun tables : RoutingTable × RoutingTable =>
    tables = (table, .empty)) _ _ rfl ?_
  rintro _ rfl i -
  cases hrt : table.find? i with
  | none => simp only [RoutingTable.purgeEntry, hrt]
  | some rt =>
    simp only [RoutingTable.purgeEntry, hrt]
    exact if_neg (fresh (i, rt) (OrderedMap.find?_eq_some.mp hrt))

end Operations

end Egsr.Dsdv
