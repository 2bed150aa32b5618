import Egsr.Dsr.PathCache

/-! The route cache of source routing, kept as links with lifetimes. From the links
the best routes to all nodes are computed when routes are learned or links break;
they are looked up in a table in between. -/

namespace Egsr.Dsr.LinkCache

open Lib

abbrev Ipv4Address := UInt32

def broadcast : Ipv4Address := 0xffffffff

/-- `Ipv4Address ()` -/
def unsetAddress : Ipv4Address := 0x66666666

def mAXWEIGHT : ℕ := 0xFFFF

inductive Fault where
  /-- An address outside a list is read. -/
  | outOfRange
  /-- A loop goes on after more rounds than there are nodes. -/
  | endless
deriving DecidableEq

structure Link where
  m_low : Ipv4Address
  m_high : Ipv4Address
deriving DecidableEq

namespace Link

def between (ip1 ip2 : Ipv4Address) : Link := if ip1 < ip2 then ⟨ip1, ip2⟩ else ⟨ip2, ip1⟩

instance : LT Link := ⟨fun a b => a.m_low < b.m_low ∨ a.m_low = b.m_low ∧ a.m_high < b.m_high⟩

instance : LE Link := ⟨fun a b => ¬ b < a⟩

instance : DecidableLT Link := fun a b =>
      inferInstanceAs (Decidable (a.m_low < b.m_low ∨ a.m_low = b.m_low ∧ a.m_high < b.m_high))

theorem lt_iff {a b : Link} : a < b ↔ a.m_low.toNat < b.m_low.toNat ∨
    a.m_low.toNat = b.m_low.toNat ∧ a.m_high.toNat < b.m_high.toNat := by
  change a.m_low < b.m_low ∨ a.m_low = b.m_low ∧ a.m_high < b.m_high ↔ _
  rw [UInt32.lt_iff_toNat_lt, UInt32.lt_iff_toNat_lt, UInt32.toNat_inj]

theorem le_iff {a b : Link} : a ≤ b ↔ ¬ b < a := Iff.rfl

theorem ext_toNat {a b : Link} (low : a.m_low.toNat = b.m_low.toNat)
    (high : a.m_high.toNat = b.m_high.toNat) : a = b := by
  cases a
  cases b
  cases UInt32.toNat_inj.mp low
  cases UInt32.toNat_inj.mp high
  rfl

instance : Std.IsLinearOrder Link where
  le_refl a := by
    rw [le_iff, lt_iff]
    omega
  le_trans a b c := by
    simp only [le_iff, lt_iff]
    omega
  le_antisymm a b hab hba := by
    simp only [le_iff, lt_iff] at hab hba
    exact ext_toNat (by omega) (by omega)
  le_total a b := by
    simp only [le_iff, lt_iff]
    omega

instance : Std.LawfulOrderLT Link where
  lt_iff a b := by
    simp only [le_iff, lt_iff]
    omega

end Link

structure Config where
  m_stabilityDecrFactor : ℕ
  m_stabilityIncrFactor : ℕ
  m_initStability : ℤ
  m_minLifeTime : ℤ
  m_useExtends : ℤ
  routeCacheTimeout : ℤ

abbrev NetGraph := OrderedMap Ipv4Address (OrderedMap Ipv4Address ℕ)

/-- The times of links and nodes are those at which they expire. -/
structure DsrRouteCache where
  now : ℤ
  m_linkCache : OrderedMap Link ℤ
  m_nodeCache : OrderedMap Ipv4Address ℤ
  m_netGraph : NetGraph
  m_bestRoutesTable_link : OrderedMap Ipv4Address (List Ipv4Address)

/-! ## The best routes -/

/-- The labels of the search. Reading a label that is not there would add a default one; every
label that is read is there. -/
structure Search where
  m_netGraph : NetGraph
  d : OrderedMap Ipv4Address ℕ
  pre : OrderedMap Ipv4Address Ipv4Address
  s : OrderedMap Ipv4Address Bool
  tempip : Ipv4Address

namespace Search

variable (st : Search)

def distance (ip : Ipv4Address) : ℕ := (st.d.find? ip).getD 0

def before (ip : Ipv4Address) : Ipv4Address := (st.pre.find? ip).getD unsetAddress

def label (source : Ipv4Address) (st : Search) (i : Ipv4Address × OrderedMap Ipv4Address ℕ) :
    Search :=
  match i.2.find? source with
  | some weight => { st with d := st.d.set i.1 weight, pre := st.pre.set i.1 source }
  | none => { st with d := st.d.set i.1 mAXWEIGHT, pre := st.pre.set i.1 broadcast }

def start (m_netGraph : NetGraph) (source : Ipv4Address) : Search :=
  let st := m_netGraph.entries.foldl (label source) ⟨m_netGraph, .empty, .empty, .empty, broadcast⟩
  { st with d := st.d.set source 0 }

def nearest (s : OrderedMap Ipv4Address Bool) (r : ℕ × Ipv4Address) (j : Ipv4Address × ℕ) :
    ℕ × Ipv4Address :=
  if (s.find? j.1).isNone ∧ j.2 ≤ r.1 then (j.2, j.1) else r

def select : Search :=
  { st with tempip := (st.d.entries.foldl (nearest st.s) (mAXWEIGHT, st.tempip)).2 }

variable (m_linkCache : OrderedMap Link ℤ)

def longer (oldlink newlink : Link) : Bool :=
  match m_linkCache.find? oldlink, m_linkCache.find? newlink with
  | some old, some new => old < new
  | _, _ => false

def relax (st : Search) (k : Ipv4Address × ℕ) : Search :=
  let far := st.distance st.tempip + k.2
  let closer : Search := { st with d := st.d.set k.1 far, pre := st.pre.set k.1 st.tempip }
  if (st.s.find? k.1).isNone ∧ far < st.distance k.1 then closer
  else if st.distance k.1 = far then
    if longer m_linkCache (.between k.1 (st.before k.1)) (.between k.1 st.tempip) then closer
      else st
  else st

def round : Search :=
  let st := st.select
  if st.tempip ≠ broadcast then
    let st := { st with
      s := st.s.set st.tempip true, m_netGraph := st.m_netGraph.add st.tempip .empty }
    ((st.m_netGraph.find? st.tempip).getD .empty).entries.foldl (relax m_linkCache) st
  else st

def rounds (m_linkCache : OrderedMap Link ℤ) : ℕ → ℕ → Search → Except Fault Search
  | fuel, i, st =>
    if i < st.m_netGraph.entries.length then
      match fuel with
      | 0 => throw .endless
      | fuel + 1 => rounds m_linkCache fuel (i + 1) (st.round m_linkCache)
    else pure st

def wayBack (pre : OrderedMap Ipv4Address Ipv4Address) (source : Ipv4Address) : ℕ → Ipv4Address →
    Except Fault (List Ipv4Address)
  | fuel, iptemp =>
    if iptemp = source then pure [source]
    else
      match fuel with
      | 0 => throw .endless
      | fuel + 1 =>
        (wayBack pre source fuel ((pre.find? iptemp).getD unsetAddress)).map (iptemp :: ·)

def addBest (pre : OrderedMap Ipv4Address Ipv4Address) (source : Ipv4Address)
    (table : OrderedMap Ipv4Address (List Ipv4Address)) (i : Ipv4Address × Ipv4Address) :
    Except Fault (OrderedMap Ipv4Address (List Ipv4Address)) :=
  if i.2 ≠ broadcast ∧ i.1 ≠ source then do
    let route ← wayBack pre source pre.entries.length i.1
    pure (table.set i.1 route.reverse)
  else pure table

end Search

namespace DsrRouteCache

def initial : DsrRouteCache := ⟨0, .empty, .empty, .empty, .empty⟩

def rebuildBestRouteTable (source : Ipv4Address) (s : DsrRouteCache) : Except Fault DsrRouteCache :=
  do
  let st ← (Search.start s.m_netGraph source).rounds s.m_linkCache
    (s.m_netGraph.entries.length + 1) 0
  let table ← st.pre.entries.foldlM (Search.addBest st.pre source) .empty
  pure { s with m_netGraph := st.m_netGraph, m_bestRoutesTable_link := table }

variable (s : DsrRouteCache)

def stability (expire : ℤ) : ℤ := expire - s.now

def purgeLinkNode : DsrRouteCache :=
  { s with
    m_linkCache := s.m_linkCache.filter fun _ t => 0 < s.stability t
    m_nodeCache := s.m_nodeCache.filter fun _ t => 0 < s.stability t }

def addEdge (m_netGraph : NetGraph) (link : Link) : NetGraph :=
  let out (m : NetGraph) (a b : Ipv4Address) : NetGraph :=
    m.set a (((m.find? a).getD .empty).set b 1)
  out (out m_netGraph link.m_low link.m_high) link.m_high link.m_low

def updateNetGraph : DsrRouteCache :=
  { s with m_netGraph := s.m_linkCache.keys.foldl addEdge .empty }

variable (c : Config)

def incStability (node : Ipv4Address) (s : DsrRouteCache) : DsrRouteCache :=
  match s.m_nodeCache.find? node with
  | none => { s with m_nodeCache := s.m_nodeCache.set node (c.m_initStability + s.now) }
  | some t => { s with
    m_nodeCache := s.m_nodeCache.set node (s.stability t * c.m_stabilityIncrFactor + s.now) }

def decStability (node : Ipv4Address) (s : DsrRouteCache) : DsrRouteCache :=
  match s.m_nodeCache.find? node with
  | none => { s with m_nodeCache := s.m_nodeCache.set node (c.m_initStability + s.now) }
  | some t => { s with
    m_nodeCache := s.m_nodeCache.set node ((s.stability t).tdiv c.m_stabilityDecrFactor + s.now) }

def addLink (s : DsrRouteCache) (hop : Ipv4Address × Ipv4Address) : DsrRouteCache :=
  let nodes :=
    (s.m_nodeCache.add hop.1 (c.m_initStability + s.now)).add hop.2 (c.m_initStability + s.now)
  let first := s.stability ((nodes.find? hop.1).getD 0)
  let second := s.stability ((nodes.find? hop.2).getD 0)
  let least := if first < second then first else second
  let stab := if least < c.m_minLifeTime then c.m_minLifeTime else least
  { s with
    m_nodeCache := nodes
    m_linkCache := s.m_linkCache.set (.between hop.1 hop.2) (stab + s.now) }

variable (nodelist : List Ipv4Address)

def hops : List (Ipv4Address × Ipv4Address) := nodelist.zip nodelist.tail

def withRoute : DsrRouteCache :=
  ((hops nodelist).foldl (addLink c) s.purgeLinkNode).updateNetGraph

/-- `AddRoute_Link`; the size of an empty list less one is a large number. -/
def addRoute_Link (source : Ipv4Address) (s : DsrRouteCache) : Except Fault DsrRouteCache :=
  if nodelist.length = 0 then throw .outOfRange
    else (s.withRoute c nodelist).rebuildBestRouteTable source

def extendLink (s : DsrRouteCache) (hop : Ipv4Address × Ipv4Address) : DsrRouteCache :=
  let link := Link.between hop.1 hop.2
  match s.m_linkCache.find? link with
  | none => s
  | some t =>
    if s.stability t < c.m_useExtends then { s with
      m_linkCache := s.m_linkCache.set link (c.m_useExtends + s.now) } else s

def extendNode (s : DsrRouteCache) (i : Ipv4Address) : DsrRouteCache :=
  match s.m_nodeCache.find? i with
  | none => s
  | some t => if s.stability t ≤ c.m_initStability then s.incStability c i else s

def useExtends (rt : List Ipv4Address) (s : DsrRouteCache) : DsrRouteCache :=
  let s := s.purgeLinkNode
  if rt.length < 2 then s else rt.foldl (extendNode c) ((hops rt).foldl (extendLink c) s)

def weaken (i : Ipv4Address) : DsrRouteCache :=
  match s.m_nodeCache.find? i with
  | none => s
  | some _ => s.decStability c i

def withoutLink (errorSrc unreachNode : Ipv4Address) (s : DsrRouteCache) : DsrRouteCache :=
  let s := s.purgeLinkNode
  let s := { s with
    m_linkCache :=
      (s.m_linkCache.erase (.between errorSrc unreachNode)).erase (.between unreachNode errorSrc) }
  ((s.weaken c errorSrc).weaken c unreachNode).updateNetGraph

def deleteAllRoutesIncludeLink (errorSrc unreachNode node : Ipv4Address) (s : DsrRouteCache) :
    Except Fault DsrRouteCache :=
  (s.withoutLink c errorSrc unreachNode).rebuildBestRouteTable node

def lookupRoute_Link (id : Ipv4Address) (s : DsrRouteCache) :
    DsrRouteCache × Option PathCache.DsrRouteCacheEntry :=
  let s := s.purgeLinkNode
  match s.m_bestRoutesTable_link.find? id with
  | none => (s, none)
  | some route =>
    if route.length < 2 then (s, none)
    else (s, some { m_path := route, m_dst := id, m_expire := c.routeCacheTimeout + s.now })

end DsrRouteCache

/-! ## Runs -/

inductive Action where
  | addRoute_Link (nodelist : List Ipv4Address)
  | useExtends (rt : List Ipv4Address)
  | deleteAllRoutesIncludeLink (errorSrc unreachNode : Ipv4Address)
  | lookupRoute_Link (id : Ipv4Address)
  | wait (delay : ℕ)
deriving DecidableEq

def step (c : Config) (node : Ipv4Address) (s : DsrRouteCache) : Action → Except Fault DsrRouteCache
  | .addRoute_Link nodelist => s.addRoute_Link c nodelist node
  | .useExtends rt => pure (s.useExtends c rt)
  | .deleteAllRoutesIncludeLink errorSrc unreachNode =>
    s.deleteAllRoutesIncludeLink c errorSrc unreachNode node
  | .lookupRoute_Link id => pure (s.lookupRoute_Link c id).1
  | .wait delay => pure { s with now := s.now + delay }

end Egsr.Dsr.LinkCache
