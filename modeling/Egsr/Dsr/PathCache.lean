import Mathlib.Algebra.GroupWithZero.Nat
import Mathlib.Data.List.Sort
import Egsr.Lib.OrderedMap
import Egsr.Lib.Run

/-! The route cache of source routing, kept as paths. Every destination has a few
routes, the one that expires last in front. Routes to nodes on the way are cut
out of longer ones, and a broken link takes away the routes that use it. -/

namespace Egsr.Dsr.PathCache

open Lib

abbrev Ipv4Address := UInt32

inductive Fault where
  /-- The address after the last one of a route is read. -/
  | pastEnd
  /-- The first route of an empty list is read. -/
  | noRoute
  /-- The loop has visited every route it can visit, and goes on. -/
  | endless
deriving DecidableEq

structure DsrRouteCacheEntry where
  m_path : List Ipv4Address
  m_dst : Ipv4Address
  m_expire : ℤ
deriving DecidableEq

abbrev Routes := List DsrRouteCacheEntry

structure DsrRouteCache where
  now : ℤ
  m_sortedRoutes : OrderedMap Ipv4Address Routes

structure Config where
  m_maxEntriesEachDst : ℕ
  m_subRoute : Bool

def Config.constructed (subRoute : Bool) : Config := ⟨3, subRoute⟩

def DsrRouteCacheEntry.getExpireTime (now : ℤ) (rt : DsrRouteCacheEntry) : ℤ := rt.m_expire - now

/-- The negation of `CompareRoutesExpire` with the arguments exchanged. -/
def notLater (a b : DsrRouteCacheEntry) : Prop := b.m_expire ≤ a.m_expire
deriving Decidable

def sortRoutes (rtVector : Routes) : Routes := rtVector.insertionSort notLater

namespace DsrRouteCache

def initial : DsrRouteCache := ⟨0, .empty⟩

def put (dst : Ipv4Address) (rtVector : Routes) (s : DsrRouteCache) : DsrRouteCache :=
  { s with m_sortedRoutes := s.m_sortedRoutes.set dst rtVector }

def unexpired (now : ℤ) (rtVector : Routes) : Option Routes :=
  let rtVector := rtVector.filter fun rt => 0 < rt.getExpireTime now
  if rtVector.length = 0 then none else some rtVector

def purge (s : DsrRouteCache) : DsrRouteCache :=
  { s with m_sortedRoutes := s.m_sortedRoutes.filterMap fun _ => unexpired s.now }

/-- The loop of `FindSameRoute`: the routes with the expire time of the same route moved, none where
there is no such route. -/
def moveSame (rt : DsrRouteCacheEntry) : Routes → Option Routes
  | [] => none
  | i :: rtVector =>
    if i.m_path = rt.m_path then
      some ({ i with m_expire := if i.m_expire < rt.m_expire then rt.m_expire else i.m_expire } ::
        rtVector)
    else (moveSame rt rtVector).map (i :: ·)

def addRoute (c : Config) (rt : DsrRouteCacheEntry) (s : DsrRouteCache) : DsrRouteCache × Bool :=
  let s := s.purge
  match s.m_sortedRoutes.find? rt.m_dst with
  | none => (s.put rt.m_dst [rt], true)
  | some rtVector =>
    let rtVector := if c.m_maxEntriesEachDst ≤ rtVector.length then rtVector.dropLast else rtVector
    match moveSame rt rtVector with
    | some rtVector => (s.put rt.m_dst (sortRoutes rtVector), true)
    | none =>
      if 0 < rt.getExpireTime s.now then (s.put rt.m_dst (sortRoutes (rtVector ++ [rt])), true)
      else (s, false)

/-- The addresses of a route up to the first one that is `id`. -/
def upTo (id : Ipv4Address) : List Ipv4Address → List Ipv4Address
  | [] => []
  | l :: route => if l ≠ id then l :: upTo id route else [l]

variable (id : Ipv4Address) (m : OrderedMap Ipv4Address Routes)

def subRoute (k : DsrRouteCacheEntry) : OrderedMap Ipv4Address Routes :=
  let changeVector := upTo id k.m_path
  if changeVector.length < k.m_path.length ∧ 1 < changeVector.length then
    m.set id (sortRoutes [{ m_path := changeVector, m_dst := id, m_expire := k.m_expire }])
  else m

/-- The destination `j` in that loop. The routes for `id` are visited as well where they are made
before the loop gets there. -/
def subRoutes (j : Ipv4Address) : OrderedMap Ipv4Address Routes :=
  match m.find? j with
  | none => m
  | some rtVector => rtVector.foldl (subRoute id) m

/-- The routes, with one to `id` cut out of others where there was none. -/
def withSubRoutes : OrderedMap Ipv4Address Routes :=
  match m.find? id with
  | some _ => m
  | none => (m.set id []).keys.foldl (subRoutes id) m

def lookupRoute (s : DsrRouteCache) : Except Fault (DsrRouteCache × Option DsrRouteCacheEntry) :=
  let s := s.purge
  if s.m_sortedRoutes.entries.length = 0 then pure (s, none)
  else
    let m := withSubRoutes id s.m_sortedRoutes
    match m.find? id with
    | none => pure ({ s with m_sortedRoutes := m }, none)
    | some [] => throw .noRoute
    | some (rt :: _) => pure ({ s with m_sortedRoutes := m }, some rt)

def deleteRoute (dst : Ipv4Address) (s : DsrRouteCache) : DsrRouteCache × Bool :=
  let s := s.purge
  ({ s with m_sortedRoutes := s.m_sortedRoutes.erase dst }, (s.m_sortedRoutes.find? dst).isSome)

/-- The addresses of a route up to the broken link, all of them where it does not use it. -/
def cutRoute (errorSrc unreachNode : Ipv4Address) : List Ipv4Address →
    Except Fault (List Ipv4Address)
  | [] => pure []
  | i :: route =>
    if i ≠ errorSrc then (cutRoute errorSrc unreachNode route).map (i :: ·)
    else
      match route with
      | [] => throw .pastEnd
      | next :: _ =>
        if next = unreachNode then pure [i] else (cutRoute errorSrc unreachNode route).map (i :: ·)

/-- The loop over the routes for one destination; a route that is cut is visited again, at the
end. -/
def cutRoutes (c : Config) (errorSrc unreachNode : Ipv4Address) : ℕ → Routes → Routes →
    Except Fault Routes
  | _, visited, [] => pure visited
  | 0, _, _ :: _ => throw .endless
  | rounds + 1, visited, k :: rest => do
    let changeVector ← cutRoute errorSrc unreachNode k.m_path
    if changeVector.length = k.m_path.length then
      cutRoutes c errorSrc unreachNode rounds (visited ++ [k]) rest
    else if changeVector.length < k.m_path.length ∧ 1 < changeVector.length then
      if c.m_subRoute then
        cutRoutes c errorSrc unreachNode rounds visited
          (rest ++ [
            { m_path := changeVector, m_dst := changeVector.getLastD 0, m_expire := k.m_expire }])
      else cutRoutes c errorSrc unreachNode rounds visited rest
    else cutRoutes c errorSrc unreachNode rounds visited rest

def visits (rtVector : Routes) : ℕ := (rtVector.map fun rt => rt.m_path.length + 1).sum

def cutAt (c : Config) (errorSrc unreachNode : Ipv4Address) (m : OrderedMap Ipv4Address Routes)
    (address : Ipv4Address) : Except Fault (OrderedMap Ipv4Address Routes) :=
  match m.find? address with
  | none => pure m
  | some rtVector => do
    let rtVector ← cutRoutes c errorSrc unreachNode (visits rtVector) [] rtVector
    let m := m.erase address
    if rtVector.length = 0 then pure m else pure (m.set address (sortRoutes rtVector))

def deleteAllRoutesIncludeLink (c : Config) (errorSrc unreachNode : Ipv4Address)
    (s : DsrRouteCache) : Except Fault DsrRouteCache := do
  let s := s.purge
  let m ← s.m_sortedRoutes.keys.foldlM (cutAt c errorSrc unreachNode) s.m_sortedRoutes
  pure { s with m_sortedRoutes := m }

end DsrRouteCache

/-! ## Runs -/

inductive Action where
  | addRoute (rt : DsrRouteCacheEntry)
  | lookupRoute (id : Ipv4Address)
  | deleteRoute (dst : Ipv4Address)
  | deleteAllRoutesIncludeLink (errorSrc unreachNode : Ipv4Address)
  | wait (delay : ℕ)
deriving DecidableEq

def step (c : Config) (s : DsrRouteCache) : Action → Except Fault DsrRouteCache
  | .addRoute rt => pure (s.addRoute c rt).1
  | .lookupRoute id => (s.lookupRoute id).map Prod.fst
  | .deleteRoute dst => pure (s.deleteRoute dst).1
  | .deleteAllRoutesIncludeLink errorSrc unreachNode =>
    s.deleteAllRoutesIncludeLink c errorSrc unreachNode
  | .wait delay => pure { s with now := s.now + delay }

end Egsr.Dsr.PathCache
