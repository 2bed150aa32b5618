import Mathlib.Logic.Relation
import Egsr.Internet.RipTable

/-! Routers that are joined by point-to-point links and speak RIP. The links do
not fail; messages on a link stay in order and may be lost. No event of a route
is invoked. -/

namespace Egsr.Internet.RipProtocol

open Lib.Run Lib.Outcome Function

def Config.locals (c : Config) (i : ℕ) : List UInt32 := (c.addresses i).map fun a => a.m_local

/-- Routers and their links, with addresses that tell the ends of links apart. -/
structure Topology (R : Type) where
  config : R → Config
  /-- The other end of the link at an interface. -/
  peer : R → ℕ → Option (R × ℕ)
  peer_symm : ∀ {r i q j}, peer r i = some (q, j) → peer q j = some (r, i)
  address_unique : ∀ {r i q j r' i' q' j' a}, peer r i = some (q, j) → peer r' i' = some (q', j') →
    a ∈ (config q).locals j → a ∈ (config q').locals j' → (q, j) = (q', j')
  address_ne_zero : ∀ {r i q j a}, peer r i = some (q, j) → a ∈ (config q).locals j → a ≠ 0
  interfaceMetric_pos : ∀ r i, 0 < ((config r).interfaceMetric i).toNat

abbrev Message := UInt32 × List RipRte

structure Network (R : Type) where
  routers : R → Rip
  /-- The messages on the way to an interface of a router, the oldest first. -/
  queue : R × ℕ → List Message

variable {R : Type} (T : Topology R)

def Config.coldStart (c : Config) : Rip :=
  ((List.range c.nInterfaces).foldl (fun s i => s.notifyInterfaceUp c i) Rip.initial).doInitialize c

def coldStart : Network R := ⟨fun r => (T.config r).coldStart, fun _ => []⟩

inductive NetworkAction (R : Type) where
  /-- `DoSendRouteUpdate`, periodic or triggered. -/
  | update (r : R) (periodic : Bool)
  /-- `HandleResponses` of the first message. -/
  | deliver (r : R) (i : ℕ)
  | lose (r : R) (i k : ℕ)
  | wait (r : R) (t : ℕ)
deriving DecidableEq

variable [DecidableEq R]

def enqueue (r : R) (queue : R × ℕ → List Message) (out : UInt32 × ℕ × List RipRte) :
    R × ℕ → List Message :=
  match T.peer r out.2.1 with
  | none => queue
  | some l => update queue l (queue l ++ [(out.1, out.2.2)])

variable (N : Network R)

def networkStep : NetworkAction R → Except Fault (Network R)
  | .update r periodic =>
    let (out, s) := if periodic then (N.routers r).sendUnsolicitedRouteUpdate (T.config r)
      else (N.routers r).triggeredRouteUpdate (T.config r)
    .ok ⟨update N.routers r s, out.foldl (enqueue T r) N.queue⟩
  | .deliver r i =>
    match N.queue (r, i) with
    | [] => .ok N
    | m :: rest => do
      let s ← Rip.handleResponses (T.config r) ⟨m.2, m.1, i⟩ (N.routers r)
      .ok ⟨update N.routers r s, update N.queue (r, i) rest⟩
  | .lose r i k =>
    .ok { N with queue := update N.queue (r, i) ((N.queue (r, i)).eraseIdx k) }
  | .wait r t => .ok { N with routers := update N.routers r { N.routers r with now := t } }

def NetworkPossible : NetworkAction R → Prop
  | .wait r t => (N.routers r).now ≤ t
  | _ => True

def Attached (r : R) (d : UInt32 × UInt32) : Prop :=
  ∃ i < (T.config r).nInterfaces, d ∈ networksOf ((T.config r).addresses i)

def HasEntry (r : R) (d : UInt32 × UInt32) (e : RipRoutingTableEntry) : Prop :=
  (∃ it ∈ (N.routers r).m_routes, it.entry = e) ∧ e.m_status = .valid ∧ e.key = d

def IsGateway (e : RipRoutingTableEntry) (r : R) (i : ℕ) (q : R) : Prop :=
  e.m_gateway ≠ 0 ∧ ∃ j, T.peer r i = some (q, j) ∧ e.m_gateway ∈ (T.config q).locals j

/-- The routers that are met when the gateways of valid entries are followed, from the entry `e` of
the first one, and the cost of the path: the network itself and the interfaces cost something. -/
inductive FollowsGateways (N : Network R) (d : UInt32 × UInt32) :
    R → RipRoutingTableEntry → List R → ℕ → Prop where
  | attached {r : R} {e : RipRoutingTableEntry} (entry : HasEntry N r d e)
    (direct : e.m_gateway = 0) :
      FollowsGateways N d r e [r] 1
  | hop {r q : R} {i : ℕ} {e e' : RipRoutingTableEntry} {p : List R} {cost : ℕ}
      (entry : HasEntry N r d e) (gateway : IsGateway T e r i q)
      (rest : FollowsGateways N d q e' p cost) :
      FollowsGateways N d r e (r :: p) (cost + ((T.config r).interfaceMetric i).toNat)

/-- Gateways do not lead back. Whatever gateways are followed, no router is met twice, the last one
is attached to the network and the metric is at least the cost; and following them comes to an
end. -/
structure LoopFree : Prop where
  acyclic : ∀ d r, ¬Relation.TransGen
    (fun r q => ∃ e i, HasEntry N r d e ∧ IsGateway T e r i q) r r
  path : ∀ {d r e p cost}, FollowsGateways T N d r e p cost →
    p.Nodup ∧ (∃ q, p.getLast? = some q ∧ Attached T q d) ∧ cost ≤ e.m_metric.toNat
  reaches : ∀ {d r e}, HasEntry N r d e → ∃ p cost, FollowsGateways T N d r e p cost

end Egsr.Internet.RipProtocol
