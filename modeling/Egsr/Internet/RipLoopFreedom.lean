import Mathlib.Algebra.Group.Nat.Defs
import Mathlib.Data.List.Flatten
import Mathlib.Data.List.Pairwise
import Egsr.Lib.DistanceVector
import Egsr.Internet.RipNetwork

/-! RIP from a cold start is distance-vector routing, one destination network at
a time: entries that are attached never change, a learned entry is taken over
from the neighbour at one link, and what is on the way are the metrics of that
network. -/

namespace Egsr.Internet.RipProtocol

open Lib Lib.Run Lib.Outcome List Function UInt32 Rip

variable {R : Type} (T : Topology R)

def links : DistanceVector.Links R (R × ℕ) where
  src l := match T.peer l.1 l.2 with
    | some (q, _) => q
    | none => l.1
  dst l := l.1
  cost l := ((T.config l.1).interfaceMetric l.2).toNat
  cost_pos l := T.interfaceMetric_pos l.1 l.2

def routeOf (r : R) (it : Route) : DistanceVector.Route (R × ℕ) :=
  ⟨it.entry.m_metric.toNat, if it.entry.m_gateway = 0 then none else some (r, it.entry.m_interface)⟩

def lookup (r : R) (routes : List Route) (d : UInt32 × UInt32) :
    Option (DistanceVector.Route (R × ℕ)) :=
  (routes.find? fun it => it.entry.key = d).map (routeOf r)

def metricsOf (d : UInt32 × UInt32) (rtes : List RipRte) : List ℕ :=
  (rtes.filter fun rte => rte.key = d).map fun rte => rte.m_metric.toNat

def tableOf (N : Network R) (d : UInt32 × UInt32) : DistanceVector.Table R (R × ℕ) :=
  fun r => lookup r (N.routers r).m_routes d

def queueOf (N : Network R) (d : UInt32 × UInt32) : DistanceVector.Queue (R × ℕ) :=
  fun l => (N.queue l).flatMap fun m => metricsOf d m.2

/-- An entry is valid, and of an interface in the network or learned from a neighbour. -/
structure EntryOk (r : R) (e : RipRoutingTableEntry) : Prop where
  valid : e.m_status = .valid
  network : e.key.1 &&& e.key.2 = e.key.1
  origin : e.m_gateway = 0 ∧ e.m_metric = 1 ∧ e.m_interface < (T.config r).nInterfaces ∧
      e.key ∈ networksOf ((T.config r).addresses e.m_interface) ∨
    e.m_gateway ≠ 0 ∧ e.m_metric.toNat < (T.config r).m_linkDown.toNat ∧
      ∃ q j, T.peer r e.m_interface = some (q, j) ∧ e.m_gateway ∈ (T.config q).locals j

def Alone (a b : Route) : Prop :=
  a.entry.key = b.entry.key → a.entry.m_gateway = 0 ∧ b.entry.m_gateway = 0

instance : Std.Symm Alone := ⟨fun _ _ hab e => (hab e.symm).symm⟩

structure RoutesOk (r : R) (routes : List Route) : Prop where
  distinct : routes.Pairwise fun a b => a.route ≠ b.route
  single : routes.Pairwise Alone
  entries : ∀ it ∈ routes, EntryOk T r it.entry

structure RouterOk (r : R) (s : Rip) : Prop where
  routes : RoutesOk T r s.m_routes
  routes_lt : ∀ it ∈ s.m_routes, it.route < s.nextRoute
  sockets : ∀ iter ∈ s.m_sendSocketList, iter.1 ∈ (T.config r).locals iter.2

structure NetworkOk (N : Network R) : Prop where
  routers : ∀ r, RouterOk T r (N.routers r)
  messages : ∀ l, ∀ m ∈ N.queue l, ∃ q j, T.peer l.1 l.2 = some (q, j) ∧ m.1 ∈ (T.config q).locals j
  distances : ∀ d, DistanceVector.Inv (links T) (tableOf N d) (queueOf N d)

variable {T} {r : R} {routes : List Route} {d : UInt32 × UInt32}

theorem RoutesOk.perm {routes' : List Route} (h : RoutesOk T r routes)
    (perm : routes.Perm routes') : RoutesOk T r routes' where
  distinct := (perm.pairwise_iff Ne.symm).mp h.distinct
  single := (perm.pairwise_iff (Std.Symm.symm _ _)).mp h.single
  entries it hit := h.entries it (perm.mem_iff.mpr hit)

theorem RoutesOk.lookup_eq_some (h : RoutesOk T r routes) {rt : DistanceVector.Route (R × ℕ)} :
    lookup r routes d = some rt ↔ ∃ it ∈ routes, it.entry.key = d ∧ routeOf r it = rt := by
  constructor
  · intro hlookup
    obtain ⟨it, hit, rfl⟩ := Option.map_eq_some_iff.mp hlookup
    exact ⟨it, mem_of_find?_eq_some hit, by simpa using List.find?_some hit, rfl⟩
  · rintro ⟨it, hit, hkey, rfl⟩
    obtain ⟨first, hfirst⟩ : ∃ first, (routes.find? fun it => it.entry.key = d) = some first :=
      Option.isSome_iff_exists.mp (List.find?_isSome.mpr ⟨it, hit, by simpa using hkey⟩)
    have hmem := mem_of_find?_eq_some hfirst
    have hkey' : first.entry.key = d := by simpa using List.find?_some hfirst
    rw [lookup, hfirst, Option.map_some]
    by_cases heq : first = it
    · rw [heq]
    · have hboth := h.single.forall hmem hit heq (hkey'.trans hkey.symm)
      have hone : ∀ {it : Route}, it ∈ routes → it.entry.m_gateway = 0 → it.entry.m_metric = 1 :=
        fun hit hzero => (h.entries _ hit).origin.elim (fun ho => ho.2.1) fun ho =>
          absurd hzero ho.1
      rw [routeOf, routeOf, if_pos hboth.1, if_pos hboth.2, hone hmem hboth.1, hone hit hboth.2]

theorem RoutesOk.lookup_perm {routes' : List Route} (h : RoutesOk T r routes)
    (perm : routes.Perm routes') : lookup r routes d = lookup r routes' d := by
  refine Option.ext fun rt => ?_
  rw [h.lookup_eq_some, (h.perm perm).lookup_eq_some]
  exact exists_congr fun it => and_congr_left fun _ => perm.mem_iff

theorem lookup_cons (it : Route) :
    lookup r (it :: routes) d = if it.entry.key = d then some (routeOf r it)
      else lookup r routes d := by
  unfold lookup
  by_cases hkey : it.entry.key = d
  · rw [if_pos hkey, List.find?_cons_of_pos (by simpa using hkey), Option.map_some]
  · rw [if_neg hkey, List.find?_cons_of_neg (by simpa using hkey)]

theorem lookup_eq_none : lookup r routes d = none ↔ ∀ it ∈ routes, it.entry.key ≠ d := by
  simp [lookup]

variable [DecidableEq R] {N : Network R}

def Network.set (N : Network R) (r : R) (s : Rip) : Network R :=
  { N with routers := update N.routers r s }

@[simp] theorem set_routers_self (s : Rip) : (N.set r s).routers r = s := update_self ..

theorem set_routers_of_ne {q : R} (ne : q ≠ r) (s : Rip) : (N.set r s).routers q = N.routers q :=
  update_of_ne ne ..

theorem set_set (s s' : Rip) : (N.set r s).set r s' = N.set r s' := by
  simp [Network.set]

theorem set_self : N.set r (N.routers r) = N := by
  simp [Network.set]

theorem tableOf_set (s : Rip) :
    tableOf (N.set r s) d = update (tableOf N d) r (lookup r s.m_routes d) := by
  funext q
  by_cases hq : q = r
  · subst hq
    simp [tableOf]
  · simp [tableOf, Network.set, update_of_ne hq]

variable {s : Rip}

theorem NetworkOk.set (h : NetworkOk T N) (ok : RouterOk T r s)
    (distances : ∀ d, DistanceVector.Inv (links T)
      (update (tableOf N d) r (lookup r s.m_routes d)) (queueOf N d)) :
    NetworkOk T (N.set r s) where
  routers q := by
    by_cases hq : q = r
    · subst hq
      rwa [set_routers_self]
    · rw [set_routers_of_ne hq]
      exact h.routers q
  messages := h.messages
  distances d := by
    rw [tableOf_set]
    exact distances d

theorem NetworkOk.same (h : NetworkOk T N) (ok : RouterOk T r s)
    (lookups : ∀ d, lookup r s.m_routes d = lookup r (N.routers r).m_routes d) :
    NetworkOk T (N.set r s) := by
  refine h.set ok fun d => ?_
  rw [lookups d, show lookup r (N.routers r).m_routes d = tableOf N d r from rfl, update_eq_self]
  exact h.distances d

theorem NetworkOk.adopt (h : NetworkOk T N) {i : ℕ} {a : UInt32} {rte : RipRte} {rtes : List RipRte}
    {rest : List Message} (queue : N.queue (r, i) = (a, rte :: rtes) :: rest) (ok : RouterOk T r s)
    (same : ∀ d, d ≠ rte.key → lookup r s.m_routes d = lookup r (N.routers r).m_routes d)
    (new : lookup r s.m_routes rte.key =
      some ⟨rte.m_metric.toNat + ((T.config r).interfaceMetric i).toNat, some (r, i)⟩)
    (better : ∀ rt, lookup r (N.routers r).m_routes rte.key = some rt →
      rte.m_metric.toNat + ((T.config r).interfaceMetric i).toNat ≤ rt.metric) :
    NetworkOk T (N.set r s) := by
  refine h.set ok fun d => ?_
  by_cases hd : d = rte.key
  · subst hd
    have hhead : queueOf N rte.key (r, i) = rte.m_metric.toNat ::
        (metricsOf rte.key rtes ++ rest.flatMap fun m => metricsOf rte.key m.2) := by
      rw [queueOf, queue, flatMap_cons, metricsOf, filter_cons_of_pos (by simp)]
      rfl
    rw [new]
    exact (h.distances rte.key).adopt hhead better
  · rw [same d hd, show lookup r (N.routers r).m_routes d = tableOf N d r from rfl, update_eq_self]
    exact h.distances d

/-! ## Responses -/

omit [DecidableEq R] in
variable {it : Route}

omit [DecidableEq R] in
theorem RouterOk.set {t : Rip} (h : RouterOk T r s) {k : ℕ} {n : Route}
    (at_k : s.m_routes[k]? = some it) (routes : t.m_routes = s.m_routes.set k n)
    (next : s.nextRoute ≤ t.nextRoute) (lt : n.route < t.nextRoute)
    (fresh : n.route = it.route ∨ s.nextRoute ≤ n.route)
    (sockets : t.m_sendSocketList = s.m_sendSocketList) (entry : EntryOk T r n.entry)
    (key : n.entry.key = it.entry.key) (direct : it.entry.m_gateway = 0 → n.entry.m_gateway = 0) :
    RouterOk T r t ∧ ∀ d, lookup r t.m_routes d =
      if n.entry.key = d then some (routeOf r n) else lookup r s.m_routes d := by
  obtain ⟨rest, hperm, hset, -⟩ := exists_rest at_k
  have hold := h.routes.perm hperm
  have hnew : RoutesOk T r (n :: rest) := by
    have hdistinct := pairwise_cons.mp hold.distinct
    have hsingle := pairwise_cons.mp hold.single
    refine ⟨pairwise_cons.mpr ⟨fun b hb heq => ?_, hdistinct.2⟩,
      pairwise_cons.mpr ⟨fun b hb heq => ?_, hsingle.2⟩,
      forall_mem_cons.mpr ⟨entry, (forall_mem_cons.mp hold.entries).2⟩⟩
    · rcases fresh with hsame | hnew
      · exact hdistinct.1 b hb (hsame.symm.trans heq)
      · have hlt := h.routes_lt b (hperm.mem_iff.mpr (mem_cons_of_mem _ hb))
        omega
    · have hboth := hsingle.1 b hb (key.symm.trans heq)
      exact ⟨direct hboth.1, hboth.2⟩
  have hperm' : t.m_routes.Perm (n :: rest) := routes ▸ hset n
  refine ⟨⟨hnew.perm hperm'.symm, fun b hb => ?_, sockets ▸ h.sockets⟩, fun d => ?_⟩
  · rcases mem_cons.mp (hperm'.mem_iff.mp hb) with rfl | hb
    · exact lt
    · exact Nat.lt_of_lt_of_le (h.routes_lt b (hperm.mem_iff.mpr (mem_cons_of_mem _ hb))) next
  · rw [(hnew.perm hperm'.symm).lookup_perm hperm', h.routes.lookup_perm hperm, lookup_cons,
      lookup_cons]
    by_cases hd : n.entry.key = d
    · rw [if_pos hd, if_pos hd]
    · rw [if_neg hd, if_neg hd, if_neg (key ▸ hd)]

def ExactRte (c : Config) (i : ℕ) (rte : RipRte) : Prop :=
  let metric := rte.m_metric.toNat + (c.interfaceMetric i).toNat
  metric < 256 ∨ c.m_linkDown.toNat ≤ metric ∧ metric < 2 ^ 32
deriving Decidable

theorem rteMetric_toNat {c : Config} {i : ℕ} {rte : RipRte} (exact : ExactRte c i rte) :
    (c.rteMetric i rte).toNat =
      min (rte.m_metric.toNat + (c.interfaceMetric i).toNat) c.m_linkDown.toNat := by
  have hsum : (rte.m_metric + c.interfaceMetric i).toNat =
      rte.m_metric.toNat + (c.interfaceMetric i).toNat := by
    rw [UInt32.toNat_add]
    unfold ExactRte at exact
    omega
  unfold Config.rteMetric
  dsimp only
  split_ifs with hlarge
  · have hlt := lt_iff_toNat_lt.mp hlarge
    omega
  · have hle := le_iff_toNat_le.mp (UInt32.not_lt.mp hlarge)
    omega

omit [DecidableEq R] in
theorem NetworkOk.same_interface (h : NetworkOk T N) {i : ℕ} {m : Message}
    (on_way : m ∈ N.queue (r, i))
    (hit : it ∈ (N.routers r).m_routes) (sender : m.1 = it.entry.m_gateway) :
    it.entry.m_gateway ≠ 0 ∧ it.entry.m_interface = i := by
  obtain ⟨q, j, hpeer, haddress⟩ := h.messages (r, i) m on_way
  have hne : it.entry.m_gateway ≠ 0 := sender ▸ T.address_ne_zero hpeer haddress
  rcases ((h.routers r).routes.entries it hit).origin with hdirect | ⟨-, -, q', j', hpeer',
    haddress'⟩
  · exact absurd hdirect.1 hne
  · have hends := T.address_unique hpeer' hpeer haddress' (sender ▸ haddress)
    cases hends
    have hback := T.peer_symm hpeer'
    rw [T.peer_symm hpeer] at hback
    cases hback
    exact ⟨hne, rfl⟩

theorem rteKey_network (rte : RipRte) : rte.key.1 &&& rte.key.2 = rte.key.1 := by
  rw [RipRte.key, RipRte.network, UInt32.and_assoc, UInt32.and_self]

structure Handled (T : Topology R) (N : Network R) (r : R) (m : Response) (rte : RipRte)
    (rtes : List RipRte) (rest : List Message) : Prop where
  ok : NetworkOk T N
  queue : N.queue (r, m.incomingInterface) = (m.senderAddress, rte :: rtes) :: rest
  down : 1 < (T.config r).m_linkDown.toNat
  pos : 0 < rte.m_metric.toNat
  exact : ExactRte (T.config r) m.incomingInterface rte

variable {m : Response} {rte : RipRte} {rtes : List RipRte} {rest : List Message}

omit [DecidableEq R] in
theorem Handled.learned (h : Handled T N r m rte rtes rest) (hit : it ∈ (N.routers r).m_routes)
    (le : ((T.config r).rteMetric m.incomingInterface rte).toNat ≤ it.entry.m_metric.toNat) :
    it.entry.m_gateway ≠ 0 ∧ it.entry.m_metric.toNat < (T.config r).m_linkDown.toNat := by
  rcases ((h.ok.routers r).routes.entries it hit).origin with ⟨-, hone, -⟩ | ⟨hne, hlt, -⟩
  · have hcost := T.interfaceMetric_pos r m.incomingInterface
    have hdown := h.down
    have hpos := h.pos
    rw [rteMetric_toNat h.exact, hone] at le
    have hone' : (1 : UInt8).toNat = 1 := rfl
    omega
  · exact ⟨hne, hlt⟩

omit [DecidableEq R] in
theorem Handled.gateway (h : Handled T N r m rte rtes rest)
    (hit : it ∈ (N.routers r).m_routes) (same : it.entry.key = rte.key)
    (sender : m.senderAddress = it.entry.m_gateway) :
    it.entry.m_interface = m.incomingInterface ∧
      ((T.config r).rteMetric m.incomingInterface rte).toNat ≤ it.entry.m_metric.toNat := by
  have hmem : (m.senderAddress, rte :: rtes) ∈ N.queue (r, m.incomingInterface) :=
    h.queue ▸ mem_cons_self
  obtain ⟨hne, hinterface⟩ := h.ok.same_interface hmem hit sender
  have hknown : tableOf N rte.key r = some (routeOf r it) :=
    (h.ok.routers r).routes.lookup_eq_some.mpr ⟨it, hit, same, rfl⟩
  have hvia : (routeOf r it).via = some (r, m.incomingInterface) := by
    rw [routeOf, if_neg hne, hinterface]
  have hqueue : rte.m_metric.toNat ∈ queueOf N rte.key (r, m.incomingInterface) := by
    refine mem_flatMap.mpr ⟨_, hmem, mem_map.mpr ⟨rte, ?_, rfl⟩⟩
    simp
  have hle : rte.m_metric.toNat + ((T.config r).interfaceMetric m.incomingInterface).toNat ≤
      it.entry.m_metric.toNat := (h.ok.distances rte.key).follow
        (l := (r, m.incomingInterface)) hknown hvia _ hqueue
  rw [rteMetric_toNat h.exact]
  exact ⟨hinterface, by omega⟩

theorem Handled.take (h : Handled T N r m rte rtes rest) {k : ℕ} {n : Route}
    (at_k : (N.routers r).m_routes[k]? = some it) (same : it.entry.key = rte.key)
    (le : ((T.config r).rteMetric m.incomingInterface rte).toNat ≤ it.entry.m_metric.toNat)
    (routes : s.m_routes = (N.routers r).m_routes.set k n)
    (next : (N.routers r).nextRoute ≤ s.nextRoute)
    (lt : n.route < s.nextRoute) (fresh : n.route = it.route ∨ (N.routers r).nextRoute ≤ n.route)
    (sockets : s.m_sendSocketList = (N.routers r).m_sendSocketList)
    (status : n.entry.m_status = .valid) (key : n.entry.key = rte.key)
    (metric : n.entry.m_metric = ((T.config r).rteMetric m.incomingInterface rte).toUInt8)
    (gateway : n.entry.m_gateway = m.senderAddress)
    (interface : n.entry.m_interface = m.incomingInterface) : NetworkOk T (N.set r s) := by
  have hit := mem_of_getElem? at_k
  obtain ⟨hlearned, hdown⟩ := h.learned hit le
  obtain ⟨q, j, hpeer, haddress⟩ :=
    h.ok.messages (r, m.incomingInterface) _ (h.queue ▸ mem_cons_self)
  have hne := T.address_ne_zero hpeer haddress
  have hexact := rteMetric_toNat h.exact
  have hmetric : n.entry.m_metric.toNat =
      rte.m_metric.toNat + ((T.config r).interfaceMetric m.incomingInterface).toNat := by
    have hbound := h.exact
    unfold ExactRte at hbound
    rw [metric, toNat_toUInt8]
    omega
  have hentry : EntryOk T r n.entry :=
    { valid := status
      network := key ▸ rteKey_network rte
      origin := .inr ⟨gateway ▸ hne, by omega, q, j, interface ▸ hpeer, gateway ▸ haddress⟩ }
  obtain ⟨hok, hlookup⟩ := (h.ok.routers r).set at_k routes next lt fresh sockets hentry
    (key.trans same.symm) fun hzero => absurd hzero hlearned
  refine h.ok.adopt h.queue hok (fun d hd => ?_) ?_ fun rt hrt => ?_
  · rw [hlookup, if_neg (key ▸ hd.symm)]
  · rw [hlookup, if_pos key, routeOf, hmetric, interface, if_neg (gateway ▸ hne)]
  · have hknown := (h.ok.routers r).routes.lookup_eq_some.mpr ⟨it, hit, same, rfl⟩
    rw [hknown] at hrt
    cases hrt
    rw [hexact] at le
    exact Nat.le_trans (by omega) le

theorem Handled.round (h : Handled T N r m rte rtes rest) {k : ℕ}
    (at_k : (N.routers r).m_routes[k]? = some it)
    (round : RoundResult (T.config r) m rte (N.routers r) k it s) : NetworkOk T (N.set r s) := by
  have hit := mem_of_getElem? at_k
  have hlt := (h.ok.routers r).routes_lt it hit
  have hmetric : ∀ e : UInt32, e < it.entry.m_metric.toUInt32 ↔ e.toNat < it.entry.m_metric.toNat :=
    fun e => by rw [lt_iff_toNat_lt, UInt8.toNat_toUInt32]
  cases round with
  | skip =>
    rw [set_self]
    exact h.ok
  | keep =>
    rw [set_self]
    exact h.ok
  | refresh same =>
    obtain ⟨hok, hlookup⟩ := (h.ok.routers r).set (t := ((N.routers r).cancel it.event).schedule k
        { it with learned := true } (T.config r).m_timeoutDelay .invalidateRoute) at_k rfl
          (Nat.le_refl _)
      hlt (.inl rfl) rfl ((h.ok.routers r).routes.entries it hit) rfl id
    refine h.ok.same hok fun d => ?_
    rw [hlookup]
    by_cases hd : it.entry.key = d
    · rw [if_pos hd]
      exact ((h.ok.routers r).routes.lookup_eq_some.mpr ⟨it, hit, hd, rfl⟩).symm
    · rw [if_neg hd]
  | update same sender better =>
    obtain ⟨hinterface, hle⟩ := h.gateway hit same sender
    exact h.take at_k same hle rfl (Nat.le_refl _) hlt (.inl rfl) rfl (renewed_status ..)
      ((renewed_key ..).trans same) (renewed_metric ..) ((renewed_gateway ..).trans sender.symm)
      ((renewed_interface ..).trans hinterface)
  | replace same sender better =>
    have hle : ((T.config r).rteMetric m.incomingInterface rte).toNat ≤
        it.entry.m_metric.toNat := by
      rcases better with hbetter | ⟨hequal, -⟩
      · exact Nat.le_of_lt ((hmetric _).mp hbetter)
      · rw [hequal, UInt8.toNat_toUInt32]
    exact h.take at_k same hle rfl (Nat.le_succ _) (Nat.lt_succ_self _) (.inr (Nat.le_refl _)) rfl
      (renewed_status ..) (renewed_key ..) (renewed_metric ..) (renewed_gateway ..)
      (renewed_interface ..)
  | invalidate same sender worse =>
    obtain ⟨-, hle⟩ := h.gateway hit same sender
    have hlt := lt_iff_toNat_lt.mp worse
    rw [UInt8.toNat_toUInt32] at hlt
    omega

theorem Handled.add (h : Handled T N r m rte rtes rest) (new : rte.key ∉ keysOf (N.routers r))
    (reach : (T.config r).rteMetric m.incomingInterface rte ≠ (T.config r).m_linkDown) :
    NetworkOk T (N.set r (addRoute (T.config r) (N.routers r) m rte)) := by
  set s := N.routers r with hs
  have hrouter : RouterOk T r s := h.ok.routers r
  let it : Route := ⟨s.nextRoute, addedEntry (T.config r) m rte, some s.nextUid, true, 0⟩
  have hroutes : (addRoute (T.config r) s m rte).m_routes = it :: s.m_routes := rfl
  obtain ⟨q, j, hpeer, haddress⟩ :=
    h.ok.messages (r, m.incomingInterface) _ (h.queue ▸ mem_cons_self)
  have hne := T.address_ne_zero hpeer haddress
  have hexact := rteMetric_toNat h.exact
  have hbelow : ((T.config r).rteMetric m.incomingInterface rte).toNat ≠
    (T.config r).m_linkDown.toNat :=
    fun heq => reach (UInt32.toNat_inj.mp heq)
  have hmetric : it.entry.m_metric.toNat =
      rte.m_metric.toNat + ((T.config r).interfaceMetric m.incomingInterface).toNat := by
    have hbound := h.exact
    unfold ExactRte at hbound
    rw [addedEntry_metric, toNat_toUInt8]
    omega
  have hother : ∀ b ∈ s.m_routes, b.entry.key ≠ rte.key := fun b hb heq =>
    new (heq ▸ mem_map.mpr ⟨b, hb, rfl⟩)
  have hkey : it.entry.key = rte.key := addedEntry_key ..
  have hvia : routeOf r it = ⟨rte.m_metric.toNat +
      ((T.config r).interfaceMetric m.incomingInterface).toNat, some (r, m.incomingInterface)⟩ := by
    rw [routeOf, hmetric, addedEntry_gateway, addedEntry_interface, if_neg hne]
  have hentry : EntryOk T r it.entry :=
    { valid := addedEntry_status ..
      network := hkey ▸ rteKey_network rte
      origin := .inr ⟨(addedEntry_gateway ..).symm ▸ hne, by omega, q, j,
        (addedEntry_interface ..).symm ▸ hpeer, (addedEntry_gateway ..).symm ▸ haddress⟩ }
  have hok : RouterOk T r (addRoute (T.config r) s m rte) :=
    { routes := hroutes ▸
        { distinct := pairwise_cons.mpr
            ⟨fun b hb => (Nat.ne_of_lt (hrouter.routes_lt b hb)).symm, hrouter.routes.distinct⟩
          single := pairwise_cons.mpr
            ⟨fun b hb heq => absurd (heq.symm.trans hkey) (hother b hb), hrouter.routes.single⟩
          entries := forall_mem_cons.mpr ⟨hentry, hrouter.routes.entries⟩ }
      routes_lt := hroutes ▸ forall_mem_cons.mpr
        ⟨Nat.lt_succ_self _, fun b hb => Nat.lt_succ_of_lt (hrouter.routes_lt b hb)⟩
      sockets := hrouter.sockets }
  refine h.ok.adopt h.queue hok (fun d hd => ?_) ?_ fun rt hrt => ?_
  · rw [hroutes, lookup_cons, if_neg fun heq => hd (heq.symm.trans hkey)]
  · rw [hroutes, lookup_cons, if_pos hkey, hvia]
  · rw [lookup_eq_none.mpr hother] at hrt
    cases hrt

theorem Handled.handleRte (h : Handled T N r m rte rtes rest) (changed : Bool) :
    Ensures (handleRte (T.config r) m rte (N.routers r) changed)
      (fun p => NetworkOk T (N.set r p.1)) fun _ => False := by
  have hkeep : ∀ (k : ℕ) (ks : List ℕ) s it s', NetworkOk T (N.set r s) → s.m_routes[k]? = some it →
      RoundResult (T.config r) m rte s k it s' → NetworkOk T (N.set r s') := by
    intro k ks s it s' hs hit hround
    have hs' : Handled T (N.set r s) r m rte rtes rest := ⟨hs, h.queue, h.down, h.pos, h.exact⟩
    rw [← set_set s s']
    exact hs'.round (by rwa [set_routers_self]) (by rwa [set_routers_self])
  refine (responseLoop_range (I := fun _ s => NetworkOk T (N.set r s)) (fun _ s hs => ?_) hkeep ?_
    changed).bind fun p hp => ?_
  · have hdistinct := (hs.routers r).routes.distinct
    rwa [set_routers_self] at hdistinct
  · rw [set_self]
    exact h.ok
  obtain ⟨hs, hkeys, hfound⟩ := hp
  dsimp only
  split_ifs with hadd
  · have hs' : Handled T (N.set r p.1) r m rte rtes rest := ⟨hs, h.queue, h.down, h.pos, h.exact⟩
    have hnew : rte.key ∉ keysOf p.1 := by
      rw [hkeys, ← hfound]
      simpa using hadd.1
    have hadded := hs'.add (by rwa [set_routers_self]) hadd.2
    rw [set_set, set_routers_self] at hadded
    exact ensures_ok.mpr hadded
  · exact ensures_ok.mpr hs

theorem queueOf_update {l : R × ℕ} {ms : List Message} :
    queueOf { N with queue := update N.queue l ms } d =
      update (queueOf N d) l (ms.flatMap fun m => metricsOf d m.2) := by
  funext k
  by_cases hk : k = l
  · subst hk
    simp [queueOf]
  · simp [queueOf, update_of_ne hk]

theorem NetworkOk.lose (h : NetworkOk T N) {l : R × ℕ} {ms : List Message}
    (senders : ∀ m ∈ ms, ∃ m' ∈ N.queue l, m.1 = m'.1)
    (sub : ∀ d, (ms.flatMap fun m => metricsOf d m.2).Sublist (queueOf N d l)) :
    NetworkOk T { N with queue := update N.queue l ms } where
  routers := h.routers
  messages k m hm := by
    by_cases hk : k = l
    · subst hk
      obtain ⟨m', hm', hsender⟩ := senders m (by simpa using hm)
      rw [hsender]
      exact h.messages k m' hm'
    · exact h.messages k m (by simpa [update_of_ne hk] using hm)
  distances d := by
    rw [queueOf_update]
    refine (h.distances d).lose fun k => ?_
    by_cases hk : k = l
    · subst hk
      rw [update_self]
      exact sub d
    · rw [update_of_ne hk]

theorem NetworkOk.erase (h : NetworkOk T N) {l : R × ℕ} {ms : List Message}
    (sub : ms.Sublist (N.queue l)) : NetworkOk T { N with queue := update N.queue l ms } :=
  h.lose (fun m hm => ⟨m, sub.subset hm, rfl⟩) fun _ => sub.flatMap _

theorem NetworkOk.advance (h : NetworkOk T N) {l : R × ℕ} {a : UInt32} {rte : RipRte}
    {rtes : List RipRte} {rest : List Message} (queue : N.queue l = (a, rte :: rtes) :: rest) :
    NetworkOk T { N with queue := update N.queue l ((a, rtes) :: rest) } := by
  refine h.lose (fun m hm => ?_) fun d => ?_
  · rw [queue]
    rcases mem_cons.mp hm with rfl | hm
    · exact ⟨_, mem_cons_self, rfl⟩
    · exact ⟨m, mem_cons_of_mem _ hm, rfl⟩
  · rw [queueOf, queue, flatMap_cons, flatMap_cons]
    exact (((sublist_cons_self rte rtes).filter _).map _).append_right _

theorem NetworkOk.handleRtes (h : NetworkOk T N) {rtes : List RipRte}
    {rest : List Message}
    (queue : N.queue (r, m.incomingInterface) = (m.senderAddress, rtes) :: rest)
    (down : 1 < (T.config r).m_linkDown.toNat)
    (exact : ∀ rte ∈ rtes, 0 < rte.m_metric.toNat ∧ ExactRte (T.config r) m.incomingInterface rte)
    (changed : Bool) :
    Ensures (handleRtes (T.config r) m rtes (N.routers r) changed)
      (fun p => NetworkOk T ⟨update N.routers r p.1,
        update N.queue (r, m.incomingInterface) rest⟩) fun _ => False := by
  induction rtes generalizing N changed with
  | nil =>
    rw [handleRtes, ensures_ok, update_eq_self]
    refine h.erase ?_
    rw [queue]
    exact sublist_cons_self ..
  | cons rte rtes ih =>
    obtain ⟨hpos, hexact⟩ := exact rte mem_cons_self
    have hhandled : Handled T N r m rte rtes rest := ⟨h, queue, down, hpos, hexact⟩
    rw [handleRtes]
    refine (hhandled.handleRte changed).bind fun p hp => ?_
    have hnext := ih (hp.advance queue) (update_self ..)
      (fun b hb => exact b (mem_cons_of_mem _ hb)) p.2
    rw [show ({ N.set r p.1 with queue := _ } : Network R).routers r =
      p.1 from set_routers_self p.1] at hnext
    simpa [Network.set] using hnext

/-! ## Updates -/

omit [DecidableEq R] in
theorem EntryOk.rteOf {e : RipRoutingTableEntry} (h : EntryOk T r e) {i : ℕ} {periodic : Bool}
    {rte : RipRte} (sent : Rip.rteOf (T.config r) i periodic e = some rte) : rte.key = e.key ∧
      (rte.m_metric.toNat = e.m_metric.toNat ∨
        e.m_metric.toNat ≤ rte.m_metric.toNat ∧ e.m_gateway ≠ 0 ∧ e.m_interface = i) := by
  unfold Rip.rteOf at sent
  dsimp only at sent
  generalize hmetric : (if (T.config r).m_splitHorizonStrategy = .poisonReverse ∧
    decide (e.m_interface = i) = true then (T.config r).m_linkDown else e.m_metric.toUInt32) =
      metric
    at sent
  have hshape : (!((T.config r).addresses i).any fun a => decide (a.network = e.m_destNetwork)) =
    true ∧
      rte.key = e.key ∧ rte.m_metric = metric := by
    split_ifs at sent with hsend
    all_goals
      cases sent
      exact ⟨hsend.2, Prod.ext h.network rfl, rfl⟩
  obtain ⟨hother, hkey, rfl⟩ := hshape
  refine ⟨hkey, ?_⟩
  split_ifs at hmetric with hpoison
  · rw [← hmetric]
    have hinterface : e.m_interface = i := of_decide_eq_true hpoison.2
    rcases h.origin with ⟨-, -, -, hnetwork⟩ | ⟨hne, hlt, -⟩
    · -- the network of an interface is not sent there
      obtain ⟨a, ha, hsame⟩ := mem_map.mp hnetwork
      have hmem : a ∈ (T.config r).addresses i := hinterface ▸ (mem_filter.mp ha).1
      have hnetwork : a.network = e.m_destNetwork := congrArg Prod.fst hsame
      have hnone := any_eq_false.mp ((Bool.not_eq_true' _).mp hother) a hmem
      exact absurd (decide_eq_true hnetwork) hnone
    · exact .inr ⟨Nat.le_of_lt hlt, hne, hinterface⟩
  · rw [← hmetric]
    exact .inl (UInt8.toNat_toUInt32 _)

omit [DecidableEq R] in
theorem mem_packets {c : Config} {i : ℕ} {periodic : Bool} {hdr : List RipRte} {routes : List Route}
    {packet : List RipRte} (hpacket : packet ∈ packets c i periodic hdr routes) {rte : RipRte}
    (hrte : rte ∈ packet) :
    rte ∈ hdr ∨ ∃ it ∈ routes, Rip.rteOf c i periodic it.entry = some rte := by
  induction routes generalizing hdr with
  | nil =>
    rw [packets] at hpacket
    split_ifs at hpacket with hlen
    · rw [mem_singleton.mp hpacket] at hrte
      exact .inl hrte
    · cases hpacket
  | cons it rest ih =>
    have happend : rte ∈ hdr ++ (Rip.rteOf c i periodic it.entry).toList →
        rte ∈ hdr ∨ ∃ it' ∈ it :: rest, Rip.rteOf c i periodic it'.entry = some rte := fun hmem =>
      (mem_append.mp hmem).imp_right fun hlast => ⟨it, mem_cons_self, by simpa using hlast⟩
    have hlater : (∃ it' ∈ rest, Rip.rteOf c i periodic it'.entry = some rte) →
        ∃ it' ∈ it :: rest, Rip.rteOf c i periodic it'.entry = some rte := fun ⟨it', hit', heq⟩ =>
      ⟨it', mem_cons_of_mem _ hit', heq⟩
    rw [packets] at hpacket
    split_ifs at hpacket with hfull
    · rcases mem_cons.mp hpacket with rfl | hpacket
      · exact happend hrte
      · exact (ih hpacket).elim (fun hnil => absurd hnil not_mem_nil) fun h => .inr (hlater h)
    · exact (ih hpacket).elim happend fun h => .inr (hlater h)

theorem NetworkOk.enqueue (h : NetworkOk T N) {a : UInt32} {i : ℕ} {hdr : List RipRte}
    {periodic : Bool}
    (socket : a ∈ (T.config r).locals i) (sent : ∀ rte ∈ hdr, ∃ it ∈ (N.routers r).m_routes,
      Rip.rteOf (T.config r) i periodic it.entry = some rte) :
    NetworkOk T { N with queue := RipProtocol.enqueue T r N.queue (a, i, hdr) } := by
  unfold RipProtocol.enqueue
  dsimp only
  cases hpeer : T.peer r i with
  | none => exact h
  | some l =>
    have hback : T.peer l.1 l.2 = some (r, i) := T.peer_symm hpeer
    have hsrc : (links T).src l = r := by simp [links, hback]
    refine ⟨h.routers, fun k m hm => ?_, fun d => ?_⟩
    · by_cases hk : k = l
      · subst hk
        have hsplit : m ∈ N.queue k ∨ m = (a, hdr) := by simpa using hm
        rcases hsplit with hm | rfl
        · exact h.messages k m hm
        · exact ⟨r, i, hback, socket⟩
      · exact h.messages k m (by simpa [update_of_ne hk] using hm)
    · rw [queueOf_update, flatMap_append, flatMap_singleton]
      refine (h.distances d).advertise_all fun x hx => ?_
      obtain ⟨rte, hrte, rfl⟩ := mem_map.mp hx
      obtain ⟨hmem, hkey⟩ := mem_filter.mp hrte
      obtain ⟨it, hit, hof⟩ := sent rte hmem
      obtain ⟨hsame, hmetric⟩ := ((h.routers r).routes.entries it hit).rteOf hof
      have hd : it.entry.key = d := hsame.symm.trans (by simpa using hkey)
      refine ⟨routeOf r it, ?_, hmetric.imp_right fun ⟨hle, hne, hinterface⟩ =>
        ⟨hle, (r, i), ?_, ?_⟩⟩
      · rw [hsrc]
        exact (h.routers r).routes.lookup_eq_some.mpr ⟨it, hit, hd, rfl⟩
      · rw [routeOf, if_neg hne, hinterface]
      · simp [links, hpeer]

theorem NetworkOk.enqueueAll (h : NetworkOk T N) (periodic : Bool)
    {out : List (UInt32 × ℕ × List RipRte)} (sent : ∀ p ∈ out, p.1 ∈ (T.config r).locals p.2.1 ∧
      ∀ rte ∈ p.2.2, ∃ it ∈ (N.routers r).m_routes,
        Rip.rteOf (T.config r) p.2.1 periodic it.entry = some rte) :
    NetworkOk T { N with queue := out.foldl (RipProtocol.enqueue T r) N.queue } := by
  induction out generalizing N with
  | nil => exact h
  | cons p out ih =>
    obtain ⟨hsocket, hsent⟩ := sent p mem_cons_self
    exact ih (h.enqueue hsocket hsent) fun q hq => sent q (mem_cons_of_mem _ hq)

omit [DecidableEq R] in
theorem lookup_setRouteChanged (changed : Bool) :
    lookup r (routes.map fun it => { it with entry := it.entry.setRouteChanged changed }) d =
      lookup r routes d := by
  induction routes with
  | nil => rfl
  | cons it rest ih =>
    rw [map_cons, lookup_cons, lookup_cons, ih]
    rfl

theorem NetworkOk.update (h : NetworkOk T N) (periodic flag : Bool) :
    let p := doSendRouteUpdate (T.config r) periodic
      { N.routers r with m_nextTriggeredUpdate := flag }
    NetworkOk T ⟨update N.routers r p.2, p.1.foldl (RipProtocol.enqueue T r) N.queue⟩ := by
  intro p
  have hrouter := h.routers r
  have hsent : NetworkOk T { N with queue := p.1.foldl (RipProtocol.enqueue T r) N.queue } := by
    refine h.enqueueAll periodic fun out hout => ?_
    obtain ⟨iter, hiter, hout⟩ := mem_flatMap.mp hout
    obtain ⟨hdr, hhdr, rfl⟩ := mem_map.mp hout
    refine ⟨hrouter.sockets iter (mem_filter.mp hiter).1, fun rte hrte => ?_⟩
    exact (mem_packets hhdr hrte).resolve_left not_mem_nil
  have hok : RouterOk T r p.2 :=
    { routes :=
        { distinct := pairwise_map.mpr hrouter.routes.distinct
          single := pairwise_map.mpr hrouter.routes.single
          entries := fun it hit => by
            obtain ⟨it', hit', rfl⟩ := mem_map.mp hit
            have hentry := hrouter.routes.entries it' hit'
            exact ⟨hentry.valid, hentry.network, hentry.origin⟩ }
      routes_lt := fun it hit => by
        obtain ⟨it', hit', rfl⟩ := mem_map.mp hit
        exact hrouter.routes_lt it' hit'
      sockets := hrouter.sockets }
  exact hsent.same hok fun d => lookup_setRouteChanged false

/-! ## Runs -/

omit [DecidableEq R] in
theorem RouterOk.addAddresses (h : RouterOk T r s)
    (direct : ∀ it ∈ s.m_routes, it.entry.m_gateway = 0) {i : ℕ} (lt : i < (T.config r).nInterfaces)
    {addresses : List Ipv4InterfaceAddress} (sub : addresses ⊆ (T.config r).addresses i) :
    let t := addresses.foldl (fun (s : Rip) address =>
      if address.m_scope = .global then s.addNetworkRouteTo address.network address.m_mask i
        else s) s
    RouterOk T r t ∧ (∀ it ∈ t.m_routes, it.entry.m_gateway = 0) ∧
      t.m_initialized = s.m_initialized := by
  induction addresses generalizing s with
  | nil => exact ⟨h, direct, rfl⟩
  | cons a addresses ih =>
    obtain ⟨hmem, hsub⟩ := cons_subset.mp sub
    by_cases hglobal : a.m_scope = .global
    · let n : Route :=
        ⟨s.nextRoute, (((RipRoutingTableEntry.create a.network a.m_mask 0 i).setRouteMetric
        1).setRouteStatus .valid).setRouteChanged true, none, false, 0⟩
      have hzero : n.entry.m_gateway = 0 := by simp [n, RipRoutingTableEntry.create]
      have hkey : n.entry.key = (a.network, a.m_mask) := by
        simp [n, RipRoutingTableEntry.create]
        rfl
      have hinterface : n.entry.m_interface = i := by simp [n, RipRoutingTableEntry.create]
      have hnetwork : (a.network, a.m_mask) ∈ networksOf ((T.config r).addresses i) :=
        mem_map.mpr ⟨a, mem_filter.mpr ⟨hmem, decide_eq_true hglobal⟩, rfl⟩
      have hentry : EntryOk T r n.entry :=
        { valid := by simp [n]
          network := by
            rw [hkey, Ipv4InterfaceAddress.network, UInt32.and_assoc, UInt32.and_self]
          origin := .inl ⟨hzero, by simp [n], hinterface ▸ lt, hinterface ▸ hkey ▸ hnetwork⟩ }
      have hok : RoutesOk T r (n :: s.m_routes) :=
        { distinct := pairwise_cons.mpr
            ⟨fun b hb => (Nat.ne_of_lt (h.routes_lt b hb)).symm, h.routes.distinct⟩
          single := pairwise_cons.mpr
            ⟨fun b hb _ => ⟨hzero, direct b hb⟩, h.routes.single⟩
          entries := forall_mem_cons.mpr ⟨hentry, h.routes.entries⟩ }
      have hperm : (s.m_routes ++ [n]).Perm (n :: s.m_routes) := perm_append_singleton _ _
      have hnext : RouterOk T r (s.addNetworkRouteTo a.network a.m_mask i) :=
        { routes := hok.perm hperm.symm
          routes_lt := fun b hb => by
            rcases mem_cons.mp (hperm.mem_iff.mp hb) with rfl | hb
            · exact Nat.lt_succ_self _
            · exact Nat.lt_succ_of_lt (h.routes_lt b hb)
          sockets := h.sockets }
      have hrest := ih hnext (fun b hb => by
        rcases mem_cons.mp (hperm.mem_iff.mp hb) with rfl | hb
        · exact hzero
        · exact direct b hb) hsub
      rw [foldl_cons, if_pos hglobal]
      exact hrest
    · have hrest := ih h direct hsub
      simpa only [foldl_cons, if_neg hglobal] using hrest

omit [DecidableEq R] in
theorem coldStart_ok (r : R) : RouterOk T r (T.config r).coldStart ∧
    ∀ it ∈ (T.config r).coldStart.m_routes, it.entry.m_gateway = 0 := by
  have hup : ∀ (is : List ℕ) (s : Rip), (∀ i ∈ is, i < (T.config r).nInterfaces) → RouterOk T r s →
      (∀ it ∈ s.m_routes, it.entry.m_gateway = 0) → s.m_initialized = false →
      let t := is.foldl (fun s i => s.notifyInterfaceUp (T.config r) i) s
      RouterOk T r t ∧ ∀ it ∈ t.m_routes, it.entry.m_gateway = 0 := by
    intro is
    induction is with
    | nil => exact fun s _ hs hdirect _ => ⟨hs, hdirect⟩
    | cons i is ih =>
      intro s his hs hdirect hinitial
      have his' : ∀ j ∈ is, j < (T.config r).nInterfaces := fun j hj => his j (mem_cons_of_mem _ hj)
      by_cases hloopback : (T.config r).isLoopback i
      · have hrest := ih s his' hs hdirect hinitial
        rwa [show s = s.notifyInterfaceUp (T.config r) i by
          rw [notifyInterfaceUp, if_pos hloopback]] at hrest
      · obtain ⟨hs', hdirect', hinitial'⟩ := hs.addAddresses hdirect (his i mem_cons_self)
          (List.Subset.refl _)
        have hrest := ih _ his' hs' hdirect' (hinitial'.trans hinitial)
        rw [foldl_cons, notifyInterfaceUp, if_neg hloopback, if_pos (by simp [hinitial', hinitial])]
        exact hrest
  obtain ⟨hok, hdirect⟩ := hup (range (T.config r).nInterfaces) initial
    (fun i hi => mem_range.mp hi) ⟨⟨.nil, .nil, by simp [initial]⟩, by simp [initial],
      by simp [initial]⟩ (by simp [initial]) rfl
  refine ⟨⟨hok.routes, hok.routes_lt, fun iter hiter => ?_⟩, hdirect⟩
  rcases mem_append.mp hiter with hiter | hiter
  · exact hok.sockets iter hiter
  · obtain ⟨i, -, hi⟩ := mem_flatMap.mp hiter
    split_ifs at hi with hskip
    · cases hi
    · obtain ⟨a, ha, rfl⟩ := mem_map.mp hi
      exact mem_map.mpr ⟨a, (mem_filter.mp ha).1, rfl⟩

omit [DecidableEq R] in
theorem networkOk_coldStart : NetworkOk T (coldStart T) where
  routers r := (coldStart_ok r).1
  messages l m hm := absurd hm not_mem_nil
  distances d := by
    refine .start (fun r rt hrt => ?_) fun l => rfl
    obtain ⟨it, hit, -, rfl⟩ := (coldStart_ok r).1.routes.lookup_eq_some.mp hrt
    rw [routeOf, if_pos ((coldStart_ok r).2 it hit)]

def MetricsExact (T : Topology R) (N : Network R) : NetworkAction R → Prop
  | .deliver r i => ∀ m ∈ (N.queue (r, i)).head?, i ∉ (T.config r).m_interfaceExclusions →
      (m.2.any fun rte => rte.malformed (T.config r).m_linkDown) = false →
      2 ≤ (T.config r).m_linkDown ∧ ∀ rte ∈ m.2, ExactRte (T.config r) i rte
  | _ => True

theorem networkStep_ok (N : Network R) (a : NetworkAction R) (h : NetworkOk T N)
    (exact : MetricsExact T N a) : Ensures (networkStep T N a) (NetworkOk T) fun _ => False := by
  cases a with
  | update r periodic =>
    rw [networkStep]
    cases periodic with
    | true => exact h.update true false
    | false => exact h.update false false
  | deliver r i =>
    rw [networkStep]
    cases hqueue : N.queue (r, i) with
    | nil => exact h
    | cons m rest =>
      have herase : NetworkOk T { N with queue := update N.queue (r, i) rest } := by
        refine h.erase ?_
        rw [hqueue]
        exact sublist_cons_self ..
      have hignored : NetworkOk T ⟨update N.routers r (N.routers r),
          update N.queue (r, i) rest⟩ := by
        rw [update_eq_self]
        exact herase
      dsimp only
      rw [handleResponses]
      by_cases hexcluded : i ∈ (T.config r).m_interfaceExclusions
      · rw [if_pos hexcluded]
        exact hignored
      rw [if_neg hexcluded]
      dsimp only
      by_cases hmalformed : (m.2.any fun rte => rte.malformed (T.config r).m_linkDown) = true
      · rw [if_pos hmalformed]
        exact hignored
      rw [if_neg hmalformed]
      obtain ⟨hdown, hexact⟩ :=
        exact m (by simp [hqueue]) hexcluded (Bool.eq_false_iff.mpr hmalformed)
      have hpos : ∀ rte ∈ m.2, 0 < rte.m_metric.toNat := by
        intro rte hrte
        refine Nat.pos_of_ne_zero fun hzero => hmalformed (any_eq_true.mpr ⟨rte, hrte, ?_⟩)
        have hmetric : rte.m_metric = 0 := UInt32.toNat_inj.mp hzero
        simp [RipRte.malformed, hmetric]
      have hhandled := h.handleRtes (m := ⟨m.2, m.1, i⟩) hqueue (le_iff_toNat_le.mp hdown)
        (fun rte hrte => ⟨hpos rte hrte, hexact rte hrte⟩) false
      refine (hhandled.bind fun p hp => ?_).bind fun s hs => ensures_ok.mpr hs
      split_ifs with hchanged
      · have hrouter := hp.routers r
        have hself : (update N.routers r p.1) r = p.1 := update_self ..
        dsimp only at hrouter
        rw [hself] at hrouter
        have htriggered := hp.same (r := r) (s := p.1.sendTriggeredRouteUpdate)
          ⟨hrouter.routes, hrouter.routes_lt, hrouter.sockets⟩ fun d => by
            dsimp only
            rw [hself]
            rfl
        simpa [Network.set] using htriggered
      · exact hp
  | lose r i k => exact h.erase (eraseIdx_sublist ..)
  | wait r t =>
    have hrouter := h.routers r
    exact h.same ⟨hrouter.routes, hrouter.routes_lt, hrouter.sockets⟩ fun d => rfl

/-! ## Paths of gateways -/

omit [DecidableEq R] in
theorem NetworkOk.known (h : NetworkOk T N) {e : RipRoutingTableEntry} (entry : HasEntry N r d e) :
    EntryOk T r e ∧ tableOf N d r = some
      ⟨e.m_metric.toNat, if e.m_gateway = 0 then none else some (r, e.m_interface)⟩ := by
  obtain ⟨⟨it, hit, rfl⟩, -, hkey⟩ := entry
  exact ⟨(h.routers r).routes.entries it hit,
    (h.routers r).routes.lookup_eq_some.mpr ⟨it, hit, hkey, rfl⟩⟩

omit [DecidableEq R] in
theorem NetworkOk.hasEntry (h : NetworkOk T N) {rt : DistanceVector.Route (R × ℕ)}
    (known : tableOf N d r = some rt) : ∃ e, HasEntry N r d e := by
  obtain ⟨it, hit, hkey, -⟩ := (h.routers r).routes.lookup_eq_some.mp known
  exact ⟨it.entry, ⟨it, hit, rfl⟩, ((h.routers r).routes.entries it hit).valid, hkey⟩

omit [DecidableEq R] in
theorem IsGateway.link {e : RipRoutingTableEntry} {i : ℕ} {q : R} (gateway : IsGateway T e r i q)
    (ok : EntryOk T r e) : e.m_interface = i ∧ (links T).src (r, i) = q := by
  obtain ⟨hne, j, hpeer, haddress⟩ := gateway
  refine ⟨?_, by simp [links, hpeer]⟩
  rcases ok.origin with hdirect | ⟨-, -, q', j', hpeer', haddress'⟩
  · exact absurd hdirect.1 hne
  · have hends := T.address_unique hpeer' hpeer haddress' haddress
    cases hends
    have hback := T.peer_symm hpeer'
    rw [T.peer_symm hpeer] at hback
    cases hback
    rfl

omit [DecidableEq R] in
theorem NetworkOk.follows (h : NetworkOk T N) {e : RipRoutingTableEntry} {p : List R} {cost : ℕ}
    (path : FollowsGateways T N d r e p cost) :
    DistanceVector.Follows (links T) (tableOf N d) r p cost := by
  induction path with
  | @attached r e entry direct =>
    obtain ⟨hok, hknown⟩ := h.known entry
    rw [if_pos direct] at hknown
    have hone : e.m_metric.toNat = 1 := by
      rcases hok.origin with ⟨-, hone, -⟩ | hlearned
      · rw [hone]
        rfl
      · exact absurd direct hlearned.1
    rw [← hone]
    exact .attached hknown rfl
  | @hop r q i e e' p cost entry gateway rest ih =>
    obtain ⟨hok, hknown⟩ := h.known entry
    obtain ⟨hinterface, hsrc⟩ := gateway.link hok
    rw [if_neg gateway.1, hinterface] at hknown
    exact .hop hknown rfl (hsrc ▸ ih)

omit [DecidableEq R] in
theorem NetworkOk.followsGateways (h : NetworkOk T N) {p : List R} {m : ℕ}
    (path : DistanceVector.Follows (links T) (tableOf N d) r p m) {e : RipRoutingTableEntry}
    (entry : HasEntry N r d e) : ∃ cost, FollowsGateways T N d r e p cost := by
  induction path generalizing e with
  | @attached r rt known here =>
    obtain ⟨hok, hknown⟩ := h.known entry
    rw [known] at hknown
    cases hknown
    refine ⟨1, .attached entry ?_⟩
    by_contra hne
    simp [if_neg hne] at here
  | @hop r rt l p m known via rest ih =>
    obtain ⟨hok, hknown⟩ := h.known entry
    have hvia : ∃ rt', tableOf N d ((links T).src l) = some rt' :=
      ((h.distances d).via known via).2.imp fun _ hrt => hrt.1
    rw [known] at hknown
    cases hknown
    have hne : e.m_gateway ≠ 0 := by
      intro hzero
      simp [if_pos hzero] at via
    have hl : l = (r, e.m_interface) := by simpa [if_neg hne] using via.symm
    obtain ⟨q, j, hpeer, haddress⟩ := (hok.origin.resolve_left fun ho => hne ho.1).2.2
    have hsrc : (links T).src l = q := by simp [links, hl, hpeer]
    obtain ⟨rt', hrt'⟩ := hvia
    obtain ⟨e', he'⟩ := h.hasEntry hrt'
    obtain ⟨cost, hpath⟩ := ih he'
    rw [hsrc] at hpath
    exact ⟨_, .hop entry ⟨hne, j, hpeer, haddress⟩ hpath⟩

omit [DecidableEq R] in
theorem FollowsGateways.last {e : RipRoutingTableEntry} {p : List R} {cost : ℕ}
    (path : FollowsGateways T N d r e p cost) :
    ∃ q, p.getLast? = some q ∧ ∃ e, HasEntry N q d e ∧ e.m_gateway = 0 := by
  induction path with
  | @attached r e entry direct => exact ⟨r, rfl, e, entry, direct⟩
  | @hop r q i e e' p cost entry gateway rest ih =>
    obtain ⟨q', hlast, hdirect⟩ := ih
    refine ⟨q', ?_, hdirect⟩
    rw [List.getLast?_cons, hlast]
    rfl

omit [DecidableEq R] in
theorem NetworkOk.loopFree (h : NetworkOk T N) : LoopFree T N where
  acyclic d r hcycle := by
    refine (h.distances d).acyclic r (Relation.TransGen.mono (fun a b hab => ?_) r r hcycle)
    obtain ⟨e, i, entry, gateway⟩ := hab
    obtain ⟨hok, hknown⟩ := h.known entry
    obtain ⟨hinterface, hsrc⟩ := gateway.link hok
    rw [if_neg gateway.1, hinterface] at hknown
    exact ⟨_, (a, i), hknown, rfl, hsrc⟩
  path {d r e p cost} path := by
    have hentry : HasEntry N r d e := by cases path <;> assumption
    obtain ⟨-, hcost, hnodup⟩ := (h.distances d).follows (h.follows path) (h.known hentry).2
    refine ⟨hnodup, ?_, hcost⟩
    obtain ⟨q, hlast, e', hentry', hdirect⟩ := path.last
    rcases (h.known hentry').1.origin with ⟨-, -, hlt, hnetwork⟩ | hlearned
    · exact ⟨q, hlast, e'.m_interface, hlt, hentry'.2.2 ▸ hnetwork⟩
    · exact absurd hdirect hlearned.1
  reaches {d r e} entry := by
    obtain ⟨p, m, hpath⟩ := (h.distances d).exists_follows (h.known entry).2
    exact ⟨p, h.followsGateways hpath entry⟩

/-- As long as metrics fit, gateways never form a loop. -/
theorem rip_loopFree (T : Topology R) {actions : List (NetworkAction R)}
    (along : Along (networkStep T) (fun N a => NetworkPossible N a ∧ MetricsExact T N a)
      (coldStart T) actions) :
    Ensures (exec (networkStep T) (coldStart T) actions) (LoopFree T) fun _ => False := by
  have hok : Ensures (exec (networkStep T) (coldStart T) actions) (NetworkOk T) fun _ => False :=
    ensures_exec (fun N a hN hguard => networkStep_ok N a hN hguard.2) networkOk_coldStart along
  exact hok.weaken fun N hN => hN.loopFree

/-! ## Two routers -/

instance (N : Network R) (a : NetworkAction R) : Decidable (NetworkPossible N a) :=
  match a with
  | .wait .. | .update .. | .deliver .. | .lose .. => by unfold NetworkPossible; infer_instance

instance (N : Network R) (a : NetworkAction R) : Decidable (MetricsExact T N a) :=
  match a with
  | .deliver .. | .update .. | .lose .. | .wait .. => by unfold MetricsExact; infer_instance

def linkAddress (r : Fin 2) : UInt32 := if r = 0 then 0x0a000101 else 0x0a000102

variable (linkDown : UInt32)

/-- The first router has the network `10.0.0.0/24` at interface 0; interface 1 is that of the
link. -/
def pairConfig (metric : UInt8) (r : Fin 2) : Config where
  nInterfaces := 2
  m_linkDown := linkDown
  m_timeoutDelay := 180
  m_garbageCollectionDelay := 120
  m_splitHorizonStrategy := .poisonReverse
  m_interfaceExclusions := []
  m_interfaceMetrics _ := some metric
  addresses i :=
    if i = 1 then [⟨linkAddress r, 0xffffff00, .global⟩]
    else if i = 0 ∧ r = 0 then [⟨0x0a000001, 0xffffff00, .global⟩]
    else []
  isLoopback _ := false
  mtu _ := 1500

theorem pair_locals (metric : UInt8) (r : Fin 2) :
    (pairConfig linkDown metric r).locals 1 = [linkAddress r] := rfl

def pairTopology (metric : UInt8) (pos : 0 < metric) : Topology (Fin 2) where
  config := pairConfig linkDown metric
  peer r i := if i = 1 then some (1 - r, 1) else none
  peer_symm {r i q j} h := by
    have hback : ∀ r : Fin 2, 1 - (1 - r) = r := by decide
    split_ifs at h with hi
    cases h
    rw [if_pos rfl, hback, hi]
  address_unique {r i q j r' i' q' j' a} h h' ha ha' := by
    have hunique : ∀ r r' : Fin 2, linkAddress r = linkAddress r' → r = r' := by decide
    split_ifs at h with hi
    split_ifs at h' with hi'
    cases h
    cases h'
    rw [pair_locals, mem_singleton] at ha ha'
    rw [hunique _ _ (ha.symm.trans ha')]
  address_ne_zero {r i q j a} h ha := by
    have hne : ∀ r : Fin 2, linkAddress r ≠ 0 := by decide
    split_ifs at h with hi
    cases h
    rw [pair_locals, mem_singleton] at ha
    exact ha ▸ hne _
  interfaceMetric_pos r i := by
    have hpos := UInt8.lt_iff_toNat_lt.mp pos
    simpa [Config.interfaceMetric, pairConfig] using hpos

def pairRun : List (NetworkAction (Fin 2)) :=
  [.update 0 true, .update 1 true, .deliver 1 1, .wait 0 30, .update 1 false, .lose 0 1 0,
    .deliver 0 1, .update 0 true, .update 0 false, .deliver 1 1]

theorem rip_loopFree_pair :
    Ensures (exec (networkStep (pairTopology 16 1 (by decide)))
      (coldStart (pairTopology 16 1 (by decide)))
      pairRun) (LoopFree (pairTopology 16 1 (by decide))) fun _ => False :=
  rip_loopFree (pairTopology 16 1 (by decide)) (by decide +kernel)

/-- The cost of the path is 256, and the metric is zero. -/
theorem rip_metric_wraps : let T := pairTopology 300 255 (by decide)
    let actions := [.update 0 true, .deliver 1 1]
    Along (networkStep T) (NetworkPossible (R := Fin 2)) (coldStart T) actions ∧
      Ensures (exec (networkStep T) (coldStart T) actions) (fun N => ¬LoopFree T N) fun _ =>
        False := by
  intro T actions
  let d : UInt32 × UInt32 := (0x0a000000, 0xffffff00)
  let direct : RipRoutingTableEntry := ⟨0x0a000000, 0xffffff00, 0, 0, 0, 1, .valid, false⟩
  let learned : RipRoutingTableEntry :=
    ⟨0x0a000000, 0xffffff00, linkAddress 0, 1, 0, 0, .valid, true⟩
  have hrun : Ensures (exec (networkStep T) (coldStart T) actions)
      (fun N => (∃ it ∈ (N.routers 0).m_routes, it.entry = direct) ∧
        ∃ it ∈ (N.routers 1).m_routes, it.entry = learned) fun _ => False := by
    decide +kernel
  refine ⟨by decide +kernel, hrun.weaken fun N ⟨hdirect, hlearned⟩ hfree => ?_⟩
  have hpath : FollowsGateways T N d 1 learned [1, 0] (1 + 255) := by
    refine .hop (i := 1) (q := 0) ⟨hlearned, rfl, rfl⟩ ⟨by decide, 1, rfl, ?_⟩
      (.attached ⟨hdirect, rfl, rfl⟩ rfl)
    exact mem_singleton_self _
  exact absurd (hfree.path hpath).2.2 (by decide)

end Egsr.Internet.RipProtocol
