import Egsr.Lib.Outcome

/-! The external routes of OLSR. Every computation of the routing table removes
some of the old ones and adds those of the gateways that are reachable. -/

namespace Egsr.Olsr.ExternalRoutes

open Lib.Run Lib.Outcome List

structure AssociationTuple where
  gatewayAddr : UInt32
  networkAddr : UInt32
  netmask : UInt32
deriving DecidableEq

structure Association where
  networkAddr : UInt32
  netmask : UInt32
deriving DecidableEq

/-- An entry of `m_table`. -/
structure RoutingTableEntry where
  destAddr : UInt32
  nextAddr : UInt32
  interface : UInt32
  distance : UInt32
deriving DecidableEq

structure Ipv4RoutingTableEntry where
  m_dest : UInt32
  m_destNetworkMask : UInt32
  m_gateway : UInt32
  m_interface : UInt32
deriving DecidableEq

/-- `m_networkRoutes`: routes and their metrics. -/
abbrev HnaRoutingTable := List (Ipv4RoutingTableEntry × UInt32)

structure Call where
  associationSet : List AssociationTuple
  associations : List Association
  /-- `Lookup` in the routing table that was just computed. -/
  lookup : UInt32 → Option RoutingTableEntry

def clear : (i : ℕ) → HnaRoutingTable → HnaRoutingTable
  | _, [] => []
  | i, route :: rest => if i < (route :: rest).length then clear (i + 1) rest else route :: rest

variable (t : HnaRoutingTable)

def addNetworkRouteTo (network networkMask nextHop interface metric : UInt32) :
    HnaRoutingTable := t ++ [(⟨network, networkMask, nextHop, interface⟩, metric)]

abbrev Network := UInt32 × UInt32

variable (tuple : AssociationTuple)

def AssociationTuple.network : Network := (tuple.networkAddr, tuple.netmask)

def networkOf (route : Ipv4RoutingTableEntry × UInt32) : Network :=
  (route.1.m_dest, route.1.m_destNetworkMask)

variable (c : Call) (n : Network)

/-- `goToNextAssociationTuple`: the network is announced by the node itself. -/
def Call.announces : Bool :=
  c.associations.any fun a => a.networkAddr = n.1 && a.netmask = n.2

def associationRound (t : HnaRoutingTable) (tuple : AssociationTuple) : HnaRoutingTable :=
  if c.announces tuple.network then t
  else
    let gatewayEntry := c.lookup tuple.gatewayAddr
    let routeIndex := t.findIdx fun route => networkOf route = tuple.network
    match gatewayEntry with
    | none => t
    | some gatewayEntry =>
      let add := fun t => addNetworkRouteTo t tuple.networkAddr tuple.netmask gatewayEntry.nextAddr
        gatewayEntry.interface gatewayEntry.distance
      match t[routeIndex]? with
      | none => add t
      | some route =>
        if route.2 > gatewayEntry.distance then add (t.eraseIdx routeIndex) else t

def routingTableComputation : HnaRoutingTable :=
  c.associationSet.foldl (associationRound c) (clear 0 t)

/-- The entries of the gateways that are reachable and announce a network which this node does not
announce. -/
def Call.gateways : List RoutingTableEntry :=
  if c.announces n then []
  else (c.associationSet.filter fun tuple => tuple.network = n).filterMap fun tuple =>
    c.lookup tuple.gatewayAddr

def routeTo (e : RoutingTableEntry) : Ipv4RoutingTableEntry × UInt32 :=
  (⟨n.1, n.2, e.nextAddr, e.interface⟩, e.distance)

def Nearest (route : Ipv4RoutingTableEntry × UInt32) : Prop :=
  ∃ e ∈ c.gateways (networkOf route), route = routeTo (networkOf route) e ∧
    ∀ e' ∈ c.gateways (networkOf route), e.distance ≤ e'.distance

/-- There is one route for each network that has a gateway, to a nearest one, and no other. -/
structure Correct (t : HnaRoutingTable) : Prop where
  distinct : t.Pairwise fun a b => networkOf a ≠ networkOf b
  nearest : ∀ route ∈ t, Nearest c route
  complete : ∀ n, c.gateways n ≠ [] → ∃ route ∈ t, networkOf route = n

/-! ## One network at a time -/

/-- What a reachable gateway does to the routes for a network. -/
def improve (routes : HnaRoutingTable) (e : RoutingTableEntry) : HnaRoutingTable :=
  match routes with
  | [] => [routeTo n e]
  | r :: rest => if r.2 > e.distance then rest ++ [routeTo n e] else r :: rest

def routesFor (t : HnaRoutingTable) : HnaRoutingTable :=
  t.filter fun route => networkOf route = n

theorem mem_routesFor {n : Network} {t : HnaRoutingTable} {route : Ipv4RoutingTableEntry × UInt32} :
    route ∈ routesFor n t ↔ route ∈ t ∧ networkOf route = n := by
  simp [routesFor]

theorem routesFor_append (t u : HnaRoutingTable) :
    routesFor n (t ++ u) = routesFor n t ++ routesFor n u := filter_append ..

theorem findIdx_cases {α : Type} (p : α → Bool) (xs : List α) :
    (xs[xs.findIdx p]? = none ∧ ∀ x ∈ xs, p x = false) ∨
      ∃ ys x zs, xs = ys ++ x :: zs ∧ (∀ y ∈ ys, p y = false) ∧ p x = true ∧
        xs[xs.findIdx p]? = some x ∧ xs.eraseIdx (xs.findIdx p) = ys ++ zs := by
  induction xs with
  | nil => exact .inl ⟨rfl, fun x hx => absurd hx not_mem_nil⟩
  | cons a xs ih =>
    cases ha : p a with
    | true =>
      exact .inr ⟨[], a, xs, rfl, fun y hy => absurd hy not_mem_nil, ha,
        by simp [findIdx_cons, ha], by simp [findIdx_cons, ha]⟩
    | false =>
      rcases ih with ⟨hnone, hall⟩ | ⟨ys, x, zs, rfl, hys, hx, hget, herase⟩
      · exact .inl ⟨by simpa [findIdx_cons, ha] using hnone, forall_mem_cons.mpr ⟨ha, hall⟩⟩
      · exact .inr ⟨a :: ys, x, zs, rfl, forall_mem_cons.mpr ⟨ha, hys⟩, hx,
          by simpa [findIdx_cons, ha] using hget, by simp [findIdx_cons, ha, herase]⟩

theorem routesFor_add (e : RoutingTableEntry) (n : Network) :
    routesFor n (addNetworkRouteTo t tuple.networkAddr tuple.netmask e.nextAddr e.interface
      e.distance) = routesFor n t ++ if tuple.network = n then [routeTo n e] else [] := by
  rw [addNetworkRouteTo, routesFor_append]
  congr 1
  by_cases hn : tuple.network = n
  · subst hn
    simp [routesFor, networkOf, AssociationTuple.network, routeTo]
  · rw [if_neg hn]
    exact filter_cons_of_neg fun h => hn (of_decide_eq_true h)

theorem routesFor_round_own : routesFor tuple.network (associationRound c t tuple) =
      (if c.announces tuple.network then [] else (c.lookup tuple.gatewayAddr).toList).foldl
        (improve tuple.network) (routesFor tuple.network t) := by
  unfold associationRound
  by_cases hlocal : c.announces tuple.network
  · rw [if_pos hlocal, if_pos hlocal]
    rfl
  rw [if_neg hlocal, if_neg hlocal]
  cases hentry : c.lookup tuple.gatewayAddr with
  | none => rfl
  | some e =>
    dsimp only
    have hnone : ∀ u : HnaRoutingTable,
      (∀ route ∈ u, decide (networkOf route = tuple.network) = false) →
        routesFor tuple.network u = [] := by
      intro u hu
      rw [routesFor, filter_eq_nil_iff]
      simpa using hu
    rcases findIdx_cases (fun route => decide (networkOf route = tuple.network)) t with
      ⟨hget, hall⟩ | ⟨ys, r, zs, ht, hys, hr, hget, herase⟩
    · rw [hget, hnone t hall]
      dsimp only
      rw [routesFor_add, hnone t hall, if_pos rfl]
      rfl
    · have hfirst : routesFor tuple.network t = r :: routesFor tuple.network zs := by
        rw [ht, routesFor_append, hnone ys hys, nil_append]
        exact filter_cons_of_pos hr
      rw [hget, hfirst]
      dsimp only [Option.toList_some, foldl_cons, foldl_nil, improve]
      by_cases hworse : r.2 > e.distance
      · rw [if_pos hworse, if_pos hworse, herase, routesFor_add, if_pos rfl, routesFor_append,
          hnone ys hys, nil_append]
      · rw [if_neg hworse, if_neg hworse, hfirst]

theorem routesFor_round_other (t : HnaRoutingTable) (tuple : AssociationTuple) {n : Network}
    (other : tuple.network ≠ n) : routesFor n (associationRound c t tuple) = routesFor n t := by
  unfold associationRound
  by_cases hlocal : c.announces tuple.network
  · rw [if_pos hlocal]
  rw [if_neg hlocal]
  cases hentry : c.lookup tuple.gatewayAddr with
  | none => rfl
  | some e =>
    dsimp only
    rcases findIdx_cases (fun route => decide (networkOf route = tuple.network)) t with
      ⟨hget, hall⟩ | ⟨ys, r, zs, ht, hys, hr, hget, herase⟩
    · rw [hget]
      dsimp only
      rw [routesFor_add, if_neg other, append_nil]
    · have hr' : networkOf r ≠ n := fun heq => other ((of_decide_eq_true hr).symm.trans heq)
      have hsame : routesFor n (ys ++ zs) = routesFor n t := by
        rw [ht, routesFor_append, routesFor_append]
        congr 1
        exact (filter_cons_of_neg (by simpa using hr')).symm
      rw [hget]
      dsimp only
      by_cases hworse : r.2 > e.distance
      · rw [if_pos hworse, herase, routesFor_add, if_neg other, append_nil, hsame]
      · rw [if_neg hworse]

theorem routesFor_computation : routesFor n (routingTableComputation t c) =
      (c.gateways n).foldl (improve n) (routesFor n (clear 0 t)) := by
  have hfold : ∀ (tuples : List AssociationTuple) (u : HnaRoutingTable),
      routesFor n (tuples.foldl (associationRound c) u) =
        (if c.announces n then [] else (tuples.filter fun tuple => tuple.network = n).filterMap
          fun tuple => c.lookup tuple.gatewayAddr).foldl (improve n) (routesFor n u) := by
    intro tuples
    induction tuples with
    | nil => intro u; simp
    | cons tuple tuples ih =>
      intro u
      rw [foldl_cons, ih]
      by_cases hn : tuple.network = n
      · subst hn
        rw [routesFor_round_own]
        by_cases hlocal : c.announces tuple.network
        · simp [hlocal]
        · cases hentry : c.lookup tuple.gatewayAddr with
          | none => simp [hlocal, hentry]
          | some e => simp [hlocal, hentry]
      · rw [routesFor_round_other c u tuple hn]
        simp [hn]
  exact hfold c.associationSet (clear 0 t)

theorem length_improve {routes : HnaRoutingTable} (ne : routes ≠ []) (e : RoutingTableEntry) :
    (improve n routes e).length = routes.length := by
  cases routes with
  | nil => exact absurd rfl ne
  | cons r rest =>
    unfold improve
    dsimp only
    split_ifs <;> simp

theorem length_foldl_improve {routes : HnaRoutingTable} (ne : routes ≠ [])
    (es : List RoutingTableEntry) : (es.foldl (improve n) routes).length = routes.length := by
  induction es generalizing routes with
  | nil => rfl
  | cons e es ih =>
    have hlen := length_improve n ne e
    have hne : improve n routes e ≠ [] := by
      intro hnil
      rw [hnil] at hlen
      exact ne (eq_nil_of_length_eq_zero hlen.symm)
    rw [foldl_cons, ih hne, hlen]

theorem foldl_improve (es : List RoutingTableEntry) (r : Ipv4RoutingTableEntry × UInt32) :
    (es.foldl (improve n) [r] = [r] ∧ ∀ e ∈ es, r.2 ≤ e.distance) ∨
      ∃ e ∈ es, es.foldl (improve n) [r] = [routeTo n e] ∧ e.distance < r.2 ∧
        ∀ e' ∈ es, e.distance ≤ e'.distance := by
  induction es generalizing r with
  | nil => exact .inl ⟨rfl, fun e he => absurd he not_mem_nil⟩
  | cons e es ih =>
    by_cases hworse : r.2 > e.distance
    · have hstep : improve n [r] e = [routeTo n e] := if_pos hworse
      rw [foldl_cons, hstep]
      rcases ih (routeTo n e) with ⟨heq, hle⟩ | ⟨e', he', heq, hlt, hle⟩
      · exact .inr ⟨e, mem_cons_self, heq, hworse, forall_mem_cons.mpr ⟨UInt32.le_refl _, hle⟩⟩
      · exact .inr ⟨e', mem_cons_of_mem _ he', heq, UInt32.lt_trans hlt hworse,
          forall_mem_cons.mpr ⟨UInt32.le_of_lt hlt, hle⟩⟩
    · have hstep : improve n [r] e = [r] := if_neg hworse
      have hre := UInt32.not_lt.mp hworse
      rw [foldl_cons, hstep]
      rcases ih r with ⟨heq, hle⟩ | ⟨e', he', heq, hlt, hle⟩
      · exact .inl ⟨heq, forall_mem_cons.mpr ⟨hre, hle⟩⟩
      · exact .inr ⟨e', mem_cons_of_mem _ he', heq, hlt, forall_mem_cons.mpr
          ⟨UInt32.le_of_lt (UInt32.lt_of_lt_of_le hlt hre), hle⟩⟩

theorem foldl_improve_nil {es : List RoutingTableEntry} (ne : es ≠ []) :
    ∃ e ∈ es, es.foldl (improve n) [] = [routeTo n e] ∧ ∀ e' ∈ es, e.distance ≤ e'.distance := by
  cases es with
  | nil => exact absurd rfl ne
  | cons e es =>
    rcases foldl_improve n es (routeTo n e) with ⟨heq, hle⟩ | ⟨e', he', heq, hlt, hle⟩
    · exact ⟨e, mem_cons_self, heq, forall_mem_cons.mpr ⟨UInt32.le_refl _, hle⟩⟩
    · exact ⟨e', mem_cons_of_mem _ he', heq, forall_mem_cons.mpr ⟨UInt32.le_of_lt hlt, hle⟩⟩

def CorrectFor (routes : HnaRoutingTable) : Prop :=
  if c.gateways n = [] then routes = []
  else ∃ e ∈ c.gateways n, routes = [routeTo n e] ∧ ∀ e' ∈ c.gateways n, e.distance ≤ e'.distance

theorem correct_iff {c : Call} {t : HnaRoutingTable} :
    Correct c t ↔ ∀ n, CorrectFor c n (routesFor n t) := by
  constructor
  · intro h n
    unfold CorrectFor
    have hnearest : ∀ route ∈ routesFor n t, ∃ e ∈ c.gateways n, route = routeTo n e ∧
        ∀ e' ∈ c.gateways n, e.distance ≤ e'.distance := by
      intro route hroute
      obtain ⟨hmem, rfl⟩ := mem_routesFor.mp hroute
      exact h.nearest route hmem
    have hdistinct : (routesFor n t).Pairwise fun a b => networkOf a ≠ networkOf b :=
      h.distinct.filter _
    split_ifs with hnone
    · refine eq_nil_iff_forall_not_mem.mpr fun route hroute => ?_
      obtain ⟨e, he, -⟩ := hnearest route hroute
      rw [hnone] at he
      cases he
    · obtain ⟨route, hmem, hnetwork⟩ := h.complete n hnone
      have hroute : route ∈ routesFor n t := mem_routesFor.mpr ⟨hmem, hnetwork⟩
      cases hroutes : routesFor n t with
      | nil => simp [hroutes] at hroute
      | cons r rest =>
        rw [hroutes] at hnearest hdistinct
        obtain ⟨e, he, heq, hle⟩ := hnearest r mem_cons_self
        have hrest : rest = [] := by
          refine eq_nil_iff_forall_not_mem.mpr fun r' hr' => ?_
          refine (pairwise_cons.mp hdistinct).1 r' hr' ?_
          have hr : r ∈ routesFor n t := hroutes ▸ mem_cons_self
          have hr'' : r' ∈ routesFor n t := hroutes ▸ mem_cons_of_mem _ hr'
          exact (mem_routesFor.mp hr).2.trans (mem_routesFor.mp hr'').2.symm
        rw [hrest, heq]
        exact ⟨e, he, rfl, hle⟩
  · intro h
    have hone : ∀ route ∈ t, ∃ e ∈ c.gateways (networkOf route), routesFor (networkOf route) t =
        [routeTo (networkOf route) e] ∧ ∀ e' ∈ c.gateways (networkOf route), e.distance ≤
          e'.distance := by
      intro route hmem
      have hroute : route ∈ routesFor (networkOf route) t := mem_routesFor.mpr ⟨hmem, rfl⟩
      have hfor := h (networkOf route)
      unfold CorrectFor at hfor
      split_ifs at hfor with hnone
      · rw [hfor] at hroute
        cases hroute
      · exact hfor
    refine ⟨?_, fun route hmem => ?_, fun n hne => ?_⟩
    · refine pairwise_iff_forall_sublist.mpr fun {a b} htwo heq => ?_
      obtain ⟨e, -, hroutes, -⟩ := hone a (htwo.subset mem_cons_self)
      have hlen : ((a :: [b]).filter fun route => networkOf route = networkOf a).length ≤
          (routesFor (networkOf a) t).length := (htwo.filter _).length_le
      rw [hroutes] at hlen
      simp [heq] at hlen
    · obtain ⟨e, he, hroutes, hle⟩ := hone route hmem
      have hroute : route ∈ routesFor (networkOf route) t := mem_routesFor.mpr ⟨hmem, rfl⟩
      rw [hroutes] at hroute
      exact ⟨e, he, mem_singleton.mp hroute, hle⟩
    · have hfor := h n
      unfold CorrectFor at hfor
      rw [if_neg hne] at hfor
      obtain ⟨e, -, hroutes, -⟩ := hfor
      exact ⟨routeTo n e, (mem_routesFor.mp (hroutes ▸ mem_singleton_self _)).1, rfl⟩

/-- What the loop that clears the table leaves does no harm: there is one route for a network at
most, it is worse than a gateway that is reachable now, or it leads to a nearest one. -/
def Harmless : Prop :=
  (clear 0 t).Pairwise (fun a b => networkOf a ≠ networkOf b) ∧
    ∀ route ∈ clear 0 t, (∃ e ∈ c.gateways (networkOf route), e.distance < route.2) ∨
      Nearest c route

theorem routesFor_eq_singleton {t : HnaRoutingTable}
    (distinct : t.Pairwise fun a b => networkOf a ≠ networkOf b)
    {route : Ipv4RoutingTableEntry × UInt32}
    (mem : route ∈ t) : routesFor (networkOf route) t = [route] := by
  induction t with
  | nil => cases mem
  | cons r rest ih =>
    obtain ⟨hfirst, hrest⟩ := pairwise_cons.mp distinct
    rcases mem_cons.mp mem with rfl | hmem
    · have hnil : (rest.filter fun route' => networkOf route' = networkOf route) = [] := by
        refine filter_eq_nil_iff.mpr fun b hb hsame => ?_
        exact hfirst b hb (of_decide_eq_true hsame).symm
      rw [routesFor, filter_cons_of_pos (by simp), hnil]
    · rw [routesFor, filter_cons_of_neg (by simpa using hfirst route hmem)]
      exact ih hrest hmem

theorem correct_computation_iff : Correct c (routingTableComputation t c) ↔ Harmless t c := by
  rw [correct_iff]
  constructor
  · intro h
    have hlength : ∀ n, (routesFor n (clear 0 t)).length ≤ 1 := by
      intro n
      by_cases hnil : routesFor n (clear 0 t) = []
      · simp [hnil]
      · have hfor := h n
        rw [routesFor_computation] at hfor
        rw [← length_foldl_improve n hnil (c.gateways n)]
        unfold CorrectFor at hfor
        split_ifs at hfor with hnone
        · simp [hfor]
        · obtain ⟨e, -, heq, -⟩ := hfor
          simp [heq]
    have hdistinct : (clear 0 t).Pairwise fun a b => networkOf a ≠ networkOf b := by
      refine pairwise_iff_forall_sublist.mpr fun {a b} htwo heq => ?_
      have hlen : ((a :: [b]).filter fun route => networkOf route = networkOf a).length ≤
          (routesFor (networkOf a) (clear 0 t)).length := (htwo.filter _).length_le
      have hboth : ((a :: [b]).filter fun route => networkOf route = networkOf a).length = 2 := by
        simp [heq]
      have hone := hlength (networkOf a)
      omega
    refine ⟨hdistinct, fun route hmem => ?_⟩
    have hfor := h (networkOf route)
    rw [routesFor_computation, routesFor_eq_singleton hdistinct hmem] at hfor
    rcases foldl_improve (networkOf route) (c.gateways (networkOf route)) route with
      ⟨heq, hle⟩ | ⟨e, he, -, hlt, -⟩
    · unfold CorrectFor at hfor
      rw [heq] at hfor
      split_ifs at hfor with hnone
      obtain ⟨e, he, hroute, hnearest⟩ := hfor
      exact .inr ⟨e, he, List.cons.inj hroute |>.1, hnearest⟩
    · exact .inl ⟨e, he, hlt⟩
  · rintro ⟨hdistinct, hleft⟩ n
    rw [routesFor_computation]
    unfold CorrectFor
    by_cases hnil : routesFor n (clear 0 t) = []
    · rw [hnil]
      split_ifs with hnone
      · rw [hnone]
        rfl
      · exact foldl_improve_nil n hnone
    · obtain ⟨route, hroute⟩ := exists_mem_of_ne_nil _ hnil
      obtain ⟨hmem, rfl⟩ := mem_routesFor.mp hroute
      rw [routesFor_eq_singleton hdistinct hmem]
      have hsome : c.gateways (networkOf route) ≠ [] := by
        intro hnone
        rcases hleft route hmem with ⟨e, he, -⟩ | ⟨e, he, -⟩
        · exact absurd (hnone ▸ he) not_mem_nil
        · exact absurd (hnone ▸ he) not_mem_nil
      rw [if_neg hsome]
      rcases foldl_improve (networkOf route) (c.gateways (networkOf route)) route with
        ⟨heq, hle⟩ | ⟨e, he, heq, -, hnearest⟩
      · rcases hleft route hmem with ⟨e, he, hlt⟩ | ⟨e, he, hroute, hnearest⟩
        · exact absurd (hle e he) (UInt32.not_le.mpr hlt)
        · exact ⟨e, he, heq.trans (congrArg (fun r => [r]) hroute), hnearest⟩
      · exact ⟨e, he, heq, hnearest⟩

/-! ## Runs -/

def step : Except Empty HnaRoutingTable :=
  .ok (routingTableComputation t c)

/-- The table is correct right after every call if and only if no call finds harmful leftovers. -/
theorem externalRoutes_iff (t : HnaRoutingTable) (calls : List Call) :
    Along step (fun t c => Correct c (routingTableComputation t c)) t calls ↔
      Along step Harmless t calls :=
  ⟨fun h => h.mono fun t c => (correct_computation_iff t c).mp,
    fun h => h.mono fun t c => (correct_computation_iff t c).mpr⟩

def gatewayCalls : List Call :=
  let associationSet : List AssociationTuple :=
    [⟨0x0a000001, 0xc0a80100, 0xffffff00⟩, ⟨0x0a000002, 0xc0a80200, 0xffffff00⟩]
  [⟨associationSet, [], fun gateway => some ⟨gateway, gateway, 1, 1⟩⟩,
    ⟨associationSet, [], fun _ => none⟩]

theorem leftover_route :
    ¬Along step (fun t c => Correct c (routingTableComputation t c)) [] gatewayCalls := by
  rintro ⟨-, hrest⟩
  have hcorrect := (hrest _ rfl).1
  obtain ⟨e, he, -⟩ := hcorrect.nearest (⟨0xc0a80200, 0xffffff00, 0x0a000002, 1⟩, 1) (by decide)
  exact not_mem_nil he

end Egsr.Olsr.ExternalRoutes
