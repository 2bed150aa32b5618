import Egsr.Dsr.BestRoutes

/-! Runs of the cache of links. The table is computed from the links there are when a
route is learned or a link breaks. A lookup takes expired links away and computes
nothing, so it goes by a table that may still use them. -/

namespace Egsr.Dsr.LinkCache

open Lib Lib.ShortestPath Lib.Run Lib.Outcome List Option DsrRouteCache

structure Path {α : Type} (link : α → α → Prop) (a b : α) (route : List α) : Prop where
  head : route.head? = some a
  last : route.getLast? = some b
  chain : route.IsChain link

section Paths

variable {g : NetGraph} {link : Ipv4Address → Ipv4Address → Prop} {a b : Ipv4Address}
    {p route : List Ipv4Address} {c : ℕ}

theorem walk_of_path (sub : ∀ a b, link a b → edge g a b = some 1) (path : Path link a b route) :
    ∃ p, route = a :: p ∧ Walk (edge g) a p b p.length := by
  induction route generalizing a with
  | nil => cases path.head
  | cons x route ih =>
    obtain ⟨head, last, chain⟩ := path
    have heq : x = a := Option.some.inj head
    subst heq
    cases route with
    | nil =>
      have heq : x = b := Option.some.inj last
      subst heq
      exact ⟨[], rfl, .nil x⟩
    | cons y route =>
      obtain ⟨first, rest⟩ := isChain_cons_cons.mp chain
      rw [List.getLast?_cons_cons] at last
      obtain ⟨p, heq, walk⟩ := ih ⟨rfl, last, rest⟩
      cases heq
      refine ⟨y :: route, rfl, ?_⟩
      rw [length_cons, Nat.add_comm]
      exact .cons (sub x y first) walk

theorem getLast?_of_walk (walk : Walk (edge g) a p b c) : (a :: p).getLast? = some b := by
  induction walk with
  | nil => rfl
  | cons _ _ ih =>
    rw [List.getLast?_cons_cons]
    exact ih

end Paths

def Live (s : DsrRouteCache) (a b : Ipv4Address) : Prop :=
  ∃ t, s.m_linkCache.find? (.between a b) = some t ∧ 0 < s.stability t

structure LookupRight (c : Config) (node id : Ipv4Address) (s : DsrRouteCache) : Prop where
  found : (∃ rt, (s.lookupRoute_Link c id).2 = some rt) ↔ ∃ route, Path (Live s) node id route
  shortest : ∀ rt, (s.lookupRoute_Link c id).2 = some rt → Path (Live s) node id rt.m_path ∧
    ∀ route, Path (Live s) node id route → rt.m_path.length ≤ route.length

def Unexpired (s : DsrRouteCache) (id : Ipv4Address) : Prop :=
  ∀ route, s.m_bestRoutesTable_link.find? id = some route → route.IsChain (Live s)

/-- The graph has the links of the cache, and the table was computed from the graph. -/
structure CacheOk (node : Ipv4Address) (s : DsrRouteCache) : Prop where
  proper : OrderedMap.All (fun link _ => link.Proper) s.m_linkCache
  recorded : ∀ a b, (s.m_linkCache.find? (.between a b)).isSome → edge s.m_netGraph a b = some 1
  best : Best s.m_netGraph node s.m_bestRoutesTable_link

section Lookup

variable {c : Config} {node id : Ipv4Address} {s : DsrRouteCache}

theorem CacheOk.walk (h : CacheOk node s) {route : List Ipv4Address}
    (path : Path (Live s) node id route) :
    ∃ p, route = node :: p ∧ Walk (edge s.m_netGraph) node p id p.length :=
  walk_of_path (fun a b ⟨_, hlink, _⟩ => h.recorded a b (isSome_of_mem hlink)) path

theorem CacheOk.lookup_eq (h : CacheOk node s) : (s.lookupRoute_Link c id).2 =
    (s.m_bestRoutesTable_link.find? id).map fun route =>
      ⟨route, id, c.routeCacheTimeout + s.now⟩ := by
  rw [lookupRoute_Link]
  dsimp only [DsrRouteCache.purgeLinkNode]
  cases hroute : s.m_bestRoutesTable_link.find? id with
  | none => rfl
  | some route =>
    obtain ⟨ne, p, rfl, walk, -⟩ := h.best.found id route hroute
    have long : ¬ (node :: p).length < 2 := by
      cases p with
      | nil => exact absurd (eq_of_walk_nil walk) ne
      | cons x p => simp
    dsimp only
    rw [if_neg long]
    rfl

theorem CacheOk.lookup_iff (h : CacheOk node s) (few : s.m_netGraph.entries.length ≤ mAXWEIGHT)
    (ne : id ≠ node) : LookupRight c node id s ↔ Unexpired s id := by
  constructor
  · intro right route hroute
    refine (right.shortest ⟨route, id, c.routeCacheTimeout + s.now⟩ ?_).1.chain
    rw [h.lookup_eq, hroute]
    rfl
  · intro unexpired
    have shortest : ∀ rt, (s.lookupRoute_Link c id).2 = some rt → Path (Live s) node id rt.m_path ∧
        ∀ route, Path (Live s) node id route → rt.m_path.length ≤ route.length := by
      intro rt hrt
      rw [h.lookup_eq] at hrt
      obtain ⟨route, hroute, rfl⟩ := map_eq_some_iff.mp hrt
      have chain := unexpired route hroute
      obtain ⟨-, p, rfl, walk, least⟩ := h.best.found id route hroute
      refine ⟨⟨rfl, getLast?_of_walk walk, chain⟩, fun other path => ?_⟩
      obtain ⟨q, rfl, walk'⟩ := h.walk path
      exact Nat.succ_le_succ (least q _ walk')
    refine ⟨⟨fun ⟨rt, hrt⟩ => ⟨rt.m_path, (shortest rt hrt).1⟩, fun ⟨route, path⟩ => ?_⟩, shortest⟩
    obtain ⟨p, -, walk⟩ := h.walk path
    obtain ⟨best, hbest⟩ := isSome_iff_exists.mp (h.best.complete few id p _ ne walk)
    exact ⟨_, by rw [h.lookup_eq, hbest]; rfl⟩

end Lookup

/-! ## What the operations keep -/

section Operations

variable {c : Config} {node : Ipv4Address} {s s' : DsrRouteCache}

theorem CacheOk.of_fewer (h : CacheOk node s)
    (links : ∀ link, (s'.m_linkCache.find? link).isSome → (s.m_linkCache.find? link).isSome)
    (graph : s'.m_netGraph = s.m_netGraph)
    (table : s'.m_bestRoutesTable_link = s.m_bestRoutesTable_link) : CacheOk node s' where
  proper link t ht := by
    obtain ⟨t', ht'⟩ := isSome_iff_exists.mp (links link (isSome_of_mem ht))
    exact h.proper link t' ht'
  recorded a b hlink := by
    rw [graph]
    exact h.recorded a b (links _ hlink)
  best := by
    rw [graph, table]
    exact h.best

theorem CacheOk.purgeLinkNode (h : CacheOk node s) : CacheOk node s.purgeLinkNode := by
  refine h.of_fewer (fun link hlink => ?_) rfl rfl
  obtain ⟨t, ht⟩ := isSome_iff_exists.mp hlink
  rw [DsrRouteCache.purgeLinkNode, OrderedMap.find?_filter, filter_eq_some_iff] at ht
  exact isSome_of_mem ht.1

theorem CacheOk.extendLink (h : CacheOk node s) (hop : Ipv4Address × Ipv4Address) :
    CacheOk node (s.extendLink c hop) := by
  rw [DsrRouteCache.extendLink]
  cases ht : s.m_linkCache.find? (.between hop.1 hop.2) with
  | none => exact h
  | some t =>
    dsimp only
    split_ifs
    · refine h.of_fewer (fun link hlink => ?_) rfl rfl
      rcases OrderedMap.isSome_find?_set.mp hlink with rfl | old
      · exact isSome_of_mem ht
      · exact old
    · exact h

theorem CacheOk.extendNode (h : CacheOk node s) (i : Ipv4Address) :
    CacheOk node (s.extendNode c i) := by
  rw [DsrRouteCache.extendNode, incStability]
  cases s.m_nodeCache.find? i with
  | none => exact h
  | some t =>
    dsimp only
    split_ifs
    · exact h.of_fewer (fun _ old => old) rfl rfl
    · exact h

theorem CacheOk.useExtends (h : CacheOk node s) (rt : List Ipv4Address) :
    CacheOk node (s.useExtends c rt) := by
  rw [DsrRouteCache.useExtends]
  split_ifs
  · exact h.purgeLinkNode
  · refine foldlRecOn _ _ ?_ fun s h i _ => h.extendNode i
    exact foldlRecOn _ _ h.purgeLinkNode fun s h hop _ => h.extendLink hop

theorem rebuild_cacheOk (hnode : node ≠ broadcast)
    (proper : OrderedMap.All (fun link _ => link.Proper) s.m_linkCache) :
    Ensures (s.updateNetGraph.rebuildBestRouteTable node) (CacheOk node) fun _ => False := by
  have absent : ∀ v, s.m_linkCache.find? (.between v broadcast) = none := by
    intro v
    refine not_isSome_iff_eq_none.mp fun some => ?_
    obtain ⟨t, ht⟩ := isSome_iff_exists.mp some
    exact Link.not_proper_broadcast v (proper _ t ht)
  obtain ⟨s', hs', -, links, graph, best⟩ :=
    rebuildBestRouteTable_spec (roads_updateNetGraph proper) hnode absent
  rw [hs']
  refine ⟨?_, fun a b hlink => ?_, best⟩
  · rw [links]
    exact proper
  · rw [links] at hlink
    rw [graph, edge_updateNetGraph proper]
    exact if_pos hlink

theorem mem_of_mem_hops {nodelist : List Ipv4Address} {hop : Ipv4Address × Ipv4Address}
    (h : hop ∈ hops nodelist) : hop.1 ∈ nodelist ∧ hop.2 ∈ nodelist := by
  obtain ⟨first, second⟩ := of_mem_zip h
  exact ⟨first, mem_of_mem_tail second⟩

theorem CacheOk.addRoute_Link (h : CacheOk node s) (hnode : node ≠ broadcast)
    {nodelist : List Ipv4Address} (some : nodelist ≠ []) (unicast : broadcast ∉ nodelist) :
    Ensures (s.addRoute_Link c nodelist node) (CacheOk node) fun _ => False := by
  have links : ∀ s : DsrRouteCache, OrderedMap.All (fun link _ => link.Proper) s.m_linkCache →
    ∀ hop ∈ hops nodelist,
      OrderedMap.All (fun link _ => link.Proper) (s.addLink c hop).m_linkCache := by
    intro s proper hop hhop
    obtain ⟨first, second⟩ := mem_of_mem_hops hhop
    exact proper.set (Link.proper_between (fun heq => unicast (heq ▸ first)) fun heq =>
      unicast (heq ▸ second))
  rw [DsrRouteCache.addRoute_Link, if_neg (mt length_eq_zero_iff.mp some)]
  apply rebuild_cacheOk hnode
  exact foldlRecOn (motive :=
    fun s : DsrRouteCache => OrderedMap.All (fun link _ => link.Proper) s.m_linkCache)
    _ _ h.purgeLinkNode.proper links

theorem weaken_links (s : DsrRouteCache) (i : Ipv4Address) :
    (s.weaken c i).m_linkCache = s.m_linkCache := by
  rw [weaken, decStability]
  cases s.m_nodeCache.find? i <;> rfl

theorem CacheOk.deleteAllRoutesIncludeLink (h : CacheOk node s) (hnode : node ≠ broadcast)
    (errorSrc unreachNode : Ipv4Address) :
    Ensures (s.deleteAllRoutesIncludeLink c errorSrc unreachNode node) (CacheOk node) fun _ =>
      False := by
  rw [DsrRouteCache.deleteAllRoutesIncludeLink]
  apply rebuild_cacheOk hnode
  rw [weaken_links, weaken_links]
  exact (h.purgeLinkNode.proper.erase _).erase _

end Operations

/-! ## Runs -/

def Allowed : Action → Prop
  | .addRoute_Link nodelist => nodelist ≠ [] ∧ broadcast ∉ nodelist
  | _ => True

section Runs

variable {c : Config} {node : Ipv4Address} {s : DsrRouteCache} {a : Action}

theorem cacheOk_initial : CacheOk node .initial where
  proper := OrderedMap.all_empty
  recorded _ _ h := by cases h
  best := by
    constructor
    · intro v route hroute
      cases hroute
    · intro _ v p c ne walk
      cases walk with
      | nil => exact absurd rfl ne
      | cons road _ => cases road

theorem lookupRoute_Link_state (id : Ipv4Address) :
    (s.lookupRoute_Link c id).1 = s.purgeLinkNode := by
  rw [lookupRoute_Link]
  cases s.purgeLinkNode.m_bestRoutesTable_link.find? id with
  | none => rfl
  | some route =>
    dsimp only
    split_ifs <;> rfl

theorem CacheOk.step (h : CacheOk node s) (hnode : node ≠ broadcast) (allowed : Allowed a) :
    Ensures (step c node s a) (CacheOk node) fun _ => False := by
  cases a with
  | addRoute_Link nodelist => exact h.addRoute_Link hnode allowed.1 allowed.2
  | useExtends rt => exact h.useExtends rt
  | deleteAllRoutesIncludeLink errorSrc unreachNode =>
    exact h.deleteAllRoutesIncludeLink hnode errorSrc unreachNode
  | lookupRoute_Link id =>
    change CacheOk node (s.lookupRoute_Link c id).1
    rw [lookupRoute_Link_state]
    exact h.purgeLinkNode
  | wait delay => exact h.of_fewer (fun _ old => old) rfl rfl

theorem run_cacheOk (hnode : node ≠ broadcast) {as : List Action} (allowed : ∀ a ∈ as, Allowed a) :
    ∃ s, exec (LinkCache.step c node) .initial as = .ok s ∧ CacheOk node s := by
  have along : Along (LinkCache.step c node) (fun _ a => Allowed a) .initial as :=
    along_of_mem allowed
  exact (ensures_exec (fun s a h ha => h.step hnode ha) cacheOk_initial along).exists_ok

end Runs

/-- Every table is computed to the end, and with fewer than 65535 nodes a lookup is right in every
state of a run if and only if no link has expired of the route that the table holds. -/
theorem lookupRoute_Link_iff (c : Config) {node : Ipv4Address} (hnode : node ≠ broadcast)
    {as : List Action} (allowed : ∀ a ∈ as, Allowed a) :
    ∃ s, exec (step c node) .initial as = .ok s ∧ (s.m_netGraph.entries.length ≤ mAXWEIGHT →
      ∀ id, id ≠ node → (LookupRight c node id s ↔ Unexpired s id)) := by
  obtain ⟨s, run, ok⟩ := run_cacheOk (c := c) hnode allowed
  exact ⟨s, run, fun few id ne => ok.lookup_iff few ne⟩

def seconds : Config where
  m_stabilityDecrFactor := 2
  m_stabilityIncrFactor := 4
  m_initStability := 25
  m_minLifeTime := 1
  m_useExtends := 120
  routeCacheTimeout := 300

def learned : List Action := [.addRoute_Link [1, 2, 3], .wait 10, .addRoute_Link [1, 3]]

theorem learned_state : Ensures (exec (step seconds 1) .initial learned) (fun s =>
    s.m_netGraph.entries.length ≤ mAXWEIGHT ∧
      (s.lookupRoute_Link seconds 3).2 = some ⟨[1, 3], 3, 310⟩ ∧
      s.m_bestRoutesTable_link.find? 3 = some [1, 3] ∧
      s.m_linkCache.find? (.between 1 3) = some 25 ∧ 0 < s.stability 25) fun _ => False := by
  decide +kernel

/-- The shorter route is found. -/
theorem lookupRoute_Link_iff_learned : ∃ s, exec (step seconds 1) .initial learned = .ok s ∧
    (s.lookupRoute_Link seconds 3).2 = some ⟨[1, 3], 3, 310⟩ ∧ LookupRight seconds 1 3 s := by
  have allowed : ∀ a ∈ learned, Allowed a := by
    refine forall_mem_cons.mpr
      ⟨⟨?_, ?_⟩, forall_mem_cons.mpr ⟨trivial, forall_mem_singleton.mpr ⟨?_, ?_⟩⟩⟩
    all_goals decide
  obtain ⟨s, run, right⟩ :=
    lookupRoute_Link_iff seconds (by decide : (1 : Ipv4Address) ≠ broadcast) allowed
  obtain ⟨few, found, best, link, live⟩ := learned_state.of_ok run
  refine ⟨s, run, found, (right few 3 (by decide)).mpr fun route hroute => ?_⟩
  obtain rfl : [1, 3] = route := Option.some.inj (best.symm.trans hroute)
  exact isChain_cons_cons.mpr ⟨⟨25, link, live⟩, .singleton _⟩

/-- The link of a learned route has expired, and the route is found. -/
theorem stale_route : ∃ s, exec (step seconds 1) .initial
    [.addRoute_Link [1, 2], .wait 26] = .ok s ∧
    s.m_netGraph.entries.length < 65535 ∧ ¬ LookupRight seconds 1 2 s := by
  refine ⟨_, rfl, by decide, fun right => ?_⟩
  obtain ⟨⟨t, ht, later⟩, -⟩ := isChain_cons_cons.mp (right.shortest ⟨[1, 2], 2, 326⟩ rfl).1.chain
  have expire : (25 : ℤ) = t := Option.some.inj ht
  subst expire
  exact absurd later (by decide)

end Egsr.Dsr.LinkCache
