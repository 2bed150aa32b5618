import Egsr.Dsr.LinkCache
import Egsr.Lib.ShortestPath

/-! The graph that is kept of the links in the cache. It has a road of one hop for
every link, both ways, and so the cost of a walk is the number of its hops. -/

namespace Egsr.Dsr.LinkCache

open Lib Lib.ShortestPath List OrderedMap

theorem Link.between_comm (a b : Ipv4Address) : Link.between a b = .between b a := by
  rcases Std.lt_trichotomy a b with lt | rfl | gt
  · rw [Link.between, Link.between, if_pos lt, if_neg (Std.not_gt_of_lt lt)]
  · rfl
  · rw [Link.between, Link.between, if_pos gt, if_neg (Std.not_gt_of_lt gt)]

theorem Link.between_eq (a b : Ipv4Address) : Link.between a b = ⟨a, b⟩ ∨
    Link.between a b = ⟨b, a⟩ := by
  rw [Link.between]
  split_ifs
  · exact .inl rfl
  · exact .inr rfl

structure Link.Proper (link : Link) : Prop where
  ordered : Link.between link.m_low link.m_high = link
  low : link.m_low ≠ broadcast
  high : link.m_high ≠ broadcast

theorem Link.proper_between {a b : Ipv4Address} (ha : a ≠ broadcast) (hb : b ≠ broadcast) :
    (Link.between a b).Proper := by
  rcases Link.between_eq a b with heq | heq
  · refine ⟨?_, ?_, ?_⟩ <;> rw [heq]
    · exact heq
    · exact ha
    · exact hb
  · refine ⟨?_, ?_, ?_⟩ <;> rw [heq]
    · rw [Link.between_comm, heq]
    · exact hb
    · exact ha

theorem Link.not_proper_broadcast (a : Ipv4Address) : ¬ (Link.between a broadcast).Proper := by
  intro proper
  rcases Link.between_eq a broadcast with heq | heq
  · exact proper.high (by rw [heq])
  · exact proper.low (by rw [heq])

/-! ## The roads -/

def edge (g : NetGraph) (a b : Ipv4Address) : Option ℕ := (g.find? a).bind fun m => m.find? b

structure Roads (g : NetGraph) : Prop where
  weight : ∀ {a b w}, edge g a b = some w → w = 1
  symm : ∀ {a b w}, edge g a b = some w → edge g b a = some w
  node : ∀ {a}, (g.find? a).isSome → a ≠ broadcast

section Edges

variable {g : NetGraph} {a b x y : Ipv4Address} {w : ℕ}

theorem isSome_of_edge (h : edge g a b = some w) : (g.find? a).isSome := by
  obtain ⟨m, hm, -⟩ := Option.bind_eq_some_iff.mp h
  exact Option.isSome_of_mem hm

theorem edge_add_empty : edge (g.add x .empty) a b = edge g a b := by
  rw [edge, edge, find?_add]
  split_ifs with heq
  · subst heq
    cases g.find? a <;> rfl
  · rfl

theorem edge_set : edge (g.set x (((g.find? x).getD .empty).set y 1)) a b =
    if a = x ∧ b = y then some 1 else edge g a b := by
  rw [edge, edge, find?_set]
  by_cases hx : a = x
  · subst hx
    rw [if_pos rfl, Option.bind_some, find?_set]
    by_cases hy : b = y
    · rw [if_pos hy, if_pos ⟨rfl, hy⟩]
    · rw [if_neg hy, if_neg fun h => hy h.2]
      cases g.find? a <;> rfl
  · rw [if_neg hx, if_neg fun h => hx h.1]

open DsrRouteCache in
theorem edge_addEdge (link : Link) : edge (addEdge g link) a b =
    if link = ⟨a, b⟩ ∨ link = ⟨b, a⟩ then some 1 else edge g a b := by
  cases link with
  | mk low high =>
  rw [addEdge]
  dsimp only
  rw [edge_set, edge_set]
  simp only [Link.mk.injEq]
  split_ifs <;> tauto

open DsrRouteCache in
theorem isSome_find?_addEdge (link : Link) : ((addEdge g link).find? a).isSome ↔
    (a = link.m_low ∨ a = link.m_high) ∨ (g.find? a).isSome := by
  rw [addEdge]
  dsimp only
  rw [isSome_find?_set, isSome_find?_set]
  tauto

open DsrRouteCache in
theorem edge_foldl (links : List Link) : edge (links.foldl addEdge g) a b =
    if ⟨a, b⟩ ∈ links ∨ ⟨b, a⟩ ∈ links then some 1 else edge g a b := by
  induction links generalizing g with
  | nil => simp
  | cons link links ih =>
    rw [foldl_cons, ih, edge_addEdge]
    simp only [mem_cons, eq_comm (a := link)]
    split_ifs <;> tauto

open DsrRouteCache in
theorem isSome_find?_foldl (links : List Link) : ((links.foldl addEdge g).find? a).isSome ↔
    (∃ link ∈ links, a = link.m_low ∨ a = link.m_high) ∨ (g.find? a).isSome := by
  induction links generalizing g with
  | nil => simp
  | cons link links ih =>
    rw [foldl_cons, ih, isSome_find?_addEdge, exists_mem_cons_iff, or_left_comm]
    simp only [or_assoc]

end Edges

theorem edge_updateNetGraph {s : DsrRouteCache}
    (proper : OrderedMap.All (fun link _ => link.Proper) s.m_linkCache)
    (a b : Ipv4Address) : edge s.updateNetGraph.m_netGraph a b =
      if (s.m_linkCache.find? (.between a b)).isSome then some 1 else none := by
  have same : ⟨a, b⟩ ∈ s.m_linkCache.keys ∨ ⟨b, a⟩ ∈ s.m_linkCache.keys ↔
      (s.m_linkCache.find? (.between a b)).isSome := by
    rw [← OrderedMap.mem_keys]
    constructor
    · rintro (h | h)
      · obtain ⟨t, ht⟩ := Option.isSome_iff_exists.mp (mem_keys.mp h)
        rwa [(proper _ t ht).ordered]
      · obtain ⟨t, ht⟩ := Option.isSome_iff_exists.mp (mem_keys.mp h)
        rwa [Link.between_comm, (proper _ t ht).ordered]
    · intro h
      rcases Link.between_eq a b with heq | heq
      · exact .inl (heq ▸ h)
      · exact .inr (heq ▸ h)
  rw [DsrRouteCache.updateNetGraph]
  dsimp only
  rw [edge_foldl, if_congr same rfl rfl]
  rfl

theorem roads_updateNetGraph {s : DsrRouteCache}
    (proper : OrderedMap.All (fun link _ => link.Proper) s.m_linkCache) :
    Roads s.updateNetGraph.m_netGraph where
  weight h := by
    rw [edge_updateNetGraph proper] at h
    split_ifs at h
    exact (Option.some.inj h).symm
  symm h := by
    rw [edge_updateNetGraph proper] at h ⊢
    rwa [Link.between_comm]
  node h := by
    rcases (isSome_find?_foldl _).mp h with ⟨link, hlink, hend⟩ | none
    · obtain ⟨t, ht⟩ := Option.isSome_iff_exists.mp (mem_keys.mp hlink)
      rcases hend with rfl | rfl
      · exact (proper link t ht).low
      · exact (proper link t ht).high
    · cases none

section Walks

variable {g : NetGraph} {a b : Ipv4Address} {p : List Ipv4Address} {c : ℕ}

theorem Roads.walk_cost (roads : Roads g) (walk : Walk (edge g) a p b c) : c = p.length := by
  induction walk with
  | nil => rfl
  | cons road _ ih => rw [roads.weight road, ih, length_cons, Nat.add_comm]

theorem eq_of_walk_nil (walk : Walk (edge g) a [] b c) : b = a := by
  cases walk
  rfl

theorem isSome_of_walk {x : Ipv4Address} (walk : Walk (edge g) a (x :: p) b c) :
    (g.find? a).isSome := by
  cases walk with
  | cons road _ => exact isSome_of_edge road

theorem Roads.nonneg : ∀ a b w, edge g a b = some w → 0 ≤ w := fun _ _ w _ => Nat.zero_le w

end Walks

end Egsr.Dsr.LinkCache
