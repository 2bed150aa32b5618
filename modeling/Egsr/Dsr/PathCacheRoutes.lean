import Mathlib.Data.List.Infix
import Egsr.Dsr.PathCache
import Egsr.Lib.Outcome

/-! The routes in the cache. A broken link is cut out of a route without reading
past its end exactly where the route does not end at the start of the link and
is not cut elsewhere than at its first address. -/

namespace Egsr.Dsr.PathCache

open Lib Lib.Run Lib.Outcome List DsrRouteCache

structure PathOk (node dst : Ipv4Address) (path : List Ipv4Address) : Prop where
  long : 2 ≤ path.length
  nodup : path.Nodup
  first : path.head? = some node
  last : path.getLast? = some dst

variable (node : Ipv4Address)

structure PathsOk (bound : ℕ) (dst : Ipv4Address) (rtVector : Routes) : Prop where
  nonempty : rtVector ≠ []
  few : rtVector.length ≤ bound
  different : (rtVector.map DsrRouteCacheEntry.m_path).Nodup
  paths : ∀ path ∈ rtVector.map DsrRouteCacheEntry.m_path, PathOk node dst path

structure RoutesOk (bound : ℕ) (dst : Ipv4Address) (rtVector : Routes) : Prop
    extends PathsOk node bound dst rtVector where
  sorted : rtVector.Pairwise notLater

def CacheOk (bound : ℕ) (s : DsrRouteCache) : Prop := s.m_sortedRoutes.All (RoutesOk node bound)

section Routes

variable {node dst : Ipv4Address} {bound : ℕ} {rtVector rtVector' : Routes}
    {rt : DsrRouteCacheEntry}

theorem PathsOk.sort (h : PathsOk node bound dst rtVector) : RoutesOk node bound dst
    (sortRoutes rtVector) := by
  have perm : (sortRoutes rtVector).Perm rtVector := perm_insertionSort notLater rtVector
  have permPaths := perm.map DsrRouteCacheEntry.m_path
  have total : Std.Total notLater := ⟨fun a b => le_total b.m_expire a.m_expire⟩
  have transitive : IsTrans DsrRouteCacheEntry notLater := ⟨fun _ _ _ hab hbc => hbc.trans hab⟩
  refine ⟨⟨fun hnil => h.nonempty ?_, perm.length_eq.trans_le h.few,
    permPaths.nodup_iff.mpr h.different,
    fun path hpath => h.paths path (permPaths.mem_iff.mp hpath)⟩,
      pairwise_insertionSort notLater rtVector⟩
  rw [hnil] at perm
  exact perm.symm.eq_nil

theorem PathsOk.of_paths_eq (h : PathsOk node bound dst rtVector)
    (same : rtVector'.map DsrRouteCacheEntry.m_path = rtVector.map DsrRouteCacheEntry.m_path) :
    PathsOk node bound dst rtVector' := by
  have hlength := congrArg List.length same
  rw [length_map, length_map] at hlength
  refine ⟨fun hnil => h.nonempty ?_, hlength.trans_le h.few, same ▸ h.different, same ▸ h.paths⟩
  rw [hnil] at hlength
  exact length_eq_zero_iff.mp hlength.symm

theorem PathsOk.sublist (h : PathsOk node bound dst rtVector) (sub : rtVector'.Sublist rtVector)
    (ne : rtVector' ≠ []) : PathsOk node bound dst rtVector' where
  nonempty := ne
  few := sub.length_le.trans h.few
  different := h.different.sublist (sub.map _)
  paths path hpath := h.paths path ((sub.map _).subset hpath)

theorem RoutesOk.unexpired (h : RoutesOk node bound dst rtVector) {now : ℤ}
    (left : DsrRouteCache.unexpired now rtVector = some rtVector') :
      RoutesOk node bound dst rtVector' := by
  simp only [DsrRouteCache.unexpired] at left
  split_ifs at left with hnone
  rw [← Option.some.inj left]
  exact ⟨h.toPathsOk.sublist filter_sublist fun hnil => hnone (by rw [hnil]; rfl),
    h.sorted.sublist filter_sublist⟩

theorem CacheOk.purge {s : DsrRouteCache} (h : CacheOk node bound s) :
    CacheOk node bound s.purge := by
  intro dst rtVector hk
  rw [DsrRouteCache.purge, OrderedMap.find?_filterMap, Option.bind_eq_some_iff] at hk
  obtain ⟨rtVector₀, hfind, hleft⟩ := hk
  exact (h dst rtVector₀ hfind).unexpired hleft

theorem moveSame_some (h : moveSame rt rtVector = some rtVector') :
    rtVector'.map DsrRouteCacheEntry.m_path = rtVector.map DsrRouteCacheEntry.m_path := by
  induction rtVector generalizing rtVector' with
  | nil => cases h
  | cons i rtVector ih =>
    rw [moveSame] at h
    by_cases hsame : i.m_path = rt.m_path
    · rw [if_pos hsame] at h
      cases h
      rfl
    · rw [if_neg hsame] at h
      obtain ⟨rest, hrest, rfl⟩ := Option.map_eq_some_iff.mp h
      rw [map_cons, map_cons, ih hrest]

theorem moveSame_none (h : moveSame rt rtVector = none) :
    rt.m_path ∉ rtVector.map DsrRouteCacheEntry.m_path := by
  induction rtVector with
  | nil => exact not_mem_nil
  | cons i rtVector ih =>
    rw [moveSame] at h
    split_ifs at h with hsame
    rw [map_cons, mem_cons, not_or]
    exact ⟨Ne.symm hsame, ih (Option.map_eq_none_iff.mp h)⟩

theorem CacheOk.addRoute {s : DsrRouteCache} {c : Config}
    (h : CacheOk node (max c.m_maxEntriesEachDst 1) s)
    (hrt : PathOk node rt.m_dst rt.m_path) : CacheOk node (max c.m_maxEntriesEachDst 1)
    (s.addRoute c rt).1 := by
  have hpurge := h.purge
  have single : PathsOk node (max c.m_maxEntriesEachDst 1) rt.m_dst [rt] :=
    ⟨cons_ne_nil _ _, le_max_right _ _, nodup_singleton _, forall_mem_singleton.mpr hrt⟩
  unfold DsrRouteCache.addRoute
  dsimp only
  cases hfind : s.purge.m_sortedRoutes.find? rt.m_dst with
  | none => exact OrderedMap.All.set hpurge ⟨single, pairwise_singleton _ _⟩
  | some rtVector =>
    have hold : RoutesOk node (max c.m_maxEntriesEachDst 1) rt.m_dst rtVector :=
      hpurge rt.m_dst rtVector hfind
    dsimp only
    generalize hroom : (if c.m_maxEntriesEachDst ≤ rtVector.length then rtVector.dropLast
      else rtVector) = left
    have sub : left.Sublist rtVector := by
      rw [← hroom]
      split_ifs
      · exact dropLast_sublist rtVector
      · exact List.Sublist.refl rtVector
    have room : left.length + 1 ≤ max c.m_maxEntriesEachDst 1 := by
      have hpos := length_pos_iff.mpr hold.nonempty
      have hfew := hold.few
      rw [← hroom]
      split_ifs
      · rw [length_dropLast]
        omega
      · omega
    cases hsame : moveSame rt left with
    | some moved =>
      have hpaths := moveSame_some hsame
      have ne : left ≠ [] := fun hnil => by
        rw [hnil] at hsame
        cases hsame
      exact OrderedMap.All.set hpurge ((hold.toPathsOk.sublist sub ne).of_paths_eq hpaths).sort
    | none =>
      dsimp only
      split_ifs
      · have hnew := moveSame_none hsame
        refine OrderedMap.All.set hpurge (PathsOk.sort ⟨by simp, by simpa using room, ?_, ?_⟩)
        · rw [map_append, map_singleton]
          refine nodup_append.mpr ⟨hold.different.sublist (sub.map _), nodup_singleton _, ?_⟩
          rintro path hpath _ hlast rfl
          exact hnew (mem_singleton.mp hlast ▸ hpath)
        · rw [map_append, map_singleton]
          exact forall_mem_append.mpr
            ⟨fun path hpath => hold.paths path ((sub.map _).subset hpath),
              forall_mem_singleton.mpr hrt⟩
      · exact hpurge

end Routes

/-! ## Looking up -/

section Lookup

variable {node dst id : Ipv4Address} {bound : ℕ} {path : List Ipv4Address}

theorem upTo_initial (id : Ipv4Address) (path : List Ipv4Address) :
    DsrRouteCache.upTo id path <+: path := by
  induction path with
  | nil => exact prefix_rfl
  | cons l path ih =>
    rw [DsrRouteCache.upTo]
    split_ifs
    · exact (prefix_cons_inj l).mpr ih
    · exact cons_prefix_cons.mpr ⟨rfl, nil_prefix⟩

theorem upTo_getLast? (h : (DsrRouteCache.upTo id path).length < path.length) :
    (DsrRouteCache.upTo id path).getLast? = some id := by
  induction path with
  | nil => cases h
  | cons l path ih =>
    rw [DsrRouteCache.upTo] at h ⊢
    split_ifs at h ⊢ with hl
    · have hlast := ih (Nat.lt_of_succ_lt_succ h)
      cases hup : DsrRouteCache.upTo id path with
      | nil =>
        rw [hup] at hlast
        cases hlast
      | cons a up =>
        rw [hup] at hlast
        rwa [List.getLast?_cons_cons]
    · rw [not_not.mp hl]
      rfl

theorem PathOk.upTo (h : PathOk node dst path)
    (shorter : (DsrRouteCache.upTo id path).length < path.length)
    (long : 1 < (DsrRouteCache.upTo id path).length) :
      PathOk node id (DsrRouteCache.upTo id path) where
  long := long
  nodup := h.nodup.sublist (upTo_initial id path).sublist
  first := by
    obtain ⟨rest, hrest⟩ := upTo_initial id path
    cases hup : DsrRouteCache.upTo id path with
    | nil =>
      rw [hup] at long
      cases long
    | cons a up =>
      have hfirst := h.first
      rw [hup] at hrest
      rw [← hrest] at hfirst
      exact hfirst
  last := upTo_getLast? shorter

theorem all_subRoutes {m : OrderedMap Ipv4Address Routes} (h : m.All (RoutesOk node bound))
    (hbound : 1 ≤ bound) (j : Ipv4Address) : (subRoutes id m j).All (RoutesOk node bound) := by
  unfold subRoutes
  cases hfind : m.find? j with
  | none => exact h
  | some rtVector =>
    refine foldlRecOn (motive := fun m : OrderedMap Ipv4Address Routes =>
      m.All (RoutesOk node bound)) _ _ h
      fun m hm k hk => ?_
    have hpath : PathOk node j k.m_path := (h j rtVector hfind).paths _ (mem_map_of_mem hk)
    unfold subRoute
    dsimp only
    split_ifs with hsub
    · refine hm.set (PathsOk.sort ⟨cons_ne_nil _ _, hbound, nodup_singleton _, ?_⟩)
      exact forall_mem_singleton.mpr (hpath.upTo hsub.1 hsub.2)
    · exact hm

theorem all_withSubRoutes {m : OrderedMap Ipv4Address Routes} (h : m.All (RoutesOk node bound))
    (hbound : 1 ≤ bound) (id : Ipv4Address) : (withSubRoutes id m).All (RoutesOk node bound) := by
  unfold withSubRoutes
  cases m.find? id with
  | some _ => exact h
  | none =>
    exact foldlRecOn (motive := fun m : OrderedMap Ipv4Address Routes =>
      m.All (RoutesOk node bound)) _ _ h
      fun m hm j _ => all_subRoutes hm hbound j

theorem CacheOk.lookupRoute {s : DsrRouteCache} (h : CacheOk node bound s) (hbound : 1 ≤ bound)
    (id : Ipv4Address) :
    Ensures (s.lookupRoute id) (fun r => CacheOk node bound r.1) fun _ => False := by
  have hall := all_withSubRoutes h.purge hbound id
  unfold DsrRouteCache.lookupRoute
  refine Ensures.ite (fun _ => h.purge) fun _ => ?_
  dsimp only
  cases hfind : (withSubRoutes id s.purge.m_sortedRoutes).find? id with
  | none => exact hall
  | some rtVector =>
    cases rtVector with
    | nil => exact (hall id [] hfind).nonempty rfl
    | cons rt rest => exact hall

end Lookup

end Egsr.Dsr.PathCache
