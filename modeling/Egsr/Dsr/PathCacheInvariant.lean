import Egsr.Dsr.PathCacheRoutes

/-! Broken links in the cache of paths, and its runs. A route that ends where the
broken link starts is read past its end. So is a route that is cut in the middle,
which comes back under the destination it no longer goes to. -/

namespace Egsr.Dsr.PathCache

open Lib Lib.Run Lib.Outcome List OrderedMap DsrRouteCache

/-- The broken link does not make the loop read past the end of this route, or of what is left of
it. -/
def SparedRoute (c : Config) (errorSrc unreachNode : Ipv4Address)
    (path : List Ipv4Address) : Prop :=
  path.getLast? ≠ some errorSrc ∧
    (c.m_subRoute = true → [errorSrc, unreachNode] <:+: path → [errorSrc, unreachNode] <+: path)

def kept (errorSrc unreachNode : Ipv4Address) (rtVector : Routes) : Option Routes :=
  let rtVector := rtVector.filter fun rt => ¬ [errorSrc, unreachNode] <:+: rt.m_path
  if rtVector.length = 0 then none else some (sortRoutes rtVector)

section Cut

variable {c : Config} {e u : Ipv4Address} {path : List Ipv4Address}

theorem cutRoute_eq (hlast : path.getLast? ≠ some e) :
    (cutRoute e u path = .ok path ∧ ¬ [e, u] <:+: path) ∨
      ∃ front back, path = front ++ e :: u :: back ∧ cutRoute e u path = .ok (front ++ [e]) := by
  induction path with
  | nil => exact .inl ⟨rfl, by simp⟩
  | cons i path ih =>
    have later (hne : path ≠ []) : path.getLast? ≠ some e := by
      obtain ⟨a, path, rfl⟩ := exists_cons_of_ne_nil hne
      rwa [List.getLast?_cons_cons] at hlast
    have rest (hne : path ≠ []) (hnot : ¬ [e, u] <+: i :: path)
        (hcut : cutRoute e u (i :: path) = (cutRoute e u path).map (i :: ·)) :
        (cutRoute e u (i :: path) = .ok (i :: path) ∧ ¬ [e, u] <:+: i :: path) ∨
          ∃ front back, i :: path = front ++ e :: u :: back ∧
            cutRoute e u (i :: path) = .ok (front ++ [e]) := by
      rcases ih (later hne) with ⟨hok, hinfix⟩ | ⟨front, back, hpath, hok⟩
      · refine .inl ⟨by rw [hcut, hok]; rfl, fun h => ?_⟩
        exact (infix_cons_iff.mp h).elim hnot hinfix
      · exact .inr ⟨i :: front, back, by rw [hpath]; rfl, by rw [hcut, hok]; rfl⟩
    cases path with
    | nil =>
      have hi : i ≠ e := fun h => hlast (by rw [h]; rfl)
      refine .inl ⟨?_, fun h => ?_⟩
      · rw [cutRoute, if_pos hi]
        rfl
      · have hlen := h.length_le
        simp at hlen
    | cons next path =>
      by_cases hi : i = e
      · subst hi
        by_cases hnext : next = u
        · subst hnext
          refine .inr ⟨[], path, rfl, ?_⟩
          rw [cutRoute, if_neg (not_not.mpr rfl)]
          exact if_pos rfl
        · refine rest (cons_ne_nil _ _) (fun h => ?_) ?_
          · rw [cons_prefix_cons, cons_prefix_cons] at h
            exact hnext h.2.1.symm
          · rw [cutRoute, if_neg (not_not.mpr rfl)]
            exact if_neg hnext
      · refine rest (cons_ne_nil _ _) (fun h => ?_) ?_
        · rw [cons_prefix_cons] at h
          exact hi h.1.symm
        · rw [cutRoute, if_pos hi]

theorem cutRoute_error (hnodup : path.Nodup) (hlast : path.getLast? = some e) :
    cutRoute e u path = .error .pastEnd := by
  induction path with
  | nil => cases hlast
  | cons i path ih =>
    obtain ⟨hi, hnodup⟩ := nodup_cons.mp hnodup
    cases path with
    | nil =>
      have hsame : i = e := Option.some.inj hlast
      rw [cutRoute, if_neg (not_not.mpr hsame)]
      rfl
    | cons next path =>
      rw [List.getLast?_cons_cons] at hlast
      have hne : i ≠ e := fun h => hi (h ▸ mem_of_getLast? hlast)
      rw [cutRoute, if_pos hne, ih hnodup hlast]
      rfl

theorem front_eq_nil {front back : List Ipv4Address} (hnodup : (front ++ e :: u :: back).Nodup)
    (hfront : [e, u] <+: front ++ e :: u :: back) : front = [] := by
  cases front with
  | nil => rfl
  | cons a front =>
    rw [cons_append, cons_prefix_cons] at hfront
    have hmem : a ∈ front ++ e :: u :: back := by simp [hfront.1]
    exact absurd hmem (nodup_cons.mp hnodup).1

theorem cutRoutes_eq (rounds : ℕ) (visited : Routes) {todo : Routes}
    (hrounds : todo.length ≤ rounds)
    (nodup : ∀ rt ∈ todo, rt.m_path.Nodup) (spared : ∀ rt ∈ todo, SparedRoute c e u rt.m_path) :
    cutRoutes c e u rounds visited todo =
      .ok (visited ++ todo.filter fun rt => ¬ [e, u] <:+: rt.m_path) := by
  induction rounds generalizing visited todo with
  | zero =>
    rw [length_eq_zero_iff.mp (Nat.le_zero.mp hrounds), filter_nil, append_nil]
    rfl
  | succ rounds ih =>
    cases todo with
    | nil =>
      rw [filter_nil, append_nil]
      rfl
    | cons k rest =>
      obtain ⟨hk, hrest⟩ := forall_mem_cons.mp spared
      obtain ⟨hnodup, hnodups⟩ := forall_mem_cons.mp nodup
      have next (visited : Routes) := ih visited (Nat.le_of_succ_le_succ hrounds) hnodups hrest
      rw [cutRoutes]
      rcases cutRoute_eq (u := u) hk.1 with ⟨hok, hinfix⟩ | ⟨front, back, hpath, hok⟩
      · rw [hok, filter_cons_of_pos (by simpa using hinfix)]
        simp only [bind, Except.bind, if_true]
        rw [next, append_assoc, singleton_append]
      · have hinfix : [e, u] <:+: k.m_path := ⟨front, back, by rw [hpath, append_assoc]; rfl⟩
        have hshort : (front ++ [e]).length ≠ k.m_path.length := by
          rw [hpath]
          simp
        rw [hok, filter_cons_of_neg (by simpa using hinfix)]
        simp only [bind, Except.bind, if_neg hshort]
        split_ifs with hcut hsub
        · have hempty : front = [] := front_eq_nil (hpath ▸ hnodup) (hpath ▸ hk.2 hsub hinfix)
          rw [hempty] at hcut
          exact absurd hcut.2 (Nat.lt_irrefl 1)
        · exact next visited
        · exact next visited

theorem cutRoutes_inv {rounds : ℕ} {visited todo result : Routes}
    (run : cutRoutes c e u rounds visited todo = .ok result)
    (nodup : ∀ rt ∈ todo, rt.m_path.Nodup) : ∀ rt ∈ todo, SparedRoute c e u rt.m_path := by
  induction rounds generalizing visited todo with
  | zero =>
    cases todo with
    | nil => exact fun rt hrt => nomatch hrt
    | cons k rest => cases run
  | succ rounds ih =>
    cases todo with
    | nil => exact fun rt hrt => nomatch hrt
    | cons k rest =>
      obtain ⟨hnodup, hnodups⟩ := forall_mem_cons.mp nodup
      rw [cutRoutes] at run
      have hlast : k.m_path.getLast? ≠ some e := fun h => by
        rw [cutRoute_error hnodup h] at run
        cases run
      rcases cutRoute_eq (u := u) hlast with ⟨hok, hinfix⟩ | ⟨front, back, hpath, hok⟩
      · rw [hok] at run
        simp only [bind, Except.bind, if_true] at run
        exact forall_mem_cons.mpr ⟨⟨hlast, fun _ h => absurd h hinfix⟩, ih run hnodups⟩
      · have hshort : (front ++ [e]).length ≠ k.m_path.length := by
          rw [hpath]
          simp
        rw [hok] at run
        simp only [bind, Except.bind, if_neg hshort] at run
        split_ifs at run with hcut hsub
        · -- what is left ends at the start of the link, and is visited again
          have hnodup' : (front ++ [e]).Nodup := by
            rw [hpath, append_cons] at hnodup
            exact hnodup.sublist (sublist_append_left _ _)
          have hall := ih run (forall_mem_append.mpr ⟨hnodups, forall_mem_singleton.mpr hnodup'⟩)
          have hspared := hall _ (mem_append_right _ (mem_singleton_self _))
          exact absurd List.getLast?_concat hspared.1
        · exact forall_mem_cons.mpr ⟨⟨hlast, fun h => absurd h hsub⟩, ih run hnodups⟩
        · refine forall_mem_cons.mpr ⟨⟨hlast, fun _ _ => ?_⟩, ih run hnodups⟩
          have hempty : front = [] := by
            by_contra hne
            have hpos := length_pos_iff.mpr hne
            refine hcut ⟨?_, ?_⟩ <;> simp only [hpath, length_append, length_cons, length_nil] <;>
              omega
          rw [hpath, hempty]
          exact ⟨back, rfl⟩

end Cut

/-! ## All destinations -/

section Delete

variable {c : Config} {node e u k address : Ipv4Address} {bound : ℕ}
    {m m' : OrderedMap Ipv4Address Routes} {s s' : DsrRouteCache}

theorem length_le_visits (rtVector : Routes) : rtVector.length ≤ visits rtVector := by
  induction rtVector with
  | nil => exact Nat.zero_le _
  | cons rt rtVector ih =>
    rw [visits, map_cons, sum_cons, length_cons]
    rw [visits] at ih
    omega

theorem cutAt_eq {rtVector : Routes} (find : m.find? address = some rtVector)
    (nodup : ∀ rt ∈ rtVector, rt.m_path.Nodup)
    (spared : ∀ rt ∈ rtVector, SparedRoute c e u rt.m_path) : ∃ m', cutAt c e u m address = .ok m' ∧
      ∀ k, m'.find? k = if k = address then kept e u rtVector else m.find? k := by
  have hcut := cutRoutes_eq (c := c) (visits rtVector) [] (length_le_visits rtVector) nodup spared
  unfold cutAt
  simp only [find, hcut, nil_append, bind, Except.bind]
  by_cases hnone : (rtVector.filter fun rt => ¬ [e, u] <:+: rt.m_path).length = 0
  · rw [if_pos hnone]
    refine ⟨_, rfl, fun k => ?_⟩
    rw [find?_erase, kept, if_pos hnone]
  · rw [if_neg hnone]
    refine ⟨_, rfl, fun k => ?_⟩
    rw [find?_set, find?_erase, kept, if_neg hnone]
    split_ifs <;> rfl

theorem cutAt_inv {rtVector : Routes} (run : cutAt c e u m address = .ok m')
    (find : m.find? address = some rtVector) (nodup : ∀ rt ∈ rtVector, rt.m_path.Nodup) :
    ∀ rt ∈ rtVector, SparedRoute c e u rt.m_path := by
  unfold cutAt at run
  simp only [find] at run
  obtain ⟨_, hcut, -⟩ := bind_ok_inv run
  exact cutRoutes_inv hcut nodup

def AllPaths (P : List Ipv4Address → Prop) (m : OrderedMap Ipv4Address Routes) : Prop :=
  m.All fun _ rtVector => ∀ rt ∈ rtVector, P rt.m_path

theorem AllPaths.kept {P : List Ipv4Address → Prop} (h : AllPaths P m)
    (found : ∀ k, m'.find? k = if k = address then (m.find? address).bind (kept e u)
      else m.find? k) : AllPaths P m' := by
  intro k rtVector hk rt hrt
  rw [found] at hk
  split_ifs at hk with heq
  · obtain ⟨old, hold, hkept⟩ := Option.bind_eq_some_iff.mp hk
    rw [PathCache.kept] at hkept
    split_ifs at hkept
    rw [← Option.some.inj hkept, sortRoutes, mem_insertionSort] at hrt
    exact h address old hold rt (mem_of_mem_filter hrt)
  · exact h k rtVector hk rt hrt

theorem cutAt_find? (nodup : AllPaths List.Nodup m)
    (spared : ∀ rtVector, m.find? address = some rtVector →
      ∀ rt ∈ rtVector, SparedRoute c e u rt.m_path) :
    ∃ m', cutAt c e u m address = .ok m' ∧
      ∀ k, m'.find? k = if k = address then (m.find? address).bind (kept e u) else m.find? k := by
  cases find : m.find? address with
  | none =>
    refine ⟨m, by rw [cutAt, find]; rfl, fun k => ?_⟩
    split_ifs with hk
    · rw [hk, find]
      rfl
    · rfl
  | some rtVector => exact cutAt_eq find (nodup address rtVector find) (spared rtVector find)

theorem cutAll_eq {order : List Ipv4Address} (distinct : order.Nodup)
    (nodup : AllPaths List.Nodup m) (spared : AllPaths (SparedRoute c e u) m) :
    ∃ m', order.foldlM (cutAt c e u) m = .ok m' ∧
      ∀ k, m'.find? k = if k ∈ order then (m.find? k).bind (kept e u) else m.find? k := by
  induction order generalizing m with
  | nil => exact ⟨m, rfl, fun k => rfl⟩
  | cons address order ih =>
    obtain ⟨hnew, distinct⟩ := nodup_cons.mp distinct
    obtain ⟨m₁, hcut, hfind⟩ := cutAt_find? nodup (spared address)
    obtain ⟨m', hrest, hfind'⟩ := ih distinct (nodup.kept hfind) (spared.kept hfind)
    refine ⟨m', by rw [foldlM_cons, hcut]; exact hrest, fun k => ?_⟩
    rw [hfind', hfind]
    by_cases hk : k = address
    · rw [if_neg (hk ▸ hnew), if_pos hk, if_pos (hk ▸ mem_cons_self), hk]
    · simp only [hk, if_false, mem_cons, false_or]

theorem cutAll_inv {order : List Ipv4Address} (distinct : order.Nodup)
    (nodup : AllPaths List.Nodup m) (run : order.foldlM (cutAt c e u) m = .ok m') :
    ∀ k ∈ order, ∀ rtVector, m.find? k = some rtVector →
      ∀ rt ∈ rtVector, SparedRoute c e u rt.m_path := by
  induction order generalizing m with
  | nil => exact fun k hk => nomatch hk
  | cons address order ih =>
    obtain ⟨hnew, distinct⟩ := nodup_cons.mp distinct
    rw [foldlM_cons] at run
    obtain ⟨m₁, hcut, hrest⟩ := bind_ok_inv run
    have here : ∀ rtVector, m.find? address = some rtVector →
      ∀ rt ∈ rtVector, SparedRoute c e u rt.m_path :=
      fun rtVector find => cutAt_inv hcut find (nodup address rtVector find)
    obtain ⟨m₂, hcut₂, found⟩ := cutAt_find? nodup here
    obtain rfl : m₁ = m₂ := Except.ok.inj (hcut.symm.trans hcut₂)
    refine forall_mem_cons.mpr ⟨here, fun k hk rtVector find => ?_⟩
    have hne : k ≠ address := fun heq => hnew (heq ▸ hk)
    exact ih distinct (nodup.kept found) hrest k hk rtVector (by rw [found, if_neg hne, find])

def NoLink (errorSrc unreachNode : Ipv4Address) (s : DsrRouteCache) : Prop :=
  AllPaths (fun path => ¬ [errorSrc, unreachNode] <:+: path) s.m_sortedRoutes

theorem CacheOk.nodup (h : CacheOk node bound s) : AllPaths List.Nodup s.m_sortedRoutes :=
  fun k rtVector find _ hrt =>
  ((h k rtVector find).paths _ (mem_map_of_mem hrt)).nodup

theorem RoutesOk.kept {dst : Ipv4Address} {rtVector rtVector' : Routes}
    (h : RoutesOk node bound dst rtVector)
    (left : PathCache.kept e u rtVector = some rtVector') : RoutesOk node bound dst rtVector' := by
  rw [PathCache.kept] at left
  split_ifs at left with hnone
  rw [← Option.some.inj left]
  exact (h.toPathsOk.sublist filter_sublist fun hnil => hnone (by rw [hnil]; rfl)).sort

theorem CacheOk.deleteAllRoutesIncludeLink (h : CacheOk node bound s)
    (spared : AllPaths (SparedRoute c e u) s.purge.m_sortedRoutes) :
    ∃ s', s.deleteAllRoutesIncludeLink c e u = .ok s' ∧ CacheOk node bound s' ∧ NoLink e u s' := by
  have hpurge := h.purge
  have distinct : s.purge.m_sortedRoutes.keys.Nodup := nodup_keys
  obtain ⟨m', hcut, found⟩ := cutAll_eq distinct hpurge.nodup spared
  have found' : ∀ k rtVector', m'.find? k = some rtVector' →
      ∃ rtVector, s.purge.m_sortedRoutes.find? k = some rtVector ∧
        kept e u rtVector = some rtVector' := by
    intro k rtVector' hk
    rw [found] at hk
    split_ifs at hk with hmem
    · exact Option.bind_eq_some_iff.mp hk
    · exact absurd (mem_keys.mpr (Option.isSome_of_mem hk)) hmem
  refine ⟨{ s.purge with m_sortedRoutes := m' }, ?_, fun k rtVector' hk =>
    ?_, fun k rtVector' hk rt hrt => ?_⟩
  · unfold DsrRouteCache.deleteAllRoutesIncludeLink
    simp only [hcut]
    rfl
  · obtain ⟨rtVector, find, hkept⟩ := found' k rtVector' hk
    exact (hpurge k rtVector find).kept hkept
  · obtain ⟨rtVector, find, hkept⟩ := found' k rtVector' hk
    rw [kept] at hkept
    split_ifs at hkept
    rw [← Option.some.inj hkept, sortRoutes, mem_insertionSort] at hrt
    exact of_decide_eq_true (mem_filter.mp hrt).2

theorem CacheOk.spared (h : CacheOk node bound s)
    (run : s.deleteAllRoutesIncludeLink c e u = .ok s') :
    AllPaths (SparedRoute c e u) s.purge.m_sortedRoutes := by
  unfold DsrRouteCache.deleteAllRoutesIncludeLink at run
  obtain ⟨m', hcut, -⟩ := bind_ok_inv run
  intro k rtVector find
  exact cutAll_inv nodup_keys h.purge.nodup hcut k (mem_keys.mpr (Option.isSome_of_mem find))
    rtVector find

end Delete

/-! ## Runs -/

/-- Routes that are added go from the node to the destination of their entry. -/
def WellFormed (node : Ipv4Address) : Action → Prop
  | .addRoute rt => PathOk node rt.m_dst rt.m_path
  | _ => True

/-- No route that has not expired ends where the broken link starts, and where shortened routes are
kept none uses the link behind its first address. -/
def Spared (c : Config) (s : DsrRouteCache) : Action → Prop
  | .deleteAllRoutesIncludeLink errorSrc unreachNode =>
    ∀ k rtVector, s.m_sortedRoutes.find? k = some rtVector →
      ∀ rt ∈ rtVector, s.now < rt.m_expire → SparedRoute c errorSrc unreachNode rt.m_path
  | _ => True

def LinkGone (c : Config) (s : DsrRouteCache) (a : Action) : Prop :=
  ∀ errorSrc unreachNode s', a = .deleteAllRoutesIncludeLink errorSrc unreachNode →
    step c s a = .ok s' → NoLink errorSrc unreachNode s'

section Runs

variable {c : Config} {node : Ipv4Address} {s s' : DsrRouteCache} {a : Action}

theorem purge_allPaths {P : List Ipv4Address → Prop} : AllPaths P s.purge.m_sortedRoutes ↔
    ∀ k rtVector, s.m_sortedRoutes.find? k = some rtVector → ∀ rt ∈ rtVector, s.now < rt.m_expire →
      P rt.m_path := by
  have hfind : ∀ k, s.purge.m_sortedRoutes.find? k =
    (s.m_sortedRoutes.find? k).bind (unexpired s.now) :=
    fun k => find?_filterMap _
  constructor
  · intro h k rtVector find rt hrt hlater
    have hmem : rt ∈ rtVector.filter fun rt => 0 < rt.getExpireTime s.now :=
      mem_filter.mpr ⟨hrt, decide_eq_true (Int.sub_pos.mpr hlater)⟩
    refine h k _ ?_ rt hmem
    rw [hfind, find]
    exact if_neg fun hnone => ne_nil_of_mem hmem (length_eq_zero_iff.mp hnone)
  · intro h k rtVector hk rt hrt
    rw [hfind, Option.bind_eq_some_iff] at hk
    obtain ⟨old, find, hleft⟩ := hk
    simp only [unexpired] at hleft
    split_ifs at hleft
    rw [← Option.some.inj hleft, mem_filter] at hrt
    exact h k old find rt hrt.1 (Int.sub_pos.mp (of_decide_eq_true hrt.2))

theorem step_spec (h : CacheOk node (max c.m_maxEntriesEachDst 1) s) (formed : WellFormed node a)
    (spared : Spared c s a) :
    Ensures (step c s a) (CacheOk node (max c.m_maxEntriesEachDst 1)) fun _ => False := by
  cases a with
  | addRoute rt => exact h.addRoute formed
  | lookupRoute id => exact ensures_map.mpr (h.lookupRoute (le_max_right _ _) id)
  | deleteRoute dst => exact OrderedMap.All.erase h.purge dst
  | deleteAllRoutesIncludeLink errorSrc unreachNode =>
    obtain ⟨s', hs', hok, -⟩ := h.deleteAllRoutesIncludeLink (purge_allPaths.mpr spared)
    rw [step, hs']
    exact hok
  | wait delay => exact h

theorem linkGone_of_spared (h : CacheOk node (max c.m_maxEntriesEachDst 1) s)
    (spared : Spared c s a) : LinkGone c s a := by
  rintro errorSrc unreachNode s' rfl run
  obtain ⟨t, ht, -, hgone⟩ := h.deleteAllRoutesIncludeLink (purge_allPaths.mpr spared)
  obtain rfl : t = s' := Except.ok.inj (ht.symm.trans run)
  exact hgone

theorem spared_of_step (h : CacheOk node (max c.m_maxEntriesEachDst 1) s)
    (run : step c s a = .ok s') : Spared c s a := by
  cases a with
  | deleteAllRoutesIncludeLink errorSrc unreachNode => exact purge_allPaths.mp (h.spared run)
  | addRoute | lookupRoute | deleteRoute | wait => trivial

end Runs

/-- The cache is as it should be along a run, no route is read past its end and broken links are
gone, exactly where the routes of every broken link are spared. -/
theorem path_cache_iff (node : Ipv4Address) (subRoute : Bool) (as : List Action)
    (formed : ∀ a ∈ as, WellFormed node a) :
    (Ensures (exec (step (.constructed subRoute)) .initial as) (CacheOk node 3) (fun _ => False) ∧
      Along (step (.constructed subRoute))
        (fun s a => CacheOk node 3 s ∧ LinkGone (.constructed subRoute) s a) .initial as) ↔
    Along (step (.constructed subRoute)) (Spared (.constructed subRoute)) .initial as := by
  have init : CacheOk node 3 .initial := all_empty
  have along : Along (step (.constructed subRoute)) (fun _ a => WellFormed node a) .initial as :=
    along_of_mem formed
  have keep : ∀ s a s', CacheOk node 3 s → WellFormed node a ∧ Spared (.constructed subRoute) s a →
      step (.constructed subRoute) s a = .ok s' → CacheOk node 3 s' := fun s a s' h guard run =>
    (step_spec (c := .constructed subRoute) h guard.1 guard.2).of_ok run
  constructor
  · rintro ⟨hok, hall⟩
    obtain ⟨t, ht, -⟩ := hok.exists_ok
    exact along_of_exec (fun s a s' h run => spared_of_step h.1 run) hall ht
  · intro spared
    refine ⟨ensures_exec (fun s a h guard => step_spec h guard.1 guard.2) init (along.and spared),
      ?_⟩
    exact (Along.with_invariant keep init (along.and spared)).mono fun s a h =>
      ⟨h.1, linkGone_of_spared h.1 h.2.2⟩

def repairRun : List Action :=
  [.addRoute ⟨[1, 2, 3], 3, 100⟩, .deleteAllRoutesIncludeLink 1 2, .addRoute ⟨[1, 4, 3], 3, 200⟩,
    .lookupRoute 4]

theorem path_cache_iff_repairRun : (∀ a ∈ repairRun, WellFormed 1 a) ∧
    ((Ensures (exec (step (.constructed true)) .initial repairRun) (CacheOk 1 3) (fun _ => False) ∧
      Along (step (.constructed true))
      (fun s a => CacheOk 1 3 s ∧ LinkGone (.constructed true) s a) .initial repairRun) ↔
      Along (step (.constructed true)) (Spared (.constructed true)) .initial repairRun) := by
  have formed : ∀ a ∈ repairRun, WellFormed 1 a := by
    refine forall_mem_cons.mpr ⟨⟨?_, ?_, rfl, rfl⟩, forall_mem_cons.mpr ⟨trivial,
      forall_mem_cons.mpr ⟨⟨?_, ?_, rfl, rfl⟩, forall_mem_singleton.mpr trivial⟩⟩⟩ <;> decide
  exact ⟨formed, path_cache_iff 1 true repairRun formed⟩

def brokenRun : List Action :=
  [.addRoute ⟨[1, 2, 3], 3, 100⟩, .addRoute ⟨[1, 2, 3, 4], 4, 100⟩, .deleteAllRoutesIncludeLink 3 4]

theorem read_past_end : (∀ a ∈ brokenRun, WellFormed 1 a) ∧
    exec (step (.constructed true)) .initial brokenRun = .error .pastEnd := by
  refine ⟨forall_mem_cons.mpr ⟨⟨?_, ?_, rfl, rfl⟩, forall_mem_cons.mpr ⟨⟨?_, ?_, rfl, rfl⟩,
    forall_mem_singleton.mpr trivial⟩⟩, rfl⟩ <;> decide

end Egsr.Dsr.PathCache
