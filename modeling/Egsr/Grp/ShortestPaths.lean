import Egsr.Grp.Dijkstra
import Egsr.Lib.ShortestPath

/-! The search with the virtual vertex finds shortest paths, as long as its
arrays have a cell for every vertex. They are declared with `m_JuncNum` cells,
one fewer than the loops use, so the search stays within them only where it does
not look at them at all. -/

namespace Egsr.Grp.Dijkstra

open Grp.Road Lib.Outcome Lib.ShortestPath List Function

/-! ## The arrays as they are declared -/

section Declared

variable (declared : ℕ)

def access (j : ℕ) : Except Fault Unit := if j < declared then pure () else throw .junction

def selectIn (s : Search) : Except Fault (Option ℕ) :=
  (range (mJuncNum + 1)).foldlM (fun t j => do
    access declared j
    if s.visited j then pure t
    else
      match t with
      | none => pure (some j)
      | some t' =>
        access declared t'
        if s.distance j < s.distance t' then pure (some j) else pure (some t')) none

def relaxIn (graph : Grid (mJuncNum + 2) ℚ) (t : ℕ) (s : Search) : Except Fault Search :=
  (range (mJuncNum + 1)).foldlM (fun s j => do
    if graph.cell t j ≠ infinite then
      access declared t
      access declared j
      if s.distance t + graph.cell t j < s.distance j then
        pure (s.reach j t (s.distance t + graph.cell t j))
      else pure s
    else pure s) s

def searchIn (graph : Grid (mJuncNum + 2) ℚ) (dstjid : ℕ) : ℕ → Search → Except Fault Search
  | 0, s => pure s
  | rounds + 1, s => do
    match ← selectIn declared s with
    | none => pure s
    | some t =>
      if t = dstjid then pure s
      else
        access declared t
        searchIn graph dstjid rounds (← relaxIn declared graph t (s.visit t))

def walkBackIn (parent : ℕ → Option ℕ) (srcjid : ℕ) : ℕ → ℕ → List UInt16 →
    Except Fault (List UInt16)
  | 0, _, _ => throw .walk
  | steps + 1, jid, path =>
    if jid = srcjid then pure path
    else do
      access declared jid
      match parent jid with
      | none => throw .walk
      | some next => walkBackIn parent srcjid steps next (.ofNat jid :: path)

/-- `DijkstraAlgorithm` with arrays of the length they are declared with. -/
def dijkstraAlgorithmIn (graph : Grid (mJuncNum + 2) ℚ) (srcjid dstjid : ℕ) :
    Except Fault (List UInt16) :=
  if srcjid = dstjid then pure [.ofNat dstjid]
  else do
    -- the loop that fills the arrays, from 0 to m_JuncNum
    (range (mJuncNum + 1)).forM (access declared)
    access declared srcjid
    let s ← searchIn declared graph dstjid (mJuncNum + 1) (Search.start srcjid)
    access declared dstjid
    if s.distance dstjid = infinite then pure []
    else walkBackIn declared s.parent srcjid (mJuncNum + 2) dstjid []

end Declared

section Enough

variable {declared : ℕ} {graph : Grid (mJuncNum + 2) ℚ} {srcjid dstjid : ℕ}

theorem access_eq (enough : mJuncNum < declared) {j : ℕ} (hj : j ≤ mJuncNum) :
    access declared j = pure () := if_pos (hj.trans_lt enough)

theorem selectIn_eq (enough : mJuncNum < declared) (s : Search) : selectIn declared s =
    pure (select s) := by
  unfold selectIn select
  refine foldlM_pure (fun t : Option ℕ => ∀ t' ∈ t, t' ≤ mJuncNum) (by simp) fun t ht j hj => ?_
  have hj' : j ≤ mJuncNum := Nat.lt_succ_iff.mp (mem_range.mp hj)
  rw [access_eq enough hj', pure_bind]
  by_cases hv : s.visited j
  · rw [if_pos hv, if_pos hv]
    exact ⟨rfl, ht⟩
  · rw [if_neg hv, if_neg hv]
    cases t with
    | none => simp [hj']
    | some t' =>
      have ht' : t' ≤ mJuncNum := ht t' rfl
      simp only [access_eq enough ht', pure_bind]
      by_cases hlt : s.distance j < s.distance t' <;> simp [hlt, hj', ht']

theorem relaxIn_eq (enough : mJuncNum < declared) {t : ℕ} (ht : t ≤ mJuncNum) (s : Search) :
    relaxIn declared graph t s = pure (relax graph t s) := by
  unfold relaxIn relax
  refine foldlM_pure (fun _ => True) trivial fun s _ j hj => ⟨?_, trivial⟩
  have hj' : j ≤ mJuncNum := Nat.lt_succ_iff.mp (mem_range.mp hj)
  rw [access_eq enough ht, access_eq enough hj', pure_bind, pure_bind]
  split_ifs <;> rfl

theorem searchIn_eq (enough : mJuncNum < declared) (rounds : ℕ) (s : Search) :
    searchIn declared graph dstjid rounds s = pure (search graph dstjid rounds s) := by
  induction rounds generalizing s with
  | zero => rfl
  | succ rounds ih =>
    rw [searchIn, search, selectIn_eq enough, pure_bind]
    cases hsel : select s with
    | none => rfl
    | some t =>
      have ht : t ≤ mJuncNum := select_le hsel
      by_cases hdst : t = dstjid
      · simp only [hdst, if_true]
      · simp only [hdst, if_false]
        rw [access_eq enough ht, pure_bind, relaxIn_eq enough ht, pure_bind]
        exact ih (relax graph t (s.visit t))

theorem walkBackIn_eq (enough : mJuncNum < declared) {parent : ℕ → Option ℕ}
    (inArrays : ∀ j t, parent j = some t → t ≤ mJuncNum) (steps : ℕ) {jid : ℕ}
    (hjid : jid ≤ mJuncNum) (path : List UInt16) :
    walkBackIn declared parent srcjid steps jid path = walkBack parent srcjid steps jid path := by
  induction steps generalizing jid path with
  | zero => rfl
  | succ steps ih =>
    rw [walkBackIn, walkBack, access_eq enough hjid]
    by_cases hsrc : jid = srcjid
    · rw [if_pos hsrc, if_pos hsrc]
    · rw [if_neg hsrc, if_neg hsrc, pure_bind]
      cases hp : parent jid with
      | none => rfl
      | some next => exact ih (inArrays jid next hp) (.ofNat jid :: path)

theorem fill_eq (enough : mJuncNum < declared) :
    (range (mJuncNum + 1)).forM (access declared) = pure () := by
  have all : ∀ j ∈ range (mJuncNum + 1), j ≤ mJuncNum := fun j hj =>
    Nat.lt_succ_iff.mp (mem_range.mp hj)
  generalize range (mJuncNum + 1) = l at all
  induction l with
  | nil => rfl
  | cons j l ih =>
    rw [forM_eq_forM, forM_cons, access_eq enough (all j mem_cons_self), pure_bind]
    exact ih fun i hi => all i (mem_cons_of_mem j hi)

theorem dijkstraAlgorithmIn_eq (enough : mJuncNum < declared) (hsrc : srcjid ≤ mJuncNum)
    (hdst : dstjid ≤ mJuncNum) :
    dijkstraAlgorithmIn declared graph srcjid dstjid = dijkstraAlgorithm graph srcjid dstjid := by
  unfold dijkstraAlgorithmIn dijkstraAlgorithm
  by_cases heq : srcjid = dstjid
  · rw [if_pos heq, if_pos heq]
  · have inside : ¬ (mJuncNum < srcjid ∨ mJuncNum < dstjid) := by omega
    have hin : InArrays (search graph dstjid (mJuncNum + 1) (Search.start srcjid)) :=
      inArrays_search _ (by simp [InArrays, Search.start])
    rw [if_neg heq, if_neg heq, if_neg inside, fill_eq enough, pure_bind, access_eq enough hsrc,
      pure_bind, searchIn_eq enough, pure_bind, access_eq enough hdst, pure_bind,
        walkBackIn_eq enough hin _ hdst]

end Enough

variable (graph : Grid (mJuncNum + 2) ℚ)

theorem dijkstraAlgorithmIn_declared {srcjid dstjid : ℕ} (hne : srcjid ≠ dstjid) :
    dijkstraAlgorithmIn mJuncNum graph srcjid dstjid = throw .junction := by
  have filled : (range (mJuncNum + 1)).forM (access mJuncNum) = throw .junction := by decide
  unfold dijkstraAlgorithmIn
  rw [if_neg hne, filled]
  rfl

def edge (u v : ℕ) : Option ℚ :=
  if u ≤ mJuncNum ∧ v ≤ mJuncNum ∧ graph.cell u v ≠ infinite then some (graph.cell u v) else none

structure Weighted : Prop where
  symmetric : ∀ u v, graph.cell u v = graph.cell v u
  positive : ∀ u v, 0 < graph.cell u v

def Search.settled (s : Search) : Set ℕ := {j | s.visited j = true}

def Labels (srcjid : ℕ) (s : Search) : Prop :=
  Labelled (edge graph) infinite srcjid s.settled s.distance s.parent

section Labels

variable {graph : Grid (mJuncNum + 2) ℚ} {srcjid dstjid u v t n : ℕ} {s : Search} {p : List ℕ}
    {w c : ℚ}

theorem edge_eq_some : edge graph u v = some w ↔
    (u ≤ mJuncNum ∧ v ≤ mJuncNum ∧ graph.cell u v ≠ infinite) ∧ graph.cell u v = w := by
  rw [edge]
  split_ifs with h
  · rw [Option.some_inj, and_iff_right h]
  · exact ⟨(fun hnone => nomatch hnone), fun hsome => absurd hsome.1 h⟩

theorem Weighted.edge_nonneg (hg : Weighted graph) (u v : ℕ) (w : ℚ) (h : edge graph u v = some w) :
    0 ≤ w := by
  rw [← (edge_eq_some.mp h).2]
  exact (hg.positive u v).le

theorem walk_le (walk : Walk (edge graph) u p v c) : ∀ x ∈ p, x ≤ mJuncNum := by
  induction walk with
  | nil => simp
  | cons first _ ih => exact forall_mem_cons.mpr ⟨(edge_eq_some.mp first).1.2.1, ih⟩

theorem walk_end_le (walk : Walk (edge graph) u p v c) (hu : u ≤ mJuncNum) : v ≤ mJuncNum := by
  induction walk with
  | nil => exact hu
  | cons first _ ih => exact ih (edge_eq_some.mp first).1.2.1

theorem Labels.infinite_of_lt (h : Labels graph srcjid s) (hsrc : srcjid ≤ mJuncNum)
    (hv : mJuncNum < v) : s.distance v = infinite := by
  by_contra hne
  obtain ⟨p, -, walk⟩ := h.reached v (lt_of_le_of_ne (h.bounded v) hne)
  exact absurd (walk_end_le walk hsrc) (Nat.not_le.mpr hv)

theorem labels_start (graph : Grid (mJuncNum + 2) ℚ) (srcjid : ℕ) : Labels graph srcjid
    (Search.start srcjid) := by
  have none : (Search.start srcjid).settled = ∅ := by
    ext j
    simp [Search.settled, Search.start]
  rw [Labels, none]
  exact labelled_start (edge graph) srcjid (by decide)

def Nearest (s : Search) (n : ℕ) : Option ℕ → Prop
  | none => ∀ j < n, s.visited j = true
  | some t => t < n ∧ s.visited t = false ∧ ∀ j < n, s.visited j = false →
    s.distance t ≤ s.distance j

theorem select_nearest (s : Search) : Nearest s (mJuncNum + 1) (select s) := by
  unfold select
  induction mJuncNum + 1 with
  | zero => exact fun j hj => absurd hj (Nat.not_lt_zero j)
  | succ n ih =>
    rw [range_succ, foldl_append, foldl_cons, foldl_nil]
    generalize List.foldl _ _ (range n) = acc at ih
    by_cases hv : s.visited n = true
    · rw [if_pos hv]
      cases acc with
      | none => exact Nat.forall_lt_succ_right.mpr ⟨ih, hv⟩
      | some t =>
        refine ⟨ih.1.trans (Nat.lt_succ_self n), ih.2.1,
          Nat.forall_lt_succ_right.mpr ⟨ih.2.2, fun hnot => ?_⟩⟩
        rw [hv] at hnot
        cases hnot
    · rw [if_neg hv]
      rw [Bool.not_eq_true] at hv
      cases acc with
      | none =>
        refine ⟨Nat.lt_succ_self n, hv,
          Nat.forall_lt_succ_right.mpr ⟨fun j hj hnot => ?_, fun _ => le_rfl⟩⟩
        rw [ih j hj] at hnot
        cases hnot
      | some t =>
        by_cases hlt : s.distance n < s.distance t
        · simp only [if_pos hlt]
          exact ⟨Nat.lt_succ_self n, hv, Nat.forall_lt_succ_right.mpr
            ⟨fun j hj hnot => hlt.le.trans (ih.2.2 j hj hnot), fun _ => le_rfl⟩⟩
        · simp only [if_neg hlt]
          exact ⟨ih.1.trans (Nat.lt_succ_self n), ih.2.1, Nat.forall_lt_succ_right.mpr
            ⟨ih.2.2, fun _ => not_lt.mp hlt⟩⟩

theorem Labels.select (h : Labels graph srcjid s) (hsrc : srcjid ≤ mJuncNum)
    (hdst : dstjid ≤ mJuncNum) (hnot : s.visited dstjid = false) :
    ∃ t, Dijkstra.select s = some t ∧ t ≤ mJuncNum ∧ s.visited t = false ∧
      ∀ v, v ∉ s.settled → s.distance t ≤ s.distance v := by
  have nearest := select_nearest s
  cases hsel : Dijkstra.select s with
  | none =>
    rw [hsel] at nearest
    rw [nearest dstjid (Nat.lt_succ_of_le hdst)] at hnot
    cases hnot
  | some t =>
    rw [hsel] at nearest
    refine ⟨t, rfl, Nat.lt_succ_iff.mp nearest.1, nearest.2.1, fun v hv => ?_⟩
    by_cases hle : v ≤ mJuncNum
    · exact nearest.2.2 v (Nat.lt_succ_of_le hle) (Bool.not_eq_true _ ▸ hv)
    · rw [h.infinite_of_lt hsrc (Nat.lt_of_not_le hle)]
      exact h.bounded t

/-! ## Relaxing the edges of a vertex -/

def Improves (graph : Grid (mJuncNum + 2) ℚ) (t : ℕ) (s : Search) (n v : ℕ) : Prop :=
  v < n ∧ graph.cell t v ≠ infinite ∧ s.distance t + graph.cell t v < s.distance v
deriving Decidable

def relaxed (graph : Grid (mJuncNum + 2) ℚ) (t : ℕ) (s : Search) (n : ℕ) : Search where
  visited := s.visited
  distance v := if Improves graph t s n v then s.distance t + graph.cell t v else s.distance v
  parent v := if Improves graph t s n v then some t else s.parent v

theorem improves_succ_of_ne (h : v ≠ n) : Improves graph t s (n + 1) v ↔ Improves graph t s n v :=
  and_congr_left fun _ => ⟨fun hlt => by omega, fun hlt => by omega⟩

theorem relaxed_succ (hn : ¬ Improves graph t s (n + 1) n) : relaxed graph t s (n + 1) =
    relaxed graph t s n := by
  have same : ∀ v, Improves graph t s (n + 1) v ↔ Improves graph t s n v := by
    intro v
    by_cases hv : v = n
    · subst hv
      exact ⟨fun h => absurd h hn, fun h => absurd h.1 (Nat.lt_irrefl v)⟩
    · exact improves_succ_of_ne hv
  simp only [relaxed, same]

theorem relaxed_succ_of_improves (hn : Improves graph t s (n + 1) n) :
    relaxed graph t s (n + 1) =
    (relaxed graph t s n).reach n t (s.distance t + graph.cell t n) := by
  simp only [relaxed, Search.reach, Search.mk.injEq, true_and]
  constructor <;> funext v <;> by_cases hv : v = n
  · subst hv
    rw [if_pos hn, update_self]
  · rw [update_of_ne hv]
    simp only [improves_succ_of_ne hv]
  · subst hv
    rw [if_pos hn, update_self]
  · rw [update_of_ne hv]
    simp only [improves_succ_of_ne hv]

theorem relax_eq (hg : Weighted graph) (t : ℕ) (s : Search) :
    relax graph t s = relaxed graph t s (mJuncNum + 1) := by
  unfold relax
  induction mJuncNum + 1 with
  | zero =>
    have none : ∀ v, ¬ Improves graph t s 0 v := fun v h => Nat.not_lt_zero v h.1
    simp only [relaxed, none, if_false, range_zero, foldl_nil]
  | succ n ih =>
    have here : (relaxed graph t s n).distance t = s.distance t :=
      if_neg fun h => absurd h.2.2 (not_lt.mpr (le_add_of_nonneg_right (hg.positive t t).le))
    have next : (relaxed graph t s n).distance n = s.distance n :=
      if_neg fun h => absurd h.1 (Nat.lt_irrefl n)
    rw [range_succ, foldl_append, ih, foldl_cons, foldl_nil, here, next]
    by_cases hedge : graph.cell t n ≠ infinite
    · rw [if_pos hedge]
      by_cases hlt : s.distance t + graph.cell t n < s.distance n
      · rw [if_pos hlt, relaxed_succ_of_improves ⟨Nat.lt_succ_self n, hedge, hlt⟩]
      · rw [if_neg hlt, relaxed_succ fun h => hlt h.2.2]
    · rw [if_neg hedge, relaxed_succ fun h => hedge h.2.1]

theorem Labels.relax (h : Labels graph srcjid s) (hg : Weighted graph) (ht : t ≤ mJuncNum)
    (hnot : s.visited t = false) (least : ∀ v, v ∉ s.settled → s.distance t ≤ s.distance v) :
    Labels graph srcjid (Dijkstra.relax graph t (s.visit t)) := by
  have unsettled : t ∉ s.settled := by
    change ¬ s.visited t = true
    rw [hnot]
    exact Bool.false_ne_true
  have settled : (Dijkstra.relax graph t (s.visit t)).settled = insert t s.settled := by
    rw [relax_eq hg]
    ext j
    by_cases hj : j = t <;> simp [Search.settled, relaxed, Search.visit, update_apply, hj]
  rw [Labels, settled, relax_eq hg]
  refine h.settle unsettled least (hg.edge_nonneg t) (fun v => ?_) fun v w hw => ?_
  · by_cases hv : Improves graph t (s.visit t) (mJuncNum + 1) v
    · have away : v ∉ insert t s.settled ∧ v ≠ srcjid :=
        h.unsettled_of_lt unsettled (hg.positive t v).le hv.2.2
      have hedge : edge graph t v = some (graph.cell t v) :=
        edge_eq_some.mpr ⟨⟨ht, Nat.lt_succ_iff.mp hv.1, hv.2.1⟩, rfl⟩
      have hdist : (relaxed graph t (s.visit t) (mJuncNum + 1)).distance v =
          s.distance t + graph.cell t v := if_pos hv
      exact .inr ⟨⟨_, hedge, hdist⟩, hdist ▸ hv.2.2.le, if_pos hv, away⟩
    · exact .inl ⟨if_neg hv, if_neg hv⟩
  · obtain ⟨⟨-, hv, hne⟩, rfl⟩ := edge_eq_some.mp hw
    by_cases hlt : s.distance t + graph.cell t v < s.distance v
    · exact (if_pos ⟨Nat.lt_succ_of_le hv, hne, hlt⟩ : _ = s.distance t + graph.cell t v).le
    · have same : (relaxed graph t (s.visit t) (mJuncNum + 1)).distance v = s.distance v :=
        if_neg fun himp => hlt himp.2.2
      exact same ▸ not_lt.mp hlt

def unvisited (s : Search) : Finset ℕ :=
  (Finset.range (mJuncNum + 1)).filter fun j => s.visited j = false

theorem mem_unvisited : t ∈ unvisited s ↔ t ≤ mJuncNum ∧ s.visited t = false := by
  rw [unvisited, Finset.mem_filter, Finset.mem_range, Nat.lt_succ_iff]

theorem unvisited_relax (hg : Weighted graph) (ht : t ≤ mJuncNum) (hnot : s.visited t = false) :
    (unvisited (Dijkstra.relax graph t (s.visit t))).card < (unvisited s).card := by
  refine Finset.card_lt_card (Finset.ssubset_iff_subset_ne.mpr ⟨fun j hj => ?_, fun heq => ?_⟩)
  · rw [relax_eq hg] at hj
    have hmem := mem_unvisited.mp hj
    refine mem_unvisited.mpr ⟨hmem.1, ?_⟩
    have hvis : update s.visited t true j = false := hmem.2
    by_cases hjt : j = t
    · rw [hjt, update_self] at hvis
      cases hvis
    · rwa [update_of_ne hjt] at hvis
  · have hmem : t ∈ unvisited (Dijkstra.relax graph t (s.visit t)) :=
      heq ▸ mem_unvisited.mpr ⟨ht, hnot⟩
    rw [relax_eq hg] at hmem
    have hvis : update s.visited t true t = false := (mem_unvisited.mp hmem).2
    rw [update_self] at hvis
    cases hvis

theorem Labels.search (hg : Weighted graph) (hsrc : srcjid ≤ mJuncNum) (hdst : dstjid ≤ mJuncNum)
    (rounds : ℕ) (h : Labels graph srcjid s) (hnot : s.visited dstjid = false)
    (hrounds : (unvisited s).card ≤ rounds) :
    ∃ s', Dijkstra.search graph dstjid rounds s = s' ∧ Labels graph srcjid s' ∧
      ∀ v, v ∉ s'.settled → s'.distance dstjid ≤ s'.distance v := by
  induction rounds generalizing s with
  | zero =>
    have hnone := Finset.card_eq_zero.mp (Nat.le_zero.mp hrounds)
    have hmem : dstjid ∈ unvisited s := mem_unvisited.mpr ⟨hdst, hnot⟩
    rw [hnone] at hmem
    exact absurd hmem (Finset.notMem_empty dstjid)
  | succ rounds ih =>
    obtain ⟨t, hsel, ht, htnot, least⟩ := h.select hsrc hdst hnot
    rw [Dijkstra.search, hsel]
    by_cases heq : t = dstjid
    · subst heq
      simp only [if_true]
      exact ⟨s, rfl, h, least⟩
    · simp only [heq, if_false]
      refine ih (h.relax hg ht htnot least) ?_ ?_
      · rw [relax_eq hg]
        exact (update_of_ne (Ne.symm heq) true s.visited).trans hnot
      · have hless := unvisited_relax hg ht htnot
        omega

theorem walkBack_eq {settled : Set ℕ} {parent : ℕ → Option ℕ}
    (back : Back settled parent srcjid v p) {steps : ℕ}
    (hsteps : p.length < steps) (path : List UInt16) :
    walkBack parent srcjid steps v path = .ok (p.map .ofNat ++ path) := by
  induction back generalizing steps path with
  | source =>
    cases steps with
    | zero => exact absurd hsteps (Nat.not_lt_zero _)
    | succ steps =>
      rw [walkBack, if_pos rfl]
      rfl
  | @step u v p ne up mem rest ih =>
    rw [length_append, length_singleton] at hsteps
    cases steps with
    | zero => exact absurd hsteps (Nat.not_lt_zero _)
    | succ steps =>
      rw [walkBack, if_neg ne, up]
      simp only []
      rw [ih (Nat.lt_of_succ_lt_succ hsteps), map_append, map_singleton, append_assoc,
        singleton_append]

theorem length_le_of_nodup (hp : p.Nodup) (hle : ∀ x ∈ p, x ≤ mJuncNum) : p.length ≤
    mJuncNum + 1 := by
  have hsub : p ⊆ range (mJuncNum + 1) := fun x hx => mem_range.mpr (Nat.lt_succ_of_le (hle x hx))
  rw [← length_range (n := mJuncNum + 1)]
  exact (hp.subperm hsub).length_le

structure Answer (graph : Grid (mJuncNum + 2) ℚ) (srcjid dstjid : ℕ) (path : List UInt16) :
    Prop where
  here : srcjid = dstjid → path = [.ofNat dstjid]
  apart : srcjid ≠ dstjid → (∀ p c, Walk (edge graph) srcjid p dstjid c → infinite ≤ c) → path = []
  shortest : srcjid ≠ dstjid → (∃ p c, Walk (edge graph) srcjid p dstjid c ∧ c < infinite) →
    ∃ p c, path = p.map .ofNat ∧ p.getLast? = some dstjid ∧ (srcjid :: p).Nodup ∧
      Walk (edge graph) srcjid p dstjid c ∧ ∀ q c', Walk (edge graph) srcjid q dstjid c' → c ≤ c'

theorem dijkstraAlgorithm_answer (hg : Weighted graph) (hsrc : srcjid ≤ mJuncNum)
    (hdst : dstjid ≤ mJuncNum) :
    ∃ path, dijkstraAlgorithm graph srcjid dstjid = .ok path ∧ Answer graph srcjid dstjid path := by
  by_cases heq : srcjid = dstjid
  · exact ⟨[.ofNat dstjid], if_pos heq,
      ⟨fun _ => rfl, fun hne => absurd heq hne, fun hne => absurd heq hne⟩⟩
  · have inside : ¬ (mJuncNum < srcjid ∨ mJuncNum < dstjid) := by omega
    have hcard : (unvisited (Search.start srcjid)).card ≤ mJuncNum + 1 :=
      (Finset.card_filter_le _ _).trans (Finset.card_range _).le
    obtain ⟨s, hs, labels, least⟩ :=
      (labels_start graph srcjid).search hg hsrc hdst (mJuncNum + 1) rfl hcard
    have shortest : ∀ p c, Walk (edge graph) srcjid p dstjid c → s.distance dstjid ≤ c :=
      fun p c walk =>
      labels.le_cost hg.edge_nonneg least walk
    unfold dijkstraAlgorithm
    rw [if_neg heq, if_neg inside]
    simp only [hs]
    by_cases hinf : s.distance dstjid = infinite
    · rw [if_pos hinf]
      refine ⟨[], rfl, ⟨fun h => absurd h heq, fun _ _ => rfl, fun _ hexists => ?_⟩⟩
      obtain ⟨p, c, walk, hc⟩ := hexists
      exact absurd (hinf ▸ shortest p c walk) (not_le.mpr hc)
    · rw [if_neg hinf]
      have hlt : s.distance dstjid < infinite := lt_of_le_of_ne (labels.bounded dstjid) hinf
      obtain ⟨p, back, walk⟩ := labels.reached dstjid hlt
      have hlen := length_le_of_nodup back.nodup (walk_le walk)
      rw [walkBack_eq back (Nat.lt_succ_of_le hlen), append_nil]
      refine ⟨_, rfl, ⟨fun h => absurd h heq, fun _ hall => ?_, fun _ _ => ?_⟩⟩
      · exact absurd (hall p _ walk) (not_le.mpr hlt)
      · refine ⟨p, _, rfl, back.getLast? (Ne.symm heq), ?_, walk, shortest⟩
        exact nodup_cons.mpr ⟨fun hmem => back.ne_source srcjid hmem rfl, back.nodup⟩

end Labels

/-- With the arrays the code declares the search stays inside them and gives the answer only from a
vertex to itself; with a cell for the virtual vertex it would always do so. -/
theorem shortest_path_iff {graph : Grid (mJuncNum + 2) ℚ} (hg : Weighted graph) {srcjid dstjid : ℕ}
    (hsrc : srcjid ≤ mJuncNum) (hdst : dstjid ≤ mJuncNum) :
    ((∃ path, dijkstraAlgorithmIn mJuncNum graph srcjid dstjid = .ok path ∧
      Answer graph srcjid dstjid path) ↔ srcjid = dstjid) ∧
    ∀ declared, mJuncNum < declared →
      ∃ path, dijkstraAlgorithmIn declared graph srcjid dstjid = .ok path ∧
        Answer graph srcjid dstjid path := by
  refine ⟨⟨fun ⟨path, hpath, _⟩ => ?_, fun heq => ?_⟩, fun declared enough => ?_⟩
  · by_contra hne
    rw [dijkstraAlgorithmIn_declared graph hne] at hpath
    cases hpath
  · obtain ⟨path, hpath, answer⟩ := dijkstraAlgorithm_answer hg hsrc hdst
    refine ⟨path, ?_, answer⟩
    rw [← hpath, dijkstraAlgorithm, dijkstraAlgorithmIn, if_pos heq, if_pos heq]
  · rw [dijkstraAlgorithmIn_eq enough hsrc hdst]
    exact dijkstraAlgorithm_answer hg hsrc hdst

def unitGraph : Grid (mJuncNum + 2) ℚ := .fill 1

theorem weighted_unitGraph : Weighted unitGraph := ⟨fun _ _ => rfl, fun _ _ => one_pos⟩

theorem shortest_path_iff_unitGraph :
    Weighted unitGraph ∧ mJuncNum ≤ mJuncNum ∧ mRsujid ≤ mJuncNum ∧
    ((∃ path, dijkstraAlgorithmIn mJuncNum unitGraph mJuncNum mRsujid = .ok path ∧
      Answer unitGraph mJuncNum mRsujid path) ↔ mJuncNum = mRsujid) :=
  ⟨weighted_unitGraph, le_rfl, by
    decide, (shortest_path_iff weighted_unitGraph le_rfl (by decide)).1⟩

/-- The path that `AddHeader` asks for on a road writes past the end of the arrays. -/
theorem search_leaves_arrays : Weighted unitGraph ∧ mJuncNum ≤ mJuncNum ∧ mRsujid ≤ mJuncNum ∧
      dijkstraAlgorithmIn mJuncNum unitGraph mJuncNum mRsujid = .error .junction :=
  ⟨weighted_unitGraph, le_rfl, by decide, dijkstraAlgorithmIn_declared unitGraph (by decide)⟩

end Egsr.Grp.Dijkstra
