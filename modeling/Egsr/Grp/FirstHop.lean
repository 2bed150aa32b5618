import Egsr.Grp.State
import Egsr.Lib.NearestFirst

/-! The first hop towards a junction. On a road graph the second search visits the junctions
nearest first and its parents are right, but a road has to leave the source, and the way back along
the parents stops in junction 0. -/

namespace Egsr.Grp.FirstHop

open Grp.Road Grp.State Grp.Dijkstra Lib.Outcome Lib.NearestFirst List Function

/-! ## One round -/

section Round

variable {graph2 : Grid mJuncNum ℚ} {curr m j n : ℕ} {s s' : Search} {next next' : Option ℕ}
    {min : ℚ}

def Shortens (graph2 : Grid mJuncNum ℚ) (curr : ℕ) (s : Search) (n : ℕ) : Prop :=
  s.visited n = false ∧ s.distance curr + graph2.cell curr n < s.distance n

structure Relaxed (graph2 : Grid mJuncNum ℚ) (curr m : ℕ) (s s' : Search) : Prop where
  visited : s'.visited = s.visited
  improved : ∀ j < m, Shortens graph2 curr s j →
    s'.distance j = s.distance curr + graph2.cell curr j ∧ s'.parent j = some curr
  kept : ∀ j, (j < m → ¬ Shortens graph2 curr s j) → s'.distance j = s.distance j ∧
    s'.parent j = s.parent j

/-- The first of the unvisited junctions of least distance among the first `m`, unless all of them
are infinitely far. -/
inductive Chosen (s : Search) (m : ℕ) (next : Option ℕ) : Option ℕ → ℚ → Prop
  | nearest {n : ℕ} (lt : n < m) (unvisited : s.visited n = false) (near : s.distance n < infinite)
      (le : ∀ j < m, s.visited j = false → s.distance n ≤ s.distance j)
      (first : ∀ j < n, s.visited j = false → s.distance n < s.distance j) :
      Chosen s m next (some n) (s.distance n)
  | none (far : ∀ j < m, s.visited j = false → infinite ≤ s.distance j) :
    Chosen s m next next infinite

def choose2 (s : Search) (next : Option ℕ) (min : ℚ) (n : ℕ) : Search × Option ℕ × ℚ :=
  if s.distance n < min then (s, some n, s.distance n) else (s, next, min)

def relaxStep2 (graph2 : Grid mJuncNum ℚ) (curr : ℕ) (r : Search × Option ℕ × ℚ) (n : ℕ) :
    Search × Option ℕ × ℚ :=
  let (s, next, min) := r
  if s.visited n then r
  else
    let s := if s.distance curr + graph2.cell curr n < s.distance n then
      s.reach n curr (s.distance curr + graph2.cell curr n) else s
    choose2 s next min n

theorem relax2_eq (graph2 : Grid mJuncNum ℚ) (curr : ℕ) (s : Search) (next : Option ℕ) :
    relax2 graph2 curr s next =
      let r := (range mJuncNum).foldl (relaxStep2 graph2 curr) (s, next, infinite)
      (r.1, r.2.1) := by
  unfold relax2
  rfl

theorem Relaxed.skip (relaxed : Relaxed graph2 curr m s s') (same : ¬ Shortens graph2 curr s m) :
    Relaxed graph2 curr (m + 1) s s' where
  visited := relaxed.visited
  improved j hj shortens := by
    apply relaxed.improved j _ shortens
    have ne : j ≠ m := fun heq => same (heq ▸ shortens)
    omega
  kept j hj := relaxed.kept j fun lt => hj (Nat.lt_succ_of_lt lt)

theorem Relaxed.reach (relaxed : Relaxed graph2 curr m s s') (shortens : Shortens graph2 curr s m) :
    Relaxed graph2 curr (m + 1) s (s'.reach m curr (s.distance curr + graph2.cell curr m)) where
  visited := relaxed.visited
  improved j hj shortensj := by
    by_cases heq : j = m
    · subst heq
      exact ⟨update_self .., update_self ..⟩
    · simp only [Search.reach, update_of_ne heq]
      exact relaxed.improved j (by omega) shortensj
  kept j hj := by
    have ne : j ≠ m := fun heq => hj (heq ▸ Nat.lt_succ_self m) (heq ▸ shortens)
    simp only [Search.reach, update_of_ne ne]
    exact relaxed.kept j fun lt => hj (Nat.lt_succ_of_lt lt)

theorem Relaxed.before (relaxed : Relaxed graph2 curr m s s') (visited : s.visited curr = true) :
    s'.distance curr = s.distance curr ∧ s'.distance m = s.distance m := by
  constructor
  · refine (relaxed.kept curr fun _ shortens => ?_).1
    rw [shortens.1] at visited
    exact absurd visited Bool.false_ne_true
  · exact (relaxed.kept m fun lt => absurd lt (lt_irrefl m)).1

section

variable (chosen : Chosen s m next next' min)

include chosen

theorem Chosen.congr (visited : s'.visited = s.visited)
    (distance : ∀ j < m, s'.distance j = s.distance j) : Chosen s' m next next' min := by
  induction chosen with
  | @nearest n lt unvisited near le first =>
    rw [← distance n lt] at near ⊢
    refine .nearest lt (visited ▸ unvisited) near ?_ ?_
    · intro j hj hv
      rw [distance n lt, distance j hj]
      exact le j hj (visited ▸ hv)
    · intro j hj hv
      rw [distance n lt, distance j (hj.trans lt)]
      exact first j hj (visited ▸ hv)
  | none far =>
    apply Chosen.none
    intro j hj hv
    rw [distance j hj]
    exact far j hj (visited ▸ hv)

theorem Chosen.le_min : ∀ j < m, s.visited j = false → min ≤ s.distance j := by
  induction chosen with
  | nearest _ _ _ le _ => exact le
  | none far => exact far

theorem Chosen.min_le : min ≤ infinite := by
  induction chosen with
  | nearest _ _ near _ _ => exact near.le
  | none => exact le_rfl

theorem Chosen.pass (worse : s.visited m = false → min ≤ s.distance m) :
    Chosen s (m + 1) next next' min := by
  have all : ∀ j < m + 1, s.visited j = false → min ≤ s.distance j := by
    intro j hj hv
    rcases Nat.lt_succ_iff_lt_or_eq.mp hj with lt | rfl
    · exact chosen.le_min j lt hv
    · exact worse hv
  induction chosen with
  | nearest lt unvisited near _ first =>
    exact .nearest (Nat.lt_succ_of_lt lt) unvisited near all first
  | none => exact .none all

theorem Chosen.take (unvisited : s.visited m = false)
    (better : s.distance m < min) : Chosen s (m + 1) next (some m) (s.distance m) := by
  refine .nearest (Nat.lt_succ_self m) unvisited (better.trans_le chosen.min_le) ?_ ?_
  · intro j hj hv
    rcases Nat.lt_succ_iff_lt_or_eq.mp hj with lt | rfl
    · exact better.le.trans (chosen.le_min j lt hv)
    · exact le_rfl
  · intro j hj hv
    exact better.trans_le (chosen.le_min j hj hv)

theorem choose2_spec (unvisited : s.visited m = false) :
    (choose2 s next' min m).1 = s ∧
      Chosen s (m + 1) next (choose2 s next' min m).2.1 (choose2 s next' min m).2.2 := by
  by_cases better : s.distance m < min
  · rw [choose2, if_pos better]
    exact ⟨rfl, chosen.take unvisited better⟩
  · rw [choose2, if_neg better]
    exact ⟨rfl, chosen.pass fun _ => not_lt.mp better⟩

end

theorem relaxStep2_spec {r : Search × Option ℕ × ℚ} (visited : s.visited curr = true)
    (relaxed : Relaxed graph2 curr m s r.1) (chosen : Chosen r.1 m next r.2.1 r.2.2) :
    Relaxed graph2 curr (m + 1) s (relaxStep2 graph2 curr r m).1 ∧
      Chosen (relaxStep2 graph2 curr r m).1 (m + 1) next (relaxStep2 graph2 curr r m).2.1
        (relaxStep2 graph2 curr r m).2.2 := by
  obtain ⟨s', next', min⟩ := r
  dsimp only at relaxed chosen
  obtain ⟨hcurr, hm⟩ := relaxed.before visited
  by_cases hv : s'.visited m = true
  · have seen : s.visited m = true := by rwa [← relaxed.visited]
    simp only [relaxStep2, if_pos hv]
    refine ⟨relaxed.skip fun shortens => ?_, chosen.pass fun unvisited => ?_⟩
    · exact Bool.false_ne_true (shortens.1.symm.trans seen)
    · exact absurd (unvisited.symm.trans hv) Bool.false_ne_true
  · have unvisited : s'.visited m = false := Bool.eq_false_of_not_eq_true hv
    simp only [relaxStep2, if_neg hv]
    by_cases shorter : s'.distance curr + graph2.cell curr m < s'.distance m
    · have shortens : Shortens graph2 curr s m := by
        refine ⟨relaxed.visited ▸ unvisited, ?_⟩
        rwa [← hcurr, ← hm]
      have reached :
        Chosen (s'.reach m curr (s'.distance curr + graph2.cell curr m)) m next next' min :=
        chosen.congr rfl fun j hj => update_of_ne hj.ne _ _
      obtain ⟨same, chosen'⟩ := choose2_spec reached unvisited
      rw [if_pos shorter, same]
      rw [hcurr] at chosen' ⊢
      exact ⟨relaxed.reach shortens, chosen'⟩
    · have longer : ¬ Shortens graph2 curr s m := by
        rw [hcurr, hm] at shorter
        exact fun shortens => shorter shortens.2
      obtain ⟨same, chosen'⟩ := choose2_spec chosen unvisited
      rw [if_neg shorter, same]
      exact ⟨relaxed.skip longer, chosen'⟩

theorem relax2_spec (visited : s.visited curr = true) (next : Option ℕ) :
    Relaxed graph2 curr mJuncNum s (relax2 graph2 curr s next).1 ∧
      ∃ min, Chosen (relax2 graph2 curr s next).1 mJuncNum next
      (relax2 graph2 curr s next).2 min := by
  rw [relax2_eq]
  dsimp only
  generalize mJuncNum = m
  suffices loop :
    Relaxed graph2 curr m s ((range m).foldl (relaxStep2 graph2 curr) (s, next, infinite)).1 ∧
      Chosen ((range m).foldl (relaxStep2 graph2 curr) (s, next, infinite)).1 m next
        ((range m).foldl (relaxStep2 graph2 curr) (s, next, infinite)).2.1
        ((range m).foldl (relaxStep2 graph2 curr) (s, next, infinite)).2.2 from ⟨loop.1, _, loop.2⟩
  induction m with
  | zero =>
    refine ⟨⟨rfl, fun j hj => absurd hj (Nat.not_lt_zero j), fun _ _ => ⟨rfl, rfl⟩⟩, ?_⟩
    exact .none fun j hj => absurd hj (Nat.not_lt_zero j)
  | succ m ih =>
    rw [range_succ, foldl_append]
    exact relaxStep2_spec visited ih.1 ih.2

end Round

/-! ## The road graph -/

/-- Every two junctions have a road of one hop or none, the same in both directions. -/
structure UnitGraph (graph2 : Grid mJuncNum ℚ) : Prop where
  symmetric : ∀ i < mJuncNum, ∀ j < mJuncNum, graph2.cell i j = graph2.cell j i
  unit : ∀ i < mJuncNum, ∀ j < mJuncNum, i ≠ j → graph2.cell i j = 1 ∨ graph2.cell i j = infinite

def roads (graph2 : Grid mJuncNum ℚ) : SimpleGraph ℕ where
  Adj i j := i ≠ j ∧ i < mJuncNum ∧ j < mJuncNum ∧ graph2.cell i j = 1 ∧ graph2.cell j i = 1
  symm := ⟨fun _ _ adj => ⟨adj.1.symm, adj.2.2.1, adj.2.1, adj.2.2.2.2, adj.2.2.2.1⟩⟩
  loopless := ⟨fun _ adj => adj.1 rfl⟩

section Map

variable {map : RoadMap} {graph2 graph2' : Grid mJuncNum ℚ} {i j k l : ℕ} {a : ℚ}

def UnitPair (graph2 : Grid mJuncNum ℚ) (i j : ℕ) : Prop :=
  graph2.cell i j = graph2.cell j i ∧ (graph2.cell i j = 1 ∨ graph2.cell i j = infinite)

theorem unitPair_both (ha : a = 1 ∨ a = infinite) (h : UnitPair graph2 i j ∨ (i, j) = (k, l)) :
    UnitPair (graph2.both k l a) i j := by
  by_cases same : i = k ∧ j = l ∨ i = l ∧ j = k
  · have swapped : j = k ∧ i = l ∨ j = l ∧ i = k := by tauto
    simpa only [UnitPair, Grid.both, if_pos same, if_pos swapped, true_and] using ha
  · have swapped : ¬ (j = k ∧ i = l ∨ j = l ∧ i = k) := by tauto
    have unit :=
      h.resolve_right fun heq => same (.inl ⟨congrArg Prod.fst heq, congrArg Prod.snd heq⟩)
    simpa only [UnitPair, Grid.both, if_neg same, if_neg swapped] using unit

theorem unitGraph_of_adjacency (run : adjacency map graph2 = .ok graph2') : UnitGraph graph2' := by
  have loop : ∀ (pairs : List (ℕ × ℕ)) (g : Grid mJuncNum ℚ),
      pairs.foldlM (fun (g : Grid mJuncNum ℚ) ij => do
        let adjacent ← isAdjacentVex map ij.1 ij.2
        g.setBoth ij.1 ij.2 (if adjacent then 1 else infinite)) g = .ok graph2' →
      ∀ i j, UnitPair g i j ∨ (i, j) ∈ pairs → UnitPair graph2' i j := by
    intro pairs
    induction pairs with
    | nil =>
      intro g hrun i j h
      cases hrun
      exact h.resolve_right not_mem_nil
    | cons kl pairs ih =>
      intro g hrun i j h
      rw [foldlM_cons] at hrun
      obtain ⟨g', hset, hrest⟩ := bind_ok_inv hrun
      obtain ⟨adjacent, -, hset⟩ := bind_ok_inv hset
      obtain ⟨hk, hl⟩ := Grid.setBoth_ok_inv hset
      rw [Grid.setBoth_eq hk hl] at hset
      cases hset
      have either : (if adjacent = true then (1 : ℚ) else infinite) = 1 ∨
          (if adjacent = true then (1 : ℚ) else infinite) = infinite := by
        by_cases yes : adjacent = true
        · exact .inl (if_pos yes)
        · exact .inr (if_neg yes)
      refine ih _ hrest i j ?_
      rcases h with h | h
      · exact .inl (unitPair_both either (.inl h))
      · rcases mem_cons.mp h with rfl | h
        · exact .inl (unitPair_both either (.inr rfl))
        · exact .inr h
  have pair : ∀ i j, i < j → j < mJuncNum → UnitPair graph2' i j := by
    intro i j hij hj
    refine loop _ _ run i j (.inr ?_)
    simp only [mem_flatMap, mem_map, mem_filter, mem_range, decide_eq_true_eq]
    exact ⟨i, hij.trans hj, j, ⟨hj, hij⟩, rfl⟩
  constructor
  · intro i hi j hj
    rcases Nat.lt_trichotomy i j with lt | rfl | gt
    · exact (pair i j lt hj).1
    · rfl
    · exact (pair j i gt hi).1.symm
  · intro i hi j hj ne
    rcases Nat.lt_or_gt_of_ne ne with lt | gt
    · exact (pair i j lt hj).2
    · obtain ⟨same, unit⟩ := pair j i gt hi
      exact same ▸ unit

end Map

section Roads

variable {graph2 : Grid mJuncNum ℚ} {src i j : ℕ}

theorem UnitGraph.cell_of_not_adj (unit : UnitGraph graph2) (hi : i < mJuncNum) (hj : j < mJuncNum)
    (ne : i ≠ j) (none : ¬ (roads graph2).Adj i j) : graph2.cell i j = infinite := by
  apply (unit.unit i hi j hj ne).resolve_left
  intro one
  exact none ⟨ne, hi, hj, one, unit.symmetric i hi j hj ▸ one⟩

theorem lt_of_reachable (reach : (roads graph2).Reachable src j) (hsrc : src < mJuncNum) : j <
    mJuncNum := by
  obtain ⟨walk⟩ := reach
  induction walk with
  | nil => exact hsrc
  | cons adj _ ih => exact ih adj.2.2.1

theorem hops_lt (reach : (roads graph2).Reachable src j) (hsrc : src < mJuncNum) :
    (roads graph2).dist src j < mJuncNum + 1 := by
  obtain ⟨path, isPath, short⟩ := reach.exists_path_of_dist
  have inside : path.support.toFinset ⊆ Finset.range mJuncNum := by
    intro k hk
    rw [Finset.mem_range]
    exact lt_of_reachable (path.takeUntil k (mem_toFinset.mp hk)).reachable hsrc
  have few : path.support.length ≤ mJuncNum := by
    rw [← toFinset_card_of_nodup isPath.support_nodup, ← Finset.card_range mJuncNum]
    exact Finset.card_le_card inside
  rw [SimpleGraph.Walk.length_support, short] at few
  omega

theorem dist_lt_infinite (reach : (roads graph2).Reachable src j) (hsrc : src < mJuncNum) :
    ((roads graph2).dist src j : ℚ) < infinite := by
  have hops : ((roads graph2).dist src j : ℚ) ≤ mJuncNum := by
    exact_mod_cast Nat.lt_succ_iff.mp (hops_lt reach hsrc)
  have below : (mJuncNum : ℚ) < infinite := by norm_num [mJuncNum, infinite]
  exact hops.trans_lt below

end Roads

/-! ## The labels -/

variable (G : SimpleGraph ℕ)

/-- The labels while the junctions of a set are expanded: a junction has its distance and its
parent once the parent is in the set, and nothing before. -/
structure Labelled (src : ℕ) (expanded : ℕ → Prop) (s : Search) : Prop where
  source : s.distance src = 0
  found : ∀ j p, Parent G src j p → expanded p → s.distance j = G.dist src j ∧ s.parent j = some p
  pending : ∀ j, j ≠ src → (∀ p, Parent G src j p → ¬ expanded p) → s.distance j = infinite ∧
    s.parent j = none

/-- The search visits the junctions in their order. All but the last visited one are expanded. -/
structure Visiting (src curr : ℕ) (s : Search) : Prop where
  reach : G.Reachable src curr
  visited : ∀ j, s.visited j = true ↔ G.Reachable src j ∧ key G src j ≤ key G src curr
  labelled : Labelled G src (fun p => key G src p < key G src curr) s

section Search

variable {graph2 : Grid mJuncNum ℚ} {src dst curr j n p rounds : ℕ} {s s' : Search}
    {next next' : Option ℕ} {min : ℚ}

theorem key_source_le (G : SimpleGraph ℕ) (reach : G.Reachable src curr) : key G src src ≤
    key G src curr := by
  rw [key_le_iff, SimpleGraph.dist_self]
  rcases Nat.eq_zero_or_pos (G.dist src curr) with zero | pos
  · exact .inr ⟨zero.symm, (reach.dist_eq_zero_iff.mp zero).le⟩
  · exact .inl pos

theorem visiting_start (G : SimpleGraph ℕ) (src : ℕ) : Visiting G src src
    ((Search.start src).visit src) where
  reach := .refl src
  visited j := by
    simp only [Search.visit, Search.start, update_apply]
    constructor
    · intro hv
      have heq : j = src := by
        by_contra ne
        simp [ne] at hv
      exact heq ▸ ⟨.refl j, le_rfl⟩
    · intro h
      rw [if_pos (key_injective (le_antisymm h.2 (key_source_le G h.1)))]
  labelled := {
    source := if_pos rfl
    found := fun j p parent before =>
      absurd before (not_lt.mpr (key_source_le G (nearer_reachable parent.1)))
    pending := fun j ne _ => ⟨if_neg ne, rfl⟩ }

variable {G : SimpleGraph ℕ}

section

variable (visiting : Visiting G src curr s)

include visiting

theorem Visiting.source_visited : s.visited src = true :=
  (visiting.visited src).mpr ⟨.refl src, key_source_le G visiting.reach⟩

theorem Visiting.curr_visited : s.visited curr = true :=
  (visiting.visited curr).mpr ⟨visiting.reach, le_rfl⟩

theorem Visiting.beyond (reach : G.Reachable src j)
    (unvisited : s.visited j = false) : key G src curr < key G src j := by
  by_contra before
  rw [(visiting.visited j).mpr ⟨reach, not_lt.mp before⟩] at unvisited
  exact Bool.false_ne_true unvisited.symm

theorem Visiting.distance_curr : s.distance curr = G.dist src curr := by
  by_cases heq : curr = src
  · rw [heq, visiting.labelled.source, SimpleGraph.dist_self, Nat.cast_zero]
  · obtain ⟨p, parent⟩ := exists_parent visiting.reach heq
    exact (visiting.labelled.found curr p parent parent.key_lt).1

end

theorem Visiting.shortens_iff (unit : UnitGraph graph2) (hsrc : src < mJuncNum)
    (visiting : Visiting (roads graph2) src curr s) (hj : j < mJuncNum)
    (unvisited : s.visited j = false) :
    Shortens graph2 curr s j ↔ Parent (roads graph2) src j curr := by
  have hcurr := lt_of_reachable visiting.reach hsrc
  have ne : curr ≠ j := by
    rintro rfl
    rw [visiting.curr_visited] at unvisited
    exact Bool.false_ne_true unvisited.symm
  have nesrc : j ≠ src := by
    rintro rfl
    rw [visiting.source_visited] at unvisited
    exact Bool.false_ne_true unvisited.symm
  rw [Shortens, visiting.distance_curr]
  constructor
  · rintro ⟨-, shorter⟩
    by_cases adj : (roads graph2).Adj curr j
    · obtain ⟨p, parent⟩ := exists_parent (visiting.reach.trans adj.reachable) nesrc
      rcases (parent.key_le adj).lt_or_eq with before | same
      · -- an earlier parent has given the junction its distance
        have near : (roads graph2).dist src j ≤ (roads graph2).dist src curr + 1 := by
          rcases adj.diff_dist_adj (u := src) with h | h | h <;> omega
        rw [(visiting.labelled.found j p parent before).1, adj.2.2.2.1] at shorter
        exact absurd shorter (not_lt.mpr (by exact_mod_cast near))
      · exact key_injective same ▸ parent
    · rw [unit.cell_of_not_adj hcurr hj ne adj] at shorter
      have bounded : s.distance j ≤ infinite := by
        by_cases labelled : ∃ p, Parent (roads graph2) src j p ∧
          key (roads graph2) src p < key (roads graph2) src curr
        · obtain ⟨p, parent, before⟩ := labelled
          rw [(visiting.labelled.found j p parent before).1]
          exact (dist_lt_infinite (reachable_of_nearer parent.1) hsrc).le
        · rw [(visiting.labelled.pending j nesrc fun p parent before =>
            labelled ⟨p, parent, before⟩).1]
      have nonneg : (0 : ℚ) ≤ (roads graph2).dist src curr := Nat.cast_nonneg _
      linarith
  · intro parent
    have dist := parent.1.2
    refine ⟨unvisited, ?_⟩
    have fresh := visiting.labelled.pending j nesrc fun q other => by
      rw [other.unique parent]
      exact lt_irrefl (key (roads graph2) src curr)
    rw [fresh.1, parent.1.1.2.2.2.1]
    have near := dist_lt_infinite (reachable_of_nearer parent.1) hsrc
    rw [← dist] at near
    exact_mod_cast near

theorem Visiting.relax (unit : UnitGraph graph2) (hsrc : src < mJuncNum)
    (visiting : Visiting (roads graph2) src curr s) (relaxed : Relaxed graph2 curr mJuncNum s s') :
    Labelled (roads graph2) src
    (fun p => key (roads graph2) src p ≤ key (roads graph2) src curr) s' where
  source := by
    rw [← visiting.labelled.source]
    refine (relaxed.kept src fun _ shortens => ?_).1
    rw [Shortens, visiting.source_visited] at shortens
    exact Bool.false_ne_true shortens.1.symm
  found j p parent inside := by
    have hj : j < mJuncNum := parent.1.1.2.2.1
    by_cases new : Shortens graph2 curr s j
    · have heq := parent.unique ((visiting.shortens_iff unit hsrc hj new.1).mp new)
      subst heq
      obtain ⟨distance, hparent⟩ := relaxed.improved j hj new
      refine ⟨?_, hparent⟩
      rw [distance, visiting.distance_curr, parent.1.1.2.2.2.1, ← parent.1.2, Nat.cast_add,
        Nat.cast_one]
    · obtain ⟨distance, hparent⟩ := relaxed.kept j fun _ => new
      rw [distance, hparent]
      refine visiting.labelled.found j p parent (lt_of_le_of_ne inside fun same => ?_)
      -- the junctions below the last one are not visited, so they are the ones that are shortened
      have heq := key_injective same
      subst heq
      refine new ((visiting.shortens_iff unit hsrc hj (Bool.eq_false_of_not_eq_true fun hv =>
        ?_)).mpr parent)
      exact absurd parent.key_lt (not_lt.mpr ((visiting.visited j).mp hv).2)
  pending j ne none := by
    have same : ¬ (j < mJuncNum ∧ Shortens graph2 curr s j) := fun ⟨hj, shortens⟩ =>
      none curr ((visiting.shortens_iff unit hsrc hj shortens.1).mp shortens) le_rfl
    obtain ⟨distance, hparent⟩ := relaxed.kept j fun hj shortens => same ⟨hj, shortens⟩
    rw [distance, hparent]
    exact visiting.labelled.pending j ne fun p parent before => none p parent (le_of_lt before)

theorem Visiting.next_le (visiting : Visiting (roads graph2) src curr s)
    (same : s'.visited = s.visited)
    (labelled : Labelled (roads graph2) src
      (fun p => key (roads graph2) src p ≤ key (roads graph2) src curr) s')
    (hn : s'.distance n = (roads graph2).dist src n)
    (le : ∀ j < mJuncNum, s'.visited j = false → s'.distance n ≤ s'.distance j)
    (first : ∀ j < n, s'.visited j = false → s'.distance n < s'.distance j)
    (reach : (roads graph2).Reachable src j)
    (beyond : key (roads graph2) src curr < key (roads graph2) src j) :
    key (roads graph2) src n ≤ key (roads graph2) src j := by
  obtain ⟨i, p, parent, inside, hi, before⟩ :=
    exists_frontier (key_source_le _ visiting.reach) reach beyond
  refine le_trans ?_ before
  have distance := (labelled.found i p parent inside).1
  have unvisited : s'.visited i = false := by
    rw [same]
    exact Bool.eq_false_of_not_eq_true fun hv =>
      absurd hi (not_lt.mpr ((visiting.visited i).mp hv).2)
  rw [key_le_iff]
  have near := le i parent.1.1.2.2.1 unvisited
  rw [hn, distance, Nat.cast_le] at near
  rcases near.lt_or_eq with nearer | level
  · exact .inl nearer
  · refine .inr ⟨level, not_lt.mp fun lower => ?_⟩
    have strict := first i lower unvisited
    rw [hn, distance, level] at strict
    exact lt_irrefl _ strict

theorem Visiting.round (unit : UnitGraph graph2) (hsrc : src < mJuncNum)
    (visiting : Visiting (roads graph2) src curr s) (next : Option ℕ) :
    (∃ n, (relax2 graph2 curr s next).2 = some n ∧
      key (roads graph2) src curr < key (roads graph2) src n ∧
      Visiting (roads graph2) src n ((relax2 graph2 curr s next).1.visit n)) ∨
    (relax2 graph2 curr s next).2 = next ∧
      (∀ j, (roads graph2).Reachable src j →
        key (roads graph2) src j ≤ key (roads graph2) src curr) ∧
      Visiting (roads graph2) src curr ((relax2 graph2 curr s next).1.visit curr) := by
  obtain ⟨relaxed, min, chosen⟩ := relax2_spec visiting.curr_visited next
  generalize relax2 graph2 curr s next = r at relaxed chosen
  obtain ⟨s', next'⟩ := r
  dsimp only at relaxed chosen ⊢
  have labelled := visiting.relax unit hsrc relaxed
  have same := relaxed.visited
  cases chosen with
  | @nearest n lt unvisited near le first =>
    have nesrc : n ≠ src := by
      rintro rfl
      rw [same, visiting.source_visited] at unvisited
      exact Bool.false_ne_true unvisited.symm
    obtain ⟨p, parent, inside⟩ : ∃ p, Parent (roads graph2) src n p ∧
        key (roads graph2) src p ≤ key (roads graph2) src curr := by
      by_contra none
      rw [(labelled.pending n nesrc fun p parent inside => none ⟨p, parent, inside⟩).1] at near
      exact lt_irrefl _ near
    have reach := reachable_of_nearer parent.1
    have beyond := visiting.beyond reach (same ▸ unvisited)
    have least :=
      fun j => visiting.next_le (j := j) same labelled (labelled.found n p parent inside).1 le first
    -- between the last junction and the next one there is no other
    have upto : ∀ j, (roads graph2).Reachable src j →
        (key (roads graph2) src j < key (roads graph2) src n ↔
          key (roads graph2) src j ≤ key (roads graph2) src curr) :=
      fun j hj => ⟨fun before => not_lt.mp fun after =>
        absurd before (not_lt.mpr (least j hj after)),
        fun before => before.trans_lt beyond⟩
    refine .inl ⟨n, rfl, beyond, reach, fun j => ?_, labelled.source, fun j q parent' before =>
      ?_, fun j ne none => ?_⟩
    · simp only [Search.visit, same, update_apply]
      by_cases heq : j = n
      · simp [heq, reach]
      · rw [if_neg heq, visiting.visited j]
        refine and_congr_right fun hj => ?_
        rw [← upto j hj]
        exact ⟨le_of_lt, fun le => lt_of_le_of_ne le fun h => heq (key_injective h)⟩
    · exact labelled.found j q parent' ((upto q (nearer_reachable parent'.1)).mp before)
    · exact labelled.pending j ne fun q parent' inside' =>
        none q parent' ((upto q (nearer_reachable parent'.1)).mpr inside')
  | none far =>
    have last : ∀ j, (roads graph2).Reachable src j →
        key (roads graph2) src j ≤ key (roads graph2) src curr := by
      intro j reach
      by_contra beyond
      obtain ⟨i, p, parent, inside, hi, -⟩ :=
        exists_frontier (key_source_le _ visiting.reach) reach (not_le.mp beyond)
      have unvisited : s'.visited i = false := by
        rw [same]
        exact Bool.eq_false_of_not_eq_true fun hv =>
          absurd hi (not_lt.mpr ((visiting.visited i).mp hv).2)
      have infinitely := far i parent.1.1.2.2.1 unvisited
      rw [(labelled.found i p parent inside).1] at infinitely
      exact absurd (dist_lt_infinite (reachable_of_nearer parent.1) hsrc) (not_lt.mpr infinitely)
    refine .inr ⟨rfl, last, visiting.reach, fun j => ?_, labelled.source, fun j q parent before =>
      ?_, fun j ne none => ?_⟩
    · simp only [Search.visit, same, update_apply]
      by_cases heq : j = curr
      · simp [heq, visiting.reach]
      · rw [if_neg heq, visiting.visited j]
    · exact labelled.found j q parent (le_of_lt before)
    · refine labelled.pending j ne fun q parent _ => none q parent ?_
      exact parent.key_lt.trans_le (last j (reachable_of_nearer parent.1))

structure Parents (G : SimpleGraph ℕ) (src : ℕ) (parent : ℕ → Option ℕ) : Prop where
  found : ∀ j p, Parent G src j p → parent j = some p
  lost : ∀ j, ¬ G.Reachable src j → parent j = none

theorem search2_parents (unit : UnitGraph graph2) (hsrc : src < mJuncNum) {T : Finset ℕ}
    (visiting : Visiting (roads graph2) src curr s) (enough : T.card ≤ rounds)
    (mem : ∀ j, (roads graph2).Reachable src j →
      key (roads graph2) src curr < key (roads graph2) src j → j ∈ T) :
    ∃ s', search2 graph2 rounds curr (some curr) s = .ok s' ∧
      Parents (roads graph2) src s'.parent := by
  induction rounds generalizing curr s T with
  | zero =>
    have empty : T = ∅ := Finset.card_eq_zero.mp (Nat.le_zero.mp enough)
    have last : ∀ j, (roads graph2).Reachable src j →
        key (roads graph2) src j ≤ key (roads graph2) src curr := by
      intro j reach
      by_contra beyond
      have none := mem j reach (not_le.mp beyond)
      rw [empty] at none
      exact absurd none (Finset.notMem_empty j)
    refine ⟨s, rfl, fun j p parent => ?_, fun j unreach => ?_⟩
    · exact (visiting.labelled.found j p parent
        (parent.key_lt.trans_le (last j (reachable_of_nearer parent.1)))).2
    · have ne : j ≠ src := fun heq => unreach (heq ▸ .refl j)
      exact (visiting.labelled.pending j ne fun p parent _ =>
        unreach (reachable_of_nearer parent.1)).2
  | succ rounds ih =>
    rw [search2]
    rcases visiting.round unit hsrc
      (some curr) with ⟨n, hnext, beyond, visiting'⟩ | ⟨hnext, last, visiting'⟩
    · simp only [hnext]
      have hn : n ∈ T := mem n visiting'.reach beyond
      apply ih (T := T.erase n) visiting'
      · rw [Finset.card_erase_of_mem hn]
        omega
      · intro j reach after
        refine Finset.mem_erase.mpr ⟨fun heq => ?_, mem j reach (beyond.trans after)⟩
        exact absurd (heq ▸ after) (lt_irrefl _)
    · simp only [hnext]
      apply ih (T := ∅) visiting' (Nat.zero_le rounds)
      exact fun j reach after => absurd (last j reach) (not_le.mpr after)

theorem search2_start (unit : UnitGraph graph2) (hsrc : src < mJuncNum) :
    (∃ j, (roads graph2).Adj src j) ∧
      (∃ s', search2 graph2 mJuncNum src none ((Search.start src).visit src) = .ok s' ∧
        Parents (roads graph2) src s'.parent) ∨ (¬ ∃ j, (roads graph2).Adj src j) ∧
      search2 graph2 mJuncNum src none ((Search.start src).visit src) = .error .junction := by
  have visiting := visiting_start (roads graph2) src
  have mem : ∀ j, (roads graph2).Reachable src j → j ∈ Finset.range mJuncNum := fun j reach =>
    Finset.mem_range.mpr (lt_of_reachable reach hsrc)
  have card : (Finset.range mJuncNum).card = mJuncNum := Finset.card_range mJuncNum
  obtain ⟨rounds, hrounds⟩ : ∃ rounds, mJuncNum = rounds + 1 := ⟨48, rfl⟩
  rw [hrounds, search2]
  rcases visiting.round unit hsrc none with ⟨n, hnext, beyond, visiting'⟩ | ⟨hnext, last, -⟩
  · left
    simp only [hnext]
    have ne : n ≠ src := fun heq => absurd (heq ▸ beyond) (lt_irrefl _)
    constructor
    · obtain ⟨walk⟩ := visiting'.reach
      exact ⟨walk.snd, walk.adj_snd (SimpleGraph.Walk.not_nil_of_ne ne.symm)⟩
    · apply search2_parents unit hsrc (T := (Finset.range mJuncNum).erase n) visiting'
      · rw [Finset.card_erase_of_mem (mem n visiting'.reach), card, hrounds, Nat.add_sub_cancel]
      · intro j reach after
        exact Finset.mem_erase.mpr ⟨fun heq => absurd (heq ▸ after) (lt_irrefl _), mem j reach⟩
  · right
    simp only [hnext]
    refine ⟨?_, rfl⟩
    rintro ⟨j, adj⟩
    have level := last j adj.reachable
    rw [key_le_iff, SimpleGraph.dist_self, SimpleGraph.dist_eq_one_iff_adj.mpr adj] at level
    omega

end Search

/-! ## The way back -/

def IsFirstHop (src dst : ℕ) (r : ℤ) : Prop :=
  (G.Reachable src dst ∧ ∃ j : ℕ, r = j ∧ Starts G src dst j) ∨ (¬ G.Reachable src dst ∧ r = -1)

/-- Going back from a junction to its parent, and on from there until a road leads to the source,
one comes to junction 0, and no road leads from there to the source. -/
inductive ThroughZero (G : SimpleGraph ℕ) (src : ℕ) : ℕ → Prop
  | zero (far : ¬ G.Adj src 0) : ThroughZero G src 0
  | back {j p : ℕ} (far : ¬ G.Adj src j) (parent : Parent G src j p) (rest : ThroughZero G src p) :
      ThroughZero G src j

section Back

variable {G : SimpleGraph ℕ} {src jid steps : ℕ} {parent : ℕ → Option ℕ}

theorem walkBack2_through (parents : Parents G src parent) (through : ThroughZero G src jid)
    (enough : G.dist src jid < steps) : walkBack2 parent src steps jid = .ok 0 := by
  induction through generalizing steps with
  | zero far =>
    cases steps with
    | zero => exact absurd enough (Nat.not_lt_zero _)
    | succ steps => exact if_pos rfl
  | @back j p far up rest ih =>
    cases steps with
    | zero => exact absurd enough (Nat.not_lt_zero _)
    | succ steps =>
      rw [walkBack2]
      by_cases zero : j = 0
      · rw [if_pos zero]
        rfl
      · have ne : p ≠ src := fun heq => far (up.eq_source_iff.mp heq)
        have dist := up.1.2
        rw [if_neg zero, parents.found j p up]
        simp only [if_neg ne]
        exact ih (by omega)

theorem walkBack2_starts (parents : Parents G src parent) (reach : G.Reachable src jid)
    (hne : jid ≠ src) (around : ¬ ThroughZero G src jid) (enough : G.dist src jid < steps) :
    ∃ j : ℕ, walkBack2 parent src steps jid = .ok (j : ℤ) ∧ Starts G src jid j := by
  induction steps generalizing jid with
  | zero => exact absurd enough (Nat.not_lt_zero _)
  | succ steps ih =>
    rw [walkBack2]
    by_cases zero : jid = 0
    · have adj : G.Adj src jid := by
        by_contra far
        exact around (zero ▸ .zero (zero ▸ far))
      rw [if_pos zero]
      exact ⟨jid, by rw [zero]; rfl, starts_neighbour adj⟩
    · obtain ⟨p, up⟩ := exists_parent reach hne
      rw [if_neg zero, parents.found jid p up]
      by_cases heq : p = src
      · simp only [if_pos heq]
        exact ⟨jid, rfl, starts_neighbour (up.eq_source_iff.mp heq)⟩
      · have far : ¬ G.Adj src jid := fun adj => heq (up.eq_source_iff.mpr adj)
        have dist := up.1.2
        simp only [if_neg heq]
        obtain ⟨j, hj, starts⟩ :=
          ih (nearer_reachable up.1) heq (fun through => around (.back far up through)) (by omega)
        exact ⟨j, hj, starts.step up.1⟩

theorem walkBack2_lost (parents : Parents G src parent) (unreach : ¬ G.Reachable src jid)
    (around : ¬ ThroughZero G src jid) : walkBack2 parent src (steps + 1) jid = .ok (-1) := by
  have ne : jid ≠ 0 := by
    rintro rfl
    exact around (.zero fun adj => unreach adj.reachable)
  rw [walkBack2, if_neg ne, parents.lost jid unreach]
  rfl

theorem not_isFirstHop_zero (through : ThroughZero G src jid) : ¬ IsFirstHop G src jid 0 := by
  have far : ¬ G.Adj src 0 := by
    induction through with
    | zero far => exact far
    | back _ _ _ ih => exact ih
  rintro (⟨-, j, hj, road, -⟩ | ⟨-, h⟩)
  · rw [Int.natCast_eq_zero.mp hj.symm] at road
    exact far road
  · exact absurd h (by decide)

end Back

section Result

variable {graph2 : Grid mJuncNum ℚ} {srcjid dstjid : ℕ}

theorem dijkstraAlgorithm2_cases (unit : UnitGraph graph2) (hsrc : srcjid < mJuncNum)
    (hdst : dstjid < mJuncNum) :
    (∃ j, (roads graph2).Adj srcjid j) ∧ (∃ parent, Parents (roads graph2) srcjid parent ∧
      dijkstraAlgorithm2 graph2 srcjid dstjid = walkBack2 parent srcjid (mJuncNum + 1) dstjid) ∨
    (¬ ∃ j, (roads graph2).Adj srcjid j) ∧ dijkstraAlgorithm2 graph2 srcjid dstjid =
      .error .junction := by
  have inside : ¬ (mJuncNum ≤ srcjid ∨ mJuncNum ≤ dstjid) := by omega
  rw [dijkstraAlgorithm2, if_neg inside]
  rcases search2_start unit hsrc with ⟨road, s, hs, parents⟩ | ⟨isolated, hs⟩
  · rw [hs]
    exact .inl ⟨road, s.parent, parents, rfl⟩
  · rw [hs]
    exact .inr ⟨isolated, rfl⟩

theorem dist_lt_steps (hsrc : srcjid < mJuncNum) (dstjid : ℕ) :
    (roads graph2).dist srcjid dstjid < mJuncNum + 1 := by
  by_cases reach : (roads graph2).Reachable srcjid dstjid
  · exact hops_lt reach hsrc
  · rw [SimpleGraph.dist_eq_zero_of_not_reachable reach]
    exact Nat.succ_pos _

theorem dijkstraAlgorithm2_through (unit : UnitGraph graph2) (hsrc : srcjid < mJuncNum)
    (hdst : dstjid < mJuncNum)
    (road : ∃ j, (roads graph2).Adj srcjid j) (through : ThroughZero (roads graph2) srcjid dstjid) :
    dijkstraAlgorithm2 graph2 srcjid dstjid = .ok 0 := by
  rcases dijkstraAlgorithm2_cases unit hsrc hdst with ⟨-, parent, parents, run⟩ | ⟨isolated, -⟩
  · rw [run]
    exact walkBack2_through parents through (dist_lt_steps hsrc dstjid)
  · exact absurd road isolated

/-- The second search returns the first hop of a shortest path, or -1 where there is no path, if and
only if a road leaves the source and the way back from the destination does not end in junction
0. -/
theorem dijkstraAlgorithm2_firstHop_iff (unit : UnitGraph graph2) (hsrc : srcjid < mJuncNum)
    (hdst : dstjid < mJuncNum) (hne : srcjid ≠ dstjid) :
    (∃ r, dijkstraAlgorithm2 graph2 srcjid dstjid = .ok r ∧
      IsFirstHop (roads graph2) srcjid dstjid r) ↔
      (∃ j, (roads graph2).Adj srcjid j) ∧ ¬ ThroughZero (roads graph2) srcjid dstjid := by
  constructor
  · rintro ⟨r, run, first⟩
    have road : ∃ j, (roads graph2).Adj srcjid j := by
      rcases dijkstraAlgorithm2_cases unit hsrc hdst with ⟨road, -⟩ | ⟨-, fault⟩
      · exact road
      · rw [fault] at run
        cases run
    refine ⟨road, fun through => not_isFirstHop_zero through ?_⟩
    rw [dijkstraAlgorithm2_through unit hsrc hdst road through] at run
    cases run
    exact first
  · rintro ⟨road, around⟩
    rcases dijkstraAlgorithm2_cases unit hsrc hdst with ⟨-, parent, parents, run⟩ | ⟨isolated, -⟩
    · rw [run]
      by_cases reach : (roads graph2).Reachable srcjid dstjid
      · obtain ⟨j, hj, starts⟩ :=
          walkBack2_starts parents reach hne.symm around (dist_lt_steps hsrc dstjid)
        exact ⟨j, hj, .inl ⟨reach, j, rfl, starts⟩⟩
      · exact ⟨-1, walkBack2_lost parents reach around, .inr ⟨reach, rfl⟩⟩
    · exact absurd road isolated

end Result

def ofRoads (pairs : List (ℕ × ℕ)) : Grid mJuncNum ℚ where
  cell i j := if (i, j) ∈ pairs ∨ (j, i) ∈ pairs then 1 else infinite

theorem unitGraph_ofRoads (pairs : List (ℕ × ℕ)) : UnitGraph (ofRoads pairs) where
  symmetric i _ j _ := if_congr or_comm rfl rfl
  unit i _ j _ _ := by
    rw [ofRoads]
    dsimp only
    split_ifs
    · exact .inl rfl
    · exact .inr rfl

theorem adj_ofRoads {pairs : List (ℕ × ℕ)} {i j : ℕ} (adj : (roads (ofRoads pairs)).Adj i j) :
    (i, j) ∈ pairs ∨ (j, i) ∈ pairs := by
  by_contra none
  have one : (if (i, j) ∈ pairs ∨ (j, i) ∈ pairs then (1 : ℚ) else infinite) = 1 := adj.2.2.2.1
  rw [if_neg none] at one
  exact absurd one (by decide)

def detour : Grid mJuncNum ℚ := ofRoads [(1, 2), (2, 0), (0, 3)]

theorem detour_adj {i j : ℕ} (h : i ≠ j ∧ i < mJuncNum ∧ j < mJuncNum ∧
    ((i, j) ∈ [(1, 2), (2, 0), (0, 3)] ∨ (j, i) ∈ [(1, 2), (2, 0), (0, 3)])) :
    (roads detour).Adj i j :=
  ⟨h.1, h.2.1, h.2.2.1, if_pos h.2.2.2, if_pos h.2.2.2.symm⟩

/-- Junction 0 may be the first hop itself: from 3 the way to 1 is 0, 2, 1. -/
theorem dijkstraAlgorithm2_firstHop_iff_detour : UnitGraph detour ∧ 3 < mJuncNum ∧ 1 < mJuncNum ∧
      ∃ r, dijkstraAlgorithm2 detour 3 1 = .ok r ∧ IsFirstHop (roads detour) 3 1 r := by
  have adj : (roads detour).Adj 3 0 := detour_adj (by decide)
  refine ⟨unitGraph_ofRoads _, by decide, by decide, ?_⟩
  refine (dijkstraAlgorithm2_firstHop_iff (unitGraph_ofRoads _) (by decide) (by decide)
    (by decide)).mpr ⟨⟨0, adj⟩, fun through => ?_⟩
  cases through with
  | @back _ p _ parent rest =>
    obtain rfl : p = 2 := by simpa using adj_ofRoads parent.1.1
    cases rest with
    | @back _ q _ parent' rest =>
      have next : q = 1 ∨ q = 0 := by simpa using adj_ofRoads parent'.1.1
      rcases next with rfl | rfl
      · -- 1 is not nearer than 2
        have nearer := parent.1.2
        have back := parent'.1.2
        omega
      · cases rest with
        | zero far => exact far adj
        | back far _ _ => exact far adj

/-- The only shortest path begins with junction 2, and the search returns 0. -/
theorem detour_zero :
    UnitGraph detour ∧ (roads detour).Reachable 1 3 ∧ dijkstraAlgorithm2 detour 1 3 = .ok 0 ∧
      ¬ IsFirstHop (roads detour) 1 3 0 := by
  have unit : UnitGraph detour := unitGraph_ofRoads _
  have near : (roads detour).Adj 1 2 := detour_adj (by decide)
  have last : (roads detour).Adj 0 3 := detour_adj (by decide)
  have reach : (roads detour).Reachable 1 3 := .trans near.reachable (.trans
    (detour_adj (by decide) : (roads detour).Adj 2 0).reachable last.reachable)
  have far : ∀ j, j ≠ 2 → ¬ (roads detour).Adj 1 j := by
    intro j hj adj
    exact hj (by simpa using adj_ofRoads adj)
  -- junction 0 is the only neighbour of 3
  have through : ThroughZero (roads detour) 1 3 := by
    obtain ⟨p, parent⟩ := exists_parent reach (by decide)
    have heq : p = 0 := by simpa using adj_ofRoads parent.1.1
    subst heq
    exact .back (far 3 (by decide)) parent (.zero (far 0 (by decide)))
  exact ⟨unit, reach, dijkstraAlgorithm2_through unit (by decide) (by decide) ⟨2, near⟩ through,
    not_isFirstHop_zero through⟩

end Egsr.Grp.FirstHop
