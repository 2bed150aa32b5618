import Mathlib.Combinatorics.SimpleGraph.Metric
import Mathlib.Data.Prod.Lex

/-! The vertices of a graph in the order of their distance from a source, those at one distance in
their own order. A vertex hangs below its parent, the first of its neighbours that are one hop
nearer, and no other neighbour comes before the parent. -/

namespace Egsr.Lib.NearestFirst

variable {V : Type*} {G : SimpleGraph V} {src u v p j : V}

def nearer (G : SimpleGraph V) (src v : V) : Set V :=
  {u | G.Adj u v ∧ G.dist src u + 1 = G.dist src v}

/-- The vertex comes after the source on a shortest path to the target. -/
def Starts (G : SimpleGraph V) (src dst j : V) : Prop :=
  ∃ road : G.Adj src j, ∃ rest : G.Walk j dst, (SimpleGraph.Walk.cons road rest).length =
    G.dist src dst

theorem reachable_of_nearer (mem : u ∈ nearer G src v) : G.Reachable src v := by
  apply SimpleGraph.Reachable.of_dist_ne_zero
  rw [← mem.2]
  exact Nat.succ_ne_zero _

theorem nearer_reachable (mem : u ∈ nearer G src v) : G.Reachable src u :=
  (reachable_of_nearer mem).trans mem.1.symm.reachable

theorem nearer_nonempty (reach : G.Reachable src v) (ne : v ≠ src) : (nearer G src v).Nonempty := by
  obtain ⟨walk, short⟩ := reach.exists_walk_length_eq_dist
  have some : ¬ walk.Nil := fun none => ne none.eq.symm
  have adj := walk.adj_penultimate some
  have before : G.dist src walk.penultimate + 1 ≤ G.dist src v := by
    rw [← short, ← SimpleGraph.Walk.length_dropLast_add_one some]
    exact Nat.succ_le_succ (SimpleGraph.dist_le walk.dropLast)
  refine ⟨walk.penultimate, adj, ?_⟩
  rcases adj.diff_dist_adj (u := src) with h | h | h <;> omega

theorem starts_neighbour (adj : G.Adj src v) : Starts G src v v :=
  ⟨adj, .nil, (SimpleGraph.dist_eq_one_iff_adj.mpr adj).symm⟩

theorem Starts.step (starts : Starts G src u j) (mem : u ∈ nearer G src v) : Starts G src v j := by
  obtain ⟨road, rest, short⟩ := starts
  refine ⟨road, rest.concat mem.1, ?_⟩
  rw [SimpleGraph.Walk.length_cons, SimpleGraph.Walk.length_concat, ← mem.2, ← short,
    SimpleGraph.Walk.length_cons]

variable [LinearOrder V]

/-- The place of a vertex in the order. -/
noncomputable def key (G : SimpleGraph V) (src v : V) : ℕ ×ₗ V := toLex (G.dist src v, v)

omit [LinearOrder V] in
theorem key_injective : Function.Injective (key G src) :=
  fun _ _ heq => congrArg (fun k => (ofLex k).2) heq

theorem key_le_iff :
    key G src u ≤ key G src v ↔ G.dist src u < G.dist src v ∨ G.dist src u = G.dist src v ∧ u ≤ v :=
  Prod.Lex.toLex_le_toLex

def Parent (G : SimpleGraph V) (src v p : V) : Prop := IsLeast (nearer G src v) p

theorem exists_parent [WellFoundedLT V] (reach : G.Reachable src v) (ne : v ≠ src) : ∃ p,
    Parent G src v p := by
  have nonempty := nearer_nonempty reach ne
  refine ⟨WellFounded.min wellFounded_lt _ nonempty, WellFounded.min_mem _ _ nonempty, ?_⟩
  intro u hu
  exact not_lt.mp (WellFounded.not_lt_min _ _ hu)

theorem Parent.key_lt (parent : Parent G src v p) : key G src p < key G src v := by
  apply Prod.Lex.toLex_lt_toLex.mpr
  left
  rw [← parent.1.2]
  exact Nat.lt_succ_self _

theorem Parent.key_le (parent : Parent G src v p) (adj : G.Adj u v) : key G src p ≤
    key G src u := by
  have dist := parent.1.2
  rw [key_le_iff]
  by_cases near : G.dist src u + 1 = G.dist src v
  · exact .inr ⟨by omega, parent.2 ⟨adj, near⟩⟩
  · left
    rcases adj.diff_dist_adj (u := src) with h | h | h <;> omega

theorem Parent.unique (parent : Parent G src v p) (other : Parent G src v u) : p = u :=
  IsLeast.unique parent other

theorem Parent.eq_source_iff (parent : Parent G src v p) : p = src ↔ G.Adj src v := by
  constructor
  · rintro rfl
    exact parent.1.1
  · intro adj
    have one := SimpleGraph.dist_eq_one_iff_adj.mpr adj
    have zero : G.dist src p = 0 := by
      have dist := parent.1.2
      omega
    exact ((nearer_reachable parent.1).dist_eq_zero_iff.mp zero).symm

theorem exists_frontier [WellFoundedLT V] {bound : ℕ ×ₗ V} (source : key G src src ≤ bound)
    (reach : G.Reachable src v) (beyond : bound < key G src v) :
    ∃ u p, Parent G src u p ∧ key G src p ≤ bound ∧ bound < key G src u ∧
      key G src u ≤ key G src v := by
  induction hd : G.dist src v using Nat.strong_induction_on generalizing v with
  | _ d ih =>
    have ne : v ≠ src := fun heq => absurd (heq ▸ beyond) (not_lt.mpr source)
    obtain ⟨p, parent⟩ := exists_parent reach ne
    by_cases inside : key G src p ≤ bound
    · exact ⟨v, p, parent, inside, beyond, le_rfl⟩
    · have shorter : G.dist src p < d := by
        have dist := parent.1.2
        omega
      obtain ⟨u, q, hu, hq, below, before⟩ :=
        ih (G.dist src p) shorter (nearer_reachable parent.1) (not_le.mp inside) rfl
      exact ⟨u, q, hu, hq, below, before.trans parent.key_lt.le⟩

end Egsr.Lib.NearestFirst
