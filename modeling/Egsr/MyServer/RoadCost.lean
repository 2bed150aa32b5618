import Egsr.Lib.Outcome
import Egsr.Lib.Sweep
import Mathlib.Data.Finset.Card
import Mathlib.Data.List.MinMax
import Mathlib.Tactic.Linarith

/-! The junction a vehicle is sent to on its way to a road-side unit. The search over the cost of
the roads is meant to settle the junctions in the order of their distance, but it goes on to the
last junction whose distance it has lowered, and the way back along the parents stops in
junction 0. Costs are exact. -/

namespace Egsr.MyServer.RoadCost

open Lib.Outcome Lib.ShortestPath Lib.Sweep List

/-- An index outside the arrays, or a walk along the parents that does not end. -/
inductive Fault where
  | array
  | walk
  deriving DecidableEq

def jnum : ℕ := 9
def infinite : ℚ := 1000000

structure Search where
  visited : ℕ → Bool
  distance : ℕ → ℚ
  parent : ℕ → Option ℕ

def Search.start (srcjid : ℕ) : Search where
  visited _ := false
  distance j := if j = srcjid then 0 else infinite
  parent _ := none

def Search.visit (s : Search) (curr : ℕ) : Search :=
  { s with visited := Function.update s.visited curr true }

theorem Search.visited_visit (s : Search) (curr x : ℕ) :
    (s.visit curr).visited x = true ↔ x = curr ∨ s.visited x = true := by
  simp only [visit, Function.update_apply]
  by_cases heq : x = curr <;> simp [heq]

def Search.lower (s : Search) (n curr : ℕ) (d : ℚ) : Search :=
  { s with
    distance := Function.update s.distance n d
    parent := Function.update s.parent n (some curr) }

variable (cost : ℕ → ℕ → ℚ)

def relaxStep (curr : ℕ) (r : Search × Option ℕ) (n : ℕ) : Search × Option ℕ :=
  if r.1.visited n = false ∧ r.1.distance curr + cost curr n < r.1.distance n then
    (r.1.lower n curr (r.1.distance curr + cost curr n), some n)
  else r

@[irreducible] def relax (curr : ℕ) (s : Search) (next : Option ℕ) : Search × Option ℕ :=
  (range jnum).foldl (relaxStep cost curr) (s, next)

/-- The outer loop; `next` keeps its value between rounds, and a round that
leaves it at `-1` marks a junction outside the array. -/
def search (cost : ℕ → ℕ → ℚ) : ℕ → ℕ → Option ℕ → Search → Except Fault Search
  | 0, _, _, s => pure s
  | rounds + 1, curr, next, s =>
    let r := relax cost curr s next
    match r.2 with
    | none => throw .array
    | some n => search cost rounds n r.2 (r.1.visit n)

def cheapest (s : Search) (rsuSet : List ℕ) : Except Fault (ℚ × Option ℕ) :=
  rsuSet.foldlM (fun (best : ℚ × Option ℕ) rsu => do
    if jnum ≤ rsu then throw .array
    pure (if s.distance rsu < best.1 then (s.distance rsu, some rsu) else best)) (infinite, none)

/-- Follows the parents from `minid` until the junction before it is the source or
it is not positive any more. -/
def walkBack (parent : ℕ → Option ℕ) (srcjid : ℕ) : ℕ → ℕ → Except Fault ℤ
  | 0, _ => throw .walk
  | steps + 1, minid =>
    if minid = 0 then pure 0
    else
      match parent minid with
      | none => pure (-1)
      | some p => if p = srcjid then pure minid else walkBack parent srcjid steps p

def dijkstraAlgorithm (rsuSet : List ℕ) (srcjid : ℕ) : Except Fault ℤ := do
  if jnum ≤ srcjid then throw .array
  let s ← search cost jnum srcjid none ((Search.start srcjid).visit srcjid)
  let best ← cheapest s rsuSet
  match best.2 with
  | none => pure (-1)
  | some minid => walkBack s.parent srcjid (jnum + 1) minid

/-! ## Roads -/

/-- The costs are the same in both directions, and none is negative. -/
structure CostGraph : Prop where
  symmetric : ∀ i < jnum, ∀ j < jnum, cost i j = cost j i
  nonneg : ∀ i < jnum, ∀ j < jnum, 0 ≤ cost i j

def edge (i j : ℕ) : Option ℚ :=
  if i < jnum ∧ j < jnum ∧ cost i j ≠ infinite then some (cost i j) else none

section Sweep

variable {cost : ℕ → ℕ → ℚ} {src c m n x i j rounds : ℕ} {path : List ℕ} {s s' : Search}
    {next next' : Option ℕ} {w : ℚ}

theorem edge_eq_some : edge cost i j = some w ↔ i < jnum ∧ j < jnum ∧ cost i j ≠ infinite ∧
    w = cost i j := by
  rw [edge]
  by_cases h : i < jnum ∧ j < jnum ∧ cost i j ≠ infinite
  · simp [h, eq_comm]
  · rw [if_neg h]
    constructor
    · intro none
      cases none
    · rintro ⟨hi, hj, hne, -⟩
      exact absurd ⟨hi, hj, hne⟩ h

theorem CostGraph.edge_nonneg (graph : CostGraph cost) (i j : ℕ) (w : ℚ)
    (h : edge cost i j = some w) : 0 ≤ w := by
  obtain ⟨hi, hj, -, rfl⟩ := edge_eq_some.mp h
  exact graph.nonneg i hi j hj

theorem infinite_nonneg : (0 : ℚ) ≤ infinite := by norm_num [infinite]

/-- The labels of the search are the marks of the path before the current junction. -/
structure Swept (cost : ℕ → ℕ → ℚ) (src c : ℕ) (path : List ℕ) (s : Search) : Prop where
  inside : ∀ x ∈ c :: path, x < jnum
  visited : ∀ x, s.visited x = true ↔ x ∈ c :: path
  label : ∀ x, (s.distance x, s.parent x) = mark (edge cost) infinite src path x

structure Relaxed (cost : ℕ → ℕ → ℚ) (src c : ℕ) (path : List ℕ) (m : ℕ) (s s' : Search) :
    Prop where
  visited : s'.visited = s.visited
  relaxed : ∀ x < m, (s'.distance x, s'.parent x) = mark (edge cost) infinite src (c :: path) x
  kept : ∀ x, m ≤ x → (s'.distance x, s'.parent x) = mark (edge cost) infinite src path x

inductive Last (cost : ℕ → ℕ → ℚ) (src c : ℕ) (path : List ℕ) (m : ℕ) (next : Option ℕ) :
    Option ℕ → Prop
  | cheaper {n : ℕ}
  (last : IsGreatest {x | x < m ∧ Cheaper (edge cost) infinite src (c :: path) x} n) :
      Last cost src c path m next (some n)
  | none (dear : ∀ x < m, ¬ Cheaper (edge cost) infinite src (c :: path) x) :
    Last cost src c path m next next

theorem Relaxed.current (relaxed : Relaxed cost src c path m s s') :
    s'.distance c = toll (edge cost) infinite src path c := by
  have mem : c ∈ c :: path := mem_cons_self
  have label : (s'.distance c, s'.parent c) = mark (edge cost) infinite src path c := by
    by_cases lt : c < m
    · rw [relaxed.relaxed c lt, mark_eq_of_mem mem]
    · exact relaxed.kept c (not_lt.mp lt)
  exact congrArg Prod.fst label

theorem cheaper_iff (graph : CostGraph cost) (swept : Swept cost src c path s)
    (relaxed : Relaxed cost src c path m s s') (hm : m < jnum) :
    s'.visited m = false ∧ s'.distance c + cost c m < s'.distance m ↔
      Cheaper (edge cost) infinite src (c :: path) m := by
  have hc : c < jnum := swept.inside c mem_cons_self
  have fresh : s'.visited m = false ↔ m ∉ c :: path := by
    rw [relaxed.visited, ← swept.visited m, Bool.not_eq_true]
  have distance : s'.distance m = toll (edge cost) infinite src path m :=
    congrArg Prod.fst (relaxed.kept m le_rfl)
  rw [fresh, relaxed.current, distance, Cheaper]
  refine and_congr_right fun _ => ⟨fun below => ?_, ?_⟩
  · refine ⟨cost c m, edge_eq_some.mpr ⟨hc, hm, fun none => ?_, rfl⟩, below⟩
    have pos : 0 ≤ toll (edge cost) infinite src path c :=
      toll_nonneg graph.edge_nonneg infinite_nonneg path c
    have bounded : toll (edge cost) infinite src path m ≤ infinite :=
      toll_le_inf infinite_nonneg path m
    rw [none] at below
    linarith
  · rintro ⟨w, hw, below⟩
    obtain ⟨-, -, -, rfl⟩ := edge_eq_some.mp hw
    exact below

theorem relaxStep_spec (graph : CostGraph cost) (swept : Swept cost src c path s) (hm : m < jnum)
    {r : Search × Option ℕ} (relaxed : Relaxed cost src c path m s r.1)
    (last : Last cost src c path m next r.2) :
    Relaxed cost src c path (m + 1) s (relaxStep cost c r m).1 ∧
      Last cost src c path (m + 1) next (relaxStep cost c r m).2 := by
  have test := cheaper_iff graph swept relaxed hm
  have split : ∀ x, x < m + 1 → x < m ∨ x = m := fun x hx => Nat.lt_succ_iff_lt_or_eq.mp hx
  obtain ⟨s', next'⟩ := r
  dsimp only at relaxed last test
  by_cases cheaper : Cheaper (edge cost) infinite src (c :: path) m
  · simp only [relaxStep, if_pos (test.mpr cheaper)]
    obtain ⟨w, hw, -, hmark⟩ := cheaper.mark_eq
    obtain ⟨-, -, -, rfl⟩ := edge_eq_some.mp hw
    refine ⟨⟨relaxed.visited, fun x hx => ?_, fun x hx => ?_⟩,
      .cheaper ⟨⟨Nat.lt_succ_self m, cheaper⟩, ?_⟩⟩
    · rcases split x hx with lt | rfl
      · simp only [Search.lower, Function.update_of_ne lt.ne]
        exact relaxed.relaxed x lt
      · simp only [Search.lower, Function.update_self]
        rw [hmark, relaxed.current]
    · have ne : x ≠ m := by omega
      simp only [Search.lower, Function.update_of_ne ne]
      exact relaxed.kept x (by omega)
    · rintro x ⟨hx, -⟩
      exact Nat.lt_succ_iff.mp hx
  · simp only [relaxStep, if_neg (test.not.mpr cheaper)]
    refine ⟨⟨relaxed.visited, fun x hx => ?_, fun x hx => relaxed.kept x (by omega)⟩, ?_⟩
    · rcases split x hx with lt | rfl
      · exact relaxed.relaxed x lt
      · rw [mark_eq_of_not_cheaper cheaper]
        exact relaxed.kept x le_rfl
    · cases last with
      | @cheaper n last =>
        refine .cheaper ⟨⟨Nat.lt_succ_of_lt last.1.1, last.1.2⟩, ?_⟩
        rintro x ⟨hx, hcheaper⟩
        rcases split x hx with lt | rfl
        · exact last.2 ⟨lt, hcheaper⟩
        · exact absurd hcheaper cheaper
      | none dear =>
        refine .none fun x hx => ?_
        rcases split x hx with lt | rfl
        · exact dear x lt
        · exact cheaper

theorem relax_spec (graph : CostGraph cost) (swept : Swept cost src c path s) (next : Option ℕ) :
    Relaxed cost src c path jnum s (relax cost c s next).1 ∧
      Last cost src c path jnum next (relax cost c s next).2 := by
  have loop : ∀ m ≤ jnum,
      Relaxed cost src c path m s ((range m).foldl (relaxStep cost c) (s, next)).1 ∧
        Last cost src c path m next ((range m).foldl (relaxStep cost c) (s, next)).2 := by
    intro m
    induction m with
    | zero =>
      intro _
      exact ⟨⟨rfl, fun x hx => absurd hx (Nat.not_lt_zero x), fun x _ => swept.label x⟩,
        .none fun x hx => absurd hx (Nat.not_lt_zero x)⟩
    | succ m ih =>
      intro hm
      obtain ⟨relaxed, last⟩ := ih (Nat.le_of_succ_le hm)
      rw [range_succ, foldl_append]
      exact relaxStep_spec graph swept hm relaxed last
  unfold relax
  exact loop jnum le_rfl

theorem cheaper_lt (cheaper : Cheaper (edge cost) infinite src (c :: path) x) : x < jnum := by
  obtain ⟨-, w, hw, -⟩ := cheaper
  exact (edge_eq_some.mp hw).2.1

theorem Swept.round (graph : CostGraph cost) (swept : Swept cost src c path s) (next : Option ℕ) :
    (∃ n, (relax cost c s next).2 = some n ∧
      IsGreatest {x | Cheaper (edge cost) infinite src (c :: path) x} n ∧
      Swept cost src n (c :: path) ((relax cost c s next).1.visit n)) ∨
    (relax cost c s next).2 = next ∧ (∀ x, ¬ Cheaper (edge cost) infinite src (c :: path) x) ∧
      Swept cost src c path ((relax cost c s next).1.visit c) := by
  obtain ⟨relaxed, last⟩ := relax_spec graph swept next
  generalize relax cost c s next = r at relaxed last
  obtain ⟨s', next'⟩ := r
  dsimp only at relaxed last ⊢
  have label : ∀ x, (s'.distance x, s'.parent x) = mark (edge cost) infinite src (c :: path) x := by
    intro x
    by_cases hx : x < jnum
    · exact relaxed.relaxed x hx
    · rw [relaxed.kept x (not_lt.mp hx), mark_eq_of_not_cheaper fun cheaper =>
        hx (cheaper_lt cheaper)]
  cases last with
  | @cheaper n last =>
    refine .inl ⟨n, rfl, ⟨last.1.2, fun x hx => last.2 ⟨cheaper_lt hx, hx⟩⟩, ?_, fun x => ?_, label⟩
    · exact forall_mem_cons.mpr ⟨last.1.1, swept.inside⟩
    · rw [Search.visited_visit, relaxed.visited, mem_cons, ← swept.visited x]
  | none dear =>
    have none : ∀ x, ¬ Cheaper (edge cost) infinite src (c :: path) x := fun x cheaper =>
      dear x (cheaper_lt cheaper) cheaper
    refine .inr ⟨rfl, none, swept.inside, fun x => ?_, fun x => ?_⟩
    · rw [Search.visited_visit, relaxed.visited, swept.visited x]
      exact or_iff_right_of_imp fun heq => heq ▸ mem_cons_self
    · rw [← mark_eq_of_not_cheaper (none x)]
      exact label x

theorem Swept.stay (graph : CostGraph cost) (swept : Swept cost src c path s)
    (none : ∀ x, ¬ Cheaper (edge cost) infinite src (c :: path) x) (rounds : ℕ) :
    ∃ s', search cost rounds c (some c) s = .ok s' ∧ Swept cost src c path s' := by
  induction rounds generalizing s with
  | zero => exact ⟨s, rfl, swept⟩
  | succ rounds ih =>
    rw [search]
    rcases swept.round graph (some c) with ⟨n, -, greatest, -⟩ | ⟨hnext, -, swept'⟩
    · exact absurd greatest.1 (none n)
    · simp only [hnext]
      exact ih swept'

def Marks (cost : ℕ → ℕ → ℚ) (src : ℕ) (path : List ℕ) (s : Search) : Prop :=
  s.distance = toll (edge cost) infinite src path ∧ s.parent = via (edge cost) infinite src path

theorem Swept.marks (swept : Swept cost src c path s)
    (none : ∀ x, ¬ Cheaper (edge cost) infinite src (c :: path) x) :
      Marks cost src (c :: path) s := by
  have label : ∀ x, (s.distance x, s.parent x) = mark (edge cost) infinite src (c :: path) x :=
    fun x =>
    (swept.label x).trans (mark_eq_of_not_cheaper (none x)).symm
  constructor
  · funext x
    exact congrArg Prod.fst (label x)
  · funext x
    exact congrArg Prod.snd (label x)

theorem search_sweeps (graph : CostGraph cost) (swept : Swept cost src c path s) {T : Finset ℕ}
    (enough : T.card ≤ rounds) (mem : ∀ x < jnum, x ∉ c :: path → x ∈ T) :
    ∃ s' last, search cost rounds c (some c) s = .ok s' ∧
      Sweeps (edge cost) infinite src (c :: path) last ∧ Marks cost src last s' := by
  induction rounds generalizing c path s T with
  | zero =>
    have empty : T = ∅ := Finset.card_eq_zero.mp (Nat.le_zero.mp enough)
    have none : ∀ x, ¬ Cheaper (edge cost) infinite src (c :: path) x := by
      intro x cheaper
      have left := mem x (cheaper_lt cheaper) cheaper.1
      rw [empty] at left
      exact absurd left (Finset.notMem_empty x)
    exact ⟨s, c :: path, rfl, .stop none, swept.marks none⟩
  | succ rounds ih =>
    rw [search]
    rcases swept.round graph (some c) with ⟨n, hnext, greatest, swept'⟩ | ⟨hnext, none, swept'⟩
    · simp only [hnext]
      have hn : n ∈ T := mem n (cheaper_lt greatest.1) greatest.1.1
      obtain ⟨s', last, run, sweeps, marks⟩ := ih (T := T.erase n) swept'
        (by rw [Finset.card_erase_of_mem hn]; omega) fun x hx out =>
          Finset.mem_erase.mpr ⟨fun heq => out (heq ▸ mem_cons_self), mem x hx fun on =>
            out (mem_cons_of_mem n on)⟩
      exact ⟨s', last, run, .step greatest sweeps, marks⟩
    · simp only [hnext]
      obtain ⟨s', run, swept''⟩ := swept'.stay graph none rounds
      exact ⟨s', c :: path, run, .stop none, swept''.marks none⟩

def Road (cost : ℕ → ℕ → ℚ) (src : ℕ) : Prop :=
  ∃ n w, n ≠ src ∧ edge cost src n = some w ∧ w < infinite

theorem cheaper_source_iff : Cheaper (edge cost) infinite src [src] x ↔
    x ≠ src ∧ ∃ w, edge cost src x = some w ∧ w < infinite := by
  have start : toll (edge cost) infinite src [] src = 0 := if_pos rfl
  rw [Cheaper, mem_singleton, start]
  refine and_congr_right fun hne => ?_
  have far : toll (edge cost) infinite src [] x = infinite := if_neg hne
  simp only [far, zero_add]

theorem search_start (graph : CostGraph cost) (hsrc : src < jnum) :
    Road cost src ∧ (∃ s last, search cost jnum src none ((Search.start src).visit src) = .ok s ∧
      Sweeps (edge cost) infinite src [src] last ∧ Marks cost src last s) ∨
    ¬ Road cost src ∧ search cost jnum src none ((Search.start src).visit src) = .error .array := by
  have swept : Swept cost src src [] ((Search.start src).visit src) := by
    refine ⟨by simpa using hsrc, fun x => ?_, fun x => rfl⟩
    rw [Search.visited_visit, mem_singleton]
    exact or_iff_left Bool.false_ne_true
  have card : ((Finset.range jnum).erase src).card = 8 := by
    rw [Finset.card_erase_of_mem (Finset.mem_range.mpr hsrc), Finset.card_range]
    rfl
  rw [show jnum = 8 + 1 from rfl, search]
  rcases swept.round graph none with ⟨n, hnext, greatest, swept'⟩ | ⟨hnext, none, -⟩
  · left
    simp only [hnext]
    obtain ⟨hne, w, hw, below⟩ := cheaper_source_iff.mp greatest.1
    refine ⟨⟨n, w, hne, hw, below⟩, ?_⟩
    obtain ⟨s, last, run, sweeps, marks⟩ := search_sweeps graph swept' card.le fun x hx out =>
      Finset.mem_erase.mpr ⟨fun heq => out (by simp [heq]), Finset.mem_range.mpr hx⟩
    exact ⟨s, last, run, .step greatest sweeps, marks⟩
  · right
    simp only [hnext]
    refine ⟨?_, rfl⟩
    rintro ⟨n, w, hne, hw, below⟩
    exact none n (cheaper_source_iff.mpr ⟨hne, w, hw, below⟩)

end Sweep

end Egsr.MyServer.RoadCost
