import Egsr.Lib.ShortestPath
import Mathlib.Order.Bounds.Basic

/-! A walk through a weighted graph that goes on, each time, to the greatest vertex that the last
one has made cheaper to reach, and that ends where the last one has made none cheaper. Paths are
kept with the last vertex first. A vertex is marked with the cost at which the vertices of the path
make it reached, one after the other, and with the vertex before it. -/

namespace Egsr.Lib.Sweep

open Lib.ShortestPath List

variable {V W : Type*} [LinearOrder V] [AddCommMonoid W] [LinearOrder W]

section Marks

variable (edge : V → V → Option W) (inf : W) (src : V)

def mark : List V → V → W × Option V
  | [], x => (if x = src then 0 else inf, none)
  | c :: path, x =>
    match edge c x with
    | none => mark path x
    | some w =>
      if x ∉ c :: path ∧ (mark path c).1 + w < (mark path x).1 then ((mark path c).1 + w, some c)
        else mark path x

def toll (path : List V) (x : V) : W := (mark edge inf src path x).1

def via (path : List V) (x : V) : Option V := (mark edge inf src path x).2

/-- The last vertex of the path makes the vertex cheaper to reach than those before it. -/
def Cheaper : List V → V → Prop
  | [], _ => False
  | c :: path, x =>
    x ∉ c :: path ∧ ∃ w, edge c x = some w ∧ toll edge inf src path c + w < toll edge inf src path x

/-- The walk that has come along the first path ends with the second one. -/
inductive Sweeps : List V → List V → Prop
  | stop {path : List V} (none : ∀ x, ¬ Cheaper edge inf src path x) : Sweeps path path
  | step {path last : List V} {n : V} (next : IsGreatest {x | Cheaper edge inf src path x} n)
      (rest : Sweeps (n :: path) last) : Sweeps path last

end Marks

variable {edge : V → V → Option W} {inf : W} {src c n u x : V} {path last last' : List V} {w : W}

theorem Cheaper.mark_eq (cheaper : Cheaper edge inf src (c :: path) x) :
    ∃ w, edge c x = some w ∧ toll edge inf src path c + w < toll edge inf src path x ∧
      mark edge inf src (c :: path) x = (toll edge inf src path c + w, some c) := by
  obtain ⟨fresh, w, hw, below⟩ := cheaper
  refine ⟨w, hw, below, ?_⟩
  simp only [mark, hw]
  exact if_pos ⟨fresh, below⟩

theorem mark_eq_of_not_cheaper (dear : ¬ Cheaper edge inf src (c :: path) x) :
    mark edge inf src (c :: path) x = mark edge inf src path x := by
  rw [mark]
  cases hw : edge c x with
  | none => rfl
  | some w => exact if_neg fun ⟨fresh, below⟩ => dear ⟨fresh, w, hw, below⟩

theorem mark_eq_of_mem (mem : x ∈ c :: path) : mark edge inf src (c :: path) x =
    mark edge inf src path x :=
  mark_eq_of_not_cheaper fun cheaper => cheaper.1 mem

theorem toll_le_inf (hinf : 0 ≤ inf) (path : List V) (x : V) : toll edge inf src path x ≤ inf := by
  induction path generalizing x with
  | nil =>
    by_cases heq : x = src
    · exact (if_pos heq : toll edge inf src [] x = 0).trans_le hinf
    · exact (if_neg heq : toll edge inf src [] x = inf).le
  | cons c path ih =>
    by_cases cheaper : Cheaper edge inf src (c :: path) x
    · obtain ⟨w, -, below, hmark⟩ := cheaper.mark_eq
      rw [toll, hmark]
      exact below.le.trans (ih x)
    · rw [toll, mark_eq_of_not_cheaper cheaper]
      exact ih x

theorem toll_lt_of_via (hinf : 0 ≤ inf) (hvia : via edge inf src path x = some c) :
    toll edge inf src path x < inf := by
  induction path with
  | nil => cases hvia
  | cons n path ih =>
    by_cases cheaper : Cheaper edge inf src (n :: path) x
    · obtain ⟨w, -, below, hmark⟩ := cheaper.mark_eq
      rw [toll, hmark]
      exact below.trans_le (toll_le_inf hinf path x)
    · rw [via, mark_eq_of_not_cheaper cheaper] at hvia
      rw [toll, mark_eq_of_not_cheaper cheaper]
      exact ih hvia

theorem Sweeps.unique (sweeps : Sweeps edge inf src path last)
    (other : Sweeps edge inf src path last') : last = last' := by
  induction sweeps with
  | stop none =>
    cases other with
    | stop => rfl
    | step next => exact absurd next.1 (none _)
  | step next rest ih =>
    cases other with
    | stop none => exact absurd next.1 (none _)
    | step next' rest' => exact ih (next'.unique next ▸ rest')

/-! ## What the marks mean -/

/-- The marks stand for walks back over the path; that of a vertex next to the source stands for the
edge from the source unless there is a cheaper one. -/
structure Marked (edge : V → V → Option W) (inf : W) (src : V) (path : List V) : Prop where
  source : src ∈ path
  reached : ∀ x, toll edge inf src path x < inf → ∃ p,
    Back {y | y ∈ path} (via edge inf src path) src x p ∧
      Walk edge src p x (toll edge inf src path x)
  direct : ∀ x w, x ≠ src → edge src x = some w → w < inf →
    toll edge inf src path x ≤ w ∧
      (via edge inf src path x = some src ∨ toll edge inf src path x < w)

theorem marked_source : Marked edge inf src [src] := by
  have start : toll edge inf src [] src = 0 := if_pos rfl
  have far : ∀ x, x ≠ src → toll edge inf src [] x = inf := fun x hne => if_neg hne
  have cases : ∀ x, (x ≠ src ∧ via edge inf src [src] x = some src ∧
      ∃ w, edge src x = some w ∧ w < inf ∧ toll edge inf src [src] x = 0 + w) ∨
      (toll edge inf src [src] x = toll edge inf src [] x ∧ ¬ Cheaper edge inf src [src] x) := by
    intro x
    by_cases cheaper : Cheaper edge inf src [src] x
    · obtain ⟨w, hw, below, hmark⟩ := cheaper.mark_eq
      have hne : x ≠ src := fun heq => cheaper.1 (mem_singleton.mpr heq)
      rw [start, far x hne, zero_add] at below
      rw [start] at hmark
      exact .inl ⟨hne, congrArg Prod.snd hmark, w, hw, below, congrArg Prod.fst hmark⟩
    · exact .inr ⟨congrArg Prod.fst (mark_eq_of_not_cheaper cheaper), cheaper⟩
  refine ⟨mem_singleton.mpr rfl, fun x hx => ?_, fun x w hne hw below => ?_⟩
  · rcases cases x with ⟨hne, hvia, w, hw, -, sum⟩ | ⟨same, -⟩
    · exact ⟨[] ++ [x], .step hne hvia (mem_singleton.mpr rfl) .source,
        sum ▸ (Walk.nil src).snoc hw⟩
    · rw [same] at hx ⊢
      by_cases heq : x = src
      · rw [heq, start]
        exact ⟨[], .source, .nil src⟩
      · rw [far x heq] at hx
        exact absurd hx (lt_irrefl inf)
  · rcases cases x with ⟨-, hvia, w', hw', -, sum⟩ | ⟨-, dear⟩
    · rw [hw, Option.some_inj] at hw'
      subst hw'
      rw [sum, zero_add]
      exact ⟨le_rfl, .inl hvia⟩
    · refine absurd ⟨fun mem => hne (mem_singleton.mp mem), w, hw, ?_⟩ dear
      rwa [start, zero_add, far x hne]

variable [IsOrderedAddMonoid W]

theorem toll_nonneg (nonneg : ∀ u v w, edge u v = some w → 0 ≤ w) (hinf : 0 ≤ inf) (path : List V)
    (x : V) : 0 ≤ toll edge inf src path x := by
  induction path generalizing x with
  | nil =>
    by_cases heq : x = src
    · exact (if_pos heq : toll edge inf src [] x = 0).ge
    · exact hinf.trans_eq (if_neg heq : toll edge inf src [] x = inf).symm
  | cons c path ih =>
    by_cases cheaper : Cheaper edge inf src (c :: path) x
    · obtain ⟨w, hw, -, hmark⟩ := cheaper.mark_eq
      rw [toll, hmark]
      exact add_nonneg (ih c) (nonneg c x w hw)
    · rw [toll, mark_eq_of_not_cheaper cheaper]
      exact ih x

theorem Marked.cons (nonneg : ∀ u v w, edge u v = some w → 0 ≤ w)
    (marked : Marked edge inf src path) (n : V) : Marked edge inf src (n :: path) := by
  have kept : ∀ y ∈ n :: path, via edge inf src (n :: path) y = via edge inf src path y :=
    fun y hy =>
    congrArg Prod.snd (mark_eq_of_mem hy)
  have sub : {y | y ∈ path} ⊆ {y | y ∈ n :: path} := fun y hy => mem_cons_of_mem n hy
  have back : ∀ x p, via edge inf src (n :: path) x = via edge inf src path x →
      Back {y | y ∈ path} (via edge inf src path) src x p →
      Back {y | y ∈ n :: path} (via edge inf src (n :: path)) src x p := fun x p same h =>
    h.mono sub (fun y hy => kept y (mem_cons_of_mem n hy)) same
  have cases : ∀ x, (toll edge inf src (n :: path) x = toll edge inf src path x ∧
      via edge inf src (n :: path) x = via edge inf src path x) ∨
      (x ≠ src ∧ via edge inf src (n :: path) x = some n ∧
        toll edge inf src (n :: path) x < toll edge inf src path x ∧
        ∃ w, edge n x = some w ∧
          toll edge inf src (n :: path) x = toll edge inf src path n + w) := by
    intro x
    by_cases cheaper : Cheaper edge inf src (n :: path) x
    · obtain ⟨w, hw, below, hmark⟩ := cheaper.mark_eq
      have htoll : toll edge inf src (n :: path) x = toll edge inf src path n + w :=
        congrArg Prod.fst hmark
      refine .inr ⟨?_, congrArg Prod.snd hmark, htoll ▸ below, w, hw, htoll⟩
      rintro rfl
      exact cheaper.1 (mem_cons_of_mem n marked.source)
    · have hmark := mark_eq_of_not_cheaper cheaper
      exact .inl ⟨congrArg Prod.fst hmark, congrArg Prod.snd hmark⟩
  refine ⟨mem_cons_of_mem n marked.source, fun x hx => ?_, fun x w hne hw hinf => ?_⟩
  · rcases cases x with ⟨same, hvia⟩ | ⟨hne, hvia, below, w, hw, sum⟩
    · rw [same] at hx ⊢
      obtain ⟨p, hback, walk⟩ := marked.reached x hx
      exact ⟨p, back x p hvia hback, walk⟩
    · have near : toll edge inf src path n < inf :=
        (le_add_of_nonneg_right (nonneg n x w hw)).trans_lt (sum ▸ hx)
      obtain ⟨p, hback, walk⟩ := marked.reached n near
      refine ⟨p ++ [x], .step hne hvia mem_cons_self (back n p (kept n mem_cons_self) hback), ?_⟩
      exact sum ▸ walk.snoc hw
  · obtain ⟨le, either⟩ := marked.direct x w hne hw hinf
    rcases cases x with ⟨same, hvia⟩ | ⟨-, -, below, -⟩
    · rw [same, hvia]
      exact ⟨le, either⟩
    · exact ⟨below.le.trans le, .inr (below.trans_le le)⟩

theorem Sweeps.marked (nonneg : ∀ u v w, edge u v = some w → 0 ≤ w)
    (sweeps : Sweeps edge inf src path last)
    (marked : Marked edge inf src path) : Marked edge inf src last := by
  induction sweeps with
  | stop => exact marked
  | step _ _ ih => exact ih (marked.cons nonneg _)

/-! ## A walk that comes to the vertices in the order of their distance -/

/-- The cost of a cheapest walk from the source, or the bound where none costs less. -/
structure Distances (edge : V → V → Option W) (inf : W) (src : V) (dist : V → W) : Prop where
  le_inf : ∀ x, dist x ≤ inf
  le : ∀ p x c, Walk edge src p x c → dist x ≤ c
  attained : ∀ x, dist x < inf → ∃ p, Walk edge src p x (dist x)

omit [LinearOrder V] in
theorem le_of_walk {dist : V → W} (relaxed : ∀ u v w, edge u v = some w → dist v ≤ dist u + w)
    {p : List V} {u x : V} {c : W} (walk : Walk edge u p x c) : dist x ≤ dist u + c := by
  induction walk with
  | nil => exact (add_zero _).ge
  | cons hw _ ih =>
    rw [← add_assoc]
    exact ih.trans (add_le_add_left (relaxed _ _ _ hw) _)

/-- Over the last vertex the other one is reached at less cost than over those before it. -/
def Gains (edge : V → V → Option W) (inf : W) (dist : V → W) (path : List V) (c x : V) : Prop :=
  x ∉ c :: path ∧ ∃ w, edge c x = some w ∧ dist c + w < inf ∧
    ∀ y ∈ path, ∀ w', edge y x = some w' → dist c + w < dist y + w'

/-- Each vertex is the greatest that the one before it gains, and over that one no vertex that is
left is nearer. -/
inductive InOrder (edge : V → V → Option W) (inf : W) (src : V) (dist : V → W) : List V → Prop
  | source : InOrder edge inf src dist [src]
  | step {path : List V} {c n : V} {w : W} (before : InOrder edge inf src dist (c :: path))
      (next : IsGreatest {x | Gains edge inf dist path c x} n) (hw : edge c n = some w)
      (nearest : ∀ x, x ∉ c :: path → dist c + w ≤ dist x) : InOrder edge inf src dist
      (n :: c :: path)

/-- The first vertex of the path over which the other one is reached at its distance. -/
def FirstOver (edge : V → V → Option W) (dist : V → W) (path : List V) (u v : V) : Prop :=
  ∃ later earlier, path = later ++ u :: earlier ∧ (∃ w, edge u v = some w ∧ dist u + w = dist v) ∧
    ∀ y ∈ earlier, ∀ w, edge y v = some w → dist y + w ≠ dist v

/-- The marks are exact when the last vertex is reached, and it is a nearest one. -/
structure Exact (edge : V → V → Option W) (inf : W) (src : V) (dist : V → W) (path : List V)
    (c : V) : Prop where
  labelled : Labelled edge inf src {y | y ∈ path} (toll edge inf src path) (via edge inf src path)
  source : src ∈ c :: path
  fresh : c ∉ path
  exact_toll : ∀ y ∈ c :: path, toll edge inf src path y = dist y
  nearest : ∀ x, x ∉ path → dist c ≤ dist x

section Exact

variable {dist : V → W} (nonneg : ∀ u v w, edge u v = some w → 0 ≤ w)

omit [IsOrderedAddMonoid W] in
theorem exists_via (near : toll edge inf src path x < inf) (ne : x ≠ src) :
    ∃ y ∈ path, ∃ w, edge y x = some w ∧ via edge inf src path x = some y ∧
      toll edge inf src path x = toll edge inf src path y + w := by
  induction path with
  | nil => exact absurd near (if_neg ne : toll edge inf src [] x = inf).not_lt
  | cons c path ih =>
    by_cases cheaper : Cheaper edge inf src (c :: path) x
    · obtain ⟨w, hw, -, hmark⟩ := cheaper.mark_eq
      refine ⟨c, mem_cons_self, w, hw, congrArg Prod.snd hmark, ?_⟩
      rw [show toll edge inf src (c :: path) c = toll edge inf src path c from
        congrArg Prod.fst (mark_eq_of_mem mem_cons_self)]
      exact congrArg Prod.fst hmark
    · have same := mark_eq_of_not_cheaper cheaper
      rw [toll, same] at near
      obtain ⟨y, hy, w, hw, hvia, sum⟩ := ih near
      refine ⟨y, mem_cons_of_mem c hy, w, hw, (congrArg Prod.snd same).trans hvia, ?_⟩
      rw [show toll edge inf src (c :: path) y = toll edge inf src path y from
        congrArg Prod.fst (mark_eq_of_mem (mem_cons_of_mem c hy))]
      exact (congrArg Prod.fst same).trans sum

omit [IsOrderedAddMonoid W] in
theorem Distances.le_toll (distances : Distances edge inf src dist)
    (labelled : Labelled edge inf src {y | y ∈ path} (toll edge inf src path)
      (via edge inf src path)) (x : V) :
    dist x ≤ toll edge inf src path x := by
  by_cases near : toll edge inf src path x < inf
  · obtain ⟨p, -, walk⟩ := labelled.reached x near
    exact distances.le p x _ walk
  · exact (distances.le_inf x).trans (not_lt.mp near)

include nonneg

theorem Exact.settled (distances : Distances edge inf src dist)
    (exact : Exact edge inf src dist path c) :
    Labelled edge inf src {y | y ∈ c :: path} (toll edge inf src (c :: path))
    (via edge inf src (c :: path)) := by
  have hset : {y | y ∈ c :: path} = insert c {y | y ∈ path} := by
    ext y
    simp
  have hc := exact.exact_toll c mem_cons_self
  have ordered := exact.labelled.ordered
  rw [hset]
  refine exact.labelled.settle exact.fresh (fun v hv => ?_) (nonneg c) (fun v => ?_)
    fun v w hw => ?_
  · rw [hc]
    exact (exact.nearest v hv).trans (distances.le_toll exact.labelled v)
  · by_cases cheaper : Cheaper edge inf src (c :: path) v
    · obtain ⟨w, hw, below, hmark⟩ := cheaper.mark_eq
      have htoll : toll edge inf src (c :: path) v = toll edge inf src path c + w :=
        congrArg Prod.fst hmark
      have away := exact.labelled.unsettled_of_lt exact.fresh (nonneg c v w hw) below
      exact .inr ⟨⟨w, hw, htoll⟩, htoll ▸ below.le, congrArg Prod.snd hmark, away.1, away.2⟩
    · have same := mark_eq_of_not_cheaper cheaper
      exact .inl ⟨congrArg Prod.fst same, congrArg Prod.snd same⟩
  · by_cases cheaper : Cheaper edge inf src (c :: path) v
    · obtain ⟨w', hw', -, hmark⟩ := cheaper.mark_eq
      cases hw.symm.trans hw'
      exact (congrArg Prod.fst hmark).le
    · have same : toll edge inf src (c :: path) v = toll edge inf src path v :=
        congrArg Prod.fst (mark_eq_of_not_cheaper cheaper)
      rw [same]
      by_contra below
      have away := exact.labelled.unsettled_of_lt exact.fresh (nonneg c v w hw) (not_le.mp below)
      exact cheaper ⟨fun mem => away.1 (hset ▸ mem), w, hw, not_le.mp below⟩

omit nonneg [IsOrderedAddMonoid W] in
theorem Exact.cheaper_iff (exact : Exact edge inf src dist path c) :
    Cheaper edge inf src (c :: path) x ↔ Gains edge inf dist path c x := by
  have hc := exact.exact_toll c mem_cons_self
  rw [Cheaper, Gains, hc]
  refine and_congr_right fun fresh => exists_congr fun w => and_congr_right fun hw =>
    ⟨fun below => ?_, ?_⟩
  · refine ⟨below.trans_le (exact.labelled.bounded x), fun y hy w' hw' => below.trans_le ?_⟩
    rw [← exact.exact_toll y (mem_cons_of_mem c hy)]
    exact exact.labelled.relaxed y hy x w' hw'
  · rintro ⟨near, less⟩
    by_cases reached : toll edge inf src path x < inf
    · have ne : x ≠ src := fun heq => fresh (heq ▸ exact.source)
      obtain ⟨y, hy, w', hw', -, sum⟩ := exists_via reached ne
      rw [sum, exact.exact_toll y (mem_cons_of_mem c hy)]
      exact less y hy w' hw'
    · exact near.trans_le (not_lt.mp reached)

omit [LinearOrder V] in
theorem Distances.zero_le (distances : Distances edge inf src dist) (hinf : 0 ≤ inf) (x : V) : 0 ≤
    dist x := by
  by_cases near : dist x < inf
  · obtain ⟨p, walk⟩ := distances.attained x near
    exact walk.cost_nonneg nonneg
  · exact hinf.trans (not_lt.mp near)

omit [LinearOrder V] in
theorem Distances.eq_of_gains (distances : Distances edge inf src dist) (near : dist c + w < inf)
    (hw : edge c n = some w) (nearest : dist c + w ≤ dist n) : dist n = dist c + w := by
  have reached : dist c < inf := (le_add_of_nonneg_right (nonneg c n w hw)).trans_lt near
  obtain ⟨p, walk⟩ := distances.attained c reached
  exact (distances.le _ n _ (walk.snoc hw)).antisymm nearest

theorem InOrder.exact (distances : Distances edge inf src dist) (hinf : 0 ≤ inf)
    (ordered : InOrder edge inf src dist (c :: path)) : Exact edge inf src dist path c := by
  generalize hlist : c :: path = l at ordered
  induction ordered generalizing c path with
  | source =>
    obtain ⟨rfl, rfl⟩ := List.cons.inj hlist
    have start : dist c = 0 :=
      (distances.le [] c 0 (.nil c)).antisymm (distances.zero_le nonneg hinf c)
    have hempty : {y | y ∈ ([] : List V)} = ∅ := by simp
    refine ⟨?_, mem_cons_self, not_mem_nil, fun y hy => ?_, fun x _ => ?_⟩
    · rw [hempty]
      exact labelled_start edge c hinf
    · rw [mem_singleton.mp hy, start]
      exact if_pos rfl
    · rw [start]
      exact distances.zero_le nonneg hinf x
  | @step path' c' n w before next hw nearest ih =>
    obtain ⟨rfl, rfl⟩ := List.cons.inj hlist
    have exact := ih rfl
    obtain ⟨w', hw', below, hmark⟩ := (exact.cheaper_iff.mpr next.1).mark_eq
    cases hw.symm.trans hw'
    rw [exact.exact_toll c' mem_cons_self] at below hmark
    have hn : dist c = dist c' + w := by
      obtain ⟨-, w', hw', near, -⟩ := next.1
      cases hw.symm.trans hw'
      exact distances.eq_of_gains nonneg near hw (nearest c next.1.1)
    refine ⟨exact.settled nonneg distances, mem_cons_of_mem c exact.source, next.1.1,
      fun y hy => ?_, fun x hx => hn.trans_le (nearest x hx)⟩
    rcases mem_cons.mp hy with rfl | hy
    · rw [hn]
      exact congrArg Prod.fst hmark
    · exact (congrArg Prod.fst (mark_eq_of_mem hy)).trans (exact.exact_toll y hy)

omit [LinearOrder V] [LinearOrder W] [IsOrderedAddMonoid W] nonneg in
theorem FirstOver.unique {u y v : V} (first : FirstOver edge dist path u v)
    (other : FirstOver edge dist path y v) : u = y := by
  obtain ⟨later, earlier, rfl, ⟨w, hw, sum⟩, none⟩ := first
  obtain ⟨later', earlier', hlist, ⟨w', hw', sum'⟩, none'⟩ := other
  rcases append_eq_append_iff.mp hlist with ⟨between, -, hrest⟩ | ⟨between, -, hrest⟩
  · cases between with
    | nil => exact (List.cons.inj hrest).1
    | cons x between =>
      obtain ⟨rfl, rfl⟩ := List.cons.inj hrest
      exact absurd sum' (none y (by simp) w' hw')
  · cases between with
    | nil => exact (List.cons.inj hrest).1.symm
    | cons x between =>
      obtain ⟨rfl, rfl⟩ := List.cons.inj hrest
      exact absurd sum (none' u (by simp) w hw)

omit [IsOrderedAddMonoid W] nonneg in
theorem Exact.firstOver {v y : V} (exact : Exact edge inf src dist path c)
    (cheaper : Cheaper edge inf src (c :: path) v) (hvia : via edge inf src (c :: path) v = some y)
    (htoll : toll edge inf src (c :: path) v = dist v) : FirstOver edge dist (c :: path) y v := by
  obtain ⟨w, hw, -, hmark⟩ := cheaper.mark_eq
  rw [via, hmark] at hvia
  have hsum : dist c + w = dist v := by
    rw [← htoll, toll, hmark, exact.exact_toll c mem_cons_self]
  cases hvia
  obtain ⟨-, w', hw', -, less⟩ := exact.cheaper_iff.mp cheaper
  cases hw.symm.trans hw'
  exact ⟨[], path, rfl, ⟨w, hw, hsum⟩, fun y hy w' hw' => (hsum ▸ less y hy w' hw').ne'⟩

theorem InOrder.firstOver {v y : V} (distances : Distances edge inf src dist) (hinf : 0 ≤ inf)
    (ordered : InOrder edge inf src dist path) (hvia : via edge inf src path v = some y)
    (htoll : toll edge inf src path v = dist v) : FirstOver edge dist path y v := by
  induction ordered with
  | source =>
    by_cases cheaper : Cheaper edge inf src [src] v
    · exact (InOrder.source.exact nonneg distances hinf).firstOver cheaper hvia htoll
    · rw [via, mark_eq_of_not_cheaper cheaper] at hvia
      cases hvia
  | @step path c n w before next hw nearest ih =>
    by_cases cheaper : Cheaper edge inf src (n :: c :: path) v
    · exact ((before.step next hw nearest).exact nonneg distances hinf).firstOver cheaper hvia htoll
    · have same := mark_eq_of_not_cheaper cheaper
      obtain ⟨later, earlier, hlist, direct⟩ :=
        ih ((congrArg Prod.snd same).symm.trans hvia) ((congrArg Prod.fst same).symm.trans htoll)
      exact ⟨n :: later, earlier, congrArg (n :: ·) hlist, direct⟩

section Complete

variable (distances : Distances edge inf src dist) (hinf : 0 ≤ inf)
  (ordered : InOrder edge inf src dist (c :: path)) (complete : ∀ x, dist x < inf → x ∈ c :: path)

include distances hinf ordered complete

theorem InOrder.sweeps : Sweeps edge inf src [src] (c :: path) := by
  have exact := ordered.exact nonneg distances hinf
  have last : Sweeps edge inf src (c :: path) (c :: path) := by
    refine .stop fun x cheaper => ?_
    obtain ⟨fresh, w, hw, near, -⟩ := exact.cheaper_iff.mp cheaper
    have reached : dist c < inf := (le_add_of_nonneg_right (nonneg c x w hw)).trans_lt near
    obtain ⟨p, walk⟩ := distances.attained c reached
    exact fresh (complete x ((distances.le _ x _ (walk.snoc hw)).trans_lt near))
  clear complete exact
  generalize c :: path = l at ordered last
  suffices forward : ∀ l', Sweeps edge inf src l l' →
    Sweeps edge inf src [src] l' from forward l last
  clear last
  induction ordered with
  | source => exact fun _ rest => rest
  | @step path c n w before next hw nearest ih =>
    intro l' rest
    have same : {x | Cheaper edge inf src (c :: path) x} = {x | Gains edge inf dist path c x} :=
      Set.ext fun x => (before.exact nonneg distances hinf).cheaper_iff
    exact ih l' (.step (same ▸ next) rest)

theorem InOrder.toll_eq : toll edge inf src (c :: path) = dist := by
  have exact := ordered.exact nonneg distances hinf
  funext x
  by_cases hx : x ∈ c :: path
  · exact (congrArg Prod.fst (mark_eq_of_mem hx)).trans (exact.exact_toll x hx)
  · have far : dist x = inf :=
      (distances.le_inf x).antisymm (not_lt.mp fun near => hx (complete x near))
    rw [far]
    exact (toll_le_inf hinf _ x).antisymm
      (far ▸ distances.le_toll (exact.settled nonneg distances) x)

theorem InOrder.back {parent : V → Option V} {settled : Set V} {v : V} {p : List V}
    (first : ∀ u v, parent v = some u → FirstOver edge dist (c :: path) u v)
    (back : Back settled parent src v p) (near : dist v < inf) :
    Back {y | y ∈ c :: path} (via edge inf src (c :: path)) src v p := by
  induction back with
  | source => exact .source
  | @step u v p ne up mem rest ih =>
    obtain ⟨-, -, -, ⟨w, hw, sum⟩, -⟩ := first u v up
    have reached : dist u < inf := (le_add_of_nonneg_right (nonneg u v w hw)).trans_lt (sum ▸ near)
    have htoll := congrFun (ordered.toll_eq nonneg distances hinf complete) v
    obtain ⟨y, hy, -, -, hvia, -⟩ := exists_via (htoll.trans_lt near) ne
    obtain rfl := (first u v up).unique (ordered.firstOver nonneg distances hinf hvia htoll)
    exact .step ne hvia hy (ih reached)

end Complete

end Exact

end Egsr.Lib.Sweep
