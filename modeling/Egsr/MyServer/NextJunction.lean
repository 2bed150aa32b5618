import Egsr.MyServer.RoadCost

/-! The next junction is right if the junction that the loop goes on to is always a nearest one, and
the cheapest path that it finds does not go through junction 0. -/

namespace Egsr.MyServer.RoadCost

open Lib.Outcome Lib.ShortestPath Lib.Sweep List

section Cheapest

variable {s : Search} {rsuSet : List ℕ}

def cheaperRsu (s : Search) (best : ℚ × Option ℕ) (rsu : ℕ) : ℚ × Option ℕ :=
  if s.distance rsu < best.1 then (s.distance rsu, some rsu) else best

theorem foldl_cheaperRsu (s : Search) (rsuSet : List ℕ) :
    rsuSet.foldl (cheaperRsu s) (infinite, none) =
      match rsuSet.argmin s.distance with
      | none => (infinite, none)
      | some rsu =>
        if s.distance rsu < infinite then (s.distance rsu, some rsu) else (infinite, none) := by
  induction rsuSet using List.reverseRecOn with
  | nil => rfl
  | append_singleton rsuSet rsu ih =>
    rw [foldl_append, ih, argmin_concat]
    simp only [foldl_cons, foldl_nil, cheaperRsu]
    cases rsuSet.argmin s.distance with
    | none => rfl
    | some least =>
      by_cases near : s.distance least < infinite
      · by_cases nearer : s.distance rsu < s.distance least
        · simp [near, nearer, nearer.trans near]
        · simp [near, nearer]
      · by_cases nearer : s.distance rsu < s.distance least
        · simp [near, nearer]
        · have far : ¬ s.distance rsu < infinite := fun h => nearer (h.trans_le (not_lt.mp near))
          simp [near, nearer, far]

theorem cheapest_eq (inside : ∀ rsu ∈ rsuSet, rsu < jnum) :
    cheapest s rsuSet = .ok (rsuSet.foldl (cheaperRsu s) (infinite, none)) := by
  refine foldlM_pure (fun _ => True) trivial fun best _ rsu hrsu => ⟨?_, trivial⟩
  rw [if_neg (not_le.mpr (inside rsu hrsu))]
  rfl

theorem cheapest_cases (inside : ∀ rsu ∈ rsuSet, rsu < jnum) : ∃ best, cheapest s rsuSet =
    .ok best ∧ ((∃ rsu ∈ rsuSet.argmin s.distance, s.distance rsu < infinite ∧ best.2 = some rsu) ∨
      (∀ rsu ∈ rsuSet, infinite ≤ s.distance rsu) ∧ best.2 = none) := by
  refine ⟨_, cheapest_eq inside, ?_⟩
  rw [foldl_cheaperRsu]
  cases hleast : rsuSet.argmin s.distance with
  | none =>
    rw [argmin_eq_none] at hleast
    exact .inr ⟨by simp [hleast], rfl⟩
  | some least =>
    by_cases near : s.distance least < infinite
    · exact .inl ⟨least, rfl, near, by simp [near]⟩
    · refine .inr ⟨fun rsu hrsu => ?_, by simp [near]⟩
      exact (not_lt.mp near).trans (le_of_mem_argmin hrsu hleast)

end Cheapest

section Back

variable {parent : ℕ → Option ℕ} {settled : Set ℕ} {src v steps : ℕ} {p : List ℕ}

theorem walkBack_back (back : Back settled parent src v p) (ne : v ≠ src)
    (enough : p.length ≤ steps) :
    ∃ h rest, p = h :: rest ∧
      walkBack parent src steps v = .ok (if 0 ∈ rest then 0 else (h : ℤ)) := by
  induction back generalizing steps with
  | source => exact absurd rfl ne
  | @step u v p hne up mem rest ih =>
    rw [length_append, length_singleton] at enough
    obtain ⟨steps, rfl⟩ : ∃ k, steps = k + 1 := ⟨steps - 1, by omega⟩
    rw [walkBack, up]
    by_cases hu : u = src
    · subst hu
      cases rest with
      | step hne' => exact absurd rfl hne'
      | source =>
        refine ⟨v, [], rfl, ?_⟩
        by_cases zero : v = 0
        · rw [if_pos zero, zero]
          rfl
        · simp only [if_neg zero, if_true]
          rfl
    · obtain ⟨h, tail, rfl, run⟩ := ih hu (Nat.le_of_succ_le_succ enough)
      refine ⟨h, tail ++ [v], rfl, ?_⟩
      by_cases zero : v = 0
      · rw [if_pos zero, if_pos (by simp [zero])]
        rfl
      · have same : 0 ∈ tail ++ [v] ↔ 0 ∈ tail := by simp [Ne.symm zero]
        simp only [if_neg zero, if_neg hu, run, same]

end Back

/-! ## The result -/

variable (cost : ℕ → ℕ → ℚ) (rsuSet : List ℕ) (srcjid : ℕ)

/-- A road-side unit can be reached at a cost below the infinite one. -/
def Reachable : Prop :=
  ∃ rsu ∈ rsuSet, ∃ p c, Walk (edge cost) srcjid p rsu c ∧ c < infinite

def Starts (srcjid h : ℕ) : Prop :=
  ∃ p, ∃ rsu ∈ rsuSet, ∃ c, Walk (edge cost) srcjid (h :: p) rsu c ∧ (srcjid :: h :: p).Nodup ∧
    c < infinite ∧ ∀ q, ∀ rsu' ∈ rsuSet, ∀ c', Walk (edge cost) srcjid q rsu' c' → c ≤ c'

def IsNextJunction (r : ℤ) : Prop :=
  (Reachable cost rsuSet srcjid ∧ ∃ h : ℕ, r = h ∧ Starts cost rsuSet srcjid h) ∨
    (¬ Reachable cost rsuSet srcjid ∧ r = -1)

/-- The route of the sweep to the road-side unit it reaches at the least cost begins with a junction
that a cheapest path begins with, and does not go through junction 0 afterwards. -/
def SweepStarts : Prop :=
  ∃ path, Sweeps (edge cost) infinite srcjid [srcjid] path ∧
    ∃ rsu ∈ rsuSet.argmin (toll (edge cost) infinite srcjid path), ∃ h rest,
      Back {y | y ∈ path} (via (edge cost) infinite srcjid path) srcjid rsu (h :: rest) ∧ 0 ∉ rest ∧
        Starts cost rsuSet srcjid h

/-- The junctions that can be reached can be listed in the order of their distance, each the
highest-numbered one gained over the one before it. The cheapest path to the nearest unit whose
junctions are entered from the first of the list does not come to junction 0 after its first one. -/
def RoadsInOrder : Prop :=
  ∃ dist c path parent, Distances (edge cost) infinite srcjid dist ∧
    InOrder (edge cost) infinite srcjid dist (c :: path) ∧
      (∀ x, dist x < infinite → x ∈ c :: path) ∧
    (∀ u v, parent v = some u → FirstOver (edge cost) dist (c :: path) u v) ∧
    ∃ rsu ∈ rsuSet.argmin dist, ∃ h rest, Back Set.univ parent srcjid rsu (h :: rest) ∧ 0 ∉ rest

section Result

variable {cost : ℕ → ℕ → ℚ} {rsuSet path p rest : List ℕ} {srcjid rsu h : ℕ} {c : ℚ}

theorem walk_lt (walk : Walk (edge cost) srcjid p rsu c) : ∀ x ∈ p, x < jnum := by
  induction walk with
  | nil => simp
  | cons hedge _ ih => exact forall_mem_cons.mpr ⟨(edge_eq_some.mp hedge).2.1, ih⟩

theorem not_starts_zero (graph : CostGraph cost) (marked : Marked (edge cost) infinite srcjid path)
    (back : Back {y | y ∈ path} (via (edge cost) infinite srcjid path) srcjid rsu (h :: rest))
    (later : 0 ∈ rest) : ¬ Starts cost rsuSet srcjid 0 := by
  have nezero : 0 ≠ srcjid := back.ne_source 0 (mem_cons_of_mem h later)
  have notNext : via (edge cost) infinite srcjid path 0 ≠ some srcjid := by
    intro up
    obtain ⟨q, r, heq, -, back'⟩ := back.part (mem_cons_of_mem h later)
    rw [back'.unique (.step nezero up marked.source .source)] at heq
    obtain ⟨rfl, rfl⟩ := List.cons.inj heq
    exact (nodup_cons.mp back.nodup).1 later
  rintro ⟨p, rsu', hrsu, c, walk, -, below, least⟩
  cases walk with
  | @cons _ _ _ _ w c hedge tail =>
    have pos := tail.cost_nonneg graph.edge_nonneg
    have near : w < infinite := (le_add_of_nonneg_right pos).trans_lt below
    obtain ⟨-, either⟩ := marked.direct 0 w nezero hedge near
    have cheaper := either.resolve_left notNext
    obtain ⟨q, -, detour⟩ := marked.reached 0 (cheaper.trans near)
    have le := least _ rsu' hrsu _ (detour.append tail)
    linarith

theorem dijkstraAlgorithm_isolated (graph : CostGraph cost) (hsrc : srcjid < jnum)
    (isolated : ¬ Road cost srcjid) : dijkstraAlgorithm cost rsuSet srcjid = .error .array := by
  rw [dijkstraAlgorithm, if_neg (not_le.mpr hsrc)]
  rcases search_start graph hsrc with ⟨road, -⟩ | ⟨-, run⟩
  · exact absurd road isolated
  · rw [run]
    rfl

theorem dijkstraAlgorithm_eq {s : Search} {best : ℚ × Option ℕ} (hsrc : srcjid < jnum)
    (run : search cost jnum srcjid none ((Search.start srcjid).visit srcjid) = .ok s)
    (hbest : cheapest s rsuSet = .ok best) :
    dijkstraAlgorithm cost rsuSet srcjid =
      match best.2 with
      | none => pure (-1)
      | some minid => walkBack s.parent srcjid (jnum + 1) minid := by
  rw [dijkstraAlgorithm, if_neg (not_le.mpr hsrc), run]
  change (cheapest s rsuSet >>= _) = _
  rw [hbest]
  rfl

theorem dijkstraAlgorithm_cases (graph : CostGraph cost) (hsrc : srcjid < jnum)
    (inside : ∀ rsu ∈ rsuSet, rsu < jnum) (away : srcjid ∉ rsuSet) (road : Road cost srcjid) :
    ∃ path, Sweeps (edge cost) infinite srcjid [srcjid] path ∧
      Marked (edge cost) infinite srcjid path ∧
      ((∃ rsu ∈ rsuSet.argmin (toll (edge cost) infinite srcjid path), ∃ h rest,
        Reachable cost rsuSet srcjid ∧
          Back {y | y ∈ path} (via (edge cost) infinite srcjid path) srcjid rsu (h :: rest) ∧
          dijkstraAlgorithm cost rsuSet srcjid = .ok (if 0 ∈ rest then 0 else (h : ℤ))) ∨
        (∀ rsu ∈ rsuSet, infinite ≤ toll (edge cost) infinite srcjid path rsu) ∧
          dijkstraAlgorithm cost rsuSet srcjid = .ok (-1)) := by
  rcases search_start graph hsrc with ⟨-, s, path, run, sweeps, distance, parent⟩ | ⟨isolated, -⟩
  · have marked := sweeps.marked graph.edge_nonneg marked_source
    refine ⟨path, sweeps, marked, ?_⟩
    obtain ⟨best, hbest, ⟨rsu, hrsu, near, hminid⟩ | ⟨far, hminid⟩⟩ :=
      cheapest_cases (s := s) inside
    · left
      rw [distance] at hrsu near
      have mem : rsu ∈ rsuSet := argmin_mem hrsu
      have ne : rsu ≠ srcjid := fun heq => away (heq ▸ mem)
      obtain ⟨p, back, walk⟩ := marked.reached rsu near
      have few : p.length ≤ jnum + 1 := by
        have length := (back.nodup.subperm fun x hx => mem_range.mpr (walk_lt walk x hx)).length_le
        rw [length_range] at length
        omega
      obtain ⟨h, rest, rfl, hwalk⟩ := walkBack_back back ne few
      refine ⟨rsu, hrsu, h, rest, ⟨rsu, mem, _, _, walk, near⟩, back, ?_⟩
      rw [dijkstraAlgorithm_eq hsrc run hbest, hminid, parent]
      exact hwalk
    · rw [distance] at far
      refine .inr ⟨far, ?_⟩
      rw [dijkstraAlgorithm_eq hsrc run hbest, hminid]
      rfl
  · exact absurd road isolated

theorem sweepStarts_iff (sweeps : Sweeps (edge cost) infinite srcjid [srcjid] path)
    (hrsu : rsu ∈ rsuSet.argmin (toll (edge cost) infinite srcjid path))
    (back : Back {y | y ∈ path} (via (edge cost) infinite srcjid path) srcjid rsu (h :: rest)) :
    SweepStarts cost rsuSet srcjid ↔ 0 ∉ rest ∧ Starts cost rsuSet srcjid h := by
  constructor
  · rintro ⟨path', sweeps', rsu', hrsu', h', rest', back', starts⟩
    obtain rfl := sweeps.unique sweeps'
    obtain rfl : rsu = rsu' := Option.some.inj (hrsu.symm.trans hrsu')
    obtain ⟨rfl, rfl⟩ := List.cons.inj (back.unique back')
    exact starts
  · intro starts
    exact ⟨path, sweeps, rsu, hrsu, h, rest, back, starts⟩

theorem not_sweepStarts (sweeps : Sweeps (edge cost) infinite srcjid [srcjid] path)
    (far : ∀ rsu ∈ rsuSet, infinite ≤ toll (edge cost) infinite srcjid path rsu) :
      ¬ SweepStarts cost rsuSet srcjid := by
  rintro ⟨path', sweeps', rsu, hrsu, h, rest, back, -⟩
  obtain rfl := sweeps.unique sweeps'
  have near : toll (edge cost) infinite srcjid path rsu < infinite := by
    generalize hp : h :: rest = p at back
    cases back with
    | source => cases hp
    | step _ up => exact toll_lt_of_via infinite_nonneg up
  exact absurd (far rsu (argmin_mem hrsu)) (not_le.mpr near)

theorem isNextJunction_iff (reach : Reachable cost rsuSet srcjid) {j : ℕ} :
    IsNextJunction cost rsuSet srcjid j ↔ Starts cost rsuSet srcjid j := by
  constructor
  · rintro (⟨-, j', heq, starts⟩ | ⟨unreach, -⟩)
    · rwa [Int.natCast_inj.mp heq]
    · exact absurd reach unreach
  · intro starts
    exact .inl ⟨reach, j, rfl, starts⟩

theorem isNextJunction_none_iff : IsNextJunction cost rsuSet srcjid (-1) ↔
    ¬ Reachable cost rsuSet srcjid := by
  constructor
  · rintro (⟨-, j, heq, -⟩ | ⟨unreach, -⟩)
    · omega
    · exact unreach
  · intro unreach
    exact .inr ⟨unreach, rfl⟩

theorem exists_ok_iff {r : ℤ} (run : dijkstraAlgorithm cost rsuSet srcjid = .ok r) :
    (∃ r, dijkstraAlgorithm cost rsuSet srcjid = .ok r ∧ IsNextJunction cost rsuSet srcjid r) ↔
      IsNextJunction cost rsuSet srcjid r := by
  constructor
  · rintro ⟨r', run', next⟩
    rwa [Except.ok.inj (run.symm.trans run')]
  · intro next
    exact ⟨r, run, next⟩

theorem next_iff_sweepStarts (graph : CostGraph cost) (hsrc : srcjid < jnum)
    (inside : ∀ rsu ∈ rsuSet, rsu < jnum) (away : srcjid ∉ rsuSet) :
    (∃ r, dijkstraAlgorithm cost rsuSet srcjid = .ok r ∧ IsNextJunction cost rsuSet srcjid r) ↔
      Road cost srcjid ∧ (Reachable cost rsuSet srcjid → SweepStarts cost rsuSet srcjid) := by
  by_cases road : Road cost srcjid
  · rw [and_iff_right road]
    obtain ⟨path, sweeps, marked, hcases⟩ := dijkstraAlgorithm_cases graph hsrc inside away road
    rcases hcases with ⟨rsu, hrsu, h, rest, reach, back, run⟩ | ⟨far, run⟩
    · rw [exists_ok_iff run, sweepStarts_iff sweeps hrsu back, forall_prop_of_true reach]
      by_cases later : 0 ∈ rest
      · have wrong : ¬ Starts cost rsuSet srcjid 0 := not_starts_zero graph marked back later
        rw [if_pos later]
        exact iff_of_false (fun next => wrong ((isNextJunction_iff reach).mp next)) fun starts =>
          starts.1 later
      · rw [if_neg later, isNextJunction_iff reach, and_iff_right later]
    · have never := not_sweepStarts sweeps far
      rw [exists_ok_iff run, isNextJunction_none_iff]
      exact ⟨fun unreach reach => absurd reach unreach, fun starts reach => never (starts reach)⟩
  · rw [dijkstraAlgorithm_isolated graph hsrc road]
    constructor
    · rintro ⟨r, hr, -⟩
      cases hr
    · rintro ⟨road', -⟩
      exact absurd road' road

theorem RoadsInOrder.sweepStarts (graph : CostGraph cost) (reach : Reachable cost rsuSet srcjid)
    (ordered : RoadsInOrder cost rsuSet srcjid) : SweepStarts cost rsuSet srcjid := by
  obtain ⟨dist, c, path, parent, distances, order, complete, first, rsu, hrsu, h, rest, back,
      later⟩ := ordered
  have htoll := order.toll_eq graph.edge_nonneg distances infinite_nonneg complete
  have sweeps := order.sweeps graph.edge_nonneg distances infinite_nonneg complete
  have marked := sweeps.marked graph.edge_nonneg marked_source
  have near : dist rsu < infinite := by
    obtain ⟨rsu', hrsu', p, c, walk, below⟩ := reach
    exact (le_of_mem_argmin hrsu' hrsu).trans_lt ((distances.le p rsu' c walk).trans_lt below)
  have route := order.back graph.edge_nonneg distances infinite_nonneg complete first back near
  obtain ⟨p, route', walk⟩ := marked.reached rsu (htoll ▸ near)
  obtain rfl := route.unique route'
  rw [htoll] at walk
  refine ⟨c :: path, sweeps, rsu, htoll.symm ▸ hrsu, h, rest, route, later, rest, rsu,
    argmin_mem hrsu, dist rsu, walk, ?_, near, fun q rsu' hrsu' c' walk' => ?_⟩
  · exact nodup_cons.mpr ⟨fun mem => back.ne_source srcjid mem rfl, back.nodup⟩
  · exact (le_of_mem_argmin hrsu' hrsu).trans (distances.le q rsu' c' walk')

/-- The search returns the first junction on a cheapest path to the cheapest road-side unit, or -1
where no unit can be reached, if a road leaves the source and, where a unit can be reached, the
search goes over the roads in order. -/
theorem dijkstraAlgorithm_next (graph : CostGraph cost) (hsrc : srcjid < jnum)
    (inside : ∀ rsu ∈ rsuSet, rsu < jnum) (away : srcjid ∉ rsuSet) (road : Road cost srcjid)
    (ordered : Reachable cost rsuSet srcjid → RoadsInOrder cost rsuSet srcjid) :
    ∃ r, dijkstraAlgorithm cost rsuSet srcjid = .ok r ∧ IsNextJunction cost rsuSet srcjid r :=
  (next_iff_sweepStarts graph hsrc inside away).mpr
    ⟨road, fun reach => (ordered reach).sweepStarts graph reach⟩

end Result

/-- The road from 1 to 2 costs more than the way over 3. -/
def detour (i j : ℕ) : ℚ :=
  if (i, j) = (1, 2) ∨ (i, j) = (2, 1) then 5
  else if [(1, 3), (3, 1), (2, 3), (3, 2)].contains (i, j) then 1
  else infinite

def detourRoads : List (ℕ × ℕ × ℚ) :=
  [(1, 2, 5), (2, 1, 5), (1, 3, 1), (3, 1, 1), (2, 3, 1), (3, 2, 1)]

def detourDist (x : ℕ) : ℚ := if x = 1 then 0 else if x = 3 then 1 else if x = 2 then 2
    else infinite

def detourParent (x : ℕ) : Option ℕ := if x = 3 then some 1 else if x = 2 then some 3 else none

theorem costGraph_detour : CostGraph detour := ⟨by decide +kernel, by decide +kernel⟩

theorem edge_detour {i j : ℕ} {w : ℚ} : edge detour i j = some w ↔ (i, j, w) ∈ detourRoads := by
  have roads : ∀ i < jnum, ∀ j < jnum, detour i j = infinite ∨
      (i, j, detour i j) ∈ detourRoads := by
    decide +kernel
  rw [edge_eq_some]
  constructor
  · rintro ⟨hi, hj, hne, rfl⟩
    exact (roads i hi j hj).resolve_left hne
  · intro mem
    simp only [detourRoads, mem_cons, not_mem_nil, or_false, Prod.mk.injEq] at mem
    rcases mem with ⟨rfl, rfl, rfl⟩ | ⟨rfl, rfl, rfl⟩ | ⟨rfl, rfl, rfl⟩ | ⟨rfl, rfl, rfl⟩ |
      ⟨rfl, rfl, rfl⟩ | ⟨rfl, rfl, rfl⟩ <;> norm_num [detour, infinite, jnum]

theorem detourDist_cases (x : ℕ) : x = 1 ∧ detourDist x = 0 ∨ x = 3 ∧ detourDist x = 1 ∨
    x = 2 ∧ detourDist x = 2 ∨ detourDist x = infinite := by
  rw [detourDist]
  split_ifs <;> simp [*]

theorem distances_detour : Distances (edge detour) infinite 1 detourDist where
  le_inf x := by
    rcases detourDist_cases x with ⟨-, h⟩ | ⟨-, h⟩ | ⟨-, h⟩ | h <;> rw [h] <;> norm_num [infinite]
  le p x c walk := by
    refine (le_of_walk (fun u v w hw => ?_) walk).trans_eq (zero_add c)
    have mem := edge_detour.mp hw
    simp only [detourRoads, mem_cons, not_mem_nil, or_false, Prod.mk.injEq] at mem
    rcases mem with ⟨rfl, rfl, rfl⟩ | ⟨rfl, rfl, rfl⟩ | ⟨rfl, rfl, rfl⟩ | ⟨rfl, rfl, rfl⟩ |
      ⟨rfl, rfl, rfl⟩ | ⟨rfl, rfl, rfl⟩ <;> norm_num [detourDist]
  attained x near := by
    have first : Walk (edge detour) 1 [3] 3 1 :=
      add_zero (1 : ℚ) ▸ .cons (edge_detour.mpr (by decide)) (.nil 3)
    have road : edge detour 3 2 = some 1 := edge_detour.mpr (by decide)
    rcases detourDist_cases x with ⟨rfl, h⟩ | ⟨rfl, h⟩ | ⟨rfl, h⟩ | h
    · exact ⟨[], .nil 1⟩
    · exact ⟨[3], h ▸ first⟩
    · exact ⟨[3, 2], h ▸ (by norm_num : (1 + 1 : ℚ) = 2) ▸ first.snoc road⟩
    · exact absurd near h.not_lt

theorem inOrder_detour : InOrder (edge detour) infinite 1 detourDist [2, 3, 1] := by
  have road : ∀ {i j : ℕ} {w : ℚ}, (i, j, w) ∈ detourRoads → edge detour i j = some w :=
    edge_detour.mpr
  have start : InOrder (edge detour) infinite 1 detourDist [3, 1] := by
    refine .step (w := 1) .source ⟨⟨by decide, 1, road (by decide), ?_, ?_⟩, ?_⟩
      (road (by decide)) ?_
    · norm_num [detourDist, infinite]
    · simp
    · rintro x ⟨-, w, hw, -⟩
      have mem := edge_detour.mp hw
      simp [detourRoads] at mem
      omega
    · intro x fresh
      rw [mem_singleton] at fresh
      change (0 : ℚ) + 1 ≤ _
      rcases detourDist_cases x with ⟨h, -⟩ | ⟨-, h⟩ | ⟨-, h⟩ | h
      · exact absurd h fresh
      all_goals rw [h]; norm_num [infinite]
  refine .step (w := 1) start ⟨⟨by decide, 1, road (by decide), ?_, ?_⟩, ?_⟩ (road (by decide)) ?_
  · norm_num [detourDist, infinite]
  · rintro y hy w' hw'
    obtain rfl := mem_singleton.mp hy
    have mem := edge_detour.mp hw'
    simp [detourRoads] at mem
    norm_num [mem, detourDist]
  · rintro x ⟨-, w, hw, -⟩
    have mem := edge_detour.mp hw
    simp [detourRoads] at mem
    omega
  · intro x fresh
    rw [mem_cons, mem_singleton, not_or] at fresh
    change (1 : ℚ) + 1 ≤ _
    rcases detourDist_cases x with ⟨h, -⟩ | ⟨h, -⟩ | ⟨-, h⟩ | h
    · exact absurd h fresh.2
    · exact absurd h fresh.1
    all_goals rw [h]; norm_num [infinite]

/-- The way to the unit in 2 goes over 3. -/
theorem dijkstraAlgorithm_next_detour :
    (∃ r, dijkstraAlgorithm detour [2] 1 = .ok r ∧ IsNextJunction detour [2] 1 r) ∧
      dijkstraAlgorithm detour [2] 1 = .ok 3 := by
  refine ⟨?_, by decide +kernel⟩
  refine dijkstraAlgorithm_next costGraph_detour (by decide) (by decide) (by decide)
    ⟨3, 1, by decide, edge_detour.mpr (by decide), by norm_num [infinite]⟩ fun _ =>
      ⟨detourDist, 2, [3, 1], detourParent, distances_detour, inOrder_detour, fun x near =>
        ?_, fun u v up => ?_, 2, rfl, 3, [2], ?_, by decide⟩
  · rcases detourDist_cases x with ⟨rfl, -⟩ | ⟨rfl, -⟩ | ⟨rfl, -⟩ | h
    · decide
    · decide
    · decide
    · exact absurd near h.not_lt
  · rw [detourParent] at up
    split_ifs at up with three two
    · cases up
      exact ⟨[2, 3], [], rfl,
        ⟨1, three ▸ edge_detour.mpr (by decide), three ▸ by norm_num [detourDist]⟩, by simp⟩
    · cases up
      subst two
      refine ⟨[2], [1], rfl, ⟨1, edge_detour.mpr (by decide), by norm_num [detourDist]⟩,
        fun y hy w hw => ?_⟩
      obtain rfl := mem_singleton.mp hy
      have mem := edge_detour.mp hw
      simp [detourRoads] at mem
      norm_num [mem, detourDist]
  · exact .step (p := [3]) (by decide) rfl trivial (.step (p := []) (by decide) rfl trivial .source)

def fork (i j : ℕ) : ℚ :=
  if [(1, 2), (2, 3), (1, 8)].contains (i, j) ∨ [(1, 2), (2, 3), (1, 8)].contains (j, i) then 1
    else infinite

theorem fork_eq (i j : ℕ) : fork i j = 1 ∨ fork i j = infinite := by
  rw [fork]
  split_ifs
  · exact .inl rfl
  · exact .inr rfl

theorem costGraph_fork : CostGraph fork where
  symmetric i _ j _ := if_congr or_comm rfl rfl
  nonneg i _ j _ := by
    rcases fork_eq i j with one | none
    · exact one ▸ zero_le_one
    · exact none ▸ infinite_nonneg

/-- The search ends in the dead end 8 and never comes to the unit in 3. -/
theorem fork_dead_end :
    CostGraph fork ∧ Reachable fork [3] 1 ∧ dijkstraAlgorithm fork [3] 1 = .ok (-1) ∧
      ¬ IsNextJunction fork [3] 1 (-1) := by
  have edges : edge fork 1 2 = some 1 ∧ edge fork 2 3 = some 1 := by
    norm_num [edge, fork, infinite, jnum]
  have reach : Reachable fork [3] 1 :=
    ⟨3, mem_singleton.mpr rfl, _, _, .cons edges.1 (.cons edges.2 (.nil 3)), by norm_num [infinite]⟩
  refine ⟨costGraph_fork, reach, by decide +kernel, ?_⟩
  rintro (⟨-, h, heq, -⟩ | ⟨unreach, -⟩)
  · omega
  · exact unreach reach

end Egsr.MyServer.RoadCost
