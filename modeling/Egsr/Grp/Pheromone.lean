import Egsr.Grp.Handlers

/-! The pheromone of roads and the weights of the graph. Ants put pheromone on the
roads they pass, it evaporates, and the weight of a road is its length over its
pheromone; routes are planned on the graph with a virtual vertex that is taken
off it again. -/

namespace Egsr.Grp.Pheromone

open Grp.Road Grp.Header Grp.State Grp.Forwarding Grp.SourceRoute
open Grp.Control Grp.Handlers Grp.DataPlane Lib.Outcome Lib.Run

/-! ## Initialization -/

variable (map : RoadMap)

def roads : List (ℕ × ℕ × ℚ) :=
  map.zipIdx.flatMap fun entry => entry.1.outedge.toList.map fun e => (entry.2, e.1, e.2)

def roadLengths : Except Fault (Grid mJuncNum ℚ) :=
  (roads map).foldlM (fun g e => g.set e.1 e.2.1 e.2.2) (Grid.fill infinite)

def doInitialize (v : Vehicle) : Except Fault Vehicle := do
  let length ← roadLengths v.map
  pure { v with
    graph := Grid.fill infinite
    graph2 := Grid.fill infinite
    minDelay := Grid.fill timeMax
    p := Grid.fill 0.5
    length }

def road (i j : ℕ) : Option ℚ := map[i]?.bind fun entry => entry.outedge[j]?

theorem mem_roads {map : RoadMap} {i j : ℕ} {l : ℚ} :
    (i, j, l) ∈ roads map ↔ road map i j = some l := by
  rw [roads, List.mem_flatMap, road, Option.bind_eq_some_iff]
  constructor
  · intro h
    obtain ⟨⟨entry, k⟩, hentry, hmem⟩ := h
    obtain ⟨e, he, heq⟩ := List.mem_map.mp hmem
    cases heq
    exact ⟨entry, List.mem_zipIdx_iff_getElem?.mp hentry,
      Std.TreeMap.mem_toList_iff_getElem?_eq_some.mp he⟩
  · intro h
    obtain ⟨entry, hentry, hl⟩ := h
    refine ⟨(entry, i), List.mem_zipIdx_iff_getElem?.mpr hentry, List.mem_map.mpr ?_⟩
    exact ⟨(j, l), Std.TreeMap.mem_toList_iff_getElem?_eq_some.mpr hl, rfl⟩

theorem set_ok_inv {n : ℕ} {g g' : Grid n ℚ} {i j : ℕ} {a : ℚ} (h : g.set i j a = .ok g') :
    g' = ⟨fun k l => if k = i ∧ l = j then a else g.cell k l⟩ := by
  unfold Grid.set at h
  split at h
  · cases h
    rfl
  · cases h

theorem foldlM_set {n : ℕ} (value : ℕ → ℕ → ℚ) {es : List (ℕ × ℕ × ℚ)} {g g' : Grid n ℚ}
    (honest : ∀ e ∈ es, e.2.2 = value e.1 e.2.1)
    (run : es.foldlM (fun g e => g.set e.1 e.2.1 e.2.2) g = .ok g') (i j : ℕ) :
    g'.cell i j = value i j ∨
      g'.cell i j = g.cell i j ∧ ∀ e ∈ es, ¬ (i = e.1 ∧ j = e.2.1) := by
  induction es generalizing g with
  | nil =>
    cases run
    exact .inr ⟨rfl, fun e he => by cases he⟩
  | cons e es ih =>
    rw [List.foldlM_cons] at run
    obtain ⟨g₁, hset, hrest⟩ := bind_ok_inv run
    have hcell := congrArg (fun g => Grid.cell g i j) (set_ok_inv hset)
    have hhonest : ∀ e ∈ es, e.2.2 = value e.1 e.2.1 := fun e he => honest e (by simp [he])
    cases ih hhonest hrest with
    | inl hvalue => exact .inl hvalue
    | inr hleft =>
      by_cases hhere : i = e.1 ∧ j = e.2.1
      · left
        rw [hleft.1, hcell]
        dsimp only
        rw [if_pos hhere, honest e (by simp), hhere.1, hhere.2]
      · right
        refine ⟨?_, List.forall_mem_cons.mpr ⟨hhere, hleft.2⟩⟩
        rw [hleft.1, hcell]
        exact if_neg hhere

theorem roadLengths_spec {map : RoadMap} {g : Grid mJuncNum ℚ} (h : roadLengths map = .ok g)
    (i j : ℕ) : g.cell i j = (road map i j).getD infinite := by
  have honest : ∀ e ∈ roads map, e.2.2 = (road map e.1 e.2.1).getD infinite := by
    intro e he
    rw [mem_roads.mp he, Option.getD_some]
  cases foldlM_set (fun i j => (road map i j).getD infinite) honest h i j with
  | inl hvalue => exact hvalue
  | inr hleft =>
    cases hroad : road map i j with
    | none => exact hleft.1
    | some l => exact absurd ⟨rfl, rfl⟩ (hleft.2 (i, j, l) (mem_roads.mpr hroad))

/-- Roads lead both ways, and none has a negative length. -/
structure SymmetricRoads : Prop where
  symmetric : ∀ i j, road map i j = road map j i
  nonneg : ∀ i j l, road map i j = some l → 0 ≤ l

structure Consistent (v : Vehicle) : Prop where
  symmetric : ∀ x y, v.p.cell x y = v.p.cell y x
  least : ∀ x y, 1 / 10 ≤ v.p.cell x y
  most : ∀ x y, v.p.cell x y < 1
  graphSymmetric : ∀ x y, v.graph.cell x y = v.graph.cell y x
  weight : ∀ x y, v.graph.cell x y ≠ infinite →
    v.graph.cell x y = v.length.cell x y / v.p.cell x y ∧ v.length.cell x y ≤ v.graph.cell x y
  virtualRow : ∀ k, v.graph.cell mJuncNum k = infinite
  virtualColumn : ∀ k, v.graph.cell k mJuncNum = infinite

/-- Consistent matrices, on roads that lead both ways and with delays that can be measured. -/
structure MatricesOk (v : Vehicle) : Prop extends Consistent v where
  lengthSymmetric : ∀ x y, v.length.cell x y = v.length.cell y x
  lengthNonneg : ∀ x y, 0 ≤ v.length.cell x y
  measured : ∀ x y, 1 / 1000 ≤ v.minDelay.cell x y

variable {v v' : Vehicle}

theorem matricesOk_of_doInitialize (roads : SymmetricRoads v.map)
    (init : doInitialize v = .ok v') : MatricesOk v' := by
  obtain ⟨length, hlength, hv'⟩ := bind_ok_inv init
  cases hv'
  have hcell := roadLengths_spec hlength
  have htime : (1 : ℚ) / 1000 ≤ timeMax := by norm_num [timeMax]
  refine ⟨⟨fun _ _ => rfl, fun _ _ => ?_, fun _ _ => ?_, fun _ _ => rfl,
    fun _ _ finite => absurd rfl finite, fun _ => rfl, fun _ => rfl⟩, fun x y => ?_, fun x y => ?_,
    fun _ _ => htime⟩
  · norm_num [Grid.fill]
  · norm_num [Grid.fill]
  · simp only [hcell, roads.symmetric x y]
  · simp only [hcell]
    cases hroad : road v.map x y with
    | none => norm_num [infinite]
    | some l => exact roads.nonneg x y l hroad

def deposit (v : Vehicle) (x y : ℕ) (q : ℚ) : Vehicle :=
  { v with p := v.p.both x y q, graph := v.graph.both x y (v.length.cell x y / q) }

theorem MatricesOk.deposited (h : MatricesOk v) {x y : ℕ} (hx : x < mJuncNum) (hy : y < mJuncNum)
    {q : ℚ} (least : 1 / 10 ≤ q) (most : q < 1) : MatricesOk (deposit v x y q) where
  symmetric := Grid.both_symmetric h.symmetric x y q
  least k l := by
    by_cases hhere : k = x ∧ l = y ∨ k = y ∧ l = x
    · exact least.trans_eq (if_pos hhere).symm
    · exact (h.least k l).trans_eq (if_neg hhere).symm
  most k l := by
    by_cases hhere : k = x ∧ l = y ∨ k = y ∧ l = x
    · exact (if_pos hhere).trans_lt most
    · exact (if_neg hhere).trans_lt (h.most k l)
  graphSymmetric := Grid.both_symmetric h.graphSymmetric x y _
  weight k l finite := by
    by_cases hhere : k = x ∧ l = y ∨ k = y ∧ l = x
    · have hlength : (deposit v x y q).length.cell k l = v.length.cell x y := by
        cases hhere with
        | inl same => exact congrArg₂ v.length.cell same.1 same.2
        | inr across =>
          exact (congrArg₂ v.length.cell across.1 across.2).trans (h.lengthSymmetric y x)
      have hgraph : (deposit v x y q).graph.cell k l = v.length.cell x y / q := if_pos hhere
      have hp : (deposit v x y q).p.cell k l = q := if_pos hhere
      rw [hgraph, hp, hlength]
      refine ⟨rfl, ?_⟩
      rw [le_div_iff₀ (by linarith)]
      exact mul_le_of_le_one_right (h.lengthNonneg x y) most.le
    · have hgraph : (deposit v x y q).graph.cell k l = v.graph.cell k l := if_neg hhere
      have hp : (deposit v x y q).p.cell k l = v.p.cell k l := if_neg hhere
      rw [hgraph] at finite
      rw [hgraph, hp]
      exact h.weight k l finite
  virtualRow k := by
    refine (if_neg ?_).trans (h.virtualRow k)
    omega
  virtualColumn k := by
    refine (if_neg ?_).trans (h.virtualColumn k)
    omega
  lengthSymmetric := h.lengthSymmetric
  lengthNonneg := h.lengthNonneg
  measured := h.measured

/-! ## Deposits and evaporation -/

/-- What the amount that an ant adds takes of the arc tangent: between the two bounds
the pheromone stays between a tenth and one. -/
def Damped [Platform] : Prop :=
  ∀ q, 0 < q → q ≤ 1 → -(29 / 200) * pi ≤ Platform.atan q ∧ Platform.atan q < 7 / 20 * pi

theorem reinforced_bounds {p delta : ℚ} (least : 1 / 10 ≤ p) (low : 1 / 100 ≤ delta)
    (high : delta < 1) : 1 / 10 ≤ (p + delta) / (1 + p) ∧ (p + delta) / (1 + p) < 1 := by
  have hpos : 0 < 1 + p := by linarith
  constructor
  · rw [le_div_iff₀ hpos]
    linarith
  · rw [div_lt_one hpos]
    linarith

theorem Damped.bounds [Platform] (damped : Damped) {q : ℚ} (pos : 0 < q) (le : q ≤ 1) :
    1 / 100 ≤ antA + 2 / pi * Platform.atan q ∧ antA + 2 / pi * Platform.atan q < 1 := by
  obtain ⟨hlow, hhigh⟩ := damped q pos le
  have hpi : 0 < pi := by norm_num [pi]
  have hscale : 0 < 2 / pi := by positivity
  have hlow' := mul_le_mul_of_nonneg_left hlow hscale.le
  have hhigh' := mul_lt_mul_of_pos_left hhigh hscale
  have hleft : 2 / pi * (-(29 / 200) * pi) = -(29 / 100) := by
    field_simp
    norm_num
  have hright : 2 / pi * (7 / 20 * pi) = 7 / 10 := by
    field_simp
    norm_num
  rw [hleft] at hlow'
  rw [hright] at hhigh'
  constructor
  · norm_num [antA]
    linarith
  · norm_num [antA]
    linarith

theorem ratio_bounds {least delay : Time} (measured : 1 / 1000 ≤ least) (le : least ≤ delay) :
    0 < (getMilliSeconds least : ℚ) / getMilliSeconds delay ∧
      (getMilliSeconds least : ℚ) / getMilliSeconds delay ≤ 1 := by
  have hleast : getMilliSeconds least = ⌊least * 1000⌋ := if_pos (by linarith)
  have hdelay : getMilliSeconds delay = ⌊delay * 1000⌋ := if_pos (by linarith)
  have hone : 1 ≤ getMilliSeconds least := by
    rw [hleast, Int.le_floor]
    push_cast
    linarith
  have hmono : getMilliSeconds least ≤ getMilliSeconds delay := by
    rw [hleast, hdelay]
    exact Int.floor_le_floor (by linarith)
  have hpos : (0 : ℚ) < getMilliSeconds least := by exact_mod_cast hone
  have hmono' : (getMilliSeconds least : ℚ) ≤ getMilliSeconds delay := by exact_mod_cast hmono
  have hpos' := hpos.trans_le hmono'
  exact ⟨div_pos hpos hpos', (div_le_one hpos').mpr hmono'⟩

theorem MatricesOk.reinforced [Platform] (damped : Damped) (h : MatricesOk v) {x y : ℕ}
    {delay : Time} (spaced : 1 / 1000 ≤ delay) :
    Ensures (reinforce v x y delay) MatricesOk (fun _ => True) := by
  by_cases hxy : x < mJuncNum ∧ y < mJuncNum
  · obtain ⟨hx, hy⟩ := hxy
    have hx' : x < mJuncNum + 2 := by omega
    have hy' : y < mJuncNum + 2 := by omega
    have hmeasured : 1 / 1000 ≤ min (v.minDelay.cell x y) delay := le_min (h.measured x y) spaced
    have hratio := ratio_bounds hmeasured (min_le_right (v.minDelay.cell x y) delay)
    have hdelta := damped.bounds hratio.1 hratio.2
    have hq := reinforced_bounds (h.least x y) hdelta.1 hdelta.2
    have hdeposit := h.deposited hx hy hq.1 hq.2
    simp only [reinforce, bind, Except.bind, Grid.get_eq hx hy, Grid.set_eq hx hy,
      Grid.setBoth_eq hx hy, Grid.setBoth_eq hx' hy', Grid.both_self, and_self, if_true,
        ensures_pure]
    refine { hdeposit with measured := fun k l => ?_ }
    by_cases hhere : k = x ∧ l = y
    · exact hmeasured.trans_eq (if_pos hhere).symm
    · exact (h.measured k l).trans_eq (if_neg hhere).symm
  · simp only [reinforce, bind, Except.bind, Grid.get, if_neg hxy]
    trivial

theorem MatricesOk.evaporated (h : MatricesOk v) (ij : ℕ × ℕ) :
    Ensures (evaporateRoad v ij) MatricesOk (fun _ => True) := by
  obtain ⟨i, j⟩ := ij
  by_cases hij : i < mJuncNum ∧ j < mJuncNum
  · obtain ⟨hi, hj⟩ := hij
    have hi' : i < mJuncNum + 2 := by omega
    have hj' : j < mJuncNum + 2 := by omega
    by_cases hroad : v.length.cell i j ≠ infinite
    · have hmost : max 0.1 (mEvaporateAlpha * v.p.cell i j) < 1 := by
        have hp := h.most i j
        apply max_lt (by norm_num)
        norm_num [mEvaporateAlpha]
        linarith
      have hleast : 1 / 10 ≤ max 0.1 (mEvaporateAlpha * v.p.cell i j) :=
        le_trans (by norm_num) (le_max_left _ _)
      simp only [evaporateRoad, bind, Except.bind, Grid.get_eq hi hj, if_pos hroad,
        Grid.setBoth_eq hi hj, Grid.setBoth_eq hi' hj', Grid.both_self, ensures_pure]
      exact h.deposited hi hj hleast hmost
    · simp only [evaporateRoad, bind, Except.bind, Grid.get_eq hi hj, if_neg hroad, ensures_pure]
      exact h
  · simp only [evaporateRoad, bind, Except.bind, Grid.get, if_neg hij]
    trivial

theorem MatricesOk.evaporateExpire (h : MatricesOk v) :
    Ensures (evaporateExpire v) MatricesOk (fun _ => True) := by
  unfold Control.evaporateExpire
  refine (ensures_foldlM h fun w ij _ hw => hw.evaporated ij).bind fun w hw => ?_
  cases htimer : w.evaporateTimer with
  | none => exact { hw with }
  | some t => trivial

/-! ## Runs -/

/-- Each junction was passed at least a millisecond after the one before it. -/
def Spaced (ant : Ant Time) : Prop := ant.sDelay.IsChain fun s t => s + 1 / 1000 ≤ t
deriving Decidable

inductive MatrixAction where
  | updateMatrix (ant : Ant Time)
  | evaporateExpire
  /-- A path is planned, with the virtual vertex outside of junction areas. -/
  | pathToRsu
  /-- Anything else that happens to the vehicle; its matrices stay. -/
  | observe (v : Vehicle)

def matrixStep [Platform] (v : Vehicle) : MatrixAction → Except Fault Vehicle
  | .updateMatrix ant => updateMatrix v ant
  | .evaporateExpire => evaporateExpire { v with evaporateTimer := none }
  | .pathToRsu => do
    let (_, v) ← pathToRsu v
    pure v
  | .observe v' => pure { v' with
      graph := v.graph
      length := v.length
      p := v.p
      minDelay := v.minDelay }

def SpacedAnts (_ : Vehicle) : MatrixAction → Prop
  | .updateMatrix ant => Spaced ant
  | _ => True

instance (v : Vehicle) (act : MatrixAction) : Decidable (SpacedAnts v act) :=
  match act with
  | .updateMatrix .. | .evaporateExpire | .pathToRsu | .observe _ =>
    by unfold SpacedAnts; infer_instance

theorem joinedGraph_infinite (virtualRow : ∀ k, v.graph.cell mJuncNum k = infinite)
    (virtualColumn : ∀ k, v.graph.cell k mJuncNum = infinite) :
    joinedGraph v infinite infinite = v.graph := by
  have hcell : (joinedGraph v infinite infinite).cell = v.graph.cell := by
    funext k l
    have hvirtual : k = mJuncNum ∨ l = mJuncNum → v.graph.cell k l = infinite := by
      intro h
      cases h with
      | inl row => rw [row, virtualRow]
      | inr column => rw [column, virtualColumn]
    simp only [joinedGraph]
    split
    · exact (hvirtual (by omega)).symm
    · split
      · exact (hvirtual (by omega)).symm
      · rfl
  exact congrArg Grid.mk hcell

section Runs

variable [Platform]

theorem MatricesOk.updateMatrix (damped : Damped) (h : MatricesOk v) {ant : Ant Time}
    (spaced : Spaced ant) : Ensures (updateMatrix v ant) MatricesOk (fun _ => True) := by
  have hrecord : MatricesOk (recordAnt v ant) := { h with }
  have hget : ∀ {T : Type} (xs : List T) (i : ℤ), Ensures (antGet xs i)
      (fun x => 0 ≤ i ∧ xs[i.toNat]? = some x) (fun _ => True) :=
    fun xs i => (antGet_spec xs i).mono (fun _ h => h) fun _ _ => trivial
  unfold Control.updateMatrix
  refine Ensures.ite (fun _ => ?_) fun _ => trivial
  refine ensures_foldlM hrecord fun w i _ hw => ?_
  unfold updateRound
  refine (hget _ i).bind fun x _ => (hget _ (i - 1)).bind fun y _ => ?_
  refine (hget _ i).bind fun t ht => (hget _ (i - 1)).bind fun s hs => ?_
  refine hw.reinforced damped ?_
  have hindex : i.toNat = (i - 1).toNat + 1 := by omega
  rw [hindex] at ht
  obtain ⟨hlt, hget_t⟩ := List.getElem?_eq_some_iff.mp ht.2
  obtain ⟨hlt', hget_s⟩ := List.getElem?_eq_some_iff.mp hs.2
  have hchain := List.isChain_iff_getElem.mp spaced (i - 1).toNat hlt
  rw [hget_t, hget_s] at hchain
  linarith

theorem MatricesOk.pathToRsu (h : MatricesOk v) :
    Ensures (pathToRsu v) (fun r => r.2 = v) (fun _ => True) := by
  have hpath : ∀ (g : Grid (mJuncNum + 2) ℚ) (i : ℕ),
      Ensures (Dijkstra.dijkstraAlgorithm g i mRsujid) (fun _ => True) (fun _ => True) :=
    fun g i => (ensures_self _).mono (fun _ _ => trivial) fun _ _ => trivial
  unfold Forwarding.pathToRsu
  refine ((junction_spec _ _).mono (fun _ h => h) fun _ _ => trivial).bind fun c _ => ?_
  refine ((junction_spec _ _).mono (fun _ h => h) fun _ _ => trivial).bind fun n _ => ?_
  refine Ensures.ite (fun _ => (hpath _ _).bind fun path _ => rfl) fun _ => ?_
  refine ((ensures_self _).mono (fun _ h => h) fun _ _ => trivial).bind fun joined hjoined => ?_
  refine (hpath _ _).bind fun path _ => ?_
  rw [joinRoad_again hjoined]
  refine ((ensures_self _).mono (fun _ h => h) fun _ _ => trivial).bind fun w hw => ?_
  have hrestored := (joinRoad_inv hw).2
  rw [joinedGraph_infinite h.virtualRow h.virtualColumn] at hrestored
  exact hrestored

theorem MatricesOk.matrixStep (damped : Damped) (h : MatricesOk v) (act : MatrixAction)
    (spaced : SpacedAnts v act) : Ensures (matrixStep v act) MatricesOk (fun _ => True) := by
  cases act with
  | updateMatrix ant => exact h.updateMatrix damped spaced
  | evaporateExpire =>
    have hexpired : MatricesOk { v with evaporateTimer := none } := { h with }
    exact hexpired.evaporateExpire
  | pathToRsu =>
    refine h.pathToRsu.bind fun r hr => ?_
    obtain ⟨path, w⟩ := r
    have hsame : w = v := hr
    rw [hsame]
    exact h
  | observe w => exact { h with }

/-- From the start on, in every run with spaced ants, the matrices are consistent. -/
theorem matrices_consistent (damped : Damped) {v₀ start v : Vehicle}
    (roads : SymmetricRoads v₀.map) (init : doInitialize v₀ = .ok start)
    {acts : List MatrixAction} (spaced : Along matrixStep SpacedAnts start acts)
    (run : exec matrixStep start acts = .ok v) : Consistent v := by
  have keep : ∀ s act s', MatricesOk s → SpacedAnts s act → matrixStep s act = .ok s' →
      MatricesOk s' :=
        fun s act s' hs hspaced hstep => (hs.matrixStep damped act hspaced).of_ok hstep
  exact (exec_invariant keep (matricesOk_of_doInitialize roads init) spaced run).toConsistent

end Runs

/-! ## One road -/

def between (l : ℚ) : Vehicle := { approaching with
  map := (List.range mJuncNum).map fun (j : ℕ) => ⟨j * 1000, 0,
    if j = 44 then (∅ : Std.TreeMap ℕ ℚ).insert 45 l
    else if j = 45 then (∅ : Std.TreeMap ℕ ℚ).insert 44 l else ∅⟩ }

theorem between_road (l : ℚ) (i j : ℕ) : road (between l).map i j =
    if i = 44 ∧ j = 45 ∨ i = 45 ∧ j = 44 then some l else none := by
  simp only [road, between, List.getElem?_map]
  by_cases hi : i < mJuncNum
  · rw [List.getElem?_range hi]
    by_cases h44 : i = 44
    · simp [h44, Std.TreeMap.getElem?_insert, @eq_comm _ 45 j]
    · by_cases h45 : i = 45
      · simp [h45, Std.TreeMap.getElem?_insert, @eq_comm _ 44 j]
      · simp [h44, h45]
  · have hnone : (List.range mJuncNum)[i]? = none := by simpa using hi
    have hjunc : mJuncNum = 49 := rfl
    rw [hnone, if_neg (by omega)]
    rfl

theorem between_symmetric (l : ℚ) (i j : ℕ) :
    road (between l).map i j = road (between l).map j i := by
  rw [between_road, between_road]
  exact if_congr (by tauto) rfl rfl

theorem between_roads {l : ℚ} (nonneg : 0 ≤ l) : SymmetricRoads (between l).map := by
  refine ⟨between_symmetric l, fun i j l' hl' => ?_⟩
  rw [between_road] at hl'
  split at hl'
  · cases hl'
    exact nonneg
  · cases hl'

/-- An ant that was at junction 44 at one time and at junction 45 at another. -/
def crossed (seqNum : UInt16) (s t : Time) : Ant Time :=
  { approaching.staleMessage.ant with
    seqNum
    version := 1
    sequenceOfJunctions := [44, 45]
    sDelay := [s, t] }

theorem integralPlatform_damped : @Damped integralPlatform := by
  have hlow : -(29 / 200) * pi ≤ 0 := by norm_num [pi]
  have hhigh : 0 < 7 / 20 * pi := by norm_num [pi]
  exact fun _ _ _ => ⟨hlow, hhigh⟩

theorem matrices_consistent_crossed : ∃ start v, doInitialize (between 1000) = .ok start ∧
    exec (@matrixStep integralPlatform) start
      [.updateMatrix (crossed 1 0 1), .evaporateExpire, .pathToRsu] = .ok v ∧
      v.graph.cell 44 45 ≠ infinite ∧ Consistent v := by
  have hinit : Ensures (doInitialize (between 1000)) (fun start =>
      Along (@matrixStep integralPlatform) SpacedAnts start
        [.updateMatrix (crossed 1 0 1), .evaporateExpire, .pathToRsu] ∧
      Ensures (exec (@matrixStep integralPlatform) start
        [.updateMatrix (crossed 1 0 1), .evaporateExpire, .pathToRsu])
        (fun v => v.graph.cell 44 45 ≠ infinite) (fun _ => False)) (fun _ => False) := by
    decide +kernel
  obtain ⟨start, init, spaced, hrun⟩ := hinit.exists_ok
  obtain ⟨v, run, hfinite⟩ := hrun.exists_ok
  exact ⟨start, v, init, run, hfinite, @matrices_consistent integralPlatform
    integralPlatform_damped _ _ _ (between_roads (by norm_num)) init _ spaced run⟩

/-- An increasing function below a quarter of pi, but far below zero. -/
@[reducible] def lowered : Platform := { integralPlatform with atan := fun q => q - 3 }

@[reducible] def steep : Platform := { integralPlatform with atan := fun q => q * pi / 4 }

/-- Too little pheromone with the one function; with the other too much, by delays that
differ by milliseconds but go back; and a weight below a length that is negative. -/
theorem matrices_escape :
    ((∀ q r : ℚ, q < r → @Platform.atan lowered q < @Platform.atan lowered r) ∧
      (∀ q : ℚ, 0 < q → q ≤ 1 → @Platform.atan lowered q ≤ pi / 4) ∧
      SymmetricRoads (between 1000).map ∧
      Ensures (doInitialize (between 1000) >>= fun start =>
        exec (@matrixStep lowered) start [.updateMatrix (crossed 1 0 1)])
        (fun v => v.p.cell 44 45 < 1 / 10) (fun _ => False)) ∧
    ((∀ q r : ℚ, q < r → @Platform.atan steep q < @Platform.atan steep r) ∧
      (∀ q : ℚ, 0 < q → q ≤ 1 → 0 < @Platform.atan steep q ∧ @Platform.atan steep q ≤ pi / 4) ∧
      Ensures (doInitialize (between 1000) >>= fun start =>
        exec (@matrixStep steep) start
          [.updateMatrix (crossed 1 (1 / 100) 0), .updateMatrix (crossed 2 (1 / 1000) 0)])
        (fun v => 1 < v.p.cell 44 45) (fun _ => False)) ∧
    (∀ i j, road (between (-1)).map i j = road (between (-1)).map j i) ∧
      Ensures (doInitialize (between (-1)) >>= fun start =>
        exec (@matrixStep steep) start [.evaporateExpire])
        (fun v => v.graph.cell 44 45 < v.length.cell 44 45) (fun _ => False) := by
  have hpi : 0 < pi := by norm_num [pi]
  refine ⟨⟨fun q r h => ?_, fun q _ h => ?_, between_roads (by norm_num), by decide +kernel⟩,
    ⟨fun q r h => ?_, fun q pos h => ⟨?_, ?_⟩, by decide +kernel⟩, between_symmetric (-1),
    by decide +kernel⟩
  · exact sub_lt_sub_right h 3
  · have hlow : q - 3 ≤ pi / 4 := by linarith
    exact hlow
  · have hlt : q * pi / 4 < r * pi / 4 := by
      have hmul := mul_lt_mul_of_pos_right h hpi
      linarith
    exact hlt
  · have hpos : 0 < q * pi / 4 := by positivity
    exact hpos
  · have hle : q * pi / 4 ≤ pi / 4 := by
      have hmul := mul_le_mul_of_nonneg_right h hpi.le
      linarith
    exact hle

end Egsr.Grp.Pheromone
