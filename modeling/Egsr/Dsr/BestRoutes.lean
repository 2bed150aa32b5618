import Egsr.Dsr.NetGraph
import Egsr.Lib.Outcome
import Mathlib.Algebra.Order.Group.Nat
import Mathlib.Data.List.Induction

/-! The search for the best routes. Its labels are those of a search for shortest
paths: the source counts as settled from the start, and the round that selects it
changes nothing, since the labels begin with those of its neighbours. -/

namespace Egsr.Dsr.LinkCache

open Lib Lib.ShortestPath Lib.Outcome List Option OrderedMap

namespace Search

def dist (st : Search) (v : Ipv4Address) : ℕ := (st.d.find? v).getD mAXWEIGHT

def parent (st : Search) (v : Ipv4Address) : Option Ipv4Address :=
  (st.pre.find? v).filter (· ≠ broadcast)

def settled (source : Ipv4Address) (st : Search) : Set Ipv4Address :=
  {v | v = source ∨ (st.s.find? v).isSome}

def look (st : Search) (v : Ipv4Address) : Option ℕ × Option Ipv4Address :=
  (st.d.find? v, st.pre.find? v)

section Start

variable {g : NetGraph} {source : Ipv4Address}

theorem label_spec (g : NetGraph) (source : Ipv4Address) :
    let st := g.entries.foldl (label source) ⟨g, .empty, .empty, .empty, broadcast⟩
    (st.m_netGraph = g ∧ st.s = .empty) ∧
      (∀ v, st.d.find? v = (g.find? v).map fun m => (m.find? source).getD mAXWEIGHT) ∧
      ∀ v, st.pre.find? v = (g.find? v).map fun m => if (m.find? source).isSome then source
        else broadcast := by
  obtain ⟨inv, found, missing⟩ :=
    foldl_entries (label source) (fun st => st.m_netGraph = g ∧ st.s = .empty)
    look (fun i _ => (some ((i.2.find? source).getD mAXWEIGHT),
      some (if (i.2.find? source).isSome then source else broadcast))) g
    ⟨g, .empty, .empty, .empty, broadcast⟩ ⟨rfl, rfl⟩ fun st i _ hst => by
      rw [label]
      cases i.2.find? source with
      | none =>
        refine ⟨hst, fun k => ?_⟩
        simp only [look, find?_set]
        by_cases hk : k = i.1
        · rw [if_pos hk, if_pos hk, if_pos hk]
          rfl
        · rw [if_neg hk, if_neg hk, if_neg hk]
      | some w =>
        refine ⟨hst, fun k => ?_⟩
        simp only [look, find?_set]
        by_cases hk : k = i.1
        · rw [if_pos hk, if_pos hk, if_pos hk]
          rfl
        · rw [if_neg hk, if_neg hk, if_neg hk]
  refine ⟨inv, fun v => ?_, fun v => ?_⟩
  · cases hv : g.find? v with
    | none => exact congrArg Prod.fst (missing v hv)
    | some m => exact congrArg Prod.fst (found v m hv)
  · cases hv : g.find? v with
    | none => exact congrArg Prod.snd (missing v hv)
    | some m => exact congrArg Prod.snd (found v m hv)

theorem start_graph : (start g source).m_netGraph = g := (label_spec g source).1.1

theorem start_s : (start g source).s = .empty := (label_spec g source).1.2

theorem find?_start_d (v : Ipv4Address) : (start g source).d.find? v =
    if v = source then some 0 else (g.find? v).map fun m => (m.find? source).getD mAXWEIGHT := by
  rw [start]
  dsimp only
  rw [find?_set, (label_spec g source).2.1]

theorem find?_start_pre (v : Ipv4Address) : (start g source).pre.find? v =
    (g.find? v).map fun m => if (m.find? source).isSome then source else broadcast :=
  (label_spec g source).2.2 v

theorem dist_start (v : Ipv4Address) :
    (start g source).dist v = if v = source then 0 else (edge g v source).getD mAXWEIGHT := by
  rw [dist, find?_start_d, edge]
  split_ifs
  · rfl
  · cases g.find? v <;> rfl

theorem parent_start (hsource : source ≠ broadcast) (v : Ipv4Address) :
    (start g source).parent v = if (edge g v source).isSome then some source else none := by
  rw [parent, find?_start_pre, edge]
  cases g.find? v with
  | none => rfl
  | some m =>
    rw [map_some, bind_some]
    split_ifs
    · exact filter_some_pos (by simpa using hsource)
    · exact filter_some_neg (by simp)

end Start

theorem nearest_spec (s : OrderedMap Ipv4Address Bool) (r : ℕ × Ipv4Address)
    (l : List (Ipv4Address × ℕ)) : let r' := l.foldl (nearest s) r
    (r' = r ∧ ∀ j ∈ l, s.find? j.1 = none → r.1 < j.2) ∨
      (s.find? r'.2 = none ∧ (r'.2, r'.1) ∈ l ∧ ∀ j ∈ l, s.find? j.1 = none → r'.1 ≤ j.2) ∧
        r'.1 ≤ r.1 := by
  induction l using List.reverseRecOn with
  | nil => exact .inl ⟨rfl, fun j hj => absurd hj not_mem_nil⟩
  | append_singleton l j ih =>
    dsimp only at ih ⊢
    rw [foldl_append, foldl_cons, foldl_nil, nearest]
    generalize l.foldl (nearest s) r = r' at ih ⊢
    simp only [isNone_iff_eq_none]
    split_ifs with hj
    · right
      refine ⟨⟨hj.1, by simp, ?_⟩, ?_⟩
      · intro i hi hnone
        rcases mem_append.mp hi with hi | hi
        · rcases ih with ⟨rfl, far⟩ | ⟨⟨-, -, least⟩, -⟩
          · exact hj.2.trans (far i hi hnone).le
          · exact hj.2.trans (least i hi hnone)
        · rw [mem_singleton.mp hi]
      · rcases ih with ⟨rfl, -⟩ | ⟨-, le⟩
        · exact hj.2
        · exact hj.2.trans le
    · have away : s.find? j.1 = none → r'.1 < j.2 := fun hnone => not_le.mp fun le => hj ⟨hnone, le⟩
      rcases ih with ⟨rfl, far⟩ | ⟨⟨hnone, hmem, least⟩, le⟩
      · refine .inl ⟨rfl, fun i hi hnone => ?_⟩
        rcases mem_append.mp hi with hi | hi
        · exact far i hi hnone
        · exact mem_singleton.mp hi ▸ away (mem_singleton.mp hi ▸ hnone)
      · refine .inr ⟨⟨hnone, mem_append_left _ hmem, fun i hi hi' => ?_⟩, le⟩
        rcases mem_append.mp hi with hi | hi
        · exact least i hi hi'
        · exact (mem_singleton.mp hi ▸ away (mem_singleton.mp hi ▸ hi')).le

theorem select_spec {st : Search} (bounded : ∀ v x, st.d.find? v = some x → x ≤ mAXWEIGHT)
    {u : Ipv4Address} {y : ℕ} (hu : st.d.find? u = some y) (left : st.s.find? u = none) :
    st.s.find? st.select.tempip = none ∧ ∃ x, st.d.find? st.select.tempip = some x ∧
      ∀ v y, st.d.find? v = some y → st.s.find? v = none → x ≤ y := by
  rcases nearest_spec st.s (mAXWEIGHT, st.tempip)
    st.d.entries with ⟨-, far⟩ | ⟨⟨hnone, hmem, least⟩, -⟩
  · exact absurd (far (u, y) (find?_eq_some.mp hu) left) (not_lt.mpr (bounded u y hu))
  · exact ⟨hnone, _, find?_eq_some.mpr hmem, fun v y hv => least (v, y) (find?_eq_some.mp hv)⟩

/-! ## The neighbours of the node -/

def Improves (m_linkCache : OrderedMap Link ℤ) (s : OrderedMap Ipv4Address Bool) (t : Ipv4Address)
    (far : ℕ) (v : Ipv4Address) (x : Option ℕ × Option Ipv4Address) : Prop :=
  s.find? v = none ∧ far < x.1.getD 0 ∨
    x.1.getD 0 = far ∧ longer m_linkCache (.between v (x.2.getD unsetAddress)) (.between v t) = true
deriving Decidable

section Relax

variable {m_linkCache : OrderedMap Link ℤ} {st : Search} {k : Ipv4Address × ℕ}
    {v : Ipv4Address} {w : ℕ}

theorem relax_of_improves
    (h : Improves m_linkCache st.s st.tempip (st.distance st.tempip + k.2) k.1 (st.look k.1)) :
    st.relax m_linkCache k =
      { st with
        d := st.d.set k.1 (st.distance st.tempip + k.2)
        pre := st.pre.set k.1 st.tempip } := by
  rw [relax]
  rcases h with ⟨hnone, lt⟩ | ⟨heq, hlonger⟩
  · exact if_pos ⟨isNone_iff_eq_none.mpr hnone, lt⟩
  · rw [if_neg fun h => absurd heq h.2.ne']
    exact (if_pos heq).trans (if_pos hlonger)

theorem relax_of_not_improves
    (h : ¬ Improves m_linkCache st.s st.tempip (st.distance st.tempip + k.2) k.1 (st.look k.1)) :
    st.relax m_linkCache k = st := by
  obtain ⟨nearer, tie⟩ := not_or.mp h
  rw [relax, if_neg fun h => nearer ⟨isNone_iff_eq_none.mp h.1, h.2⟩]
  split_ifs with heq hlonger
  · exact absurd ⟨heq, hlonger⟩ tie
  · rfl
  · rfl

theorem look_relax : (st.relax m_linkCache k).look v = if v = k.1 then
    if Improves m_linkCache st.s st.tempip (st.distance st.tempip + k.2) k.1 (st.look v) then
      (some (st.distance st.tempip + k.2), some st.tempip) else st.look v
    else st.look v := by
  by_cases hv : v = k.1
  · subst hv
    rw [if_pos rfl]
    split_ifs with h
    · rw [relax_of_improves h]
      simp only [look, find?_set_self]
    · rw [relax_of_not_improves h]
  · rw [if_neg hv]
    by_cases h : Improves m_linkCache st.s st.tempip (st.distance st.tempip + k.2) k.1 (st.look k.1)
    · rw [relax_of_improves h]
      simp only [look, find?_set_of_ne hv]
    · rw [relax_of_not_improves h]

theorem relax_frame (m_linkCache : OrderedMap Link ℤ) (st : Search) (k : Ipv4Address × ℕ) :
    (st.relax m_linkCache k).s = st.s ∧ (st.relax m_linkCache k).m_netGraph = st.m_netGraph ∧
      (st.relax m_linkCache k).tempip = st.tempip := by
  by_cases h : Improves m_linkCache st.s st.tempip (st.distance st.tempip + k.2) k.1 (st.look k.1)
  · rw [relax_of_improves h]
    exact ⟨rfl, rfl, rfl⟩
  · rw [relax_of_not_improves h]
    exact ⟨rfl, rfl, rfl⟩

theorem not_improves_self (visited : (st.s.find? st.tempip).isSome) (hw : 0 < w) :
    ¬ Improves m_linkCache st.s st.tempip (st.distance st.tempip + w) st.tempip
    (st.look st.tempip) := by
  rintro (⟨hnone, -⟩ | ⟨heq, -⟩)
  · rw [hnone] at visited
    cases visited
  · have same : (st.look st.tempip).1.getD 0 = st.distance st.tempip := rfl
    omega

theorem look_relax_self (visited : (st.s.find? st.tempip).isSome)
    (positive : k.1 = st.tempip → 0 < k.2) :
    (st.relax m_linkCache k).look st.tempip = st.look st.tempip := by
  rw [look_relax]
  split_ifs with heq h
  · rw [← heq] at h
    exact absurd h (not_improves_self visited (positive heq.symm))
  · rfl
  · rfl

variable (m_linkCache) in
theorem relax_all (visited : (st.s.find? st.tempip).isSome)
    (positive : ∀ w, edge st.m_netGraph st.tempip st.tempip = some w → 0 < w) :
    let st' := ((st.m_netGraph.find? st.tempip).getD .empty).entries.foldl (relax m_linkCache) st
    (st'.s = st.s ∧ st'.m_netGraph = st.m_netGraph) ∧
      ∀ v, st'.look v = (edge st.m_netGraph st.tempip v).elim (st.look v) fun w =>
        if Improves m_linkCache st.s st.tempip (st.distance st.tempip + w) v (st.look v) then
          (some (st.distance st.tempip + w), some st.tempip) else st.look v := by
  have neighbour : ∀ v, ((st.m_netGraph.find? st.tempip).getD .empty).find? v =
      edge st.m_netGraph st.tempip v := by
    intro v
    rw [edge]
    cases st.m_netGraph.find? st.tempip <;> rfl
  obtain ⟨inv, found, missing⟩ := foldl_entries (relax m_linkCache)
    (fun st' => (st'.s = st.s ∧ st'.m_netGraph = st.m_netGraph) ∧ st'.tempip = st.tempip ∧
      st'.distance st.tempip = st.distance st.tempip) look
    (fun k x => if Improves m_linkCache st.s st.tempip (st.distance st.tempip + k.2) k.1 x then
      (some (st.distance st.tempip + k.2), some st.tempip) else x)
    ((st.m_netGraph.find? st.tempip).getD .empty) st ⟨⟨rfl, rfl⟩, rfl, rfl⟩ fun st' k hk hst' => by
      obtain ⟨⟨hs, hgraph⟩, htempip, hdist⟩ := hst'
      have road : edge st.m_netGraph st.tempip k.1 = some k.2 := by
        rw [← neighbour]
        exact find?_eq_some.mpr hk
      obtain ⟨same_s, same_graph, same_tempip⟩ := relax_frame m_linkCache st' k
      refine ⟨⟨⟨same_s.trans hs, same_graph.trans hgraph⟩, same_tempip.trans htempip, ?_⟩,
        fun v => ?_⟩
      · have self : (st'.relax m_linkCache k).look st'.tempip = st'.look st'.tempip := by
          refine look_relax_self (by rwa [hs, htempip]) fun heq => positive k.2 ?_
          rw [← road, heq, htempip]
        rw [← hdist, ← htempip]
        exact congrArg (fun x => x.1.getD 0) self
      · rw [look_relax, hs, htempip, hdist]
  refine ⟨inv.1, fun v => ?_⟩
  cases hv : edge st.m_netGraph st.tempip v with
  | none => exact missing v ((neighbour v).trans hv)
  | some w => exact found v w ((neighbour v).trans hv)

def visit (st : Search) (t : Ipv4Address) : Search :=
  { st with s := st.s.set t true, m_netGraph := st.m_netGraph.add t .empty, tempip := t }

variable (m_linkCache) in
theorem round_eq (ne : st.select.tempip ≠ broadcast) : st.round m_linkCache =
    (((st.visit st.select.tempip).m_netGraph.find? st.select.tempip).getD .empty).entries.foldl
    (relax m_linkCache)
      (st.visit st.select.tempip) := if_pos ne

variable (m_linkCache) in
theorem round_spec (ne : st.select.tempip ≠ broadcast)
    (positive : ∀ w, edge st.m_netGraph st.select.tempip st.select.tempip = some w → 0 < w) :
    ((st.round m_linkCache).s = st.s.set st.select.tempip true ∧
      (st.round m_linkCache).m_netGraph = st.m_netGraph.add st.select.tempip .empty) ∧
      ∀ v, (st.round m_linkCache).look v =
      (edge st.m_netGraph st.select.tempip v).elim (st.look v) fun w =>
        if Improves m_linkCache (st.s.set st.select.tempip true) st.select.tempip
          (st.distance st.select.tempip + w) v (st.look v)
        then (some (st.distance st.select.tempip + w), some st.select.tempip) else st.look v := by
  rw [round_eq m_linkCache ne]
  generalize st.select.tempip = t at positive ⊢
  have visited : ((st.visit t).s.find? (st.visit t).tempip).isSome := by
    rw [visit, find?_set_self]
    rfl
  obtain ⟨frame, hlook⟩ :=
    relax_all m_linkCache visited fun w hw => positive w (edge_add_empty.symm.trans hw)
  refine ⟨frame, fun v => (hlook v).trans ?_⟩
  rw [show edge (st.visit t).m_netGraph (st.visit t).tempip v =
    edge st.m_netGraph t v from edge_add_empty]
  rfl

end Relax

/-! ## The rounds -/

structure Searching (g : NetGraph) (source : Ipv4Address) (st : Search) : Prop where
  graph : ∀ a b, edge st.m_netGraph a b = edge g a b
  nodes : ∀ v, (st.m_netGraph.find? v).isSome ↔ (g.find? v).isSome ∨ v = source ∧
    (st.s.find? v).isSome
  labels : ∀ v, (st.d.find? v).isSome ↔ (g.find? v).isSome ∨ v = source
  parents : ∀ v, (st.pre.find? v).isSome ↔ (g.find? v).isSome
  visited : ∀ v, (st.s.find? v).isSome → (st.d.find? v).isSome
  first : (st.s.find? source).isSome ∨ ∀ v, st.s.find? v = none
  marked : ∀ v u, st.parent v = some u → st.dist v < mAXWEIGHT
  labelled : Labelled (edge g) mAXWEIGHT source (st.settled source) st.dist st.parent

section Rounds

variable {g : NetGraph} {source t v : Ipv4Address} {m_linkCache : OrderedMap Link ℤ} {st : Search}

theorem searching_start (roads : Roads g) (hsource : source ≠ broadcast) : Searching g source
    (start g source) where
  graph a b := by rw [start_graph]
  nodes v := by simp [start_graph, start_s]
  labels v := by
    rw [find?_start_d]
    split_ifs with hv <;> simp [hv]
  parents v := by rw [find?_start_pre, isSome_map]
  visited v hv := by
    rw [start_s] at hv
    cases hv
  first := .inr fun v => by rw [start_s]; rfl
  marked v u hv := by
    rw [parent_start hsource] at hv
    rw [dist_start]
    split_ifs at hv with hedge
    obtain ⟨w, hw⟩ := isSome_iff_exists.mp hedge
    rw [hw, roads.weight hw]
    split_ifs <;> decide
  labelled := by
    have settled : (start g source).settled source = {source} := by
      ext v
      simp [Search.settled, start_s]
    have near : ∀ v, v ≠ source → (start g source).dist v < mAXWEIGHT →
        edge g v source = some 1 := by
      intro v hv hlt
      rw [dist_start, if_neg hv] at hlt
      cases hw : edge g v source with
      | none =>
        rw [hw] at hlt
        exact absurd hlt (lt_irrefl _)
      | some w => rw [roads.weight hw]
    rw [settled]
    constructor
    · rw [dist_start, if_pos rfl]
    · exact fun v => Nat.zero_le _
    · intro v
      rw [dist_start]
      split_ifs
      · exact Nat.zero_le _
      · cases hw : edge g v source with
        | none => exact le_rfl
        | some w =>
          rw [roads.weight hw]
          decide
    · intro v hv
      by_cases heq : v = source
      · subst heq
        refine ⟨[], .source, ?_⟩
        rw [dist_start, if_pos rfl]
        exact .nil v
      · have road := near v heq hv
        refine ⟨[v], .step heq ?_ (Set.mem_singleton source) .source, ?_⟩
        · rw [parent_start hsource, road]
          rfl
        · rw [dist_start, if_neg heq, road]
          exact .cons (roads.symm road) (.nil v)
    · rintro u rfl v w hw
      rw [roads.weight hw, dist_start, dist_start, if_pos rfl, roads.symm hw, roads.weight hw]
      split_ifs <;> decide
    · rintro u rfl v -
      rw [dist_start, if_pos rfl]
      exact Nat.zero_le _

theorem longer_self (m_linkCache : OrderedMap Link ℤ) (link : Link) :
    longer m_linkCache link link = false := by
  rw [longer]
  cases m_linkCache.find? link with
  | none => rfl
  | some t => exact decide_eq_false (lt_irrefl t)

theorem isSome_of_longer {oldlink newlink : Link} (h : longer m_linkCache oldlink newlink = true) :
    (m_linkCache.find? oldlink).isSome := by
  rw [longer] at h
  cases hold : m_linkCache.find? oldlink with
  | none =>
    rw [hold] at h
    cases h
  | some t => rfl

theorem Searching.neighbour (h : Searching g source st) (roads : Roads g)
    (road : edge g t v = some 1) :
    (st.look v).1.getD 0 = st.dist v ∧ st.pre.find? v = some ((st.look v).2.getD unsetAddress) := by
  have node := isSome_of_edge (roads.symm road)
  obtain ⟨y, hy⟩ := isSome_iff_exists.mp ((h.labels v).mpr (.inl node))
  obtain ⟨u, hu⟩ := isSome_iff_exists.mp ((h.parents v).mpr node)
  constructor
  · rw [look, dist, hy]
    rfl
  · rw [look, hu]
    rfl

theorem Searching.not_improves_first (h : Searching g source st) (roads : Roads g)
    (none : ∀ v, st.s.find? v = none) (road : edge g source v = some 1) :
    ¬ Improves m_linkCache (st.s.set source true) source (st.dist source + 1) v (st.look v) := by
  obtain ⟨hdist, hpre⟩ := h.neighbour roads road
  have le := h.labelled.relaxed source (.inl rfl) v 1 road
  rw [Improves, hdist]
  rintro (⟨-, lt⟩ | ⟨heq, hlonger⟩)
  · omega
  · rw [h.labelled.source] at heq
    obtain ⟨p, back, -⟩ := h.labelled.reached v (by rw [heq]; decide)
    cases back with
    | source => rw [h.labelled.source] at heq; omega
    | @step u _ p ne up mem rest =>
      have hu : u = source := mem.resolve_right fun some => by
        rw [none u] at some
        cases some
      rw [hu, parent, hpre] at up
      have before := (filter_eq_some_iff.mp up).1
      rw [Option.some.inj before, longer_self] at hlonger
      cases hlonger

theorem Searching.improves (h : Searching g source st) (roads : Roads g)
    (hcache : ∀ v, m_linkCache.find? (.between v broadcast) = none)
    (visited : (st.s.find? source).isSome) (ht : t ∉ st.settled source) (road : edge g t v = some 1)
    (better : Improves m_linkCache (st.s.set t true) t (st.dist t + 1) v (st.look v)) :
    st.dist t + 1 ≤ st.dist v ∧ v ∉ insert t (st.settled source) ∧ st.dist t + 1 < mAXWEIGHT := by
  obtain ⟨hdist, hpre⟩ := h.neighbour roads road
  rw [Improves, hdist] at better
  rcases better with ⟨hnone, lt⟩ | ⟨heq, hlonger⟩
  · rw [find?_set] at hnone
    split_ifs at hnone with hv
    refine ⟨lt.le, ?_, lt.trans_le (h.labelled.bounded v)⟩
    rintro (heq | rfl | some)
    · exact hv heq
    · rw [hnone] at visited
      cases visited
    · rw [hnone] at some
      cases some
  · refine ⟨heq.ge, ?_, ?_⟩
    · rintro (rfl | mem)
      · omega
      · have le := h.labelled.ordered v mem t ht
        omega
    · rw [← heq]
      refine h.marked v ((st.look v).2.getD unsetAddress) ?_
      rw [parent, hpre]
      refine filter_some_pos (decide_eq_true fun mark => ?_)
      rw [mark] at hlonger
      have absent := isSome_of_longer hlonger
      rw [hcache v] at absent
      cases absent

structure Visited (m_linkCache : OrderedMap Link ℤ) (g : NetGraph) (t : Ipv4Address)
    (st st' : Search) : Prop where
  s : st'.s = st.s.set t true
  graph : st'.m_netGraph = st.m_netGraph.add t .empty
  look : ∀ v, st'.look v = st.look v ∨ edge g t v = some 1 ∧
    st'.look v = (some (st.dist t + 1), some t) ∧
    Improves m_linkCache (st.s.set t true) t (st.dist t + 1) v (st.look v)
  improved : ∀ v, edge g t v = some 1 →
    Improves m_linkCache (st.s.set t true) t (st.dist t + 1) v (st.look v) →
      st'.look v = (some (st.dist t + 1), some t)

theorem Searching.visits (m_linkCache : OrderedMap Link ℤ) (h : Searching g source st)
    (roads : Roads g) (hsource : source ≠ broadcast)
    (hv : (st.d.find? v).isSome) (left : st.s.find? v = none) :
    ∃ t, (st.d.find? t).isSome ∧ st.s.find? t = none ∧
      (∀ u, (st.d.find? u).isSome → st.s.find? u = none → st.dist t ≤ st.dist u) ∧
      Visited m_linkCache g t st (st.round m_linkCache) := by
  obtain ⟨y, hy⟩ := isSome_iff_exists.mp hv
  have bounded : ∀ v x, st.d.find? v = some x → x ≤ mAXWEIGHT := by
    intro v x hx
    have le := h.labelled.bounded v
    rwa [dist, hx] at le
  obtain ⟨hnone, x, hx, least⟩ := select_spec bounded hy left
  set t := st.select.tempip with ht
  have hdist : st.distance t = st.dist t := by rw [distance, dist, hx]; rfl
  have ne : t ≠ broadcast := by
    rcases (h.labels t).mp (isSome_of_mem hx) with node | heq
    · exact roads.node node
    · exact heq ▸ hsource
  refine ⟨t, isSome_of_mem hx, hnone, fun u hu hleft => ?_, ?_⟩
  · obtain ⟨y, hy⟩ := isSome_iff_exists.mp hu
    rw [dist, dist, hx, hy]
    exact least u y hy hleft
  · obtain ⟨⟨same_s, same_graph⟩, hlook⟩ := round_spec m_linkCache ne fun w hw => by
      rw [h.graph] at hw
      rw [roads.weight hw]
      exact Nat.one_pos
    rw [← ht] at hlook same_s same_graph
    have found : ∀ u, (st.round m_linkCache).look u = (edge g t u).elim (st.look u) fun w =>
        if Improves m_linkCache (st.s.set t true) t (st.dist t + w) u (st.look u)
        then (some (st.dist t + w), some t) else st.look u := by
      intro u
      rw [hlook, h.graph, hdist]
    refine ⟨same_s, same_graph, fun u => ?_, fun u hu better => ?_⟩
    · cases hu : edge g t u with
      | none => exact .inl (by rw [found, hu]; rfl)
      | some w =>
        cases roads.weight hu
        by_cases better : Improves m_linkCache (st.s.set t true) t (st.dist t + 1) u (st.look u)
        · refine .inr ⟨rfl, ?_, better⟩
          rw [found, hu]
          exact if_pos better
        · left
          rw [found, hu]
          exact if_neg better
    · rw [found, hu]
      exact if_pos better

theorem dist_eq_look (st : Search) (v : Ipv4Address) : st.dist v = (st.look v).1.getD mAXWEIGHT :=
  rfl

theorem parent_eq_look (st : Search) (v : Ipv4Address) : st.parent v =
    (st.look v).2.filter (· ≠ broadcast) := rfl

section Step

variable {st' : Search} (h : Searching g source st) (visited : Visited m_linkCache g t st st')

include h visited

theorem Searching.first_round (roads : Roads g) (none : ∀ v, st.s.find? v = none)
    (least : st.dist t ≤ st.dist source) : t = source ∧ ∀ v, st'.look v = st.look v := by
  have heq : t = source := by
    rw [h.labelled.source] at least
    have zero : st.dist t = 0 := Nat.le_zero.mp least
    obtain ⟨p, -, walk⟩ := h.labelled.reached t (by rw [zero]; decide)
    have hp := roads.walk_cost walk
    rw [zero] at hp
    rw [length_eq_zero_iff.mp hp.symm] at walk
    exact eq_of_walk_nil walk
  subst heq
  refine ⟨rfl, fun v => (visited.look v).resolve_right fun hnew => ?_⟩
  exact h.not_improves_first roads none hnew.1 hnew.2.2

theorem Searching.later_round (roads : Roads g)
    (hcache : ∀ v, m_linkCache.find? (.between v broadcast) = none)
    (hsource : (st.s.find? source).isSome) (ht : t ≠ broadcast) (hnone : t ∉ st.settled source)
    (least : ∀ u, u ∉ st.settled source → st.dist t ≤ st.dist u) :
    Labelled (edge g) mAXWEIGHT source (insert t (st.settled source)) st'.dist st'.parent := by
  refine h.labelled.settle hnone least (fun _ _ _ => Nat.zero_le _) (fun v => ?_) fun v w hw => ?_
  · rcases visited.look v with same | ⟨road, hnew, better⟩
    · exact .inl ⟨by rw [dist_eq_look, same, dist_eq_look], by
        rw [parent_eq_look, same, parent_eq_look]⟩
    · right
      obtain ⟨le, unsettled, -⟩ := h.improves roads hcache hsource hnone road better
      have hdist : st'.dist v = st.dist t + 1 := by rw [dist_eq_look, hnew]; rfl
      refine ⟨⟨1, road, hdist⟩, hdist.trans_le le, ?_, unsettled, fun heq =>
        unsettled (.inr (.inl heq))⟩
      rw [parent_eq_look, hnew]
      exact filter_some_pos (decide_eq_true ht)
  · cases roads.weight hw
    by_cases better : Improves m_linkCache (st.s.set t true) t (st.dist t + 1) v (st.look v)
    · rw [dist_eq_look, visited.improved v hw better]
      rfl
    · have same : st'.look v = st.look v :=
        (visited.look v).resolve_right fun hnew => better hnew.2.2
      rw [dist_eq_look, same, ← dist_eq_look]
      by_contra far
      by_cases mem : v ∈ insert t (st.settled source)
      · rcases mem with rfl | mem
        · exact far (Nat.le_succ _)
        · exact far ((h.labelled.ordered v mem t hnone).trans (Nat.le_succ _))
      · have left : (st.s.set t true).find? v = none := by
          rw [find?_set_of_ne fun heq => mem (.inl heq)]
          exact not_isSome_iff_eq_none.mp fun some => mem (.inr (.inr some))
        refine better (.inl ⟨left, ?_⟩)
        rw [(h.neighbour roads hw).1]
        exact not_le.mp far

omit h in
theorem settled_visited : st'.settled source = insert t (st.settled source) := by
  ext v
  change v = source ∨ (st'.s.find? v).isSome ↔ v = t ∨ v = source ∨ (st.s.find? v).isSome
  rw [visited.s, isSome_find?_set, or_left_comm]

theorem Searching.visit (roads : Roads g)
    (hcache : ∀ v, m_linkCache.find? (.between v broadcast) = none)
    (ht : (st.d.find? t).isSome) (hne : t ≠ broadcast) (hnone : st.s.find? t = none)
    (least : ∀ u, (st.d.find? u).isSome → st.s.find? u = none → st.dist t ≤ st.dist u) :
      Searching g source st' := by
  have keys : ∀ v, ((st'.d.find? v).isSome ↔ (st.d.find? v).isSome) ∧
      ((st'.pre.find? v).isSome ↔ (st.pre.find? v).isSome) := by
    intro v
    rcases visited.look v with same | ⟨road, hnew, -⟩
    · exact ⟨iff_of_eq (congrArg (fun x => x.1.isSome = true) same),
        iff_of_eq (congrArg (fun x => x.2.isSome = true) same)⟩
    · have node := isSome_of_edge (roads.symm road)
      have hd : st'.d.find? v = some (st.dist t + 1) := congrArg Prod.fst hnew
      have hpre : st'.pre.find? v = some t := congrArg Prod.snd hnew
      rw [hd, hpre]
      exact ⟨iff_of_true rfl ((h.labels v).mpr (.inl node)),
        iff_of_true rfl ((h.parents v).mpr node)⟩
  have labelled : (st'.s.find? source).isSome ∧
    (∀ v u, st'.parent v = some u → st'.dist v < mAXWEIGHT) ∧
      Labelled (edge g) mAXWEIGHT source (st'.settled source) st'.dist st'.parent := by
    rw [settled_visited visited]
    rcases h.first with hsource | none
    · have unsettled : t ∉ st.settled source := by
        rintro (rfl | some)
        · rw [hnone] at hsource
          cases hsource
        · rw [hnone] at some
          cases some
      have nearest : ∀ u, u ∉ st.settled source → st.dist t ≤ st.dist u := by
        intro u hu
        by_cases hd : (st.d.find? u).isSome
        · exact least u hd (not_isSome_iff_eq_none.mp fun some => hu (.inr some))
        · rw [dist, dist, not_isSome_iff_eq_none.mp hd]
          exact h.labelled.bounded t
      refine ⟨?_, fun v u hv =>
        ?_, h.later_round visited roads hcache hsource hne unsettled nearest⟩
      · rw [visited.s, isSome_find?_set]
        exact .inr hsource
      · rcases visited.look v with same | ⟨road, hnew, better⟩
        · rw [parent_eq_look, same] at hv
          rw [dist_eq_look, same]
          exact h.marked v u hv
        · rw [dist_eq_look, hnew]
          exact (h.improves roads hcache hsource unsettled road better).2.2
    · obtain ⟨rfl, same⟩ :=
        h.first_round visited roads
          none (least source ((h.labels source).mpr (.inr rfl)) (none source))
      have same_dist : st'.dist = st.dist := funext fun v => by
        rw [dist_eq_look, same, dist_eq_look]
      have same_parent : st'.parent = st.parent := funext fun v => by
        rw [parent_eq_look, same, parent_eq_look]
      rw [same_dist, same_parent, Set.insert_eq_of_mem (.inl rfl)]
      refine ⟨?_, h.marked, h.labelled⟩
      rw [visited.s, find?_set_self]
      rfl
  refine ⟨fun a b => ?_, fun v => ?_, fun v => (keys v).1.trans (h.labels v), fun v =>
    (keys v).2.trans (h.parents v),
    fun v hv => ?_, .inl labelled.1, labelled.2.1, labelled.2.2⟩
  · rw [visited.graph, edge_add_empty, h.graph]
  · have node := (h.labels t).mp ht
    rw [visited.graph, isSome_find?_add, visited.s, isSome_find?_set, Bool.or_eq_true,
      decide_eq_true_iff, h.nodes]
    by_cases heq : v = t
    · subst heq
      tauto
    · simp only [heq, false_or]
  · rw [visited.s, isSome_find?_set] at hv
    rw [(keys v).1]
    rcases hv with rfl | hv
    · exact ht
    · exact h.visited v hv

end Step

section

variable (h : Searching g source st)

include h

theorem Searching.round (roads : Roads g) (hsource : source ≠ broadcast)
    (hcache : ∀ v, m_linkCache.find? (.between v broadcast) = none)
    (hv : (st.d.find? v).isSome) (left : st.s.find? v = none) :
    Searching g source (st.round m_linkCache) ∧
    (st.round m_linkCache).s.entries.length = st.s.entries.length + 1 := by
  obtain ⟨t, ht, hnone, least, visited⟩ := h.visits m_linkCache roads hsource hv left
  have hne : t ≠ broadcast := by
    rcases (h.labels t).mp ht with node | heq
    · exact roads.node node
    · exact heq ▸ hsource
  refine ⟨h.visit visited roads hcache ht hne hnone least, ?_⟩
  rw [visited.s, length_entries_set hnone]

theorem Searching.exists_left (more : st.s.entries.length < st.m_netGraph.entries.length) :
    ∃ v, (st.d.find? v).isSome ∧ st.s.find? v = none := by
  by_contra none
  have inside : ∀ v, (st.m_netGraph.find? v).isSome → (st.s.find? v).isSome := by
    intro v hv
    by_contra hnone
    exact none ⟨v, (h.labels v).mpr (((h.nodes v).mp hv).imp id And.left),
      not_isSome_iff_eq_none.mp hnone⟩
  exact absurd (length_entries_le inside) (not_le.mpr more)

theorem Searching.all_settled (last : ¬ st.s.entries.length < st.m_netGraph.entries.length)
    (hv : (st.d.find? v).isSome) : v ∈ st.settled source := by
  have inside : ∀ u, (st.s.find? u).isSome → (st.m_netGraph.find? u).isSome := by
    intro u hu
    rw [h.nodes]
    exact ((h.labels u).mp (h.visited u hu)).imp id fun heq => ⟨heq, hu⟩
  rcases (h.labels v).mp hv with node | heq
  · exact .inr (isSome_of_length_le inside (not_lt.mp last) ((h.nodes v).mpr (.inl node)))
  · exact .inl heq

theorem Searching.length_le : st.m_netGraph.entries.length ≤ g.entries.length + 1 := by
  refine le_trans (length_entries_le fun v hv => ?_) (length_entries_set_le g source .empty)
  rw [isSome_find?_set, or_comm]
  exact ((h.nodes v).mp hv).imp id And.left

theorem Searching.rounds (roads : Roads g) (hsource : source ≠ broadcast)
    (hcache : ∀ v, m_linkCache.find? (.between v broadcast) = none) {fuel : ℕ}
    (enough : g.entries.length + 1 ≤ st.s.entries.length + fuel) :
    ∃ st', rounds m_linkCache fuel st.s.entries.length st = .ok st' ∧ Searching g source st' ∧
      ∀ v, (st'.d.find? v).isSome → v ∈ st'.settled source := by
  induction fuel generalizing st with
  | zero =>
    have last : ¬ st.s.entries.length < st.m_netGraph.entries.length := by
      have le := h.length_le
      omega
    refine ⟨st, ?_, h, fun v => h.all_settled last⟩
    rw [Search.rounds, if_neg last]
    rfl
  | succ fuel ih =>
    by_cases more : st.s.entries.length < st.m_netGraph.entries.length
    · obtain ⟨v, hv, left⟩ := h.exists_left more
      obtain ⟨next, size⟩ := h.round roads hsource hcache hv left
      rw [Search.rounds, if_pos more, ← size]
      exact ih next (by omega)
    · refine ⟨st, ?_, h, fun v => h.all_settled more⟩
      rw [Search.rounds, if_neg more]
      rfl

end

end Rounds

section Table

variable {source v : Ipv4Address} {st : Search} {settled : Set Ipv4Address} {p : List Ipv4Address}
    {fuel : ℕ}

theorem parent_eq_some {u : Ipv4Address} : st.parent v = some u ↔ st.pre.find? v = some u ∧
    u ≠ broadcast := by
  rw [parent, filter_eq_some_iff, decide_eq_true_iff]

theorem wayBack_eq (back : Back settled st.parent source v p) (enough : p.length ≤ fuel) :
    wayBack st.pre source fuel v = .ok (source :: p).reverse := by
  induction back generalizing fuel with
  | source =>
    unfold wayBack
    exact if_pos rfl
  | @step u v p ne up mem rest ih =>
    rw [length_append, length_singleton] at enough
    cases fuel with
    | zero => exact absurd enough (Nat.not_succ_le_zero _)
    | succ fuel =>
      rw [wayBack, if_neg ne, (parent_eq_some.mp up).1, getD_some,
        ih (Nat.le_of_succ_le_succ enough)]
      simp [Except.map]

theorem length_le_of_back (back : Back settled st.parent source v p) : p.length ≤
    st.pre.entries.length := by
  have sub : p ⊆ st.pre.keys := by
    intro x hx
    obtain ⟨q, r, -, hq, part⟩ := back.part hx
    rw [OrderedMap.mem_keys]
    cases part with
    | source => exact absurd rfl hq
    | step _ up => exact isSome_of_mem (parent_eq_some.mp up).1
  have le := (back.nodup.subperm sub).length_le
  rwa [OrderedMap.keys, length_map] at le

theorem table_spec
    (ways : ∀ v u, st.parent v = some u → v ≠ source → ∃ p, Back settled st.parent source v p) :
    ∃ table, st.pre.entries.foldlM (addBest st.pre source) .empty = .ok table ∧ ∀ v route,
      table.find? v = some route ↔ v ≠ source ∧ ∃ p, Back settled st.parent source v p ∧
        route = source :: p := by
  have choice : ∀ v, ∃ p, ∀ u, st.parent v = some u → v ≠ source →
      Back settled st.parent source v p := by
    intro v
    by_cases hv : ∃ u, st.parent v = some u ∧ v ≠ source
    · obtain ⟨u, up, ne⟩ := hv
      obtain ⟨p, back⟩ := ways v u up ne
      exact ⟨p, fun _ _ _ => back⟩
    · exact ⟨[], fun u up ne => absurd ⟨u, up, ne⟩ hv⟩
  choose route hroute using choice
  have pure_step : ∀ table, ∀ i ∈ st.pre.entries, addBest st.pre source table i =
      pure (if i.2 ≠ broadcast ∧ i.1 ≠ source then table.set i.1 (source :: route i.1)
        else table) := by
    intro table i hi
    rw [addBest]
    split_ifs with hcond
    · have up : st.parent i.1 = some i.2 := parent_eq_some.mpr ⟨find?_eq_some.mpr hi, hcond.1⟩
      have back := hroute i.1 i.2 up hcond.2
      rw [wayBack_eq back (length_le_of_back back)]
      exact congrArg (fun r => Except.ok (table.set i.1 r)) (reverse_reverse _)
    · rfl
  have run := foldlM_pure (fun _ => True) (b := .empty) trivial fun table _ i hi =>
    ⟨pure_step table i hi, trivial⟩
  obtain ⟨-, found, missing⟩ := foldl_entries
    (fun table (i : Ipv4Address × Ipv4Address) => if i.2 ≠ broadcast ∧
      i.1 ≠ source then table.set i.1 (source :: route i.1) else table)
    (fun _ => True) find?
    (fun i x => if i.2 ≠ broadcast ∧ i.1 ≠ source then some (source :: route i.1)
      else x) st.pre .empty trivial
    fun table i _ _ => ⟨trivial, fun v => by
      split_ifs with hcond hv hv
      · rw [hv, find?_set_self]
      · rw [find?_set_of_ne hv]
      · rfl
      · rfl⟩
  refine ⟨_, run, fun v r => ⟨fun hr => ?_, ?_⟩⟩
  · cases hv : st.pre.find? v with
    | none =>
      rw [missing v hv] at hr
      cases hr
    | some u =>
      rw [found v u hv] at hr
      split_ifs at hr with hcond
      · exact ⟨hcond.2, route v, hroute v u (parent_eq_some.mpr ⟨hv, hcond.1⟩) hcond.2,
          (Option.some.inj hr).symm⟩
      · cases hr
  · rintro ⟨hv, p, back, rfl⟩
    cases back with
    | source => exact absurd rfl hv
    | @step u _ p ne up mem rest =>
      obtain ⟨hu, hmark⟩ := parent_eq_some.mp up
      rw [found v u hu, if_pos ⟨hmark, hv⟩, (hroute v u up hv).unique (.step ne up mem rest)]

end Table

/-! ## After the search -/

section Result

variable {g : NetGraph} {source u v : Ipv4Address} {st : Search} {p : List Ipv4Address} {c : ℕ}

structure Finished (g : NetGraph) (source : Ipv4Address) (st : Search) :
    Prop extends Searching g source st where
  all : ∀ v, (st.d.find? v).isSome → v ∈ st.settled source

theorem Finished.le_cost (h : Finished g source st) (walk : Walk (edge g) source p v c) :
    st.dist v ≤ c := by
  refine h.labelled.le_cost Roads.nonneg (fun u hu => ?_) walk
  have none : st.d.find? u = none := not_isSome_iff_eq_none.mp fun some => hu (h.all u some)
  rw [dist, dist, none]
  exact h.labelled.bounded v

theorem Searching.marked_of_back (h : Searching g source st)
    (back : Back (st.settled source) st.parent source v p) (ne : v ≠ source) :
    st.dist v < mAXWEIGHT := by
  cases back with
  | source => exact absurd rfl ne
  | step _ up => exact h.marked v _ up

theorem Searching.on_way (h : Searching g source st)
    (back : Back (st.settled source) st.parent source v p) {x : Ipv4Address}
    (hx : x ∈ p) : x ≠ source ∧ st.dist x < mAXWEIGHT ∧ (g.find? x).isSome := by
  have ne := back.ne_source x hx
  obtain ⟨q, r, -, -, part⟩ := back.part hx
  refine ⟨ne, h.marked_of_back part ne, ?_⟩
  cases part with
  | source => exact absurd rfl ne
  | step _ up => exact (h.parents x).mp (isSome_of_mem (parent_eq_some.mp up).1)

theorem exists_border (walk : Walk (edge g) u p v c) (near : st.dist u < mAXWEIGHT)
    (far : mAXWEIGHT ≤ st.dist v) :
    ∃ a b w, edge g a b = some w ∧ st.dist a < mAXWEIGHT ∧ mAXWEIGHT ≤ st.dist b := by
  induction walk with
  | nil => exact absurd near (not_lt.mpr far)
  | @cons u x t p w c road _ ih =>
    by_cases hx : st.dist x < mAXWEIGHT
    · exact ih hx far
    · exact ⟨u, x, w, road, near, not_lt.mp hx⟩

theorem Finished.near (h : Finished g source st) (roads : Roads g)
    (few : st.m_netGraph.entries.length ≤ mAXWEIGHT)
    (walk : Walk (edge g) source p v c) : st.dist v < mAXWEIGHT := by
  by_contra far
  have zero : st.dist source < mAXWEIGHT := by
    rw [h.labelled.source]
    decide
  obtain ⟨a, b, w, road, ha, hb⟩ := exists_border walk zero (not_lt.mp far)
  have mem : a ∈ st.settled source := by
    by_contra hnot
    have none : st.d.find? a = none := not_isSome_iff_eq_none.mp fun some => hnot (h.all a some)
    rw [dist, none] at ha
    exact absurd ha (lt_irrefl _)
  have step := h.labelled.relaxed a mem b w road
  rw [roads.weight road] at step
  obtain ⟨q, back, way⟩ := h.labelled.reached a ha
  have hlen := roads.walk_cost way
  have beyond : ∀ x, st.dist x < mAXWEIGHT → b ≠ x :=
    fun x hx heq => absurd (heq ▸ hx) (not_lt.mpr hb)
  have inside : ∀ x, (g.find? x).isSome → x ∈ st.m_netGraph.keys := fun x hx =>
    mem_keys.mpr ((h.nodes x).mpr (.inl hx))
  have hsource : (g.find? source).isSome := by
    cases q with
    | nil =>
      rw [hlen] at step
      exact absurd (hb.trans step) (by decide)
    | cons x q => exact isSome_of_walk way
  -- the way to the border, its source and the node beyond it are too many
  have nodup : (source :: b :: q).Nodup := by
    refine nodup_cons.mpr ⟨fun hmem => ?_, nodup_cons.mpr ⟨fun hmem => ?_, back.nodup⟩⟩
    · rcases mem_cons.mp hmem with heq | hmem
      · exact beyond source zero heq.symm
      · exact (h.on_way back hmem).1 rfl
    · exact beyond b (h.on_way back hmem).2.1 rfl
  have sub : source :: b :: q ⊆ st.m_netGraph.keys := by
    refine cons_subset.mpr ⟨inside source hsource, cons_subset.mpr ⟨inside b ?_, fun x hx => ?_⟩⟩
    · exact isSome_of_edge (roads.symm road)
    · exact inside x (h.on_way back hx).2.2
  have le := (nodup.subperm sub).length_le
  rw [OrderedMap.keys, length_map, length_cons, length_cons] at le
  omega

end Result

end Search

/-- The table has nothing but shortest routes, and with no more nodes than there are weights it has
one to every node that can be reached. -/
structure Best (g : NetGraph) (source : Ipv4Address)
    (table : OrderedMap Ipv4Address (List Ipv4Address)) : Prop where
  found : ∀ v route, table.find? v = some route → v ≠ source ∧ ∃ p, route = source :: p ∧
    Walk (edge g) source p v p.length ∧ ∀ q c, Walk (edge g) source q v c → p.length ≤ c
  complete : g.entries.length ≤ mAXWEIGHT → ∀ v p c, v ≠ source → Walk (edge g) source p v c →
    (table.find? v).isSome

theorem rebuildBestRouteTable_spec {s : DsrRouteCache} {source : Ipv4Address}
    (roads : Roads s.m_netGraph) (hsource : source ≠ broadcast)
    (hcache : ∀ v, s.m_linkCache.find? (.between v broadcast) = none) :
    ∃ s', s.rebuildBestRouteTable source = .ok s' ∧ s'.now = s.now ∧
      s'.m_linkCache = s.m_linkCache ∧ edge s'.m_netGraph = edge s.m_netGraph ∧
        Best s'.m_netGraph source s'.m_bestRoutesTable_link := by
  have start := Search.searching_start roads hsource
  have none : (Search.start s.m_netGraph source).s.entries.length = 0 := by
    rw [Search.start_s]
    rfl
  obtain ⟨st, hst, searching, all⟩ := start.rounds roads hsource hcache
    (Nat.le_add_left (s.m_netGraph.entries.length + 1) _)
  have finished : Search.Finished s.m_netGraph source st := ⟨searching, all⟩
  have ways : ∀ v u, st.parent v = some u → v ≠ source →
      ∃ p, Back (st.settled source) st.parent source v p := by
    intro v u up _
    obtain ⟨p, back, -⟩ := searching.labelled.reached v (searching.marked v u up)
    exact ⟨p, back⟩
  obtain ⟨table, htable, hfind⟩ := Search.table_spec ways
  rw [none] at hst
  have same : edge st.m_netGraph = edge s.m_netGraph :=
    funext fun a => funext fun b => searching.graph a b
  refine ⟨{ s with m_netGraph := st.m_netGraph, m_bestRoutesTable_link := table }, ?_, rfl, rfl,
    same, ?_, ?_⟩
  · rw [DsrRouteCache.rebuildBestRouteTable, hst]
    dsimp only [bind, Except.bind]
    rw [htable]
    rfl
  · intro v route hroute
    obtain ⟨ne, p, back, rfl⟩ := (hfind v route).mp hroute
    obtain ⟨q, back', walk⟩ := searching.labelled.reached v (searching.marked_of_back back ne)
    cases back.unique back'
    have hcost := roads.walk_cost walk
    rw [hcost] at walk
    rw [same]
    exact ⟨ne, p, rfl, walk, fun q c other => hcost ▸ finished.le_cost other⟩
  · intro few v p c ne walk
    rw [same] at walk
    obtain ⟨q, back, -⟩ := searching.labelled.reached v (finished.near roads few walk)
    exact isSome_of_mem ((hfind v _).mpr ⟨ne, q, back, rfl⟩)

end Egsr.Dsr.LinkCache
