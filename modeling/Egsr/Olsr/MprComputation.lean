import Egsr.Lib.Covering
import Egsr.Olsr.NeighborStatus
import Mathlib.Data.Finset.Sort

/-! The selection of multipoint relays: neighbours over which every strict two-hop neighbour
is reached. Those that are always willing are selected first, then those that are the only
ones to reach somebody, and then one after the other while somebody is not reached. -/

namespace Egsr.Olsr.NeighborSensing

open Lib List

structure TwoHopNeighborTuple where
  neighborMainAddr : Ipv4Address
  twoHopNeighborAddr : Ipv4Address
  expirationTime : ℤ
deriving DecidableEq

def willNever : UInt8 := 0

def willAlways : UInt8 := 7

structure MprInput where
  m_mainAddress : Ipv4Address
  neighbors : List NeighborTuple
  twoHopNeighbors : List TwoHopNeighborTuple

namespace MprInput

variable (s : MprInput)

def degree (tuple : NeighborTuple) : ℕ :=
  (s.twoHopNeighbors.filter fun nb2hop_tuple =>
    nb2hop_tuple.neighborMainAddr = tuple.neighborMainAddr ∧
    findNeighborTuple nb2hop_tuple.neighborMainAddr s.neighbors = none).length

def coverTwoHopNeighbors (neighborMainAddr : Ipv4Address) (n2 : List TwoHopNeighborTuple) :
    List TwoHopNeighborTuple :=
  let toRemove := (n2.filter fun twoHopNeigh => twoHopNeigh.neighborMainAddr = neighborMainAddr).map
    TwoHopNeighborTuple.twoHopNeighborAddr
  n2.filter fun twoHopNeigh => twoHopNeigh.twoHopNeighborAddr ∉ toRemove

/-- The subset of neighbours "of the interface". -/
def n : List NeighborTuple := s.neighbors.filter fun neighbor => neighbor.status = .sym

/-- Whether a two-hop tuple is of the set to be covered. -/
def inN2 (twoHopNeigh : TwoHopNeighborTuple) : Bool :=
  if twoHopNeigh.twoHopNeighborAddr = s.m_mainAddress then false
  else
    let ok :=
      match s.n.find? fun neigh => neigh.neighborMainAddr = twoHopNeigh.neighborMainAddr with
      | some neigh => decide (neigh.willingness ≠ willNever)
      | none => false
    ok && !s.n.any fun neigh => neigh.neighborMainAddr = twoHopNeigh.twoHopNeighborAddr

def n2 : List TwoHopNeighborTuple := s.twoHopNeighbors.filter s.inN2

def addAlways (selected : Finset Ipv4Address × List TwoHopNeighborTuple)
    (neighbor : NeighborTuple) : Finset Ipv4Address × List TwoHopNeighborTuple :=
  let (mprSet, n2) := selected
  if neighbor.willingness = willAlways then
    (insert neighbor.neighborMainAddr mprSet, coverTwoHopNeighbors neighbor.neighborMainAddr n2)
  else (mprSet, n2)

variable (n2 : List TwoHopNeighborTuple)

def onlyOne (twoHopNeigh : TwoHopNeighborTuple) : Bool :=
  !n2.any fun otherTwoHopNeigh => otherTwoHopNeigh.twoHopNeighborAddr =
    twoHopNeigh.twoHopNeighborAddr ∧
    otherTwoHopNeigh.neighborMainAddr ≠ twoHopNeigh.neighborMainAddr

/-- The MPR set and what it covers, after a tuple that may be the *only* one to its address. -/
def addOnly (selected : Finset Ipv4Address × Finset Ipv4Address)
    (twoHopNeigh : TwoHopNeighborTuple) : Finset Ipv4Address × Finset Ipv4Address :=
  let (mprSet, coveredTwoHopNeighbors) := selected
  if onlyOne n2 twoHopNeigh then
    (insert twoHopNeigh.neighborMainAddr mprSet,
      coveredTwoHopNeighbors ∪ ((n2.filter fun otherTwoHopNeigh =>
        otherTwoHopNeigh.neighborMainAddr = twoHopNeigh.neighborMainAddr).map
          TwoHopNeighborTuple.twoHopNeighborAddr).toFinset)
  else (mprSet, coveredTwoHopNeighbors)

/-- The tuples stay as they are until the loop has ended. -/
def selectOnly (mprSet : Finset Ipv4Address) (n2 : List TwoHopNeighborTuple) :
    Finset Ipv4Address × List TwoHopNeighborTuple :=
  let (mprSet, coveredTwoHopNeighbors) := n2.foldl (addOnly n2) (mprSet, ∅)
  (mprSet, n2.filter fun twoHopNeigh => twoHopNeigh.twoHopNeighborAddr ∉ coveredTwoHopNeighbors)

def reach (nb_tuple : NeighborTuple) : ℕ :=
  (n2.filter fun nb2hop_tuple => nb_tuple.neighborMainAddr = nb2hop_tuple.neighborMainAddr).length

/-- The neighbours in the order of the loop over `rs`, which goes through `reachability[r]` for each
number. -/
def candidates : List (NeighborTuple × ℕ) :=
  let rs := ((s.n.map (reach n2)).toFinset.sort (· ≤ ·))
  rs.flatMap fun r => if r = 0 then []
    else (s.n.filter fun nb_tuple => reach n2 nb_tuple = r).map fun nb_tuple => (nb_tuple, r)

/-- `max` and `max_r`, after another neighbour was looked at. -/
def better (max : Option (NeighborTuple × ℕ)) (next : NeighborTuple × ℕ) :
    Option (NeighborTuple × ℕ) :=
  match max with
  | none => some next
  | some (max, max_r) =>
    let (nb_tuple, r) := next
    if nb_tuple.willingness > max.willingness then some (nb_tuple, r)
    else if nb_tuple.willingness = max.willingness then
      if r > max_r then some (nb_tuple, r)
      else if r = max_r then
        if s.degree nb_tuple > s.degree max then some (nb_tuple, r) else some (max, max_r)
      else some (max, max_r)
    else some (max, max_r)

def select : Option Ipv4Address :=
  ((s.candidates n2).foldl s.better none).map fun max => max.1.neighborMainAddr

/-- The set of multipoint relays. The last loop goes on while `n2` is not empty. -/
def mprComputation (fuel : ℕ) : Option (Finset Ipv4Address) :=
  let (mprSet, n2) := s.n.foldl addAlways (∅, s.n2)
  let (mprSet, n2) := selectOnly mprSet n2
  Covering.exhaust TwoHopNeighborTuple.neighborMainAddr TwoHopNeighborTuple.twoHopNeighborAddr
    s.select fuel mprSet n2

end MprInput

section Specification

variable (s : MprInput)

def Willing (a : Ipv4Address) : Prop :=
  ∃ nb ∈ s.neighbors, nb.status = .sym ∧ nb.willingness ≠ willNever ∧ nb.neighborMainAddr = a

/-- Listed under a willing neighbour, and neither this node nor a symmetric neighbour. -/
structure StrictTwoHop (x : Ipv4Address) : Prop where
  other : x ≠ s.m_mainAddress
  notNeighbor : ∀ nb ∈ s.neighbors, nb.status = .sym → nb.neighborMainAddr ≠ x
  listed : ∃ t ∈ s.twoHopNeighbors, t.twoHopNeighborAddr = x ∧ Willing s t.neighborMainAddr

structure MprRight (mprSet : Finset Ipv4Address) : Prop where
  symmetric : ∀ a ∈ mprSet, ∃ nb ∈ s.neighbors, nb.status = .sym ∧ nb.neighborMainAddr = a
  always : ∀ nb ∈ s.neighbors, nb.status = .sym → nb.willingness = willAlways →
    nb.neighborMainAddr ∈ mprSet
  never : ∀ nb ∈ s.neighbors, nb.willingness = willNever → nb.neighborMainAddr ∉ mprSet
  covers : ∀ x, StrictTwoHop s x → ∃ t ∈ s.twoHopNeighbors, t.twoHopNeighborAddr = x ∧
    t.neighborMainAddr ∈ mprSet

end Specification

section Selection

variable {s : MprInput} {links left : List TwoHopNeighborTuple} {chosen : Finset Ipv4Address}

theorem mem_n {nb : NeighborTuple} : nb ∈ s.n ↔ nb ∈ s.neighbors ∧ nb.status = .sym := by
  rw [MprInput.n, mem_filter, decide_eq_true_iff]

theorem DistinctNeighbors.unique {neighbors : List NeighborTuple}
    (distinct : DistinctNeighbors neighbors)
    {nb nb' : NeighborTuple} (mem : nb ∈ neighbors) (mem' : nb' ∈ neighbors)
    (same : nb.neighborMainAddr = nb'.neighborMainAddr) : nb = nb' := by
  have found := distinct.find mem
  rw [same, distinct.find mem'] at found
  exact (Option.some.inj found).symm

theorem inN2_iff (distinct : DistinctNeighbors s.neighbors) {t : TwoHopNeighborTuple} :
    s.inN2 t = true ↔ t.twoHopNeighborAddr ≠ s.m_mainAddress ∧ Willing s t.neighborMainAddr ∧
      ∀ nb ∈ s.neighbors, nb.status = .sym → nb.neighborMainAddr ≠ t.twoHopNeighborAddr := by
  have distinct_n : DistinctNeighbors s.n := distinct.sublist filter_sublist
  have willing : (match s.n.find? fun neigh => neigh.neighborMainAddr = t.neighborMainAddr with
      | some neigh => decide (neigh.willingness ≠ willNever)
      | none => false) = true ↔ Willing s t.neighborMainAddr := by
    constructor
    · intro ok
      cases found : s.n.find? fun neigh => neigh.neighborMainAddr = t.neighborMainAddr with
      | none =>
        rw [found] at ok
        cases ok
      | some neigh =>
        rw [found] at ok
        obtain ⟨mem, sym⟩ := mem_n.mp (mem_of_find?_eq_some found)
        exact ⟨neigh, mem, sym, of_decide_eq_true ok, by simpa using List.find?_some found⟩
    · rintro ⟨nb, mem, sym, ok, same⟩
      have found : s.n.find? (fun neigh => neigh.neighborMainAddr = t.neighborMainAddr) =
          some nb := by
        rw [← same]
        exact distinct_n.find (mem_n.mpr ⟨mem, sym⟩)
      rw [found]
      exact decide_eq_true ok
  have others : (!s.n.any fun neigh => neigh.neighborMainAddr = t.twoHopNeighborAddr) = true ↔
      ∀ nb ∈ s.neighbors, nb.status = .sym → nb.neighborMainAddr ≠ t.twoHopNeighborAddr := by
    rw [Bool.not_eq_true', any_eq_false]
    exact ⟨fun h nb mem sym same => h nb (mem_n.mpr ⟨mem, sym⟩) (decide_eq_true same),
      fun h nb mem same =>
      h nb (mem_n.mp mem).1 (mem_n.mp mem).2 (of_decide_eq_true same)⟩
  rw [MprInput.inN2]
  split_ifs with own
  · exact iff_of_false (fun h => h) fun h => h.1 own
  · rw [Bool.and_eq_true, willing, others, ne_eq, and_iff_right own]

theorem willing_of_mem_n2 (distinct : DistinctNeighbors s.neighbors) {t : TwoHopNeighborTuple}
    (ht : t ∈ s.n2) :
    Willing s t.neighborMainAddr := ((inN2_iff distinct).mp (mem_filter.mp ht).2).2.1

/-! ## The three loops -/

structure Progress (s : MprInput) (chosen : Finset Ipv4Address) (left : List TwoHopNeighborTuple) :
    Prop where
  covered : Covering.Covered TwoHopNeighborTuple.neighborMainAddr
    TwoHopNeighborTuple.twoHopNeighborAddr s.n2 left chosen
  willing : ∀ a ∈ chosen, Willing s a

theorem Progress.addAlways {selected : Finset Ipv4Address × List TwoHopNeighborTuple}
    (h : Progress s selected.1 selected.2) {nb : NeighborTuple} (mem : nb ∈ s.n) :
    Progress s (MprInput.addAlways selected nb).1 (MprInput.addAlways selected nb).2 := by
  obtain ⟨mprSet, n2⟩ := selected
  rw [MprInput.addAlways]
  split_ifs with always
  · refine ⟨h.covered.cover nb.neighborMainAddr, fun a ha => ?_⟩
    rcases Finset.mem_insert.mp ha with rfl | ha
    · obtain ⟨mem, sym⟩ := mem_n.mp mem
      exact ⟨nb, mem, sym, by rw [always]; decide, rfl⟩
    · exact h.willing a ha
  · exact h

theorem subset_addAlways (selected : Finset Ipv4Address × List TwoHopNeighborTuple)
    (nb : NeighborTuple) : selected.1 ⊆ (MprInput.addAlways selected nb).1 ∧
      (nb.willingness = willAlways → nb.neighborMainAddr ∈ (MprInput.addAlways selected nb).1) := by
  obtain ⟨mprSet, n2⟩ := selected
  rw [MprInput.addAlways]
  split_ifs with always
  · exact ⟨Finset.subset_insert _ _, fun _ => Finset.mem_insert_self _ _⟩
  · exact ⟨Finset.Subset.refl _, fun h => absurd h always⟩

theorem foldl_addAlways {ns : List NeighborTuple} (sub : ns ⊆ s.n)
    {selected : Finset Ipv4Address × List TwoHopNeighborTuple}
    (h : Progress s selected.1 selected.2) :
    Progress s (ns.foldl MprInput.addAlways selected).1 (ns.foldl MprInput.addAlways selected).2 ∧
      selected.1 ⊆ (ns.foldl MprInput.addAlways selected).1 ∧
      ∀ nb ∈ ns, nb.willingness = willAlways → nb.neighborMainAddr ∈
      (ns.foldl MprInput.addAlways selected).1 := by
  induction ns generalizing selected with
  | nil => exact ⟨h, Finset.Subset.refl _, fun nb hnb => absurd hnb not_mem_nil⟩
  | cons nb ns ih =>
    obtain ⟨mem, sub⟩ := cons_subset.mp sub
    obtain ⟨kept, added⟩ := subset_addAlways selected nb
    obtain ⟨progress, more, all⟩ := ih sub (h.addAlways mem)
    refine ⟨progress, kept.trans more, fun nb' hnb' always => ?_⟩
    rcases mem_cons.mp hnb' with rfl | hnb'
    · exact more (added always)
    · exact all nb' hnb' always

structure OnlyOk (left : List TwoHopNeighborTuple) (chosen : Finset Ipv4Address)
    (selected : Finset Ipv4Address × Finset Ipv4Address) : Prop where
  sub : chosen ⊆ selected.1
  origin : ∀ a ∈ selected.1, a ∈ chosen ∨ ∃ t ∈ left, t.neighborMainAddr = a
  covered : ∀ x ∈ selected.2, ∃ u ∈ left, u.neighborMainAddr ∈ selected.1 ∧ u.twoHopNeighborAddr = x

theorem OnlyOk.addOnly {selected : Finset Ipv4Address × Finset Ipv4Address}
    (h : OnlyOk left chosen selected) {t : TwoHopNeighborTuple} (ht : t ∈ left) : OnlyOk left chosen
    (MprInput.addOnly left selected t) := by
  obtain ⟨mprSet, coveredTwoHopNeighbors⟩ := selected
  rw [MprInput.addOnly]
  split_ifs
  · refine ⟨h.sub.trans (Finset.subset_insert _ _), fun a ha => ?_, fun x hx => ?_⟩
    · rcases Finset.mem_insert.mp ha with rfl | ha
      · exact .inr ⟨t, ht, rfl⟩
      · exact h.origin a ha
    · rcases Finset.mem_union.mp hx with hx | hx
      · obtain ⟨u, hu, mem, same⟩ := h.covered x hx
        exact ⟨u, hu, Finset.mem_insert_of_mem mem, same⟩
      · obtain ⟨u, hu, same⟩ := mem_map.mp (mem_toFinset.mp hx)
        obtain ⟨mem, own⟩ := mem_filter.mp hu
        exact ⟨u, mem, by rw [of_decide_eq_true own]; exact Finset.mem_insert_self _ _, same⟩
  · exact h

theorem selectOnly_spec (distinct : DistinctNeighbors s.neighbors) (h : Progress s chosen left) :
    Progress s (MprInput.selectOnly chosen left).1 (MprInput.selectOnly chosen left).2 ∧
      chosen ⊆ (MprInput.selectOnly chosen left).1 := by
  have start : OnlyOk left chosen (chosen, ∅) :=
    ⟨Finset.Subset.refl _, fun a ha => .inl ha, fun x hx => absurd hx (Finset.notMem_empty x)⟩
  have loop : OnlyOk left chosen (left.foldl (MprInput.addOnly left) (chosen, ∅)) :=
    foldlRecOn left (MprInput.addOnly left) start fun selected h t ht => h.addOnly ht
  refine ⟨⟨h.covered.remove loop.sub fun t _ removed => ?_, fun a ha => ?_⟩, loop.sub⟩
  · exact loop.covered _ (not_not.mp (of_decide_eq_false removed))
  · rcases loop.origin a ha with ha | ⟨t, ht, rfl⟩
    · exact h.willing a ha
    · exact willing_of_mem_n2 distinct (h.covered.sub ht)

theorem mem_candidates {c : NeighborTuple × ℕ} :
    c ∈ s.candidates left ↔ c.1 ∈ s.n ∧ c.2 = MprInput.reach left c.1 ∧ c.2 ≠ 0 := by
  rw [MprInput.candidates, mem_flatMap]
  constructor
  · rintro ⟨r, -, hc⟩
    split_ifs at hc with zero
    · cases hc
    · obtain ⟨nb, hnb, rfl⟩ := mem_map.mp hc
      obtain ⟨mem, same⟩ := mem_filter.mp hnb
      exact ⟨mem, (of_decide_eq_true same).symm, zero⟩
  · rintro ⟨mem, same, nonzero⟩
    refine ⟨c.2, (Finset.mem_sort _).mpr (mem_toFinset.mpr (mem_map.mpr ⟨c.1, mem, same.symm⟩)), ?_⟩
    rw [if_neg nonzero]
    exact mem_map.mpr ⟨c.1, mem_filter.mpr ⟨mem, decide_eq_true same.symm⟩, rfl⟩

theorem better_eq (max : Option (NeighborTuple × ℕ)) (next : NeighborTuple × ℕ) :
    s.better max next = some next ∨ s.better max next = max := by
  cases max with
  | none => exact .inl rfl
  | some max =>
    obtain ⟨max, max_r⟩ := max
    obtain ⟨nb_tuple, r⟩ := next
    simp only [MprInput.better]
    split_ifs <;> simp

theorem foldl_better (cs : List (NeighborTuple × ℕ)) (max : Option (NeighborTuple × ℕ)) :
    cs.foldl s.better max = max ∨ ∃ c ∈ cs, cs.foldl s.better max = some c := by
  induction cs generalizing max with
  | nil => exact .inl rfl
  | cons c cs ih =>
    rw [foldl_cons]
    rcases ih (s.better max c) with same | ⟨c', hc', same⟩
    · rcases better_eq max c with taken | kept
      · exact .inr ⟨c, mem_cons_self, same.trans taken⟩
      · exact .inl (same.trans kept)
    · exact .inr ⟨c', mem_cons_of_mem c hc', same⟩

theorem select_spec (distinct : DistinctNeighbors s.neighbors) (sub : left ⊆ s.n2)
    (nonempty : left ≠ []) : ∃ t ∈ left, s.select left = some t.neighborMainAddr := by
  have some_candidate : s.candidates left ≠ [] := by
    obtain ⟨t, ht⟩ := exists_mem_of_ne_nil left nonempty
    obtain ⟨nb, mem, sym, -, own⟩ := willing_of_mem_n2 distinct (sub ht)
    have reached : t ∈ left.filter fun nb2hop_tuple =>
      nb.neighborMainAddr = nb2hop_tuple.neighborMainAddr :=
      mem_filter.mpr ⟨ht, decide_eq_true own⟩
    exact ne_nil_of_mem (mem_candidates.mpr
      ⟨mem_n.mpr ⟨mem, sym⟩, rfl, (length_pos_of_mem reached).ne'⟩ :
        (nb, MprInput.reach left nb) ∈ _)
  obtain ⟨max, mem, best⟩ : ∃ max ∈ s.candidates left, (s.candidates left).foldl s.better none =
      some max := by
    obtain ⟨c, cs, list⟩ := exists_cons_of_ne_nil some_candidate
    rw [list, foldl_cons]
    rcases foldl_better cs (s.better none c) with first | ⟨c', hc', same⟩
    · exact ⟨c, mem_cons_self, first⟩
    · exact ⟨c', mem_cons_of_mem c hc', same⟩
  obtain ⟨-, same, nonzero⟩ := mem_candidates.mp mem
  rw [same] at nonzero
  obtain ⟨t, ht⟩ := exists_mem_of_length_pos (Nat.pos_of_ne_zero nonzero)
  obtain ⟨ht, own⟩ := mem_filter.mp ht
  refine ⟨t, ht, ?_⟩
  rw [MprInput.select, best, Option.map_some, of_decide_eq_true own]

end Selection

/-- The computation comes to an end, with relays that are willing and cover everybody. -/
theorem mprComputation_right {s : MprInput} (distinct : DistinctNeighbors s.neighbors) :
    ∃ enough mprSet, (∀ fuel ≥ enough, s.mprComputation fuel = some mprSet) ∧
      MprRight s mprSet := by
  let initial : Finset Ipv4Address × List TwoHopNeighborTuple := (∅, s.n2)
  have start : Progress s initial.1 initial.2 :=
    ⟨.start s.n2, fun a ha => absurd ha (Finset.notMem_empty a)⟩
  obtain ⟨first, -, always⟩ := foldl_addAlways (List.Subset.refl s.n) start
  generalize hselected : s.n.foldl MprInput.addAlways initial = selected at first always
  obtain ⟨second, more⟩ := selectOnly_spec distinct first
  obtain ⟨mprSet, runs, covered, most, origin⟩ :=
    Covering.exhaust_covers (fun left sub nonempty => select_spec distinct sub nonempty)
      second.covered
  have willing : ∀ a ∈ mprSet, Willing s a := by
    intro a ha
    rcases origin a ha with ha | ⟨t, ht, rfl⟩
    · exact second.willing a ha
    · exact willing_of_mem_n2 distinct ht
  refine ⟨(MprInput.selectOnly selected.1 selected.2).2.length, mprSet, fun fuel enough =>
    ?_, ?_, ?_, ?_, ?_⟩
  · change Covering.exhaust _ _ s.select fuel
      (MprInput.selectOnly (s.n.foldl MprInput.addAlways initial).1
      (s.n.foldl MprInput.addAlways initial).2).1 _ = _
    rw [hselected]
    exact runs fuel enough
  · intro a ha
    obtain ⟨nb, mem, sym, -, same⟩ := willing a ha
    exact ⟨nb, mem, sym, same⟩
  · exact fun nb mem sym ok => most (more (always nb (mem_n.mpr ⟨mem, sym⟩) ok))
  · intro nb mem never ha
    obtain ⟨nb', mem', -, ok, same⟩ := willing _ ha
    exact ok (distinct.unique mem' mem same ▸ never)
  · rintro x ⟨other, notNeighbor, t, ht, rfl, ok⟩
    have in_n2 : t ∈ s.n2 := mem_filter.mpr ⟨ht, (inN2_iff distinct).mpr ⟨other, ok, notNeighbor⟩⟩
    obtain ⟨u, hu, mem, same⟩ := covered.done in_n2
    exact ⟨u, mem_of_mem_filter hu, same, mem⟩

def fourNeighbors : MprInput where
  m_mainAddress := 1
  neighbors := [⟨2, .sym, 7⟩, ⟨3, .sym, 3⟩, ⟨4, .sym, 3⟩, ⟨5, .sym, 0⟩]
  twoHopNeighbors :=
    [⟨2, 1, 0⟩, ⟨2, 6, 0⟩, ⟨3, 6, 0⟩, ⟨3, 7, 0⟩, ⟨3, 8, 0⟩, ⟨4, 7, 0⟩, ⟨4, 8, 0⟩, ⟨4, 9, 0⟩,
      ⟨5, 10, 0⟩]

theorem mprComputation_right_four : DistinctNeighbors fourNeighbors.neighbors ∧
    ∃ enough mprSet, (∀ fuel ≥ enough, fourNeighbors.mprComputation fuel = some mprSet) ∧
      MprRight fourNeighbors mprSet := by
  have distinct : DistinctNeighbors fourNeighbors.neighbors := by
    unfold DistinctNeighbors
    decide
  exact ⟨distinct, mprComputation_right distinct⟩

end Egsr.Olsr.NeighborSensing
