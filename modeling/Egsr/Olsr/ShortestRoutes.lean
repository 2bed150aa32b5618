import Egsr.Olsr.RoutingTable

/-! The routing table has the shortest routes: a pass over the topology set
finds the layer behind the one it starts from, and the passes end with the
first one that finds nothing. -/

namespace Egsr.Olsr.RoutingTable

open NeighborSensing Lib.Layers List
open ExternalRoutes (RoutingTableEntry)

theorem foldl_done {α β : Type} {P : List α → β → Prop} {f : β → α → β} {all : List α}
    (round : ∀ done b a, a ∈ all → P done b → P (done ++ [a]) (f b a)) {b : β} (init : P [] b) :
      P all (all.foldl f b) := by
  have hrest : ∀ (rest done : List α) (b : β), rest ⊆ all → P done b →
      P (done ++ rest) (rest.foldl f b) := by
    intro rest
    induction rest with
    | nil =>
      intro done b _ h
      rwa [append_nil]
    | cons a rest ih =>
      intro done b sub h
      obtain ⟨hmem, hsub⟩ := cons_subset.mp sub
      rw [append_cons]
      exact ih _ _ hsub (round done b a hmem h)
  exact hrest all [] b (List.Subset.refl all) init

section AddEntry

variable {t : Table} {a dest next : Ipv4Address} {interface distance : UInt32}
    {e : RoutingTableEntry}

theorem find?_addEntry : (addEntry dest next interface distance t).find? a =
    if a = dest then some ⟨dest, next, interface, distance⟩ else t.find? a :=
  Lib.OrderedMap.find?_set

theorem isSome_addEntry : ((addEntry dest next interface distance t).find? a).isSome ↔ a = dest ∨
    (t.find? a).isSome :=
  Lib.OrderedMap.isSome_find?_set

theorem forall_addEntry {P : Ipv4Address → RoutingTableEntry → Prop}
    (all : ∀ a e, t.find? a = some e → P a e) (new : P dest ⟨dest, next, interface, distance⟩) :
    ∀ a e, (addEntry dest next interface distance t).find? a = some e → P a e := by
  intro a e he
  rw [find?_addEntry] at he
  split_ifs at he with heq
  · obtain rfl := Option.some.inj he
    exact heq ▸ new
  · exact all a e he

end AddEntry

namespace Input

variable (s : Input)

structure Direct (a : Ipv4Address) (e : RoutingTableEntry) : Prop where
  linked : s.LinkedNeighbor a
  destAddr : e.destAddr = a
  nextAddr : e.nextAddr = a
  distance : e.distance = 1

/-- An entry of an address so many topology tuples beyond two hops, over a neighbour on a shortest
way. -/
structure Far (n : ℕ) (a : Ipv4Address) (e : RoutingTableEntry) : Prop where
  beyond : s.Beyond n a
  destAddr : e.destAddr = a
  nextAddr : Reach (s.TwoHop e.nextAddr) s.Onward n a
  distance : e.distance = .ofNat (n + 2)

variable {s} {t : Table} {a b : Ipv4Address} {n m : ℕ} {e : RoutingTableEntry}

theorem SymNeighbor.of_linked (h : s.LinkedNeighbor a) : s.SymNeighbor a := by
  obtain ⟨nb, hnb, hsym, hmain, -⟩ := h
  exact ⟨nb, hnb, hmain, hsym⟩

theorem findSymNeighborTuple_isSome :
    (findSymNeighborTuple a s.neighborSet).isSome ↔ s.SymNeighbor a := by
  rw [findSymNeighborTuple, List.find?_isSome]
  simp [SymNeighbor]

theorem not_linked_of_beyond (h : s.Beyond n a) : ¬s.LinkedNeighbor a :=
  h.reach.holds (fun _ hseed hlinked => hseed.elim fun _ hnb => hnb.notSym (.of_linked hlinked))
    fun _ _ hnext => hnext.2

theorem TwoHop.linked (hanging : s.Hanging) {neighbor : Ipv4Address} (h : s.TwoHop neighbor a) :
    s.LinkedNeighbor neighbor := by
  obtain ⟨⟨tuple, htuple, rfl, -⟩, -⟩ := h.listed
  exact hanging tuple htuple

theorem Beyond.lt_size (hanging : s.Hanging) (h : s.Beyond n a) : n + 2 ≤ 2 ^ 32 := by
  obtain ⟨b, neighbor, htwo⟩ := h.reach.exists_seed
  refine Layer.lt_size h (fun m hm => not_linked_of_beyond hm (htwo.linked hanging)) (k :=
    UInt32.toFin) ?_
  exact fun a b heq => UInt32.toFin_inj.mp heq

theorem ofNat_distance_inj (hn : n + 2 ≤ 2 ^ 32) (hm : m + 2 ≤ 2 ^ 32)
    (heq : UInt32.ofNat (n + 2) = UInt32.ofNat (m + 2)) : n = m := by
  have hmod := congrArg UInt32.toNat heq
  rw [UInt32.toNat_ofNat', UInt32.toNat_ofNat'] at hmod
  omega

theorem ofNat_distance_ne_one (hn : n + 2 ≤ 2 ^ 32) : 1 ≠ UInt32.ofNat (n + 2) := by
  intro heq
  have hmod := congrArg UInt32.toNat heq
  rw [UInt32.toNat_ofNat', UInt32.toNat_one] at hmod
  omega

theorem getMainAddress_of_noAssociations (none : s.NoAssociations) (a : Ipv4Address) :
    s.config.getMainAddress a = a := by
  rw [Config.getMainAddress, none]
  rfl

/-- The neighbours of so many neighbour tuples have entries, and nothing else has. -/
structure Near (s : Input) (done : List NeighborTuple) (t : Table) : Prop where
  entry : ∀ a e, t.find? a = some e → s.Direct a e
  linked : ∀ nb ∈ done, nb.status = .sym → s.LinkedNeighbor nb.neighborMainAddr →
    (t.find? nb.neighborMainAddr).isSome

structure Linking (s : Input) (nb : NeighborTuple) (t : Table) (done : List LinkTuple)
    (v : Linked) : Prop where
  entry : ∀ a e, v.table.find? a = some e → s.Direct a e
  kept : ∀ a, (t.find? a).isSome → (v.table.find? a).isSome
  linked : ∀ l ∈ done, l.neighborIfaceAddr = nb.neighborMainAddr → s.now ≤ l.time →
    (v.table.find? nb.neighborMainAddr).isSome
  main : v.nb_main_addr = false → v.lt = none

theorem Linking.round (none : s.NoAssociations) {nb : NeighborTuple} (mem : nb ∈ s.neighborSet)
    (sym : nb.status = .sym)
    {done : List LinkTuple} {v : Linked} (h : s.Linking nb t done v) {l : LinkTuple}
    (hl : l ∈ s.linkSet) : s.Linking nb t (done ++ [l]) (s.linkRound nb v l) := by
  rw [linkRound, getMainAddress_of_noAssociations none]
  split_ifs with hlink
  · obtain ⟨heq, hunexpired⟩ := hlink
    have hlinked : s.LinkedNeighbor l.neighborIfaceAddr :=
      ⟨nb, mem, sym, heq.symm, l, hl, rfl, hunexpired⟩
    refine ⟨forall_addEntry h.entry ⟨hlinked, rfl, rfl, rfl⟩, fun a ha =>
      isSome_addEntry.mpr (.inr (h.kept a ha)), ?_, ?_⟩
    · exact fun _ _ _ _ => isSome_addEntry.mpr (.inl heq.symm)
    · simp [heq]
  · refine ⟨h.entry, h.kept, fun b hb heq hunexpired => ?_, h.main⟩
    rcases mem_append.mp hb with hb | hb
    · exact h.linked b hb heq hunexpired
    · obtain rfl := mem_singleton.mp hb
      exact absurd ⟨heq, hunexpired⟩ hlink

theorem Near.round (none : s.NoAssociations) {done : List NeighborTuple} (h : s.Near done t)
    {nb : NeighborTuple}
    (mem : nb ∈ s.neighborSet) : s.Near (done ++ [nb]) (s.neighborRound t nb) := by
  rw [neighborRound]
  split_ifs with hsym
  · have hstart : s.Linking nb t [] ⟨t, false, .none⟩ :=
      ⟨h.entry, fun _ ha => ha, nofun, fun _ => rfl⟩
    have hloop :=
      foldl_done (P := s.Linking nb t)
        (fun _ _ _ hl hlinking => hlinking.round none mem hsym hl) hstart
    dsimp only
    generalize s.linkSet.foldl (s.linkRound nb) ⟨t, false, .none⟩ = v at hloop ⊢
    have hnear : s.Near (done ++ [nb]) v.table := by
      refine ⟨hloop.entry, fun b hb hb' hlinked => ?_⟩
      rcases mem_append.mp hb with hb | hb
      · exact hloop.kept _ (h.linked b hb hb' hlinked)
      · obtain rfl := mem_singleton.mp hb
        obtain ⟨-, -, -, -, l, hl, heq, hunexpired⟩ := hlinked
        exact hloop.linked l hl heq hunexpired
    cases hmain : v.nb_main_addr with
    | true => exact hnear
    | false =>
      rw [hloop.main hmain]
      exact hnear
  · refine ⟨h.entry, fun b hb hb' hlinked => ?_⟩
    rcases mem_append.mp hb with hb | hb
    · exact h.linked b hb hb' hlinked
    · exact absurd (mem_singleton.mp hb ▸ hb') hsym

structure Listing (s : Input) (done : List TwoHopNeighborTuple) (t : Table) : Prop where
  entry : ∀ a e, t.find? a = some e → s.Direct a e ∨ s.Far 0 a e
  linked : ∀ a, s.LinkedNeighbor a → (t.find? a).isSome
  listed : ∀ tuple ∈ done, s.TwoHop tuple.neighborMainAddr tuple.twoHopNeighborAddr →
    (t.find? tuple.twoHopNeighborAddr).isSome

theorem Listing.skip {done : List TwoHopNeighborTuple} (h : s.Listing done t)
    {tuple : TwoHopNeighborTuple}
    (not : ¬s.TwoHop tuple.neighborMainAddr tuple.twoHopNeighborAddr) :
      s.Listing (done ++ [tuple]) t where
  entry := h.entry
  linked := h.linked
  listed b hb htwo := by
    rcases mem_append.mp hb with hb | hb
    · exact h.listed b hb htwo
    · exact absurd (mem_singleton.mp hb ▸ htwo) not

theorem Listing.round (hanging : s.Hanging) {done : List TwoHopNeighborTuple} (h : s.Listing done t)
    {tuple : TwoHopNeighborTuple} (mem : tuple ∈ s.twoHopNeighbors) :
    s.Listing (done ++ [tuple]) (s.twoHopRound t tuple) := by
  rw [twoHopRound]
  dsimp only
  split_ifs with hsym hself hwilling
  · exact h.skip fun htwo => htwo.notSym (findSymNeighborTuple_isSome.mp hsym)
  · exact h.skip fun htwo => htwo.notSelf hself
  · refine h.skip fun htwo => ?_
    obtain ⟨-, nb, hnb, hmain, hnever⟩ := htwo.listed
    simp only [Bool.not_eq_true', any_eq_false] at hwilling
    exact hwilling nb hnb (by simp [hmain, hnever])
  · simp only [Bool.not_eq_true, Bool.not_eq_false', any_eq_true, Bool.and_eq_true,
      decide_eq_true_eq] at hwilling
    have htwo : s.TwoHop tuple.neighborMainAddr tuple.twoHopNeighborAddr :=
      ⟨⟨⟨tuple, mem, rfl, rfl⟩, hwilling⟩, hself, mt findSymNeighborTuple_isSome.mpr hsym⟩
    have hlinked := hanging tuple mem
    obtain ⟨e, he⟩ := Option.isSome_iff_exists.mp (h.linked _ hlinked)
    have hdirect : s.Direct tuple.neighborMainAddr e :=
      (h.entry _ e he).resolve_right fun hfar => not_linked_of_beyond hfar.beyond hlinked
    have hfar : s.Far 0 tuple.twoHopNeighborAddr
      ⟨tuple.twoHopNeighborAddr, e.nextAddr, e.interface, 2⟩ :=
      ⟨layer_zero ⟨_, htwo⟩, rfl, .seed (hdirect.nextAddr.symm ▸ htwo), rfl⟩
    rw [he]
    refine ⟨forall_addEntry h.entry (.inr hfar), fun a ha =>
      isSome_addEntry.mpr (.inr (h.linked a ha)), fun b hb htwo' => ?_⟩
    rcases mem_append.mp hb with hb | hb
    · exact isSome_addEntry.mpr (.inr (h.listed b hb htwo'))
    · exact isSome_addEntry.mpr (.inl (congrArg _ (mem_singleton.mp hb)))

/-! ## A pass -/

def Entry (s : Input) (k : ℕ) (a : Ipv4Address) (e : RoutingTableEntry) : Prop :=
  s.Direct a e ∨ ∃ n ≤ k, s.Far n a e

structure Searched (s : Input) (k : ℕ) (t : Table) : Prop where
  entry : ∀ a e, t.find? a = some e → s.Entry k a e
  linked : ∀ a, s.LinkedNeighbor a → (t.find? a).isSome
  layers : ∀ n ≤ k, ∀ a, s.Beyond n a → (t.find? a).isSome
  fits : k + 2 ≤ 2 ^ 32

structure Passing (s : Input) (k : ℕ) (t : Table) (done : List TopologyTuple) (v : Table × Bool) :
    Prop where
  entry : ∀ a e, v.1.find? a = some e → s.Entry (k + 1) a e
  kept : ∀ a, (t.find? a).isSome → (v.1.find? a).isSome
  expanded : ∀ tuple ∈ done, s.Beyond k tuple.lastAddr → ¬s.LinkedNeighbor tuple.destAddr →
    (v.1.find? tuple.destAddr).isSome
  unchanged : v.2 = false → v.1 = t
  added : v.2 = true → ∃ tuple ∈ done, t.find? tuple.destAddr = none ∧
    (v.1.find? tuple.destAddr).isSome ∧ s.Beyond (k + 1) tuple.destAddr

variable {k : ℕ} {done : List TopologyTuple} {v : Table × Bool}

theorem Entry.distance (h : s.Entry k a e) (beyond : s.Beyond n a) : e.distance =
    .ofNat (n + 2) := by
  rcases h with hdirect | ⟨m, -, hfar⟩
  · exact absurd hdirect.linked (not_linked_of_beyond beyond)
  · rw [hfar.distance, Layer.unique hfar.beyond beyond]

theorem Entry.far (hanging : s.Hanging) (h : s.Entry k a e) (fits : n + 2 ≤ 2 ^ 32)
    (hdist : e.distance = .ofNat (n + 2)) : s.Far n a e := by
  rcases h with hdirect | ⟨m, -, hfar⟩
  · exact absurd (hdirect.distance.symm.trans hdist) (ofNat_distance_ne_one fits)
  · obtain rfl :=
      ofNat_distance_inj (Beyond.lt_size hanging hfar.beyond) fits (hfar.distance.symm.trans hdist)
    exact hfar

theorem Searched.passing (h : s.Searched k t) : s.Passing k t [] (t, false) where
  entry a e he :=
    (h.entry a e he).imp_right fun ⟨n, hn, hfar⟩ => ⟨n, hn.trans (Nat.le_succ k), hfar⟩
  kept _ ha := ha
  expanded _ hin := nomatch hin
  unchanged _ := rfl
  added := nofun

theorem Passing.skip (h : s.Passing k t done v) {tuple : TopologyTuple}
    (known : s.Beyond k tuple.lastAddr → ¬s.LinkedNeighbor tuple.destAddr →
      (v.1.find? tuple.destAddr).isSome) :
    s.Passing k t (done ++ [tuple]) v where
  entry := h.entry
  kept := h.kept
  expanded b hb hlayer hnot := by
    rcases mem_append.mp hb with hb | hb
    · exact h.expanded b hb hlayer hnot
    · obtain rfl := mem_singleton.mp hb
      exact known hlayer hnot
  unchanged := h.unchanged
  added hadded := by
    obtain ⟨b, hb, hnew⟩ := h.added hadded
    exact ⟨b, mem_append_left _ hb, hnew⟩

theorem Passing.add (start : s.Searched k t) (h : s.Passing k t done v) {tuple : TopologyTuple}
    (mem : tuple ∈ s.topology) (new : v.1.find? tuple.destAddr = none)
    (far : s.Far k tuple.lastAddr e) : s.Passing k t (done ++ [tuple])
      (addEntry tuple.destAddr e.nextAddr e.interface (.ofNat (k + 2) + 1) v.1, true) := by
  have hnew : t.find? tuple.destAddr = none := by
    by_contra hsome
    have hkept := h.kept _ (Option.isSome_iff_ne_none.mpr hsome)
    rw [new] at hkept
    cases hkept
  have hunknown : ¬(t.find? tuple.destAddr).isSome := by
    rw [hnew]
    exact Bool.false_ne_true
  have honward : s.Onward tuple.lastAddr tuple.destAddr :=
    ⟨⟨tuple, mem, rfl, rfl⟩, fun hlinked => hunknown (start.linked _ hlinked)⟩
  have hlayer : s.Beyond (k + 1) tuple.destAddr :=
    Layer.next_new far.beyond honward fun m hm hm' => hunknown (start.layers m hm _ hm')
  have hfar : s.Far (k + 1) tuple.destAddr
    ⟨tuple.destAddr, e.nextAddr, e.interface, .ofNat (k + 2) + 1⟩ :=
    ⟨hlayer, rfl, far.nextAddr.step honward, (UInt32.ofNat_add (k + 2) 1).symm⟩
  refine ⟨forall_addEntry h.entry (.inr ⟨k + 1, le_rfl, hfar⟩), fun a ha =>
    isSome_addEntry.mpr (.inr (h.kept a ha)), ?_, nofun, fun _ => ?_⟩
  · intro b hb hlast hnot
    rcases mem_append.mp hb with hb | hb
    · exact isSome_addEntry.mpr (.inr (h.expanded b hb hlast hnot))
    · exact isSome_addEntry.mpr (.inl (congrArg _ (mem_singleton.mp hb)))
  · exact ⟨tuple, mem_append_right _ mem_cons_self, hnew, isSome_addEntry.mpr (.inl rfl), hlayer⟩

theorem Passing.round (hanging : s.Hanging) (start : s.Searched k t) (h : s.Passing k t done v)
    {tuple : TopologyTuple} (mem : tuple ∈ s.topology) : s.Passing k t (done ++ [tuple])
    (topologyRound (.ofNat (k + 2)) v tuple) := by
  rw [topologyRound]
  cases hdest : v.1.find? tuple.destAddr with
  | some _ => exact h.skip fun _ _ => by rw [hdest]; rfl
  | none =>
    cases hlast : v.1.find? tuple.lastAddr with
    | none =>
      refine h.skip fun hlayer _ => ?_
      have hkept := h.kept _ (start.layers k le_rfl _ hlayer)
      rw [hlast] at hkept
      cases hkept
    | some e =>
      have hentry := h.entry _ e hlast
      dsimp only
      split_ifs with hdist
      · exact h.add start mem hdest (hentry.far hanging start.fits hdist)
      · exact h.skip fun hlayer _ => absurd (hentry.distance hlayer) hdist

/-! ## All passes -/

structure Complete (s : Input) (t : Table) : Prop where
  entry : ∀ a e, t.find? a = some e → s.Direct a e ∨ ∃ n, s.Far n a e
  linked : ∀ a, s.LinkedNeighbor a → (t.find? a).isSome
  beyond : ∀ n a, s.Beyond n a → (t.find? a).isSome

theorem Searched.next (hanging : s.Hanging) (h : s.Searched k t) (pass : s.Passing k t s.topology v)
    (added : v.2 = true) : s.Searched (k + 1) v.1 where
  entry := pass.entry
  linked a ha := pass.kept a (h.linked a ha)
  layers n hn a ha := by
    obtain rfl | hlt := Nat.eq_or_lt_of_le hn
    · obtain ⟨b, hb, ⟨tuple, htuple, rfl, rfl⟩, hnot⟩ := Layer.prev ha
      exact pass.expanded tuple htuple hb hnot
    · exact pass.kept a (h.layers n (Nat.lt_succ_iff.mp hlt) a ha)
  fits := by
    obtain ⟨tuple, -, -, -, hlayer⟩ := pass.added added
    exact Beyond.lt_size hanging hlayer

theorem Searched.complete (h : s.Searched k t) (pass : s.Passing k t s.topology v)
    (added : v.2 = false) : s.Complete v.1 := by
  rw [pass.unchanged added]
  refine ⟨fun a e he => (h.entry a e he).imp_right fun ⟨n, _, hfar⟩ =>
    ⟨n, hfar⟩, h.linked, fun n a ha => ?_⟩
  obtain ⟨m, hm, hlayer⟩ := Reach.layer_le ha.reach fun a b hlast hnext => by
    obtain ⟨⟨tuple, htuple, rfl, rfl⟩, hnot⟩ := hnext
    have hsome := pass.expanded tuple htuple hlast hnot
    rw [pass.unchanged added] at hsome
    obtain ⟨e, he⟩ := Option.isSome_iff_exists.mp hsome
    rcases h.entry _ e he with hdirect | ⟨m, hm, hfar⟩
    · exact absurd hdirect.linked hnot
    · exact ⟨m, hm, hfar.beyond⟩
  exact h.layers m hm a hlayer

/-- The addresses that topology tuples lead to and that have no entry. -/
def missing (s : Input) (t : Table) : Finset Ipv4Address :=
  (s.topology.map TopologyTuple.destAddr).toFinset.filter fun a => (t.find? a).isNone

theorem Passing.missing_lt (pass : s.Passing k t s.topology v) (added : v.2 = true) :
    (s.missing v.1).card < (s.missing t).card := by
  obtain ⟨tuple, htuple, hnone, hsome, -⟩ := pass.added added
  refine Finset.card_lt_card (Finset.ssubset_iff_of_subset ?_ |>.mpr ⟨tuple.destAddr, ?_, ?_⟩)
  · intro a ha
    rw [missing, Finset.mem_filter, Option.isNone_iff_eq_none] at ha ⊢
    refine ⟨ha.1, ?_⟩
    by_contra hknown
    have hkept := pass.kept a (Option.isSome_iff_ne_none.mpr hknown)
    rw [ha.2] at hkept
    cases hkept
  · rw [missing, Finset.mem_filter, hnone]
    exact ⟨mem_toFinset.mpr (mem_map_of_mem htuple), rfl⟩
  · rw [missing, Finset.mem_filter]
    exact fun h => by simp [Option.isNone_iff_eq_none.mp h.2] at hsome

/-- The loop ends, since every pass but the last leaves fewer addresses without an entry. -/
theorem Searched.passes (hanging : s.Hanging) (h : s.Searched k t) {bound : ℕ}
    (enough : (s.missing t).card < bound) :
    ∃ t', s.Complete t' ∧ ∀ fuel, bound ≤ fuel → s.topologyPasses fuel (.ofNat (k + 2)) t =
      some t' := by
  induction bound generalizing k t with
  | zero => omega
  | succ bound ih =>
    have hpass :=
      foldl_done (P := s.Passing k t) (fun _ _ _ hmem hpassing => hpassing.round hanging h hmem)
        h.passing
    have hround : ∀ fuel, s.topologyPasses (fuel + 1) (.ofNat (k + 2)) t =
        if !(s.topology.foldl (topologyRound (.ofNat (k + 2))) (t, false)).2 then
          some (s.topology.foldl (topologyRound (.ofNat (k + 2))) (t, false)).1
        else s.topologyPasses fuel (.ofNat (k + 2) + 1)
          (s.topology.foldl (topologyRound (.ofNat (k + 2))) (t, false)).1 :=
      fun _ => rfl
    generalize s.topology.foldl (topologyRound (.ofNat (k + 2))) (t, false) = v at hpass hround
    obtain ⟨t', added⟩ := v
    cases added with
    | false =>
      refine ⟨t', h.complete hpass rfl, fun fuel hfuel => ?_⟩
      obtain ⟨fuel, rfl⟩ := Nat.exists_eq_add_of_le' (Nat.one_le_of_lt hfuel)
      exact hround fuel
    | true =>
      have hfewer := hpass.missing_lt rfl
      obtain ⟨t'', hcomplete, hpasses⟩ :=
        ih (h.next hanging hpass rfl) (hfewer.trans_le (Nat.lt_succ_iff.mp enough))
      refine ⟨t'', hcomplete, fun fuel hfuel => ?_⟩
      obtain ⟨fuel, rfl⟩ := Nat.exists_eq_add_of_le' (Nat.one_le_of_lt hfuel)
      rw [hround, ← hpasses fuel (Nat.le_of_succ_le_succ hfuel)]
      exact congrArg (s.topologyPasses fuel · t') (UInt32.ofNat_add (k + 2) 1).symm

theorem searched_zero (none : s.NoAssociations) (hanging : s.Hanging) :
    s.Searched 0
    (s.twoHopNeighbors.foldl s.twoHopRound (s.neighborSet.foldl s.neighborRound .empty)) := by
  have hnear := foldl_done (P := s.Near) (fun _ _ _ hmem hnear => hnear.round none hmem)
    (⟨nofun, nofun⟩ : s.Near [] .empty)
  have hstart : s.Listing [] (s.neighborSet.foldl s.neighborRound .empty) := by
    refine ⟨fun a e he => .inl (hnear.entry a e he), fun a ha => ?_, nofun⟩
    have hlinked := ha
    obtain ⟨nb, hnb, hsym, rfl, -⟩ := hlinked
    exact hnear.linked nb hnb hsym ha
  have hlisting :=
    foldl_done (P := s.Listing) (fun _ _ _ hmem hlisting => hlisting.round hanging hmem) hstart
  refine ⟨fun a e he => (hlisting.entry a e he).imp_right fun hfar =>
    ⟨0, le_rfl, hfar⟩, hlisting.linked, ?_, by decide⟩
  intro n hn a ha
  obtain rfl := Nat.le_zero.mp hn
  obtain ⟨neighbor, htwo⟩ := layer_zero_iff.mp ha
  obtain ⟨⟨tuple, htuple, rfl, rfl⟩, -⟩ := htwo.listed
  exact hlisting.listed tuple htuple htwo

/-- The routes of the table: to the neighbours, and over them to what lies beyond, by a shortest
chain. -/
structure RoutesRight (s : Input) (t : Table) : Prop where
  found : ∀ a, (∃ e, t.find? a = some e) ↔ s.LinkedNeighbor a ∨ ∃ n, s.Beyond n a
  neighbor : ∀ a e, t.find? a = some e → s.LinkedNeighbor a → e.destAddr = a ∧ e.nextAddr = a ∧
    e.distance = 1
  beyond : ∀ a e n, t.find? a = some e → s.Beyond n a → e.destAddr = a ∧
    e.distance = .ofNat (n + 2) ∧ n + 2 ≤ 2 ^ 32 ∧
    s.LinkedNeighbor e.nextAddr ∧ Reach (s.TwoHop e.nextAddr) s.Onward n a
  sends : ∀ a e, t.find? a = some e → ∀ fuel, 2 ≤ fuel →
    ∃ e', findSendEntry t fuel e = some (some e') ∧ e'.destAddr = e.nextAddr ∧ e'.distance = 1

theorem Complete.sends (h : s.Complete t) (hanging : s.Hanging) (he : t.find? a = some e)
    {fuel : ℕ} :
    ∃ e', findSendEntry t (fuel + 2) e = some (some e') ∧ e'.destAddr = e.nextAddr ∧
      e'.distance = 1 := by
  rcases h.entry a e he with hdirect | ⟨n, hfar⟩
  · have hself := hdirect.destAddr.trans hdirect.nextAddr.symm
    exact ⟨e, by rw [findSendEntry, if_pos hself], hself, hdirect.distance⟩
  · obtain ⟨b, htwo⟩ := hfar.nextAddr.exists_seed
    have hlinked := htwo.linked hanging
    obtain ⟨e', he'⟩ := Option.isSome_iff_exists.mp (h.linked _ hlinked)
    have hdirect : s.Direct e.nextAddr e' :=
      (h.entry _ e' he').resolve_right fun ⟨_, hfar'⟩ => not_linked_of_beyond hfar'.beyond hlinked
    have hother : e.destAddr ≠ e.nextAddr := by
      rw [hfar.destAddr]
      rintro rfl
      exact not_linked_of_beyond hfar.beyond hlinked
    refine ⟨e', ?_, hdirect.destAddr, hdirect.distance⟩
    rw [findSendEntry, if_neg hother, he']
    dsimp only
    rw [findSendEntry, if_pos (hdirect.destAddr.trans hdirect.nextAddr.symm)]

theorem Complete.right (h : s.Complete t) (hanging : s.Hanging) : s.RoutesRight t where
  found a := by
    constructor
    · rintro ⟨e, he⟩
      rcases h.entry a e he with hdirect | ⟨n, hfar⟩
      · exact .inl hdirect.linked
      · exact .inr ⟨n, hfar.beyond⟩
    · rintro (hlinked | ⟨n, hbeyond⟩)
      · exact Option.isSome_iff_exists.mp (h.linked a hlinked)
      · exact Option.isSome_iff_exists.mp (h.beyond n a hbeyond)
  neighbor a e he hlinked := by
    have hdirect : s.Direct a e :=
      (h.entry a e he).resolve_right fun ⟨_, hfar⟩ => not_linked_of_beyond hfar.beyond hlinked
    exact ⟨hdirect.destAddr, hdirect.nextAddr, hdirect.distance⟩
  beyond a e n he hbeyond := by
    rcases h.entry a e he with hdirect | ⟨m, hfar⟩
    · exact absurd hdirect.linked (not_linked_of_beyond hbeyond)
    · obtain rfl := Layer.unique hfar.beyond hbeyond
      obtain ⟨b, htwo⟩ := hfar.nextAddr.exists_seed
      exact ⟨hfar.destAddr, hfar.distance, Beyond.lt_size hanging hbeyond, htwo.linked hanging,
        hfar.nextAddr⟩
  sends a e he fuel hfuel := by
    obtain ⟨fuel, rfl⟩ := Nat.exists_eq_add_of_le' hfuel
    exact h.sends hanging he

end Input

/-- The computation ends, and with the shortest routes. -/
theorem shortest_routes {s : Input} (none : s.NoAssociations) (hanging : s.Hanging) :
    ∃ t bound, (∀ fuel, bound ≤ fuel → s.routingTableComputation fuel = some t) ∧
      s.RoutesRight t := by
  obtain ⟨t, hcomplete, hpasses⟩ :=
    (Input.searched_zero none hanging).passes hanging (Nat.lt_succ_self _)
  let start := s.twoHopNeighbors.foldl s.twoHopRound (s.neighborSet.foldl s.neighborRound .empty)
  refine ⟨t, (s.missing start).card + 1, fun fuel hfuel => ?_, hcomplete.right hanging⟩
  have hend := hpasses fuel hfuel
  rw [Input.routingTableComputation, show (2 : UInt32) = .ofNat (0 + 2) from rfl, hend, none]
  rfl

def someNode : Input where
  config := ⟨1, 6 * second, []⟩
  now := 10 * second
  interfaces := [[127], [1]]
  linkSet := [⟨1, 2, 0, 0, 15 * second⟩, ⟨1, 3, 0, 0, 15 * second⟩, ⟨1, 4, 0, 0, 9 * second⟩]
  neighborSet := [⟨2, .sym, 3⟩, ⟨3, .sym, 3⟩, ⟨4, .sym, 3⟩]
  twoHopNeighbors := [⟨2, 4, 15 * second⟩, ⟨2, 5, 15 * second⟩]
  topology := [⟨3, 5, 1, 20 * second⟩, ⟨6, 3, 1, 20 * second⟩, ⟨8, 7, 1, 20 * second⟩,
    ⟨7, 5, 1, 20 * second⟩]

theorem shortest_routes_someNode : ∃ t bound,
    (∀ fuel, bound ≤ fuel → someNode.routingTableComputation fuel = some t) ∧
    someNode.RoutesRight t :=
  shortest_routes rfl (by decide +kernel)

/-- Node 4 is listed under node 2, and a chain leads from node 5 over node 3 to node 6. -/
theorem someNode_without_routes : someNode.NoAssociations ∧ someNode.Hanging ∧
    ∃ t, someNode.routingTableComputation 5 = some t ∧ (someNode.Listed 2 4 ∧ t.find? 4 = none) ∧
      (Reach (fun b => ∃ e, t.find? b = some e ∧ e.distance = 2) someNode.Leads 2 6 ∧
        t.find? 6 = none) ∧
      ¬∀ a, a ≠ someNode.config.m_mainAddress →
      ((∃ e, t.find? a = some e) ↔ someNode.LinkedNeighbor a ∨
        (∃ neighbor, someNode.Listed neighbor a) ∨
        ∃ n, Reach (fun b => ∃ e, t.find? b = some e ∧ e.distance = 2) someNode.Leads n a) := by
  have hrun : (someNode.routingTableComputation 5).map
      (fun t => (t.find? 4, t.find? 5, t.find? 6)) = some (none, some ⟨5, 2, 1, 2⟩, none) := by
    decide +kernel
  obtain ⟨t, ht, hfound⟩ := Option.map_eq_some_iff.mp hrun
  simp only [Prod.mk.injEq] at hfound
  obtain ⟨hfour, hfive, hsix⟩ := hfound
  have hlisted : someNode.Listed 2 4 := by decide +kernel
  have hfirst : someNode.Leads 5 3 := by decide +kernel
  have hsecond : someNode.Leads 3 6 := by decide +kernel
  refine ⟨rfl, by decide +kernel, t, ht, ⟨hlisted, hfour⟩,
    ⟨.step (.step (.seed ⟨_, hfive, rfl⟩) hfirst) hsecond, hsix⟩, fun h => ?_⟩
  obtain ⟨e, he⟩ := (h 4 (by decide)).mpr (.inr (.inl ⟨2, hlisted⟩))
  rw [hfour] at he
  cases he

end Egsr.Olsr.RoutingTable
