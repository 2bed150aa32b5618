import Egsr.Olsr.NeighborSensing

/-! The status of neighbours. What a neighbour tuple says is what its links say,
as long as every link that is symmetric has a timer that is due right after it
ceases to be. -/

namespace Egsr.Olsr.NeighborSensing

open Lib.Run Lib.Outcome List Option RoutingProtocol

/-! ## Neighbour tuples -/

section Neighbors

variable {m m' : Ipv4Address} {tuple : NeighborTuple} {neighbors : List NeighborTuple}
  {f : NeighborTuple → NeighborTuple}

theorem findNeighborTuple_cons (it : NeighborTuple) : findNeighborTuple m (it :: neighbors) =
    if it.neighborMainAddr = m then some it else findNeighborTuple m neighbors := by
  unfold findNeighborTuple
  by_cases h : it.neighborMainAddr = m
  · rw [if_pos h, List.find?_cons_of_pos (by simpa using h)]
  · rw [if_neg h, List.find?_cons_of_neg (by simpa using h)]

theorem findNeighborTuple_eq_none :
    findNeighborTuple m neighbors = none ↔ ∀ it ∈ neighbors, it.neighborMainAddr ≠ m := by
  simp [findNeighborTuple]

theorem mem_of_findNeighborTuple (found : findNeighborTuple m neighbors = some tuple) :
    tuple ∈ neighbors ∧ tuple.neighborMainAddr = m :=
  ⟨mem_of_find?_eq_some found, by simpa using List.find?_some found⟩

theorem find_insertNeighborTuple : findNeighborTuple m (insertNeighborTuple tuple neighbors) =
    if tuple.neighborMainAddr = m then some tuple else findNeighborTuple m neighbors := by
  induction neighbors with
  | nil => rw [insertNeighborTuple, findNeighborTuple_cons]
  | cons it rest ih =>
    rw [insertNeighborTuple]
    split_ifs with hit hm hm
    · rw [findNeighborTuple_cons, if_pos hm]
    · rw [findNeighborTuple_cons, findNeighborTuple_cons, if_neg hm, if_neg (hit ▸ hm)]
    · rw [findNeighborTuple_cons, ih, if_pos hm, if_neg fun h => hit (h.trans hm.symm)]
    · rw [findNeighborTuple_cons, ih, if_neg hm, findNeighborTuple_cons]

theorem find_modifyNeighborTuple (main : ∀ it, (f it).neighborMainAddr = it.neighborMainAddr) :
    findNeighborTuple m (modifyNeighborTuple m' f neighbors) =
      if m' = m then (findNeighborTuple m neighbors).map f else findNeighborTuple m neighbors := by
  induction neighbors with
  | nil => simp [modifyNeighborTuple, findNeighborTuple]
  | cons it rest ih =>
    rw [modifyNeighborTuple]
    by_cases hit : it.neighborMainAddr = m'
    · rw [if_pos hit, findNeighborTuple_cons, findNeighborTuple_cons, main]
      by_cases hm : m' = m
      · rw [if_pos (hit.trans hm), if_pos hm, if_pos (hit.trans hm), map_some]
      · rw [if_neg (hit ▸ hm), if_neg hm, if_neg (hit ▸ hm)]
    · rw [if_neg hit, findNeighborTuple_cons, findNeighborTuple_cons, ih]
      by_cases hm : m' = m
      · rw [if_pos hm, if_pos hm, if_neg (hm ▸ hit), if_neg (hm ▸ hit)]
      · rw [if_neg hm, if_neg hm]

def DistinctNeighbors (neighbors : List NeighborTuple) : Prop :=
  neighbors.Pairwise fun a b => a.neighborMainAddr ≠ b.neighborMainAddr

theorem mainAddr_insertNeighborTuple {it : NeighborTuple}
    (mem : it ∈ insertNeighborTuple tuple neighbors) :
    it.neighborMainAddr = tuple.neighborMainAddr ∨ it ∈ neighbors := by
  induction neighbors with
  | nil => exact .inl (by rw [mem_singleton.mp mem])
  | cons b rest ih =>
    rw [insertNeighborTuple] at mem
    split_ifs at mem
    · exact (mem_cons.mp mem).imp (fun h => by rw [h]) fun h => mem_cons_of_mem _ h
    · rcases mem_cons.mp mem with rfl | hmem
      · exact .inr mem_cons_self
      · exact (ih hmem).imp_right fun h => mem_cons_of_mem _ h

section

variable (h : DistinctNeighbors neighbors)

include h

theorem DistinctNeighbors.insert : DistinctNeighbors (insertNeighborTuple tuple neighbors) := by
  induction neighbors with
  | nil => exact pairwise_singleton _ _
  | cons it rest ih =>
    obtain ⟨hfirst, hrest⟩ := pairwise_cons.mp h
    rw [insertNeighborTuple]
    split_ifs with hit
    · exact pairwise_cons.mpr ⟨fun b hb => hit ▸ hfirst b hb, hrest⟩
    · refine pairwise_cons.mpr ⟨fun b hb => ?_, ih hrest⟩
      rcases mainAddr_insertNeighborTuple hb with heq | hmem
      · exact heq ▸ hit
      · exact hfirst b hmem

theorem DistinctNeighbors.modify (main : ∀ it, (f it).neighborMainAddr = it.neighborMainAddr) :
    DistinctNeighbors (modifyNeighborTuple m f neighbors) := by
  have hmap : (modifyNeighborTuple m f neighbors).map (fun it => it.neighborMainAddr) =
      neighbors.map fun it => it.neighborMainAddr := by
    induction neighbors with
    | nil => rfl
    | cons it rest ih =>
      rw [modifyNeighborTuple]
      split_ifs
      · rw [map_cons, map_cons, main]
      · rw [map_cons, map_cons, ih (pairwise_cons.mp h).2]
  have hpairwise := pairwise_map.mpr h
  rw [← hmap] at hpairwise
  exact pairwise_map.mp hpairwise

theorem DistinctNeighbors.erase :
    DistinctNeighbors (eraseNeighborTuple m neighbors) := h.sublist eraseP_sublist

theorem find_eraseNeighborTuple : findNeighborTuple m (eraseNeighborTuple m' neighbors) =
      if m' = m then none else findNeighborTuple m neighbors := by
  induction neighbors with
  | nil => simp [eraseNeighborTuple, findNeighborTuple]
  | cons it rest ih =>
    obtain ⟨hfirst, hrest⟩ := pairwise_cons.mp h
    unfold eraseNeighborTuple at ih ⊢
    by_cases hit : it.neighborMainAddr = m'
    · rw [eraseP_cons_of_pos (by simpa using hit)]
      split_ifs with hm
      · refine findNeighborTuple_eq_none.mpr fun b hb heq => hfirst b hb ?_
        rw [hit, heq, hm]
      · rw [findNeighborTuple_cons, if_neg (hit ▸ hm)]
    · rw [eraseP_cons_of_neg (by simpa using hit), findNeighborTuple_cons, findNeighborTuple_cons,
        ih hrest]
      by_cases hm : m' = m
      · rw [if_pos hm, if_pos hm, if_neg (hm ▸ hit)]
      · rw [if_neg hm, if_neg hm]

theorem DistinctNeighbors.find (mem : tuple ∈ neighbors) :
    findNeighborTuple tuple.neighborMainAddr neighbors = some tuple := by
  induction neighbors with
  | nil => cases mem
  | cons it rest ih =>
    obtain ⟨hfirst, hrest⟩ := pairwise_cons.mp h
    rw [findNeighborTuple_cons]
    rcases mem_cons.mp mem with rfl | hmem
    · rw [if_pos rfl]
    · rw [if_neg (hfirst tuple hmem), ih hrest hmem]

end

end Neighbors

def RoutingProtocol.statusOf (s : RoutingProtocol) (m : Ipv4Address) : Option Status :=
  (findNeighborTuple m s.m_neighborSet).map fun it => it.status

structure Restated (s t : RoutingProtocol) (m : Ipv4Address) (status : Status) : Prop where
  links : t.m_linkSet = s.m_linkSet
  pending : t.pending = s.pending
  now : t.now = s.now
  distinct : DistinctNeighbors s.m_neighborSet → DistinctNeighbors t.m_neighborSet
  status : ∀ m', t.statusOf m' = if m = m' then some status else s.statusOf m'

variable (c : Config) {s t u : RoutingProtocol}

variable {m : Ipv4Address}

theorem Restated.trans {a b : Status} (h : Restated s t m a) (h' : Restated t u m b) :
    Restated s u m b where
  links := h'.links.trans h.links
  pending := h'.pending.trans h.pending
  now := h'.now.trans h.now
  distinct := h'.distinct ∘ h.distinct
  status m' := by
    rw [h'.status, h.status]
    split_ifs <;> rfl

theorem linkTupleAdded_restated (s : RoutingProtocol) (tuple : LinkTuple) (willingness : UInt8) :
    Restated s (s.linkTupleAdded c tuple willingness) (c.getMainAddress tuple.neighborIfaceAddr)
      (if tuple.symTime ≥ s.now then .sym else .notSym) where
  links := rfl
  pending := rfl
  now := rfl
  distinct h := h.insert
  status m' := by
    have hfind : findNeighborTuple m' (s.linkTupleAdded c tuple willingness).m_neighborSet = _ :=
      find_insertNeighborTuple
    rw [RoutingProtocol.statusOf, hfind]
    by_cases hm : c.getMainAddress tuple.neighborIfaceAddr = m'
    · rw [if_pos hm, if_pos hm]
      rfl
    · rw [if_neg hm, if_neg hm]
      rfl

theorem updateStatus_restated (known : (s.statusOf m).isSome) :
    Restated s (s.updateStatus c m) m (if s.hasSymmetricLink c m then .sym else .notSym) where
  links := rfl
  pending := rfl
  now := rfl
  distinct h := h.modify fun _ => rfl
  status m' := by
    have hfind : findNeighborTuple m' (s.updateStatus c m).m_neighborSet = _ :=
      find_modifyNeighborTuple (by intro _; rfl)
    rw [RoutingProtocol.statusOf, hfind]
    by_cases hm : m = m'
    · subst hm
      rw [RoutingProtocol.statusOf, isSome_map] at known
      obtain ⟨it, hit⟩ := isSome_iff_exists.mp known
      rw [if_pos rfl, if_pos rfl, hit]
      rfl
    · rw [if_neg hm, if_neg hm]
      rfl

theorem linkTupleUpdated_restated (s : RoutingProtocol) (tuple : LinkTuple) (willingness : UInt8) :
    Restated s (s.linkTupleUpdated c tuple willingness) (c.getMainAddress tuple.neighborIfaceAddr)
      (if s.hasSymmetricLink c (c.getMainAddress tuple.neighborIfaceAddr) then .sym
        else .notSym) := by
  unfold linkTupleUpdated
  dsimp only
  by_cases hnone :
    (findNeighborTuple (c.getMainAddress tuple.neighborIfaceAddr) s.m_neighborSet).isNone
  · rw [if_pos hnone]
    have hadded := linkTupleAdded_restated c s tuple willingness
    refine hadded.trans (updateStatus_restated c ?_)
    rw [hadded.status, if_pos rfl]
    rfl
  · rw [if_neg hnone]
    refine updateStatus_restated c ?_
    rw [RoutingProtocol.statusOf, isSome_map]
    exact isSome_iff_ne_none.mpr (by simpa using hnone)

/-- A timer of the link is due within a microsecond after it ceases to be symmetric. -/
def Due (pending : List Event) (tuple : LinkTuple) : Prop :=
  ∃ e ∈ pending, e.handler = .linkTupleTimerExpire tuple.neighborIfaceAddr ∧
    e.ts ≤ tuple.symTime + microsecond

variable {tuple : LinkTuple} {pending : List Event}

theorem Due.mono {pending' : List Event} (h : Due pending tuple)
    (sub : ∀ e ∈ pending, e.handler = .linkTupleTimerExpire tuple.neighborIfaceAddr →
      e ∈ pending') :
    Due pending' tuple := by
  obtain ⟨e, he, hhandler, hts⟩ := h
  exact ⟨e, sub e he hhandler, hhandler, hts⟩

def Symmetric (c : Config) (s : RoutingProtocol) (m : Ipv4Address) : Prop :=
  ∃ tuple ∈ s.m_linkSet, c.getMainAddress tuple.neighborIfaceAddr = m ∧ s.now ≤ tuple.symTime

theorem hasSymmetricLink_iff : s.hasSymmetricLink c m = true ↔ Symmetric c s m := by
  simp [hasSymmetricLink, Symmetric]

structure StatusOk (c : Config) (s : RoutingProtocol) (m : Ipv4Address) : Prop where
  sym : s.statusOf m ≠ none → Symmetric c s m → s.statusOf m = some .sym
  notSym : s.statusOf m = some .sym →
    ∃ tuple ∈ s.m_linkSet, c.getMainAddress tuple.neighborIfaceAddr = m ∧ Due s.pending tuple

structure SensingOk (c : Config) (s : RoutingProtocol) : Prop where
  events : ∀ e ∈ s.pending, s.now ≤ e.ts
  links : s.m_linkSet.Pairwise fun a b => a.neighborIfaceAddr ≠ b.neighborIfaceAddr
  neighbors : DistinctNeighbors s.m_neighborSet
  due : ∀ tuple ∈ s.m_linkSet, s.now ≤ tuple.symTime → Due s.pending tuple
  known : ∀ tuple ∈ s.m_linkSet, s.now ≤ tuple.time →
    s.statusOf (c.getMainAddress tuple.neighborIfaceAddr) ≠ none
  status : ∀ m, StatusOk c s m

theorem StatusOk.same (h : StatusOk c s m) (now : s.now ≤ t.now)
    (status : t.statusOf m = s.statusOf m)
    (links : ∀ tuple, c.getMainAddress tuple.neighborIfaceAddr = m →
      (tuple ∈ t.m_linkSet ↔ tuple ∈ s.m_linkSet))
    (pending : ∀ tuple, c.getMainAddress tuple.neighborIfaceAddr = m → tuple ∈ s.m_linkSet →
      Due s.pending tuple → Due t.pending tuple) : StatusOk c t m where
  sym hknown := by
    rintro ⟨tuple, hmem, hmain, hsym⟩
    rw [status] at hknown ⊢
    exact h.sym hknown ⟨tuple, (links tuple hmain).mp hmem, hmain, le_trans now hsym⟩
  notSym hsym := by
    obtain ⟨tuple, hmem, hmain, hdue⟩ := h.notSym (status ▸ hsym)
    exact ⟨tuple, (links tuple hmain).mpr hmem, hmain, pending tuple hmain hmem hdue⟩

theorem StatusOk.fresh (due : ∀ tuple ∈ s.m_linkSet, s.now ≤ tuple.symTime → Due s.pending tuple)
    (status : s.statusOf m = some .sym ↔ Symmetric c s m) : StatusOk c s m where
  sym _ hsym := status.mpr hsym
  notSym hsym := by
    obtain ⟨tuple, hmem, hmain, hle⟩ := status.mp hsym
    exact ⟨tuple, hmem, hmain, due tuple hmem hle⟩

theorem SensingOk.wait (h : SensingOk c s) {now : ℤ} (le : s.now ≤ now)
    (events : ∀ e ∈ s.pending, now ≤ e.ts) : SensingOk c { s with now } where
  events := events
  links := h.links
  neighbors := h.neighbors
  due tuple hmem hsym := h.due tuple hmem (le_trans le hsym)
  known tuple hmem htime := h.known tuple hmem (le_trans le htime)
  status m := (h.status m).same c le rfl (fun _ _ => Iff.rfl) fun _ _ _ hdue => hdue

/-! ## HELLO messages -/

section Links

variable {links : List LinkTuple} {tuple new : LinkTuple}

theorem mem_replaceLink
    (distinct : links.Pairwise fun a b => a.neighborIfaceAddr ≠ b.neighborIfaceAddr)
    (mem : tuple ∈ links) (same : new.neighborIfaceAddr = tuple.neighborIfaceAddr)
    {it : LinkTuple} : it ∈ replaceLink new links ↔
      it = new ∨ it ∈ links ∧ it.neighborIfaceAddr ≠ new.neighborIfaceAddr := by
  induction links with
  | nil => cases mem
  | cons b rest ih =>
    obtain ⟨hfirst, hrest⟩ := pairwise_cons.mp distinct
    rw [replaceLink]
    by_cases hb : b.neighborIfaceAddr = new.neighborIfaceAddr
    · rw [if_pos hb, mem_cons, mem_cons]
      refine or_congr_right
        ⟨fun hmem => ⟨.inr hmem, fun heq => hfirst it hmem (hb.trans heq.symm)⟩, ?_⟩
      rintro ⟨rfl | hmem, hne⟩
      · exact absurd hb hne
      · exact hmem
    · rw [if_neg hb, mem_cons, mem_cons]
      have hmem : tuple ∈ rest := by
        rcases mem_cons.mp mem with rfl | hmem
        · exact absurd same.symm hb
        · exact hmem
      rw [ih hrest hmem]
      constructor
      · rintro (rfl | rfl | ⟨hit, hne⟩)
        · exact .inr ⟨.inl rfl, hb⟩
        · exact .inl rfl
        · exact .inr ⟨.inr hit, hne⟩
      · rintro (rfl | ⟨rfl | hit, hne⟩)
        · exact .inr (.inl rfl)
        · exact .inl rfl
        · exact .inr (.inr ⟨hit, hne⟩)

theorem pairwise_replaceLink
    (distinct : links.Pairwise fun a b => a.neighborIfaceAddr ≠ b.neighborIfaceAddr) :
    (replaceLink new links).Pairwise fun a b => a.neighborIfaceAddr ≠ b.neighborIfaceAddr := by
  have hmap : (replaceLink new links).map (fun it => it.neighborIfaceAddr) =
      links.map fun it => it.neighborIfaceAddr := by
    induction links with
    | nil => rfl
    | cons b rest ih =>
      rw [replaceLink]
      split_ifs with hb
      · rw [map_cons, map_cons, hb]
      · rw [map_cons, map_cons, ih (pairwise_cons.mp distinct).2]
  have hpairwise := pairwise_map.mpr distinct
  rw [← hmap] at hpairwise
  exact pairwise_map.mp hpairwise

end Links

/-- The last valid link type that a HELLO message has for an address. -/
def declared (address : Ipv4Address) (messages : List LinkMessage) : Option LinkType :=
  ((messages.filter fun m => !m.ignored && address ∈ m.neighborInterfaceAddresses).getLast?).map
    LinkMessage.linkType

def sensedSymTime (now vTime symTime : ℤ) : Option LinkType → ℤ
  | none => symTime
  | some .lost => now - second
  | some _ => now + vTime

theorem senseLink_spec {now vTime : ℤ} {receiverIface : Ipv4Address} {messages : List LinkMessage}
    {updated : Bool} :
    Ensures (senseLink c now vTime receiverIface messages tuple updated)
      (fun p => p.1.neighborIfaceAddr = tuple.neighborIfaceAddr ∧
        p.1.localIfaceAddr = tuple.localIfaceAddr ∧
        p.1.symTime = sensedSymTime now vTime tuple.symTime (declared receiverIface messages) ∧
        p.2 = (updated || (declared receiverIface messages).isSome)) fun _ => True := by
  induction messages generalizing tuple updated with
  | nil => exact ensures_ok.mpr ⟨rfl, rfl, rfl, (Bool.or_false _).symm⟩
  | cons m messages ih =>
    have hskip : (!m.ignored && decide (receiverIface ∈ m.neighborInterfaceAddresses)) = false →
        declared receiverIface (m :: messages) = declared receiverIface messages := by
      intro h
      have hfilter : ((m :: messages).filter fun m => !m.ignored &&
          decide (receiverIface ∈ m.neighborInterfaceAddresses)) = messages.filter fun m =>
            !m.ignored && decide (receiverIface ∈ m.neighborInterfaceAddresses) :=
        filter_cons_of_neg (by simpa using h)
      rw [declared, hfilter, declared]
    have htake : (!m.ignored && decide (receiverIface ∈ m.neighborInterfaceAddresses)) = true →
        declared receiverIface (m :: messages) =
          some ((declared receiverIface messages).getD m.linkType) := by
      intro h
      have hfilter : ((m :: messages).filter fun m => !m.ignored &&
          decide (receiverIface ∈ m.neighborInterfaceAddresses)) = m :: messages.filter fun m =>
            !m.ignored && decide (receiverIface ∈ m.neighborInterfaceAddresses) :=
              filter_cons_of_pos h
      rw [declared, hfilter, List.getLast?_cons, map_some, declared]
      generalize (messages.filter _).getLast? = last
      cases last <;> rfl
    have hkeep : ∀ {symTime symTime' : ℤ}, symTime' =
      sensedSymTime now vTime symTime (some m.linkType) →
        ∀ d : Option LinkType, sensedSymTime now vTime symTime' d =
          sensedSymTime now vTime symTime (some (d.getD m.linkType)) := by
      rintro _ _ rfl (_ | d)
      · rfl
      · cases d <;> rfl
    rw [senseLink]
    by_cases hignored : m.ignored
    · rw [if_pos hignored, hskip (by simp [hignored])]
      exact ih
    rw [if_neg hignored]
    by_cases hmem : receiverIface ∈ m.neighborInterfaceAddresses
    · rw [if_pos hmem, htake (by simp [hignored, hmem])]
      cases htype : m.linkType with
      | unspec => exact ensures_error.mpr trivial
      | asym =>
        refine ih.weaken fun p hp => ⟨hp.1, hp.2.1, hp.2.2.1.trans ?_, by simpa using hp.2.2.2⟩
        exact htype ▸ hkeep (by rw [htype]; rfl) _
      | sym =>
        refine ih.weaken fun p hp => ⟨hp.1, hp.2.1, hp.2.2.1.trans ?_, by simpa using hp.2.2.2⟩
        exact htype ▸ hkeep (by rw [htype]; rfl) _
      | lost =>
        refine ih.weaken fun p hp => ⟨hp.1, hp.2.1, hp.2.2.1.trans ?_, by simpa using hp.2.2.2⟩
        exact htype ▸ hkeep (by rw [htype]; rfl) _
    · rw [if_neg hmem, hskip (by simp [hmem])]
      exact ih

theorem Restated.schedule {status : Status} (h : Restated s t m status) (time : ℤ)
    (handler : Handler) : Restated (s.schedule time handler)
    (t.schedule time handler) m status where
  links := h.links
  pending := by
    rw [RoutingProtocol.schedule, RoutingProtocol.schedule, delay, delay,
      h.pending, h.now]
  now := h.now
  distinct := h.distinct
  status := h.status

theorem le_delay (s : RoutingProtocol) (time : ℤ) : s.now ≤ s.now + s.delay time := by
  unfold delay microsecond
  split_ifs <;> omega

theorem delay_le (s : RoutingProtocol) {time latest : ℤ} (le : time ≤ latest)
    (now : s.now ≤ latest) : s.now + s.delay time ≤ latest + microsecond := by
  unfold delay microsecond
  split_ifs <;> omega

variable {c}

theorem Restated.sensingOk {status : Status} (h : Restated s t m status)
    (events : ∀ e ∈ s.pending, s.now ≤ e.ts)
    (links : s.m_linkSet.Pairwise fun a b => a.neighborIfaceAddr ≠ b.neighborIfaceAddr)
    (neighbors : DistinctNeighbors s.m_neighborSet)
    (due : ∀ tuple ∈ s.m_linkSet, s.now ≤ tuple.symTime → Due s.pending tuple)
    (known : ∀ tuple ∈ s.m_linkSet, c.getMainAddress tuple.neighborIfaceAddr ≠ m →
      s.now ≤ tuple.time → s.statusOf (c.getMainAddress tuple.neighborIfaceAddr) ≠ none)
    (others : ∀ m', m' ≠ m → StatusOk c s m') (fresh : status = .sym ↔ Symmetric c s m) :
      SensingOk c t := by
  have hdue : ∀ tuple ∈ t.m_linkSet, t.now ≤ tuple.symTime → Due t.pending tuple := by
    intro tuple hmem hsym
    rw [h.pending]
    exact due tuple (h.links ▸ hmem) (h.now ▸ hsym)
  refine ⟨?_, h.links ▸ links, h.distinct neighbors, hdue, fun tuple hmem htime => ?_, fun m' => ?_⟩
  · rw [h.pending, h.now]
    exact events
  · rw [h.status]
    split_ifs with hm
    · simp
    · exact known tuple (h.links ▸ hmem) (Ne.symm hm) (h.now ▸ htime)
  · by_cases hm : m = m'
    · subst hm
      refine .fresh c hdue ?_
      rw [h.status, if_pos rfl, Option.some.injEq, fresh, Symmetric, Symmetric, h.links, h.now]
    · refine (others m' (Ne.symm hm)).same c (le_of_eq h.now.symm) ?_ (fun _ _ => ?_) fun _ _ _
        hdue' => ?_
      · rw [h.status, if_neg hm]
      · rw [h.links]
      · rw [h.pending]
        exact hdue'

theorem SensingOk.more (h : SensingOk c s) (now : t.now = s.now) (links : t.m_linkSet = s.m_linkSet)
    (neighbors : DistinctNeighbors t.m_neighborSet) (status : ∀ m, t.statusOf m = s.statusOf m)
    (pending : ∀ e ∈ s.pending, e ∈ t.pending) (events : ∀ e ∈ t.pending, t.now ≤ e.ts) :
      SensingOk c t where
  events := events
  links := links ▸ h.links
  neighbors := neighbors
  due tuple hmem hsym := (h.due tuple (links ▸ hmem) (now ▸ hsym)).mono fun e he _ => pending e he
  known tuple hmem htime := by
    rw [status]
    exact h.known tuple (links ▸ hmem) (now ▸ htime)
  status m := (h.status m).same c (le_of_eq now.symm) (status m) (fun _ _ => by rw [links])
    fun _ _ _ hdue => hdue.mono fun e he _ => pending e he

theorem SensingOk.schedule (h : SensingOk c s) (time : ℤ) (handler : Handler) :
    SensingOk c (s.schedule time handler) := by
  refine h.more rfl rfl h.neighbors (fun _ => rfl) (fun e he => mem_append_left _ he) fun e he => ?_
  rcases mem_append.mp he with he | he
  · exact h.events e he
  · rw [mem_singleton.mp he]
    exact le_delay s time

theorem SensingOk.populateNeighborSet (h : SensingOk c s) (hello : Hello) :
    SensingOk c (s.populateNeighborSet hello) := by
  refine h.more rfl rfl (h.neighbors.modify fun _ => rfl) (fun m => ?_) (fun _ he => he) h.events
  have hfind : findNeighborTuple m (s.populateNeighborSet hello).m_neighborSet = _ :=
    find_modifyNeighborTuple (by intro _; rfl)
  rw [RoutingProtocol.statusOf, hfind]
  split_ifs
  · rw [Option.map_map]
    rfl
  · rfl

theorem SensingOk.selectedAsMpr (h : SensingOk c s) (hello : Hello) :
    SensingOk c (RoutingProtocol.selectedAsMpr hello s) := by
  unfold RoutingProtocol.selectedAsMpr
  cases s.findMprSelectorTuple hello.originatorAddress with
  | none =>
    have hadded :
      SensingOk c (s.addMprSelectorTuple ⟨hello.originatorAddress, s.now + hello.vTime⟩) :=
      h.more rfl rfl h.neighbors (fun _ => rfl) (fun _ he => he) h.events
    exact hadded.schedule _ _
  | some tuple => exact h.more rfl rfl h.neighbors (fun _ => rfl) (fun _ he => he) h.events

theorem SensingOk.populateMprSelectorSet (h : SensingOk c s) (hello : Hello) :
    SensingOk c (s.populateMprSelectorSet c hello) := by
  unfold RoutingProtocol.populateMprSelectorSet
  generalize hello.linkMessages = messages
  induction messages generalizing s with
  | nil => exact h
  | cons m messages ih =>
    rw [foldl_cons]
    refine ih ?_
    split_ifs
    · generalize m.neighborInterfaceAddresses = addresses
      induction addresses generalizing s with
      | nil => exact h
      | cons a addresses ih =>
        rw [foldl_cons]
        split_ifs
        · exact ih (h.selectedAsMpr hello)
        · exact ih h
    · exact h

def declaresSym : Option LinkType → Bool
  | none | some .lost => false
  | some _ => true

/-- A link that becomes symmetric has a timer that is due in time, and a new link that is not
symmetric is not another one of a neighbour that has a symmetric one. -/
def HelloInTime (c : Config) (s : RoutingProtocol) (hello : Hello)
    (receiverIface senderIface : Ipv4Address) : Prop :=
  if (s.findLinkTuple senderIface).isSome then
    declaresSym (declared receiverIface hello.linkMessages) = true →
      ∃ e ∈ s.pending, e.handler = .linkTupleTimerExpire senderIface ∧
        e.ts ≤ s.now + hello.vTime + microsecond
  else declaresSym (declared receiverIface hello.linkMessages) = false →
    s.hasSymmetricLink c (c.getMainAddress senderIface) = false
deriving Decidable

theorem SensingOk.existingLink (h : SensingOk c s) (new : LinkTuple) (mem : tuple ∈ s.m_linkSet)
    (address : new.neighborIfaceAddr = tuple.neighborIfaceAddr)
    (due : s.now ≤ new.symTime → Due s.pending new) (willingness : UInt8) :
    SensingOk c (({ s with m_linkSet := replaceLink new s.m_linkSet } :
      RoutingProtocol).linkTupleUpdated c new willingness) := by
  have hmem : ∀ it, it ∈ replaceLink new s.m_linkSet ↔
      it = new ∨ it ∈ s.m_linkSet ∧ it.neighborIfaceAddr ≠ new.neighborIfaceAddr := fun it =>
    mem_replaceLink h.links mem address
  refine (linkTupleUpdated_restated c _ new willingness).sensingOk h.events
    (pairwise_replaceLink h.links)
    h.neighbors (fun it hit hsym => ?_) (fun it hit hne htime => ?_) (fun m' hm' => ?_) ?_
  · rcases (hmem it).mp hit with rfl | ⟨hit, -⟩
    · exact due hsym
    · exact h.due it hit hsym
  · rcases (hmem it).mp hit with rfl | ⟨hit, -⟩
    · exact absurd rfl hne
    · exact h.known it hit htime
  · refine (h.status m').same c le_rfl rfl (fun it hmain => ?_) fun _ _ _ hdue => hdue
    rw [hmem]
    constructor
    · rintro (rfl | ⟨hit, -⟩)
      · exact absurd hmain.symm hm'
      · exact hit
    · intro hit
      exact .inr ⟨hit, fun heq => hm' (hmain.symm.trans (congrArg c.getMainAddress heq))⟩
  · rw [← hasSymmetricLink_iff]
    split_ifs with hsym
    · exact iff_of_true rfl hsym
    · exact iff_of_false (by simp) hsym

theorem findLinkTuple_eq_some {address : Ipv4Address}
    (found : s.findLinkTuple address = some tuple) :
    tuple ∈ s.m_linkSet ∧ tuple.neighborIfaceAddr = address :=
  ⟨mem_of_find?_eq_some found, by simpa using List.find?_some found⟩

theorem findLinkTuple_eq_none {address : Ipv4Address} :
    s.findLinkTuple address = none ↔ ∀ tuple ∈ s.m_linkSet, tuple.neighborIfaceAddr ≠ address := by
  simp [findLinkTuple]

theorem SensingOk.newLink (h : SensingOk c s) (new : LinkTuple)
    (absent : s.findLinkTuple new.neighborIfaceAddr = none)
    (alone : new.symTime < s.now → ¬Symmetric c s (c.getMainAddress new.neighborIfaceAddr))
    (updated : Bool) (willingness : UInt8) :
    SensingOk c (((if updated then
      ({ s with m_linkSet := s.m_linkSet ++ [new] } : RoutingProtocol).linkTupleUpdated c new
        willingness
      else { s with m_linkSet := s.m_linkSet ++ [new] }).linkTupleAdded c new willingness).schedule
        (min new.time new.symTime) (.linkTupleTimerExpire new.neighborIfaceAddr)) := by
  have hnew := findLinkTuple_eq_none.mp absent
  let s₁ : RoutingProtocol := { s with m_linkSet := s.m_linkSet ++ [new] }
  have hmem : ∀ it, it ∈ s₁.m_linkSet ↔ it ∈ s.m_linkSet ∨ it = new := by simp [s₁]
  have hrestated : Restated s₁ ((if updated then s₁.linkTupleUpdated c new willingness
      else s₁).linkTupleAdded c new willingness) (c.getMainAddress new.neighborIfaceAddr)
      (if new.symTime ≥ s.now then .sym else .notSym) := by
    cases updated with
    | true =>
      have hupdated := linkTupleUpdated_restated c s₁ new willingness
      have hadded :=
        linkTupleAdded_restated c (s₁.linkTupleUpdated c new willingness) new willingness
      rw [hupdated.now] at hadded
      exact hupdated.trans hadded
    | false => exact linkTupleAdded_restated c s₁ new willingness
  have hpending : ∀ e, e ∈ (s₁.schedule (min new.time new.symTime)
      (.linkTupleTimerExpire new.neighborIfaceAddr)).pending ↔ e ∈ s.pending ∨
        e = ⟨s.now + s.delay (min new.time new.symTime),
          .linkTupleTimerExpire new.neighborIfaceAddr⟩ := by
    intro e
    exact mem_append.trans (or_congr_right mem_singleton)
  refine (hrestated.schedule _ _).sensingOk (fun e he => ?_) ?_ h.neighbors (fun it hit hsym => ?_)
    (fun it hit hne htime => ?_) (fun m' hm' => ?_) ?_
  · rcases (hpending e).mp he with he | rfl
    · exact h.events e he
    · exact le_delay s _
  · refine pairwise_append.mpr ⟨h.links, pairwise_singleton _ _, fun a ha b hb => ?_⟩
    rw [mem_singleton.mp hb]
    exact hnew a ha
  · rcases (hmem it).mp hit with hit | rfl
    · exact (h.due it hit hsym).mono fun e he _ => (hpending e).mpr (.inl he)
    · exact ⟨_, (hpending _).mpr (.inr rfl), rfl, delay_le s (min_le_right _ _) hsym⟩
  · rcases (hmem it).mp hit with hit | rfl
    · exact h.known it hit htime
    · exact absurd rfl hne
  · refine (h.status m').same c le_rfl rfl (fun it hmain => ?_) fun _ _ _ hdue =>
      hdue.mono fun e he _ => (hpending e).mpr (.inl he)
    rw [show (s₁.schedule _ _).m_linkSet = s₁.m_linkSet from rfl, hmem]
    refine or_iff_left fun heq => hm' ?_
    rw [← hmain, heq]
  · constructor
    · intro hstatus
      split_ifs at hstatus with hsym
      exact ⟨new, (hmem new).mpr (.inr rfl), rfl, hsym⟩
    · rintro ⟨it, hit, hmain, hsym⟩
      refine if_pos ?_
      by_contra hlt
      rcases (hmem it).mp hit with hit | rfl
      · exact alone (not_le.mp hlt) ⟨it, hit, hmain, hsym⟩
      · exact hlt hsym

theorem sensedSymTime_of_declaresSym {now vTime symTime : ℤ} {d : Option LinkType}
    (declares : declaresSym d = true) : sensedSymTime now vTime symTime d = now + vTime := by
  match d, declares with
  | some .sym, _ => rfl
  | some .asym, _ => rfl
  | some .unspec, _ => rfl

theorem SensingOk.linkSensing (h : SensingOk c s) {hello : Hello}
    {receiverIface senderIface : Ipv4Address}
    (pos : 0 < hello.vTime) (inTime : HelloInTime c s hello receiverIface senderIface) :
    Ensures (s.linkSensing c hello receiverIface senderIface) (SensingOk c) fun _ => True := by
  unfold RoutingProtocol.linkSensing
  unfold HelloInTime at inTime
  cases hfound : s.findLinkTuple senderIface with
  | none =>
    simp only [hfound, isSome_none, Bool.false_eq_true, if_false] at inTime
    refine (senseLink_spec c).bind fun p hp => ?_
    obtain ⟨haddress, -, hsymTime, -⟩ := hp
    refine ensures_ok.mpr (h.newLink { p.1 with time := max p.1.time p.1.asymTime } ?_
      (fun hlt hsym => ?_) p.2 hello.willingness)
    · rw [haddress]
      exact hfound
    · have hother : declaresSym (declared receiverIface hello.linkMessages) = true := by
        by_contra hno
        rw [haddress, ← hasSymmetricLink_iff, inTime (Bool.eq_false_iff.mpr hno)] at hsym
        cases hsym
      rw [sensedSymTime_of_declaresSym hother] at hsymTime
      dsimp only at hlt
      omega
  | some tuple =>
    simp only [hfound, isSome_some, if_true] at inTime
    obtain ⟨hmem, haddress⟩ := findLinkTuple_eq_some hfound
    refine (senseLink_spec c).bind fun p hp => ?_
    obtain ⟨hsame, -, hsymTime, -⟩ := hp
    refine ensures_ok.mpr (h.existingLink { p.1 with time := max p.1.time p.1.asymTime } hmem hsame
      (fun hsym => ?_) hello.willingness)
    dsimp only at hsymTime hsym
    cases hsymmetric : declaresSym (declared receiverIface hello.linkMessages) with
    | true =>
      rw [sensedSymTime_of_declaresSym hsymmetric] at hsymTime
      obtain ⟨e, he, hhandler, hts⟩ := inTime hsymmetric
      refine ⟨e, he, ?_, hsymTime ▸ hts⟩
      rw [hhandler, hsame, haddress]
    | false =>
      -- the link was symmetric before
      have hkept : p.1.symTime = tuple.symTime ∨ p.1.symTime = s.now - second := by
        rw [hsymTime]
        match declared receiverIface hello.linkMessages, hsymmetric with
        | none, _ => exact .inl rfl
        | some .lost, _ => exact .inr rfl
      rcases hkept with hkept | hlost
      · rw [hkept] at hsym
        obtain ⟨e, he, hhandler, hts⟩ := h.due tuple hmem hsym
        exact ⟨e, he, by rw [hhandler, ← hsame], hkept.symm ▸ hts⟩
      · unfold second at hlost
        omega

/-! ## Timers -/

theorem SensingOk.repend (h : SensingOk c s) (address : Ipv4Address) (now : t.now = s.now)
    (links : t.m_linkSet = s.m_linkSet) (neighbors : DistinctNeighbors t.m_neighborSet)
    (status : ∀ m, t.statusOf m = s.statusOf m) (events : ∀ e ∈ t.pending, t.now ≤ e.ts)
    (others : ∀ tuple, tuple.neighborIfaceAddr ≠ address → Due s.pending tuple →
      Due t.pending tuple)
    (due : ∀ tuple ∈ s.m_linkSet, tuple.neighborIfaceAddr = address → s.now ≤ tuple.symTime →
      Due t.pending tuple) (right : ∀ tuple ∈ s.m_linkSet, tuple.neighborIfaceAddr = address →
      StatusOk c t (c.getMainAddress tuple.neighborIfaceAddr)) : SensingOk c t where
  events := events
  links := links ▸ h.links
  neighbors := neighbors
  due tuple hmem hsym := by
    rw [links] at hmem
    rw [now] at hsym
    by_cases haddress : tuple.neighborIfaceAddr = address
    · exact due tuple hmem haddress hsym
    · exact others tuple haddress (h.due tuple hmem hsym)
  known tuple hmem htime := by
    rw [status]
    exact h.known tuple (links ▸ hmem) (now ▸ htime)
  status m := by
    by_cases hm : ∃ tuple ∈ s.m_linkSet, tuple.neighborIfaceAddr = address ∧
        c.getMainAddress tuple.neighborIfaceAddr = m
    · obtain ⟨tuple, hmem, haddress, rfl⟩ := hm
      exact right tuple hmem haddress
    · refine (h.status m).same c (le_of_eq now.symm) (status m) (fun _ _ => by rw [links])
        fun tuple hmain hmem hdue =>
          others tuple (fun haddress => hm ⟨tuple, hmem, haddress, hmain⟩) hdue

theorem mem_eraseLinkTuple {links : List LinkTuple}
    (distinct : links.Pairwise fun a b => a.neighborIfaceAddr ≠ b.neighborIfaceAddr)
    (mem : tuple ∈ links) {it : LinkTuple} : it ∈ eraseLinkTuple tuple links ↔
      it ∈ links ∧ it.neighborIfaceAddr ≠ tuple.neighborIfaceAddr := by
  induction links with
  | nil => cases mem
  | cons b rest ih =>
    obtain ⟨hfirst, hrest⟩ := pairwise_cons.mp distinct
    unfold eraseLinkTuple at ih ⊢
    rcases mem_cons.mp mem with rfl | hmem
    · rw [eraseP_cons_of_pos (by simp), mem_cons]
      refine ⟨fun hit => ⟨.inr hit, (hfirst it hit).symm⟩, ?_⟩
      rintro ⟨rfl | hit, hne⟩
      · exact absurd rfl hne
      · exact hit
    · have hb : b.neighborIfaceAddr ≠ tuple.neighborIfaceAddr := hfirst tuple hmem
      rw [eraseP_cons_of_neg (by simp [hb]), mem_cons, mem_cons, ih hrest hmem]
      constructor
      · rintro (rfl | ⟨hit, hne⟩)
        · exact ⟨.inl rfl, hb⟩
        · exact ⟨.inr hit, hne⟩
      · rintro ⟨rfl | hit, hne⟩
        · exact .inl rfl
        · exact .inr ⟨hit, hne⟩

theorem findLinkTuple_of_mem
    (distinct : s.m_linkSet.Pairwise fun a b => a.neighborIfaceAddr ≠ b.neighborIfaceAddr)
    (mem : tuple ∈ s.m_linkSet) : s.findLinkTuple tuple.neighborIfaceAddr = some tuple := by
  unfold findLinkTuple
  generalize s.m_linkSet = links at distinct mem
  induction links with
  | nil => cases mem
  | cons b rest ih =>
    obtain ⟨hfirst, hrest⟩ := pairwise_cons.mp distinct
    rcases mem_cons.mp mem with rfl | hmem
    · exact List.find?_cons_of_pos (by simp)
    · rw [List.find?_cons_of_neg (by simpa using hfirst tuple hmem)]
      exact ih hrest hmem

/-- A link that is removed is the last one of its neighbour, and the first timer that finds a link
not to be symmetric does not leave a neighbour symmetric that has no symmetric link. -/
def TimerInTime (c : Config) (s : RoutingProtocol) (tuple : LinkTuple) : Prop :=
  if tuple.time < s.now then
    ∀ other ∈ s.m_linkSet, c.getMainAddress other.neighborIfaceAddr =
      c.getMainAddress tuple.neighborIfaceAddr →
      other.neighborIfaceAddr ≠ tuple.neighborIfaceAddr → other.time < s.now
  else tuple.symTime < s.now → s.m_linkTupleTimerFirstTime = true →
    s.statusOf (c.getMainAddress tuple.neighborIfaceAddr) = some .sym →
      s.hasSymmetricLink c (c.getMainAddress tuple.neighborIfaceAddr) = true
deriving Decidable

theorem SensingOk.removeLinkTuple (h : SensingOk c s)
    (mem : tuple ∈ s.m_linkSet) (events : ∀ e ∈ pending, s.now ≤ e.ts)
    (others : ∀ it, it.neighborIfaceAddr ≠ tuple.neighborIfaceAddr → Due s.pending it →
      Due pending it)
    (expired : ∀ other ∈ s.m_linkSet, c.getMainAddress other.neighborIfaceAddr =
      c.getMainAddress tuple.neighborIfaceAddr →
      other.neighborIfaceAddr ≠ tuple.neighborIfaceAddr → other.time < s.now) :
    SensingOk c (RoutingProtocol.removeLinkTuple c { s with pending } tuple) := by
  have hlinks : ∀ it, it ∈ eraseLinkTuple tuple s.m_linkSet ↔
      it ∈ s.m_linkSet ∧ it.neighborIfaceAddr ≠ tuple.neighborIfaceAddr := fun it =>
    mem_eraseLinkTuple h.links mem
  have hstatus : ∀ m, (RoutingProtocol.removeLinkTuple c { s with pending } tuple).statusOf m =
      if c.getMainAddress tuple.neighborIfaceAddr = m then none else s.statusOf m := by
    intro m
    have hfind : findNeighborTuple m
        (RoutingProtocol.removeLinkTuple c { s with pending } tuple).m_neighborSet = _ :=
      find_eraseNeighborTuple h.neighbors
    rw [RoutingProtocol.statusOf, hfind]
    split_ifs <;> rfl
  refine ⟨events, h.links.sublist eraseP_sublist, h.neighbors.erase, fun it hit hle => ?_,
    fun it hit hle => ?_, fun m => ?_⟩
  · obtain ⟨hit, hne⟩ := (hlinks it).mp hit
    exact others it hne (h.due it hit hle)
  · obtain ⟨hit, hne⟩ := (hlinks it).mp hit
    rw [hstatus, if_neg fun heq => ?_]
    · exact h.known it hit hle
    · have hexpired := expired it hit heq.symm hne
      have hle' : s.now ≤ it.time := hle
      omega
  · by_cases hm : c.getMainAddress tuple.neighborIfaceAddr = m
    · have hnone : (RoutingProtocol.removeLinkTuple c { s with pending } tuple).statusOf m =
          none := by
        rw [hstatus, if_pos hm]
      exact ⟨fun hknown => absurd hnone hknown, fun hsym => by rw [hnone] at hsym; cases hsym⟩
    · have hother : ∀ it : LinkTuple, c.getMainAddress it.neighborIfaceAddr = m →
          it.neighborIfaceAddr ≠ tuple.neighborIfaceAddr := fun it hmain heq => hm (heq ▸ hmain)
      refine (h.status m).same c le_rfl ?_ (fun it hmain => ?_) fun it hmain _ hdue => ?_
      · rw [hstatus, if_neg hm]
      · exact (hlinks it).trans (and_iff_left (hother it hmain))
      · exact others it (hother it hmain) hdue

theorem SensingOk.linkTupleTimerExpire (h : SensingOk c s) {address : Ipv4Address}
    (sub : ∀ e ∈ pending, e ∈ s.pending)
    (others : ∀ e ∈ s.pending, e.handler ≠ .linkTupleTimerExpire address → e ∈ pending)
    (inTime : ∀ tuple, s.findLinkTuple address = some tuple → TimerInTime c s tuple) :
    SensingOk c (({ s with pending } : RoutingProtocol).linkTupleTimerExpire c address) := by
  have hevents : ∀ e ∈ pending, s.now ≤ e.ts := fun e he => h.events e (sub e he)
  have hothers : ∀ tuple, tuple.neighborIfaceAddr ≠ address → Due s.pending tuple →
      Due pending tuple := by
    intro tuple haddress hdue
    refine hdue.mono fun e he hhandler => others e he fun heq => haddress ?_
    rw [hhandler] at heq
    exact Handler.linkTupleTimerExpire.inj heq
  have hschedule : ∀ (u : RoutingProtocol) (time : ℤ) (handler : Handler), u.now = s.now →
    u.pending = pending →
      ∀ e ∈ (u.schedule time handler).pending, s.now ≤ e.ts := by
    intro u time handler hnow hpending e he
    rcases mem_append.mp he with he | he
    · exact hevents e (hpending ▸ he)
    · rw [mem_singleton.mp he, ← hnow]
      exact le_delay u time
  unfold RoutingProtocol.linkTupleTimerExpire
  rw [show findLinkTuple { s with pending } address = s.findLinkTuple address from rfl]
  cases hfound : s.findLinkTuple address with
  | none =>
    have habsent := findLinkTuple_eq_none.mp hfound
    exact h.repend address rfl rfl h.neighbors (fun _ => rfl) hevents hothers
      (fun tuple hmem haddress => absurd haddress (habsent tuple hmem))
      fun tuple hmem haddress => absurd haddress (habsent tuple hmem)
  | some tuple =>
    obtain ⟨hmem, haddress⟩ := findLinkTuple_eq_some hfound
    have hintime := inTime tuple hfound
    have hunique : ∀ it ∈ s.m_linkSet, it.neighborIfaceAddr = address → it = tuple := by
      intro it hit heq
      have hit' := findLinkTuple_of_mem h.links hit
      rw [heq, hfound] at hit'
      exact (Option.some.inj hit').symm
    unfold TimerInTime at hintime
    dsimp only
    by_cases htime : tuple.time < s.now
    · rw [if_pos htime] at hintime ⊢
      exact h.removeLinkTuple hmem hevents (fun it hne => hothers it (haddress ▸ hne)) hintime
    rw [if_neg htime] at hintime ⊢
    by_cases hsym : tuple.symTime < s.now
    · rw [if_pos hsym]
      have hnotSym : ∀ it ∈ s.m_linkSet, it.neighborIfaceAddr = address → ¬s.now ≤ it.symTime := by
        intro it hit heq hle
        rw [hunique it hit heq] at hle
        omega
      have hdue : ∀ it ∈ s.m_linkSet, s.now ≤ it.symTime → Due pending it := fun it hit hle =>
        hothers it (fun heq => hnotSym it hit heq hle) (h.due it hit hle)
      by_cases hfirst : s.m_linkTupleTimerFirstTime = true
      · rw [if_pos hfirst]
        have hmore : ∀ e ∈ pending, e ∈ (RoutingProtocol.schedule
            { s with m_linkTupleTimerFirstTime := false, pending } tuple.time
            (.linkTupleTimerExpire address)).pending := fun e he => mem_append_left _ he
        refine h.repend address rfl rfl h.neighbors (fun _ => rfl) (hschedule _ _ _ rfl rfl)
          (fun it hne hold => (hothers it hne hold).mono fun e he _ => hmore e he)
          (fun it hit heq hle => absurd hle (hnotSym it hit heq)) fun it hit heq => ?_
        rw [hunique it hit heq]
        refine ⟨fun hknown hsymmetric => (h.status _).sym hknown hsymmetric, fun hstatus => ?_⟩
        obtain ⟨w, hw, hmain, hle⟩ := (hasSymmetricLink_iff c).mp (hintime hsym hfirst hstatus)
        exact ⟨w, hw, hmain, (hdue w hw hle).mono fun e he _ => hmore e he⟩
      · rw [if_neg hfirst]
        have hupdated :
            SensingOk c (({ s with pending } : RoutingProtocol).linkTupleUpdated c tuple 3) := by
          refine (linkTupleUpdated_restated c _ tuple 3).sensingOk hevents h.links h.neighbors hdue
            (fun it hit _ hle => h.known it hit hle) (fun m hm => ?_) ?_
          · refine (h.status m).same c le_rfl rfl (fun _ _ => Iff.rfl) fun it hmain _ hold => ?_
            refine hothers it (fun heq => hm ?_) hold
            rw [← hmain, heq, haddress]
          · rw [← hasSymmetricLink_iff]
            split_ifs with hsymmetric
            · exact iff_of_true rfl hsymmetric
            · exact iff_of_false (by simp) hsymmetric
        have hloss : SensingOk c (({ s with pending } : RoutingProtocol).neighborLoss c tuple) :=
          hupdated.more rfl rfl hupdated.neighbors (fun _ => rfl) (fun _ he => he) hupdated.events
        exact hloss.schedule _ _
    · rw [if_neg hsym]
      have hmore : ∀ e ∈ pending, e ∈ (RoutingProtocol.schedule { s with pending }
          (min tuple.time tuple.symTime) (.linkTupleTimerExpire address)).pending :=
        fun e he => mem_append_left _ he
      have hself : Due (RoutingProtocol.schedule { s with pending } (min tuple.time tuple.symTime)
          (.linkTupleTimerExpire address)).pending tuple :=
        ⟨_, mem_append_right _ (mem_singleton_self _), by rw [haddress],
          delay_le s (min_le_right _ _) (not_lt.mp hsym)⟩
      refine h.repend address rfl rfl h.neighbors (fun _ => rfl) (hschedule _ _ _ rfl rfl)
        (fun it hne hold => (hothers it hne hold).mono fun e he _ => hmore e he)
        (fun it hit heq _ => hunique it hit heq ▸ hself) fun it hit heq => ?_
      refine ⟨fun hknown hsymmetric => (h.status _).sym hknown hsymmetric, fun hstatus => ?_⟩
      exact ⟨it, hit, rfl, hunique it hit heq ▸ hself⟩

theorem SensingOk.mprSelTupleTimerExpire (h : SensingOk c s) (mainAddr : Ipv4Address)
    (sub : ∀ e ∈ pending, e ∈ s.pending)
    (others : ∀ e ∈ s.pending, e.handler ≠ .mprSelTupleTimerExpire mainAddr → e ∈ pending) :
    SensingOk c (({ s with pending } : RoutingProtocol).mprSelTupleTimerExpire mainAddr) := by
  have hdue : ∀ it, Due s.pending it → Due pending it := fun it hold =>
    hold.mono fun e he hhandler => others e he (by rw [hhandler]; simp)
  have hpending : SensingOk c { s with pending } := by
    refine ⟨fun e he => h.events e (sub e he), h.links, h.neighbors,
      fun it hit hle => hdue it (h.due it hit hle), h.known, fun m => ?_⟩
    exact (h.status m).same c le_rfl rfl (fun _ _ => Iff.rfl) fun it _ _ => hdue it
  unfold RoutingProtocol.mprSelTupleTimerExpire
  split
  · exact hpending
  · split_ifs
    · exact hpending.more rfl rfl h.neighbors (fun _ => rfl) (fun _ he => he) hpending.events
    · exact hpending.schedule _ _

/-! ## Runs -/

inductive Action where
  | hello (hello : Hello) (receiverIface senderIface : Ipv4Address)
  /-- The `k`-th pending event. -/
  | fire (k : ℕ)
  | wait (now : ℤ)
deriving DecidableEq

def step (c : Config) (s : RoutingProtocol) : Action → Except Fault RoutingProtocol
  | .hello hello receiverIface senderIface => s.processHello c hello receiverIface senderIface
  | .fire k => s.fire c k
  | .wait now => .ok { s with now }

/-- Validity times are positive, and events take place in order, at their times. -/
def Possible (s : RoutingProtocol) : Action → Prop
  | .hello hello _ _ => 0 < hello.vTime
  | .fire k => ∀ e ∈ s.pending[k]?, ∀ other ∈ s.pending, e.ts ≤ other.ts
  | .wait now => s.now ≤ now ∧ ∀ e ∈ s.pending, now ≤ e.ts

def InTime (c : Config) (s : RoutingProtocol) : Action → Prop
  | .hello hello receiverIface senderIface => HelloInTime c s hello receiverIface senderIface
  | .fire k => ∀ e ∈ s.pending[k]?, match e.handler with
    | .linkTupleTimerExpire neighborIfaceAddr => ∀ tuple ∈ s.findLinkTuple neighborIfaceAddr,
        TimerInTime c { s with now := e.ts } tuple
    | .mprSelTupleTimerExpire _ => True
  | .wait _ => True

theorem step_ok (s : RoutingProtocol) (a : Action) (h : SensingOk c s) (possible : Possible s a)
    (inTime : InTime c s a) : Ensures (step c s a) (SensingOk c) fun _ => True := by
  cases a with
  | hello hello receiverIface senderIface =>
    rw [step, processHello]
    refine (h.linkSensing possible inTime).bind fun t ht => ensures_ok.mpr ?_
    exact (ht.populateNeighborSet hello).populateMprSelectorSet hello
  | fire k =>
    rw [step, fire]
    cases hk : s.pending[k]? with
    | none => exact ensures_error.mpr trivial
    | some e =>
      have hmem : e ∈ s.pending := mem_of_getElem? hk
      have htime : SensingOk c { s with now := e.ts } := h.wait c (h.events e hmem) (possible e hk)
      have hsub : ∀ e' ∈ s.pending.eraseIdx k, e' ∈ s.pending :=
        fun e' he' => mem_of_mem_eraseIdx he'
      have hothers : ∀ e' ∈ s.pending, e'.handler ≠ e.handler → e' ∈ s.pending.eraseIdx k := by
        intro e' he' hne
        obtain ⟨j, hj, rfl⟩ := getElem_of_mem he'
        refine mem_eraseIdx_iff_getElem.mpr ⟨j, hj, fun heq => hne ?_, rfl⟩
        subst heq
        rw [List.getElem?_eq_getElem hj] at hk
        rw [Option.some.inj hk]
      have hintime := inTime e hk
      dsimp only
      cases hhandler : e.handler with
      | linkTupleTimerExpire address =>
        rw [hhandler] at hintime hothers
        exact ensures_ok.mpr (htime.linkTupleTimerExpire hsub hothers hintime)
      | mprSelTupleTimerExpire mainAddr =>
        rw [hhandler] at hothers
        exact ensures_ok.mpr (htime.mprSelTupleTimerExpire mainAddr hsub hothers)
  | wait now => exact ensures_ok.mpr (h.wait c possible.1 possible.2)

/-! ## The routes to neighbours -/

/-- Step 2 of `RoutingTableComputation` for a neighbour: destination, next hop and interface. -/
def neighborRoutes (c : Config) (s : RoutingProtocol) (nb : NeighborTuple) :
    List (Ipv4Address × Ipv4Address × Ipv4Address) :=
  if nb.status = .sym then
    let links := s.m_linkSet.filter fun it =>
      c.getMainAddress it.neighborIfaceAddr = nb.neighborMainAddr && it.time ≥ s.now
    let routes :=
      links.map fun it => (it.neighborIfaceAddr, it.neighborIfaceAddr, it.localIfaceAddr)
    if links.any fun it => it.neighborIfaceAddr = nb.neighborMainAddr then routes
    else
      match links.getLast? with
      | none => routes
      | some it => routes ++ [(nb.neighborMainAddr, it.neighborIfaceAddr, it.localIfaceAddr)]
  else []

/-- Neighbours are known and have the status of their links, but for a microsecond after a link
expires; those without a symmetric link are not used. -/
structure NeighborsRight (c : Config) (s : RoutingProtocol) : Prop where
  known : ∀ tuple ∈ s.m_linkSet, s.now ≤ tuple.time →
    ∃ nb ∈ s.m_neighborSet, nb.neighborMainAddr = c.getMainAddress tuple.neighborIfaceAddr
  sym : ∀ nb ∈ s.m_neighborSet, (∃ tuple ∈ s.m_linkSet,
    c.getMainAddress tuple.neighborIfaceAddr = nb.neighborMainAddr ∧ s.now ≤ tuple.symTime) →
      nb.status = .sym
  notSym : ∀ nb ∈ s.m_neighborSet, (∀ tuple ∈ s.m_linkSet,
    c.getMainAddress tuple.neighborIfaceAddr = nb.neighborMainAddr →
      tuple.symTime + microsecond < s.now) → nb.status = .notSym
  unused : ∀ nb ∈ s.m_neighborSet, (∀ tuple ∈ s.m_linkSet,
    c.getMainAddress tuple.neighborIfaceAddr = nb.neighborMainAddr →
      tuple.symTime + microsecond < s.now) → neighborRoutes c s nb = []

theorem SensingOk.neighborsRight (h : SensingOk c s) : NeighborsRight c s := by
  have hstatus : ∀ nb ∈ s.m_neighborSet, s.statusOf nb.neighborMainAddr = some nb.status := by
    intro nb hnb
    rw [RoutingProtocol.statusOf, h.neighbors.find hnb]
    rfl
  have hnotSym : ∀ nb ∈ s.m_neighborSet, (∀ tuple ∈ s.m_linkSet,
      c.getMainAddress tuple.neighborIfaceAddr = nb.neighborMainAddr →
        tuple.symTime + microsecond < s.now) → nb.status = .notSym := by
    intro nb hnb hexpired
    cases hsym : nb.status with
    | notSym => rfl
    | sym =>
      obtain ⟨tuple, hmem, hmain, e, he, -, hts⟩ := (h.status nb.neighborMainAddr).notSym
        ((hstatus nb hnb).trans (congrArg some hsym))
      have hlater := h.events e he
      have hlt := hexpired tuple hmem hmain
      omega
  refine ⟨fun tuple hmem hle => ?_, fun nb hnb hsym => ?_, hnotSym, fun nb hnb hexpired => ?_⟩
  · have hknown := h.known tuple hmem hle
    rw [RoutingProtocol.statusOf, ne_eq, map_eq_none_iff] at hknown
    obtain ⟨nb, hnb⟩ := ne_none_iff_exists'.mp hknown
    obtain ⟨hmem, hmain⟩ := mem_of_findNeighborTuple hnb
    exact ⟨nb, hmem, hmain⟩
  · have hsome := (h.status nb.neighborMainAddr).sym (by simp [hstatus nb hnb]) hsym
    rw [hstatus nb hnb] at hsome
    exact Option.some.inj hsome
  · rw [neighborRoutes, if_neg]
    simp [hnotSym nb hnb hexpired]

/-- As long as timers are in time, the status of neighbours is right at every moment. -/
theorem neighborStatus (c : Config) {actions : List Action}
    (along : Along (step c) (fun s a => Possible s a ∧ InTime c s a) .initial actions) :
    Ensures (exec (step c) .initial actions) (NeighborsRight c) fun _ => True := by
  have hinitial : SensingOk c .initial := by
    refine ⟨by simp [initial], .nil, .nil, by simp [initial],
      by simp [initial], fun m => ⟨?_, ?_⟩⟩
    · rintro - ⟨tuple, hmem, -⟩
      exact absurd hmem not_mem_nil
    · intro hsym
      simp [RoutingProtocol.statusOf, initial, findNeighborTuple] at hsym
  have hok : Ensures (exec (step c) .initial actions) (SensingOk c) fun _ => True :=
    ensures_exec (fun s a hs hguard => step_ok s a hs hguard.1 hguard.2) hinitial along
  exact hok.weaken fun s hs => hs.neighborsRight

instance (s : RoutingProtocol) : ∀ a, Decidable (Possible s a)
  | .hello .. | .fire _ | .wait .. => by unfold Possible; infer_instance

/-- What `InTime` asks of an event that is performed. -/
instance decidableFireInTime (s : RoutingProtocol) (e : Event) : Decidable (match e.handler with
    | .linkTupleTimerExpire neighborIfaceAddr => ∀ tuple ∈ s.findLinkTuple neighborIfaceAddr,
        TimerInTime c { s with now := e.ts } tuple
    | .mprSelTupleTimerExpire _ => True) :=
  match e.handler with
  | .linkTupleTimerExpire .. | .mprSelTupleTimerExpire _ => inferInstance

instance (s : RoutingProtocol) : ∀ a, Decidable (InTime c s a)
  | .hello .. | .fire _ | .wait _ => by unfold InTime; infer_instance

def sixSeconds : Config := ⟨1, 6 * second, []⟩

def heard : Hello := ⟨6 * second, 2, 3, [⟨6, [1]⟩]⟩

theorem neighborStatus_loss : Ensures
    (exec (step sixSeconds) .initial
      [.hello ⟨6 * second, 2, 3, []⟩ 1 2, .fire 0, .wait (2 * second),
      .hello heard 1 2, .fire 0, .fire 0, .wait (9 * second)]) (NeighborsRight sixSeconds) fun _ =>
        True :=
  neighborStatus sixSeconds (by decide +kernel)

/-- The first link that expires: its neighbour stays symmetric, and is used. -/
theorem expired_neighbor_used :
    Along (step sixSeconds) Possible .initial [.hello heard 1 2, .fire 0, .wait (7 * second)] ∧
    Ensures (exec (step sixSeconds) .initial [.hello heard 1 2, .fire 0, .wait (7 * second)])
      (fun s => s.m_linkSet = [⟨1, 2, 6 * second, 6 * second, 12 * second⟩] ∧
        s.m_neighborSet = [⟨2, .sym, 3⟩] ∧ s.now = 7 * second ∧
        ∀ nb ∈ s.m_neighborSet, neighborRoutes sixSeconds s nb ≠ []) (fun _ => False) ∧
    ¬Ensures (exec (step sixSeconds) .initial [.hello heard 1 2, .fire 0, .wait (7 * second)])
      (NeighborsRight sixSeconds) (fun _ => True) := by
  have hrun : Ensures (exec (step sixSeconds) .initial
    [.hello heard 1 2, .fire 0, .wait (7 * second)])
      (fun s => s.m_linkSet = [⟨1, 2, 6 * second, 6 * second, 12 * second⟩] ∧
        s.m_neighborSet = [⟨2, .sym, 3⟩] ∧ s.now = 7 * second ∧
        ∀ nb ∈ s.m_neighborSet, neighborRoutes sixSeconds s nb ≠ []) fun _ => False := by
          decide +kernel
  refine ⟨by decide +kernel, hrun, fun hright => ?_⟩
  obtain ⟨s, hs, hlinks, hneighbors, hnow, -⟩ := hrun.exists_ok
  have hnotSym := (hright.of_ok hs).notSym ⟨2, .sym, 3⟩ (hneighbors ▸ mem_singleton_self _)
  rw [hlinks, hnow] at hnotSym
  have hexpired := hnotSym (by decide)
  cases hexpired

end Egsr.Olsr.NeighborSensing
