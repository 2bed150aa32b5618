import Egsr.Aodv.RoutingProtocol

/-! Route discovery at one node. A destination that is searched for has a timer
that runs or a request that was put off, and is asked for only so often. -/

namespace Egsr.Aodv

open Lib.Run Lib.Outcome RoutingTable List RoutingProtocol

/-! ## Searches -/

variable (s : RoutingProtocol) (dst : Ipv4Address)

def Running : Prop :=
  ∃ t ∈ s.m_addressReqTimer, t.dst = dst ∧ t.expires.isSome

def Pending : Prop := ∃ d ∈ s.deferred, d.dst = dst

/-- Something will be done about the search. -/
def Alive : Prop := Running s dst ∨ Pending s dst

/-- The searches for all destinations that are not exempt are alive. -/
structure SearchOk (c : Config) (exempt : Ipv4Address → Prop) (s : RoutingProtocol) : Prop where
  sorted : Sorted s.m_routingTable
  bounded : ∀ e ∈ s.m_routingTable, e.m_flag = .inSearch →
    e.m_reqCount.toNat ≤ c.m_rreqRetries.toNat
  settled : ∀ e ∈ s.m_routingTable, e.m_flag ≠ .inSearch → e.m_reqCount = 0
  alive : ∀ e ∈ s.m_routingTable, e.m_flag = .inSearch → ¬exempt e.getDestination →
    Alive s e.getDestination

/-- No search begins, and those that go on are as alive and as far as before. -/
structure Kept (s t : RoutingProtocol) : Prop where
  sorted : Sorted s.m_routingTable → Sorted t.m_routingTable
  searching : ∀ e' ∈ t.m_routingTable, e'.m_flag = .inSearch → ∃ e ∈ s.m_routingTable,
    e.getDestination = e'.getDestination ∧ e.m_flag = .inSearch ∧ e.m_reqCount = e'.m_reqCount
  settled : (∀ e ∈ s.m_routingTable, e.m_flag ≠ .inSearch → e.m_reqCount = 0) →
    ∀ e ∈ t.m_routingTable, e.m_flag ≠ .inSearch → e.m_reqCount = 0
  alive : ∀ e' ∈ t.m_routingTable, e'.m_flag = .inSearch → Alive s e'.getDestination →
    Alive t e'.getDestination

def NoAbort (f : Fault) : Prop := f ≠ .rreqCount

section Keeping

variable {c : Config} {s t u : RoutingProtocol} {rt : RoutingTableEntry}
    {exempt exempt' : Ipv4Address → Prop}

theorem SearchOk.kept (h : SearchOk c exempt s) (kept : Kept s t) : SearchOk c exempt t where
  sorted := kept.sorted h.sorted
  bounded e' he' hflag := by
    obtain ⟨e, he, -, hsearch, hcount⟩ := kept.searching e' he' hflag
    exact hcount ▸ h.bounded e he hsearch
  settled := kept.settled h.settled
  alive e' he' hflag hexempt := by
    obtain ⟨e, he, hdst, hsearch, -⟩ := kept.searching e' he' hflag
    exact kept.alive e' he' hflag (hdst ▸ h.alive e he hsearch (hdst ▸ hexempt))

theorem SearchOk.weaken (h : SearchOk c exempt s) (imp : ∀ dst, exempt dst → exempt' dst) :
    SearchOk c exempt' s :=
  ⟨h.sorted, h.bounded, h.settled, fun e he hflag hexempt => h.alive e he hflag fun hdst =>
    hexempt (imp _ hdst)⟩

theorem Kept.refl (s : RoutingProtocol) : Kept s s :=
  ⟨fun h => h, fun e he hflag => ⟨e, he, rfl, hflag, rfl⟩, fun h => h, fun _ _ _ h => h⟩

theorem Kept.trans (h : Kept s t) (h' : Kept t u) : Kept s u where
  sorted := h'.sorted ∘ h.sorted
  searching e'' he'' hflag'' := by
    obtain ⟨e', he', hdst', hflag', hcount'⟩ := h'.searching e'' he'' hflag''
    obtain ⟨e, he, hdst, hflag, hcount⟩ := h.searching e' he' hflag'
    exact ⟨e, he, hdst.trans hdst', hflag, hcount.trans hcount'⟩
  settled := h'.settled ∘ h.settled
  alive e'' he'' hflag'' halive := by
    obtain ⟨e', he', hdst', hflag', -⟩ := h'.searching e'' he'' hflag''
    exact h'.alive e'' he'' hflag'' (hdst' ▸ h.alive e' he' hflag' (hdst' ▸ halive))

theorem Kept.of_eq (table : t.m_routingTable = s.m_routingTable)
    (timers : t.m_addressReqTimer = s.m_addressReqTimer) (deferred : t.deferred = s.deferred) :
      Kept s t where
  sorted h := table ▸ h
  searching e he hflag := ⟨e, table ▸ he, rfl, hflag, rfl⟩
  settled h := table ▸ h
  alive e he hflag halive := by
    rw [Alive, Running, Pending, timers, deferred]
    exact halive

theorem Kept.aged (sorted : Sorted s.m_routingTable → Sorted t.m_routingTable)
    (aged : ∀ e' ∈ t.m_routingTable, ∃ e ∈ s.m_routingTable, Aged e e')
    (timers : t.m_addressReqTimer = s.m_addressReqTimer) (deferred : t.deferred = s.deferred) :
      Kept s t where
  sorted := sorted
  searching e' he' hflag := by
    obtain ⟨e, he, haged⟩ := aged e' he'
    have hsearch : e.m_flag = .inSearch := by
      by_contra hne
      exact (haged.settled hne).1 hflag
    rw [haged.searching hsearch]
    exact ⟨e, he, rfl, hsearch, rfl⟩
  settled h e' he' hflag := by
    obtain ⟨e, he, haged⟩ := aged e' he'
    have hne : e.m_flag ≠ .inSearch := fun hsearch => hflag (haged.searching hsearch ▸ hsearch)
    exact (haged.settled hne).2 (h e he hne)
  alive e he hflag halive := by
    rw [Alive, Running, Pending, timers, deferred]
    exact halive

theorem kept_purge (s : RoutingProtocol) : Kept s (s.purge c) := by
  refine .aged sorted_purge (fun e' he' => ?_) rfl rfl
  obtain ⟨e, he, hkept⟩ := mem_purge.mp he'
  exact ⟨e, he, purgeEntry_aged hkept⟩

theorem kept_invalidateRoutesWithDst (s : RoutingProtocol)
    (unreachable : List (Ipv4Address × UInt32)) :
    Kept s (s.invalidateRoutesWithDst c unreachable) :=
  (kept_purge s).trans
    (.aged sorted_invalidateRoutesWithDst (fun _ he' => mem_invalidateRoutesWithDst he') rfl rfl)

theorem reqCount_settle (idle : rt.m_flag ≠ .inSearch) : rt.settle.m_reqCount = 0 := by
  rw [RoutingTableEntry.settle, if_neg idle]

theorem settle_inSearch (searching : rt.m_flag = .inSearch) : rt.settle = rt := if_pos searching

theorem kept_addRoute (s : RoutingProtocol) (idle : rt.m_flag ≠ .inSearch) :
    Kept s (s.addRoute c rt) := by
  refine (kept_purge (c := c) s).trans ⟨sorted_insert, fun e he hflag => ?_, fun h e he hflag =>
    ?_, fun e he hflag h => h⟩
  · rcases mem_insert he with rfl | he
    · exact absurd (flag_settle ▸ hflag) idle
    · exact ⟨e, he, rfl, hflag, rfl⟩
  · rcases mem_insert he with rfl | he
    · exact reqCount_settle idle
    · exact h e he hflag

def Continues (s : RoutingProtocol) (rt : RoutingTableEntry) : Prop :=
  rt.m_flag = .inSearch → ∀ old ∈ s.m_routingTable, old.getDestination = rt.getDestination →
    old.m_flag = .inSearch ∧ old.m_reqCount = rt.m_reqCount

theorem continues_idle (idle : rt.m_flag ≠ .inSearch) : Continues s rt :=
  fun hflag => absurd hflag idle

theorem continues_found {id : Ipv4Address} {old : RoutingTableEntry}
    (sorted : Sorted s.m_routingTable)
    (found : s.find id = some old) (dst : rt.getDestination = old.getDestination)
    (flag : rt.m_flag = old.m_flag) (count : rt.m_reqCount = old.m_reqCount) : Continues s rt := by
  intro hflag b hb hsame
  rw [sorted.unique hb (find_eq_some found).1 (hsame.trans dst)]
  exact ⟨flag ▸ hflag, count.symm⟩

theorem kept_update (s : RoutingProtocol) (continues : Continues s rt) : Kept s (s.update rt) where
  sorted := sorted_update
  searching e he hflag := by
    rcases mem_update.mp he with ⟨he, -⟩ | ⟨rfl, old, hold, hsame⟩
    · exact ⟨e, he, rfl, hflag, rfl⟩
    · rw [flag_settle] at hflag
      obtain ⟨hsearch, hcount⟩ := continues hflag old hold hsame
      rw [settle_inSearch hflag]
      exact ⟨old, hold, hsame, hsearch, hcount⟩
  settled h e he hflag := by
    rcases mem_update.mp he with ⟨he, -⟩ | ⟨rfl, -⟩
    · exact h e he hflag
    · exact reqCount_settle (flag_settle ▸ hflag)
  alive _ _ _ h := h

theorem kept_updateValid (s : RoutingProtocol) (valid : rt.m_flag = .valid) :
    Kept s (s.update rt) :=
  kept_update s (continues_idle (by simp [valid]))

theorem kept_rememberId (s : RoutingProtocol) (addr : Ipv4Address) (id : UInt32) :
    Kept s (s.rememberId c addr id) := by
  unfold rememberId
  dsimp only
  split_ifs <;> exact .of_eq rfl rfl rfl

theorem kept_sendOver (s : RoutingProtocol) (iface : Ipv4InterfaceAddress)
    (destination : Ipv4Address) (ttl : UInt8)
    (message : Message) : Ensures (s.sendOver c iface destination ttl message)
    (Kept s) NoAbort := by
  unfold sendOver
  split
  · exact ensures_error.mpr (by simp [NoAbort])
  · exact ensures_ok.mpr (.of_eq rfl rfl rfl)

theorem kept_foldl {α : Type} {f : RoutingProtocol → α → RoutingProtocol}
    (keep : ∀ s a, Kept s (f s a)) (as : List α) (s : RoutingProtocol) : Kept s (as.foldl f s) := by
  induction as generalizing s with
  | nil => exact .refl s
  | cons a as ih => exact (keep s a).trans (ih (f s a))

end Keeping

section Errors

variable {c : Config}

theorem kept_sendRerrMessage (rerrHeader : RerrHeader) (precursors : List Ipv4Address) :
    Ensures (s.sendRerrMessage c rerrHeader precursors) (Kept s) NoAbort := by
  unfold sendRerrMessage
  have hpurge : Kept s (s.purge c) := kept_purge s
  split_ifs
  · exact ensures_ok.mpr (.refl s)
  · dsimp only
    split
    · split
      · split_ifs
        · have hcount :
            Kept (s.purge c) { s.purge c with m_rerrCount := (s.purge c).m_rerrCount + 1 } :=
            .of_eq rfl rfl rfl
          exact (kept_sendOver _ _ _ _ _).weaken fun t ht => (hpurge.trans hcount).trans ht
        · exact ensures_ok.mpr hpurge
      · exact ensures_ok.mpr hpurge
    · refine ensures_foldlM hpurge fun t iface _ ht => ?_
      exact (kept_sendOver t iface _ _ _).weaken fun u hu => ht.trans hu

theorem kept_sendRerrWhenBreaksLinkToNextHop (nextHop : Ipv4Address) :
    Ensures (s.sendRerrWhenBreaksLinkToNextHop c nextHop) (Kept s) NoAbort := by
  unfold sendRerrWhenBreaksLinkToNextHop
  have hpurge : Kept s (s.purge c) := kept_purge s
  dsimp only
  split
  · exact ensures_ok.mpr hpurge
  · refine (kept_sendRerrMessage _ _ _).bind fun t ht => ensures_ok.mpr ?_
    exact (hpurge.trans ht).trans (kept_invalidateRoutesWithDst t _)

theorem kept_recvError (rerrHeader : RerrHeader) (src : Ipv4Address) :
    Ensures (s.recvError c rerrHeader src) (Kept s) NoAbort := by
  unfold recvError
  have hpurge : Kept s (s.purge c) := kept_purge s
  dsimp only
  have hsent : ∀ unreachable : RerrHeader, Ensures
      (if unreachable.isEmpty then .ok (s.purge c) else
        (s.purge c).sendRerrMessage c unreachable ((s.purge c).precursorsOf unreachable []))
      (Kept (s.purge c)) NoAbort :=
        fun unreachable => .ite (fun _ => .refl _) fun _ => kept_sendRerrMessage _ _ _
  refine (hsent _).bind fun t ht => ensures_ok.mpr ?_
  exact (hpurge.trans ht).trans (kept_invalidateRoutesWithDst t _)

end Errors

/-! ## Messages -/

section Messages

variable {c : Config} {s : RoutingProtocol}

theorem kept_updateRouteToNeighbor (s : RoutingProtocol) (sender receiver : Ipv4Address) :
    Kept s (s.updateRouteToNeighbor c sender receiver) := by
  unfold updateRouteToNeighbor
  refine (kept_purge (c := c) s).trans ?_
  dsimp only
  split
  · exact kept_addRoute _ (by simp [RoutingTableEntry.create])
  · split_ifs
    · exact .refl _
    · exact kept_updateValid _ rfl

theorem kept_updateReverseRoute (sorted : Sorted s.m_routingTable) (rreqHeader : RreqHeader)
    (receiver src : Ipv4Address) :
    Kept s (s.updateReverseRoute c rreqHeader receiver src).1 ∧
      ((s.updateReverseRoute c rreqHeader receiver src).2.m_flag = .inSearch →
        (s.updateReverseRoute c rreqHeader receiver src).2.getDestination = rreqHeader.origin) := by
  unfold updateReverseRoute
  have hpurge : Kept s (s.purge c) := kept_purge s
  dsimp only
  cases hfound : (s.purge c).find rreqHeader.origin with
  | none =>
    exact ⟨hpurge.trans (kept_addRoute _ (by simp [RoutingTableEntry.create])), fun h => by cases h⟩
  | some toOrigin =>
    refine ⟨hpurge.trans (kept_update _ ?_), fun _ => (find_eq_some hfound).2⟩
    exact continues_found (hpurge.sorted sorted) hfound rfl rfl rfl

theorem kept_updateRequestNeighbor (s : RoutingProtocol) (rreqHeader : RreqHeader)
    (receiver src : Ipv4Address) : Kept s (s.updateRequestNeighbor c rreqHeader receiver src) := by
  unfold updateRequestNeighbor
  refine (kept_purge (c := c) s).trans ?_
  dsimp only
  split
  · exact kept_addRoute _ (by simp [RoutingTableEntry.create])
  · exact kept_updateValid _ rfl

theorem kept_sendReply (s : RoutingProtocol) (rreqHeader : RreqHeader)
    (toOrigin : RoutingTableEntry) :
    Ensures (s.sendReply c rreqHeader toOrigin) (Kept s) NoAbort := by
  unfold sendReply
  dsimp only
  refine (kept_sendOver _ _ _ _ _).weaken fun t ht => ?_
  refine Kept.trans ?_ ht
  split_ifs <;> exact .of_eq rfl rfl rfl

variable (rt : RoutingTableEntry)

theorem flag_insertPrecursor (id : Ipv4Address) : (rt.insertPrecursor id).m_flag = rt.m_flag := by
  unfold RoutingTableEntry.insertPrecursor
  split_ifs <;> rfl

theorem destination_insertPrecursor (id : Ipv4Address) :
    (rt.insertPrecursor id).getDestination = rt.getDestination := by
  unfold RoutingTableEntry.insertPrecursor
  split_ifs <;> rfl

theorem reqCount_insertPrecursor (id : Ipv4Address) :
    (rt.insertPrecursor id).m_reqCount = rt.m_reqCount := by
  unfold RoutingTableEntry.insertPrecursor
  split_ifs <;> rfl

theorem Continues.insertPrecursor {rt : RoutingTableEntry} (h : Continues s rt) (id : Ipv4Address) :
    Continues s (rt.insertPrecursor id) := by
  intro hflag old hold hsame
  rw [flag_insertPrecursor] at hflag
  rw [destination_insertPrecursor] at hsame
  rw [reqCount_insertPrecursor]
  exact h hflag old hold hsame

theorem kept_sendReplyByIntermediateNode {toDst toOrigin : RoutingTableEntry}
    (valid : toDst.m_flag = .valid) (continues : Continues s toOrigin)
    (apart : toOrigin.m_flag = .inSearch → toOrigin.getDestination ≠ toDst.getDestination)
    (gratRep : Bool) :
    Ensures (s.sendReplyByIntermediateNode c toDst toOrigin gratRep) (Kept s) NoAbort := by
  unfold sendReplyByIntermediateNode
  -- the two updates, from any state whose table is that of `s` or that of `s` purged
  have hupdates : ∀ (t : RoutingProtocol), Kept s t → Continues t toOrigin → ∀ id id',
      Kept s ((t.update (toDst.insertPrecursor id)).update (toOrigin.insertPrecursor id')) := by
    intro t ht hcontinues id id'
    have hvalid : (toDst.insertPrecursor id).m_flag = .valid := by rw [flag_insertPrecursor, valid]
    refine (ht.trans (kept_updateValid t hvalid)).trans (kept_update _ (.insertPrecursor ?_ _))
    intro hflag old hold hsame
    rcases mem_update.mp hold with ⟨hold, -⟩ | ⟨rfl, -⟩
    · exact hcontinues hflag old hold hsame
    · rw [destination_settle, destination_insertPrecursor] at hsame
      exact absurd hsame.symm (apart hflag)
  have hpurged : Continues (s.purge c) toOrigin := by
    intro hflag old' hold' hsame
    obtain ⟨old, hold, hkept⟩ := mem_purge.mp hold'
    have haged := purgeEntry_aged hkept
    obtain ⟨hsearch, hcount⟩ := continues hflag old hold (haged.destination ▸ hsame)
    rw [haged.searching hsearch]
    exact ⟨hsearch, hcount⟩
  have hstart : Kept s (if toDst.m_hops = 1 then s.purge c else s) ∧
      Continues (if toDst.m_hops = 1 then s.purge c else s) toOrigin := by
    split_ifs
    · exact ⟨kept_purge s, hpurged⟩
    · exact ⟨.refl s, continues⟩
  refine (kept_sendOver _ _ _ _ _).bind fun t ht => ?_
  have hkept := (hupdates _ hstart.1 hstart.2 _ _).trans ht
  refine .ite (fun _ => ?_) fun _ => ensures_ok.mpr hkept
  exact (kept_sendOver _ _ _ _ _).weaken fun u hu => hkept.trans hu

theorem kept_forwardRequest (s : RoutingProtocol) (rreqHeader : RreqHeader) (ttl : UInt8) :
    Kept s (s.forwardRequest c rreqHeader ttl) := by
  unfold forwardRequest
  split_ifs
  · exact .refl s
  · refine kept_foldl (fun t i => ?_) _ _
    exact .of_eq rfl rfl rfl

theorem continues_lookup {id : Ipv4Address} {rt : RoutingTableEntry}
    (sorted : Sorted s.m_routingTable) (copy : rt.m_flag = .inSearch → rt.getDestination = id) :
      Continues s ((s.find id).getD rt) := by
  cases hfound : s.find id with
  | none =>
    intro hflag old hold hsame
    exact absurd (hsame.trans (copy hflag)) (find_eq_none.mp hfound old hold)
  | some e => exact continues_found sorted hfound rfl rfl rfl

theorem kept_relayRequest (sorted : Sorted s.m_routingTable) (rreqHeader : RreqHeader) (ttl : UInt8)
    (src : Ipv4Address) {toOrigin : RoutingTableEntry}
    (copy : toOrigin.m_flag = .inSearch → toOrigin.getDestination = rreqHeader.origin) :
    Ensures (s.relayRequest c rreqHeader ttl src toOrigin) (Kept s) NoAbort := by
  unfold relayRequest
  have hpurge : Kept s (s.purge c) := kept_purge s
  dsimp only
  cases hdst : (s.purge c).find rreqHeader.dst with
  | none => exact ensures_ok.mpr (hpurge.trans (kept_forwardRequest _ _ _))
  | some toDst =>
    dsimp only
    split_ifs with hnext hknown hvalid
    · exact ensures_ok.mpr hpurge
    · have hpurged : Kept (s.purge c) ((s.purge c).purge c) := kept_purge _
      have hsorted := hpurged.sorted (hpurge.sorted sorted)
      have hcontinues := continues_lookup hsorted copy
      refine (kept_sendReplyByIntermediateNode hvalid.2 hcontinues (fun hflag hsame => ?_) _).weaken
        fun t ht =>
        (hpurge.trans hpurged).trans ht
      -- the entry of the destination is still there, and not in search
      have hlive : toDst.m_flag ≠ .invalid := by simp [hvalid.2]
      obtain ⟨toDst', hkept⟩ := exists_purgeEntry (s.purge c).now c.m_badLinkLifetime hlive
      have haged := purgeEntry_aged hkept
      have hidle : toDst.m_flag ≠ .inSearch := by simp [hvalid.2]
      have hmem := mem_purge.mpr ⟨toDst, (find_eq_some hdst).1, hkept⟩
      exact (haged.settled hidle).1
        (hcontinues hflag toDst' hmem (haged.destination.trans hsame.symm)).1
    · exact ensures_ok.mpr (hpurge.trans (kept_forwardRequest _ _ _))
    · exact ensures_ok.mpr (hpurge.trans (kept_forwardRequest _ _ _))

theorem kept_recvRequest (sorted : Sorted s.m_routingTable) (rreqHeader : RreqHeader) (ttl : UInt8)
    (receiver src : Ipv4Address) :
    Ensures (s.recvRequest c rreqHeader ttl receiver src) (Kept s) NoAbort := by
  unfold recvRequest
  have hpurge : Kept s (s.purge c) := kept_purge s
  have hremember :=
    hpurge.trans (kept_rememberId (c := c) (s.purge c) rreqHeader.origin rreqHeader.requestID)
  dsimp only
  split_ifs with hblack hduplicate howner
  · exact ensures_ok.mpr hpurge
  · exact ensures_ok.mpr hremember
  all_goals
    obtain ⟨hreverse, hcopy⟩ := kept_updateReverseRoute (c := c) (hremember.sorted sorted)
      { rreqHeader with hopCount := rreqHeader.hopCount + 1 } receiver src
    have hneighbor := (hremember.trans hreverse).trans (kept_updateRequestNeighbor (c := c) _
      { rreqHeader with hopCount := rreqHeader.hopCount + 1 } receiver src)
  · exact (kept_sendReply _ _ _).weaken fun t ht => (hneighbor.trans (kept_purge _)).trans ht
  · exact (kept_relayRequest (hneighbor.sorted sorted) _ _ _ hcopy).weaken fun t ht =>
      hneighbor.trans ht

theorem kept_processHello (s : RoutingProtocol) (rrepHeader : RrepHeader) (receiver : Ipv4Address) :
    Kept s (s.processHello c rrepHeader receiver) := by
  unfold processHello
  refine (kept_purge (c := c) s).trans ?_
  dsimp only
  split
  · exact kept_addRoute _ (by simp [RoutingTableEntry.create])
  · exact kept_updateValid _ rfl

theorem kept_updateForwardRoute (s : RoutingProtocol) (rrepHeader : RrepHeader)
    {newEntry : RoutingTableEntry}
    (valid : newEntry.m_flag = .valid) : Kept s (s.updateForwardRoute c rrepHeader newEntry) := by
  unfold updateForwardRoute
  split
  · exact kept_addRoute _ (by simp [valid])
  · split_ifs
    · exact kept_updateValid _ valid
    · exact .refl s

theorem kept_sendReplyAck (s : RoutingProtocol) (neighbor : Ipv4Address) :
    Ensures (s.sendReplyAck c neighbor) (Kept s) NoAbort := by
  unfold sendReplyAck
  exact (kept_sendOver _ _ _ _ _).weaken fun t ht => (kept_purge s).trans ht

theorem kept_eraseTimer {dst : Ipv4Address} (ended : ∀ e ∈ s.m_routingTable, e.m_flag = .inSearch →
    e.getDestination ≠ dst) : Kept s (s.eraseTimer dst) := by
  refine ⟨fun h => h, fun e he hflag => ⟨e, he, rfl, hflag, rfl⟩, fun h =>
    h, fun e he hflag halive => ?_⟩
  rcases halive with ⟨t, ht, hdst, hruns⟩ | hpending
  · refine .inl ⟨t, mem_filter.mpr ⟨ht, ?_⟩, hdst, hruns⟩
    simpa [hdst] using ended e he hflag
  · exact .inr hpending

theorem kept_replyArrived (s : RoutingProtocol) (searching : Bool) {newEntry : RoutingTableEntry}
    (valid : newEntry.m_flag = .valid) (toDst : RoutingTableEntry) :
    Kept s (s.replyArrived c newEntry.getDestination searching newEntry toDst) := by
  unfold replyArrived
  refine Kept.trans ?_ ((kept_purge (c := c) _).trans (.of_eq rfl rfl rfl))
  split_ifs
  · refine (kept_updateValid s valid).trans (kept_eraseTimer fun e he hflag => ?_)
    rcases mem_update.mp he with ⟨-, hne⟩ | ⟨rfl, -⟩
    · exact hne
    · rw [flag_settle, valid] at hflag
      cases hflag
  · exact .refl s

section

variable (sorted : Sorted s.m_routingTable)

include sorted

theorem kept_insertPrecursorAt (nextHop precursor : Ipv4Address) :
    Kept s (s.insertPrecursorAt c nextHop precursor) := by
  unfold insertPrecursorAt
  have hpurge : Kept s (s.purge c) := kept_purge s
  refine hpurge.trans (kept_update _ (.insertPrecursor ?_ _))
  exact continues_lookup (hpurge.sorted sorted) fun h => by cases h

theorem kept_updatePrecursors (dst : Ipv4Address) {toOrigin : RoutingTableEntry}
    (idle : toOrigin.m_flag ≠ .inSearch) : Kept s (s.updatePrecursors c dst toOrigin) := by
  unfold updatePrecursors
  have hpurge : Kept s (s.purge c) := kept_purge s
  dsimp only
  split
  · exact hpurge
  · rename_i toDst hfound
    split_ifs with hvalid
    · have hflag : (toDst.insertPrecursor toOrigin.getNextHop).m_flag = .valid := by
        rw [flag_insertPrecursor, hvalid]
      have hidle : (toOrigin.insertPrecursor toDst.getNextHop).m_flag ≠ .inSearch := by
        rw [flag_insertPrecursor]
        exact idle
      have hfirst := hpurge.trans (kept_updateValid (s.purge c) hflag)
      have hsecond :=
        hfirst.trans (kept_insertPrecursorAt (c := c) (hfirst.sorted sorted) toDst.getNextHop
        toOrigin.getNextHop)
      have hthird := hsecond.trans (kept_update _ (continues_idle hidle))
      exact hthird.trans (kept_insertPrecursorAt (hthird.sorted sorted) _ _)
    · exact hpurge

theorem kept_relayReply (rrepHeader : RrepHeader) (ttl : UInt8) :
    Ensures (s.relayReply c rrepHeader ttl) (Kept s) NoAbort := by
  unfold relayReply
  have hpurge : Kept s (s.purge c) := kept_purge s
  dsimp only
  split
  · exact ensures_ok.mpr hpurge
  · rename_i toOrigin hfound
    split_ifs with hsearch httl
    · exact ensures_ok.mpr hpurge
    all_goals
      have hidle : (toOrigin.setLifeTime (s.purge c).now (max c.m_activeRouteTimeout
          (toOrigin.getLifeTime (s.purge c).now))).m_flag ≠ .inSearch := hsearch
      have hrefreshed := hpurge.trans (kept_update (s.purge c) (continues_idle hidle))
      have hprecursors :=
        hrefreshed.trans (kept_updatePrecursors (c := c) (hrefreshed.sorted sorted) rrepHeader.dst
        hidle)
    · exact ensures_ok.mpr hprecursors
    · exact (kept_sendOver _ _ _ _ _).weaken fun t ht => hprecursors.trans ht

theorem kept_recvReply (rrepHeader : RrepHeader) (ttl : UInt8) (receiver sender : Ipv4Address) :
    Ensures (s.recvReply c rrepHeader ttl receiver sender) (Kept s) NoAbort := by
  unfold recvReply
  have hpurge : Kept s (s.purge c) := kept_purge s
  dsimp only
  refine .ite (fun _ => ensures_ok.mpr (kept_processHello s _ receiver)) fun _ => ?_
  have hforward : ∀ (rrepHeader : RrepHeader) (newEntry : RoutingTableEntry), newEntry.m_flag =
    .valid →
      Kept s ((s.purge c).updateForwardRoute c rrepHeader newEntry) :=
        fun rrepHeader newEntry valid =>
    hpurge.trans (kept_updateForwardRoute (s.purge c) rrepHeader valid)
  have hacknowledged : ∀ (t : RoutingProtocol) (required : Bool), Kept s t →
      Ensures (if required then t.sendReplyAck c sender else .ok t) (Kept s) NoAbort :=
        fun t required ht =>
    .ite (fun _ => (kept_sendReplyAck t sender).weaken fun u hu => ht.trans hu) fun _ =>
      ensures_ok.mpr ht
  refine (hacknowledged _ _ (hforward _ _ rfl)).bind fun t ht => ?_
  refine .ite (fun _ => ensures_ok.mpr (ht.trans (kept_replyArrived t _ rfl _))) fun _ => ?_
  exact (kept_relayReply (ht.sorted sorted) _ _).weaken fun u hu => ht.trans hu

end

theorem kept_recvReplyAck (s : RoutingProtocol) (neighbor : Ipv4Address) :
    Kept s (s.recvReplyAck c neighbor) := by
  unfold recvReplyAck
  refine (kept_purge (c := c) s).trans ?_
  dsimp only
  split
  · exact .refl _
  · exact kept_updateValid _ rfl

theorem kept_recvAodv (sorted : Sorted s.m_routingTable) (message : Message) (ttl : UInt8)
    (receiver sender : Ipv4Address) :
    Ensures (s.recvAodv c message ttl receiver sender) (Kept s) NoAbort := by
  unfold recvAodv
  have hneighbor : Kept s (s.updateRouteToNeighbor c sender receiver) :=
    kept_updateRouteToNeighbor s _ _
  have hsorted := hneighbor.sorted sorted
  cases message with
  | rreq rreqHeader =>
    exact (kept_recvRequest hsorted _ _ _ _).weaken fun t ht => hneighbor.trans ht
  | rrep rrepHeader => exact (kept_recvReply hsorted _ _ _ _).weaken fun t ht => hneighbor.trans ht
  | rerr rerrHeader => exact (kept_recvError _ _ _).weaken fun t ht => hneighbor.trans ht
  | rrepAck => exact ensures_ok.mpr (hneighbor.trans (kept_recvReplyAck _ _))

theorem kept_sendHello (s : RoutingProtocol) : Kept s (s.sendHello c) := by
  refine kept_foldl (fun t i => ?_) _ _
  exact .of_eq rfl rfl rfl

end Messages

/-! ## Requests -/

section Requests

variable {c : Config} {s : RoutingProtocol} {dst : Ipv4Address} {exempt : Ipv4Address → Prop}

/-- A search that would ask at the full TTL once more has not done so often enough. -/
def RingsLeft (c : Config) (s : RoutingProtocol) (dst : Ipv4Address) : Prop :=
  ∀ rt ∈ (s.purge c).find dst, rt.m_flag = .inSearch →
    (ringTtl c rt).toUInt32 = c.m_netDiameter →
      rt.m_reqCount.toNat < c.m_rreqRetries.toNat ∧ rt.m_reqCount ≠ 255
deriving Decidable

def Searched (c : Config) (s : RoutingProtocol) (dst : Ipv4Address) : Prop :=
  ∀ e ∈ s.m_routingTable, e.getDestination = dst →
    e.m_flag = .inSearch ∧ (e.m_hops.toUInt32 < c.m_netDiameter ∨ e.m_reqCount ≠ 0)

structure Sensible (c : Config) : Prop where
  threshold : c.m_ttlThreshold.toUInt32 < c.m_netDiameter
  retries : 0 < c.m_rreqRetries.toNat
  start : c.m_ttlStart.toUInt32 ≤ c.m_netDiameter

theorem ringTtl_le (sensible : Sensible c) (rt : RoutingTableEntry) :
    (ringTtl c rt).toUInt32 ≤ c.m_netDiameter := by
  have hdiameter : c.m_netDiameter.toUInt16.toUInt32 ≤ c.m_netDiameter := by
    rw [UInt32.le_iff_toNat_le, UInt16.toNat_toUInt32, UInt32.toNat_toUInt16]
    exact Nat.mod_le _ _
  unfold ringTtl
  dsimp only
  split_ifs with hidle hfar
  · -- the smaller of the two is chosen
    have hmin : min (rt.m_hops + c.m_ttlIncrement) c.m_netDiameter.toUInt16 =
        if rt.m_hops + c.m_ttlIncrement ≤ c.m_netDiameter.toUInt16 then rt.m_hops + c.m_ttlIncrement
        else c.m_netDiameter.toUInt16 := rfl
    rw [hmin]
    split_ifs with hle
    · refine UInt32.le_trans ?_ hdiameter
      rw [UInt32.le_iff_toNat_le, UInt16.toNat_toUInt32, UInt16.toNat_toUInt32]
      exact UInt16.le_iff_toNat_le.mp hle
    · exact hdiameter
  · exact hdiameter
  · have hthreshold := sensible.threshold
    rw [gt_iff_lt, UInt16.lt_iff_toNat_lt] at hfar
    rw [UInt32.lt_iff_toNat_lt, UInt16.toNat_toUInt32] at hthreshold
    rw [UInt32.le_iff_toNat_le, UInt16.toNat_toUInt32]
    omega

theorem countRing_spec {ttl : UInt16} {rt : RoutingTableEntry} (le : ttl.toUInt32 ≤ c.m_netDiameter)
    (bounded : rt.m_reqCount.toNat ≤ c.m_rreqRetries.toNat)
    (left : ttl.toUInt32 = c.m_netDiameter → rt.m_reqCount.toNat < c.m_rreqRetries.toNat ∧
      rt.m_reqCount ≠ 255) :
    (countRing c ttl rt).m_reqCount.toNat ≤ c.m_rreqRetries.toNat ∧
      (ttl.toUInt32 < c.m_netDiameter ∨ (countRing c ttl rt).m_reqCount ≠ 0) := by
  unfold countRing
  by_cases hfull : ttl.toUInt32 = c.m_netDiameter
  · rw [if_pos hfull]
    obtain ⟨hlt, hwrap⟩ := left hfull
    have hbound := rt.m_reqCount.toNat_lt
    have hne : rt.m_reqCount.toNat ≠ 255 := fun heq => hwrap (UInt8.toNat_inj.mp heq)
    have hsucc : (rt.m_reqCount + 1).toNat = rt.m_reqCount.toNat + 1 := by
      rw [UInt8.toNat_add, UInt8.toNat_one]
      omega
    refine ⟨by rw [hsucc]; exact hlt, .inr fun heq => ?_⟩
    rw [show rt.m_reqCount + 1 = 0 from heq, UInt8.toNat_zero] at hsucc
    omega
  · rw [if_neg hfull]
    exact ⟨bounded, .inl (UInt32.lt_of_le_of_ne le hfull)⟩

theorem RingsLeft.counts (left : RingsLeft c s dst) (sensible : Sensible c)
    (h : SearchOk c exempt (s.purge c)) {rt : RoutingTableEntry}
    (found : (s.purge c).find dst = some rt) :
    (countRing c (ringTtl c rt) rt).m_reqCount.toNat ≤ c.m_rreqRetries.toNat ∧
      ((ringTtl c rt).toUInt32 < c.m_netDiameter ∨
        (countRing c (ringTtl c rt) rt).m_reqCount ≠ 0) := by
  have hmem := (find_eq_some found).1
  by_cases hflag : rt.m_flag = .inSearch
  · exact countRing_spec (ringTtl_le sensible rt) (h.bounded rt hmem hflag) (left rt found hflag)
  · have hzero := h.settled rt hmem hflag
    refine countRing_spec (ringTtl_le sensible rt) (by simp [hzero]) fun _ => ?_
    rw [hzero]
    exact ⟨sensible.retries, (by decide : (0 : UInt8) ≠ 255)⟩

theorem destination_countRing (ttl : UInt16) (rt : RoutingTableEntry) :
    (countRing c ttl rt).getDestination = rt.getDestination := by
  unfold countRing
  split_ifs <;> rfl

theorem beginSearch_ok (h : SearchOk c (· = dst) s) (sensible : Sensible c)
    (left : RingsLeft c s dst) :
    SearchOk c (· = dst) (s.beginSearch c dst).1 ∧ Searched c (s.beginSearch c dst).1 dst := by
  have hpurged : SearchOk c (· = dst) (s.purge c) := h.kept (kept_purge s)
  unfold beginSearch
  dsimp only
  cases hfound : (s.purge c).find dst with
  | some rt =>
    obtain ⟨hbounded, hcount⟩ := left.counts sensible hpurged hfound
    let rt' := ({ countRing c (ringTtl c rt) rt with
      m_hops := ringTtl c rt, m_flag := .inSearch } : RoutingTableEntry).setLifeTime
        (s.purge c).now c.m_pathDiscoveryTime
    have hdst : rt'.getDestination = dst := by
      refine Eq.trans ?_ (find_eq_some hfound).2
      exact destination_countRing (ringTtl c rt) rt
    have hmem : ∀ e, e ∈ ((s.purge c).update rt').m_routingTable →
        (e ∈ (s.purge c).m_routingTable ∧ e.getDestination ≠ dst) ∨ e = rt' := by
      intro e he
      rcases mem_update.mp he with ⟨he, hne⟩ | ⟨rfl, -⟩
      · exact .inl ⟨he, hdst ▸ hne⟩
      · exact .inr (settle_inSearch rfl)
    refine ⟨⟨sorted_update hpurged.sorted, fun e he hflag => ?_, fun e he hflag =>
      ?_, fun e he hflag hexempt => ?_⟩,
      fun e he hsame => ?_⟩
    · rcases hmem e he with ⟨he, -⟩ | rfl
      · exact hpurged.bounded e he hflag
      · exact hbounded
    · rcases hmem e he with ⟨he, -⟩ | rfl
      · exact hpurged.settled e he hflag
      · exact absurd rfl hflag
    · rcases hmem e he with ⟨he, -⟩ | rfl
      · exact hpurged.alive e he hflag hexempt
      · exact absurd hdst hexempt
    · rcases hmem e he with ⟨-, hne⟩ | rfl
      · exact absurd hsame hne
      · exact ⟨rfl, hcount⟩
  | none =>
    let fresh :=
      RoutingTableEntry.create (s.purge c).now none dst false 0 .unset c.m_ttlStart unsetAddress
      c.m_pathDiscoveryTime
    let newEntry := countRing c c.m_ttlStart fresh
    have hcounts : newEntry.m_reqCount.toNat ≤ c.m_rreqRetries.toNat ∧
        (c.m_ttlStart.toUInt32 < c.m_netDiameter ∨ newEntry.m_reqCount ≠ 0) :=
      countRing_spec sensible.start (Nat.zero_le _) fun _ =>
        ⟨sensible.retries, (by decide : (0 : UInt8) ≠ 255)⟩
    obtain ⟨hbounded, hcount⟩ := hcounts
    have hagain : SearchOk c (· = dst) ((s.purge c).purge c) := hpurged.kept (kept_purge _)
    have hdst : ({ newEntry with m_flag := .inSearch } : RoutingTableEntry).getDestination = dst :=
      destination_countRing c.m_ttlStart _
    have hhops : newEntry.m_hops = c.m_ttlStart := by
      simp only [newEntry, countRing]
      split_ifs <;> rfl
    have habsent : ∀ e ∈ ((s.purge c).purge c).m_routingTable, e.getDestination ≠ dst := by
      intro e' he' hsame
      obtain ⟨e, he, hkept⟩ := mem_purge.mp he'
      exact find_eq_none.mp hfound e he ((purgeEntry_aged hkept).destination ▸ hsame)
    have hmem : ∀ e, e ∈
      ((s.purge c).addRoute c { newEntry with m_flag := .inSearch }).m_routingTable →
        e ∈ ((s.purge c).purge c).m_routingTable ∨ e = { newEntry with m_flag := .inSearch } := by
      intro e he
      rcases mem_insert he with rfl | he
      · exact .inr (settle_inSearch rfl)
      · exact .inl he
    refine ⟨⟨sorted_insert hagain.sorted, fun e he hflag => ?_, fun e he hflag =>
      ?_, fun e he hflag hexempt => ?_⟩,
      fun e he hsame => ?_⟩
    · rcases hmem e he with he | rfl
      · exact hagain.bounded e he hflag
      · exact hbounded
    · rcases hmem e he with he | rfl
      · exact hagain.settled e he hflag
      · exact absurd rfl hflag
    · rcases hmem e he with he | rfl
      · exact hagain.alive e he hflag hexempt
      · exact absurd hdst hexempt
    · rcases hmem e he with he | rfl
      · exact absurd hsame (habsent e he)
      · refine ⟨rfl, ?_⟩
        change newEntry.m_hops.toUInt32 < c.m_netDiameter ∨ newEntry.m_reqCount ≠ 0
        rw [hhops]
        exact hcount

/-! Timers of other destinations go on. -/

theorem Alive.setTimer {d : Ipv4Address} (h : Alive s d) (ne : d ≠ dst) (timer : AddressReqTimer) :
    Alive { s with
      m_addressReqTimer := s.m_addressReqTimer.filter (fun t => t.dst ≠ dst) ++ [timer] } d := by
  rcases h with ⟨t, ht, hdst, hruns⟩ | hpending
  · refine .inl ⟨t, mem_append_left _ (mem_filter.mpr ⟨ht, ?_⟩), hdst, hruns⟩
    simpa [hdst] using ne
  · exact .inr hpending

theorem SearchOk.setTimer (h : SearchOk c (· = dst) s) (timer : AddressReqTimer) :
    SearchOk c (· = dst)
      { s with m_addressReqTimer := s.m_addressReqTimer.filter (fun t =>
        t.dst ≠ dst) ++ [timer] } :=
  ⟨h.sorted, h.bounded, h.settled, fun e he hflag hne =>
    (h.alive e he hflag hne).setTimer hne timer⟩

theorem SearchOk.rescued (h : SearchOk c (· = dst) s) (alive : Alive s dst) :
    SearchOk c (fun _ => False) s := by
  refine ⟨h.sorted, h.bounded, h.settled, fun e he hflag _ => ?_⟩
  by_cases hsame : e.getDestination = dst
  · exact hsame ▸ alive
  · exact h.alive e he hflag hsame

theorem SearchOk.finished (h : SearchOk c (· = dst) s)
    (ended : ∀ e ∈ s.m_routingTable, e.m_flag = .inSearch → e.getDestination ≠ dst) :
    SearchOk c (fun _ => False) s :=
  ⟨h.sorted, h.bounded, h.settled, fun e he hflag _ => h.alive e he hflag (ended e he hflag)⟩

theorem scheduleRreqRetry_ok (h : SearchOk c (· = dst) s) (sensible : Sensible c)
    (searched : Searched c s dst) :
    Ensures (s.scheduleRreqRetry c dst) (SearchOk c fun _ => False) NoAbort := by
  unfold scheduleRreqRetry
  have hpurged : SearchOk c (· = dst) ((s.removeTimer dst).purge c) :=
    (h.setTimer ⟨dst, none⟩).kept (kept_purge _)
  have hscheduled : ∀ delay,
      SearchOk c (fun _ => False) (((s.removeTimer dst).purge c).scheduleTimer dst delay) := by
    intro delay
    let timer : AddressReqTimer := ⟨dst, some (((s.removeTimer dst).purge c).now + delay)⟩
    have hmem : timer ∈ (((s.removeTimer dst).purge c).scheduleTimer dst delay).m_addressReqTimer :=
      mem_append_right _ (mem_singleton.mpr rfl)
    exact (hpurged.setTimer timer).rescued (.inl ⟨timer, hmem, rfl, rfl⟩)
  have hcount : ∀ rt, (((s.removeTimer dst).purge c).find dst).getD (.unset s.now) = rt →
      rt.m_hops.toUInt32 < c.m_netDiameter ∨ rt.m_reqCount ≠ 0 := by
    rintro rt rfl
    cases hfound : ((s.removeTimer dst).purge c).find dst with
    | none =>
      refine .inl ?_
      have hthreshold := UInt32.lt_iff_toNat_lt.mp sensible.threshold
      exact UInt32.lt_iff_toNat_lt.mpr (Nat.lt_of_le_of_lt (Nat.zero_le _) hthreshold)
    | some rt =>
      obtain ⟨hmem, hdst⟩ := find_eq_some hfound
      obtain ⟨e, he, hkept⟩ := mem_purge.mp hmem
      have haged := purgeEntry_aged hkept
      obtain ⟨hflag, hcount⟩ := searched e he (haged.destination ▸ hdst)
      rw [Option.getD_some, haged.searching hflag]
      exact hcount
  dsimp only
  refine .ite (fun _ => hscheduled _) fun hfar => .ite (fun hzero => ?_) fun _ => hscheduled _
  exact ((hcount _ rfl).elim hfar fun hne => hne hzero).elim

theorem table_broadcastRequest (rreqHeader : RreqHeader) (ttl : UInt16)
    (interfaces : List Interface) (s : RoutingProtocol) :
    (interfaces.foldl (broadcastRequest c rreqHeader ttl) s).m_routingTable = s.m_routingTable ∧
      (interfaces.foldl (broadcastRequest c rreqHeader ttl) s).m_addressReqTimer =
        s.m_addressReqTimer ∧
      (interfaces.foldl (broadcastRequest c rreqHeader ttl) s).deferred = s.deferred := by
  induction interfaces generalizing s with
  | nil => exact ⟨rfl, rfl, rfl⟩
  | cons i interfaces ih =>
    obtain ⟨htable, htimers, hdeferred⟩ := ih (broadcastRequest c rreqHeader ttl s i)
    have hone : (broadcastRequest c rreqHeader ttl s i).m_routingTable = s.m_routingTable ∧
        (broadcastRequest c rreqHeader ttl s i).m_addressReqTimer = s.m_addressReqTimer ∧
        (broadcastRequest c rreqHeader ttl s i).deferred = s.deferred := by
      unfold broadcastRequest rememberId
      dsimp only
      split_ifs <;> exact ⟨rfl, rfl, rfl⟩
    exact ⟨htable.trans hone.1, htimers.trans hone.2.1, hdeferred.trans hone.2.2⟩

theorem sendRequest_ok (h : SearchOk c (· = dst) s) (sensible : Sensible c)
    (left : s.m_rreqCount ≠ c.m_rreqRateLimit → RingsLeft c s dst) :
    Ensures (s.sendRequest c dst) (SearchOk c fun _ => False) NoAbort := by
  unfold sendRequest
  refine .ite (fun _ => ensures_ok.mpr ?_) fun hlimit => ?_
  · -- the request is made later
    have hdeferred : SearchOk c (· = dst)
        { s with deferred := s.deferred ++ [⟨s.rreqRateLimitExpires + microseconds 100,
          dst⟩] } := by
      refine ⟨h.sorted, h.bounded, h.settled, fun e he hflag hne => ?_⟩
      exact (h.alive e he hflag hne).imp_right fun ⟨d, hd, hdst⟩ => ⟨d, mem_append_left _ hd, hdst⟩
    exact hdeferred.rescued (.inr ⟨_, mem_append_right _ (mem_singleton.mpr rfl), rfl⟩)
  · have hcounted : SearchOk c (· = dst) { s with m_rreqCount := s.m_rreqCount + 1 } :=
      h.kept (.of_eq rfl rfl rfl)
    obtain ⟨hok, hsearched⟩ := beginSearch_ok hcounted sensible (left hlimit)
    dsimp only
    obtain ⟨htable, htimers, hdeferred⟩ := table_broadcastRequest (c := c) _ _ c.interfaces _
    refine scheduleRreqRetry_ok (hok.kept (.of_eq htable htimers hdeferred)) sensible fun e he => ?_
    exact hsearched e (htable ▸ he)

theorem deferredRouteOutput_ok (h : SearchOk c (fun _ => False) s) (sensible : Sensible c)
    (p : Packet) (header : Ipv4Header) (ucb ecb : ℕ) :
    Ensures (s.deferredRouteOutput c p header ucb ecb) (SearchOk c fun _ => False) NoAbort := by
  unfold deferredRouteOutput
  dsimp only
  cases hqueue : s.m_queue.enqueue s.now ⟨p, header, ucb, ecb, s.now + s.now⟩ with
  | mk queue accepted =>
    have hstored : SearchOk c (fun _ => False) { s with m_queue := queue } :=
      h.kept (.of_eq rfl rfl rfl)
    have hpurged : SearchOk c (fun _ => False) ({ s with m_queue := queue }.purge c) :=
      hstored.kept (kept_purge _)
    cases accepted with
    | false => exact ensures_ok.mpr hstored
    | true =>
      refine .ite (fun _ => ensures_ok.mpr hpurged) fun hidle => ?_
      refine sendRequest_ok (hpurged.weaken fun _ => False.elim) sensible fun _ rt hfound hflag _ =>
        absurd ?_ hidle
      -- an entry that is in search after the second purge was so before it
      obtain ⟨hmem, hdst⟩ := find_eq_some hfound
      obtain ⟨e, he, hsame, hsearch, -⟩ := (kept_purge (c := c) _).searching rt hmem hflag
      cases hfirst : ({ s with m_queue := queue }.purge c).find header.m_destination with
      | none => exact absurd (hsame.trans hdst) (find_eq_none.mp hfirst e he)
      | some e' =>
        obtain ⟨hmem', hdst'⟩ := find_eq_some hfirst
        rw [← hpurged.sorted.unique he hmem' ((hsame.trans hdst).trans hdst'.symm)]
        simp [hsearch]

theorem stopSearch_ok (h : SearchOk c (· = dst) s) : SearchOk c (fun _ => False)
    (s.stopSearch c dst) := by
  unfold stopSearch
  have herased : SearchOk c (· = dst) (s.eraseTimer dst) := by
    refine ⟨h.sorted, h.bounded, h.settled, fun e he hflag hne => ?_⟩
    refine (h.alive e he hflag hne).imp_left fun ⟨t, ht, hdst, hruns⟩ =>
      ⟨t, mem_filter.mpr ⟨ht, ?_⟩, hdst, hruns⟩
    simpa [hdst] using hne
  have hpurged : SearchOk c (· = dst) ((s.eraseTimer dst).purge c) := herased.kept (kept_purge _)
  have hkept : Kept ((s.eraseTimer dst).purge c) ((s.eraseTimer dst).deleteRoute c dst) := by
    refine .aged sorted_deleteRoute (fun e he => ⟨e, (mem_deleteRoute.mp he).1, .refl e⟩) rfl rfl
  have hdeleted := (hpurged.kept hkept).finished fun e he _ => (mem_deleteRoute.mp he).2
  exact hdeleted.kept (.of_eq rfl rfl rfl)

def CountLeft (c : Config) (s : RoutingProtocol) (dst : Ipv4Address) : Prop :=
  ∀ rt ∈ (s.purge c).find dst, rt.m_flag = .inSearch →
    (ringTtl c rt).toUInt32 = c.m_netDiameter → rt.m_reqCount ≠ 255
deriving Decidable

theorem routeRequestTimerExpire_ok (h : SearchOk c (· = dst) s) (sensible : Sensible c)
    (left : s.m_rreqCount ≠ c.m_rreqRateLimit → CountLeft c s dst) :
    Ensures (s.routeRequestTimerExpire c dst) (SearchOk c fun _ => False) NoAbort := by
  unfold routeRequestTimerExpire
  have hpurged : SearchOk c (· = dst) (s.purge c) := h.kept (kept_purge _)
  dsimp only
  refine .ite (fun hvalid => ensures_ok.mpr ?_) fun _ =>
    .ite (fun _ => ensures_ok.mpr (stopSearch_ok hpurged))
    fun hcount => .ite (fun hsearch => ?_) fun _ => ensures_ok.mpr (stopSearch_ok hpurged)
  · -- a route was found in the meantime
    have hsent : SearchOk c (· = dst) ((s.purge c).sendPacketFromQueue dst
        (((s.purge c).find dst).getD (.unset (s.purge c).now)).m_ipv4Route) :=
          hpurged.kept (.of_eq rfl rfl rfl)
    refine hsent.finished fun e he hflag hdst => ?_
    obtain ⟨hsome, hflag'⟩ := hvalid
    obtain ⟨toDst, hfound⟩ := Option.isSome_iff_exists.mp hsome
    rw [hfound, Option.getD_some] at hflag'
    obtain ⟨hmem', hdst'⟩ := find_eq_some hfound
    rw [hpurged.sorted.unique he hmem' (hdst.trans hdst'.symm), hflag'] at hflag
    cases hflag
  · cases hfound : (s.purge c).find dst with
    | none =>
      rw [hfound] at hsearch
      cases hsearch
    | some toDst =>
      rw [hfound, Option.getD_some] at hcount hsearch
      obtain ⟨hmem, hdst⟩ := find_eq_some hfound
      -- the second purge finds the same entry, which is asked for less often than allowed
      refine sendRequest_ok hpurged sensible fun hlimit rt hrt hflag hfull => ?_
      obtain ⟨hmem', hdst'⟩ := find_eq_some hrt
      obtain ⟨e, he, hkept⟩ := mem_purge.mp hmem'
      have haged := purgeEntry_aged hkept
      have hsame : e = toDst :=
        hpurged.sorted.unique he hmem ((haged.destination ▸ hdst').trans hdst.symm)
      have heq : rt = toDst := (haged.searching (hsame ▸ hsearch)).trans hsame
      rw [heq] at hfull ⊢
      refine ⟨lt_of_le_of_ne (hpurged.bounded toDst hmem hsearch) fun heq => hcount ?_,
        left hlimit toDst hfound hsearch hfull⟩
      exact UInt32.toNat_inj.mp (by rw [UInt8.toNat_toUInt32, heq])

/-- A request comes in time. One that was put off finds its search still open, and none wraps the
counter. -/
def InTime (c : Config) (s : RoutingProtocol) : Action → Prop
  | .fireTimer dst => ∀ t ∈ s.m_addressReqTimer.find? fun t => t.dst = dst, ∀ expires ∈ t.expires,
      s.m_rreqCount ≠ c.m_rreqRateLimit → CountLeft c { s with now := expires } dst
  | .fireDeferred k => ∀ request ∈ s.deferred[k]?, s.m_rreqCount ≠ c.m_rreqRateLimit →
      RingsLeft c { s with now := request.ts } request.dst
  | _ => True

theorem fireTimer_ok (h : SearchOk c (fun _ => False) s) (sensible : Sensible c) (dst : Ipv4Address)
    (inTime : InTime c s (.fireTimer dst)) :
    Ensures (s.fireTimer c dst) (SearchOk c fun _ => False) NoAbort := by
  unfold fireTimer
  split
  · rename_i t d expires hfound
    refine routeRequestTimerExpire_ok ?_ sensible fun hlimit => inTime _ hfound expires rfl hlimit
    refine ⟨h.sorted, h.bounded, h.settled, fun e he hflag hne => ?_⟩
    refine (h.alive e he hflag not_false).imp_left fun ⟨t, ht, hdst, hruns⟩ => ⟨t, ?_, hdst, hruns⟩
    exact mem_map.mpr ⟨t, ht, if_neg fun hsame => hne (hdst ▸ hsame)⟩
  · exact ensures_error.mpr (by simp [NoAbort])

theorem fireDeferred_ok (h : SearchOk c (fun _ => False) s) (sensible : Sensible c) (k : ℕ)
    (inTime : InTime c s (.fireDeferred k)) :
    Ensures (s.fireDeferred c k) (SearchOk c fun _ => False) NoAbort := by
  unfold fireDeferred
  split
  · exact ensures_error.mpr (by simp [NoAbort])
  · rename_i request hrequest
    refine sendRequest_ok ?_ sensible fun hlimit => inTime request hrequest hlimit
    refine ⟨h.sorted, h.bounded, h.settled, fun e he hflag hne => ?_⟩
    refine (h.alive e he hflag not_false).imp_right fun ⟨d, hd, hdst⟩ => ⟨d, ?_, hdst⟩
    -- only the request that is made leaves the list
    obtain ⟨i, hi, rfl⟩ := mem_iff_getElem.mp hd
    refine mem_eraseIdx_iff_getElem.mpr ⟨i, hi, fun hik => hne ?_, rfl⟩
    subst hik
    rw [List.getElem?_eq_getElem hi, Option.some.injEq] at hrequest
    exact hdst.symm.trans (congrArg DeferredRequest.dst hrequest)

theorem step_ok (h : SearchOk c (fun _ => False) s) (sensible : Sensible c) (a : Action)
    (inTime : InTime c s a) : Ensures (step c s a) (SearchOk c fun _ => False) NoAbort := by
  have hkept : ∀ {x : Except Fault RoutingProtocol}, Ensures x (Kept s) NoAbort →
      Ensures x (SearchOk c fun _ => False) NoAbort := fun hx => hx.weaken fun t ht => h.kept ht
  cases a with
  | deferredRouteOutput p header ucb ecb => exact deferredRouteOutput_ok h sensible p header ucb ecb
  | fireTimer dst => exact fireTimer_ok h sensible dst inTime
  | fireDeferred k => exact fireDeferred_ok h sensible k inTime
  | rreqRateLimitTimerExpire => exact hkept (ensures_ok.mpr (.of_eq rfl rfl rfl))
  | rerrRateLimitTimerExpire => exact hkept (ensures_ok.mpr (.of_eq rfl rfl rfl))
  | recvAodv message ttl receiver sender => exact hkept (kept_recvAodv h.sorted _ _ _ _)
  | sendHello => exact hkept (ensures_ok.mpr (kept_sendHello s))
  | sendRerrWhenBreaksLinkToNextHop nextHop =>
    exact hkept (kept_sendRerrWhenBreaksLinkToNextHop s _)
  | wait now => exact hkept (ensures_ok.mpr (.of_eq rfl rfl rfl))

end Requests

/-! ## Runs -/

section Runs

variable {c : Config}

theorem initial_ok (c : Config) (maxQueueLen : UInt32) (maxQueueTime : ℤ) :
    SearchOk c (fun _ => False) (.initial c maxQueueLen maxQueueTime) := by
  have htable : Sorted (initialTable c) ∧ ∀ e ∈ initialTable c, e.m_flag = .valid ∧
      e.m_reqCount = 0 := by
    unfold initialTable
    refine foldlRecOn (motive := fun table => Sorted table ∧
      ∀ e ∈ table, e.m_flag = .valid ∧ e.m_reqCount = 0) c.interfaces _
        ⟨pairwise_singleton _ _, fun e he => ?_⟩ fun table h i _ => ?_
    · rw [mem_singleton.mp he]
      exact ⟨rfl, rfl⟩
    · refine ⟨sorted_insert h.1, fun e he => ?_⟩
      rcases mem_insert he with rfl | he
      · exact ⟨rfl, rfl⟩
      · exact h.2 e he
  have hidle : ∀ e ∈ initialTable c, e.m_flag ≠ .inSearch := fun e he => by simp [(htable.2 e he).1]
  exact ⟨htable.1, fun e he hflag => absurd hflag (hidle e he), fun e he _ => (htable.2 e he).2,
    fun e he hflag => absurd hflag (hidle e he)⟩

def DiscoveryBounded (c : Config) (s : RoutingProtocol) : Prop :=
  ∀ e ∈ s.m_routingTable, e.m_flag = .inSearch →
    e.m_reqCount.toNat ≤ c.m_rreqRetries.toNat ∧
      ((∃ t ∈ s.m_addressReqTimer, t.dst = e.getDestination ∧ t.expires.isSome) ∨
        ∃ d ∈ s.deferred, d.dst = e.getDestination)
deriving Decidable

/-- Route discovery is bounded and never stalls. -/
theorem discovery_bounded (sensible : Sensible c) (maxQueueLen : UInt32) (maxQueueTime : ℤ)
    (actions : List Action)
    (along : Along (step c) (InTime c) (.initial c maxQueueLen maxQueueTime) actions) :
    Ensures (exec (step c) (.initial c maxQueueLen maxQueueTime) actions) (DiscoveryBounded c)
      (fun f => f ≠ .rreqCount) := by
  have hrun : Ensures (exec (step c) (.initial c maxQueueLen maxQueueTime) actions)
      (SearchOk c fun _ => False) NoAbort :=
    ensures_exec (fun s a hs hguard => step_ok hs sensible a hguard)
      (initial_ok c maxQueueLen maxQueueTime) along
  refine hrun.weaken fun s hs e he hflag => ⟨hs.bounded e he hflag, hs.alive e he hflag not_false⟩

/-! The conditions can be checked along a run. -/

instance decidableInTime (s : RoutingProtocol) : ∀ a, Decidable (InTime c s a)
  | .fireTimer .. | .fireDeferred _ | .deferredRouteOutput .. | .rreqRateLimitTimerExpire
  | .rerrRateLimitTimerExpire | .recvAodv .. | .sendHello | .sendRerrWhenBreaksLinkToNextHop _
  | .wait _ => by unfold InTime; infer_instance

def oneInterface : Config := .standard [⟨1, ⟨0x0a000001, 0xffffff00⟩⟩]

def output (uid : UInt64) (destination : Ipv4Address) : Action :=
  .deferredRouteOutput ⟨uid, none⟩ ⟨0x0a000001, destination, 64⟩ 0 0

/-- A search that finds nothing ends after two full rings. -/
theorem discovery_bounded_search : Ensures
    (exec (step oneInterface) (.initial oneInterface 64 (milliseconds 30000))
      (output 1 0x0a000002 :: replicate 6 (.fireTimer 0x0a000002)))
    (DiscoveryBounded oneInterface) (fun f => f ≠ .rreqCount) := by
  have hsensible : Sensible oneInterface := ⟨by decide, by decide, by decide⟩
  have halong : Along (step oneInterface) (InTime oneInterface)
      (.initial oneInterface 64 (milliseconds 30000))
      (output 1 0x0a000002 :: replicate 6 (.fireTimer 0x0a000002)) := by
    decide +kernel
  have h := discovery_bounded hsensible 64 (milliseconds 30000) _ halong
  exact h

/-- Ten destinations use up the requests of the second. Seven packets for an eleventh put off seven
requests for it, which are all made. -/
def deferredRun : List Action :=
  .wait (milliseconds 900) ::
    (range 10).map (fun i => output (UInt64.ofNat i) (0x0a000010 + UInt32.ofNat i)) ++
    (range 7).map (fun i => output (UInt64.ofNat (10 + i)) 0x0a000002) ++
    .rreqRateLimitTimerExpire :: replicate 7 (.fireDeferred 0)

theorem deferred_unbounded : (oneInterface.m_ttlThreshold.toUInt32 < oneInterface.m_netDiameter ∧
      1 ≤ oneInterface.m_rreqRetries.toNat) ∧
    ¬Ensures (exec (step oneInterface) (.initial oneInterface 64 (milliseconds 30000)) deferredRun)
      (DiscoveryBounded oneInterface) (fun f => f ≠ .rreqCount) := by
  -- the destination is asked for a third time at the full TTL
  have hrun : Ensures (exec (step oneInterface) (.initial oneInterface 64 (milliseconds 30000))
    deferredRun)
      (fun s => ∃ e ∈ s.m_routingTable, e.m_flag = .inSearch ∧ e.m_reqCount = 3)
        (fun _ => False) := by
    decide +kernel
  obtain ⟨s, hs, e, he, hflag, hcount⟩ := hrun.exists_ok
  refine ⟨⟨by decide, by decide⟩, fun h => ?_⟩
  have hbound := (h.of_ok hs e he hflag).1
  rw [hcount] at hbound
  exact absurd hbound (by decide)

end Runs

end Egsr.Aodv
