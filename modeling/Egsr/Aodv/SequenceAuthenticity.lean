import Mathlib.Algebra.Group.Nat.Defs
import Egsr.Aodv.RoutingProtocol

/-! Sequence numbers in a network. Each node counts up its own number, and what
others know of it are numbers that it has had. -/

namespace Egsr.Aodv

open Lib.Run Lib.Outcome RoutingTable List Function RoutingProtocol

/-! ## Numbers at one node

`A` says which numbers are authentic for an address. -/

variable (A : Ipv4Address → UInt32 → Prop)

def Genuine : Message → Prop
  | .rreq h => (h.unknownSeqno = false → A h.dst h.dstSeqNo) ∧ A h.origin h.originSeqNo
  | .rrep h => A h.dst h.dstSeqNo
  | .rerr _ | .rrepAck => True

def AuthenticEntry (e : RoutingTableEntry) : Prop :=
  e.m_validSeqNo = true → A e.getDestination e.m_seqNo

/-- The number was incremented `k` times. -/
structure Authentic (k : ℕ) (s : RoutingProtocol) : Prop where
  increments : s.increments = k
  seqNo : s.m_seqNo = .ofNat k
  table : ∀ e ∈ s.m_routingTable, AuthenticEntry A e
  sent : ∀ m ∈ s.sent, Genuine A m.message

def Own (c : Config) (A : Ipv4Address → UInt32 → Prop) (v : UInt32) : Prop :=
  ∀ i ∈ c.interfaces, A i.address.m_local v

variable (s : RoutingProtocol)

def Known (a : Ipv4Address) : Prop :=
  ∀ e ∈ s.m_routingTable, e.getDestination = a → A a e.m_seqNo

section Tables

variable {A : Ipv4Address → UInt32 → Prop} {k : ℕ} {c : Config} {s t : RoutingProtocol}
    {rt : RoutingTableEntry}

theorem AuthenticEntry.aged {e e' : RoutingTableEntry} (h : AuthenticEntry A e) (aged : Aged e e') :
    AuthenticEntry A e' := by
  intro hvalid
  rw [aged.destination, aged.seqNo]
  exact h (aged.validSeqNo ▸ hvalid)

theorem AuthenticEntry.insertPrecursor (h : AuthenticEntry A rt) (id : Ipv4Address) :
    AuthenticEntry A (rt.insertPrecursor id) := by
  unfold RoutingTableEntry.insertPrecursor
  split_ifs
  · exact h
  · exact h

theorem AuthenticEntry.settle (h : AuthenticEntry A rt) : AuthenticEntry A rt.settle := by
  intro hvalid
  rw [validSeqNo_settle] at hvalid
  rw [destination_settle, seqNo_settle]
  exact h hvalid

theorem authenticEntry_unset (now : ℤ) : AuthenticEntry A (.unset now) := fun h => by cases h

section

variable (h : Authentic A k s)

include h

theorem Authentic.withTable {table : List RoutingTableEntry}
    (authentic : ∀ e ∈ table, AuthenticEntry A e) :
      Authentic A k { s with m_routingTable := table } :=
  ⟨h.increments, h.seqNo, authentic, h.sent⟩

theorem Authentic.purge : Authentic A k (s.purge c) := by
  refine h.withTable fun e' he' => ?_
  obtain ⟨e, he, hkept⟩ := mem_purge.mp he'
  exact (h.table e he).aged (purgeEntry_aged hkept)

theorem Authentic.addRoute (entry : AuthenticEntry A rt) : Authentic A k (s.addRoute c rt) := by
  refine h.purge.withTable fun e he => ?_
  rcases mem_insert he with rfl | he
  · exact entry.settle
  · exact (h.purge (c := c)).table e he

theorem Authentic.update (entry : AuthenticEntry A rt) : Authentic A k (s.update rt) := by
  refine h.withTable fun e he => ?_
  rcases mem_update.mp he with ⟨he, -⟩ | ⟨rfl, -⟩
  · exact h.table e he
  · exact entry.settle

theorem Authentic.invalidateRoutesWithDst (unreachable : List (Ipv4Address × UInt32)) :
    Authentic A k (s.invalidateRoutesWithDst c unreachable) := by
  refine h.purge.withTable fun e' he' => ?_
  obtain ⟨e, he, haged⟩ := mem_invalidateRoutesWithDst he'
  exact ((h.purge (c := c)).table e he).aged haged

theorem Authentic.found {id : Ipv4Address} (found : s.find id = some rt) :
    AuthenticEntry A rt := h.table rt (find_eq_some found).1

theorem Authentic.lookup (id : Ipv4Address) (copy : AuthenticEntry A rt) :
    AuthenticEntry A ((s.find id).getD rt) := by
  cases hfound : s.find id with
  | none => exact copy
  | some e => exact h.found hfound

theorem Authentic.send {message : Message} (genuine : Genuine A message)
    (socket : Ipv4InterfaceAddress) (destination : Ipv4Address) (ttl : UInt8) :
    Authentic A k (s.send socket destination ttl message) := by
  refine ⟨h.increments, h.seqNo, h.table, fun m hm => ?_⟩
  rcases mem_append.mp hm with hm | hm
  · exact h.sent m hm
  · rw [mem_singleton.mp hm]
    exact genuine

theorem Authentic.sendOver {message : Message} (genuine : Genuine A message)
    (iface : Ipv4InterfaceAddress) (destination : Ipv4Address) (ttl : UInt8) :
    Ensures (s.sendOver c iface destination ttl message) (Authentic A k) (fun _ => True) := by
  unfold RoutingProtocol.sendOver
  split
  · exact ensures_error.mpr trivial
  · exact ensures_ok.mpr (h.send genuine _ _ _)

theorem Authentic.rememberId (addr : Ipv4Address) (id : UInt32) :
    Authentic A k (s.rememberId c addr id) := by
  unfold RoutingProtocol.rememberId
  dsimp only
  split_ifs
  · exact ⟨h.increments, h.seqNo, h.table, h.sent⟩
  · exact ⟨h.increments, h.seqNo, h.table, h.sent⟩

end

end Tables

/-! ## Handlers -/

section Handlers

variable {A : Ipv4Address → UInt32 → Prop} {k : ℕ} {c : Config} {s t : RoutingProtocol}

theorem Authentic.sendRerrMessage (h : Authentic A k s) (rerrHeader : RerrHeader)
    (precursors : List Ipv4Address) :
    Ensures (s.sendRerrMessage c rerrHeader precursors) (Authentic A k) (fun _ => True) := by
  unfold RoutingProtocol.sendRerrMessage
  refine .ite (fun _ => ensures_ok.mpr h) fun _ => ?_
  have hpurged : Authentic A k (s.purge c) := h.purge
  dsimp only
  split
  · split
    · refine .ite (fun _ => ?_) fun _ => ensures_ok.mpr hpurged
      have hcounted : Authentic A k { s.purge c with m_rerrCount := (s.purge c).m_rerrCount + 1 } :=
        ⟨hpurged.increments, hpurged.seqNo, hpurged.table, hpurged.sent⟩
      exact hcounted.sendOver (show Genuine A (.rerr rerrHeader) from trivial) _ _ _
    · exact ensures_ok.mpr hpurged
  · exact ensures_foldlM hpurged fun t iface _ ht =>
      ht.sendOver (show Genuine A (.rerr rerrHeader) from trivial) _ _ _

theorem Authentic.sendRerrWhenBreaksLinkToNextHop (h : Authentic A k s) (nextHop : Ipv4Address) :
    Ensures (s.sendRerrWhenBreaksLinkToNextHop c nextHop) (Authentic A k) (fun _ => True) := by
  unfold RoutingProtocol.sendRerrWhenBreaksLinkToNextHop
  have hpurged : Authentic A k (s.purge c) := h.purge
  dsimp only
  split
  · exact ensures_ok.mpr hpurged
  · exact (hpurged.sendRerrMessage _ _).bind fun t ht =>
      ensures_ok.mpr (ht.invalidateRoutesWithDst _)

theorem Authentic.recvError (h : Authentic A k s) (rerrHeader : RerrHeader) (src : Ipv4Address) :
    Ensures (s.recvError c rerrHeader src) (Authentic A k) (fun _ => True) := by
  unfold RoutingProtocol.recvError
  have hpurged : Authentic A k (s.purge c) := h.purge
  dsimp only
  have hsent : ∀ unreachable : RerrHeader, Ensures
      (if unreachable.isEmpty then .ok (s.purge c) else
        (s.purge c).sendRerrMessage c unreachable ((s.purge c).precursorsOf unreachable []))
      (Authentic A k) (fun _ => True) := fun unreachable =>
    .ite (fun _ => hpurged) fun _ => hpurged.sendRerrMessage _ _
  exact (hsent _).bind fun t ht => ensures_ok.mpr (ht.invalidateRoutesWithDst _)

theorem Authentic.updateRouteToNeighbor (h : Authentic A k s) (sender receiver : Ipv4Address) :
    Authentic A k (s.updateRouteToNeighbor c sender receiver) := by
  unfold RoutingProtocol.updateRouteToNeighbor
  have hpurged : Authentic A k (s.purge c) := h.purge
  dsimp only
  split
  · exact hpurged.addRoute fun hvalid => by cases hvalid
  · split_ifs
    · exact hpurged
    · exact hpurged.update fun hvalid => by cases hvalid

variable {rreqHeader : RreqHeader}

theorem Authentic.updateReverseRoute (h : Authentic A k s) (zero : ∀ a, A a 0)
    (origin : A rreqHeader.origin rreqHeader.originSeqNo) (receiver src : Ipv4Address) :
    Authentic A k (s.updateReverseRoute c rreqHeader receiver src).1 ∧
      Known A (s.updateReverseRoute c rreqHeader receiver src).1 rreqHeader.origin ∧
      A (s.updateReverseRoute c rreqHeader receiver src).2.getDestination
        (s.updateReverseRoute c rreqHeader receiver src).2.m_seqNo := by
  unfold RoutingProtocol.updateReverseRoute
  have hpurged : Authentic A k (s.purge c) := h.purge
  dsimp only
  cases hfound : (s.purge c).find rreqHeader.origin with
  | none =>
    refine ⟨hpurged.addRoute fun _ => origin, fun e he hdst => ?_, zero _⟩
    rcases mem_insert he with rfl | he
    · rw [seqNo_settle]
      exact origin
    · obtain ⟨old, hold, hkept⟩ := mem_purge.mp he
      have haged := purgeEntry_aged hkept
      exact absurd (haged.destination ▸ hdst) (find_eq_none.mp hfound old hold)
  | some toOrigin =>
    have hdst : toOrigin.getDestination = rreqHeader.origin := (find_eq_some hfound).2
    have hseqNo : A toOrigin.getDestination
        (if toOrigin.m_validSeqNo = true ∧ ¬newer rreqHeader.originSeqNo toOrigin.m_seqNo =
          true then
          toOrigin.m_seqNo else rreqHeader.originSeqNo) := by
      split_ifs with hnewer
      · exact hpurged.found hfound hnewer.1
      · exact hdst ▸ origin
    refine ⟨hpurged.update fun _ => hseqNo, fun e he hsame => ?_, hseqNo⟩
    rcases mem_update.mp he with ⟨-, hne⟩ | ⟨rfl, -⟩
    · exact absurd (hsame.trans hdst.symm) hne
    · rw [seqNo_settle, ← hdst]
      exact hseqNo

theorem Authentic.updateRequestNeighbor (h : Authentic A k s)
    (origin : A rreqHeader.origin rreqHeader.originSeqNo) (known : Known A s rreqHeader.origin)
    (receiver src : Ipv4Address) :
    Authentic A k (s.updateRequestNeighbor c rreqHeader receiver src) ∧
      Known A (s.updateRequestNeighbor c rreqHeader receiver src) rreqHeader.origin := by
  unfold RoutingProtocol.updateRequestNeighbor
  have hpurged : Authentic A k (s.purge c) := h.purge
  have hknown : ∀ e' ∈ (s.purge c).m_routingTable, e'.getDestination = rreqHeader.origin →
      A rreqHeader.origin e'.m_seqNo := by
    intro e' he' hdst
    obtain ⟨e, he, hkept⟩ := mem_purge.mp he'
    have haged := purgeEntry_aged hkept
    rw [haged.seqNo]
    exact known e he (haged.destination ▸ hdst)
  dsimp only
  split
  · refine ⟨hpurged.addRoute (fun hvalid => by cases hvalid), fun e he hdst => ?_⟩
    rcases mem_insert he with rfl | he
    · rw [seqNo_settle]
      exact origin
    · obtain ⟨old, hold, hkept⟩ := mem_purge.mp he
      have haged := purgeEntry_aged hkept
      rw [haged.seqNo]
      exact hknown old hold (haged.destination ▸ hdst)
  · refine ⟨hpurged.update (fun hvalid => by cases hvalid), fun e he hdst => ?_⟩
    rcases mem_update.mp he with ⟨he, -⟩ | ⟨rfl, -⟩
    · exact hknown e he hdst
    · rw [seqNo_settle]
      exact origin

def Ahead (c : Config) (k : ℕ) (rreqHeader : RreqHeader) : Prop :=
  rreqHeader.unknownSeqno = false ∧ c.isMyOwnAddress rreqHeader.dst = true ∧
    rreqHeader.dstSeqNo = .ofNat (k + 1)

theorem Authentic.sendReply (h : Authentic A k s) (own : A rreqHeader.dst (.ofNat k))
    (isOwn : c.isMyOwnAddress rreqHeader.dst = true)
    (requested : rreqHeader.unknownSeqno = false → A rreqHeader.dst rreqHeader.dstSeqNo)
    (toOrigin : RoutingTableEntry) :
    Ensures (s.sendReply c rreqHeader toOrigin)
      (fun t => Authentic A k t ∨ Authentic A (k + 1) t ∧ Ahead c k rreqHeader)
      (fun _ => True) := by
  unfold RoutingProtocol.sendReply
  have hnext : s.m_seqNo + 1 = .ofNat (k + 1) := by
    rw [h.seqNo, UInt32.ofNat_add]
    rfl
  by_cases hahead : (!rreqHeader.unknownSeqno && rreqHeader.dstSeqNo = s.m_seqNo + 1) = true
  · rw [if_pos hahead]
    rw [Bool.and_eq_true, Bool.not_eq_true', decide_eq_true_eq] at hahead
    obtain ⟨hunknown, hdst⟩ := hahead
    have hincremented :
      Authentic A (k + 1) { s with m_seqNo := s.m_seqNo + 1, increments := s.increments + 1 } :=
      ⟨by rw [h.increments], hnext, h.table, h.sent⟩
    have hgenuine :
      Genuine A (.rrep (.create 0 rreqHeader.dst (s.m_seqNo + 1) toOrigin.getDestination
        c.m_myRouteTimeout)) := hdst ▸ requested hunknown
    exact (hincremented.sendOver hgenuine _ _ _).weaken fun t ht =>
      .inr ⟨ht, hunknown, isOwn, hdst.trans hnext⟩
  · rw [if_neg hahead]
    have hgenuine : Genuine A (.rrep (.create 0 rreqHeader.dst s.m_seqNo toOrigin.getDestination
        c.m_myRouteTimeout)) := h.seqNo.symm ▸ own
    exact (h.sendOver hgenuine _ _ _).weaken fun t ht => .inl ht

theorem seqNo_insertPrecursor (rt : RoutingTableEntry) (id : Ipv4Address) :
    (rt.insertPrecursor id).getDestination = rt.getDestination ∧
    (rt.insertPrecursor id).m_seqNo = rt.m_seqNo := by
  unfold RoutingTableEntry.insertPrecursor
  split_ifs <;> exact ⟨rfl, rfl⟩

variable {toOrigin : RoutingTableEntry}

section

variable (h : Authentic A k s)

include h

theorem Authentic.sendReplyByIntermediateNode {toDst : RoutingTableEntry}
    (dst : A toDst.getDestination toDst.m_seqNo)
    (origin : A toOrigin.getDestination toOrigin.m_seqNo) (gratRep : Bool) :
    Ensures (s.sendReplyByIntermediateNode c toDst toOrigin gratRep) (Authentic A k)
    (fun _ => True) := by
  unfold RoutingProtocol.sendReplyByIntermediateNode
  have hstart : Authentic A k (if toDst.m_hops = 1 then s.purge c else s) := by
    split_ifs
    · exact h.purge
    · exact h
  have hdst : AuthenticEntry A toDst := fun _ => dst
  have horigin : AuthenticEntry A toOrigin := fun _ => origin
  have hupdated := (hstart.update (hdst.insertPrecursor toOrigin.getNextHop)).update
    (horigin.insertPrecursor (toDst.insertPrecursor toOrigin.getNextHop).getNextHop)
  have hreply : ∀ header : RrepHeader, header.dst = toDst.getDestination →
    header.dstSeqNo = toDst.m_seqNo →
      Genuine A (.rrep header) := by
    intro header hheader hseqNo
    rw [Genuine, hheader, hseqNo]
    exact dst
  refine (hupdated.sendOver (hreply _ rfl rfl) _ _ _).bind fun t ht => ?_
  refine .ite (fun _ => ht.sendOver ?_ _ _ _) fun _ => ensures_ok.mpr ht
  obtain ⟨hsame, hseqNo⟩ :=
    seqNo_insertPrecursor toOrigin (toDst.insertPrecursor toOrigin.getNextHop).getNextHop
  change A (toOrigin.insertPrecursor _).getDestination (toOrigin.insertPrecursor _).m_seqNo
  rw [hsame, hseqNo]
  exact origin

theorem Authentic.forwardRequest (genuine : Genuine A (.rreq rreqHeader)) (ttl : UInt8) :
    Authentic A k (s.forwardRequest c rreqHeader ttl) := by
  unfold RoutingProtocol.forwardRequest
  split_ifs
  · exact h
  · exact foldlRecOn (motive := Authentic A k) c.interfaces _ h fun t ht i _ =>
      ht.send genuine _ _ _

theorem Authentic.relayRequest
    (genuine : Genuine A (.rreq rreqHeader)) (known : Known A s rreqHeader.origin) (ttl : UInt8)
    (src : Ipv4Address) (copy : A toOrigin.getDestination toOrigin.m_seqNo) :
    Ensures (s.relayRequest c rreqHeader ttl src toOrigin) (Authentic A k) (fun _ => True) := by
  unfold RoutingProtocol.relayRequest
  have hpurged : Authentic A k (s.purge c) := h.purge
  dsimp only
  cases hfound : (s.purge c).find rreqHeader.dst with
  | none => exact ensures_ok.mpr (hpurged.forwardRequest genuine ttl)
  | some toDst =>
    dsimp only
    split_ifs with hnext hfresh hreply
    · exact ensures_ok.mpr hpurged
    all_goals try rw [Bool.and_eq_true] at hfresh
    · have hdst : A toDst.getDestination toDst.m_seqNo := hpurged.found hfound hfresh.2
      refine hpurged.purge.sendReplyByIntermediateNode hdst ?_ _
      cases horigin : ((s.purge c).purge c).find rreqHeader.origin with
      | none => exact copy
      | some e'' =>
        -- two purges do not change the number
        obtain ⟨hmem, hsame⟩ := find_eq_some horigin
        obtain ⟨e', he', hkept'⟩ := mem_purge.mp hmem
        obtain ⟨e, he, hkept⟩ := mem_purge.mp he'
        have haged' := purgeEntry_aged hkept'
        have haged := purgeEntry_aged hkept
        rw [Option.getD_some, haged'.seqNo, haged.seqNo, hsame]
        exact known e he (haged.destination.symm.trans (haged'.destination.symm.trans hsame))
    · have hdst : A toDst.getDestination toDst.m_seqNo := hpurged.found hfound hfresh.2
      have hupdated :
        Genuine A (.rreq { rreqHeader with dstSeqNo := toDst.m_seqNo, unknownSeqno := false }) :=
        ⟨fun _ => (find_eq_some hfound).2 ▸ hdst, genuine.2⟩
      exact ensures_ok.mpr (hpurged.forwardRequest hupdated ttl)
    · exact ensures_ok.mpr (hpurged.forwardRequest genuine ttl)

theorem Authentic.recvRequest (zero : ∀ a, A a 0) (own : Own c A (.ofNat k))
    (genuine : Genuine A (.rreq rreqHeader)) (ttl : UInt8) (receiver src : Ipv4Address) :
    Ensures (s.recvRequest c rreqHeader ttl receiver src)
      (fun t => Authentic A k t ∨ Authentic A (k + 1) t ∧ Ahead c k rreqHeader)
      (fun _ => True) := by
  unfold RoutingProtocol.recvRequest
  have hremembered :
    Authentic A k ((s.purge c).rememberId c rreqHeader.origin rreqHeader.requestID) :=
    h.purge.rememberId _ _
  let onward : RreqHeader := { rreqHeader with hopCount := rreqHeader.hopCount + 1 }
  have honward : Genuine A (.rreq onward) := genuine
  obtain ⟨hreverse, hknown, hcopy⟩ :=
    hremembered.updateReverseRoute (c := c) zero honward.2 receiver src
  obtain ⟨hneighbor, hknown⟩ :=
    hreverse.updateRequestNeighbor (c := c) honward.2 hknown receiver src
  dsimp only
  refine .ite (fun _ => ensures_ok.mpr (.inl h.purge)) fun _ =>
    .ite (fun _ => ensures_ok.mpr (.inl hremembered))
    fun _ => .ite (fun hmine => ?_) fun _ => ?_
  · have hown : A rreqHeader.dst (.ofNat k) := by
      obtain ⟨i, hi, hlocal⟩ := any_eq_true.mp hmine
      rw [← of_decide_eq_true hlocal]
      exact own i hi
    exact hneighbor.purge.sendReply hown hmine honward.1 _
  · exact (hneighbor.relayRequest honward hknown ttl src hcopy).weaken fun t ht => .inl ht

theorem Authentic.processHello {rrepHeader : RrepHeader} (genuine : Genuine A (.rrep rrepHeader))
    (receiver : Ipv4Address) : Authentic A k (s.processHello c rrepHeader receiver) := by
  unfold RoutingProtocol.processHello
  have hpurged : Authentic A k (s.purge c) := h.purge
  dsimp only
  split
  · exact hpurged.addRoute fun _ => genuine
  · rename_i toNeighbor hfound
    refine hpurged.update fun _ => ?_
    exact (find_eq_some hfound).2.symm ▸ genuine

theorem Authentic.updateForwardRoute {newEntry : RoutingTableEntry}
    (entry : AuthenticEntry A newEntry) (rrepHeader : RrepHeader) :
    Authentic A k (s.updateForwardRoute c rrepHeader newEntry) := by
  unfold RoutingProtocol.updateForwardRoute
  split
  · exact h.addRoute entry
  · split_ifs
    · exact h.update entry
    · exact h

theorem Authentic.sendReplyAck (neighbor : Ipv4Address) :
    Ensures (s.sendReplyAck c neighbor) (Authentic A k) (fun _ => True) := by
  unfold RoutingProtocol.sendReplyAck
  exact h.purge.sendOver (show Genuine A .rrepAck from trivial) _ _ _

theorem Authentic.replyArrived {newEntry : RoutingTableEntry}
    (entry : AuthenticEntry A newEntry) (dst : Ipv4Address) (searching : Bool)
    (toDst : RoutingTableEntry) :
    Authentic A k (s.replyArrived c dst searching newEntry toDst) := by
  unfold RoutingProtocol.replyArrived
  have hupdated := h.update entry
  have hstart : Authentic A k (if searching then (s.update newEntry).eraseTimer dst else s) := by
    split_ifs
    · exact ⟨hupdated.increments, hupdated.seqNo, hupdated.table, hupdated.sent⟩
    · exact h
  have hpurged := hstart.purge (c := c)
  exact ⟨hpurged.increments, hpurged.seqNo, hpurged.table, hpurged.sent⟩

theorem Authentic.insertPrecursorAt (nextHop precursor : Ipv4Address) :
    Authentic A k (s.insertPrecursorAt c nextHop precursor) := by
  unfold RoutingProtocol.insertPrecursorAt
  exact h.purge.update ((h.purge.lookup nextHop (authenticEntry_unset _)).insertPrecursor precursor)

theorem Authentic.updatePrecursors
    (entry : AuthenticEntry A toOrigin) (dst : Ipv4Address) :
      Authentic A k (s.updatePrecursors c dst toOrigin) := by
  unfold RoutingProtocol.updatePrecursors
  have hpurged : Authentic A k (s.purge c) := h.purge
  dsimp only
  split
  · exact hpurged
  · rename_i toDst hfound
    split_ifs
    · have hdst := hpurged.update ((hpurged.found hfound).insertPrecursor toOrigin.getNextHop)
      have hnext := hdst.insertPrecursorAt (c := c) toDst.getNextHop toOrigin.getNextHop
      exact (hnext.update (entry.insertPrecursor toDst.getNextHop)).insertPrecursorAt _ _
    · exact hpurged

theorem Authentic.relayReply {rrepHeader : RrepHeader} (genuine : Genuine A (.rrep rrepHeader))
    (ttl : UInt8) : Ensures (s.relayReply c rrepHeader ttl) (Authentic A k) (fun _ => True) := by
  unfold RoutingProtocol.relayReply
  have hpurged : Authentic A k (s.purge c) := h.purge
  dsimp only
  split
  · exact ensures_ok.mpr hpurged
  · rename_i toOrigin hfound
    have hfoundEntry : AuthenticEntry A toOrigin := hpurged.found hfound
    have hentry : AuthenticEntry A (toOrigin.setLifeTime (s.purge c).now (max c.m_activeRouteTimeout
        (toOrigin.getLifeTime (s.purge c).now))) := hfoundEntry
    have hprecursors := (hpurged.update hentry).updatePrecursors (c := c) hentry rrepHeader.dst
    refine .ite (fun _ => ensures_ok.mpr hpurged) fun _ =>
      .ite (fun _ => ensures_ok.mpr hprecursors) fun _ => ?_
    exact hprecursors.sendOver genuine _ _ _

theorem Authentic.recvReply {rrepHeader : RrepHeader} (genuine : Genuine A (.rrep rrepHeader))
    (ttl : UInt8) (receiver sender : Ipv4Address) :
    Ensures (s.recvReply c rrepHeader ttl receiver sender) (Authentic A k) (fun _ => True) := by
  unfold RoutingProtocol.recvReply
  let onward : RrepHeader := { rrepHeader with hopCount := rrepHeader.hopCount + 1 }
  have honward : Genuine A (.rrep onward) := genuine
  dsimp only
  refine .ite (fun _ => ensures_ok.mpr (h.processHello honward receiver)) fun _ => ?_
  have hentry :
    AuthenticEntry A (.create s.now (c.device receiver) rrepHeader.dst true rrepHeader.dstSeqNo
      (c.ifaceAddress receiver) onward.hopCount.toUInt16 sender onward.getLifeTime) :=
        fun _ => genuine
  have hpurged : Authentic A k (s.purge c) := h.purge
  have hforward := hpurged.updateForwardRoute (c := c) hentry onward
  have hacknowledged : ∀ (t : RoutingProtocol) (required : Bool), Authentic A k t →
      Ensures (if required then t.sendReplyAck c sender
        else .ok t) (Authentic A k) (fun _ => True) :=
    fun t required ht => .ite (fun _ => ht.sendReplyAck sender) fun _ => ensures_ok.mpr ht
  refine (hacknowledged _ _ hforward).bind fun t ht => ?_
  refine .ite (fun _ => ensures_ok.mpr (ht.replyArrived hentry _ _ _)) fun _ => ?_
  have hrelayed : Genuine A (.rrep { onward with ackRequired := false }) := genuine
  exact ht.relayReply hrelayed _

theorem Authentic.recvReplyAck (neighbor : Ipv4Address) :
    Authentic A k (s.recvReplyAck c neighbor) := by
  unfold RoutingProtocol.recvReplyAck
  have hpurged : Authentic A k (s.purge c) := h.purge
  dsimp only
  split
  · exact hpurged
  · rename_i rt hfound
    have hfoundEntry : AuthenticEntry A rt := hpurged.found hfound
    have hentry : AuthenticEntry A { rt with m_flag := .valid } := hfoundEntry
    exact hpurged.update hentry

end

def AheadMessage (c : Config) (k : ℕ) (message : Message) : Prop :=
  ∃ rreqHeader, message = .rreq rreqHeader ∧ Ahead c k rreqHeader

theorem Authentic.recvAodv (h : Authentic A k s) (zero : ∀ a, A a 0) (own : Own c A (.ofNat k))
    {message : Message} (genuine : Genuine A message) (ttl : UInt8)
    (receiver sender : Ipv4Address) : Ensures (s.recvAodv c message ttl receiver sender)
      (fun t => Authentic A k t ∨ Authentic A (k + 1) t ∧ AheadMessage c k message)
      (fun _ => True) := by
  unfold RoutingProtocol.recvAodv
  have hneighbor : Authentic A k (s.updateRouteToNeighbor c sender receiver) :=
    h.updateRouteToNeighbor _ _
  cases message with
  | rreq rreqHeader =>
    refine (hneighbor.recvRequest zero own genuine ttl receiver sender).weaken fun t ht => ?_
    exact ht.imp_right fun ⟨hauthentic, hahead⟩ => ⟨hauthentic, rreqHeader, rfl, hahead⟩
  | rrep rrepHeader =>
    exact (hneighbor.recvReply genuine ttl receiver sender).weaken fun t ht => .inl ht
  | rerr rerrHeader => exact (hneighbor.recvError rerrHeader sender).weaken fun t ht => .inl ht
  | rrepAck => exact ensures_ok.mpr (.inl (hneighbor.recvReplyAck sender))

theorem Authentic.sendHello (h : Authentic A k s) (own : Own c A (.ofNat k)) :
    Authentic A k (s.sendHello c) := by
  unfold RoutingProtocol.sendHello
  refine foldlRecOn (motive := Authentic A k) c.interfaces _ h fun t ht i hi => ?_
  have hgenuine : Genuine A (.rrep (.create 0 i.address.m_local t.m_seqNo i.address.m_local
      (c.m_allowedHelloLoss.toNat * c.m_helloInterval))) := ht.seqNo.symm ▸ own i hi
  exact ht.send hgenuine _ _ _

end Handlers

/-! ## Requests -/

def Grown (c : Config) (A : Ipv4Address → UInt32 → Prop) (k : ℕ) (t : RoutingProtocol) : Prop :=
  Authentic A k t ∨ t.increments = k + 1 ∧ (Own c A (.ofNat (k + 1)) → Authentic A (k + 1) t)

section Requests

variable {A B : Ipv4Address → UInt32 → Prop} {k : ℕ} {c : Config} {s t : RoutingProtocol}

theorem Genuine.mono (imp : ∀ a v, A a v → B a v) {message : Message} (h : Genuine A message) :
    Genuine B message := by
  cases message with
  | rreq rreqHeader => exact ⟨fun hknown => imp _ _ (h.1 hknown), imp _ _ h.2⟩
  | rrep rrepHeader => exact imp _ _ h
  | rerr rerrHeader => trivial
  | rrepAck => trivial

section

variable (h : Authentic A k s)

include h

theorem Authentic.mono (imp : ∀ a v, A a v → B a v) : Authentic B k s :=
  ⟨h.increments, h.seqNo, fun e he hvalid => imp _ _ (h.table e he hvalid), fun m hm =>
    (h.sent m hm).mono imp⟩

variable (dst : Ipv4Address)

theorem Authentic.beginSearch :
    Authentic A k (s.beginSearch c dst).1 ∧ ∀ v ∈ (s.beginSearch c dst).2.2, A dst v := by
  unfold RoutingProtocol.beginSearch
  have hpurged : Authentic A k (s.purge c) := h.purge
  -- counting a ring leaves the number alone
  have hcount : ∀ (ttl : UInt16) (rt : RoutingTableEntry), AuthenticEntry A rt →
      AuthenticEntry A (countRing c ttl rt) := by
    intro ttl rt hentry
    unfold countRing
    split_ifs
    · exact hentry
    · exact hentry
  dsimp only
  cases hfound : (s.purge c).find dst with
  | some rt =>
    have hentry : AuthenticEntry A rt := hpurged.found hfound
    have hcounted := hcount (ringTtl c rt) rt hentry
    have hsearched : AuthenticEntry A (({ countRing c (ringTtl c rt) rt with
        m_hops := ringTtl c rt, m_flag := .inSearch } : RoutingTableEntry).setLifeTime
          (s.purge c).now c.m_pathDiscoveryTime) := hcounted
    refine ⟨hpurged.update hsearched, fun v hv => ?_⟩
    dsimp only at hv
    split_ifs at hv with hvalid
    · obtain rfl : rt.m_seqNo = v := Option.some.inj hv
      exact (find_eq_some hfound).2 ▸ hentry hvalid
    · cases hv
  | none =>
    have hcounted :=
      hcount c.m_ttlStart (.create (s.purge c).now none dst false 0 .unset c.m_ttlStart unsetAddress
      c.m_pathDiscoveryTime) fun hvalid => by cases hvalid
    have hsearched : AuthenticEntry A { countRing c c.m_ttlStart (.create (s.purge c).now none dst
        false 0 .unset c.m_ttlStart unsetAddress c.m_pathDiscoveryTime) with m_flag :=
          .inSearch } := hcounted
    exact ⟨hpurged.addRoute hsearched, fun v hv => by cases hv⟩

theorem Authentic.scheduleRreqRetry :
    Ensures (s.scheduleRreqRetry c dst) (Authentic A k) (fun _ => True) := by
  unfold RoutingProtocol.scheduleRreqRetry
  have hremoved : Authentic A k (s.removeTimer dst) := ⟨h.increments, h.seqNo, h.table, h.sent⟩
  have hpurged : Authentic A k ((s.removeTimer dst).purge c) := hremoved.purge
  have hscheduled : ∀ delay,
      Authentic A k (((s.removeTimer dst).purge c).scheduleTimer dst delay) := fun _ =>
    ⟨hpurged.increments, hpurged.seqNo, hpurged.table, hpurged.sent⟩
  dsimp only
  exact .ite (fun _ => hscheduled _) fun _ => .ite (fun _ => trivial) fun _ => hscheduled _

theorem Authentic.broadcastRequests {rreqHeader : RreqHeader}
    (requested : rreqHeader.unknownSeqno = false → A rreqHeader.dst rreqHeader.dstSeqNo)
    (own : Own c A rreqHeader.originSeqNo) (ttl : UInt16) :
    Authentic A k (c.interfaces.foldl (broadcastRequest c rreqHeader ttl) s) := by
  refine foldlRecOn (motive := Authentic A k) c.interfaces _ h fun t ht i hi => ?_
  have hgenuine : Genuine A (.rreq { rreqHeader with origin := i.address.m_local }) :=
    ⟨requested, own i hi⟩
  exact (ht.rememberId _ _).send hgenuine _ _ _

theorem Authentic.sendRequestNow (own : Own c A (.ofNat (k + 1)))
    (unlimited : s.m_rreqCount ≠ c.m_rreqRateLimit) (dst : Ipv4Address) :
    Ensures (s.sendRequest c dst) (Authentic A (k + 1)) (fun _ => True) := by
  unfold RoutingProtocol.sendRequest
  rw [if_neg unlimited]
  have hcounted : Authentic A k { s with m_rreqCount := s.m_rreqCount + 1 } :=
    ⟨h.increments, h.seqNo, h.table, h.sent⟩
  obtain ⟨hbegun, hknown⟩ := hcounted.beginSearch (c := c) dst
  cases hbegin : { s with m_rreqCount := s.m_rreqCount + 1 }.beginSearch c dst with
  | mk begun rest =>
    obtain ⟨ttl, known⟩ := rest
    rw [hbegin] at hbegun hknown
    have hseqNo : begun.m_seqNo + 1 = .ofNat (k + 1) := by
      rw [hbegun.seqNo, UInt32.ofNat_add]
      rfl
    have hincremented : Authentic A (k + 1) { begun with
        m_seqNo := begun.m_seqNo + 1
        increments := begun.increments + 1
        m_requestId := begun.m_requestId + 1 } :=
      ⟨congrArg (· + 1) hbegun.increments, hseqNo, hbegun.table, hbegun.sent⟩
    have hrequested : known.isNone = false → A dst (known.getD 0) := by
      intro hsome
      cases known with
      | none => cases hsome
      | some v => exact hknown v rfl
    have hown : Own c A (begun.m_seqNo + 1) := by
      rw [hseqNo]
      exact own
    exact (hincremented.broadcastRequests hrequested hown ttl).scheduleRreqRetry dst

theorem Authentic.sendRequest : Ensures (s.sendRequest c dst) (Grown c A k) (fun _ => True) := by
  by_cases hlimit : s.m_rreqCount = c.m_rreqRateLimit
  · unfold RoutingProtocol.sendRequest
    rw [if_pos hlimit]
    exact ensures_ok.mpr (.inl ⟨h.increments, h.seqNo, h.table, h.sent⟩)
  by_cases hown : Own c A (.ofNat (k + 1))
  · exact (h.sendRequestNow hown hlimit dst).weaken fun t ht => .inr ⟨ht.increments, fun _ => ht⟩
  · have hany : Authentic (fun _ _ => True) k s := h.mono fun _ _ _ => trivial
    refine (hany.sendRequestNow (fun _ _ => trivial) hlimit dst).weaken fun t ht => ?_
    exact .inr ⟨ht.increments, fun h => absurd h hown⟩

theorem Authentic.deferredRouteOutput (p : Packet) (header : Ipv4Header) (ucb ecb : ℕ) :
    Ensures (s.deferredRouteOutput c p header ucb ecb) (Grown c A k) (fun _ => True) := by
  unfold RoutingProtocol.deferredRouteOutput
  dsimp only
  have hstored : ∀ queue, Authentic A k { s with m_queue := queue } := fun _ =>
    ⟨h.increments, h.seqNo, h.table, h.sent⟩
  split
  · exact ensures_ok.mpr (.inl (hstored _))
  · exact .ite (fun _ => ensures_ok.mpr (.inl (hstored _).purge)) fun _ =>
      (hstored _).purge.sendRequest _

theorem Authentic.stopSearch : Authentic A k (s.stopSearch c dst) := by
  unfold RoutingProtocol.stopSearch
  have herased : Authentic A k (s.eraseTimer dst) := ⟨h.increments, h.seqNo, h.table, h.sent⟩
  have hpurged : Authentic A k ((s.eraseTimer dst).purge c) := herased.purge
  exact ⟨hpurged.increments, hpurged.seqNo, fun e he => hpurged.table e (mem_deleteRoute.mp he).1,
    hpurged.sent⟩

theorem Authentic.routeRequestTimerExpire :
    Ensures (s.routeRequestTimerExpire c dst) (Grown c A k) (fun _ => True) := by
  unfold RoutingProtocol.routeRequestTimerExpire
  have hpurged : Authentic A k (s.purge c) := h.purge
  have hstopped : Grown c A k ((s.purge c).stopSearch c dst) := .inl (hpurged.stopSearch dst)
  dsimp only
  refine .ite (fun _ => ensures_ok.mpr (.inl ?_)) fun _ =>
    .ite (fun _ => ensures_ok.mpr hstopped) fun _ =>
    .ite (fun _ => hpurged.sendRequest dst) fun _ => ensures_ok.mpr hstopped
  exact ⟨hpurged.increments, hpurged.seqNo, hpurged.table, hpurged.sent⟩

theorem step_grown (zero : ∀ a, A a 0) (own : Own c A (.ofNat k)) (a : Action)
    (genuine : ∀ message ttl receiver sender, a = .recvAodv message ttl receiver sender →
      Genuine A message) :
    Ensures (step c s a) (fun t => Grown c A k t ∨
        ∃ message ttl receiver sender, a = .recvAodv message ttl receiver sender ∧
          AheadMessage c k message ∧ Authentic A (k + 1) t) (fun _ => True) := by
  cases a with
  | deferredRouteOutput p header ucb ecb =>
    exact (h.deferredRouteOutput p header ucb ecb).weaken fun t ht => .inl ht
  | fireTimer dst =>
    rw [step, fireTimer]
    split
    · have hfired : ∀ now timers,
          Authentic A k { s with now := now, m_addressReqTimer := timers } := fun _ _ =>
        ⟨h.increments, h.seqNo, h.table, h.sent⟩
      exact ((hfired _ _).routeRequestTimerExpire dst).weaken fun t ht => .inl ht
    · trivial
  | fireDeferred i =>
    rw [step, fireDeferred]
    split
    · trivial
    · have hfired : ∀ now deferred, Authentic A k { s with now := now, deferred := deferred } :=
        fun _ _ =>
        ⟨h.increments, h.seqNo, h.table, h.sent⟩
      exact ((hfired _ _).sendRequest _).weaken fun t ht => .inl ht
  | rreqRateLimitTimerExpire => exact .inl (.inl ⟨h.increments, h.seqNo, h.table, h.sent⟩)
  | rerrRateLimitTimerExpire => exact .inl (.inl ⟨h.increments, h.seqNo, h.table, h.sent⟩)
  | recvAodv message ttl receiver sender =>
    refine (h.recvAodv zero own (genuine _ _ _ _ rfl) ttl receiver sender).weaken fun t ht => ?_
    rcases ht with ht | ⟨ht, hahead⟩
    · exact .inl (.inl ht)
    · exact .inr ⟨message, ttl, receiver, sender, rfl, hahead, ht⟩
  | sendHello => exact .inl (.inl (h.sendHello own))
  | sendRerrWhenBreaksLinkToNextHop nextHop =>
    exact (h.sendRerrWhenBreaksLinkToNextHop nextHop).weaken fun t ht => .inl (.inl ht)
  | wait now => exact .inl (.inl ⟨h.increments, h.seqNo, h.table, h.sent⟩)

end

end Requests

/-! ## Networks -/

abbrev Network (X : Type) := X → RoutingProtocol

def HasHad (v : UInt32) : Prop := ∃ k ≤ s.increments, v = .ofNat k

def Recent (v : UInt32) : Prop :=
  ∃ k ≤ s.increments, v = .ofNat k ∧ s.increments < k + 2 ^ 31

theorem toInt_ofNat {n : ℕ} (small : n < 2 ^ 31) : (UInt32.ofNat n).toInt32.toInt = n := by
  change (BitVec.ofNat 32 n).toInt = n
  have htoNat : (BitVec.ofNat 32 n).toNat = n := by
    rw [BitVec.toNat_ofNat]
    omega
  rw [BitVec.toInt_eq_toNat_of_lt (by omega), htoNat]

section Networks

variable {X : Type} (config : X → Config)

def networkStep [DecidableEq X] (N : Network X) (a : X × Action) : Except Fault (Network X) :=
  (step (config a.1) (N a.1) a.2).map fun s => update N a.1 s

/-- What is received has been sent by some node. It may come late, more than once or never, from
whatever address and to whatever interface. -/
def Produced (N : Network X) : X × Action → Prop
  | (_, .recvAodv message _ _ _) => ∃ y, ∃ m ∈ (N y).sent, m.message = message
  | _ => True

def Network.initial (maxQueueLen : X → UInt32) (maxQueueTime : X → ℤ) : Network X := fun x =>
  .initial (config x) (maxQueueLen x) (maxQueueTime x)

/-- What the nodes of a network know about each other's numbers. -/
structure SeqNoAuthentic (N : Network X) : Prop where
  counter : ∀ x, (N x).m_seqNo = .ofNat (N x).increments
  stored : ∀ x y, ∀ e ∈ (N y).m_routingTable, e.m_validSeqNo = true →
    (config x).isMyOwnAddress e.getDestination = true → HasHad (N x) e.m_seqNo
  requested : ∀ x y, ∀ m ∈ (N y).sent, ∀ h, m.message = .rreq h → h.unknownSeqno = false →
    (config x).isMyOwnAddress h.dst = true → HasHad (N x) h.dstSeqNo
  originated : ∀ x y, ∀ m ∈ (N y).sent, ∀ h, m.message = .rreq h →
    (config x).isMyOwnAddress h.origin = true → HasHad (N x) h.originSeqNo
  replied : ∀ x y, ∀ m ∈ (N y).sent, ∀ h, m.message = .rrep h →
    (config x).isMyOwnAddress h.dst = true → HasHad (N x) h.dstSeqNo
  /-- By the order of numbers that wrap around. -/
  notNewer : ∀ x v, Recent (N x) v → ((N x).m_seqNo - v).toNat < 2 ^ 31
  /-- By the comparison of the code. -/
  notNewerSigned : ∀ x v, HasHad (N x) v → (N x).increments < 2 ^ 31 →
    newer v (N x).m_seqNo = false
  /-- `SendReply` leaves the number alone. -/
  reply : ∀ x h ttl receiver sender, (∃ y, ∃ m ∈ (N y).sent, m.message = .rreq h) →
    (h.unknownSeqno = false → Recent (N x) h.dstSeqNo) →
      Ensures (step (config x) (N x) (.recvAodv (.rreq h) ttl receiver sender))
        (fun t => t.m_seqNo = (N x).m_seqNo) (fun _ => True)

variable {config}

def HadByOwner (config : X → Config) (N : Network X) (a : Ipv4Address) (v : UInt32) : Prop :=
  ∀ x, (config x).isMyOwnAddress a = true → HasHad (N x) v

variable {N : Network X}

theorem hasHad_zero : HasHad s 0 := ⟨0, Nat.zero_le _, rfl⟩

theorem HasHad.mono {s t : RoutingProtocol} (le : s.increments ≤ t.increments) {v : UInt32}
    (h : HasHad s v) : HasHad t v := by
  obtain ⟨k, hk, hv⟩ := h
  exact ⟨k, hk.trans le, hv⟩

def Apart (config : X → Config) : Prop :=
  ∀ x y a, (config x).isMyOwnAddress a = true → (config y).isMyOwnAddress a = true → x = y

theorem own_hadByOwner (apart : Apart config) {x : X} {k : ℕ} (le : k ≤ (N x).increments) :
    Own (config x) (HadByOwner config N) (.ofNat k) := by
  intro i hi y hy
  have hx : (config x).isMyOwnAddress i.address.m_local = true :=
    any_eq_true.mpr ⟨i, hi, decide_eq_true rfl⟩
  obtain rfl := apart x y _ hx hy
  exact ⟨k, le, rfl⟩

def Trusted (config : X → Config) (N : Network X) : Prop :=
  ∀ y, Authentic (HadByOwner config N) (N y).increments (N y)

theorem trusted_step [DecidableEq X] (apart : Apart config) (h : Trusted config N) (a : X × Action)
    (produced : Produced N a) :
    Ensures (networkStep config N a) (Trusted config) (fun _ => True) := by
  obtain ⟨x, a⟩ := a
  refine ensures_map.mpr (ensures_iff.mpr ⟨fun t hrun => ?_, fun _ _ => trivial⟩)
  have hgenuine : ∀ message ttl receiver sender, a = .recvAodv message ttl receiver sender →
      Genuine (HadByOwner config N) message := by
    rintro message ttl receiver sender rfl
    obtain ⟨y, m, hm, rfl⟩ := produced
    exact (h y).sent m hm
  have hgrown :=
    (step_grown (h x) (fun _ y _ => hasHad_zero (N y)) (own_hadByOwner apart le_rfl) a
      hgenuine).of_ok hrun
  -- the count does not go back, so that numbers stay authentic
  have hle : (N x).increments ≤ t.increments := by
    rcases hgrown with (ht | ⟨ht, -⟩) | ⟨_, _, _, _, -, -, ht⟩
    · exact ht.increments.ge
    · omega
    · have := ht.increments
      omega
  have hmono : ∀ b v, HadByOwner config N b v → HadByOwner config (update N x t) b v := by
    intro b v hb y hy
    by_cases hyx : y = x
    · subst hyx
      rw [update_self]
      exact (hb y hy).mono hle
    · rw [update_of_ne hyx]
      exact hb y hy
  have hself : (update N x t x).increments = t.increments := by rw [update_self]
  intro y
  by_cases hyx : y = x
  · subst hyx
    rw [update_self]
    have hagain := (step_grown ((h y).mono hmono) (fun _ z _ => hasHad_zero _)
      (own_hadByOwner apart (hle.trans hself.ge)) a fun message ttl receiver sender ha =>
        (hgenuine message ttl receiver sender ha).mono hmono).of_ok hrun
    rcases hagain with (ht | ⟨ht, hauthentic⟩) | ⟨_, _, _, _, -, -, ht⟩
    · rw [ht.increments]
      exact ht
    · rw [ht]
      exact hauthentic (own_hadByOwner apart (ht.ge.trans hself.ge))
    · rw [ht.increments]
      exact ht
  · rw [update_of_ne hyx]
    exact (h y).mono hmono

theorem trusted_initial (maxQueueLen : X → UInt32) (maxQueueTime : X → ℤ) :
    Trusted config (Network.initial config maxQueueLen maxQueueTime) := by
  intro y
  refine ⟨rfl, rfl, fun e he _ x _ => ?_, fun m hm => by cases hm⟩
  have hzero : ∀ e ∈ initialTable (config y), e.m_seqNo = 0 := by
    unfold initialTable
    refine foldlRecOn (motive := fun table : List RoutingTableEntry => ∀ e ∈ table, e.m_seqNo = 0)
      (config y).interfaces _ (fun e he => ?_) fun table h i _ e he => ?_
    · rw [mem_singleton.mp he]
      rfl
    · rcases mem_insert he with rfl | he
      · rfl
      · exact h e he
  rw [hzero e he]
  exact hasHad_zero _

theorem Trusted.seqNoAuthentic (apart : Apart config) (h : Trusted config N) :
    SeqNoAuthentic config N := by
  have hsent : ∀ y, ∀ m ∈ (N y).sent, ∀ message, m.message = message →
      Genuine (HadByOwner config N) message := by
    rintro y m hm _ rfl
    exact (h y).sent m hm
  refine ⟨fun x => (h x).seqNo, fun x y e he hvalid hx => (h y).table e he hvalid x hx,
    fun x y m hm header hmessage hknown hx => (hsent y m hm _ hmessage).1 hknown x hx,
    fun x y m hm header hmessage hx => (hsent y m hm _ hmessage).2 x hx,
    fun x y m hm header hmessage hx => hsent y m hm _ hmessage x hx, fun x v hv =>
      ?_, fun x v hv hsmall => ?_,
    fun x header ttl receiver sender hproduced hrecent => ?_⟩
  · obtain ⟨k, hk, rfl, hnear⟩ := hv
    rw [(h x).seqNo, UInt32.toNat_sub, UInt32.toNat_ofNat', UInt32.toNat_ofNat']
    omega
  · obtain ⟨k, hk, rfl⟩ := hv
    rw [(h x).seqNo, newer, decide_eq_false_iff_not, toInt_ofNat (hk.trans_lt hsmall),
      toInt_ofNat hsmall]
    omega
  · obtain ⟨y, m, hm, hmessage⟩ := hproduced
    refine ((h x).recvAodv (fun _ y _ => hasHad_zero (N y)) (own_hadByOwner apart le_rfl)
      (hsent y m hm _ hmessage) ttl receiver sender).weaken fun t ht => ?_
    rcases ht with ht | ⟨-, header', heq, hknown, -, hdst⟩
    · exact ht.seqNo.trans (h x).seqNo.symm
    · obtain rfl := Message.rreq.inj heq
      obtain ⟨k, hk, hv, hnear⟩ := hrecent hknown
      have hsame := congrArg UInt32.toNat (hv.symm.trans hdst)
      rw [UInt32.toNat_ofNat', UInt32.toNat_ofNat'] at hsame
      omega

/-- Sequence numbers are authentic in every run. -/
theorem seqNo_authentic [DecidableEq X] (apart : Apart config) (maxQueueLen : X → UInt32)
    (maxQueueTime : X → ℤ) (actions : List (X × Action))
    (produced : Along (networkStep config) Produced
      (Network.initial config maxQueueLen maxQueueTime) actions) :
    Ensures (exec (networkStep config) (Network.initial config maxQueueLen maxQueueTime) actions)
      (SeqNoAuthentic config) (fun _ => True) := by
  have hrun : Ensures (exec (networkStep config) (Network.initial config maxQueueLen maxQueueTime)
    actions)
      (Trusted config) (fun _ => True) :=
    ensures_exec (fun N a hN hproduced => trusted_step apart hN a hproduced) (trusted_initial _ _)
      produced
  exact hrun.weaken fun N hN => hN.seqNoAuthentic apart

instance (N : Network Bool) : DecidablePred (Produced N)
  | (_, .recvAodv ..) | (_, .deferredRouteOutput ..) | (_, .fireTimer _) | (_, .fireDeferred _)
  | (_, .rreqRateLimitTimerExpire) | (_, .rerrRateLimitTimerExpire) | (_, .sendHello)
  | (_, .sendRerrWhenBreaksLinkToNextHop _) | (_, .wait _) => by unfold Produced; infer_instance

def pair : Bool → Config
  | true => .standard [⟨1, ⟨0x0a000001, 0xffffff00⟩⟩]
  | false => .standard [⟨1, ⟨0x0a000002, 0xffffff00⟩⟩]

def exchange : List (Bool × Action) :=
  [(false, .deferredRouteOutput ⟨1, none⟩ ⟨0x0a000002, 0x0a000003, 64⟩ 0 0),
    (true, .deferredRouteOutput ⟨2, none⟩ ⟨0x0a000001, 0x0a000002, 64⟩ 0 0),
    (false, .recvAodv (.rreq ⟨0, 1, 0x0a000002, 0, 0x0a000001, 1, true, true, false⟩) 1 0x0a000002
      0x0a000001),
    (true, .recvAodv (.rrep ⟨0, 0x0a000002, 1, 0x0a000001, 11200, false⟩) 1 0x0a000001 0x0a000002)]

theorem apart_pair : Apart pair := by
  have hlocal : ∀ z a, (pair z).isMyOwnAddress a = true → a = if z then 0x0a000001
      else 0x0a000002 := by
    intro z a hz
    cases z <;> simpa [pair, Config.isMyOwnAddress, Config.standard, eq_comm] using hz
  intro x y a hx hy
  have hsame := (hlocal x a hx).symm.trans (hlocal y a hy)
  cases x <;> cases y <;> simp_all

theorem produced_exchange : Along (networkStep pair) Produced
    (Network.initial pair (fun _ => 64) fun _ => milliseconds 30000) exchange := by
  decide +kernel

theorem seqNo_authentic_exchange : Ensures
    (exec (networkStep pair) (Network.initial pair (fun _ => 64) fun _ => milliseconds 30000)
      exchange)
    (SeqNoAuthentic pair) (fun _ => True) := by
  apply seqNo_authentic
  · exact apart_pair
  · exact produced_exchange

end Networks

end Egsr.Aodv
