import Mathlib.Data.List.Perm.Basic
import Mathlib.Data.List.Perm.Lattice
import Egsr.Aodv.RoutingProtocol

/-! What becomes of the packets that wait for a route. Each of them is forwarded,
reported or kept, as long as no packet meets a route over another device. -/

namespace Egsr.Aodv

open Lib.Run Lib.Outcome List RoutingProtocol

/-! ## Accounts -/

def Call.forwarded : Call → Option QueueEntry
  | .unicastForward entry _ _ _ => some entry
  | .error _ _ => none

def Call.reported : Call → Option QueueEntry
  | .unicastForward _ _ _ _ => none
  | .error entry _ => some entry

def RequestQueue.forwarded (q : RequestQueue) : List QueueEntry := q.calls.filterMap Call.forwarded

def RequestQueue.reported (q : RequestQueue) : List QueueEntry := q.calls.filterMap Call.reported

/-- Every accepted entry is in one place, and those for one destination stay in order. -/
structure Accounted (accepted : List QueueEntry) (q : RequestQueue) : Prop where
  perm : accepted.Perm (q.forwarded ++ q.reported ++ q.m_queue)
  ordered : ∀ dst,
    ((q.forwarded ++ q.m_queue).filter (isFor dst)).Sublist (accepted.filter (isFor dst))
  bounded : q.m_queue.length ≤ q.m_maxLen.toNat

section Calls

variable {es : List QueueEntry} {calls : List Call}

theorem filterMap_forwarded_drop :
    (calls ++ es.map RequestQueue.drop).filterMap Call.forwarded =
      calls.filterMap Call.forwarded := by
  have hnone : es.filterMap (Call.forwarded ∘ RequestQueue.drop) = [] :=
    filterMap_eq_nil_iff.mpr fun _ _ => rfl
  rw [filterMap_append, filterMap_map, hnone, append_nil]

theorem filterMap_reported_drop :
    (calls ++ es.map RequestQueue.drop).filterMap Call.reported =
      calls.filterMap Call.reported ++ es := by
  rw [filterMap_append, filterMap_map]
  exact congrArg _ (filterMap_some)

end Calls

namespace Accounted

variable {accepted : List QueueEntry} {q : RequestQueue} {now : ℤ} {dst : Ipv4Address}
    {route : Ipv4Route}

section

variable (h : Accounted accepted q)

include h

theorem dropped {kept gone : List QueueEntry} (perm : q.m_queue.Perm (gone ++ kept))
    (sub : kept.Sublist q.m_queue) :
    Accounted accepted
    { q with m_queue := kept, calls := q.calls ++ gone.map RequestQueue.drop } where
  perm := by
    have hreported : RequestQueue.reported { q with
      m_queue := kept, calls := q.calls ++ gone.map RequestQueue.drop } =
        q.reported ++ gone := filterMap_reported_drop
    have hforwarded : RequestQueue.forwarded
        { q with m_queue := kept, calls := q.calls ++ gone.map RequestQueue.drop } = q.forwarded :=
      filterMap_forwarded_drop
    rw [hreported, hforwarded]
    refine h.perm.trans ?_
    simp only [append_assoc]
    exact (perm.append_left _).append_left _
  ordered dst := by
    have hforwarded : RequestQueue.forwarded
        { q with m_queue := kept, calls := q.calls ++ gone.map RequestQueue.drop } = q.forwarded :=
      filterMap_forwarded_drop
    rw [hforwarded]
    exact ((sub.append_left _).filter _).trans (h.ordered dst)
  bounded := sub.length_le.trans h.bounded

theorem droppedWhere (p : QueueEntry → Bool) : Accounted accepted { q with
        m_queue := q.m_queue.filter fun e => !p e
        calls := q.calls ++ (q.m_queue.filter p).map RequestQueue.drop } :=
  h.dropped (filter_append_perm p q.m_queue).symm filter_sublist

theorem purge (now : ℤ) : Accounted accepted (q.purge now) := h.droppedWhere (isExpired now)

theorem dropPacketWithDst : Accounted accepted (q.dropPacketWithDst now dst) :=
  (h.purge now).droppedWhere (isFor dst)

theorem dropOldest : Accounted accepted q.dropOldest := by
  refine h.dropped ?_ (tail_sublist _)
  rw [← drop_one, take_append_drop]

theorem accept {entry : QueueEntry} (room : q.m_queue.length < q.m_maxLen.toNat) :
    Accounted (accepted ++ [entry]) { q with m_queue := q.m_queue ++ [entry] } where
  perm := by
    rw [← append_assoc]
    exact h.perm.append_right _
  ordered dst := by
    rw [← append_assoc, filter_append, @List.filter_append _ _ accepted]
    exact (h.ordered dst).append_right _
  bounded := by
    rw [length_append, length_singleton]
    exact room

end

theorem length_dropOldest : q.dropOldest.m_queue.length = q.m_queue.length - 1 := length_tail

theorem enqueue (h : Accounted accepted q) (pos : 0 < q.m_maxLen.toNat) (now : ℤ)
    (entry : QueueEntry) : if (q.enqueue now entry).2 then
      Accounted (accepted ++ [entry.setExpireTime now q.m_queueTimeout]) (q.enqueue now entry).1
    else Accounted accepted (q.enqueue now entry).1 := by
  have hpurged := h.purge now
  rw [RequestQueue.enqueue]
  by_cases hholds : (q.purge now).holds entry = true
  · dsimp only
    rw [if_pos hholds]
    exact hpurged
  · dsimp only
    rw [if_neg hholds, if_pos rfl]
    have hbounded : (q.purge now).m_queue.length ≤ q.m_maxLen.toNat := hpurged.bounded
    by_cases hfull : (q.purge now).m_queue.length = (q.purge now).m_maxLen.toNat
    · rw [if_pos hfull]
      refine hpurged.dropOldest.accept ?_
      rw [length_dropOldest]
      have hfull' : (q.purge now).m_queue.length = q.m_maxLen.toNat := hfull
      change _ < q.m_maxLen.toNat
      omega
    · rw [if_neg hfull]
      exact hpurged.accept (lt_of_le_of_ne hbounded hfull)

theorem forward (h : Accounted accepted q) {entry : QueueEntry}
    (first : q.m_queue.find? (isFor dst) = some entry) :
    Accounted accepted { q with
        m_queue := q.m_queue.eraseP (isFor dst)
        calls := q.calls ++ [RequestQueue.forward route entry] } := by
  obtain ⟨hfor, before, after, hqueue, hbefore⟩ := List.find?_eq_some_iff_append.mp first
  have herase : q.m_queue.eraseP (isFor dst) = before ++ after := by
    rw [hqueue, eraseP_append_right _ (by simpa using hbefore), eraseP_cons_of_pos hfor]
  have hforwarded : ∀ queue, RequestQueue.forwarded
      { q with m_queue := queue, calls := q.calls ++ [RequestQueue.forward route entry] } =
        q.forwarded ++ [entry] :=
    fun _ => filterMap_append
  have hreported : ∀ queue, RequestQueue.reported
      { q with m_queue := queue, calls := q.calls ++ [RequestQueue.forward route entry] } =
        q.reported := fun _ => by
    simp [RequestQueue.reported, RequestQueue.forward, Call.reported]
  rw [herase]
  refine ⟨?_, fun other => ?_, ?_⟩
  · rw [hforwarded, hreported]
    refine h.perm.trans ?_
    rw [hqueue]
    simp only [append_assoc, singleton_append]
    refine List.Perm.append_left _ ?_
    rw [← append_assoc, ← append_assoc]
    exact perm_middle
  · rw [hforwarded]
    have hold := h.ordered other
    rw [hqueue] at hold
    by_cases hsame : other = dst
    · subst hsame
      have hnone : before.filter (isFor other) = [] :=
        filter_eq_nil_iff.mpr (by simpa using hbefore)
      simp only [filter_append, filter_cons_of_pos hfor, hnone, nil_append, append_assoc,
        singleton_append] at hold ⊢
      exact hold
    · have hother : ¬isFor other entry = true := by
        intro heq
        simp only [isFor, decide_eq_true_eq] at heq hfor
        exact hsame (heq.symm.trans hfor)
      simp only [filter_append, filter_cons_of_neg hother, filter_nil, append_assoc] at hold ⊢
      exact hold
  · have hbounded := h.bounded
    rw [hqueue, length_append, length_cons] at hbounded
    change (before ++ after).length ≤ q.m_maxLen.toNat
    rw [length_append]
    omega

def Matching (now : ℤ) (dst : Ipv4Address) (route : Ipv4Route) (queue : List QueueEntry) : Prop :=
  ∀ e ∈ queue, isExpired now e = false → isFor dst e = true →
    RequestQueue.mismatched route e.m_packet = false
deriving Decidable

theorem sendLoop (rounds : ℕ) (h : Accounted accepted q)
    (matching : Matching now dst route q.m_queue) :
    Accounted accepted (RequestQueue.sendLoop now dst route rounds q) := by
  induction rounds generalizing q with
  | zero => exact h
  | succ rounds ih =>
    rw [RequestQueue.sendLoop, RequestQueue.dequeue]
    have hpurged := h.purge now
    cases hfirst : (q.purge now).m_queue.find? (isFor dst) with
    | none => exact hpurged
    | some entry =>
      have hmem := mem_filter.mp (mem_of_find?_eq_some hfirst)
      have hmatch := matching entry hmem.1 (by simpa using hmem.2) (List.find?_some hfirst)
      dsimp only
      rw [hmatch, if_neg Bool.false_ne_true]
      refine ih (hpurged.forward hfirst) fun e he => matching e ?_
      exact mem_of_mem_filter (mem_of_mem_eraseP he)

theorem sendPacketFromQueue (h : Accounted accepted q)
    (matching : Matching now dst route q.m_queue) :
    Accounted accepted (q.sendPacketFromQueue now dst route) := h.sendLoop _ matching

end Accounted

/-! ## The queue in a run -/

structure QueueRun where
  node : RoutingProtocol
  accepted : List QueueEntry
deriving DecidableEq

inductive QueueAction where
  | deferredRouteOutput (p : Packet) (header : Ipv4Header) (ucb ecb : ℕ)
  | sendPacketFromQueue (dst : Ipv4Address) (route : Ipv4Route)
  | routeRequestTimerExpire (dst : Ipv4Address)
  /-- What else the protocol does to its state. -/
  | others (node : RoutingProtocol)
  | wait (now : ℤ)
deriving DecidableEq

def acceptedEntry (s : RoutingProtocol) (newEntry : QueueEntry) : List QueueEntry :=
  if (s.m_queue.enqueue s.now newEntry).2 then [newEntry.setExpireTime s.now
    s.m_queue.m_queueTimeout] else []

def queueStep (c : Config) (w : QueueRun) : QueueAction → Except Fault QueueRun
  | .deferredRouteOutput p header ucb ecb =>
    (w.node.deferredRouteOutput c p header ucb ecb).map fun node =>
      ⟨node, w.accepted ++ acceptedEntry w.node ⟨p, header, ucb, ecb, w.node.now + w.node.now⟩⟩
  | .sendPacketFromQueue dst route => .ok { w with node := w.node.sendPacketFromQueue dst route }
  | .routeRequestTimerExpire dst =>
    (w.node.routeRequestTimerExpire c dst).map fun node => { w with node }
  | .others node => .ok { w with node := { node with m_queue := w.node.m_queue } }
  | .wait now => .ok { w with node := { w.node with now } }

/-- A packet that is taken out to be forwarded is not bound to another device than that of the
route. -/
def DevicesMatch (c : Config) (w : QueueRun) : QueueAction → Prop
  | .sendPacketFromQueue dst route => Accounted.Matching w.node.now dst route w.node.m_queue.m_queue
  | .routeRequestTimerExpire dst => ∀ toDst ∈ (w.node.purge c).find dst, toDst.m_flag = .valid →
      Accounted.Matching w.node.now dst toDst.m_ipv4Route w.node.m_queue.m_queue
  | _ => True

section Run

variable {c : Config} {s t : RoutingProtocol}

theorem queue_broadcastRequest (rreqHeader : RreqHeader) (ttl : UInt16) (s : RoutingProtocol)
    (i : Interface) : (broadcastRequest c rreqHeader ttl s i).m_queue = s.m_queue := by
  unfold broadcastRequest rememberId
  dsimp only
  split_ifs <;> rfl

theorem queue_broadcastRequests (rreqHeader : RreqHeader) (ttl : UInt16) (is : List Interface)
    (s : RoutingProtocol) :
    (is.foldl (broadcastRequest c rreqHeader ttl) s).m_queue = s.m_queue := by
  induction is generalizing s with
  | nil => rfl
  | cons i is ih => rw [foldl_cons, ih, queue_broadcastRequest]

theorem queue_beginSearch (s : RoutingProtocol) (dst : Ipv4Address) :
    (s.beginSearch c dst).1.m_queue = s.m_queue := by
  unfold beginSearch
  dsimp only
  split <;> rfl

theorem queue_scheduleRreqRetry (s : RoutingProtocol) (dst : Ipv4Address) :
    Ensures (s.scheduleRreqRetry c dst) (fun t => t.m_queue = s.m_queue) fun _ => True := by
  unfold scheduleRreqRetry
  dsimp only
  split_ifs
  · exact ensures_ok.mpr rfl
  · exact ensures_error.mpr trivial
  · exact ensures_ok.mpr rfl

theorem queue_sendRequest (s : RoutingProtocol) (dst : Ipv4Address) :
    Ensures (s.sendRequest c dst) (fun t => t.m_queue = s.m_queue) fun _ => True := by
  unfold sendRequest
  split_ifs
  · exact ensures_ok.mpr rfl
  · refine (queue_scheduleRreqRetry _ dst).weaken fun t ht => ?_
    rw [ht, queue_broadcastRequests]
    exact queue_beginSearch _ dst

theorem maxLen_enqueue (q : RequestQueue) (now : ℤ) (entry : QueueEntry) :
    (q.enqueue now entry).1.m_maxLen = q.m_maxLen := by
  unfold RequestQueue.enqueue
  dsimp only
  split_ifs <;> rfl

theorem maxLen_sendLoop (now : ℤ) (dst : Ipv4Address) (route : Ipv4Route) (rounds : ℕ)
    (q : RequestQueue) : (RequestQueue.sendLoop now dst route rounds q).m_maxLen = q.m_maxLen := by
  induction rounds generalizing q with
  | zero => rfl
  | succ rounds ih =>
    rw [RequestQueue.sendLoop, RequestQueue.dequeue]
    cases (q.purge now).m_queue.find? (isFor dst) with
    | none => rfl
    | some entry =>
      dsimp only
      split_ifs
      · rfl
      · exact ih _

structure Conserved (maxLen : UInt32) (accepted : List QueueEntry) (q : RequestQueue) : Prop
    extends Accounted accepted q where
  maxLen : q.m_maxLen = maxLen

theorem queueStep_ok {maxLen : UInt32} (pos : 0 < maxLen.toNat) (w : QueueRun) (a : QueueAction)
    (h : Conserved maxLen w.accepted w.node.m_queue) (matching : DevicesMatch c w a) :
    Ensures (queueStep c w a) (fun w => Conserved maxLen w.accepted w.node.m_queue) fun _ =>
      True := by
  have hsent : ∀ {dst route}, Accounted.Matching w.node.now dst route w.node.m_queue.m_queue →
      Conserved maxLen w.accepted (w.node.m_queue.sendPacketFromQueue w.node.now dst route) :=
        fun hmatch =>
    ⟨h.toAccounted.sendPacketFromQueue hmatch, (maxLen_sendLoop _ _ _ _ _).trans h.maxLen⟩
  cases a with
  | deferredRouteOutput p header ucb ecb =>
    have henqueue := h.toAccounted.enqueue (h.maxLen ▸ pos) w.node.now
      ⟨p, header, ucb, ecb, w.node.now + w.node.now⟩
    have hlen :=
      maxLen_enqueue w.node.m_queue w.node.now ⟨p, header, ucb, ecb, w.node.now + w.node.now⟩
    rw [queueStep, ensures_map, deferredRouteOutput, acceptedEntry]
    rcases hresult :
      w.node.m_queue.enqueue w.node.now ⟨p, header, ucb, ecb, w.node.now + w.node.now⟩
      with ⟨queue, _ | _⟩
    · rw [hresult, if_neg Bool.false_ne_true] at henqueue
      rw [hresult] at hlen
      rw [if_neg Bool.false_ne_true, append_nil]
      exact ensures_ok.mpr ⟨henqueue, hlen.trans h.maxLen⟩
    · rw [hresult, if_pos rfl] at henqueue
      rw [hresult] at hlen
      have haccepted : Conserved maxLen (w.accepted ++ _) queue := ⟨henqueue, hlen.trans h.maxLen⟩
      rw [if_pos (rfl : (queue, true).2 = true)]
      dsimp only
      split_ifs
      · exact ensures_ok.mpr haccepted
      · refine (queue_sendRequest _ _).weaken fun t ht => ?_
        rw [ht]
        exact haccepted
  | sendPacketFromQueue dst route => exact ensures_ok.mpr (hsent matching)
  | routeRequestTimerExpire dst =>
    rw [queueStep, ensures_map, routeRequestTimerExpire]
    have hstop : Conserved maxLen w.accepted (w.node.m_queue.dropPacketWithDst w.node.now dst) :=
      ⟨h.toAccounted.dropPacketWithDst, h.maxLen⟩
    dsimp only
    split_ifs with hvalid
    · obtain ⟨toDst, hfind⟩ := Option.isSome_iff_exists.mp hvalid.1
      have hflag := hvalid.2
      rw [hfind, Option.getD_some] at hflag ⊢
      exact ensures_ok.mpr (hsent (matching toDst hfind hflag))
    · exact ensures_ok.mpr hstop
    · refine (queue_sendRequest _ dst).weaken fun t ht => ?_
      rw [ht]
      exact h
    · exact ensures_ok.mpr hstop
  | others node => exact ensures_ok.mpr h
  | wait now => exact ensures_ok.mpr h

/-- As long as no packet meets a route over another device, none is lost or handed on twice. -/
theorem requestQueue_conserves (c : Config) {maxLen : UInt32} (maxTime : ℤ) (pos : 0 < maxLen.toNat)
    {actions : List QueueAction}
    (along : Along (queueStep c) (DevicesMatch c) ⟨.initial c maxLen maxTime, []⟩ actions) :
    Ensures (exec (queueStep c) ⟨.initial c maxLen maxTime, []⟩ actions)
      (fun w => Conserved maxLen w.accepted w.node.m_queue) fun _ => True := by
  refine ensures_exec (fun w a hw hmatch => queueStep_ok pos w a hw hmatch) ?_ along
  exact ⟨⟨.nil, fun dst => .slnil, Nat.zero_le _⟩, rfl⟩

end Run

instance (c : Config) (w : QueueRun) : ∀ a, Decidable (DevicesMatch c w a)
  | .sendPacketFromQueue .. | .routeRequestTimerExpire .. | .deferredRouteOutput .. | .others _
  | .wait _ => by unfold DevicesMatch; infer_instance

def twoInterfaces : Config :=
  .standard [⟨1, ⟨0x0a000001, 0xffffff00⟩⟩, ⟨2, ⟨0x0a000101, 0xffffff00⟩⟩]

def routeOver : Ipv4Route := ⟨0x0a000009, 0x0a000002, 0x0a000001, some 1⟩

def waitingHeader : Ipv4Header := ⟨0x0a000001, 0x0a000009, 64⟩

def threePackets : List QueueAction :=
  [.deferredRouteOutput ⟨1, some 1⟩ waitingHeader 0 0,
    .deferredRouteOutput ⟨2, none⟩ waitingHeader 0 0,
    .sendPacketFromQueue 0x0a000009 routeOver, .deferredRouteOutput ⟨3, some 2⟩ waitingHeader 0 0,
    .wait (milliseconds 31000), .routeRequestTimerExpire 0x0a000009]

theorem requestQueue_conserves_three : Ensures
    (exec (queueStep twoInterfaces) ⟨.initial twoInterfaces 64 (milliseconds 30000), []⟩
      threePackets)
    (fun w => Conserved 64 w.accepted w.node.m_queue) fun _ => True := by
  have halong : Along (queueStep twoInterfaces) (DevicesMatch twoInterfaces)
      ⟨.initial twoInterfaces 64 (milliseconds 30000), []⟩ threePackets := by decide +kernel
  have hpos : 0 < (64 : UInt32).toNat := by decide
  have hconserves := requestQueue_conserves twoInterfaces (milliseconds 30000) hpos halong
  exact hconserves

/-- A packet for the second device meets a route over the first one. -/
theorem otherDevice_lost :
    Ensures (exec (queueStep twoInterfaces) ⟨.initial twoInterfaces 64 (milliseconds 30000), []⟩
      [.deferredRouteOutput ⟨1, some 2⟩ waitingHeader 0 0,
        .sendPacketFromQueue 0x0a000009 routeOver])
      (fun w => w.accepted = [⟨⟨1, some 2⟩, waitingHeader, 0, 0, milliseconds 30000⟩] ∧
        w.node.m_queue.m_queue = [] ∧ w.node.m_queue.calls = []) (fun _ => False) ∧
    ¬Ensures (exec (queueStep twoInterfaces) ⟨.initial twoInterfaces 64 (milliseconds 30000), []⟩
      [.deferredRouteOutput ⟨1, some 2⟩ waitingHeader 0 0,
        .sendPacketFromQueue 0x0a000009 routeOver])
      (fun w => Conserved 64 w.accepted w.node.m_queue) (fun _ => True) := by
  have hrun : Ensures (exec (queueStep twoInterfaces)
    ⟨.initial twoInterfaces 64 (milliseconds 30000), []⟩
      [.deferredRouteOutput ⟨1, some 2⟩ waitingHeader 0 0,
        .sendPacketFromQueue 0x0a000009 routeOver])
      (fun w => w.accepted = [⟨⟨1, some 2⟩, waitingHeader, 0, 0, milliseconds 30000⟩] ∧
        w.node.m_queue.m_queue = [] ∧ w.node.m_queue.calls = []) fun _ => False := by decide +kernel
  refine ⟨hrun, fun hconserved => ?_⟩
  obtain ⟨w, hw, haccepted, hqueue, hcalls⟩ := hrun.exists_ok
  have hperm := (hconserved.of_ok hw).perm
  rw [haccepted, RequestQueue.forwarded, RequestQueue.reported, hqueue, hcalls] at hperm
  exact absurd hperm.length_eq (by decide)

end Egsr.Aodv
