import Egsr.Lib.Outcome
import Egsr.Dsdv.RoutingProtocol

/-! Whether the newest update of a destination is kept. The advertised table is
ahead of the routing table, and an entry may be deleted from it when an update
is discarded. What it was ahead by is lost then, unless an event is still to
happen or the routing table has caught up. -/

namespace Egsr.Dsdv

open List Option

open Lib (OrderedMap)
open Lib.Outcome Lib.Run

def Config.ownAddress (c : Config) (d : Ipv4Address) : Prop :=
  d = loopback ∨ ∃ i ∈ c.m_socketAddresses, d = i.m_local ∨ d = i.m_broadcast
deriving Decidable

namespace RoutingProtocol

def storedSeqNo (n : RoutingProtocol) (d : Ipv4Address) : Option ℕ :=
  ((n.m_routingTable.find? d).map (·.m_seqNo)).merge max
    ((n.m_advRoutingTable.find? d).map (·.m_seqNo))

variable (c : Config)

def step (n : RoutingProtocol) (a : ℤ × Event) : Except Empty RoutingProtocol :=
  .ok (n.perform c a.1 a.2).1

def receivedSeqNos (d : Ipv4Address) (as : List (ℤ × Event)) : List ℕ :=
  as.flatMap fun a =>
    match a.2 with
    | .recvDsdv packet => headersFor d packet.headers
    | _ => []

def Undisturbed (n : RoutingProtocol) (a : ℤ × Event) : Prop :=
  match a.2 with
  | .recvDsdv packet => ∀ h ∈ packet.headers, h.dstSeqno % 2 = 0
  | .sendPeriodicUpdate =>
    ∀ e ∈ n.m_routingTable.entries, ¬RoutingTable.Expired a.1 c.m_holddownTime e.2
  | _ => True

/-- An update that is discarded takes nothing from the advertised table that the routing table does
not have. -/
def Harmless (sender : Ipv4Address) (n : RoutingProtocol) (h : DsdvHeader) : Prop :=
  c.ownAddress h.dst ∨ ∀ f ∈ n.m_routingTable.find? h.dst,
    (n.advEntry h.dst f).m_seqNo < h.dstSeqno ∨
    (n.advEntry h.dst f).m_seqNo = h.dstSeqno ∧ h.hopCount < (n.advEntry h.dst f).m_hops ∨
    n.anyRunningEvent h.dst ∨ f.m_seqNo = (n.advEntry h.dst f).m_seqNo ∨
    (n.advEntry h.dst f).m_seqNo = h.dstSeqno ∧
      (n.advEntry h.dst f).getNextHop n.gateways h.dst = sender
deriving Decidable

def HarmlessUpdates (n : RoutingProtocol) (a : ℤ × Event) : Prop :=
  match a.2 with
  | .recvDsdv packet => n.EveryHeader c a.1 packet.source (Harmless c packet.source) packet.headers
  | _ => True

instance decidableUndisturbed (c : Config) (n : RoutingProtocol) : ∀ a,
    Decidable (Undisturbed c n a)
  | (_, .recvDsdv ..) | (_, .sendPeriodicUpdate) | (_, .sendTriggeredUpdate) | (_, .settled _) =>
    by unfold Undisturbed; infer_instance

instance decidableHarmlessUpdates (c : Config) (n : RoutingProtocol) : ∀ a,
    Decidable (HarmlessUpdates c n a)
  | (now, .recvDsdv packet) =>
    decidableEveryHeader c now packet.source (Harmless c packet.source) n packet.headers
  | (_, .sendPeriodicUpdate) | (_, .sendTriggeredUpdate) | (_, .settled _) =>
    by unfold HarmlessUpdates; infer_instance

section Destination

variable {c : Config} {now : ℤ} {sender d : Ipv4Address} {h : DsdvHeader} {n n' : RoutingProtocol}
  {a f : RoutingTableEntry} {received : List ℕ}

/-- The newest number received is the one advertised, or to be advertised. -/
structure Retained (n : RoutingProtocol) (d : Ipv4Address) (received : List ℕ) : Prop where
  latest : (n.m_routingTable.find? d).map (fun f => (n.advEntry d f).m_seqNo) = received.max?
  unrouted : n.m_routingTable.find? d = none → n.m_advRoutingTable.find? d = none
  behind : ∀ f ∈ n.m_routingTable.find? d, f.m_seqNo ≤ (n.advEntry d f).m_seqNo
  even : ∀ f ∈ n.m_routingTable.find? d, f.m_seqNo % 2 = 0 ∧ (n.advEntry d f).m_seqNo % 2 = 0

theorem Retained.stored (ok : Retained n d received) : n.storedSeqNo d = received.max? := by
  rw [storedSeqNo, ← ok.latest]
  cases hf : n.m_routingTable.find? d with
  | none => simp [ok.unrouted hf]
  | some f =>
    have behind := ok.behind f hf
    cases ha : n.m_advRoutingTable.find? d with
    | none => simp [advEntry, ha]
    | some a => simpa [advEntry, ha] using Nat.max_eq_right (by simpa [advEntry, ha] using behind)

theorem Retained.congr (ok : Retained n d received)
    (hfwd : n'.m_routingTable.find? d = n.m_routingTable.find? d)
    (hadv : n'.m_advRoutingTable.find? d = n.m_advRoutingTable.find? d) :
      Retained n' d received := by
  have entry : n'.advEntry d = n.advEntry d := funext fun f => by rw [advEntry, advEntry, hadv]
  exact ⟨by rw [hfwd, entry, ok.latest], by rw [hfwd, hadv]; exact ok.unrouted,
    by rw [hfwd, entry]; exact ok.behind, by rw [hfwd, entry]; exact ok.even⟩

theorem retained_of_routed (hf : n.m_routingTable.find? d = some f)
    (latest : received.max? = some (n.advEntry d f).m_seqNo)
    (behind : f.m_seqNo ≤ (n.advEntry d f).m_seqNo)
    (even : f.m_seqNo % 2 = 0 ∧ (n.advEntry d f).m_seqNo % 2 = 0) : Retained n d received where
  latest := by rw [hf, latest, map_some]
  unrouted h := by rw [hf] at h; cases h
  behind f' hf' := by
    rw [hf] at hf'
    cases hf'
    exact behind
  even f' hf' := by
    rw [hf] at hf'
    cases hf'
    exact even

theorem max?_concat (received : List ℕ) (s : ℕ) :
    (received ++ [s]).max? = some (received.max?.elim s (max · s)) := by
  cases received with
  | nil => rfl
  | cons r received =>
    rw [cons_append, List.max?_cons', List.max?_cons', foldl_append]
    rfl

/-! ### Receiving -/

theorem fwd_recvHeader_of_ne (even : h.dstSeqno % 2 = 0) (hne : d ≠ h.dst) :
    (n.recvHeader c now sender h).m_routingTable.find? d = n.m_routingTable.find? d := by
  have odd : h.dstSeqno % 2 ≠ 1 := by omega
  rw [recvHeader]
  split_ifs
  · rfl
  · split
    · rw [newRoute, OrderedMap.find?_add, if_neg hne]
    · rw [recvUpdate, if_pos odd, acceptAndWait, acceptUnchanged, discardSame, discard]
      split_ifs <;> first | rfl | rw [OrderedMap.find?_update, if_neg hne]

theorem adv_recvHeader_of_ne (even : h.dstSeqno % 2 = 0) (hne : d ≠ h.dst) :
    (n.recvHeader c now sender h).m_advRoutingTable.find? d = n.m_advRoutingTable.find? d := by
  have odd : h.dstSeqno % 2 ≠ 1 := by omega
  rw [recvHeader]
  split_ifs
  · rfl
  · split
    · rw [newRoute, OrderedMap.find?_add, if_neg hne]
    · rw [recvUpdate, if_pos odd, acceptAndWait, acceptUnchanged, discardSame, discard]
      split_ifs <;>
        simp only [OrderedMap.find?_update, OrderedMap.find?_erase, OrderedMap.find?_add,
          if_neg hne]

section

variable (ok : Retained n h.dst received)

include ok

theorem Retained.accept (hf : n.m_routingTable.find? h.dst = some f)
    (newer : (n.advEntry h.dst f).m_seqNo ≤ h.dstSeqno) :
    (received ++ [h.dstSeqno]).max? = some h.dstSeqno := by
  rw [max?_concat, ← ok.latest, hf]
  exact congrArg some (Nat.max_eq_right newer)

theorem Retained.refuse (hf : n.m_routingTable.find? h.dst = some f)
    (older : h.dstSeqno ≤ (n.advEntry h.dst f).m_seqNo) :
    (received ++ [h.dstSeqno]).max? = some (n.advEntry h.dst f).m_seqNo := by
  rw [max?_concat, ← ok.latest, hf]
  exact congrArg some (Nat.max_eq_left older)

theorem Retained.newRoute (even : h.dstSeqno % 2 = 0) (hf : n.m_routingTable.find? h.dst = none) :
    Retained (n.newRoute now sender h) h.dst (received ++ [h.dstSeqno]) := by
  have none_received : received.max? = none := by rw [← ok.latest, hf, map_none]
  have fwd : (n.newRoute now sender h).m_routingTable.find? h.dst =
      some (.create n.created h.dstSeqno h.hopCount now true) := by
    rw [RoutingProtocol.newRoute, OrderedMap.find?_add, if_pos rfl, hf, getD_none]
  have entry :
    (n.newRoute now sender h).advEntry h.dst (.create n.created h.dstSeqno h.hopCount now true) =
      .create n.created h.dstSeqno h.hopCount now true := by
    rw [advEntry, RoutingProtocol.newRoute, OrderedMap.find?_add, if_pos rfl, ok.unrouted hf]
    rfl
  refine retained_of_routed fwd ?_ ?_ ?_
  · rw [max?_concat, none_received, entry]
    rfl
  · exact Nat.le_of_eq (congrArg _ entry.symm)
  · rw [entry]
    exact ⟨even, even⟩

theorem Retained.acceptAndWait (even : h.dstSeqno % 2 = 0)
    (hf : n.m_routingTable.find? h.dst = some f) (ha : n.m_advRoutingTable.find? h.dst = some a)
    (newer : a.m_seqNo ≤ h.dstSeqno) :
    Retained (n.acceptAndWait now sender h a) h.dst (received ++ [h.dstSeqno]) := by
  have fwd : (n.acceptAndWait now sender h a).m_routingTable.find? h.dst =
      some (updated now h a) := by
    rw [RoutingProtocol.acceptAndWait, OrderedMap.find?_update, if_pos rfl, hf, map_some]
  have entry : (n.acceptAndWait now sender h a).advEntry h.dst (updated now h a) =
      updated now h a := by
    rw [advEntry, RoutingProtocol.acceptAndWait, OrderedMap.find?_update, if_pos rfl, ha]
    rfl
  refine retained_of_routed fwd ?_ ?_ ?_
  · rw [entry]
    exact ok.accept hf (by rwa [advEntry, ha])
  · exact Nat.le_of_eq (congrArg _ entry.symm)
  · rw [entry]
    exact ⟨even, even⟩

theorem Retained.acceptUnchanged (even : h.dstSeqno % 2 = 0)
    (hf : n.m_routingTable.find? h.dst = some f) (ha : n.m_advRoutingTable.find? h.dst = some a)
    (newer : a.m_seqNo ≤ h.dstSeqno) :
    Retained (n.acceptUnchanged now sender h a) h.dst (received ++ [h.dstSeqno]) := by
  have before : n.advEntry h.dst f = a := by rw [advEntry, ha, getD_some]
  have entry : (n.acceptUnchanged now sender h a).advEntry h.dst f = updated now h a := by
    rw [advEntry, RoutingProtocol.acceptUnchanged, OrderedMap.find?_update, if_pos rfl, ha]
    rfl
  have behind : f.m_seqNo ≤ a.m_seqNo := before ▸ ok.behind f hf
  refine retained_of_routed (f := f) hf ?_ ?_ ?_
  · rw [entry]
    exact ok.accept hf (by rwa [before])
  · rw [entry]
    exact Nat.le_trans behind newer
  · rw [entry]
    exact ⟨(ok.even f hf).1, even⟩

end

theorem Retained.erase (ok : Retained n d received) (hf : n.m_routingTable.find? d = some f)
    (same : f.m_seqNo = (n.advEntry d f).m_seqNo) :
    Retained { n with m_advRoutingTable := n.m_advRoutingTable.erase d } d received := by
  have entry : advEntry { n with m_advRoutingTable := n.m_advRoutingTable.erase d } d f = f := by
    rw [advEntry, OrderedMap.find?_erase, if_pos rfl, getD_none]
  refine retained_of_routed (f := f) hf ?_ ?_ ?_
  · rw [entry, same, ← ok.latest, hf, map_some]
  · exact Nat.le_of_eq (congrArg _ entry.symm)
  · rw [entry]
    exact ⟨(ok.even f hf).1, (ok.even f hf).1⟩

theorem Retained.catchUp (ok : Retained n d received) (hf : n.m_routingTable.find? d = some f)
    (ha : (n.advEntry d f).m_seqNo = a.m_seqNo) (hfwd : n'.m_routingTable.find? d = some a)
    (hadv : n'.m_advRoutingTable.find? d = none) : Retained n' d received := by
  have even := (ok.even f hf).2
  have entry : n'.advEntry d a = a := by rw [advEntry, hadv, getD_none]
  refine retained_of_routed hfwd ?_ ?_ ?_
  · rw [entry, ← ha, ← ok.latest, hf, map_some]
  · exact Nat.le_of_eq (congrArg _ entry.symm)
  · rw [entry, ← ha]
    exact ⟨even, even⟩

theorem advEntry_add (n : RoutingProtocol) (d : Ipv4Address) (f : RoutingTableEntry) :
    advEntry { n with m_advRoutingTable := n.m_advRoutingTable.add d f } d f = n.advEntry d f := by
  rw [advEntry, OrderedMap.find?_add, if_pos rfl]
  rfl

theorem Retained.add (ok : Retained n d received) (hf : n.m_routingTable.find? d = some f) :
    Retained { n with m_advRoutingTable := n.m_advRoutingTable.add d f } d received := by
  refine retained_of_routed (f := f) hf ?_ ?_ ?_ <;> rw [advEntry_add]
  · rw [← ok.latest, hf, map_some]
  · exact ok.behind f hf
  · exact ok.even f hf

theorem Retained.old (ok : Retained n h.dst received) (hf : n.m_routingTable.find? h.dst = some f)
    (older : h.dstSeqno ≤ (n.advEntry h.dst f).m_seqNo) :
      Retained n h.dst (received ++ [h.dstSeqno]) := by
  refine ⟨?_, ok.unrouted, ok.behind, ok.even⟩
  rw [ok.refuse hf older, hf, map_some]

theorem Retained.discard (ok : Retained n d received) (hf : n.m_routingTable.find? d = some f)
    (harmless : n.anyRunningEvent d ∨ f.m_seqNo = (n.advEntry d f).m_seqNo) :
    Retained (n.discard d) d received := by
  rw [RoutingProtocol.discard]
  split_ifs with running
  · exact ok
  · exact ok.erase hf (harmless.resolve_left running)

theorem Retained.discardSame (ok : Retained n h.dst received)
    (hf : n.m_routingTable.find? h.dst = some f) (ha : n.m_advRoutingTable.find? h.dst = some a)
    (harmless : n.anyRunningEvent h.dst ∨ f.m_seqNo = a.m_seqNo ∨
      a.getNextHop n.gateways h.dst = sender) :
    Retained (n.discardSame now sender h a) h.dst received := by
  have entry : n.advEntry h.dst f = a := by rw [advEntry, ha, getD_some]
  rw [RoutingProtocol.discardSame]
  split_ifs with running hop
  · exact ok
  · refine ok.catchUp (a := { a with m_lifeTime := now }) hf (congrArg (·.m_seqNo) entry) ?_ ?_
    · rw [OrderedMap.find?_update, if_pos rfl, hf, map_some]
    · rw [OrderedMap.find?_erase, if_pos rfl]
  · refine ok.erase hf ?_
    rw [entry]
    exact (harmless.resolve_left running).resolve_right hop

theorem Retained.recvHeader (ok : Retained n h.dst received) (own : ¬c.ownAddress h.dst)
    (even : h.dstSeqno % 2 = 0) (harmless : Harmless c sender n h) :
    Retained (n.recvHeader c now sender h) h.dst (received ++ [h.dstSeqno]) := by
  have odd : h.dstSeqno % 2 ≠ 1 := by omega
  have away : ¬c.isLocal h.dst := fun hlocal => by
    obtain ⟨i, hi, heq⟩ := any_eq_true.mp hlocal
    exact own (.inr ⟨i, hi, .inl (of_decide_eq_true heq)⟩)
  rw [RoutingProtocol.recvHeader, if_neg away]
  cases hf : n.m_routingTable.find? h.dst with
  | none =>
    dsimp only
    rw [if_pos odd]
    exact ok.newRoute even hf
  | some f =>
    have harmless := harmless.resolve_left own f hf
    have copied := ok.add hf
    have ha : (n.m_advRoutingTable.add h.dst f).find? h.dst = some (n.advEntry h.dst f) := by
      rw [OrderedMap.find?_add, if_pos rfl]
      rfl
    dsimp only
    rw [recvUpdate, if_pos odd]
    split_ifs with newer changed same better
    · exact copied.acceptAndWait even hf ha (Nat.le_of_lt newer)
    · exact copied.acceptUnchanged even hf ha (Nat.le_of_lt newer)
    · exact copied.acceptAndWait even hf ha (Nat.le_of_eq same.symm)
    · have kept := copied.old hf (advEntry_add n h.dst f ▸ Nat.le_of_eq same)
      refine kept.discardSame hf ha ?_
      rcases harmless with hlt | ⟨-, hlt⟩ | running | equal | ⟨-, hop⟩
      · exact absurd hlt newer
      · exact absurd hlt better
      · exact .inl running
      · exact .inr (.inl equal)
      · exact .inr (.inr hop)
    · have kept := copied.old hf (advEntry_add n h.dst f ▸ Nat.le_of_not_lt newer)
      refine kept.discard hf ?_
      rw [advEntry_add]
      rcases harmless with hlt | ⟨heq, -⟩ | running | equal | ⟨heq, -⟩
      · exact absurd hlt newer
      · exact absurd heq.symm same
      · exact .inl running
      · exact .inr equal
      · exact absurd heq.symm same

theorem Retained.recvHeaders {hs : List DsdvHeader} (ok : Retained n d received)
    (own : ¬c.ownAddress d) (even : ∀ h ∈ hs, h.dstSeqno % 2 = 0)
    (harmless : n.EveryHeader c now sender (Harmless c sender) hs) :
    Retained (hs.foldl (fun n h => n.recvHeader c now sender h) n) d
    (received ++ headersFor d hs) := by
  induction hs generalizing n received with
  | nil => simpa [headersFor] using ok
  | cons h hs ih =>
    have here := even h mem_cons_self
    have rest : ∀ h ∈ hs, h.dstSeqno % 2 = 0 := fun h' hh' => even h' (mem_cons_of_mem _ hh')
    rw [foldl_cons]
    by_cases hd : h.dst = d
    · subst hd
      have split : received ++ headersFor h.dst (h :: hs) =
          received ++ [h.dstSeqno] ++ headersFor h.dst hs := by simp [headersFor]
      rw [split]
      exact ih (ok.recvHeader own here harmless.1) rest harmless.2
    · have skip : headersFor d (h :: hs) = headersFor d hs := by simp [headersFor, hd]
      rw [skip]
      exact ih (ok.congr (fwd_recvHeader_of_ne here (Ne.symm hd))
        (adv_recvHeader_of_ne here (Ne.symm hd))) rest harmless.2

/-! ### Sending -/

variable {e : Ipv4Address × RoutingTableEntry}

theorem Retained.merge (ok : Retained n d received)
    (newest : e.1 = d → received.max? = some e.2.m_seqNo)
    (hfwd : n'.m_routingTable = if e.2.m_seqNo % 2 = 0 then
      n.m_routingTable.update e.1 { e.2 with m_flag := .valid, m_entriesChanged := false }
        else n.m_routingTable)
    (hadv : n'.m_advRoutingTable = n.m_advRoutingTable.erase e.1) : Retained n' d received := by
  by_cases hd : e.1 = d
  · obtain ⟨f, hf, hlatest⟩ := map_eq_some_iff.mp (ok.latest.trans (newest hd))
    have even := (ok.even f hf).2
    rw [hlatest] at even
    refine ok.catchUp (a := { e.2 with m_flag := .valid, m_entriesChanged := false }) hf
      hlatest ?_ ?_
    · rw [hfwd, if_pos even, hd, OrderedMap.find?_update, if_pos rfl, hf, map_some]
    · rw [hadv, hd, OrderedMap.find?_erase, if_pos rfl]
  · refine ok.congr ?_ ?_
    · rw [hfwd]
      split_ifs
      · rw [OrderedMap.find?_update, if_neg (Ne.symm hd)]
      · rfl
    · rw [hadv, OrderedMap.find?_erase, if_neg (Ne.symm hd)]

theorem Retained.triggerRoute {s : RoutingProtocol × List DsdvHeader} (ok : Retained s.1 d received)
    (newest : e.1 = d → received.max? = some e.2.m_seqNo) :
    Retained (triggerRoute s e).1 d received := by
  by_cases hready : e.2.m_entriesChanged ∧ !s.1.anyRunningEvent e.1
  · rw [RoutingProtocol.triggerRoute, if_pos hready]
    exact ok.merge newest rfl rfl
  · rw [RoutingProtocol.triggerRoute, if_neg hready]
    exact ok

theorem Retained.mergeRoute (ok : Retained n d received)
    (newest : e.1 = d → received.max? = some e.2.m_seqNo) :
      Retained (n.mergeRoute e) d received := by
  by_cases hready : e.2.m_entriesChanged ∧ !n.anyRunningEvent e.1
  · rw [RoutingProtocol.mergeRoute, if_pos hready]
    exact ok.merge newest rfl rfl
  · rw [RoutingProtocol.mergeRoute, if_neg hready]
    exact ok

theorem Retained.newest (ok : Retained n d received)
    (he : e ∈ n.m_advRoutingTable.getListOfAllRoutes) (hd : e.1 = d) : received.max? =
      some e.2.m_seqNo := by
  subst hd
  have hadv := (mem_getListOfAllRoutes.mp he).1
  obtain ⟨f, hf⟩ : ∃ f, n.m_routingTable.find? e.1 = some f := by
    refine ne_none_iff_exists'.mp fun hnone => ?_
    rw [ok.unrouted hnone] at hadv
    cases hadv
  rw [← ok.latest, hf, map_some, advEntry, hadv, getD_some]

theorem Retained.sendTriggeredUpdate (ok : Retained n d received) :
    Retained (n.sendTriggeredUpdate c).1 d received := by
  refine foldlRecOn (motive := fun s : RoutingProtocol × List Packet => Retained s.1 d received) _ _
    ok
    fun s hs iface _ => ?_
  have sent : Retained
    ((n.m_advRoutingTable.getListOfAllRoutes).foldl RoutingProtocol.triggerRoute (s.1, [])).1 d
      received :=
    foldlRecOn (motive := fun r : RoutingProtocol × List DsdvHeader => Retained r.1 d received) _ _
      hs
      fun r hr e he =>
      hr.triggerRoute fun hd => ok.newest he hd
  rw [triggerOver]
  dsimp only
  split_ifs <;> exact sent

theorem Retained.mergeTriggerPeriodicUpdates (ok : Retained n d received) :
    Retained n.mergeTriggerPeriodicUpdates d received :=
  foldlRecOn (motive := fun n' => Retained n' d received) _ _ ok fun _ hn' _ he =>
    hn'.mergeRoute fun hd => ok.newest he hd

theorem HasOwnEntry.recvHeader (own : n.HasOwnEntry c) (even : h.dstSeqno % 2 = 0) :
    HasOwnEntry c (n.recvHeader c now sender h) := by
  have odd : h.dstSeqno % 2 ≠ 1 := by omega
  rw [RoutingProtocol.recvHeader]
  split_ifs
  · exact own
  · split
    · rw [HasOwnEntry, RoutingProtocol.newRoute, OrderedMap.isSome_find?_add, own, Bool.or_true]
    · rw [recvUpdate, if_pos odd, RoutingProtocol.acceptAndWait, RoutingProtocol.acceptUnchanged,
        RoutingProtocol.discardSame, RoutingProtocol.discard]
      split_ifs <;> simpa [HasOwnEntry] using own

theorem HasOwnEntry.merge (own : n.HasOwnEntry c)
    (hfwd : n'.m_routingTable = if e.2.m_seqNo % 2 = 0 then
      n.m_routingTable.update e.1 { e.2 with m_flag := .valid, m_entriesChanged := false }
        else n.m_routingTable) :
    n'.HasOwnEntry c := by
  rw [HasOwnEntry, hfwd]
  split_ifs <;> simpa [HasOwnEntry] using own

theorem HasOwnEntry.triggerRoute {s : RoutingProtocol × List DsdvHeader} (own : HasOwnEntry c s.1)
    (e : Ipv4Address × RoutingTableEntry) : HasOwnEntry c (RoutingProtocol.triggerRoute s e).1 := by
  by_cases hready : e.2.m_entriesChanged ∧ !s.1.anyRunningEvent e.1
  · rw [RoutingProtocol.triggerRoute, if_pos hready]
    exact own.merge rfl
  · rw [RoutingProtocol.triggerRoute, if_neg hready]
    exact own

theorem HasOwnEntry.mergeRoute (own : n.HasOwnEntry c) (e : Ipv4Address × RoutingTableEntry) :
    HasOwnEntry c (n.mergeRoute e) := by
  by_cases hready : e.2.m_entriesChanged ∧ !n.anyRunningEvent e.1
  · rw [RoutingProtocol.mergeRoute, if_pos hready]
    exact own.merge rfl
  · rw [RoutingProtocol.mergeRoute, if_neg hready]
    exact own

theorem HasOwnEntry.sendTriggeredUpdate (own : n.HasOwnEntry c) :
    HasOwnEntry c (n.sendTriggeredUpdate c).1 := by
  refine foldlRecOn (motive := fun s : RoutingProtocol × List Packet => HasOwnEntry c s.1) _ _ own
    fun s hs iface _ => ?_
  have sent : HasOwnEntry c
    ((n.m_advRoutingTable.getListOfAllRoutes).foldl RoutingProtocol.triggerRoute (s.1, [])).1 :=
    foldlRecOn (motive := fun r : RoutingProtocol × List DsdvHeader => HasOwnEntry c r.1) _ _ hs
      fun r hr e _ => hr.triggerRoute e
  rw [triggerOver]
  dsimp only
  split_ifs <;> exact sent

theorem HasOwnEntry.mergeTriggerPeriodicUpdates (own : n.HasOwnEntry c) :
    HasOwnEntry c n.mergeTriggerPeriodicUpdates :=
  foldlRecOn (motive := HasOwnEntry c) _ _ own fun _ hn' e _ => hn'.mergeRoute e

theorem HasOwnEntry.setOwnSeqNo (own : n.HasOwnEntry c) (seqNo : ℕ) :
    HasOwnEntry c (n.setOwnSeqNo c now seqNo) := by
  rw [HasOwnEntry, fwd_setOwnSeqNo own, if_pos rfl, isSome_map]
  exact own

theorem Retained.setOwnSeqNo (ok : Retained n d received) (own : ¬c.ownAddress d)
    (entry : n.HasOwnEntry c) (seqNo : ℕ) : Retained (n.setOwnSeqNo c now seqNo) d received := by
  have other : d ≠ c.mainAddress.m_broadcast := fun heq =>
    own (.inr ⟨c.mainAddress, c.mainAddress_mem, .inr heq⟩)
  exact ok.congr (by rw [fwd_setOwnSeqNo entry, if_neg other]) (by rw [adv_setOwnSeqNo])

end Destination

/-! ## Runs -/

structure Retains (as : List (ℤ × Event)) (n : RoutingProtocol) : Prop where
  retained : ∀ d, ¬c.ownAddress d → Retained n d (receivedSeqNos d as)
  own : n.HasOwnEntry c

section Steps

variable {c : Config} {n n' : RoutingProtocol} {as : List (ℤ × Event)}

theorem Retains.periodicRoute {now : ℤ} {s : RoutingProtocol × List DsdvHeader}
    (ok : Retains c as s.1)
    (e : Ipv4Address × RoutingTableEntry) : Retains c as (periodicRoute c now s e).1 := by
  rw [RoutingProtocol.periodicRoute]
  split_ifs
  · exact ⟨fun d hd => (ok.retained d hd).setOwnSeqNo hd ok.own _, ok.own.setOwnSeqNo _⟩
  · exact ok

theorem Retains.sendTriggeredUpdate (ok : Retains c as n) :
    Retains c as (n.sendTriggeredUpdate c).1 :=
  ⟨fun d hd => (ok.retained d hd).sendTriggeredUpdate, ok.own.sendTriggeredUpdate⟩

theorem Retains.sendPeriodicUpdate (ok : Retains c as n) {now : ℤ}
    (fresh : ∀ e ∈ n.m_routingTable.entries, ¬RoutingTable.Expired now c.m_holddownTime e.2) :
    Retains c as (n.sendPeriodicUpdate c now).1 := by
  have merged : Retains c as n.mergeTriggerPeriodicUpdates :=
    ⟨fun d hd => (ok.retained d hd).mergeTriggerPeriodicUpdates, ok.own.mergeTriggerPeriodicUpdates⟩
  rw [RoutingProtocol.sendPeriodicUpdate, purge_of_unexpired fresh]
  dsimp only
  split_ifs
  · exact merged
  · refine foldlRecOn (motive := fun s : RoutingProtocol × List Packet => Retains c as s.1) _
      _ merged
      fun s hs iface _ => ?_
    exact foldlRecOn (motive := fun r : RoutingProtocol × List DsdvHeader =>
      Retains c as r.1) _ _ hs
      fun r hr e _ => hr.periodicRoute e

theorem receivedSeqNos_concat (d : Ipv4Address) (as : List (ℤ × Event)) (a : ℤ × Event) :
    receivedSeqNos d (as ++ [a]) = receivedSeqNos d as ++
      match a.2 with
      | .recvDsdv packet => headersFor d packet.headers
      | _ => [] := by
  rw [receivedSeqNos, flatMap_append, flatMap_singleton]
  rfl

theorem Retains.extend (ok : Retains c as n) {a : ℤ × Event}
    (quiet : ∀ d, receivedSeqNos d (as ++ [a]) = receivedSeqNos d as) : Retains c (as ++ [a]) n :=
  ⟨fun d hd => quiet d ▸ ok.retained d hd, ok.own⟩

theorem Retains.recvDsdv (ok : Retains c as n) {now : ℤ} {packet : Packet}
    (even : ∀ h ∈ packet.headers, h.dstSeqno % 2 = 0)
    (harmless : n.EveryHeader c now packet.source (Harmless c packet.source) packet.headers) :
    Retains c (as ++ [(now, .recvDsdv packet)]) (n.recvDsdv c now packet) where
  retained d hd := by
    rw [receivedSeqNos_concat]
    exact (ok.retained d hd).recvHeaders hd even harmless
  own := foldlRecOn (motive := HasOwnEntry c) _ _ ok.own fun _ hn' h hh =>
    hn'.recvHeader (even h hh)

theorem step_retains (ok : Retains c as n) {a : ℤ × Event}
    (guard : Undisturbed c n a ∧ HarmlessUpdates c n a) :
    Ensures (step c n a) (Retains c (as ++ [a])) fun _ => False := by
  obtain ⟨now, _ | _ | _ | dst⟩ := a
  · exact ok.recvDsdv guard.1 guard.2
  · exact ok.sendTriggeredUpdate.extend fun d => by rw [receivedSeqNos_concat, append_nil]
  · exact (ok.sendPeriodicUpdate guard.1).extend fun d => by rw [receivedSeqNos_concat, append_nil]
  · refine Retains.extend ?_ fun d => by rw [receivedSeqNos_concat, append_nil]
    dsimp only [perform]
    split_ifs
    · have happened : Retains c as { n with m_ipv4Events := n.m_ipv4Events.set dst false } :=
        ⟨fun d hd => (ok.retained d hd).congr rfl rfl, ok.own⟩
      exact happened.sendTriggeredUpdate
    · exact ok

theorem start_retains (c : Config) : Retains c [] (start c) where
  retained d hd := by
    have unrouted : (start c).m_routingTable.find? d = none ∧ (start c).m_advRoutingTable.find? d =
        none := by
      refine foldlRecOn
        (motive := fun n : RoutingProtocol => n.m_routingTable.find? d = none ∧
          n.m_advRoutingTable.find? d = none)
        _ _ ⟨?_, rfl⟩ fun n hn iface hi => ⟨?_, hn.2⟩
      · rw [addZeroHopRoute, OrderedMap.find?_add, if_neg fun heq => hd (.inl heq)]
        rfl
      · rw [addZeroHopRoute, OrderedMap.find?_add, if_neg fun heq =>
          hd (.inr ⟨iface, hi, .inr heq⟩)]
        exact hn.1
    exact ⟨by rw [unrouted.1]; rfl, fun _ => unrouted.2, by simp [unrouted.1], by simp [unrouted.1]⟩
  own := start_hasOwnEntry c

end Steps

/-- The larger one of the two numbers stored for a destination is the largest one received for it,
as long as no update is discarded at the cost of an advertised one. -/
theorem updates_retained (c : Config) (as : List (ℤ × Event))
    (undisturbed : Along (step c) (Undisturbed c) (start c) as)
    (harmless : Along (step c) (HarmlessUpdates c) (start c) as) {n : RoutingProtocol}
    (run : exec (step c) (start c) as = .ok n) {d : Ipv4Address} (hd : ¬c.ownAddress d) :
    n.storedSeqNo d = (receivedSeqNos d as).max? := by
  have keep : ∀ done n a, Retains c done n → Undisturbed c n a ∧ HarmlessUpdates c n a →
      Ensures (step c n a) (Retains c (done ++ [a])) fun _ => False :=
    fun _ _ _ ok guard => step_retains ok guard
  have kept := ensures_exec_history keep (start_retains c) (undisturbed.and harmless)
  exact ((kept.of_ok run).retained d hd).stored

def updateOver (neighbour : Ipv4Address) (seqNo hops : ℕ) : Event :=
  .recvDsdv ⟨neighbour, [⟨0x0a010103, seqNo, hops⟩]⟩

/-- Where the update with the same metric is forwarded before the old one comes. -/
theorem updates_retained_forwarded : ∃ n, exec (step (oneInterface 0x0a010101))
    (start (oneInterface 0x0a010101))
      [(1, updateOver 0x0a010102 2 1), (2, .sendTriggeredUpdate), (3, updateOver 0x0a010102 4 1),
        (4, .sendTriggeredUpdate), (5, updateOver 0x0a010104 2 2)] = .ok n ∧
    n.storedSeqNo 0x0a010103 = some 4 :=
  ⟨_, rfl, updates_retained (oneInterface 0x0a010101)
    [(1, updateOver 0x0a010102 2 1), (2, .sendTriggeredUpdate),
    (3, updateOver 0x0a010102 4 1), (4, .sendTriggeredUpdate), (5, updateOver 0x0a010104 2 2)]
      (by decide +kernel)
    (by decide +kernel) rfl (by decide)⟩

/-- An update with the same metric is advertised first; an old one takes it out of the advertised
table before it is. -/
theorem newest_update_lost : ∃ n, Along (step (oneInterface 0x0a010101))
    (Undisturbed (oneInterface 0x0a010101))
      (start (oneInterface 0x0a010101)) [(1, updateOver 0x0a010102 2 1), (2, .sendTriggeredUpdate),
        (3, updateOver 0x0a010102 4 1), (4, updateOver 0x0a010104 2 2)] ∧
    exec (step (oneInterface 0x0a010101)) (start (oneInterface 0x0a010101))
    [(1, updateOver 0x0a010102 2 1),
      (2, .sendTriggeredUpdate), (3, updateOver 0x0a010102 4 1), (4, updateOver 0x0a010104 2 2)] =
        .ok n ∧
    ¬(oneInterface 0x0a010101).ownAddress 0x0a010103 ∧ n.storedSeqNo 0x0a010103 = some 2 ∧
    (receivedSeqNos 0x0a010103 [(1, updateOver 0x0a010102 2 1), (2, .sendTriggeredUpdate),
      (3, updateOver 0x0a010102 4 1), (4, updateOver 0x0a010104 2 2)]).max? = some 4 :=
  ⟨_, by decide +kernel, rfl, by decide, by decide +kernel, by decide +kernel⟩

end RoutingProtocol

end Egsr.Dsdv
