import Egsr.Dsdv.Network

/-! Loop freedom of DSDV. Following a route leads to nodes with fresher ones:
with a larger sequence number, or with the same number and fewer hops. This is
so as long as no node takes up a route that is older than what it has told its
neighbours before, which it may do once its route has been deleted. -/

namespace Egsr.Dsdv

open List Option Function

open Lib (OrderedMap)
open Lib.Outcome Lib.Run RoutingProtocol

def Fresher (s k s' k' : ℕ) : Prop := s' < s ∨ s' = s ∧ k < k'
deriving Decidable

def AsFresh (s k s' k' : ℕ) : Prop := s' < s ∨ s' = s ∧ k ≤ k'
deriving Decidable

section Freshness

variable {s k s' k' s'' k'' : ℕ}

theorem AsFresh.refl (s k : ℕ) : AsFresh s k s k := .inr ⟨rfl, Nat.le_refl _⟩

theorem AsFresh.trans (h : AsFresh s k s' k') (h' : AsFresh s' k' s'' k'') :
    AsFresh s k s'' k'' := by
  unfold AsFresh at *
  omega

theorem AsFresh.fresher (h : AsFresh s k s' k') (h' : Fresher s' k' s'' k'') :
    Fresher s k s'' k'' := by
  unfold AsFresh at h
  unfold Fresher at *
  omega

theorem Fresher.of_asFresh (h : Fresher s k s' k') (h' : AsFresh s' k' s'' k'') :
    Fresher s k s'' k'' := by
  unfold AsFresh at h'
  unfold Fresher at *
  omega

theorem Fresher.next (s k : ℕ) : Fresher s k s (k + 1) := .inr ⟨rfl, Nat.lt_succ_self _⟩

end Freshness

/-! ## One node -/

section Node

variable {ι : Type} {T : Topology ι} {y : ι} {Good : Ipv4Address → ℕ → Prop}
    {own : RoutingTableEntry}
  {c : Config} {now : ℤ} {sender d : Ipv4Address} {h : DsdvHeader} {n n' : RoutingProtocol}
  {a f : RoutingTableEntry} {Told Told' : Ipv4Address → ℕ → ℕ → Prop} {Said Said' : ℕ → ℕ → Prop}

/-- What a node knows of a destination: what its neighbours have told is as fresh, and what the node
has said is not. -/
structure RouteOk (Told : Ipv4Address → ℕ → ℕ → Prop) (Said : ℕ → ℕ → Prop) (n : RoutingProtocol)
    (d : Ipv4Address) : Prop where
  route : ∀ f, n.m_routingTable.find? d = some f →
    Told (f.getNextHop n.gateways d) f.m_seqNo f.m_hops
  advertised : ∀ a, n.m_advRoutingTable.find? d = some a → a.m_seqNo % 2 = 0 →
    Told (a.getNextHop n.gateways d) a.m_seqNo a.m_hops
  ahead : ∀ f a, n.m_routingTable.find? d = some f → n.m_advRoutingTable.find? d = some a →
    AsFresh a.m_seqNo a.m_hops f.m_seqNo f.m_hops
  said : ∀ f, n.m_routingTable.find? d = some f → ∀ s k, Said s k → Fresher f.m_seqNo f.m_hops s k

theorem RouteOk.congr (ok : RouteOk Told Said n d)
    (hfwd : n'.m_routingTable.find? d = n.m_routingTable.find? d)
    (hadv : n'.m_advRoutingTable.find? d = n.m_advRoutingTable.find? d)
    (hgateways : n'.gateways d = n.gateways d) : RouteOk Told Said n' d where
  route f hf := by
    rw [RoutingTableEntry.getNextHop, hgateways]
    exact ok.route f (hfwd ▸ hf)
  advertised a ha := by
    rw [RoutingTableEntry.getNextHop, hgateways]
    exact ok.advertised a (hadv ▸ ha)
  ahead f a hf ha := ok.ahead f a (hfwd ▸ hf) (hadv ▸ ha)
  said f hf := ok.said f (hfwd ▸ hf)

theorem RouteOk.mono (ok : RouteOk Told Said n d) (told : ∀ g s k, Told g s k → Told' g s k)
    (said : ∀ f, n.m_routingTable.find? d = some f → ∀ s k, Said' s k → Said s k ∨
      Fresher f.m_seqNo f.m_hops s k) :
    RouteOk Told' Said' n d where
  route f hf := told _ _ _ (ok.route f hf)
  advertised a ha even := told _ _ _ (ok.advertised a ha even)
  ahead := ok.ahead
  said f hf s k hs := (said f hf s k hs).elim (ok.said f hf s k) id

theorem routeOk_of_lost (hfwd : n.m_routingTable.find? d = none)
    (advertised : ∀ a, n.m_advRoutingTable.find? d = some a → a.m_seqNo % 2 = 0 →
      Told (a.getNextHop n.gateways d) a.m_seqNo a.m_hops) : RouteOk Told Said n d where
  route f hf := by rw [hfwd] at hf; cases hf
  advertised := advertised
  ahead f a hf := by rw [hfwd] at hf; cases hf
  said f hf := by rw [hfwd] at hf; cases hf

theorem routeOk_of_found (hf : n.m_routingTable.find? d = some f)
    (ha : n.m_advRoutingTable.find? d = some a)
    (route : Told (f.getNextHop n.gateways d) f.m_seqNo f.m_hops)
    (advertised : a.m_seqNo % 2 = 0 → Told (a.getNextHop n.gateways d) a.m_seqNo a.m_hops)
    (ahead : AsFresh a.m_seqNo a.m_hops f.m_seqNo f.m_hops)
    (said : ∀ s k, Said s k → Fresher f.m_seqNo f.m_hops s k) : RouteOk Told Said n d := by
  refine ⟨fun f' hf' => ?_, fun a' ha' => ?_, fun f' a' hf' ha' => ?_, fun f' hf' => ?_⟩
  · rw [hf] at hf'
    cases hf'
    exact route
  · rw [ha] at ha'
    cases ha'
    exact advertised
  · rw [hf] at hf'
    rw [ha] at ha'
    cases hf'
    cases ha'
    exact ahead
  · rw [hf] at hf'
    cases hf'
    exact said

theorem RouteOk.eraseAdv (ok : RouteOk Told Said n d) (d' : Ipv4Address) :
    RouteOk Told Said { n with m_advRoutingTable := n.m_advRoutingTable.erase d' } d := by
  have kept : ∀ a, (n.m_advRoutingTable.erase d').find? d = some a →
      n.m_advRoutingTable.find? d = some a := by
    intro a ha
    rw [OrderedMap.find?_erase] at ha
    split_ifs at ha
    exact ha
  exact ⟨ok.route, fun a ha => ok.advertised a (kept a ha), fun f a hf ha =>
    ok.ahead f a hf (kept a ha), ok.said⟩

theorem RouteOk.discard (ok : RouteOk Told Said n d) (d' : Ipv4Address) :
    RouteOk Told Said (n.discard d') d := by
  rw [RoutingProtocol.discard]
  split_ifs
  · exact ok
  · exact ok.eraseAdv d'

theorem RouteOk.add (ok : RouteOk Told Said n d) (hf : n.m_routingTable.find? d = some f) :
    RouteOk Told Said { n with m_advRoutingTable := n.m_advRoutingTable.add d f } d := by
  cases ha : n.m_advRoutingTable.find? d with
  | none =>
    refine routeOk_of_found (a := f) hf ?_ (ok.route f hf) (fun _ => ok.route f hf)
      (AsFresh.refl _ _) (ok.said f hf)
    rw [OrderedMap.find?_add, if_pos rfl, ha, getD_none]
  | some a =>
    refine routeOk_of_found (a := a) hf ?_ (ok.route f hf) (ok.advertised a ha) (ok.ahead f a hf ha)
      (ok.said f hf)
    rw [OrderedMap.find?_add, if_pos rfl, ha, getD_some]

/-! ### Receiving -/

theorem getNextHop_setNextHop_self {dst : Ipv4Address} {rt : RoutingTableEntry} {g : Ipv4Address} :
    (n.setNextHop dst rt g).gateways dst rt.m_ipv4Route = g := by
  rw [setNextHop_gateways, update_self, update_self]

theorem getNextHop_setNextHop (n : RoutingProtocol) (dst : Ipv4Address) (rt : RoutingTableEntry)
    (g : Ipv4Address) (object : ℕ) : (n.setNextHop dst rt g).gateways dst object = g ∨
      (n.setNextHop dst rt g).gateways dst object = n.gateways dst object := by
  rw [setNextHop_gateways, update_self]
  by_cases hobject : object = rt.m_ipv4Route
  · exact .inl (by rw [hobject, update_self])
  · exact .inr (update_of_ne hobject ..)

theorem RouteOk.acceptAndWait (ok : RouteOk Told Said n h.dst)
    (hf : n.m_routingTable.find? h.dst = some f)
    (ha : n.m_advRoutingTable.find? h.dst = some a) (told : Told sender h.dstSeqno h.hopCount)
    (fresh : AsFresh h.dstSeqno h.hopCount a.m_seqNo a.m_hops) :
    RouteOk Told Said (n.acceptAndWait now sender h a) h.dst := by
  have hop : Told ((updated now h a).getNextHop (n.acceptAndWait now sender h a).gateways h.dst)
      h.dstSeqno h.hopCount := by
    have hgateway : (updated now h a).getNextHop (n.acceptAndWait now sender h a).gateways h.dst =
      sender :=
      getNextHop_setNextHop_self
    rwa [hgateway]
  have newer := fresh.trans (ok.ahead f a hf ha)
  refine routeOk_of_found (f := updated now h a) (a := updated now h a) ?_ ?_ hop (fun _ => hop)
    (AsFresh.refl _ _) fun s k hs => newer.fresher (ok.said f hf s k hs)
  · rw [RoutingProtocol.acceptAndWait, OrderedMap.find?_update, if_pos rfl, hf, map_some]
  · rw [RoutingProtocol.acceptAndWait, OrderedMap.find?_update, if_pos rfl, ha, map_some]

theorem RouteOk.acceptUnchanged
    (down : ∀ g s k s' k', Told g s k → AsFresh s k s' k' → Told g s' k')
    (ok : RouteOk Told Said n h.dst) (hf : n.m_routingTable.find? h.dst = some f)
    (ha : n.m_advRoutingTable.find? h.dst = some a) (told : Told sender h.dstSeqno h.hopCount)
    (fresh : AsFresh h.dstSeqno h.hopCount a.m_seqNo a.m_hops) :
    RouteOk Told Said (n.acceptUnchanged now sender h a) h.dst := by
  have newer := fresh.trans (ok.ahead f a hf ha)
  refine routeOk_of_found (f := f) (a := updated now h a) hf ?_ ?_ (fun _ => ?_) newer
    (ok.said f hf)
  · rw [RoutingProtocol.acceptUnchanged, OrderedMap.find?_update, if_pos rfl, ha, map_some]
  · rcases getNextHop_setNextHop n h.dst a sender f.m_ipv4Route with heq | heq
    · have hgateway : f.getNextHop (n.acceptUnchanged now sender h a).gateways h.dst = sender := heq
      rw [hgateway]
      exact down _ _ _ _ _ told newer
    · have hgateway : f.getNextHop (n.acceptUnchanged now sender h a).gateways h.dst =
        f.getNextHop n.gateways h.dst :=
        heq
      rw [hgateway]
      exact ok.route f hf
  · have hgateway : (updated now h a).getNextHop (n.acceptUnchanged now sender h a).gateways h.dst =
      sender :=
      getNextHop_setNextHop_self
    rwa [hgateway]

theorem RouteOk.discardSame (ok : RouteOk Told Said n h.dst)
    (hf : n.m_routingTable.find? h.dst = some f)
    (ha : n.m_advRoutingTable.find? h.dst = some a) (even : a.m_seqNo % 2 = 0) :
    RouteOk Told Said (n.discardSame now sender h a) h.dst := by
  rw [RoutingProtocol.discardSame]
  split_ifs
  · exact ok
  · have hfwd : (n.m_routingTable.update h.dst { a with m_lifeTime := now }).find? h.dst =
        some { a with m_lifeTime := now } := by
      rw [OrderedMap.find?_update, if_pos rfl, hf, map_some]
    have hadv : (n.m_advRoutingTable.erase h.dst).find? h.dst = none := by
      rw [OrderedMap.find?_erase, if_pos rfl]
    refine ⟨fun f' hf' => ?_, fun a' ha' => ?_, fun f' a' _ ha' => ?_, fun f' hf' => ?_⟩
    · rw [hfwd] at hf'
      cases hf'
      exact ok.advertised a ha even
    · rw [hadv] at ha'
      cases ha'
    · rw [hadv] at ha'
      cases ha'
    · rw [hfwd] at hf'
      cases hf'
      exact fun s k hs => (ok.ahead f a hf ha).fresher (ok.said f hf s k hs)
  · exact ok.eraseAdv _

def FreshRoute (c : Config) (told : List Packet) (n : RoutingProtocol) (h : DsdvHeader) : Prop :=
  c.isLocal h.dst ∨ (n.m_routingTable.find? h.dst).isSome ∨ h.dstSeqno % 2 = 1 ∨
    (∀ p ∈ told, ∀ h' ∈ p.headers, h'.dst = h.dst → h'.dstSeqno % 2 = 0 →
      Fresher h.dstSeqno h.hopCount h'.dstSeqno h'.hopCount) ∧
    ∀ a ∈ n.m_advRoutingTable.find? h.dst, AsFresh a.m_seqNo a.m_hops h.dstSeqno h.hopCount
deriving Decidable

theorem RouteOk.newRoute (node : NodeOk T y Good own n) (ok : RouteOk Told Said n h.dst)
    (hf : n.m_routingTable.find? h.dst = none) (told : Told sender h.dstSeqno h.hopCount)
    (said : ∀ s k, Said s k → Fresher h.dstSeqno h.hopCount s k)
    (ahead : ∀ a ∈ n.m_advRoutingTable.find? h.dst,
      AsFresh a.m_seqNo a.m_hops h.dstSeqno h.hopCount) :
    RouteOk Told Said (n.newRoute now sender h) h.dst := by
  have hfwd : (n.newRoute now sender h).m_routingTable.find? h.dst =
      some (.create n.created h.dstSeqno h.hopCount now true) := by
    rw [RoutingProtocol.newRoute, OrderedMap.find?_add, if_pos rfl, hf, getD_none]
  have hop : Told ((RoutingTableEntry.create n.created h.dstSeqno h.hopCount now true).getNextHop
      (n.newRoute now sender h).gateways h.dst) h.dstSeqno h.hopCount := by
    have hgateway : (RoutingTableEntry.create n.created h.dstSeqno h.hopCount now true).getNextHop
        (n.newRoute now sender h).gateways h.dst = sender := by
      change (n.createRoute h.dst sender).gateways h.dst n.created = sender
      rw [createRoute_gateways, update_self, update_self]
    rwa [hgateway]
  cases ha : n.m_advRoutingTable.find? h.dst with
  | none =>
    refine routeOk_of_found hfwd (a := .create n.created h.dstSeqno h.hopCount now true) ?_ hop
      (fun _ => hop) (AsFresh.refl _ _) said
    rw [RoutingProtocol.newRoute, OrderedMap.find?_add, if_pos rfl, ha, getD_none]
  | some a =>
    -- what was advertised before keeps its own route object
    refine routeOk_of_found hfwd (a := a) ?_ hop (fun even => ?_) (ahead a ha) said
    · rw [RoutingProtocol.newRoute, OrderedMap.find?_add, if_pos rfl, ha, getD_some]
    · have hgateway : a.getNextHop (n.newRoute now sender h).gateways h.dst =
          a.getNextHop n.gateways h.dst := by
        change (n.createRoute h.dst sender).gateways h.dst a.m_ipv4Route =
          n.gateways h.dst a.m_ipv4Route
        rw [createRoute_gateways, update_self,
          update_of_ne (Nat.ne_of_lt (node.adv_created _ _ ha))]
      rw [hgateway]
      exact ok.advertised a ha even

variable {e : Ipv4Address × RoutingTableEntry}

theorem RouteOk.loseRoute (ok : RouteOk Told Said n d)
    (even : e.2.m_seqNo % 2 = 0) : RouteOk Told Said (n.loseRoute e) d := by
  by_cases hd : d = e.1
  · subst hd
    refine routeOk_of_lost ?_ fun a ha heven => ?_
    · rw [RoutingProtocol.loseRoute, OrderedMap.find?_erase, if_pos rfl]
    · rw [RoutingProtocol.loseRoute, OrderedMap.find?_add, if_pos rfl] at ha
      cases hadv : n.m_advRoutingTable.find? e.1 with
      | none =>
        rw [hadv] at ha
        cases ha
        change (e.2.m_seqNo + 1) % 2 = 0 at heven
        omega
      | some a' =>
        rw [hadv] at ha
        cases ha
        exact ok.advertised _ hadv heven
  · refine ok.congr ?_ ?_ rfl
    · rw [RoutingProtocol.loseRoute, OrderedMap.find?_erase, if_neg hd]
    · rw [RoutingProtocol.loseRoute, OrderedMap.find?_add, if_neg hd]

theorem RouteOk.loseDestination (node : NodeOk T y Good own n) (ok : RouteOk Told Said n d)
    (far : Foreign T y h.dst)
    (odd : h.dstSeqno % 2 = 1) : RouteOk Told Said (n.loseDestination h a) d := by
  have lost : RouteOk Told Said
      { n with
        m_routingTable := n.m_routingTable.erase h.dst
        m_advRoutingTable := n.m_advRoutingTable.update h.dst
          { a with m_seqNo := h.dstSeqno, m_entriesChanged := true } } d := by
    by_cases hd : d = h.dst
    · subst hd
      refine routeOk_of_lost ?_ fun a' ha' heven => ?_
      · rw [OrderedMap.find?_erase, if_pos rfl]
      · rw [OrderedMap.find?_update, if_pos rfl] at ha'
        obtain ⟨b, -, rfl⟩ := map_eq_some_iff.mp ha'
        change h.dstSeqno % 2 = 0 at heven
        omega
    · refine ok.congr ?_ ?_ rfl
      · rw [OrderedMap.find?_erase, if_neg hd]
      · rw [OrderedMap.find?_update, if_neg hd]
  refine foldlRecOn (motive := fun n' => RouteOk Told Said n' d) _ _ lost fun n' hn' e he =>
    hn'.loseRoute ?_
  have hfind := OrderedMap.find?_eq_some.mpr he
  rw [RoutingTable.getListOfDestinationWithNextHop, OrderedMap.find?_filter,
    filter_eq_some_iff] at hfind
  refine ((node.fwd _ _ hfind.1).resolve_left fun zero => ?_).2
  have heq : e.1 = h.dst := zero.2.2.symm.trans (of_decide_eq_true hfind.2)
  exact zero.not_foreign (heq ▸ far)

theorem RouteOk.recvHeader (down : ∀ g s k s' k', Told g s k → AsFresh s k s' k' → Told g s' k')
    (node : NodeOk T y Good own n) (ok : RouteOk Told Said n d) (genuine : Genuine T Good h)
    (told : d = h.dst → h.dstSeqno % 2 = 0 → Told sender h.dstSeqno h.hopCount)
    {packets : List Packet}
    (said : ∀ s k, Said s k → ∃ p ∈ packets, ∃ h' ∈ p.headers, h'.dst = d ∧ h'.dstSeqno % 2 = 0 ∧
      h'.dstSeqno = s ∧ h'.hopCount = k) (fresh : FreshRoute (T.config y) packets n h) :
    RouteOk Told Said (n.recvHeader (T.config y) now sender h) d := by
  rw [RoutingProtocol.recvHeader]
  by_cases hlocal : (T.config y).isLocal h.dst
  · rwa [if_pos hlocal]
  · have far := genuine.foreign hlocal
    rw [if_neg hlocal]
    cases hf : n.m_routingTable.find? h.dst with
    | none =>
      dsimp only
      split_ifs with even
      · by_cases hd : d = h.dst
        · subst hd
          have fresh := fresh.resolve_left hlocal
          rw [hf] at fresh
          obtain ⟨hsaid, hahead⟩ := (fresh.resolve_left (by simp)).resolve_left (by omega)
          refine ok.newRoute node hf (told rfl (by omega)) (fun s k hs => ?_) hahead
          obtain ⟨p, hp, h', hh', hdst, heven, rfl, rfl⟩ := said s k hs
          exact hsaid p hp h' hh' hdst heven
        · refine ok.congr ?_ ?_ (update_of_ne hd ..)
          · rw [RoutingProtocol.newRoute, OrderedMap.find?_add, if_neg hd]
          · rw [RoutingProtocol.newRoute, OrderedMap.find?_add, if_neg hd]
      · exact ok
    | some f =>
      dsimp only
      have learned := node.learned far hf
      have node' :
        NodeOk T y Good own { n with m_advRoutingTable := n.m_advRoutingTable.add h.dst f } :=
        { node with
          adv := node.adv.add learned.1
          adv_created := node.adv_created.add (node.fwd_created _ _ hf) }
      have ha : (n.m_advRoutingTable.add h.dst f).find? h.dst = some (n.advEntry h.dst f) := by
        rw [OrderedMap.find?_add, if_pos rfl]
        rfl
      by_cases hd : d = h.dst
      · subst hd
        have ok' := ok.add hf
        rw [recvUpdate]
        split_ifs with even newer changed same better hop
        · exact ok'.acceptAndWait hf ha (told rfl (by omega)) (.inl newer)
        · exact ok'.acceptUnchanged down hf ha (told rfl (by omega)) (.inl newer)
        · exact ok'.acceptAndWait hf ha (told rfl (by omega))
            (.inr ⟨same.symm, Nat.le_of_lt better⟩)
        · exact ok'.discardSame hf ha (by omega)
        · exact ok'.discard h.dst
        · exact ok'.loseDestination node' far (by omega)
        · exact ok'.discard h.dst
      · have ok' : RouteOk Told Said { n with
          m_advRoutingTable := n.m_advRoutingTable.add h.dst f } d :=
          ok.congr rfl (by rw [OrderedMap.find?_add, if_neg hd]) rfl
        rw [recvUpdate]
        split_ifs with even newer changed same better hop
        · refine ok'.congr ?_ ?_ (update_of_ne hd ..) <;>
            rw [RoutingProtocol.acceptAndWait, OrderedMap.find?_update, if_neg hd]
        · refine ok'.congr rfl ?_ (update_of_ne hd ..)
          rw [RoutingProtocol.acceptUnchanged, OrderedMap.find?_update, if_neg hd]
        · refine ok'.congr ?_ ?_ (update_of_ne hd ..) <;>
            rw [RoutingProtocol.acceptAndWait, OrderedMap.find?_update, if_neg hd]
        · rw [RoutingProtocol.discardSame]
          split_ifs
          · exact ok'
          · refine ok'.congr ?_ ?_ rfl
            · rw [OrderedMap.find?_update, if_neg hd]
            · rw [OrderedMap.find?_erase, if_neg hd]
          · exact ok'.eraseAdv _
        · exact ok'.discard h.dst
        · exact ok'.loseDestination node' far (by omega)
        · exact ok'.discard h.dst

/-! ### Sending -/

def Saying (Said : ℕ → ℕ → Prop) (d : Ipv4Address) (hs : List DsdvHeader) (s k : ℕ) : Prop :=
  Said s k ∨ ∃ h ∈ hs, h.dst = d ∧ h.dstSeqno % 2 = 0 ∧ h.dstSeqno = s ∧ h.hopCount = k

theorem RouteOk.subset {hs hs' : List DsdvHeader} (ok : RouteOk Told (Saying Said d hs) n d)
    (sub : ∀ h ∈ hs', h.dst = d → h.dstSeqno % 2 = 0 → h ∈ hs) :
      RouteOk Told (Saying Said d hs') n d := by
  refine ok.mono (fun _ _ _ => id) fun _ _ _ _ hsaid => .inl <| hsaid.imp_right ?_
  rintro ⟨h, hh, hdst, heven, hrest⟩
  exact ⟨h, sub h hh hdst heven, hdst, heven, hrest⟩

theorem RouteOk.say {hs : List DsdvHeader} (ok : RouteOk Told (Saying Said d hs) n d)
    (older : h.dst = d → h.dstSeqno % 2 = 0 → ∀ f, n.m_routingTable.find? d = some f →
      Fresher f.m_seqNo f.m_hops h.dstSeqno h.hopCount) :
        RouteOk Told (Saying Said d (h :: hs)) n d := by
  refine ok.mono (fun _ _ _ => id) fun f hf s k hsaid => ?_
  rcases hsaid with hsaid | ⟨h', hh', hdst, heven, rfl, rfl⟩
  · exact .inl (.inl hsaid)
  · rcases mem_cons.mp hh' with rfl | hh'
    · exact .inr (older hdst heven f hf)
    · exact .inl (.inr ⟨h', hh', hdst, heven, rfl, rfl⟩)

theorem RouteOk.merge (ok : RouteOk Told Said n d)
    (ahead : e.1 = d → ∀ f, n.m_routingTable.find? d = some f →
      AsFresh e.2.m_seqNo e.2.m_hops f.m_seqNo f.m_hops)
    (told : e.1 = d → e.2.m_seqNo % 2 = 0 →
      Told (e.2.getNextHop n.gateways d) e.2.m_seqNo e.2.m_hops)
    (hgateways : n'.gateways = n.gateways) (hfwd : n'.m_routingTable = if e.2.m_seqNo % 2 = 0 then
      n.m_routingTable.update e.1 { e.2 with m_flag := .valid, m_entriesChanged := false }
        else n.m_routingTable)
    (hadv : n'.m_advRoutingTable = n.m_advRoutingTable.erase e.1) : RouteOk Told Said n' d := by
  by_cases hd : e.1 = d
  · subst hd
    have hnone : n'.m_advRoutingTable.find? e.1 = none := by
      rw [hadv, OrderedMap.find?_erase, if_pos rfl]
    by_cases even : e.2.m_seqNo % 2 = 0
    · rw [if_pos even] at hfwd
      have hcases : ∀ f', n'.m_routingTable.find? e.1 = some f' →
          f' = { e.2 with m_flag := .valid, m_entriesChanged := false } ∧
            ∃ f, n.m_routingTable.find? e.1 = some f := by
        intro f' hf'
        rw [hfwd, OrderedMap.find?_update, if_pos rfl] at hf'
        obtain ⟨f, hf, rfl⟩ := map_eq_some_iff.mp hf'
        exact ⟨rfl, f, hf⟩
      refine ⟨fun f' hf' => ?_, fun a ha => ?_, fun f' a _ ha => ?_, fun f' hf' s k hs => ?_⟩
      · obtain ⟨rfl, -⟩ := hcases f' hf'
        rw [RoutingTableEntry.getNextHop, hgateways]
        exact told rfl even
      · rw [hnone] at ha
        cases ha
      · rw [hnone] at ha
        cases ha
      · obtain ⟨rfl, f, hf⟩ := hcases f' hf'
        exact (ahead rfl f hf).fresher (ok.said f hf s k hs)
    · rw [if_neg even] at hfwd
      refine ⟨fun f hf => ?_, fun a ha => ?_, fun f a _ ha => ?_, fun f hf => ?_⟩
      · rw [RoutingTableEntry.getNextHop, hgateways]
        exact ok.route f (hfwd ▸ hf)
      · rw [hnone] at ha
        cases ha
      · rw [hnone] at ha
        cases ha
      · exact ok.said f (hfwd ▸ hf)
  · refine ok.congr ?_ ?_ (by rw [hgateways])
    · rw [hfwd]
      split_ifs
      · rw [OrderedMap.find?_update, if_neg (Ne.symm hd)]
      · rfl
    · rw [hadv, OrderedMap.find?_erase, if_neg (Ne.symm hd)]

structure Merging (Told : Ipv4Address → ℕ → ℕ → Prop) (Said : ℕ → ℕ → Prop) (n₀ n : RoutingProtocol)
    (d : Ipv4Address) : Prop where
  ok : RouteOk Told Said n d
  gateways : n.gateways = n₀.gateways
  ahead : ∀ a, n₀.m_advRoutingTable.find? d = some a → ∀ f, n.m_routingTable.find? d = some f →
    AsFresh a.m_seqNo a.m_hops f.m_seqNo f.m_hops

theorem RouteOk.merging (ok : RouteOk Told Said n d) : Merging Told Said n n d :=
  ⟨ok, rfl, fun a ha f hf => ok.ahead f a hf ha⟩

theorem Merging.merge {n₀ : RoutingProtocol} (m : Merging Told Said n₀ n d)
    (start : RouteOk Told (fun _ _ => False) n₀ d)
    (he : e ∈ n₀.m_advRoutingTable.getListOfAllRoutes) (hgateways : n'.gateways = n.gateways)
    (hfwd : n'.m_routingTable = if e.2.m_seqNo % 2 = 0 then
      n.m_routingTable.update e.1 { e.2 with m_flag := .valid, m_entriesChanged := false }
        else n.m_routingTable)
    (hadv : n'.m_advRoutingTable = n.m_advRoutingTable.erase e.1) : Merging Told Said n₀ n' d := by
  have hfind := (mem_getListOfAllRoutes.mp he).1
  refine ⟨m.ok.merge (fun hd => ?_) (fun hd even => ?_) hgateways hfwd hadv,
    hgateways.trans m.gateways, fun a ha f' hf' => ?_⟩
  · exact m.ahead _ (hd ▸ hfind)
  · rw [m.gateways]
    exact start.advertised _ (hd ▸ hfind) even
  · rw [hfwd] at hf'
    split_ifs at hf' with even
    · rw [OrderedMap.find?_update] at hf'
      split_ifs at hf' with hd
      · subst hd
        rw [hfind] at ha
        cases ha
        obtain ⟨f, -, rfl⟩ := map_eq_some_iff.mp hf'
        exact AsFresh.refl _ _
      · exact m.ahead a ha f' hf'
    · exact m.ahead a ha f' hf'

theorem RouteOk.unsaid (ok : RouteOk Told Said n d) : RouteOk Told (fun _ _ => False) n d :=
  ok.mono (fun _ _ _ => id) fun _ _ _ _ => False.elim

theorem RouteOk.mergeTriggerPeriodicUpdates (ok : RouteOk Told Said n d) :
    RouteOk Told Said n.mergeTriggerPeriodicUpdates d := by
  refine (foldlRecOn (motive := fun n' => Merging Told Said n n' d) _ _ ok.merging fun n' hn' e
    he => ?_).ok
  by_cases hready : e.2.m_entriesChanged ∧ !n'.anyRunningEvent e.1
  · rw [mergeRoute, if_pos hready]
    exact hn'.merge ok.unsaid he rfl rfl rfl
  · rw [mergeRoute, if_neg hready]
    exact hn'

theorem Foreign.ne_address (far : Foreign T y d) : T.address y ≠ d := by
  obtain ⟨z, hz, rfl⟩ := far
  exact fun heq =>
    hz (T.local_unique y z _ (T.config y).mainAddress_mem _ (T.config z).mainAddress_mem heq).symm

theorem RouteOk.sendTriggeredUpdate (ok : RouteOk Told Said n d) (far : Foreign T y d) :
    RouteOk Told (Saying Said d ((n.sendTriggeredUpdate (T.config y)).2.flatMap (·.headers)))
      (n.sendTriggeredUpdate (T.config y)).1 d := by
  have start : Merging Told (Saying Said d []) n n d :=
    (ok.mono (fun _ _ _ => id) fun _ _ _ _ hsaid => .inl (hsaid.resolve_right (by simp))).merging
  refine (foldlRecOn (motive := fun s : RoutingProtocol × List Packet =>
    Merging Told (Saying Said d (s.2.flatMap (·.headers))) n s.1 d) _ _ (b :=
      (n, [])) start fun s hs iface _ => ?_).ok
  have sent := foldlRecOn (motive := fun r : RoutingProtocol × List DsdvHeader =>
    Merging Told (Saying Said d (r.2 ++ s.2.flatMap (·.headers))) n r.1 d)
      n.m_advRoutingTable.getListOfAllRoutes
    triggerRoute (b := (s.1, [])) hs fun r hr e he => by
      by_cases hready : e.2.m_entriesChanged ∧ !r.1.anyRunningEvent e.1
      · rw [triggerRoute, if_pos hready]
        have merged : Merging Told (Saying Said d (r.2 ++ s.2.flatMap (·.headers))) n
            { r.1 with
              m_ipv4Events := r.1.deleteIpv4Event e.1
              m_routingTable := if e.2.m_seqNo % 2 = 0 then
                r.1.m_routingTable.update e.1 { e.2 with
                  m_flag := .valid, m_entriesChanged := false }
              else r.1.m_routingTable
              m_advRoutingTable := r.1.m_advRoutingTable.erase e.1 } d :=
          hr.merge ok.unsaid he rfl rfl rfl
        refine { merged with ok := merged.ok.say fun hd even f hf => ?_ }
        change (if e.2.m_seqNo % 2 = 0 then _ else _ : RoutingTable).find? d = some f at hf
        rw [if_pos even, OrderedMap.find?_update, if_pos hd.symm] at hf
        obtain ⟨_, -, rfl⟩ := map_eq_some_iff.mp hf
        exact Fresher.next _ _
      · rw [triggerRoute, if_neg hready]
        exact hr
  rw [triggerOver]
  dsimp only
  split_ifs with hempty
  · rw [hempty] at sent
    exact sent
  · refine { sent with ok := sent.ok.subset fun h hh hdst _ => ?_ }
    rw [flatMap_append, flatMap_singleton] at hh
    rcases mem_append.mp hh with hh | hh
    · exact mem_append_right _ hh
    · rcases mem_cons.mp hh with rfl | hh
      · exact absurd hdst far.ne_address
      · exact mem_append_left _ hh

theorem RouteOk.setOwnSeqNo (node : NodeOk T y Good own n) (ok : RouteOk Told Said n d)
    (far : Foreign T y d)
    (seqNo : ℕ) : RouteOk Told Said (n.setOwnSeqNo (T.config y) now seqNo) d := by
  have gateway : ∀ object, object < n.created →
      (n.createRoute unsetAddress unsetAddress).gateways d object = n.gateways d object := by
    intro object hlt
    rw [createRoute_gateways]
    by_cases hd : d = unsetAddress
    · rw [hd, update_self, update_of_ne (Nat.ne_of_lt hlt)]
    · rw [update_of_ne hd]
  have hfwd : (n.setOwnSeqNo (T.config y) now seqNo).m_routingTable.find? d =
      n.m_routingTable.find? d := by
    rw [fwd_setOwnSeqNo (isSome_of_mem node.own), if_neg far.ne_own.symm]
  have hgateways : (n.setOwnSeqNo (T.config y) now seqNo).gateways =
      (n.createRoute unsetAddress unsetAddress).gateways := by
    rw [RoutingProtocol.setOwnSeqNo, node.own]
  refine ⟨fun f hf => ?_, fun a ha even => ?_, fun f a hf ha => ?_, fun f hf =>
    ok.said f (hfwd ▸ hf)⟩
  · rw [hfwd] at hf
    rw [RoutingTableEntry.getNextHop, hgateways, gateway _ (node.fwd_created _ _ hf)]
    exact ok.route f hf
  · rw [adv_setOwnSeqNo] at ha
    rw [RoutingTableEntry.getNextHop, hgateways, gateway _ (node.adv_created _ _ ha)]
    exact ok.advertised a ha even
  · exact ok.ahead f a (hfwd ▸ hf) (adv_setOwnSeqNo (n := n) seqNo ▸ ha)

theorem RouteOk.sendAll (node : NodeOk T y Good own n) (ok : RouteOk Told Said n d)
    (far : Foreign T y d) {removed : List (Ipv4Address × RoutingTableEntry)}
    (hremoved : ∀ e ∈ removed, e.2.m_seqNo % 2 = 0) (ifaces : List Ipv4InterfaceAddress) :
    RouteOk Told (Saying Said d
      ((ifaces.foldl (periodicOver (T.config y) now n.m_routingTable.getListOfAllRoutes removed)
        (n, [])).2.flatMap (·.headers)))
      (ifaces.foldl (periodicOver (T.config y) now n.m_routingTable.getListOfAllRoutes removed)
        (n, [])).1 d := by
  have start : RouteOk Told (Saying Said d []) n d :=
    ok.mono (fun _ _ _ => id) fun _ _ _ _ hsaid => .inl (hsaid.resolve_right (by simp))
  refine (foldlRecOn (motive := fun s : RoutingProtocol × List Packet =>
    RouteOk Told (Saying Said d (s.2.flatMap (·.headers))) s.1 d ∧
      (∃ own', NodeOk T y Good own' s.1) ∧
      s.1.m_routingTable.find? d = n.m_routingTable.find? d) _ _ (b :=
        (n, [])) ⟨start, ⟨own, node⟩, rfl⟩
    fun s hs iface _ => ?_).1
  have sent := foldlRecOn (motive := fun r : RoutingProtocol × List DsdvHeader =>
    RouteOk Told (Saying Said d (r.2 ++ s.2.flatMap (·.headers))) r.1 d ∧
      (∃ own', NodeOk T y Good own' r.1) ∧
      r.1.m_routingTable.find? d = n.m_routingTable.find? d) n.m_routingTable.getListOfAllRoutes
    (periodicRoute (T.config y) now) (b := (s.1, [])) hs fun r hr e he => by
      obtain ⟨hok, ⟨own', hnode⟩, hsame⟩ := hr
      have hfind := (mem_getListOfAllRoutes.mp he).1
      rw [periodicRoute]
      split_ifs with hhops
      · refine ⟨(hok.setOwnSeqNo hnode far _).say fun hd =>
          absurd hd far.ne_address, ⟨_, hnode.setOwnSeqNo _⟩, ?_⟩
        rw [fwd_setOwnSeqNo (isSome_of_mem hnode.own), if_neg far.ne_own.symm]
        exact hsame
      · refine ⟨hok.say fun hd _ f hf => ?_, ⟨own', hnode⟩, hsame⟩
        have hd : e.1 = d := hd
        rw [hsame, ← hd, hfind] at hf
        cases hf
        exact Fresher.next _ _
  rw [periodicOver]
  refine ⟨sent.1.subset fun h hh _ heven => ?_, sent.2⟩
  rw [flatMap_append, flatMap_singleton] at hh
  rcases mem_append.mp hh with hh | hh
  · exact mem_append_right _ hh
  · rcases mem_append.mp hh with hh | hh
    · obtain ⟨e, he, rfl⟩ := mem_map.mp (mem_reverse.mp hh)
      have even := hremoved e he
      change (e.2.m_seqNo + 1) % 2 = 0 at heven
      omega
    · exact mem_append_left _ hh

theorem RouteOk.sendPeriodicUpdate (node : NodeOk T y Good own n) (ok : RouteOk Told Said n d)
    (far : Foreign T y d) :
    RouteOk Told (Saying Said d ((n.sendPeriodicUpdate (T.config y) now).2.flatMap (·.headers)))
      (n.sendPeriodicUpdate (T.config y) now).1 d := by
  obtain ⟨hsub, hentry, hremoved⟩ := node.purge now (T.config y).m_holddownTime
  have purged : NodeOk T y Good own
      { n with m_routingTable := (n.m_routingTable.purge n.gateways now
        (T.config y).m_holddownTime).1 } :=
    ⟨fun d rt hrt => node.fwd d rt (hsub d rt hrt), node.adv, fun d rt hrt =>
      node.fwd_created d rt (hsub d rt hrt), node.adv_created, hentry⟩
  have ok' : RouteOk Told Said
      { n with m_routingTable := (n.m_routingTable.purge n.gateways now
        (T.config y).m_holddownTime).1 } d :=
    ⟨fun f hf => ok.route f (hsub d f hf), ok.advertised, fun f a hf ha =>
      ok.ahead f a (hsub d f hf) ha,
      fun f hf => ok.said f (hsub d f hf)⟩
  have merged := ok'.mergeTriggerPeriodicUpdates
  rw [RoutingProtocol.sendPeriodicUpdate]
  split_ifs
  · exact merged.mono (fun _ _ _ => id) fun _ _ _ _ hsaid => .inl (hsaid.resolve_right (by simp))
  · exact merged.sendAll purged.mergeTriggerPeriodicUpdates far
      (fun e he => (hremoved _ _ (OrderedMap.find?_eq_some.mpr he)).2) _

theorem RouteOk.recvHeaders {hs : List DsdvHeader}
    (down : ∀ g s k s' k', Told g s k → AsFresh s k s' k' → Told g s' k')
    (node : NodeOk T y Good own n) (ok : RouteOk Told Said n d)
    (genuine : ∀ h ∈ hs, Genuine T Good h)
    (told : ∀ h ∈ hs, d = h.dst → h.dstSeqno % 2 = 0 → Told sender h.dstSeqno h.hopCount)
    {packets : List Packet}
    (said : ∀ s k, Said s k → ∃ p ∈ packets, ∃ h' ∈ p.headers, h'.dst = d ∧ h'.dstSeqno % 2 = 0 ∧
      h'.dstSeqno = s ∧ h'.hopCount = k)
    (fresh : n.EveryHeader (T.config y) now sender (FreshRoute (T.config y) packets) hs) :
    RouteOk Told Said (hs.foldl (fun n h => n.recvHeader (T.config y) now sender h) n) d := by
  induction hs generalizing n with
  | nil => exact ok
  | cons h hs ih =>
    have first := genuine h mem_cons_self
    exact ih (node.recvHeader first)
      (ok.recvHeader down node first (told h mem_cons_self) said fresh.1)
      (fun h' hh' => genuine h' (mem_cons_of_mem _ hh'))
        (fun h' hh' => told h' (mem_cons_of_mem _ hh'))
      fresh.2

theorem source_sendTriggeredUpdate : ∀ p ∈
    (n.sendTriggeredUpdate c).2, ∃ i ∈ c.m_socketAddresses, p.source = i.m_local := by
  refine foldlRecOn (motive := fun s : RoutingProtocol × List Packet =>
    ∀ p ∈ s.2, ∃ i ∈ c.m_socketAddresses, p.source = i.m_local) _ _ (by simp)
      fun s hs iface hi => ?_
  rw [triggerOver]
  dsimp only
  split_ifs
  · exact hs
  · exact forall_mem_append.mpr ⟨hs, forall_mem_singleton.mpr ⟨iface, hi, rfl⟩⟩

theorem source_sendPeriodicUpdate :
    ∀ p ∈ (n.sendPeriodicUpdate c now).2, ∃ i ∈ c.m_socketAddresses, p.source = i.m_local := by
  rw [RoutingProtocol.sendPeriodicUpdate]
  split_ifs
  · simp
  · refine foldlRecOn (motive := fun s : RoutingProtocol × List Packet =>
      ∀ p ∈ s.2, ∃ i ∈ c.m_socketAddresses, p.source = i.m_local) _ _ (by simp)
        fun s hs iface hi => ?_
    exact forall_mem_append.mpr ⟨hs, forall_mem_singleton.mpr ⟨iface, hi, rfl⟩⟩

end Node

/-! ## The network -/

section Network

variable {ι : Type} {T : Topology ι} {N N' : Network ι} {x y : ι} {d g : Ipv4Address} {s k : ℕ}

def ToldBy (N : Network ι) (d g : Ipv4Address) (s k : ℕ) : Prop :=
  ∃ z, ∃ p ∈ N.sent z, p.source = g ∧ ∃ h ∈ p.headers, h.dst = d ∧ h.dstSeqno % 2 = 0 ∧
    AsFresh h.dstSeqno h.hopCount s k

def SaidBy (N : Network ι) (y : ι) (d : Ipv4Address) (s k : ℕ) : Prop :=
  ∃ p ∈ N.sent y, ∃ h ∈ p.headers, h.dst = d ∧ h.dstSeqno % 2 = 0 ∧ h.dstSeqno = s ∧ h.hopCount = k

/-- The node forwards for the destination over the other one. -/
def Leads (T : Topology ι) (N : Network ι) (d : Ipv4Address) (x y : ι) : Prop :=
  ¬(T.config x).isLocal d ∧ ∃ f ∈ (N.node x).m_routingTable.find? d,
    ∃ i ∈ (T.config y).m_socketAddresses, f.getNextHop (N.node x).gateways d = i.m_local
deriving Decidable

def LoopFree (T : Topology ι) (N : Network ι) : Prop := ∀ d x, ¬Relation.TransGen (Leads T N d) x x

structure NetworkRoutesOk (T : Topology ι) (N : Network ι) : Prop where
  network : ∃ own, NetworkOk T (fun _ _ => True) own N
  source : ∀ z, ∀ p ∈ N.sent z, ∃ i ∈ (T.config z).m_socketAddresses, p.source = i.m_local
  routes : ∀ y d, Foreign T y d → RouteOk (ToldBy N d) (SaidBy N y d) (N.node y) d

theorem ToldBy.down {s' k' : ℕ} (told : ToldBy N d g s k) (fresh : AsFresh s k s' k') :
    ToldBy N d g s' k' := by
  obtain ⟨z, p, hp, hg, h, hh, hdst, heven, hfresh⟩ := told
  exact ⟨z, p, hp, hg, h, hh, hdst, heven, hfresh.trans fresh⟩

theorem NetworkRoutesOk.leads (ok : NetworkRoutesOk T N) (leads : Leads T N d x y) :
    ∃ f, (N.node x).m_routingTable.find? d = some f ∧ ∀ f',
    (N.node y).m_routingTable.find? d = some f' →
      ¬(T.config y).isLocal d → Fresher f'.m_seqNo f'.m_hops f.m_seqNo f.m_hops := by
  obtain ⟨away, f, hf, i, hi, hgateway⟩ := leads
  obtain ⟨own, network⟩ := ok.network
  refine ⟨f, hf, fun f' hf' away' => ?_⟩
  have far : Foreign T x d := by
    rcases (network.node x).fwd d f hf with zero | learned
    · -- the broadcast address of the node is no address of another one
      have heq : d = i.m_local := zero.2.2.symm.trans hgateway
      rcases zero.1 with hd | ⟨j, hj, hd⟩
      · exact absurd (heq.symm.trans hd) (T.local_ne_loopback y i hi)
      · have hxy : x = y := T.broadcast_unique x y j hj i hi (hd.symm.trans heq)
        subst hxy
        exact absurd (any_eq_true.mpr ⟨i, hi, decide_eq_true heq⟩) away
    · exact learned.1.1
  have far' : Foreign T y d := by
    obtain ⟨z, -, rfl⟩ := far
    refine ⟨z, fun hz => away' ?_, rfl⟩
    subst hz
    exact any_eq_true.mpr ⟨_, (T.config z).mainAddress_mem, decide_eq_true rfl⟩
  obtain ⟨z, p, hp, hsource, h, hh, hdst, heven, hfresh⟩ := (ok.routes x d far).route f hf
  obtain ⟨j, hj, hlocal⟩ := ok.source z p hp
  obtain rfl : z = y := T.local_unique z y j hj i hi (hlocal.symm.trans (hsource.trans hgateway))
  exact ((ok.routes z d far').said f' hf' _ _ ⟨p, hp, h, hh, hdst, heven, rfl, rfl⟩).of_asFresh
    hfresh

theorem NetworkRoutesOk.loopFree (ok : NetworkRoutesOk T N) : LoopFree T N := by
  have fresher : ∀ {d x y}, Relation.TransGen (Leads T N d) x y →
      ∃ f, (N.node x).m_routingTable.find? d = some f ∧ ∀ f', (N.node y).m_routingTable.find? d =
        some f' → ¬(T.config y).isLocal d → Fresher f'.m_seqNo f'.m_hops f.m_seqNo f.m_hops := by
    intro d x y path
    induction path with
    | single leads => exact ok.leads leads
    | tail _ leads ih =>
      obtain ⟨f, hf, hfresher⟩ := ih
      obtain ⟨f₁, hf₁, hfresher₁⟩ := ok.leads leads
      refine ⟨f, hf, fun f' hf' away => ?_⟩
      have hmiddle := hfresher f₁ hf₁ leads.1
      have hlast := hfresher₁ f' hf' away
      unfold Fresher at *
      omega
  intro d x cycle
  obtain ⟨f, hf, hfresher⟩ := fresher cycle
  have away : ¬(T.config x).isLocal d := by
    obtain ⟨_, leads, -⟩ := (Relation.TransGen.head'_iff.mp cycle)
    exact leads.1
  have hself := hfresher f hf away
  unfold Fresher at hself
  omega

variable [DecidableEq ι]

theorem mem_sent_performAt {e : Event} {p : Packet} (hp : p ∈ N.sent y) : p ∈
    (T.performAt N x e).sent y := by
  by_cases hy : y = x
  · subst hy
    rw [Topology.performAt_sent_self]
    exact mem_append_left _ hp
  · rwa [Topology.performAt_sent_of_ne hy]

theorem ToldBy.performAt {e : Event} (told : ToldBy N d g s k) :
    ToldBy (T.performAt N x e) d g s k := by
  obtain ⟨z, p, hp, hrest⟩ := told
  exact ⟨z, p, mem_sent_performAt hp, hrest⟩

theorem NetworkRoutesOk.performAt (ok : NetworkRoutesOk T N) {e : Event}
    (network : ∃ own, NetworkOk T (fun _ _ => True) own (T.performAt N x e))
    (source : ∀ p ∈ ((N.node x).perform (T.config x) N.now e).2, ∃ i ∈
      (T.config x).m_socketAddresses,
      p.source = i.m_local) (routes : ∀ d, Foreign T x d → RouteOk (ToldBy N d)
      (Saying (SaidBy N x d) d (((N.node x).perform (T.config x) N.now e).2.flatMap (·.headers)))
      ((N.node x).perform (T.config x) N.now e).1 d) :
    NetworkRoutesOk T (T.performAt N x e) where
  network := network
  source z p hp := by
    by_cases hz : z = x
    · subst hz
      rw [Topology.performAt_sent_self] at hp
      exact (mem_append.mp hp).elim (ok.source z p) (source p)
    · rw [Topology.performAt_sent_of_ne hz] at hp
      exact ok.source z p hp
  routes y d far := by
    by_cases hy : y = x
    · subst hy
      rw [Topology.performAt_node_self]
      refine (routes d far).mono (fun _ _ _ => ToldBy.performAt) fun _ _ s k hsaid => .inl ?_
      obtain ⟨p, hp, h, hh, hrest⟩ := hsaid
      rw [Topology.performAt_sent_self] at hp
      rcases mem_append.mp hp with hp | hp
      · exact .inl ⟨p, hp, h, hh, hrest⟩
      · exact .inr ⟨h, mem_flatMap.mpr ⟨p, hp, hh⟩, hrest⟩
    · rw [Topology.performAt_node_of_ne hy]
      refine (ok.routes y d far).mono (fun _ _ _ => ToldBy.performAt) fun _ _ s k hsaid => .inl ?_
      obtain ⟨p, hp, hrest⟩ := hsaid
      rw [Topology.performAt_sent_of_ne hy] at hp
      exact ⟨p, hp, hrest⟩

theorem NetworkRoutesOk.sendTriggeredUpdate (ok : NetworkRoutesOk T N) (x : ι) :
    NetworkRoutesOk T (T.performAt N x .sendTriggeredUpdate) := by
  obtain ⟨own, network⟩ := ok.network
  obtain ⟨node, sends⟩ := (network.node x).sendTriggeredUpdate
  exact ok.performAt ⟨_, network.performAt (e := .sendTriggeredUpdate) node sends (fun _ _ => id)
    fun _ _ _ _ _ => trivial⟩
    source_sendTriggeredUpdate fun d far => (ok.routes x d far).sendTriggeredUpdate far

theorem NetworkRoutesOk.settled (ok : NetworkRoutesOk T N) (x : ι) (dst : Ipv4Address) :
    NetworkRoutesOk T (T.performAt N x (.settled dst)) := by
  obtain ⟨own, network⟩ := ok.network
  by_cases hrunning : (N.node x).anyRunningEvent dst
  · have hperform : (N.node x).perform (T.config x) N.now (.settled dst) =
      RoutingProtocol.sendTriggeredUpdate (T.config x)
        { N.node x with m_ipv4Events := (N.node x).m_ipv4Events.set dst false } := if_pos hrunning
    have happened : NodeOk T x (fun _ _ => True) (own x)
        { N.node x with m_ipv4Events := (N.node x).m_ipv4Events.set dst false } :=
          { network.node x with }
    obtain ⟨node, sends⟩ := happened.sendTriggeredUpdate
    rw [← hperform] at node sends
    refine ok.performAt ⟨_, network.performAt node sends (fun _ _ => id) fun _ _ _ _ _ => trivial⟩
      ?_ fun d far => ?_
    · rw [hperform]
      exact source_sendTriggeredUpdate
    · have routes : RouteOk (ToldBy N d) (SaidBy N x d)
          { N.node x with m_ipv4Events := (N.node x).m_ipv4Events.set dst false } d :=
            { ok.routes x d far with }
      rw [hperform]
      exact routes.sendTriggeredUpdate far
  · have hperform : (N.node x).perform (T.config x) N.now (.settled dst) = (N.node x, []) :=
      if_neg hrunning
    have node : NodeOk T x (fun _ _ => True) (own x)
        ((N.node x).perform (T.config x) N.now (.settled dst)).1 := by
      rw [hperform]
      exact network.node x
    have sends : ∀ p ∈ ((N.node x).perform (T.config x) N.now (.settled dst)).2, ∀ h ∈ p.headers,
        Sends T x (fun _ _ => True) (fun _ => False) h := by simp [hperform]
    refine ok.performAt ⟨_, network.performAt node sends (fun _ _ => id) fun _ _ _ _ _ => trivial⟩
      ?_ fun d far => ?_
    · simp [hperform]
    · rw [hperform]
      exact (ok.routes x d far).mono (fun _ _ _ => id) fun _ _ _ _ hsaid =>
        .inl (hsaid.resolve_right (by simp))

theorem NetworkRoutesOk.sendPeriodicUpdate (ok : NetworkRoutesOk T N) (x : ι) :
    NetworkRoutesOk T (T.performAt N x .sendPeriodicUpdate) := by
  obtain ⟨own, network⟩ := ok.network
  have sent : Advanced T x (fun _ _ => True) (own x) (fun _ => True)
      ((N.node x).sendPeriodicUpdate (T.config x) N.now).1
      (((N.node x).sendPeriodicUpdate (T.config x) N.now).2.flatMap (·.headers)) :=
    (network.node x).sendPeriodicUpdate fun _ _ _ _ _ _ => trivial
  refine ok.performAt ?_ source_sendPeriodicUpdate fun d far =>
    (ok.routes x d far).sendPeriodicUpdate (network.node x) far
  rcases sent with ⟨node, sends⟩ | ⟨s, -, node, sends⟩ <;>
    exact ⟨_, network.performAt (e := .sendPeriodicUpdate) node
      (fun p hp h hh => sends h (mem_flatMap.mpr ⟨p, hp, hh⟩)) (fun _ _ => id)
        fun _ _ _ _ _ => trivial⟩

def FreshRoutes (T : Topology ι) (N : Network ι) : Action ι → Prop
  | .receive y z k => ∀ packet ∈ (N.sent z)[k]?,
      (N.node y).EveryHeader (T.config y) N.now packet.source
      (FreshRoute (T.config y) (N.sent y)) packet.headers
  | _ => True

theorem NetworkRoutesOk.recvDsdv (ok : NetworkRoutesOk T N) {z : ι} {packet : Packet}
    (hp : packet ∈ N.sent z) (fresh : (N.node y).EveryHeader (T.config y) N.now packet.source
      (FreshRoute (T.config y) (N.sent y))
      packet.headers) : NetworkRoutesOk T (T.performAt N y (.recvDsdv packet)) := by
  obtain ⟨own, network⟩ := ok.network
  have genuine := network.sent z packet hp
  have node : NodeOk T y (fun _ _ => True) (own y)
    ((N.node y).perform (T.config y) N.now (.recvDsdv packet)).1 :=
    (network.node y).recvDsdv genuine
  have sends : ∀ p ∈ ((N.node y).perform (T.config y) N.now (.recvDsdv packet)).2, ∀ h ∈ p.headers,
      Sends T y (fun _ _ => True) (fun _ => False) h := by simp [perform]
  refine ok.performAt ⟨_, network.performAt node sends (fun _ _ => id) fun _ _ _ _ _ => trivial⟩
    (by simp [perform]) fun d far => ?_
  have down : ∀ g s k s' k', ToldBy N d g s k → AsFresh s k s' k' → ToldBy N d g s' k' :=
    fun _ _ _ _ _ => ToldBy.down
  have said : ∀ s k, SaidBy N y d s k → ∃ p ∈ N.sent y, ∃ h' ∈ p.headers, h'.dst = d ∧
    h'.dstSeqno % 2 = 0 ∧
      h'.dstSeqno = s ∧ h'.hopCount = k := fun _ _ => id
  have received := (ok.routes y d far).recvHeaders down (network.node y) genuine
    (fun h hh hd even => ⟨z, packet, hp, rfl, h, hh, hd.symm, even, AsFresh.refl _ _⟩) said fresh
  exact received.mono (fun _ _ _ => id) fun _ _ _ _ hsaid =>
    .inl (hsaid.resolve_right (by simp [perform]))

theorem NetworkRoutesOk.step (ok : NetworkRoutesOk T N) {a : Action ι} (fresh : FreshRoutes T N a)
    (run : T.step N a = .ok N') : NetworkRoutesOk T N' := by
  cases a with
  | tick t =>
    cases run
    obtain ⟨own, network⟩ := ok.network
    exact ⟨⟨own, network.node, network.sent⟩, ok.source, ok.routes⟩
  | receive y z k =>
    rw [Topology.step] at run
    split at run
    · cases run
    · rename_i packet hpacket
      cases run
      have ok' := ok.recvDsdv (mem_of_getElem? hpacket) (fresh packet hpacket)
      obtain ⟨own, network⟩ := ok'.network
      exact ⟨⟨own, network.node, network.sent⟩, ok'.source, ok'.routes⟩
  | sendTriggeredUpdate x =>
    cases run
    exact ok.sendTriggeredUpdate x
  | sendPeriodicUpdate x =>
    cases run
    exact ok.sendPeriodicUpdate x
  | settled x dst =>
    cases run
    exact ok.settled x dst

omit [DecidableEq ι] in
theorem start_routesOk (T : Topology ι) : NetworkRoutesOk T T.start := by
  choose own hseq hok using fun y => start_ok T y fun _ _ => False
  have network : NetworkOk T (fun _ _ => True) own T.start :=
    ⟨fun y => (hok y).mono fun _ _ => False.elim, fun _ p hp => by cases hp⟩
  refine ⟨⟨own, network⟩, (fun _ p hp => by cases hp), fun y d far => ?_⟩
  have lost : ∀ rt, Learned T y (fun _ _ => False) d rt → rt.m_seqNo % 2 = 0 → False :=
    fun _ learned even =>
    learned.2.2 even
  refine routeOk_of_lost (eq_none_iff_forall_ne_some.mpr fun f hf => ?_) fun a ha even => ?_
  · have learned := (hok y).learned far hf
    exact lost f learned.1 learned.2
  · exact (lost a ((hok y).adv _ _ ha) even).elim

end Network

instance decidableFreshRoutes {ι : Type} (T : Topology ι) (N : Network ι) :
    DecidablePred (FreshRoutes T N)
  | .receive .. | .tick _ | .sendTriggeredUpdate _ | .sendPeriodicUpdate _ | .settled .. =>
    by unfold FreshRoutes; infer_instance

/-- No packet may close a loop, as long as no node takes up a route older than what it has told. -/
theorem dsdv_loopFree {ι : Type} [DecidableEq ι] (T : Topology ι) {as : List (Action ι)}
    (fresh : Along T.step (FreshRoutes T) T.start as) {N : Network ι}
    (run : exec T.step T.start as = .ok N) : LoopFree T N :=
  (exec_invariant (fun _ _ _ ok guard run => NetworkRoutesOk.step ok guard run) (start_routesOk T)
    fresh run).loopFree

def hearsay : List (Action (Fin 3)) :=
  [.sendPeriodicUpdate 0, .receive 1 0 0, .sendPeriodicUpdate 1, .receive 2 1 0, .tick 40000000000,
    .sendPeriodicUpdate 1, .receive 2 1 1, .sendTriggeredUpdate 2]

/-- Then the second node purges the route, which it does not hear of any more, and loses the update
that says so. -/
def takenBack : List (Action (Fin 3)) :=
  hearsay ++ [.tick 10000000000, .sendPeriodicUpdate 1, .sendPeriodicUpdate 2, .receive 1 2 1]

theorem dsdv_loopFree_hearsay : ∃ N, exec threeNodes.step threeNodes.start hearsay = .ok N ∧
    LoopFree threeNodes N := by
  have fresh : Along threeNodes.step (FreshRoutes threeNodes) threeNodes.start hearsay := by
    decide +kernel
  exact ⟨_, rfl, dsdv_loopFree threeNodes fresh rfl⟩

/-- The second node takes the route up again, from the third one, which has it from the second. -/
theorem purged_route_loops : ∃ N, exec threeNodes.step threeNodes.start takenBack = .ok N ∧
    Along threeNodes.step InOrder threeNodes.start takenBack ∧ ¬LoopFree threeNodes N := by
  refine ⟨_, rfl, by
    decide +kernel, fun loopFree => loopFree 0x0a010101 1 (.tail (.single (b := 2) ?_) ?_)⟩
  · decide +kernel
  · decide +kernel

end Egsr.Dsdv
