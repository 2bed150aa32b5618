import Egsr.Lib.Outcome
import Egsr.Dsdv.RoutingProtocol

/-! Nodes that run DSDV and hear of each other. A packet that was sent may come
in anywhere, at any time, in any order and more than once, or never. Whatever a
node knows of a destination goes back to a number that the destination gave out. -/

namespace Egsr.Dsdv

open List Function

open Lib (OrderedMap)
open Lib.Outcome Lib.Run RoutingProtocol

/-- The nodes and their interfaces. No two have an address in common, and the broadcast address of
one is no address of another. -/
structure Topology (ι : Type) where
  config : ι → Config
  local_ne_loopback : ∀ x, ∀ i ∈ (config x).m_socketAddresses, i.m_local ≠ loopback
  local_unique : ∀ x y, ∀ i ∈ (config x).m_socketAddresses, ∀ j ∈ (config y).m_socketAddresses,
    i.m_local = j.m_local → x = y
  broadcast_unique : ∀ x y, ∀ i ∈ (config x).m_socketAddresses, ∀ j ∈ (config y).m_socketAddresses,
    i.m_broadcast = j.m_local → x = y

structure Network (ι : Type) where
  now : ℤ
  node : ι → RoutingProtocol
  /-- What each node has sent, the oldest first. -/
  sent : ι → List Packet
  /-- How many of the packets of a node another one is past. -/
  passed : ι → ι → ℕ

inductive Action (ι : Type) where
  | tick (t : ℕ)
  /-- A packet of a node comes in at another one. -/
  | receive (y x : ι) (k : ℕ)
  | sendTriggeredUpdate (x : ι)
  | sendPeriodicUpdate (x : ι)
  | settled (x : ι) (dst : Ipv4Address)

inductive Fault where
  | notSent

variable {ι : Type}

namespace Topology

variable [DecidableEq ι] (T : Topology ι)

def address (x : ι) : Ipv4Address := (T.config x).mainAddress.m_local

def start : Network ι where
  now := 0
  node x := RoutingProtocol.start (T.config x)
  sent _ := []
  passed _ _ := 0

def performAt (N : Network ι) (x : ι) (e : Event) : Network ι :=
  let r := (N.node x).perform (T.config x) N.now e
  { N with
    node := update N.node x r.1
    sent := update N.sent x (N.sent x ++ r.2) }

section PerformAt

variable {T} {N : Network ι} {x y : ι} {e : Event}

@[simp] theorem performAt_node_self :
    (T.performAt N x e).node x = ((N.node x).perform (T.config x) N.now e).1 := update_self ..

theorem performAt_node_of_ne (hne : y ≠ x) : (T.performAt N x e).node y = N.node y :=
  update_of_ne hne ..

@[simp] theorem performAt_sent_self :
    (T.performAt N x e).sent x = N.sent x ++ ((N.node x).perform (T.config x) N.now e).2 :=
  update_self ..

theorem performAt_sent_of_ne (hne : y ≠ x) : (T.performAt N x e).sent y = N.sent y :=
  update_of_ne hne ..

end PerformAt

def step (N : Network ι) : Action ι → Except Fault (Network ι)
  | .tick t => .ok { N with now := N.now + t }
  | .receive y x k =>
    match (N.sent x)[k]? with
    | none => .error .notSent
    | some packet =>
      .ok { T.performAt N y (.recvDsdv packet) with
            passed := update N.passed y (update (N.passed y) x (k + 1)) }
  | .sendTriggeredUpdate x => .ok (T.performAt N x .sendTriggeredUpdate)
  | .sendPeriodicUpdate x => .ok (T.performAt N x .sendPeriodicUpdate)
  | .settled x dst => .ok (T.performAt N x (.settled dst))

end Topology

def threeNodes : Topology (Fin 3) where
  config x := oneInterface (0x0a010101 + x.val.toUInt32)
  local_ne_loopback := by decide
  local_unique := by decide
  broadcast_unique := by decide

/-- A neighbour's packets come in in the order in which they were sent; some may be lost. -/
def InOrder (N : Network ι) : Action ι → Prop
  | .receive y x k => N.passed y x ≤ k
  | _ => True

instance decidableInOrder (N : Network ι) : DecidablePred (InOrder N)
  | .receive .. | .tick _ | .sendTriggeredUpdate _ | .sendPeriodicUpdate _ | .settled .. =>
    by unfold InOrder; infer_instance

section Node

variable (T : Topology ι) (y : ι) (Good : Ipv4Address → ℕ → Prop)

def Foreign (d : Ipv4Address) : Prop := ∃ z, z ≠ y ∧ d = T.address z

def ZeroHop (gateways : Gateways) (d : Ipv4Address) (rt : RoutingTableEntry) : Prop :=
  (d = loopback ∨ ∃ i ∈ (T.config y).m_socketAddresses, d = i.m_broadcast) ∧
    rt.m_hops = 0 ∧ rt.getNextHop gateways d = d

def Learned (d : Ipv4Address) (rt : RoutingTableEntry) : Prop :=
  Foreign T y d ∧ 0 < rt.m_hops ∧ (rt.m_seqNo % 2 = 0 → Good d rt.m_seqNo)

/-- The node knows of others what goes back to them, and of itself its own entry. -/
structure NodeOk (own : RoutingTableEntry) (n : RoutingProtocol) : Prop where
  fwd : n.m_routingTable.All fun d rt =>
    ZeroHop T y n.gateways d rt ∨ Learned T y Good d rt ∧ rt.m_seqNo % 2 = 0
  adv : n.m_advRoutingTable.All (Learned T y Good)
  fwd_created : n.m_routingTable.All fun _ rt => rt.m_ipv4Route < n.created
  adv_created : n.m_advRoutingTable.All fun _ rt => rt.m_ipv4Route < n.created
  own : n.m_routingTable.find? (T.config y).mainAddress.m_broadcast = some own

def Genuine (h : DsdvHeader) : Prop :=
  (∃ z, h.dst = T.address z) ∧ 0 < h.hopCount ∧ (h.dstSeqno % 2 = 0 → Good h.dst h.dstSeqno)

variable {T y Good} {d : Ipv4Address} {n n' : RoutingProtocol} {now : ℤ} {sender : Ipv4Address}
    {h : DsdvHeader}
  {rt a own : RoutingTableEntry}

theorem Foreign.ne_loopback (far : Foreign T y d) : d ≠ loopback := by
  obtain ⟨z, -, rfl⟩ := far
  exact T.local_ne_loopback z _ (T.config z).mainAddress_mem

theorem Foreign.ne_broadcast (far : Foreign T y d) {i : Ipv4InterfaceAddress}
    (hi : i ∈ (T.config y).m_socketAddresses) : d ≠ i.m_broadcast := by
  obtain ⟨z, hne, rfl⟩ := far
  exact fun heq => hne (T.broadcast_unique y z i hi _ (T.config z).mainAddress_mem heq.symm).symm

theorem ZeroHop.not_foreign {gateways : Gateways} (zero : ZeroHop T y gateways d rt) :
    ¬Foreign T y d := by
  rcases zero.1 with heq | ⟨i, hi, heq⟩
  · exact fun far => far.ne_loopback heq
  · exact fun far => far.ne_broadcast hi heq

theorem Foreign.ne_own (far : Foreign T y d) : (T.config y).mainAddress.m_broadcast ≠ d :=
  (far.ne_broadcast (T.config y).mainAddress_mem).symm

theorem Genuine.foreign (told : Genuine T Good h) (away : ¬(T.config y).isLocal h.dst) :
    Foreign T y h.dst := by
  obtain ⟨⟨z, hz⟩, -⟩ := told
  refine ⟨z, fun heq => away ?_, hz⟩
  subst heq
  exact any_eq_true.mpr ⟨_, (T.config z).mainAddress_mem, decide_eq_true hz⟩

theorem NodeOk.learned (ok : NodeOk T y Good own n) (far : Foreign T y d)
    (hrt : n.m_routingTable.find? d = some rt) : Learned T y Good d rt ∧ rt.m_seqNo % 2 = 0 :=
  (ok.fwd d rt hrt).resolve_left fun zero => zero.not_foreign far

theorem NodeOk.ownHop (ok : NodeOk T y Good own n) :
    ZeroHop T y n.gateways (T.config y).mainAddress.m_broadcast own :=
  (ok.fwd _ own ok.own).resolve_right fun learned => learned.1.1.ne_own rfl

theorem ZeroHop.congr {gateways gateways' : Gateways} (zero : ZeroHop T y gateways d rt)
    (same : ¬Foreign T y d → gateways' d rt.m_ipv4Route = gateways d rt.m_ipv4Route ∨
      gateways' d rt.m_ipv4Route = d) :
    ZeroHop T y gateways' d rt := by
  refine ⟨zero.1, zero.2.1, ?_⟩
  rcases same zero.not_foreign with heq | heq
  · exact heq.trans zero.2.2
  · exact heq

theorem zeroHop_update {gateways : Gateways} (far : Foreign T y h.dst) {object : ℕ}
    (zero : ZeroHop T y gateways d rt) :
    ZeroHop T y (update gateways h.dst (update (gateways h.dst) object sender)) d rt :=
  zero.congr fun near => .inl <| by
    have other : d ≠ h.dst := fun heq => near (heq ▸ far)
    rw [update_of_ne other]

theorem learned_updated (told : Genuine T Good h) (far : Foreign T y h.dst)
    (hrt : rt.m_seqNo = h.dstSeqno) (hhops : rt.m_hops = h.hopCount) : Learned T y Good h.dst rt :=
  ⟨far, hhops ▸ told.2.1, hrt ▸ told.2.2⟩

/-! ### Receiving -/

section

variable (ok : NodeOk T y Good own n)

include ok

theorem NodeOk.newRoute (told : Genuine T Good h) (far : Foreign T y h.dst)
    (even : h.dstSeqno % 2 = 0) : NodeOk T y Good own (n.newRoute now sender h) where
  fwd := (ok.fwd.imp fun _ _ _ hrt => hrt.imp_left (zeroHop_update far)).add
    (.inr ⟨learned_updated told far rfl rfl, even⟩)
  adv := ok.adv.add (learned_updated told far rfl rfl)
  fwd_created :=
    (ok.fwd_created.imp fun _ _ _ hlt => Nat.lt_succ_of_lt hlt).add (Nat.lt_succ_self _)
  adv_created :=
    (ok.adv_created.imp fun _ _ _ hlt => Nat.lt_succ_of_lt hlt).add (Nat.lt_succ_self _)
  own := by
    rw [RoutingProtocol.newRoute, OrderedMap.find?_add, if_neg far.ne_own]
    exact ok.own

theorem NodeOk.learned_of_adv (ha : n.m_advRoutingTable.find? d = some a) :
    Learned T y Good d { a with m_lifeTime := now } := ok.adv d a ha

theorem NodeOk.acceptAndWait (told : Genuine T Good h) (far : Foreign T y h.dst)
    (even : h.dstSeqno % 2 = 0) (ha : n.m_advRoutingTable.find? h.dst = some a) :
    NodeOk T y Good own (n.acceptAndWait now sender h a) where
  fwd := (ok.fwd.imp fun _ _ _ hrt => hrt.imp_left (zeroHop_update far)).update fun _ =>
    .inr ⟨learned_updated told far rfl rfl, even⟩
  adv := ok.adv.update fun _ => learned_updated told far rfl rfl
  fwd_created :=
    ok.fwd_created.update fun _ => show a.m_ipv4Route < n.created from ok.adv_created _ _ ha
  adv_created :=
    ok.adv_created.update fun _ => show a.m_ipv4Route < n.created from ok.adv_created _ _ ha
  own := by
    rw [RoutingProtocol.acceptAndWait, OrderedMap.find?_update, if_neg far.ne_own]
    exact ok.own

theorem NodeOk.acceptUnchanged (told : Genuine T Good h) (far : Foreign T y h.dst)
    (ha : n.m_advRoutingTable.find? h.dst = some a) : NodeOk T y Good own
    (n.acceptUnchanged now sender h a) where
  fwd := ok.fwd.imp fun _ _ _ hrt => hrt.imp_left (zeroHop_update far)
  adv := ok.adv.update fun _ => learned_updated told far rfl rfl
  fwd_created := ok.fwd_created
  adv_created :=
    ok.adv_created.update fun _ => show a.m_ipv4Route < n.created from ok.adv_created _ _ ha
  own := ok.own

theorem NodeOk.eraseAdv (d : Ipv4Address) :
    NodeOk T y Good own { n with m_advRoutingTable := n.m_advRoutingTable.erase d } :=
  { ok with adv := ok.adv.erase d, adv_created := ok.adv_created.erase d }

theorem NodeOk.discard (d : Ipv4Address) : NodeOk T y Good own (n.discard d) := by
  rw [RoutingProtocol.discard]
  split_ifs
  · exact ok
  · exact ok.eraseAdv d

theorem NodeOk.discardSame (ha : n.m_advRoutingTable.find? h.dst = some a)
    (even : a.m_seqNo % 2 = 0) : NodeOk T y Good own (n.discardSame now sender h a) := by
  rw [RoutingProtocol.discardSame]
  split_ifs
  · exact ok
  · exact {
      fwd := ok.fwd.update fun _ => .inr ⟨ok.learned_of_adv ha, even⟩
      adv := ok.adv.erase _
      fwd_created :=
        ok.fwd_created.update fun _ => show a.m_ipv4Route < n.created from ok.adv_created _ _ ha
      adv_created := ok.adv_created.erase _
      own := by
        rw [OrderedMap.find?_update, if_neg (ok.adv _ _ ha).1.ne_own]
        exact ok.own }
  · exact ok.eraseAdv _

theorem NodeOk.eraseFwd (far : Foreign T y d) :
    NodeOk T y Good own { n with m_routingTable := n.m_routingTable.erase d } where
  fwd := ok.fwd.erase d
  adv := ok.adv
  fwd_created := ok.fwd_created.erase d
  adv_created := ok.adv_created
  own := by
    rw [OrderedMap.find?_erase, if_neg far.ne_own]
    exact ok.own

end

variable {e : Ipv4Address × RoutingTableEntry}

theorem NodeOk.loseRoute (ok : NodeOk T y Good own n)
    (learned : Learned T y Good e.1 e.2) (even : e.2.m_seqNo % 2 = 0)
    (created : e.2.m_ipv4Route < n.created) : NodeOk T y Good own (n.loseRoute e) := by
  have lost : Learned T y Good e.1 { e.2 with
    m_seqNo := e.2.m_seqNo + 1, m_entriesChanged := true } :=
    ⟨learned.1, learned.2.1, fun heven => by
      change (e.2.m_seqNo + 1) % 2 = 0 at heven
      omega⟩
  have ok' := ok.eraseFwd learned.1
  exact { ok' with adv := ok.adv.add lost, adv_created := ok.adv_created.add created }

theorem NodeOk.loseDestination (ok : NodeOk T y Good own n) (told : Genuine T Good h)
    (far : Foreign T y h.dst) (ha : n.m_advRoutingTable.find? h.dst = some a) : NodeOk T y Good own
    (n.loseDestination h a) := by
  -- what leads over the destination was learned, since the node's own entries lead nowhere else
  have hover : ∀ e ∈ (n.m_routingTable.getListOfDestinationWithNextHop n.gateways h.dst).entries,
      Learned T y Good e.1 e.2 ∧ e.2.m_seqNo % 2 = 0 ∧ e.2.m_ipv4Route < n.created := by
    intro e he
    have hfind := OrderedMap.find?_eq_some.mpr he
    rw [RoutingTable.getListOfDestinationWithNextHop, OrderedMap.find?_filter,
      Option.filter_eq_some_iff] at hfind
    rcases ok.fwd _ _ hfind.1 with zero | learned
    · have heq : e.1 = h.dst := zero.2.2.symm.trans (of_decide_eq_true hfind.2)
      exact absurd (heq ▸ far) zero.not_foreign
    · exact ⟨learned.1, learned.2, ok.fwd_created _ _ hfind.1⟩
  have lost : Learned T y Good h.dst { a with m_seqNo := h.dstSeqno, m_entriesChanged := true } :=
    ⟨far, (ok.adv _ _ ha).2.1, told.2.2⟩
  have ok' : NodeOk T y Good own
      { n with
        m_routingTable := n.m_routingTable.erase h.dst
        m_advRoutingTable := n.m_advRoutingTable.update h.dst
          { a with m_seqNo := h.dstSeqno, m_entriesChanged := true } } :=
    { ok.eraseFwd far with
      adv := ok.adv.update fun _ => lost
      adv_created :=
        ok.adv_created.update fun _ => show a.m_ipv4Route < n.created from ok.adv_created _ _ ha }
  refine (foldlRecOn (motive := fun n' : RoutingProtocol => NodeOk T y Good own n' ∧
    n'.created = n.created) _ _ ⟨ok', rfl⟩ fun n' hn' e he => ?_).1
  obtain ⟨learned, even, created⟩ := hover e he
  exact ⟨hn'.1.loseRoute learned even (hn'.2 ▸ created), hn'.2⟩

theorem NodeOk.recvHeader (ok : NodeOk T y Good own n) (told : Genuine T Good h) :
    NodeOk T y Good own (n.recvHeader (T.config y) now sender h) := by
  rw [RoutingProtocol.recvHeader]
  by_cases hlocal : (T.config y).isLocal h.dst
  · rwa [if_pos hlocal]
  · have far := told.foreign hlocal
    rw [if_neg hlocal]
    cases hf : n.m_routingTable.find? h.dst with
    | none =>
      dsimp only
      split_ifs with even
      · exact ok.newRoute told far (by omega)
      · exact ok
    | some f =>
      have learned := ok.learned far hf
      have ok' : NodeOk T y Good own { n with
        m_advRoutingTable := n.m_advRoutingTable.add h.dst f } :=
        { ok with
          adv := ok.adv.add learned.1
          adv_created := ok.adv_created.add (ok.fwd_created _ _ hf) }
      have ha : (n.m_advRoutingTable.add h.dst f).find? h.dst = some (n.advEntry h.dst f) := by
        rw [OrderedMap.find?_add, if_pos rfl]
        rfl
      dsimp only
      rw [recvUpdate]
      split_ifs with even newer changed same better hop
      · exact ok'.acceptAndWait told far (by omega) ha
      · exact ok'.acceptUnchanged told far ha
      · exact ok'.acceptAndWait told far (by omega) ha
      · exact ok'.discardSame ha (by omega)
      · exact ok'.discard h.dst
      · exact ok'.loseDestination told far ha
      · exact ok'.discard h.dst

theorem NodeOk.recvDsdv (ok : NodeOk T y Good own n) {packet : Packet}
    (told : ∀ h ∈ packet.headers, Genuine T Good h) :
    NodeOk T y Good own (n.recvDsdv (T.config y) now packet) :=
  foldlRecOn (motive := NodeOk T y Good own) _ _ ok fun _ hn' h hh => hn'.recvHeader (told h hh)

/-! ### Sending -/

variable (T y Good) in
/-- A header for the node itself, with one of some numbers, or one that passes on what was
learned. -/
def Sends (Own : ℕ → Prop) (h : DsdvHeader) : Prop :=
  0 < h.hopCount ∧
    (h.dst = T.address y ∧ Own h.dstSeqno ∨ Foreign T y h.dst ∧
      (h.dstSeqno % 2 = 0 → Good h.dst h.dstSeqno))

theorem Learned.sends {Own : ℕ → Prop} (learned : Learned T y Good d rt) :
    Sends T y Good Own ⟨d, rt.m_seqNo, rt.m_hops + 1⟩ :=
  ⟨Nat.succ_pos _, .inr ⟨learned.1, learned.2.2⟩⟩

theorem Sends.mono {Own Own' : ℕ → Prop} (sends : Sends T y Good Own h)
    (imp : ∀ s, Own s → Own' s) :
    Sends T y Good Own' h :=
  sends.imp_right fun hsends => hsends.imp_left fun hown => hown.imp_right (imp _)

section

variable (ok : NodeOk T y Good own n)

include ok

theorem NodeOk.merge (learned : Learned T y Good e.1 e.2)
    (created : e.2.m_ipv4Route < n.created) (hgateways : n'.gateways = n.gateways)
    (hcreated : n'.created = n.created) (hfwd : n'.m_routingTable = if e.2.m_seqNo % 2 = 0 then
      n.m_routingTable.update e.1 { e.2 with m_flag := .valid, m_entriesChanged := false }
        else n.m_routingTable)
    (hadv : n'.m_advRoutingTable = n.m_advRoutingTable.erase e.1) : NodeOk T y Good own n' := by
  have adv := ok.adv.erase e.1
  have adv_created := ok.adv_created.erase e.1
  rw [← hadv] at adv adv_created
  rw [← hcreated] at adv_created
  by_cases even : e.2.m_seqNo % 2 = 0
  · rw [if_pos even] at hfwd
    refine ⟨?_, adv, ?_, adv_created, ?_⟩
    · rw [hfwd, hgateways]
      exact ok.fwd.update fun _ => .inr ⟨learned, even⟩
    · rw [hfwd, hcreated]
      exact ok.fwd_created.update fun _ => created
    · rw [hfwd, OrderedMap.find?_update, if_neg learned.1.ne_own]
      exact ok.own
  · rw [if_neg even] at hfwd
    exact ⟨by rw [hfwd, hgateways]; exact ok.fwd, adv, by
      rw [hfwd, hcreated]; exact ok.fwd_created, adv_created, by rw [hfwd]; exact ok.own⟩

theorem NodeOk.advertised (he : e ∈ n.m_advRoutingTable.getListOfAllRoutes) :
    Learned T y Good e.1 e.2 ∧ e.2.m_ipv4Route < n.created := by
  have hfind := (mem_getListOfAllRoutes.mp he).1
  exact ⟨ok.adv _ _ hfind, ok.adv_created _ _ hfind⟩

theorem NodeOk.sendTriggeredUpdate : NodeOk T y Good own (n.sendTriggeredUpdate (T.config y)).1 ∧
      ∀ p ∈ (n.sendTriggeredUpdate (T.config y)).2, ∀ h ∈ p.headers,
        Sends T y Good (· = own.m_seqNo) h := by
  refine (foldlRecOn (motive := fun s : RoutingProtocol × List Packet =>
    (NodeOk T y Good own s.1 ∧ s.1.created = n.created) ∧
      ∀ p ∈ s.2, ∀ h ∈ p.headers, Sends T y Good (· = own.m_seqNo) h) _ _
    ⟨⟨ok, rfl⟩, by simp⟩ fun s hs iface _ => ?_).imp_left And.left
  have sent : (NodeOk T y Good own
    ((n.m_advRoutingTable.getListOfAllRoutes).foldl triggerRoute (s.1, [])).1 ∧
      ((n.m_advRoutingTable.getListOfAllRoutes).foldl triggerRoute (s.1, [])).1.created =
        n.created) ∧
      ∀ h ∈ ((n.m_advRoutingTable.getListOfAllRoutes).foldl triggerRoute (s.1, [])).2,
        Sends T y Good (· = own.m_seqNo) h := by
    refine foldlRecOn (motive := fun r : RoutingProtocol × List DsdvHeader =>
      (NodeOk T y Good own r.1 ∧ r.1.created = n.created) ∧
        ∀ h ∈ r.2, Sends T y Good (· = own.m_seqNo) h) _ _ ⟨hs.1, by simp⟩
      fun r hr e he => ?_
    obtain ⟨learned, created⟩ := ok.advertised he
    by_cases hready : e.2.m_entriesChanged ∧ !r.1.anyRunningEvent e.1
    · rw [triggerRoute, if_pos hready]
      refine ⟨⟨hr.1.1.merge learned (hr.1.2 ▸ created) rfl rfl rfl rfl, hr.1.2⟩, ?_⟩
      exact forall_mem_cons.mpr ⟨learned.sends, hr.2⟩
    · rw [triggerRoute, if_neg hready]
      exact hr
  rw [triggerOver]
  dsimp only
  split_ifs
  · exact ⟨sent.1, hs.2⟩
  · refine ⟨sent.1, fun p hp => ?_⟩
    rcases mem_append.mp hp with hp | hp
    · exact hs.2 p hp
    · rw [mem_singleton.mp hp]
      refine forall_mem_cons.mpr ⟨⟨Nat.succ_pos _, .inl ⟨rfl, ?_⟩⟩, sent.2⟩
      rw [ownNumbers, sent.1.1.own]

theorem NodeOk.mergeTriggerPeriodicUpdates : NodeOk T y Good own n.mergeTriggerPeriodicUpdates := by
  refine (foldlRecOn (motive := fun n' : RoutingProtocol => NodeOk T y Good own n' ∧
    n'.created = n.created) _ _ ⟨ok, rfl⟩ fun n' hn' e he => ?_).1
  obtain ⟨learned, created⟩ := ok.advertised he
  by_cases hready : e.2.m_entriesChanged ∧ !n'.anyRunningEvent e.1
  · rw [mergeRoute, if_pos hready]
    exact ⟨hn'.1.merge learned (hn'.2 ▸ created) rfl rfl rfl rfl, hn'.2⟩
  · rw [mergeRoute, if_neg hready]
    exact hn'

theorem NodeOk.purge (now holddownTime : ℤ) :
    (∀ d rt, (n.m_routingTable.purge n.gateways now holddownTime).1.find? d = some rt →
      n.m_routingTable.find? d = some rt) ∧
    (n.m_routingTable.purge n.gateways now holddownTime).1.find?
    (T.config y).mainAddress.m_broadcast = some own ∧
    (n.m_routingTable.purge n.gateways now holddownTime).2.All fun d rt =>
      Learned T y Good d rt ∧ rt.m_seqNo % 2 = 0 := by
  refine foldlRecOn (motive := fun tables : RoutingTable × RoutingTable =>
    (∀ d rt, tables.1.find? d = some rt → n.m_routingTable.find? d = some rt) ∧
    tables.1.find? (T.config y).mainAddress.m_broadcast = some own ∧
    tables.2.All fun d rt => Learned T y Good d rt ∧ rt.m_seqNo % 2 = 0) _ _
    ⟨fun _ _ h => h, ok.own, OrderedMap.all_empty⟩ fun tables htables i _ => ?_
  obtain ⟨hsub, hown, hremoved⟩ := htables
  cases hrt : tables.1.find? i with
  | none =>
    simp only [RoutingTable.purgeEntry, hrt]
    exact ⟨hsub, hown, hremoved⟩
  | some rt =>
    by_cases hexpired : RoutingTable.Expired now holddownTime rt
    · -- an entry that expires has hops, so its destination is another node
      have learned := (ok.fwd i rt (hsub i rt hrt)).resolve_left fun zero =>
        Nat.ne_of_gt hexpired.2 zero.2.1
      have far : Foreign T y i := learned.1.1
      simp only [RoutingTable.purgeEntry, hrt, if_pos hexpired]
      refine ⟨fun d rt' hrt' => ?_, ?_, ?_⟩
      · rw [OrderedMap.find?_erase] at hrt'
        split_ifs at hrt' with hd
        rw [OrderedMap.find?_filter, Option.filter_eq_some_iff] at hrt'
        exact hsub d rt' hrt'.1
      · have hstays : ¬own.getNextHop n.gateways (T.config y).mainAddress.m_broadcast = i :=
          fun heq =>
          far.ne_own (ok.ownHop.2.2.symm.trans heq)
        rw [OrderedMap.find?_erase, if_neg far.ne_own, OrderedMap.find?_filter, hown]
        simp [Option.filter, hstays]
      · refine OrderedMap.All.add (foldlRecOn (motive := OrderedMap.All fun d rt =>
          Learned T y Good d rt ∧ rt.m_seqNo % 2 = 0) _ _ hremoved fun removed hall e he =>
            hall.add ?_) learned
        have hfind := OrderedMap.find?_eq_some.mpr he
        rw [OrderedMap.find?_filter, Option.filter_eq_some_iff] at hfind
        refine (ok.fwd _ _ (hsub _ _ hfind.1)).resolve_left fun zero => ?_
        have heq : e.1 = i := zero.2.2.symm.trans (of_decide_eq_true hfind.2).1
        exact zero.not_foreign (heq ▸ far)
    · simp only [RoutingTable.purgeEntry, hrt, if_neg hexpired]
      exact ⟨hsub, hown, hremoved⟩

theorem NodeOk.setOwnSeqNo (seqNo : ℕ) :
    NodeOk T y Good { own with m_seqNo := seqNo } (n.setOwnSeqNo (T.config y) now seqNo) := by
  have gateways : ∀ d rt, ZeroHop T y n.gateways d rt →
      ZeroHop T y (n.createRoute unsetAddress unsetAddress).gateways d rt := by
    refine fun d rt zero => zero.congr fun _ => ?_
    by_cases hd : d = unsetAddress
    · subst hd
      by_cases hobject : rt.m_ipv4Route = n.created
      · exact .inr (by rw [createRoute_gateways, hobject, update_self, update_self])
      · exact .inl (by rw [createRoute_gateways, update_self, update_of_ne hobject])
    · exact .inl (by rw [createRoute_gateways, update_of_ne hd])
  have created : own.m_ipv4Route < n.created := ok.fwd_created _ _ ok.own
  rw [RoutingProtocol.setOwnSeqNo, ok.own]
  refine ⟨(ok.fwd.imp fun _ _ _ hrt => hrt.imp_left (gateways _ _)).update fun _ => .inl ?_, ok.adv,
    (ok.fwd_created.imp fun _ _ _ hlt => Nat.lt_succ_of_lt hlt).update fun _ =>
      Nat.lt_succ_of_lt created,
    ok.adv_created.imp fun _ _ _ hlt => Nat.lt_succ_of_lt hlt, ?_⟩
  · exact gateways _ _ ok.ownHop
  · rw [OrderedMap.find?_update, if_pos rfl, ok.own, Option.map_some]

end

variable (T y Good own) in
/-- Either no own number has been sent, or the own entry has the last one. -/
def Advanced (Own : ℕ → Prop) (n : RoutingProtocol) (hs : List DsdvHeader) : Prop :=
  (NodeOk T y Good own n ∧ ∀ h ∈ hs, Sends T y Good (fun _ => False) h) ∨
    ∃ s, Own s ∧ NodeOk T y Good { own with m_seqNo := s } n ∧ ∀ h ∈ hs, Sends T y Good Own h

section Advanced

variable {Own : ℕ → Prop} {hs hs' : List DsdvHeader}

theorem Advanced.subset (adv : Advanced T y Good own Own n hs) (sub : ∀ h ∈ hs', h ∈ hs) :
    Advanced T y Good own Own n hs' := by
  rcases adv with ⟨ok, hsends⟩ | ⟨s, hs, ok, hsends⟩
  · exact .inl ⟨ok, fun h hh => hsends h (sub h hh)⟩
  · exact .inr ⟨s, hs, ok, fun h hh => hsends h (sub h hh)⟩

theorem Advanced.relay (adv : Advanced T y Good own Own n hs)
    (sends : ∀ h ∈ hs', Sends T y Good (fun _ => False) h) : Advanced T y Good own Own n
    (hs' ++ hs) := by
  rcases adv with ⟨ok, hsends⟩ | ⟨s, hs, ok, hsends⟩
  · exact .inl ⟨ok, forall_mem_append.mpr ⟨sends, hsends⟩⟩
  · exact .inr ⟨s, hs, ok,
      forall_mem_append.mpr ⟨fun h hh => (sends h hh).mono fun _ => False.elim, hsends⟩⟩

theorem Advanced.setOwnSeqNo (adv : Advanced T y Good own Own n hs) {s : ℕ} (issue : Own s)
    (hops : ℕ) :
    Advanced T y Good own Own (n.setOwnSeqNo (T.config y) now s)
    (⟨T.address y, s, hops + 1⟩ :: hs) := by
  have sends : Sends T y Good Own ⟨T.address y, s, hops + 1⟩ := ⟨Nat.succ_pos _, .inl ⟨rfl, issue⟩⟩
  rcases adv with ⟨ok, hsends⟩ | ⟨s', -, ok, hsends⟩
  · exact .inr ⟨s, issue, ok.setOwnSeqNo s,
      forall_mem_cons.mpr ⟨sends, fun h hh => (hsends h hh).mono fun _ => False.elim⟩⟩
  · exact .inr ⟨s, issue, ok.setOwnSeqNo s, forall_mem_cons.mpr ⟨sends, hsends⟩⟩

end Advanced

theorem NodeOk.sendAll (ok : NodeOk T y Good own n) {Own : ℕ → Prop}
    {removed : List (Ipv4Address × RoutingTableEntry)}
    (hremoved : ∀ e ∈ removed, Learned T y Good e.1 e.2 ∧ e.2.m_seqNo % 2 = 0)
    (hown : ∀ d rt, n.m_routingTable.find? d = some rt → ZeroHop T y n.gateways d rt →
      d ≠ loopback → Own (rt.m_seqNo + 2)) (ifaces : List Ipv4InterfaceAddress) :
    Advanced T y Good own Own
      (ifaces.foldl (periodicOver (T.config y) now n.m_routingTable.getListOfAllRoutes removed)
        (n, [])).1
      ((ifaces.foldl (periodicOver (T.config y) now n.m_routingTable.getListOfAllRoutes removed)
        (n, [])).2.flatMap (·.headers)) := by
  have start : Advanced T y Good own Own n [] := .inl ⟨ok, by simp⟩
  refine foldlRecOn (motive := fun s : RoutingProtocol × List Packet =>
    Advanced T y Good own Own s.1 (s.2.flatMap (·.headers))) _ _ (b :=
      (n, [])) start fun s hs iface _ => ?_
  have sent := foldlRecOn (motive := fun r : RoutingProtocol × List DsdvHeader =>
    Advanced T y Good own Own r.1 (r.2 ++ s.2.flatMap (·.headers)))
      n.m_routingTable.getListOfAllRoutes
    (periodicRoute (T.config y) now) (b := (s.1, [])) hs fun r hr e he => by
      obtain ⟨hfind, hloopback, -⟩ := mem_getListOfAllRoutes.mp he
      rw [periodicRoute]
      rcases ok.fwd _ _ hfind with zero | learned
      · rw [if_pos zero.2.1]
        exact hr.setOwnSeqNo (hown _ _ hfind zero hloopback) _
      · rw [if_neg (Nat.ne_of_gt learned.1.2.1)]
        exact hr.relay (forall_mem_singleton.mpr learned.1.sends)
  have lost : ∀ h ∈ (removed.map removedHeader).reverse, Sends T y Good (fun _ => False) h := by
    intro h hh
    obtain ⟨e, he, rfl⟩ := mem_map.mp (mem_reverse.mp hh)
    refine ⟨Nat.succ_pos _, .inr ⟨(hremoved e he).1.1, fun heven => ?_⟩⟩
    have even := (hremoved e he).2
    change (e.2.m_seqNo + 1) % 2 = 0 at heven
    omega
  refine (sent.relay lost).subset fun h hh => ?_
  rw [periodicOver, flatMap_append, flatMap_singleton] at hh
  grind

theorem NodeOk.merged (ok : NodeOk T y Good own n) (now : ℤ) :
    NodeOk T y Good own (RoutingProtocol.mergeTriggerPeriodicUpdates
    { n with m_routingTable := (n.m_routingTable.purge n.gateways now
      (T.config y).m_holddownTime).1 }) := by
  obtain ⟨hsub, hentry, -⟩ := ok.purge now (T.config y).m_holddownTime
  have purged : NodeOk T y Good own
      { n with m_routingTable := (n.m_routingTable.purge n.gateways now
        (T.config y).m_holddownTime).1 } :=
    ⟨fun d rt hrt => ok.fwd d rt (hsub d rt hrt), ok.adv, fun d rt hrt =>
      ok.fwd_created d rt (hsub d rt hrt), ok.adv_created, hentry⟩
  exact purged.mergeTriggerPeriodicUpdates

theorem exists_periodicRoute {routes : List (Ipv4Address × RoutingTableEntry)} (mem : e ∈ routes)
    (zero : e.2.m_hops = 0) (c : Config) (n : RoutingProtocol) :
    ∃ h ∈ (routes.foldl (periodicRoute c now) (n, [])).2, h.dst = c.mainAddress.m_local := by
  obtain ⟨before, after, rfl⟩ := append_of_mem mem
  rw [foldl_append, foldl_cons]
  refine foldlRecOn (motive := fun r : RoutingProtocol × List DsdvHeader =>
    ∃ h ∈ r.2, h.dst = c.mainAddress.m_local) _ _ ?_ fun r hr e' _ => ?_
  · rw [periodicRoute, if_pos zero]
    exact ⟨_, mem_cons_self, rfl⟩
  · obtain ⟨h, hh, hdst⟩ := hr
    refine ⟨h, ?_, hdst⟩
    rw [periodicRoute]
    split_ifs <;> exact mem_cons_of_mem _ hh

/-- The own entry is sent over every interface. -/
theorem NodeOk.sends_own (ok : NodeOk T y Good own n) (valid : own.m_flag = .valid)
    (away : (T.config y).mainAddress.m_broadcast ≠ loopback) :
    ∃ p ∈ (n.sendPeriodicUpdate (T.config y) now).2, ∃ h ∈ p.headers, h.dst = T.address y := by
  have merged := ok.merged now
  have mem := mem_getListOfAllRoutes.mpr ⟨merged.own, away, valid⟩
  obtain ⟨before, after, split⟩ := append_of_mem (T.config y).mainAddress_mem
  rw [RoutingProtocol.sendPeriodicUpdate, if_neg (ne_nil_of_mem mem), split, foldl_append,
    foldl_cons]
  refine foldlRecOn (motive := fun s : RoutingProtocol × List Packet =>
    ∃ p ∈ s.2, ∃ h ∈ p.headers, h.dst = T.address y) _ _ ?_ fun s hs iface _ => ?_
  · obtain ⟨h, hh, hdst⟩ := exists_periodicRoute mem merged.ownHop.2.1 (T.config y) _
    exact ⟨_, mem_append_right _ (mem_singleton_self _), h, mem_append_right _ hh, hdst⟩
  · obtain ⟨p, hp, hown⟩ := hs
    exact ⟨p, mem_append_left _ hp, hown⟩

theorem NodeOk.sendPeriodicUpdate (ok : NodeOk T y Good own n) {Own : ℕ → Prop}
    (hown : ∀ {n' : RoutingProtocol}, NodeOk T y Good own n' →
      ∀ d rt, n'.m_routingTable.find? d = some rt →
      ZeroHop T y n'.gateways d rt → d ≠ loopback → Own (rt.m_seqNo + 2)) :
    Advanced T y Good own Own (n.sendPeriodicUpdate (T.config y) now).1
      ((n.sendPeriodicUpdate (T.config y) now).2.flatMap (·.headers)) := by
  obtain ⟨-, -, hremoved⟩ := ok.purge now (T.config y).m_holddownTime
  have merged := ok.merged now
  rw [RoutingProtocol.sendPeriodicUpdate]
  split_ifs
  · exact .inl ⟨merged, by simp⟩
  · exact merged.sendAll (fun e he => hremoved _ _ (OrderedMap.find?_eq_some.mpr he))
      (hown merged) _

theorem start_valid (c : Config) :
    (start c).m_routingTable.All fun d rt => d ≠ loopback → rt.m_flag = .valid := by
  rw [start]
  refine foldlRecOn (motive := fun n : RoutingProtocol =>
    n.m_routingTable.All fun d rt => d ≠ loopback → rt.m_flag = .valid) _ _ ?_
      fun n hn iface _ => ?_
  · exact OrderedMap.all_empty.add fun h => absurd rfl h
  · exact hn.add fun _ => rfl

theorem start_ok (T : Topology ι) (y : ι) (Good : Ipv4Address → ℕ → Prop) :
    ∃ own, own.m_seqNo = 0 ∧ NodeOk T y Good own (start (T.config y)) := by
  obtain ⟨own, hown⟩ := Option.isSome_iff_exists.mp (start_hasOwnEntry (T.config y))
  have zero : (start (T.config y)).m_routingTable.All
        (fun d rt => ZeroHop T y (start (T.config y)).gateways d rt ∧ rt.m_seqNo = 0 ∧
          rt.m_ipv4Route < (start (T.config y)).created) ∧
      (start (T.config y)).m_advRoutingTable = .empty := by
    have keep : ∀ (n : RoutingProtocol) (d : Ipv4Address) (flag : RouteFlags),
        (d = loopback ∨ ∃ i ∈ (T.config y).m_socketAddresses, d = i.m_broadcast) →
        n.m_routingTable.All (fun d rt => ZeroHop T y n.gateways d rt ∧ rt.m_seqNo = 0 ∧
          rt.m_ipv4Route < n.created) →
        (n.addZeroHopRoute d flag).m_routingTable.All (fun d' rt =>
          ZeroHop T y (n.addZeroHopRoute d flag).gateways d' rt ∧ rt.m_seqNo = 0 ∧
            rt.m_ipv4Route < (n.addZeroHopRoute d flag).created) := by
      intro n d flag hd hall
      have new : ∀ o, o = n.created → (n.createRoute d d).gateways d o = d := by
        rintro o rfl
        rw [createRoute_gateways, update_self, update_self]
      refine (hall.imp fun d' rt _ hrt =>
        ⟨hrt.1.congr fun _ => ?_, hrt.2.1, Nat.lt_succ_of_lt hrt.2.2⟩).add
        ⟨⟨hd, rfl, new _ rfl⟩, rfl, Nat.lt_succ_self _⟩
      by_cases heq : d' = d
      · subst heq
        exact .inl (by
          change (n.createRoute d' d').gateways d' rt.m_ipv4Route = _
          rw [createRoute_gateways, update_self, update_of_ne (Nat.ne_of_lt hrt.2.2)])
      · exact .inl (by
          change (n.createRoute d d).gateways d' rt.m_ipv4Route = _
          rw [createRoute_gateways, update_of_ne heq])
    rw [start]
    refine foldlRecOn (motive := fun n : RoutingProtocol => n.m_routingTable.All
      (fun d rt => ZeroHop T y n.gateways d rt ∧ rt.m_seqNo = 0 ∧ rt.m_ipv4Route < n.created) ∧
      n.m_advRoutingTable = .empty) _ _ ⟨?_, rfl⟩ fun n hn iface hi =>
        ⟨keep _ _ _ (.inr ⟨iface, hi, rfl⟩) hn.1, hn.2⟩
    exact keep _ _ _ (.inl rfl) OrderedMap.all_empty
  refine ⟨own, (zero.1 _ _ hown).2.1, fun d rt hrt => .inl (zero.1 d rt hrt).1, ?_,
    fun d rt hrt => (zero.1 d rt hrt).2.2, ?_, hown⟩
  · rw [zero.2]
    exact OrderedMap.all_empty
  · rw [zero.2]
    exact OrderedMap.all_empty

theorem NodeOk.mono {Good' : Ipv4Address → ℕ → Prop} (ok : NodeOk T y Good own n)
    (imp : ∀ d s, Good d s → Good' d s) : NodeOk T y Good' own n := by
  have learned : ∀ d rt, Learned T y Good d rt → Learned T y Good' d rt := fun d rt hrt =>
    ⟨hrt.1, hrt.2.1, fun heven => imp d _ (hrt.2.2 heven)⟩
  exact { ok with
    fwd := ok.fwd.imp fun d rt _ hrt => hrt.imp_right (And.imp_left (learned d rt))
    adv := ok.adv.imp fun d rt _ => learned d rt }

end Node

section All

variable {T : Topology ι} {Good Good' : Ipv4Address → ℕ → Prop} {own : ι → RoutingTableEntry}
    {N : Network ι} {x : ι}

structure NetworkOk (T : Topology ι) (Good : Ipv4Address → ℕ → Prop) (own : ι → RoutingTableEntry)
    (N : Network ι) : Prop where
  node : ∀ y, NodeOk T y Good (own y) (N.node y)
  sent : ∀ x, ∀ p ∈ N.sent x, ∀ h ∈ p.headers, Genuine T Good h

theorem Sends.genuine {y : ι} {Own : ℕ → Prop} {h : DsdvHeader} (sends : Sends T y Good Own h)
    (imp : ∀ d s, Good d s → Good' d s) (issue : h.dst = T.address y → Good' h.dst h.dstSeqno) :
      Genuine T Good' h := by
  refine ⟨?_, sends.1, fun heven => ?_⟩
  · rcases sends.2 with ⟨hdst, -⟩ | ⟨⟨z, -, hdst⟩, -⟩
    · exact ⟨y, hdst⟩
    · exact ⟨z, hdst⟩
  · rcases sends.2 with ⟨hdst, -⟩ | ⟨-, hgood⟩
    · exact issue hdst
    · exact imp _ _ (hgood heven)

theorem NetworkOk.mono (ok : NetworkOk T Good own N) (imp : ∀ d s, Good d s → Good' d s) :
    NetworkOk T Good' own N where
  node y := (ok.node y).mono imp
  sent x p hp h hh :=
    have told := ok.sent x p hp h hh
    ⟨told.1, told.2.1, fun heven => imp _ _ (told.2.2 heven)⟩

variable [DecidableEq ι]

theorem NetworkOk.performAt (ok : NetworkOk T Good own N) {e : Event} {own' : RoutingTableEntry}
    {Own : ℕ → Prop} (node : NodeOk T x Good own' ((N.node x).perform (T.config x) N.now e).1)
    (sends : ∀ p ∈ ((N.node x).perform (T.config x) N.now e).2, ∀ h ∈ p.headers,
      Sends T x Good Own h)
    (imp : ∀ d s, Good d s → Good' d s)
    (issue : ∀ p ∈ ((N.node x).perform (T.config x) N.now e).2, ∀ h ∈ p.headers,
      h.dst = T.address x → Good' h.dst h.dstSeqno) :
    NetworkOk T Good' (update own x own') (T.performAt N x e) where
  node y := by
    by_cases hy : y = x
    · subst hy
      rw [Topology.performAt_node_self, update_self]
      exact node.mono imp
    · rw [Topology.performAt_node_of_ne hy, update_of_ne hy]
      exact (ok.node y).mono imp
  sent y p hp h hh := by
    by_cases hy : y = x
    · subst hy
      rw [Topology.performAt_sent_self] at hp
      rcases mem_append.mp hp with hp | hp
      · exact (ok.mono imp).sent y p hp h hh
      · exact (sends p hp h hh).genuine imp (issue p hp h hh)
    · rw [Topology.performAt_sent_of_ne hy] at hp
      exact (ok.mono imp).sent y p hp h hh

end All

end Egsr.Dsdv
