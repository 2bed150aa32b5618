import Egsr.Dsdv.Network

/-! The sequence numbers that a node gives out for its own address. The node
keeps its number in the entry of the broadcast address of its first interface,
and a periodic update increases the number of every zero-hop entry. When all
interfaces share a broadcast address there is one such entry, and the numbers
only ever increase. -/

namespace Egsr.Dsdv

open List Function

open Lib (OrderedMap)
open Lib.Outcome Lib.Run RoutingProtocol

variable {ι : Type} [DecidableEq ι]

def Action.isPeriodicAt (x : ι) : Action ι → Bool
  | .sendPeriodicUpdate y => y = x
  | _ => false

def givenFor (d : Ipv4Address) (packets : List Packet) : List ℕ :=
  packets.flatMap fun p => (headersFor d p.headers).reverse

namespace Topology

variable (T : Topology ι) (x : ι) (N : Network ι)

/-- The sequence numbers that the node has given out for its address, the oldest first. -/
def issued : List ℕ := givenFor (T.address x) (N.sent x)

def ownSeqNo : ℕ := ((N.node x).ownNumbers (T.config x)).1

/-- After the step all numbers are even and none is smaller than one before; in a periodic update
they are new. -/
def AdvertisesRight (a : Action ι) : Prop :=
  Ensures (T.step N a) (fun N' => (∀ s ∈ T.issued x N', s % 2 = 0) ∧
    (T.issued x N').Pairwise (· ≤ ·) ∧
    (a.isPeriodicAt x → ∀ s ∈ (T.issued x N').drop (T.issued x N).length, ∀ r ∈ T.issued x N, r <
      s)) fun _ => True
deriving Decidable

/-- A periodic update gives out a number. -/
def Advertises (a : Action ι) : Prop :=
  Ensures (T.step N a)
    (fun N' => a.isPeriodicAt x → (T.issued x N').drop (T.issued x N).length ≠ []) fun _ => True

/-- What other nodes have or send for the address was given out by the node. -/
structure KnownIssued : Prop where
  stored : ∀ y, y ≠ x → ∀ rt, (N.node y).m_routingTable.find? (T.address x) = some rt ∨
    (N.node y).m_advRoutingTable.find? (T.address x) = some rt →
    rt.m_seqNo % 2 = 0 → rt.m_seqNo ∈ T.issued x N ∧ rt.m_seqNo ≤ T.ownSeqNo x N
  inFlight : ∀ y, ∀ p ∈ N.sent y, ∀ h ∈ p.headers, h.dst = T.address x →
    h.dstSeqno % 2 = 0 → h.dstSeqno ∈ T.issued x N ∧ h.dstSeqno ≤ T.ownSeqNo x N

end Topology

def Issued (T : Topology ι) (N : Network ι) (d : Ipv4Address) (s : ℕ) : Prop :=
  ∃ z, d = T.address z ∧ s ∈ T.issued z N

section Steps

variable {T : Topology ι} {x : ι} {own : ι → RoutingTableEntry} {N N' : Network ι}

theorem mem_givenFor {d : Ipv4Address} {packets : List Packet} {s : ℕ} :
    s ∈ givenFor d packets ↔ ∃ p ∈ packets, ∃ h ∈ p.headers, h.dst = d ∧ h.dstSeqno = s := by
  simp [givenFor, headersFor, and_assoc]

theorem givenFor_append (d : Ipv4Address) (ps qs : List Packet) :
    givenFor d (ps ++ qs) = givenFor d ps ++ givenFor d qs := flatMap_append

/-- The numbers of the node have gone up to the one in its own entry. -/
structure OwnOk (T : Topology ι) (x : ι) (own : ι → RoutingTableEntry) (N : Network ι) : Prop where
  network : NetworkOk T (Issued T N) own N
  even : (own x).m_seqNo % 2 = 0
  issued_even : ∀ s ∈ T.issued x N, s % 2 = 0
  issued_le : ∀ s ∈ T.issued x N, s ≤ (own x).m_seqNo
  sorted : (T.issued x N).Pairwise (· ≤ ·)
  valid : (T.config x).mainAddress.m_broadcast ≠ loopback → (own x).m_flag = .valid

omit [DecidableEq ι] in
theorem NetworkOk.ownSeqNo {Good : Ipv4Address → ℕ → Prop} (ok : NetworkOk T Good own N) :
    T.ownSeqNo x N = (own x).m_seqNo := by
  rw [Topology.ownSeqNo, ownNumbers, (ok.node x).own]

omit [DecidableEq ι] in
theorem Issued.mem {s : ℕ} (issued : Issued T N (T.address x) s) : s ∈ T.issued x N := by
  obtain ⟨z, hz, hs⟩ := issued
  rwa [T.local_unique x z _ (T.config x).mainAddress_mem _ (T.config z).mainAddress_mem hz]

omit [DecidableEq ι] in
theorem OwnOk.knownIssued (ok : OwnOk T x own N) : T.KnownIssued x N where
  stored y hy rt hrt heven := by
    have far : Foreign T y (T.address x) := ⟨x, hy.symm, rfl⟩
    have learned : Learned T y (Issued T N) (T.address x) rt := by
      rcases hrt with hrt | hrt
      · exact ((ok.network.node y).learned far hrt).1
      · exact (ok.network.node y).adv _ _ hrt
    have mem := (learned.2.2 heven).mem
    exact ⟨mem, ok.network.ownSeqNo ▸ ok.issued_le _ mem⟩
  inFlight y p hp h hh hdst heven := by
    have mem := (hdst ▸ (ok.network.sent y p hp h hh).2.2 heven : Issued T N (T.address x) _).mem
    exact ⟨mem, ok.network.ownSeqNo ▸ ok.issued_le _ mem⟩

theorem issued_performAt_self {z : ι} {e : Event} : T.issued z (T.performAt N z e) =
    T.issued z N ++ givenFor (T.address z) ((N.node z).perform (T.config z) N.now e).2 := by
  rw [Topology.issued, Topology.performAt_sent_self, givenFor_append]
  rfl

theorem issued_performAt_of_ne {y z : ι} {e : Event} (hne : y ≠ z) :
    T.issued y (T.performAt N z e) = T.issued y N := by
  rw [Topology.issued, Topology.performAt_sent_of_ne hne]
  rfl

theorem Issued.performAt {z : ι} {e : Event} {d : Ipv4Address} {s : ℕ} (issued : Issued T N d s) :
    Issued T (T.performAt N z e) d s := by
  obtain ⟨y, hy, hs⟩ := issued
  refine ⟨y, hy, ?_⟩
  by_cases heq : y = z
  · subst heq
    rw [issued_performAt_self]
    exact mem_append_left _ hs
  · rwa [issued_performAt_of_ne heq]

theorem OwnOk.performAt (ok : OwnOk T x own N) {z : ι} {e : Event} {own' : RoutingTableEntry}
    (node : NodeOk T z (Issued T N) own' ((N.node z).perform (T.config z) N.now e).1)
    (sends : ∀ p ∈ ((N.node z).perform (T.config z) N.now e).2, ∀ h ∈ p.headers,
      Sends T z (Issued T N) (fun s => z = x → s = own'.m_seqNo) h)
    (later : z = x → (own x).m_seqNo ≤ own'.m_seqNo ∧ own'.m_seqNo % 2 = 0 ∧
      own'.m_flag = (own x).m_flag) :
    OwnOk T x (update own z own') (T.performAt N z e) := by
  have network :
      NetworkOk T (Issued T (T.performAt N z e)) (update own z own') (T.performAt N z e) := by
    refine ok.network.performAt node sends (fun d s => Issued.performAt) fun p hp h hh hdst =>
      ⟨z, hdst, ?_⟩
    rw [issued_performAt_self]
    exact mem_append_right _ (mem_givenFor.mpr ⟨p, hp, h, hh, hdst, rfl⟩)
  by_cases hx : z = x
  · subst hx
    obtain ⟨hle, heven, hflag⟩ := later rfl
    have new : ∀ s ∈ givenFor (T.address z) ((N.node z).perform (T.config z) N.now e).2, s =
        own'.m_seqNo := by
      intro s hs
      obtain ⟨p, hp, h, hh, hdst, rfl⟩ := mem_givenFor.mp hs
      rcases (sends p hp h hh).2 with ⟨-, hown⟩ | ⟨⟨w, hw, heq⟩, -⟩
      · exact hown rfl
      · exact absurd (T.local_unique w z _ (T.config w).mainAddress_mem _
          (T.config z).mainAddress_mem (heq.symm.trans hdst)) hw
    refine ⟨network, ?_, ?_, ?_, ?_, ?_⟩
    · rwa [update_self]
    · rw [issued_performAt_self]
      exact forall_mem_append.mpr ⟨ok.issued_even, fun s hs => new s hs ▸ heven⟩
    · rw [issued_performAt_self, update_self]
      exact forall_mem_append.mpr
        ⟨fun s hs => Nat.le_trans (ok.issued_le s hs) hle, fun s hs => Nat.le_of_eq (new s hs)⟩
    · rw [issued_performAt_self]
      refine pairwise_append.mpr ⟨ok.sorted, ?_, fun r hr s hs => ?_⟩
      · exact pairwise_of_forall_mem_list fun r hr s hs =>
          Nat.le_of_eq ((new r hr).trans (new s hs).symm)
      · rw [new s hs]
        exact Nat.le_trans (ok.issued_le r hr) hle
    · rw [update_self, hflag]
      exact ok.valid
  · have same := issued_performAt_of_ne (T := T) (N := N) (e := e) (Ne.symm hx)
    refine ⟨network, ?_, ?_, ?_, ?_, ?_⟩
    · rw [update_of_ne (Ne.symm hx)]
      exact ok.even
    · exact same ▸ ok.issued_even
    · rw [same, update_of_ne (Ne.symm hx)]
      exact ok.issued_le
    · exact same ▸ ok.sorted
    · rw [update_of_ne (Ne.symm hx)]
      exact ok.valid

omit [DecidableEq ι] in
theorem OwnOk.kept (ok : OwnOk T x own N) {z : ι} (hz : z = x) :
    (own x).m_seqNo ≤ (own z).m_seqNo ∧ (own z).m_seqNo % 2 = 0 ∧
    (own z).m_flag = (own x).m_flag := by
  subst hz
  exact ⟨Nat.le_refl _, ok.even, rfl⟩

theorem OwnOk.sendTriggeredUpdate (ok : OwnOk T x own N) (z : ι) :
    OwnOk T x own (T.performAt N z .sendTriggeredUpdate) := by
  obtain ⟨node, sends⟩ := (ok.network.node z).sendTriggeredUpdate
  have ok' := ok.performAt (e := .sendTriggeredUpdate) node
    (fun p hp h hh => (sends p hp h hh).mono fun s hs _ => hs) ok.kept
  rwa [update_eq_self] at ok'

theorem OwnOk.settled (ok : OwnOk T x own N) (z : ι) (dst : Ipv4Address) :
    OwnOk T x own (T.performAt N z (.settled dst)) := by
  have happened : NodeOk T z (Issued T N) (own z)
      { N.node z with m_ipv4Events := (N.node z).m_ipv4Events.set dst false } :=
        { ok.network.node z with }
  have sent : NodeOk T z (Issued T N) (own z)
    ((N.node z).perform (T.config z) N.now (.settled dst)).1 ∧
      ∀ p ∈ ((N.node z).perform (T.config z) N.now (.settled dst)).2, ∀ h ∈ p.headers,
        Sends T z (Issued T N) (· = (own z).m_seqNo) h := by
    dsimp only [perform]
    split_ifs
    · exact happened.sendTriggeredUpdate
    · exact ⟨ok.network.node z, by simp⟩
  have ok' := ok.performAt sent.1 (fun p hp h hh => (sent.2 p hp h hh).mono fun s hs _ => hs)
    ok.kept
  rwa [update_eq_self] at ok'

theorem OwnOk.recvDsdv (ok : OwnOk T x own N) {y z : ι} {packet : Packet} (hp : packet ∈ N.sent z) :
    OwnOk T x own (T.performAt N y (.recvDsdv packet)) := by
  have node : NodeOk T y (Issued T N) (own y)
    ((N.node y).perform (T.config y) N.now (.recvDsdv packet)).1 :=
    (ok.network.node y).recvDsdv (ok.network.sent z packet hp)
  have ok' := ok.performAt node (by simp [perform]) ok.kept
  rwa [update_eq_self] at ok'

theorem OwnOk.sendPeriodicUpdate (ok : OwnOk T x own N)
    (single : ∀ i ∈ (T.config x).m_socketAddresses, i.m_broadcast =
      (T.config x).mainAddress.m_broadcast) (z : ι) :
    ∃ own', OwnOk T x own' (T.performAt N z .sendPeriodicUpdate) ∧ (z = x →
      ((T.config z).mainAddress.m_broadcast ≠ loopback →
        givenFor (T.address z) ((N.node z).perform (T.config z) N.now .sendPeriodicUpdate).2 ≠ []) ∧
      ∀ s ∈ givenFor (T.address z) ((N.node z).perform (T.config z) N.now .sendPeriodicUpdate).2,
        (own x).m_seqNo < s) := by
  have gives : z = x → (T.config z).mainAddress.m_broadcast ≠ loopback →
      givenFor (T.address z) ((N.node z).perform (T.config z) N.now .sendPeriodicUpdate).2 ≠
        [] := by
    rintro rfl away
    obtain ⟨p, hp, h, hh, hdst⟩ := (ok.network.node z).sends_own (ok.valid away) away
    exact ne_nil_of_mem (mem_givenFor.mpr ⟨p, hp, h, hh, hdst, rfl⟩)
  have sent : Advanced T z (Issued T N) (own z) (fun s => z = x → s = (own x).m_seqNo + 2)
      ((N.node z).sendPeriodicUpdate (T.config z) N.now).1
      (((N.node z).sendPeriodicUpdate (T.config z) N.now).2.flatMap (·.headers)) :=
    (ok.network.node z).sendPeriodicUpdate fun node' d rt hrt zero hd hz => by
      -- the entry of the broadcast address is the only one
      subst hz
      obtain ⟨i, hi, heq⟩ := zero.1.resolve_left hd
      rw [heq, single i hi, node'.own] at hrt
      rw [Option.some.inj hrt]
  have mem : ∀ p ∈ ((N.node z).perform (T.config z) N.now .sendPeriodicUpdate).2, ∀ h ∈ p.headers,
      h ∈ ((N.node z).sendPeriodicUpdate (T.config z) N.now).2.flatMap (·.headers) :=
    fun p hp h hh => mem_flatMap.mpr ⟨p, hp, hh⟩
  have far : ∀ h : DsdvHeader, h.dst = T.address z → ¬Foreign T z h.dst := by
    rintro h hdst ⟨w, hw, heq⟩
    exact hw (T.local_unique w z _ (T.config w).mainAddress_mem _ (T.config z).mainAddress_mem
      (heq.symm.trans hdst))
  rcases sent with ⟨node, sends⟩ | ⟨s, hs, node, sends⟩
  · refine ⟨_, ok.performAt (e := .sendPeriodicUpdate) node
      (fun p hp h hh => (sends h (mem p hp h hh)).mono fun _ => False.elim) ok.kept,
      fun hz => ⟨gives hz, fun s hs => ?_⟩⟩
    obtain ⟨p, hp, h, hh, hdst, rfl⟩ := mem_givenFor.mp hs
    rcases (sends h (mem p hp h hh)).2 with ⟨-, hfalse⟩ | ⟨hfar, -⟩
    · exact hfalse.elim
    · exact absurd hfar (far h hdst)
  · refine ⟨_, ok.performAt (e := .sendPeriodicUpdate) node
      (fun p hp h hh => (sends h (mem p hp h hh)).mono fun s' hs' hz => (hs' hz).trans (hs hz).symm)
        fun hz => ?_,
      fun hz => ⟨gives hz, fun s' hs' => ?_⟩⟩
    · have heven := ok.even
      have hnew := hs hz
      change _ ≤ s ∧ s % 2 = 0 ∧ (own z).m_flag = _
      exact ⟨by omega, by omega, by rw [hz]⟩
    · obtain ⟨p, hp, h, hh, hdst, rfl⟩ := mem_givenFor.mp hs'
      rcases (sends h (mem p hp h hh)).2 with ⟨-, hown⟩ | ⟨hfar, -⟩
      · have hnew := hown hz
        omega
      · exact absurd hfar (far h hdst)

theorem OwnOk.step (ok : OwnOk T x own N)
    (single : ∀ i ∈ (T.config x).m_socketAddresses, i.m_broadcast =
      (T.config x).mainAddress.m_broadcast)
    {a : Action ι} (run : T.step N a = .ok N') :
    ∃ own', OwnOk T x own' N' ∧ (a.isPeriodicAt x →
      ((T.config x).mainAddress.m_broadcast ≠ loopback →
        (T.issued x N').drop (T.issued x N).length ≠ []) ∧
      ∀ s ∈ (T.issued x N').drop (T.issued x N).length, ∀ r ∈ T.issued x N, r < s) := by
  cases a with
  | tick t =>
    cases run
    exact ⟨own, ⟨⟨ok.network.node, ok.network.sent⟩, ok.even, ok.issued_even, ok.issued_le,
      ok.sorted, ok.valid⟩, by simp [Action.isPeriodicAt]⟩
  | receive y z k =>
    rw [Topology.step] at run
    split at run
    · cases run
    · rename_i packet hpacket
      cases run
      have ok' := ok.recvDsdv (y := y) (mem_of_getElem? hpacket)
      exact ⟨own, ⟨⟨ok'.network.node, ok'.network.sent⟩, ok'.even, ok'.issued_even, ok'.issued_le,
        ok'.sorted, ok'.valid⟩, by simp [Action.isPeriodicAt]⟩
  | sendTriggeredUpdate z =>
    cases run
    exact ⟨own, ok.sendTriggeredUpdate z, by simp [Action.isPeriodicAt]⟩
  | settled z dst =>
    cases run
    exact ⟨own, ok.settled z dst, by simp [Action.isPeriodicAt]⟩
  | sendPeriodicUpdate z =>
    cases run
    obtain ⟨own', ok', new⟩ := ok.sendPeriodicUpdate single z
    refine ⟨own', ok', fun hz => ?_⟩
    obtain rfl : z = x := of_decide_eq_true hz
    rw [issued_performAt_self, drop_left]
    exact ⟨(new rfl).1, fun s hs r hr => Nat.lt_of_le_of_lt (ok.issued_le r hr) ((new rfl).2 s hs)⟩

omit [DecidableEq ι] in
theorem start_ownOk (T : Topology ι) (x : ι) : ∃ own, OwnOk T x own T.start := by
  choose own hseq hok using fun y => start_ok T y (Issued T T.start)
  refine ⟨own, ⟨hok, fun _ p hp => by cases hp⟩, ?_, ?_, ?_, ?_, start_valid _ _ _ (hok x).own⟩
  · rw [hseq]
  · exact fun s hs => by cases hs
  · exact fun s hs => by cases hs
  · exact List.Pairwise.nil

end Steps

/-- A node of which all interfaces share a broadcast address gives out even numbers that never
decrease, and new ones in every periodic update; nobody has another even number for it. There
is one to give out unless the broadcast address is the loopback address. -/
theorem own_numbers_increase (T : Topology ι) (x : ι)
    (single : ∀ i ∈ (T.config x).m_socketAddresses, i.m_broadcast =
      (T.config x).mainAddress.m_broadcast)
    (as : List (Action ι)) : Along T.step (T.AdvertisesRight x) T.start as ∧
      ((T.config x).mainAddress.m_broadcast ≠ loopback → Along T.step (T.Advertises x) T.start as) ∧
      ∀ N, exec T.step T.start as = .ok N → T.KnownIssued x N := by
  have keep : ∀ N a N', (∃ own, OwnOk T x own N) → True → T.step N a = .ok N' →
      ∃ own, OwnOk T x own N' := by
    rintro N a N' ⟨own, ok⟩ - run
    obtain ⟨own', ok', -⟩ := ok.step single run
    exact ⟨own', ok'⟩
  have all : Along T.step (fun _ _ => True) T.start as := along_of_forall (fun _ _ => trivial) _ _
  refine ⟨?_, fun away => ?_, ?_⟩
  · refine (Along.with_invariant keep (start_ownOk T x) all).mono fun N a ⟨⟨own, ok⟩, _⟩ => ?_
    cases run : T.step N a with
    | error f =>
      rw [Topology.AdvertisesRight, run]
      trivial
    | ok N' =>
      obtain ⟨own', ok', new⟩ := ok.step single run
      rw [Topology.AdvertisesRight, run]
      exact ⟨ok'.issued_even, ok'.sorted, fun hper => (new hper).2⟩
  · refine (Along.with_invariant keep (start_ownOk T x) all).mono fun N a ⟨⟨own, ok⟩, _⟩ => ?_
    refine ensures_iff.mpr ⟨fun N' run hper => ?_, fun _ _ => trivial⟩
    obtain ⟨own', -, new⟩ := ok.step single run
    exact (new hper).1 away
  · intro N run
    obtain ⟨own, ok⟩ := exec_invariant keep (start_ownOk T x) all run
    exact ok.knownIssued

/-- The numbers 2 and 4 are given out, and the second node has heard the first of them. -/
theorem own_numbers_increase_heard : ∃ N, exec threeNodes.step threeNodes.start
      [.sendPeriodicUpdate 0, .receive 1 0 0, .sendPeriodicUpdate 0, .sendPeriodicUpdate 1] =
        .ok N ∧
    threeNodes.issued 0 N = [2, 4] ∧
    ((N.node 1).m_routingTable.find? (threeNodes.address 0)).map (·.m_seqNo) = some 2 ∧
    threeNodes.KnownIssued 0 N := by
  have right := own_numbers_increase threeNodes 0 (by decide)
    [.sendPeriodicUpdate 0, .receive 1 0 0, .sendPeriodicUpdate 0, .sendPeriodicUpdate 1]
  exact ⟨_, rfl, by decide +kernel, by decide +kernel, right.2.2 _ rfl⟩

def twoInterfaces : Config where
  m_socketAddresses := [⟨0x0a010101, 0x0a0101ff⟩, ⟨0x0a010201, 0x0a0102ff⟩]
  mainAddress := ⟨0x0a010101, 0x0a0101ff⟩
  mainAddress_mem := mem_cons_self
  m_holddownTime := 45000000000

def alone (c : Config) (away : ∀ i ∈ c.m_socketAddresses, i.m_local ≠ loopback) :
    Topology Unit where
  config _ := c
  local_ne_loopback _ := away
  local_unique _ _ _ _ _ _ _ := rfl
  broadcast_unique _ _ _ _ _ _ _ := rfl

/-- With two broadcast addresses there are two zero-hop entries, and a number is given out for each:
for the second interface always the same one. -/
theorem own_numbers_decrease : ¬Along (alone twoInterfaces (by decide)).step
    ((alone twoInterfaces (by decide)).AdvertisesRight ()) (alone twoInterfaces (by decide)).start
    [.sendPeriodicUpdate (), .sendPeriodicUpdate ()] := by
  decide +kernel

end Egsr.Dsdv
