import Egsr.Grp.Network

/-! The header of a data packet over its whole trip. Every packet that waits, is
queued or travels to a relay has one well-formed header on its payload. With
`strict` the last hop carries the payload alone, which the check of the waiting
queue gets wrong if the next hop is the destination itself. -/

namespace Egsr.Grp.HeaderBalance

open Grp.Road Grp.State Grp.Forwarding Grp.SourceRoute Grp.DataPlane List Function
open Grp.HeaderRoundTrip Grp.QueueCheck Grp.Network Lib.Outcome Lib.Run Network.ByteIterator

/-! ## Packets of a node -/

section Invariant

variable (strict : Prop) (given : List (Ipv4Address × List UInt8))

structure Carried (s : Sent) : Prop where
  aside : s.route.gateway ≠ loopback
  relay : s.route.gateway ≠ s.header.destination → Wrapped given s.packet s.header.destination
  last : s.route.gateway = s.header.destination →
    Whole given s.packet s.header.destination ∨
      ¬ strict ∧ Wrapped given s.packet s.header.destination

structure Launched (a : Ipv4Address) (s : Sent) : Prop where
  wrapped : Wrapped given s.packet s.header.destination
  relay : s.route.gateway ≠ s.header.destination
  away : strict → s.header.destination ≠ a

structure Queued (s : SendingQueue) : Prop where
  wrapped : Wrapped given s.packet s.header.destination
  aside : s.nexthop ≠ loopback
  relay : strict → s.nexthop ≠ s.header.destination

structure NodeOk (a : Ipv4Address) (n : Node) : Prop where
  address : n.mainAddress = a
  waiting : ∀ q ∈ n.pwaitqueue, Wrapped given q.packet q.header.destination
  queued : ∀ s ∈ n.squeue, Queued strict given s
  carried : ∀ s ∈ n.ucbCalls, Carried strict given s
  launched : ∀ s ∈ n.downTargetCalls, Launched strict given a s
  delivered : strict → ∀ c ∈ n.lcbCalls,
    c.2.destination = a ∧ Whole given c.1 c.2.destination

end Invariant

section Append

variable {strict : Prop} {given : List (Ipv4Address × List UInt8)}

theorem Carried.append {s : Sent} (h : Carried strict given s)
    (more : List (Ipv4Address × List UInt8)) : Carried strict (given ++ more) s :=
  ⟨h.aside, fun hne => (h.relay hne).append more,
    fun heq => (h.last heq).imp (·.append more) fun hw => ⟨hw.1, hw.2.append more⟩⟩

theorem NodeOk.append {a : Ipv4Address} {n : Node} (h : NodeOk strict given a n)
    (more : List (Ipv4Address × List UInt8)) : NodeOk strict (given ++ more) a n where
  address := h.address
  waiting q hq := (h.waiting q hq).append more
  queued s hs := ⟨(h.queued s hs).wrapped.append more, (h.queued s hs).aside, (h.queued s hs).relay⟩
  carried s hs := (h.carried s hs).append more
  launched s hs :=
    ⟨(h.launched s hs).wrapped.append more, (h.launched s hs).relay, (h.launched s hs).away⟩
  delivered hstrict c hc :=
    ⟨(h.delivered hstrict c hc).1, (h.delivered hstrict c hc).2.append more⟩

theorem Queued.carried {s : SendingQueue} (h : Queued strict given s) :
    Carried strict given (sentFrom s) where
  aside := h.aside
  relay _ := h.wrapped
  last heq := .inr ⟨fun hstrict => h.relay hstrict heq, h.wrapped⟩

theorem NodeOk.send {a : Ipv4Address} {n : Node} (h : NodeOk strict given a n) :
    NodeOk strict given a (sendFromSQueue n) := by
  cases eq_nil_or_concat' n.squeue with
  | inl hnil => rwa [sendFromSQueue_nil hnil]
  | inr hcat =>
    obtain ⟨queue, s, hs⟩ := hcat
    have hqueued : ∀ t ∈ queue ++ [s], Queued strict given t := hs ▸ h.queued
    rw [sendFromSQueue_concat hs]
    refine ⟨h.address, h.waiting, fun t ht => hqueued t (by simp [ht]), fun t ht => ?_,
      h.launched, h.delivered⟩
    cases mem_append.mp ht with
    | inl hold => exact h.carried t hold
    | inr hnew =>
      rw [mem_singleton.mp hnew]
      exact (hqueued s (by simp)).carried

end Append

structure NetOk (strict : Prop) (net : Net) : Prop where
  nodes : ∀ a, NodeOk strict net.given a (net.node a)
  unicast : ∀ dest bytes, (dest, bytes) ∈ net.given → Unicast net dest

theorem NetOk.destination {strict : Prop} {net : Net} (h : NetOk strict net) {p : Packet}
    {dest : Ipv4Address} (wrapped : Wrapped net.given p dest) (b : Ipv4Address)
    (hdest : isDestinationAddress (net.node b).toVehicle dest) : dest = b := by
  obtain ⟨bytes, hmem⟩ := wrapped.mem
  have huni := h.unicast dest bytes hmem
  have hlimited : dest ≠ 0xffffffff := fun heq => huni.notBroadcast (by rw [heq]; decide)
  rcases hdest with haddr | hsub | hmulti | hall | hloop
  · rw [haddr, (h.nodes b).address]
  · exact absurd hsub (huni.notSubnet b)
  · exact absurd hmulti huni.notMulticast
  · exact absurd hall hlimited
  · exact absurd hloop huni.notLoopback

/-! ## Steps of a node -/

section Decisions

variable [Platform] {strict : Prop} {given : List (Ipv4Address × List UInt8)}
variable {a : Ipv4Address} {n : Node}

theorem NodeOk.arrive (h : NodeOk strict given a n) {p : Packet} {header : Ipv4Header}
    (wrapped : Wrapped given p header.destination)
    (unicast : isDestinationAddress n.toVehicle header.destination → header.destination = a)
    (away : strict → header.destination ≠ a) :
    Ensures (routeInput n p header) (NodeOk strict given a) (fun e => e ≠ .cursor) := by
  unfold routeInput
  refine Ensures.ite (fun hdest => ?_) fun _ => Ensures.ite (fun _ => ?_) fun _ => ?_
  · exact ⟨h.address, h.waiting, h.queued, h.carried, h.launched,
      fun hstrict => absurd (unicast hdest) (away hstrict)⟩
  · exact ⟨h.address, h.waiting, h.queued, h.carried, h.launched, h.delivered⟩
  · refine (forwardPacket_spec _ p header).mono (fun n' hn' => ?_) fun e he => he.1 wrapped.readsOk
    obtain ⟨d, payload, v, d', hpop, hsame, hok, hcase⟩ := hn'
    have hgiven := wrapped.pop hpop
    have haddress : v.mainAddress = a := by rw [hsame, ← h.address]
    have hwrapped : ∀ q : Packet, q.uid = p.uid → q.bytes = dataBytes d' ++ payload →
        Wrapped given q header.destination := fun q huid hbytes =>
      ⟨d', payload, hok wrapped.readsOk, hbytes, huid ▸ hgiven⟩
    cases hcase with
    | inl hstored =>
      rw [hstored]
      refine ⟨haddress, fun q hq => ?_, h.queued, h.carried, h.launched, h.delivered⟩
      cases mem_append.mp hq with
      | inl hold => exact h.waiting q hold
      | inr hnew =>
        rw [mem_singleton.mp hnew]
        exact hwrapped _ rfl rfl
    | inr hsent =>
      obtain ⟨source, hop, hhop, rfl⟩ := hsent
      refine ⟨haddress, h.waiting, h.queued, fun s hs => ?_, h.launched, h.delivered⟩
      cases mem_append.mp hs with
      | inl hold => exact h.carried s hold
      | inr hnew =>
        rw [mem_singleton.mp hnew]
        refine ⟨hhop, fun hne => hwrapped _ rfl (if_neg hne), fun heq => .inl ?_⟩
        have hbytes : sentBytes header d' payload hop = payload := if_pos heq
        simp only [Whole, hbytes, hgiven]

theorem NodeOk.arrive_last (h : NodeOk strict given a n) {p : Packet} {header : Ipv4Header}
    (here : header.destination = a)
    (whole : Whole given p header.destination ∨ ¬ strict ∧ Wrapped given p header.destination) :
    Ensures (routeInput n p header) (NodeOk strict given a) (fun e => e ≠ .cursor) := by
  have hdest : isDestinationAddress n.toVehicle header.destination :=
    .inl (by rw [here, h.address])
  rw [routeInput, if_pos hdest]
  refine ⟨h.address, h.waiting, h.queued, h.carried, h.launched, fun hstrict c hc => ?_⟩
  cases mem_append.mp hc with
  | inl hold => exact h.delivered hstrict c hold
  | inr hnew =>
    rw [mem_singleton.mp hnew]
    exact ⟨here, whole.resolve_right fun hw => hw.1 hstrict⟩

def Stays (n : Node) (q : PacketQueueEntry) : Prop :=
  ∃ left behind, n.pwaitqueue = left ++ q :: behind ∧ Survives n q behind

theorem NodeOk.check (h : NodeOk strict given a n) (relayed : strict → ∀ q, Stays n q →
      ¬ PicksHop n.toVehicle q.header.destination q.header.destination) :
    Ensures (checkPacketQueue n) (NodeOk strict given a)
      (fun e => e = .cursor → AtRsu n.toVehicle ∧ ∃ q, Stays n q) := by
  let Inv : List PacketQueueEntry → Node → Prop := fun _ m => NodeOk strict given a m
  have hround : ∀ left q done m, n.pwaitqueue = left ++ q :: done → m.pqueue = left ++ [q] →
      Checking n done m → Inv done m →
      Ensures (checkEntry { m with pqueue := left } q) (Inv (q :: done))
        (fun e => e = .cursor → AtRsu n.toVehicle ∧ ∃ q, Stays n q) := by
    intro left q done m hqueue _ hm hok
    have hwait : Wrapped given q.packet q.header.destination :=
      h.waiting q (by rw [hqueue]; simp)
    have hstays : ¬ expired m q.header → Stays n q :=
      fun hrun => ⟨left, done, hqueue, hm.survives.mp hrun⟩
    refine (checkEntry_spec { m with pqueue := left } q).mono (fun m' hm' => ?_) fun e he hcursor =>
      ⟨hm.atRsu.mp (he.1 hcursor).1, q, hstays (he.1 hcursor).2⟩
    cases hm' with
    | inl hdrop =>
      rw [hdrop.2]
      exact ⟨hok.address, hok.waiting, hok.queued, hok.carried, hok.launched, hok.delivered⟩
    | inr hstay =>
      obtain ⟨hrun, d, payload, v, d', path, hpop, hplan, hd', hcase⟩ := hstay
      have haddress : v.mainAddress = a := by
        rw [(hm.planned hplan).1, ← h.address]
      have hwrapped : Wrapped given { q.packet with bytes := dataBytes d' ++ payload }
          q.header.destination := ⟨d', payload, hd', rfl, hwait.pop hpop⟩
      cases hcase with
      | inl hkept =>
        rw [hkept.2]
        refine ⟨haddress, fun r hr => ?_, hok.queued, hok.carried, hok.launched, hok.delivered⟩
        cases mem_append.mp hr with
        | inl hold => exact hok.waiting r hold
        | inr hnew =>
          rw [mem_singleton.mp hnew]
          exact hwrapped
      | inr hqueued =>
        obtain ⟨hop, hhop, hpick, rfl⟩ := hqueued
        refine ⟨haddress, hok.waiting, fun s hs => ?_, hok.carried, hok.launched, hok.delivered⟩
        cases mem_append.mp hs with
        | inl hold => exact hok.queued s hold
        | inr hnew =>
          rw [mem_singleton.mp hnew]
          refine ⟨hwrapped, hhop, fun hstrict heq => ?_⟩
          have hpick' := hm.picksHop.mp hpick
          exact relayed hstrict q (hstays hrun) (heq ▸ hpick')
  have hinit : Inv [] { n with pqueue := n.pwaitqueue, pwaitqueue := [] } :=
    ⟨h.address, by simp, h.queued, h.carried, h.launched, h.delivered⟩
  refine (checkPacketQueue_rule hround hinit).weaken
    fun n' hn' => ?_
  obtain ⟨m, -, -, hok, rfl⟩ := hn'
  cases sendFirst_eq m with
  | inl hstay => rwa [hstay.1]
  | inr hsend =>
    rw [hsend]
    exact hok.send

theorem NodeOk.launch (h : NodeOk strict given a n) {dest : Ipv4Address} {bytes : List UInt8}
    (headed : ¬ matchesBroadcast dest) (aside : dest ≠ loopback) (away : strict → dest ≠ a) :
    Ensures (originate n dest ⟨given.length, bytes⟩)
      (NodeOk strict (given ++ [(dest, bytes)]) a) (fun e => e ≠ .cursor) := by
  refine (originate_spec n dest ⟨given.length, bytes⟩).mono (fun n' hn' => ?_) fun e he => ?_
  · obtain ⟨sent, v, ho, rfl⟩ := hn'
    have hmore := h.append [(dest, bytes)]
    have haddress : v.mainAddress = a := by rw [ho.same, ← h.address]
    refine ⟨haddress, hmore.waiting, hmore.queued, hmore.carried, fun s hs => ?_, hmore.delivered⟩
    cases mem_append.mp hs with
    | inl hold => exact hmore.launched s hold
    | inr hnew =>
      rw [mem_singleton.mp hnew]
      obtain ⟨d, hd, hpacket⟩ := ho.headed headed
      refine ⟨?_, ?_, ?_⟩
      · rw [ho.toDest]
        exact ⟨d, bytes, hd, by rw [hpacket], by rw [hpacket]; simp⟩
      · rw [ho.toDest]
        exact fun heq => aside (ho.notLast heq)
      · rwa [ho.toDest]
  · rcases he with rfl | rfl | rfl <;> simp

/-! ## Steps of the network -/

variable {net : Net}

theorem NetOk.act {more : List (Ipv4Address × List UInt8)} {act : NodeAction} {err : Fault → Prop}
    (h : NetOk strict net)
    (hnode : Ensures (nodeStep (net.node a) act) (NodeOk strict (net.given ++ more) a) err)
    (hmore : ∀ dest bytes, (dest, bytes) ∈ more → Unicast net dest) :
    Ensures (net.act a act) (fun net' => NetOk strict { net' with given := net'.given ++ more })
      err := by
  have hboth := hnode.and_ok fun n' run => (nodeStep_broadcast (net.node a) act).of_ok run
  refine hboth.bind fun n' hn' => ?_
  have hbroadcast : ∀ b, (update net.node a n' b).broadcast = (net.node b).broadcast := by
    intro b
    by_cases hb : b = a
    · rw [hb, update_self, hn'.2]
    · rw [update_of_ne hb]
  refine ⟨fun b => ?_, fun dest bytes hmem => ?_⟩
  · by_cases hb : b = a
    · simp only [hb, update_self]
      exact hn'.1
    · simp only [update_of_ne hb]
      exact (h.nodes b).append more
  · have huni : Unicast net dest := by
      cases mem_append.mp hmem with
      | inl hold => exact h.unicast dest bytes hold
      | inr hnew => exact hmore dest bytes hnew
    refine ⟨huni.notBroadcast, huni.notMulticast, huni.notLoopback, fun b => ?_⟩
    exact (hbroadcast b).symm ▸ huni.notSubnet b

theorem NetOk.act_nil {act : NodeAction} {err : Fault → Prop} (h : NetOk strict net)
    (hnode : Ensures (nodeStep (net.node a) act) (NodeOk strict net.given a) err) :
    Ensures (net.act a act) (NetOk strict) err := by
  rw [← append_nil net.given] at hnode
  refine (h.act hnode (by simp)).weaken fun net' h' => ?_
  rwa [append_nil] at h'

/-- Packets are sent to single nodes. With `strict` no node sends to itself, and
no check finds the destination itself as the next hop of a packet that stays. -/
def Sound (strict : Prop) (net : Net) : NetAction → Prop
  | .originate a dest _ => Unicast net dest ∧ (strict → dest ≠ a)
  | .checkPacketQueue a => strict → ∀ q, Stays (net.node a) q →
    ¬ PicksHop (net.node a).toVehicle q.header.destination q.header.destination
  | _ => True

/-- The source route of a packet that stays is read past its end. -/
def Overruns (net : Net) : NetAction → Prop
  | .checkPacketQueue a => AtRsu (net.node a).toVehicle ∧ ∃ q, Stays (net.node a) q
  | _ => False

theorem netStep_ok (h : NetOk strict net) (action : NetAction) (sound : Sound strict net action) :
    Ensures (netStep net action) (NetOk strict) (fun e => e = .cursor → Overruns net action) := by
  cases action with
  | observe a v =>
    refine h.act_nil ?_
    have hok := h.nodes a
    exact ⟨hok.address, hok.waiting, hok.queued, hok.carried, hok.launched, hok.delivered⟩
  | originate a dest bytes =>
    have huni := sound.1
    have hnode : Ensures (nodeStep (net.node a) (.originate dest ⟨net.given.length, bytes⟩))
        (NodeOk strict (net.given ++ [(dest, bytes)]) a) (fun e => e ≠ .cursor) :=
      (h.nodes a).launch huni.notBroadcast huni.notLoopback sound.2
    have hmore : ∀ d b, (d, b) ∈ [(dest, bytes)] → Unicast net d := by
      intro d b hmem
      cases mem_singleton.mp hmem
      exact huni
    refine ((h.act hnode hmore).mono (fun _ h => h) fun e he hcursor => absurd hcursor he).bind
      fun net' h' => h'
  | launch a s =>
    refine Ensures.ite (fun hs => ?_) fun _ => h
    have hlaunched := (h.nodes a).launched s hs
    refine h.act_nil (((h.nodes _).arrive hlaunched.wrapped (h.destination hlaunched.wrapped _)
      fun hstrict => ?_).mono (fun _ h => h) fun e he hcursor => absurd hcursor he)
    by_cases hloop : s.route.gateway = loopback
    · rw [if_pos hloop]
      exact hlaunched.away hstrict
    · rw [if_neg hloop]
      exact hlaunched.relay.symm
  | relay a s =>
    refine Ensures.ite (fun hs => ?_) fun _ => h
    have hcarried := (h.nodes a).carried s hs
    have hnode : Ensures (nodeStep (net.node s.route.gateway)
        (.routeInput s.packet { s.header with ttl := s.header.ttl - 1 }))
        (NodeOk strict net.given s.route.gateway) (fun e => e ≠ .cursor) := by
      by_cases hlast : s.route.gateway = s.header.destination
      · exact (h.nodes _).arrive_last hlast.symm (hcarried.last hlast)
      · have hwrapped := hcarried.relay hlast
        exact (h.nodes _).arrive hwrapped (h.destination hwrapped _) fun _ => Ne.symm hlast
    exact h.act_nil (hnode.mono (fun _ h => h) fun e he hcursor => absurd hcursor he)
  | checkPacketQueue a => exact h.act_nil ((h.nodes a).check sound)
  | sendFromSQueue a k =>
    refine h.act_nil (Ensures.ite (fun _ => ?_) fun _ => h.nodes a)
    have hok := h.nodes a
    exact NodeOk.send ⟨hok.address, hok.waiting, hok.queued, hok.carried, hok.launched,
      hok.delivered⟩

omit [Platform] in
theorem netStarted_ok (strict : Prop) (start : NetStarted net) : NetOk strict net := by
  refine ⟨fun a => ⟨start.address a, ?_, ?_, ?_, ?_, fun _ => ?_⟩, ?_⟩
  · simp [start.pwaitqueue a]
  · simp [start.squeue a]
  · simp [start.ucbCalls a]
  · simp [start.downTargetCalls a]
  · simp [start.lcbCalls a]
  · simp [start.given]

theorem exec_ok (strict : Prop) {net' : Net} {as : List NetAction} (start : NetStarted net)
    (along : Along netStep (Sound strict) net as) (run : exec netStep net as = .ok net') :
    NetOk strict net' := by
  have keep : ∀ s a s', NetOk strict s → Sound strict s a → netStep s a = .ok s' →
      NetOk strict s' := fun s a s' h sound hstep => (netStep_ok h a sound).of_ok hstep
  exact exec_invariant keep (netStarted_ok strict start) along run

/-- What a packet carries on its way: one header to a relay, none to its
destination, and the bytes it was given where it is delivered. -/
structure Balanced (net : Net) : Prop where
  launched : ∀ a, ∀ s ∈ (net.node a).downTargetCalls,
    s.route.gateway ≠ s.header.destination ∧ Wrapped net.given s.packet s.header.destination
  relayed : ∀ a, ∀ s ∈ (net.node a).ucbCalls, s.route.gateway ≠ s.header.destination →
    Wrapped net.given s.packet s.header.destination
  last : ∀ a, ∀ s ∈ (net.node a).ucbCalls, s.route.gateway = s.header.destination →
    Whole net.given s.packet s.header.destination
  delivered : ∀ a, ∀ c ∈ (net.node a).lcbCalls,
    c.2.destination = a ∧ Whole net.given c.1 c.2.destination

def ToOthers (net : Net) : NetAction → Prop
  | .originate a dest _ => Unicast net dest ∧ dest ≠ a
  | _ => True

/-- Packets are sent to other nodes, and no check of a waiting queue finds that
the next hop of a packet that stays is its destination. -/
def HopsAside (net : Net) : NetAction → Prop
  | .originate a dest _ => Unicast net dest ∧ dest ≠ a
  | .checkPacketQueue a => ∀ q, Stays (net.node a) q →
    ¬ PicksHop (net.node a).toVehicle q.header.destination q.header.destination
  | _ => True

theorem headers_balanced {net' : Net} (start : NetStarted net) (as : List NetAction)
    (along : Along netStep HopsAside net as) (run : exec netStep net as = .ok net') :
    Balanced net' := by
  have hsound : ∀ s a, HopsAside s a → Sound True s a := by
    intro s a h
    cases a with
    | originate a dest bytes => exact ⟨h.1, fun _ => h.2⟩
    | checkPacketQueue a => exact fun _ => h
    | observe a v => trivial
    | launch a s => trivial
    | relay a s => trivial
    | sendFromSQueue a k => trivial
  have hok := exec_ok True start (along.mono hsound) run
  refine ⟨fun a s hs => ?_, fun a s hs => ?_, fun a s hs hlast => ?_, fun a c hc => ?_⟩
  · have hlaunched := (hok.nodes a).launched s hs
    exact ⟨hlaunched.relay, hlaunched.wrapped⟩
  · exact ((hok.nodes a).carried s hs).relay
  · exact (((hok.nodes a).carried s hs).last hlast).resolve_right fun h => h.1 trivial
  · exact (hok.nodes a).delivered trivial c hc

end Decisions

def storedTrip : List NetAction :=
  [.originate 0x0a010002 0x0a010003 [1, 2, 3],
    .launch 0x0a010002 ⟨⟨0x0a010003, 0x0a010002, loopback⟩, ⟨0, carried.bytes⟩, carriedHeader⟩,
    .observe 0x0a010002 approached,
    .checkPacketQueue 0x0a010002,
    .relay 0x0a010002 ⟨⟨0x0a010003, 0x0a010002, 0x0a010003⟩, ⟨0, carried.bytes⟩, carriedHeader⟩]

/-- The packet that was stored is handed on to another vehicle, which is next to its destination. -/
def relayedTrip : List NetAction := storedTrip.take 2 ++
  [.observe 0x0a010002 accompanied, .checkPacketQueue 0x0a010002, .observe 0x0a010004 approached,
    .relay 0x0a010002 ⟨⟨0x0a010003, 0x0a010002, 0x0a010004⟩, ⟨0, carried.bytes⟩, carriedHeader⟩,
    .relay 0x0a010004 ⟨⟨0x0a010003, 0x0a010004, 0x0a010003⟩, ⟨0, [1, 2, 3]⟩,
      { carriedHeader with ttl := 63 }⟩]

theorem gathered_toOther (v : Vehicle) (sub : v.broadcast = 0x0a01ffff) :
    Unicast (gathered v) 0x0a010003 :=
  gathered_unicast (by decide) (by decide) (by decide) (by rw [sub]; decide)

theorem headers_balanced_relayed : ∃ net,
    exec (@netStep integralPlatform) (gathered approaching) relayedTrip = .ok net ∧
      (net.node 0x0a010002).sendEvents ≠ [] ∧ (net.node 0x0a010003).lcbCalls ≠ [] ∧
        Balanced net := by
  have hrun : Ensures (exec (@netStep integralPlatform) (gathered approaching) relayedTrip)
      (fun net => (net.node 0x0a010002).sendEvents ≠ [] ∧ (net.node 0x0a010003).lcbCalls ≠ [])
      (fun _ => False) := by
    decide +kernel
  obtain ⟨net, run, hsent, hdelivered⟩ := hrun.exists_ok
  have hbefore : Ensures (exec (@netStep integralPlatform) (gathered approaching)
      (relayedTrip.take 3)) (fun net =>
        (∀ q ∈ (net.node 0x0a010002).pwaitqueue, q.header.destination = 0x0a010003) ∧
        Ensures (@pathToRsu integralPlatform (net.node 0x0a010002).toVehicle)
          (fun r => r.1 = [45]) (fun _ => True) ∧
        Ensures (@intraPathRouting integralPlatform (net.node 0x0a010002).toVehicle 0x0a010003 45)
          (fun hop => hop = 0x0a010004) (fun _ => True)) (fun _ => False) := by
    decide +kernel
  have along : Along (@netStep integralPlatform) (@HopsAside integralPlatform)
      (gathered approaching) (relayedTrip.take 3 ++ relayedTrip.drop 3) := by
    refine Along.concat ⟨⟨gathered_toOther approaching rfl, by decide⟩, fun _ _ =>
      ⟨trivial, fun _ _ => ⟨trivial, fun _ _ => trivial⟩⟩⟩ fun net h => ⟨fun q hq hpick => ?_,
        fun _ _ => ⟨trivial, fun _ _ => ⟨trivial, fun _ _ => ⟨trivial, fun _ _ => trivial⟩⟩⟩⟩
    obtain ⟨hdest, hpath, hhop⟩ := hbefore.of_ok h
    obtain ⟨left, behind, hqueue, -⟩ := hq
    obtain ⟨jid, ⟨j, path, v, hplan, rfl⟩, hroute⟩ := hpick
    rw [hdest q (by simp [hqueue])] at hroute
    obtain ⟨rfl, -⟩ := List.cons.inj (hpath.of_ok hplan)
    have hahead := hhop.of_ok hroute
    revert hahead
    decide
  exact ⟨net, run, hsent, hdelivered,
    @headers_balanced integralPlatform _ net (gathered_started approaching) relayedTrip along run⟩

/-- The packet that was stored reaches its destination with the header still on it. -/
theorem storedTrip_unbalanced : NetStarted (gathered approaching) ∧
    Along (@netStep integralPlatform) ToOthers (gathered approaching) storedTrip ∧
      ∃ net, exec (@netStep integralPlatform) (gathered approaching) storedTrip = .ok net ∧
        ¬ Balanced net := by
  have hrun : Ensures (exec (@netStep integralPlatform) (gathered approaching) storedTrip)
      (fun net => net.given = [(0x0a010003, [1, 2, 3])] ∧ (net.node 0x0a010003).lcbCalls =
        [(⟨0, carried.bytes⟩, ⟨0x0a010002, 0x0a010003, 63⟩)]) (fun _ => False) := by
    decide +kernel
  obtain ⟨net, run, hgiven, hcalls⟩ := hrun.exists_ok
  refine ⟨gathered_started approaching, ?_, net, run, fun hbalanced => ?_⟩
  · exact ⟨⟨gathered_toOther approaching rfl, by decide⟩, fun _ _ => ⟨trivial, fun _ _ =>
      ⟨trivial, fun _ _ => ⟨trivial, fun _ _ => ⟨trivial, fun _ _ => trivial⟩⟩⟩⟩⟩
  · have hmem := mem_singleton_self
      ((⟨0, carried.bytes⟩, ⟨0x0a010002, 0x0a010003, 63⟩) : Packet × Ipv4Header)
    have hwhole := (hbalanced.delivered 0x0a010003 _ (hcalls ▸ hmem)).2
    rw [Whole, hgiven] at hwhole
    revert hwhole
    decide

end Egsr.Grp.HeaderBalance
