import Egsr.Grp.SourceRoute

/-! What one step of the data plane can do: `RouteInput` delivers, drops, stores
or sends, and a round of `CheckPacketQueue` drops, keeps or queues. The steps of
a node are these with anything at all happening to its vehicle in between. -/

namespace Egsr.Grp.DataPlane

open Grp.Road Grp.Header Grp.HeaderRoundTrip Grp.State List
open Grp.Forwarding Grp.SourceRoute Lib.Outcome Lib.SinglePrecision Network.ByteIterator

/-! ## Forwarding -/

variable (n : Node)

def startClock (header : Ipv4Header) : Ipv4Address × Ipv4Address → Option Time :=
  if n.wTimeCache (flow header) = none then
    Function.update n.wTimeCache (flow header) (some n.now)
  else n.wTimeCache

def storedNode (p : Packet) (header : Ipv4Header) (h : DataPacketHeader)
    (payload : List UInt8) : Node :=
  { n with
    wTimeCache := startClock n header
    pwaitqueue := n.pwaitqueue ++ [⟨{ p with bytes := dataBytes h ++ payload }, header, n.now⟩]
    storePacketTrace := n.storePacketTrace ++ [header] }

def sentBytes (header : Ipv4Header) (h : DataPacketHeader) (payload : List UInt8)
    (hop : Ipv4Address) : List UInt8 :=
  if hop = header.destination then payload else dataBytes h ++ payload

def sentNode (p : Packet) (header : Ipv4Header) (h : DataPacketHeader)
    (payload : List UInt8) (source hop : Ipv4Address) : Node :=
  { n with ucbCalls := n.ucbCalls ++
      [⟨⟨header.destination, source, hop⟩, { p with bytes := sentBytes header h payload hop },
        header⟩] }

theorem storePacket_eq (p : Packet) (header : Ipv4Header) (h : DataPacketHeader)
    (payload : List UInt8) :
    storePacket n p header h payload = .ok (storedNode n p header h payload) := by
  simp only [storePacket, pushHeader_eq, bind, Except.bind]
  rfl

theorem receiverIface_spec (v : Vehicle) (hop : Ipv4Address) :
    Ensures (receiverIface v hop) (fun _ => True) (fun e => e = .endIterator) := by
  unfold receiverIface
  cases v.neiTable[hop]? with
  | some entry => trivial
  | none => cases v.pastEnd <;> simp

section Decisions

variable [Platform] (n : Node)

def ReadsOk (bytes : List UInt8) : Prop :=
  ∀ d payload, popHeader bytes = .ok (d, payload) → HeaderOk d

/-- A forwarded packet is stored or sent, under a well-formed header if it had one. -/
def Handled (p : Packet) (header : Ipv4Header) (n' : Node) : Prop :=
  ∃ d payload v h, popHeader p.bytes = .ok (d, payload) ∧ SameButGraph n.toVehicle v ∧
    (ReadsOk p.bytes → HeaderOk h) ∧
    (n' = storedNode { n with toVehicle := v } p header h payload ∨ ∃ source hop, hop ≠ loopback ∧
        n' = sentNode { n with toVehicle := v } p header h payload source hop)

theorem forwardPacket_spec (p : Packet) (header : Ipv4Header) :
    Ensures (forwardPacket n p header) (Handled n p header)
      (fun e => (ReadsOk p.bytes → e ≠ .cursor) ∧ e ≠ .timerRunning) := by
  have hother : ∀ e : Fault, e = .junction ∨ e = .walk ∨ e = .header ∨ e = .endIterator →
      (ReadsOk p.bytes → e ≠ .cursor) ∧ e ≠ .timerRunning := by
    rintro e (rfl | rfl | rfl | rfl) <;> simp
  unfold forwardPacket
  refine ((ensures_self _).mono (fun _ h => h) fun e he =>
    hother e (.inr (.inr (.inl (popHeader_error he))))).bind fun r hpop => ?_
  obtain ⟨d, payload⟩ := r
  have hfirst : Ensures (if d.path.length = 0 then refreshPath n.toVehicle d
      else pure (d, n.toVehicle)) (fun r => SameButGraph n.toVehicle r.2 ∧
        (ReadsOk p.bytes → r.1.path = [] ∨ ∃ jid, readPath r.1.path r.1.nextJidIdx.toNat = .ok jid ∧
          At r.1.path r.1.nextJidIdx.toNat jid))
      (fun e => (ReadsOk p.bytes → e ≠ .cursor) ∧ e ≠ .timerRunning) := by
    refine Ensures.ite (fun _ => ?_) fun hne => ?_
    · exact (refreshPath_spec n.toVehicle d).mono (fun r h => ⟨h.1, fun _ => h.2⟩)
        fun e he => hother e (he.imp id .inl)
    · refine ⟨SameButGraph.refl _, fun ok => .inr ?_⟩
      exact (ok d payload hpop).readPath (by simpa using hne)
  refine hfirst.bind fun r hr => ?_
  obtain ⟨d₁, v₁⟩ := r
  refine Ensures.ite (fun _ => ?_) fun hne₁ => ?_
  · rw [storePacket_eq]
    exact ⟨d, payload, v₁, _, hpop, hr.1, fun _ => headerOk_nil rfl, .inl rfl⟩
  · have hread : Ensures (readPath d₁.path d₁.nextJidIdx.toNat)
        (fun jid => ReadsOk p.bytes → At d₁.path d₁.nextJidIdx.toNat jid)
        (fun e => (ReadsOk p.bytes → e ≠ .cursor) ∧ e ≠ .timerRunning) := by
      have hpath : d₁.path ≠ [] := by simpa using hne₁
      cases hread : readPath d₁.path d₁.nextJidIdx.toNat with
      | ok jid =>
        intro ok
        obtain ⟨jid', hread', hat⟩ := (hr.2 ok).resolve_left hpath
        rw [hread, Except.ok.injEq] at hread'
        exact hread' ▸ hat
      | error e =>
        refine ⟨fun ok => ?_, by simp [readPath_error hread]⟩
        obtain ⟨jid', hread', -⟩ := (hr.2 ok).resolve_left hpath
        rw [hread] at hread'
        cases hread'
    refine hread.bind fun jid hjid => ?_
    refine ((junctionStep_spec v₁ d₁ _ jid).mono (fun _ h => h) fun e he =>
      ⟨fun ok => he.1 (hjid ok), he.2⟩).bind fun r hr₂ => ?_
    obtain ⟨d₂, idx, jid₂, v₂⟩ := r
    have hsame : SameButGraph n.toVehicle v₂ := hr.1.trans hr₂.1
    refine Ensures.ite (fun _ => ?_) fun hne₂ => ?_
    · rw [storePacket_eq]
      exact ⟨d, payload, v₂, _, hpop, hsame, fun _ => headerOk_nil rfl, .inl rfl⟩
    · have hpath : d₂.path ≠ [] := by simpa using hne₂
      let h : DataPacketHeader := ⟨UInt16.ofNat idx, UInt16.ofNat jid₂, d₂.path⟩
      have hok : ReadsOk p.bytes → HeaderOk h :=
        fun ok => ((hr₂.2 (hjid ok)).resolve_left hpath).headerOk
      refine ((intraPathRouting_spec v₂ header.destination jid₂).mono (fun _ _ => trivial)
        fun e he => hother e (.inl he)).bind fun hop _ => ?_
      refine Ensures.ite (fun hhop => ?_) fun _ => ?_
      · refine ((receiverIface_spec v₂ hop).mono (fun _ h => h) fun e he =>
          hother e (.inr (.inr (.inr he)))).bind fun iface _ => ?_
        have hbytes : (if hop ≠ header.destination then pushHeader h payload else pure payload) =
            .ok (sentBytes header h payload hop) := by
          by_cases hdest : hop = header.destination
          · simp [sentBytes, hdest]
            rfl
          · simp [sentBytes, hdest]
        rw [hbytes]
        exact ⟨d, payload, v₂, h, hpop, hsame, hok, .inr ⟨_, hop, hhop, rfl⟩⟩
      · rw [storePacket_eq]
        exact ⟨d, payload, v₂, _, hpop, hsame, hok, .inl rfl⟩

end Decisions

/-! ## Checking a waiting packet -/

variable (q : PacketQueueEntry)

def droppedNode : Node :=
  { n with
    dropPacketTrace := n.dropPacketTrace ++ [(q.packet, q.header)]
    wTimeCache := Function.update n.wTimeCache (flow q.header) none }

def keptNode (bytes : List UInt8) : Node :=
  { n with pwaitqueue := n.pwaitqueue ++ [{ q with packet := { q.packet with bytes } }] }

def queuedNode (bytes : List UInt8) (hop : Ipv4Address) : Node :=
  { n with
    wTimeCache := Function.update n.wTimeCache (flow q.header) none
    squeue := n.squeue ++ [⟨{ q.packet with bytes }, q.header, hop⟩] }

def sentFrom (s : SendingQueue) : Sent :=
  ⟨⟨s.header.destination, s.header.source, s.nexthop⟩, s.packet, s.header⟩

theorem sendFromSQueue_nil {n : Node} (h : n.squeue = []) : sendFromSQueue n = n := by
  simp [sendFromSQueue, h]

theorem sendFromSQueue_concat {n : Node} {queue : List SendingQueue} {s : SendingQueue}
    (h : n.squeue = queue ++ [s]) : sendFromSQueue n = { n with
      squeue := queue
      ucbCalls := n.ucbCalls ++ [sentFrom s]
      sendEvents := n.sendEvents ++ [n.now + 10 / 1000] } := by
  simp only [sendFromSQueue, h, List.getLast?_concat, dropLast_concat, sentFrom]

@[simp] theorem sendFromSQueue_toVehicle : (sendFromSQueue n).toVehicle = n.toVehicle := by
  cases eq_nil_or_concat' n.squeue with
  | inl h => rw [sendFromSQueue_nil h]
  | inr h =>
    obtain ⟨queue, s, hs⟩ := h
    rw [sendFromSQueue_concat hs]

/-- `CheckPacketQueue` when its loop is done: the first packet queued is sent. -/
def sendFirst : Node := if n.squeue.isEmpty then n else sendFromSQueue n

theorem sendFirst_eq : sendFirst n = n ∧ n.squeue = [] ∨ sendFirst n = sendFromSQueue n := by
  by_cases hempty : n.squeue.isEmpty
  · exact .inl ⟨if_pos hempty, isEmpty_iff.mp hempty⟩
  · exact .inr (if_neg hempty)

@[simp] theorem sendFirst_toVehicle : (sendFirst n).toVehicle = n.toVehicle := by
  cases sendFirst_eq n with
  | inl h => rw [h.1]
  | inr h => rw [h, sendFromSQueue_toVehicle]

section Decisions

variable [Platform] (n : Node) (q : PacketQueueEntry)

/-- The next hop `CheckPacketQueue` finds for a packet it does not drop. -/
def PicksHop (v : Vehicle) (dest hop : Ipv4Address) : Prop :=
  ∃ jid, Heads v jid ∧ intraPathRouting v dest jid = .ok hop

/-- A packet checked is dropped if the clock of its flow has run out, and else
goes on waiting or is queued, under a well-formed header either way. -/
def Checked (n' : Node) : Prop :=
  expired n q.header ∧ n' = droppedNode n q ∨
    ¬ expired n q.header ∧ ∃ d payload v h path, popHeader q.packet.bytes = .ok (d, payload) ∧
      pathToRsu n.toVehicle = .ok (path, v) ∧ HeaderOk h ∧
      ((∀ hop, PicksHop n.toVehicle q.header.destination hop → hop = loopback) ∧
          n' = keptNode { n with toVehicle := v } q (dataBytes h ++ payload) ∨
        ∃ hop, hop ≠ loopback ∧ PicksHop n.toVehicle q.header.destination hop ∧
          n' = queuedNode { n with toVehicle := v } q (dataBytes h ++ payload) hop)

theorem checkEntry_spec : Ensures (checkEntry n q) (Checked n q)
      (fun e => (e = .cursor → AtRsu n.toVehicle ∧ ¬ expired n q.header) ∧ e ≠ .timerRunning) := by
  unfold checkEntry
  refine Ensures.ite (fun hexp => .inl ⟨hexp, rfl⟩) fun hexp => ?_
  refine ((ensures_self _).mono (fun _ h => h) fun e he => ?_).bind fun r hpop => ?_
  · simp [popHeader_error he]
  obtain ⟨d, payload⟩ := r
  refine ((replan_spec n.toVehicle q.header.destination d).mono (fun _ h => h) fun e he =>
    ⟨fun hcursor => ⟨he.1 hcursor, hexp⟩, he.2⟩).bind fun r hr => ?_
  obtain ⟨h, hop, v⟩ := r
  obtain ⟨hok, ⟨path, hpath⟩, hpick, honly⟩ := hr
  simp only [pushHeader_eq, bind, Except.bind]
  refine Ensures.ite (fun hloop => ?_) fun hhop => ?_
  · refine .inr ⟨hexp, d, payload, v, h, path, hpop, hpath, hok, .inl ⟨fun hop' hpick' => ?_, rfl⟩⟩
    obtain ⟨jid, hheads, hroute⟩ := hpick'
    rw [← honly jid hop' hheads hroute, hloop]
  · exact .inr ⟨hexp, d, payload, v, h, path, hpop, hpath, hok, .inr ⟨hop, hhop, hpick hhop, rfl⟩⟩

theorem Checked.pqueue {n n' : Node} {q : PacketQueueEntry} (h : Checked n q n') :
    n'.pqueue = n.pqueue := by
  cases h with
  | inl h => rw [h.2, droppedNode]
  | inr h =>
    obtain ⟨-, d, payload, v, h, path, -, -, -, ⟨-, hkept⟩ | ⟨hop, -, -, hqueued⟩⟩ := h
    · rw [hkept, keptNode]
    · rw [hqueued, queuedNode]

theorem checkLoop_rule {queue : List PacketQueueEntry} {err : Fault → Prop}
    {Inv : List PacketQueueEntry → Node → Prop}
    (round : ∀ left q done m, queue = left ++ q :: done → m.pqueue = left ++ [q] → Inv done m →
      Ensures (checkEntry { m with pqueue := left } q) (Inv (q :: done)) err)
    {n : Node} (start : n.pqueue = queue) (init : Inv [] n) :
    Ensures (checkLoop queue.length n) (fun m => m.pqueue = [] ∧ Inv queue m) err := by
  have hloop : ∀ (left done : List PacketQueueEntry) (m : Node), queue = left ++ done →
      m.pqueue = left → Inv done m →
      Ensures (checkLoop left.length m) (fun m => m.pqueue = [] ∧ Inv queue m) err := by
    intro left
    induction left using List.reverseRecOn with
    | nil =>
      intro done m hqueue hleft hinv
      exact ⟨hleft, hqueue ▸ hinv⟩
    | append_singleton left q ih =>
      intro done m hqueue hleft hinv
      rw [append_assoc, singleton_append] at hqueue
      rw [length_append, length_singleton, checkLoop, hleft, List.getLast?_concat, dropLast_concat]
      have hround := round left q done m hqueue hleft hinv
      refine (hround.and_ok fun m' run => ((checkEntry_spec _ q).of_ok run).pqueue).bind ?_
      exact fun m' hm' => ih (q :: done) m' hqueue hm'.2 hm'.1
  exact hloop queue [] n (by simp) start init

theorem checkPacketQueue_eq : checkPacketQueue n = (checkLoop n.pwaitqueue.length
      { n with pqueue := n.pwaitqueue, pwaitqueue := [] }).map sendFirst := by
  simp only [checkPacketQueue, bind, Except.bind, pure, Except.pure]
  cases checkLoop n.pwaitqueue.length { n with pqueue := n.pwaitqueue, pwaitqueue := [] } <;> rfl

/-! ## Sending -/

/-- A route never leads through the destination itself: the last hop is left to
the node's own `RouteInput`. -/
theorem routeOutput_spec (v : Vehicle) (dest : Ipv4Address) : Ensures (routeOutput v dest)
      (fun r => (r.1.gateway = dest → dest = loopback) ∧ SameButGraphs v r.2)
      (fun e => e = .junction ∨ e = .walk ∨ e = .endIterator) := by
  have hroute : ∀ (v' : Vehicle) (hop : Ipv4Address) (direct : Prop) [Decidable direct],
      SameButGraphs v v' → (hop = dest → direct) →
      Ensures (if direct then pure ((⟨dest, v'.mainAddress, loopback⟩ : Ipv4Route), v') else do
          let receiverIfaceAddr ← receiverIface v' hop
          pure (⟨dest, receiverIfaceAddr, hop⟩, v'))
        (fun r => (r.1.gateway = dest → dest = loopback) ∧ SameButGraphs v r.2)
        (fun e => e = .junction ∨ e = .walk ∨ e = .endIterator) := by
    intro v' hop direct _ hsame hdirect
    refine Ensures.ite (fun _ => ⟨Eq.symm, hsame⟩) fun hnot => ?_
    refine ((receiverIface_spec v' hop).mono (fun _ h => h) fun e he => .inr (.inr he)).bind
      fun iface _ => ?_
    exact ⟨fun hdest => absurd (hdirect hdest) hnot, hsame⟩
  unfold routeOutput
  refine ((pathToRsu_spec v).mono (fun _ h => h) fun e he => he.imp id .inl).bind fun r hr => ?_
  obtain ⟨path, v₁⟩ := r
  have hsame : SameButGraphs v v₁ := hr.2.graphs
  cases path with
  | nil =>
    have htarget : Ensures (if v₁.junAreaTag then getPacketNextJID v₁ else do
        let jid ← getNearestJID v₁
        pure ((jid : ℤ), v₁))
        (fun r => SameButGraphs v r.2)
        (fun e => e = .junction ∨ e = .walk ∨ e = .endIterator) := by
      refine Ensures.ite (fun _ => ?_) fun _ => ?_
      · refine (getPacketNextJID_spec v₁).mono (fun r h => ?_) fun e he => he.imp id .inl
        have hgraph2 : SameButGraphs v₁ r.2 := by
          unfold SameButGraphs
          rw [h]
        exact hsame.trans hgraph2
      · refine ((getNearestJID_spec v₁).mono (fun _ h => h) fun e he => .inl he).bind
          fun jid _ => ?_
        exact hsame
    refine htarget.bind fun r hr₂ => ?_
    refine ((intraPathRouting_spec r.2 dest r.1).mono (fun _ h => h) fun e he => .inl he).bind
      fun hop _ => ?_
    exact hroute r.2 hop _ hr₂ fun h => .inr (.inl h)
  | cons j path =>
    refine ((intraPathRouting_spec v₁ dest j.toNat).mono (fun _ h => h) fun e he => .inl he).bind
      fun hop _ => ?_
    exact hroute v₁ hop _ hsame .inr

/-- What a node does with a packet of its own: it goes down with a route that is
not the last hop, under a well-formed header unless it looks like a broadcast. -/
structure Originated (dest : Ipv4Address) (p : Packet) (sent : Sent) (v : Vehicle) : Prop where
  toDest : sent.header.destination = dest
  notLast : sent.route.gateway = dest → dest = loopback
  same : SameButGraphs n.toVehicle v
  headed : ¬ matchesBroadcast dest →
    ∃ h, HeaderOk h ∧ sent.packet = ⟨p.uid, dataBytes h ++ p.bytes⟩

theorem addDataHeader_spec (p : Packet) (source dest : Ipv4Address)
    {route : Ipv4Route} (notLast : route.gateway = dest → dest = loopback) :
    Ensures (addDataHeader n p source dest route) (fun n' => ∃ sent v, Originated n dest p sent v ∧
        n' = { n with toVehicle := v, downTargetCalls := n.downTargetCalls ++ [sent] })
      (fun e => e = .junction ∨ e = .walk ∨ e = .endIterator) := by
  unfold addDataHeader
  by_cases hb : matchesBroadcast dest
  · rw [if_pos hb]
    exact ⟨_, n.toVehicle, ⟨rfl, notLast, rfl, fun hnot => absurd hb hnot⟩, rfl⟩
  · rw [if_neg hb]
    have hspec := pathToRsu_spec n.toVehicle
    cases hplan : pathToRsu n.toVehicle with
    | error e =>
      rw [hplan] at hspec
      exact hspec.imp id .inl
    | ok r =>
      obtain ⟨path, v⟩ := r
      rw [hplan] at hspec
      simp only [pushHeader_eq, bind, Except.bind, pure, Except.pure, ensures_ok]
      refine ⟨_, v, ⟨rfl, notLast, hspec.2.graphs, fun _ => ⟨_, ?_, rfl⟩⟩, rfl⟩
      cases path with
      | nil => exact headerOk_nil rfl
      | cons j path =>
        have hplanned : Planned n.toVehicle (j :: path) := hspec.1.resolve_left (by simp)
        have hok := hplanned.headerOk
        rwa [UInt16.ofNat_toNat] at hok

def originate (destination : Ipv4Address) (p : Packet) : Except Fault Node := do
  let (route, v) ← routeOutput n.toVehicle destination
  addDataHeader { n with toVehicle := v } p route.source destination route

theorem originate_spec (destination : Ipv4Address) (p : Packet) :
    Ensures (originate n destination p) (fun n' => ∃ sent v, Originated n destination p sent v ∧
        n' = { n with toVehicle := v, downTargetCalls := n.downTargetCalls ++ [sent] })
      (fun e => e = .junction ∨ e = .walk ∨ e = .endIterator) := by
  refine (routeOutput_spec n.toVehicle destination).bind fun r hr => ?_
  obtain ⟨route, v⟩ := r
  obtain ⟨hgate, hsame⟩ := hr
  refine (addDataHeader_spec { n with toVehicle := v } p _ destination hgate).weaken fun n' h => ?_
  obtain ⟨sent, w, ho, rfl⟩ := h
  exact ⟨sent, w, ⟨ho.toDest, ho.notLast, hsame.trans ho.same, ho.headed⟩, rfl⟩

inductive NodeAction where
  /-- Anything that is not the data plane: messages, positions, timers, the clock. -/
  | observe (v : Vehicle)
  | originate (destination : Ipv4Address) (p : Packet)
  | routeInput (p : Packet) (header : Ipv4Header)
  | checkPacketQueue
  /-- Pending event `k`. -/
  | sendFromSQueue (k : ℕ)

def nodeStep : NodeAction → Except Fault Node
  | .observe v =>
    pure { n with toVehicle := { v with mainAddress := n.mainAddress, broadcast := n.broadcast } }
  | .originate destination p => originate n destination p
  | .routeInput p header => routeInput n p header
  | .checkPacketQueue => Forwarding.checkPacketQueue n
  | .sendFromSQueue k =>
    if k < n.sendEvents.length then
      pure (Forwarding.sendFromSQueue { n with sendEvents := n.sendEvents.eraseIdx k })
    else pure n

end Decisions

@[reducible] def integralPlatform : Platform where
  sqrt q := Nat.sqrt q.num.toNat
  atan _ := 0
  toFloat _ := ofUInt32 0
  bucketOrder keys := keys
  bucketOrder_perm _ := .refl _

def roadAhead : RoadMap := (range mJuncNum).map fun (j : ℕ) => ⟨j * 1000, 0, ∅⟩

/-- A vehicle at junction 44 on its way to the road-side unit, with a single road
known and every node at the far end of it. -/
def approaching : Vehicle where
  mainAddress := 0x0a010001
  broadcast := 0x0a01ffff
  rssiDistanceThreshold := 250
  carryTimeThreshold := 10
  helloInterval := 1
  map := roadAhead
  now := 0
  position := ⟨44000, 0⟩
  positionOf _ := ⟨45000, 0⟩
  last := ⟨44000, 0⟩
  speed := 0
  turn := -1
  direction := 0
  currentJID := 44
  nextJID := 45
  trailTrace := []
  junAreaTag := true
  neiTable := ∅
  graph := ⟨fun i j => if i = 44 ∧ j = 45 ∨ i = 45 ∧ j = 44 then 1000 else infinite⟩
  graph2 := Grid.fill infinite
  length := Grid.fill infinite
  p := Grid.fill (1 / 2)
  minDelay := Grid.fill timeMax
  receivedLastAnt _ := none
  antSeqNum := 0
  messageSequenceNumber := 0
  queuedMessages := []
  queuedMessagesTimer := none
  helloTimer := none
  antTimer := none
  positionCheckTimer := none
  speedTimer := none
  evaporateTimer := none
  neiTableChecks := []
  pastEnd := some 0x0a010001
  staleHeader := ⟨0, 0, []⟩
  staleMessage := ⟨.hello, 0, 0, 0, 0, 0, 0, ⟨0, 0, 0, 0, 0, []⟩,
    ⟨0, 0, 0, 0, 0, [], [], 0, 0, ofUInt32 0, ofUInt32 0⟩⟩

def approached : Vehicle := { approaching with positionOf := fun _ => approaching.position }

/-- With another vehicle 200 ahead on the road. -/
def accompanied : Vehicle := { approaching with
  neiTable := (∅ : NeighborTable).insert 0x0a010004
    ⟨-1, 0, 10, 0, ⟨44200, 0⟩, 1, 0x0a010002, 0x0a010004, .sym⟩ }

def carried : Packet := ⟨7, dataBytes ⟨0, 45, [45]⟩ ++ [1, 2, 3]⟩

def carriedHeader : Ipv4Header := ⟨0x0a010002, 0x0a010003, 64⟩

def emptyNode (v : Vehicle) : Node where
  toVehicle := v
  wTimeCache _ := none
  pqueue := []
  pwaitqueue := []
  squeue := []
  sendEvents := []
  ucbCalls := []
  downTargetCalls := []
  lcbCalls := []
  dropPacketTrace := []
  storePacketTrace := []
  accepted := []
  outlived := []

end Egsr.Grp.DataPlane
