import Egsr.Grp.Dijkstra
import Egsr.Grp.Header

/-! The state of a node and the decisions that only read it: which junction is
nearest, which neighbour is next inside a road segment, and which neighbour an
ant is handed to. -/

namespace Egsr.Grp.State

open Grp.Road Grp.Dijkstra Grp.Header Lib.Outcome Network.ByteIterator

def loopback : Ipv4Address := 0x7f000001

/-! ## Vehicles -/

inductive Status where
  | notSym
  | sym
  deriving DecidableEq

structure NeighborTableEntry where
  nTurn : ℤ
  nDirection : ℤ
  nTime : Time
  nSpeed : ℚ
  nLocation : Position
  nSequenceNum : UInt16
  receiverIfaceAddr : Ipv4Address
  nNeighborAddress : Ipv4Address
  nStatus : Status

abbrev NeighborTable := Std.TreeMap Ipv4Address NeighborTableEntry

def timeMax : Time := 9223372036854775807 / 1000000000

/-- Everything a node knows but the data packets it carries. `position` and
`positionOf` are read from the simulation; `pastEnd` is what the entry past the
end of the neighbour table gives, if reading it does not crash, and `staleHeader`
and `staleMessage` are what objects hold that are not initialized. -/
structure Vehicle where
  mainAddress : Ipv4Address
  broadcast : Ipv4Address
  rssiDistanceThreshold : ℚ
  carryTimeThreshold : ℚ
  helloInterval : Time
  map : RoadMap
  now : Time
  position : Position
  positionOf : Ipv4Address → Position
  last : Position
  speed : ℚ
  turn : ℤ
  direction : ℤ
  currentJID : ℕ
  nextJID : ℕ
  trailTrace : List ℕ
  junAreaTag : Bool
  neiTable : NeighborTable
  graph : Grid (mJuncNum + 2) ℚ
  graph2 : Grid mJuncNum ℚ
  length : Grid mJuncNum ℚ
  p : Grid mJuncNum ℚ
  minDelay : Grid mJuncNum Time
  receivedLastAnt : Ipv4Address × UInt16 → Option UInt16
  antSeqNum : UInt16
  messageSequenceNumber : UInt16
  queuedMessages : List (MessageHeader Time)
  queuedMessagesTimer : Option Time
  helloTimer : Option Time
  antTimer : Option Time
  positionCheckTimer : Option Time
  speedTimer : Option Time
  evaporateTimer : Option Time
  neiTableChecks : List (Time × Ipv4Address)
  pastEnd : Option Ipv4Address
  staleHeader : DataPacketHeader
  staleMessage : MessageHeader Time

structure Packet where
  uid : ℕ
  bytes : List UInt8
  deriving DecidableEq

structure Ipv4Header where
  source : Ipv4Address
  destination : Ipv4Address
  ttl : UInt8
  deriving DecidableEq

structure Ipv4Route where
  destination : Ipv4Address
  source : Ipv4Address
  gateway : Ipv4Address
  deriving DecidableEq

/-- A waiting packet; `stored` is the time it was put into the queue, which the
code does not keep. -/
structure PacketQueueEntry where
  packet : Packet
  header : Ipv4Header
  stored : Time
  deriving DecidableEq

structure SendingQueue where
  packet : Packet
  header : Ipv4Header
  nexthop : Ipv4Address
  deriving DecidableEq

structure Sent where
  route : Ipv4Route
  packet : Packet
  header : Ipv4Header
  deriving DecidableEq

/-- A vehicle with its data packets. The lists from `ucbCalls` to
`storePacketTrace` are the calls made so far; `accepted` and `outlived` are the
packets `RouteInput` took over and those it found at the end of their life. -/
structure Node extends Vehicle where
  wTimeCache : Ipv4Address × Ipv4Address → Option Time
  pqueue : List PacketQueueEntry
  pwaitqueue : List PacketQueueEntry
  squeue : List SendingQueue
  sendEvents : List Time
  ucbCalls : List Sent
  downTargetCalls : List Sent
  lcbCalls : List (Packet × Ipv4Header)
  dropPacketTrace : List (Packet × Ipv4Header)
  storePacketTrace : List Ipv4Header
  accepted : List (Packet × Ipv4Header)
  outlived : List (Packet × Ipv4Header)

/-! ## Positions -/

variable (v : Vehicle)

def getNearestJID : Except Fault ℕ := do
  let c ← junction v.map v.currentJID
  let n ← junction v.map v.nextJID
  if squaredDistance v.position c.position < squaredDistance v.position n.position then
    pure v.currentJID
  else pure v.nextJID

theorem getNearestJID_spec :
    Ensures (getNearestJID v) (fun jid => jid = v.currentJID ∨ jid = v.nextJID)
      (fun e => e = .junction) := by
  unfold getNearestJID
  refine (junction_spec v.map v.currentJID).bind fun c _ => ?_
  refine (junction_spec v.map v.nextJID).bind fun n _ => ?_
  exact Ensures.ite (fun _ => .inl rfl) fun _ => .inr rfl

section Decisions

variable [Platform] (v : Vehicle)

/-- One round of the loop of `IntraPathRouting` over the neighbours: `best` is
the least distance so far and the hop it belongs to. -/
def considerNeighbor (dstjid : ℕ) (target : Position) (best : ℚ × Ipv4Address)
    (nei : Ipv4Address × NeighborTableEntry) : Except Fault (ℚ × Ipv4Address) :=
  if nei.2.nStatus = .notSym then pure best
  else
    let neiDisToJID := distance nei.2.nLocation target
    let curDisToNei := distance v.position nei.2.nLocation
    if neiDisToJID < best.1 ∧ curDisToNei < v.rssiDistanceThreshold then do
      let cjid ← getNearestJID v
      let between ← (if v.junAreaTag then isBetweenSegment v.map nei.2.nLocation cjid dstjid
        else pure true)
      if between then pure (neiDisToJID, nei.1) else pure best
    else pure best

def intraPathRouting (dest : Ipv4Address) (dstjid : ℤ) : Except Fault Ipv4Address :=
  if dstjid < 0 then pure loopback
  else if distance v.position (v.positionOf dest) < v.rssiDistanceThreshold then pure dest
  else do
    let j ← junction v.map dstjid.toNat
    let mindis := distance v.position j.position
    let best ← v.neiTable.toList.foldlM (considerNeighbor v dstjid.toNat j.position)
      (mindis, loopback)
    pure best.2

theorem considerNeighbor_spec (dstjid : ℕ) (target : Position)
    (best : ℚ × Ipv4Address) (nei : Ipv4Address × NeighborTableEntry) :
    Ensures (considerNeighbor v dstjid target best nei)
      (fun best' => best' = best ∨ best'.2 = nei.1) (fun e => e = .junction) := by
  unfold considerNeighbor
  refine Ensures.ite (fun _ => .inl rfl) fun _ => Ensures.ite (fun _ => ?_) fun _ => .inl rfl
  refine (getNearestJID_spec v).bind fun cjid _ => ?_
  have hbetween : OnlyJunction (if v.junAreaTag then
      isBetweenSegment v.map nei.2.nLocation cjid dstjid else pure true) :=
    Ensures.ite (fun _ => isBetweenSegment_spec _ _ _ _) fun _ => trivial
  refine hbetween.bind fun between _ => ?_
  exact Ensures.ite (fun _ => Or.inr rfl) fun _ => Or.inl rfl

theorem intraPathRouting_spec (dest : Ipv4Address) (dstjid : ℤ) :
    Ensures (intraPathRouting v dest dstjid)
      (fun hop => hop = loopback ∨ hop = dest ∨ ∃ entry, v.neiTable[hop]? = some entry)
      (fun e => e = .junction) := by
  unfold intraPathRouting
  refine Ensures.ite (fun _ => .inl rfl) fun _ => Ensures.ite (fun _ => .inr (.inl rfl)) fun _ => ?_
  refine (junction_spec v.map dstjid.toNat).bind fun j _ => ?_
  let found : ℚ × Ipv4Address → Prop := fun best =>
    best.2 = loopback ∨ ∃ entry, v.neiTable[best.2]? = some entry
  have hloop : Ensures (v.neiTable.toList.foldlM (considerNeighbor v dstjid.toNat j.position)
      (distance v.position j.position, loopback)) found (fun e => e = .junction) := by
    refine ensures_foldlM (.inl rfl) fun best nei hnei hbest => ?_
    refine (considerNeighbor_spec v dstjid.toNat j.position best nei).weaken fun best' h => ?_
    cases h with
    | inl same => rwa [same]
    | inr key =>
      have hmem : (nei.1, nei.2) ∈ v.neiTable.toList := hnei
      rw [Std.TreeMap.mem_toList_iff_getElem?_eq_some] at hmem
      exact .inr ⟨nei.2, key ▸ hmem⟩
  refine hloop.bind fun best hbest => ?_
  cases hbest with
  | inl h => exact Or.inl h
  | inr h => exact Or.inr (.inr h)

end Decisions

/-- The loops of `GetPacketNextJID` over all pairs of junctions. -/
def adjacency (map : RoadMap) (graph2 : Grid mJuncNum ℚ) : Except Fault (Grid mJuncNum ℚ) :=
  let pairs := (List.range mJuncNum).flatMap fun i =>
    ((List.range mJuncNum).filter (i < ·)).map fun j => (i, j)
  pairs.foldlM (fun (g : Grid mJuncNum ℚ) ij => do
    let adjacent ← isAdjacentVex map ij.1 ij.2
    g.setBoth ij.1 ij.2 (if adjacent then 1 else infinite)) graph2

def getPacketNextJID : Except Fault (ℤ × Vehicle) := do
  let cjid ← getNearestJID v
  if cjid = mRsujid then pure (cjid, v)
  else do
    let graph2 ← adjacency v.map v.graph2
    let nextjid ← dijkstraAlgorithm2 graph2 cjid mRsujid
    pure (nextjid, { v with graph2 })

theorem isAdjacentVex_spec (map : RoadMap) (sjid ejid : ℕ) :
    OnlyJunction (isAdjacentVex map sjid ejid) :=
  (junction_spec map sjid).bind fun _ _ => trivial

theorem adjacency_spec (map : RoadMap) (graph2 : Grid mJuncNum ℚ) :
    OnlyJunction (adjacency map graph2) := by
  unfold adjacency
  refine ensures_foldlM trivial fun g ij _ _ => ?_
  exact (isAdjacentVex_spec map ij.1 ij.2).bind fun _ _ => g.setBoth_spec _ _ _

theorem getPacketNextJID_spec :
    Ensures (getPacketNextJID v) (fun r => r.2 = { v with graph2 := r.2.graph2 })
      (fun e => e = .junction ∨ e = .walk) := by
  unfold getPacketNextJID
  refine ((getNearestJID_spec v).mono (fun _ h => h) fun e he => .inl he).bind fun cjid _ => ?_
  refine Ensures.ite (fun _ => rfl) fun _ => ?_
  refine ((adjacency_spec v.map v.graph2).mono (fun _ h => h) fun e he => .inl he).bind
    fun graph2 _ => ?_
  exact (dijkstraAlgorithm2_spec graph2 cjid mRsujid).bind fun _ _ => rfl

def pairLt (a b : ℚ × Ipv4Address) : Prop := a.1 < b.1 ∨ a.1 = b.1 ∧ a.2 < b.2
deriving Decidable

/-- The top of a priority queue: an item above which `above` puts no other. -/
def top (above : ℚ × Ipv4Address → ℚ × Ipv4Address → Bool) (q : List (ℚ × Ipv4Address)) :
    Option (ℚ × Ipv4Address) :=
  q.foldl (fun best x => match best with
    | none => some x
    | some b => if above x b then some x else some b) none

/-- The neighbours on each street of the current junction, those on the street
between `from` and `to` left out. -/
def neighborsOnStreets (streets : List ℕ) (fromJid toJid : ℤ) :
    Except Fault (ℕ → List (ℚ × Ipv4Address)) :=
  v.neiTable.toList.foldlM (fun numOfNei nei => do
    let excluded ← (if fromJid ≠ -1 ∧ toJid ≠ -1 then
        isBetweenSegment v.map nei.2.nLocation fromJid.toNat toJid.toNat
      else pure false)
    if excluded then pure numOfNei
    else streets.foldlM (fun (numOfNei : ℕ → List (ℚ × Ipv4Address)) e => do
      let between ← isBetweenSegment v.map nei.2.nLocation v.currentJID e
      if between then
        pure (Function.update numOfNei e
          (numOfNei e ++ [(squaredDistance v.last nei.2.nLocation, nei.1)]))
      else pure numOfNei) numOfNei) fun _ => []

/-- The first street, in the order given, at which the running sum of the
neighbours exceeds `r`. -/
def lottery (numOfNei : ℕ → List (ℚ × Ipv4Address)) (r : ℕ) : ℕ → List ℕ → Option ℕ
  | _, [] => none
  | sum, e :: streets =>
    if r < sum + (numOfNei e).length then some e
    else lottery numOfNei r (sum + (numOfNei e).length) streets

/-- `rand` is the value drawn by `rand()`. -/
def getNextForwarderInAnchor [Platform] (v : Vehicle) (rand : ℕ) (fromJid toJid : ℤ) :
    Except Fault (ℤ × Ipv4Address) := do
  let here ← junction v.map v.currentJID
  let streets := here.outedge.keys
  if v.neiTable.size = 0 then pure (-1, loopback)
  else do
    let numOfNei ← neighborsOnStreets v streets fromJid toJid
    match lottery numOfNei (rand % v.neiTable.size) 0 (Platform.bucketOrder streets) with
    | none => pure (-1, loopback)
    | some selected =>
      match top (fun a b => pairLt b a) (numOfNei selected) with
      | none => pure (-1, loopback)
      | some nearest => pure (selected, nearest.2)

def getNextForwarderInSegment (nextJid : ℕ) : Except Fault Ipv4Address := do
  let j ← junction v.map nextJid
  let curDist := squaredDistance v.last j.position
  let q := v.neiTable.toList.filterMap fun nei =>
    let dist := squaredDistance j.position nei.2.nLocation
    if dist < curDist then some (dist, nei.1) else none
  match top (fun a b => pairLt a b) q with
  | none => pure loopback
  | some nearest => pure nearest.2

end Egsr.Grp.State
