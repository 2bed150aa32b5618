import Egsr.Grp.Emf
import Egsr.Grp.Forwarding

/-! The control plane of a node: HELLO and ANT messages, the pheromone matrices,
and the timers. A timer is the time at which it expires, if it runs; a handler
that a timer calls finds it expired. Random numbers are arguments: `rand` is what
`rand()` gives and `jitter` the delay of a queued message. -/

namespace Egsr.Grp.Control

open Grp.Road Grp.Header Grp.State Grp.Forwarding Grp.Emf
open Lib.Outcome Lib.SinglePrecision Network.ByteIterator

def mAntInterval : Time := 3 / 2
def mEvaporateInterval : Time := 7
def mEvaporateAlpha : ℚ := 0.92
def maxPathLength : ℕ := 80
def antA : ℚ := 0.3
def pi : ℚ := 3.14159265358979323846

/-- `Timer::Schedule`, with the fatal error for a timer that runs. -/
def schedule (timer : Option Time) (now delay : Time) : Except Fault (Option Time) :=
  match timer with
  | some _ => throw .timerRunning
  | none => pure (some (now + delay))

variable (v : Vehicle)

def queueMessage (message : MessageHeader Time) (delay : Time) : Vehicle :=
  { v with
    queuedMessages := v.queuedMessages ++ [message]
    queuedMessagesTimer := match v.queuedMessagesTimer with
      | none => some (v.now + delay)
      | some t => some t }

/-- `if(m_helloTimer.IsRunning()){ Cancel(); Schedule(m_helloInterval); }` -/
def restartHelloTimer : Vehicle :=
  { v with helloTimer := v.helloTimer.map fun _ => v.now + v.helloInterval }

def getMessageSequenceNumber : UInt16 × Vehicle :=
  (v.messageSequenceNumber + 1, { v with messageSequenceNumber := v.messageSequenceNumber + 1 })

def getAntSeqNum : UInt16 × Vehicle :=
  (v.antSeqNum + 1, { v with antSeqNum := v.antSeqNum + 1 })

/-- Conversions of a double and of an int to an unsigned type; that of a negative
double is undefined and taken as zero. -/
def toUInt32 (x : ℚ) : UInt32 := .ofNat ⌊x⌋₊
def intToUInt32 (i : ℤ) : UInt32 := .ofNat (i % 2 ^ 32).toNat
def intToUInt16 (i : ℤ) : UInt16 := .ofNat (i % 2 ^ 16).toNat

def setLocation (hello : Hello) (p : Position) : Hello :=
  { hello with
    locationX := locToUint64 ⌊p.x * 1000⌋₊
    locationY := locToUint64 ⌊p.y * 1000⌋₊ }

def setSpeedAndDirection (hello : Hello) (speed : ℚ) (direction : ℤ) : Hello :=
  { hello with speed := toUInt32 (speed * 1000), direction := intToUInt32 direction }

def ownMessage (messageType : MessageType) (vTime : UInt8)
    (messageSequenceNumber : UInt16) : MessageHeader Time :=
  { v.staleMessage.construct with
    messageType
    vTime
    originatorAddress := v.mainAddress
    timeToLive := 1
    hopCount := 0
    messageSequenceNumber }

def sendHello (jitter : Time) : Except Fault Vehicle := do
  let vTime ← secondsToEmf v.helloInterval
  let (seq, v) := getMessageSequenceNumber v
  let msg := ownMessage v .hello vTime seq
  let hello := setSpeedAndDirection (setLocation msg.hello v.position) v.speed v.direction
  let hello := { hello with
    neighborInterfaceAddresses := hello.neighborInterfaceAddresses ++ v.neiTable.keys }
  pure (queueMessage v { msg with hello } jitter)

def helloTimerExpire (jitter : Time) : Except Fault Vehicle := do
  let v ← sendHello v jitter
  let helloTimer ← schedule v.helloTimer v.now v.helloInterval
  pure { v with helloTimer }

/-- `SendQueuedMessages`, as far as the vehicle goes; the packets are the
business of framing. -/
def sendQueuedMessages : Vehicle := { v with queuedMessages := [] }

/-- `NeighborTableEntry()` -/
def emptyEntry : NeighborTableEntry :=
  ⟨-1, 0, 0, 0, ⟨0, 0⟩, 0, 0, 0, .notSym⟩

variable (msg : MessageHeader Time)

def neighborEntry (receiverIfaceAddr : Ipv4Address) : NeighborTableEntry where
  nTurn := msg.hello.getTurn
  nDirection := msg.hello.getDirection.toBitVec.toInt
  nTime := v.now + emfToSeconds msg.vTime
  nSpeed := msg.hello.getSpeed
  nLocation := ⟨msg.hello.getLocationX, msg.hello.getLocationY⟩
  nSequenceNum := msg.messageSequenceNumber
  receiverIfaceAddr
  nNeighborAddress := msg.originatorAddress
  nStatus := if v.mainAddress ∈ msg.hello.neighborInterfaceAddresses then .sym else .notSym

def outdated : Prop :=
  ∃ entry, v.neiTable[msg.originatorAddress]? = some entry ∧
    msg.messageSequenceNumber ≤ entry.nSequenceNum

instance (v : Vehicle) (msg : MessageHeader Time) : Decidable (outdated v msg) :=
  match h : v.neiTable[msg.originatorAddress]? with
  | none => isFalse (by simp [outdated, h])
  | some entry => decidable_of_iff (msg.messageSequenceNumber ≤ entry.nSequenceNum)
      (by simp [outdated, h])

def updateNeighbor (receiverIfaceAddr : Ipv4Address) : Vehicle :=
  { v with
    neiTable := v.neiTable.insert msg.originatorAddress (neighborEntry v msg receiverIfaceAddr) }

/-- `Simulator::Schedule(GRP_NEIGHB_HOLD_TIME, &NeiTableCheckExpire, originator)` -/
def scheduleCheck (originator : Ipv4Address) : Vehicle :=
  { v with neiTableChecks := v.neiTableChecks ++ [(v.now + v.helloInterval, originator)] }

/-- `m_neiTable[addr]` makes an empty entry if there is none. -/
def neiTableCheckExpire (addr : Ipv4Address) : Vehicle :=
  let nentry := v.neiTable.getD addr emptyEntry
  let neiTable := v.neiTable.insertIfNew addr emptyEntry
  if nentry.nTime ≤ v.now then { v with neiTable := neiTable.erase addr } else { v with neiTable }

section Decisions

variable [Platform] (v : Vehicle)

/-- A HELLO from a vehicle on a crossing road is heard near a junction only. -/
def fromCrossingRoad (msg : MessageHeader Time) (cjid : ℕ) : Except Fault Bool := do
  let direction := msg.hello.getDirection.toBitVec.toInt
  if direction ≠ v.direction ∧ direction ≠ (v.direction + 2).tmod 4 then
    let j ← junction v.map cjid
    pure (!v.junAreaTag && decide (junAreaRadius <
      distance ⟨msg.hello.getLocationX, msg.hello.getLocationY⟩ j.position))
  else pure false

/-- The end of both handlers: the waiting queue is checked unless it is empty. -/
def checkWaiting (n : Node) : Except Fault Node :=
  if n.pwaitqueue.isEmpty then pure n else checkPacketQueue n

def processHello (n : Node) (msg : MessageHeader Time) (receiverIfaceAddr : Ipv4Address) :
    Except Fault Node := do
  let cjid ← getNearestJID n.toVehicle
  let crossing ← fromCrossingRoad n.toVehicle msg cjid
  if crossing then pure n
  else if outdated n.toVehicle msg then pure n
  else
    let v := updateNeighbor n.toVehicle msg receiverIfaceAddr
    checkWaiting { n with toVehicle := scheduleCheck v msg.originatorAddress }

/-! ## Ants -/

def antGet {T : Type} (xs : List T) (i : ℤ) : Except Fault T :=
  if 0 ≤ i then
    match xs[i.toNat]? with
    | some x => pure x
    | none => throw .ant
  else throw .ant

/-- The matrices when the road from `x` to `y` has taken `delay`. Division by
zero gives zero here, and infinities or no numbers in the code. -/
def reinforce (x y : ℕ) (delay : Time) : Except Fault Vehicle := do
  let oldest ← v.minDelay.get x y
  let minDelay ← v.minDelay.set x y (min oldest delay)
  let least ← minDelay.get x y
  let delta := antA + 2 / pi * Platform.atan (getMilliSeconds least / getMilliSeconds delay)
  let pxy ← v.p.get x y
  let p ← v.p.setBoth x y ((pxy + delta) / (1 + pxy))
  let lxy ← v.length.get x y
  let pxy ← p.get x y
  let graph ← v.graph.setBoth x y (lxy / pxy)
  pure { v with minDelay, p, graph }

variable (ant : Ant Time)

def updateRound (v : Vehicle) (i : ℤ) : Except Fault Vehicle := do
  let x ← antGet ant.sequenceOfJunctions i
  let y ← antGet ant.sequenceOfJunctions (i - 1)
  let t ← antGet ant.sDelay i
  let s ← antGet ant.sDelay (i - 1)
  reinforce v x.toNat y.toNat (t - s)

def newSteps : ℕ :=
  match v.receivedLastAnt (ant.senderAddr, ant.seqNum) with
  | some recorded =>
    if recorded < ant.version then ant.version.toNat - recorded.toNat else ant.version.toNat
  | none => ant.version.toNat

def recordAnt : Vehicle :=
  { v with
    receivedLastAnt :=
      Function.update v.receivedLastAnt (ant.senderAddr, ant.seqNum) (some ant.version) }

def newIndices : List ℤ :=
  (List.range (newSteps v ant)).map fun (k : ℕ) => (ant.sequenceOfJunctions.length : ℤ) - 1 - k

def updateMatrix : Except Fault Vehicle :=
  if ant.sequenceOfJunctions.length = ant.sDelay.length then
    (newIndices v ant).foldlM (updateRound ant) (recordAnt v ant)
  else throw .assertion

def evaporateRoad (ij : ℕ × ℕ) : Except Fault Vehicle := do
  let (i, j) := ij
  let l ← v.length.get i j
  if l ≠ infinite then
    let pij ← v.p.get i j
    let p ← v.p.setBoth i j (max 0.1 (mEvaporateAlpha * pij))
    let pij ← p.get i j
    let graph ← v.graph.setBoth i j (l / pij)
    pure { v with p, graph }
  else pure v

def evaporateExpire : Except Fault Vehicle := do
  let pairs := (List.range mJuncNum).flatMap fun i =>
    ((List.range mJuncNum).filter (i < ·)).map fun j => (i, j)
  let v ← pairs.foldlM evaporateRoad v
  let evaporateTimer ← schedule v.evaporateTimer v.now mEvaporateInterval
  pure { v with evaporateTimer }

/-- The ant that the node it is addressed to sends on, before the last sender is
put into it. -/
def forwardAnt (rand : ℕ) : Except Fault (Ant Time) :=
  if v.junAreaTag then
    if ∃ jun ∈ ant.sequenceOfJunctions, jun.toNat = v.currentJID then pure ant
    else do
      let ant := { ant with
        sequenceOfJunctions := ant.sequenceOfJunctions ++ [.ofNat v.currentJID] }
      if ant.sequenceOfJunctions.length < maxPathLength then
        let ant := { ant with sDelay := ant.sDelay ++ [v.now] }
        let forwarder ← getNextForwarderInAnchor v rand ant.junFrom.toNat ant.nextJunctionId.toNat
        pure { ant with
          version := ant.version + 1
          junFrom := .ofNat v.currentJID
          nextJunctionId := intToUInt16 forwarder.1
          nextForwarder := forwarder.2 }
      else pure ant
  else do
    let forwarder ← getNextForwarderInSegment v ant.nextJunctionId.toNat
    pure { ant with nextForwarder := forwarder }

def unseen : Prop :=
  ∀ recorded, v.receivedLastAnt (ant.senderAddr, ant.seqNum) = some recorded →
    recorded < ant.version

instance (v : Vehicle) (ant : Ant Time) : Decidable (unseen v ant) :=
  match h : v.receivedLastAnt (ant.senderAddr, ant.seqNum) with
  | none => isTrue (by simp [unseen, h])
  | some recorded => decidable_of_iff (recorded < ant.version) (by simp [unseen, h])

def takeAnt (msg : MessageHeader Time) (rand : ℕ) : Except Fault (Vehicle × Ant Time) := do
  let ant := msg.ant
  if unseen v ant then
    if v.mainAddress = ant.nextForwarder then
      let ant ← forwardAnt v ant rand
      let v ← updateMatrix v msg.ant
      pure (v, { ant with
        lastSender := v.mainAddress
        lastSenderPositionX := Platform.toFloat v.last.x
        lastSenderPositionY := Platform.toFloat v.last.y })
    else
      let v ← updateMatrix v msg.ant
      pure (v, ant)
  else pure (v, ant)

/-- The neighbours go into the HELLO record twice, as in the source. -/
def rebroadcast (jitter : Time) : Except Fault Vehicle := do
  let vTime ← secondsToEmf v.helloInterval
  let (seq, v) := getMessageSequenceNumber v
  let dup := ownMessage v .ant vTime seq
  let hello := setSpeedAndDirection (setLocation dup.hello v.position) v.speed v.direction
  let hello := { hello with
    neighborInterfaceAddresses :=
      hello.neighborInterfaceAddresses ++ v.neiTable.keys ++ v.neiTable.keys }
  pure (restartHelloTimer (queueMessage v { dup with hello, ant } jitter))

/-- A new ant delays the one that a node in a junction area would start. -/
def delayOwnAnt : Vehicle :=
  if v.junAreaTag ∧ ant.sequenceOfJunctions.length = 1 then
    { v with antTimer := some (v.now + mAntInterval) }
  else v

def processAnt (n : Node) (msg : MessageHeader Time) (receiverIfaceAddr : Ipv4Address)
    (rand : ℕ) (jitter : Time) : Except Fault Node := do
  let _cjid ← getNearestJID n.toVehicle
  if outdated n.toVehicle msg then pure n
  else
    let v := updateNeighbor n.toVehicle msg receiverIfaceAddr
    let (v, ant) ← takeAnt (delayOwnAnt v msg.ant) msg rand
    let v := scheduleCheck v msg.originatorAddress
    let v ← (if msg.ant.nextForwarder = v.mainAddress then rebroadcast v ant jitter else pure v)
    checkWaiting { n with toVehicle := v }

def recvMessage (n : Node) (msg : MessageHeader Time) (receiverIfaceAddr : Ipv4Address)
    (rand : ℕ) (jitter : Time) : Except Fault Node :=
  if msg.timeToLive = 0 ∨ msg.originatorAddress = n.mainAddress then pure n
  else
    match msg.messageType with
    | .hello => processHello n msg receiverIfaceAddr
    | .ant => processAnt n msg receiverIfaceAddr rand jitter
    | .cpack => pure n

/-- The HELLO record of a new ant has no location set. -/
def antTimerExpire (rand : ℕ) (jitter : Time) : Except Fault Vehicle := do
  let vTime ← secondsToEmf v.helloInterval
  let (seq, v) := getMessageSequenceNumber v
  let msg := ownMessage v .ant vTime seq
  let hello := setSpeedAndDirection msg.hello v.speed v.direction
  let hello := { hello with
    neighborInterfaceAddresses := hello.neighborInterfaceAddresses ++ v.neiTable.keys }
  let forwarder ← getNextForwarderInAnchor v rand (-1) (-1)
  let v := if forwarder.1 ≠ -1 then
      let (seqNum, v) := getAntSeqNum v
      let ant : Ant Time := {
        senderAddr := v.mainAddress
        seqNum
        version := 0
        junFrom := .ofNat v.currentJID
        nextJunctionId := intToUInt16 forwarder.1
        sequenceOfJunctions := msg.ant.sequenceOfJunctions ++ [.ofNat v.currentJID]
        sDelay := msg.ant.sDelay ++ [v.now]
        nextForwarder := forwarder.2
        lastSender := v.mainAddress
        lastSenderPositionX := Platform.toFloat v.last.x
        lastSenderPositionY := Platform.toFloat v.last.y }
      restartHelloTimer (queueMessage v { msg with hello, ant } jitter)
    else v
  let antTimer ← schedule v.antTimer v.now mAntInterval
  pure { v with antTimer }

def trailFront : Except Fault (ℕ × List ℕ) :=
  match v.trailTrace with
  | [] => throw .emptyQueue
  | jid :: rest => pure (jid, rest)

def advance (disToNextJun : ℚ) : Except Fault Vehicle := do
  if disToNextJun ≤ junAreaRadius then
    let (nextJID, trailTrace) ← trailFront v
    let direction ← getDirection v.map v.nextJID nextJID
    pure { v with turn := -1, currentJID := v.nextJID, nextJID, trailTrace, direction }
  else if disToNextJun ≤ turnLightRange ∧ v.turn < 0 then
    let (jid, _) ← trailFront v
    pure { v with turn := jid }
  else pure v

def updateTag (disToNextJun disToCurrJun : ℚ) : Except Fault Vehicle := do
  if v.junAreaTag then
    if junAreaRadius < disToNextJun ∧ junAreaRadius < disToCurrJun then
      pure { v with junAreaTag := false, antTimer := none }
    else pure v
  else if disToNextJun < junAreaRadius then
    let antTimer ← schedule v.antTimer v.now mAntInterval
    pure { v with junAreaTag := true, antTimer }
  else pure v

def checkPositionExpire : Except Fault Vehicle := do
  let n ← junction v.map v.nextJID
  let c ← junction v.map v.currentJID
  let disToNextJun := distance v.position n.position
  let disToCurrJun := distance v.position c.position
  let v ← advance v disToNextJun
  let v ← updateTag v disToNextJun disToCurrJun
  let positionCheckTimer ← schedule v.positionCheckTimer v.now (1 / 10)
  pure { v with positionCheckTimer }

def speedCheckExpire : Except Fault Vehicle := do
  let speedTimer ← schedule v.speedTimer v.now v.helloInterval
  pure { v with speed := distance v.position v.last, last := v.position, speedTimer }

end Decisions

end Egsr.Grp.Control
