import Egsr.Grp.Control
import Egsr.Grp.QueueCheck

/-! What the handlers of the control plane can do: for each of them the parts of
the vehicle that change, what is put into a queued ant, and the faults. -/

namespace Egsr.Grp.Handlers

open Grp.Road Grp.Header Grp.State Grp.Forwarding Grp.SourceRoute
open Grp.Emf Grp.Control Grp.QueueCheck Lib.Outcome Network.ByteIterator

theorem secondsToEmf_spec (seconds : ℚ) :
    Ensures (secondsToEmf seconds) (fun _ => True) (fun e => e = .assertion) := by
  unfold secondsToEmf
  refine Ensures.ite (fun _ => rfl) fun _ => ?_
  cases emfExponent (seconds / grpC) 30 1 with
  | none => exact rfl
  | some b =>
    refine Ensures.ite (fun _ => rfl) fun _ => ?_
    exact Ensures.ite (fun _ => trivial) fun _ => rfl

theorem schedule_none (now delay : Time) : schedule none now delay = .ok (some (now + delay)) := rfl

theorem antGet_spec {T : Type} (xs : List T) (i : ℤ) :
    Ensures (antGet xs i) (fun x => 0 ≤ i ∧ xs[i.toNat]? = some x) (fun e => e = .ant) := by
  unfold antGet
  refine Ensures.ite (fun hi => ?_) fun _ => rfl
  cases hx : xs[i.toNat]? with
  | none => exact rfl
  | some x => exact ⟨hi, rfl⟩

theorem antGet_eq {T : Type} {xs : List T} {i : ℕ} (h : i < xs.length) :
    antGet xs i = .ok xs[i] := by
  rw [antGet, if_pos (Int.natCast_nonneg i), Int.toNat_natCast, List.getElem?_eq_getElem h]
  rfl

variable (v : Vehicle)

theorem getNearestJID_onMap :
    Ensures (getNearestJID v) (fun _ => v.currentJID < v.map.length) (fun e => e = .junction) := by
  unfold getNearestJID
  refine (junction_spec v.map v.currentJID).bind fun c hc => ?_
  have hlt := (List.getElem?_eq_some_iff.mp hc).1
  refine (junction_spec v.map v.nextJID).bind fun n _ => ?_
  exact Ensures.ite (fun _ => hlt) fun _ => hlt

theorem neighborsOnStreets_spec (streets : List ℕ) (fromJid toJid : ℤ) :
    OnlyJunction (neighborsOnStreets v streets fromJid toJid) := by
  unfold neighborsOnStreets
  refine ensures_foldlM trivial fun numOfNei nei _ _ => ?_
  have hexcluded : OnlyJunction (if fromJid ≠ -1 ∧ toJid ≠ -1 then
      isBetweenSegment v.map nei.2.nLocation fromJid.toNat toJid.toNat else pure false) :=
    Ensures.ite (fun _ => isBetweenSegment_spec _ _ _ _) fun _ => trivial
  refine hexcluded.bind fun excluded _ => Ensures.ite (fun _ => trivial) fun _ => ?_
  refine ensures_foldlM trivial fun numOfNei e _ _ => ?_
  exact (isBetweenSegment_spec _ _ _ _).bind fun between _ =>
    Ensures.ite (fun _ => trivial) fun _ => trivial

theorem getNextForwarderInSegment_spec (nextJid : ℕ) :
    OnlyJunction (getNextForwarderInSegment v nextJid) := by
  unfold getNextForwarderInSegment
  refine (junction_spec v.map nextJid).bind fun j _ => ?_
  dsimp only
  split
  · trivial
  · trivial

/-! ## Parts of a vehicle -/

def SameButMatrices (v v' : Vehicle) : Prop :=
  v' = { v with
    receivedLastAnt := v'.receivedLastAnt
    minDelay := v'.minDelay
    p := v'.p
    graph := v'.graph }

theorem SameButMatrices.trans {u v w : Vehicle} (h : SameButMatrices u v)
    (h' : SameButMatrices v w) : SameButMatrices u w := by
  unfold SameButMatrices at *
  rw [h', h]

def SameButMessages (v v' : Vehicle) : Prop :=
  v' = { v with
    messageSequenceNumber := v'.messageSequenceNumber
    antSeqNum := v'.antSeqNum
    queuedMessages := v'.queuedMessages
    queuedMessagesTimer := v'.queuedMessagesTimer
    helloTimer := v'.helloTimer }

variable (ant : Ant Time)

structure QueuesAnt (v' : Vehicle) : Prop where
  same : SameButMessages v v'
  queued : ∃ msg : MessageHeader Time, msg.messageType = .ant ∧ msg.ant = ant ∧
    v'.queuedMessages = v.queuedMessages ++ [msg]

theorem rebroadcast_spec (jitter : Time) :
    Ensures (rebroadcast v ant jitter) (QueuesAnt v ant) (fun e => e = .assertion) := by
  unfold rebroadcast
  refine (secondsToEmf_spec v.helloInterval).bind fun vTime _ => ?_
  exact ⟨rfl, _, rfl, rfl, rfl⟩

theorem helloTimerExpire_spec (jitter : Time) : Ensures (helloTimerExpire v jitter)
      (fun v' => v'.map = v.map ∧ ∃ msg : MessageHeader Time, msg.messageType = .hello ∧
        v'.queuedMessages = v.queuedMessages ++ [msg]) (fun _ => True) := by
  have hsend : Ensures (sendHello v jitter)
      (fun v' => v'.map = v.map ∧ ∃ msg : MessageHeader Time, msg.messageType = .hello ∧
        v'.queuedMessages = v.queuedMessages ++ [msg]) (fun _ => True) := by
    refine ((secondsToEmf_spec v.helloInterval).mono (fun _ h => h) fun _ _ => trivial).bind
      fun vTime _ => ?_
    exact ⟨rfl, _, rfl, rfl⟩
  refine hsend.bind fun v' hv' => ?_
  cases htimer : v'.helloTimer with
  | none =>
    rw [schedule_none]
    exact hv'
  | some t => trivial

theorem delayOwnAnt_eq :
    delayOwnAnt v ant = { v with antTimer := (delayOwnAnt v ant).antTimer } := by
  unfold delayOwnAnt
  by_cases h : v.junAreaTag ∧ ant.sequenceOfJunctions.length = 1
  · rw [if_pos h]
  · rw [if_neg h]

theorem delayOwnAnt_antTimer : (delayOwnAnt v ant).antTimer =
    if v.junAreaTag ∧ ant.sequenceOfJunctions.length = 1 then some (v.now + mAntInterval)
    else v.antTimer := by
  unfold delayOwnAnt
  by_cases h : v.junAreaTag ∧ ant.sequenceOfJunctions.length = 1
  · rw [if_pos h, if_pos h]
  · rw [if_neg h, if_neg h]

/-- A new ant starts at the junction of the node, or none is sent. -/
structure StartsAnt (v' : Vehicle) : Prop where
  same : SameButMessages { v with antTimer := some (v.now + mAntInterval) } v'
  queued : v'.queuedMessages = v.queuedMessages ∨ ∃ msg : MessageHeader Time,
    v'.queuedMessages = v.queuedMessages ++ [msg] ∧ msg.ant.version = 0 ∧
      msg.ant.sequenceOfJunctions = [UInt16.ofNat v.currentJID] ∧ msg.ant.sDelay = [v.now]
  onMap : v.currentJID < v.map.length

theorem StartsAnt.map_eq {v v' : Vehicle} (h : StartsAnt v v') : v'.map = v.map := by
  have hsame := h.same
  unfold SameButMessages at hsame
  rw [hsame]

/-- A message accepted from a neighbour: its entry is replaced and a check of it scheduled. -/
structure Heard (msg : MessageHeader Time) (receiverIfaceAddr : Ipv4Address)
    (v' : Vehicle) : Prop where
  neiTable : v'.neiTable =
    v.neiTable.insert msg.originatorAddress (neighborEntry v msg receiverIfaceAddr)
  checks : v'.neiTableChecks =
    v.neiTableChecks ++ [(v.now + v.helloInterval, msg.originatorAddress)]
  frame : v' = { v with
    neiTable := v'.neiTable
    neiTableChecks := v'.neiTableChecks
    antTimer := v'.antTimer
    receivedLastAnt := v'.receivedLastAnt
    minDelay := v'.minDelay
    p := v'.p
    graph := v'.graph
    messageSequenceNumber := v'.messageSequenceNumber
    antSeqNum := v'.antSeqNum
    queuedMessages := v'.queuedMessages
    queuedMessagesTimer := v'.queuedMessagesTimer
    helloTimer := v'.helloTimer }

theorem Heard.map_eq {v v' : Vehicle} {msg : MessageHeader Time} {receiverIfaceAddr : Ipv4Address}
    (h : Heard v msg receiverIfaceAddr v') : v'.map = v.map := by rw [h.frame]

section Decisions

variable [Platform] (v : Vehicle) (ant : Ant Time)

theorem getNextForwarderInAnchor_spec (rand : ℕ) (fromJid toJid : ℤ) :
    Ensures (getNextForwarderInAnchor v rand fromJid toJid)
      (fun _ => v.currentJID < v.map.length) (fun e => e = .junction) := by
  unfold getNextForwarderInAnchor
  refine (junction_spec v.map v.currentJID).bind fun here hhere => ?_
  have hlt := (List.getElem?_eq_some_iff.mp hhere).1
  refine Ensures.ite (fun _ => hlt) fun _ => ?_
  refine (neighborsOnStreets_spec v _ fromJid toJid).bind fun numOfNei _ => ?_
  cases lottery numOfNei (rand % v.neiTable.size) 0
      (Platform.bucketOrder here.outedge.keys) with
  | none => exact hlt
  | some selected =>
    dsimp only
    cases top (fun a b => decide (pairLt b a)) (numOfNei selected) with
    | none => exact hlt
    | some nearest => exact hlt

theorem reinforce_spec (x y : ℕ) (delay : Time) :
    Ensures (reinforce v x y delay) (SameButMatrices v) (fun e => e = .junction) := by
  unfold reinforce
  refine (Grid.get_spec _ _ _).bind fun oldest _ => ?_
  refine (Grid.set_spec _ _ _ _).bind fun minDelay _ => ?_
  refine (Grid.get_spec _ _ _).bind fun least _ => ?_
  refine (Grid.get_spec _ _ _).bind fun pxy _ => ?_
  refine (Grid.setBoth_spec _ _ _ _).bind fun p _ => ?_
  refine (Grid.get_spec _ _ _).bind fun lxy _ => ?_
  refine (Grid.get_spec _ _ _).bind fun pxy _ => ?_
  exact (Grid.setBoth_spec _ _ _ _).bind fun graph _ => rfl

theorem updateRound_spec (v : Vehicle) (i : ℤ) :
    Ensures (updateRound ant v i) (SameButMatrices v) (fun e => e ≠ .timerRunning) := by
  have hant : ∀ {T : Type} (xs : List T) (i : ℤ),
      Ensures (antGet xs i) (fun _ => True) (fun e => e ≠ .timerRunning) :=
    fun xs i => (antGet_spec xs i).mono (fun _ _ => trivial) fun e he => by simp [he]
  unfold updateRound
  refine (hant _ i).bind fun x _ => (hant _ (i - 1)).bind fun y _ => ?_
  refine (hant _ i).bind fun t _ => (hant _ (i - 1)).bind fun s _ => ?_
  exact (reinforce_spec v _ _ _).mono (fun _ h => h) fun e he => by simp [he]

theorem updateMatrix_spec :
    Ensures (updateMatrix v ant) (SameButMatrices v) (fun e => e ≠ .timerRunning) := by
  have hrecord : SameButMatrices v (recordAnt v ant) := rfl
  unfold updateMatrix
  refine Ensures.ite (fun _ => ?_) fun _ => by simp
  refine ensures_foldlM hrecord fun w i _ hw => ?_
  exact (updateRound_spec ant w i).weaken fun w' hw' => hw.trans hw'

/-- An ant as it goes on: unchanged as to its way, or with the junction of the
node put at the end. -/
def Continues (ant ant' : Ant Time) : Prop :=
  ant'.sequenceOfJunctions = ant.sequenceOfJunctions ∧ ant'.sDelay = ant.sDelay ∧
      ant'.version = ant.version ∨
    (∀ jun ∈ ant.sequenceOfJunctions, jun.toNat ≠ v.currentJID) ∧
      ant'.sequenceOfJunctions = ant.sequenceOfJunctions ++ [UInt16.ofNat v.currentJID] ∧
      (ant'.sequenceOfJunctions.length < maxPathLength →
        ant'.sDelay = ant.sDelay ++ [v.now] ∧ ant'.version = ant.version + 1)

theorem forwardAnt_spec (rand : ℕ) :
    Ensures (forwardAnt v ant rand) (Continues v ant) (fun e => e = .junction) := by
  unfold forwardAnt
  refine Ensures.ite (fun _ => Ensures.ite (fun _ => .inl ⟨rfl, rfl, rfl⟩) fun hnew => ?_)
    fun _ => ?_
  · have hfresh : ∀ jun ∈ ant.sequenceOfJunctions, jun.toNat ≠ v.currentJID :=
      fun jun hjun heq => hnew ⟨jun, hjun, heq⟩
    refine Ensures.ite (fun _ => ?_) fun hlong => .inr ⟨hfresh, rfl, fun h => absurd h hlong⟩
    refine (getNextForwarderInAnchor_spec v rand _ _).bind fun forwarder _ => ?_
    exact .inr ⟨hfresh, rfl, fun _ => ⟨rfl, rfl⟩⟩
  · refine (getNextForwarderInSegment_spec v _).bind fun forwarder _ => ?_
    exact .inl ⟨rfl, rfl, rfl⟩

theorem takeAnt_spec (msg : MessageHeader Time) (rand : ℕ) :
    Ensures (takeAnt v msg rand) (fun r => SameButMatrices v r.1 ∧ Continues v msg.ant r.2)
      (fun e => e ≠ .timerRunning) := by
  have hsame : Continues v msg.ant msg.ant := .inl ⟨rfl, rfl, rfl⟩
  unfold takeAnt
  refine Ensures.ite (fun _ => Ensures.ite (fun _ => ?_) fun _ => ?_) fun _ => ⟨rfl, hsame⟩
  · refine ((forwardAnt_spec v msg.ant rand).mono (fun _ h => h) fun e he => by simp [he]).bind
      fun ant hant => ?_
    exact (updateMatrix_spec v msg.ant).bind fun w hw => ⟨hw, hant⟩
  · exact (updateMatrix_spec v msg.ant).bind fun w hw => ⟨hw, hsame⟩

theorem antTimerExpire_spec {v : Vehicle} (expired : v.antTimer = none) (rand : ℕ) (jitter : Time) :
    Ensures (antTimerExpire v rand jitter) (StartsAnt v) (fun e => e ≠ .timerRunning) := by
  unfold antTimerExpire
  refine ((secondsToEmf_spec v.helloInterval).mono (fun _ h => h) fun e he => by simp [he]).bind
    fun vTime _ => ?_
  refine ((getNextForwarderInAnchor_spec _ rand (-1) (-1)).mono (fun _ h => h) fun e he => by
    simp [he]).bind fun forwarder hmap => ?_
  by_cases hnone : forwarder.1 ≠ -1
  · simp only [if_pos hnone, getAntSeqNum, queueMessage,
      restartHelloTimer, expired, schedule_none, bind, Except.bind]
    exact ⟨rfl, .inr ⟨_, rfl, rfl, rfl, rfl⟩, hmap⟩
  · simp only [if_neg hnone, expired, schedule_none, bind, Except.bind]
    exact ⟨rfl, .inl rfl, hmap⟩

/-! ## Messages received -/

theorem checkWaiting_spec (n : Node) :
    Ensures (checkWaiting n) (fun n' => SameButGraph n.toVehicle n'.toVehicle)
      (fun e => e ≠ .timerRunning) :=
  Ensures.ite (fun _ => rfl) fun _ => checkPacketQueue_vehicle n

theorem processHello_spec (n : Node) (msg : MessageHeader Time) (receiverIfaceAddr : Ipv4Address) :
    Ensures (processHello n msg receiverIfaceAddr) (fun n' => n'.toVehicle = n.toVehicle ∨
        Heard n.toVehicle msg receiverIfaceAddr n'.toVehicle ∧ n'.antTimer = n.antTimer ∧
          n'.queuedMessages = n.queuedMessages) (fun e => e ≠ .timerRunning) := by
  have hjunction : ∀ e : Fault, e = .junction → e ≠ .timerRunning := fun e he => by simp [he]
  unfold processHello
  refine ((getNearestJID_spec n.toVehicle).mono (fun _ h => h) hjunction).bind fun cjid _ => ?_
  have hcrossing : Ensures (fromCrossingRoad n.toVehicle msg cjid) (fun _ => True)
      (fun e => e ≠ .timerRunning) := by
    refine Ensures.ite (fun _ => ?_) fun _ => trivial
    exact ((junction_spec n.map cjid).mono (fun _ h => h) hjunction).bind fun j _ => trivial
  refine hcrossing.bind fun crossing _ => Ensures.ite (fun _ => .inl rfl) fun _ =>
    Ensures.ite (fun _ => .inl rfl) fun _ => ?_
  refine (checkWaiting_spec _).weaken fun n' hn' => .inr ?_
  have hsame : n'.toVehicle = { scheduleCheck (updateNeighbor n.toVehicle msg receiverIfaceAddr)
      msg.originatorAddress with graph := n'.graph } := hn'
  refine ⟨⟨?_, ?_, ?_⟩, ?_, ?_⟩
  · rw [hsame]
    rfl
  · rw [hsame]
    rfl
  · rw [hsame]
    rfl
  · rw [hsame]
    rfl
  · rw [hsame]
    rfl

theorem processAnt_spec (n : Node) (msg : MessageHeader Time) (receiverIfaceAddr : Ipv4Address)
    (rand : ℕ) (jitter : Time) :
    Ensures (processAnt n msg receiverIfaceAddr rand jitter) (fun n' => n'.toVehicle = n.toVehicle ∨
        Heard n.toVehicle msg receiverIfaceAddr n'.toVehicle ∧
          n'.antTimer = (delayOwnAnt n.toVehicle msg.ant).antTimer ∧
          (n'.queuedMessages = n.queuedMessages ∨ ∃ m : MessageHeader Time,
            n'.queuedMessages = n.queuedMessages ++ [m] ∧ Continues n.toVehicle msg.ant m.ant) ∧
          n.currentJID < n.map.length) (fun e => e ≠ .timerRunning) := by
  unfold processAnt
  refine ((getNearestJID_onMap n.toVehicle).mono (fun _ h => h) fun e he => by simp [he]).bind
    fun cjid hmap => Ensures.ite (fun _ => .inl rfl) fun _ => ?_
  refine (takeAnt_spec _ msg rand).bind fun r hr => ?_
  obtain ⟨v₁, ant⟩ := r
  obtain ⟨hmatrices, hcontinues⟩ := hr
  dsimp only at hmatrices hcontinues
  have hsend : Ensures (if msg.ant.nextForwarder =
        (scheduleCheck v₁ msg.originatorAddress).mainAddress then
          rebroadcast (scheduleCheck v₁ msg.originatorAddress) ant jitter
        else pure (scheduleCheck v₁ msg.originatorAddress))
      (fun v₂ => SameButMessages (scheduleCheck v₁ msg.originatorAddress) v₂ ∧
        (v₂.queuedMessages = v₁.queuedMessages ∨ ∃ m : MessageHeader Time,
          v₂.queuedMessages = v₁.queuedMessages ++ [m] ∧ m.ant = ant))
      (fun e => e ≠ .timerRunning) := by
    refine Ensures.ite (fun _ => ?_) fun _ => ⟨rfl, .inl rfl⟩
    refine (rebroadcast_spec _ ant jitter).mono (fun v₂ h => ?_) fun e he => by simp [he]
    obtain ⟨hsame, m, -, hm, hqueue⟩ := h
    exact ⟨hsame, .inr ⟨m, hqueue, hm⟩⟩
  refine hsend.bind fun v₂ hv₂ => (checkWaiting_spec _).weaken fun n' hn' => .inr ?_
  have hn : n'.toVehicle = { v₂ with graph := n'.graph } := hn'
  have hmessages := hv₂.1
  have hdelay := delayOwnAnt_eq (updateNeighbor n.toVehicle msg receiverIfaceAddr) msg.ant
  unfold SameButMessages at hmessages
  unfold SameButMatrices at hmatrices
  refine ⟨⟨?_, ?_, ?_⟩, ?_, ?_, hmap⟩
  · rw [hn, hmessages, hmatrices, hdelay]
    rfl
  · rw [hn, hmessages, hmatrices, hdelay]
    rfl
  · rw [hn, hmessages, hmatrices, hdelay]
    rfl
  · rw [hn, hmessages, hmatrices]
    simp only [scheduleCheck, delayOwnAnt_antTimer]
    rfl
  · have hqueue : v₁.queuedMessages = n.queuedMessages := by
      rw [hmatrices, hdelay]
      rfl
    have hqueue' : n'.queuedMessages = v₂.queuedMessages := by rw [hn]
    rw [hqueue', ← hqueue]
    refine hv₂.2.imp id fun h => ?_
    obtain ⟨m, hm, rfl⟩ := h
    rw [hdelay] at hcontinues
    exact ⟨m, hm, hcontinues⟩

theorem recvMessage_spec (n : Node) (msg : MessageHeader Time) (receiverIfaceAddr : Ipv4Address)
    (rand : ℕ) (jitter : Time) :
    Ensures (recvMessage n msg receiverIfaceAddr rand jitter)
      (fun n' => n'.toVehicle = n.toVehicle ∨ Heard n.toVehicle msg receiverIfaceAddr n'.toVehicle)
      (fun e => e ≠ .timerRunning) := by
  refine Ensures.ite (fun _ => .inl rfl) fun _ => ?_
  cases msg.messageType with
  | cpack => exact Or.inl rfl
  | hello => exact (processHello_spec n msg receiverIfaceAddr).weaken fun n' h => h.imp id And.left
  | ant =>
    exact (processAnt_spec n msg receiverIfaceAddr rand jitter).weaken fun n' h => h.imp id And.left

end Decisions

end Egsr.Grp.Handlers
