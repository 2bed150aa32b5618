import Egsr.Grp.Forwarders
import Egsr.Grp.NeighborExpiry

/-! What becomes of an ant at the node it names. The ant gets a new forwarder only if its version
has not been recorded, and the version is recorded of every ant heard, for this node or not; it
changes at junctions only. A node that overheard the ant on its way sends it on as it is, to
itself. -/

namespace Egsr.Grp.AntProgress

open Grp Grp.Road Grp.Header Grp.State Grp.SourceRoute Grp.Forwarding Grp.Control Grp.DataPlane
    Grp.Handlers
open List Grp.Forwarders Grp.NeighborExpiry Lib.Outcome Lib.Run Network.ByteIterator

/-- The node is not among its own neighbours. -/
structure Apart (v : Vehicle) : Prop where
  address : v.mainAddress ≠ loopback
  unlisted : v.mainAddress ∉ v.neiTable

def AtNewJunction (v : Vehicle) (ant : Ant Time) : Prop :=
  v.junAreaTag → ∀ jun ∈ ant.sequenceOfJunctions, jun.toNat ≠ v.currentJID

/-- The version of the ant has not been recorded, and its list of junctions has room for one
more. -/
def Refreshed (v : Vehicle) (ant : Ant Time) : Prop :=
  unseen v ant ∧ (v.junAreaTag → ant.sequenceOfJunctions.length + 1 < maxPathLength)
deriving Decidable

section Choice

variable {v : Vehicle}

variable {msg : MessageHeader Time}

theorem Apart.updateNeighbor (apart : Apart v)
    (other : msg.originatorAddress ≠ v.mainAddress) (receiverIfaceAddr : Ipv4Address) :
    Apart (updateNeighbor v msg receiverIfaceAddr) where
  address := apart.address
  unlisted := by
    change ¬ v.mainAddress ∈ v.neiTable.insert _ _
    rw [Std.TreeMap.mem_insert]
    exact not_or.mpr ⟨compare_ne other.symm, apart.unlisted⟩

theorem Apart.neiTableCheckExpire (apart : Apart v) (started : 0 ≤ v.now) (addr : Ipv4Address) :
    Apart (neiTableCheckExpire v addr) := by
  have address : (Control.neiTableCheckExpire v addr).mainAddress = v.mainAddress := by
    rw [neiTableCheckExpire_eq]
  have unlisted : v.neiTable[v.mainAddress]? = none := Std.TreeMap.getElem?_eq_none apart.unlisted
  refine ⟨address ▸ apart.address, ?_⟩
  rw [address, Std.TreeMap.mem_iff_isSome_getElem?]
  by_cases own : v.mainAddress = addr
  · subst own
    rw [neiTableCheckExpire_self v started, unlisted]
    simp
  · rw [neiTableCheckExpire_of_ne v own, unlisted]
    simp

theorem mem_neiTable_of_mem_toList {nei : Ipv4Address × NeighborTableEntry}
    (h : nei ∈ v.neiTable.toList) : nei.1 ∈ v.neiTable := by
  have hentry : v.neiTable[nei.1]? = some nei.2 := Std.TreeMap.mem_toList_iff_getElem?_eq_some.mp h
  rw [Std.TreeMap.mem_iff_isSome_getElem?, hentry]
  rfl

theorem neighborsOnStreets_known (v : Vehicle) (streets : List ℕ) (fromJid toJid : ℤ) :
    Ensures (neighborsOnStreets v streets fromJid toJid)
    (fun numOfNei => ∀ e, ∀ x ∈ numOfNei e, x.2 ∈ v.neiTable)
      (fun _ => True) := by
  unfold neighborsOnStreets
  refine ensures_foldlM (fun e x hx => absurd hx not_mem_nil) fun numOfNei nei hnei known => ?_
  refine (ensures_trivial _).bind fun excluded _ => Ensures.ite (fun _ => known) fun _ => ?_
  refine ensures_foldlM known fun numOfNei e _ known => ?_
  refine (ensures_trivial _).bind fun between _ => Ensures.ite (fun _ => ?_) fun _ => known
  intro e' x hx
  by_cases same : e' = e
  · subst same
    rw [Function.update_self, mem_append, mem_singleton] at hx
    rcases hx with hx | rfl
    · exact known e' x hx
    · exact mem_neiTable_of_mem_toList hnei
  · rw [Function.update_of_ne same] at hx
    exact known e' x hx

theorem getNextForwarderInSegment_known (v : Vehicle) (nextJid : ℕ) :
    Ensures (getNextForwarderInSegment v nextJid) (fun hop => hop = loopback ∨ hop ∈ v.neiTable)
      (fun _ => True) := by
  unfold getNextForwarderInSegment
  refine ((junction_spec v.map nextJid).mono (fun _ h => h) fun _ _ => trivial).bind fun j _ => ?_
  dsimp only
  split
  · exact .inl rfl
  · rename_i nearest hnearest
    right
    have ne : (v.neiTable.toList.filterMap fun nei =>
        if squaredDistance j.position nei.2.nLocation < squaredDistance v.last j.position then
          some (squaredDistance j.position nei.2.nLocation, nei.1) else none) ≠ [] := by
      intro nil
      rw [nil] at hnearest
      cases hnearest
    obtain ⟨x, hx, htop⟩ := top_mem (fun a b => decide (pairLt a b)) ne
    rw [htop, Option.some_inj] at hnearest
    subst hnearest
    obtain ⟨nei, hnei, hpair⟩ := mem_filterMap.mp hx
    split_ifs at hpair
    rw [← Option.some_inj.mp hpair]
    exact mem_neiTable_of_mem_toList hnei

variable [Platform]

theorem getNextForwarderInAnchor_known (v : Vehicle) (rand : ℕ) (fromJid toJid : ℤ) :
    Ensures (getNextForwarderInAnchor v rand fromJid toJid)
    (fun r => r.2 = loopback ∨ r.2 ∈ v.neiTable)
      (fun _ => True) := by
  unfold getNextForwarderInAnchor
  refine ((junction_spec v.map v.currentJID).mono (fun _ h => h) fun _ _ => trivial).bind
    fun here _ => ?_
  refine Ensures.ite (fun _ => .inl rfl) fun _ => ?_
  refine (neighborsOnStreets_known v _ fromJid toJid).bind fun numOfNei known => ?_
  cases hlottery :
    lottery numOfNei (rand % v.neiTable.size) 0 (Platform.bucketOrder here.outedge.keys) with
  | none => exact .inl rfl
  | some selected =>
    have ne := (lottery_eq_some (Nat.zero_le _) hlottery).2
    obtain ⟨x, hx, htop⟩ := top_mem (fun a b => decide (pairLt b a)) ne
    simp only [htop]
    exact .inr (known selected x hx)

def chosen (v : Vehicle) (ant : Ant Time) (rand : ℕ) : Except Fault Ipv4Address :=
  if v.junAreaTag then do
    let forwarder ← getNextForwarderInAnchor v rand ant.junFrom.toNat ant.nextJunctionId.toNat
    pure forwarder.2
  else getNextForwarderInSegment v ant.nextJunctionId.toNat

theorem chosen_known (v : Vehicle) (ant : Ant Time) (rand : ℕ) :
    Ensures (chosen v ant rand) (fun hop => hop = loopback ∨ hop ∈ v.neiTable) (fun _ => True) :=
  Ensures.ite (fun _ => (getNextForwarderInAnchor_known v rand _ _).bind fun _ known => known)
    fun _ => getNextForwarderInSegment_known v _

theorem Apart.chosen_ne (apart : Apart v) {ant : Ant Time} {rand : ℕ} {forwarder : Ipv4Address}
    (h : chosen v ant rand = .ok forwarder) : forwarder ≠ v.mainAddress := by
  intro same
  rcases (chosen_known v ant rand).of_ok h with hloop | hentry
  · exact apart.address (same ▸ hloop)
  · exact apart.unlisted (same ▸ hentry)

/-! ## The ant sent on -/

theorem forwardAnt_forwarder {ant ant' : Ant Time} {rand : ℕ} (new : AtNewJunction v ant)
    (h : forwardAnt v ant rand = .ok ant') :
    if v.junAreaTag → ant.sequenceOfJunctions.length + 1 < maxPathLength then
      chosen v ant rand = .ok ant'.nextForwarder
    else ant'.nextForwarder = ant.nextForwarder := by
  unfold forwardAnt at h
  unfold chosen
  by_cases tag : v.junAreaTag
  · have fresh : ¬ ∃ jun ∈ ant.sequenceOfJunctions, jun.toNat = v.currentJID := by
      intro listed
      obtain ⟨jun, hjun, here⟩ := listed
      exact new tag jun hjun here
    rw [if_pos tag, if_neg fresh] at h
    simp only [length_append, length_singleton] at h
    by_cases room : ant.sequenceOfJunctions.length + 1 < maxPathLength
    · rw [if_pos room] at h
      rw [if_pos fun _ => room, if_pos tag]
      obtain ⟨forwarder, hforwarder, hant⟩ := bind_ok_inv h
      rw [hforwarder, ← Except.ok.inj hant]
      rfl
    · rw [if_neg room] at h
      rw [if_neg fun h => room (h tag), ← Except.ok.inj h]
  · rw [if_neg tag] at h ⊢
    rw [if_pos fun h => absurd h tag]
    obtain ⟨forwarder, hforwarder, hant⟩ := bind_ok_inv h
    rw [hforwarder, ← Except.ok.inj hant]

theorem takeAnt_forwarder {rand : ℕ} {r : Vehicle × Ant Time}
    (h : takeAnt v msg rand = .ok r) (new : AtNewJunction v msg.ant)
    (addressed : msg.ant.nextForwarder = v.mainAddress) :
    if Refreshed v msg.ant then chosen v msg.ant rand = .ok r.2.nextForwarder
    else r.2.nextForwarder = v.mainAddress := by
  unfold takeAnt at h
  by_cases first : unseen v msg.ant
  · simp only [if_pos first, if_pos addressed.symm] at h
    obtain ⟨ant, hant, h⟩ := bind_ok_inv h
    obtain ⟨v', -, h⟩ := bind_ok_inv h
    have forwarder := forwardAnt_forwarder new hant
    have room : Refreshed v msg.ant ↔
        (v.junAreaTag → msg.ant.sequenceOfJunctions.length + 1 < maxPathLength) :=
          and_iff_right first
    rw [if_congr room rfl rfl, ← Except.ok.inj h, ← addressed]
    exact forwarder
  · simp only [if_neg first] at h
    rw [if_neg fun refreshed => first refreshed.1, ← Except.ok.inj h]
    exact addressed

variable {receiverIfaceAddr : Ipv4Address}

theorem processAnt_queues {n n' : Node} {rand : ℕ}
    {jitter : Time} (addressed : msg.ant.nextForwarder = n.mainAddress)
    (fresh : ¬ outdated n.toVehicle msg)
    (run : processAnt n msg receiverIfaceAddr rand jitter = .ok n') :
    ∃ r m, takeAnt
    (delayOwnAnt (updateNeighbor n.toVehicle msg receiverIfaceAddr) msg.ant) msg rand = .ok r ∧
      m.messageType = .ant ∧ m.ant = r.2 ∧ n'.queuedMessages = n.queuedMessages ++ [m] := by
  unfold processAnt at run
  obtain ⟨cjid, -, run⟩ := bind_ok_inv run
  simp only [if_neg fresh] at run
  obtain ⟨r, htake, run⟩ := bind_ok_inv run
  obtain ⟨v, hv, run⟩ := bind_ok_inv run
  have matrices := ((takeAnt_spec _ msg rand).of_ok htake).1
  rw [delayOwnAnt_eq] at matrices
  unfold SameButMatrices at matrices
  have own : msg.ant.nextForwarder = (scheduleCheck r.1 msg.originatorAddress).mainAddress := by
    rw [matrices]
    exact addressed
  rw [if_pos own] at hv
  obtain ⟨same, m, htype, hant, hqueue⟩ := (rebroadcast_spec _ _ _).of_ok hv
  have hwaiting : SameButGraph v n'.toVehicle := (checkWaiting_spec _).of_ok run
  refine ⟨r, m, htake, htype, hant, ?_⟩
  have hn : n'.queuedMessages = v.queuedMessages := by rw [hwaiting]
  rw [hn, hqueue, matrices]
  rfl

def Progresses (n : Node) (msg : MessageHeader Time) (receiverIfaceAddr : Ipv4Address) (rand : ℕ)
    (n' : Node) : Prop :=
  ∃ m forwarder, n'.queuedMessages = n.queuedMessages ++ [m] ∧ m.messageType = .ant ∧
    chosen (updateNeighbor n.toVehicle msg receiverIfaceAddr) msg.ant rand = .ok forwarder ∧
    m.ant.nextForwarder = forwarder ∧ forwarder ≠ n.mainAddress

theorem processAnt_forwarder {n n' : Node} {rand : ℕ}
    {jitter : Time} (addressed : msg.ant.nextForwarder = n.mainAddress)
    (fresh : ¬ outdated n.toVehicle msg) (new : AtNewJunction n.toVehicle msg.ant)
    (run : processAnt n msg receiverIfaceAddr rand jitter = .ok n') :
    ∃ m, n'.queuedMessages = n.queuedMessages ++ [m] ∧ m.messageType = .ant ∧
      if Refreshed n.toVehicle msg.ant then
        chosen (updateNeighbor n.toVehicle msg receiverIfaceAddr) msg.ant rand =
          .ok m.ant.nextForwarder
      else m.ant.nextForwarder = n.mainAddress := by
  obtain ⟨r, m, htake, htype, hant, hqueue⟩ := processAnt_queues addressed fresh run
  refine ⟨m, hqueue, htype, ?_⟩
  rw [hant]
  rw [delayOwnAnt_eq] at htake
  have forwarder := takeAnt_forwarder htake
  exact forwarder new addressed

/-- A node that hears an ant naming it sends it on to the forwarder of its tables just if the
version of the ant has not been recorded and its list of junctions has room. -/
theorem processAnt_progresses_iff {n n' : Node} {msg : MessageHeader Time}
    {receiverIfaceAddr : Ipv4Address} {rand : ℕ} {jitter : Time} (apart : Apart n.toVehicle)
    (other : msg.originatorAddress ≠ n.mainAddress)
    (addressed : msg.ant.nextForwarder = n.mainAddress) (fresh : ¬ outdated n.toVehicle msg)
    (new : AtNewJunction n.toVehicle msg.ant)
    (run : processAnt n msg receiverIfaceAddr rand jitter = .ok n') :
    Progresses n msg receiverIfaceAddr rand n' ↔ Refreshed n.toVehicle msg.ant := by
  obtain ⟨m, hqueue, htype, forwarder⟩ := processAnt_forwarder addressed fresh new run
  have apart' := apart.updateNeighbor other receiverIfaceAddr
  by_cases refreshed : Refreshed n.toVehicle msg.ant
  · rw [if_pos refreshed] at forwarder
    exact iff_of_true ⟨m, _, hqueue, htype, forwarder, rfl, apart'.chosen_ne forwarder⟩ refreshed
  · rw [if_neg refreshed] at forwarder
    refine iff_of_false (fun progress => ?_) refreshed
    obtain ⟨m', hop, hqueue', -, -, hhop, ne⟩ := progress
    rw [hqueue, append_cancel_left_eq, singleton_inj] at hqueue'
    rw [← hhop, ← hqueue'] at ne
    exact ne forwarder

/-! ## Runs -/

def Steady (n : Node) : ExpiryAction → Prop
  | .elapse t => n.now ≤ t
  | .observe n' => n'.mainAddress = n.mainAddress
  | .receive _ _ _ _ | .neiTableCheckExpire _ => True

theorem Apart.recvMessage {n n' : Node} (apart : Apart n.toVehicle) {rand : ℕ} {jitter : Time}
    (run : recvMessage n msg receiverIfaceAddr rand jitter = .ok n') : Apart n'.toVehicle := by
  by_cases own : msg.originatorAddress = n.mainAddress
  · rw [Control.recvMessage, if_pos (.inr own)] at run
    rw [← Except.ok.inj run]
    exact apart
  · rcases (recvMessage_spec n msg receiverIfaceAddr rand jitter).of_ok run with same | heard
    · rw [same]
      exact apart
    · have kept := apart.updateNeighbor own receiverIfaceAddr
      have address : n'.mainAddress = n.mainAddress := by rw [heard.frame]
      exact ⟨address ▸ kept.address, by rw [address, heard.neiTable]; exact kept.unlisted⟩

theorem apart_of_run {start n : Node} {acts : List ExpiryAction}
    (address : start.mainAddress ≠ loopback) (alone : start.neiTable = ∅) (started : 0 ≤ start.now)
    (along : Along expiryStep Steady start acts)
    (run : exec expiryStep start acts = .ok n) : Apart n.toVehicle := by
  have init : 0 ≤ start.now ∧ Apart start.toVehicle := by
    refine ⟨started, address, ?_⟩
    rw [alone]
    exact Std.TreeMap.not_mem_emptyc
  have keep : ∀ (n : Node) (act : ExpiryAction) (n' : Node), 0 ≤ n.now ∧ Apart n.toVehicle →
    Steady n act →
      expiryStep n act = .ok n' → 0 ≤ n'.now ∧ Apart n'.toVehicle := by
    intro n act n' inv steady step
    obtain ⟨started, apart⟩ := inv
    cases act with
    | elapse t =>
      cases Except.ok.inj step
      exact ⟨started.trans steady, apart.address, apart.unlisted⟩
    | observe n'' =>
      have hown : n''.mainAddress = n.mainAddress := steady
      cases Except.ok.inj step
      refine ⟨started, ?_, ?_⟩
      · exact hown ▸ apart.address
      · exact hown ▸ apart.unlisted
    | receive msg receiverIfaceAddr rand jitter =>
      have clock : n'.now = n.now := by
        rcases (recvMessage_spec n msg receiverIfaceAddr rand jitter).of_ok step with same | heard
        · rw [same]
        · rw [heard.frame]
      exact ⟨clock ▸ started, apart.recvMessage step⟩
    | neiTableCheckExpire k =>
      simp only [expiryStep] at step
      cases hcheck : n.neiTableChecks[k]? with
      | none =>
        simp only [hcheck] at step
        cases Except.ok.inj step
        exact ⟨started, apart⟩
      | some check =>
        simp only [hcheck] at step
        cases Except.ok.inj step
        have taken : Apart (takeCheck n.toVehicle k) := ⟨apart.address, apart.unlisted⟩
        refine ⟨?_, taken.neiTableCheckExpire started check.2⟩
        rw [neiTableCheckExpire_now]
        exact started
  exact (exec_invariant keep init along run).2

end Choice

def halfway : Vehicle :=
  { approaching with junAreaTag := false, position := ⟨44500, 0⟩, last := ⟨44500, 0⟩ }

def antMessage (originator forwarder : Ipv4Address) : MessageHeader Time :=
  { approaching.staleMessage with
    messageType := .ant
    originatorAddress := originator
    timeToLive := 1
    messageSequenceNumber := 1
    ant := { approaching.staleMessage.ant with
      senderAddr := 0x0a010002
      seqNum := 1
      junFrom := 44
      nextJunctionId := 45
      sequenceOfJunctions := [44]
      sDelay := [0]
      nextForwarder := forwarder } }

theorem halfway_apart : Apart halfway where
  address := by decide
  unlisted := Std.TreeMap.not_mem_emptyc

theorem onRoad_atNewJunction {v : Vehicle} (road : v.junAreaTag = false) (ant : Ant Time) :
    AtNewJunction v ant := by
  intro tag
  rw [road] at tag
  cases tag

theorem not_outdated_of_none {v : Vehicle} {msg : MessageHeader Time}
    (unlisted : v.neiTable[msg.originatorAddress]? = none) : ¬ outdated v msg := by
  intro old
  obtain ⟨entry, hentry, -⟩ := old
  rw [unlisted] at hentry
  cases hentry

theorem processAnt_progresses_iff_halfway : ∃ n',
    @processAnt integralPlatform (emptyNode halfway) (antMessage 0x0a010002 0x0a010001) 0 0 0 =
      .ok n' ∧ @Progresses integralPlatform (emptyNode halfway)
      (antMessage 0x0a010002 0x0a010001) 0 0 n' := by
  have runs : Ensures (@processAnt integralPlatform (emptyNode halfway)
    (antMessage 0x0a010002 0x0a010001) 0 0 0)
      (fun _ => True) (fun _ => False) := by
    decide +kernel
  obtain ⟨n', run, -⟩ := runs.exists_ok
  have progress :=
    @processAnt_progresses_iff integralPlatform _ _ _ _ _ _ halfway_apart (by decide) rfl
    (not_outdated_of_none Std.TreeMap.getElem?_emptyc) (onRoad_atNewJunction rfl _) run
  exact ⟨n', run, progress.mpr (by decide +kernel)⟩

/-- The ant was heard on its way from the node before to `10.1.0.3`, which now hands it on to this
one. -/
theorem overheard_stays : ∃ n n',
    exec (@expiryStep integralPlatform) (emptyNode halfway)
      [.receive (antMessage 0x0a010002 0x0a010003) 0 0 0] = .ok n ∧
    Apart n.toVehicle ∧ ¬ outdated n.toVehicle (antMessage 0x0a010003 0x0a010001) ∧
      n.junAreaTag = false ∧
    @processAnt integralPlatform n (antMessage 0x0a010003 0x0a010001) 0 0 0 = .ok n' ∧
      ¬ @Progresses integralPlatform n (antMessage 0x0a010003 0x0a010001) 0 0 n' := by
  have first : Ensures (exec (@expiryStep integralPlatform) (emptyNode halfway)
      [.receive (antMessage 0x0a010002 0x0a010003) 0 0 0])
      (fun n => (n.junAreaTag = false ∧ n.mainAddress = 0x0a010001) ∧
        ¬ outdated n.toVehicle (antMessage 0x0a010003 0x0a010001) ∧
        Ensures (@processAnt integralPlatform n (antMessage 0x0a010003 0x0a010001) 0 0 0)
          (fun n' => (n'.queuedMessages.map fun m => m.ant.nextForwarder) = [0x0a010001])
            (fun _ => False))
      (fun _ => False) := by
    decide +kernel
  obtain ⟨n, hn, ⟨road, own⟩, fresh, second⟩ := first.exists_ok
  obtain ⟨n', hn', hqueue⟩ := second.exists_ok
  have along : Along (@expiryStep integralPlatform) Steady (emptyNode halfway)
      [.receive (antMessage 0x0a010002 0x0a010003) 0 0 0] := ⟨trivial, fun _ _ => trivial⟩
  have apart : Apart n.toVehicle :=
    @apart_of_run integralPlatform _ _ _ (by decide) rfl le_rfl along hn
  refine ⟨n, n', hn, apart, fresh, road, hn', fun progress => ?_⟩
  obtain ⟨m, hop, hqueued, -, -, hhop, ne⟩ := progress
  rw [hqueued, map_append, map_singleton, hhop] at hqueue
  have last : hop = 0x0a010001 := by
    have hlast := congrArg List.getLast? hqueue
    simpa using hlast
  exact ne (last.trans own.symm)

end Egsr.Grp.AntProgress
