import Egsr.Grp.Handlers

/-! Ants that travel through the network. An ant names the junctions it has
passed, no junction twice, with the time it was at each; so the matrices are
updated from inside its vectors and from junctions that exist. -/

namespace Egsr.Grp.AntRun

open Grp.Road Grp.Header Grp.State Grp.Control Grp.Handlers List
open Grp.SourceRoute Grp.DataPlane Lib.Outcome Lib.Run Network.ByteIterator

/-! ## Well-formed ants -/

structure AntOk (now : Time) (ant : Ant Time) : Prop where
  delays : ant.sDelay.length = ant.sequenceOfJunctions.length
  version : ant.sequenceOfJunctions.length = ant.version.toNat + 1
  distinct : ant.sequenceOfJunctions.Nodup
  junctions : ∀ jun ∈ ant.sequenceOfJunctions, jun.toNat < mJuncNum
  sorted : ant.sDelay.Pairwise (· ≤ ·)
  past : ∀ t ∈ ant.sDelay, t ≤ now

variable {now : Time} {ant ant' : Ant Time}

theorem AntOk.length_le (h : AntOk now ant) : ant.sequenceOfJunctions.length ≤ mJuncNum := by
  have hinj : Function.Injective UInt16.toNat := fun _ _ => UInt16.toNat_inj.mp
  have hsubset : (ant.sequenceOfJunctions.map UInt16.toNat).toFinset ⊆ Finset.range mJuncNum := by
    intro j hj
    rw [mem_toFinset, mem_map] at hj
    obtain ⟨jun, hjun, rfl⟩ := hj
    exact Finset.mem_range.mpr (h.junctions jun hjun)
  have hcard := Finset.card_le_card hsubset
  rwa [toFinset_card_of_nodup ((nodup_map_iff hinj).mpr h.distinct), length_map,
    Finset.card_range] at hcard

theorem AntOk.later (h : AntOk now ant) {t : Time} (le : now ≤ t) : AntOk t ant :=
  { h with past := fun s hs => (h.past s hs).trans le }

theorem AntOk.continues (h : AntOk now ant) {v : Vehicle} (clock : v.now = now)
    (onMap : v.currentJID < mJuncNum) (continues : Continues v ant ant') : AntOk now ant' := by
  cases continues with
  | inl same =>
    obtain ⟨hseq, hdelay, hversion⟩ := same
    exact ⟨by rw [hdelay, hseq, h.delays], by rw [hseq, hversion, h.version], hseq ▸ h.distinct,
      hseq ▸ h.junctions, hdelay ▸ h.sorted, hdelay ▸ h.past⟩
  | inr extended =>
    obtain ⟨hfresh, hseq, hrest⟩ := extended
    have hlen := h.length_le
    have hversion := h.version
    have hjunc : mJuncNum = 49 := rfl
    have hcur : (UInt16.ofNat v.currentJID).toNat = v.currentJID := by
      rw [UInt16.toNat_ofNat', Nat.mod_eq_of_lt (by omega)]
    obtain ⟨hdelay, hversion'⟩ := hrest (by
      rw [hseq, length_append, length_singleton, maxPathLength]
      omega)
    have hnext : (ant.version + 1).toNat = ant.version.toNat + 1 := by
      rw [UInt16.toNat_add, UInt16.toNat_one, Nat.mod_eq_of_lt (by omega)]
    refine ⟨?_, ?_, ?_, ?_, ?_, ?_⟩
    · rw [hdelay, hseq, length_append, length_append, h.delays, length_singleton, length_singleton]
    · rw [hseq, hversion', hnext, length_append, length_singleton, hversion]
    · rw [hseq, nodup_append]
      refine ⟨h.distinct, nodup_singleton _, fun a ha b hb heq => ?_⟩
      rw [mem_singleton.mp hb] at heq
      exact hfresh a ha (by rw [heq, hcur])
    · rw [hseq]
      intro jun hjun
      cases mem_append.mp hjun with
      | inl hold => exact h.junctions jun hold
      | inr hnew => rwa [mem_singleton.mp hnew, hcur]
    · rw [hdelay, pairwise_append]
      refine ⟨h.sorted, pairwise_singleton _ _, fun s hs t ht => ?_⟩
      rw [mem_singleton.mp ht, clock]
      exact h.past s hs
    · rw [hdelay]
      intro t ht
      cases mem_append.mp ht with
      | inl hold => exact h.past t hold
      | inr hnew => rw [mem_singleton.mp hnew, clock]

section Update

variable [Platform]

theorem AntOk.updateRound (h : AntOk now ant) (v : Vehicle) {i : ℕ} (pos : 1 ≤ i)
    (lt : i < ant.sequenceOfJunctions.length) :
    Ensures (updateRound ant v i) (fun _ => True) (fun _ => False) := by
  have hprev : ((i : ℤ) - 1) = ((i - 1 : ℕ) : ℤ) := by omega
  have hlt' : i - 1 < ant.sequenceOfJunctions.length := by omega
  have hdelay : i < ant.sDelay.length := by rw [h.delays]; exact lt
  have hdelay' : i - 1 < ant.sDelay.length := by rw [h.delays]; exact hlt'
  have hx := h.junctions _ (getElem_mem lt)
  have hy := h.junctions _ (getElem_mem hlt')
  have hx' : ant.sequenceOfJunctions[i].toNat < mJuncNum + 2 := by omega
  have hy' : ant.sequenceOfJunctions[i - 1].toNat < mJuncNum + 2 := by omega
  rw [Control.updateRound, hprev, antGet_eq lt, antGet_eq hlt', antGet_eq hdelay, antGet_eq hdelay']
  simp only [reinforce, bind, Except.bind, pure, Except.pure, Grid.get_eq hx hy,
    Grid.set_eq hx hy, Grid.setBoth_eq hx hy, Grid.setBoth_eq hx' hy', ensures_ok]

theorem AntOk.updateMatrix (h : AntOk now ant) (v : Vehicle) :
    Ensures (updateMatrix v ant) (fun _ => True) (fun _ => False) := by
  rw [Control.updateMatrix, if_pos h.delays.symm]
  refine ensures_foldlM trivial fun w i hi _ => ?_
  rw [newIndices, mem_map] at hi
  obtain ⟨k, hk, rfl⟩ := hi
  rw [mem_range] at hk
  have hnew : newSteps v ant ≤ ant.version.toNat := by
    unfold newSteps
    cases v.receivedLastAnt (ant.senderAddr, ant.seqNum) with
    | none => exact le_rfl
    | some recorded =>
      dsimp only
      split
      · exact Nat.sub_le _ _
      · exact le_rfl
  have hversion := h.version
  have hindex : (ant.sequenceOfJunctions.length : ℤ) - 1 - k =
      ((ant.sequenceOfJunctions.length - 1 - k : ℕ) : ℤ) := by omega
  rw [hindex]
  exact h.updateRound w (by omega) (by omega)

end Update

/-- The nodes, the messages that have been sent, and the time. -/
structure AntNet where
  node : Ipv4Address → Node
  air : List (MessageHeader Time)
  now : Time

inductive AntAction where
  | elapse (t : Time)
  /-- Anything else that happens at a node; its map and queued messages stay. -/
  | observe (a : Ipv4Address) (n : Node)
  | helloTimerExpire (a : Ipv4Address) (jitter : Time)
  | antTimerExpire (a : Ipv4Address) (rand : ℕ) (jitter : Time)
  | sendQueuedMessages (a : Ipv4Address)
  /-- Message `k` of those sent arrives, late, again or never. -/
  | receive (a : Ipv4Address) (k : ℕ) (receiverIfaceAddr : Ipv4Address) (rand : ℕ)
      (jitter : Time)

def AntNet.at (net : AntNet) (a : Ipv4Address) : Node := { net.node a with now := net.now }

def AntNet.put (net : AntNet) (a : Ipv4Address) (n : Node) : AntNet :=
  { net with node := Function.update net.node a n }

@[simp] theorem AntNet.put_self (net : AntNet) (a : Ipv4Address) (n : Node) :
    (net.put a n).node a = n := by simp [AntNet.put]

theorem AntNet.put_of_ne (net : AntNet) {a b : Ipv4Address} (n : Node) (h : b ≠ a) :
    (net.put a n).node b = net.node b := by simp [AntNet.put, h]

section Network

variable [Platform]

def antStep (net : AntNet) : AntAction → Except Fault AntNet
  | .elapse t => pure { net with now := t }
  | .observe a n => pure (net.put a { n with
      map := (net.node a).map
      queuedMessages := (net.node a).queuedMessages })
  | .helloTimerExpire a jitter => do
    let v ← helloTimerExpire { (net.at a).toVehicle with helloTimer := none } jitter
    pure (net.put a { net.at a with toVehicle := v })
  | .antTimerExpire a rand jitter => do
    let v ← antTimerExpire { (net.at a).toVehicle with antTimer := none } rand jitter
    pure (net.put a { net.at a with toVehicle := v })
  | .sendQueuedMessages a => do
    let net' := net.put a { net.at a with toVehicle := sendQueuedMessages (net.at a).toVehicle }
    pure { net' with air := net.air ++ (net.node a).queuedMessages }
  | .receive a k receiverIfaceAddr rand jitter =>
    match net.air[k]? with
    | some msg => do
      let n ← recvMessage (net.at a) msg receiverIfaceAddr rand jitter
      pure (net.put a n)
    | none => pure net

end Network

def Forward (net : AntNet) : AntAction → Prop
  | .elapse t => net.now ≤ t
  | _ => True

instance (net : AntNet) (act : AntAction) : Decidable (Forward net act) :=
  match act with
  | .elapse _ | .observe .. | .helloTimerExpire .. | .antTimerExpire .. | .sendQueuedMessages _
  | .receive .. => by unfold Forward; infer_instance

/-- No message is queued or on its way, and no map has more junctions than the
matrices have rows. -/
structure AntNetStarted (net : AntNet) : Prop where
  map : ∀ a, (net.node a).map.length ≤ mJuncNum
  queued : ∀ a, (net.node a).queuedMessages = []
  air : net.air = []

/-! ## Every ant is well formed -/

def Carries (now : Time) (msg : MessageHeader Time) : Prop :=
  msg.messageType = .ant → AntOk now msg.ant

structure AntsOk (net : AntNet) : Prop where
  map : ∀ a, (net.node a).map.length ≤ mJuncNum
  queued : ∀ a, ∀ msg ∈ (net.node a).queuedMessages, Carries net.now msg
  air : ∀ msg ∈ net.air, Carries net.now msg

variable {net : AntNet} {a : Ipv4Address} {n : Node}

theorem AntNetStarted.antsOk (h : AntNetStarted net) : AntsOk net where
  map := h.map
  queued a msg hmsg := by
    rw [h.queued a] at hmsg
    cases hmsg
  air msg hmsg := by
    rw [h.air] at hmsg
    cases hmsg

theorem AntsOk.put (h : AntsOk net) (map : n.map = (net.node a).map)
    (queued : ∀ msg ∈ n.queuedMessages, Carries net.now msg) : AntsOk (net.put a n) where
  map b := by
    by_cases hb : b = a
    · subst hb
      rw [AntNet.put_self, map]
      exact h.map b
    · rw [AntNet.put_of_ne _ _ hb]
      exact h.map b
  queued b := by
    by_cases hb : b = a
    · subst hb
      rw [AntNet.put_self]
      exact queued
    · rw [AntNet.put_of_ne _ _ hb]
      exact h.queued b
  air := h.air

theorem AntsOk.queue (h : AntsOk net) (map : n.map = (net.node a).map) {msg : MessageHeader Time}
    (queued : n.queuedMessages = (net.node a).queuedMessages ++ [msg])
    (carries : Carries net.now msg) : AntsOk (net.put a n) := by
  refine h.put map fun m hm => ?_
  rw [queued] at hm
  cases mem_append.mp hm with
  | inl hold => exact h.queued a m hold
  | inr hnew =>
    rw [mem_singleton.mp hnew]
    exact carries

theorem AntsOk.keep (h : AntsOk net) (map : n.map = (net.node a).map)
    (queued : n.queuedMessages = (net.node a).queuedMessages) : AntsOk (net.put a n) :=
  h.put map fun msg hmsg => h.queued a msg (queued ▸ hmsg)

theorem AntsOk.unchanged (h : AntsOk net) (same : n.toVehicle = (net.at a).toVehicle) :
    AntsOk (net.put a n) := by
  have hmap : n.map = (net.at a).map := by rw [same]
  have hqueue : n.queuedMessages = (net.at a).queuedMessages := by rw [same]
  exact h.keep hmap hqueue

theorem AntOk.started {jid : ℕ} (onMap : jid < mJuncNum)
    (version : ant.version = 0) (sequence : ant.sequenceOfJunctions = [.ofNat jid])
    (delay : ant.sDelay = [now]) : AntOk now ant := by
  have hjid : (UInt16.ofNat jid).toNat < mJuncNum := by
    have hjunc : mJuncNum = 49 := rfl
    rw [UInt16.toNat_ofNat', Nat.mod_eq_of_lt (by omega)]
    exact onMap
  refine ⟨?_, ?_, ?_, ?_, ?_, ?_⟩
  · rw [sequence, delay]
    rfl
  · rw [sequence, version]
    rfl
  · rw [sequence]
    exact nodup_singleton _
  · rw [sequence]
    intro jun hjun
    rwa [mem_singleton.mp hjun]
  · rw [delay]
    exact pairwise_singleton _ _
  · rw [delay]
    intro t ht
    rw [mem_singleton.mp ht]

section Runs

variable [Platform]

theorem AntsOk.recvMessage (h : AntsOk net) {msg : MessageHeader Time}
    (carries : Carries net.now msg) (receiverIfaceAddr : Ipv4Address) (rand : ℕ) (jitter : Time) :
    Ensures (recvMessage (net.at a) msg receiverIfaceAddr rand jitter)
      (fun n => AntsOk (net.put a n)) (fun _ => True) := by
  refine Ensures.ite (fun _ => h.keep rfl rfl) fun _ => ?_
  cases htype : msg.messageType with
  | cpack => exact h.keep rfl rfl
  | hello =>
    refine (processHello_spec (net.at a) msg receiverIfaceAddr).mono (fun n hn => ?_)
      fun _ _ => trivial
    cases hn with
    | inl same => exact h.unchanged same
    | inr heard => exact h.keep (heard.1.map_eq) heard.2.2
  | ant =>
    refine (processAnt_spec (net.at a) msg receiverIfaceAddr rand jitter).mono (fun n hn => ?_)
      fun _ _ => trivial
    cases hn with
    | inl same => exact h.unchanged same
    | inr accepted =>
      obtain ⟨heard, -, hqueue, hmap⟩ := accepted
      cases hqueue with
      | inl same => exact h.keep heard.map_eq same
      | inr sent =>
        obtain ⟨m, hm, hcontinues⟩ := sent
        have hjid : (net.at a).currentJID < mJuncNum := hmap.trans_le (h.map a)
        exact h.queue heard.map_eq hm fun _ => (carries htype).continues rfl hjid hcontinues

theorem AntsOk.antStep (h : AntsOk net) (act : AntAction) (forward : Forward net act) :
    Ensures (antStep net act) AntsOk (fun _ => True) := by
  cases act with
  | elapse t =>
    exact ⟨h.map, fun b msg hmsg type => (h.queued b msg hmsg type).later forward,
      fun msg hmsg type => (h.air msg hmsg type).later forward⟩
  | observe a n => exact h.keep rfl rfl
  | helloTimerExpire a jitter =>
    refine (helloTimerExpire_spec _ jitter).bind fun v hv => ?_
    obtain ⟨hmap, msg, htype, hqueue⟩ := hv
    exact h.queue hmap hqueue fun type => by simp [htype] at type
  | antTimerExpire a rand jitter =>
    refine ((antTimerExpire_spec rfl rand jitter).mono (fun _ hv => hv) fun _ _ => trivial).bind
      fun v hv => ?_
    have hmap : v.map = (net.node a).map := hv.map_eq
    cases hv.queued with
    | inl same => exact h.keep hmap same
    | inr sent =>
      obtain ⟨msg, hqueue, hversion, hsequence, hdelay⟩ := sent
      have hjid : (net.node a).currentJID < mJuncNum := hv.onMap.trans_le (h.map a)
      exact h.queue hmap hqueue fun _ => AntOk.started hjid hversion hsequence hdelay
  | sendQueuedMessages a =>
    have hput : AntsOk (net.put a { net.at a with
        toVehicle := sendQueuedMessages (net.at a).toVehicle }) :=
      h.put rfl fun msg hmsg => by cases hmsg
    refine ⟨hput.map, hput.queued, fun msg hmsg => ?_⟩
    cases mem_append.mp hmsg with
    | inl hair => exact h.air msg hair
    | inr hqueue => exact h.queued a msg hqueue
  | receive a k receiverIfaceAddr rand jitter =>
    simp only [AntRun.antStep]
    cases hmsg : net.air[k]? with
    | none => exact h
    | some msg =>
      have hcarries := h.air msg (mem_of_getElem? hmsg)
      exact (h.recvMessage hcarries receiverIfaceAddr rand jitter).bind fun n hn => hn

/-- In every run every ant queued or sent is well formed, and `update_matrix` reads it
inside at every vehicle, whatever the vehicle has recorded of it. -/
theorem ants_wellFormed {start net : AntNet} (started : AntNetStarted start)
    {acts : List AntAction} (forward : Along antStep Forward start acts)
    (run : exec antStep start acts = .ok net) {msg : MessageHeader Time}
    (isAnt : msg.messageType = .ant)
    (sent : msg ∈ net.air ∨ ∃ a, msg ∈ (net.node a).queuedMessages) :
    AntOk net.now msg.ant ∧ ∀ v, ∃ v', updateMatrix v msg.ant = .ok v' := by
  have hants : AntsOk net := exec_invariant
    (fun s act s' hs hforward hstep => (hs.antStep act hforward).of_ok hstep)
    started.antsOk forward run
  have hok : AntOk net.now msg.ant := by
    cases sent with
    | inl hair => exact hants.air msg hair isAnt
    | inr hqueue =>
      obtain ⟨a, ha⟩ := hqueue
      exact hants.queued a msg ha isAnt
  refine ⟨hok, fun v => ?_⟩
  obtain ⟨v', hv', -⟩ := (hok.updateMatrix v).exists_ok
  exact ⟨v', hv'⟩

end Runs

def followed : Vehicle := { approaching with
  map := (range mJuncNum).map fun (j : ℕ) =>
    ⟨j * 1000, 0, if j = 44 then (∅ : Std.TreeMap ℕ ℚ).insert 45 1000 else ∅⟩
  neiTable := (∅ : NeighborTable).insert 0x0a010002 { emptyEntry with nLocation := ⟨44500, 0⟩ } }

/-- The vehicle `10.1.0.1` at junction 44 and all others at junction 45. -/
def platoon : AntNet where
  node a := emptyNode (if a = 0x0a010001 then followed else
    { followed with mainAddress := a, currentJID := 45, nextJID := 46, neiTable := ∅ })
  air := []
  now := 0

theorem platoon_started : AntNetStarted platoon where
  map a := by
    have hmap : (platoon.node a).map = followed.map := by
      by_cases h : a = 0x0a010001 <;> simp [platoon, emptyNode, h]
    rw [hmap]
    decide
  queued a := by
    by_cases h : a = 0x0a010001 <;> simp [platoon, emptyNode, followed, approaching, h]
  air := rfl

def handedOn : List AntAction :=
  [.antTimerExpire 0x0a010001 0 0, .sendQueuedMessages 0x0a010001, .elapse 1,
    .receive 0x0a010002 0 0x0a010002 0 0, .sendQueuedMessages 0x0a010002]

theorem ants_wellFormed_handedOn : ∃ net msg,
    exec (@antStep integralPlatform) platoon handedOn = .ok net ∧ net.air[1]? = some msg ∧
      msg.ant.sequenceOfJunctions = [44, 45] ∧
        AntOk net.now msg.ant ∧ ∀ v, ∃ v', @updateMatrix integralPlatform v msg.ant = .ok v' := by
  have hrun : Ensures (exec (@antStep integralPlatform) platoon handedOn)
      (fun net => (net.air[1]?).map (fun msg => (msg.messageType, msg.ant.sequenceOfJunctions)) =
        some (.ant, [44, 45])) (fun _ => False) := by
    decide +kernel
  have forward : Along (@antStep integralPlatform) Forward platoon handedOn := by
    decide +kernel
  obtain ⟨net, run, hair⟩ := hrun.exists_ok
  obtain ⟨msg, hmsg, hsent⟩ := Option.map_eq_some_iff.mp hair
  obtain ⟨htype, hsequence⟩ := Prod.mk.inj hsent
  exact ⟨net, msg, run, hmsg, hsequence, @ants_wellFormed integralPlatform _ net platoon_started _
    forward run msg htype (.inl (mem_of_getElem? hmsg))⟩

end Egsr.Grp.AntRun
