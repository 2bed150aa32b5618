import Egsr.Olsr.NeighborStatus

/-! TC messages of OLSR: the set of MPR selectors that a node advertises under
its ANSN, and the topology set that a receiver keeps of it. -/

namespace Egsr.Olsr.NeighborSensing

open Lib.Run Lib.Outcome List RoutingProtocol

structure Tc where
  vTime : ℤ
  originatorAddress : Ipv4Address
  ansn : UInt16
  neighborAddresses : List Ipv4Address
deriving DecidableEq

namespace RoutingProtocol

variable (c : Config) (tcInterval : ℤ) (s : RoutingProtocol)

/-- `OLSR_TOP_HOLD_TIME` is three TC intervals. -/
def sendTc : Tc :=
  { vTime := 3 * tcInterval
    originatorAddress := c.m_mainAddress
    ansn := s.m_ansn
    neighborAddresses := s.m_mprSelectorSet.map fun it => it.mainAddr }

def tcTimerExpire : Option Tc :=
  if s.m_mprSelectorSet.length > 0 then some (s.sendTc c tcInterval) else none

end RoutingProtocol

structure TopologyTuple where
  destAddr : Ipv4Address
  lastAddr : Ipv4Address
  sequenceNumber : UInt16
  expirationTime : ℤ
deriving DecidableEq

def findTopologyTuple (destAddr lastAddr : Ipv4Address) (topology : List TopologyTuple) :
    Option TopologyTuple :=
  topology.find? fun it => it.destAddr = destAddr && it.lastAddr = lastAddr

def findNewerTopologyTuple (lastAddr : Ipv4Address) (ansn : UInt16)
    (topology : List TopologyTuple) : Option TopologyTuple :=
  topology.find? fun it => it.lastAddr = lastAddr && it.sequenceNumber > ansn

def eraseOlderTopologyTuples (lastAddr : Ipv4Address) (ansn : UInt16)
    (topology : List TopologyTuple) : List TopologyTuple :=
  topology.filter fun it => !(it.lastAddr = lastAddr && it.sequenceNumber < ansn)

def refreshTopologyTuple (destAddr lastAddr : Ipv4Address) (expirationTime : ℤ) :
    List TopologyTuple → List TopologyTuple
  | [] => []
  | it :: rest =>
    if it.destAddr = destAddr ∧ it.lastAddr = lastAddr then { it with expirationTime } :: rest
    else it :: refreshTopologyTuple destAddr lastAddr expirationTime rest

/-- The loop body of `ProcessTc`. -/
def recordNeighbor (now : ℤ) (tc : Tc) (topology : List TopologyTuple) (addr : Ipv4Address) :
    List TopologyTuple :=
  if (findTopologyTuple addr tc.originatorAddress topology).isSome then
    refreshTopologyTuple addr tc.originatorAddress (now + tc.vTime) topology
  else topology ++ [⟨addr, tc.originatorAddress, tc.ansn, now + tc.vTime⟩]

/-- Whether the message passes: its sender has a symmetric link, and nothing newer is known. -/
def accepts (symLink : Bool) (tc : Tc) (topology : List TopologyTuple) : Bool :=
  symLink && (findNewerTopologyTuple tc.originatorAddress tc.ansn topology).isNone

def processTc (now : ℤ) (symLink : Bool) (tc : Tc) (topology : List TopologyTuple) :
    List TopologyTuple :=
  if accepts symLink tc topology then
    tc.neighborAddresses.foldl (recordNeighbor now tc)
      (eraseOlderTopologyTuples tc.originatorAddress tc.ansn topology)
  else topology

/-- `RemoveTopologyTuple` erases the first tuple that is equal but for its time. -/
def topologyTupleTimerExpire (now : ℤ) (destAddr lastAddr : Ipv4Address)
    (topology : List TopologyTuple) : List TopologyTuple :=
  match findTopologyTuple destAddr lastAddr topology with
  | none => topology
  | some tuple =>
    if tuple.expirationTime < now then
      topology.eraseP fun it => it.destAddr = tuple.destAddr && it.lastAddr = tuple.lastAddr &&
        it.sequenceNumber = tuple.sequenceNumber
    else topology

/-! ## Runs -/

/-- A TC message, and how often the ANSN had been incremented. -/
structure Advertisement where
  increments : ℕ
  tc : Tc
deriving DecidableEq

structure Originator where
  node : RoutingProtocol
  sent : List Advertisement
deriving DecidableEq

def Originator.initial : Originator := ⟨.initial, []⟩

inductive OriginatorAction where
  | sense (a : Action)
  | tcTimerExpire
deriving DecidableEq

def originatorStep (c : Config) (tcInterval : ℤ) (o : Originator) :
    OriginatorAction → Except Fault Originator
  | .sense a => (step c o.node a).map fun node => { o with node }
  | .tcTimerExpire => .ok
    { o with
      sent := o.sent ++
      ((o.node.tcTimerExpire c tcInterval).map fun tc => ⟨o.node.increments, tc⟩).toList }

inductive ReceiverAction where
  | processTc (now : ℤ) (symLink : Bool) (tc : Tc)
  | topologyTupleTimerExpire (now : ℤ) (destAddr lastAddr : Ipv4Address)
deriving DecidableEq

def receive (topology : List TopologyTuple) : ReceiverAction → List TopologyTuple
  | .processTc now symLink tc => processTc now symLink tc topology
  | .topologyTupleTimerExpire now destAddr lastAddr =>
    topologyTupleTimerExpire now destAddr lastAddr topology

/-! ## What the ANSN counts -/

section Counting

variable {s t u : RoutingProtocol}

def RoutingProtocol.advertised (s : RoutingProtocol) : List Ipv4Address :=
  s.m_mprSelectorSet.map fun it => it.mainAddr

def Numbered (ansn : UInt16) (increments : ℕ) : Prop := ansn.toNat = (65535 + increments) % 65536

structure Counted (s t : RoutingProtocol) : Prop where
  le : s.increments ≤ t.increments
  numbered : Numbered s.m_ansn s.increments → Numbered t.m_ansn t.increments

/-- A change of the advertised set comes with an increment. -/
structure Renumbered (s t : RoutingProtocol) : Prop extends Counted s t where
  same : t.increments = s.increments → t.advertised = s.advertised

theorem Counted.trans (h : Counted s t) (h' : Counted t u) : Counted s u :=
  ⟨h.le.trans h'.le, h'.numbered ∘ h.numbered⟩

theorem Renumbered.trans (h : Renumbered s t) (h' : Renumbered t u) : Renumbered s u where
  toCounted := h.toCounted.trans h'.toCounted
  same heq := by
    have hle := h.le
    have hle' := h'.le
    rw [h'.same (by omega), h.same (by omega)]

theorem Counted.of_eq (increments : t.increments = s.increments) (ansn : t.m_ansn = s.m_ansn) :
    Counted s t where
  le := increments.ge
  numbered h := by rwa [ansn, increments]

theorem Renumbered.of_eq (increments : t.increments = s.increments) (ansn : t.m_ansn = s.m_ansn)
    (advertised : t.advertised = s.advertised) : Renumbered s t :=
  ⟨.of_eq increments ansn, fun _ => advertised⟩

theorem Renumbered.of_lt (h : Counted s t) (lt : s.increments < t.increments) : Renumbered s t :=
  ⟨h, fun heq => absurd heq lt.ne'⟩

theorem incrementAnsn_renumbered (h : Counted s t) : Renumbered s t.incrementAnsn := by
  have hle := h.le
  refine .of_lt ⟨hle.trans (Nat.le_succ _), fun hs => ?_⟩ (Nat.lt_succ_of_le hle)
  have ht := h.numbered hs
  unfold Numbered at ht ⊢
  rw [incrementAnsn, UInt16.toNat_ofNat']
  dsimp only
  omega

theorem schedule_renumbered (s : RoutingProtocol) (time : ℤ) (handler : Handler) :
    Renumbered s (s.schedule time handler) := .of_eq rfl rfl rfl

variable (c : Config)

theorem linkTupleAdded_renumbered (s : RoutingProtocol) (tuple : LinkTuple) (willingness : UInt8) :
    Renumbered s (s.linkTupleAdded c tuple willingness) := by
  rw [linkTupleAdded, addNeighborTuple]
  exact incrementAnsn_renumbered (.of_eq rfl rfl)

theorem linkTupleUpdated_renumbered (s : RoutingProtocol) (tuple : LinkTuple)
    (willingness : UInt8) : Renumbered s (s.linkTupleUpdated c tuple willingness) := by
  unfold linkTupleUpdated
  dsimp only
  split_ifs
  · exact (linkTupleAdded_renumbered c s tuple willingness).trans (.of_eq rfl rfl rfl)
  · exact .of_eq rfl rfl rfl

theorem linkTupleUpdated_lt (s : RoutingProtocol) (tuple : LinkTuple) (willingness : UInt8)
    (unknown : findNeighborTuple (c.getMainAddress tuple.neighborIfaceAddr) s.m_neighborSet =
      none) :
    s.increments < (s.linkTupleUpdated c tuple willingness).increments := by
  unfold linkTupleUpdated
  dsimp only
  rw [unknown, Option.isNone_none, if_pos rfl]
  exact Nat.lt_succ_self _

theorem linkSensing_renumbered (s : RoutingProtocol) (hello : Hello)
    (receiverIface senderIface : Ipv4Address) :
    Ensures (s.linkSensing c hello receiverIface senderIface) (Renumbered s) fun _ => True := by
  unfold linkSensing
  have hany : ∀ x : Except Fault (LinkTuple × Bool), Ensures x (fun _ => True) fun _ => True :=
    fun x =>
    (ensures_self x).mono (fun _ _ => trivial) fun _ _ => trivial
  have hlinks : ∀ links, Renumbered s { s with m_linkSet := links } := fun _ => .of_eq rfl rfl rfl
  cases s.findLinkTuple senderIface with
  | none =>
    refine (hany _).bind fun p _ => ensures_ok.mpr ?_
    refine .trans ?_ ((linkTupleAdded_renumbered c _ _ _).trans (.of_eq rfl rfl rfl))
    split_ifs
    · exact (hlinks _).trans (linkTupleUpdated_renumbered c _ _ _)
    · exact hlinks _
  | some tuple =>
    refine (hany _).bind fun p _ => ensures_ok.mpr ?_
    exact (hlinks _).trans (linkTupleUpdated_renumbered c _ _ _)

theorem advertised_modify (mainAddr : Ipv4Address) (expirationTime : ℤ)
    (selectors : List MprSelectorTuple) :
    (modifyMprSelectorTuple mainAddr expirationTime selectors).map (fun it => it.mainAddr) =
      selectors.map fun it => it.mainAddr := by
  induction selectors with
  | nil => rfl
  | cons it rest ih =>
    rw [modifyMprSelectorTuple]
    split_ifs
    · rfl
    · rw [map_cons, map_cons, ih]

theorem selectedAsMpr_renumbered (hello : Hello) (s : RoutingProtocol) :
    Renumbered s (selectedAsMpr hello s) := by
  unfold selectedAsMpr
  split
  · rw [addMprSelectorTuple]
    refine .trans ?_ (schedule_renumbered _ _ _)
    exact incrementAnsn_renumbered (.of_eq rfl rfl)
  · exact .of_eq rfl rfl (advertised_modify _ _ _)

theorem populateMprSelectorSet_renumbered (s : RoutingProtocol) (hello : Hello) :
    Renumbered s (s.populateMprSelectorSet c hello) := by
  have hfoldl :
    ∀ {α : Type} (f : RoutingProtocol → α → RoutingProtocol) (xs : List α) (s : RoutingProtocol),
      (∀ s x, Renumbered s (f s x)) → Renumbered s (xs.foldl f s) := by
    intro α f xs s hf
    induction xs generalizing s with
    | nil => exact .of_eq rfl rfl rfl
    | cons x xs ih => exact (hf s x).trans (ih (f s x))
  refine hfoldl _ _ _ fun s m => ?_
  split_ifs
  · refine hfoldl _ _ _ fun s addr => ?_
    split_ifs
    · exact selectedAsMpr_renumbered hello s
    · exact .of_eq rfl rfl rfl
  · exact .of_eq rfl rfl rfl

theorem mprSelTupleTimerExpire_renumbered (s : RoutingProtocol) (mainAddr : Ipv4Address) :
    Renumbered s (s.mprSelTupleTimerExpire mainAddr) := by
  unfold mprSelTupleTimerExpire
  split
  · exact .of_eq rfl rfl rfl
  · split_ifs
    · rw [removeMprSelectorTuple]
      exact incrementAnsn_renumbered (.of_eq rfl rfl)
    · exact .of_eq rfl rfl rfl

theorem neighborLoss_counted (s : RoutingProtocol) (tuple : LinkTuple) :
    Counted s (s.neighborLoss c tuple) :=
  (linkTupleUpdated_renumbered c s tuple 3).toCounted.trans (.of_eq rfl rfl)

theorem linkTupleUpdated_selectors (s : RoutingProtocol) (tuple : LinkTuple) (willingness : UInt8) :
    (s.linkTupleUpdated c tuple willingness).m_mprSelectorSet = s.m_mprSelectorSet := by
  unfold linkTupleUpdated
  dsimp only
  split_ifs <;> rfl

theorem neighborLoss_renumbered {tuple : LinkTuple}
    (harmless : findNeighborTuple (c.getMainAddress tuple.neighborIfaceAddr) s.m_neighborSet =
      none ∨ s.findMprSelectorTuple (c.getMainAddress tuple.neighborIfaceAddr) = none) :
    Renumbered s (s.neighborLoss c tuple) := by
  rcases harmless with hunknown | hnone
  · exact .of_lt (neighborLoss_counted c s tuple) (linkTupleUpdated_lt c s tuple 3 hunknown)
  · refine (linkTupleUpdated_renumbered c s tuple 3).trans (.of_eq rfl rfl ?_)
    have hselectors := linkTupleUpdated_selectors c s tuple 3
    have hall : (s.linkTupleUpdated c tuple 3).m_mprSelectorSet.filter
        (fun it => it.mainAddr ≠ c.getMainAddress tuple.neighborIfaceAddr) =
          (s.linkTupleUpdated c tuple 3).m_mprSelectorSet := by
      refine filter_eq_self.mpr fun it hit => ?_
      have habsent := List.find?_eq_none.mp hnone it (hselectors ▸ hit)
      simpa using habsent
    exact congrArg (List.map fun it => it.mainAddr) hall

end Counting

/-- A timer that loses a neighbour has no advertised MPR selector to forget: the neighbour is no MPR
selector, its tuple is added anew, or no message with this number has been sent. -/
def LossNumbered (c : Config) (o : Originator) : OriginatorAction → Prop
  | .sense (.fire k) => ∀ e ∈ o.node.pending[k]?, match e.handler with
    | .linkTupleTimerExpire neighborIfaceAddr => ∀ tuple ∈ o.node.findLinkTuple neighborIfaceAddr,
        e.ts ≤ tuple.time → tuple.symTime < e.ts → o.node.m_linkTupleTimerFirstTime = false →
          findNeighborTuple (c.getMainAddress tuple.neighborIfaceAddr) o.node.m_neighborSet = none ∨
          o.node.findMprSelectorTuple (c.getMainAddress tuple.neighborIfaceAddr) = none ∨
          ∀ m ∈ o.sent, m.increments ≠ o.node.increments
    | .mprSelTupleTimerExpire _ => True
  | _ => True

/-! ## The originator -/

structure AdvertisingOk (o : Originator) : Prop where
  node : Numbered o.node.m_ansn o.node.increments
  sent : ∀ m ∈ o.sent, Numbered m.tc.ansn m.increments ∧ m.increments ≤ o.node.increments
  current : ∀ m ∈ o.sent, m.increments = o.node.increments →
    m.tc.neighborAddresses = o.node.advertised
  same : ∀ m ∈ o.sent, ∀ m' ∈ o.sent, m.increments = m'.increments →
    m.tc.neighborAddresses = m'.tc.neighborAddresses

section Originators

variable {c : Config} {o : Originator} {node : RoutingProtocol}

theorem AdvertisingOk.counted (h : AdvertisingOk o) (counted : Counted o.node node)
    (current : ∀ m ∈ o.sent, m.increments = node.increments → o.node.increments = node.increments →
      node.advertised = o.node.advertised) : AdvertisingOk { o with node } where
  node := counted.numbered h.node
  sent m hm := ⟨(h.sent m hm).1, (h.sent m hm).2.trans counted.le⟩
  current m hm heq := by
    have hold := (h.sent m hm).2
    have hle := counted.le
    have hsame : o.node.increments = node.increments := by
      have heq' : m.increments = node.increments := heq
      omega
    rw [h.current m hm (heq.trans hsame.symm), ← current m hm heq hsame]
  same := h.same

theorem AdvertisingOk.renumbered (h : AdvertisingOk o) (renumbered : Renumbered o.node node) :
    AdvertisingOk { o with node } :=
  h.counted renumbered.toCounted fun _ _ _ heq => renumbered.same heq.symm

theorem AdvertisingOk.tcTimerExpire (h : AdvertisingOk o) (tcInterval : ℤ) : AdvertisingOk { o with
      sent := o.sent ++
      ((o.node.tcTimerExpire c tcInterval).map fun tc => ⟨o.node.increments, tc⟩).toList } := by
  unfold RoutingProtocol.tcTimerExpire
  split_ifs
  · have hmem : ∀ m, m ∈ o.sent ++ [⟨o.node.increments, o.node.sendTc c tcInterval⟩] ↔
        m ∈ o.sent ∨ m = ⟨o.node.increments, o.node.sendTc c tcInterval⟩ := by simp
    refine ⟨h.node, fun m hm => ?_, fun m hm heq => ?_, fun m hm m' hm' heq => ?_⟩
    · rcases (hmem m).mp hm with hm | rfl
      · exact h.sent m hm
      · exact ⟨h.node, le_rfl⟩
    · rcases (hmem m).mp hm with hm | rfl
      · exact h.current m hm heq
      · rfl
    · rcases (hmem m).mp hm with hm | rfl <;> rcases (hmem m').mp hm' with hm' | rfl
      · exact h.same m hm m' hm' heq
      · exact h.current m hm heq
      · exact (h.current m' hm' heq.symm).symm
      · rfl
  · rw [Option.map_none, Option.toList_none, append_nil]
    exact h

theorem AdvertisingOk.linkTupleTimerExpire (h : AdvertisingOk o) (neighborIfaceAddr : Ipv4Address)
    {now : ℤ} {pending : List Event}
    (numbered : ∀ tuple ∈ o.node.findLinkTuple neighborIfaceAddr, now ≤ tuple.time →
      tuple.symTime < now → o.node.m_linkTupleTimerFirstTime = false →
        findNeighborTuple (c.getMainAddress tuple.neighborIfaceAddr) o.node.m_neighborSet = none ∨
        o.node.findMprSelectorTuple (c.getMainAddress tuple.neighborIfaceAddr) = none ∨
        ∀ m ∈ o.sent, m.increments ≠ o.node.increments) : AdvertisingOk { o with
      node := ({ o.node with now, pending } : RoutingProtocol).linkTupleTimerExpire c
        neighborIfaceAddr } := by
  unfold RoutingProtocol.linkTupleTimerExpire
  have hstart : Renumbered o.node { o.node with now, pending } := .of_eq rfl rfl rfl
  cases hfound : o.node.findLinkTuple neighborIfaceAddr with
  | none =>
    rw [show findLinkTuple { o.node with now, pending } neighborIfaceAddr = none from hfound]
    exact h.renumbered hstart
  | some tuple =>
    rw [show findLinkTuple { o.node with now, pending } neighborIfaceAddr = some tuple from hfound]
    dsimp only
    by_cases htime : tuple.time < now
    · rw [if_pos htime]
      exact h.renumbered (.of_eq rfl rfl rfl)
    rw [if_neg htime]
    by_cases hsym : tuple.symTime < now
    · rw [if_pos hsym]
      by_cases hfirst : o.node.m_linkTupleTimerFirstTime = true
      · rw [if_pos hfirst]
        exact h.renumbered (.of_eq rfl rfl rfl)
      · rw [if_neg hfirst]
        have hloss := neighborLoss_counted c { o.node with now, pending } tuple
        rcases or_assoc.mpr
          (numbered tuple hfound (not_lt.mp htime) hsym (Bool.eq_false_iff.mpr hfirst))
          with hharmless | hunsent
        · have hlost : Renumbered _ (neighborLoss c { o.node with now, pending } tuple) :=
            neighborLoss_renumbered c hharmless
          exact h.renumbered ((hstart.trans hlost).trans (schedule_renumbered _ _ _))
        · refine h.counted ((hstart.toCounted.trans hloss).trans (.of_eq rfl rfl)) fun m hm heq
            hold => ?_
          exact absurd (heq.trans hold.symm) (hunsent m hm)
    · rw [if_neg hsym]
      exact h.renumbered (.of_eq rfl rfl rfl)

theorem originatorStep_ok {tcInterval : ℤ} (o : Originator) (a : OriginatorAction)
    (h : AdvertisingOk o) (numbered : LossNumbered c o a) :
    Ensures (originatorStep c tcInterval o a) AdvertisingOk fun _ => True := by
  cases a with
  | tcTimerExpire => exact ensures_ok.mpr (h.tcTimerExpire tcInterval)
  | sense a =>
    rw [originatorStep, ensures_map]
    cases a with
    | hello hello receiverIface senderIface =>
      rw [step, processHello]
      refine (linkSensing_renumbered c _ _ _ _).bind fun node hnode => ensures_ok.mpr ?_
      have hpopulate : Renumbered node (node.populateNeighborSet hello) := .of_eq rfl rfl rfl
      exact h.renumbered
        ((hnode.trans hpopulate).trans (populateMprSelectorSet_renumbered c _ hello))
    | wait now => exact ensures_ok.mpr (h.renumbered (.of_eq rfl rfl rfl))
    | fire k =>
      rw [step, fire]
      cases hk : o.node.pending[k]? with
      | none => exact ensures_error.mpr trivial
      | some e =>
        have hnumbered := numbered e hk
        dsimp only
        cases hhandler : e.handler with
        | linkTupleTimerExpire address =>
          rw [hhandler] at hnumbered
          exact ensures_ok.mpr (h.linkTupleTimerExpire address hnumbered)
        | mprSelTupleTimerExpire mainAddr =>
          have hstart :
            Renumbered o.node { o.node with now := e.ts, pending := o.node.pending.eraseIdx k } :=
            .of_eq rfl rfl rfl
          exact ensures_ok.mpr
            (h.renumbered (hstart.trans (mprSelTupleTimerExpire_renumbered _ mainAddr)))

end Originators

section Receiver

variable {topology : List TopologyTuple} {P : TopologyTuple → Prop}

/-- A property of topology tuples that does not depend on how long they are kept. -/
def Timeless (P : TopologyTuple → Prop) : Prop :=
  ∀ it expirationTime, P it → P { it with expirationTime }

theorem forall_recordNeighbor {now : ℤ} {tc : Tc} {addr : Ipv4Address} (timeless : Timeless P)
    (new : ∀ expirationTime, P ⟨addr, tc.originatorAddress, tc.ansn, expirationTime⟩)
    (all : ∀ it ∈ topology, P it) : ∀ it ∈ recordNeighbor now tc topology addr, P it := by
  unfold recordNeighbor
  split_ifs with hknown
  · clear hknown
    induction topology with
    | nil => exact all
    | cons b rest ih =>
      have hrest := ih fun it hit => all it (mem_cons_of_mem _ hit)
      rw [refreshTopologyTuple]
      split_ifs
      · exact forall_mem_cons.mpr ⟨timeless b _ (all b mem_cons_self), (forall_mem_cons.mp all).2⟩
      · exact forall_mem_cons.mpr ⟨all b mem_cons_self, hrest⟩
  · intro it hit
    rcases mem_append.mp hit with hit | hit
    · exact all it hit
    · exact mem_singleton.mp hit ▸ new _

theorem forall_recordNeighbors {now : ℤ} {tc : Tc} (timeless : Timeless P)
    {addrs : List Ipv4Address} (new : ∀ addr ∈ addrs, ∀ expirationTime,
      P ⟨addr, tc.originatorAddress, tc.ansn, expirationTime⟩)
    (all : ∀ it ∈ topology, P it) : ∀ it ∈ addrs.foldl (recordNeighbor now tc) topology, P it := by
  induction addrs generalizing topology with
  | nil => exact all
  | cons addr rest ih =>
    rw [foldl_cons]
    refine ih (fun a ha => new a (mem_cons_of_mem _ ha)) ?_
    exact forall_recordNeighbor timeless (new addr mem_cons_self) all

theorem forall_receive (timeless : Timeless P) {a : ReceiverAction}
    (new : ∀ now symLink tc, a = .processTc now symLink tc → ∀ addr ∈ tc.neighborAddresses,
      ∀ expirationTime, P ⟨addr, tc.originatorAddress, tc.ansn, expirationTime⟩)
    (all : ∀ it ∈ topology, P it) : ∀ it ∈ receive topology a, P it := by
  cases a with
  | processTc now symLink tc =>
    rw [receive, processTc]
    split_ifs
    · exact forall_recordNeighbors timeless (new now symLink tc rfl) fun it hit =>
        all it (mem_of_mem_filter hit)
    · exact all
  | topologyTupleTimerExpire now destAddr lastAddr =>
    rw [receive, topologyTupleTimerExpire]
    split
    · exact all
    · split_ifs
      · exact fun it hit => all it (mem_of_mem_eraseP hit)
      · exact all

theorem forall_received (timeless : Timeless P) {received : List ReceiverAction}
    (new : ∀ now symLink tc, .processTc now symLink tc ∈ received → ∀ addr ∈ tc.neighborAddresses,
      ∀ expirationTime, P ⟨addr, tc.originatorAddress, tc.ansn, expirationTime⟩)
    (all : ∀ it ∈ topology, P it) : ∀ it ∈ received.foldl receive topology, P it := by
  induction received generalizing topology with
  | nil => exact all
  | cons a rest ih =>
    rw [foldl_cons]
    refine ih (fun now symLink tc htc => new now symLink tc (mem_cons_of_mem _ htc)) ?_
    exact forall_receive timeless (fun now symLink tc ha => new now symLink tc (ha ▸ mem_cons_self))
      all

theorem sequenceNumber_of_accepts {now : ℤ} {symLink : Bool} {tc : Tc}
    (accepted : accepts symLink tc topology = true) :
    ∀ it ∈ processTc now symLink tc topology, it.lastAddr = tc.originatorAddress →
      it.sequenceNumber = tc.ansn := by
  rw [processTc, if_pos accepted]
  refine forall_recordNeighbors (fun _ _ h => h) (fun _ _ _ _ => rfl) fun it hit hlast => ?_
  obtain ⟨hmem, hnotOlder⟩ := mem_filter.mp hit
  rw [accepts, Bool.and_eq_true, Option.isNone_iff_eq_none] at accepted
  have hnotNewer := List.find?_eq_none.mp accepted.2 it hmem
  simp only [hlast, decide_true, Bool.true_and, Bool.not_eq_true', decide_eq_false_iff_not,
    UInt16.not_lt, decide_eq_true_eq] at hnotOlder hnotNewer
  exact UInt16.le_antisymm hnotNewer hnotOlder

end Receiver

/-! ## Advertisements -/

/-- Fewer than 65536 increments lie between the messages. -/
def Comparable (m m' : Advertisement) : Prop :=
  m.increments < m'.increments + 65536 ∧ m'.increments < m.increments + 65536

/-- One number, one set, and a receiver that takes a message keeps nothing that it does not list. -/
structure AdvertisedRight (c : Config) (sent : List Advertisement) : Prop where
  same : ∀ m ∈ sent, ∀ m' ∈ sent, Comparable m m' → m.tc.ansn = m'.tc.ansn →
    ∀ addr, addr ∈ m.tc.neighborAddresses ↔ addr ∈ m'.tc.neighborAddresses
  kept : ∀ (received : List ReceiverAction) (now : ℤ), ∀ m ∈ sent,
    (∀ now' symLink tc, .processTc now' symLink tc ∈ received →
      tc.originatorAddress = c.m_mainAddress → ∃ m' ∈ sent, m'.tc = tc ∧ Comparable m m') →
    accepts true m.tc (received.foldl receive []) = true →
    ∀ it ∈ processTc now true m.tc (received.foldl receive []), it.lastAddr = c.m_mainAddress →
      it.destAddr ∈ m.tc.neighborAddresses

section Advertised

variable {c : Config} {o : Originator}

theorem AdvertisingOk.sameSet (h : AdvertisingOk o) {m m' : Advertisement} (hm : m ∈ o.sent)
    (hm' : m' ∈ o.sent) (comparable : Comparable m m') (ansn : m.tc.ansn = m'.tc.ansn) :
    m.tc.neighborAddresses = m'.tc.neighborAddresses := by
  refine h.same m hm m' hm' ?_
  obtain ⟨hlt, hgt⟩ := comparable
  have hnumber := (h.sent m hm).1
  have hnumber' := (h.sent m' hm').1
  unfold Numbered at hnumber hnumber'
  rw [ansn] at hnumber
  omega

theorem AdvertisingOk.right (h : AdvertisingOk o)
    (originator : ∀ m ∈ o.sent, m.tc.originatorAddress = c.m_mainAddress) :
      AdvertisedRight c o.sent where
  same m hm m' hm' comparable ansn addr := by rw [h.sameSet hm hm' comparable ansn]
  kept received now m hm own accepted it hit hlast := by
    -- each tuple comes from a message
    let Listed : TopologyTuple → Prop := fun it => it.lastAddr = c.m_mainAddress →
      ∃ m' ∈ o.sent, Comparable m m' ∧ m'.tc.ansn = it.sequenceNumber ∧
        it.destAddr ∈ m'.tc.neighborAddresses
    have htimeless : Timeless Listed := fun _ _ hlisted => hlisted
    have hlisted : Listed it := by
      rw [processTc, if_pos accepted] at hit
      refine forall_recordNeighbors htimeless (fun addr haddr _ _ => ⟨m, hm, ?_, rfl, haddr⟩)
        (fun b hb => ?_) it hit
      · exact ⟨by omega, by omega⟩
      · refine forall_received htimeless (fun now' symLink tc htc addr haddr _ hown => ?_)
          (by simp) b (mem_of_mem_filter hb)
        obtain ⟨m', hm', rfl, hcomparable⟩ := own now' symLink tc htc hown
        exact ⟨m', hm', hcomparable, rfl, haddr⟩
    obtain ⟨m', hm', hcomparable, hansn, hdest⟩ := hlisted hlast
    have hnumber := sequenceNumber_of_accepts accepted it hit (hlast.trans (originator m hm).symm)
    rw [h.sameSet hm hm' hcomparable (hansn.trans hnumber).symm]
    exact hdest

end Advertised

theorem originatorStep_own {c : Config} {tcInterval : ℤ} (o : Originator) (a : OriginatorAction)
    (own : ∀ m ∈ o.sent, m.tc.originatorAddress = c.m_mainAddress) :
    Ensures (originatorStep c tcInterval o a)
      (fun o => ∀ m ∈ o.sent, m.tc.originatorAddress = c.m_mainAddress) fun _ => True := by
  cases a with
  | sense a =>
    rw [originatorStep, ensures_map]
    exact (ensures_self _).mono (fun _ _ => own) fun _ _ => trivial
  | tcTimerExpire =>
    refine ensures_ok.mpr fun m hm => ?_
    rcases mem_append.mp hm with hm | hm
    · exact own m hm
    · rw [RoutingProtocol.tcTimerExpire] at hm
      split_ifs at hm
      · rw [mem_singleton.mp hm]
        rfl
      · cases hm

/-- As long as no advertised MPR selector is lost silently, a number stands for one set. -/
theorem advertisedSet (c : Config) (tcInterval : ℤ) {actions : List OriginatorAction}
    (along : Along (originatorStep c tcInterval) (LossNumbered c) .initial actions) :
    Ensures (exec (originatorStep c tcInterval) .initial actions)
    (fun o => AdvertisedRight c o.sent)
      fun _ => True := by
  have hinitial : AdvertisingOk .initial := by
    refine ⟨rfl, ?_, ?_, ?_⟩ <;> simp [Originator.initial]
  have hok : Ensures (exec (originatorStep c tcInterval) .initial actions)
      (fun o => AdvertisingOk o ∧ ∀ m ∈ o.sent, m.tc.originatorAddress = c.m_mainAddress) fun _ =>
        True := by
    refine ensures_exec (fun o a ho hnumbered => ?_) ⟨hinitial, by simp [Originator.initial]⟩ along
    exact (originatorStep_ok o a ho.1 hnumbered).and_ok fun o' ho' =>
      (originatorStep_own o a ho.2).of_ok ho'
  exact hok.weaken fun o ho => ho.1.right ho.2

instance (c : Config) (o : Originator) : ∀ a, Decidable (LossNumbered c o a)
  | .sense (.fire _) => @Option.decidableForallMem _ _ (fun e => match e.handler with
    | .linkTupleTimerExpire .. | .mprSelTupleTimerExpire _ => by dsimp only; infer_instance) _
  | .sense (.hello _ _ _) | .sense (.wait _) | .tcTimerExpire => by
    unfold LossNumbered; infer_instance

def selecting (address : Ipv4Address) : Hello := ⟨6 * second, address, 3, [⟨10, [1]⟩]⟩

theorem advertisedSet_losses : Ensures
    (exec (originatorStep sixSeconds second) .initial
      [.sense (.hello ⟨6 * second, 4, 3, []⟩ 1 4), .sense (.fire 0),
      .sense (.hello (selecting 2) 1 2), .sense (.hello (selecting 3) 1 3), .sense (.fire 0),
        .sense (.fire 0),
      .tcTimerExpire, .sense (.hello (selecting 5) 1 5), .tcTimerExpire])
    (fun o => AdvertisedRight sixSeconds o.sent) fun _ => True :=
  advertisedSet sixSeconds second (by decide +kernel)

def OriginatorPossible (o : Originator) : OriginatorAction → Prop
  | .sense a => Possible o.node a
  | .tcTimerExpire => True

instance (o : Originator) : ∀ a, Decidable (OriginatorPossible o a)
  | .sense _ | .tcTimerExpire => by unfold OriginatorPossible; infer_instance

def lostSelector : List OriginatorAction :=
  [.sense (.hello ⟨6 * second, 4, 3, []⟩ 1 4), .sense (.fire 0), .sense (.hello (selecting 2) 1 2),
    .sense (.hello (selecting 3) 1 3), .sense (.wait (5 * second)),
      .sense (.hello (selecting 3) 1 3),
    .tcTimerExpire, .sense (.fire 0), .sense (.fire 0), .tcTimerExpire]

/-- Both messages have the number 6, and the receiver of both keeps the lost neighbour. -/
theorem lostSelector_advertised :
    Along (originatorStep sixSeconds second) OriginatorPossible .initial lostSelector ∧
    Ensures (exec (originatorStep sixSeconds second) .initial lostSelector)
      (fun o => o.sent = [⟨7, ⟨3 * second, 1, 6, [2, 3]⟩⟩, ⟨7, ⟨3 * second, 1, 6, [3]⟩⟩])
      (fun _ => False) ∧
    (∃ it ∈ processTc (7 * second) true ⟨3 * second, 1, 6, [3]⟩
      (processTc (5 * second) true ⟨3 * second, 1, 6, [2, 3]⟩ []), it.lastAddr = 1 ∧
        it.destAddr = 2) ∧
    ¬Ensures (exec (originatorStep sixSeconds second) .initial lostSelector)
      (fun o => AdvertisedRight sixSeconds o.sent) (fun _ => True) := by
  have hrun : Ensures (exec (originatorStep sixSeconds second) .initial lostSelector)
      (fun o => o.sent = [⟨7, ⟨3 * second, 1, 6, [2, 3]⟩⟩, ⟨7, ⟨3 * second, 1, 6, [3]⟩⟩]) fun _ =>
        False := by
    decide +kernel
  refine ⟨by decide +kernel, hrun, by decide, fun hright => ?_⟩
  obtain ⟨o, ho, hsent⟩ := hrun.exists_ok
  have hsame := (hright.of_ok ho).same
  rw [hsent] at hsame
  have hlisted := (hsame _ mem_cons_self _ (mem_cons_of_mem _ mem_cons_self) ⟨by decide, by decide⟩
    rfl 2).mp (by decide)
  exact absurd hlisted (by decide)

end Egsr.Olsr.NeighborSensing
