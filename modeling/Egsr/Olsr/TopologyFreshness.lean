import Egsr.Olsr.AdvertisedSet

/-! A stream of TC messages of one originator, whose ANSN wraps: what the
topology set of a receiver holds of it after each message. -/

namespace Egsr.Olsr.NeighborSensing

open Lib.Run Lib.Outcome List

structure Receiver where
  topology : List TopologyTuple
  last : Option Tc
deriving DecidableEq

def Receiver.initial : Receiver := ⟨[], none⟩

def SameList (addrs addrs' : List Ipv4Address) : Prop := addrs ⊆ addrs' ∧ addrs' ⊆ addrs
deriving Decidable

/-- The number is increased by less than half of all numbers, and it is increased when the list
changes. -/
@[mk_iff]
structure Follows (tc tc' : Tc) : Prop where
  near : (tc'.ansn - tc.ansn).toNat < 32768
  same : tc'.ansn = tc.ansn → SameList tc'.neighborAddresses tc.neighborAddresses

instance (tc tc' : Tc) : Decidable (Follows tc tc') := decidable_of_iff _ (follows_iff tc tc').symm

section Stream

variable (originator : Ipv4Address) (r : Receiver)

/-- Messages of others and timers may come between. -/
def receiverStep (a : ReceiverAction) : Except Fault Receiver :=
  .ok ⟨receive r.topology a, match a with
    | .processTc _ _ tc => if tc.originatorAddress = originator then some tc else r.last
    | .topologyTupleTimerExpire .. => r.last⟩

/-- The messages of the originator come in order from a symmetric neighbour; what `GetVTime` decodes
is not negative. -/
def Streamed : ReceiverAction → Prop
  | .processTc _ symLink tc => tc.originatorAddress = originator →
      symLink ∧ 0 ≤ tc.vTime ∧ ∀ last ∈ r.last, Follows last tc
  | .topologyTupleTimerExpire .. => True

/-- No tuple of the originator has a larger number than a message of it that comes. -/
def NoneNewer : ReceiverAction → Prop
  | .processTc _ _ tc => tc.originatorAddress = originator →
      findNewerTopologyTuple originator tc.ansn r.topology = none
  | .topologyTupleTimerExpire .. => True

/-- After a message of the originator the unexpired tuples of it are those for the addresses it
lists. -/
def FreshAfter (a : ReceiverAction) : Prop :=
  match a with
  | .processTc now _ tc => tc.originatorAddress = originator → ∀ addr,
      (∃ it ∈ receive r.topology a, it.lastAddr = originator ∧ it.destAddr = addr ∧
        now ≤ it.expirationTime) ↔ addr ∈ tc.neighborAddresses
  | .topologyTupleTimerExpire .. => True

instance (r : Receiver) : ∀ a, Decidable (Streamed originator r a)
  | .processTc .. | .topologyTupleTimerExpire .. => by unfold Streamed; infer_instance

instance (r : Receiver) : ∀ a, Decidable (NoneNewer originator r a)
  | .processTc .. | .topologyTupleTimerExpire .. => by unfold NoneNewer; infer_instance

end Stream

def Recorded (now : ℤ) (tc : Tc) (topology : List TopologyTuple) (addr : Ipv4Address) : Prop :=
  ∃ it ∈ topology, it.lastAddr = tc.originatorAddress ∧ it.destAddr = addr ∧
    it.expirationTime = now + tc.vTime

section Messages

variable {now : ℤ} {tc : Tc} {topology : List TopologyTuple} {addr : Ipv4Address}

theorem Recorded.refresh (h : Recorded now tc topology addr) (destAddr : Ipv4Address) :
    Recorded now tc
    (refreshTopologyTuple destAddr tc.originatorAddress (now + tc.vTime) topology) addr := by
  induction topology with
  | nil => exact h
  | cons b rest ih =>
    obtain ⟨it, hit, hlast, hdest, htime⟩ := h
    rw [refreshTopologyTuple]
    rcases mem_cons.mp hit with rfl | hit
    · split_ifs
      · exact ⟨_, mem_cons_self, hlast, hdest, rfl⟩
      · exact ⟨it, mem_cons_self, hlast, hdest, htime⟩
    · split_ifs
      · exact ⟨it, mem_cons_of_mem _ hit, hlast, hdest, htime⟩
      · obtain ⟨it', hit', hrecorded⟩ := ih ⟨it, hit, hlast, hdest, htime⟩
        exact ⟨it', mem_cons_of_mem _ hit', hrecorded⟩

theorem refresh_recorded (known : (findTopologyTuple addr tc.originatorAddress topology).isSome) :
    Recorded now tc
    (refreshTopologyTuple addr tc.originatorAddress (now + tc.vTime) topology) addr := by
  induction topology with
  | nil => cases known
  | cons b rest ih =>
    rw [refreshTopologyTuple]
    split_ifs with hb
    · exact ⟨_, mem_cons_self, hb.2, hb.1, rfl⟩
    · rw [findTopologyTuple, List.find?_cons_of_neg (by simpa using hb)] at known
      obtain ⟨it, hit, hrecorded⟩ := ih known
      exact ⟨it, mem_cons_of_mem _ hit, hrecorded⟩

theorem Recorded.recordNeighbor (h : Recorded now tc topology addr) (destAddr : Ipv4Address) :
    Recorded now tc (recordNeighbor now tc topology destAddr) addr := by
  rw [NeighborSensing.recordNeighbor]
  split_ifs
  · exact h.refresh destAddr
  · obtain ⟨it, hit, hrecorded⟩ := h
    exact ⟨it, mem_append_left _ hit, hrecorded⟩

theorem recordNeighbor_recorded (now : ℤ) (tc : Tc) (topology : List TopologyTuple)
    (addr : Ipv4Address) : Recorded now tc (recordNeighbor now tc topology addr) addr := by
  rw [recordNeighbor]
  split_ifs with hknown
  · exact refresh_recorded hknown
  · exact ⟨_, mem_append_right _ mem_cons_self, rfl, rfl, rfl⟩

theorem Recorded.recordNeighbors (h : Recorded now tc topology addr) (addrs : List Ipv4Address) :
    Recorded now tc (addrs.foldl (NeighborSensing.recordNeighbor now tc) topology) addr := by
  induction addrs generalizing topology with
  | nil => exact h
  | cons destAddr addrs ih => exact ih (h.recordNeighbor destAddr)

theorem recordNeighbors_recorded {addrs : List Ipv4Address} (listed : addr ∈ addrs) :
    Recorded now tc (addrs.foldl (recordNeighbor now tc) topology) addr := by
  induction addrs generalizing topology with
  | nil => cases listed
  | cons destAddr addrs ih =>
    rcases mem_cons.mp listed with rfl | hlisted
    · exact (recordNeighbor_recorded now tc topology addr).recordNeighbors addrs
    · exact ih hlisted

end Messages

/-! ## Streams -/

section Streams

variable {originator : Ipv4Address} {r : Receiver} {a : ReceiverAction}

def FromLast (originator : Ipv4Address) (r : Receiver) : Prop :=
  ∀ it ∈ r.topology, it.lastAddr = originator →
    ∃ tc ∈ r.last, it.sequenceNumber = tc.ansn ∧ it.destAddr ∈ tc.neighborAddresses

theorem accepts_of_noneNewer {tc : Tc} {topology : List TopologyTuple}
    (none : findNewerTopologyTuple tc.originatorAddress tc.ansn topology = none) :
      accepts true tc topology = true := by
  rw [accepts, none]
  rfl

theorem FromLast.processTc (h : FromLast originator r) {now : ℤ} {tc : Tc}
    (own : tc.originatorAddress = originator) (follows : ∀ last ∈ r.last, Follows last tc)
    (none : findNewerTopologyTuple originator tc.ansn r.topology = none) :
    ∀ it ∈ processTc now true tc r.topology, it.lastAddr = originator →
      it.sequenceNumber = tc.ansn ∧ it.destAddr ∈ tc.neighborAddresses := by
  subst own
  have haccepted := accepts_of_noneNewer none
  intro it hit hlast
  refine ⟨sequenceNumber_of_accepts haccepted it hit hlast, ?_⟩
  rw [NeighborSensing.processTc, if_pos haccepted] at hit
  have htimeless : Timeless fun it => it.lastAddr = tc.originatorAddress →
    it.destAddr ∈ tc.neighborAddresses :=
    fun _ _ hlisted => hlisted
  refine forall_recordNeighbors htimeless (fun addr haddr _ _ => haddr) (fun b hb hblast => ?_) it
    hit hlast
  -- a tuple that is neither older nor newer is from a message with the same list
  obtain ⟨hmem, hnotOlder⟩ := mem_filter.mp hb
  obtain ⟨last, hin, hansn, hdest⟩ := h b hmem hblast
  have hnotNewer := List.find?_eq_none.mp none b hmem
  simp only [hblast, decide_true, Bool.true_and, Bool.not_eq_true', decide_eq_false_iff_not,
    UInt16.not_lt, decide_eq_true_eq] at hnotOlder hnotNewer
  exact ((follows last hin).same ((UInt16.le_antisymm hnotNewer hnotOlder).symm.trans hansn)).2
    hdest

theorem FromLast.step (h : FromLast originator r) (streamed : Streamed originator r a)
    (none : NoneNewer originator r a)
    {r' : Receiver} (hstep : receiverStep originator r a = .ok r') : FromLast originator r' := by
  obtain rfl := Except.ok.inj hstep
  cases a with
  | processTc now symLink tc =>
    by_cases hown : tc.originatorAddress = originator
    · obtain ⟨hsym, -, hfollows⟩ := streamed hown
      intro it hit hlast
      rw [receive, hsym] at hit
      exact ⟨tc, by simp [hown], h.processTc hown hfollows (none hown) it hit hlast⟩
    · have hkept := forall_receive (P := fun it => it.lastAddr = originator →
          ∃ tc ∈ r.last, it.sequenceNumber = tc.ansn ∧ it.destAddr ∈ tc.neighborAddresses)
        (fun _ _ hlisted => hlisted) (a := .processTc now symLink tc)
        (fun _ _ tc' heq addr _ _ hlast => by cases heq; exact absurd hlast hown) h
      simpa only [FromLast, if_neg hown] using hkept
  | topologyTupleTimerExpire now destAddr lastAddr =>
    exact forall_receive (fun _ _ hlisted => hlisted) (a :=
      .topologyTupleTimerExpire now destAddr lastAddr)
      (fun _ _ _ heq => by cases heq) h

theorem FromLast.freshAfter (h : FromLast originator r) (streamed : Streamed originator r a)
    (none : NoneNewer originator r a) : FreshAfter originator r a := by
  cases a with
  | topologyTupleTimerExpire => trivial
  | processTc now symLink tc =>
    intro hown addr
    obtain ⟨hsym, hvalid, hfollows⟩ := streamed hown
    rw [receive, hsym]
    constructor
    · rintro ⟨it, hit, hlast, rfl, -⟩
      exact (h.processTc hown hfollows (none hown) it hit hlast).2
    · intro hlisted
      subst hown
      rw [NeighborSensing.processTc, if_pos (accepts_of_noneNewer (none rfl))]
      obtain ⟨it, hit, hlast, hdest, htime⟩ := recordNeighbors_recorded hlisted
      exact ⟨it, hit, hlast, hdest, by omega⟩

end Streams

/-- As long as no message of the originator finds a tuple with a larger number, each one leaves just
what it lists. -/
theorem topology_fresh (originator : Ipv4Address) {as : List ReceiverAction}
    (streamed : Along (receiverStep originator) (Streamed originator) .initial as)
    (none : Along (receiverStep originator) (NoneNewer originator) .initial as) :
    Along (receiverStep originator) (FreshAfter originator) .initial as := by
  have hinit : FromLast originator .initial := by
    simp [FromLast, Receiver.initial]
  have hkept :=
    (streamed.and none).with_invariant (fun r a r' h hguard hstep => h.step hguard.1 hguard.2 hstep)
      hinit
  exact hkept.mono fun r a h => h.1.freshAfter h.2.1 h.2.2

/-- The number is increased to its last value and, after the tuples have expired, past it. -/
theorem topology_fresh_wrapped : Along (receiverStep 1) (FreshAfter 1) .initial
    [.processTc 0 true ⟨15 * second, 1, 65534, [2, 3]⟩,
      .processTc (5 * second) true ⟨15 * second, 1, 65535, [3]⟩,
      .topologyTupleTimerExpire (16 * second) 2 1, .topologyTupleTimerExpire (21 * second) 3 1,
      .processTc (30 * second) true ⟨15 * second, 1, 0, [2]⟩] :=
  topology_fresh 1 (by decide +kernel) (by decide +kernel)

/-- The message with the number after 65535 is discarded. -/
theorem wrapped_message_discarded : ¬∀ (originator : Ipv4Address) (as : List ReceiverAction),
    Along (receiverStep originator) (Streamed originator) .initial as →
      Along (receiverStep originator) (FreshAfter originator) .initial as := by
  intro h
  have hfresh :=
    h 1 [.processTc 0 true ⟨15 * second, 1, 65535, [2]⟩,
      .processTc (5 * second) true ⟨15 * second, 1, 0, [3]⟩]
    (by decide +kernel)
  have hlast := (hfresh.2 _ rfl).1 rfl 3
  exact absurd (hlast.mpr mem_cons_self) (by decide +kernel)

end Egsr.Olsr.NeighborSensing
