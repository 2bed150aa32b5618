import Egsr.Grp.NeighborExpiry

/-! The HELLOs of one neighbour, numbered by a counter of 16 bits. A HELLO is compared with the
entry of the neighbour as if numbers never started again from 0: after 65535 nothing more is stored
until the entry is gone. -/

namespace Egsr.Grp.Freshness

open Grp.Road Grp.Header Grp.State Grp.Control Grp.Emf Grp.SourceRoute
open Grp.DataPlane Grp.Handlers Grp.NeighborExpiry Lib.Outcome Lib.Run Network.ByteIterator

structure Stream where
  node : Node
  last : UInt16

section Steps

variable [Platform] (addr : Ipv4Address)

def streamStep (s : Stream) (act : ExpiryAction) : Except Fault Stream := do
  let node ← expiryStep s.node act
  let last := match act with
    | .receive msg _ _ _ =>
      if msg.originatorAddress = addr then msg.messageSequenceNumber else s.last
    | _ => s.last
  pure { node, last }

end Steps

structure Next (s : Stream) (msg : MessageHeader Time) : Prop where
  hello : msg.messageType = .hello
  alive : msg.timeToLive ≠ 0
  other : msg.originatorAddress ≠ s.node.mainAddress
  sameRoad : msg.hello.getDirection.toBitVec.toInt = s.node.direction ∨
    msg.hello.getDirection.toBitVec.toInt = (s.node.direction + 2).tmod 4
  number : msg.messageSequenceNumber = s.last + 1

theorem next_iff {s : Stream} {msg : MessageHeader Time} : Next s msg ↔
    (msg.messageType = .hello ∧ msg.timeToLive ≠ 0 ∧ msg.originatorAddress ≠ s.node.mainAddress) ∧
      (msg.hello.getDirection.toBitVec.toInt = s.node.direction ∨
        msg.hello.getDirection.toBitVec.toInt = (s.node.direction + 2).tmod 4) ∧
      msg.messageSequenceNumber = s.last + 1 :=
  ⟨fun h => ⟨⟨h.hello, h.alive, h.other⟩, h.sameRoad, h.number⟩, fun h =>
    ⟨h.1.1, h.1.2.1, h.1.2.2, h.2.1, h.2.2⟩⟩

instance (s : Stream) (msg : MessageHeader Time) : Decidable (Next s msg) :=
  decidable_of_iff _ next_iff.symm

variable (addr : Ipv4Address)

/-- Time goes on and the neighbour's HELLOs come one after the other; anything else may happen
between. -/
def InOrder (s : Stream) : ExpiryAction → Prop
  | .elapse t => s.node.now ≤ t
  | .receive msg _ _ _ => msg.originatorAddress = addr → Next s msg
  | .observe _ | .neiTableCheckExpire _ => True

instance (addr : Ipv4Address) (s : Stream) (act : ExpiryAction) : Decidable (InOrder addr s act) :=
  match act with
  | .elapse _ | .receive .. | .observe _ | .neiTableCheckExpire _ =>
    by unfold InOrder; infer_instance

/-- The data of a message received from the neighbour are those of its entry. -/
def Stored [Platform] (addr : Ipv4Address) (s : Stream) : ExpiryAction → Prop
  | .receive msg receiverIfaceAddr rand jitter => msg.originatorAddress = addr →
    ∀ n', recvMessage s.node msg receiverIfaceAddr rand jitter = .ok n' →
      n'.neiTable[addr]? = some (neighborEntry s.node.toVehicle msg receiverIfaceAddr)
  | _ => True

def Unwrapped (s : Stream) : ExpiryAction → Prop
  | .receive msg _ _ _ =>
    msg.originatorAddress = addr → msg.messageSequenceNumber = 0 → addr ∉ s.node.neiTable
  | _ => True

instance (addr : Ipv4Address) (s : Stream) (act : ExpiryAction) :
    Decidable (Unwrapped addr s act) :=
  match act with
  | .receive .. | .elapse _ | .observe _ | .neiTableCheckExpire _ =>
    by unfold Unwrapped; infer_instance

structure Current (s : Stream) : Prop where
  started : 0 ≤ s.node.now
  latest : ∀ entry, s.node.neiTable[addr]? = some entry → entry.nSequenceNum = s.last

/-! ## One message -/

theorem add_one_le_iff (number : UInt16) : number + 1 ≤ number ↔ number + 1 = 0 := by
  have bound := number.toNat_lt
  rw [UInt16.le_iff_toNat_le, ← UInt16.toNat_inj, UInt16.toNat_add]
  change (number.toNat + 1) % 65536 ≤ number.toNat ↔ (number.toNat + 1) % 65536 = 0
  omega

section Runs

variable {addr : Ipv4Address} {s s' : Stream} {act : ExpiryAction} {msg : MessageHeader Time}
  {receiverIfaceAddr : Ipv4Address} {rand : ℕ} {jitter : Time} {n' : Node}

theorem outdated_iff (current : Current addr s) (next : Next s msg)
    (sender : msg.originatorAddress = addr) :
    outdated s.node.toVehicle msg ↔ msg.messageSequenceNumber = 0 ∧ addr ∈ s.node.neiTable := by
  unfold outdated
  rw [sender, next.number, Std.TreeMap.mem_iff_isSome_getElem?, Option.isSome_iff_exists]
  constructor
  · intro old
    obtain ⟨entry, hentry, le⟩ := old
    rw [current.latest entry hentry] at le
    exact ⟨(add_one_le_iff _).mp le, entry, hentry⟩
  · intro wrapped
    obtain ⟨zero, entry, hentry⟩ := wrapped
    refine ⟨entry, hentry, ?_⟩
    rw [current.latest entry hentry]
    exact (add_one_le_iff _).mpr zero

variable [Platform]

theorem recvMessage_next (next : Next s msg)
    (run : recvMessage s.node msg receiverIfaceAddr rand jitter = .ok n') :
    if outdated s.node.toVehicle msg then n' = s.node
    else n'.neiTable = s.node.neiTable.insert msg.originatorAddress
      (neighborEntry s.node.toVehicle msg receiverIfaceAddr) := by
  rw [recvMessage, if_neg (not_or.mpr ⟨next.alive, next.other⟩), next.hello] at run
  obtain ⟨cjid, -, run⟩ := bind_ok_inv run
  have road : fromCrossingRoad s.node.toVehicle msg cjid = .ok false := by
    unfold fromCrossingRoad
    exact if_neg fun crossing => next.sameRoad.elim crossing.1 crossing.2
  rw [road] at run
  change (if outdated s.node.toVehicle msg then pure s.node else _) = _ at run
  by_cases old : outdated s.node.toVehicle msg
  · rw [if_pos old] at run ⊢
    exact (Except.ok.inj run).symm
  · rw [if_neg old] at run ⊢
    have same := (checkWaiting_spec _).of_ok run
    rw [same]
    rfl

theorem stored_iff (current : Current addr s) (inOrder : InOrder addr s act)
    (step : streamStep addr s act = .ok s') : Stored addr s act ↔ Unwrapped addr s act := by
  cases act with
  | elapse t => exact Iff.rfl
  | observe n => exact Iff.rfl
  | neiTableCheckExpire k => exact Iff.rfl
  | receive msg receiverIfaceAddr rand jitter =>
    refine forall_congr' fun sender => ?_
    have next := inOrder sender
    obtain ⟨n', run, -⟩ := bind_ok_inv step
    have effect := recvMessage_next next run
    by_cases old : outdated s.node.toVehicle msg
    · rw [if_pos old] at effect
      obtain ⟨zero, listed⟩ := (outdated_iff current next sender).mp old
      refine iff_of_false (fun stored => ?_) fun unwrapped => unwrapped zero listed
      have hentry := stored n' run
      rw [effect] at hentry
      have last : msg.messageSequenceNumber = s.last := current.latest _ hentry
      have bound := s.last.toNat_lt
      rw [next.number, ← UInt16.toNat_inj, UInt16.toNat_add] at last
      change (s.last.toNat + 1) % 65536 = s.last.toNat at last
      omega
    · rw [if_neg old, sender] at effect
      refine iff_of_true (fun n'' run' => ?_) fun zero listed => ?_
      · rw [← Except.ok.inj (run.symm.trans run'), effect]
        exact Std.TreeMap.getElem?_insert_self
      · exact old ((outdated_iff current next sender).mpr ⟨zero, listed⟩)

theorem Current.step (current : Current addr s) (inOrder : InOrder addr s act)
    (stored : Stored addr s act) (step : streamStep addr s act = .ok s') : Current addr s' := by
  obtain ⟨n', run, hs⟩ := bind_ok_inv step
  rw [← Except.ok.inj hs]
  cases act with
  | elapse t =>
    cases Except.ok.inj run
    exact ⟨current.started.trans inOrder, current.latest⟩
  | observe n =>
    cases Except.ok.inj run
    exact ⟨current.started, current.latest⟩
  | receive msg receiverIfaceAddr rand jitter =>
    have effect := (recvMessage_spec s.node msg receiverIfaceAddr rand jitter).of_ok run
    have clock : n'.now = s.node.now := by
      rcases effect with same | heard
      · rw [same]
      · rw [heard.frame]
    refine ⟨clock ▸ current.started, fun entry hentry => ?_⟩
    change n'.neiTable[addr]? = some entry at hentry
    change entry.nSequenceNum = if msg.originatorAddress = addr then msg.messageSequenceNumber
      else s.last
    by_cases sender : msg.originatorAddress = addr
    · rw [stored sender n' run, Option.some_inj] at hentry
      rw [if_pos sender, ← hentry]
      rfl
    · rw [if_neg sender]
      apply current.latest
      rcases effect with same | heard
      · rw [← same]
        exact hentry
      · rw [heard.neiTable, Std.TreeMap.getElem?_insert,
          if_neg (compare_ne (Ne.symm sender))] at hentry
        exact hentry
  | neiTableCheckExpire k =>
    simp only [expiryStep] at run
    cases hcheck : s.node.neiTableChecks[k]? with
    | none =>
      simp only [hcheck] at run
      cases Except.ok.inj run
      exact ⟨current.started, current.latest⟩
    | some check =>
      simp only [hcheck] at run
      cases Except.ok.inj run
      refine ⟨?_, fun entry hentry => ?_⟩
      · change 0 ≤ (neiTableCheckExpire (takeCheck s.node.toVehicle k) check.2).now
        rw [neiTableCheckExpire_now]
        exact current.started
      · change (neiTableCheckExpire (takeCheck s.node.toVehicle k) check.2).neiTable[addr]? =
          some entry at hentry
        apply current.latest
        by_cases checked : addr = check.2
        · subst checked
          rw [neiTableCheckExpire_self (takeCheck s.node.toVehicle k) current.started] at hentry
          exact (Option.filter_eq_some_iff.mp hentry).1
        · rw [neiTableCheckExpire_of_ne (takeCheck s.node.toVehicle k) checked] at hentry
          exact hentry

/-! ## Runs -/

/-- The node stores every message of the neighbour just if the numbers start again from 0 only while
the neighbour has no entry. -/
theorem stream_stored_iff (current : Current addr s) {acts : List ExpiryAction}
    (inOrder : Along (streamStep addr) (InOrder addr) s acts)
    (run : exec (streamStep addr) s acts = .ok s') :
    Along (streamStep addr) (Stored addr) s acts ↔
      Along (streamStep addr) (Unwrapped addr) s acts := by
  let Taken : Stream → ExpiryAction → Prop :=
    fun s act => InOrder addr s act ∧ ∃ s', streamStep addr s act = .ok s'
  have taken : Along (streamStep addr) Taken s acts :=
    along_of_exec (fun s act s' inOrder step => ⟨inOrder, s', step⟩) inOrder run
  have keep : ∀ s act s', Current addr s → Taken s act → Stored addr s act →
    streamStep addr s act = .ok s' →
      Current addr s' := fun s act s' current taken stored step => current.step taken.1 stored step
  have same : ∀ s act, Current addr s → Taken s act →
      (Stored addr s act ↔ Unwrapped addr s act) := by
    intro s act current taken
    obtain ⟨s', step⟩ := taken.2
    exact stored_iff current taken.1 step
  exact along_iff keep same current taken

end Runs

def numbered (number : UInt16) : MessageHeader Time :=
  { announcement 0x04 with messageSequenceNumber := number }

/-- The neighbour has sent so many messages, and the node has heard none of them. -/
def listeningFrom (last : UInt16) : Stream := ⟨listening 1, last⟩

theorem listeningFrom_current (last : UInt16) : Current 0x0a010002 (listeningFrom last) where
  started := le_rfl
  latest entry hentry := by
    rw [show (listeningFrom last).node.neiTable = ∅ from rfl, Std.TreeMap.getElem?_emptyc] at hentry
    cases hentry

theorem stream_stored_iff_first :
    Along (@streamStep integralPlatform 0x0a010002) (InOrder 0x0a010002) (listeningFrom 0)
      [.receive (numbered 1) 0 0 0, .elapse (1 / 2), .receive (numbered 2) 0 0 0] ∧
    Along (@streamStep integralPlatform 0x0a010002) (@Stored integralPlatform 0x0a010002)
    (listeningFrom 0)
      [.receive (numbered 1) 0 0 0, .elapse (1 / 2), .receive (numbered 2) 0 0 0] := by
  have inOrder :
    Along (@streamStep integralPlatform 0x0a010002) (InOrder 0x0a010002) (listeningFrom 0)
      [.receive (numbered 1) 0 0 0, .elapse (1 / 2), .receive (numbered 2) 0 0 0] := by
    decide +kernel
  have runs : Ensures (exec (@streamStep integralPlatform 0x0a010002) (listeningFrom 0)
      [.receive (numbered 1) 0 0 0, .elapse (1 / 2), .receive (numbered 2) 0 0 0])
      (fun _ => True) (fun _ => False) := by
    decide +kernel
  obtain ⟨s, run, -⟩ := runs.exists_ok
  have stored := @stream_stored_iff _ _ _ integralPlatform (listeningFrom_current 0) _ inOrder run
  exact ⟨inOrder, stored.mpr (by decide +kernel)⟩

/-- The HELLO after number 65535 is discarded while the entry is still valid. -/
theorem wrapped_discarded : ∃ s s',
    exec (@streamStep integralPlatform 0x0a010002) (listeningFrom 65534)
      [.receive (numbered 65535) 0 0 0, .elapse (1 / 2)] = .ok s ∧
    Along (@streamStep integralPlatform 0x0a010002) (InOrder 0x0a010002) (listeningFrom 65534)
      [.receive (numbered 65535) 0 0 0, .elapse (1 / 2), .receive (numbered 0) 0 0 0] ∧
    (∃ entry, s.node.neiTable[(0x0a010002 : Ipv4Address)]? = some entry ∧
      s.node.now < entry.nTime) ∧
    @streamStep integralPlatform 0x0a010002 s (.receive (numbered 0) 0 0 0) = .ok s' ∧
      ¬ @Stored integralPlatform 0x0a010002 s (.receive (numbered 0) 0 0 0) := by
  have runs : Ensures (exec (@streamStep integralPlatform 0x0a010002) (listeningFrom 65534)
      [.receive (numbered 65535) 0 0 0, .elapse (1 / 2)])
      (fun s => (s.node.neiTable[(0x0a010002 : Ipv4Address)]?.any fun entry =>
        s.node.now < entry.nTime) ∧
        Ensures (@streamStep integralPlatform 0x0a010002 s (.receive (numbered 0) 0 0 0))
          (fun s' => (s'.node.neiTable[(0x0a010002 : Ipv4Address)]?.map (·.nSequenceNum)) =
            some 65535)
          (fun _ => False))
      (fun _ => False) := by
    decide +kernel
  obtain ⟨s, run, valid, discarded⟩ := runs.exists_ok
  obtain ⟨s', step, hentry⟩ := discarded.exists_ok
  refine ⟨s, s', run, by decide +kernel, by
    simpa [Option.any_eq_true] using valid, step, fun stored => ?_⟩
  obtain ⟨n', hn', hs⟩ := bind_ok_inv step
  rw [← Except.ok.inj hs] at hentry
  change n'.neiTable[(0x0a010002 : Ipv4Address)]?.map (·.nSequenceNum) = some 65535 at hentry
  rw [stored rfl n' hn'] at hentry
  have number : (0 : UInt16) = 65535 := Option.some_inj.mp hentry
  exact absurd number (by decide)

end Egsr.Grp.Freshness
