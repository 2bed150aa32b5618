import Egsr.Grp.DataPlane

/-! One call of `CheckPacketQueue` from end to end. A round changes the clocks of
the flows it has seen and nothing else that later rounds look at, so what
becomes of a waiting packet can be told from the state before the call. -/

namespace Egsr.Grp.QueueCheck

open Grp.Road Grp.State Grp.Forwarding Grp.SourceRoute Grp.DataPlane Function
open Grp.HeaderRoundTrip Lib.Outcome Network.ByteIterator

/-- A waiting packet is not dropped for its age: the clock of its flow has not
run out, or the check of a packet behind it, of the same flow, has stopped it. -/
def Survives (n : Node) (q : PacketQueueEntry) (behind : List PacketQueueEntry) : Prop :=
  ¬ expired n q.header ∨ ∃ y ∈ behind, flow y.header = flow q.header
deriving Decidable

theorem expired_congr {n m : Node} {h h' : Ipv4Header} (same : flow h = flow h')
    (cache : m.wTimeCache (flow h) = n.wTimeCache (flow h)) (now : m.now = n.now)
    (threshold : m.carryTimeThreshold = n.carryTimeThreshold) :
    expired m h ↔ expired n h' := by
  simp only [expired, ← same, cache, now, threshold]

theorem expired_of_none {n : Node} {h : Ipv4Header} (none : n.wTimeCache (flow h) = none) :
    ¬ expired n h := by
  simp [expired, none]

section Decisions

variable [Platform]

/-- The state in the middle of a check: `n` is the node before it and `done` the
packets it is through with. -/
structure Checking (n : Node) (done : List PacketQueueEntry) (m : Node) : Prop where
  same : SameButGraph n.toVehicle m.toVehicle
  plan : m.toVehicle = n.toVehicle ∨ ∃ path, pathToRsu n.toVehicle = .ok (path, m.toVehicle)
  untouched : ∀ f, (∀ y ∈ done, flow y.header ≠ f) → m.wTimeCache f = n.wTimeCache f
  running : ∀ y ∈ done, ¬ expired m y.header

variable {n m m' : Node} {done : List PacketQueueEntry} {q : PacketQueueEntry}

section

variable (h : Checking n done m)

include h

theorem Checking.pathToRsu : pathToRsu m.toVehicle = pathToRsu n.toVehicle := by
  cases h.plan with
  | inl heq => rw [heq]
  | inr hplan =>
    obtain ⟨path, hplan⟩ := hplan
    rw [pathToRsu_again hplan, hplan]

theorem Checking.now : m.now = n.now := by rw [h.same]

theorem Checking.threshold : m.carryTimeThreshold = n.carryTimeThreshold := by rw [h.same]

theorem Checking.picksHop {dest hop : Ipv4Address} :
    PicksHop m.toVehicle dest hop ↔ PicksHop n.toVehicle dest hop := by
  simp only [PicksHop, Heads, h.pathToRsu, h.same.intraPathRouting]

theorem Checking.atRsu : AtRsu m.toVehicle ↔ AtRsu n.toVehicle := by
  rw [h.same]
  rfl

theorem Checking.survives : ¬ expired m q.header ↔ Survives n q done := by
  by_cases behind : ∃ y ∈ done, flow y.header = flow q.header
  · obtain ⟨y, hy, hflow⟩ := behind
    have hcongr : expired m q.header ↔ expired m y.header :=
      expired_congr hflow.symm rfl rfl rfl
    exact iff_of_true (fun hexp => h.running y hy (hcongr.mp hexp)) (.inr ⟨y, hy, hflow⟩)
  · have hcache : m.wTimeCache (flow q.header) = n.wTimeCache (flow q.header) := by
      refine h.untouched _ fun y hy hflow => behind ⟨y, hy, hflow⟩
    rw [Survives, or_iff_left behind, expired_congr rfl hcache h.now h.threshold]

theorem Checking.planned {path : List UInt16} {v : Vehicle}
    (plan : Forwarding.pathToRsu m.toVehicle = .ok (path, v)) :
    SameButGraph n.toVehicle v ∧ Forwarding.pathToRsu n.toVehicle = .ok (path, v) :=
  ⟨h.same.trans ((pathToRsu_spec m.toVehicle).of_ok plan).2, h.pathToRsu ▸ plan⟩

theorem Checking.take (left : List PacketQueueEntry) : Checking n done { m with pqueue := left } :=
  ⟨h.same, h.plan, h.untouched, h.running⟩

end

theorem checking_start (n : Node) (queue rest : List PacketQueueEntry) :
    Checking n [] { n with pqueue := queue, pwaitqueue := rest } :=
  ⟨SameButGraph.refl _, .inl rfl, fun _ _ => rfl, by simp⟩

theorem Checking.stop (h : Checking n done m) {v : Vehicle} (same : SameButGraph n.toVehicle v)
    (plan : v = n.toVehicle ∨ ∃ path, Forwarding.pathToRsu n.toVehicle = .ok (path, v))
    (hv : m'.toVehicle = v) (hcache : m'.wTimeCache = update m.wTimeCache (flow q.header) none) :
    Checking n (q :: done) m' := by
  have hnow : m'.now = m.now := by rw [hv, same, h.now]
  have hthreshold : m'.carryTimeThreshold = m.carryTimeThreshold := by rw [hv, same, h.threshold]
  refine ⟨hv ▸ same, hv ▸ plan, fun f hf => ?_, fun y hy => ?_⟩
  · have hq : f ≠ flow q.header := fun heq => hf q (by simp) heq.symm
    rw [hcache, update_of_ne hq]
    exact h.untouched f fun y hy => hf y (by simp [hy])
  · by_cases hflow : flow y.header = flow q.header
    · exact expired_of_none (by rw [hcache, hflow, update_self])
    · have hold : y ∈ done := by
        cases List.mem_cons.mp hy with
        | inl heq => exact absurd (by rw [heq]) hflow
        | inr hy => exact hy
      have hkeep : m'.wTimeCache (flow y.header) = m.wTimeCache (flow y.header) := by
        rw [hcache, update_of_ne hflow]
      rw [expired_congr rfl hkeep hnow hthreshold]
      exact h.running y hold

theorem Checked.checking (h : Checking n done m) (checked : Checked m q m') :
    Checking n (q :: done) m' := by
  cases checked with
  | inl hdrop =>
    obtain ⟨-, rfl⟩ := hdrop
    exact h.stop h.same h.plan rfl rfl
  | inr hstay =>
    obtain ⟨hrun, d, payload, v, header, path, -, hplan, -, ⟨-, hkept⟩ | ⟨hop, -, -, hqueued⟩⟩ :=
      hstay
    · obtain ⟨hsame, hplan'⟩ := h.planned hplan
      subst hkept
      have hnow : v.now = m.now := by rw [hsame, h.now]
      have hthreshold : v.carryTimeThreshold = m.carryTimeThreshold := by rw [hsame, h.threshold]
      refine ⟨hsame, .inr ⟨path, hplan'⟩, fun f hf => h.untouched f fun y hy => hf y (by simp [hy]),
        fun y hy => ?_⟩
      have hcongr : expired (keptNode { m with toVehicle := v } q (dataBytes header ++ payload))
          y.header ↔ expired m y.header := expired_congr rfl rfl hnow hthreshold
      rw [hcongr]
      cases List.mem_cons.mp hy with
      | inl heq => rwa [heq]
      | inr hy => exact h.running y hy
    · obtain ⟨hsame, hplan'⟩ := h.planned hplan
      subst hqueued
      exact h.stop hsame (.inr ⟨path, hplan'⟩) rfl rfl

theorem checkPacketQueue_rule {err : Fault → Prop} {Inv : List PacketQueueEntry → Node → Prop}
    (round : ∀ left q done m, n.pwaitqueue = left ++ q :: done → m.pqueue = left ++ [q] →
      Checking n done m → Inv done m →
      Ensures (checkEntry { m with pqueue := left } q) (Inv (q :: done)) err)
    (init : Inv [] { n with pqueue := n.pwaitqueue, pwaitqueue := [] }) :
    Ensures (checkPacketQueue n)
      (fun n' => ∃ m, m.pqueue = [] ∧ Checking n n.pwaitqueue m ∧ Inv n.pwaitqueue m ∧
        n' = sendFirst m) err := by
  have hround : ∀ left q done m, n.pwaitqueue = left ++ q :: done → m.pqueue = left ++ [q] →
      Checking n done m ∧ Inv done m → Ensures (checkEntry { m with pqueue := left } q)
        (fun m' => Checking n (q :: done) m' ∧ Inv (q :: done) m') err := by
    intro left q done m hqueue hleft hm
    refine ((round left q done m hqueue hleft hm.1 hm.2).and_ok fun m' run => ?_).weaken
      fun m' h => ⟨h.2, h.1⟩
    exact Checked.checking (hm.1.take left) ((checkEntry_spec _ q).of_ok run)
  rw [checkPacketQueue_eq, ensures_map]
  exact (checkLoop_rule hround rfl ⟨checking_start n _ _, init⟩).weaken
    fun m h => ⟨m, h.1, h.2.1, h.2.2, rfl⟩

theorem checkPacketQueue_vehicle (n : Node) :
    Ensures (checkPacketQueue n) (fun n' => SameButGraph n.toVehicle n'.toVehicle)
      (fun e => e ≠ .timerRunning) := by
  have hround : ∀ left q done m, n.pwaitqueue = left ++ q :: done → m.pqueue = left ++ [q] →
      Checking n done m → True →
      Ensures (checkEntry { m with pqueue := left } q) (fun _ => True)
        (fun e => e ≠ .timerRunning) :=
    fun left q _ m _ _ _ _ => (checkEntry_spec { m with pqueue := left } q).mono
      (fun _ _ => trivial) fun _ he => he.2
  refine (checkPacketQueue_rule hround trivial).weaken fun n' h => ?_
  obtain ⟨m, -, hm, -, rfl⟩ := h
  rw [sendFirst_toVehicle]
  exact hm.same

theorem nodeStep_broadcast (n : Node) (a : NodeAction) :
    Ensures (nodeStep n a) (fun n' => n'.broadcast = n.broadcast) (fun _ => True) := by
  cases a with
  | observe v => exact rfl
  | originate destination p =>
    refine (originate_spec n destination p).mono (fun n' h => ?_) fun _ _ => trivial
    obtain ⟨sent, v, ho, rfl⟩ := h
    rw [ho.same]
  | routeInput p header =>
    refine Ensures.ite (fun _ => rfl) fun _ => Ensures.ite (fun _ => rfl) fun _ => ?_
    refine (forwardPacket_spec _ p header).mono (fun n' h => ?_) fun _ _ => trivial
    obtain ⟨d, payload, v, d', -, hsame, -, hcase⟩ := h
    have hv : v.broadcast = n.broadcast := by rw [hsame]
    rcases hcase with rfl | ⟨source, hop, -, rfl⟩
    · exact hv
    · exact hv
  | checkPacketQueue =>
    refine (checkPacketQueue_vehicle n).mono (fun n' h => ?_) fun _ _ => trivial
    rw [h]
  | sendFromSQueue k =>
    refine Ensures.ite (fun _ => ?_) fun _ => rfl
    rw [ensures_pure, sendFromSQueue_toVehicle]

end Decisions

end Egsr.Grp.QueueCheck
