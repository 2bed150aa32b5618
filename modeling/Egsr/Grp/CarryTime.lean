import Egsr.Grp.QueueCheck

/-! The carry time of waiting packets. The clock is kept for a flow and not for a
packet: as long as a packet that is late is the only one of its flow to wait,
the clock of a flow shows the time at which its oldest packet was stored. -/

namespace Egsr.Grp.CarryTime

open Grp.Road Grp.State Grp.Forwarding Grp.SourceRoute Grp.DataPlane List Function
open Grp.HeaderRoundTrip Grp.QueueCheck Lib.Outcome Lib.Run Network.ByteIterator

/-- A packet that has itself been waiting for the threshold. -/
def late (n : Node) (q : PacketQueueEntry) : Prop := n.carryTimeThreshold ≤ n.now - q.stored
deriving Decidable

def lateOnes (n : Node) : List (Packet × Ipv4Header) :=
  (n.pwaitqueue.reverse.filter fun q => late n q).map fun q => (q.packet, q.header)

def LatesAlone (n : Node) : Prop :=
  n.pwaitqueue.Pairwise fun q y => late n q ∨ late n y → flow q.header ≠ flow y.header
deriving Decidable

/-- The clock of a flow runs just if a packet of it waits, and shows when the
oldest of them was stored. -/
structure Clocks (n : Node) : Prop where
  running : ∀ q ∈ n.pwaitqueue, ∃ start,
    n.wTimeCache (flow q.header) = some start ∧ start ≤ q.stored
  oldest : ∀ f start, n.wTimeCache f = some start →
    ∃ q ∈ n.pwaitqueue, flow q.header = f ∧ q.stored = start
  past : ∀ q ∈ n.pwaitqueue, q.stored ≤ n.now

section Lates

variable {n : Node} {q : PacketQueueEntry}

theorem sendFromSQueue_dropPacketTrace (n : Node) :
    (sendFromSQueue n).dropPacketTrace = n.dropPacketTrace := by
  cases eq_nil_or_concat' n.squeue with
  | inl hnil => rw [sendFromSQueue_nil hnil]
  | inr hcat =>
    obtain ⟨queue, s, hs⟩ := hcat
    rw [sendFromSQueue_concat hs]

theorem Clocks.send (h : Clocks n) : Clocks (sendFromSQueue n) := by
  cases eq_nil_or_concat' n.squeue with
  | inl hnil => rwa [sendFromSQueue_nil hnil]
  | inr hcat =>
    obtain ⟨queue, s, hs⟩ := hcat
    rw [sendFromSQueue_concat hs]
    exact ⟨h.running, h.oldest, h.past⟩

theorem Clocks.expired_iff (h : Clocks n) (q : PacketQueueEntry) :
    expired n q.header ↔ ∃ y ∈ n.pwaitqueue, flow y.header = flow q.header ∧ late n y := by
  constructor
  · intro hexp
    obtain ⟨start, hclock, hlate⟩ := hexp
    obtain ⟨y, hy, hflow, rfl⟩ := h.oldest _ start hclock
    exact ⟨y, hy, hflow, hlate⟩
  · intro hlate
    obtain ⟨y, hy, hflow, hlate⟩ := hlate
    obtain ⟨start, hclock, hle⟩ := h.running y hy
    refine ⟨start, hflow ▸ hclock, le_trans hlate ?_⟩
    linarith

theorem LatesAlone.eq (h : LatesAlone n) {y : PacketQueueEntry} (hq : q ∈ n.pwaitqueue)
    (hy : y ∈ n.pwaitqueue) (hflow : flow q.header = flow y.header) (hlate : late n q) : q = y := by
  by_contra hne
  have hsymm : Std.Symm fun q y => late n q ∨ late n y → flow q.header ≠ flow y.header :=
    ⟨fun _ _ hqy hor => (hqy hor.symm).symm⟩
  exact h.forall hq hy hne (.inl hlate) hflow

theorem Clocks.survives_iff (h : Clocks n) (alone : LatesAlone n)
    {left behind : List PacketQueueEntry} (queue : n.pwaitqueue = left ++ q :: behind) :
    Survives n q behind ↔ ¬ late n q := by
  have hq : q ∈ n.pwaitqueue := by
    rw [queue]
    simp
  constructor
  · intro hsurvives hlate
    cases hsurvives with
    | inl hrun => exact hrun ((h.expired_iff q).mpr ⟨q, hq, rfl, hlate⟩)
    | inr hbehind =>
      obtain ⟨y, hy, hflow⟩ := hbehind
      rw [LatesAlone, queue, pairwise_append, pairwise_cons] at alone
      exact alone.2.1.1 y hy (.inl hlate) hflow.symm
  · intro hlate
    refine .inl fun hexp => hlate ?_
    obtain ⟨y, hy, hflow, hlate'⟩ := (h.expired_iff q).mp hexp
    exact alone.eq hy hq hflow hlate' ▸ hlate'

end Lates

/-! ## A check -/

section Decisions

variable [Platform] {n m m' : Node} {q : PacketQueueEntry} {done : List PacketQueueEntry}

def Forwards (v : Vehicle) (dest : Ipv4Address) : Prop :=
  ∃ hop, hop ≠ loopback ∧ PicksHop v dest hop

def Keeps (n : Node) (q : PacketQueueEntry) : Prop :=
  ¬ late n q ∧ ¬ Forwards n.toVehicle q.header.destination

structure Swept (n : Node) (done : List PacketQueueEntry) (m : Node) : Prop where
  dropped : m.dropPacketTrace = n.dropPacketTrace ++
    (done.reverse.filter fun q => late n q).map fun q => (q.packet, q.header)
  came : ∀ r ∈ m.pwaitqueue, ∃ q ∈ done, Keeps n q ∧ r.header = q.header ∧ r.stored = q.stored
  kept : ∀ q ∈ done, Keeps n q → ∃ r ∈ m.pwaitqueue, r.header = q.header ∧ r.stored = q.stored
  stopped : ∀ q ∈ done, ¬ Keeps n q → m.wTimeCache (flow q.header) = none
  untouched : ∀ f, (∀ q ∈ done, flow q.header = f → Keeps n q) → m.wTimeCache f = n.wTimeCache f

theorem Swept.stop (h : Swept n done m) (gone : ¬ Keeps n q)
    (cache : m'.wTimeCache = update m.wTimeCache (flow q.header) none)
    (waiting : m'.pwaitqueue = m.pwaitqueue) (dropped : m'.dropPacketTrace = n.dropPacketTrace ++
      ((q :: done).reverse.filter fun q => late n q).map fun q => (q.packet, q.header)) :
    Swept n (q :: done) m' where
  dropped := dropped
  came r hr := by
    obtain ⟨y, hy, hr⟩ := h.came r (waiting ▸ hr)
    exact ⟨y, mem_cons_of_mem q hy, hr⟩
  kept y hy hkeep := by
    cases mem_cons.mp hy with
    | inl heq => exact absurd (heq ▸ hkeep) gone
    | inr hy => exact waiting ▸ h.kept y hy hkeep
  stopped y hy hgone := by
    by_cases hflow : flow y.header = flow q.header
    · rw [cache, hflow, update_self]
    · rw [cache, update_of_ne hflow]
      cases mem_cons.mp hy with
      | inl heq => exact absurd (by rw [heq]) hflow
      | inr hy => exact h.stopped y hy hgone
  untouched f hf := by
    have hne : f ≠ flow q.header := fun heq => gone (hf q (by simp) heq.symm)
    rw [cache, update_of_ne hne]
    exact h.untouched f fun y hy => hf y (mem_cons_of_mem q hy)

theorem Swept.keep (h : Swept n done m) (stays : Keeps n q) (r : PacketQueueEntry)
    (header : r.header = q.header) (stored : r.stored = q.stored)
    (cache : m'.wTimeCache = m.wTimeCache) (waiting : m'.pwaitqueue = m.pwaitqueue ++ [r])
    (dropped : m'.dropPacketTrace = m.dropPacketTrace) : Swept n (q :: done) m' where
  dropped := by
    rw [dropped, h.dropped, reverse_cons, filter_append, filter_singleton]
    simp [stays.1]
  came s hs := by
    rw [waiting] at hs
    cases mem_append.mp hs with
    | inl hold =>
      obtain ⟨y, hy, hs⟩ := h.came s hold
      exact ⟨y, mem_cons_of_mem q hy, hs⟩
    | inr hnew =>
      rw [mem_singleton.mp hnew]
      exact ⟨q, by simp, stays, header, stored⟩
  kept y hy hkeep := by
    cases mem_cons.mp hy with
    | inl heq => exact ⟨r, by simp [waiting], by rw [heq, header], by rw [heq, stored]⟩
    | inr hy =>
      obtain ⟨s, hs, heq⟩ := h.kept y hy hkeep
      exact ⟨s, by simp [waiting, hs], heq⟩
  stopped y hy hgone := by
    rw [cache]
    cases mem_cons.mp hy with
    | inl heq => exact absurd stays (heq ▸ hgone)
    | inr hy => exact h.stopped y hy hgone
  untouched f hf := by
    rw [cache]
    exact h.untouched f fun y hy => hf y (mem_cons_of_mem q hy)

theorem Swept.checked (h : Swept n done m) (checking : Checking n done m)
    (survives : Survives n q done ↔ ¬ late n q) (checked : Checked m q m') :
    Swept n (q :: done) m' := by
  have hforwards : ∀ hop, PicksHop m.toVehicle q.header.destination hop ↔
      PicksHop n.toVehicle q.header.destination hop := fun hop => checking.picksHop
  cases checked with
  | inl hdrop =>
    obtain ⟨hexp, rfl⟩ := hdrop
    have hlate : late n q := by
      by_contra hnot
      exact checking.survives.mpr (survives.mpr hnot) hexp
    refine h.stop (fun hkeep => hkeep.1 hlate) rfl rfl ?_
    rw [reverse_cons, filter_append, filter_singleton]
    simp [droppedNode, h.dropped, hlate]
  | inr hstay =>
    obtain ⟨hrun, d, payload, v, d', path, -, -, -, hcase⟩ := hstay
    have hlate : ¬ late n q := survives.mp (checking.survives.mp hrun)
    cases hcase with
    | inl hkept =>
      obtain ⟨hnone, rfl⟩ := hkept
      have hstays : Keeps n q := by
        refine ⟨hlate, fun hforward => ?_⟩
        obtain ⟨hop, hhop, hpick⟩ := hforward
        exact hhop (hnone hop ((hforwards hop).mpr hpick))
      exact h.keep hstays { q with packet := { q.packet with bytes := dataBytes d' ++ payload } }
        rfl rfl rfl rfl rfl
    | inr hqueued =>
      obtain ⟨hop, hhop, hpick, rfl⟩ := hqueued
      refine h.stop (fun hkeep => hkeep.2 ⟨hop, hhop, (hforwards hop).mp hpick⟩) rfl rfl ?_
      rw [reverse_cons, filter_append, filter_singleton]
      simp [queuedNode, h.dropped, hlate]

theorem Clocks.check (h : Clocks n) (alone : LatesAlone n) : Ensures (checkPacketQueue n)
      (fun n' => n'.dropPacketTrace = n.dropPacketTrace ++ lateOnes n ∧ Clocks n')
      (fun _ => True) := by
  have hround : ∀ left q done m, n.pwaitqueue = left ++ q :: done → m.pqueue = left ++ [q] →
      Checking n done m → Swept n done m →
      Ensures (checkEntry { m with pqueue := left } q) (Swept n (q :: done)) (fun _ => True) := by
    intro left q done m hqueue _ hm hswept
    have htaken : Swept n done { m with pqueue := left } :=
      ⟨hswept.dropped, hswept.came, hswept.kept, hswept.stopped, hswept.untouched⟩
    refine (checkEntry_spec { m with pqueue := left } q).mono (fun m' hm' => ?_) fun _ _ => trivial
    exact htaken.checked (hm.take left) (h.survives_iff alone hqueue) hm'
  have hstart : Swept n [] { n with pqueue := n.pwaitqueue, pwaitqueue := [] } :=
    ⟨by simp, by simp, by simp, by simp, fun _ _ => rfl⟩
  refine (checkPacketQueue_rule hround hstart).weaken fun n' hn' => ?_
  obtain ⟨m, -, hm, hswept, rfl⟩ := hn'
  -- one flow, one decision: it is the same destination, and a late packet is alone
  have hflow : ∀ q ∈ n.pwaitqueue, Keeps n q → ∀ y ∈ n.pwaitqueue,
      flow y.header = flow q.header → Keeps n y := by
    intro q hq hkeep y hy hsame
    have hdest : y.header.destination = q.header.destination := congrArg Prod.snd hsame
    refine ⟨fun hlate => hkeep.1 ?_, by rw [hdest]; exact hkeep.2⟩
    exact alone.eq hy hq hsame hlate ▸ hlate
  have hclocks : Clocks m := by
    refine ⟨fun r hr => ?_, fun f start hclock => ?_, fun r hr => ?_⟩
    · obtain ⟨q, hq, hkeep, hheader, hstored⟩ := hswept.came r hr
      obtain ⟨start, hclock, hle⟩ := h.running q hq
      refine ⟨start, ?_, hstored ▸ hle⟩
      rw [hheader, hswept.untouched _ (fun y hy => hflow q hq hkeep y hy), hclock]
    · have hall : ∀ q ∈ n.pwaitqueue, flow q.header = f → Keeps n q := by
        intro q hq hf
        by_contra hgone
        have hnone := hswept.stopped q hq hgone
        rw [hf, hclock] at hnone
        cases hnone
      rw [hswept.untouched f hall] at hclock
      obtain ⟨q, hq, hf, hstored⟩ := h.oldest f start hclock
      obtain ⟨r, hr, hheader, hstored'⟩ := hswept.kept q hq (hall q hq hf)
      exact ⟨r, hr, by rw [hheader, hf], by rw [hstored', hstored]⟩
    · obtain ⟨q, hq, -, -, hstored⟩ := hswept.came r hr
      rw [hstored, hm.now]
      exact h.past q hq
  have hdropped : m.dropPacketTrace = n.dropPacketTrace ++ lateOnes n := hswept.dropped
  cases sendFirst_eq m with
  | inl hstay => exact hstay.1.symm ▸ ⟨hdropped, hclocks⟩
  | inr hsend =>
    rw [hsend]
    exact ⟨(sendFromSQueue_dropPacketTrace m).trans hdropped, hclocks.send⟩

/-! ## Whole runs -/

omit [Platform] in
theorem Clocks.stored (h : Clocks n) (p : Packet) (header : Ipv4Header)
    (d : Header.DataPacketHeader) (payload : List UInt8) :
    Clocks (storedNode n p header d payload) := by
  have hpast : ∀ q ∈ (storedNode n p header d payload).pwaitqueue, q.stored ≤ n.now := by
    intro q hq
    cases mem_append.mp hq with
    | inl hq => exact h.past q hq
    | inr hq => rw [mem_singleton.mp hq]
  have hcache : (storedNode n p header d payload).wTimeCache = startClock n header := rfl
  by_cases hidle : n.wTimeCache (flow header) = none
  · rw [startClock, if_pos hidle] at hcache
    have hold : ∀ q ∈ n.pwaitqueue, flow q.header ≠ flow header := by
      intro q hq heq
      obtain ⟨start, hclock, -⟩ := h.running q hq
      rw [heq, hidle] at hclock
      cases hclock
    refine ⟨fun q hq => ?_, fun f start hclock => ?_, hpast⟩
    · rw [hcache]
      cases mem_append.mp hq with
      | inl hq =>
        rw [update_of_ne (hold q hq)]
        exact h.running q hq
      | inr hq =>
        rw [mem_singleton.mp hq]
        exact ⟨n.now, update_self _ _ _, le_refl _⟩
    · rw [hcache] at hclock
      by_cases hf : f = flow header
      · rw [hf, update_self, Option.some_inj] at hclock
        exact ⟨_, mem_append_right _ (mem_singleton_self _), hf.symm, hclock⟩
      · rw [update_of_ne hf] at hclock
        obtain ⟨q, hq, hq'⟩ := h.oldest f start hclock
        exact ⟨q, mem_append_left _ hq, hq'⟩
  · rw [startClock, if_neg hidle] at hcache
    refine ⟨fun q hq => ?_, fun f start hclock => ?_, hpast⟩
    · rw [hcache]
      cases mem_append.mp hq with
      | inl hq => exact h.running q hq
      | inr hq =>
        rw [mem_singleton.mp hq]
        obtain ⟨start, hclock⟩ := Option.ne_none_iff_exists'.mp hidle
        obtain ⟨y, hy, -, hstored⟩ := h.oldest _ start hclock
        exact ⟨start, hclock, hstored ▸ h.past y hy⟩
    · rw [hcache] at hclock
      obtain ⟨q, hq, hq'⟩ := h.oldest f start hclock
      exact ⟨q, mem_append_left _ hq, hq'⟩

omit [Platform] in
theorem Clocks.vehicle (h : Clocks n) {v : Vehicle} (now : n.now ≤ v.now) :
    Clocks { n with toVehicle := v } :=
  ⟨h.running, h.oldest, fun q hq => (h.past q hq).trans now⟩

def Onward (n : Node) : NodeAction → Prop
  | .observe v => n.now ≤ v.now
  | _ => True

/-- Time goes on, and a packet that is late at a check is the only one of its flow to wait. -/
def Timely (n : Node) : NodeAction → Prop
  | .observe v => n.now ≤ v.now
  | .checkPacketQueue => LatesAlone n
  | _ => True

instance (n : Node) : (a : NodeAction) → Decidable (Onward n a)
  | .observe _ | .originate .. | .routeInput .. | .checkPacketQueue | .sendFromSQueue _ =>
    by unfold Onward; infer_instance

instance (n : Node) : (a : NodeAction) → Decidable (Timely n a)
  | .observe _ | .originate .. | .routeInput .. | .checkPacketQueue | .sendFromSQueue _ =>
    by unfold Timely; infer_instance

theorem Clocks.step (h : Clocks n) (a : NodeAction) (timely : Timely n a) :
    Ensures (nodeStep n a) Clocks (fun _ => True) := by
  cases a with
  | observe v =>
    have hvehicle : Clocks { n with toVehicle :=
        { v with mainAddress := n.mainAddress, broadcast := n.broadcast } } := h.vehicle timely
    exact hvehicle
  | originate destination p =>
    refine (originate_spec n destination p).mono (fun n' hn' => ?_) fun _ _ => trivial
    obtain ⟨sent, v, ho, rfl⟩ := hn'
    have hvehicle : Clocks { n with toVehicle := v } := h.vehicle (by rw [ho.same])
    exact ⟨hvehicle.running, hvehicle.oldest, hvehicle.past⟩
  | routeInput p header =>
    refine Ensures.ite (fun _ => ?_) fun _ => Ensures.ite (fun _ => ?_) fun _ => ?_
    · exact ⟨h.running, h.oldest, h.past⟩
    · exact ⟨h.running, h.oldest, h.past⟩
    · refine (forwardPacket_spec _ p header).mono (fun n' hn' => ?_) fun _ _ => trivial
      obtain ⟨d, payload, v, d', -, hsame, -, hcase⟩ := hn'
      have hvehicle :
          Clocks { n with toVehicle := v, accepted := n.accepted ++ [(p, header)] } := by
        have hnow : n.now ≤ v.now := by rw [hsame]
        exact ⟨h.running, h.oldest, fun q hq => (h.past q hq).trans hnow⟩
      cases hcase with
      | inl hstored => exact hstored ▸ hvehicle.stored p header d' payload
      | inr hsent =>
        obtain ⟨source, hop, -, rfl⟩ := hsent
        exact ⟨hvehicle.running, hvehicle.oldest, hvehicle.past⟩
  | checkPacketQueue => exact (h.check timely).weaken fun _ hn' => hn'.2
  | sendFromSQueue k =>
    refine Ensures.ite (fun _ => ?_) fun _ => h
    exact Clocks.send ⟨h.running, h.oldest, h.past⟩

end Decisions

def tenSecondsOn : Vehicle := { approaching with now := 10 }

def sharedFlow : List NodeAction :=
  [.routeInput carried carriedHeader, .observe { approaching with now := 5 },
    .routeInput { carried with uid := 8 } carriedHeader, .observe tenSecondsOn]

end Egsr.Grp.CarryTime
