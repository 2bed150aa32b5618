import Egsr.TrafficControl.FlowFairness
import Egsr.TrafficControl.Postings

/-! The accounts of a disc over any sequence of calls: what its counters say about
the packets it holds and has handed out. -/

namespace Egsr.TrafficControl.Accounting

open Lib.Outcome Lib.Run QueueDisc List

/-! ## Runs -/

inductive Action where
  | enqueue (now : ℕ) (item : QueueDiscItem)
  | dequeue (now : ℕ)
  | peek (now : ℕ)
  /-- With what the device queues become in each call of the send callback. -/
  | run (now : ℕ) (answers : List NetDeviceQueueInterface)
  /-- The device stops and starts its queues. -/
  | device (queues : NetDeviceQueueInterface)
  | getStats
  /-- `GetStats` of a child. -/
  | childStats (i : ℕ)

/-- A disc with what came in, was handed out and reported. -/
structure Ledger (σ : Type) where
  disc : QueueDisc σ
  /-- The packets that `Enqueue` was called with. -/
  offered : List QueueDiscItem
  /-- The packets that `Dequeue` returned to its caller. -/
  returned : List QueueDiscItem
  /-- The packets that the send callback got. -/
  sent : List QueueDiscItem
  /-- What `GetStats` reported, with the packets that had been handed out. -/
  reports : List (Stats × List QueueDiscItem)

variable {σ : Type}

namespace Ledger

def handedOut (r : Ledger σ) : List QueueDiscItem := r.returned ++ r.sent

end Ledger

def start (d : QueueDisc σ) : Ledger σ := ⟨d, [], [], [], []⟩

def step [Tree σ] (r : Ledger σ) : Action → Except Fault (Ledger σ)
  | .enqueue now item => (r.disc.enqueue now item).map fun out =>
    { r with disc := out.2, offered := r.offered ++ [item] }
  | .dequeue now =>
    (r.disc.dequeue now).map fun out =>
      { r with disc := out.2, returned := r.returned ++ out.1.toList }
  | .peek now => (r.disc.peek now).map fun out => { r with disc := out.2 }
  | .run now answers =>
    (r.disc.run now ⟨r.sent, answers⟩).map fun out => { r with disc := out.2, sent := out.1.sent }
  | .device queues =>
    let d := r.disc
    .ok { r with disc := { d with m_devQueueIface := d.m_devQueueIface.map fun _ => queues } }
  | .getStats => .ok { r with reports := r.reports ++ [(r.disc.getStats, r.handedOut)] }
  | .childStats i =>
    match (Tree.children r.disc.own)[i]? with
    | none => .error .noClass
    | some c => .ok { r with reports := r.reports ++ [(c.queueDisc.getStats, c.handedOut)] }

/-! ## The counters as numbers -/

def numbers (n : UInt32 × UInt32) : Amount := (n.1.toNat, n.2.toNat)

def statistics (n : UInt32 × UInt64) : Amount := (n.1.toNat, n.2.toNat)

/-- What `m_nPackets` and `m_nBytes` can count, and what the statistics can. -/
def FitsQueue (n : Amount) : Prop := n.1 < 2 ^ 32 ∧ n.2 < 2 ^ 32
deriving Decidable

def FitsStats (n : Amount) : Prop := n.1 < 2 ^ 32 ∧ n.2 < 2 ^ 64
deriving Decidable

theorem FitsStats.of_le {n m : Amount} (h : FitsStats m) (le : n ≤ m) : FitsStats n :=
  ⟨le.1.trans_lt h.1, le.2.trans_lt h.2⟩

theorem numbers_queued {n : Amount} (nonneg : 0 ≤ n) : numbers (queued n) = n ↔ FitsQueue n := by
  obtain ⟨packets, bytes⟩ := n
  have hpackets : 0 ≤ packets := nonneg.1
  have hbytes : 0 ≤ bytes := nonneg.2
  change (((UInt32.ofNat _).toNat : ℤ), ((UInt32.ofNat _).toNat : ℤ)) = (packets, bytes) ↔
    packets < 2 ^ 32 ∧ bytes < 2 ^ 32
  rw [Prod.mk.injEq, UInt32.toNat_ofNat', UInt32.toNat_ofNat']
  omega

theorem statistics_counted {n : Amount} (nonneg : 0 ≤ n) (fits : FitsStats n) :
    statistics (counted n) = n := by
  obtain ⟨packets, bytes⟩ := n
  have hpackets : 0 ≤ packets := nonneg.1
  have hbytes : 0 ≤ bytes := nonneg.2
  have hpackets' : packets < 2 ^ 32 := fits.1
  have hbytes' : bytes < 2 ^ 64 := fits.2
  change (((UInt32.ofNat _).toNat : ℤ), ((UInt64.ofNat _).toNat : ℤ)) = (packets, bytes)
  rw [Prod.mk.injEq, UInt32.toNat_ofNat', UInt64.toNat_ofNat']
  omega

/-- The counters of a disc with these packets inside, after no more than `offered` came in: the sums
hold in the arithmetic of the counters, and of numbers as long as these fit. -/
structure Counted {τ : Type} (inside : List QueueDiscItem) (offered : Amount) (d : QueueDisc τ) :
    Prop where
  words : d.m_size = queued (total (inside ++ d.peekedItem))
  size : numbers d.m_size = total (inside ++ d.peekedItem) ↔
    FitsQueue (total (inside ++ d.peekedItem))
  received : d.m_stats.nTotalReceived = d.m_stats.nTotalDroppedBeforeEnqueue +
    d.m_stats.nTotalEnqueued
  enqueued : d.m_stats.nTotalEnqueued =
    counted (total (inside ++ d.peekedItem)) + d.m_stats.nTotalDequeued
  receivedNumbers : FitsStats offered → statistics d.m_stats.nTotalReceived =
    statistics d.m_stats.nTotalDroppedBeforeEnqueue + statistics d.m_stats.nTotalEnqueued
  enqueuedNumbers : FitsStats offered → statistics d.m_stats.nTotalEnqueued =
    total (inside ++ d.peekedItem) + statistics d.m_stats.nTotalDequeued

theorem counted_of_books {τ : Type} {inside : List QueueDiscItem} {out all offered : Amount}
    {d : QueueDisc τ} (h : Books 0 (total inside) out all d) (nonneg : 0 ≤ out)
    (le : all ≤ offered) : Counted inside offered d := by
  obtain ⟨before, after, hbefore, hafter, hbefore', hafter', hsum⟩ := h.drops
  have hheld : 0 ≤ total inside + total d.peekedItem := add_nonneg (total_nonneg _) (total_nonneg _)
  have hgone : 0 ≤ out + total d.requeuedItem + after :=
    add_nonneg (add_nonneg nonneg (total_nonneg _)) hafter
  have hdequeued : d.m_stats.nTotalDequeued = counted (out + total d.requeuedItem + after) := by
    rw [h.dequeued, hafter', ← map_add]
  have henqueued : d.m_stats.nTotalEnqueued = counted
      (total inside + total d.peekedItem + (out + total d.requeuedItem + after)) := by
    rw [h.enqueued, hdequeued, ← map_add]
  have hreceived : d.m_stats.nTotalReceived =
      d.m_stats.nTotalDroppedBeforeEnqueue + d.m_stats.nTotalEnqueued := by
    rw [h.received, map_zero, add_zero]
  have hall : before + (total inside + total d.peekedItem + (out + total d.requeuedItem + after)) ≤
      offered := by
    refine le_of_eq_of_le ?_ (hsum.trans le)
    abel
  have hentered := add_nonneg hheld hgone
  have hfits : FitsStats offered →
      FitsStats (total inside + total d.peekedItem + (out + total d.requeuedItem + after)) :=
    fun fits => (fits.of_le hall).of_le (le_add_of_nonneg_left hbefore)
  constructor
  · rw [total_append, h.size]
  · rw [total_append, h.size]
    exact numbers_queued hheld
  · exact hreceived
  · rw [total_append]
    exact h.enqueued
  · intro fits
    rw [hreceived, hbefore', henqueued, ← map_add,
      statistics_counted (add_nonneg hbefore hentered) (fits.of_le hall),
      statistics_counted hbefore ((fits.of_le hall).of_le (le_add_of_nonneg_right hentered)),
      statistics_counted hentered (hfits fits)]
  · intro fits
    rw [total_append, henqueued, hdequeued, statistics_counted hentered (hfits fits),
      statistics_counted hgone ((hfits fits).of_le (le_add_of_nonneg_left hheld))]

def Balanced [Tree σ] (r : Ledger σ) : Prop :=
  Counted (Tree.held r.disc.own) (total r.offered) r.disc ∧
    ∀ c ∈ Tree.children r.disc.own,
      Counted c.queueDisc.own.internalQueue (total r.offered) c.queueDisc

def ReportsRight (r : Ledger σ) : Prop := ∀ report ∈ r.reports,
  report.1.nTotalSent = counted (total report.2) ∧
    (FitsStats (total r.offered) → statistics report.1.nTotalSent = total report.2)
deriving Decidable

def HeadersAdded (r : Ledger σ) : Prop := ∀ item ∈ r.sent, item.m_headerAdded = true
deriving Decidable

/-- Statistics are not asked for while a packet is peeked, nor of a child after a batch drop from
it, and a peeked packet does not go to the device. -/
def Careful [Tree σ] (r : Ledger σ) : Action → Prop
  | .run _ _ =>
    ∀ item ∈ r.disc.m_requeued, r.disc.m_peeked = true → r.disc.isStopped item.m_txq ≠ .ok false
  | .getStats => r.disc.m_peeked = false
  | .childStats i => ∀ c ∈ (Tree.children r.disc.own)[i]?, c.batchDropped = []
  | _ => True

instance [Tree σ] (r : Ledger σ) : ∀ a, Decidable (Careful r a)
  | .run .. | .getStats | .childStats _ | .enqueue .. | .dequeue _ | .peek _ | .device _ =>
    by unfold Careful; infer_instance

structure Fresh (d : QueueDisc σ) : Prop where
  size : d.m_size = 0
  stats : d.m_stats = ⟨0, 0, 0, 0, 0, 0, 0, 0⟩
  requeued : d.m_requeued = none
  peeked : d.m_peeked = false

/-! ## The invariant -/

/-- A run does not go on for ever unless `endless` holds. -/
def Ends (endless : Prop) (e : Fault) : Prop := e = .endless → endless

/-- What the calls of a subclass do to the counters while its part is in order, after so much came
in, with packets that fit. -/
structure Accountable (σ : Type) [Tree σ] (Ok : Amount → σ → Prop) (Fits : QueueDiscItem → Prop)
    (endless : Prop) : Prop where
  enqueue : ∀ all now item (d : QueueDisc σ), Fits item → Ok all d.own →
    Ensures (Subclass.doEnqueue now item d)
      (fun out => Ok (all + amount item) out.2.own ∧ Accepts item d out.2) (Ends endless)
  dequeue : ∀ all now (d : QueueDisc σ), Ok all d.own →
    Ensures (Subclass.doDequeue now d)
      (fun out => Ok all out.2.own ∧ Draws (total out.1.toList) d out.2) (Ends endless)
  children : ∀ all own, Ok all own → ∀ c ∈ Tree.children own, c.Kept all

/-- The books between two calls, after so much came in and so much was handed out. -/
structure Steady [Tree σ] (Ok : Amount → σ → Prop) (all out : Amount) (d : QueueDisc σ) : Prop where
  ok : Ok all d.own
  books : Books 0 (total (Tree.held d.own)) out all d
  peeked : d.m_peeked = true → d.m_requeued ≠ none

/-- Every packet that goes to the device has its header, now and later; a peeked packet does not go
there. -/
structure Headed (device : Device) (d : QueueDisc σ) : Prop where
  sent : ∀ item ∈ device.sent, item.m_headerAdded = true
  requeued : ∀ item, d.m_requeued = some item → d.m_peeked = false → item.m_headerAdded = true
  peeked : ∀ item, d.m_requeued = some item → d.m_peeked = true → d.isStopped item.m_txq ≠ .ok false

theorem Headed.of_none {device : Device} {d d' : QueueDisc σ} (h : Headed device d)
    (hnone : d'.m_requeued = none) : Headed device d' :=
  ⟨h.sent, fun _ hi => (nomatch hnone.symm.trans hi), fun _ hi => nomatch hnone.symm.trans hi⟩

section Calls

variable [Tree σ] {Ok : Amount → σ → Prop} {Fits : QueueDiscItem → Prop} {endless : Prop}
  {all out : Amount} {d : QueueDisc σ} (accountable : Accountable σ Ok Fits endless) (now : ℕ)

theorem Steady.unpeeked (h : Steady Ok all out d) (hnone : d.m_requeued = none) :
    d.m_peeked = false := by
  cases hpeeked : d.m_peeked with
  | false => rfl
  | true => exact absurd hnone (h.peeked hpeeked)

omit [Tree σ] in
theorem isStopped_ends (d : QueueDisc σ) (index : ℕ) :
    Ensures (d.isStopped index) (fun stopped => d.isStopped index = .ok stopped)
    (Ends endless) := by
  rw [isStopped]
  split
  · rfl
  · split
    · rfl
    · exact fun h => nomatch h

include accountable

theorem enqueue_steady {item : QueueDiscItem} (h : Steady Ok all out d)
    (fits : Fits (item.setTimeStamp now)) :
    Ensures (d.enqueue now item) (fun o => Steady Ok (all + amount item) out o.2 ∧
      o.2.m_requeued = d.m_requeued ∧ o.2.m_peeked = d.m_peeked) (Ends endless) := by
  have hreceived := h.books.receive (amount item)
  rw [zero_add] at hreceived
  refine (accountable.enqueue all now (item.setTimeStamp now) _ fits ?_).weaken fun o ho => ?_
  · exact h.ok
  · obtain ⟨hok, haccepts⟩ := ho
    obtain ⟨events, hposted, -⟩ := id haccepts
    refine ⟨⟨hok, haccepts.books hreceived, ?_⟩, hposted.requeued, hposted.peeked⟩
    rw [hposted.requeued, hposted.peeked]
    exact h.peeked

omit accountable in
theorem requeued_steady {item : QueueDiscItem} (h : Steady Ok all out d)
    (hrequeued : d.m_requeued = some item) : Steady Ok all (out + amount item)
        (if d.m_peeked then { d with m_requeued := none, m_peeked := false }.packetDequeued item
          else { d with m_requeued := none }) ∧
      (if d.m_peeked then { d with m_requeued := none, m_peeked := false }.packetDequeued item
          else { d with m_requeued := none }).m_requeued = none := by
  split_ifs with hpeeked
  · have hposted := posted_taken (d := { d with m_requeued := none, m_peeked := false }) rfl item
    refine ⟨⟨?_, ?_, ?_⟩, hposted.requeued⟩
    · rw [packetDequeued_own]
      exact h.ok
    · rw [packetDequeued_own]
      exact (h.books.unpeek hrequeued hpeeked).post hposted (by simp) (by simp) (by simp)
    · rw [hposted.peeked]
      exact fun h => absurd h Bool.false_ne_true
  · exact ⟨⟨h.ok, h.books.handOut hrequeued (Bool.eq_false_iff.mpr hpeeked), fun h =>
      absurd h hpeeked⟩, rfl⟩

theorem dequeue_steady (h : Steady Ok all out d) :
    Ensures (d.dequeue now) (fun o => Steady Ok all (out + total o.1.toList) o.2 ∧
      o.2.m_requeued = none) (Ends endless) := by
  rw [QueueDisc.dequeue]
  cases hrequeued : d.m_requeued with
  | some item =>
    have hgiven := requeued_steady h hrequeued
    rw [show amount item = total (some item).toList by simp] at hgiven
    dsimp only
    split_ifs with hpeeked
    · rw [if_pos hpeeked] at hgiven
      exact hgiven
    · rw [if_neg hpeeked] at hgiven
      exact hgiven
  | none =>
    have hpeeked := h.unpeeked hrequeued
    refine (accountable.dequeue all now d h.ok).weaken fun o ho => ?_
    obtain ⟨hok, hdraws⟩ := ho
    obtain ⟨events, hposted, -⟩ := id hdraws
    refine ⟨⟨hok, h.books.draw hdraws hpeeked, ?_⟩, hposted.requeued.trans hrequeued⟩
    rw [hposted.peeked, hpeeked]
    exact fun h => absurd h Bool.false_ne_true

theorem peek_steady (h : Steady Ok all out d) :
    Ensures (d.peek now) (fun o => Steady Ok all out o.2 ∧
      (o.2.m_peeked = false → o.2.m_requeued = d.m_requeued ∧ d.m_peeked = false))
      (Ends endless) := by
  rw [QueueDisc.peek]
  cases hrequeued : d.m_requeued with
  | some item => exact ⟨h, fun hpeeked => ⟨hrequeued, hpeeked⟩⟩
  | none =>
    obtain ⟨d₁, hd₁⟩ : ∃ d₁ : QueueDisc σ, d₁ = { d with m_requeued := none, m_peeked := true } :=
      ⟨_, rfl⟩
    have hnone : d₁.m_requeued = none := by rw [hd₁]
    have hbooks : Books 0 (total (Tree.held d₁.own)) out all d₁ := by
      rw [hd₁]
      refine h.books.move rfl rfl ?_ ?_ <;> simp [peekedItem, requeuedItem, hrequeued]
    have hrun : Ensures (dequeue now d₁) (fun o => Ok all o.2.own ∧ Draws (total o.1.toList) d₁ o.2)
        (Ends endless) := by
      rw [QueueDisc.dequeue, hnone]
      refine accountable.dequeue all now d₁ ?_
      rw [hd₁]
      exact h.ok
    rw [← hd₁]
    refine ensures_map.mpr (hrun.weaken fun o ho => ?_)
    obtain ⟨item, d'⟩ := o
    obtain ⟨hok, events, hposted, henqueued, hbefore, hdequeued, hheld⟩ := ho
    have hpeeked : d'.m_peeked = true := by rw [hposted.peeked, hd₁]
    have hkept : Books 0 (total (Tree.held d'.own) + total item.toList) out all d' := by
      rw [show d₁.m_peeked = true by rw [hd₁], if_pos rfl] at hdequeued
      refine hbooks.post hposted ?_ ?_ ?_
      · rw [henqueued, hbefore, add_zero, add_zero]
      · rw [hdequeued, henqueued, hheld]
        abel
      · rw [hdequeued, add_zero]
    have hbooks' := Books.keepPeeked item hkept (hposted.requeued.trans hnone)
    dsimp only
    rw [hpeeked]
    refine ⟨⟨hok, hbooks', ?_⟩, ?_⟩
    · cases item <;> simp
    · intro hnot
      refine ⟨?_, h.unpeeked hrequeued⟩
      cases item with
      | none => rfl
      | some item => cases hnot

theorem dequeuePacket_steady (device : Device) (h : Steady Ok all out d) :
    Ensures (d.dequeuePacket now) (fun o => Steady Ok all (out + total o.1.toList) o.2 ∧
      (o.1 ≠ none → o.2.m_requeued = none) ∧
      (Headed device d → Headed device o.2 ∧ ∀ item, o.1 = some item → item.m_headerAdded = true))
      (Ends endless) := by
  have hsame : Steady Ok all (out + total (none : Option QueueDiscItem).toList) d := by
    simpa using h
  rw [dequeuePacket]
  cases hrequeued : d.m_requeued with
  | some item =>
    refine (isStopped_ends d item.m_txq).bind fun stopped hstopped => ?_
    cases stopped with
    | true =>
      exact ⟨hsame, fun hne => absurd rfl hne, fun hheaded => ⟨hheaded, fun _ hi => nomatch hi⟩⟩
    | false =>
      obtain ⟨hgiven, hnone⟩ := requeued_steady h hrequeued
      have hheader : Headed device d → item.m_headerAdded = true := fun hheaded => by
        cases hpeeked : d.m_peeked with
        | true => exact absurd hstopped (hheaded.peeked item hrequeued hpeeked)
        | false => exact hheaded.requeued item hrequeued hpeeked
      have hitem : ∀ hheaded : Headed device d, ∀ i, some item = some i → i.m_headerAdded = true :=
        fun hheaded i hi =>
        Option.some.inj hi ▸ hheader hheaded
      have htotal : amount item = total (some item).toList := by simp
      rw [htotal] at hgiven
      refine Ensures.ite (fun h => nomatch h) fun _ => ?_
      dsimp only
      split_ifs with hpeeked
      · rw [if_pos hpeeked] at hgiven hnone
        exact ⟨hgiven, fun _ => hnone, fun hheaded => ⟨hheaded.of_none hnone, hitem hheaded⟩⟩
      · rw [if_neg hpeeked] at hgiven hnone
        exact ⟨hgiven, fun _ => hnone, fun hheaded => ⟨hheaded.of_none hnone, hitem hheaded⟩⟩
  | none =>
    have hlook : Ensures (if d.m_devQueueIface.elim 0 List.length > 1 then .ok false
      else d.isStopped 0)
        (fun _ => True) (Ends endless) :=
      Ensures.ite (fun _ => trivial) fun _ => (isStopped_ends d 0).weaken fun _ _ => trivial
    refine hlook.bind fun stopped _ => ?_
    cases stopped with
    | true =>
      exact ⟨hsame, fun hne => absurd rfl hne, fun hheaded => ⟨hheaded, fun _ hi => nomatch hi⟩⟩
    | false =>
      have hrun := (dequeue_steady accountable now h)
      refine hrun.bind fun o ho => ?_
      obtain ⟨item, d'⟩ := o
      refine ⟨?_, fun _ => ho.2, fun hheaded => ⟨hheaded.of_none ho.2, fun i hi => ?_⟩⟩
      · cases item <;> simpa using ho.1
      · cases item with
        | none => cases hi
        | some item =>
          cases hi
          rfl

omit accountable in
theorem transmit_steady {device : Device} {n : Amount} {item : QueueDiscItem}
    (h : Steady Ok all (n + total device.sent + amount item) d) (hnone : d.m_requeued = none) :
    Ensures (d.transmit item device) (fun o => Steady Ok all (n + total o.2.1.sent) o.2.2 ∧
      (Headed device d → item.m_headerAdded = true → Headed o.2.1 o.2.2)) (Ends endless) := by
  have hpeeked := h.unpeeked hnone
  rw [transmit]
  refine (isStopped_ends d item.m_txq).bind fun stopped _ => ?_
  cases stopped with
  | true =>
    refine ⟨⟨h.ok, h.books.takeBack hnone hpeeked, fun _ hi => nomatch hi⟩, fun hheaded hitem =>
      ⟨hheaded.sent, ?_, ?_⟩⟩
    · rintro i hi -
      cases hi
      exact hitem
    · exact fun _ _ hp => nomatch hpeeked.symm.trans hp
  | false =>
    have hsent : (d.send item device).1.sent = device.sent ++ [item] := by
      rw [send]
      split <;> rfl
    have hd : ∃ iface, (d.send item device).2 = { d with m_devQueueIface := iface } := by
      rw [send]
      split
      · exact ⟨_, rfl⟩
      · exact ⟨d.m_devQueueIface, rfl⟩
    have hsteady :
        Steady Ok all (n + total (d.send item device).1.sent) (d.send item device).2 := by
      obtain ⟨iface, hiface⟩ := hd
      rw [hsent, hiface, total_append, total_cons, total_nil, add_zero, ← add_assoc]
      exact ⟨h.ok, h.books.congr rfl rfl rfl rfl, h.peeked⟩
    have hheaded : Headed device d → item.m_headerAdded = true →
        Headed (d.send item device).1 (d.send item device).2 := by
      intro hheaded hitem
      have hnone' : (d.send item device).2.m_requeued = none := by
        obtain ⟨iface, hiface⟩ := hd
        rw [hiface]
        exact hnone
      refine ⟨fun i hi => ?_, fun _ hi => (nomatch hnone'.symm.trans hi), fun _ hi =>
        nomatch hnone'.symm.trans hi⟩
      rw [hsent, mem_append, mem_singleton] at hi
      rcases hi with hi | rfl
      · exact hheaded.sent i hi
      · exact hitem
    dsimp only
    generalize d.send item device = o at hsteady hheaded ⊢
    obtain ⟨device', d'⟩ := o
    refine Ensures.ite (fun h => nomatch h) fun _ =>
      Ensures.ite (fun _ => ⟨hsteady, hheaded⟩) fun _ => ?_
    refine (isStopped_ends _ item.m_txq).bind fun more _ => ?_
    exact ⟨hsteady, hheaded⟩

theorem restart_steady {device : Device} {n : Amount}
    (h : Steady Ok all (n + total device.sent) d) :
    Ensures (d.restart now device) (fun o => Steady Ok all (n + total o.2.1.sent) o.2.2 ∧
      (Headed device d → Headed o.2.1 o.2.2)) (Ends endless) := by
  rw [restart]
  refine (dequeuePacket_steady accountable now device h).bind fun o ho => ?_
  obtain ⟨item, d'⟩ := o
  obtain ⟨hsteady, hnone, hheaded⟩ := ho
  cases item with
  | none => exact ⟨by simpa using hsteady, fun hh => (hheaded hh).1⟩
  | some item =>
    have hsteady' : Steady Ok all (n + total device.sent + amount item) d' := by simpa using hsteady
    refine (transmit_steady hsteady' (hnone (by simp))).weaken fun o ho => ?_
    exact ⟨ho.1, fun hh => ho.2 (hheaded hh).1 ((hheaded hh).2 item rfl)⟩

theorem restarts_steady (quota : ℕ) {device : Device} {n : Amount}
    (h : Steady Ok all (n + total device.sent) d) :
    Ensures (restarts now quota device d) (fun o => Steady Ok all (n + total o.1.sent) o.2 ∧
      (Headed device d → Headed o.1 o.2)) (Ends endless) := by
  induction quota generalizing device d with
  | zero => exact ⟨h, fun hh => hh⟩
  | succ quota ih =>
    rw [restarts]
    refine (restart_steady accountable now h).bind fun o ho => ?_
    obtain ⟨more, device', d'⟩ := o
    refine Ensures.ite (fun _ => (ih ho.1).weaken fun o ho' => ⟨ho'.1, fun hh => ho'.2 (ho.2 hh)⟩)
      fun _ => ho

theorem run_steady {device : Device} {n : Amount} (h : Steady Ok all (n + total device.sent) d) :
    Ensures (d.run now device) (fun o => Steady Ok all (n + total o.1.sent) o.2 ∧
      (Headed device d → Headed o.1 o.2)) (Ends endless) := by
  rw [QueueDisc.run]
  refine Ensures.ite (fun _ => ⟨h, fun hh => hh⟩) fun _ => ensures_map.mpr ?_
  have hrunning : Steady Ok all (n + total device.sent) { d with m_running := true } :=
    ⟨h.ok, h.books.congr rfl rfl rfl rfl, h.peeked⟩
  refine (restarts_steady accountable now _ hrunning).weaken fun o ho => ?_
  obtain ⟨device', d'⟩ := o
  refine ⟨⟨ho.1.ok, ho.1.books.congr rfl rfl rfl rfl, ho.1.peeked⟩, fun hh => ?_⟩
  have hdone := ho.2 ⟨hh.sent, hh.requeued, hh.peeked⟩
  exact ⟨hdone.sent, hdone.requeued, hdone.peeked⟩

end Calls

/-! ## Every run -/

def Fitting (Fits : QueueDiscItem → Prop) : Action → Prop
  | .enqueue now item => Fits (item.setTimeStamp now)
  | .dequeue _ | .peek _ | .run _ _ | .device _ | .getStats | .childStats _ => True

/-- No call goes on for ever unless `endless` holds, the counters are right after every run, and so
are the reports and headers after a careful one. -/
structure Accounts [Tree σ] (d₀ : QueueDisc σ) (as : List Action) (endless : Prop) : Prop where
  balanced : Ensures (exec step (start d₀) as) Balanced (Ends endless)
  right : Along step Careful (start d₀) as →
    Ensures (exec step (start d₀) as) (fun r => ReportsRight r ∧ HeadersAdded r) (Ends endless)

section Runs

variable [Tree σ] {Ok : Amount → σ → Prop} {Fits : QueueDiscItem → Prop} {endless : Prop}
  (accountable : Accountable σ Ok Fits endless) {r : Ledger σ} {a : Action}

/-- What was reported was right, and the packets that go to the device have their headers. -/
structure Right (r : Ledger σ) : Prop where
  reports : ∀ report ∈ r.reports,
    report.1.nTotalSent = counted (total report.2) ∧ total report.2 ≤ total r.offered
  headers : HeadersAdded r
  requeued : ∀ item, r.disc.m_requeued = some item → r.disc.m_peeked = false →
    item.m_headerAdded = true

omit [Tree σ] in
theorem total_requeued (d : QueueDisc σ) (hpeeked : d.m_peeked = false) :
    total d.requeuedItem = d.m_requeued.elim 0 amount := by
  rw [requeuedItem, hpeeked, if_neg Bool.false_ne_true]
  cases d.m_requeued <;> simp

omit [Tree σ] in
theorem getStats_right {held out all : Amount} {d : QueueDisc σ} (h : Books 0 held out all d)
    (hpeeked : d.m_peeked = false) : d.getStats.nTotalSent = counted out := by
  have hdequeued := h.dequeued
  rw [total_requeued d hpeeked, map_add] at hdequeued
  simp only [getStats, hdequeued]
  abel

omit [Tree σ] in
theorem Right.report (h : Right r) {stats : Stats} {items : List QueueDiscItem}
    (hstats : stats.nTotalSent = counted (total items)) (hle : total items ≤ total r.offered) :
    Right { r with reports := r.reports ++ [(stats, items)] } := by
  refine ⟨fun report hreport => ?_, h.headers, h.requeued⟩
  rcases mem_append.mp hreport with hreport | hreport
  · exact h.reports report hreport
  · rw [mem_singleton.mp hreport]
    exact ⟨hstats, hle⟩

include accountable

theorem step_steady (h : Steady Ok (total r.offered) (total r.handedOut) r.disc) (a : Action)
    (fits : Fitting Fits a) :
    Ensures (step r a) (fun r' => Steady Ok (total r'.offered) (total r'.handedOut) r'.disc ∧
      (Right r → Careful r a → Right r')) (Ends endless) := by
  cases a with
  | enqueue now item =>
    refine ensures_map.mpr ((enqueue_steady accountable now h fits).weaken fun o ho => ?_)
    have hoffered : total (r.offered ++ [item]) = total r.offered + amount item := by simp
    refine ⟨hoffered ▸ ho.1, fun hright _ => ⟨fun report hreport => ?_, hright.headers, ?_⟩⟩
    · obtain ⟨hsent, hle⟩ := hright.reports report hreport
      refine ⟨hsent, hle.trans ?_⟩
      rw [hoffered]
      exact le_add_of_nonneg_right (amount_nonneg item)
    · change ∀ item, o.2.m_requeued = some item → o.2.m_peeked = false → _
      rw [ho.2.1, ho.2.2]
      exact hright.requeued
  | dequeue now =>
    refine ensures_map.mpr ((dequeue_steady accountable now h).weaken fun o ho => ?_)
    refine ⟨?_, fun hright _ =>
      ⟨hright.reports, hright.headers, fun _ hi => nomatch ho.2.symm.trans hi⟩⟩
    have htotal : total (r.returned ++ o.1.toList ++ r.sent) =
        total r.handedOut + total o.1.toList := by
      rw [Ledger.handedOut, total_append, total_append, total_append]
      abel
    change Steady Ok (total r.offered) (total (r.returned ++ o.1.toList ++ r.sent)) o.2
    rw [htotal]
    exact ho.1
  | peek now =>
    refine ensures_map.mpr ((peek_steady accountable now h).weaken fun o ho => ?_)
    refine ⟨ho.1, fun hright _ => ⟨hright.reports, hright.headers, fun item hi hpeeked => ?_⟩⟩
    obtain ⟨hsame, hkept⟩ := ho.2 hpeeked
    exact hright.requeued item (hsame.symm.trans hi) hkept
  | run now answers =>
    have hstart : Steady Ok (total r.offered)
        (total r.returned + total (Device.mk r.sent answers).sent) r.disc := by
      rw [← total_append]
      exact h
    have hrun := run_steady accountable now hstart
    refine ensures_map.mpr (hrun.weaken fun o ho => ?_)
    refine ⟨?_, fun hright hcareful => ?_⟩
    · change Steady Ok (total r.offered) (total (r.returned ++ o.1.sent)) o.2
      rw [total_append]
      exact ho.1
    · have hheaded := ho.2 ⟨hright.headers, hright.requeued, hcareful⟩
      exact ⟨hright.reports, hheaded.sent, hheaded.requeued⟩
  | device queues =>
    exact ⟨⟨h.ok, h.books.congr rfl rfl rfl rfl, h.peeked⟩,
      fun hright _ => ⟨hright.reports, hright.headers, hright.requeued⟩⟩
  | getStats =>
    refine ⟨h, fun hright hcareful => hright.report (getStats_right h.books hcareful) ?_⟩
    exact h.books.out_le le_rfl (total_nonneg _)
  | childStats i =>
    rw [step]
    cases hi : (Tree.children r.disc.own)[i]? with
    | none => exact fun hendless => nomatch hendless
    | some c =>
      have hkept := accountable.children _ _ h.ok c (mem_of_getElem? hi)
      refine ⟨h, fun hright hcareful => hright.report ?_ ?_⟩
      · rw [getStats_right hkept.books hkept.peeked, hcareful c hi, total_nil, add_zero]
      · exact (le_add_of_nonneg_right (total_nonneg _)).trans
          (hkept.books.out_le le_rfl (total_nonneg _))

omit accountable in
theorem Fresh.steady {d₀ : QueueDisc σ} (fresh : Fresh d₀) (ok : Ok 0 d₀.own)
    (held : total (Tree.held d₀.own) = 0) : Steady Ok 0 0 d₀ := by
  have hpeeked : d₀.peekedItem = [] := by rw [peekedItem, fresh.peeked, if_neg Bool.false_ne_true]
  have hrequeued : d₀.requeuedItem = [] := by
    rw [requeuedItem, fresh.requeued, Option.toList_none, ite_self]
  refine ⟨ok, ⟨?_, ?_, ?_, ?_, 0, 0, le_rfl, le_rfl, ?_, ?_, ?_⟩,
    fun h => absurd (fresh.peeked.symm.trans h) Bool.false_ne_true⟩
  · rw [fresh.size, held, hpeeked, total_nil, add_zero, map_zero]
  all_goals simp [fresh.stats, held, hpeeked, hrequeued]

theorem Steady.balanced (h : Steady Ok (total r.offered) (total r.handedOut) r.disc) :
    Balanced r := by
  refine ⟨counted_of_books h.books (total_nonneg _) le_rfl, fun c hc => ?_⟩
  exact counted_of_books (accountable.children _ _ h.ok c hc).books
    (add_nonneg (total_nonneg _) (total_nonneg _)) le_rfl

theorem run_accounts {d₀ : QueueDisc σ} (fresh : Fresh d₀) (ok : Ok 0 d₀.own)
    (held : total (Tree.held d₀.own) = 0) {as : List Action} (fits : ∀ a ∈ as, Fitting Fits a) :
    Accounts d₀ as endless := by
  have hsteady :
    Steady Ok (total (start d₀).offered) (total (start d₀).handedOut) (start d₀).disc :=
    fresh.steady ok held
  have hfits : Along step (fun _ a => Fitting Fits a) (start d₀) as := along_of_mem fits
  constructor
  · have hkeep : ∀ (r : Ledger σ) a, Steady Ok (total r.offered) (total r.handedOut) r.disc →
        Fitting Fits a →
        Ensures (step r a) (fun r' => Steady Ok (total r'.offered) (total r'.handedOut) r'.disc)
          (Ends endless) :=
      fun r a h hfit => (step_steady accountable h a hfit).weaken fun r' hr' => hr'.1
    exact (ensures_exec hkeep hsteady hfits).weaken fun r h => h.balanced accountable
  · intro along
    have hright : Right (start d₀) := by
      refine ⟨fun _ h => (nomatch h), fun _ h => (nomatch h), fun item hi _ => ?_⟩
      exact nomatch fresh.requeued.symm.trans hi
    have hkeep : ∀ (r : Ledger σ) a,
        Steady Ok (total r.offered) (total r.handedOut) r.disc ∧ Right r →
        Careful r a ∧ Fitting Fits a →
        Ensures (step r a)
          (fun r' => Steady Ok (total r'.offered) (total r'.handedOut) r'.disc ∧ Right r')
            (Ends endless) :=
      fun r a h hcareful => (step_steady accountable h.1 a hcareful.2).weaken fun r' hr' =>
        ⟨hr'.1, hr'.2 h.2 hcareful.1⟩
    refine (ensures_exec hkeep ⟨hsteady, hright⟩ (along.and hfits)).weaken fun r h =>
      ⟨?_, h.2.headers⟩
    intro report hreport
    obtain ⟨hsent, hle⟩ := h.2.reports report hreport
    exact ⟨hsent, fun hfit => hsent ▸ statistics_counted (total_nonneg _) (hfit.of_le hle)⟩

end Runs

theorem accountable_coDel : Accountable CoDelQueueDisc (fun _ _ => True) (fun _ => True) False where
  enqueue _ _ item d _ _ := ⟨trivial, CoDelDisc.accepts_doEnqueue item d⟩
  dequeue _ now d _ := ⟨trivial, CoDelDisc.draws_doDequeue now d⟩
  children _ _ _ _ hc := nomatch hc

structure FreshTree (d : FqCoDelDisc) : Prop extends Fresh d where
  flows : FlowFairness.Fresh d.own.m_quantum d

/-- A quantum of zero or packets and quanta so large that deficits wrap around. -/
def Unserved (quantum : ℕ) (as : List Action) : Prop :=
  ¬(1 ≤ quantum ∧ quantum < 2 ^ 30 ∧ ∀ now item, .enqueue now item ∈ as → item.size < 2 ^ 30)

section Tree

variable {Q : ℕ} {unserved : Prop}

/-- The children keep their books, and the flows are served in turn. -/
def FlowsKept (Q : ℕ) (unserved : Prop) (all : Amount) (q : FqCoDelQueueDisc) : Prop :=
  FqCoDelDisc.ChildrenKept all q ∧ (¬unserved → FlowFairness.Fair Q (2 ^ 30 - 1) q)

theorem accountable_fqCoDel (served : ¬unserved → 1 ≤ Q ∧ Q < 2 ^ 30) :
    Accountable FqCoDelQueueDisc (FlowsKept Q unserved) (fun item => ¬unserved → item.size < 2 ^ 30)
      unserved where
  enqueue all now item d fits h := by
    have hkept := FqCoDelDisc.doEnqueue_accepts now item h.1
    refine ensures_iff.mpr ⟨fun out hout => ⟨⟨(hkept.of_ok hout).1, fun hserved => ?_⟩,
      (hkept.of_ok hout).2⟩, fun e he hendless => ?_⟩
    · have hfair := FlowFairness.doEnqueue_fair (K := fun _ => True) (served hserved).2
        (served hserved).1 now (h.2 hserved) (Nat.le_pred_of_lt (fits hserved))
      exact (hfair.of_ok hout).1
    · rcases hkept.of_error he with rfl | rfl <;> cases hendless
  dequeue all now d h := by
    have hkept := FqCoDelDisc.serve_draws now d.own.roundsServe (.refl d) h.1
    have hserve (hserved : ¬unserved) :=
      FlowFairness.serve_served (served hserved).1 (served hserved).2
      (by decide) now (h.2 hserved) le_rfl
    refine ensures_iff.mpr ⟨fun out hout => ⟨⟨(hkept.of_ok hout).1, fun hserved => ?_⟩,
      (hkept.of_ok hout).2⟩, fun e he _ => by_contra fun hserved => ?_⟩
    · obtain ⟨item, d', hrun, hfair⟩ := hserve hserved
      cases hrun.symm.trans hout
      exact hfair.fair
    · obtain ⟨item, d', hrun, -⟩ := hserve hserved
      exact nomatch hrun.symm.trans he
  children all own h := h.1.children

end Tree

theorem FreshTree.flowsKept {d : FqCoDelDisc} {unserved : Prop} (h : FreshTree d) :
    FlowsKept d.own.m_quantum unserved 0 d.own := by
  obtain ⟨maxSize, minBytes, interval, target, hfactory⟩ := h.flows.factory
  refine ⟨⟨fun c hc => ?_, ?_, ?_⟩, fun _ => h.flows.fair⟩
  · simp [Tree.children, h.flows.classes] at hc
  · rw [hfactory]
    exact ⟨⟨rfl, rfl, rfl, rfl, 0, 0, le_rfl, le_rfl, rfl, rfl, le_rfl⟩, rfl, rfl⟩
  · rw [hfactory]
    rfl

/-- The counters of a CoDel disc, and of FQ-CoDel with its children, agree with the packets they
hold in every run; reports and headers are right as well if the calls are careful. A run may end
where there is no such child or device queue, and where a batch is dropped from an empty flow. -/
theorem queue_disc_accounting (as : List Action) :
    (∀ d₀ : CoDelDisc, Fresh d₀ → d₀.own.internalQueue = [] → Accounts d₀ as False) ∧
      ∀ d₀ : FqCoDelDisc, FreshTree d₀ → Accounts d₀ as (Unserved d₀.own.m_quantum as) := by
  constructor
  · intro d₀ fresh hqueue
    refine run_accounts accountable_coDel fresh trivial ?_ fun a _ => by cases a <;> trivial
    rw [CoDelDisc.total_held, hqueue, total_nil]
  · intro d₀ fresh
    have hserved (h : ¬Unserved d₀.own.m_quantum as) := not_not.mp h
    refine run_accounts (accountable_fqCoDel fun h => ⟨(hserved h).1, (hserved h).2.1⟩)
      fresh.toFresh fresh.flowsKept ?_ fun a ha => ?_
    · simp [Tree.held, Tree.internal, Tree.children, fresh.flows.classes]
    · cases a with
      | enqueue now item => exact fun h => (hserved h).2.2 now item ha
      | _ => trivial

abbrev someItem (packet : ℕ) : QueueDiscItem := ⟨packet, 100, 0, 0, false⟩

def someCoDel : CoDelDisc :=
  ⟨0, ⟨0, 0, 0, 0, 0, 0, 0, 0⟩, ⟨.PACKETS, 10⟩, 64, some [false], false, none, false, [],
    ⟨1500, 100000000, 5000000, 0, 0, false, 0xFFFF, 0, 0, []⟩⟩

def someFqCoDel : FqCoDelDisc :=
  ⟨0, ⟨0, 0, 0, 0, 0, 0, 0, 0⟩, ⟨.PACKETS, 10⟩, 64, some [false], false, none, false, [],
    ⟨300, 2, 64, [], fun item => item.packet, freshCoDel ⟨.PACKETS, 10⟩ 1500 100000000 5000000, [],
      [], [], []⟩⟩

theorem fresh_someCoDel : Fresh someCoDel := ⟨rfl, rfl, rfl, rfl⟩

theorem freshTree_someFqCoDel (limit : QueueSize) :
    FreshTree { someFqCoDel with m_maxSize := limit } :=
  ⟨⟨rfl, rfl, rfl, rfl⟩, rfl, rfl, rfl, rfl, rfl, _, _, _, _, rfl⟩

def coDelRun : List Action := [.enqueue 0 (someItem 0), .enqueue 0 (someItem 1),
  .enqueue 0 (someItem 2), .peek 1, .dequeue 1, .run 2 [[true]], .getStats]

def fqCoDelRun : List Action := [.enqueue 0 (someItem 0), .enqueue 0 (someItem 1),
  .enqueue 0 (someItem 2), .peek 1, .device [true], .run 2 [], .dequeue 2, .device [false],
  .run 2 [[true]], .getStats, .childStats 0]

/-- Packets are peeked and dequeued, and the device stops its queue after a packet. -/
theorem queue_disc_accounting_run :
    Ensures (exec step (start someCoDel) coDelRun) (fun r => ReportsRight r ∧ HeadersAdded r)
    (Ends False) ∧
    Ensures (exec step (start someFqCoDel) fqCoDelRun) (fun r => ReportsRight r ∧ HeadersAdded r)
      (Ends (Unserved 300 fqCoDelRun)) ∧ (exec step (start someCoDel) coDelRun).isOk = true ∧
    (exec step (start someFqCoDel) fqCoDelRun).isOk = true := by
  refine ⟨((queue_disc_accounting _).1 someCoDel fresh_someCoDel rfl).right ?_,
    ((queue_disc_accounting _).2 someFqCoDel (freshTree_someFqCoDel _)).right ?_, ?_⟩
  all_goals decide +kernel

/-- A peeked packet goes to the device without a header, reports are wrong while a packet is peeked
and for a child after a batch drop, and two packets of 2 GiB are counted as no bytes. -/
theorem accounting_after_peek : Fresh someCoDel ∧
    FreshTree { someFqCoDel with m_maxSize := ⟨.PACKETS, 1⟩ } ∧
    ¬Ensures (exec step (start someCoDel) [.enqueue 0 (someItem 0), .peek 1, .run 2 []])
      (fun r => HeadersAdded r) (fun _ => True) ∧
    ¬Ensures (exec step (start someCoDel) [.enqueue 0 (someItem 0), .peek 1, .getStats])
      (fun r => ReportsRight r) (fun _ => True) ∧
    ¬Ensures (exec step (start { someFqCoDel with m_maxSize := ⟨.PACKETS, 1⟩ })
      [.enqueue 0 (someItem 0), .enqueue 0 (someItem 2), .childStats 0]) (fun r => ReportsRight r)
        (fun _ => True) ∧
    ¬Ensures (exec step (start someCoDel) [.enqueue 0 ⟨0, 2 ^ 31, 0, 0, false⟩,
      .enqueue 0 ⟨1, 2 ^ 31, 0, 0, false⟩])
      (fun r => numbers r.disc.m_size = total r.disc.own.internalQueue) (fun _ => True) := by
  refine ⟨fresh_someCoDel, freshTree_someFqCoDel _, ?_⟩
  decide +kernel

end Egsr.TrafficControl.Accounting
