import Egsr.TrafficControl.QueueDisc

/-! Calls of a disc at times that do not go back, and what holds of the part of
the subclass after them: only its own functions change that part. -/

namespace Egsr.TrafficControl

open Lib.Outcome Lib.Run QueueDisc

inductive Call where
  | enqueue (item : QueueDiscItem)
  | dequeue
  | peek
  /-- With what the device queues become in each call of the send callback. -/
  | run (answers : List NetDeviceQueueInterface)
  /-- The device stops and starts its queues. -/
  | device (queues : NetDeviceQueueInterface)
deriving DecidableEq

structure Timed (σ : Type) where
  clock : ℕ
  disc : QueueDisc σ

namespace Timed

variable {σ : Type} [Subclass σ]

def step (s : Timed σ) (a : ℕ × Call) : Except Fault (Timed σ) :=
  match a.2 with
  | .enqueue item => (s.disc.enqueue a.1 item).map fun out => ⟨a.1, out.2⟩
  | .dequeue => (s.disc.dequeue a.1).map fun out => ⟨a.1, out.2⟩
  | .peek => (s.disc.peek a.1).map fun out => ⟨a.1, out.2⟩
  | .run answers => (s.disc.run a.1 ⟨[], answers⟩).map fun out => ⟨a.1, out.2⟩
  | .device queues =>
    let d := s.disc
    .ok ⟨a.1, { d with m_devQueueIface := d.m_devQueueIface.map fun _ => queues }⟩

def Timely (s : Timed σ) (a : ℕ × Call) : Prop := s.clock ≤ a.1
deriving Decidable

end Timed

def EnqueueKeeps {σ : Type} [Subclass σ] (now : ℕ) (P : σ → Prop) : Prop :=
  ∀ (item : QueueDiscItem) (d : QueueDisc σ), P d.own →
    Ensures (Subclass.doEnqueue now item d) (fun out => P out.2.own) fun _ => True

def DequeueKeeps {σ : Type} [Subclass σ] (now : ℕ) (P : σ → Prop) : Prop :=
  ∀ d : QueueDisc σ, P d.own → Ensures (Subclass.doDequeue now d) (fun out => P out.2.own) fun _ =>
    True

section Calls

variable {σ : Type} [Subclass σ] {now : ℕ} {P : σ → Prop} {d : QueueDisc σ}

theorem EnqueueKeeps.enqueue (keeps : EnqueueKeeps now P) (h : P d.own) (item : QueueDiscItem) :
    Ensures (d.enqueue now item) (fun out => P out.2.own) fun _ => True := keeps _ _ h

variable (keeps : DequeueKeeps now P)
include keeps

theorem DequeueKeeps.dequeue (h : P d.own) : Ensures (d.dequeue now)
    (fun out => P out.2.own) fun _ => True := by
  rw [QueueDisc.dequeue]
  cases d.m_requeued with
  | some item =>
    dsimp only
    split_ifs
    · rw [ensures_ok, packetDequeued_own]
      exact h
    · exact h
  | none => exact keeps d h

theorem DequeueKeeps.peek (h : P d.own) : Ensures (d.peek now) (fun out => P out.2.own) fun _ =>
      True := by
  rw [QueueDisc.peek]
  cases d.m_requeued with
  | some item => exact h
  | none => exact ensures_map.mpr (keeps.dequeue h)

theorem DequeueKeeps.dequeuePacket (h : P d.own) :
    Ensures (d.dequeuePacket now) (fun out => P out.2.own) fun _ => True := by
  rw [QueueDisc.dequeuePacket]
  cases d.m_requeued with
  | some item =>
    refine (ensures_trivial _).bind fun stopped _ => Ensures.ite (fun _ => h) fun _ => ?_
    dsimp only
    split_ifs
    · rw [ensures_ok, packetDequeued_own]
      exact h
    · exact h
  | none =>
    exact (ensures_trivial _).bind fun stopped _ => Ensures.ite (fun _ => h) fun _ =>
      (keeps.dequeue h).bind fun _ ho => ho

omit keeps [Subclass σ] in
theorem transmit_own (h : P d.own) (item : QueueDiscItem) (device : Device) :
    Ensures (d.transmit item device) (fun out => P out.2.2.own) fun _ => True := by
  have hsent : (d.send item device).2.own = d.own := by
    rw [send]
    split <;> rfl
  rw [transmit]
  refine (ensures_trivial _).bind fun stopped _ => Ensures.ite (fun _ => h) fun _ => ?_
  rw [← hsent] at h
  generalize d.send item device = o at h ⊢
  exact Ensures.ite (fun _ => h) fun _ => (ensures_trivial _).bind fun _ _ => h

theorem DequeueKeeps.restart (h : P d.own) (device : Device) :
    Ensures (d.restart now device) (fun out => P out.2.2.own) fun _ => True := by
  refine (keeps.dequeuePacket h).bind fun o ho => ?_
  obtain ⟨item, d'⟩ := o
  cases item with
  | none => exact ho
  | some item => exact transmit_own ho item device

theorem DequeueKeeps.restarts (quota : ℕ) (h : P d.own) (device : Device) :
    Ensures (QueueDisc.restarts now quota device d) (fun out => P out.2.own) fun _ => True := by
  induction quota generalizing d device with
  | zero => exact h
  | succ quota ih =>
    refine (keeps.restart h device).bind fun o ho => ?_
    exact Ensures.ite (fun _ => ih ho _) fun _ => ho

theorem DequeueKeeps.run (h : P d.own) (device : Device) :
    Ensures (d.run now device) (fun out => P out.2.own) fun _ => True := by
  rw [QueueDisc.run]
  have hrunning : P { d with m_running := true }.own := h
  exact Ensures.ite (fun _ => h) fun _ => ensures_map.mpr (keeps.restarts _ hrunning device)

end Calls

theorem Timed.step_keeps {σ : Type} [Subclass σ] {now : ℕ} {P : σ → Prop} {s : Timed σ}
    (h : P s.disc.own) {call : Call} (enqueue : ∀ item, call = .enqueue item → EnqueueKeeps now P)
    (dequeue : (∀ item, call ≠ .enqueue item) → DequeueKeeps now P) :
    Ensures (s.step (now, call)) (fun s' => P s'.disc.own ∧ s'.clock = now) fun _ => True := by
  cases call with
  | enqueue item =>
    exact ensures_map.mpr (((enqueue item rfl).enqueue h item).weaken fun _ ho => ⟨ho, rfl⟩)
  | dequeue => exact ensures_map.mpr (((dequeue nofun).dequeue h).weaken fun _ ho => ⟨ho, rfl⟩)
  | peek => exact ensures_map.mpr (((dequeue nofun).peek h).weaken fun _ ho => ⟨ho, rfl⟩)
  | run answers =>
    exact ensures_map.mpr (((dequeue nofun).run h ⟨[], answers⟩).weaken fun _ ho => ⟨ho, rfl⟩)
  | device queues => exact ⟨h, rfl⟩

/-! ## Discs that do the same -/

def QueueDisc.mapOwn {σ τ : Type} (f : σ → τ) (d : QueueDisc σ) : QueueDisc τ :=
  ⟨d.m_size, d.m_stats, d.m_maxSize, d.m_quota, d.m_devQueueIface, d.m_running, d.m_requeued,
    d.m_peeked, d.fired, f d.own⟩

theorem QueueDisc.mapOwn_requeued {σ τ : Type} {f : σ → τ} (d : QueueDisc σ) :
    (d.mapOwn f).m_requeued = d.m_requeued :=
  rfl

structure Maps {σ τ : Type} [Subclass σ] [Subclass τ] (f : σ → τ) : Prop where
  doEnqueue : ∀ now item (d : QueueDisc σ),
    Subclass.doEnqueue now item (d.mapOwn f) = (Subclass.doEnqueue now item d).map fun out =>
      (out.1, out.2.mapOwn f)
  doDequeue : ∀ now (d : QueueDisc σ),
    Subclass.doDequeue now (d.mapOwn f) = (Subclass.doDequeue now d).map fun out =>
      (out.1, out.2.mapOwn f)

def Timed.map {σ τ : Type} (f : σ → τ) (s : Timed σ) : Timed τ := ⟨s.clock, s.disc.mapOwn f⟩

section Maps

variable {σ τ : Type} {f : σ → τ} (now : ℕ) (d : QueueDisc σ) (item : QueueDiscItem)

theorem packetDequeued_map : (d.mapOwn f).packetDequeued item =
    (d.packetDequeued item).mapOwn f := by
  cases hpeeked : d.m_peeked <;> simp [packetDequeued, mapOwn, hpeeked, fire]

theorem isStopped_map (index : ℕ) : (d.mapOwn f).isStopped index = d.isStopped index := rfl

variable (device : Device)

theorem send_map :
    (d.mapOwn f).send item device = ((d.send item device).1, (d.send item device).2.mapOwn f) := by
  rw [send, send]
  split <;> rfl

theorem transmit_map :
    (d.mapOwn f).transmit item device = (d.transmit item device).map fun out =>
    (out.1, out.2.1, out.2.2.mapOwn f) := by
  rw [transmit, transmit, isStopped_map, send_map]
  refine bind_map_congr fun stopped => ?_
  split
  · rfl
  · generalize d.send item device = sent
    refine ite_map rfl ?_
    exact bind_map_congr fun _ => rfl

variable [Subclass σ] [Subclass τ] (maps : Maps f)
include maps

theorem Maps.dequeue : (d.mapOwn f).dequeue now = (d.dequeue now).map fun out =>
      (out.1, out.2.mapOwn f) := by
  rw [QueueDisc.dequeue, QueueDisc.dequeue]
  rw [d.mapOwn_requeued]
  cases d.m_requeued with
  | some item =>
    exact ite_map
      (congrArg Except.ok
        (Prod.ext rfl (packetDequeued_map { d with m_requeued := none, m_peeked := false } item)))
          rfl
  | none => exact maps.doDequeue now d

theorem Maps.peek : (d.mapOwn f).peek now = (d.peek now).map fun out =>
      (out.1, out.2.mapOwn f) := by
  have hpeeked : ({ d.mapOwn f with m_peeked := true } : QueueDisc τ).dequeue now = _ :=
    maps.dequeue now { d with m_peeked := true }
  rw [QueueDisc.peek, QueueDisc.peek, hpeeked]
  rw [d.mapOwn_requeued]
  cases d.m_requeued with
  | some item => rfl
  | none => exact map_map fun _ => rfl

theorem Maps.dequeuePacket :
    (d.mapOwn f).dequeuePacket now = (d.dequeuePacket now).map fun out =>
    (out.1, out.2.mapOwn f) := by
  rw [QueueDisc.dequeuePacket, QueueDisc.dequeuePacket]
  rw [d.mapOwn_requeued]
  cases d.m_requeued with
  | some item =>
    refine bind_map_congr fun stopped => ite_map rfl ?_
    exact ite_map
      (congrArg Except.ok
        (Prod.ext rfl (packetDequeued_map { d with m_requeued := none, m_peeked := false } item)))
          rfl
  | none =>
    refine bind_map_congr fun stopped => ite_map rfl ?_
    rw [maps.dequeue]
    exact map_bind_map fun _ => rfl

theorem Maps.restart :
    (d.mapOwn f).restart now device = (d.restart now device).map fun out =>
    (out.1, out.2.1, out.2.2.mapOwn f) := by
  rw [QueueDisc.restart, QueueDisc.restart, maps.dequeuePacket]
  refine map_bind_map fun out => ?_
  obtain ⟨item, d⟩ := out
  cases item with
  | none => rfl
  | some item => exact transmit_map d item device

theorem Maps.restarts (quota : ℕ) (device : Device) : QueueDisc.restarts now quota device
    (d.mapOwn f) =
    (QueueDisc.restarts now quota device d).map fun out => (out.1, out.2.mapOwn f) := by
  induction quota generalizing d device with
  | zero => rfl
  | succ quota ih =>
    rw [QueueDisc.restarts, QueueDisc.restarts, maps.restart]
    exact map_bind_map fun out => ite_map (ih out.2.2 out.2.1) rfl

theorem Maps.run :
    (d.mapOwn f).run now device = (d.run now device).map fun out => (out.1, out.2.mapOwn f) := by
  have hrestarts : QueueDisc.restarts now (if d.m_quota = 0 then 2 ^ 32 else d.m_quota) device
      { d.mapOwn f with m_running := true } = _ :=
        maps.restarts now { d with m_running := true } _ device
  rw [QueueDisc.run, QueueDisc.run]
  refine ite_map rfl ?_
  change Except.map _ (QueueDisc.restarts now (if d.m_quota = 0 then 2 ^ 32 else d.m_quota) device
    { d.mapOwn f with m_running := true }) = _
  rw [hrestarts]
  exact map_map fun _ => rfl

theorem Maps.enqueue :
    (d.mapOwn f).enqueue now item = (d.enqueue now item).map fun out =>
    (out.1, out.2.mapOwn f) := by
  rw [QueueDisc.enqueue, QueueDisc.enqueue]
  exact maps.doEnqueue now _ { d with
    m_stats := { d.m_stats with nTotalReceived := d.m_stats.nTotalReceived + counted (amount item) }
      }

theorem Maps.step (s : Timed σ) (a : ℕ × Call) : (s.map f).step a =
    (s.step a).map fun s => s.map f := by
  obtain ⟨now, call⟩ := a
  cases call with
  | enqueue item =>
    change Except.map _ ((s.disc.mapOwn f).enqueue now item) = _
    rw [maps.enqueue]
    exact map_map fun _ => rfl
  | dequeue =>
    change Except.map _ ((s.disc.mapOwn f).dequeue now) = _
    rw [maps.dequeue]
    exact map_map fun _ => rfl
  | peek =>
    change Except.map _ ((s.disc.mapOwn f).peek now) = _
    rw [maps.peek]
    exact map_map fun _ => rfl
  | run answers =>
    change Except.map _ ((s.disc.mapOwn f).run now ⟨[], answers⟩) = _
    rw [maps.run]
    exact map_map fun _ => rfl
  | device queues => rfl

theorem Maps.exec (s : Timed σ) (as : List (ℕ × Call)) :
    exec Timed.step (s.map f) as = (exec Timed.step s as).map fun s => s.map f :=
  exec_map maps.step s as

end Maps

end Egsr.TrafficControl
