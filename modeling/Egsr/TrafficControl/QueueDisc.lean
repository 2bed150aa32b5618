import Mathlib.Algebra.Group.Prod
import Mathlib.Algebra.BigOperators.Group.List.Basic
import Mathlib.Data.UInt
import Mathlib.Tactic.Abel
import Egsr.Lib.Outcome

/-! The base class of queue discs: statistics, peeked and requeued packets, and
the loop that hands packets to the device. What a disc does with a packet is up
to the subclass. -/

namespace Egsr.TrafficControl

structure QueueDiscItem where
  /-- Which packet it is. -/
  packet : ℕ
  /-- The value of `GetSize`, which counts the header before and after it is added. -/
  size : ℕ
  /-- In nanoseconds. -/
  m_tstamp : ℕ
  m_txq : ℕ
  m_headerAdded : Bool
deriving DecidableEq

namespace QueueDiscItem

def setTimeStamp (now : ℕ) (item : QueueDiscItem) : QueueDiscItem := { item with m_tstamp := now }

def addHeader (item : QueueDiscItem) : QueueDiscItem := { item with m_headerAdded := true }

end QueueDiscItem

inductive DropReason where
  | OVERLIMIT_DROP
  | TARGET_EXCEEDED_DROP
  | UNCLASSIFIED_DROP
  | INTERNAL_QUEUE_DROP
  | CHILD_QUEUE_DISC_DROP (reason : DropReason)
deriving DecidableEq

/-- What the trace sources of a disc fire, and what a CoDel disc looks at: a packet with those
behind it. -/
inductive Event where
  | enqueue (item : QueueDiscItem)
  | dequeue (item : QueueDiscItem)
  | dropBeforeEnqueue (item : QueueDiscItem) (reason : DropReason)
  | dropAfterDequeue (now : ℕ) (item : QueueDiscItem) (reason : DropReason)
  | examined (now : ℕ) (item : QueueDiscItem) (left : List QueueDiscItem)
  | batchDropped (left : List QueueDiscItem)
deriving DecidableEq

/-- Packets and bytes. -/
abbrev Amount : Type := ℤ × ℤ

/-- An amount as the counters of a disc hold it, and as its statistics do. -/
def queued : Amount →+ UInt32 × UInt32 where
  toFun n := (.ofInt n.1, .ofInt n.2)
  map_zero' := rfl
  map_add' _ _ := Prod.ext (UInt32.ofInt_add _ _) (UInt32.ofInt_add _ _)

def counted : Amount →+ UInt32 × UInt64 where
  toFun n := (.ofInt n.1, .ofInt n.2)
  map_zero' := rfl
  map_add' _ _ := Prod.ext (UInt32.ofInt_add _ _) (UInt64.ofInt_add _ _)

variable (item : QueueDiscItem)

def amount : Amount := (1, item.size)

def total (items : List QueueDiscItem) : Amount := (items.map amount).sum

@[simp] theorem total_nil : total [] = 0 := rfl

@[simp] theorem total_cons (items : List QueueDiscItem) :
    total (item :: items) = amount item + total items := by
  simp [total]

@[simp] theorem total_append (items items' : List QueueDiscItem) : total (items ++ items') =
    total items + total items' := by
  simp [total]

@[simp] theorem amount_setTimeStamp (now : ℕ) (item : QueueDiscItem) :
    amount (item.setTimeStamp now) = amount item := rfl

@[simp] theorem amount_addHeader : amount item.addHeader = amount item := rfl

structure Stats where
  nTotalReceived : UInt32 × UInt64
  nTotalEnqueued : UInt32 × UInt64
  nTotalDequeued : UInt32 × UInt64
  nTotalSent : UInt32 × UInt64
  nTotalDropped : UInt32 × UInt64
  nTotalDroppedBeforeEnqueue : UInt32 × UInt64
  nTotalDroppedAfterDequeue : UInt32 × UInt64
  nTotalRequeued : UInt32 × UInt64
deriving DecidableEq

inductive QueueSizeUnit where
  | PACKETS
  | BYTES
deriving DecidableEq

structure QueueSize where
  unit : QueueSizeUnit
  value : ℕ
deriving DecidableEq

def QueueSize.exceededBy (m : QueueSize) (n : UInt32 × UInt32) : Bool :=
  match m.unit with
  | .PACKETS => decide (m.value < n.1.toNat)
  | .BYTES => decide (m.value < n.2.toNat)

abbrev NetDeviceQueueInterface : Type := List Bool

structure QueueDisc (σ : Type) where
  /-- `m_nPackets` and `m_nBytes`. -/
  m_size : UInt32 × UInt32
  m_stats : Stats
  m_maxSize : QueueSize
  m_quota : ℕ
  m_devQueueIface : Option NetDeviceQueueInterface
  m_running : Bool
  m_requeued : Option QueueDiscItem
  m_peeked : Bool
  /-- What was fired, the oldest first. -/
  fired : List Event
  own : σ
deriving DecidableEq

inductive Fault where
  /-- A batch is dropped from an internal queue that runs out of packets. -/
  | nullPointer
  | noClass
  | txQueueIndex
  | endless
deriving DecidableEq

/-- `DoEnqueue` and `DoDequeue` of a subclass, at the time that is given. -/
class Subclass (σ : Type) where
  doEnqueue : ℕ → QueueDiscItem → QueueDisc σ → Except Fault (Bool × QueueDisc σ)
  doDequeue : ℕ → QueueDisc σ → Except Fault (Option QueueDiscItem × QueueDisc σ)

namespace QueueDisc

variable {σ : Type}

section Counters

variable (d : QueueDisc σ) (event : Event)

def fire : QueueDisc σ := { d with fired := d.fired ++ [event] }

def packetEnqueued (item : QueueDiscItem) : QueueDisc σ :=
  let stats := d.m_stats
  fire { d with
    m_size := d.m_size + queued (amount item)
    m_stats := { stats with
      nTotalEnqueued := stats.nTotalEnqueued + counted (amount item) } } (.enqueue item)

/-- A peeked packet is still held. -/
def packetDequeued (item : QueueDiscItem) : QueueDisc σ :=
  let stats := d.m_stats
  if d.m_peeked then d
  else fire { d with
    m_size := d.m_size - queued (amount item)
    m_stats := { stats with
      nTotalDequeued := stats.nTotalDequeued + counted (amount item) } } (.dequeue item)

def dropBeforeEnqueue (item : QueueDiscItem) (reason : DropReason) : QueueDisc σ :=
  let stats := d.m_stats
  fire { d with
    m_stats := { stats with
      nTotalDropped := stats.nTotalDropped + counted (amount item)
      nTotalDroppedBeforeEnqueue := stats.nTotalDroppedBeforeEnqueue + counted (amount item) } }
    (.dropBeforeEnqueue item reason)

/-- In a peek `PacketDequeued` is made up for, with the flag down for as long. -/
def dropAfterDequeue (now : ℕ) (item : QueueDiscItem) (reason : DropReason) : QueueDisc σ :=
  let stats := d.m_stats
  let d := { d with
    m_stats := { stats with
      nTotalDropped := stats.nTotalDropped + counted (amount item)
      nTotalDroppedAfterDequeue := stats.nTotalDroppedAfterDequeue + counted (amount item) } }
  let d := if d.m_peeked then { ({ d with m_peeked := false }).packetDequeued item with
    m_peeked := true } else d
  d.fire (.dropAfterDequeue now item reason)

def listen : QueueDisc σ :=
  match event with
  | .enqueue item => d.packetEnqueued item
  | .dequeue item => d.packetDequeued item
  | .dropBeforeEnqueue item reason => d.dropBeforeEnqueue item (.CHILD_QUEUE_DISC_DROP reason)
  | .dropAfterDequeue now item reason => d.dropAfterDequeue now item (.CHILD_QUEUE_DISC_DROP reason)
  | .examined .. => d
  | .batchDropped _ => d

def getStats : Stats :=
  let stats := d.m_stats
  { stats with
    nTotalSent := stats.nTotalDequeued - counted (d.m_requeued.elim 0 amount) -
      stats.nTotalDroppedAfterDequeue }

@[simp] theorem fire_own : (d.fire event).own = d.own := rfl

@[simp] theorem fire_m_requeued : (d.fire event).m_requeued = d.m_requeued := rfl

@[simp] theorem fire_m_peeked : (d.fire event).m_peeked = d.m_peeked := rfl

@[simp] theorem fire_fired : (d.fire event).fired = d.fired ++ [event] := rfl

variable (item : QueueDiscItem) (reason : DropReason) (now : ℕ)

@[simp] theorem packetEnqueued_own : (d.packetEnqueued item).own = d.own := rfl

@[simp] theorem packetEnqueued_m_requeued : (d.packetEnqueued item).m_requeued = d.m_requeued := rfl

@[simp] theorem packetEnqueued_m_peeked : (d.packetEnqueued item).m_peeked = d.m_peeked := rfl

@[simp] theorem packetEnqueued_fired : (d.packetEnqueued item).fired = d.fired ++ [.enqueue item] :=
  rfl

@[simp] theorem packetDequeued_own : (d.packetDequeued item).own = d.own := by
  rw [packetDequeued]
  split <;> rfl

@[simp] theorem packetDequeued_m_requeued : (d.packetDequeued item).m_requeued = d.m_requeued := by
  rw [packetDequeued]
  split <;> rfl

@[simp] theorem packetDequeued_m_peeked : (d.packetDequeued item).m_peeked = d.m_peeked := by
  rw [packetDequeued]
  split <;> rfl

theorem packetDequeued_fired (taken : d.m_peeked = false) :
    (d.packetDequeued item).fired = d.fired ++ [.dequeue item] := by
  rw [packetDequeued, if_neg (by simp [taken])]
  rfl

@[simp] theorem dropBeforeEnqueue_own : (d.dropBeforeEnqueue item reason).own = d.own := rfl

@[simp] theorem dropBeforeEnqueue_m_requeued :
    (d.dropBeforeEnqueue item reason).m_requeued = d.m_requeued := rfl

@[simp] theorem dropBeforeEnqueue_m_peeked :
    (d.dropBeforeEnqueue item reason).m_peeked = d.m_peeked := rfl

@[simp] theorem dropAfterDequeue_own : (d.dropAfterDequeue now item reason).own = d.own := by
  rw [dropAfterDequeue]
  split <;> simp

@[simp] theorem dropAfterDequeue_m_requeued :
    (d.dropAfterDequeue now item reason).m_requeued = d.m_requeued := by
  rw [dropAfterDequeue]
  split <;> simp

@[simp] theorem dropAfterDequeue_m_peeked :
    (d.dropAfterDequeue now item reason).m_peeked = d.m_peeked := by
  cases hpeeked : d.m_peeked <;> simp [dropAfterDequeue, hpeeked]

theorem dropAfterDequeue_fired (taken : d.m_peeked = false) :
    (d.dropAfterDequeue now item reason).fired = d.fired ++
    [.dropAfterDequeue now item reason] := by
  simp [dropAfterDequeue, taken]

@[simp] theorem listen_own : (d.listen event).own = d.own := by
  cases event <;> simp [listen]

end Counters

section Calls

variable [Subclass σ] (now : ℕ) (d : QueueDisc σ) (item : QueueDiscItem)

/-- The time stamp of a packet that is accepted is set on the packet itself, wherever it is by then;
nothing looks at it before. -/
def enqueue : Except Fault (Bool × QueueDisc σ) :=
  let stats := d.m_stats
  let d := { d with
    m_stats := { stats with nTotalReceived := stats.nTotalReceived + counted (amount item) } }
  Subclass.doEnqueue now (item.setTimeStamp now) d

def dequeue : Except Fault (Option QueueDiscItem × QueueDisc σ) :=
  match d.m_requeued with
  | some item =>
    let d := { d with m_requeued := none }
    if d.m_peeked then
      let d := { d with m_peeked := false }
      .ok (some item, d.packetDequeued item)
    else .ok (some item, d)
  | none => Subclass.doDequeue now d

def peek : Except Fault (Option QueueDiscItem × QueueDisc σ) :=
  match d.m_requeued with
  | some item => .ok (some item, d)
  | none =>
    (dequeue now { d with m_peeked := true }).map fun (item, d) =>
      (item, { d with m_requeued := item, m_peeked := item.isSome && d.m_peeked })

/-- Whether the device queue is stopped; never without a device interface. -/
def isStopped (index : ℕ) : Except Fault Bool :=
  match d.m_devQueueIface with
  | none => .ok false
  | some queues =>
    match queues[index]? with
    | some stopped => .ok stopped
    | none => .error .txQueueIndex

def dequeuePacket : Except Fault (Option QueueDiscItem × QueueDisc σ) :=
  match d.m_requeued with
  | some item => do
    let stopped ← d.isStopped item.m_txq
    if stopped then .ok (none, d)
    else
      let d := { d with m_requeued := none }
      if d.m_peeked then
        let d := { d with m_peeked := false }
        .ok (some item, d.packetDequeued item)
      else .ok (some item, d)
  | none => do
    let stopped ← (if d.m_devQueueIface.elim 0 List.length > 1 then .ok false else d.isStopped 0)
    if stopped then .ok (none, d)
    else
      let (item, d) ← d.dequeue now
      .ok (item.map QueueDiscItem.addHeader, d)

def requeue : QueueDisc σ :=
  let stats := d.m_stats
  { d with
    m_requeued := some item
    m_stats := { stats with nTotalRequeued := stats.nTotalRequeued + counted (amount item) } }

structure Device where
  sent : List QueueDiscItem
  answers : List NetDeviceQueueInterface
deriving DecidableEq

variable (device : Device)

/-- The send callback, in which the device may stop and start its queues. -/
def send : Device × QueueDisc σ :=
  match device.answers with
  | queues :: answers =>
    (⟨device.sent ++ [item], answers⟩,
      { d with m_devQueueIface := d.m_devQueueIface.map fun _ => queues })
  | [] => (⟨device.sent ++ [item], []⟩, d)

def transmit : Except Fault (Bool × Device × QueueDisc σ) := do
  let stopped ← d.isStopped item.m_txq
  if stopped then .ok (false, device, d.requeue item)
  else
    let (device, d) := d.send item device
    if d.m_size.1 = 0 then .ok (false, device, d)
    else
      let stopped ← d.isStopped item.m_txq
      .ok (!stopped, device, d)

def restart : Except Fault (Bool × Device × QueueDisc σ) := do
  let (item, d) ← d.dequeuePacket now
  match item with
  | none => .ok (false, device, d)
  | some item => d.transmit item device

def restarts : ℕ → Device → QueueDisc σ → Except Fault (Device × QueueDisc σ)
  | 0, device, d => .ok (device, d)
  | quota + 1, device, d => do
    let (more, device, d) ← d.restart now device
    if more then restarts quota device d else .ok (device, d)

/-- A quota of zero wraps around. -/
def run : Except Fault (Device × QueueDisc σ) :=
  if d.m_running then .ok (device, d)
  else
    (restarts now (if d.m_quota = 0 then 2 ^ 32
      else d.m_quota) device { d with m_running := true }).map
      fun (device, d) => (device, { d with m_running := false })

end Calls

end QueueDisc

end Egsr.TrafficControl
