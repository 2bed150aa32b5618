import Egsr.TrafficControl.CoDelQueueDisc
import Egsr.TrafficControl.TbfQueueDisc

/-! Cobalt: CoDel and Blue decide together whether a packet is dropped when it
comes out of the queue. A peek looks at the packet before that. -/

namespace Egsr.TrafficControl

abbrev REC_INV_SQRT_CACHE : ℕ := 16

structure CobaltQueueDisc where
  /-- In nanoseconds, as `m_target`. -/
  m_interval : ℕ
  m_target : ℕ
  m_useEcn : Bool
  /-- Whether `Mark` of a packet marks it. -/
  mark : QueueDiscItem → Bool
  m_increment : ℚ
  m_decrement : ℚ
  m_Pdrop : ℚ
  /-- The random numbers to come. -/
  m_uv : List ℚ
  m_count : UInt32
  m_dropNext : ℤ
  m_dropping : Bool
  m_recInvSqrt : UInt32
  m_recInvSqrtCache : List UInt32
  m_lastUpdateTimeBlue : UInt32
  /-- The packets of the drop-tail queue, whose limit is the one of the disc. -/
  internalQueue : List QueueDiscItem

namespace CobaltQueueDisc

variable (q : CobaltQueueDisc)

def newtonStep : CobaltQueueDisc :=
  let invsqrt : UInt64 := q.m_recInvSqrt.toUInt64
  let invsqrt2 : UInt32 := ((invsqrt * invsqrt) >>> 32).toUInt32
  let val : UInt64 := ((3 : UInt64) <<< 32) - q.m_count.toUInt64 * invsqrt2.toUInt64
  let val := val >>> 2
  let val := (val * invsqrt) >>> (32 - 2 + 1)
  { q with m_recInvSqrt := val.toUInt32 }

def cacheInit : CobaltQueueDisc :=
  (List.range' 1 (REC_INV_SQRT_CACHE - 1)).foldl (fun q count =>
      let q := { q with m_count := .ofNat count }.newtonStep.newtonStep.newtonStep.newtonStep
      { q with m_recInvSqrtCache := q.m_recInvSqrtCache.set count q.m_recInvSqrt })
    { q with m_recInvSqrt := 0xFFFFFFFF, m_recInvSqrtCache := q.m_recInvSqrtCache.set 0 0xFFFFFFFF }

def initializeParams : CobaltQueueDisc :=
  { q.cacheInit with
    m_count := 0, m_dropping := false, m_recInvSqrt := 0xFFFFFFFF
    m_lastUpdateTimeBlue := 0, m_dropNext := 0 }

def invSqrt : CobaltQueueDisc :=
  if q.m_count.toNat <
    REC_INV_SQRT_CACHE then { q with m_recInvSqrt := q.m_recInvSqrtCache.getD q.m_count.toNat 0 }
  else q.newtonStep

def controlLaw (t : ℤ) : ℤ := t + (reciprocalDivide (.ofNat q.m_interval) q.m_recInvSqrt).toNat

def cobaltQueueFull (now : ℕ) : CobaltQueueDisc :=
  let q :=
    if (q.m_target : ℤ) < now - q.m_lastUpdateTimeBlue.toNat then
      { q with m_Pdrop := min (q.m_Pdrop + q.m_increment) 1, m_lastUpdateTimeBlue := .ofNat now }
    else q
  { q with
    m_dropping := true, m_dropNext := now, m_count := if q.m_count = 0 then 1 else q.m_count }

def cobaltQueueEmpty (now : ℕ) : CobaltQueueDisc :=
  let q :=
    if q.m_Pdrop ≠ 0 ∧ (q.m_target : ℤ) < now - q.m_lastUpdateTimeBlue.toNat then
      { q with m_Pdrop := max (q.m_Pdrop - q.m_decrement) 0, m_lastUpdateTimeBlue := .ofNat now }
    else q
  let q := { q with m_dropping := false }
  if q.m_count ≠ 0 ∧ 0 ≤ (now : ℤ) - q.m_dropNext then
    let q := { q with m_count := q.m_count - 1 }.invSqrt
    { q with m_dropNext := q.controlLaw q.m_dropNext }
  else q

/-- The loop of `CobaltShouldDrop`, in which the count goes down, with the value of `schedule`. -/
def catchUp (now : ℕ) : ℕ → Bool → ℤ → CobaltQueueDisc → ℤ × CobaltQueueDisc
  | rounds + 1, true, _, q =>
    let q := { q with m_count := q.m_count - 1 }.invSqrt
    let q := { q with m_dropNext := q.controlLaw q.m_dropNext }
    let schedule : ℤ := now - q.m_dropNext
    catchUp now rounds (q.m_count ≠ 0 ∧ 0 ≤ schedule) schedule q
  | _, _, schedule, q => (schedule, q)

/-- The drop state that the sojourn time of a packet leads to. -/
def enterOrLeave (now : ℕ) (over_target : Bool) : CobaltQueueDisc :=
  if over_target then
    let q := if !q.m_dropping then { q with m_dropping := true, m_dropNext := q.controlLaw now }
      else q
    if q.m_count = 0 then { q with m_count := 1 } else q
  else { q with m_dropping := false }

def cobaltShouldDrop (now : ℕ) (item : QueueDiscItem) : Bool × CobaltQueueDisc :=
  let sojournTime : ℤ := now - item.m_tstamp
  let schedule : ℤ := now - q.m_dropNext
  let next_due : Bool := q.m_count ≠ 0 ∧ 0 ≤ schedule
  let q := q.enterOrLeave now (q.m_target < sojournTime)
  let (drop, schedule, q) :=
    if next_due ∧ q.m_dropping then
      let drop := !(q.m_useEcn && q.mark item)
      let q := { q with m_count := max q.m_count (q.m_count + 1) }.invSqrt
      let q := { q with m_dropNext := q.controlLaw q.m_dropNext }
      (drop, (now : ℤ) - q.m_dropNext, q)
    else (false, catchUp now q.m_count.toNat next_due schedule q)
  let (drop, q) :=
    if q.m_Pdrop ≠ 0 then (drop || q.m_uv.headD 0 < q.m_Pdrop, { q with m_uv := q.m_uv.tail })
      else (drop, q)
  let q :=
    if q.m_count = 0 then { q with m_dropNext := now + q.m_interval }
    else if 0 < schedule ∧ !drop then { q with m_dropNext := now }
    else q
  (drop, q)

end CobaltQueueDisc

/-- CoDel has the `DoPeek` of the base class. -/
instance : Peeks CoDelQueueDisc where
  doPeek := QueueDisc.peek

abbrev CobaltDisc : Type := QueueDisc CobaltQueueDisc

namespace CobaltDisc

open QueueDisc CoDelDisc

variable (now : ℕ)

/-- The second check is the one of the internal queue, which does not count a peeked packet. -/
def doEnqueue (item : QueueDiscItem) (d : CobaltDisc) : Bool × CobaltDisc :=
  let q := d.own
  if full d.m_size d.m_maxSize item then
    (false, { d with own := q.cobaltQueueFull now }.dropBeforeEnqueue item .OVERLIMIT_DROP)
  else if full (queued (total q.internalQueue)) d.m_maxSize item then
    (false, d.dropBeforeEnqueue item .INTERNAL_QUEUE_DROP)
  else (true, { d with own := { q with internalQueue := q.internalQueue ++ [item] } }.packetEnqueued
    item)

def dequeueLoop : List QueueDiscItem → CobaltDisc → Option QueueDiscItem × CobaltDisc
  | [], d =>
    let q := d.own
    (none, { d with own := { q with m_dropping := false }.cobaltQueueEmpty now })
  | item :: rest, d =>
    let q := d.own
    let d := { d with own := { q with internalQueue := rest } }.packetDequeued item
    let (drop, q) := d.own.cobaltShouldDrop now item
    let d := { d with own := q }
    if drop then dequeueLoop rest (d.dropAfterDequeue now item .TARGET_EXCEEDED_DROP)
      else (some item, d)

def doDequeue (d : CobaltDisc) : Option QueueDiscItem × CobaltDisc :=
  dequeueLoop now d.own.internalQueue d

def doPeek (d : CobaltDisc) : Option QueueDiscItem × CobaltDisc := (d.own.internalQueue.head?, d)

instance : Peeks CobaltQueueDisc where
  doEnqueue now item d := .ok (doEnqueue now item d)
  doDequeue now d := .ok (doDequeue now d)
  doPeek _ d := .ok (doPeek d)

end CobaltDisc

end Egsr.TrafficControl
