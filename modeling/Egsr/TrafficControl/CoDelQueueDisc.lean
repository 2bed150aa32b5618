import Egsr.TrafficControl.QueueDisc

/-! CoDel: a packet is dropped when it comes out of the queue if the packets
have stayed for too long during a whole interval. -/

namespace Egsr.TrafficControl

open List

abbrev CODEL_SHIFT : ℕ := 10

abbrev REC_INV_SQRT_SHIFT : ℕ := 16

structure CoDelQueueDisc where
  m_minBytes : ℕ
  /-- In nanoseconds, as `m_target`. -/
  m_interval : ℕ
  m_target : ℕ
  m_count : UInt32
  m_lastCount : UInt32
  m_dropping : Bool
  m_recInvSqrt : UInt16
  /-- Zero while the sojourn time is below the target. -/
  m_firstAboveTime : UInt32
  m_dropNext : UInt32
  /-- The packets of the drop-tail queue, whose limit is the one of the disc. -/
  internalQueue : List QueueDiscItem
deriving DecidableEq

/-- `CoDelGetTime` as well. -/
def time2CoDel (t : ℕ) : UInt32 := UInt32.ofNat (t >>> CODEL_SHIFT)

def codelTimeDiff (a b : UInt32) : ℤ :=
  if (a - b).toNat < 0x80000000 then (a - b).toNat else (a - b).toNat - 0x100000000

def codelTimeAfter (a b : UInt32) : Bool := 0 < codelTimeDiff a b

def codelTimeAfterEq (a b : UInt32) : Bool := 0 ≤ codelTimeDiff a b

def codelTimeBefore (a b : UInt32) : Bool := codelTimeDiff a b < 0

def reciprocalDivide (a r : UInt32) : UInt32 := ((a.toUInt64 * r.toUInt64) >>> 32).toUInt32

def queueBytes (items : List QueueDiscItem) : ℕ := (items.map QueueDiscItem.size).sum

namespace CoDelQueueDisc

variable (q : CoDelQueueDisc)

def newtonStep : CoDelQueueDisc :=
  let invsqrt : UInt32 := q.m_recInvSqrt.toUInt32 <<< REC_INV_SQRT_SHIFT.toUInt32
  let invsqrt2 : UInt32 := ((invsqrt.toUInt64 * invsqrt.toUInt64) >>> 32).toUInt32
  let val : UInt64 := ((3 : UInt64) <<< 32) - q.m_count.toUInt64 * invsqrt2.toUInt64
  let val := val >>> 2
  let val := (val * invsqrt.toUInt64) >>> (32 - 2 + 1)
  { q with m_recInvSqrt := (val >>> REC_INV_SQRT_SHIFT.toUInt64).toUInt16 }

def controlLaw (t : UInt32) : UInt32 :=
  t + reciprocalDivide (time2CoDel q.m_interval)
    (q.m_recInvSqrt.toUInt32 <<< REC_INV_SQRT_SHIFT.toUInt32)

def enterDropping (now : UInt32) : CoDelQueueDisc :=
  let delta : ℤ := codelTimeDiff q.m_count q.m_lastCount
  let q :=
    if 1 < delta ∧ codelTimeBefore (now - q.m_dropNext) (16 * time2CoDel q.m_interval) then
      { q with m_count := q.m_count - q.m_lastCount }.newtonStep
    else { q with m_count := 1, m_recInvSqrt := 0xFFFF }
  { q with m_dropping := true, m_lastCount := q.m_count, m_dropNext := q.controlLaw now }

theorem newtonStep_eq : ∃ r, q.newtonStep = { q with m_recInvSqrt := r } := by
  rw [newtonStep]
  exact ⟨_, rfl⟩

theorem enterDropping_internalQueue (now : UInt32) :
    (q.enterDropping now).internalQueue = q.internalQueue := by
  obtain ⟨r, hr⟩ := newtonStep_eq { q with m_count := q.m_count - q.m_lastCount }
  rw [enterDropping, hr]
  split_ifs <;> rfl

end CoDelQueueDisc

abbrev CoDelDisc : Type := QueueDisc CoDelQueueDisc

namespace CoDelDisc

open QueueDisc

variable (now : ℕ)

def full (size : UInt32 × UInt32) (limit : QueueSize) (item : QueueDiscItem) : Bool :=
  limit.exceededBy (size + queued (amount item))

/-- The second check is the one of the internal queue, which does not count a peeked packet. -/
def doEnqueue (item : QueueDiscItem) (d : CoDelDisc) : Bool × CoDelDisc :=
  if full d.m_size d.m_maxSize item then (false, d.dropBeforeEnqueue item .OVERLIMIT_DROP)
  else if full (queued (total d.own.internalQueue)) d.m_maxSize item then
    (false, d.dropBeforeEnqueue item .INTERNAL_QUEUE_DROP)
  else
    let q := d.own
    (true, { d with own := { q with internalQueue := q.internalQueue ++ [item] } }.packetEnqueued
      item)

def popped (item : QueueDiscItem) (rest : List QueueDiscItem) (d : CoDelDisc) : CoDelDisc :=
  let q := d.own
  { d with own := { q with internalQueue := rest } }.packetDequeued item

@[simp] theorem popped_internalQueue (item : QueueDiscItem) (rest : List QueueDiscItem)
    (d : CoDelDisc) : (popped item rest d).own.internalQueue = rest := by
  rw [popped, packetDequeued_own]

/-- `OkToDrop` without a packet. -/
def noItem (d : CoDelDisc) : CoDelDisc :=
  let q := d.own
  { d with own := { q with m_firstAboveTime := 0 } }

def okToDrop (item : QueueDiscItem) (d : CoDelDisc) : Bool × CoDelDisc :=
  let q := d.own
  let d := d.fire (.examined now item q.internalQueue)
  if codelTimeBefore (time2CoDel (now - item.m_tstamp)) (time2CoDel q.m_target) ∨
      queueBytes q.internalQueue < q.m_minBytes then
    (false, { d with own := { q with m_firstAboveTime := 0 } })
  else if q.m_firstAboveTime = 0 then
    (false, { d with
      own := { q with m_firstAboveTime := time2CoDel now + time2CoDel q.m_interval } })
  else (codelTimeAfter (time2CoDel now) q.m_firstAboveTime, d)

def dropCounted (item : QueueDiscItem) (d : CoDelDisc) : CoDelDisc :=
  let d := d.dropAfterDequeue now item .TARGET_EXCEEDED_DROP
  let q := d.own
  { d with own := { q with m_count := q.m_count + 1 }.newtonStep }

def keepDropping (ok : Bool) (d : CoDelDisc) : CoDelDisc :=
  let q := d.own
  if ok then { d with own := { q with m_dropNext := q.controlLaw q.m_dropNext } }
  else { d with own := { q with m_dropping := false } }

def dropWhile (item : QueueDiscItem) : List QueueDiscItem → CoDelDisc →
    Option QueueDiscItem × CoDelDisc
  | [], d =>
    if d.own.m_dropping ∧ codelTimeAfterEq (time2CoDel now) d.own.m_dropNext then
      (none, keepDropping false (noItem (dropCounted now item d)))
    else (some item, d)
  | next :: rest, d =>
    if d.own.m_dropping ∧ codelTimeAfterEq (time2CoDel now) d.own.m_dropNext then
      let out := okToDrop now next (popped next rest (dropCounted now item d))
      dropWhile next rest (keepDropping out.1 out.2)
    else (some item, d)

def nextItem (d : CoDelDisc) : Option QueueDiscItem × CoDelDisc :=
  match d.own.internalQueue with
  | [] => (none, noItem d)
  | next :: rest => (some next, (okToDrop now next (popped next rest d)).2)

def dropFirst (item : QueueDiscItem) (d : CoDelDisc) : Option QueueDiscItem × CoDelDisc :=
  let out := nextItem now (d.dropAfterDequeue now item .TARGET_EXCEEDED_DROP)
  let d := out.2
  (out.1, { d with own := d.own.enterDropping (time2CoDel now) })

def dropOrNot (item : QueueDiscItem) (okToDrop : Bool) (d : CoDelDisc) :
    Option QueueDiscItem × CoDelDisc :=
  let q := d.own
  if q.m_dropping then
    if !okToDrop then (some item, { d with own := { q with m_dropping := false } })
    else dropWhile now item q.internalQueue d
  else if okToDrop then dropFirst now item d
  else (some item, d)

def doDequeue (d : CoDelDisc) : Option QueueDiscItem × CoDelDisc :=
  let q := d.own
  match q.internalQueue with
  | [] => (none, { d with own := { q with m_dropping := false } })
  | item :: rest =>
    let out := okToDrop now item (popped item rest d)
    dropOrNot now item out.1 out.2

/-! ## What the operations leave -/

structure Takes (before : List QueueDiscItem) (item : Option QueueDiscItem)
    (after : List QueueDiscItem) : Prop where
  suffix : after <:+ before
  empty : item = none → after = []
  mem : ∀ i, item = some i → i ∈ before

theorem Takes.first (item : QueueDiscItem) (rest : List QueueDiscItem) : Takes (item :: rest)
    (some item) rest where
  suffix := suffix_cons item rest
  empty h := by cases h
  mem i hi := by
    cases hi
    exact mem_cons_self

theorem Takes.cons {before after : List QueueDiscItem} {out : Option QueueDiscItem}
    (h : Takes before out after) (item : QueueDiscItem) : Takes (item :: before) out after where
  suffix := h.suffix.trans (suffix_cons item before)
  empty := h.empty
  mem i hi := mem_cons_of_mem item (h.mem i hi)

theorem Takes.none (before : List QueueDiscItem) : Takes before Option.none [] where
  suffix := nil_suffix
  empty _ := rfl
  mem i hi := by cases hi

def Quiet (d d' : CoDelDisc) : Prop := d'.m_requeued = d.m_requeued ∧ d'.m_peeked = d.m_peeked

variable (item : QueueDiscItem) (d : CoDelDisc)

theorem Quiet.trans {d d' d'' : CoDelDisc} (h : Quiet d d') (h' : Quiet d' d'') : Quiet d d'' :=
  ⟨h'.1.trans h.1, h'.2.trans h.2⟩

theorem quiet_popped (rest : List QueueDiscItem) : Quiet d (popped item rest d) := by
  constructor
  · rw [popped, packetDequeued_m_requeued]
  · rw [popped, packetDequeued_m_peeked]

theorem quiet_okToDrop : Quiet d (okToDrop now item d).2 := by
  rw [okToDrop]
  split_ifs <;> exact ⟨rfl, rfl⟩

@[simp] theorem okToDrop_internalQueue :
    (okToDrop now item d).2.own.internalQueue = d.own.internalQueue := by
  rw [okToDrop]
  split_ifs <;> rfl

theorem quiet_dropAfterDequeue (reason : DropReason) :
    Quiet d (d.dropAfterDequeue now item reason) :=
  ⟨dropAfterDequeue_m_requeued d item reason now, dropAfterDequeue_m_peeked d item reason now⟩

theorem quiet_dropCounted : Quiet d (dropCounted now item d) :=
  quiet_dropAfterDequeue now item d .TARGET_EXCEEDED_DROP

theorem dropCounted_internalQueue :
    (dropCounted now item d).own.internalQueue = d.own.internalQueue := by
  obtain ⟨r, hr⟩ :=
    CoDelQueueDisc.newtonStep_eq { (d.dropAfterDequeue now item .TARGET_EXCEEDED_DROP).own with
    m_count := (d.dropAfterDequeue now item .TARGET_EXCEEDED_DROP).own.m_count + 1 }
  rw [dropCounted, hr, dropAfterDequeue_own]

theorem quiet_keepDropping (ok : Bool) : Quiet d (keepDropping ok d) := by
  cases ok <;> exact ⟨rfl, rfl⟩

theorem keepDropping_internalQueue (ok : Bool) :
    (keepDropping ok d).own.internalQueue = d.own.internalQueue := by
  cases ok <;> rfl

theorem keepDropping_fired (ok : Bool) : (keepDropping ok d).fired = d.fired := by
  cases ok <;> rfl

theorem keepDropping_false : (keepDropping false d).own.m_dropping = false := rfl

theorem dropWhile_takes {rest : List QueueDiscItem} (hqueue : d.own.internalQueue = rest) :
    Takes (item :: rest) (dropWhile now item rest d).1
    (dropWhile now item rest d).2.own.internalQueue ∧
      Quiet d (dropWhile now item rest d).2 := by
  induction rest generalizing item d with
  | nil =>
    rw [dropWhile]
    split_ifs
    · have hempty : (keepDropping false (noItem (dropCounted now item d))).own.internalQueue = [] :=
        (dropCounted_internalQueue now item d).trans hqueue
      rw [hempty]
      exact ⟨.none _, quiet_dropCounted now item d⟩
    · rw [hqueue]
      exact ⟨.first item [], rfl, rfl⟩
  | cons next rest ih =>
    rw [dropWhile]
    split_ifs
    · have hdropped := (quiet_dropCounted now item d).trans (quiet_popped next _ rest)
      have hexamined := hdropped.trans (quiet_okToDrop now next _)
      have hleft :
          (okToDrop now next (popped next rest (dropCounted now item d))).2.own.internalQueue =
            rest := by
        rw [okToDrop_internalQueue, popped_internalQueue]
      generalize okToDrop now next (popped next rest (dropCounted now item d)) =
        out at hexamined hleft ⊢
      obtain ⟨htakes, hquiet⟩ :=
        ih next (keepDropping out.1 out.2) ((keepDropping_internalQueue out.2 out.1).trans hleft)
      exact ⟨htakes.cons item, hexamined.trans ((quiet_keepDropping out.2 out.1).trans hquiet)⟩
    · rw [hqueue]
      exact ⟨.first item _, rfl, rfl⟩

theorem nextItem_takes : Takes d.own.internalQueue (nextItem now d).1
    (nextItem now d).2.own.internalQueue ∧ Quiet d (nextItem now d).2 := by
  rw [nextItem]
  cases hqueue : d.own.internalQueue with
  | nil =>
    have hempty : (noItem d).own.internalQueue = [] := hqueue
    rw [hempty]
    exact ⟨.none _, rfl, rfl⟩
  | cons next rest =>
    rw [okToDrop_internalQueue, popped_internalQueue]
    exact ⟨.first next rest, (quiet_popped next d rest).trans (quiet_okToDrop now next _)⟩

theorem dropFirst_takes : Takes d.own.internalQueue (dropFirst now item d).1
    (dropFirst now item d).2.own.internalQueue ∧ Quiet d (dropFirst now item d).2 := by
  obtain ⟨htakes, hquiet⟩ := nextItem_takes now (d.dropAfterDequeue now item .TARGET_EXCEEDED_DROP)
  rw [dropAfterDequeue_own] at htakes
  rw [dropFirst, CoDelQueueDisc.enterDropping_internalQueue]
  exact ⟨htakes, (quiet_dropAfterDequeue now item d _).trans hquiet⟩

theorem dropOrNot_takes (ok : Bool) :
    Takes (item :: d.own.internalQueue) (dropOrNot now item ok d).1
    (dropOrNot now item ok d).2.own.internalQueue ∧
      Quiet d (dropOrNot now item ok d).2 := by
  rw [dropOrNot]
  cases d.own.m_dropping with
  | true =>
    cases ok with
    | true => exact dropWhile_takes now item d rfl
    | false => exact ⟨.first item _, rfl, rfl⟩
  | false =>
    cases ok with
    | true =>
      obtain ⟨htakes, hquiet⟩ := dropFirst_takes now item d
      exact ⟨htakes.cons item, hquiet⟩
    | false => exact ⟨.first item _, rfl, rfl⟩

theorem doDequeue_takes : Takes d.own.internalQueue (doDequeue now d).1
    (doDequeue now d).2.own.internalQueue ∧ Quiet d (doDequeue now d).2 := by
  rw [doDequeue]
  cases hqueue : d.own.internalQueue with
  | nil => exact ⟨.none _, rfl, rfl⟩
  | cons item rest =>
    have hexamined := (quiet_popped item d rest).trans (quiet_okToDrop now item _)
    have hleft : (okToDrop now item (popped item rest d)).2.own.internalQueue = rest := by
      rw [okToDrop_internalQueue, popped_internalQueue]
    obtain ⟨htakes, hquiet⟩ := dropOrNot_takes now item (okToDrop now item (popped item rest d)).2
      (okToDrop now item (popped item rest d)).1
    rw [hleft] at htakes
    exact ⟨htakes, hexamined.trans hquiet⟩

instance : Subclass CoDelQueueDisc where
  doEnqueue _ item d := .ok (doEnqueue item d)
  doDequeue now d := .ok (doDequeue now d)

end CoDelDisc

end Egsr.TrafficControl
