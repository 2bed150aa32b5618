import Mathlib.Data.Int.Bitwise
import Mathlib.Data.Rat.Floor
import Egsr.TrafficControl.QueueDisc

/-! The token bucket filter: a child disc holds the packets, and one leaves when
there are enough tokens for it in two buckets, which are refilled when a packet
is looked at. -/

namespace Egsr.TrafficControl

/-- A subclass with its `DoPeek`. -/
class Peeks (σ : Type) extends Subclass σ where
  doPeek : ℕ → QueueDisc σ → Except Fault (Option QueueDiscItem × QueueDisc σ)

/-- `round`: to the nearest integer, and away from zero in the middle. -/
def cround (x : ℚ) : ℤ := if 0 ≤ x then ⌊x + 1 / 2⌋ else -⌊-x + 1 / 2⌋

/-- A packet that left, with the tokens it has left. -/
structure Departure where
  time : ℕ
  item : QueueDiscItem
  m_btokens : UInt32
  m_ptokens : UInt32
deriving DecidableEq

structure TbfQueueDisc (τ : Type) where
  m_burst : UInt32
  m_mtu : UInt32
  /-- In bits per second, as `m_peakRate`. -/
  m_rate : ℕ
  m_peakRate : ℕ
  /-- `CalculateBytesTxTime` of a rate, in nanoseconds; it computes with floating-point numbers. -/
  calculateBytesTxTime : ℕ → UInt32 → ℕ
  m_btokens : UInt32
  m_ptokens : UInt32
  /-- In nanoseconds. -/
  m_timeCheckPoint : ℕ
  /-- The time of the wake-up. -/
  m_id : Option ℕ
  child : QueueDisc τ
  /-- The packets that `Dequeue` of the child has returned. -/
  handedOut : List QueueDiscItem
  departures : List Departure

namespace TbfQueueDisc

variable {τ : Type} (q : TbfQueueDisc τ)

def initializeParams : TbfQueueDisc τ :=
  { q with m_btokens := q.m_burst, m_ptokens := q.m_mtu, m_timeCheckPoint := 0, m_id := none }

def uint32 (n : ℤ) : UInt32 := UInt32.ofNat (n % 0x100000000).toNat

/-- `round` gives an `int64_t`, and a double beyond it is undefined there. -/
def refill (tokens bucket : UInt32) (rate : ℕ) (delta : ℚ) : ℤ :=
  let toks : ℤ := tokens.toNat + cround (delta * (rate / 8 : ℕ))
  if bucket.toNat < toks then bucket.toNat else toks

variable (now : ℕ)

def delta : ℚ := ((now : ℚ) - q.m_timeCheckPoint) / 10 ^ 9

/-- Without a peak rate there is no second bucket. -/
def ptoks (pktSize : ℕ) : ℤ :=
  if 0 < q.m_peakRate then refill q.m_ptokens q.m_mtu q.m_peakRate (q.delta now) - pktSize else 0

def btoks (pktSize : ℕ) : ℤ := refill q.m_btokens q.m_burst q.m_rate (q.delta now) - pktSize

def charge (item : QueueDiscItem) (btoks ptoks : ℤ) : TbfQueueDisc τ :=
  { q with
    m_timeCheckPoint := now
    m_btokens := uint32 btoks
    m_ptokens := uint32 ptoks
    departures := q.departures ++ [⟨now, item, uint32 btoks, uint32 ptoks⟩] }

/-- The packet is blocked: a call of `Run` is scheduled, unless one is still to come. One that is
due now counts as past, where the source waits until it has run. -/
def watch (btoks ptoks : ℤ) : TbfQueueDisc τ :=
  if q.m_id.all (· ≤ now) then
    let requiredDelayTime :=
      max (q.calculateBytesTxTime q.m_rate (uint32 (-btoks)))
        (q.calculateBytesTxTime q.m_peakRate (uint32 (-ptoks)))
    { q with m_id := some (now + requiredDelayTime) }
  else q

end TbfQueueDisc

abbrev TbfDisc (τ : Type) : Type := QueueDisc (TbfQueueDisc τ)

namespace TbfDisc

open QueueDisc

variable {τ : Type} [Peeks τ] (now : ℕ)

def heard (events : List Event) (d : TbfDisc τ) : TbfDisc τ := events.foldl listen d

omit [Peeks τ] in
@[simp] theorem heard_own (events : List Event) (d : TbfDisc τ) : (heard events d).own = d.own := by
  induction events generalizing d with
  | nil => rfl
  | cons event events ih => exact (ih (d.listen event)).trans (listen_own d event)

def childPeek (d : TbfDisc τ) : Except Fault (Option QueueDiscItem × TbfDisc τ) :=
  let q := d.own
  (Peeks.doPeek now { q.child with fired := [] }).map fun (item, child) =>
    (item, heard child.fired { d with own := { q with child := child } })

def childDequeue (d : TbfDisc τ) : Except Fault (Option QueueDiscItem × TbfDisc τ) :=
  let q := d.own
  (dequeue now { q.child with fired := [] }).map fun (item, child) =>
    (item, heard child.fired { d with
      own := { q with child := child, handedOut := q.handedOut ++ item.toList } })

def doEnqueue (item : QueueDiscItem) (d : TbfDisc τ) : Except Fault (Bool × TbfDisc τ) :=
  let q := d.own
  (enqueue now { q.child with fired := [] } item).map fun (retval, child) =>
    (retval, heard child.fired { d with own := { q with child := child } })

def doDequeue (d : TbfDisc τ) : Except Fault (Option QueueDiscItem × TbfDisc τ) := do
  let (itemPeek, d) ← childPeek now d
  match itemPeek with
  | none => .ok (none, d)
  | some itemPeek =>
    let pktSize := itemPeek.size
    let ptoks := d.own.ptoks now pktSize
    let btoks := d.own.btoks now pktSize
    if 0 ≤ Int.lor btoks ptoks then
      let (item, d) ← childDequeue now d
      match item with
      | none => .ok (none, d)
      | some item => .ok (some item, { d with own := d.own.charge now item btoks ptoks })
    else .ok (none, { d with own := d.own.watch now btoks ptoks })

instance : Subclass (TbfQueueDisc τ) where
  doEnqueue := doEnqueue
  doDequeue := doDequeue

end TbfDisc

end Egsr.TrafficControl
