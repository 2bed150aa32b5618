import Mathlib.Algebra.Order.Group.Int

/-! The queue of packets that wait for a route. Callbacks are recorded in the
order in which they are called. Times are in nanoseconds. -/

namespace Egsr.Aodv

abbrev Ipv4Address := UInt32

def unsetAddress : Ipv4Address := 0x66666666

structure Ipv4Header where
  m_source : Ipv4Address
  m_destination : Ipv4Address
  m_ttl : UInt8
deriving DecidableEq

structure Packet where
  uid : UInt64
  /-- The interface in its `DeferredRouteOutputTag`, if it has one. -/
  tag : Option ℤ
deriving DecidableEq

/-- An output device is known by its interface number. -/
structure Ipv4Route where
  destination : Ipv4Address
  gateway : Ipv4Address
  source : Ipv4Address
  outputDevice : Option ℕ
deriving DecidableEq

def getInterfaceForDevice : Option ℕ → ℤ
  | none => -1
  | some number => number

structure QueueEntry where
  m_packet : Packet
  m_header : Ipv4Header
  m_ucb : ℕ
  m_ecb : ℕ
  m_expire : ℤ
deriving DecidableEq

inductive SocketErrno where
  /-- `ERROR_NOROUTETOHOST`. -/
  | noRouteToHost
deriving DecidableEq

inductive Call where
  | unicastForward (entry : QueueEntry) (route : Ipv4Route) (p : Packet) (header : Ipv4Header)
  | error (entry : QueueEntry) (errno : SocketErrno)
deriving DecidableEq

structure RequestQueue where
  m_queue : List QueueEntry
  m_maxLen : UInt32
  m_queueTimeout : ℤ
  calls : List Call
deriving DecidableEq

def QueueEntry.getExpireTime (now : ℤ) (e : QueueEntry) : ℤ := e.m_expire - now

def QueueEntry.setExpireTime (now exp : ℤ) (e : QueueEntry) : QueueEntry :=
  { e with m_expire := exp + now }

def isExpired (now : ℤ) (e : QueueEntry) : Bool := e.getExpireTime now < 0

def isFor (dst : Ipv4Address) (e : QueueEntry) : Bool := e.m_header.m_destination = dst

namespace RequestQueue

variable (now : ℤ) (q : RequestQueue)

def drop (en : QueueEntry) : Call := .error en .noRouteToHost

def purge : RequestQueue :=
  { q with
    m_queue := q.m_queue.filter fun e => !isExpired now e
    calls := q.calls ++ (q.m_queue.filter (isExpired now)).map drop }

def holds (entry : QueueEntry) : Bool :=
  q.m_queue.any fun i => i.m_packet.uid = entry.m_packet.uid &&
    i.m_header.m_destination = entry.m_header.m_destination

def dropOldest : RequestQueue :=
  { q with
    m_queue := q.m_queue.tail
    calls := q.calls ++ (q.m_queue.take 1).map drop }

def enqueue (entry : QueueEntry) : RequestQueue × Bool :=
  let q := q.purge now
  if q.holds entry then (q, false)
  else
    let entry := entry.setExpireTime now q.m_queueTimeout
    let q := if q.m_queue.length = q.m_maxLen.toNat then q.dropOldest else q
    ({ q with m_queue := q.m_queue ++ [entry] }, true)

variable (dst : Ipv4Address)

def dropPacketWithDst : RequestQueue :=
  let q := q.purge now
  { q with
    m_queue := q.m_queue.filter fun e => !isFor dst e
    calls := q.calls ++ (q.m_queue.filter (isFor dst)).map drop }

def dequeue : RequestQueue × Option QueueEntry :=
  let q := q.purge now
  match q.m_queue.find? (isFor dst) with
  | none => (q, none)
  | some entry => ({ q with m_queue := q.m_queue.eraseP (isFor dst) }, some entry)

def removePacketTag (p : Packet) : Packet := { p with tag := none }

variable (route : Ipv4Route)

def mismatched (p : Packet) : Bool :=
  match p.tag with
  | none => false
  | some oif => oif ≠ -1 && oif ≠ getInterfaceForDevice route.outputDevice

/-- What the unicast-forward callback gets. One is added to the TTL for the one that the loopback
took. -/
def forward (entry : QueueEntry) : Call :=
  .unicastForward entry route (removePacketTag entry.m_packet)
    { entry.m_header with m_source := route.source, m_ttl := entry.m_header.m_ttl + 1 }

/-- The loop of `SendPacketFromQueue`, with as many rounds as the queue can give. -/
def sendLoop (dst : Ipv4Address) (route : Ipv4Route) : ℕ → RequestQueue → RequestQueue
  | 0, q => q
  | rounds + 1, q =>
    match q.dequeue now dst with
    | (q, none) => q
    | (q, some entry) =>
      if mismatched route entry.m_packet then q
      else sendLoop dst route rounds { q with calls := q.calls ++ [forward route entry] }

def sendPacketFromQueue : RequestQueue :=
  sendLoop now dst route (q.m_queue.length + 1) q

end RequestQueue

end Egsr.Aodv
