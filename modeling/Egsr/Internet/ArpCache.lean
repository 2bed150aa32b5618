import Egsr.Lib.OrderedMap
import Egsr.Lib.Run

/-! Address resolution over one cache. A packet for an address that is not known
waits on the entry of the address, whose requests are repeated by one timer for
all entries, until a reply comes or the entry is given up. -/

namespace Egsr.Internet.Arp

open Lib

abbrev Ipv4Address := UInt32

abbrev Address := List UInt8

inductive Fault where
  /-- The event cannot be the next one. -/
  | notDue
  | assertion
  | fatalError
  /-- An entry is used that the cache does not hold. -/
  | noEntry
  /-- Packets are dequeued and queued again for ever. -/
  | endless
deriving DecidableEq

inductive ArpCacheEntryState where
  | alive
  | waitReply
  | dead
  | permanent
deriving DecidableEq

/-- `P` is the type of packets with their headers. -/
structure Entry (P : Type) where
  m_state : ArpCacheEntryState
  m_lastSeen : ℕ
  m_macAddress : Address
  m_ipv4Address : Ipv4Address
  m_pending : List P
  m_retries : UInt32

/-- The attributes of the cache, and of the interface it belongs to. Times are in nanoseconds. -/
structure Config where
  m_aliveTimeout : ℕ
  m_deadTimeout : ℕ
  m_waitReplyTimeout : ℕ
  m_maxRetries : UInt32
  m_pendingQueueSize : UInt32
  addresses : List Ipv4Address
  deviceAddress : Address
  /-- Whether the interface resolves this destination when it sends: it is up, needs address
  resolution, and the destination is no address of its own and no broadcast or multicast address. -/
  resolves : Ipv4Address → Bool

inductive Event (P : Type) where
  /-- `ArpL3Protocol::Lookup` is called. -/
  | passed (packet : P) (destination : Ipv4Address)
  | answered (packet : P) (destination : Ipv4Address) (hardwareDestination : Address)
  /-- The packet is given to the interface, because of a reply. -/
  | sent (packet : P) (destination : Ipv4Address)
  /-- A drop trace is called. -/
  | dropped (packet : P) (destination : Ipv4Address)
  | replyDropped
  /-- `SendArpRequest`, now or after the jitter. -/
  | request (destination : Ipv4Address)
  | reply (myIp toIp : Ipv4Address) (toMac : Address)

structure State (P : Type) where
  now : ℕ
  m_arpCache : OrderedMap Ipv4Address (Entry P)
  /-- When the running timer expires. -/
  m_waitReplyTimer : Option ℕ
  log : List (Event P)

variable {P : Type}

namespace Entry

def new (destination : Ipv4Address) : Entry P where
  m_state := .alive
  m_lastSeen := 0
  m_macAddress := []
  m_ipv4Address := destination
  m_pending := []
  m_retries := 0

def getTimeout (c : Config) (e : Entry P) : Option ℕ :=
  match e.m_state with
  | .waitReply => some c.m_waitReplyTimeout
  | .dead => some c.m_deadTimeout
  | .alive => some c.m_aliveTimeout
  | .permanent => none

def isExpired (c : Config) (now : ℕ) (e : Entry P) : Bool :=
  match e.getTimeout c with
  | some timeout => timeout < now - e.m_lastSeen
  | none => false

def markDead (now : ℕ) (e : Entry P) : Entry P :=
  { e with m_state := .dead, m_retries := 0, m_lastSeen := now }

def markAlive (now : ℕ) (macAddress : Address) (e : Entry P) : Except Fault (Entry P) :=
  if e.m_state = .waitReply then
    pure { e with m_macAddress := macAddress, m_state := .alive, m_retries := 0, m_lastSeen := now }
  else throw .assertion

def updateWaitReply (c : Config) (waiting : P) (e : Entry P) : Except Fault (Option (Entry P)) :=
  if e.m_state = .waitReply then
    if c.m_pendingQueueSize.toNat ≤ e.m_pending.length then pure none
    else pure (some { e with m_pending := e.m_pending ++ [waiting] })
  else throw .assertion

def markWaitReply (now : ℕ) (waiting : P) (e : Entry P) : Except Fault (Entry P) :=
  if (e.m_state = .alive ∨ e.m_state = .dead) ∧ e.m_pending.length = 0 then
    pure { e with m_state := .waitReply, m_pending := e.m_pending ++ [waiting], m_lastSeen := now }
  else throw .assertion

def incrementRetries (now : ℕ) (e : Entry P) : Entry P :=
  { e with m_retries := e.m_retries + 1, m_lastSeen := now }

end Entry

namespace State

def initial : State P where
  now := 0
  m_arpCache := .empty
  m_waitReplyTimer := none
  log := []

def say (ev : Event P) (s : State P) : State P := { s with log := s.log ++ [ev] }

def put (destination : Ipv4Address) (e : Entry P) (s : State P) : State P :=
  { s with m_arpCache := s.m_arpCache.set destination e }

variable (c : Config)

def startWaitReplyTimer (s : State P) : State P :=
  match s.m_waitReplyTimer with
  | some _ => s
  | none => { s with m_waitReplyTimer := some (s.now + c.m_waitReplyTimeout) }

def resolve (packet : P) (destination : Ipv4Address) (e : Entry P) (s : State P) :
    Except Fault (State P) := do
  let e ← e.markWaitReply s.now packet
  pure (((s.put destination e).startWaitReplyTimer c).say (.request destination))

/-- `ArpL3Protocol::Lookup`, with the hardware address where it gives one. -/
def lookup (packet : P) (destination : Ipv4Address) (s : State P) :
    Except Fault (State P × Option Address) :=
  let s := s.say (.passed packet destination)
  match s.m_arpCache.find? destination with
  | some e =>
    if e.isExpired c s.now then
      match e.m_state with
      | .dead => do pure (← s.resolve c packet destination e, none)
      | .alive => do pure (← s.resolve c packet destination e, none)
      | _ => throw .fatalError
    else
      match e.m_state with
      | .dead => pure (s.say (.dropped packet destination), none)
      | .alive => pure (s.say (.answered packet destination e.m_macAddress), some e.m_macAddress)
      | .waitReply => do
        match ← e.updateWaitReply c packet with
        | some e => pure (s.put destination e, none)
        | none => pure (s.say (.dropped packet destination), none)
      | .permanent =>
        pure (s.say (.answered packet destination e.m_macAddress), some e.m_macAddress)
  | none => do pure (← s.resolve c packet destination (.new destination), none)

def send (packet : P) (destination : Ipv4Address) (s : State P) : Except Fault (State P) :=
  let s := s.say (.sent packet destination)
  if c.resolves destination then do
    let (s, _) ← s.lookup c packet destination
    pure s
  else pure s

/-- The loop that dequeues the packets of an entry and sends them. -/
def sendPending (c : Config) (source : Ipv4Address) : ℕ → State P → Except Fault (State P)
  | 0, _ => throw .endless
  | rounds + 1, s =>
    match s.m_arpCache.find? source with
    | none => throw .noEntry
    | some e =>
      match e.m_pending with
      | [] => pure s
      | packet :: rest => do
        let s ← (s.put source { e with m_pending := rest }).send c packet source
        sendPending c source rounds s

structure ArpHeader where
  isRequest : Bool
  source : Ipv4Address
  sourceHardware : Address
  destination : Ipv4Address
  destinationHardware : Address
deriving DecidableEq

def receiveReply (arp : ArpHeader) (s : State P) : Except Fault (State P) :=
  match s.m_arpCache.find? arp.source with
  | none => pure (s.say .replyDropped)
  | some e =>
    if e.m_state = .waitReply then do
      let e ← e.markAlive s.now arp.sourceHardware
      (s.put arp.source e).sendPending c arp.source (e.m_pending.length + 1)
    else pure (s.say .replyDropped)

/-- `ArpL3Protocol::Receive`, going through the addresses of the interface. -/
def receiveAt (c : Config) (arp : ArpHeader) (s : State P) : List Ipv4Address →
    Except Fault (State P)
  | [] => pure s
  | a :: as =>
    if arp.isRequest ∧ arp.destination = a then
      pure (s.say (.reply arp.destination arp.source arp.sourceHardware))
    else if ¬ arp.isRequest ∧ arp.destination = a ∧ arp.destinationHardware = c.deviceAddress then
      s.receiveReply c arp
    else receiveAt c arp s as

def receive (arp : ArpHeader) (s : State P) : Except Fault (State P) :=
  s.receiveAt c arp c.addresses

abbrev Timeout (P : Type) := State P × Bool

def timeoutAt (r : Timeout P) (destination : Ipv4Address) : Timeout P :=
  match r.1.m_arpCache.find? destination with
  | none => r
  | some e =>
    if e.m_state = .waitReply then
      if e.m_retries < c.m_maxRetries then
        ((r.1.say (.request e.m_ipv4Address)).put destination (e.incrementRetries r.1.now), true)
      else
        ({ r.1 with
          m_arpCache := r.1.m_arpCache.set destination { e.markDead r.1.now with m_pending := [] }
          log := r.1.log ++ e.m_pending.map fun packet => .dropped packet destination }, r.2)
    else r

/-- `HandleWaitReplyTimeout`; the order is that of the hash map, which is not specified. -/
def handleWaitReplyTimeout (order : List Ipv4Address) (s : State P) : State P :=
  let r := order.foldl (timeoutAt c) ({ s with m_waitReplyTimer := none }, false)
  if r.2 then { r.1 with m_waitReplyTimer := some (r.1.now + c.m_waitReplyTimeout) } else r.1

end State

/-! ## Runs -/

inductive Action (P : Type) where
  | lookup (packet : P) (destination : Ipv4Address)
  | receive (arp : State.ArpHeader)
  /-- The next event is so much later. -/
  | wait (delay : ℕ)
  | timeout (order : List Ipv4Address)

/-- Time does not pass the expiry of the timer, and the timer expires at its time. -/
def step (c : Config) (s : State P) : Action P → Except Fault (State P)
  | .lookup packet destination => do
    let (s, _) ← s.lookup c packet destination
    pure s
  | .receive arp => s.receive c arp
  | .wait delay =>
    if ∀ due ∈ s.m_waitReplyTimer, s.now + delay ≤ due then pure { s with now := s.now + delay }
    else throw .notDue
  | .timeout order =>
    if s.m_waitReplyTimer = some s.now ∧
      order.Perm s.m_arpCache.keys then pure (s.handleWaitReplyTimeout c order)
    else throw .notDue

end Egsr.Internet.Arp
