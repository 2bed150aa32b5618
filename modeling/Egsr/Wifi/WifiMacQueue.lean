import Egsr.Lib.Chain
import Egsr.Lib.Run

/-! The transmit queue of a station. It is a linked list with positions that callers
hold on to. Packets whose lifetime is over stay in it until a loop that may remove
them passes by. -/

namespace Egsr.Wifi.MacQueue

open Lib

abbrev Mac48Address := ℕ

inductive Fault where
  /-- A position is used whose element is not in the list any more, or the end is. -/
  | erased
  /-- A loop goes on after it has passed every element. -/
  | endless
deriving DecidableEq

structure WifiMacQueueItem where
  /-- The pointer to the packet. -/
  packet : ℕ
  size : UInt32
  isData : Bool
  isQosData : Bool
  addr1 : Mac48Address
  qosTid : UInt8
  m_tstamp : ℕ
deriving DecidableEq

inductive DropPolicy where
  | dropOldest
  | dropNewest
deriving DecidableEq

structure Config where
  m_maxSize : UInt32
  m_maxDelay : ℕ
  m_dropPolicy : DropPolicy

def Config.getMaxSize (c : Config) : UInt32 := if c.m_maxSize = 0 then 100 else c.m_maxSize

inductive Cause where
  | dequeued
  | removed
  | expired
  | oldest
deriving DecidableEq

inductive Result where
  | accepted (b : Bool)
  | item (item : Option WifiMacQueueItem)
  | position (pos : Option ℕ)
  | found (b : Bool)
  | number (n : UInt32)
deriving DecidableEq

/-- An item with the position it has in the list. -/
abbrev Node := ℕ × WifiMacQueueItem

inductive Event where
  | enqueued (n : Node)
  | dropBeforeEnqueue (item : WifiMacQueueItem)
  | left (cause : Cause) (n : Node) (now : ℕ)
  | returned (r : Result)
deriving DecidableEq

structure WifiMacQueue where
  now : ℕ
  m_packets : Chain WifiMacQueueItem
  m_nPackets : UInt32
  m_nBytes : UInt32
  m_expiredPacketsPresent : Bool
  log : List Event

/-- The end is `none`. -/
abbrev ConstIterator := Option ℕ

/-- `Simulator::Now () > item->GetTimeStamp () + m_maxDelay`. -/
def expired (c : Config) (now : ℕ) (item : WifiMacQueueItem) : Bool :=
  item.m_tstamp + c.m_maxDelay < now

namespace WifiMacQueue

def initial : WifiMacQueue := ⟨0, .empty, 0, 0, false, []⟩

def say (ev : Event) (q : WifiMacQueue) : WifiMacQueue := { q with log := q.log ++ [ev] }

variable (q : WifiMacQueue)

def deref : ConstIterator → Except Fault Node
  | none => throw .erased
  | some i =>
    match q.m_packets.get? i with
    | none => throw .erased
    | some item => pure (i, item)

variable (c : Config) (pos : ConstIterator) (item : WifiMacQueueItem)

def doEnqueue : Except Fault (WifiMacQueue × Bool) :=
  if c.getMaxSize < q.m_nPackets + 1 then pure (q.say (.dropBeforeEnqueue item), false)
  else do
    -- inserting in front of an element that was erased
    match pos with
    | none => pure ()
    | some i => if (q.m_packets.get? i).isSome then pure () else throw .erased
    pure ({ q with
      m_packets := q.m_packets.insert pos item
      m_nBytes := q.m_nBytes + item.size
      m_nPackets := q.m_nPackets + 1
      log := q.log ++ [.enqueued (q.m_packets.fresh, item)] }, true)

/-- `DoDequeue` and `DoRemove`, which call different traces. -/
def doErase (cause : Cause) (pos : ConstIterator) (q : WifiMacQueue) :
    Except Fault (WifiMacQueue × Option WifiMacQueueItem) :=
  if q.m_nPackets = 0 then pure (q, none)
  else do
    let n ← q.deref pos
    pure ({ q with
      m_packets := q.m_packets.erase n.1
      m_nBytes := q.m_nBytes - n.2.size
      m_nPackets := q.m_nPackets - 1
      log := q.log ++ [.left cause n q.now] }, some n.2)

def doDequeue : Except Fault (WifiMacQueue × Option WifiMacQueueItem) :=
  q.doErase .dequeued pos

def doRemove (cause : Cause) (pos : ConstIterator) (q : WifiMacQueue) :
    Except Fault (WifiMacQueue × Option WifiMacQueueItem) :=
  q.doErase cause pos

def advance (it : ConstIterator) : Except Fault ConstIterator := do
  let n ← q.deref it
  pure (q.m_packets.next n.1)

/-- `TtlExceeded`, with the position that it leaves behind in `it`. -/
def ttlExceeded (it : ConstIterator) (q : WifiMacQueue) :
    Except Fault (WifiMacQueue × ConstIterator × Bool) := do
  let n ← q.deref it
  if expired c q.now n.2 then
    let next ← q.advance it
    let (q, _) ← q.doRemove .expired it
    pure (q, next, true)
  else pure (q, it, false)

/-- What a loop does at an item that is not expired. -/
inductive Visit where
  | go
  | stop
  | erase (cause : Cause)
deriving DecidableEq

/-- A loop that passes items, removes the expired ones and looks at the others. -/
def purging (c : Config) {γ : Type} (visit : WifiMacQueueItem → γ → γ × Visit) :
    ℕ → ConstIterator → γ → WifiMacQueue → Except Fault (WifiMacQueue × γ)
  | _, none, acc, q => pure (q, acc)
  | 0, some _, _, _ => throw .endless
  | rounds + 1, some i, acc, q => do
    let (q, it, gone) ← q.ttlExceeded c (some i)
    if gone then purging c visit rounds it acc q
    else
      let n ← q.deref it
      match visit n.2 acc with
      | (acc, .go) => do purging c visit rounds (← q.advance it) acc q
      | (acc, .stop) => pure (q, acc)
      | (acc, .erase cause) => do
        let (q, _) ← q.doErase cause it
        pure (q, acc)

/-- The loop from the first item on; no item is passed twice. -/
def purge {γ : Type} (visit : WifiMacQueueItem → γ → γ × Visit) (acc : γ) (q : WifiMacQueue) :
    Except Fault (WifiMacQueue × γ) :=
  purging c visit q.m_packets.nodes.length q.m_packets.first acc q

/-- The loop that removes the expired items in front of a position, and whether the position was
found. -/
def purgingTo (c : Config) (pos : ConstIterator) : ℕ → ConstIterator → WifiMacQueue →
    Except Fault (WifiMacQueue × Bool)
  | _, none, q => pure (q, false)
  | 0, some _, _ => throw .endless
  | rounds + 1, some i, q =>
    if some i = pos then pure (q, true)
    else do
      let (q, it, gone) ← q.ttlExceeded c (some i)
      if gone then purgingTo c pos rounds it q else purgingTo c pos rounds (← q.advance it) q

def purgeTo : Except Fault (WifiMacQueue × Bool) :=
  purgingTo c pos q.m_packets.nodes.length q.m_packets.first q

/-- The loop of `Insert` over a full queue. It ends at the first expired item, with the position to
insert at after that item was removed. -/
def findStale (c : Config) (pos : ConstIterator) :
    ℕ → ConstIterator → WifiMacQueue → Except Fault (WifiMacQueue × Option ConstIterator)
  | _, none, q => pure (q, none)
  | 0, some _, _ => throw .endless
  | rounds + 1, some i, q => do
    -- at the given position the check is made twice, with the same outcome
    let (q, it, gone) ← q.ttlExceeded c (some i)
    if gone then pure (q, some (if some i = pos then it else pos))
    else findStale c pos rounds (← q.advance it) q

def insertAt : Except Fault (WifiMacQueue × Bool) :=
  if q.m_nPackets < c.getMaxSize then q.doEnqueue c pos item
  else do
    let (q, stale) ← findStale c pos q.m_packets.nodes.length q.m_packets.first q
    match stale with
    | some it => q.doEnqueue c it item
    | none =>
      match c.m_dropPolicy with
      | .dropOldest => do
        let (q, _) ← q.doRemove .oldest q.m_packets.first
        q.doEnqueue c pos item
      | .dropNewest => q.doEnqueue c pos item

def enqueue : Except Fault (WifiMacQueue × Bool) :=
  q.insertAt c none item

def pushFront : Except Fault (WifiMacQueue × Bool) :=
  q.insertAt c q.m_packets.first item

/-- The loop of the `Peek` functions over the items from a position on. -/
def peeking (c : Config) (now : ℕ) (select : WifiMacQueueItem → Bool) : List Node → Bool →
    Option Node × Bool
  | [], present => (none, present)
  | n :: nodes, present =>
    if expired c now n.2 then peeking c now select nodes true
    else if select n.2 then (some n, present)
    else peeking c now select nodes present

def itemsFrom (nodes : List Node) : List Node :=
  match pos with
  | none => []
  | some i => nodes.dropWhile fun n => n.1 ≠ i

/-- A `Peek` function; where no position is given it starts at the first item. -/
def peekWhere (select : WifiMacQueueItem → Bool) (pos : Option ConstIterator) (q : WifiMacQueue) :
    WifiMacQueue × Option Node :=
  let r := peeking c q.now select (itemsFrom (pos.getD q.m_packets.first) q.m_packets.nodes)
    q.m_expiredPacketsPresent
  ({ q with m_expiredPacketsPresent := r.2 }, r.1)

end WifiMacQueue

/-- What `PeekByAddress` looks for. -/
def forAddress (dest : Mac48Address) (item : WifiMacQueueItem) : Bool :=
  (item.isData || item.isQosData) && item.addr1 = dest

def forTid (tid : UInt8) (item : WifiMacQueueItem) : Bool := item.isQosData && item.qosTid = tid

def forTidAndAddress (tid : UInt8) (dest : Mac48Address) (item : WifiMacQueueItem) : Bool :=
  item.isQosData && item.addr1 = dest && item.qosTid = tid

abbrev QosBlockedDestinations := Option (List (Mac48Address × UInt8))

def available (blockedPackets : QosBlockedDestinations) (item : WifiMacQueueItem) : Bool :=
  !item.isQosData || match blockedPackets with
    | none => true
    | some blocked => !blocked.contains (item.addr1, item.qosTid)

inductive Query where
  | any
  | byAddress (dest : Mac48Address)
  | byTid (tid : UInt8)
  | byTidAndAddress (tid : UInt8) (dest : Mac48Address)
  | firstAvailable (blockedPackets : QosBlockedDestinations)
deriving DecidableEq

def Query.select : Query → WifiMacQueueItem → Bool
  | .any => fun _ => true
  | .byAddress dest => forAddress dest
  | .byTid tid => forTid tid
  | .byTidAndAddress tid dest => forTidAndAddress tid dest
  | .firstAvailable blockedPackets => available blockedPackets

namespace WifiMacQueue

variable (c : Config) (q : WifiMacQueue)

def dequeue : Except Fault (WifiMacQueue × Option WifiMacQueueItem) :=
  q.purge c (fun item _ => (some item, .erase .dequeued)) none

def dequeueAt (pos : ConstIterator) (q : WifiMacQueue) :
    Except Fault (WifiMacQueue × Option WifiMacQueueItem) :=
  if !q.m_expiredPacketsPresent then do
    let (q, pos, gone) ← q.ttlExceeded c pos
    if gone then pure (q, none) else q.doDequeue pos
  else do
    let (q, found) ← q.purgeTo c pos
    if found then
      let (q, it, gone) ← ({ q with m_expiredPacketsPresent := false } : WifiMacQueue).ttlExceeded c
        pos
      if gone then pure (q, none) else q.doDequeue it
    else pure (q, none)

/-- `DequeueByAddress`, `DequeueByTid`, `DequeueByTidAndAddress` and `DequeueFirstAvailable`. -/
def dequeueWhere (select : WifiMacQueueItem → Bool) (q : WifiMacQueue) :
    Except Fault (WifiMacQueue × Option WifiMacQueueItem) :=
  let (q, it) := q.peekWhere c select none
  match it with
  | none => pure (q, none)
  | some n => q.dequeueAt c (some n.1)

def remove : Except Fault (WifiMacQueue × Option WifiMacQueueItem) :=
  q.purge c (fun item _ => (some item, .erase .removed)) none

def removePacket (packet : ℕ) (q : WifiMacQueue) : Except Fault (WifiMacQueue × Bool) :=
  q.purge c (fun item _ => if item.packet = packet then (true, .erase .removed)
    else (false, .go)) false

/-- `Remove (pos, removeExpired)`, with the position behind the removed item. -/
def removeAt (pos : ConstIterator) (removeExpired : Bool) (q : WifiMacQueue) :
    Except Fault (WifiMacQueue × ConstIterator) :=
  if !removeExpired then do
    let next ← q.advance pos
    let (q, _) ← q.doRemove .removed pos
    pure (q, next)
  else do
    let (q, found) ← q.purgeTo c pos
    if found then
      let q : WifiMacQueue := { q with m_expiredPacketsPresent := false }
      let next ← q.advance pos
      let (q, _) ← q.doRemove .removed pos
      pure (q, next)
    else pure (q, none)

/-- `GetNPacketsByAddress` and `GetNPacketsByTidAndAddress`. -/
def countWhere (select : WifiMacQueueItem → Bool) (q : WifiMacQueue) :
    Except Fault (WifiMacQueue × UInt32) :=
  q.purge c (fun item n => (if select item then n + 1 else n, .go)) 0

def isEmpty : Except Fault (WifiMacQueue × Bool) :=
  q.purge c (fun _ _ => (false, .stop)) true

def getNPackets : Except Fault (WifiMacQueue × UInt32) := do
  let (q, _) ← q.purge c (fun _ (_ : Unit) => ((), .go)) ()
  pure (q, q.m_nPackets)

def getNBytes : Except Fault (WifiMacQueue × UInt32) := do
  let (q, _) ← q.purge c (fun _ (_ : Unit) => ((), .go)) ()
  pure (q, q.m_nBytes)

end WifiMacQueue

/-! ## Runs -/

inductive Action where
  | enqueue (item : WifiMacQueueItem)
  | pushFront (item : WifiMacQueueItem)
  | insertAt (pos : ConstIterator) (item : WifiMacQueueItem)
  | dequeue
  | dequeueWhere (query : Query)
  | dequeueAt (pos : ConstIterator)
  | peek
  | peekWhere (query : Query) (pos : Option ConstIterator)
  | remove
  | removePacket (packet : ℕ)
  | removeAt (pos : ConstIterator) (removeExpired : Bool)
  | getNPacketsByAddress (dest : Mac48Address)
  | getNPacketsByTidAndAddress (tid : UInt8) (dest : Mac48Address)
  | isEmpty
  | getNPackets
  | getNBytes
  | wait (delay : ℕ)
deriving DecidableEq

def perform (c : Config) (q : WifiMacQueue) : Action → Except Fault (WifiMacQueue × Result)
  | .enqueue item => (q.enqueue c item).map fun r => (r.1, .accepted r.2)
  | .pushFront item => (q.pushFront c item).map fun r => (r.1, .accepted r.2)
  | .insertAt pos item => (q.insertAt c pos item).map fun r => (r.1, .accepted r.2)
  | .dequeue => (q.dequeue c).map fun r => (r.1, .item r.2)
  | .dequeueWhere query => (q.dequeueWhere c query.select).map fun r => (r.1, .item r.2)
  | .dequeueAt pos => (q.dequeueAt c pos).map fun r => (r.1, .item r.2)
  | .peek => let r := q.peekWhere c Query.any.select none; pure (r.1, .item (r.2.map Prod.snd))
  | .peekWhere query pos =>
    let r := q.peekWhere c query.select pos; pure (r.1, .position (r.2.map Prod.fst))
  | .remove => (q.remove c).map fun r => (r.1, .item r.2)
  | .removePacket packet => (q.removePacket c packet).map fun r => (r.1, .found r.2)
  | .removeAt pos removeExpired =>
    (q.removeAt c pos removeExpired).map fun r => (r.1, .position r.2)
  | .getNPacketsByAddress dest =>
    (q.countWhere c fun item => item.isData && item.addr1 = dest).map fun r => (r.1, .number r.2)
  | .getNPacketsByTidAndAddress tid dest =>
    (q.countWhere c (forTidAndAddress tid dest)).map fun r => (r.1, .number r.2)
  | .isEmpty => (q.isEmpty c).map fun r => (r.1, .found r.2)
  | .getNPackets => (q.getNPackets c).map fun r => (r.1, .number r.2)
  | .getNBytes => (q.getNBytes c).map fun r => (r.1, .number r.2)
  | .wait delay => pure ({ q with now := q.now + delay }, .found true)

def step (c : Config) (q : WifiMacQueue) (a : Action) : Except Fault WifiMacQueue :=
  (perform c q a).map fun r => r.1.say (.returned r.2)

end Egsr.Wifi.MacQueue
