import Egsr.Wifi.WifiMacQueue

/-! A bounded list of items with lifetimes, without positions that could become
invalid and without counters. Items that are expired leave it when a call passes
them. This is what the transmit queue is meant to be. -/

namespace Egsr.Wifi.MacQueue

open Lib

structure LifetimeQueue where
  now : ℕ
  items : List Node
  /-- The number of the next item. -/
  fresh : ℕ
  /-- Whether a peek has passed expired items. -/
  stale : Bool
  log : List Event

namespace LifetimeQueue

section Passing

variable (c : Config) (now : ℕ)

/-- What is left after items were passed and looked at, what was found out, and what has left. -/
def passing {γ : Type} (visit : WifiMacQueueItem → γ → γ × WifiMacQueue.Visit) :
    List Node → γ → List Node × γ × List Event
  | [], acc => ([], acc, [])
  | n :: nodes, acc =>
    if expired c now n.2 then
      let r := passing visit nodes acc
      (r.1, r.2.1, .left .expired n now :: r.2.2)
    else
      match visit n.2 acc with
      | (acc, .go) =>
        let r := passing visit nodes acc
        (n :: r.1, r.2)
      | (acc, .stop) => (n :: nodes, acc, [])
      | (acc, .erase cause) => (nodes, acc, [.left cause n now])

/-- What is left when the items in front of one are passed, whether it was found, and what has
left. -/
def passingTo (pos : ConstIterator) : List Node → List Node × Bool × List Event
  | [] => ([], false, [])
  | n :: nodes =>
    if some n.1 = pos then (n :: nodes, true, [])
    else
      let r := passingTo pos nodes
      if expired c now n.2 then (r.1, r.2.1, .left .expired n now :: r.2.2) else (n :: r.1, r.2)

/-- The items without the first expired one, where a new item goes then, and the one that has
left. -/
def withoutStale (pos : ConstIterator) : List Node → Option (List Node × ConstIterator × Event)
  | [] => none
  | n :: nodes =>
    if expired c now n.2 then
      some (nodes, if some n.1 = pos then nodes.head?.map Prod.fst else pos, .left .expired n now)
    else (withoutStale pos nodes).map fun r => (n :: r.1, r.2)

end Passing

/-! ## Calls -/

def put (pos : ConstIterator) (item : WifiMacQueueItem) (q : LifetimeQueue) : LifetimeQueue :=
  { q with
    items := Chain.insertNode (q.fresh, item) pos q.items
    fresh := q.fresh + 1
    log := q.log ++ [.enqueued (q.fresh, item)] }

variable (c : Config)

def insertAt (pos : ConstIterator) (item : WifiMacQueueItem) (q : LifetimeQueue) :
    LifetimeQueue × Bool :=
  if q.items.length < c.getMaxSize.toNat then (q.put pos item, true)
  else
    match withoutStale c q.now pos q.items with
    | some (items, it, ev) =>
      (({ q with items := items, log := q.log ++ [ev] } : LifetimeQueue).put it item, true)
    | none =>
      match c.m_dropPolicy, q.items with
      | .dropOldest, n :: rest =>
        (({ q with items := rest, log := q.log ++ [.left .oldest n q.now] } : LifetimeQueue).put pos
          item, true)
      | _, _ => ({ q with log := q.log ++ [.dropBeforeEnqueue item] }, false)

def purge {γ : Type} (visit : WifiMacQueueItem → γ → γ × WifiMacQueue.Visit) (acc : γ)
    (q : LifetimeQueue) : LifetimeQueue × γ :=
  let r := passing c q.now visit q.items acc
  ({ q with items := r.1, log := q.log ++ r.2.2 }, r.2.1)

def purgeTo (pos : ConstIterator) (q : LifetimeQueue) : LifetimeQueue × Bool :=
  let r := passingTo c q.now pos q.items
  ({ q with items := r.1, log := q.log ++ r.2.2 }, r.2.1)

def take (cause : Cause) (pos : ℕ) (q : LifetimeQueue) : LifetimeQueue × Option WifiMacQueueItem :=
  match q.items.find? fun n => n.1 = pos with
  | none => (q, none)
  | some n =>
    ({ q with items := q.items.filter fun m => m.1 ≠ pos, log := q.log ++ [.left cause n q.now] },
      some n.2)

/-- The item at a position is dequeued, unless it is expired. -/
def takeFresh (pos : ℕ) (q : LifetimeQueue) : LifetimeQueue × Option WifiMacQueueItem :=
  match q.items.find? fun n => n.1 = pos with
  | none => (q, none)
  | some n => if expired c q.now n.2 then ((q.take .expired pos).1, none) else q.take .dequeued pos

def peekWhere (select : WifiMacQueueItem → Bool) (pos : Option ConstIterator) (q : LifetimeQueue) :
    LifetimeQueue × Option Node :=
  let first := q.items.head?.map Prod.fst
  let r := WifiMacQueue.peeking c q.now select
    (WifiMacQueue.itemsFrom (pos.getD first) q.items) q.stale
  ({ q with stale := r.2 }, r.1)

/-- Expired items in front leave first where a peek has passed expired items. -/
def dequeueAt (pos : ℕ) (q : LifetimeQueue) : LifetimeQueue × Option WifiMacQueueItem :=
  if !q.stale then q.takeFresh c pos
  else ({ (q.purgeTo c (some pos)).1 with stale := false } : LifetimeQueue).takeFresh c pos

def dequeueWhere (select : WifiMacQueueItem → Bool) (q : LifetimeQueue) :
    LifetimeQueue × Option WifiMacQueueItem :=
  let r := q.peekWhere c select none
  match r.2 with
  | none => (r.1, none)
  | some n => r.1.dequeueAt c n.1

def behind (pos : ℕ) (q : LifetimeQueue) : ConstIterator :=
  (q.items.dropWhile fun n => n.1 ≠ pos).tail.head?.map Prod.fst

def removeAt (pos : ℕ) (removeExpired : Bool) (q : LifetimeQueue) : LifetimeQueue × ConstIterator :=
  let q := if removeExpired then { (q.purgeTo c (some pos)).1 with stale := false } else q
  ((q.take .removed pos).1, q.behind pos)

/-- The sizes of items, which wrap around as the counter does. -/
def totalSize (nodes : List Node) : UInt32 := nodes.foldr (fun n total => n.2.size + total) 0

def perform (q : LifetimeQueue) : Action → LifetimeQueue × Result
  | .enqueue item => let r := q.insertAt c none item; (r.1, .accepted r.2)
  | .pushFront item => let r := q.insertAt c (q.items.head?.map Prod.fst) item; (r.1, .accepted r.2)
  | .insertAt pos item => let r := q.insertAt c pos item; (r.1, .accepted r.2)
  | .dequeue =>
    let r := q.purge c (fun item _ => (some item, .erase .dequeued)) none; (r.1, .item r.2)
  | .dequeueWhere query => let r := q.dequeueWhere c query.select; (r.1, .item r.2)
  | .dequeueAt pos => let r := (pos.elim (q, none) fun i => q.dequeueAt c i); (r.1, .item r.2)
  | .peek => let r := q.peekWhere c Query.any.select none; (r.1, .item (r.2.map Prod.snd))
  | .peekWhere query pos =>
    let r := q.peekWhere c query.select pos; (r.1, .position (r.2.map Prod.fst))
  | .remove =>
    let r := q.purge c (fun item _ => (some item, .erase .removed)) none; (r.1, .item r.2)
  | .removePacket packet =>
    let r := q.purge c (fun item _ => if item.packet = packet then (true, .erase .removed)
      else (false, .go)) false
    (r.1, .found r.2)
  | .removeAt pos removeExpired =>
    let r := (pos.elim (q, none) fun i => q.removeAt c i removeExpired); (r.1, .position r.2)
  | .getNPacketsByAddress dest =>
    let r := q.purge c (fun item n => (if item.isData && item.addr1 = dest then n + 1 else n, .go))
      0; (r.1, .number r.2)
  | .getNPacketsByTidAndAddress tid dest =>
    let r := q.purge c (fun item n => (if forTidAndAddress tid dest item then n + 1 else n, .go)) 0;
      (r.1, .number r.2)
  | .isEmpty => let r := q.purge c (fun _ _ => (false, .stop)) true; (r.1, .found r.2)
  | .getNPackets =>
    let r := q.purge c (fun _ (_ : Unit) => ((), .go)) ()
    (r.1, .number (UInt32.ofNat r.1.items.length))
  | .getNBytes =>
    let r := q.purge c (fun _ (_ : Unit) => ((), .go)) (); (r.1, .number (totalSize r.1.items))
  | .wait delay => ({ q with now := q.now + delay }, .found true)

def step (q : LifetimeQueue) (a : Action) : LifetimeQueue :=
  let r := q.perform c a
  { r.1 with log := r.1.log ++ [.returned r.2] }

def initial : LifetimeQueue := ⟨0, [], 0, false, []⟩

end LifetimeQueue

end Egsr.Wifi.MacQueue
