import Egsr.Core.Scheduler

/-! The simulator over any scheduler, and its execution: the calls that the
events and the code around `Run` make, in any order, and the main loop. The
execution keeps books of what was scheduled, invoked and killed. -/

namespace Egsr.Core.Simulator

open Lib.Run Lib.Outcome

structure EventId where
  m_eventImpl : Option ℕ
  m_ts : ℕ
  m_context : ℕ
  m_uid : ℕ
deriving DecidableEq

def EventId.invalid : EventId := ⟨none, 0, 0, 0⟩

structure EventWithContext where
  context : ℕ
  timestamp : ℕ
  event : ℕ
deriving DecidableEq

structure DefaultSimulatorImpl (σ : Type) where
  m_events : σ
  m_uid : ℕ
  m_currentUid : ℕ
  m_currentTs : ℕ
  m_currentContext : ℕ
  m_unscheduledEvents : ℤ
  m_eventCount : ℕ
  m_stop : Bool
  m_eventsWithContext : List EventWithContext
  m_eventsWithContextEmpty : Bool
  m_destroyEvents : List EventId
  /-- The events whose flag `m_cancel` is set. -/
  cancelled : List ℕ
deriving DecidableEq

def toInt (x : ℤ) : ℤ := x.bmod (2 ^ 32)

def toWord (x : ℤ) : ℕ := (x % 2 ^ 64).toNat

def NO_CONTEXT : ℕ := 2 ^ 32 - 1

variable {σ : Type} (S : Scheduler σ)

def construct (events : σ) : DefaultSimulatorImpl σ where
  m_events := events
  m_uid := 4
  m_currentUid := 0
  m_currentTs := 0
  m_currentContext := NO_CONTEXT
  m_unscheduledEvents := 0
  m_eventCount := 0
  m_stop := false
  m_eventsWithContext := []
  m_eventsWithContextEmpty := true
  m_destroyEvents := []
  cancelled := []

section Methods

variable (s : DefaultSimulatorImpl σ)

/-- The common end of the methods that put an event in the queue. -/
def insertEvent (event ts context : ℕ) : Except Fault (Event × DefaultSimulatorImpl σ) := do
  let ev : Event := ⟨event, ts, s.m_uid, context⟩
  let events ← S.insert s.m_events ev
  pure (ev, { s with
    m_events := events
    m_uid := (s.m_uid + 1) % 2 ^ 32
    m_unscheduledEvents := toInt (s.m_unscheduledEvents + 1) })

def insertAll : List EventWithContext → DefaultSimulatorImpl σ →
    Except Fault (List Event × DefaultSimulatorImpl σ)
  | [], s => pure ([], s)
  | event :: rest, s => do
    let first ← insertEvent S s event.event ((s.m_currentTs + event.timestamp) % 2 ^ 64)
      event.context
    let others ← insertAll rest first.2
    pure (first.1 :: others.1, others.2)

def processEventsWithContext : Except Fault (List Event × DefaultSimulatorImpl σ) :=
  if s.m_eventsWithContextEmpty then pure ([], s)
  else insertAll S s.m_eventsWithContext
    { s with m_eventsWithContext := [], m_eventsWithContextEmpty := true }

def tAbsolute (delay : ℤ) : ℕ := toWord (delay + s.m_currentTs)

def eventId (ev : Event) : EventId := ⟨some ev.impl, ev.key.m_ts, ev.key.m_context, ev.key.m_uid⟩

def schedule (delay : ℤ) (event : ℕ) : Except Fault (Event × DefaultSimulatorImpl σ) :=
  insertEvent S s event (tAbsolute s delay) s.m_currentContext

def scheduleNow (event : ℕ) : Except Fault (Event × DefaultSimulatorImpl σ) :=
  insertEvent S s event s.m_currentTs s.m_currentContext

/-- Called from another thread, the event waits for `processEventsWithContext`. -/
def scheduleWithContext (onMain : Bool) (context : ℕ) (delay : ℤ) (event : ℕ) :
    Except Fault (Option Event × DefaultSimulatorImpl σ) :=
  if onMain then
    (insertEvent S s event (tAbsolute s delay) context).map fun r => (some r.1, r.2)
  else pure (none, { s with
    m_eventsWithContext := s.m_eventsWithContext ++ [⟨context, toWord delay, event⟩]
    m_eventsWithContextEmpty := false })

def scheduleDestroy (event : ℕ) : EventId × DefaultSimulatorImpl σ :=
  let id : EventId := ⟨some event, s.m_currentTs, 0xffffffff, 2⟩
  (id, { s with
    m_destroyEvents := s.m_destroyEvents ++ [id]
    m_uid := (s.m_uid + 1) % 2 ^ 32 })

variable (id : EventId)

def isCancelled : Bool :=
  match id.m_eventImpl with
  | none => true
  | some event => s.cancelled.contains event

def isExpired : Bool :=
  if id.m_uid = 2 then isCancelled s id || !s.m_destroyEvents.contains id
  else id.m_ts < s.m_currentTs || (id.m_ts = s.m_currentTs && id.m_uid ≤ s.m_currentUid) ||
    isCancelled s id

def setCancelled : DefaultSimulatorImpl σ :=
  { s with cancelled := id.m_eventImpl.toList ++ s.cancelled }

def eventOf : Event := ⟨id.m_eventImpl.getD 0, id.m_ts, id.m_uid, id.m_context⟩

def remove : Except Fault (DefaultSimulatorImpl σ) :=
  if id.m_uid = 2 then pure { s with m_destroyEvents := s.m_destroyEvents.erase id }
  else if isExpired s id then pure s
  else do
    let events ← S.remove s.m_events (eventOf id)
    pure { setCancelled s id with
      m_events := events
      m_unscheduledEvents := toInt (s.m_unscheduledEvents - 1) }

def cancel : DefaultSimulatorImpl σ :=
  if isExpired s id then s else setCancelled s id

def stop : DefaultSimulatorImpl σ := { s with m_stop := true }

/-- `processOneEvent` up to the call of `Invoke`. -/
def takeNext : Except Fault (Event × DefaultSimulatorImpl σ) := do
  let next ← S.removeNext s.m_events
  pure (next.1, { s with
    m_events := next.2
    m_unscheduledEvents := toInt (s.m_unscheduledEvents - 1)
    m_eventCount := (s.m_eventCount + 1) % 2 ^ 64
    m_currentTs := next.1.key.m_ts
    m_currentContext := next.1.key.m_context
    m_currentUid := next.1.key.m_uid })

end Methods

/-! ## Executions -/

inductive Phase where
  /-- `Run` is not on the stack. -/
  | outside
  /-- At the head of the loop of `Run`. -/
  | looping
  /-- Inside `Invoke`, which calls a function unless the event is cancelled. -/
  | invoking (notified : Bool)
deriving DecidableEq

structure Execution (σ : Type) where
  sim : DefaultSimulatorImpl σ
  phase : Phase
  /-- Events made so far; they are numbered. -/
  made : ℕ
  /-- The events put in the queue and when they are due, in this order. -/
  scheduled : List (Event × ℤ)
  /-- The ids handed out, of events for the queue and of those for `Destroy`. -/
  issued : List EventId
  destroyIds : List EventId
  /-- The events whose function was called, and at which time. -/
  invoked : List (Event × ℕ)
  /-- The events cancelled or removed before they were invoked. -/
  killed : List Event
deriving DecidableEq

inductive Act where
  | schedule (delay : ℤ)
  | scheduleNow
  | scheduleWithContext (onMain : Bool) (context : ℕ) (delay : ℤ)
  | scheduleDestroy
  | cancel (id : EventId)
  | remove (id : EventId)
  | stop
  /-- `Run` is called. -/
  | run
  /-- The test of the loop; it takes the next event or leaves `Run`. -/
  | loop
  /-- `Invoke` returns. -/
  | ret
deriving DecidableEq

def begin (events : σ) : Execution σ where
  sim := construct events
  phase := .outside
  made := 0
  scheduled := []
  issued := []
  destroyIds := []
  invoked := []
  killed := []

section Steps

variable (e : Execution σ)

def book (ev : Event) (due : ℤ) (sim : DefaultSimulatorImpl σ) : Execution σ :=
  { e with
    sim := sim
    made := e.made + 1
    scheduled := e.scheduled ++ [(ev, due)] }

def bookId (ev : Event) (due : ℤ) (sim : DefaultSimulatorImpl σ) : Execution σ :=
  { book e ev due sim with issued := eventId ev :: e.issued }

def killedAfter (id : EventId) : List Event :=
  if eventOf id ∈ e.invoked.map Prod.fst then e.killed else eventOf id :: e.killed

def enter (phase : Phase) : Except Fault (Execution σ) := do
  let r ← processEventsWithContext S e.sim
  let dues := e.sim.m_eventsWithContext.map fun w => (e.sim.m_currentTs + w.timestamp : ℤ)
  pure { e with sim := r.2, phase := phase, scheduled := e.scheduled ++ r.1.zip dues }

def execStep : Act → Except Fault (Execution σ)
  | .schedule delay => do
    let r ← schedule S e.sim delay e.made
    pure (bookId e r.1 (e.sim.m_currentTs + delay) r.2)
  | .scheduleNow => do
    let r ← scheduleNow S e.sim e.made
    pure (bookId e r.1 e.sim.m_currentTs r.2)
  | .scheduleWithContext onMain context delay => do
    let r ← scheduleWithContext S e.sim onMain context delay e.made
    match r.1 with
    | some ev => pure (book e ev (e.sim.m_currentTs + delay) r.2)
    | none => pure { e with sim := r.2, made := e.made + 1 }
  | .scheduleDestroy =>
    let r := scheduleDestroy e.sim e.made
    pure { e with sim := r.2, made := e.made + 1, destroyIds := r.1 :: e.destroyIds }
  | .cancel id => pure { e with sim := cancel e.sim id, killed := killedAfter e id }
  | .remove id => do
    let sim ← remove S e.sim id
    pure { e with sim := sim, killed := killedAfter e id }
  | .stop => pure { e with sim := stop e.sim }
  | .run => do
    let e' ← enter S e .looping
    pure { e' with sim := { e'.sim with m_stop := false } }
  | .loop =>
    if S.isEmpty e.sim.m_events || e.sim.m_stop then pure { e with phase := .outside }
    else do
      let next ← takeNext S e.sim
      if next.2.cancelled.contains next.1.impl then
        pure { e with sim := next.2, phase := .invoking false }
      else pure { e with
        sim := next.2
        phase := .invoking true
        invoked := e.invoked ++ [(next.1, next.2.m_currentTs)] }
  | .ret => enter S e .looping

end Steps

end Egsr.Core.Simulator
