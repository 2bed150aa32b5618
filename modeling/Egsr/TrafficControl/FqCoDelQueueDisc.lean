import Egsr.TrafficControl.CoDelQueueDisc

/-! FQ-CoDel: packets are classified into flows, each with a CoDel disc as a
child, and the flows are served by deficit round robin. -/

namespace Egsr.TrafficControl

inductive FlowStatus where
  | INACTIVE
  | NEW_FLOW
  | OLD_FLOW
deriving DecidableEq

def int32 (n : ℤ) : ℤ :=
  if n % 0x100000000 < 0x80000000 then n % 0x100000000 else n % 0x100000000 - 0x100000000

structure FqCoDelFlow where
  m_deficit : ℤ
  m_status : FlowStatus
  queueDisc : CoDelDisc
  /-- The packets that `Dequeue` of the child has returned. -/
  handedOut : List QueueDiscItem
  /-- The packets that `FqCoDelDrop` has taken. -/
  batchDropped : List QueueDiscItem
deriving DecidableEq

namespace FqCoDelFlow

variable (flow : FqCoDelFlow)

def setDeficit (deficit : ℤ) : FqCoDelFlow := { flow with m_deficit := int32 deficit }

def increaseDeficit (deficit : ℤ) : FqCoDelFlow :=
  { flow with m_deficit := int32 (flow.m_deficit + int32 deficit) }

def setStatus (status : FlowStatus) : FqCoDelFlow := { flow with m_status := status }

end FqCoDelFlow

abbrev PF_NO_MATCH : ℤ := -1

structure FqCoDelQueueDisc where
  m_quantum : ℕ
  m_flows : ℕ
  m_dropBatchSize : ℕ
  filters : List (QueueDiscItem → ℤ)
  /-- `Hash` with the perturbation. -/
  hash : QueueDiscItem → ℕ
  /-- The disc that `m_queueDiscFactory` creates. -/
  factory : CoDelDisc
  m_flowsIndices : List (ℕ × ℕ)
  classes : List FqCoDelFlow
  m_newFlows : List ℕ
  m_oldFlows : List ℕ

def freshCoDel (maxSize : QueueSize) (minBytes interval target : ℕ) : CoDelDisc :=
  ⟨0, ⟨0, 0, 0, 0, 0, 0, 0, 0⟩, maxSize, 64, none, false, none, false, [],
    ⟨minBytes, interval, target, 0, 0, false, 0xFFFF, 0, 0, []⟩⟩

namespace FqCoDelQueueDisc

variable (q : FqCoDelQueueDisc)

def classify (item : QueueDiscItem) : ℤ :=
  ((q.filters.map fun filter => filter item).find? (· ≠ PF_NO_MATCH)).getD PF_NO_MATCH

def flowHash (item : QueueDiscItem) : Option ℕ :=
  if q.filters = [] then some (q.hash item % q.m_flows)
  else if q.classify item ≠
    PF_NO_MATCH then some ((q.classify item % 0x100000000).toNat % q.m_flows)
  else none

def modifyFlow (i : ℕ) (f : FqCoDelFlow → FqCoDelFlow) : FqCoDelQueueDisc :=
  { q with classes := q.classes.modify i f }

def flowOf (h : ℕ) : ℕ × FqCoDelQueueDisc :=
  match q.m_flowsIndices.lookup h with
  | some i => (i, q)
  | none =>
    (q.classes.length, { q with
      classes := q.classes ++ [⟨0, .INACTIVE, q.factory, [], []⟩]
      m_flowsIndices := q.m_flowsIndices ++ [(h, q.classes.length)] })

def activate (i : ℕ) : FqCoDelQueueDisc :=
  match q.classes[i]? with
  | some flow =>
    if flow.m_status = .INACTIVE then
      { q.modifyFlow i fun flow => (flow.setStatus .NEW_FLOW).setDeficit q.m_quantum with
        m_newFlows := q.m_newFlows ++ [i] }
    else q
  | none => q

def deficit (i : ℕ) : ℤ := (q.classes[i]?).elim 0 FqCoDelFlow.m_deficit

def passNew : List ℕ → FqCoDelQueueDisc → Option ℕ × FqCoDelQueueDisc
  | [], q => (none, { q with m_newFlows := [] })
  | i :: rest, q =>
    if q.deficit i ≤ 0 then
      passNew rest
        { q.modifyFlow i fun flow => (flow.increaseDeficit q.m_quantum).setStatus .OLD_FLOW with
        m_oldFlows := q.m_oldFlows ++ [i], m_newFlows := rest }
    else (some i, { q with m_newFlows := i :: rest })

def passOld : ℕ → FqCoDelQueueDisc → Except Fault (Option ℕ × FqCoDelQueueDisc)
  | 0, _ => .error .endless
  | rounds + 1, q =>
    match q.m_oldFlows with
    | [] => .ok (none, q)
    | i :: rest =>
      if q.deficit i ≤ 0 then
        passOld rounds { q.modifyFlow i fun flow => flow.increaseDeficit q.m_quantum with
          m_oldFlows := rest ++ [i] }
      else .ok (some i, q)

/-- Rounds that are enough for the old flows: each one raises a deficit that is not positive. -/
def roundsOld : ℕ := (q.m_oldFlows.map fun i => (1 - q.deficit i).toNat).sum + 1

def select : Except Fault (Option ℕ × FqCoDelQueueDisc) :=
  match passNew q.m_newFlows q with
  | (some i, q) => .ok (some i, q)
  | (none, q) => passOld q.roundsOld q

def retire (i : ℕ) : FqCoDelQueueDisc :=
  if q.m_newFlows ≠ [] then
    { q.modifyFlow i fun flow => flow.setStatus .OLD_FLOW with
      m_oldFlows := q.m_oldFlows ++ [i], m_newFlows := q.m_newFlows.tail }
  else { q.modifyFlow i fun flow => flow.setStatus .INACTIVE with m_oldFlows := q.m_oldFlows.tail }

def roundsServe : ℕ := 2 * q.m_newFlows.length + q.m_oldFlows.length + 1

def fatFlow : ℕ × ℕ :=
  (q.classes.zipIdx.foldl (fun (best : ℕ × ℕ) (c : FqCoDelFlow × ℕ) =>
    if c.1.queueDisc.m_size.2.toNat > best.1 then (c.1.queueDisc.m_size.2.toNat, c.2)
      else best) (0, 0)).swap

end FqCoDelQueueDisc

abbrev FqCoDelDisc : Type := QueueDisc FqCoDelQueueDisc

namespace FqCoDelDisc

open QueueDisc

variable (now : ℕ)

/-- The loop of `FqCoDelDrop` over the packets of a child: those taken and the child. -/
def takeBatch (m_dropBatchSize threshold : ℕ) : ℕ → ℕ → List QueueDiscItem → CoDelDisc →
    Except Fault (List QueueDiscItem × CoDelDisc)
  | _, _, [], _ => .error .nullPointer
  | count, len, item :: rest, d =>
    let d := (CoDelDisc.popped item rest d).fire (.batchDropped rest)
    if count + 1 < m_dropBatchSize ∧ len + item.size < threshold then
      (takeBatch m_dropBatchSize threshold (count + 1) (len + item.size) rest d).map
        fun (items, d) => (item :: items, d)
    else .ok ([item], d)

/-- Half of the backlog of a child is the goal. -/
def dropFrom (m_dropBatchSize maxBacklog : ℕ) (child : CoDelDisc) :
    Except Fault (List QueueDiscItem × CoDelDisc) :=
  takeBatch m_dropBatchSize (maxBacklog >>> 1) 0 0 child.own.internalQueue child

/-- The children are told apart from what they fired before. -/
def heard (events : List Event) (d : FqCoDelDisc) : FqCoDelDisc := events.foldl listen d

@[simp] theorem heard_own (events : List Event) (d : FqCoDelDisc) :
    (heard events d).own = d.own := by
  induction events generalizing d with
  | nil => rfl
  | cons event events ih => exact (ih (d.listen event)).trans (listen_own d event)

def fqCoDelDrop (d : FqCoDelDisc) : Except Fault FqCoDelDisc :=
  let q := d.own
  let (index, maxBacklog) := q.fatFlow
  match q.classes[index]? with
  | none => .error .noClass
  | some flow =>
    (dropFrom q.m_dropBatchSize maxBacklog flow.queueDisc).map fun (items, child) =>
      let flow := { flow with queueDisc := child, batchDropped := flow.batchDropped ++ items }
      items.foldl (fun d item =>
        (d.listen (.dequeue item)).dropAfterDequeue now item .OVERLIMIT_DROP)
        { d with own := { q with classes := q.classes.set index flow } }

/-- There is no flow to drop from, or it runs out of packets. -/
def DropFails (e : Fault) : Prop := e = .noClass ∨ e = .nullPointer

theorem dropped_own (items : List QueueDiscItem) (d : FqCoDelDisc) :
    (items.foldl (fun d item =>
      (d.listen (.dequeue item)).dropAfterDequeue now item .OVERLIMIT_DROP) d).own = d.own := by
  induction items generalizing d with
  | nil => rfl
  | cons item items ih => rw [List.foldl_cons, ih, dropAfterDequeue_own, listen_own]

def childEnqueue (i : ℕ) (item : QueueDiscItem) (d : FqCoDelDisc) : Except Fault FqCoDelDisc :=
  let q := d.own
  match q.classes[i]? with
  | none => .error .noClass
  | some flow =>
    (enqueue now { flow.queueDisc with fired := [] } item).map fun (_, child) =>
      heard child.fired { d with
        own := { q with classes := q.classes.set i { flow with queueDisc := child } } }

def childDequeue (i : ℕ) (d : FqCoDelDisc) : Except Fault (Option QueueDiscItem × FqCoDelDisc) :=
  let q := d.own
  match q.classes[i]? with
  | none => .error .noClass
  | some flow =>
    (dequeue now { flow.queueDisc with fired := [] }).map fun (item, child) =>
      let flow := { flow with queueDisc := child, handedOut := flow.handedOut ++ item.toList }
      (item, heard child.fired { d with own := { q with classes := q.classes.set i flow } })

def doEnqueue (item : QueueDiscItem) (d : FqCoDelDisc) : Except Fault (Bool × FqCoDelDisc) :=
  match d.own.flowHash item with
  | none => .ok (false, d.dropBeforeEnqueue item .UNCLASSIFIED_DROP)
  | some h => do
    let (i, q) := d.own.flowOf h
    let d ← childEnqueue now i item { d with own := q.activate i }
    let d ← (if d.m_maxSize.exceededBy d.m_size then fqCoDelDrop now d else .ok d)
    .ok (true, d)

def serve : ℕ → FqCoDelDisc → Except Fault (Option QueueDiscItem × FqCoDelDisc)
  | 0, _ => .error .endless
  | rounds + 1, d => do
    let (found, q) ← d.own.select
    let d := { d with own := q }
    match found with
    | none => .ok (none, d)
    | some i =>
      let (item, d) ← childDequeue now i d
      match item with
      | none => serve rounds { d with own := d.own.retire i }
      | some item =>
        .ok (some item,
          { d with own := d.own.modifyFlow i fun flow => flow.increaseDeficit (-item.size) })

def doDequeue (d : FqCoDelDisc) : Except Fault (Option QueueDiscItem × FqCoDelDisc) :=
  serve now d.own.roundsServe d

instance : Subclass FqCoDelQueueDisc where
  doEnqueue := doEnqueue
  doDequeue := doDequeue

end FqCoDelDisc

end Egsr.TrafficControl
