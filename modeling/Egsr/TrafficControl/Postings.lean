import Mathlib.Algebra.Order.Monoid.Prod
import Mathlib.Algebra.Ring.Prod
import Mathlib.Tactic.LinearCombination
import Egsr.TrafficControl.FqCoDelQueueDisc

/-! What the calls of a disc post to its counters, and to those of the disc that
listens to it. -/

namespace Egsr.TrafficControl

open Lib.Outcome List FqCoDelQueueDisc CoDelDisc

namespace Event

@[simp] def enqueued : Event → Amount
  | .enqueue item => amount item
  | _ => 0

@[simp] def dequeued : Event → Amount
  | .dequeue item => amount item
  | _ => 0

@[simp] def droppedBefore : Event → Amount
  | .dropBeforeEnqueue item _ => amount item
  | _ => 0

@[simp] def droppedAfter : Event → Amount
  | .dropAfterDequeue _ item _ => amount item
  | _ => 0

end Event

variable (kind : Event → Amount)

def posted (events : List Event) : Amount := (events.map kind).sum

@[simp] theorem posted_nil : posted kind [] = 0 := rfl

@[simp] theorem posted_cons (event : Event) (events : List Event) :
    posted kind (event :: events) = kind event + posted kind events := by
  simp [posted]

@[simp] theorem posted_append (events events' : List Event) :
    posted kind (events ++ events') = posted kind events + posted kind events' := by
  simp [posted]

structure Child where
  queueDisc : CoDelDisc
  handedOut : List QueueDiscItem
  batchDropped : List QueueDiscItem

def FqCoDelFlow.child (flow : FqCoDelFlow) : Child :=
  ⟨flow.queueDisc, flow.handedOut, flow.batchDropped⟩

/-- A disc with its internal queue or its children. -/
class Tree (σ : Type) extends Subclass σ where
  internal : σ → List QueueDiscItem
  children : σ → List Child

/-- The packets in the internal queue and in the children. -/
def Tree.held {σ : Type} [Tree σ] (own : σ) : List QueueDiscItem :=
  Tree.internal own ++ (Tree.children own).flatMap fun c => c.queueDisc.own.internalQueue

instance : Tree CoDelQueueDisc where
  internal := CoDelQueueDisc.internalQueue
  children _ := []

instance : Tree FqCoDelQueueDisc where
  internal _ := []
  children q := q.classes.map FqCoDelFlow.child

namespace QueueDisc

variable {σ : Type} {d d' d'' : QueueDisc σ} {events events' : List Event}

/-- From one state of a disc to another these events have been fired and are in the counters. -/
structure Posted (events : List Event) (d d' : QueueDisc σ) : Prop where
  fired : d'.fired = d.fired ++ events
  size : d'.m_size =
    d.m_size + queued (posted Event.enqueued events) - queued (posted Event.dequeued events)
  received : d'.m_stats.nTotalReceived = d.m_stats.nTotalReceived
  enqueued : d'.m_stats.nTotalEnqueued =
    d.m_stats.nTotalEnqueued + counted (posted Event.enqueued events)
  dequeued : d'.m_stats.nTotalDequeued =
    d.m_stats.nTotalDequeued + counted (posted Event.dequeued events)
  before : d'.m_stats.nTotalDroppedBeforeEnqueue =
    d.m_stats.nTotalDroppedBeforeEnqueue + counted (posted Event.droppedBefore events)
  after : d'.m_stats.nTotalDroppedAfterDequeue =
    d.m_stats.nTotalDroppedAfterDequeue + counted (posted Event.droppedAfter events)
  requeued : d'.m_requeued = d.m_requeued
  peeked : d'.m_peeked = d.m_peeked

theorem Posted.refl (d : QueueDisc σ) : Posted [] d d := by
  constructor <;> simp

theorem Posted.trans (h : Posted events d d') (h' : Posted events' d' d'') :
    Posted (events ++ events') d d'' where
  fired := by rw [h'.fired, h.fired, append_assoc]
  size := by
    rw [h'.size, h.size, posted_append, posted_append, map_add, map_add]
    abel
  received := h'.received.trans h.received
  enqueued := by rw [h'.enqueued, h.enqueued, posted_append, map_add, add_assoc]
  dequeued := by rw [h'.dequeued, h.dequeued, posted_append, map_add, add_assoc]
  before := by rw [h'.before, h.before, posted_append, map_add, add_assoc]
  after := by rw [h'.after, h.after, posted_append, map_add, add_assoc]
  requeued := h'.requeued.trans h.requeued
  peeked := h'.peeked.trans h.peeked

theorem Posted.congr (h : Posted events d d') (hfired : d''.fired = d'.fired)
    (hsize : d''.m_size = d'.m_size)
    (hstats : d''.m_stats = d'.m_stats) (hrequeued : d''.m_requeued = d'.m_requeued)
    (hpeeked : d''.m_peeked = d'.m_peeked) : Posted events d d'' := by
  constructor
  · rw [hfired, h.fired]
  · rw [hsize, h.size]
  · rw [hstats, h.received]
  · rw [hstats, h.enqueued]
  · rw [hstats, h.dequeued]
  · rw [hstats, h.before]
  · rw [hstats, h.after]
  · rw [hrequeued, h.requeued]
  · rw [hpeeked, h.peeked]

theorem posted_packetEnqueued (d : QueueDisc σ) (item : QueueDiscItem) :
    Posted [.enqueue item] d (d.packetEnqueued item) := by
  constructor <;> simp [packetEnqueued, fire]

theorem posted_dropBeforeEnqueue (d : QueueDisc σ) (item : QueueDiscItem) (reason : DropReason) :
    Posted [.dropBeforeEnqueue item reason] d (d.dropBeforeEnqueue item reason) := by
  constructor <;> simp [dropBeforeEnqueue, fire]

theorem posted_packetDequeued (d : QueueDisc σ) (item : QueueDiscItem) :
    Posted (if d.m_peeked then [] else [.dequeue item]) d (d.packetDequeued item) := by
  rw [packetDequeued]
  split_ifs with hpeeked
  · exact .refl d
  · constructor <;> simp [fire]

theorem posted_taken (hpeeked : d.m_peeked = false) (item : QueueDiscItem) :
    Posted [.dequeue item] d (d.packetDequeued item) := by
  have hpop := posted_packetDequeued d item
  rwa [hpeeked, if_neg Bool.false_ne_true] at hpop

theorem posted_dropAfterDequeue (d : QueueDisc σ) (item : QueueDiscItem) (reason : DropReason)
    (now : ℕ) :
    Posted ((if d.m_peeked then [.dequeue item] else []) ++ [.dropAfterDequeue now item reason]) d
      (d.dropAfterDequeue now item reason) := by
  cases hpeeked : d.m_peeked <;> constructor <;>
    simp [dropAfterDequeue, packetDequeued, hpeeked, fire]

/-! ## Packets drawn from a disc -/

/-- Packets of so much are in hand, and what else is gone has been dropped; in a peek those in hand
are not counted as dequeued. -/
def Draws [Tree σ] (hand : Amount) (d d' : QueueDisc σ) : Prop :=
  ∃ events, Posted events d d' ∧ posted Event.enqueued events = 0 ∧
    posted Event.droppedBefore events = 0 ∧
    posted Event.dequeued events = posted Event.droppedAfter events + (if d.m_peeked then 0
      else hand) ∧
    total (Tree.held d.own) = total (Tree.held d'.own) + posted Event.droppedAfter events + hand

variable [Tree σ] {item : QueueDiscItem}

theorem Draws.refl (d : QueueDisc σ) : Draws 0 d d := ⟨[], .refl d, rfl, rfl, by simp, by simp⟩

theorem Draws.congr {hand : Amount} (h : Draws hand d d') (hfired : d''.fired = d'.fired)
    (hsize : d''.m_size = d'.m_size)
    (hstats : d''.m_stats = d'.m_stats) (hrequeued : d''.m_requeued = d'.m_requeued)
    (hpeeked : d''.m_peeked = d'.m_peeked)
    (held : total (Tree.held d''.own) = total (Tree.held d'.own)) : Draws hand d d'' := by
  obtain ⟨events, hposted, henqueued, hbefore, hdequeued, hheld⟩ := h
  exact ⟨events, hposted.congr hfired hsize hstats hrequeued hpeeked, henqueued, hbefore,
    hdequeued, by rw [held, hheld]⟩

theorem Draws.idle {hand : Amount} (h : Draws hand d d') (hposted : Posted events d' d'')
    (idle : ∀ event ∈ events, event.enqueued = 0 ∧ event.dequeued = 0 ∧ event.droppedBefore = 0 ∧
      event.droppedAfter = 0)
    (held : total (Tree.held d''.own) = total (Tree.held d'.own)) : Draws hand d d'' := by
  obtain ⟨before, hbefore, hsums⟩ := h
  have hzero : ∀ kind : Event → Amount, (∀ event ∈ events, kind event = 0) →
      posted kind events = 0 := fun kind hkind =>
    sum_eq_zero fun n hn => by
      obtain ⟨event, hevent, rfl⟩ := mem_map.mp hn
      exact hkind event hevent
  refine ⟨_, hbefore.trans hposted, ?_⟩
  simp only [posted_append, hzero _ fun event he => (idle event he).1, hzero _ fun event he =>
    (idle event he).2.1, hzero _ fun event he => (idle event he).2.2.1, hzero _ fun event he =>
      (idle event he).2.2.2, add_zero, held]
  exact hsums

theorem Draws.take (h : Draws 0 d d') (own : σ)
    (held : total (Tree.held d'.own) = amount item + total (Tree.held own)) :
    Draws (amount item) d ({ d' with own := own }.packetDequeued item) := by
  obtain ⟨events, hposted, henqueued, hbefore, hdequeued, hheld⟩ := h
  have hpop := posted_packetDequeued { d' with own := own } item
  have hrefl : Posted events d { d' with own := own } := hposted.congr rfl rfl rfl rfl rfl
  refine ⟨_, hrefl.trans hpop, ?_⟩
  rw [show ({ d' with own := own } : QueueDisc σ).m_peeked = d.m_peeked from hposted.peeked,
    packetDequeued_own]
  cases hpeeked : d.m_peeked
  · simp only [hpeeked] at hdequeued
    simp only [Bool.false_eq_true, if_false, posted_append, posted_cons, posted_nil, Event.enqueued,
      Event.dequeued, Event.droppedBefore, Event.droppedAfter, henqueued, hbefore, hdequeued]
    exact ⟨by simp, by simp, by simp, by linear_combination hheld + held⟩
  · simp only [if_true, append_nil, henqueued, hbefore, hdequeued]
    exact ⟨trivial, trivial, by simp, by linear_combination hheld + held⟩

theorem Draws.drop (h : Draws (amount item) d d') (now : ℕ) (reason : DropReason) :
    Draws 0 d (d'.dropAfterDequeue now item reason) := by
  obtain ⟨events, hposted, henqueued, hbefore, hdequeued, hheld⟩ := h
  have hdrop := posted_dropAfterDequeue d' item reason now
  refine ⟨_, hposted.trans hdrop, ?_⟩
  rw [hposted.peeked, dropAfterDequeue_own]
  cases hpeeked : d.m_peeked
  · simp only [hpeeked, Bool.false_eq_true, if_false] at hdequeued
    simp only [Bool.false_eq_true, if_false, nil_append, posted_append, posted_cons, posted_nil,
      Event.enqueued,
      Event.dequeued, Event.droppedBefore, Event.droppedAfter, henqueued, hbefore, hdequeued]
    exact ⟨by simp, by simp, by simp, by linear_combination hheld⟩
  · simp only [hpeeked, if_true] at hdequeued
    simp only [if_true, posted_append, posted_cons, posted_nil, Event.enqueued, Event.dequeued,
      Event.droppedBefore, Event.droppedAfter, henqueued, hbefore, hdequeued]
    exact ⟨by simp, by simp, by simp, by linear_combination hheld⟩

/-- A packet is let in or not, and what is gone has been dropped. -/
def Accepts (item : QueueDiscItem) (d d' : QueueDisc σ) : Prop :=
  ∃ events, Posted events d d' ∧ posted Event.enqueued events + posted Event.droppedBefore events =
    amount item ∧ posted Event.dequeued events = posted Event.droppedAfter events ∧
    total (Tree.held d.own) + posted Event.enqueued events =
      total (Tree.held d'.own) + posted Event.droppedAfter events

theorem accepts_dropBeforeEnqueue (d : QueueDisc σ) (item : QueueDiscItem) (reason : DropReason) :
    Accepts item d (d.dropBeforeEnqueue item reason) := by
  refine ⟨_, posted_dropBeforeEnqueue d item reason, ?_⟩
  simp

theorem accepts_packetEnqueued (d : QueueDisc σ) (item : QueueDiscItem) (own : σ)
    (held : total (Tree.held own) = total (Tree.held d.own) + amount item) :
    Accepts item d ({ d with own := own }.packetEnqueued item) := by
  have hrefl : Posted [] d { d with own := own } := (Posted.refl d).congr rfl rfl rfl rfl rfl
  refine ⟨_, hrefl.trans (posted_packetEnqueued { d with own := own } item), ?_⟩
  simp [held]

end QueueDisc

namespace CoDelDisc

open QueueDisc

variable {d d' : CoDelDisc} {item : QueueDiscItem} {hand : Amount} (now : ℕ)

@[simp] theorem total_held (q : CoDelQueueDisc) : total (Tree.held q) = total q.internalQueue := by
  simp [Tree.held, Tree.internal, Tree.children]

theorem draws_popped {rest : List QueueDiscItem} (h : Draws 0 d d')
    (hqueue : d'.own.internalQueue = item :: rest) :
    Draws (amount item) d (popped item rest d') := by
  refine h.take _ ?_
  rw [total_held, total_held, hqueue, total_cons]

theorem draws_okToDrop (h : Draws hand d d') (item : QueueDiscItem) :
    Draws hand d (okToDrop now item d').2 := by
  have hfired : Draws hand d (d'.fire (.examined now item d'.own.internalQueue)) := by
    refine h.idle (?_ : Posted [.examined now item d'.own.internalQueue] _ _) ?_ rfl
    · constructor <;> simp [fire]
    · simp
  rw [okToDrop]
  split_ifs
  · exact hfired.congr rfl rfl rfl rfl rfl rfl
  · exact hfired.congr rfl rfl rfl rfl rfl rfl
  · exact hfired

theorem draws_dropCounted (h : Draws (amount item) d d') : Draws 0 d (dropCounted now item d') := by
  have hdrop := h.drop now .TARGET_EXCEEDED_DROP
  refine hdrop.congr rfl rfl rfl rfl rfl ?_
  rw [total_held, dropCounted_internalQueue, total_held, dropAfterDequeue_own]

theorem draws_keepDropping (h : Draws hand d d') (ok : Bool) :
    Draws hand d (keepDropping ok d') := by
  refine h.congr (keepDropping_fired d' ok) ?_ ?_ ?_ ?_ ?_
  · cases ok <;> rfl
  · cases ok <;> rfl
  · cases ok <;> rfl
  · cases ok <;> rfl
  · rw [total_held, keepDropping_internalQueue, total_held]

theorem draws_noItem (h : Draws hand d d') : Draws hand d (noItem d') :=
  h.congr rfl rfl rfl rfl rfl rfl

theorem draws_dropWhile {rest : List QueueDiscItem} (h : Draws (amount item) d d')
    (hqueue : d'.own.internalQueue = rest) :
    Draws (total (dropWhile now item rest d').1.toList) d (dropWhile now item rest d').2 := by
  induction rest generalizing item d' with
  | nil =>
    rw [dropWhile]
    split_ifs
    · exact draws_keepDropping (draws_noItem (draws_dropCounted now h)) false
    · simpa using h
  | cons next rest ih =>
    rw [dropWhile]
    split_ifs
    · have hdropped := draws_dropCounted now h
      have hpopped := draws_popped hdropped ((dropCounted_internalQueue now item d').trans hqueue)
      have hexamined := draws_okToDrop now hpopped next
      have hleft :
          (okToDrop now next (popped next rest (dropCounted now item d'))).2.own.internalQueue =
            rest := by
        rw [okToDrop_internalQueue, popped_internalQueue]
      generalize okToDrop now next (popped next rest (dropCounted now item d')) =
        out at hexamined hleft ⊢
      exact ih (draws_keepDropping hexamined out.1)
        ((keepDropping_internalQueue out.2 out.1).trans hleft)
    · simpa using h

theorem draws_nextItem (h : Draws 0 d d') : Draws (total (nextItem now d').1.toList) d
    (nextItem now d').2 := by
  rw [nextItem]
  cases hqueue : d'.own.internalQueue with
  | nil => exact draws_noItem h
  | cons next rest => simpa using draws_okToDrop now (draws_popped h hqueue) next

theorem draws_dropFirst (h : Draws (amount item) d d') :
    Draws (total (dropFirst now item d').1.toList) d (dropFirst now item d').2 := by
  have hnext := draws_nextItem now (h.drop now .TARGET_EXCEEDED_DROP)
  rw [dropFirst]
  refine hnext.congr rfl rfl rfl rfl rfl ?_
  rw [total_held, CoDelQueueDisc.enterDropping_internalQueue, total_held]

theorem draws_dropOrNot (h : Draws (amount item) d d') (ok : Bool) :
    Draws (total (dropOrNot now item ok d').1.toList) d (dropOrNot now item ok d').2 := by
  have hkept : Draws (total (some item).toList) d d' := by simpa using h
  rw [dropOrNot]
  cases d'.own.m_dropping with
  | true =>
    cases ok with
    | true => exact draws_dropWhile now h rfl
    | false => exact hkept.congr rfl rfl rfl rfl rfl rfl
  | false =>
    cases ok with
    | true => exact draws_dropFirst now h
    | false => exact hkept

theorem draws_doDequeue (d : CoDelDisc) : Draws (total (doDequeue now d).1.toList) d
    (doDequeue now d).2 := by
  have hrefl := Draws.refl d
  rw [doDequeue]
  cases hqueue : d.own.internalQueue with
  | nil => exact hrefl.congr rfl rfl rfl rfl rfl (by rw [total_held, total_held, hqueue])
  | cons item rest =>
    exact draws_dropOrNot now (draws_okToDrop now (draws_popped hrefl hqueue) item) _

theorem accepts_doEnqueue (item : QueueDiscItem) (d : CoDelDisc) :
    Accepts item d (doEnqueue item d).2 := by
  rw [doEnqueue]
  split_ifs
  · exact accepts_dropBeforeEnqueue d item _
  · exact accepts_dropBeforeEnqueue d item _
  · refine accepts_packetEnqueued d item _ ?_
    simp

end CoDelDisc

/-! ## Books -/

theorem amount_nonneg (item : QueueDiscItem) : 0 ≤ amount item :=
  Prod.mk_le_mk.mpr ⟨zero_le_one, Int.natCast_nonneg _⟩

theorem total_nonneg (items : List QueueDiscItem) : 0 ≤ total items := by
  induction items with
  | nil => exact le_rfl
  | cons item items ih => exact total_cons item items ▸ add_nonneg (amount_nonneg item) ih

theorem posted_nonneg {kind : Event → Amount} (nonneg : ∀ event, 0 ≤ kind event)
    (events : List Event) : 0 ≤ posted kind events := by
  induction events with
  | nil => exact le_rfl
  | cons event events ih => exact posted_cons kind event events ▸ add_nonneg (nonneg event) ih

theorem Event.droppedBefore_nonneg : ∀ event : Event, 0 ≤ event.droppedBefore
  | .dropBeforeEnqueue item _ => amount_nonneg item
  | .enqueue _ | .dequeue _ | .dropAfterDequeue _ _ _ | .examined _ _ _ | .batchDropped _ => le_rfl

theorem Event.droppedAfter_nonneg : ∀ event : Event, 0 ≤ event.droppedAfter
  | .dropAfterDequeue _ item _ => amount_nonneg item
  | .enqueue _ | .dequeue _ | .dropBeforeEnqueue _ _ | .examined _ _ _ | .batchDropped _ => le_rfl

namespace QueueDisc

variable {σ : Type} {d d' : QueueDisc σ} {events : List Event}
  {pending pending' held held' out out' all all' : Amount}

def peekedItem (d : QueueDisc σ) : List QueueDiscItem :=
  if d.m_peeked then d.m_requeued.toList else []

def requeuedItem (d : QueueDisc σ) : List QueueDiscItem :=
  if d.m_peeked then [] else d.m_requeued.toList

/-- The counters of a disc that holds so much besides a peeked packet, and from which so much was
handed out; what is pending has been received, but is neither enqueued nor dropped yet. No more than
`all` was ever received. -/
structure Books (pending held out all : Amount) (d : QueueDisc σ) : Prop where
  size : d.m_size = queued (held + total d.peekedItem)
  received : d.m_stats.nTotalReceived =
    d.m_stats.nTotalDroppedBeforeEnqueue + d.m_stats.nTotalEnqueued + counted pending
  enqueued : d.m_stats.nTotalEnqueued =
    counted (held + total d.peekedItem) + d.m_stats.nTotalDequeued
  dequeued : d.m_stats.nTotalDequeued =
    counted (out + total d.requeuedItem) + d.m_stats.nTotalDroppedAfterDequeue
  drops : ∃ before after, 0 ≤ before ∧ 0 ≤ after ∧
    d.m_stats.nTotalDroppedBeforeEnqueue = counted before ∧
    d.m_stats.nTotalDroppedAfterDequeue = counted after ∧
    pending + (held + total d.peekedItem) + (out + total d.requeuedItem) + before + after ≤ all

/-- A packet that is peeked, requeued or handed out is only moved. -/
theorem Books.move (h : Books pending held out all d) (hsize : d'.m_size = d.m_size)
    (hstats : d'.m_stats = { d.m_stats with nTotalRequeued := d'.m_stats.nTotalRequeued })
    (hheld : held' + total d'.peekedItem = held + total d.peekedItem)
    (hout : out' + total d'.requeuedItem = out + total d.requeuedItem) :
    Books pending held' out' all d' := by
  obtain ⟨before, after, hnonneg, hnonneg', hbefore, hafter, hsum⟩ := h.drops
  constructor
  · rw [hsize, hheld]
    exact h.size
  · rw [hstats]
    exact h.received
  · rw [hstats, hheld]
    exact h.enqueued
  · rw [hstats, hout]
    exact h.dequeued
  · rw [hstats, hheld, hout]
    exact ⟨before, after, hnonneg, hnonneg', hbefore, hafter, hsum⟩

theorem Books.congr (h : Books pending held out all d) (hsize : d'.m_size = d.m_size)
    (hstats : d'.m_stats = d.m_stats) (hrequeued : d'.m_requeued = d.m_requeued)
    (hpeeked : d'.m_peeked = d.m_peeked) : Books pending held out all d' := by
  refine h.move hsize (by rw [hstats]) ?_ ?_
  · rw [peekedItem, hpeeked, hrequeued, peekedItem]
  · rw [requeuedItem, hpeeked, hrequeued, requeuedItem]

theorem Books.mono (h : Books pending held out all d) (hall : all ≤ all') :
    Books pending held out all' d := by
  obtain ⟨before, after, hnonneg, hnonneg', hbefore, hafter, hsum⟩ := h.drops
  exact { h with drops := ⟨before, after, hnonneg, hnonneg', hbefore, hafter, hsum.trans hall⟩ }

theorem Books.receive (h : Books pending held out all d) (n : Amount) :
    Books (pending + n) held out (all + n) { d with
      m_stats := { d.m_stats with nTotalReceived := d.m_stats.nTotalReceived + counted n } } where
  size := h.size
  received := by
    dsimp only
    rw [h.received, map_add, add_assoc]
  enqueued := h.enqueued
  dequeued := h.dequeued
  drops := by
    obtain ⟨before, after, hnonneg, hnonneg', hbefore, hafter, hsum⟩ := h.drops
    refine ⟨before, after, hnonneg, hnonneg', hbefore, hafter, ?_⟩
    calc
      _ = pending + (held + total d.peekedItem) + (out + total d.requeuedItem) + before +
        after + n := by
        rw [peekedItem, requeuedItem, peekedItem, requeuedItem]
        abel
      _ ≤ all + n := by gcongr

theorem Books.post (h : Books pending held out all d) (hposted : Posted events d d')
    (hpending : pending' + (posted Event.enqueued events + posted Event.droppedBefore events) =
      pending)
    (hheld : held' + posted Event.dequeued events = held + posted Event.enqueued events)
    (hout : out' + posted Event.droppedAfter events = out + posted Event.dequeued events) :
    Books pending' held' out' all d' := by
  have hpeeked : d'.peekedItem = d.peekedItem := by
    rw [peekedItem, hposted.peeked, hposted.requeued, peekedItem]
  have hrequeued : d'.requeuedItem = d.requeuedItem := by
    rw [requeuedItem, hposted.peeked, hposted.requeued, requeuedItem]
  obtain ⟨before, after, hnonneg, hnonneg', hbefore, hafter, hsum⟩ := h.drops
  have hheld' := eq_sub_of_add_eq hheld
  have hout' := eq_sub_of_add_eq hout
  constructor
  · rw [hpeeked, hposted.size, h.size, hheld']
    simp only [map_add, map_sub]
    abel
  · rw [hposted.received, hposted.before, hposted.enqueued, h.received, ← hpending]
    simp only [map_add]
    abel
  · rw [hposted.enqueued, hposted.dequeued, hpeeked, h.enqueued, hheld']
    simp only [map_add, map_sub]
    abel
  · rw [hposted.dequeued, hposted.after, hrequeued, h.dequeued, hout']
    simp only [map_add, map_sub]
    abel
  · refine ⟨before + posted Event.droppedBefore events, after + posted Event.droppedAfter events,
      add_nonneg hnonneg (posted_nonneg Event.droppedBefore_nonneg events),
      add_nonneg hnonneg' (posted_nonneg Event.droppedAfter_nonneg events), ?_, ?_,
        le_of_eq_of_le ?_ hsum⟩
    · rw [hposted.before, hbefore, map_add]
    · rw [hposted.after, hafter, map_add]
    · rw [hpeeked, hrequeued]
      linear_combination hpending + hheld + hout

theorem Books.out_le (h : Books pending held out all d) (hpending : 0 ≤ pending)
    (hheld : 0 ≤ held) : out ≤ all := by
  obtain ⟨before, after, hnonneg, hnonneg', -, -, hsum⟩ := h.drops
  have hin := add_nonneg hpending (add_nonneg hheld (total_nonneg d.peekedItem))
  have hrest :=
    add_nonneg (add_nonneg (add_nonneg hin (total_nonneg d.requeuedItem)) hnonneg) hnonneg'
  refine (le_add_of_nonneg_right hrest).trans (le_of_eq_of_le ?_ hsum)
  abel

variable {item : QueueDiscItem}

theorem Books.unpeek (h : Books pending held out all d) (hrequeued : d.m_requeued = some item)
    (hpeeked : d.m_peeked = true) :
    Books pending (held + amount item) out all
    { d with m_requeued := none, m_peeked := false } := by
  refine h.move rfl rfl ?_ ?_ <;> simp [peekedItem, requeuedItem, hrequeued, hpeeked]

theorem Books.handOut (h : Books pending held out all d) (hrequeued : d.m_requeued = some item)
    (hpeeked : d.m_peeked = false) :
    Books pending held (out + amount item) all { d with m_requeued := none } := by
  refine h.move rfl rfl ?_ ?_ <;> simp [peekedItem, requeuedItem, hrequeued, hpeeked]

theorem Books.keepPeeked (item : Option QueueDiscItem)
    (h : Books pending (held + total item.toList) out all d) (hrequeued : d.m_requeued = none) :
    Books pending held out all { d with m_requeued := item, m_peeked := item.isSome && true } := by
  refine h.move rfl rfl ?_ ?_ <;> cases item <;> simp [peekedItem, requeuedItem, hrequeued]

theorem Books.takeBack (h : Books pending held (out + amount item) all d)
    (hrequeued : d.m_requeued = none) (hpeeked : d.m_peeked = false) :
    Books pending held out all (d.requeue item) := by
  refine h.move rfl rfl ?_ ?_ <;> simp [requeue, peekedItem, requeuedItem, hrequeued, hpeeked]

variable [Tree σ]

theorem Accepts.books (haccepts : Accepts item d d')
    (h : Books (amount item) (total (Tree.held d.own)) out all d) :
    Books 0 (total (Tree.held d'.own)) out all d' := by
  obtain ⟨events, hposted, hreceived, hdequeued, hheld⟩ := haccepts
  refine h.post hposted ?_ ?_ ?_
  · rw [hreceived, zero_add]
  · rw [hdequeued, hheld]
  · rw [hdequeued]

theorem Books.draw {hand : Amount} (h : Books pending (total (Tree.held d.own)) out all d)
    (hdraws : Draws hand d d') (hpeeked : d.m_peeked = false) :
    Books pending (total (Tree.held d'.own)) (out + hand) all d' := by
  obtain ⟨events, hposted, henqueued, hbefore, hdequeued, hheld⟩ := hdraws
  rw [hpeeked, if_neg Bool.false_ne_true] at hdequeued
  refine h.post hposted ?_ ?_ ?_
  · rw [henqueued, hbefore, add_zero, add_zero]
  · rw [hdequeued, henqueued, hheld]
    abel
  · rw [hdequeued]
    abel

end QueueDisc

/-! ## FQ-CoDel -/

structure Child.Kept (all : Amount) (c : Child) : Prop where
  books : QueueDisc.Books 0 (total c.queueDisc.own.internalQueue)
    (total c.handedOut + total c.batchDropped) all c.queueDisc
  requeued : c.queueDisc.m_requeued = none
  peeked : c.queueDisc.m_peeked = false

namespace Child

open QueueDisc

variable {c : Child} {all all' : Amount}

theorem Kept.mono (h : c.Kept all) (hall : all ≤ all') : c.Kept all' :=
  ⟨h.books.mono hall, h.requeued, h.peeked⟩

theorem Kept.enqueue (h : c.Kept all) (now : ℕ) (item : QueueDiscItem) : ∃ ok c', ∃ d : CoDelDisc,
    QueueDisc.enqueue now { c.queueDisc with fired := [] } item = .ok (ok, c') ∧ d.fired =
    [] ∧ d.own = c.queueDisc.own ∧
      Accepts item d c' ∧
      Kept (all + amount item) ⟨c', c.handedOut, c.batchDropped⟩ := by
  obtain ⟨d, hd⟩ : ∃ d : CoDelDisc, d =
    { c.queueDisc with fired := [], m_stats := { c.queueDisc.m_stats with
    nTotalReceived := c.queueDisc.m_stats.nTotalReceived + counted (amount item) } } := ⟨_, rfl⟩
  have hrun : QueueDisc.enqueue now { c.queueDisc with fired := [] } item =
      .ok (doEnqueue (item.setTimeStamp now) d) := by
    rw [hd]
    rfl
  have hbooks : Books (amount item) (total (Tree.held d.own))
      (total c.handedOut + total c.batchDropped) (all + amount item) d := by
    have hreceived := h.books.receive (amount item)
    rw [zero_add] at hreceived
    rw [hd, total_held]
    exact hreceived.congr rfl rfl rfl rfl
  have haccepts := accepts_doEnqueue (item.setTimeStamp now) d
  refine ⟨_, _, d, hrun, by rw [hd], by rw [hd], haccepts, ?_⟩
  obtain ⟨events, hposted, -⟩ := id haccepts
  have hkept := haccepts.books hbooks
  rw [total_held] at hkept
  have hrequeued : d.m_requeued = none := by
    rw [hd]
    exact h.requeued
  have hpeeked : d.m_peeked = false := by
    rw [hd]
    exact h.peeked
  exact ⟨hkept, hposted.requeued.trans hrequeued, hposted.peeked.trans hpeeked⟩

theorem Kept.dequeue (h : c.Kept all) (now : ℕ) : ∃ item c',
    QueueDisc.dequeue now { c.queueDisc with fired := [] } = .ok (item, c') ∧
      Draws (total item.toList) { c.queueDisc with fired := [] } c' ∧
      Kept all ⟨c', c.handedOut ++ item.toList, c.batchDropped⟩ := by
  have hrun : QueueDisc.dequeue now { c.queueDisc with fired := [] } =
      .ok (doDequeue now { c.queueDisc with fired := [] }) := by
    rw [QueueDisc.dequeue, show ({ c.queueDisc with fired := [] } : CoDelDisc).m_requeued =
      none from h.requeued]
    rfl
  have hdraws := draws_doDequeue now { c.queueDisc with fired := [] }
  have hbooks : Books 0 (total (Tree.held c.queueDisc.own))
      (total c.handedOut + total c.batchDropped) all
      { c.queueDisc with fired := [] } := by
    rw [total_held]
    exact h.books.congr rfl rfl rfl rfl
  refine ⟨_, _, hrun, hdraws, ?_⟩
  have hkept := hbooks.draw hdraws h.peeked
  rw [total_held] at hkept
  obtain ⟨events, hposted, -⟩ := hdraws
  refine ⟨?_, hposted.requeued.trans h.requeued, hposted.peeked.trans h.peeked⟩
  rw [total_append, add_right_comm]
  exact hkept

end Child

namespace FqCoDelDisc

open QueueDisc

variable {d d' : FqCoDelDisc} {q q' : FqCoDelQueueDisc} {flow flow' : FqCoDelFlow} {i : ℕ}
  {hand all all' : Amount} (now : ℕ)

/-- The children, and what is made a child, keep their books. -/
structure ChildrenKept (all : Amount) (q : FqCoDelQueueDisc) : Prop where
  children : ∀ c ∈ Tree.children q, c.Kept all
  factory : Child.Kept all ⟨q.factory, [], []⟩
  empty : q.factory.own.internalQueue = []

theorem ChildrenKept.mono (h : ChildrenKept all q) (hall : all ≤ all') : ChildrenKept all' q :=
  ⟨fun c hc => (h.children c hc).mono hall, h.factory.mono hall, h.empty⟩

def SameChildren (q q' : FqCoDelQueueDisc) : Prop :=
  Tree.children q' = Tree.children q ∧ q'.factory = q.factory

theorem SameChildren.kept (h : SameChildren q q') (hkept : ChildrenKept all q) :
    ChildrenKept all q' := by
  refine ⟨?_, ?_, ?_⟩
  · rw [h.1]
    exact hkept.children
  · rw [h.2]
    exact hkept.factory
  · rw [h.2]
    exact hkept.empty

theorem SameChildren.held (h : SameChildren q q') : Tree.held q' = Tree.held q := by
  rw [Tree.held, h.1]
  rfl

theorem SameChildren.trans {q'' : FqCoDelQueueDisc} (h : SameChildren q q')
    (h' : SameChildren q' q'') : SameChildren q q'' :=
  ⟨h'.1.trans h.1, h'.2.trans h.2⟩

theorem sameChildren_modifyFlow (f : FqCoDelFlow → FqCoDelFlow)
    (hf : ∀ flow, (f flow).child = flow.child) (i : ℕ) (new old : List ℕ) :
      SameChildren q { q.modifyFlow i f with m_newFlows := new, m_oldFlows := old } := by
  refine ⟨ext_getElem? fun j => ?_, rfl⟩
  change ((q.classes.modify i f).map FqCoDelFlow.child)[j]? = (q.classes.map FqCoDelFlow.child)[j]?
  rw [List.getElem?_map, List.getElem?_map, List.getElem?_modify]
  cases q.classes[j]? with
  | none => rfl
  | some flow =>
    by_cases hij : i = j
    · simp [hij, hf]
    · simp [hij]

theorem sameChildren_passNew (l : List ℕ) : SameChildren q (passNew l q).2 := by
  induction l generalizing q with
  | nil => exact ⟨rfl, rfl⟩
  | cons i rest ih =>
    rw [passNew]
    split_ifs
    · exact (sameChildren_modifyFlow (fun flow =>
        (flow.increaseDeficit q.m_quantum).setStatus .OLD_FLOW) (fun _ => rfl) i _ _).trans ih
    · exact ⟨rfl, rfl⟩

theorem sameChildren_passOld (rounds : ℕ) :
    Ensures (passOld rounds q) (fun out => SameChildren q out.2) fun _ => True := by
  induction rounds generalizing q with
  | zero => trivial
  | succ rounds ih =>
    rw [passOld]
    cases hold : q.m_oldFlows with
    | nil => exact ⟨rfl, rfl⟩
    | cons i rest =>
      refine Ensures.ite (fun _ => ih.weaken fun out hout => ?_) fun _ => ⟨rfl, rfl⟩
      exact (sameChildren_modifyFlow (fun flow => flow.increaseDeficit q.m_quantum) (fun _ => rfl) i
        _ _).trans hout

theorem sameChildren_select : Ensures q.select (fun out => SameChildren q out.2) fun _ => True := by
  have hnew := sameChildren_passNew (q := q) q.m_newFlows
  rw [select]
  generalize passNew q.m_newFlows q = out at hnew
  obtain ⟨found, q'⟩ := out
  cases found with
  | some i => exact hnew
  | none => exact (sameChildren_passOld q'.roundsOld).weaken fun out hout => hnew.trans hout

theorem sameChildren_retire (i : ℕ) : SameChildren q (q.retire i) := by
  rw [retire]
  split_ifs
  · exact sameChildren_modifyFlow (fun flow => flow.setStatus .OLD_FLOW) (fun _ => rfl) i _ _
  · exact sameChildren_modifyFlow (fun flow => flow.setStatus .INACTIVE) (fun _ => rfl) i _ _

theorem activated_child (flow : FqCoDelFlow) (n : ℤ) :
    ((flow.setStatus .NEW_FLOW).setDeficit n).child = flow.child := rfl

theorem sameChildren_activate (i : ℕ) : SameChildren q (q.activate i) := by
  rw [activate]
  cases q.classes[i]? with
  | none => exact ⟨rfl, rfl⟩
  | some flow =>
    dsimp only
    split_ifs
    · exact sameChildren_modifyFlow (fun flow => (flow.setStatus .NEW_FLOW).setDeficit q.m_quantum)
        (fun flow => activated_child flow q.m_quantum) i _ _
    · exact ⟨rfl, rfl⟩

theorem flowOf_kept (h : ChildrenKept all q) (k : ℕ) :
    ChildrenKept all (q.flowOf k).2 ∧ total (Tree.held (q.flowOf k).2) = total (Tree.held q) := by
  rw [flowOf]
  cases q.m_flowsIndices.lookup k with
  | some i => exact ⟨h, rfl⟩
  | none =>
    refine ⟨⟨fun c hc => ?_, h.factory, h.empty⟩, ?_⟩
    · simp only [Tree.children, map_append, mem_append, map_cons, map_nil, mem_singleton] at hc
      rcases hc with hc | rfl
      · exact h.children c hc
      · exact h.factory
    · simp [Tree.held, Tree.children, Tree.internal, FqCoDelFlow.child, h.empty]

/-! ### Children -/

theorem total_children_set {l : List Child} {c : Child} (c' : Child) (hi : l[i]? = some c) :
    total ((l.set i c').flatMap fun c => c.queueDisc.own.internalQueue) +
      total c.queueDisc.own.internalQueue =
      total (l.flatMap fun c => c.queueDisc.own.internalQueue) +
        total c'.queueDisc.own.internalQueue := by
  induction l generalizing i with
  | nil => cases hi
  | cons first l ih =>
    cases i with
    | zero =>
      obtain rfl : first = c := by simpa using hi
      simp only [set_cons_zero, flatMap_cons, total_append]
      abel
    | succ i =>
      have hrest := ih (by simpa using hi)
      simp only [set_cons_succ, flatMap_cons, total_append]
      linear_combination hrest

theorem ChildrenKept.set (h : ChildrenKept all q) (hi : q.classes[i]? = some flow)
    (hflow : flow'.child.Kept all) :
    ChildrenKept all { q with classes := q.classes.set i flow' } ∧
      total (Tree.held { q with classes := q.classes.set i flow' }) +
        total flow.queueDisc.own.internalQueue =
        total (Tree.held q) + total flow'.queueDisc.own.internalQueue := by
  have hmap : (q.classes.set i flow').map FqCoDelFlow.child =
    (q.classes.map FqCoDelFlow.child).set i flow'.child :=
    map_set
  refine ⟨⟨fun c hc => ?_, h.factory, h.empty⟩, ?_⟩
  · change c ∈ (q.classes.set i flow').map FqCoDelFlow.child at hc
    rw [hmap] at hc
    rcases mem_or_eq_of_mem_set hc with hc | rfl
    · exact h.children c hc
    · exact hflow
  · have hget : (q.classes.map FqCoDelFlow.child)[i]? = some flow.child := by
      rw [List.getElem?_map, hi, Option.map_some]
    have hset := total_children_set flow'.child hget
    rw [← hmap] at hset
    exact hset

theorem ChildrenKept.child (h : ChildrenKept all q) (hi : q.classes[i]? = some flow) :
    flow.child.Kept all :=
  h.children _ (mem_map_of_mem (mem_of_getElem? hi))

theorem posted_heard (events : List Event) (d : FqCoDelDisc) : ∃ heardEvents, Posted heardEvents d
    (heard events d) ∧ posted Event.enqueued heardEvents = posted Event.enqueued events ∧
    posted Event.droppedBefore heardEvents = posted Event.droppedBefore events ∧
    posted Event.droppedAfter heardEvents = posted Event.droppedAfter events ∧
    posted Event.dequeued heardEvents =
      if d.m_peeked then posted Event.droppedAfter events else posted Event.dequeued events := by
  induction events generalizing d with
  | nil => exact ⟨[], .refl d, rfl, rfl, rfl, by simp⟩
  | cons event events ih =>
    obtain ⟨rest, hrest, henqueued, hbefore, hafter, hdequeued⟩ := ih (d.listen event)
    have hfirst : ∃ first, Posted first d (d.listen event) ∧
      posted Event.enqueued first = event.enqueued ∧
        posted Event.droppedBefore first = event.droppedBefore ∧
          posted Event.droppedAfter first = event.droppedAfter ∧
        posted Event.dequeued first = if d.m_peeked then event.droppedAfter
          else event.dequeued := by
      cases event with
      | enqueue item => exact ⟨_, posted_packetEnqueued d item, by simp⟩
      | dequeue item =>
        refine ⟨_, posted_packetDequeued d item, ?_⟩
        cases d.m_peeked <;> simp
      | dropBeforeEnqueue item reason =>
        exact ⟨_, posted_dropBeforeEnqueue d item _, by simp⟩
      | dropAfterDequeue now item reason =>
        refine ⟨_, posted_dropAfterDequeue d item _ now, ?_⟩
        cases d.m_peeked <;> simp
      | examined now item left =>
        exact ⟨[], .refl d, by simp⟩
      | batchDropped left =>
        exact ⟨[], .refl d, by simp⟩
    obtain ⟨first, hposted, henqueued', hbefore', hafter', hdequeued'⟩ := hfirst
    refine ⟨first ++ rest, hposted.trans hrest, ?_, ?_, ?_, ?_⟩
    · rw [posted_append, henqueued, henqueued', posted_cons]
    · rw [posted_append, hbefore, hbefore', posted_cons]
    · rw [posted_append, hafter, hafter', posted_cons]
    · rw [posted_append, hdequeued, hdequeued', hposted.peeked]
      split_ifs <;> rw [posted_cons]

theorem hear_accepts {c c' : CoDelDisc} {item : QueueDiscItem} {own : FqCoDelQueueDisc}
    (h : Accepts item c c') (fresh : c.fired = [])
    (hheld : total (Tree.held own) + total c.own.internalQueue =
      total (Tree.held d.own) + total c'.own.internalQueue) :
    Accepts item d (FqCoDelDisc.heard c'.fired { d with own := own }) := by
  obtain ⟨events, hposted, hreceived, hdequeued, hchild⟩ := h
  have hfired : c'.fired = events := by rw [hposted.fired, fresh, nil_append]
  obtain ⟨heardEvents, hheard, henqueued, hbefore, hafter, hdequeued'⟩ :=
    posted_heard c'.fired { d with own := own }
  have hrefl : Posted [] d { d with own := own } := (Posted.refl d).congr rfl rfl rfl rfl rfl
  rw [hfired] at henqueued hbefore hafter hdequeued'
  rw [total_held, total_held] at hchild
  refine ⟨heardEvents, hrefl.trans hheard, ?_, ?_, ?_⟩
  · rw [henqueued, hbefore, hreceived]
  · rw [hdequeued', hafter, hdequeued, ite_self]
  · rw [heard_own, henqueued, hafter]
    linear_combination hchild - hheld

theorem hear_draws {c c' : CoDelDisc} {own : FqCoDelQueueDisc} (h : Draws hand c c')
    (fresh : c.fired = []) (hpeeked : c.m_peeked = false) (hdraws : Draws 0 d d')
    (hheld : total (Tree.held own) + total c.own.internalQueue =
      total (Tree.held d'.own) + total c'.own.internalQueue) :
    Draws hand d (FqCoDelDisc.heard c'.fired { d' with own := own }) := by
  obtain ⟨events, hposted, henqueued, hbefore, hdequeued, hchild⟩ := h
  obtain ⟨first, hfirst, henqueued₁, hbefore₁, hdequeued₁, hheld₁⟩ := hdraws
  have hfired : c'.fired = events := by rw [hposted.fired, fresh, nil_append]
  obtain ⟨heardEvents, hheard, henqueued₂, hbefore₂, hafter₂, hdequeued₂⟩ :=
    posted_heard c'.fired { d' with own := own }
  have hown : Posted first d { d' with own := own } := hfirst.congr rfl rfl rfl rfl rfl
  rw [hfired] at henqueued₂ hbefore₂ hafter₂ hdequeued₂
  rw [hpeeked, if_neg Bool.false_ne_true] at hdequeued
  rw [total_held, total_held] at hchild
  rw [show ({ d' with own := own } : FqCoDelDisc).m_peeked =
    d.m_peeked from hfirst.peeked] at hdequeued₂
  refine ⟨first ++ heardEvents, hown.trans hheard, ?_, ?_, ?_, ?_⟩
  · rw [posted_append, henqueued₁, henqueued₂, henqueued, add_zero]
  · rw [posted_append, hbefore₁, hbefore₂, hbefore, add_zero]
  · rw [posted_append, posted_append, hdequeued₁, hdequeued₂, hafter₂]
    split_ifs
    · abel
    · rw [hdequeued]
      abel
  · rw [heard_own, posted_append, hafter₂]
    linear_combination hheld₁ + hchild - hheld

theorem childEnqueue_accepts (item : QueueDiscItem) (hkept : ChildrenKept all d.own) :
    Ensures (childEnqueue now i item d)
      (fun d' => ChildrenKept (all + amount item) d'.own ∧ Accepts item d d') DropFails := by
  rw [childEnqueue]
  dsimp only
  cases hi : d.own.classes[i]? with
  | none => exact .inl rfl
  | some flow =>
    obtain ⟨ok, c', c, hrun, hfresh, hown, haccepts, hchild⟩ := (hkept.child hi).enqueue now item
    have hflow : (FqCoDelFlow.child { flow with queueDisc := c' }).Kept (all + amount item) :=
      hchild
    have hmono := hkept.mono (le_add_of_nonneg_right (amount_nonneg item))
    obtain ⟨hkept', hheld⟩ := hmono.set hi hflow
    refine ensures_map.mpr ?_
    change Ensures (QueueDisc.enqueue now { flow.child.queueDisc with fired := [] } item) _ _
    rw [hrun]
    refine ⟨?_, ?_⟩
    · rw [heard_own]
      exact hkept'
    · refine hear_accepts haccepts hfresh ?_
      rw [hown]
      exact hheld

theorem childDequeue_draws {d₀ : FqCoDelDisc} (h : Draws 0 d₀ d) (hkept : ChildrenKept all d.own) :
    Ensures (childDequeue now i d)
      (fun out => ChildrenKept all out.2.own ∧ Draws (total out.1.toList) d₀ out.2) fun _ =>
        True := by
  rw [childDequeue]
  dsimp only
  cases hi : d.own.classes[i]? with
  | none => trivial
  | some flow =>
    obtain ⟨item, c', hrun, hdraws, hchild⟩ := (hkept.child hi).dequeue now
    have hflow : (FqCoDelFlow.child { flow with
        queueDisc := c', handedOut := flow.handedOut ++ item.toList }).Kept all := hchild
    obtain ⟨hkept', hheld⟩ := hkept.set hi hflow
    refine ensures_map.mpr ?_
    change Ensures (QueueDisc.dequeue now { flow.child.queueDisc with fired := [] }) _ _
    rw [hrun]
    refine ⟨?_, ?_⟩
    · rw [heard_own]
      exact hkept'
    · exact hear_draws hdraws rfl (hkept.child hi).peeked h hheld

theorem takeBatch_posted {m_dropBatchSize threshold count len : ℕ} {items : List QueueDiscItem}
    {c : CoDelDisc} (hqueue : c.own.internalQueue = items) (hpeeked : c.m_peeked = false) :
    Ensures (takeBatch m_dropBatchSize threshold count len items c)
    (fun out => items = out.1 ++ out.2.own.internalQueue ∧
      ∃ events, Posted events c out.2 ∧ posted Event.enqueued events = 0 ∧
        posted Event.droppedBefore events = 0 ∧
        posted Event.droppedAfter events = 0 ∧ posted Event.dequeued events = total out.1)
      (· = .nullPointer) := by
  induction items generalizing count len c with
  | nil => rfl
  | cons item rest ih =>
    rw [takeBatch]
    have hpopped : Posted [.dequeue item] c (popped item rest c) := by
      have hrefl : Posted [] c { c with own := { c.own with internalQueue := rest } } :=
        (Posted.refl c).congr rfl rfl rfl rfl rfl
      exact hrefl.trans (posted_taken (hrefl.peeked.trans hpeeked) item)
    have hfired : Posted [.batchDropped rest] (popped item rest c)
        ((popped item rest c).fire (.batchDropped rest)) := by
      constructor <;> simp [fire]
    have hfirst := hpopped.trans hfired
    have hleft := popped_internalQueue item rest c
    refine Ensures.ite (fun _ => ensures_map.mpr ?_) fun _ => ⟨?_, _, hfirst, ?_⟩
    · have hrest :=
        @ih (count + 1) (len + item.size) ((popped item rest c).fire (.batchDropped rest)) hleft
        (hfirst.peeked.trans hpeeked)
      refine hrest.weaken fun out hout => ?_
      obtain ⟨hitems, events, hrest, henqueued, hbefore, hafter, hdequeued⟩ := hout
      refine ⟨congrArg (item :: ·) hitems, _, hfirst.trans hrest, ?_⟩
      simp [henqueued, hbefore, hafter, hdequeued]
    · simp
    · simp

theorem posted_batch (items : List QueueDiscItem) (d : FqCoDelDisc) : ∃ events, Posted events d
    (items.foldl
      (fun d item => (d.listen (.dequeue item)).dropAfterDequeue now item .OVERLIMIT_DROP) d) ∧
    posted Event.enqueued events = 0 ∧ posted Event.droppedBefore events = 0 ∧
    posted Event.droppedAfter events = total items ∧
      posted Event.dequeued events = total items := by
  induction items generalizing d with
  | nil => exact ⟨[], .refl d, rfl, rfl, rfl, rfl⟩
  | cons item items ih =>
    have htaken := posted_packetDequeued d item
    have hdropped :=
      htaken.trans (posted_dropAfterDequeue (d.packetDequeued item) item .OVERLIMIT_DROP now)
    obtain ⟨rest, hrest, henqueued, hbefore, hafter, hdequeued⟩ :=
      ih ((d.listen (.dequeue item)).dropAfterDequeue now item .OVERLIMIT_DROP)
    refine ⟨_, hdropped.trans hrest, ?_⟩
    rw [packetDequeued_m_peeked]
    cases d.m_peeked <;> simp [henqueued, hbefore, hafter, hdequeued]

theorem fqCoDelDrop_draws (hkept : ChildrenKept all d.own) :
    Ensures (fqCoDelDrop now d) (fun d' => ChildrenKept all d'.own ∧ Draws 0 d d')
      DropFails := by
  rw [fqCoDelDrop]
  dsimp only
  cases hi : d.own.classes[d.own.fatFlow.1]? with
  | none => exact .inl rfl
  | some flow =>
    have hchild := hkept.child hi
    refine ensures_map.mpr
      ((takeBatch_posted rfl hchild.peeked).mono (fun out hout => ?_) fun _ => .inr)
    obtain ⟨hitems, events, hposted, henqueued, hbefore, hafter, hdequeued⟩ := hout
    have hqueue : total flow.queueDisc.own.internalQueue =
        total out.1 + total out.2.own.internalQueue := by
      rw [← total_append]
      exact congrArg total hitems
    have hchild' : (FqCoDelFlow.child { flow with
        queueDisc := out.2, batchDropped := flow.batchDropped ++ out.1 }).Kept all := by
      refine ⟨?_, hposted.requeued.trans hchild.requeued, hposted.peeked.trans hchild.peeked⟩
      refine hchild.books.post hposted ?_ ?_ ?_
      · rw [henqueued, hbefore, add_zero, add_zero]
      · rw [hdequeued, henqueued]
        change total out.2.own.internalQueue + _ = total flow.queueDisc.own.internalQueue + 0
        rw [hqueue]
        abel
      · rw [hafter, hdequeued]
        change total flow.handedOut + total (flow.batchDropped ++ out.1) + 0 =
          total flow.handedOut + total flow.batchDropped + _
        rw [total_append]
        abel
    obtain ⟨hkept', hheld⟩ := hkept.set hi hchild'
    obtain ⟨batch, hbatch, henqueued', hbefore', hafter', hdequeued'⟩ :=
      posted_batch now out.1 { d with own := { d.own with
      classes := d.own.classes.set d.own.fatFlow.1 { flow with
        queueDisc := out.2, batchDropped := flow.batchDropped ++ out.1 } } }
    have hown := dropped_own now out.1 { d with own := { d.own with
      classes := d.own.classes.set d.own.fatFlow.1 { flow with
        queueDisc := out.2, batchDropped := flow.batchDropped ++ out.1 } } }
    have hrefl : Posted [] d { d with own := { d.own with
        classes := d.own.classes.set d.own.fatFlow.1 { flow with
          queueDisc := out.2, batchDropped := flow.batchDropped ++ out.1 } } } :=
      (Posted.refl d).congr rfl rfl rfl rfl rfl
    refine ⟨?_, batch, hrefl.trans hbatch, henqueued', hbefore', ?_, ?_⟩
    · rw [hown]
      exact hkept'
    · rw [hafter', hdequeued', ite_self, add_zero]
    · rw [hown, hafter']
      linear_combination hqueue - hheld

theorem Accepts.drop {item : QueueDiscItem} {d'' : FqCoDelDisc} (h : Accepts item d d')
    (hdraws : Draws 0 d' d'') : Accepts item d d'' := by
  obtain ⟨events, hposted, hreceived, hdequeued, hheld⟩ := h
  obtain ⟨batch, hbatch, henqueued', hbefore', hdequeued', hheld'⟩ := hdraws
  refine ⟨_, hposted.trans hbatch, ?_, ?_, ?_⟩
  · rw [posted_append, posted_append, henqueued', hbefore', add_zero, add_zero, hreceived]
  · rw [posted_append, posted_append, hdequeued, hdequeued', ite_self, add_zero]
  · rw [posted_append, posted_append, henqueued']
    linear_combination hheld + hheld'

theorem doEnqueue_accepts (item : QueueDiscItem) (hkept : ChildrenKept all d.own) :
    Ensures (doEnqueue now item d)
      (fun out => ChildrenKept (all + amount item) out.2.own ∧ Accepts item d out.2)
      DropFails := by
  rw [doEnqueue]
  cases d.own.flowHash item with
  | none =>
    exact ⟨hkept.mono (le_add_of_nonneg_right (amount_nonneg item)),
      accepts_dropBeforeEnqueue d item _⟩
  | some k =>
    obtain ⟨hflow, hheld⟩ := flowOf_kept hkept k
    dsimp only
    generalize d.own.flowOf k = out at hflow hheld ⊢
    obtain ⟨i, q⟩ := out
    have hactive := sameChildren_activate (q := q) i
    have hchild :=
      childEnqueue_accepts now (i := i) (d := { d with own := q.activate i }) item
        (hactive.kept hflow)
    refine hchild.bind fun d₁ hd₁ => ?_
    have haccepts : Accepts item d d₁ := by
      obtain ⟨events, hposted, hreceived, hdequeued, hsum⟩ := hd₁.2
      have hrefl : Posted [] d { d with own := q.activate i } :=
        (Posted.refl d).congr rfl rfl rfl rfl rfl
      refine ⟨_, hrefl.trans hposted, hreceived, hdequeued, ?_⟩
      rw [← hheld, ← hactive.held]
      exact hsum
    have hdrop : Ensures (if d₁.m_maxSize.exceededBy d₁.m_size then fqCoDelDrop now d₁ else .ok d₁)
        (fun d' => ChildrenKept (all + amount item) d'.own ∧ Draws 0 d₁ d') DropFails :=
      Ensures.ite (fun _ => fqCoDelDrop_draws now hd₁.1) fun _ => ⟨hd₁.1, .refl d₁⟩
    exact hdrop.bind fun d₂ hd₂ => ensures_ok.mpr ⟨hd₂.1, Accepts.drop haccepts hd₂.2⟩

theorem serve_draws {d₀ : FqCoDelDisc} (rounds : ℕ) (h : Draws 0 d₀ d)
    (hkept : ChildrenKept all d.own) : Ensures (serve now rounds d) (fun out =>
      ChildrenKept all out.2.own ∧ Draws (total out.1.toList) d₀ out.2) fun _ => True := by
  induction rounds generalizing d with
  | zero => trivial
  | succ rounds ih =>
    rw [serve]
    refine sameChildren_select.bind fun out hsame => ?_
    obtain ⟨found, q⟩ := out
    have hdraws : Draws 0 d₀ { d with own := q } := h.congr rfl rfl rfl rfl rfl (by rw [hsame.held])
    have hkept' := hsame.kept hkept
    cases found with
    | none => exact ⟨hkept', hdraws⟩
    | some i =>
      refine (childDequeue_draws now (i := i) hdraws hkept').bind fun out hout => ?_
      obtain ⟨item, d₁⟩ := out
      obtain ⟨hkept₁, hdraws₁⟩ := hout
      cases item with
      | none =>
        have hretire := sameChildren_retire (q := d₁.own) i
        exact ih (hdraws₁.congr rfl rfl rfl rfl rfl (by rw [hretire.held])) (hretire.kept hkept₁)
      | some item =>
        have hpaid :=
          sameChildren_modifyFlow (q := d₁.own) (fun flow => flow.increaseDeficit (-item.size))
            (fun _ => rfl) i
          d₁.own.m_newFlows d₁.own.m_oldFlows
        exact ⟨hpaid.kept hkept₁, hdraws₁.congr rfl rfl rfl rfl rfl (by rw [← hpaid.held]; rfl)⟩

end FqCoDelDisc

end Egsr.TrafficControl
