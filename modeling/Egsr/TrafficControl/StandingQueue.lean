import Egsr.Lib.History
import Egsr.TrafficControl.FqCoDelQueueDisc

/-! When CoDel drops: whether the queue has stood for a whole interval before a
packet is dropped for its sojourn time. -/

namespace Egsr.TrafficControl.StandingQueue

open Lib.History Lib.Outcome Lib.Run QueueDisc CoDelDisc

structure Parameters where
  maxSize : QueueSize
  minBytes : ℕ
  interval : ℕ
  target : ℕ
  /-- Of the FQ-CoDel disc over this one. -/
  dropBatchSize : ℕ

def units (t : ℕ) : ℕ := t / 1024

inductive Action where
  | enqueue (item : QueueDiscItem)
  | dequeue
  | fqCoDelDrop

structure Run where
  clock : ℕ
  disc : CoDelDisc

def step (p : Parameters) (r : Run) (a : ℕ × Action) : Except Fault Run :=
  match a.2 with
  | .enqueue item => (r.disc.enqueue a.1 item).map fun out => ⟨a.1, out.2⟩
  | .dequeue => (r.disc.dequeue a.1).map fun out => ⟨a.1, out.2⟩
  | .fqCoDelDrop =>
    (FqCoDelDisc.dropFrom p.dropBatchSize r.disc.m_size.2.toNat r.disc).map fun out => ⟨a.1, out.2⟩

def initial (p : Parameters) (start : ℕ) : Run :=
  ⟨start, freshCoDel p.maxSize p.minBytes p.interval p.target⟩

/-- Times do not go back, and the run is shorter than so many units. -/
def Timely (start : ℕ) (r : Run) (a : ℕ × Action) : Prop :=
  r.clock ≤ a.1 ∧ a.1 < start + 2 ^ 31 * 1024
deriving Decidable

/-- A packet looked at had been there for the target, with enough bytes behind it, and the last
packet is not taken. -/
def Above (p : Parameters) : Event → Prop
  | .examined now item left =>
    units p.target ≤ units (now - item.m_tstamp) ∧ p.minBytes ≤ queueBytes left ∧ left ≠ []
  | .batchDropped left => left ≠ []
  | _ => True

def ExaminedBefore (p : Parameters) (now : ℕ) : Event → Prop
  | .examined t _ _ => units t + units p.interval < units now
  | _ => False

def DroppedRightly (p : Parameters) (past : List Event) : Event → Prop
  | .dropAfterDequeue now _ .TARGET_EXCEEDED_DROP => Since (ExaminedBefore p now) (Above p) past
  | _ => True

instance (p : Parameters) : DecidablePred (Above p)
  | .examined .. | .batchDropped .. | .enqueue _ | .dequeue _ | .dropBeforeEnqueue ..
  | .dropAfterDequeue .. => by unfold Above; infer_instance

instance (p : Parameters) (now : ℕ) : DecidablePred (ExaminedBefore p now)
  | .examined _ _ _ => inferInstanceAs (Decidable (_ < _))
  | .enqueue _ | .dequeue _ | .dropBeforeEnqueue _ _ | .dropAfterDequeue _ _ _ | .batchDropped _ =>
    isFalse id

instance (p : Parameters) (past : List Event) : DecidablePred (DroppedRightly p past)
  | .dropAfterDequeue _ _ .TARGET_EXCEEDED_DROP | .dropAfterDequeue _ _ .OVERLIMIT_DROP
  | .dropAfterDequeue _ _ .UNCLASSIFIED_DROP | .dropAfterDequeue _ _ .INTERNAL_QUEUE_DROP
  | .dropAfterDequeue _ _ (.CHILD_QUEUE_DISC_DROP _) | .enqueue _ | .dequeue _
  | .dropBeforeEnqueue .. | .examined .. | .batchDropped _ =>
    by unfold DroppedRightly; infer_instance

def Emptied (m_dropBatchSize threshold count len : ℕ) (items : List QueueDiscItem) : Prop :=
  items.length = 1 ∨
    count + items.length ≤ m_dropBatchSize ∧ len + queueBytes items.dropLast < threshold
deriving Decidable

/-- A batch drop of this child now leaves it without packets. -/
def EmptiesQueue (p : Parameters) (d : CoDelDisc) : Prop :=
  Emptied p.dropBatchSize (d.m_size.2.toNat >>> 1) 0 0 d.own.internalQueue

/-- A batch drop does not empty the queue unless the sojourn time is below the target. -/
def NotEmptied (p : Parameters) (r : Run) (a : ℕ × Action) : Prop :=
  match a.2 with
  | .fqCoDelDrop => EmptiesQueue p r.disc → r.disc.own.m_firstAboveTime = 0
  | _ => True

instance (p : Parameters) (r : Run) : ∀ a : ℕ × Action, Decidable (NotEmptied p r a)
  | (_, .fqCoDelDrop) =>
    inferInstanceAs
      (Decidable (Emptied p.dropBatchSize (r.disc.m_size.2.toNat >>> 1) 0 0
        r.disc.own.internalQueue → _ = _))
  | (_, .enqueue _) | (_, .dequeue) => isTrue trivial

theorem Emptied.cons {m_dropBatchSize threshold count len : ℕ} {item : QueueDiscItem}
    {rest : List QueueDiscItem}
    (h : Emptied m_dropBatchSize threshold (count + 1) (len + item.size) rest) (left : rest ≠ [])
    (more : count + 1 < m_dropBatchSize ∧ len + item.size < threshold) :
    Emptied m_dropBatchSize threshold count len (item :: rest) := by
  have hlast : queueBytes (item :: rest).dropLast = item.size + queueBytes rest.dropLast := by
    rw [List.dropLast_cons_of_ne_nil left]
    rfl
  right
  rw [hlast, List.length_cons]
  rcases h with h | ⟨hcount, hlen⟩
  · obtain ⟨last, rfl⟩ := List.length_eq_one_iff.mp h
    have hzero : queueBytes [last].dropLast = 0 := rfl
    rw [hzero]
    omega
  · omega

theorem toNat_time2CoDel (t : ℕ) : (time2CoDel t).toNat = units t % 2 ^ 32 := by
  rw [time2CoDel, UInt32.toNat_ofNat', Nat.shiftRight_eq_div_pow]
  rfl

theorem units_mono {t t' : ℕ} (h : t ≤ t') : units t ≤ units t' := by
  rw [units, units]
  exact Nat.div_le_div_right h

theorem lt_of_codelTimeAfter {t now interval : ℕ} (past : t ≤ now)
    (span : units now ≤ units t + 2 ^ 31) (short : units interval < 2 ^ 31)
    (after : codelTimeAfter (time2CoDel now) (time2CoDel t + time2CoDel interval) = true) :
    units t + units interval < units now := by
  have hmono := units_mono past
  rw [codelTimeAfter, decide_eq_true_iff, codelTimeDiff, UInt32.toNat_sub,
    UInt32.toNat_add] at after
  simp only [toNat_time2CoDel] at after
  omega

theorem le_of_not_codelTimeBefore {sojourn target : ℕ} (hsojourn : units sojourn < 2 ^ 31)
    (htarget : units target < 2 ^ 31)
    (before : ¬codelTimeBefore (time2CoDel sojourn) (time2CoDel target) = true) : units target ≤
      units sojourn := by
  rw [codelTimeBefore, decide_eq_true_iff, codelTimeDiff, UInt32.toNat_sub] at before
  simp only [toNat_time2CoDel] at before
  omega

/-! ## What holds along a run -/

variable {p : Parameters} {start now : ℕ} {d d' : CoDelDisc}

def ExaminedAt (t : ℕ) : Event → Prop
  | .examined now _ _ => now = t
  | _ => False

/-- The parameters of a disc and the variable that says how long the queue has stood. -/
def vars (q : CoDelQueueDisc) : (ℕ × ℕ × ℕ) × UInt32 :=
  ((q.m_minBytes, q.m_interval, q.m_target), q.m_firstAboveTime)

structure Holds (p : Parameters) (start now : ℕ) (d : CoDelDisc) : Prop where
  parameters : (vars d.own).1 = (p.minBytes, p.interval, p.target)
  requeued : d.m_requeued = none
  peeked : d.m_peeked = false
  stamped : ∀ item ∈ d.own.internalQueue, start ≤ item.m_tstamp
  rightly : Each (DroppedRightly p) d.fired
  above : (vars d.own).2 ≠ 0 → ∃ t, start ≤ t ∧ t ≤ now ∧
    (vars d.own).2 = time2CoDel t + time2CoDel p.interval ∧ Since (ExaminedAt t) (Above p) d.fired

theorem enterDropping_vars (q : CoDelQueueDisc) (t : UInt32) :
    vars (q.enterDropping t) = vars q ∧ (q.enterDropping t).internalQueue = q.internalQueue := by
  obtain ⟨r, hr⟩ := CoDelQueueDisc.newtonStep_eq { q with m_count := q.m_count - q.m_lastCount }
  rw [CoDelQueueDisc.enterDropping, hr]
  split_ifs <;> exact ⟨rfl, rfl⟩

namespace Holds

theorem next (h : Holds p start now d) {event : Event} (hvars : vars d'.own = vars d.own)
    (hrequeued : d'.m_requeued = d.m_requeued) (hpeeked : d'.m_peeked = d.m_peeked)
    (hstamped : ∀ item ∈ d'.own.internalQueue, start ≤ item.m_tstamp)
    (hfired : d'.fired = d.fired ++ [event])
    (hright : DroppedRightly p d.fired event) (habove : (vars d.own).2 ≠ 0 → Above p event) :
      Holds p start now d' := by
  refine ⟨by rw [hvars, h.parameters], by rw [hrequeued, h.requeued], by
    rw [hpeeked, h.peeked], hstamped, ?_, ?_⟩
  · rw [hfired]
    exact each_snoc.mpr ⟨h.rightly, hright⟩
  · intro hset
    rw [hvars] at hset ⊢
    obtain ⟨t, hstart, hnow, heq, hsince⟩ := h.above hset
    rw [hfired]
    exact ⟨t, hstart, hnow, heq, hsince.snoc (habove hset)⟩

theorem congr (h : Holds p start now d) (hvars : vars d'.own = vars d.own)
    (hrequeued : d'.m_requeued = d.m_requeued)
    (hpeeked : d'.m_peeked = d.m_peeked) (hqueue : d'.own.internalQueue = d.own.internalQueue)
    (hfired : d'.fired = d.fired) : Holds p start now d' := by
  refine ⟨by rw [hvars, h.parameters], by rw [hrequeued, h.requeued], by
    rw [hpeeked, h.peeked], ?_, ?_, ?_⟩
  · rw [hqueue]
    exact h.stamped
  · rw [hfired]
    exact h.rightly
  · rw [hvars, hfired]
    exact h.above

theorem later {now' : ℕ} (h : Holds p start now d) (hnow : now ≤ now') : Holds p start now' d :=
  { h with above := fun hset =>
      have ⟨t, hstart, ht, heq, hsince⟩ := h.above hset
      ⟨t, hstart, ht.trans hnow, heq, hsince⟩ }

theorem popped {item : QueueDiscItem} {rest : List QueueDiscItem} (h : Holds p start now d)
    (hqueue : d.own.internalQueue = item :: rest) : Holds p start now
    (CoDelDisc.popped item rest d) := by
  have hrest : ∀ i ∈ rest, start ≤ i.m_tstamp :=
    fun i hi => h.stamped i (by rw [hqueue]; exact List.mem_cons_of_mem _ hi)
  refine h.next ?_ ?_ ?_ ?_ (packetDequeued_fired _ item h.peeked) trivial fun _ => trivial
  · rw [CoDelDisc.popped, packetDequeued_own]
    rfl
  · rw [CoDelDisc.popped, packetDequeued_m_requeued]
  · rw [CoDelDisc.popped, packetDequeued_m_peeked]
  · rw [CoDelDisc.popped, packetDequeued_own]
    exact hrest

theorem dropped (item : QueueDiscItem) (h : Holds p start now d)
    (right : Since (ExaminedBefore p now) (Above p) d.fired) :
    Holds p start now (d.dropAfterDequeue now item .TARGET_EXCEEDED_DROP) := by
  refine h.next ?_ ?_ ?_ ?_ (dropAfterDequeue_fired _ item _ now h.peeked) right fun _ => trivial
  · rw [dropAfterDequeue_own]
  · rw [dropAfterDequeue_m_requeued]
  · rw [dropAfterDequeue_m_peeked]
  · rw [dropAfterDequeue_own]
    exact h.stamped

theorem dropCounted (item : QueueDiscItem) (h : Holds p start now d)
    (right : Since (ExaminedBefore p now) (Above p) d.fired) :
      Holds p start now (CoDelDisc.dropCounted now item d) := by
  have hdropped := h.dropped item right
  rw [CoDelDisc.dropCounted]
  generalize d.dropAfterDequeue now item .TARGET_EXCEEDED_DROP = d' at hdropped
  obtain ⟨r, hr⟩ := CoDelQueueDisc.newtonStep_eq { d'.own with m_count := d'.own.m_count + 1 }
  rw [hr]
  exact hdropped.congr rfl rfl rfl rfl rfl

theorem keepDropping (h : Holds p start now d) (ok : Bool) :
    Holds p start now (CoDelDisc.keepDropping ok d) := by
  rw [CoDelDisc.keepDropping]
  generalize d.own.controlLaw d.own.m_dropNext = next
  cases ok <;> exact h.congr rfl rfl rfl rfl rfl

theorem noItem (h : Holds p start now d) : Holds p start now (CoDelDisc.noItem d) :=
  ⟨h.parameters, h.requeued, h.peeked, h.stamped, h.rightly, fun hset => (hset rfl).elim⟩

end Holds

section Dequeue

variable (hmin : 1 ≤ p.minBytes) (hinterval : units p.interval < 2 ^ 31)
    (htarget : units p.target < 2 ^ 31)
  (hstart : start ≤ now) (hspan : now < start + 2 ^ 31 * 1024)

include hmin hinterval htarget hstart hspan

variable {item : QueueDiscItem}

section

variable (h : Holds p start now d)

include h

theorem okToDrop_holds (stamp : start ≤ item.m_tstamp) : Holds p start now (okToDrop now item d).2 ∧
      (okToDrop now item d).2.own.internalQueue = d.own.internalQueue ∧
      ((okToDrop now item d).1 = true →
        Since (ExaminedBefore p now) (Above p) (okToDrop now item d).2.fired) := by
  obtain ⟨hmb, hin, htg⟩ : d.own.m_minBytes = p.minBytes ∧ d.own.m_interval = p.interval ∧
      d.own.m_target = p.target := by
    simpa [vars] using h.parameters
  have hevent : Each (DroppedRightly p) (d.fired ++ [.examined now item d.own.internalQueue]) :=
    each_snoc.mpr ⟨h.rightly, trivial⟩
  by_cases hbelow : codelTimeBefore (time2CoDel (now - item.m_tstamp)) (time2CoDel d.own.m_target) ∨
      queueBytes d.own.internalQueue < d.own.m_minBytes
  · rw [okToDrop, if_pos hbelow]
    exact ⟨⟨h.parameters, h.requeued, h.peeked, h.stamped, hevent, fun hset => (hset rfl).elim⟩,
      rfl, fun hno => by cases hno⟩
  · obtain ⟨hnot, hbytes⟩ := not_or.mp hbelow
    have habove : Above p (.examined now item d.own.internalQueue) := by
      refine ⟨?_, by omega, ?_⟩
      · rw [htg] at hnot
        exact le_of_not_codelTimeBefore (by rw [units]; omega) htarget hnot
      · intro hnil
        have hzero : queueBytes d.own.internalQueue = 0 := by rw [hnil]; rfl
        omega
    rw [okToDrop, if_neg hbelow]
    by_cases hunset : d.own.m_firstAboveTime = 0
    · rw [if_pos hunset]
      exact ⟨⟨h.parameters, h.requeued, h.peeked, h.stamped, hevent,
        fun _ => ⟨now, hstart, le_rfl, by rw [← hin]; rfl, since_snoc rfl habove⟩⟩, rfl,
          fun hno => by cases hno⟩
    · rw [if_neg hunset]
      obtain ⟨t, ht, hnow, heq, hsince⟩ := h.above hunset
      have hlong := hsince.snoc habove
      refine ⟨⟨h.parameters, h.requeued, h.peeked, h.stamped, hevent, fun _ =>
        ⟨t, ht, hnow, heq, hlong⟩⟩, rfl, fun hyes => ?_⟩
      have hlt : units t + units p.interval < units now := by
        refine lt_of_codelTimeAfter hnow (by rw [units, units]; omega) hinterval ?_
        rw [← heq]
        exact hyes
      refine hlong.mono fun event hat => ?_
      cases event with
      | examined t' item' left =>
        have ht' : t' = t := hat
        rw [ExaminedBefore, ht']
        exact hlt
      | _ => cases hat

theorem dropWhile_holds {rest : List QueueDiscItem} (hqueue : d.own.internalQueue = rest)
    (right : d.own.m_dropping = true → Since (ExaminedBefore p now) (Above p) d.fired) :
    Holds p start now (dropWhile now item rest d).2 := by
  induction rest generalizing item d with
  | nil =>
    rw [dropWhile]
    split_ifs with hdrop
    · exact (h.dropCounted item (right hdrop.1)).noItem.keepDropping false
    · exact h
  | cons next rest ih =>
    rw [dropWhile]
    split_ifs with hdrop
    · have hdropped := h.dropCounted item (right hdrop.1)
      have hpopped := hdropped.popped ((dropCounted_internalQueue now item d).trans hqueue)
      have hstamp : start ≤ next.m_tstamp :=
        h.stamped next (by rw [hqueue]; exact List.mem_cons_self)
      obtain ⟨hok, hleft, hsince⟩ :=
        okToDrop_holds hmin hinterval htarget hstart hspan hpopped hstamp
      rw [popped_internalQueue] at hleft
      generalize okToDrop now next (CoDelDisc.popped next rest (dropCounted now item d)) =
        out at hok hleft hsince ⊢
      obtain ⟨ok, d'⟩ := out
      refine ih (hok.keepDropping ok) ((keepDropping_internalQueue d' ok).trans hleft)
        fun hgoes => ?_
      cases ok with
      | true =>
        rw [keepDropping_fired]
        exact hsince rfl
      | false => exact absurd (hgoes.symm.trans (keepDropping_false d')) (by decide)
    · exact h

theorem nextItem_holds : Holds p start now (nextItem now d).2 := by
  rw [nextItem]
  cases hqueue : d.own.internalQueue with
  | nil => exact h.noItem
  | cons next rest =>
    have hstamp : start ≤ next.m_tstamp := h.stamped next (by rw [hqueue]; exact List.mem_cons_self)
    exact (okToDrop_holds hmin hinterval htarget hstart hspan (h.popped hqueue) hstamp).1

theorem dropFirst_holds
    (right : Since (ExaminedBefore p now) (Above p) d.fired) :
      Holds p start now (dropFirst now item d).2 := by
  have hnext := nextItem_holds hmin hinterval htarget hstart hspan (h.dropped item right)
  rw [dropFirst]
  generalize nextItem now (d.dropAfterDequeue now item .TARGET_EXCEEDED_DROP) = out at hnext ⊢
  obtain ⟨hvars, hqueue⟩ := enterDropping_vars out.2.own (time2CoDel now)
  exact hnext.congr hvars rfl rfl hqueue rfl

theorem dropOrNot_holds {ok : Bool}
    (right : ok = true → Since (ExaminedBefore p now) (Above p) d.fired) :
    Holds p start now (dropOrNot now item ok d).2 := by
  rw [dropOrNot]
  cases hdropping : d.own.m_dropping with
  | true =>
    cases ok with
    | true => exact dropWhile_holds hmin hinterval htarget hstart hspan h rfl fun _ => right rfl
    | false => exact h.congr rfl rfl rfl rfl rfl
  | false =>
    cases ok with
    | true => exact dropFirst_holds hmin hinterval htarget hstart hspan h (right rfl)
    | false => exact h

theorem doDequeue_holds : Holds p start now (doDequeue now d).2 := by
  rw [doDequeue]
  cases hqueue : d.own.internalQueue with
  | nil => exact h.congr rfl rfl rfl hqueue.symm rfl
  | cons item rest =>
    have hstamp : start ≤ item.m_tstamp := h.stamped item (by rw [hqueue]; exact List.mem_cons_self)
    obtain ⟨hok, hleft, hsince⟩ :=
      okToDrop_holds hmin hinterval htarget hstart hspan (h.popped hqueue) hstamp
    exact dropOrNot_holds hmin hinterval htarget hstart hspan hok hsince

end

end Dequeue

theorem doEnqueue_holds {item : QueueDiscItem} (h : Holds p start now d)
    (stamp : start ≤ item.m_tstamp) : Holds p start now (doEnqueue item d).2 := by
  rw [doEnqueue]
  split_ifs
  · exact h.next rfl rfl rfl h.stamped rfl trivial fun _ => trivial
  · exact h.next rfl rfl rfl h.stamped rfl trivial fun _ => trivial
  · refine h.next rfl rfl rfl (fun i hi => ?_) rfl trivial fun _ => trivial
    rcases List.mem_append.mp hi with hi | hi
    · exact h.stamped i hi
    · rwa [List.mem_singleton.mp hi]

theorem takeBatch_holds {threshold count len : ℕ} {items : List QueueDiscItem}
    (h : Holds p start now d) (hqueue : d.own.internalQueue = items)
    (left : Emptied p.dropBatchSize threshold count len items → d.own.m_firstAboveTime = 0) :
    Ensures (FqCoDelDisc.takeBatch p.dropBatchSize threshold count len items d)
      (fun out => Holds p start now out.2) (· = .nullPointer) := by
  induction items generalizing count len d with
  | nil => rfl
  | cons item rest ih =>
    rw [FqCoDelDisc.takeBatch]
    have hpopped := h.popped hqueue
    have htime : (vars (popped item rest d).own).2 = (vars d.own).2 := by
      rw [CoDelDisc.popped, packetDequeued_own]
      rfl
    have hfired : Holds p start now ((popped item rest d).fire (.batchDropped rest)) := by
      refine hpopped.next rfl rfl rfl hpopped.stamped rfl trivial fun hset => ?_
      rintro rfl
      exact hset (htime.trans (left (Or.inl rfl)))
    refine Ensures.ite (fun hmore => ensures_map.mpr ?_) fun _ => hfired
    refine ih hfired (popped_internalQueue item rest d) fun hempty => ?_
    by_cases hrest : rest = []
    · exact htime.trans (left (Or.inl (by rw [hrest]; rfl)))
    · exact htime.trans (left (hempty.cons hrest hmore))

/-! ## Runs -/

theorem step_holds (hmin : 1 ≤ p.minBytes) (hinterval : units p.interval < 2 ^ 31)
    (htarget : units p.target < 2 ^ 31)
    {r : Run} {a : ℕ × Action} (h : start ≤ r.clock ∧ Holds p start r.clock r.disc)
    (guard : Timely start r a ∧ NotEmptied p r a) :
    Ensures (step p r a) (fun r' => start ≤ r'.clock ∧ Holds p start r'.clock r'.disc)
      (· = .nullPointer) := by
  obtain ⟨hclock, hholds⟩ := h
  obtain ⟨⟨hnow, hspan⟩, hleft⟩ := guard
  obtain ⟨now, action⟩ := a
  have hstart : start ≤ now := hclock.trans hnow
  have hlater := hholds.later hnow
  cases action with
  | enqueue item =>
    have hreceived : Holds p start now { r.disc with
        m_stats := { r.disc.m_stats with
          nTotalReceived := r.disc.m_stats.nTotalReceived + counted (amount item) } } :=
      hlater.congr rfl rfl rfl rfl rfl
    exact ⟨hstart, doEnqueue_holds hreceived hstart⟩
  | dequeue =>
    rw [step]
    dsimp only
    rw [QueueDisc.dequeue, hlater.requeued]
    exact ⟨hstart, doDequeue_holds hmin hinterval htarget hstart hspan hlater⟩
  | fqCoDelDrop =>
    refine ensures_map.mpr ((takeBatch_holds hlater rfl hleft).weaken fun out hout =>
      ⟨hstart, hout⟩)

abbrev someItem (packet : ℕ) : QueueDiscItem := ⟨packet, 2000, 0, 0, false⟩

abbrev someParameters : Parameters := ⟨⟨.PACKETS, 10⟩, 1500, 100000000, 5000000, 64⟩

abbrev atMs (t : ℕ) (action : Action) : ℕ × Action := (t * 1000000, action)

end Egsr.TrafficControl.StandingQueue
