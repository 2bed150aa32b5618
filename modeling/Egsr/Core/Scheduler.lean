import Mathlib.Algebra.Group.Nat.Defs
import Mathlib.Algebra.Group.Int.Defs
import Mathlib.Data.Multiset.UnionInter
import Mathlib.Data.Prod.Lex
import Egsr.Lib.Outcome

/-! Event schedulers. An implementation gives the five methods of the base
class; what they are to do is said on the multiset of the pending events. -/

namespace Egsr.Core

open Lib.Run Lib.Outcome

structure EventKey where
  m_ts : ℕ
  m_uid : ℕ
  m_context : ℕ
deriving DecidableEq

structure Event where
  impl : ℕ
  key : EventKey
deriving DecidableEq

def EventKey.less (a b : EventKey) : Bool :=
  if a.m_ts < b.m_ts then true
  else if a.m_ts = b.m_ts ∧ a.m_uid < b.m_uid then true
  else false

def Event.less (a b : Event) : Bool := a.key.less b.key

/-- The order of the keys as a linear order; the context takes no part. -/
def Event.rank (ev : Event) : ℕ ×ₗ ℕ := toLex (ev.key.m_ts, ev.key.m_uid)

theorem Event.less_iff (a b : Event) : a.less b ↔ a.rank < b.rank := by
  unfold Event.less EventKey.less Event.rank
  rw [Prod.Lex.toLex_lt_toLex]
  by_cases hts : a.key.m_ts < b.key.m_ts
  · simp [hts]
  · simp [hts]

theorem Event.not_less_iff (a b : Event) : ¬a.less b ↔ b.rank ≤ a.rank := by
  rw [Event.less_iff, not_lt]

theorem Event.uid_eq_of_rank {a b : Event} (h : a.rank = b.rank) : a.key.m_uid = b.key.m_uid :=
  congrArg (fun key => (ofLex key).2) h

inductive Fault where
  /-- An entry outside of the container is read. -/
  | outOfRange
deriving DecidableEq

structure Scheduler (σ : Type) where
  insert : σ → Event → Except Fault σ
  isEmpty : σ → Bool
  peekNext : σ → Except Fault Event
  removeNext : σ → Except Fault (Event × σ)
  remove : σ → Event → Except Fault σ

inductive Op where
  | insert (ev : Event)
  | peekNext
  | removeNext
  | remove (ev : Event)
deriving DecidableEq

variable (pending : Multiset Event)

/-- No pending event comes before `ev`. -/
def Next (ev : Event) : Prop :=
  ev ∈ pending ∧ ∀ other ∈ pending, ¬other.less ev

/-- The right answer to `op`, and the events pending after it. -/
def Serves (op : Op) (answer : Option Event) (pending' : Multiset Event) : Prop :=
  match op with
  | .insert ev => answer = none ∧ pending' = ev ::ₘ pending
  | .peekNext => ∃ ev, answer = some ev ∧ Next pending ev ∧ pending' = pending
  | .removeNext => ∃ ev, answer = some ev ∧ Next pending ev ∧ pending = ev ::ₘ pending'
  | .remove ev => answer = none ∧ pending = ev ::ₘ pending'

/-- Uids are distinct, the next event is asked for when there is one, and what is removed
is there. -/
def Permitted : Op → Prop
  | .insert ev => ∀ other ∈ pending, other.key.m_uid ≠ ev.key.m_uid
  | .peekNext => pending ≠ 0
  | .removeNext => pending ≠ 0
  | .remove ev => ev ∈ pending

instance (pending : Multiset Event) (op : Op) : Decidable (Permitted pending op) :=
  match op with
  | .insert .. | .peekNext | .removeNext | .remove .. => by unfold Permitted; infer_instance

def UidsDistinct : Prop :=
  (pending.map fun ev => ev.key.m_uid).Nodup
deriving Decidable

theorem uidsDistinct_cons {pending : Multiset Event} {ev : Event} : UidsDistinct (ev ::ₘ pending) ↔
      (∀ other ∈ pending, other.key.m_uid ≠ ev.key.m_uid) ∧ UidsDistinct pending := by
  unfold UidsDistinct
  rw [Multiset.map_cons, Multiset.nodup_cons, Multiset.mem_map]
  simp only [not_exists, not_and]

theorem UidsDistinct.eq_of_uid {pending : Multiset Event} (h : UidsDistinct pending) {a b : Event}
    (ha : a ∈ pending) (hb : b ∈ pending) (same : a.key.m_uid = b.key.m_uid) : a = b :=
  Multiset.inj_on_of_nodup_map h a ha b hb same

theorem Serves.uidsDistinct {pending pending' : Multiset Event} {op : Op} {answer : Option Event}
    (h : Serves pending op answer pending') (permitted : Permitted pending op)
    (distinct : UidsDistinct pending) : UidsDistinct pending' := by
  cases op with
  | insert ev =>
    rw [h.2]
    exact uidsDistinct_cons.mpr ⟨permitted, distinct⟩
  | peekNext =>
    obtain ⟨ev, -, -, heq⟩ := h
    rwa [heq]
  | removeNext =>
    obtain ⟨ev, -, -, heq⟩ := h
    rw [heq] at distinct
    exact (uidsDistinct_cons.mp distinct).2
  | remove ev =>
    rw [h.2] at distinct
    exact (uidsDistinct_cons.mp distinct).2

/-! ## Runs -/

section Runs

variable {σ : Type} (S : Scheduler σ)

def serve (q : σ) : Op → Except Fault (Option Event × σ)
  | .insert ev => (S.insert q ev).map fun q' => (none, q')
  | .peekNext => (S.peekNext q).map fun ev => (some ev, q)
  | .removeNext => (S.removeNext q).map fun r => (some r.1, r.2)
  | .remove ev => (S.remove q ev).map fun q' => (none, q')

def step (q : σ) (op : Op) : Except Fault σ := (serve S q op).map Prod.snd

variable (contents : σ → Multiset Event) (Ok : σ → Prop)

/-- The operation is answered right, keeps the pending events right and leaves the scheduler
in order. -/
def Sound (q : σ) (op : Op) : Prop :=
  Ensures (serve S q op)
    (fun r => Serves (contents q) op r.1 (contents r.2) ∧ Ok r.2) (fun _ => False)

variable {S contents Ok} {q : σ}

theorem sound_insert_iff {ev : Event} : Sound S contents Ok q (.insert ev) ↔
    Ensures (S.insert q ev) (fun q' => contents q' = ev ::ₘ contents q ∧ Ok q')
      (fun _ => False) := by
  simp only [Sound, serve, ensures_map, Serves, true_and]

theorem sound_remove_iff {ev : Event} : Sound S contents Ok q (.remove ev) ↔
    Ensures (S.remove q ev) (fun q' => contents q = ev ::ₘ contents q' ∧ Ok q')
      (fun _ => False) := by
  simp only [Sound, serve, ensures_map, Serves, true_and]

theorem sound_peekNext_iff : Sound S contents Ok q .peekNext ↔
    Ensures (S.peekNext q) (fun ev => Next (contents q) ev ∧ Ok q) (fun _ => False) := by
  simp only [Sound, serve, ensures_map, Serves, Option.some_inj, exists_eq_left', and_true]

theorem sound_removeNext_iff : Sound S contents Ok q .removeNext ↔
    Ensures (S.removeNext q)
      (fun r => (Next (contents q) r.1 ∧ contents q = r.1 ::ₘ contents r.2) ∧ Ok r.2)
      (fun _ => False) := by
  simp only [Sound, serve, ensures_map, Serves, Option.some_inj, exists_eq_left']

theorem Sound.next {op : Op} (sound : Sound S contents Ok q op) {answer : Option Event} {q' : σ}
    (run : serve S q op = .ok (answer, q')) : Serves (contents q) op answer (contents q') ∧ Ok q' :=
  Ensures.of_ok sound run

theorem step_ok_inv {op : Op} {q' : σ} (run : step S q op = .ok q') :
    ∃ answer, serve S q op = .ok (answer, q') := by
  unfold step at run
  cases hserve : serve S q op with
  | ok r =>
    rw [hserve] at run
    exact ⟨r.1, congrArg Except.ok (Prod.ext rfl (Except.ok.inj run))⟩
  | error e =>
    rw [hserve] at run
    cases run

/-! ### Sessions -/

/-- A scheduler together with the time of the last event that `removeNext` returned. -/
structure Session (σ : Type) where
  queue : σ
  lastTs : ℕ

def lastTsAfter (lastTs : ℕ) : Op → Option Event → ℕ
  | .removeNext, some ev => ev.key.m_ts
  | _, _ => lastTs

variable (S) in
def sessionStep (s : Session σ) (op : Op) : Except Fault (Session σ) :=
  (serve S s.queue op).map fun r => ⟨r.2, lastTsAfter s.lastTs op r.1⟩

variable (contents) in
/-- Events are not inserted before the last one that was returned. -/
def Timely (s : Session σ) (op : Op) : Prop :=
  Permitted (contents s.queue) op ∧
    ∀ ev, op = .insert ev → s.lastTs ≤ ev.key.m_ts ∧ ev.key.m_ts < 2 ^ 63

instance (s : Session σ) (op : Op) : Decidable (Timely contents s op) :=
  haveI : Decidable (∀ ev, op = .insert ev → s.lastTs ≤ ev.key.m_ts ∧ ev.key.m_ts < 2 ^ 63) :=
    match op with
    | .insert ev => decidable_of_iff (s.lastTs ≤ ev.key.m_ts ∧ ev.key.m_ts < 2 ^ 63) (by simp)
    | .peekNext => isTrue (by simp)
    | .removeNext => isTrue (by simp)
    | .remove _ => isTrue (by simp)
  inferInstanceAs (Decidable (_ ∧ _))

theorem sessionStep_ok_inv {s s' : Session σ} {op : Op} (run : sessionStep S s op = .ok s') :
    ∃ answer, serve S s.queue op = .ok (answer, s'.queue) ∧
      s'.lastTs = lastTsAfter s.lastTs op answer := by
  unfold sessionStep at run
  cases hserve : serve S s.queue op with
  | ok r =>
    rw [hserve] at run
    obtain rfl : _ = s' := Except.ok.inj run
    exact ⟨r.1, rfl, rfl⟩
  | error e =>
    rw [hserve] at run
    cases run

variable (S contents) in
structure Lawful (Ok : Session σ → Prop) (empty : σ) : Prop where
  empty_ok : Ok ⟨empty, 0⟩
  empty_contents : contents empty = 0
  isEmpty_iff : ∀ s, Ok s → (contents s.queue).card < 2 ^ 32 →
    (S.isEmpty s.queue ↔ contents s.queue = 0)
  serves : ∀ s op, Ok s → Timely contents s op →
    Ensures (serve S s.queue op)
      (fun r => Serves (contents s.queue) op r.1 (contents r.2) ∧
        Ok ⟨r.2, lastTsAfter s.lastTs op r.1⟩)
      (fun _ => False)

section Lawful

variable {Ok : Session σ → Prop} {empty : σ} (lawful : Lawful S contents Ok empty) {s : Session σ}
include lawful

theorem Lawful.insert (ok : Ok s) (ev : Event)
    (fresh : ∀ other ∈ contents s.queue, other.key.m_uid ≠ ev.key.m_uid)
    (timely : s.lastTs ≤ ev.key.m_ts) (early : ev.key.m_ts < 2 ^ 63) :
    Ensures (S.insert s.queue ev)
      (fun q => contents q = ev ::ₘ contents s.queue ∧ Ok ⟨q, s.lastTs⟩) (fun _ => False) := by
  have hserves :=
    lawful.serves s (.insert ev) ok ⟨fresh, fun ev' heq => by cases heq; exact ⟨timely, early⟩⟩
  exact (ensures_map.mp hserves).weaken fun q hq => ⟨hq.1.2, hq.2⟩

theorem Lawful.removeNext (ok : Ok s) (filled : contents s.queue ≠ 0) :
    Ensures (S.removeNext s.queue)
      (fun r => Next (contents s.queue) r.1 ∧ contents s.queue = r.1 ::ₘ contents r.2 ∧
        Ok ⟨r.2, r.1.key.m_ts⟩) (fun _ => False) := by
  have hserves := lawful.serves s .removeNext ok ⟨filled, by simp⟩
  refine (ensures_map.mp hserves).weaken fun r hr => ?_
  obtain ⟨⟨ev, hev, hnext, hcontents⟩, hok⟩ := hr
  obtain rfl : r.1 = ev := Option.some.inj hev
  exact ⟨hnext, hcontents, hok⟩

theorem Lawful.remove (ok : Ok s) {ev : Event} (present : ev ∈ contents s.queue) :
    Ensures (S.remove s.queue ev)
      (fun q => contents s.queue = ev ::ₘ contents q ∧ Ok ⟨q, s.lastTs⟩) (fun _ => False) := by
  have hserves := lawful.serves s (.remove ev) ok ⟨present, by simp⟩
  exact (ensures_map.mp hserves).weaken fun q hq => ⟨hq.1.2, hq.2⟩

end Lawful

end Runs

end Egsr.Core
