import Mathlib.Algebra.Order.Group.Multiset
import Mathlib.Tactic.Abel
import Mathlib.Data.Nat.ModEq
import Egsr.Core.Scheduler

/-! The calendar scheduler. The events stand in buckets by the day of their
time stamp, days being `m_width` long and every bucket serving one day in
`m_nBuckets`. The search for the next event goes once around the buckets from
the day of the last event returned. -/

namespace Egsr.Core.Calendar

open Lib.Run Lib.Outcome List

abbrev Bucket := List Event

structure CalendarScheduler where
  m_buckets : List Bucket
  m_nBuckets : ℕ
  m_width : ℕ
  m_lastBucket : ℕ
  m_bucketTop : ℕ
  m_lastPrio : ℕ
  m_qSize : ℕ
deriving DecidableEq

def hashOf (nBuckets width ts : ℕ) : ℕ := ts / width % nBuckets

def init (nBuckets width startPrio qSize : ℕ) : CalendarScheduler where
  m_buckets := replicate nBuckets []
  m_nBuckets := nBuckets
  m_width := width
  m_lastPrio := startPrio
  m_lastBucket := hashOf nBuckets width startPrio
  m_bucketTop := (startPrio / width + 1) * width % 2 ^ 64
  m_qSize := qSize

def start : CalendarScheduler := init 2 1 0 0

section Methods

variable (c : CalendarScheduler)

def hash (ts : ℕ) : ℕ := hashOf c.m_nBuckets c.m_width ts

def bucket (i : ℕ) : Bucket := c.m_buckets.getD i []

def setBucket (i : ℕ) (events : Bucket) : CalendarScheduler :=
  { c with m_buckets := c.m_buckets.set i events }

def setSize (qSize : ℕ) : CalendarScheduler := { c with m_qSize := qSize }

def insertBefore (ev : Event) : Bucket → Bucket
  | [] => [ev]
  | next :: rest =>
    if ev.key.less next.key then ev :: next :: rest else next :: insertBefore ev rest

def doInsert (ev : Event) : CalendarScheduler :=
  let i := hash c ev.key.m_ts
  setBucket c i (insertBefore ev (bucket c i))

def isEmpty : Bool := c.m_qSize = 0

structure Least where
  minEvent : Event
  minBucket : Option ℕ

inductive Scan where
  /-- The front of bucket `i` is before the end `bucketTop` of its day. -/
  | inWindow (i bucketTop : ℕ) (next : Event)
  | wholeYear (least : Least)

def frontInWindow (bucketTop : ℕ) : Bucket → Option Event
  | [] => none
  | next :: _ => if next.key.m_ts < bucketTop then some next else none

def Least.front (least : Least) (i : ℕ) : Bucket → Least
  | [] => least
  | next :: _ => if next.key.less least.minEvent.key then ⟨next, some i⟩ else least

/-- The loop of `peekNext` and of `doRemoveNext`: at most one round for each bucket. -/
def scan : ℕ → ℕ → ℕ → Least → Scan
  | 0, _, _, least => .wholeYear least
  | rounds + 1, i, bucketTop, least =>
    match frontInWindow bucketTop (bucket c i) with
    | some next => .inWindow i bucketTop next
    | none =>
      let least' := least.front i (bucket c i)
      let i' := (i + 1) % c.m_nBuckets
      if i' = c.m_lastBucket then .wholeYear least'
      else scan rounds i' ((bucketTop + c.m_width) % 2 ^ 64) least'

def search (least : Least) : Scan := scan c c.m_nBuckets c.m_lastBucket c.m_bucketTop least

def peekNext : Event :=
  match search c ⟨⟨0, 2 ^ 64 - 1, 2 ^ 32 - 1, 0⟩, none⟩ with
  | .inWindow _ _ next => next
  | .wholeYear least => least.minEvent

def doRemoveNext : Except Fault (Event × CalendarScheduler) :=
  match search c ⟨⟨0, 2 ^ 64 - 1, 0, 2 ^ 32 - 1⟩, none⟩ with
  | .inWindow i bucketTop next =>
    pure (next, setBucket
      { c with
        m_lastBucket := i
        m_lastPrio := next.key.m_ts
        m_bucketTop := bucketTop } i (bucket c i).tail)
  | .wholeYear least =>
    match least.minBucket.map fun i => (i, bucket c i) with
    | some (i, next :: rest) =>
      let minTs := least.minEvent.key.m_ts
      pure (next, setBucket
        { c with
          m_lastPrio := minTs
          m_lastBucket := hash c minTs
          m_bucketTop := (minTs / c.m_width + 1) * c.m_width % 2 ^ 64 } i rest)
    | _ => throw .outOfRange

def takeSamples : ℕ → CalendarScheduler → Except Fault (List Event × CalendarScheduler)
  | 0, c => pure ([], c)
  | n + 1, c => do
    let first ← doRemoveNext c
    let rest ← takeSamples n first.2
    pure (first.1 :: rest.1, rest.2)

/-- The times between one sample and the next, on unsigned words. -/
def separations (samples : List Event) : List ℕ :=
  samples.zipWith
    (fun cur next => (next.key.m_ts + (2 ^ 64 - cur.key.m_ts)) % 2 ^ 64) samples.tail

/-- Three times the total of the times that are at most twice the average. -/
def widthOf (samples : List Event) : ℕ :=
  let totalSeparation := (separations samples).sum % 2 ^ 64
  let twiceAvg := totalSeparation / (samples.length - 1) * 2 % 2 ^ 64
  let kept := (separations samples).filter fun diff => diff ≤ twiceAvg
  max (kept.sum % 2 ^ 64 * 3 % 2 ^ 64) 1

def numSamples (qSize : ℕ) : ℕ :=
  min (if qSize ≤ 5 then qSize else 5 + qSize / 10) 25

def calculateNewWidth : Except Fault (ℕ × CalendarScheduler) :=
  if c.m_qSize < 2 then pure (1, c)
  else do
    let sampled ← takeSamples (numSamples c.m_qSize) c
    let restored := sampled.1.foldl doInsert sampled.2
    pure (widthOf sampled.1,
      { restored with
        m_lastBucket := c.m_lastBucket
        m_bucketTop := c.m_bucketTop
        m_lastPrio := c.m_lastPrio })

def doResize (newSize newWidth : ℕ) : CalendarScheduler :=
  c.m_buckets.flatten.foldl doInsert (init newSize newWidth c.m_lastPrio c.m_qSize)

def resize (newSize : ℕ) : Except Fault CalendarScheduler := do
  let sampled ← calculateNewWidth c
  pure (doResize sampled.2 newSize sampled.1)

def resizeUp : Except Fault CalendarScheduler :=
  if c.m_nBuckets * 2 < c.m_qSize ∧ c.m_nBuckets < 32768 then resize c (c.m_nBuckets * 2)
  else pure c

def resizeDown : Except Fault CalendarScheduler :=
  if c.m_qSize < c.m_nBuckets / 2 then resize c (c.m_nBuckets / 2) else pure c

def insert (ev : Event) : Except Fault CalendarScheduler :=
  resizeUp (setSize (doInsert c ev) ((c.m_qSize + 1) % 2 ^ 32))

def removeNext : Except Fault (Event × CalendarScheduler) := do
  let next ← doRemoveNext c
  let rest ← resizeDown (setSize next.2 ((next.2.m_qSize + (2 ^ 32 - 1)) % 2 ^ 32))
  pure (next.1, rest)

def remove (ev : Event) : Except Fault CalendarScheduler :=
  let i := hash c ev.key.m_ts
  let found := fun other : Event => other.key.m_uid = ev.key.m_uid
  if (bucket c i).any fun other => found other then
    resizeDown (setSize (setBucket c i ((bucket c i).eraseP fun other => found other))
      ((c.m_qSize + (2 ^ 32 - 1)) % 2 ^ 32))
  else pure c

end Methods

def scheduler : Scheduler CalendarScheduler where
  insert := insert
  isEmpty := isEmpty
  peekNext c := pure (peekNext c)
  removeNext := removeNext
  remove := remove

def contents (c : CalendarScheduler) : Multiset Event := c.m_buckets.flatten

variable {c : CalendarScheduler}

variable {i : ℕ}

theorem flatten_set {α : Type} (ls : List (List α)) (lt : i < ls.length) (l : List α) :
    (((ls.set i l).flatten : List α) : Multiset α) + (ls.getD i [] : List α) =
      (ls.flatten : List α) + (l : List α) := by
  induction ls generalizing i with
  | nil => simp at lt
  | cons first ls ih =>
    cases i with
    | zero =>
      simp only [set_cons_zero, flatten_cons, getD_cons_zero, ← Multiset.coe_add]
      abel
    | succ i =>
      have hrest := ih (by simpa using lt)
      simp only [set_cons_succ, flatten_cons, getD_cons_succ, ← Multiset.coe_add]
      rw [add_assoc, hrest]
      abel

variable {ev : Event}

theorem mem_contents : ev ∈ contents c ↔ ∃ i, ev ∈ bucket c i := by
  unfold contents bucket
  rw [Multiset.mem_coe, mem_flatten]
  constructor
  · rintro ⟨l, hl, hev⟩
    obtain ⟨i, hi, rfl⟩ := mem_iff_getElem.mp hl
    exact ⟨i, by simpa [hi] using hev⟩
  · rintro ⟨i, hev⟩
    by_cases hi : i < c.m_buckets.length
    · exact ⟨c.m_buckets[i], getElem_mem hi, by simpa [hi] using hev⟩
    · simp [hi] at hev

variable {l : Bucket}

theorem bucket_setBucket {j : ℕ} (lt : i < c.m_buckets.length) :
    bucket (setBucket c i l) j = if j = i then l else bucket c j := by
  unfold bucket setBucket
  by_cases hji : j = i
  · simp [hji, lt]
  · simp [hji, List.getElem?_set_ne (Ne.symm hji)]

theorem contents_setBucket (lt : i < c.m_buckets.length) :
    contents (setBucket c i l) + (bucket c i : Bucket) = contents c + (l : Bucket) :=
  flatten_set c.m_buckets lt l

theorem insertBefore_perm (ev : Event) (l : Bucket) : (insertBefore ev l).Perm (ev :: l) := by
  induction l with
  | nil => exact List.Perm.refl _
  | cons next rest ih =>
    unfold insertBefore
    by_cases hless : ev.key.less next.key
    · rw [if_pos hless]
    · rw [if_neg hless]
      exact (ih.cons next).trans (List.Perm.swap ev next rest)

def Sorted (l : Bucket) : Prop := l.Pairwise fun a b => a.rank ≤ b.rank

theorem sorted_insertBefore (sorted : Sorted l) : Sorted (insertBefore ev l) := by
  induction l with
  | nil => exact pairwise_singleton _ _
  | cons next rest ih =>
    obtain ⟨hnext, hrest⟩ := pairwise_cons.mp sorted
    unfold insertBefore
    by_cases hless : ev.key.less next.key
    · rw [if_pos hless]
      have hle : ev.rank ≤ next.rank := ((Event.less_iff ev next).mp hless).le
      refine pairwise_cons.mpr ⟨fun other hother => ?_, sorted⟩
      rcases mem_cons.mp hother with rfl | hmem
      · exact hle
      · exact hle.trans (hnext other hmem)
    · rw [if_neg hless]
      have hle : next.rank ≤ ev.rank := (Event.not_less_iff ev next).mp hless
      refine pairwise_cons.mpr ⟨fun other hother => ?_, ih hrest⟩
      rcases mem_cons.mp ((insertBefore_perm ev rest).mem_iff.mp hother) with rfl | hmem
      · exact hle
      · exact hnext other hmem

/-- Every event stands in the bucket of its day, in the order of the keys. -/
structure Placed (c : CalendarScheduler) : Prop where
  length : c.m_buckets.length = c.m_nBuckets
  nBuckets_pos : 0 < c.m_nBuckets
  nBuckets_le : c.m_nBuckets ≤ 65536
  width_pos : 0 < c.m_width
  width_lt : c.m_width < 2 ^ 64
  hashed : ∀ i, ∀ ev ∈ bucket c i, hash c ev.key.m_ts = i
  sorted : ∀ i, Sorted (bucket c i)
  early : ∀ ev ∈ contents c, ev.key.m_ts < 2 ^ 63

theorem Placed.hash_lt (placed : Placed c) (ts : ℕ) : hash c ts < c.m_buckets.length := by
  rw [placed.length]
  exact Nat.mod_lt _ placed.nBuckets_pos

theorem Placed.mem_hash (placed : Placed c) (present : ev ∈ contents c) :
    ev ∈ bucket c (hash c ev.key.m_ts) := by
  obtain ⟨i, hi⟩ := mem_contents.mp present
  rwa [placed.hashed i ev hi]

theorem Placed.setBucket (placed : Placed c) (lt : i < c.m_buckets.length)
    (hashed : ∀ ev ∈ l, hash c ev.key.m_ts = i ∧ ev.key.m_ts < 2 ^ 63) (sorted : Sorted l) :
    Placed (setBucket c i l) where
  length := by simpa [Calendar.setBucket] using placed.length
  nBuckets_pos := placed.nBuckets_pos
  nBuckets_le := placed.nBuckets_le
  width_pos := placed.width_pos
  width_lt := placed.width_lt
  hashed := by
    intro j ev hev
    rw [bucket_setBucket lt] at hev
    by_cases hji : j = i
    · rw [if_pos hji] at hev
      exact hji ▸ (hashed ev hev).1
    · rw [if_neg hji] at hev
      exact placed.hashed j ev hev
  sorted := by
    intro j
    rw [bucket_setBucket lt]
    by_cases hji : j = i
    · rwa [if_pos hji]
    · rw [if_neg hji]
      exact placed.sorted j
  early := by
    intro ev hev
    obtain ⟨j, hj⟩ := mem_contents.mp hev
    rw [bucket_setBucket lt] at hj
    by_cases hji : j = i
    · rw [if_pos hji] at hj
      exact (hashed ev hj).2
    · rw [if_neg hji] at hj
      exact placed.early ev (mem_contents.mpr ⟨j, hj⟩)

theorem Placed.doInsert (placed : Placed c) (early : ev.key.m_ts < 2 ^ 63) :
    Placed (doInsert c ev) := by
  refine placed.setBucket (placed.hash_lt _) (fun other hother => ?_)
    (sorted_insertBefore (placed.sorted _))
  rcases mem_cons.mp ((insertBefore_perm ev _).mem_iff.mp hother) with rfl | hmem
  · exact ⟨rfl, early⟩
  · exact ⟨placed.hashed _ other hmem, placed.early other (mem_contents.mpr ⟨_, hmem⟩)⟩

theorem contents_doInsert (placed : Placed c) (ev : Event) :
    contents (doInsert c ev) = ev ::ₘ contents c := by
  have hset := contents_setBucket (l := insertBefore ev (bucket c (hash c ev.key.m_ts)))
    (placed.hash_lt ev.key.m_ts)
  rw [Multiset.coe_eq_coe.mpr (insertBefore_perm ev _), ← Multiset.cons_coe,
    Multiset.add_cons, ← Multiset.cons_add] at hset
  exact add_right_cancel hset

/-! ## The search -/

/-- The window stands on the day of the last event returned, and no event is before it. -/
structure Windowed (c : CalendarScheduler) : Prop where
  lastPrio_lt : c.m_lastPrio < 2 ^ 63
  lastPrio_le : ∀ ev ∈ contents c, c.m_lastPrio ≤ ev.key.m_ts
  lastBucket : c.m_lastBucket = hash c c.m_lastPrio
  bucketTop : c.m_bucketTop = (c.m_lastPrio / c.m_width + 1) * c.m_width

theorem dayEnd_lt {ts width : ℕ} (early : ts < 2 ^ 63) (fits : width < 2 ^ 64) :
    (ts / width + 1) * width < 2 ^ 64 := by
  by_cases hday : ts / width = 0
  · rw [hday]
    omega
  · have hle : ts / width * width ≤ ts := Nat.div_mul_le_self ts width
    have hwidth : width ≤ ts / width * width :=
      Nat.le_mul_of_pos_left width (Nat.pos_of_ne_zero hday)
    rw [Nat.add_mul, Nat.one_mul]
    omega

theorem lt_dayEnd {ts width : ℕ} (pos : 0 < width) : ts < (ts / width + 1) * width := by
  rw [Nat.mul_comm]
  exact Nat.lt_mul_div_succ ts pos

def dayBucket (c : CalendarScheduler) (k : ℕ) : ℕ :=
  (c.m_lastPrio / c.m_width + k) % c.m_nBuckets

def dayTop (c : CalendarScheduler) (k : ℕ) : ℕ :=
  (c.m_lastPrio / c.m_width + 1 + k) * c.m_width % 2 ^ 64

structure Seen (c : CalendarScheduler) (k : ℕ) (least : Least) : Prop where
  le : ∀ j < k, ∀ ev ∈ bucket c (dayBucket c j), least.minEvent.rank ≤ ev.rank
  found : (∃ i ∈ least.minBucket, (bucket c i).head? = some least.minEvent) ∨
    ∀ ev ∈ contents c, ev.rank < least.minEvent.rank

def Finds (c : CalendarScheduler) : Scan → Prop
  | .inWindow i bucketTop next => Next (contents c) next ∧ (bucket c i).head? = some next ∧
      bucketTop = (next.key.m_ts / c.m_width + 1) * c.m_width
  | .wholeYear least => contents c ≠ 0 → Next (contents c) least.minEvent ∧
      ∃ i ∈ least.minBucket, (bucket c i).head? = some least.minEvent

variable {next : Event}

theorem Placed.head_le (placed : Placed c) (head : (bucket c i).head? = some next)
    (mem : ev ∈ bucket c i) : next.rank ≤ ev.rank := by
  obtain ⟨rest, hrest⟩ := List.head?_eq_some_iff.mp head
  have hsorted := placed.sorted i
  rw [hrest] at hsorted mem
  rcases mem_cons.mp mem with rfl | hmem
  · exact le_rfl
  · exact (pairwise_cons.mp hsorted).1 ev hmem

theorem head_mem (head : (bucket c i).head? = some next) : next ∈ contents c :=
  mem_contents.mpr ⟨i, mem_of_mem_head? head⟩

theorem next_of_le (mem : ev ∈ contents c)
    (le : ∀ other ∈ contents c, ev.rank ≤ other.rank) : Next (contents c) ev :=
  ⟨mem, fun other hother => (Event.not_less_iff other ev).mpr (le other hother)⟩

theorem rank_le_of_ts_lt {a b : Event} (lt : a.key.m_ts < b.key.m_ts) : a.rank ≤ b.rank :=
  (Prod.Lex.toLex_lt_toLex.mpr (Or.inl lt)).le

theorem ts_le_of_rank_le {a b : Event} (le : a.rank ≤ b.rank) : a.key.m_ts ≤ b.key.m_ts := by
  rcases Prod.Lex.toLex_le_toLex.mp le with hlt | ⟨heq, -⟩
  · exact hlt.le
  · exact heq.le

theorem Placed.mem_day (placed : Placed c) {k : ℕ} (mem : ev ∈ contents c)
    (day : ev.key.m_ts / c.m_width = c.m_lastPrio / c.m_width + k) :
    ev ∈ bucket c (dayBucket c k) := by
  have hmem := placed.mem_hash mem
  unfold hash hashOf at hmem
  rwa [day] at hmem

theorem ts_lt_of_day_lt {a b : ℕ} (width : ℕ) (lt : a / width < b / width) : a < b :=
  lt_of_not_ge fun hle => absurd (Nat.div_le_div_right (c := width) hle) (not_le.mpr lt)

theorem dayTop_of_day (placed : Placed c) {k : ℕ} (mem : ev ∈ contents c)
    (day : ev.key.m_ts / c.m_width = c.m_lastPrio / c.m_width + k) :
    dayTop c k = (ev.key.m_ts / c.m_width + 1) * c.m_width := by
  unfold dayTop
  rw [Nat.add_right_comm, ← day]
  exact Nat.mod_eq_of_lt (dayEnd_lt (placed.early ev mem) placed.width_lt)

theorem lt_dayTop_iff (placed : Placed c) {k : ℕ} (mem : ev ∈ contents c)
    (later : c.m_lastPrio / c.m_width + k ≤ ev.key.m_ts / c.m_width) :
    ev.key.m_ts < dayTop c k ↔ ev.key.m_ts / c.m_width = c.m_lastPrio / c.m_width + k := by
  constructor
  · intro hlt
    by_contra hne
    have hday : c.m_lastPrio / c.m_width + 1 + k ≤ ev.key.m_ts / c.m_width := by omega
    have htop : (c.m_lastPrio / c.m_width + 1 + k) * c.m_width ≤ ev.key.m_ts :=
      (Nat.mul_le_mul_right _ hday).trans (Nat.div_mul_le_self _ _)
    have hearly := placed.early ev mem
    unfold dayTop at hlt
    rw [Nat.mod_eq_of_lt (by omega)] at hlt
    omega
  · intro hday
    rw [dayTop_of_day placed mem hday]
    exact lt_dayEnd placed.width_pos

theorem frontInWindow_some {top : ℕ} :
    frontInWindow top l = some next ↔ l.head? = some next ∧ next.key.m_ts < top := by
  cases l with
  | nil => simp [frontInWindow]
  | cons first rest =>
    by_cases hlt : first.key.m_ts < top
    · simp only [frontInWindow, if_pos hlt, List.head?_cons, Option.some_inj]
      exact ⟨fun heq => ⟨heq, heq ▸ hlt⟩, fun h => h.1⟩
    · simp only [frontInWindow, if_neg hlt, List.head?_cons, Option.some_inj]
      exact ⟨fun h => (Option.some_ne_none next h.symm).elim, fun h => absurd (h.1 ▸ h.2) hlt⟩

section

variable (placed : Placed c)

include placed

theorem finds_front {k : ℕ}
    (later : ∀ ev ∈ contents c, c.m_lastPrio / c.m_width + k ≤ ev.key.m_ts / c.m_width)
    (front : frontInWindow (dayTop c k) (bucket c (dayBucket c k)) = some next) :
    Finds c (.inWindow (dayBucket c k) (dayTop c k) next) := by
  obtain ⟨hhead, hlt⟩ := frontInWindow_some.mp front
  have hmem := head_mem hhead
  have hday := (lt_dayTop_iff placed hmem (later next hmem)).mp hlt
  refine ⟨next_of_le hmem fun other hother => ?_, hhead, dayTop_of_day placed hmem hday⟩
  by_cases hsame : other.key.m_ts / c.m_width = c.m_lastPrio / c.m_width + k
  · exact placed.head_le hhead (placed.mem_day hother hsame)
  · have hother' := later other hother
    exact rank_le_of_ts_lt (ts_lt_of_day_lt c.m_width (by omega))

theorem later_succ {k : ℕ}
    (later : ∀ ev ∈ contents c, c.m_lastPrio / c.m_width + k ≤ ev.key.m_ts / c.m_width)
    (front : frontInWindow (dayTop c k) (bucket c (dayBucket c k)) = none) :
    ∀ ev ∈ contents c, c.m_lastPrio / c.m_width + (k + 1) ≤ ev.key.m_ts / c.m_width := by
  intro ev hev
  have hle := later ev hev
  refine (lt_of_le_of_ne hle fun heq => ?_ : _ < _)
  have hmem := placed.mem_day hev heq.symm
  obtain ⟨next, hhead⟩ : ∃ next, (bucket c (dayBucket c k)).head? = some next :=
    Option.isSome_iff_exists.mp (isSome_head?.mpr (ne_nil_of_mem hmem))
  have hlt : ¬next.key.m_ts < dayTop c k := fun hlt =>
    Option.some_ne_none next ((frontInWindow_some.mpr ⟨hhead, hlt⟩).symm.trans front)
  have hnext := head_mem hhead
  rw [lt_dayTop_iff placed hnext (later next hnext)] at hlt
  have hts := ts_le_of_rank_le (placed.head_le hhead hmem)
  have hday := Nat.div_le_div_right (c := c.m_width) hts
  have hnextDay := later next hnext
  omega

theorem Seen.front {k : ℕ} {least : Least} (seen : Seen c k least) :
    Seen c (k + 1) (least.front (dayBucket c k) (bucket c (dayBucket c k))) := by
  cases hbucket : bucket c (dayBucket c k) with
  | nil =>
    refine ⟨fun j hj ev hev => ?_, seen.found⟩
    rcases Nat.lt_succ_iff_lt_or_eq.mp hj with hlt | rfl
    · exact seen.le j hlt ev hev
    · simp [hbucket] at hev
  | cons next rest =>
    have hhead : (bucket c (dayBucket c k)).head? = some next := by rw [hbucket, List.head?_cons]
    by_cases hless : next.key.less least.minEvent.key
    · have hle : next.rank ≤ least.minEvent.rank := ((Event.less_iff _ _).mp hless).le
      simp only [Least.front, if_pos hless]
      refine ⟨fun j hj ev hev => ?_, Or.inl ⟨_, rfl, hhead⟩⟩
      rcases Nat.lt_succ_iff_lt_or_eq.mp hj with hlt | rfl
      · exact hle.trans (seen.le j hlt ev hev)
      · exact placed.head_le hhead hev
    · have hle : least.minEvent.rank ≤ next.rank :=
        (Event.not_less_iff next least.minEvent).mp hless
      simp only [Least.front, if_neg hless]
      refine ⟨fun j hj ev hev => ?_, seen.found⟩
      rcases Nat.lt_succ_iff_lt_or_eq.mp hj with hlt | rfl
      · exact seen.le j hlt ev hev
      · exact hle.trans (placed.head_le hhead hev)

theorem Seen.finds (windowed : Windowed c) {least : Least}
    (seen : Seen c c.m_nBuckets least) : Finds c (.wholeYear least) := by
  intro hfilled
  have hle : ∀ ev ∈ contents c, least.minEvent.rank ≤ ev.rank := by
    intro ev hev
    have hday := Nat.div_le_div_right (c := c.m_width) (windowed.lastPrio_le ev hev)
    obtain ⟨d, hd⟩ := Nat.exists_eq_add_of_le hday
    refine seen.le (d % c.m_nBuckets) (Nat.mod_lt _ placed.nBuckets_pos) ev ?_
    have hmem := placed.mem_hash hev
    unfold hash hashOf at hmem
    rwa [hd, ← Nat.add_mod_mod] at hmem
  obtain ⟨ev, hev⟩ := Multiset.exists_mem_of_ne_zero hfilled
  obtain ⟨i, hi, hhead⟩ := seen.found.resolve_right fun hall =>
    absurd (hall ev hev) (not_lt.mpr (hle ev hev))
  exact ⟨next_of_le (head_mem hhead) hle, i, hi, hhead⟩

theorem scan_finds (windowed : Windowed c) {rounds k : ℕ} {least : Least}
    (all : k + rounds = c.m_nBuckets) (seen : Seen c k least)
    (later : ∀ ev ∈ contents c, c.m_lastPrio / c.m_width + k ≤ ev.key.m_ts / c.m_width) :
    Finds c (scan c rounds (dayBucket c k) (dayTop c k) least) := by
  induction rounds generalizing k least with
  | zero =>
    obtain rfl : k = c.m_nBuckets := by omega
    exact seen.finds placed windowed
  | succ rounds ih =>
    have hseen := seen.front placed
    have hbucket : (dayBucket c k + 1) % c.m_nBuckets = dayBucket c (k + 1) := Nat.mod_add_mod _ _ _
    have htop : (dayTop c k + c.m_width) % 2 ^ 64 = dayTop c (k + 1) := by
      unfold dayTop
      rw [Nat.mod_add_mod, ← Nat.succ_mul]
      rfl
    unfold scan
    cases hfront : frontInWindow (dayTop c k) (bucket c (dayBucket c k)) with
    | some next => exact finds_front placed later hfront
    | none =>
      simp only [hbucket, htop]
      by_cases hround : dayBucket c (k + 1) = c.m_lastBucket
      · -- back at the bucket of the window: the whole year has been seen
        rw [if_pos hround]
        have hyear : k + 1 = c.m_nBuckets := by
          rw [windowed.lastBucket] at hround
          have hdvd : (k + 1) % c.m_nBuckets = 0 := by
            have hmod : c.m_lastPrio / c.m_width + (k + 1) ≡ c.m_lastPrio / c.m_width + 0
                [MOD c.m_nBuckets] := hround
            exact Nat.ModEq.add_left_cancel' _ hmod
          exact Nat.le_antisymm (by omega)
            (Nat.le_of_dvd (Nat.succ_pos k) (Nat.dvd_of_mod_eq_zero hdvd))
        rw [hyear] at hseen
        exact hseen.finds placed windowed
      · rw [if_neg hround]
        exact ih (by omega) hseen (later_succ placed later hfront)

theorem search_finds (windowed : Windowed c) (least : Least)
    (above : ∀ ev ∈ contents c, ev.rank < least.minEvent.rank) : Finds c (search c least) := by
  have hbucket : c.m_lastBucket = dayBucket c 0 := windowed.lastBucket
  have htop : c.m_bucketTop = dayTop c 0 := by
    rw [windowed.bucketTop]
    exact (Nat.mod_eq_of_lt (dayEnd_lt windowed.lastPrio_lt placed.width_lt)).symm
  unfold search
  rw [hbucket, htop]
  refine scan_finds placed windowed (Nat.zero_add _) ⟨fun j hj => by omega, Or.inr above⟩ ?_
  exact fun ev hev => Nat.div_le_div_right (windowed.lastPrio_le ev hev)

/-! ## Removing the next event -/

end

structure SameShape (c c' : CalendarScheduler) : Prop where
  nBuckets : c'.m_nBuckets = c.m_nBuckets
  width : c'.m_width = c.m_width
  qSize : c'.m_qSize = c.m_qSize

theorem SameShape.refl (c : CalendarScheduler) : SameShape c c := ⟨rfl, rfl, rfl⟩

theorem SameShape.trans {c' c'' : CalendarScheduler} (h : SameShape c c')
    (h' : SameShape c' c'') : SameShape c c'' :=
  ⟨h'.nBuckets.trans h.nBuckets, h'.width.trans h.width, h'.qSize.trans h.qSize⟩

theorem Placed.window (placed : Placed c) (lastBucket bucketTop lastPrio : ℕ) : Placed { c with
        m_lastBucket := lastBucket
        m_bucketTop := bucketTop
        m_lastPrio := lastPrio } :=
  ⟨placed.length, placed.nBuckets_pos, placed.nBuckets_le, placed.width_pos, placed.width_lt,
    placed.hashed, placed.sorted, placed.early⟩

theorem Placed.bucket_lt (placed : Placed c) (mem : ev ∈ bucket c i) : i < c.m_buckets.length :=
  placed.hashed i ev mem ▸ placed.hash_lt _

theorem Placed.sublist (placed : Placed c) (lt : i < c.m_buckets.length)
    (sub : l.Sublist (bucket c i)) : Placed (Calendar.setBucket c i l) := by
  refine placed.setBucket lt (fun ev hev => ?_) ((placed.sorted i).sublist sub)
  have hmem := sub.subset hev
  exact ⟨placed.hashed i ev hmem, placed.early ev (mem_contents.mpr ⟨i, hmem⟩)⟩

theorem contents_take (lt : i < c.m_buckets.length)
    (perm : (bucket c i).Perm (ev :: l)) : contents c = ev ::ₘ contents (setBucket c i l) := by
  have hset := contents_setBucket (l := l) lt
  rw [Multiset.coe_eq_coe.mpr perm, ← Multiset.cons_coe, Multiset.add_cons,
    ← Multiset.cons_add] at hset
  exact (add_right_cancel hset).symm

structure Removed (c : CalendarScheduler) (next : Event) (c' : CalendarScheduler) : Prop where
  isNext : Next (contents c) next
  contents : contents c = next ::ₘ contents c'
  placed : Placed c'
  windowed : Windowed c'
  lastPrio : c'.m_lastPrio = next.key.m_ts
  shape : SameShape c c'

section

variable (placed : Placed c)

include placed

theorem removed_front {bucketTop : ℕ}
    (isNext : Next (contents c) next) (head : (bucket c i).head? = some next)
    (top : bucketTop = (next.key.m_ts / c.m_width + 1) * c.m_width) :
    Removed c next (setBucket { c with
        m_lastBucket := i
        m_lastPrio := next.key.m_ts
        m_bucketTop := bucketTop } i (bucket c i).tail) := by
  have hmem : next ∈ bucket c i := mem_of_mem_head? head
  have hlt := placed.bucket_lt hmem
  have htail : bucket c i = next :: (bucket c i).tail := (cons_head?_tail head).symm
  have hcontents := contents_take hlt (List.Perm.of_eq htail)
  refine ⟨isNext, hcontents, ?_, ?_, rfl, ⟨rfl, rfl, rfl⟩⟩
  · exact (placed.sublist hlt (tail_sublist _)).window _ _ _
  · refine ⟨placed.early next isNext.1, fun ev hev => ?_, (placed.hashed i next hmem).symm, top⟩
    have hev' : ev ∈ contents c := by
      rw [hcontents]
      exact Multiset.mem_cons_of_mem hev
    exact ts_le_of_rank_le ((Event.not_less_iff ev next).mp (isNext.2 ev hev'))

theorem above_start (uid context : ℕ) :
    ∀ ev ∈ contents c, ev.rank < Event.rank ⟨0, 2 ^ 64 - 1, uid, context⟩ := by
  intro ev hev
  have hearly := placed.early ev hev
  exact Prod.Lex.toLex_lt_toLex.mpr (Or.inl (by change ev.key.m_ts < 2 ^ 64 - 1; omega))

theorem doRemoveNext_spec (windowed : Windowed c) (filled : contents c ≠ 0) :
    Ensures (doRemoveNext c) (fun r => Removed c r.1 r.2) (fun _ => False) := by
  have hfinds := search_finds placed windowed ⟨⟨0, 2 ^ 64 - 1, 0, 2 ^ 32 - 1⟩, none⟩
    (above_start placed _ _)
  unfold doRemoveNext
  cases hsearch : search c ⟨⟨0, 2 ^ 64 - 1, 0, 2 ^ 32 - 1⟩, none⟩ with
  | inWindow i bucketTop next =>
    rw [hsearch] at hfinds
    obtain ⟨hnext, hhead, htop⟩ := hfinds
    exact removed_front placed hnext hhead htop
  | wholeYear least =>
    rw [hsearch] at hfinds
    obtain ⟨hnext, i, hi, hhead⟩ := hfinds filled
    have hbucket : bucket c i = least.minEvent :: (bucket c i).tail :=
      (cons_head?_tail hhead).symm
    have hmem : least.minEvent ∈ bucket c i := mem_of_mem_head? hhead
    have hday : (least.minEvent.key.m_ts / c.m_width + 1) * c.m_width % 2 ^ 64 =
        (least.minEvent.key.m_ts / c.m_width + 1) * c.m_width :=
      Nat.mod_eq_of_lt (dayEnd_lt (placed.early _ hnext.1) placed.width_lt)
    have hremoved := removed_front placed hnext hhead hday
    rw [Option.mem_def] at hi
    rw [← placed.hashed i _ hmem] at hi hbucket hremoved
    simp only [hi, Option.map_some]
    rw [hbucket]
    exact hremoved

theorem peekNext_spec (windowed : Windowed c) (filled : contents c ≠ 0) :
    Next (contents c) (peekNext c) := by
  have hfinds := search_finds placed windowed ⟨⟨0, 2 ^ 64 - 1, 2 ^ 32 - 1, 0⟩, none⟩
    (above_start placed _ _)
  unfold peekNext
  cases hsearch : search c ⟨⟨0, 2 ^ 64 - 1, 2 ^ 32 - 1, 0⟩, none⟩ with
  | inWindow i bucketTop next =>
    rw [hsearch] at hfinds
    exact hfinds.1
  | wholeYear least =>
    rw [hsearch] at hfinds
    exact (hfinds filled).1

/-! ## Resizing -/

theorem takeSamples_spec (windowed : Windowed c) {n : ℕ} (enough : n ≤ (contents c).card) :
    Ensures (takeSamples n c)
      (fun r => contents c = (r.1 : Multiset Event) + contents r.2 ∧ Placed r.2 ∧ SameShape c r.2)
      (fun _ => False) := by
  induction n generalizing c with
  | zero => exact ⟨(zero_add _).symm, placed, SameShape.refl c⟩
  | succ n ih =>
    have hfilled : contents c ≠ 0 := by
      rintro hzero
      simp [hzero] at enough
    refine (doRemoveNext_spec placed windowed hfilled).bind fun first removed => ?_
    have henough : n ≤ (contents first.2).card := by
      rw [removed.contents, Multiset.card_cons] at enough
      omega
    refine (ih removed.placed removed.windowed henough).bind fun rest hrest => ?_
    refine ⟨?_, hrest.2.1, removed.shape.trans hrest.2.2⟩
    rw [removed.contents, hrest.1]
    rfl

theorem foldl_doInsert (l : List Event) (early : ∀ ev ∈ l, ev.key.m_ts < 2 ^ 63) :
    Placed (l.foldl doInsert c) ∧ contents (l.foldl doInsert c) =
    (l : Multiset Event) + contents c ∧
      l.foldl doInsert c = { c with m_buckets := (l.foldl doInsert c).m_buckets } := by
  induction l generalizing c with
  | nil => exact ⟨placed, (zero_add _).symm, rfl⟩
  | cons ev l ih =>
    obtain ⟨hplaced, hcontents, hframe⟩ := ih (placed.doInsert (early ev (by simp)))
      fun other hother => early other (by simp [hother])
    refine ⟨hplaced, ?_, hframe⟩
    rw [foldl_cons, hcontents, contents_doInsert placed, ← Multiset.cons_coe,
      Multiset.add_cons, Multiset.cons_add]

end

theorem numSamples_le (qSize : ℕ) : numSamples qSize ≤ qSize := by
  unfold numSamples
  by_cases hfew : qSize ≤ 5
  · rw [if_pos hfew]
    exact Nat.min_le_left _ _
  · rw [if_neg hfew]
    omega

theorem widthOf_bounds (samples : List Event) : 0 < widthOf samples ∧ widthOf samples < 2 ^ 64 := by
  unfold widthOf
  dsimp only
  omega

theorem calculateNewWidth_spec (placed : Placed c) (windowed : Windowed c)
    (counted : c.m_qSize ≤ (contents c).card) :
    Ensures (calculateNewWidth c) (fun r => (0 < r.1 ∧ r.1 < 2 ^ 64) ∧ contents r.2 = contents c ∧
        r.2.m_lastPrio = c.m_lastPrio ∧ r.2.m_qSize = c.m_qSize) (fun _ => False) := by
  unfold calculateNewWidth
  by_cases hfew : c.m_qSize < 2
  · rw [if_pos hfew]
    exact ⟨⟨Nat.one_pos, Nat.one_lt_two_pow (by decide)⟩, rfl, rfl, rfl⟩
  · rw [if_neg hfew]
    have henough := (numSamples_le c.m_qSize).trans counted
    refine (takeSamples_spec placed windowed henough).bind fun sampled hsampled => ?_
    obtain ⟨hcontents, hplaced, hshape⟩ := hsampled
    have hearly : ∀ ev ∈ sampled.1, ev.key.m_ts < 2 ^ 63 := fun ev hev =>
      placed.early ev (hcontents ▸ Multiset.mem_add.mpr (Or.inl hev))
    obtain ⟨-, hrestored, hframe⟩ := foldl_doInsert hplaced sampled.1 hearly
    refine ⟨widthOf_bounds sampled.1, hrestored.trans hcontents.symm, rfl, ?_⟩
    change (sampled.1.foldl doInsert sampled.2).m_qSize = c.m_qSize
    rw [hframe]
    exact hshape.qSize

theorem contents_init (nBuckets width startPrio qSize : ℕ) :
    contents (init nBuckets width startPrio qSize) = 0 := by
  unfold contents init
  simp

theorem bucket_init (nBuckets width startPrio qSize i : ℕ) :
    bucket (init nBuckets width startPrio qSize) i = [] := by
  unfold bucket init
  by_cases hi : i < nBuckets
  · simp [hi]
  · simp [hi]

theorem placed_init {nBuckets width : ℕ} (startPrio qSize : ℕ) (pos : 0 < nBuckets)
    (le : nBuckets ≤ 65536) (width_pos : 0 < width) (width_lt : width < 2 ^ 64) :
    Placed (init nBuckets width startPrio qSize) where
  length := length_replicate
  nBuckets_pos := pos
  nBuckets_le := le
  width_pos := width_pos
  width_lt := width_lt
  hashed := by simp [bucket_init]
  sorted := fun i => by
    rw [bucket_init]
    exact List.Pairwise.nil
  early := by simp [contents_init]

/-- What is kept between the operations. The size is a word, so it may wrap around. -/
structure CalendarOk (c : CalendarScheduler) : Prop where
  placed : Placed c
  windowed : Windowed c
  counted : c.m_qSize = (contents c).card % 2 ^ 32

theorem doResize_spec {events : Multiset Event} {newSize newWidth : ℕ}
    (same : contents c = events) (lastPrio_lt : c.m_lastPrio < 2 ^ 63)
    (early : ∀ ev ∈ events, c.m_lastPrio ≤ ev.key.m_ts ∧ ev.key.m_ts < 2 ^ 63)
    (pos : 0 < newSize) (le : newSize ≤ 65536) (width_pos : 0 < newWidth)
    (width_lt : newWidth < 2 ^ 64) :
    Placed (doResize c newSize newWidth) ∧ Windowed (doResize c newSize newWidth) ∧
      contents (doResize c newSize newWidth) = events ∧
      (doResize c newSize newWidth).m_lastPrio = c.m_lastPrio ∧
      (doResize c newSize newWidth).m_qSize = c.m_qSize := by
  have hmem : ∀ ev ∈ c.m_buckets.flatten, ev ∈ events := fun ev hev => same ▸ hev
  obtain ⟨hplaced, hcontents, hframe⟩ := foldl_doInsert
    (placed_init c.m_lastPrio c.m_qSize pos le width_pos width_lt) c.m_buckets.flatten
    fun ev hev => (early ev (hmem ev hev)).2
  have hevents : contents (doResize c newSize newWidth) = events := by
    rw [doResize, hcontents, contents_init, add_zero]
    exact same
  refine ⟨hplaced, ?_, hevents, by rw [doResize, hframe]; rfl, by rw [doResize, hframe]; rfl⟩
  have hlast : (doResize c newSize newWidth).m_lastPrio = c.m_lastPrio := by
    rw [doResize, hframe]
    rfl
  constructor
  · rw [hlast]
    exact lastPrio_lt
  · intro ev hev
    rw [hlast]
    exact (early ev (hevents ▸ hev)).1
  · unfold hash doResize
    rw [hframe]
    rfl
  · unfold doResize
    rw [hframe]
    exact Nat.mod_eq_of_lt (dayEnd_lt lastPrio_lt width_lt)

structure Leaves (events : Multiset Event) (lastPrio : ℕ) (c : CalendarScheduler) : Prop where
  ok : CalendarOk c
  contents : contents c = events
  lastPrio : c.m_lastPrio = lastPrio

theorem CalendarOk.leaves (ok : CalendarOk c) : Leaves (contents c) c.m_lastPrio c :=
  ⟨ok, rfl, rfl⟩

theorem resize_spec (ok : CalendarOk c) {newSize : ℕ} (pos : 0 < newSize) (le : newSize ≤ 65536) :
    Ensures (resize c newSize) (Leaves (contents c) c.m_lastPrio) (fun _ => False) := by
  have hcounted : c.m_qSize ≤ (contents c).card := ok.counted ▸ Nat.mod_le _ _
  unfold resize
  refine (calculateNewWidth_spec ok.placed ok.windowed hcounted).bind fun sampled hsampled => ?_
  obtain ⟨hwidth, hcontents, hlast, hsize⟩ := hsampled
  obtain ⟨hplaced, hwindowed, hevents, hlast', hsize'⟩ := doResize_spec
    hcontents (hlast ▸ ok.windowed.lastPrio_lt)
    (fun ev hev => ⟨hlast ▸ ok.windowed.lastPrio_le ev hev, ok.placed.early ev hev⟩)
    pos le hwidth.1 hwidth.2
  exact ⟨⟨hplaced, hwindowed, by rw [hsize', hsize, hevents, ok.counted]⟩, hevents,
    hlast'.trans hlast⟩

theorem resizeUp_spec (ok : CalendarOk c) :
    Ensures (resizeUp c) (Leaves (contents c) c.m_lastPrio) (fun _ => False) := by
  have hpos := ok.placed.nBuckets_pos
  unfold resizeUp
  exact Ensures.ite (fun h => resize_spec ok (by omega) (by omega)) fun _ => ok.leaves

theorem resizeDown_spec (ok : CalendarOk c) :
    Ensures (resizeDown c) (Leaves (contents c) c.m_lastPrio) (fun _ => False) := by
  have hle := ok.placed.nBuckets_le
  unfold resizeDown
  exact Ensures.ite (fun h => resize_spec ok (by omega) (by omega)) fun _ => ok.leaves

/-! ## Operations -/

theorem contents_setSize (qSize : ℕ) : contents (setSize c qSize) = contents c := rfl

theorem lastPrio_setSize (qSize : ℕ) : (setSize c qSize).m_lastPrio = c.m_lastPrio := rfl

theorem CalendarOk.setSize (placed : Placed c) (windowed : Windowed c) {qSize : ℕ}
    (counted : qSize = (contents c).card % 2 ^ 32) : CalendarOk (setSize c qSize) where
  placed := ⟨placed.length, placed.nBuckets_pos, placed.nBuckets_le, placed.width_pos,
    placed.width_lt, placed.hashed, placed.sorted, placed.early⟩
  windowed := ⟨windowed.lastPrio_lt, windowed.lastPrio_le, windowed.lastBucket, windowed.bucketTop⟩
  counted := counted

theorem Windowed.setBucket (windowed : Windowed c)
    (le : ∀ ev ∈ contents (setBucket c i l), c.m_lastPrio ≤ ev.key.m_ts) :
    Windowed (setBucket c i l) :=
  ⟨windowed.lastPrio_lt, le, windowed.lastBucket, windowed.bucketTop⟩

theorem insert_spec (ok : CalendarOk c) (timely : c.m_lastPrio ≤ ev.key.m_ts)
    (early : ev.key.m_ts < 2 ^ 63) :
    Ensures (insert c ev) (Leaves (ev ::ₘ contents c) c.m_lastPrio) (fun _ => False) := by
  have hcontents := contents_doInsert ok.placed ev
  have hle : ∀ other ∈ contents (doInsert c ev), c.m_lastPrio ≤ other.key.m_ts := by
    intro other hother
    rcases Multiset.mem_cons.mp (hcontents ▸ hother) with rfl | hmem
    · exact timely
    · exact ok.windowed.lastPrio_le other hmem
  have hcounted : (c.m_qSize + 1) % 2 ^ 32 = (contents (doInsert c ev)).card % 2 ^ 32 := by
    rw [hcontents, Multiset.card_cons, ok.counted, Nat.mod_add_mod]
  have hinserted :=
    CalendarOk.setSize (ok.placed.doInsert early) (ok.windowed.setBucket hle) hcounted
  have hresized := resizeUp_spec hinserted
  rw [contents_setSize, hcontents] at hresized
  exact hresized

theorem counted_removed {n : ℕ} (ev : Event) {events : Multiset Event}
    (counted : n = (ev ::ₘ events).card % 2 ^ 32) :
    (n + (2 ^ 32 - 1)) % 2 ^ 32 = events.card % 2 ^ 32 := by
  rw [counted, Multiset.card_cons]
  omega

theorem removeNext_spec (ok : CalendarOk c) (filled : contents c ≠ 0) : Ensures (removeNext c)
      (fun r => (Next (contents c) r.1 ∧ contents c = r.1 ::ₘ contents r.2) ∧
        Leaves (contents r.2) r.1.key.m_ts r.2) (fun _ => False) := by
  unfold removeNext
  refine (doRemoveNext_spec ok.placed ok.windowed filled).bind fun next removed => ?_
  have hcounted : (next.2.m_qSize + (2 ^ 32 - 1)) % 2 ^ 32 = (contents next.2).card % 2 ^ 32 := by
    refine counted_removed next.1 ?_
    rw [removed.shape.qSize, ok.counted, ← removed.contents]
  have hremoved := CalendarOk.setSize removed.placed removed.windowed hcounted
  refine (resizeDown_spec hremoved).bind fun c' hc' => ?_
  have hcontents : contents c' = contents next.2 := hc'.contents.trans (contents_setSize _)
  have hlast : c'.m_lastPrio = next.1.key.m_ts :=
    (hc'.lastPrio.trans (lastPrio_setSize _)).trans removed.lastPrio
  refine ⟨⟨removed.isNext, ?_⟩, hc'.ok, rfl, hlast⟩
  rw [hcontents]
  exact removed.contents

theorem remove_spec (ok : CalendarOk c) (distinct : UidsDistinct (contents c))
    (present : ev ∈ contents c) : Ensures (remove c ev)
      (fun c' => contents c = ev ::ₘ contents c' ∧ Leaves (contents c') c.m_lastPrio c')
      (fun _ => False) := by
  have hmem := ok.placed.mem_hash present
  have hlt := ok.placed.bucket_lt hmem
  have hany : (bucket c (hash c ev.key.m_ts)).any
      (fun other => other.key.m_uid = ev.key.m_uid) := by
    rw [any_eq_true]
    exact ⟨ev, hmem, by simp⟩
  -- the first event with this uid is the only one
  obtain ⟨other, before, rest, -, huid, hsplit, herase⟩ := exists_of_eraseP hmem
    (p := fun other => other.key.m_uid = ev.key.m_uid) (by simp)
  have hother : other ∈ bucket c (hash c ev.key.m_ts) := by
    rw [hsplit]
    simp
  obtain rfl : other = ev :=
    distinct.eq_of_uid (mem_contents.mpr ⟨_, hother⟩) present (of_decide_eq_true huid)
  have hperm : (bucket c (hash c other.key.m_ts)).Perm (other :: (before ++ rest)) := by
    rw [hsplit]
    exact perm_middle
  have hcontents := contents_take hlt hperm
  have hcounted : (c.m_qSize + (2 ^ 32 - 1)) % 2 ^ 32 =
      (contents (setBucket c (hash c other.key.m_ts) (before ++ rest))).card % 2 ^ 32 := by
    refine counted_removed other ?_
    rw [ok.counted, ← hcontents]
  have hplaced : Placed (setBucket c (hash c other.key.m_ts) (before ++ rest)) := by
    refine ok.placed.sublist hlt ?_
    rw [hsplit]
    exact List.Sublist.append_left (sublist_cons_self _ _) before
  have hwindowed : Windowed (setBucket c (hash c other.key.m_ts) (before ++ rest)) :=
    ok.windowed.setBucket fun ev' hev' =>
      ok.windowed.lastPrio_le ev' (hcontents ▸ Multiset.mem_cons_of_mem hev')
  unfold remove
  dsimp only
  rw [if_pos hany, herase]
  refine (resizeDown_spec (CalendarOk.setSize hplaced hwindowed hcounted)).weaken fun c' hc' => ?_
  have hleft := hc'.contents.trans (contents_setSize _)
  exact ⟨hleft.symm ▸ hcontents, hc'.ok, rfl, hc'.lastPrio⟩

/-! ## Runs -/

def WellSized (c : CalendarScheduler) : Prop := 1 ≤ c.m_nBuckets ∧ 1 ≤ c.m_width

structure SessionOk (s : Session CalendarScheduler) : Prop where
  ok : CalendarOk s.queue
  lastPrio : s.queue.m_lastPrio = s.lastTs
  distinct : UidsDistinct (contents s.queue)

theorem CalendarOk.wellSized (ok : CalendarOk c) : WellSized c :=
  ⟨ok.placed.nBuckets_pos, ok.placed.width_pos⟩

theorem start_ok : SessionOk ⟨start, 0⟩ where
  ok :=
    { placed := placed_init 0 0 (by decide) (by decide) (by decide) (by decide)
      windowed := ⟨by decide, fun _ _ => Nat.zero_le _, rfl, rfl⟩
      counted := rfl }
  lastPrio := rfl
  distinct := by
    change UidsDistinct (contents (init 2 1 0 0))
    rw [contents_init]
    exact Multiset.nodup_zero

theorem serve_spec {s : Session CalendarScheduler} (ok : SessionOk s) {op : Op}
    (timely : Timely contents s op) :
    Ensures (serve scheduler s.queue op)
      (fun r => Serves (contents s.queue) op r.1 (contents r.2) ∧ CalendarOk r.2 ∧
        r.2.m_lastPrio = lastTsAfter s.lastTs op r.1) (fun _ => False) := by
  obtain ⟨permitted, hinsert⟩ := timely
  cases op with
  | insert ev =>
    obtain ⟨hle, hlt⟩ := hinsert ev rfl
    refine ensures_map.mpr ((insert_spec ok.ok (ok.lastPrio ▸ hle) hlt).weaken fun c' hc' => ?_)
    exact ⟨⟨rfl, hc'.contents⟩, hc'.ok, hc'.lastPrio.trans ok.lastPrio⟩
  | peekNext =>
    have hnext := peekNext_spec ok.ok.placed ok.ok.windowed permitted
    exact ⟨⟨_, rfl, hnext, rfl⟩, ok.ok, ok.lastPrio⟩
  | removeNext =>
    refine ensures_map.mpr ((removeNext_spec ok.ok permitted).weaken fun r hr => ?_)
    exact ⟨⟨r.1, rfl, hr.1.1, hr.1.2⟩, hr.2.ok, hr.2.lastPrio⟩
  | remove ev =>
    refine ensures_map.mpr ((remove_spec ok.ok ok.distinct permitted).weaken fun c' hc' => ?_)
    exact ⟨⟨rfl, hc'.1⟩, hc'.2.ok, hc'.2.lastPrio.trans ok.lastPrio⟩

theorem SessionOk.keep {s s' : Session CalendarScheduler} {op : Op} (ok : SessionOk s)
    (timely : Timely contents s op) (run : sessionStep scheduler s op = .ok s') :
    SessionOk s' := by
  obtain ⟨answer, hserve, hlast⟩ := sessionStep_ok_inv run
  obtain ⟨hserves, hok, hlast'⟩ := Ensures.of_ok (serve_spec ok timely) hserve
  exact ⟨hok, hlast'.trans hlast.symm, hserves.uidsDistinct timely.1 ok.distinct⟩

theorem calendar_lawful : Lawful scheduler contents SessionOk start where
  empty_ok := start_ok
  empty_contents := contents_init 2 1 0 0
  isEmpty_iff := by
    intro s ok fits
    change decide (s.queue.m_qSize = 0) ↔ _
    rw [decide_eq_true_iff, ok.ok.counted, Nat.mod_eq_of_lt fits, Multiset.card_eq_zero]
  serves := by
    intro s op ok timely
    refine (serve_spec ok timely).weaken fun r hr => ⟨hr.1, hr.2.1, hr.2.2, ?_⟩
    exact hr.1.uidsDistinct timely.1 ok.distinct

end Egsr.Core.Calendar
