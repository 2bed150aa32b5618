import Mathlib.Algebra.BigOperators.Fin
import Mathlib.Data.Nat.ModEq
import Egsr.Lib.Outcome

/-! The distributed simulator. Its tasks run their own events inside a granted time window, send
packets to each other and find the next window in rounds of `MPI_Allgather`, which a task leaves
once all have entered. An event counts here by its time only. -/

namespace Egsr.Mpi

open Lib.Run Lib.Outcome List

def maximumSimulationTime : ℕ := 2 ^ 63 - 1

inductive Fault where
  | assertionFailed
deriving DecidableEq

structure LbtsMessage where
  m_rxCount : ℕ
  m_txCount : ℕ
  m_isFinished : Bool
  m_smallestTime : ℕ
deriving DecidableEq, Inhabited

structure DistributedSimulatorImpl where
  m_events : List ℕ
  m_currentTs : ℕ
  m_grantedTime : ℤ
  m_stop : Bool
  m_globalFinished : Bool
  m_rxCount : ℕ
  m_txCount : ℕ
  /-- What the task gave to the rounds it entered, and how many of them it has left. -/
  given : List LbtsMessage
  left : ℕ
deriving DecidableEq

namespace DistributedSimulatorImpl

variable (s : DistributedSimulatorImpl)

def isLocalFinished : Bool := s.m_events.isEmpty || s.m_stop

def nextTs : ℕ :=
  if isLocalFinished s then maximumSimulationTime else s.m_events.min?.getD maximumSimulationTime

def lbts : LbtsMessage := ⟨s.m_rxCount, s.m_txCount, isLocalFinished s, nextTs s⟩

end DistributedSimulatorImpl

open DistributedSimulatorImpl

variable {n : ℕ}

abbrev Task (n : ℕ) := Fin (n + 1)

/-- A point-to-point channel, by the tasks of the nodes at its ends. -/
structure Channel (n : ℕ) where
  ends : Task n × Task n
  delay : ℕ
deriving DecidableEq

structure Message (n : ℕ) where
  task : Task n
  rxTime : ℕ
deriving DecidableEq

def Joins (c : Channel n) (i j : Task n) : Prop := i ≠ j ∧ (c.ends = (i, j) ∨ c.ends = (j, i))
deriving Decidable

/-! ## The lookahead -/

structure Topology (n : ℕ) where
  channels : List (Channel n)
  /-- What `SetMaximumLookAhead` was called with. -/
  maximum : Task n → Option ℕ
  maximum_le : ∀ i, (maximum i).getD maximumSimulationTime ≤ maximumSimulationTime

variable (T : Topology n)

def channelLookAhead (i : Task n) : ℕ :=
  if n = 0 then 0
  else (T.channels.filter fun c => ∃ j, Joins c i j).foldl
    (fun lookAhead c => if c.delay < lookAhead then c.delay else lookAhead)
    ((T.maximum i).getD maximumSimulationTime)

/-- The operand of `MPI_Allreduce`. -/
def sendbuf (i : Task n) : ℕ :=
  if channelLookAhead T i = maximumSimulationTime then 0 else channelLookAhead T i

def lookAhead (i : Task n) : ℕ :=
  let recvbuf := (List.ofFn (sendbuf T)).max?.getD 0
  if channelLookAhead T i = maximumSimulationTime ∧ recvbuf ≠ 0 then recvbuf
    else channelLookAhead T i

/-! ## Steps -/

structure World (n : ℕ) where
  tasks : Task n → DistributedSimulatorImpl
  inFlight : Multiset (Message n)

variable (events : Task n → List ℕ)

def begin : World n where
  tasks i := ⟨events i, 0, lookAhead T i, false, false, 0, 0, [], 0⟩
  inFlight := 0

variable (w : World n)

def given (r : ℕ) (i : Task n) : LbtsMessage := (w.tasks i).given.getD r default

def smallestTime (r : ℕ) : ℕ :=
  (finRange n).foldl (fun t i => min t (given w r i.succ).m_smallestTime)
    (given w r 0).m_smallestTime

def totRx (r : ℕ) : ℕ := (∑ i, (given w r i).m_rxCount) % 2 ^ 32

def totTx (r : ℕ) : ℕ := (∑ i, (given w r i).m_txCount) % 2 ^ 32

/-- The granted time after a round; the sum of two times may overflow. -/
def granted (i : Task n) (r : ℕ) : ℤ :=
  if totRx w r = totTx w r then
    if lookAhead T i = maximumSimulationTime then maximumSimulationTime
    else ((smallestTime w r + lookAhead T i : ℕ) : ℤ).bmod (2 ^ 64)
  else (w.tasks i).m_grantedTime

inductive Act (n : ℕ) where
  /-- An event is processed, which may schedule others after some delays, send packets over
  channels to tasks, with their transmission times, and call `Stop`. -/
  | process (i : Task n) (delays : List ℕ) (sent : List (Channel n × Task n × ℕ)) (stop : Bool)
  /-- The task receives some of the packets on their way to it and enters `MPI_Allgather`. -/
  | gather (i : Task n) (arrived : List (Message n))
  | leave (i : Task n)

def message (ts : ℕ) (sent : Channel n × Task n × ℕ) : Message n :=
  ⟨sent.2.1, ts + sent.2.2 + sent.1.delay⟩

def setTask (i : Task n) (s : DistributedSimulatorImpl) (inFlight : Multiset (Message n)) :
    World n :=
  ⟨Function.update w.tasks i s, inFlight⟩

def received (s : DistributedSimulatorImpl) (arrived : List (Message n)) :
    DistributedSimulatorImpl :=
  { s with
    m_events := s.m_events ++ arrived.map Message.rxTime
    m_rxCount := (s.m_rxCount + arrived.length) % 2 ^ 32 }

def processed (s : DistributedSimulatorImpl) (delays : List ℕ) (packets : ℕ) (stop : Bool) :
    DistributedSimulatorImpl :=
  { s with
    m_events := s.m_events.erase (nextTs s) ++ delays.map (nextTs s + ·)
    m_currentTs := nextTs s
    m_stop := s.m_stop || stop
    m_txCount := (s.m_txCount + packets) % 2 ^ 32 }

def enter (s : DistributedSimulatorImpl) : DistributedSimulatorImpl :=
  { s with given := s.given ++ [lbts s] }

def leaveRound (i : Task n) : DistributedSimulatorImpl :=
  let s := w.tasks i
  { s with
    m_grantedTime := granted T w i s.left
    m_globalFinished := decide (∀ j, (given w s.left j).m_isFinished)
    left := s.left + 1 }

def step (w : World n) : Act n → Except Fault (World n)
  | .process i delays sent stop =>
    let s := w.tasks i
    if s.m_currentTs ≤ nextTs s then
      pure (setTask w i (processed s delays sent.length stop)
        (w.inFlight + sent.map (message (nextTs s))))
    else throw .assertionFailed
  | .gather i arrived =>
    pure (setTask w i (enter (received (w.tasks i) arrived)) (w.inFlight - arrived))
  | .leave i => pure (setTask w i (leaveRound T w i) w.inFlight)

/-- The task is in its loop. -/
def Runs (s : DistributedSimulatorImpl) : Prop := s.left = s.given.length ∧ ¬s.m_globalFinished

/-- What the loop of `Run` does next, with packets sent over channels that are there, times that can
be represented and fewer packets in flight than the counters tell apart. -/
def Proper (w : World n) : Act n → Prop
  | .process i delays sent _ =>
    let s := w.tasks i
    Runs s ∧ nextTs s ≤ s.m_grantedTime ∧ ¬isLocalFinished s ∧
      (∀ d ∈ delays, nextTs s + d ≤ maximumSimulationTime) ∧
      (∀ p ∈ sent, p.1 ∈ T.channels ∧ Joins p.1 i p.2.1 ∧
        (message (nextTs s) p).rxTime ≤ maximumSimulationTime) ∧
      w.inFlight.card + sent.length < 2 ^ 32
  | .gather i arrived =>
    let s := w.tasks i
    Runs s ∧ (s.m_grantedTime < nextTs s ∨ isLocalFinished s) ∧
      (arrived : Multiset (Message n)) ≤ w.inFlight ∧ ∀ m ∈ arrived, m.task = i
  | .leave i => let s := w.tasks i
    s.left < s.given.length ∧ ∀ j, s.left < (w.tasks j).given.length

instance (act : Act n) : Decidable (Proper T w act) := by
  unfold Proper Runs
  cases act <;> infer_instance

/-! ## Bounds in time -/

theorem foldl_le {α : Type} {next : ℕ → α → ℕ} {f : α → ℕ}
    (le : ∀ b a, next b a ≤ b ∧ next b a ≤ f a)
    (l : List α) (b : ℕ) : l.foldl next b ≤ b ∧ ∀ a ∈ l, l.foldl next b ≤ f a := by
  induction l generalizing b with
  | nil => exact ⟨le_rfl, forall_mem_nil _⟩
  | cons a l ih =>
    obtain ⟨hle, hmem⟩ := ih (next b a)
    exact ⟨hle.trans (le b a).1, forall_mem_cons.mpr ⟨hle.trans (le b a).2, hmem⟩⟩

variable {T}

theorem channelLookAhead_le (i : Task n) : channelLookAhead T i ≤ maximumSimulationTime ∧
    ∀ c ∈ T.channels, ∀ j, Joins c i j → channelLookAhead T i ≤ c.delay := by
  unfold channelLookAhead
  by_cases hn : n = 0
  · rw [if_pos hn]
    exact ⟨Nat.zero_le _, fun c _ _ _ => Nat.zero_le _⟩
  · rw [if_neg hn]
    have hle : ∀ (b : ℕ) (c : Channel n), (if c.delay < b then c.delay else b) ≤ b ∧
        (if c.delay < b then c.delay else b) ≤ c.delay := by
      intro b c
      split_ifs <;> omega
    obtain ⟨hinit, hmem⟩ := foldl_le hle (T.channels.filter fun c => ∃ j, Joins c i j)
      ((T.maximum i).getD maximumSimulationTime)
    refine ⟨hinit.trans (T.maximum_le i), fun c hc j hj => hmem c ?_⟩
    exact mem_filter.mpr ⟨hc, decide_eq_true ⟨j, hj⟩⟩

/-- A packet needs at least the lookahead of the task it goes to. -/
theorem lookAhead_le {c : Channel n} {i j : Task n} (mem : c ∈ T.channels) (joins : Joins c i j) :
    lookAhead T j ≤ c.delay := by
  have hown := (channelLookAhead_le j).2 c mem i ⟨joins.1.symm, joins.2.symm⟩
  unfold lookAhead
  dsimp only
  by_cases hinfinite : channelLookAhead T j = maximumSimulationTime ∧
    (List.ofFn (sendbuf T)).max?.getD 0 ≠ 0
  · rw [if_pos hinfinite]
    refine le_trans ?_ (hinfinite.1 ▸ hown)
    cases hmax : (List.ofFn (sendbuf T)).max? with
    | none => exact Nat.zero_le _
    | some time =>
      obtain ⟨k, rfl⟩ := mem_ofFn.mp (List.max?_mem hmax)
      change sendbuf T k ≤ _
      unfold sendbuf
      split_ifs
      · exact Nat.zero_le _
      · exact (channelLookAhead_le k).1
  · rwa [if_neg hinfinite]

namespace DistributedSimulatorImpl

variable {s : DistributedSimulatorImpl}

theorem nextTs_le (runs : ¬s.m_stop) {t : ℕ} (mem : t ∈ s.m_events) : nextTs s ≤ t := by
  obtain ⟨ts, hts⟩ := Option.isSome_iff_exists.mp (isSome_min?_of_mem mem)
  have hlocal : ¬isLocalFinished s := by
    simp [isLocalFinished, runs, ne_nil_of_mem mem]
  rw [nextTs, if_neg hlocal, hts]
  exact (le_min?_iff hts).mp le_rfl t mem

theorem nextTs_mem (live : ¬isLocalFinished s) : ¬s.m_stop ∧ nextTs s ∈ s.m_events := by
  have hparts : s.m_events ≠ [] ∧ ¬s.m_stop := by simpa [isLocalFinished] using live
  obtain ⟨ts, hts⟩ := Option.isSome_iff_exists.mp (isSome_min?_of_ne_nil hparts.1)
  rw [nextTs, if_neg live, hts]
  exact ⟨hparts.2, List.min?_mem hts⟩

end DistributedSimulatorImpl

variable (T) in
/-- From now on nothing happens before `b`, and no packet arrives before the lookahead after it. -/
structure Bound (w : World n) (b : ℕ) : Prop where
  pending : ∀ i, ¬(w.tasks i).m_stop → ∀ t ∈ (w.tasks i).m_events, b ≤ t
  messages : ∀ m ∈ w.inFlight, b + lookAhead T m.task ≤ m.rxTime

variable {w : World n} {b : ℕ} {i : Task n} {s : DistributedSimulatorImpl}
    {flying : Multiset (Message n)}

/-- A statement about all tasks, after one of them has changed. -/
theorem forall_set {P : Task n → DistributedSimulatorImpl → Prop} (own : P i s)
    (others : ∀ j, j ≠ i → P j (w.tasks j)) : ∀ j, P j ((setTask w i s flying).tasks j) := by
  intro j
  by_cases hj : j = i
  · rw [hj]
    simpa [setTask] using own
  · simpa [setTask, hj] using others j hj

theorem Bound.process (bound : Bound T w b) (live : ¬isLocalFinished (w.tasks i)) (delays : List ℕ)
    {sent : List (Channel n × Task n × ℕ)} (stop : Bool)
    (sentOver : ∀ p ∈ sent, p.1 ∈ T.channels ∧ Joins p.1 i p.2.1) :
    Bound T (setTask w i (processed (w.tasks i) delays sent.length stop)
      (w.inFlight + sent.map (message (nextTs (w.tasks i))))) b := by
  obtain ⟨hstop, hmem⟩ := nextTs_mem live
  have hnow := bound.pending i hstop _ hmem
  refine ⟨forall_set (P := fun _ s => ¬s.m_stop → ∀ t ∈ s.m_events, b ≤ t) (fun _ t ht => ?_)
    (fun j _ => bound.pending j), fun m hm => ?_⟩
  · rcases mem_append.mp ht with hold | hnew
    · exact bound.pending i hstop t (mem_of_mem_erase hold)
    · obtain ⟨d, -, rfl⟩ := mem_map.mp hnew
      exact hnow.trans (Nat.le_add_right _ _)
  · rcases Multiset.mem_add.mp hm with hold | hnew
    · exact bound.messages m hold
    · obtain ⟨p, hp, rfl⟩ := mem_map.mp (Multiset.mem_coe.mp hnew)
      have hdelay := lookAhead_le (sentOver p hp).1 (sentOver p hp).2
      change b + lookAhead T p.2.1 ≤ nextTs (w.tasks i) + p.2.2 + p.1.delay
      omega

theorem Bound.gather (bound : Bound T w b) {arrived : List (Message n)}
    (flying : (arrived : Multiset (Message n)) ≤ w.inFlight) :
    Bound T (setTask w i (enter (received (w.tasks i) arrived)) (w.inFlight - arrived)) b := by
  refine ⟨forall_set (P := fun _ s => ¬s.m_stop → ∀ t ∈ s.m_events, b ≤ t) (fun hstop t ht => ?_)
    (fun j _ => bound.pending j), fun m hm =>
      bound.messages m (Multiset.mem_of_le (Multiset.sub_le_self _ _) hm)⟩
  rcases mem_append.mp ht with hold | hnew
  · exact bound.pending i hstop t hold
  · obtain ⟨m, hm, rfl⟩ := mem_map.mp hnew
    have hle := bound.messages m (Multiset.mem_of_le flying hm)
    omega

theorem Bound.leave (bound : Bound T w b) (same : s.m_events = (w.tasks i).m_events)
    (stop : s.m_stop = (w.tasks i).m_stop) : Bound T (setTask w i s w.inFlight) b := by
  refine ⟨forall_set (P := fun _ s => ¬s.m_stop → ∀ t ∈ s.m_events, b ≤ t) ?_
    (fun j _ => bound.pending j), bound.messages⟩
  rw [same, stop]
  exact bound.pending i

/-! ## The invariant -/

def Complete (w : World n) (r : ℕ) : Prop := ∀ i, r < (w.tasks i).given.length

/-- The time lies within a window that starts at a bound. -/
def Within (T : Topology n) (w : World n) (i : Task n) (t : ℤ) : Prop :=
  ∃ b, Bound T w b ∧ t ≤ b + lookAhead T i

/-- A round is left once all have entered it, a task does nothing inside of one, and those that have
left a round know whether all had finished. -/
structure Rounds (w : World n) : Prop where
  entered : ∀ i, (w.tasks i).left ≤ (w.tasks i).given.length ∧
    (w.tasks i).given.length ≤ (w.tasks i).left + 1
  complete : ∀ i j, (w.tasks i).left ≤ (w.tasks j).given.length
  frozen : ∀ i, (w.tasks i).left < (w.tasks i).given.length →
    given w (w.tasks i).left i = lbts (w.tasks i)
  verdict : ∀ i, (w.tasks i).m_globalFinished ↔ ∃ r, (w.tasks i).left = r + 1 ∧
    ∀ j, (given w r j).m_isFinished
  inside : ∀ i, (w.tasks i).left < (w.tasks i).given.length → ¬(w.tasks i).m_globalFinished

variable (T) in
structure Inv (w : World n) : Prop where
  rounds : Rounds w
  grantedTime : ∀ i, Within T w i (w.tasks i).m_grantedTime
  currentTs : ∀ i, Within T w i (w.tasks i).m_currentTs
  later : ∀ i, ∀ t ∈ (w.tasks i).m_events, (w.tasks i).m_currentTs ≤ t
  /-- Where the counts agree nothing was in flight. -/
  quiet : ∀ r, Complete w r → totRx w r = totTx w r → Bound T w (smallestTime w r)
  counted : (∑ i, (w.tasks i).m_rxCount) + w.inFlight.card ≡ ∑ i, (w.tasks i).m_txCount [MOD 2 ^ 32]
  card_lt : w.inFlight.card < 2 ^ 32

theorem Within.keep {w' : World n} (keep : ∀ b, Bound T w b → Bound T w' b) {t : ℤ}
    (h : Within T w i t) : Within T w' i t := by
  obtain ⟨b, hb, hle⟩ := h
  exact ⟨b, keep b hb, hle⟩

theorem smallestTime_le (w : World n) (r : ℕ) (j : Task n) : smallestTime w r ≤
    (given w r j).m_smallestTime := by
  obtain ⟨hfirst, hrest⟩ :=
    foldl_le (fun b k => ⟨min_le_left b (given w r (Fin.succ k)).m_smallestTime,
    min_le_right _ _⟩) (finRange n) (given w r 0).m_smallestTime
  refine Fin.cases hfirst (fun k => ?_) j
  exact hrest k (mem_finRange k)

theorem sum_set (f : DistributedSimulatorImpl → ℕ) (w : World n) (i : Task n)
    (s : DistributedSimulatorImpl) (flying : Multiset (Message n)) :
    (∑ j, f ((setTask w i s flying).tasks j)) + f (w.tasks i) = (∑ j, f (w.tasks j)) + f s := by
  have hrest : ∑ j ∈ Finset.univ \ {i}, f ((setTask w i s flying).tasks j) = ∑ j ∈
    Finset.univ \ {i}, f (w.tasks j) :=
    Finset.sum_congr rfl fun j hj => by simp [setTask, show j ≠ i by simpa using hj]
  rw [Finset.sum_eq_add_sum_sdiff_singleton_of_mem (Finset.mem_univ i), hrest,
    Finset.sum_eq_add_sum_sdiff_singleton_of_mem (Finset.mem_univ i) fun j => f (w.tasks j)]
  simp [setTask]
  omega

section Set

variable (prefixed : (w.tasks i).given <+: s.given)
include prefixed

theorem given_set {r : ℕ} (lt : r < (w.tasks i).given.length) : given (setTask w i s flying) r =
    given w r := by
  obtain ⟨later, hlater⟩ := prefixed
  funext j
  by_cases hj : j = i
  · simp [given, setTask, hj, ← hlater, List.getElem?_append_left lt]
  · simp [given, setTask, hj]

theorem Inv.quiet_set (inv : Inv T w) (keep : ∀ b, Bound T w b → Bound T (setTask w i s flying) b)
    {r : ℕ} (complete : Complete w r)
    (agree : totRx (setTask w i s flying) r = totTx (setTask w i s flying) r) :
    Bound T (setTask w i s flying) (smallestTime (setTask w i s flying) r) := by
  have hgiven : given (setTask w i s flying) r = given w r := given_set prefixed (complete i)
  simp only [totRx, totTx, smallestTime, hgiven] at agree ⊢
  exact keep _ (inv.quiet r complete agree)

end Set

theorem Inv.quiet_same (inv : Inv T w) (same : s.given = (w.tasks i).given)
    (keep : ∀ b, Bound T w b → Bound T (setTask w i s flying) b) (r : ℕ)
    (complete : Complete (setTask w i s flying) r)
    (agree : totRx (setTask w i s flying) r = totTx (setTask w i s flying) r) :
    Bound T (setTask w i s flying) (smallestTime (setTask w i s flying) r) := by
  refine inv.quiet_set (same ▸ prefix_refl _) keep (fun j => ?_) agree
  have hj := complete j
  by_cases h : j = i
  · simpa [setTask, h, same] using hj
  · simpa [setTask, h] using hj

theorem Rounds.change (rounds : Rounds w) (prefixed : (w.tasks i).given <+: s.given)
    (entered : s.left ≤ s.given.length ∧ s.given.length ≤ s.left + 1)
    (complete : ∀ j, s.left ≤ (w.tasks j).given.length)
    (frozen : s.left < s.given.length → s.given.getD s.left default = lbts s)
    (verdict : s.m_globalFinished ↔ ∃ r, s.left = r + 1 ∧ ∀ j, (given w r j).m_isFinished)
    (inside : s.left < s.given.length → ¬s.m_globalFinished) : Rounds (setTask w i s flying) where
  entered := forall_set (P := fun _ s => s.left ≤ s.given.length ∧ s.given.length ≤ s.left + 1)
    entered
    fun j _ => rounds.entered j
  complete := by
    have hlonger : ∀ j, (w.tasks j).given.length ≤ ((setTask w i s flying).tasks j).given.length :=
      forall_set (P := fun j s => (w.tasks j).given.length ≤ s.given.length) prefixed.length_le
        fun _ _ => le_rfl
    refine forall_set (P := fun _ s => ∀ j, s.left ≤ ((setTask w i _ flying).tasks j).given.length)
      ?_ ?_
    · exact fun j => (complete j).trans (hlonger j)
    · exact fun k _ j => (rounds.complete k j).trans (hlonger j)
  frozen := by
    intro j
    by_cases hj : j = i
    · simpa [given, setTask, hj] using frozen
    · simpa [given, setTask, hj] using rounds.frozen j
  verdict := by
    have hgiven : ∀ {left r : ℕ}, left = r + 1 → left ≤ (w.tasks i).given.length →
        given (setTask w i s flying) r = given w r := fun heq hle => given_set prefixed (by omega)
    refine forall_set (P := fun _ s => s.m_globalFinished ↔
      ∃ r, s.left = r + 1 ∧ ∀ j, (given (setTask w i _ flying) r j).m_isFinished) ?_ fun j _ => ?_
    · exact verdict.trans (exists_congr fun r => and_congr_right fun heq => by
        rw [hgiven heq (complete i)])
    · exact (rounds.verdict j).trans (exists_congr fun r => and_congr_right fun heq => by
        rw [hgiven heq (rounds.complete j i)])
  inside := forall_set (P := fun _ s => s.left < s.given.length → ¬s.m_globalFinished) inside fun j
    _ => rounds.inside j

/-- In a round that no task has left all of them stand as they have reported. -/
theorem Rounds.reported (rounds : Rounds w) {r : ℕ} (complete : Complete w r)
    (here : ∀ j, (w.tasks j).left ≤ r) (j : Task n) : given w r j = lbts (w.tasks j) := by
  have hlt := complete j
  have hentered := (rounds.entered j).2
  have hleft := here j
  have heq : (w.tasks j).left = r := by omega
  exact heq ▸ rounds.frozen j (by omega)

section Change

variable (inv : Inv T w) (counted : s.m_rxCount + flying.card + (w.tasks i).m_txCount ≡
    (w.tasks i).m_rxCount + w.inFlight.card + s.m_txCount [MOD 2 ^ 32])
include inv counted

theorem Inv.counted_change : (∑ j, ((setTask w i s flying).tasks j).m_rxCount) + flying.card ≡
    ∑ j, ((setTask w i s flying).tasks j).m_txCount [MOD 2 ^ 32] := by
  have hrx := sum_set m_rxCount w i s flying
  have htx := sum_set m_txCount w i s flying
  have hold := inv.counted
  unfold Nat.ModEq at *
  omega

/-- What a change of one task has to see to. -/
theorem Inv.change (rounds : Rounds (setTask w i s flying))
    (keep : ∀ b, Bound T w b → Bound T (setTask w i s flying) b)
    (granted : Within T w i s.m_grantedTime)
    (currentTs : Within T w i s.m_currentTs) (later : ∀ t ∈ s.m_events, s.m_currentTs ≤ t)
    (quiet : ∀ r, Complete (setTask w i s flying) r →
      totRx (setTask w i s flying) r = totTx (setTask w i s flying) r →
      Bound T (setTask w i s flying) (smallestTime (setTask w i s flying) r))
    (card_lt : flying.card < 2 ^ 32) : Inv T (setTask w i s flying) where
  rounds := rounds
  grantedTime :=
    forall_set (P := fun j s => Within T (setTask w i _ flying) j s.m_grantedTime)
      (granted.keep keep)
    fun j _ => (inv.grantedTime j).keep keep
  currentTs :=
    forall_set (P := fun j s => Within T (setTask w i _ flying) j s.m_currentTs)
      (currentTs.keep keep)
    fun j _ => (inv.currentTs j).keep keep
  later := forall_set (P := fun _ s => ∀ t ∈ s.m_events, s.m_currentTs ≤ t) later fun j _ =>
    inv.later j
  quiet := quiet
  counted := inv.counted_change counted
  card_lt := card_lt

end Change

theorem counted_send (rx tx card k : ℕ) : rx + (card + k) + tx ≡ rx + card +
    (tx + k) % 2 ^ 32 [MOD 2 ^ 32] := by
  unfold Nat.ModEq
  omega

theorem counted_receive (rx tx card k : ℕ) :
    (rx + k) % 2 ^ 32 + card + tx ≡ rx + (card + k) + tx [MOD 2 ^ 32] := by
  unfold Nat.ModEq
  omega

theorem Inv.process (inv : Inv T w) {delays : List ℕ} {sent : List (Channel n × Task n × ℕ)}
    {stop : Bool} (proper : Proper T w (.process i delays sent stop)) :
    (w.tasks i).m_currentTs ≤ nextTs (w.tasks i) ∧
      Inv T (setTask w i (processed (w.tasks i) delays sent.length stop)
        (w.inFlight + sent.map (message (nextTs (w.tasks i))))) := by
  obtain ⟨⟨hleft, -⟩, hwindow, hlive, -, hover, hroom⟩ := proper
  obtain ⟨hstop, hnext⟩ := nextTs_mem hlive
  have keep := fun b (hb : Bound T w b) => hb.process hlive delays stop fun p hp =>
    ⟨(hover p hp).1, (hover p hp).2.1⟩
  have hcard :
    (w.inFlight + (sent.map (message (nextTs (w.tasks i))) : Multiset (Message n))).card =
      w.inFlight.card + sent.length := by simp
  have hlater : ∀ t ∈ (processed (w.tasks i) delays sent.length stop).m_events,
      nextTs (w.tasks i) ≤ t := by
    intro t ht
    rcases mem_append.mp ht with hold | hnew
    · exact nextTs_le hstop (mem_of_mem_erase hold)
    · obtain ⟨d, -, rfl⟩ := mem_map.mp hnew
      exact Nat.le_add_right _ _
  obtain ⟨b, hb, hle⟩ := inv.grantedTime i
  refine ⟨inv.later i _ hnext, inv.change (s := processed (w.tasks i) delays sent.length stop) ?_
    (inv.rounds.change (prefix_refl _) (inv.rounds.entered i) (inv.rounds.complete i)
      (fun hlt => absurd hleft hlt.ne) (inv.rounds.verdict i) (inv.rounds.inside i)) keep
        (inv.grantedTime i) ⟨b, hb, hwindow.trans hle⟩ hlater
    (inv.quiet_same (s := processed (w.tasks i) delays sent.length stop) rfl keep) (hcard ▸ hroom)⟩
  rw [hcard]
  exact counted_send _ _ _ _

theorem Inv.gather (inv : Inv T w) {arrived : List (Message n)}
    (proper : Proper T w (.gather i arrived)) :
    Inv T (setTask w i (enter (received (w.tasks i) arrived)) (w.inFlight - arrived)) := by
  obtain ⟨⟨hleft, hlooping⟩, -, hflying, htask⟩ := proper
  have keep := fun b (hb : Bound T w b) => hb.gather (i := i) hflying
  have hcard : (w.inFlight - arrived).card + arrived.length = w.inFlight.card := by
    rw [Multiset.card_sub hflying, Multiset.coe_card]
    exact Nat.sub_add_cancel (Multiset.card_le_card hflying)
  have hlater : ∀ t ∈ (enter (received (w.tasks i) arrived)).m_events,
      (w.tasks i).m_currentTs ≤ t := by
    intro t ht
    rcases mem_append.mp ht with hold | hnew
    · exact inv.later i t hold
    · obtain ⟨m, hm, rfl⟩ := mem_map.mp hnew
      obtain ⟨b, hb, hle⟩ := inv.currentTs i
      have harrives := hb.messages m (Multiset.mem_of_le hflying hm)
      rw [htask m hm] at harrives
      exact Int.ofNat_le.mp (hle.trans (Int.ofNat_le.mpr harrives))
  have hcounted :=
    counted_receive (w.tasks i).m_rxCount (w.tasks i).m_txCount (w.inFlight - arrived).card
      arrived.length
  rw [hcard] at hcounted
  have hrounds :
      Rounds (setTask w i (enter (received (w.tasks i) arrived)) (w.inFlight - arrived)) := by
    refine inv.rounds.change (prefix_append _ _) ?_ (inv.rounds.complete i) (fun _ => ?_)
      (inv.rounds.verdict i) fun _ => hlooping
    · simp [enter, received, hleft]
    · simp [enter, received, hleft, lbts, isLocalFinished, nextTs]
  generalize w.inFlight - (arrived : Multiset (Message n)) = flying at *
  have hprefix : (w.tasks i).given <+: (enter (received (w.tasks i) arrived)).given :=
    prefix_append _ _
  have hmodEq := inv.counted_change (s := enter (received (w.tasks i) arrived)) hcounted
  have hlt : flying.card < 2 ^ 32 := (Nat.le_of_add_right_le hcard.le).trans_lt inv.card_lt
  refine inv.change hcounted hrounds keep (inv.grantedTime i) (inv.currentTs i) hlater
    (fun r hr hagree => ?_) hlt
  by_cases hold : Complete w r
  · exact inv.quiet_set hprefix keep hold hagree
  -- the task is the last one to enter, and nothing moves until all have entered
  have hlast : (w.tasks i).given.length ≤ r := by
    obtain ⟨j, hj⟩ := not_forall.mp hold
    by_cases hji : j = i
    · exact hji ▸ not_lt.mp hj
    · exact absurd (by simpa [setTask, hji] using hr j) hj
  have hreported := hrounds.reported hr (forall_set (P := fun _ s => s.left ≤ r)
    ((inv.rounds.complete i i).trans hlast) fun j _ => (inv.rounds.complete j i).trans hlast)
  simp only [totRx, totTx, hreported, lbts] at hagree
  have hempty : flying = 0 := by
    rw [← Multiset.card_eq_zero]
    unfold Nat.ModEq at hmodEq
    omega
  refine ⟨fun j hstop t ht => ?_, fun m hm => absurd (hempty ▸ hm) (Multiset.notMem_zero m)⟩
  refine (smallestTime_le _ r j).trans ?_
  rw [hreported j]
  exact nextTs_le hstop ht

theorem bmod_le (x : ℕ) : (x : ℤ).bmod (2 ^ 64) ≤ x := by
  unfold Int.bmod
  dsimp only
  split_ifs <;> omega

theorem Inv.leave (inv : Inv T w) (proper : Proper T w (.leave i)) :
    Inv T (setTask w i (leaveRound T w i) w.inFlight) := by
  obtain ⟨hinside, hall⟩ := proper
  have keep := fun b (hb : Bound T w b) => hb.leave (i := i) (s := leaveRound T w i) rfl rfl
  have hgranted : Within T w i (leaveRound T w i).m_grantedTime := by
    change Within T w i (granted T w i (w.tasks i).left)
    unfold granted
    split_ifs with hagree hinfinite
    · exact ⟨_, inv.quiet _ hall hagree, by omega⟩
    · exact ⟨_, inv.quiet _ hall hagree, bmod_le _⟩
    · exact inv.grantedTime i
  have hentered := (inv.rounds.entered i).2
  have hrounds : Rounds (setTask w i (leaveRound T w i) w.inFlight) :=
    inv.rounds.change (prefix_refl _) ⟨hinside, hentered.trans (Nat.le_succ _)⟩ hall
      (fun hlt => absurd hlt (Nat.not_lt.mpr hentered)) (by simp [leaveRound])
      fun hlt => absurd hlt (Nat.not_lt.mpr hentered)
  exact inv.change (Nat.ModEq.refl _) hrounds keep hgranted (inv.currentTs i) (inv.later i)
    (inv.quiet_same (s := leaveRound T w i) rfl keep) inv.card_lt

/-! ## Runs -/

/-- No task has an event or waits for a packet from before its clock. -/
def NothingLate (w : World n) : Prop :=
  ∀ i, (∀ t ∈ (w.tasks i).m_events, (w.tasks i).m_currentTs ≤ t) ∧
    ∀ m ∈ w.inFlight, m.task = i → (w.tasks i).m_currentTs ≤ m.rxTime

theorem Inv.nothingLate (inv : Inv T w) : NothingLate w := by
  refine fun i => ⟨inv.later i, fun m hm htask => ?_⟩
  obtain ⟨b, hb, hle⟩ := inv.currentTs i
  have harrives := hb.messages m hm
  rw [htask] at harrives
  exact Int.ofNat_le.mp (hle.trans (Int.ofNat_le.mpr harrives))

theorem Inv.step (inv : Inv T w) {act : Act n} (proper : Proper T w act) :
    Ensures (Mpi.step T w act) (Inv T) fun _ => False := by
  cases act with
  | process i delays sent stop =>
    obtain ⟨hassert, hinv⟩ := inv.process proper
    unfold Mpi.step
    dsimp only
    rw [if_pos hassert]
    exact hinv
  | gather i arrived => exact inv.gather proper
  | leave i => exact inv.leave proper

theorem Inv.begin : Inv T (begin T events) := by
  have hbound : Bound T (Mpi.begin T events) 0 :=
    ⟨fun _ _ _ _ => Nat.zero_le _, fun m hm => absurd hm (Multiset.notMem_zero m)⟩
  exact {
    rounds := ⟨fun _ => ⟨le_rfl, Nat.zero_le _⟩, fun _ _ => le_rfl, fun _ hlt =>
      absurd hlt (lt_irrefl _),
      fun _ => by simp [Mpi.begin], fun _ hlt => absurd hlt (lt_irrefl _)⟩
    grantedTime := fun i => ⟨0, hbound, by simp [Mpi.begin]⟩
    currentTs := fun i => ⟨0, hbound, by simp [Mpi.begin]⟩
    later := fun _ _ _ => Nat.zero_le _
    quiet := fun r hr => absurd (hr 0) (Nat.not_lt_zero r)
    counted := by simp [Mpi.begin, Nat.ModEq]
    card_lt := by simp [Mpi.begin] }

theorem Rounds.leaves (rounds : Rounds w) (busy : ∀ i, ¬Runs (w.tasks i)) {i : Task n}
    (waits : (w.tasks i).left < (w.tasks i).given.length)
    (first : ∀ j, (w.tasks j).left < (w.tasks j).given.length →
      (w.tasks i).left ≤ (w.tasks j).left) :
    Proper T w (.leave i) := by
  refine ⟨waits, fun j => ?_⟩
  by_cases hj : (w.tasks j).left < (w.tasks j).given.length
  · exact (first j hj).trans_lt hj
  have heq : (w.tasks j).left = (w.tasks j).given.length :=
    le_antisymm (rounds.entered j).1 (not_lt.mp hj)
  have hfinished : (w.tasks j).m_globalFinished := of_not_not fun h => busy j ⟨heq, h⟩
  obtain ⟨r, hr, hall⟩ := (rounds.verdict j).mp hfinished
  refine lt_of_le_of_ne (rounds.complete i j) fun hsame => rounds.inside i waits ?_
  exact (rounds.verdict i).mpr ⟨r, by omega, hall⟩

theorem Inv.progress (inv : Inv T w) :
    (∀ i, (w.tasks i).m_globalFinished) ∨ ∃ act, Proper T w act := by
  by_cases hrunning : ∃ i, Runs (w.tasks i)
  · obtain ⟨i, hi⟩ := hrunning
    refine Or.inr ?_
    by_cases hwindow : nextTs (w.tasks i) ≤ (w.tasks i).m_grantedTime ∧ ¬isLocalFinished (w.tasks i)
    · exact ⟨.process i [] [] false, hi, hwindow.1, hwindow.2, forall_mem_nil _, forall_mem_nil _,
        inv.card_lt⟩
    · refine ⟨.gather i [], hi, ?_, Multiset.zero_le _, forall_mem_nil _⟩
      rwa [not_and_or, not_le, not_not] at hwindow
  refine or_iff_not_imp_left.mpr fun hall => ?_
  obtain ⟨k, hk⟩ := not_forall.mp hall
  have hbusy := not_exists.mp hrunning
  have hwaits : (w.tasks k).left < (w.tasks k).given.length :=
    lt_of_le_of_ne (inv.rounds.entered k).1 fun heq => hbusy k ⟨heq, hk⟩
  obtain ⟨i, hi, hfirst⟩ := Finset.exists_min_image
    (Finset.univ.filter fun j => (w.tasks j).left < (w.tasks j).given.length)
      (fun j => (w.tasks j).left)
    ⟨k, by simpa using hwaits⟩
  exact ⟨.leave i, inv.rounds.leaves hbusy (by simpa using hi) fun j hj =>
    hfirst j (by simpa using hj)⟩

theorem exec_inv {acts : List (Act n)} (proper : Along (step T) (Proper T) (begin T events) acts) :
    Ensures (exec (step T) (begin T events) acts) (Inv T) fun _ => False :=
  ensures_exec (fun _ _ inv hproper => inv.step hproper) (Inv.begin events) proper

/-- However the tasks interleave, the assertion of `ProcessOneEvent` holds, and no packet comes
from before the clock of the task that receives it. -/
theorem time_windows_safe (acts : List (Act n))
    (proper : Along (step T) (Proper T) (begin T events) acts) :
    Ensures (exec (step T) (begin T events) acts) NothingLate fun _ => False :=
  (exec_inv events proper).weaken fun _ inv => inv.nothingLate

def channel (i j : Task n) (d : ℕ) : Topology n := ⟨[⟨(i, j), d⟩], fun _ => none, fun _ => le_rfl⟩

/-- Task `j` has no event at first; the packet that task `i` sends to it is still in flight in the
first round, so that nothing is granted. -/
def transient (i j : Task n) : List (Act n) :=
  [.process i [2] [(⟨(i, j), 5⟩, 1, 1)] false, .gather j [], .process i [] [] false, .gather i [],
    .leave j, .gather j [⟨1, 7⟩], .leave i, .gather i [], .leave i, .leave j,
    .process j [] [(⟨(i, j), 5⟩, 0, 0)] true]

theorem time_windows_safe_transient :
    Ensures (exec (step (channel (n := 1) 0 1 5)) (begin (channel 0 1 5) ![[1, 9], []])
      (transient 0 1)) NothingLate fun _ => False :=
  time_windows_safe _ _ (by decide +kernel)

/-- However the tasks interleave, none is left waiting: until all of them have left `Run` one can go
on. -/
theorem never_stuck (acts : List (Act n))
    (proper : Along (step T) (Proper T) (begin T events) acts) :
    Ensures (exec (step T) (begin T events) acts)
      (fun w => (∀ i, (w.tasks i).m_globalFinished) ∨ ∃ act, Proper T w act) fun _ => False :=
  (exec_inv events proper).weaken fun _ inv => inv.progress

theorem never_stuck_transient :
    Ensures (exec (step (channel (n := 1) 0 1 5)) (begin (channel 0 1 5) ![[1, 9], []])
        (transient 0 1))
      (fun w => (∀ i, (w.tasks i).m_globalFinished) ∨ ∃ act, Proper (channel 0 1 5) w act)
      fun _ => False :=
  never_stuck _ _ (by decide +kernel)

end Egsr.Mpi
