import Egsr.Lib.TokenBucket
import Egsr.TrafficControl.CobaltQueueDisc
import Egsr.TrafficControl.FqCoDelQueueDisc
import Egsr.TrafficControl.TimedCalls

/-! Over any calls, how much leaves a token bucket filter in any interval, if
its child gives the packets that it shows. -/

namespace Egsr.TrafficControl.TokenConformance

open Lib.Outcome Lib.Run Lib.TokenBucket QueueDisc TbfDisc List

def firstMeter : Meter Departure ℚ :=
  ⟨fun x => x.time / 10 ^ 9, fun x => x.item.size, fun x => x.m_btokens.toNat⟩

def secondMeter : Meter Departure ℚ :=
  ⟨fun x => x.time / 10 ^ 9, fun x => x.item.size, fun x => x.m_ptokens.toNat⟩

def bucket (depth : UInt32) (rate : ℕ) : Bucket ℚ := ⟨depth.toNat, (rate / 8 : ℕ), 1 / 2⟩

def leftBetween (first last : ℚ) (departures : List Departure) : List Departure :=
  window firstMeter.time first last departures

/-- In every interval so many bytes leave at most: the depth, what comes at the rate, and half a
byte for each packet. -/
def Bounded (depth : UInt32) (rate : ℕ) (departures : List Departure) : Prop :=
  ∀ first last : ℚ, first ≤ last →
    ((leftBetween first last departures).map fun x => (x.item.size : ℚ)).sum ≤
      depth.toNat + (rate / 8 : ℕ) * (last - first) + (leftBetween first last departures).length / 2

variable {τ : Type} [Peeks τ]

/-- At the time, a packet that the child shows is the one that it gives next. -/
def Honest (now : ℕ) (c : QueueDisc τ) : Prop :=
  ∀ i c', Peeks.doPeek now { c with fired := [] } = .ok (some i, c') →
    ∀ j c'', dequeue now { c' with fired := [] } = .ok (some j, c'') → j = i

inductive Reached (now : ℕ) (c : QueueDisc τ) : QueueDisc τ → Prop where
  | refl : Reached now c c
  | peek {c' c'' : QueueDisc τ} {i : Option QueueDiscItem} (h : Reached now c c')
    (peek : Peeks.doPeek now { c' with fired := [] } = .ok (i, c'')) : Reached now c c''
  | dequeue {c' c'' : QueueDisc τ} {i : Option QueueDiscItem} (h : Reached now c c')
    (dequeue : QueueDisc.dequeue now { c' with fired := [] } = .ok (i, c'')) : Reached now c c''

/-- At the time, the child gives what it shows, also after it has given packets. -/
def HonestFrom (now : ℕ) (c : QueueDisc τ) : Prop := ∀ c', Reached now c c' → Honest now c'

def ShowsNext (s : Timed (TbfQueueDisc τ)) (a : ℕ × Call) : Prop :=
  (∀ item, a.2 ≠ .enqueue item) → HonestFrom a.1 s.disc.own.child

def start (clock : ℕ) (d : TbfDisc τ) : Timed (TbfQueueDisc τ) :=
  ⟨clock, { d with own := { d.own.initializeParams with handedOut := [], departures := [] } }⟩

/-! ## What a call does -/

theorem Reached.trans {now : ℕ} {c c' c'' : QueueDisc τ} (h : Reached now c c')
    (h' : Reached now c' c'') : Reached now c c'' := by
  induction h' with
  | refl => exact h
  | peek _ hpeek ih => exact ih.peek hpeek
  | dequeue _ hdequeue ih => exact ih.dequeue hdequeue

theorem HonestFrom.reached {now : ℕ} {c c' : QueueDisc τ} (h : HonestFrom now c)
    (reached : Reached now c c') : HonestFrom now c' := fun c'' h' => h c'' (reached.trans h')

theorem honestFrom_of_base (base : ∀ now (c : QueueDisc τ), Peeks.doPeek now c = c.peek now)
    (now : ℕ) (c : QueueDisc τ) : HonestFrom now c := by
  rintro c - i c' hpeek j c'' hdequeue
  have hkept : c'.m_requeued = some i := by
    rw [base, QueueDisc.peek] at hpeek
    cases hrequeued : c.m_requeued with
    | some item =>
      simp only [hrequeued] at hpeek
      cases hpeek
      rfl
    | none =>
      simp only [hrequeued] at hpeek
      obtain ⟨⟨item, c₁⟩, -, ho⟩ := map_ok_inv hpeek
      cases ho
      rfl
  rw [QueueDisc.dequeue] at hdequeue
  simp only [hkept] at hdequeue
  split_ifs at hdequeue
  · cases hdequeue
    rfl
  · cases hdequeue
    rfl

theorem lor_nonneg {a b : ℤ} : 0 ≤ Int.lor a b ↔ 0 ≤ a ∧ 0 ≤ b := by
  cases a <;> cases b <;> simp [Int.lor, Int.negSucc_not_nonneg]

inductive Stepped (now : ℕ) (q : TbfQueueDisc τ) : TbfQueueDisc τ → Prop where
  | stays {i : Option QueueDiscItem} {c' : QueueDisc τ}
    (peek : Peeks.doPeek now { q.child with fired := [] } = .ok (i, c'))
    (m_id : Option ℕ) : Stepped now q { q with child := c', m_id := m_id }
  | odd {i : QueueDiscItem} {c' c'' : QueueDisc τ}
    (peek : Peeks.doPeek now { q.child with fired := [] } = .ok (some i, c'))
    (dequeue : QueueDisc.dequeue now { c' with fired := [] } = .ok (none, c'')) :
      Stepped now q { q with child := c'' }
  | leaves {i j : QueueDiscItem} {c' c'' : QueueDisc τ}
    (peek : Peeks.doPeek now { q.child with fired := [] } = .ok (some i, c'))
    (dequeue : QueueDisc.dequeue now { c' with fired := [] } = .ok (some j, c''))
    (first : 0 ≤ q.btoks now i.size) (second : 0 ≤ q.ptoks now i.size) :
    Stepped now q
      ({ q with child := c'', handedOut := q.handedOut ++ [j] }.charge now j (q.btoks now i.size)
      (q.ptoks now i.size))

theorem childPeek_spec (now : ℕ) (d : TbfDisc τ) : Ensures (childPeek now d) (fun out => ∃ c',
    Peeks.doPeek now { d.own.child with fired := [] } = .ok (out.1, c') ∧ out.2.own =
    { d.own with child := c' })
      fun _ => True := by
  refine ensures_map.mpr ((ensures_self _).mono (fun out hout => ?_) fun _ _ => trivial)
  obtain ⟨i, c'⟩ := out
  exact ⟨c', hout, heard_own _ _⟩

theorem childDequeue_spec (now : ℕ) (d : TbfDisc τ) : Ensures (childDequeue now d) (fun out => ∃ c',
    QueueDisc.dequeue now { d.own.child with fired := [] } = .ok (out.1, c') ∧
      out.2.own = { d.own with child := c', handedOut := d.own.handedOut ++ out.1.toList }) fun _ =>
        True := by
  refine ensures_map.mpr ((ensures_self _).mono (fun out hout => ?_) fun _ _ => trivial)
  obtain ⟨i, c'⟩ := out
  exact ⟨c', hout, heard_own _ _⟩

omit [Peeks τ] in
theorem watch_eq (q : TbfQueueDisc τ) (now : ℕ) (btoks ptoks : ℤ) :
    ∃ m_id, q.watch now btoks ptoks = { q with m_id := m_id } := by
  rw [TbfQueueDisc.watch]
  split_ifs
  · exact ⟨_, rfl⟩
  · exact ⟨q.m_id, rfl⟩

theorem doDequeue_stepped (now : ℕ) (d : TbfDisc τ) :
    Ensures (TbfDisc.doDequeue now d) (fun out => Stepped now d.own out.2.own) fun _ => True := by
  refine (childPeek_spec now d).bind fun out ⟨c', hpeek, hown⟩ => ?_
  obtain ⟨itemPeek, d'⟩ := out
  cases itemPeek with
  | none =>
    rw [ensures_ok, hown]
    exact .stays hpeek d.own.m_id
  | some i =>
    dsimp only at hpeek hown ⊢
    have hptoks : d'.own.ptoks now i.size = d.own.ptoks now i.size := by
      rw [hown]
      rfl
    have hbtoks : d'.own.btoks now i.size = d.own.btoks now i.size := by
      rw [hown]
      rfl
    rw [hptoks, hbtoks]
    refine Ensures.ite (fun henough => ?_) fun _ => ?_
    · obtain ⟨hfirst, hsecond⟩ := lor_nonneg.mp henough
      refine (childDequeue_spec now d').bind fun out ⟨c'', hdequeue, hown'⟩ => ?_
      obtain ⟨item, d''⟩ := out
      rw [hown] at hdequeue hown'
      cases item with
      | none =>
        rw [ensures_ok, hown', Option.toList_none, append_nil]
        exact .odd hpeek hdequeue
      | some j =>
        rw [ensures_ok]
        dsimp only
        rw [hown']
        exact .leaves hpeek hdequeue hfirst hsecond
    · obtain ⟨m_id, hwatch⟩ := watch_eq d'.own now (d.own.btoks now i.size) (d.own.ptoks now i.size)
      rw [ensures_ok]
      dsimp only
      rw [hwatch, hown]
      exact .stays hpeek m_id

/-! ## The invariant -/

theorem cround_le {x : ℚ} (h : 0 ≤ x) : (cround x : ℚ) ≤ x + 1 / 2 := by
  rw [cround, if_pos h]
  exact Int.floor_le _

theorem refill_le (tokens depth : UInt32) (rate : ℕ) {delta : ℚ} (h : 0 ≤ delta) :
    TbfQueueDisc.refill tokens depth rate delta ≤ depth.toNat ∧
      (TbfQueueDisc.refill tokens depth rate delta : ℚ) ≤ tokens.toNat +
      (rate / 8 : ℕ) * delta + 1 / 2 := by
  have hcome := cround_le (mul_nonneg h (Nat.cast_nonneg (α := ℚ) (rate / 8)))
  rw [TbfQueueDisc.refill]
  split_ifs with hfull
  · have hfull' : (depth.toNat : ℚ) < tokens.toNat + cround (delta * (rate / 8 : ℕ)) := by
      exact_mod_cast hfull
    refine ⟨le_rfl, ?_⟩
    push_cast
    linarith
  · refine ⟨not_lt.mp hfull, ?_⟩
    push_cast
    linarith

theorem uint32_toNat {n : ℤ} (h : 0 ≤ n) (h' : n < 0x100000000) :
    ((TbfQueueDisc.uint32 n).toNat : ℤ) = n := by
  have hlt : n.toNat < 2 ^ 32 := by
    omega
  rw [TbfQueueDisc.uint32, Int.emod_eq_of_lt h h', UInt32.toNat_ofNat', Nat.mod_eq_of_lt hlt,
    Int.toNat_of_nonneg h]

theorem conforms_charge {m : Meter Departure ℚ} {l : List Departure} {x : Departure}
    {tokens depth toks : UInt32} {rate : ℕ}
    {checkPoint now size : ℕ} (h : Conforms m (bucket depth rate) l) (hle : checkPoint ≤ now)
    (last : ∀ y ∈ l.getLast?, m.time y = checkPoint / 10 ^ 9 ∧ m.level y = tokens.toNat)
    (time : m.time x = now / 10 ^ 9) (hsize : m.size x = size) (level : m.level x = toks.toNat)
    (charged : (toks.toNat : ℤ) =
      TbfQueueDisc.refill tokens depth rate (((now : ℚ) - checkPoint) / 10 ^ 9) - size) :
    Conforms m (bucket depth rate) (l ++ [x]) := by
  have hle' : (checkPoint : ℚ) ≤ now := by exact_mod_cast hle
  obtain ⟨hdepth, hcome⟩ := refill_le tokens depth rate
    (show 0 ≤ ((now : ℚ) - checkPoint) / 10 ^ 9 from div_nonneg (sub_nonneg.mpr hle')
      (by positivity))
  generalize TbfQueueDisc.refill tokens depth rate (((now : ℚ) - checkPoint) / 10 ^ 9) = filled at *
  have hdepth' : (filled : ℚ) ≤ depth.toNat := by exact_mod_cast hdepth
  have hfilled : m.level x + m.size x = filled := by
    have hcharged : (toks.toNat : ℚ) = filled - size := by exact_mod_cast charged
    rw [level, hsize, hcharged]
    ring
  refine h.snoc (fun y hy => ?_) ⟨?_, ?_⟩
  · obtain ⟨htime, hlevel⟩ := last y hy
    refine ⟨?_, ?_⟩
    · rw [time, htime]
      exact div_le_div_of_nonneg_right hle' (by positivity)
    · rw [hfilled, time, htime, hlevel, ← sub_div]
      exact hcome
  · rw [level]
    exact Nat.cast_nonneg _
  · rw [hfilled]
    exact hdepth'

structure Inv (burst mtu : UInt32) (rate peakRate : ℕ) (now : ℕ) (q : TbfQueueDisc τ) : Prop where
  config : q.m_burst = burst ∧ q.m_mtu = mtu ∧ q.m_rate = rate ∧ q.m_peakRate = peakRate
  btokens : q.m_btokens.toNat ≤ burst.toNat
  ptokens : 0 < peakRate → q.m_ptokens.toNat ≤ mtu.toNat
  checkPoint : q.m_timeCheckPoint ≤ now
  first : Conforms firstMeter (bucket burst rate) q.departures
  second : 0 < peakRate → Conforms secondMeter (bucket mtu peakRate) q.departures
  last : ∀ x ∈ q.departures.getLast?,
    x.time = q.m_timeCheckPoint ∧ x.m_btokens = q.m_btokens ∧ x.m_ptokens = q.m_ptokens
  order : q.departures.map Departure.item = q.handedOut

variable {burst mtu : UInt32} {rate peakRate now : ℕ} {q q' : TbfQueueDisc τ}

omit [Peeks τ] in
theorem Inv.later (h : Inv burst mtu rate peakRate now q) {now' : ℕ} (hle : now ≤ now') :
    Inv burst mtu rate peakRate now' q :=
  ⟨h.config, h.btokens, h.ptokens, h.checkPoint.trans hle, h.first, h.second, h.last, h.order⟩

omit [Peeks τ] in
theorem inv_start (burst mtu : UInt32) (rate peakRate clock : ℕ)
    (h : q.m_burst = burst ∧ q.m_mtu = mtu ∧ q.m_rate = rate ∧ q.m_peakRate = peakRate) :
    Inv burst mtu rate peakRate clock
    { q.initializeParams with handedOut := [], departures := [] } := by
  obtain ⟨rfl, rfl, rfl, rfl⟩ := h
  exact ⟨⟨rfl, rfl, rfl, rfl⟩, le_rfl, fun _ => le_rfl, Nat.zero_le _, conforms_nil, fun _ =>
    conforms_nil, nofun, rfl⟩

omit [Peeks τ] in
theorem Inv.charge (h : Inv burst mtu rate peakRate now q) {c : QueueDisc τ} {j : QueueDiscItem}
    (first : 0 ≤ q.btoks now j.size) (second : 0 ≤ q.ptoks now j.size) :
    Inv burst mtu rate peakRate now
    ({ q with child := c, handedOut := q.handedOut ++ [j] }.charge now j (q.btoks now j.size)
      (q.ptoks now j.size)) := by
  obtain ⟨rfl, rfl, rfl, rfl⟩ := h.config
  have hle' : (q.m_timeCheckPoint : ℚ) ≤ now := by exact_mod_cast h.checkPoint
  have hdelta : 0 ≤ q.delta now := div_nonneg (sub_nonneg.mpr hle') (by positivity)
  have hburst := (refill_le q.m_btokens q.m_burst q.m_rate hdelta).1
  have hmtu := (refill_le q.m_ptokens q.m_mtu q.m_peakRate hdelta).1
  have hbtoks : q.btoks now j.size ≤ q.m_burst.toNat := by
    rw [TbfQueueDisc.btoks]
    omega
  have hb := uint32_toNat first (hbtoks.trans_lt (by exact_mod_cast q.m_burst.toNat_lt))
  have hptoks : 0 < q.m_peakRate → q.ptoks now j.size ≤ q.m_mtu.toNat := fun hpeak => by
    rw [TbfQueueDisc.ptoks, if_pos hpeak]
    omega
  have hp : 0 < q.m_peakRate → ((TbfQueueDisc.uint32 (q.ptoks now j.size)).toNat : ℤ) =
      q.ptoks now j.size := fun hpeak =>
    uint32_toNat second ((hptoks hpeak).trans_lt (by exact_mod_cast q.m_mtu.toNat_lt))
  refine ⟨⟨rfl, rfl, rfl, rfl⟩, ?_, fun hpeak => ?_, le_rfl, ?_, fun hpeak =>
    ?_, fun x hx => ?_, ?_⟩
  · exact_mod_cast hb.trans_le hbtoks
  · exact_mod_cast (hp hpeak).trans_le (hptoks hpeak)
  · refine conforms_charge h.first h.checkPoint (fun y hy => ?_) rfl rfl rfl hb
    obtain ⟨htime, hlevel, -⟩ := h.last y hy
    rw [← htime, ← hlevel]
    exact ⟨rfl, rfl⟩
  · have hcharged := hp hpeak
    have hpeaked : q.ptoks now j.size =
        TbfQueueDisc.refill q.m_ptokens q.m_mtu q.m_peakRate (q.delta now) - j.size := if_pos hpeak
    refine conforms_charge (h.second hpeak) h.checkPoint (fun y hy => ?_) rfl rfl rfl
      (hcharged.trans hpeaked)
    obtain ⟨htime, -, hlevel⟩ := h.last y hy
    rw [← htime, ← hlevel]
    exact ⟨rfl, rfl⟩
  · rw [TbfQueueDisc.charge, List.getLast?_append] at hx
    cases hx
    exact ⟨rfl, rfl, rfl⟩
  · rw [TbfQueueDisc.charge, map_append, h.order]
    rfl

theorem Inv.stepped (h : Inv burst mtu rate peakRate now q) (honest : HonestFrom now q.child)
    (stepped : Stepped now q q') :
    Inv burst mtu rate peakRate now q' ∧ HonestFrom now q'.child := by
  cases stepped with
  | stays hpeek m_id =>
    exact ⟨⟨h.config, h.btokens, h.ptokens, h.checkPoint, h.first, h.second, h.last, h.order⟩,
      honest.reached (.peek .refl hpeek)⟩
  | odd hpeek hdequeue =>
    exact ⟨⟨h.config, h.btokens, h.ptokens, h.checkPoint, h.first, h.second, h.last, h.order⟩,
      honest.reached (.dequeue (.peek .refl hpeek) hdequeue)⟩
  | leaves hpeek hdequeue first second =>
    obtain rfl := honest q.child .refl _ _ hpeek _ _ hdequeue
    exact ⟨h.charge first second, honest.reached (.dequeue (.peek .refl hpeek) hdequeue)⟩

theorem dequeueKeeps (burst mtu : UInt32) (rate peakRate now : ℕ) :
    DequeueKeeps now fun q : TbfQueueDisc τ => Inv burst mtu rate peakRate now q ∧
      HonestFrom now q.child := fun d h =>
  (doDequeue_stepped now d).weaken fun _ ho => h.1.stepped h.2 ho

theorem enqueueKeeps (burst mtu : UInt32) (rate peakRate now : ℕ) :
    EnqueueKeeps now fun q : TbfQueueDisc τ => Inv burst mtu rate peakRate now q := by
  intro item d h
  refine ensures_map.mpr ((ensures_trivial _).weaken fun out _ => ?_)
  obtain ⟨retval, child⟩ := out
  rw [heard_own]
  exact ⟨h.config, h.btokens, h.ptokens, h.checkPoint, h.first, h.second, h.last, h.order⟩

theorem step_inv {s s' : Timed (TbfQueueDisc τ)} {a : ℕ × Call}
    (h : Inv burst mtu rate peakRate s.clock s.disc.own)
    (guard : Timed.Timely s a ∧ ShowsNext s a) (hstep : Timed.step s a = .ok s') :
    Inv burst mtu rate peakRate s'.clock s'.disc.own := by
  obtain ⟨now, call⟩ := a
  obtain ⟨htimely, hshows⟩ := guard
  have hnow := h.later htimely
  by_cases henqueue : ∃ item, call = .enqueue item
  · obtain ⟨item, rfl⟩ := henqueue
    obtain ⟨hkept, hclock⟩ :=
      (Timed.step_keeps hnow (fun _ _ => enqueueKeeps burst mtu rate peakRate now)
      fun hne => absurd rfl (hne item)).of_ok hstep
    rwa [hclock]
  · have hne : ∀ item, call ≠ .enqueue item := fun item heq => henqueue ⟨item, heq⟩
    obtain ⟨hkept, hclock⟩ :=
      (Timed.step_keeps (P := fun q => Inv burst mtu rate peakRate now q ∧ HonestFrom now q.child)
      ⟨hnow, hshows hne⟩ (fun item heq => absurd heq (hne item)) fun _ =>
        dequeueKeeps burst mtu rate peakRate now).of_ok hstep
    rw [hclock]
    exact hkept.1

theorem bounded_first {departures : List Departure} {depth : UInt32}
    (h : Conforms firstMeter (bucket depth rate) departures) :
    Bounded depth rate departures := fun first last ordered => by
  have hle := h.window_le (Nat.cast_nonneg _) (Nat.cast_nonneg _) (by norm_num [bucket]) ordered
  rw [bucket, one_div_mul_eq_div] at hle
  exact hle

theorem bounded_second {departures : List Departure} {depth : UInt32}
    (h : Conforms secondMeter (bucket depth rate) departures) : Bounded depth rate departures :=
  fun first last ordered => by
  have hle := h.window_le (Nat.cast_nonneg _) (Nat.cast_nonneg _) (by norm_num [bucket]) ordered
  rw [bucket, one_div_mul_eq_div] at hle
  exact hle

/-- At times that do not go back and with a child that gives what it shows, no interval sees more
leave than either bucket allows, the tokens stay within the buckets, and the packets leave in the
order in which the child gives them. -/
theorem token_conformance (clock : ℕ) (d : TbfDisc τ) {as : List (ℕ × Call)}
    (timely : Along Timed.step Timed.Timely (start clock d) as)
    (shows : Along Timed.step ShowsNext (start clock d) as)
    {s : Timed (TbfQueueDisc τ)} (run : exec Timed.step (start clock d) as = .ok s) :
    Bounded d.own.m_burst d.own.m_rate s.disc.own.departures ∧
      (0 < d.own.m_peakRate → Bounded d.own.m_mtu d.own.m_peakRate s.disc.own.departures) ∧
      s.disc.own.m_btokens.toNat ≤ d.own.m_burst.toNat ∧
      (0 < d.own.m_peakRate → s.disc.own.m_ptokens.toNat ≤ d.own.m_mtu.toNat) ∧
      s.disc.own.departures.map Departure.item = s.disc.own.handedOut := by
  have hinit :=
    inv_start (q := d.own) d.own.m_burst d.own.m_mtu d.own.m_rate d.own.m_peakRate clock
      ⟨rfl, rfl, rfl, rfl⟩
  have hinv :=
    exec_invariant (fun _ _ _ h guard hstep => step_inv h guard hstep) hinit (timely.and shows) run
  exact ⟨bounded_first hinv.first, fun hpeak => bounded_second (hinv.second hpeak), hinv.btokens,
    hinv.ptokens, hinv.order⟩

/-- A disc that holds nothing, for 1000 bytes at once and 8000 bits per second. -/
def someTbf {σ : Type} (peakRate : ℕ) (child : QueueDisc σ) : TbfDisc σ :=
  ⟨0, ⟨0, 0, 0, 0, 0, 0, 0, 0⟩, ⟨.PACKETS, 2⟩, 64, none, false, none, false, [],
    ⟨1000, 800, 8000, peakRate, fun _ _ => 0, 0, 0, 0, none, child, [], []⟩⟩

def waitingRun : List (ℕ × Call) := [(0, .enqueue ⟨0, 700, 0, 0, false⟩),
  (0, .enqueue ⟨1, 700, 0, 0, false⟩), (0, .dequeue), (1000000, .dequeue), (500000000, .run [])]

/-- The second packet has to wait until there are tokens for it in both buckets. -/
theorem token_conformance_waiting : ∃ s : Timed (TbfQueueDisc CoDelQueueDisc),
      exec Timed.step (start 0 (someTbf 16000 (freshCoDel ⟨.PACKETS, 2⟩ 1500 100000000 5000000)))
        waitingRun = .ok s ∧
      s.disc.own.departures.map Departure.time = [0, 500000000] ∧
      Bounded 1000 8000 s.disc.own.departures ∧ Bounded 800 16000 s.disc.own.departures := by
  have hrun : (exec Timed.step
    (start 0 (someTbf 16000 (freshCoDel ⟨.PACKETS, 2⟩ 1500 100000000 5000000)))
      waitingRun).map (fun s => s.disc.own.departures.map Departure.time) = .ok [0, 500000000] := by
    decide +kernel
  obtain ⟨s, hs, htimes⟩ := map_ok_inv hrun
  have hshows : ∀ (s : Timed (TbfQueueDisc CoDelQueueDisc)) (a : ℕ × Call), ShowsNext s a :=
    fun s a _ =>
    honestFrom_of_base (fun _ _ => rfl) a.1 s.disc.own.child
  have hbounded := token_conformance 0 _ (by decide +kernel) (along_of_forall hshows _ _) hs
  exact ⟨s, hs, htimes, hbounded.1, hbounded.2.1 (by decide)⟩

def someCobalt : CobaltDisc :=
  ⟨0, ⟨0, 0, 0, 0, 0, 0, 0, 0⟩, ⟨.PACKETS, 2⟩, 64, none, false, none, false, [],
    (CobaltQueueDisc.mk 100000000 5000000 false (fun _ => false) (1 / 256) (1 / 4096) 0 [] 0
      0 false 0 (replicate REC_INV_SQRT_CACHE 0) 0 []).initializeParams⟩

/-- Cobalt shows a packet of 100 bytes, drops it, and gives the next one, of 1500 bytes. -/
theorem shown_packet_dropped : ¬∀ (τ : Type) (_ : Peeks τ) (clock : ℕ) (d : TbfDisc τ)
    (as : List (ℕ × Call)), Along Timed.step Timed.Timely (start clock d) as →
      ∀ s, exec Timed.step (start clock d) as = .ok s →
      Bounded d.own.m_burst d.own.m_rate s.disc.own.departures := by
  intro h
  have hrun : (exec Timed.step (start 0 (someTbf 0 someCobalt))
      [(0, .enqueue ⟨0, 100, 0, 0, false⟩), (0, .enqueue ⟨1, 1500, 0, 0, false⟩),
        (0, .enqueue ⟨2, 100, 0, 0, false⟩),
        (10000000, .dequeue)]).map (fun s => s.disc.own.departures.map fun x =>
          (x.time, x.item.size)) =
      .ok [(10000000, 1500)] := by
    decide +kernel
  obtain ⟨s, hs, hleft⟩ := map_ok_inv hrun
  have hbounded :=
    h _ inferInstance 0 (someTbf 0 someCobalt) _ (by decide +kernel) s hs (1 / 100) (1 / 100) le_rfl
  obtain ⟨x, hlist, hx⟩ := map_eq_singleton_iff.mp hleft
  obtain ⟨htime, hsize⟩ := Prod.mk.inj hx
  have hin : leftBetween (1 / 100) (1 / 100) [x] = [x] := by
    refine filter_eq_self.mpr fun y hy => ?_
    have hat : firstMeter.time x = 1 / 100 := by
      rw [firstMeter]
      dsimp only
      rw [htime]
      norm_num
    rw [mem_singleton.mp hy, hat]
    exact decide_eq_true ⟨le_rfl, le_rfl⟩
  have hburst : (someTbf 0 someCobalt).own.m_burst.toNat = 1000 := rfl
  rw [hlist, hin, map_singleton, sum_singleton, hsize, hburst] at hbounded
  norm_num at hbounded

end Egsr.TrafficControl.TokenConformance
