import Egsr.Core.Simulator
import Egsr.Core.CalendarScheduler

/-! What holds of every execution of the simulator: events are invoked in the
order of their times, those of one time in the order in which they were
scheduled, and an event is invoked just if it was not killed before. -/

namespace Egsr.Core.Simulator

open Lib.Run Lib.Outcome List Calendar

variable {σ : Type} {S : Scheduler σ} {contents : σ → Multiset Event}
  {Ok : Session σ → Prop} {empty : σ}

section Books

variable (e : Execution σ)

def events : List Event := e.scheduled.map Prod.fst

def invokedEvents : List Event := e.invoked.map Prod.fst

def currentRank (s : DefaultSimulatorImpl σ) : ℕ ×ₗ ℕ := toLex (s.m_currentTs, s.m_currentUid)

def impls (waiting : List EventWithContext) : List ℕ :=
  (events e).map Event.impl ++ waiting.map EventWithContext.event ++
    e.destroyIds.map fun id => id.m_eventImpl.getD 0

end Books

variable (contents Ok) in
/-- The invariant, with `waiting` the events that are made and not yet in the queue. -/
structure ExecOk (waiting : List EventWithContext) (e : Execution σ) : Prop where
  session : Ok ⟨e.sim.m_events, e.sim.m_currentTs⟩
  distinct : UidsDistinct (contents e.sim.m_events)
  counted : e.sim.m_unscheduledEvents = toInt (contents e.sim.m_events).card
  later : ∀ ev ∈ contents e.sim.m_events, currentRank e.sim < ev.rank
  early : e.sim.m_currentTs < 2 ^ 63 ∧ ∀ ev ∈ events e, ev.key.m_ts < 2 ^ 63
  currentUid_lt : e.sim.m_currentUid < e.sim.m_uid
  uid_le : e.sim.m_uid + waiting.length ≤ 4 + e.made
  le_uid : 4 ≤ e.sim.m_uid
  made_lt : e.made < 2 ^ 32 - 4
  queued : ∀ ev ∈ contents e.sim.m_events, ev ∈ events e
  uids : ∀ ev ∈ events e, 4 ≤ ev.key.m_uid ∧ ev.key.m_uid < e.sim.m_uid
  ordered : (events e).Pairwise fun a b => a.key.m_uid < b.key.m_uid
  due : ∀ p ∈ e.scheduled, (p.1.key.m_ts : ℤ) = p.2
  nodup : (impls e waiting).Nodup
  numbered : ∀ i ∈ impls e waiting, i < e.made
  accounted : ∀ ev ∈ events e, ev ∈ invokedEvents e ∨ ev ∈ contents e.sim.m_events ∨ ev ∈ e.killed
  invoked : ∀ p ∈ e.invoked, p.1 ∈ events e ∧ p.2 = p.1.key.m_ts ∧ p.1.rank ≤ currentRank e.sim
  inOrder : (invokedEvents e).Pairwise fun a b => a.rank < b.rank
  alive : ∀ ev ∈ invokedEvents e, ev ∉ e.killed
  cancelled : ∀ ev ∈ events e, ev.impl ∈ e.sim.cancelled ↔ ev ∈ e.killed
  cancelled_lt : ∀ i ∈ e.sim.cancelled, i < e.made
  cancelled_waiting : ∀ w ∈ waiting, w.event ∉ e.sim.cancelled
  killed_lt : ∀ ev ∈ e.killed, ev.key.m_uid < e.sim.m_uid
  issued : ∀ id ∈ e.issued, eventOf id ∈ events e ∧ id.m_eventImpl = some (eventOf id).impl
  destroyIds : ∀ id ∈ e.destroyIds, id.m_uid = 2 ∧ id.m_eventImpl.isSome

namespace ExecOk

variable {waiting : List EventWithContext} {e : Execution σ}

theorem eq_of_impl (ok : ExecOk contents Ok waiting e) {a b : Event} (ha : a ∈ events e)
    (hb : b ∈ events e) (same : a.impl = b.impl) : a = b := by
  have hnodup : ((events e).map Event.impl).Nodup :=
    (nodup_append.mp (nodup_append.mp ok.nodup).1).1
  exact inj_on_of_nodup_map hnodup ha hb same

variable {id : EventId}

section

variable (ok : ExecOk contents Ok waiting e)

include ok

theorem isExpired_iff (issued : id ∈ e.issued) :
    isExpired e.sim id ↔ eventOf id ∈ invokedEvents e ∨ eventOf id ∈ e.killed := by
  obtain ⟨hmem, himpl⟩ := ok.issued id issued
  have huid : id.m_uid ≠ 2 := by
    have hle : 4 ≤ id.m_uid := (ok.uids _ hmem).1
    omega
  have hcancelled : isCancelled e.sim id ↔ eventOf id ∈ e.killed := by
    rw [← ok.cancelled _ hmem]
    unfold isCancelled
    rw [himpl]
    exact contains_iff_mem
  have hpast : (id.m_ts < e.sim.m_currentTs ∨
      id.m_ts = e.sim.m_currentTs ∧ id.m_uid ≤ e.sim.m_currentUid) ↔
        (eventOf id).rank ≤ currentRank e.sim := by
    rw [Event.rank, currentRank, Prod.Lex.toLex_le_toLex]
    rfl
  unfold isExpired
  rw [if_neg huid]
  simp only [Bool.or_eq_true, Bool.and_eq_true, decide_eq_true_eq, hcancelled, hpast]
  constructor
  · rintro (hle | hkilled)
    · rcases ok.accounted _ hmem with hinvoked | hqueued | hkilled
      · exact Or.inl hinvoked
      · exact absurd (ok.later _ hqueued) (not_lt.mpr hle)
      · exact Or.inr hkilled
    · exact Or.inr hkilled
  · rintro (hinvoked | hkilled)
    · obtain ⟨p, hp, heq⟩ := mem_map.mp hinvoked
      exact Or.inl (heq ▸ (ok.invoked p hp).2.2)
    · exact Or.inr hkilled

theorem queued_of_not_expired (issued : id ∈ e.issued) (live : ¬isExpired e.sim id) :
    eventOf id ∈ contents e.sim.m_events := by
  rw [ok.isExpired_iff issued] at live
  exact ((ok.accounted _ (ok.issued id issued).1).resolve_left fun h =>
    live (Or.inl h)).resolve_right fun h => live (Or.inr h)

theorem card_lt : (contents e.sim.m_events).card < 2 ^ 32 := by
  have hsub : contents e.sim.m_events ≤ (events e : Multiset Event) :=
    (Multiset.le_iff_subset (Multiset.Nodup.of_map _ ok.distinct)).mpr ok.queued
  have hle : (impls e waiting).length ≤ e.made := by
    have hrange : impls e waiting ⊆ range e.made := fun i hi =>
      mem_range.mpr (ok.numbered i hi)
    exact (List.Subperm.length_le (subperm_of_subset ok.nodup hrange)).trans_eq
      length_range
  have hcard := Multiset.card_le_card hsub
  have hmade := ok.made_lt
  simp only [impls, length_append, length_map] at hle
  rw [Multiset.coe_card] at hcard
  omega

theorem perm {waiting' : List EventWithContext}
    (same : waiting.Perm waiting') : ExecOk contents Ok waiting' e := by
  have himpls : (impls e waiting).Perm (impls e waiting') :=
    ((List.Perm.refl _).append (same.map _)).append_right _
  exact { ok with
    uid_le := same.length_eq ▸ ok.uid_le
    nodup := himpls.nodup_iff.mp ok.nodup
    numbered := fun i hi => ok.numbered i (himpls.mem_iff.mpr hi)
    cancelled_waiting := fun w hw => ok.cancelled_waiting w (same.mem_iff.mpr hw) }

theorem not_mem_made : e.made ∉ impls e waiting :=
  fun h => Nat.lt_irrefl _ (ok.numbered _ h)

theorem make (room : e.made + 1 < 2 ^ 32 - 4) (context timestamp : ℕ) :
    ExecOk contents Ok (⟨context, timestamp, e.made⟩ :: waiting) { e with made := e.made + 1 } := by
  have himpls : (impls e (⟨context, timestamp, e.made⟩ :: waiting)).Perm
      (e.made :: impls e waiting) := by
    unfold impls
    rw [map_cons, append_assoc, append_assoc, cons_append]
    exact perm_middle
  exact { ok with
    uid_le := by
      have hle := ok.uid_le
      simp only [length_cons]
      omega
    made_lt := room
    nodup := himpls.nodup_iff.mpr (nodup_cons.mpr ⟨ok.not_mem_made, ok.nodup⟩)
    numbered := by
      intro i hi
      rcases mem_cons.mp (himpls.mem_iff.mp hi) with rfl | hmem
      · exact Nat.lt_succ_self _
      · exact (ok.numbered i hmem).trans (Nat.lt_succ_self _)
    cancelled_lt := fun i hi => (ok.cancelled_lt i hi).trans (Nat.lt_succ_self _)
    cancelled_waiting := by
      intro w hw
      rcases mem_cons.mp hw with rfl | hmem
      · exact fun h => Nat.lt_irrefl _ (ok.cancelled_lt _ h)
      · exact ok.cancelled_waiting w hmem }

end

theorem toInt_succ (n : ℕ) : toInt (toInt n + 1) = toInt (n + 1 : ℕ) := by
  unfold toInt
  rw [Int.bmod_add_bmod]
  rfl

theorem toInt_pred (n : ℕ) : toInt (toInt (n + 1 : ℕ) - 1) = toInt n := by
  unfold toInt
  rw [Int.sub_eq_add_neg, Int.bmod_add_bmod]
  congr 1
  omega

theorem insert {w : EventWithContext} (ok : ExecOk contents Ok (w :: waiting) e) {ts context : ℕ}
    {q : σ} (hq : contents q = ⟨w.event, ts, e.sim.m_uid, context⟩ ::ₘ contents e.sim.m_events)
    (session : Ok ⟨q, e.sim.m_currentTs⟩) (timely : e.sim.m_currentTs ≤ ts) (early : ts < 2 ^ 63) :
    ExecOk contents Ok waiting { e with
        sim :=
          { e.sim with
            m_events := q
            m_uid := (e.sim.m_uid + 1) % 2 ^ 32
            m_unscheduledEvents := toInt (e.sim.m_unscheduledEvents + 1) }
        scheduled := e.scheduled ++ [(⟨w.event, ts, e.sim.m_uid, context⟩, (ts : ℤ))] } := by
  have huid : (e.sim.m_uid + 1) % 2 ^ 32 = e.sim.m_uid + 1 := by
    have hle := ok.uid_le
    have hmade := ok.made_lt
    simp only [length_cons] at hle
    exact Nat.mod_eq_of_lt (by omega)
  rw [huid]
  generalize hev : (⟨w.event, ts, e.sim.m_uid, context⟩ : Event) = ev at hq ⊢
  have huidEv : ev.key.m_uid = e.sim.m_uid := hev ▸ rfl
  have himplEv : ev.impl = w.event := hev ▸ rfl
  have htsEv : ev.key.m_ts = ts := hev ▸ rfl
  set e' : Execution σ := { e with
    sim :=
      { e.sim with
        m_events := q
        m_uid := e.sim.m_uid + 1
        m_unscheduledEvents := toInt (e.sim.m_unscheduledEvents + 1) }
    scheduled := e.scheduled ++ [(ev, (ts : ℤ))] } with he'
  have hevents : events e' = events e ++ [ev] := by
    unfold events
    rw [he', map_append]
    rfl
  have hmem : ∀ other, other ∈ events e' ↔ other ∈ events e ∨ other = ev := by
    intro other
    rw [hevents, mem_append, mem_singleton]
  have himpls : (impls e' waiting).Perm (impls e (w :: waiting)) := by
    unfold impls
    rw [hevents, map_append, map_cons, himplEv]
    simp only [map_nil, map_cons, append_assoc]
    exact List.Perm.refl _
  have hnewImpl : ev.impl ∉ e.sim.cancelled := himplEv ▸ ok.cancelled_waiting w (by simp)
  have hnotKilled : ev ∉ e.killed := fun h => by
    have hlt := ok.killed_lt ev h
    omega
  exact {
    session := session
    distinct := by
      change UidsDistinct (contents q)
      rw [hq]
      refine uidsDistinct_cons.mpr ⟨fun other hother => ?_, ok.distinct⟩
      rw [huidEv]
      exact (ok.uids other (ok.queued other hother)).2.ne
    counted := by
      change toInt (e.sim.m_unscheduledEvents + 1) = toInt (contents q).card
      rw [hq, ok.counted, toInt_succ, Multiset.card_cons]
    later := by
      intro other hother
      change other ∈ contents q at hother
      rw [hq, Multiset.mem_cons] at hother
      rcases hother with rfl | hold
      · have huidLt : e.sim.m_currentUid < other.key.m_uid := huidEv ▸ ok.currentUid_lt
        refine Prod.Lex.toLex_lt_toLex.mpr ((htsEv ▸ timely).lt_or_eq.imp_right fun heq => ?_)
        exact ⟨heq, huidLt⟩
      · exact ok.later other hold
    early := by
      refine ⟨ok.early.1, fun other hother => ?_⟩
      rcases (hmem other).mp hother with hold | rfl
      · exact ok.early.2 other hold
      · exact htsEv ▸ early
    currentUid_lt := ok.currentUid_lt.trans (Nat.lt_succ_self _)
    uid_le := by
      have hle := ok.uid_le
      simp only [length_cons] at hle
      change e.sim.m_uid + 1 + waiting.length ≤ 4 + e.made
      omega
    le_uid := ok.le_uid.trans (Nat.le_succ _)
    made_lt := ok.made_lt
    queued := by
      intro other hother
      change other ∈ contents q at hother
      rw [hq, Multiset.mem_cons] at hother
      exact (hmem other).mpr (hother.symm.imp_left (ok.queued other))
    uids := by
      intro other hother
      rcases (hmem other).mp hother with hold | rfl
      · exact ⟨(ok.uids other hold).1, (ok.uids other hold).2.trans (Nat.lt_succ_self _)⟩
      · exact ⟨huidEv ▸ ok.le_uid, huidEv ▸ Nat.lt_succ_self _⟩
    ordered := by
      rw [hevents, pairwise_append]
      refine ⟨ok.ordered, pairwise_singleton _ _, fun a ha b hb => ?_⟩
      rw [mem_singleton.mp hb, huidEv]
      exact (ok.uids a ha).2
    due := by
      intro p hp
      rcases mem_append.mp hp with hold | hnew
      · exact ok.due p hold
      · rw [mem_singleton.mp hnew, htsEv]
    nodup := himpls.nodup_iff.mpr ok.nodup
    numbered := fun i hi => ok.numbered i (himpls.mem_iff.mp hi)
    accounted := by
      intro other hother
      rcases (hmem other).mp hother with hold | rfl
      · refine (ok.accounted other hold).imp_right (Or.imp_left fun h => ?_)
        change other ∈ contents q
        exact hq ▸ Multiset.mem_cons_of_mem h
      · refine Or.inr (Or.inl ?_)
        change other ∈ contents q
        exact hq ▸ Multiset.mem_cons_self _ _
    invoked := fun p hp =>
      ⟨(hmem p.1).mpr (Or.inl (ok.invoked p hp).1), (ok.invoked p hp).2.1, (ok.invoked p hp).2.2⟩
    inOrder := ok.inOrder
    alive := ok.alive
    cancelled := by
      intro other hother
      rcases (hmem other).mp hother with hold | rfl
      · exact ok.cancelled other hold
      · exact iff_of_false hnewImpl hnotKilled
    cancelled_lt := ok.cancelled_lt
    cancelled_waiting := fun w' hw' => ok.cancelled_waiting w' (mem_cons_of_mem w hw')
    killed_lt := fun other hother => (ok.killed_lt other hother).trans (Nat.lt_succ_self _)
    issued := fun id hid => ⟨(hmem _).mpr (Or.inl (ok.issued id hid).1), (ok.issued id hid).2⟩
    destroyIds := ok.destroyIds }

/-! ### Killing -/

theorem mem_killedAfter {ev : Event} :
    ev ∈ killedAfter e id ↔ ev ∈ e.killed ∨ ev = eventOf id ∧ eventOf id ∉ invokedEvents e := by
  unfold killedAfter
  by_cases hinvoked : eventOf id ∈ e.invoked.map Prod.fst
  · rw [if_pos hinvoked]
    exact ⟨Or.inl, fun h => h.resolve_right fun h' => h'.2 hinvoked⟩
  · rw [if_neg hinvoked, mem_cons, or_comm]
    exact or_congr_right (and_iff_left hinvoked).symm

section

variable (ok : ExecOk contents Ok waiting e)

include ok

theorem kill (flags : List ℕ) (cancelled : ∀ ev ∈ events e, ev.impl ∈ flags ↔ ev ∈ killedAfter e id)
    (made : ∀ i ∈ flags, i < e.made) (waits : ∀ w ∈ waiting, w.event ∉ flags)
    (known : id.m_uid < e.sim.m_uid) :
    ExecOk contents Ok waiting
      { e with sim := { e.sim with cancelled := flags }, killed := killedAfter e id } :=
  { ok with
    accounted := fun ev hev => (ok.accounted ev hev).imp_right
      (Or.imp_right fun h => mem_killedAfter.mpr (Or.inl h))
    alive := by
      intro ev hev hkilled
      rcases mem_killedAfter.mp hkilled with hold | ⟨rfl, hnot⟩
      · exact ok.alive ev hev hold
      · exact hnot hev
    cancelled := cancelled
    cancelled_lt := made
    cancelled_waiting := waits
    killed_lt := by
      intro ev hev
      rcases mem_killedAfter.mp hev with hold | ⟨rfl, -⟩
      · exact ok.killed_lt ev hold
      · exact known }

theorem killedAfter_stranger (stranger : id.m_uid < 4) {ev : Event} (mem : ev ∈ events e) :
    ev ∈ killedAfter e id ↔ ev ∈ e.killed := by
  refine mem_killedAfter.trans (or_iff_left ?_)
  rintro ⟨rfl, -⟩
  exact absurd (ok.uids _ mem).1 (not_le.mpr stranger)

theorem kill_stranger (id : EventId) (stranger : id.m_uid < 4) :
    ExecOk contents Ok waiting { e with killed := killedAfter e id } :=
  ok.kill e.sim.cancelled
    (fun ev hev => (ok.cancelled ev hev).trans (ok.killedAfter_stranger stranger hev).symm)
    ok.cancelled_lt ok.cancelled_waiting (stranger.trans_le ok.le_uid)

theorem kill_expired (issued : id ∈ e.issued) (expired : isExpired e.sim id) :
    ExecOk contents Ok waiting { e with killed := killedAfter e id } := by
  refine ok.kill e.sim.cancelled (fun ev hev => ?_) ok.cancelled_lt ok.cancelled_waiting
    (ok.uids _ (ok.issued id issued).1).2
  rw [ok.cancelled ev hev, mem_killedAfter]
  refine (or_iff_left_of_imp ?_).symm
  rintro ⟨rfl, hnot⟩
  exact ((ok.isExpired_iff issued).mp expired).resolve_left hnot

theorem impl_waiting {ev : Event} (mem : ev ∈ events e)
    {w : EventWithContext} (hw : w ∈ waiting) : w.event ≠ ev.impl := by
  have hdisjoint := nodup_append.mp (nodup_append.mp ok.nodup).1
  exact fun heq => hdisjoint.2.2 _ (mem_map_of_mem mem) _ (mem_map_of_mem hw) heq.symm

theorem not_invoked_of_queued {ev : Event}
    (queued : ev ∈ contents e.sim.m_events) : ev ∉ invokedEvents e := by
  intro hinvoked
  obtain ⟨p, hp, rfl⟩ := mem_map.mp hinvoked
  exact absurd (ok.later _ queued) (not_lt.mpr (ok.invoked p hp).2.2)

theorem kill_live (issued : id ∈ e.issued) (live : ¬isExpired e.sim id) : ExecOk contents Ok waiting
      { e with sim := setCancelled e.sim id, killed := killedAfter e id } := by
  obtain ⟨hmem, himpl⟩ := ok.issued id issued
  have hnot := ok.not_invoked_of_queued (ok.queued_of_not_expired issued live)
  refine ok.kill _ (fun ev hev => ?_) (fun i hi => ?_) (fun w hw hflag => ?_) (ok.uids _ hmem).2
  · rw [himpl, Option.toList_some, singleton_append, mem_cons, ok.cancelled ev hev,
      mem_killedAfter, and_iff_left hnot, or_comm]
    exact or_congr_right ⟨fun heq => ok.eq_of_impl hev hmem heq, fun heq => heq ▸ rfl⟩
  · rw [himpl, Option.toList_some, singleton_append, mem_cons] at hi
    rcases hi with rfl | hold
    · refine ok.numbered _ (mem_append_left _ (mem_append_left _ ?_))
      exact mem_map_of_mem hmem
    · exact ok.cancelled_lt i hold
  · rw [himpl, Option.toList_some, singleton_append, mem_cons] at hflag
    rcases hflag with heq | hold
    · exact ok.impl_waiting hmem hw heq
    · exact ok.cancelled_waiting w hw hold

theorem kill_destroy (issued : id ∈ e.destroyIds) : ExecOk contents Ok waiting
      { e with sim := setCancelled e.sim id, killed := killedAfter e id } := by
  obtain ⟨huid, hsome⟩ := ok.destroyIds id issued
  obtain ⟨i, hi⟩ := Option.isSome_iff_exists.mp hsome
  have hstranger : id.m_uid < 4 := by omega
  have hi' : i ∈ e.destroyIds.map fun id => id.m_eventImpl.getD 0 :=
    mem_map.mpr ⟨id, issued, by rw [hi]; rfl⟩
  have hdisjoint := nodup_append.mp ok.nodup
  refine ok.kill _ (fun ev hev => ?_) (fun k hk => ?_) (fun w hw hflag => ?_)
    (hstranger.trans_le ok.le_uid)
  · rw [hi, Option.toList_some, singleton_append, mem_cons, ok.cancelled ev hev,
      ok.killedAfter_stranger hstranger hev]
    refine or_iff_right fun heq => ?_
    exact hdisjoint.2.2 _ (mem_append_left _ (mem_map_of_mem hev)) _ hi' heq
  · rw [hi, Option.toList_some, singleton_append, mem_cons] at hk
    rcases hk with rfl | hold
    · exact ok.numbered _ (mem_append_right _ hi')
    · exact ok.cancelled_lt k hold
  · rw [hi, Option.toList_some, singleton_append, mem_cons] at hflag
    rcases hflag with heq | hold
    · exact hdisjoint.2.2 _ (mem_append_right _ (mem_map_of_mem hw)) _ hi' heq
    · exact ok.cancelled_waiting w hw hold

/-! ### Leaving the queue -/

theorem drop {ev : Event} {q : σ} (hq : contents e.sim.m_events = ev ::ₘ contents q)
    (killed : ev ∈ e.killed) (session : Ok ⟨q, e.sim.m_currentTs⟩) :
    ExecOk contents Ok waiting { e with sim :=
        { e.sim with
          m_events := q
          m_unscheduledEvents := toInt (e.sim.m_unscheduledEvents - 1) } } := by
  have hsub : ∀ other ∈ contents q, other ∈ contents e.sim.m_events := fun other hother =>
    hq ▸ Multiset.mem_cons_of_mem hother
  exact { ok with
    session := session
    distinct := (uidsDistinct_cons.mp (hq ▸ ok.distinct)).2
    counted := by
      change toInt (e.sim.m_unscheduledEvents - 1) = toInt (contents q).card
      rw [ok.counted, hq, Multiset.card_cons, toInt_pred]
    later := fun other hother => ok.later other (hsub other hother)
    queued := fun other hother => ok.queued other (hsub other hother)
    accounted := by
      intro other hother
      rcases ok.accounted other hother with hinvoked | hqueued | hkilled
      · exact Or.inl hinvoked
      · rcases Multiset.mem_cons.mp (hq ▸ hqueued) with rfl | hrest
        · exact Or.inr (Or.inr killed)
        · exact Or.inr (Or.inl hrest)
      · exact Or.inr (Or.inr hkilled) }

theorem advance {next : Event} {q : σ} (isNext : Next (contents e.sim.m_events) next)
    (hq : contents e.sim.m_events = next ::ₘ contents q) (session : Ok ⟨q, next.key.m_ts⟩)
    {sim : DefaultSimulatorImpl σ} (hsim : sim = { e.sim with
      m_events := q
      m_unscheduledEvents := toInt (e.sim.m_unscheduledEvents - 1)
      m_eventCount := (e.sim.m_eventCount + 1) % 2 ^ 64
      m_currentTs := next.key.m_ts
      m_currentContext := next.key.m_context
      m_currentUid := next.key.m_uid })
    {invoked : List (Event × ℕ)}
    (hinvoked : invoked = if next.impl ∈ e.sim.cancelled then e.invoked
      else e.invoked ++ [(next, next.key.m_ts)]) :
    ExecOk contents Ok waiting { e with sim := sim, invoked := invoked } := by
  have hmem := ok.queued next isNext.1
  have hdistinct := uidsDistinct_cons.mp (hq ▸ ok.distinct)
  have hlater := ok.later next isNext.1
  have hsub : ∀ other ∈ contents q, other ∈ contents e.sim.m_events := fun other hother =>
    hq ▸ Multiset.mem_cons_of_mem hother
  have hold : ∀ p ∈ e.invoked, p.1 ∈ events e ∧ p.2 = p.1.key.m_ts ∧ p.1.rank ≤ next.rank :=
    fun p hp => ⟨(ok.invoked p hp).1, (ok.invoked p hp).2.1, (ok.invoked p hp).2.2.trans hlater.le⟩
  have hflag := ok.cancelled next hmem
  have hsubInvoked : ∀ ev ∈ invokedEvents e, ev ∈ invoked.map Prod.fst := by
    intro ev hev
    rw [hinvoked]
    split
    · exact hev
    · rw [map_append]
      exact mem_append_left _ hev
  subst hsim
  exact { ok with
    session := session
    distinct := hdistinct.2
    counted := by
      change toInt (e.sim.m_unscheduledEvents - 1) = toInt (contents q).card
      rw [ok.counted, hq, Multiset.card_cons, toInt_pred]
    later := by
      intro other hother
      have hle : next.rank ≤ other.rank :=
        (Event.not_less_iff other next).mp (isNext.2 other (hsub other hother))
      refine lt_of_le_of_ne hle fun heq => ?_
      exact hdistinct.1 other hother (Event.uid_eq_of_rank heq).symm
    early := ⟨ok.early.2 next hmem, ok.early.2⟩
    currentUid_lt := (ok.uids next hmem).2
    queued := fun other hother => ok.queued other (hsub other hother)
    accounted := by
      intro other hother
      rcases ok.accounted other hother with hinv | hqueued | hkilled
      · exact Or.inl (hsubInvoked other hinv)
      · rcases Multiset.mem_cons.mp (hq ▸ hqueued) with rfl | hrest
        · by_cases hcancelled : other.impl ∈ e.sim.cancelled
          · exact Or.inr (Or.inr (hflag.mp hcancelled))
          · refine Or.inl ?_
            change other ∈ invoked.map Prod.fst
            rw [hinvoked, if_neg hcancelled, map_append]
            exact mem_append_right _ (by simp)
        · exact Or.inr (Or.inl hrest)
      · exact Or.inr (Or.inr hkilled)
    invoked := by
      intro p hp
      change p ∈ invoked at hp
      rw [hinvoked] at hp
      split at hp
      · exact hold p hp
      · rcases mem_append.mp hp with hp | hp
        · exact hold p hp
        · rw [mem_singleton.mp hp]
          exact ⟨hmem, rfl, le_rfl⟩
    inOrder := by
      change (invoked.map Prod.fst).Pairwise _
      rw [hinvoked]
      split
      · exact ok.inOrder
      · rw [map_append, pairwise_append]
        refine ⟨ok.inOrder, pairwise_singleton _ _, fun a ha b hb => ?_⟩
        obtain ⟨p, hp, rfl⟩ := mem_map.mp ha
        rw [mem_singleton.mp hb]
        exact (ok.invoked p hp).2.2.trans_lt hlater
    alive := by
      intro ev hev
      change ev ∈ invoked.map Prod.fst at hev
      rw [hinvoked] at hev
      split at hev
      · exact ok.alive ev hev
      · rename_i hcancelled
        rw [map_append, mem_append] at hev
        rcases hev with hev | hev
        · exact ok.alive ev hev
        · rw [mem_singleton.mp hev, ← hflag]
          exact hcancelled }

end

structure SameBut (s s' : DefaultSimulatorImpl σ) : Prop where
  currentTs : s'.m_currentTs = s.m_currentTs
  waiting : s'.m_eventsWithContext = s.m_eventsWithContext
  none : s'.m_eventsWithContextEmpty = s.m_eventsWithContextEmpty

theorem SameBut.trans {s s' s'' : DefaultSimulatorImpl σ} (h : SameBut s s') (h' : SameBut s' s'') :
    SameBut s s'' :=
  ⟨h'.currentTs.trans h.currentTs, h'.waiting.trans h.waiting, h'.none.trans h.none⟩

section Lawful

variable (lawful : Lawful S contents Ok empty)
include lawful

theorem insertEvent {w : EventWithContext} (ok : ExecOk contents Ok (w :: waiting) e) {ts : ℕ}
    (context : ℕ) (timely : e.sim.m_currentTs ≤ ts) (early : ts < 2 ^ 63) :
    Ensures (insertEvent S e.sim w.event ts context)
      (fun r => SameBut e.sim r.2 ∧ ExecOk contents Ok waiting
        { e with sim := r.2, scheduled := e.scheduled ++ [(r.1, (ts : ℤ))] } ∧
        r.1.impl = w.event)
      (fun _ => False) := by
  have hfresh : ∀ other ∈ contents e.sim.m_events, other.key.m_uid ≠ e.sim.m_uid :=
    fun other hother => (ok.uids other (ok.queued other hother)).2.ne
  unfold Simulator.insertEvent
  refine (lawful.insert ok.session ⟨w.event, ts, e.sim.m_uid, context⟩ hfresh timely
    early).bind fun q hq => ?_
  exact ⟨⟨rfl, rfl, rfl⟩, ok.insert hq.1 hq.2 timely early, rfl⟩

theorem insertAll {ws : List EventWithContext} (ok : ExecOk contents Ok ws e)
    (sums : ∀ w ∈ ws, e.sim.m_currentTs + w.timestamp < 2 ^ 63) :
    Ensures (insertAll S ws e.sim) (fun r => SameBut e.sim r.2 ∧ ExecOk contents Ok [] { e with
          sim := r.2
          scheduled := e.scheduled ++
            r.1.zip (ws.map fun w => (e.sim.m_currentTs + w.timestamp : ℤ)) })
      (fun _ => False) := by
  induction ws generalizing e with
  | nil =>
    refine ⟨⟨rfl, rfl, rfl⟩, ?_⟩
    simp only [map_nil, zip_nil_right, append_nil]
    exact ok
  | cons w ws ih =>
    have hsum := sums w (by simp)
    have hmod : (e.sim.m_currentTs + w.timestamp) % 2 ^ 64 = e.sim.m_currentTs + w.timestamp :=
      Nat.mod_eq_of_lt (by omega)
    unfold Simulator.insertAll
    rw [hmod]
    refine (ok.insertEvent lawful w.context (Nat.le_add_right _ _) hsum).bind fun first hfirst => ?_
    obtain ⟨hsame, hok, -⟩ := hfirst
    refine (ih hok fun w' hw' => ?_).bind fun others hothers => ?_
    · change first.2.m_currentTs + w'.timestamp < 2 ^ 63
      rw [hsame.currentTs]
      exact sums w' (mem_cons_of_mem w hw')
    · obtain ⟨hsame', hok'⟩ := hothers
      refine ⟨hsame.trans hsame', ?_⟩
      change ExecOk contents Ok [] { e with
        sim := others.2
        scheduled := e.scheduled ++ [(first.1, _)] ++
          others.1.zip (ws.map fun w => (first.2.m_currentTs + w.timestamp : ℤ)) } at hok'
      rw [hsame.currentTs, append_assoc, singleton_append] at hok'
      exact hok'

end Lawful

end ExecOk

/-! ## Steps -/

variable (contents Ok) in
structure RunOk (e : Execution σ) : Prop where
  books : ExecOk contents Ok e.sim.m_eventsWithContext e
  flag : e.sim.m_eventsWithContextEmpty → e.sim.m_eventsWithContext = []

section Proper

variable (e : Execution σ)

def Calls : Prop := e.phase = .outside ∨ e.phase = .invoking true

def Known (id : EventId) : Prop := id = .invalid ∨ id ∈ e.issued ∨ id ∈ e.destroyIds

def Room : Prop := e.made + 1 < 2 ^ 32 - 4

def SumsFit : Prop := ∀ w ∈ e.sim.m_eventsWithContext, e.sim.m_currentTs + w.timestamp < 2 ^ 63

/-- Calls are made while code is running, with delays that are not negative and ids that were
handed out. -/
def Proper : Act → Prop
  | .schedule delay => Calls e ∧ Room e ∧ 0 ≤ delay ∧ e.sim.m_currentTs + delay < 2 ^ 63
  | .scheduleNow => Calls e ∧ Room e
  | .scheduleWithContext onMain _ delay => (onMain → Calls e) ∧ Room e ∧ 0 ≤ delay ∧
      (onMain → e.sim.m_currentTs + delay < 2 ^ 63)
  | .scheduleDestroy => Calls e ∧ Room e
  | .cancel id => Calls e ∧ Known e id
  | .remove id => Calls e ∧ Known e id
  | .stop => Calls e
  | .run => e.phase = .outside ∧ SumsFit e
  | .loop => e.phase = .looping
  | .ret => (e.phase = .invoking true ∨ e.phase = .invoking false) ∧ SumsFit e

instance (act : Act) : Decidable (Proper e act) := by
  unfold Proper Calls Room Known SumsFit
  cases act <;> infer_instance

end Proper

theorem tAbsolute_eq {s : DefaultSimulatorImpl σ} {delay : ℤ} (nonneg : 0 ≤ delay)
    (fits : s.m_currentTs + delay < 2 ^ 63) :
    (tAbsolute s delay : ℤ) = s.m_currentTs + delay ∧ s.m_currentTs ≤ tAbsolute s delay ∧
      tAbsolute s delay < 2 ^ 63 := by
  unfold tAbsolute toWord
  omega

namespace RunOk

variable {e : Execution σ}

theorem issue {waiting : List EventWithContext} (ok : ExecOk contents Ok waiting e) {ev : Event}
    (mem : ev ∈ events e) :
    ExecOk contents Ok waiting { e with issued := eventId ev :: e.issued } :=
  { ok with
    issued := by
      intro id hid
      rcases mem_cons.mp hid with rfl | hold
      · exact ⟨mem, rfl⟩
      · exact ok.issued id hold }

section Lawful

variable (lawful : Lawful S contents Ok empty)
include lawful

theorem insertNew (ok : RunOk contents Ok e) (room : Room e) {ts : ℕ} (context : ℕ)
    (timely : e.sim.m_currentTs ≤ ts) (early : ts < 2 ^ 63) :
    Ensures (insertEvent S e.sim e.made ts context)
      (fun r => RunOk contents Ok (book e r.1 (ts : ℤ) r.2)) (fun _ => False) := by
  have hmade := ok.books.make room context ts
  refine (hmade.insertEvent lawful context timely early).weaken fun r hr => ?_
  obtain ⟨hsame, hok, -⟩ := hr
  refine ⟨?_, fun hflag => ?_⟩
  · change ExecOk contents Ok r.2.m_eventsWithContext _
    rw [hsame.waiting]
    exact hok
  · change r.2.m_eventsWithContextEmpty = true at hflag
    change r.2.m_eventsWithContext = []
    rw [hsame.none] at hflag
    rw [hsame.waiting]
    exact ok.flag hflag

theorem insertIssued (ok : RunOk contents Ok e) (room : Room e) {ts : ℕ} (context : ℕ)
    (timely : e.sim.m_currentTs ≤ ts) (early : ts < 2 ^ 63) :
    Ensures (insertEvent S e.sim e.made ts context)
      (fun r => RunOk contents Ok (bookId e r.1 (ts : ℤ) r.2)) (fun _ => False) := by
  refine (ok.insertNew lawful room context timely early).weaken fun r hr => ⟨?_, hr.flag⟩
  refine issue hr.books (mem_map.mpr ⟨(r.1, (ts : ℤ)), ?_, rfl⟩)
  exact mem_append_right _ (mem_singleton_self _)

theorem enter (ok : RunOk contents Ok e) (fits : SumsFit e) (phase : Phase) :
    Ensures (enter S e phase) (RunOk contents Ok) (fun _ => False) := by
  unfold Simulator.enter processEventsWithContext
  by_cases hflag : e.sim.m_eventsWithContextEmpty
  · rw [if_pos hflag]
    refine ⟨?_, ok.flag⟩
    simp only [zip_nil_left, append_nil]
    exact { ok.books with }
  · rw [if_neg hflag]
    have hcleared : ExecOk contents Ok e.sim.m_eventsWithContext
        { e with
          sim := { e.sim with m_eventsWithContext := [], m_eventsWithContextEmpty := true }
          phase := phase } := { ok.books with }
    refine (hcleared.insertAll lawful fits).bind fun r hr => ?_
    obtain ⟨hsame, hok⟩ := hr
    refine ⟨?_, fun _ => hsame.waiting⟩
    change ExecOk contents Ok r.2.m_eventsWithContext _
    rw [hsame.waiting]
    exact hok

theorem removeStep (ok : RunOk contents Ok e) {id : EventId} (known : Known e id) :
    Ensures (remove S e.sim id)
      (fun sim => RunOk contents Ok { e with sim := sim, killed := killedAfter e id })
      (fun _ => False) := by
  unfold remove
  by_cases hdestroy : id.m_uid = 2
  · rw [if_pos hdestroy]
    exact ⟨{ ok.books.kill_stranger id (by omega) with }, ok.flag⟩
  · rw [if_neg hdestroy]
    rcases known with rfl | hissued | hid
    · have hexpired : isExpired e.sim .invalid := by
        simp [isExpired, EventId.invalid, isCancelled]
      rw [if_pos hexpired]
      exact ⟨ok.books.kill_stranger _ (by decide), ok.flag⟩
    · by_cases hexpired : isExpired e.sim id
      · rw [if_pos hexpired]
        exact ⟨ok.books.kill_expired hissued hexpired, ok.flag⟩
      · rw [if_neg hexpired]
        have hqueued := ok.books.queued_of_not_expired hissued hexpired
        have hkilled : eventOf id ∈ killedAfter e id := ExecOk.mem_killedAfter.mpr
          (Or.inr ⟨rfl, ok.books.not_invoked_of_queued hqueued⟩)
        refine (lawful.remove ok.books.session hqueued).bind fun q hq => ⟨?_, ok.flag⟩
        exact (ok.books.kill_live hissued hexpired).drop hq.1 hkilled hq.2
    · exact absurd (ok.books.destroyIds id hid).1 hdestroy

end Lawful

theorem cancelStep (ok : RunOk contents Ok e) {id : EventId} (known : Known e id) :
    RunOk contents Ok { e with sim := cancel e.sim id, killed := killedAfter e id } := by
  unfold cancel
  by_cases hexpired : isExpired e.sim id
  · rw [if_pos hexpired]
    rcases known with rfl | hissued | hid
    · exact ⟨ok.books.kill_stranger _ (by decide), ok.flag⟩
    · exact ⟨ok.books.kill_expired hissued hexpired, ok.flag⟩
    · have huid := (ok.books.destroyIds id hid).1
      exact ⟨ok.books.kill_stranger _ (by omega), ok.flag⟩
  · rw [if_neg hexpired]
    rcases known with rfl | hissued | hid
    · simp [isExpired, EventId.invalid, isCancelled] at hexpired
    · exact ⟨ok.books.kill_live hissued hexpired, ok.flag⟩
    · exact ⟨ok.books.kill_destroy hid, ok.flag⟩

theorem destroyStep (ok : RunOk contents Ok e) (room : Room e) : RunOk contents Ok { e with
        sim := (scheduleDestroy e.sim e.made).2
        made := e.made + 1
        destroyIds := (scheduleDestroy e.sim e.made).1 :: e.destroyIds } := by
  have huid : (e.sim.m_uid + 1) % 2 ^ 32 = e.sim.m_uid + 1 := by
    have hle := ok.books.uid_le
    have hroom : e.made + 1 < 2 ^ 32 - 4 := room
    exact Nat.mod_eq_of_lt (by omega)
  unfold scheduleDestroy
  rw [huid]
  have himpls : ∀ l : List ℕ,
    (l ++ (e.made :: e.destroyIds.map fun id => id.m_eventImpl.getD 0)).Perm
      (e.made :: (l ++ e.destroyIds.map fun id => id.m_eventImpl.getD 0)) :=
    fun l => perm_middle
  refine ⟨{ ok.books with
    currentUid_lt := ok.books.currentUid_lt.trans (Nat.lt_succ_self _)
    uid_le := ?_
    le_uid := ok.books.le_uid.trans (Nat.le_succ _)
    made_lt := room
    uids := fun ev hev => ⟨(ok.books.uids ev hev).1,
      (ok.books.uids ev hev).2.trans (Nat.lt_succ_self _)⟩
    nodup := (himpls _).nodup_iff.mpr (nodup_cons.mpr ⟨ok.books.not_mem_made, ok.books.nodup⟩)
    numbered := ?_
    cancelled_lt := fun i hi => (ok.books.cancelled_lt i hi).trans (Nat.lt_succ_self _)
    killed_lt := fun ev hev => (ok.books.killed_lt ev hev).trans (Nat.lt_succ_self _)
    destroyIds := ?_ }, ok.flag⟩
  · have hle := ok.books.uid_le
    change e.sim.m_uid + 1 + e.sim.m_eventsWithContext.length ≤ 4 + (e.made + 1)
    omega
  · intro i hi
    rcases mem_cons.mp ((himpls _).mem_iff.mp hi) with rfl | hold
    · exact Nat.lt_succ_self _
    · exact (ok.books.numbered i hold).trans (Nat.lt_succ_self _)
  · intro id hid
    rcases mem_cons.mp hid with rfl | hold
    · exact ⟨rfl, rfl⟩
    · exact ok.books.destroyIds id hold

theorem loopStep (lawful : Lawful S contents Ok empty) (ok : RunOk contents Ok e) :
    Ensures (execStep S e .loop) (RunOk contents Ok) (fun _ => False) := by
  unfold execStep
  refine Ensures.ite (fun _ => ⟨{ ok.books with }, ok.flag⟩) fun hgo => ?_
  simp only [Bool.or_eq_true, not_or] at hgo
  have hfilled : contents e.sim.m_events ≠ 0 := fun hzero =>
    hgo.1 ((lawful.isEmpty_iff _ ok.books.session ok.books.card_lt).mpr hzero)
  have htaken : Ensures (takeNext S e.sim)
      (fun r => ∀ invoked, (invoked = if r.1.impl ∈ e.sim.cancelled
        then e.invoked else e.invoked ++ [(r.1, r.1.key.m_ts)]) →
          RunOk contents Ok { e with sim := r.2, invoked := invoked } ∧
            r.2.cancelled = e.sim.cancelled ∧ r.2.m_currentTs = r.1.key.m_ts)
      (fun _ => False) := by
    refine (lawful.removeNext ok.books.session hfilled).bind fun next hnext => ?_
    intro invoked hinvoked
    exact ⟨⟨ok.books.advance hnext.1 hnext.2.1 hnext.2.2 rfl hinvoked, ok.flag⟩, rfl, rfl⟩
  refine htaken.bind fun r hr => ?_
  have hflags := (hr _ rfl).2
  by_cases hcancelled : r.1.impl ∈ e.sim.cancelled
  · have hcontains : r.2.cancelled.contains r.1.impl := by
      rw [hflags.1]
      exact contains_iff_mem.mpr hcancelled
    rw [if_pos hcontains]
    have hok := (hr e.invoked (if_pos hcancelled).symm).1
    exact ⟨{ hok.books with }, hok.flag⟩
  · have hcontains : ¬r.2.cancelled.contains r.1.impl := by
      rw [hflags.1]
      exact fun h => hcancelled (contains_iff_mem.mp h)
    rw [if_neg hcontains, hflags.2]
    have hok := (hr _ (if_neg hcancelled).symm).1
    exact ⟨{ hok.books with }, hok.flag⟩

theorem step (lawful : Lawful S contents Ok empty) (ok : RunOk contents Ok e) {act : Act}
    (proper : Proper e act) : Ensures (execStep S e act) (RunOk contents Ok) (fun _ => False) := by
  cases act with
  | schedule delay =>
    obtain ⟨-, hroom, hnonneg, hfits⟩ := proper
    obtain ⟨hdue, htimely, hearly⟩ := tAbsolute_eq hnonneg hfits
    refine (ok.insertIssued lawful hroom e.sim.m_currentContext htimely hearly).bind fun r hr => ?_
    rw [hdue] at hr
    exact hr
  | scheduleNow =>
    exact (ok.insertIssued lawful proper.2 e.sim.m_currentContext le_rfl ok.books.early.1).bind
      fun r hr => hr
  | scheduleWithContext onMain context delay =>
    obtain ⟨-, hroom, hnonneg, hfits⟩ := proper
    simp only [execStep, scheduleWithContext]
    by_cases hmain : onMain
    · obtain ⟨hdue, htimely, hearly⟩ := tAbsolute_eq hnonneg (hfits hmain)
      have hinsert : Ensures ((insertEvent S e.sim e.made (tAbsolute e.sim delay) context).map
          fun r => (some r.1, r.2))
          (fun r => ∃ ev, r.1 = some ev ∧ RunOk contents Ok (book e ev (tAbsolute e.sim delay) r.2))
          (fun _ => False) :=
        ensures_map.mpr ((ok.insertNew lawful hroom context htimely hearly).weaken
          fun r hr => ⟨r.1, rfl, hr⟩)
      rw [if_pos hmain]
      refine hinsert.bind fun r ⟨ev, hev, hr⟩ => ?_
      rw [hev, ← hdue]
      exact hr
    · rw [if_neg hmain]
      refine ⟨?_, fun h => by simp at h⟩
      have hmade := ok.books.make hroom context (toWord delay)
      exact { hmade.perm (perm_append_singleton _ _).symm with }
  | scheduleDestroy => exact ok.destroyStep proper.2
  | cancel id => exact ok.cancelStep proper.2
  | remove id => exact (ok.removeStep lawful proper.2).bind fun sim hsim => hsim
  | stop => exact ⟨{ ok.books with }, ok.flag⟩
  | run =>
    refine (ok.enter lawful proper.2 .looping).bind fun e' he' => ?_
    exact ⟨{ he'.books with }, he'.flag⟩
  | loop => exact ok.loopStep lawful
  | ret => exact ok.enter lawful proper.2 .looping

end RunOk

/-! ## Runs -/

/-- What an execution shows: an event is due at the time it was scheduled for, and expired once it
was invoked or killed. -/
structure Orderly (contents : σ → Multiset Event) (e : Execution σ) : Prop where
  /-- In the order of the times, and of one time in the order in which they were scheduled. -/
  inOrder : (invokedEvents e).Pairwise fun a b =>
    a.key.m_ts < b.key.m_ts ∨ a.key.m_ts = b.key.m_ts ∧ [a, b].Sublist (events e)
  onTime : ∀ p ∈ e.invoked, (p.1, (p.2 : ℤ)) ∈ e.scheduled
  once : contents e.sim.m_events = 0 →
    ∀ ev ∈ events e, ev ∉ e.killed → (invokedEvents e).count ev = 1
  noEffect : ∀ ev ∈ e.killed, ev ∉ invokedEvents e
  expired : ∀ id ∈ e.issued, ¬isExpired e.sim id ↔
    eventOf id ∉ invokedEvents e ∧ eventOf id ∉ e.killed

theorem pair_sublist {α : Type} {r : α → α → Prop} (asymm : ∀ a b, r a b → ¬r b a) {l : List α}
    (ordered : l.Pairwise r) {a b : α} (ha : a ∈ l) (hb : b ∈ l) (hab : r a b) :
    [a, b].Sublist l := by
  induction l with
  | nil => simp at ha
  | cons first rest ih =>
    obtain ⟨hfirst, hrest⟩ := pairwise_cons.mp ordered
    rcases mem_cons.mp ha with rfl | ha'
    · rcases mem_cons.mp hb with rfl | hb'
      · exact absurd hab (asymm _ _ hab)
      · exact (singleton_sublist.mpr hb').cons_cons a
    · rcases mem_cons.mp hb with rfl | hb'
      · exact absurd hab (asymm _ _ (hfirst a ha'))
      · exact (ih hrest ha' hb').cons first

namespace RunOk

variable {e : Execution σ}

theorem orderly (ok : RunOk contents Ok e) : Orderly contents e where
  inOrder := by
    have hmem : ∀ ev ∈ invokedEvents e, ev ∈ events e := by
      intro ev hev
      obtain ⟨p, hp, rfl⟩ := mem_map.mp hev
      exact (ok.books.invoked p hp).1
    refine List.Pairwise.imp_of_mem (fun ha hb hlt => ?_) ok.books.inOrder
    refine (Prod.Lex.toLex_lt_toLex.mp hlt).imp_right fun h => ⟨h.1, ?_⟩
    exact pair_sublist (fun _ _ h => Nat.lt_asymm h) ok.books.ordered (hmem _ ha) (hmem _ hb) h.2
  onTime := by
    intro p hp
    obtain ⟨hmem, hts, -⟩ := ok.books.invoked p hp
    obtain ⟨q, hq, heq⟩ := mem_map.mp hmem
    have hdue := ok.books.due q hq
    rw [hts, ← heq, hdue]
    exact hq
  once := by
    intro hempty ev hev halive
    have hinvoked : ev ∈ invokedEvents e :=
      (ok.books.accounted ev hev).resolve_right fun h =>
        h.elim (fun hqueued => by simp [hempty] at hqueued) halive
    have hnodup : (invokedEvents e).Nodup :=
      ok.books.inOrder.imp fun {a b} (hlt : a.rank < b.rank) (heq : a = b) =>
        hlt.ne (congrArg Event.rank heq)
    exact count_eq_one_of_mem hnodup hinvoked
  noEffect := fun ev hkilled hinvoked => ok.books.alive ev hinvoked hkilled
  expired := fun id hid => by rw [ok.books.isExpired_iff hid, not_or]

theorem toInt_eq_iff {n : ℕ} (lt : n < 2 ^ 32) : toInt n = n ↔ n < 2 ^ 31 := by
  unfold toInt Int.bmod
  dsimp only
  split <;> omega

theorem counted_iff (ok : RunOk contents Ok e) :
    e.sim.m_unscheduledEvents = (contents e.sim.m_events).card ↔
      (contents e.sim.m_events).card < 2 ^ 31 := by
  rw [ok.books.counted]
  exact toInt_eq_iff ok.books.card_lt

theorem begin (lawful : Lawful S contents Ok empty) : RunOk contents Ok (begin empty) := by
  have hnone : ∀ ev, ev ∉ contents empty := fun ev hev => by simp [lawful.empty_contents] at hev
  exact {
    flag := fun _ => rfl
    books := {
      session := lawful.empty_ok
      distinct := by
        change UidsDistinct (contents empty)
        rw [lawful.empty_contents]
        exact Multiset.nodup_zero
      counted := by
        change 0 = toInt (contents empty).card
        rw [lawful.empty_contents]
        rfl
      later := fun ev hev => absurd hev (hnone ev)
      early := ⟨Nat.two_pow_pos 63, fun _ h => nomatch h⟩
      currentUid_lt := Nat.succ_pos 3
      uid_le := le_rfl
      le_uid := le_rfl
      made_lt := by
        change 0 < 2 ^ 32 - 4
        omega
      queued := fun ev hev => absurd hev (hnone ev)
      uids := fun _ h => nomatch h
      ordered := List.Pairwise.nil
      due := fun _ h => nomatch h
      nodup := nodup_nil
      numbered := fun _ h => nomatch h
      accounted := fun _ h => nomatch h
      invoked := fun _ h => nomatch h
      inOrder := List.Pairwise.nil
      alive := fun _ h => nomatch h
      cancelled := fun _ h => nomatch h
      cancelled_lt := fun _ h => nomatch h
      cancelled_waiting := fun _ h => nomatch h
      killed_lt := fun _ h => nomatch h
      issued := fun _ h => nomatch h
      destroyIds := fun _ h => nomatch h } }

end RunOk

/-- Every execution is orderly, and the counter is right as long as it is in range. -/
theorem simulator_orderly (lawful : Lawful S contents Ok empty) (acts : List Act)
    (proper : Along (execStep S) Proper (begin empty) acts) :
    Ensures (exec (execStep S) (begin empty) acts) (fun e => Orderly contents e ∧
        (e.sim.m_unscheduledEvents = (contents e.sim.m_events).card ↔
          (contents e.sim.m_events).card < 2 ^ 31)) (fun _ => False) := by
  have keep : ∀ e act, RunOk contents Ok e → Proper e act →
      Ensures (execStep S e act) (RunOk contents Ok) (fun _ => False) :=
    fun _ _ ok hproper => ok.step lawful hproper
  exact (ensures_exec keep (RunOk.begin lawful) proper).weaken fun _ ok =>
    ⟨ok.orderly, ok.counted_iff⟩

/-- One event schedules another, which is cancelled, and a third for the same time. -/
theorem simulator_orderly_cancelled :
    Ensures (exec (execStep scheduler) (begin start)
        [.schedule 5, .run, .loop, .schedule 2, .schedule 2, .scheduleNow,
          .cancel ⟨some 1, 7, NO_CONTEXT, 5⟩, .ret, .loop, .ret, .loop, .ret, .loop, .ret, .loop])
      (fun e => Orderly Calendar.contents e ∧
        (e.sim.m_unscheduledEvents = (Calendar.contents e.sim.m_events).card ↔
          (Calendar.contents e.sim.m_events).card < 2 ^ 31)) (fun _ => False) :=
  simulator_orderly Calendar.calendar_lawful _ (by decide +kernel)

theorem scheduleNow_queued (lawful : Lawful S contents Ok empty) {e : Execution σ}
    (ok : RunOk contents Ok e) :
    Ensures (execStep S e .scheduleNow) (fun e' => (e'.phase = e.phase ∧ e'.made = e.made + 1) ∧
        (contents e'.sim.m_events).card = (contents e.sim.m_events).card + 1) (fun _ => False) := by
  have hfresh : ∀ other ∈ contents e.sim.m_events, other.key.m_uid ≠ e.sim.m_uid :=
    fun other hother => (ok.books.uids other (ok.books.queued other hother)).2.ne
  have hinsert := lawful.insert ok.books.session
    ⟨e.made, e.sim.m_currentTs, e.sim.m_uid, e.sim.m_currentContext⟩ hfresh
    le_rfl ok.books.early.1
  have hqueued : Ensures (scheduleNow S e.sim e.made)
      (fun r => (contents r.2.m_events).card = (contents e.sim.m_events).card + 1)
      (fun _ => False) := by
    refine hinsert.bind fun q hq => ?_
    change (contents q).card = _
    rw [hq.1, Multiset.card_cons]
  exact hqueued.bind fun r hr => ⟨⟨rfl, rfl⟩, hr⟩

theorem scheduleNow_many (lawful : Lawful S contents Ok empty) {e : Execution σ}
    (ok : RunOk contents Ok e) (outside : e.phase = .outside) {n : ℕ}
    (room : e.made + n < 2 ^ 32 - 4) :
    Along (execStep S) Proper e (replicate n .scheduleNow) ∧
      Ensures (exec (execStep S) e (replicate n .scheduleNow)) (fun e' => RunOk contents Ok e' ∧
          (contents e'.sim.m_events).card = (contents e.sim.m_events).card + n)
        (fun _ => False) := by
  induction n generalizing e with
  | zero => exact ⟨trivial, ok, rfl⟩
  | succ n ih =>
    have hproper : Proper e .scheduleNow := ⟨Or.inl outside, by unfold Room; omega⟩
    obtain ⟨e', hrun, hok⟩ := (ok.step lawful hproper).exists_ok
    obtain ⟨⟨hphase, hmade⟩, hcard⟩ := (scheduleNow_queued lawful ok).of_ok hrun
    obtain ⟨halong, hrest⟩ := ih hok (hphase.trans outside) (by omega)
    rw [replicate_succ, along_cons_ok hrun, exec_cons_ok hrun]
    refine ⟨⟨hproper, halong⟩, hrest.weaken fun e'' h => ⟨h.1, ?_⟩⟩
    rw [h.2, hcard]
    omega

theorem unscheduledEvents_after {n : ℕ} (room : n < 2 ^ 32 - 4) :
    Along (execStep scheduler) Proper (begin start) (replicate n .scheduleNow) ∧
      Ensures (exec (execStep scheduler) (begin start) (replicate n .scheduleNow))
        (fun e => (Calendar.contents e.sim.m_events).card = n ∧ e.sim.m_unscheduledEvents = toInt n)
        (fun _ => False) := by
  have hlawful := Calendar.calendar_lawful
  have hroom : (begin start).made + n < 2 ^ 32 - 4 := (Nat.zero_add n).symm ▸ room
  obtain ⟨halong, hrun⟩ := scheduleNow_many hlawful (RunOk.begin hlawful) rfl hroom
  refine ⟨halong, hrun.weaken fun e h => ?_⟩
  have hcard : (Calendar.contents e.sim.m_events).card = n := by
    rw [h.2]
    change (Calendar.contents start).card + n = n
    rw [hlawful.empty_contents, Multiset.card_zero, Nat.zero_add]
  exact ⟨hcard, by rw [h.1.books.counted, hcard]⟩

/-- After 2147483648 events were scheduled the counter is negative. -/
theorem unscheduledEvents_overflow :
    Along (execStep scheduler) Proper (begin start)
        (replicate 2147483648 .scheduleNow) ∧
      Ensures (exec (execStep scheduler) (begin start)
          (replicate 2147483648 .scheduleNow))
        (fun e => (Calendar.contents e.sim.m_events).card = 2147483648 ∧
          e.sim.m_unscheduledEvents = -2147483648) (fun _ => False) := by
  have hwrapped : toInt ((2147483648 : ℕ) : ℤ) = -2147483648 := by decide
  rw [← hwrapped]
  exact unscheduledEvents_after (by decide)

end Egsr.Core.Simulator
