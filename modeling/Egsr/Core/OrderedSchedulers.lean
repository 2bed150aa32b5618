import Egsr.Core.SimulatorRun

/-! The schedulers that keep their events in one ordered container, and a scheduler run
beside another. Lawful schedulers leave no choice, so that a simulation does not depend on
the one it is run with. -/

namespace Egsr.Core

open Lib.Run Lib.Outcome List Calendar

section Ordered

variable (m_events : List Event) (ev : Event)

def frontOf : Except Fault Event :=
  match m_events with
  | [] => .error .outOfRange
  | next :: _ => pure next

def takeFront : Except Fault (Event × List Event) :=
  match m_events with
  | [] => .error .outOfRange
  | next :: rest => pure (next, rest)

namespace ListScheduler

def remove : List Event := m_events.eraseP fun other => other.key.m_uid = ev.key.m_uid

def scheduler : Scheduler (List Event) where
  insert q ev := pure (insertBefore ev q)
  isEmpty := List.isEmpty
  peekNext := frontOf
  removeNext := takeFront
  remove q ev := pure (remove q ev)

end ListScheduler

namespace MapScheduler

def sameKey (other : Event) : Bool := !other.less ev && !ev.less other

/-- A key that is there already keeps its entry. -/
def insert (ev : Event) : List Event → List Event
  | [] => [ev]
  | next :: rest =>
    if ev.less next then ev :: next :: rest
    else if next.less ev then next :: insert ev rest
    else next :: rest

def remove : Except Fault (List Event) :=
  if m_events.any (sameKey ev) then pure (m_events.eraseP (sameKey ev)) else throw .outOfRange

def scheduler : Scheduler (List Event) where
  insert q ev := pure (insert ev q)
  isEmpty := List.isEmpty
  peekNext := frontOf
  removeNext := takeFront
  remove := remove

end MapScheduler

end Ordered

def contentsOf (q : List Event) : Multiset Event := q

/-! ## Ordered containers are lawful -/

structure OrderedOk (s : Session (List Event)) : Prop where
  sorted : Calendar.Sorted s.queue
  distinct : UidsDistinct (contentsOf s.queue)

variable {q : List Event} {ev : Event}

theorem insert_eq_insertBefore (fresh : ∀ other ∈ q, other.key.m_uid ≠ ev.key.m_uid) :
    MapScheduler.insert ev q = insertBefore ev q := by
  induction q with
  | nil => rfl
  | cons next rest ih =>
    obtain ⟨hnext, hrest⟩ := forall_mem_cons.mp fresh
    unfold MapScheduler.insert insertBefore
    by_cases hless : ev.less next
    · rw [if_pos hless, if_pos (show ev.key.less next.key from hless)]
    · have hgreater : next.less ev := by
        rw [Event.less_iff]
        refine lt_of_le_of_ne ((Event.not_less_iff ev next).mp hless) fun heq => ?_
        exact hnext (Event.uid_eq_of_rank heq)
      rw [if_neg hless, if_neg (show ¬ev.key.less next.key from hless), if_pos hgreater, ih hrest]

/-- The search for an event that is there and alone of its kind takes out this one. -/
theorem contentsOf_eraseP {p : Event → Bool} (present : ev ∈ q) (found : p ev)
    (only : ∀ other ∈ q, p other → other = ev) :
    contentsOf q = ev ::ₘ contentsOf (q.eraseP p) ∧ (q.eraseP p).Sublist q := by
  obtain ⟨other, before, rest, -, hother, hsplit, herase⟩ := exists_of_eraseP present found
  obtain rfl : other = ev := only other (by rw [hsplit]; simp) hother
  refine ⟨?_, eraseP_sublist⟩
  rw [herase, hsplit]
  exact Multiset.coe_eq_coe.mpr perm_middle

theorem sameKey_iff {other : Event} : MapScheduler.sameKey ev other ↔ other.rank = ev.rank := by
  unfold MapScheduler.sameKey
  rw [Bool.and_eq_true, Bool.not_eq_true', Bool.not_eq_true', ← Bool.not_eq_true,
    ← Bool.not_eq_true, Event.not_less_iff, Event.not_less_iff, ← le_antisymm_iff, eq_comm]

theorem ordered_lawful {S : Scheduler (List Event)} (isEmpty : S.isEmpty = List.isEmpty)
    (peekNext : S.peekNext = frontOf) (removeNext : S.removeNext = takeFront)
    (insert : ∀ q ev, (∀ other ∈ q, other.key.m_uid ≠ ev.key.m_uid) →
      S.insert q ev = pure (insertBefore ev q))
    (remove : ∀ q ev, UidsDistinct (contentsOf q) → ev ∈ q →
      Ensures (S.remove q ev) (fun q' => contentsOf q = ev ::ₘ contentsOf q' ∧ q'.Sublist q)
      (fun _ => False)) :
    Lawful S contentsOf OrderedOk [] where
  empty_ok := ⟨List.Pairwise.nil, Multiset.nodup_zero⟩
  empty_contents := rfl
  isEmpty_iff := by
    intro s _ _
    rw [isEmpty, List.isEmpty_iff]
    exact Multiset.coe_eq_zero s.queue |>.symm
  serves := by
    intro s op ok timely
    have front : ∀ next rest, s.queue = next :: rest → Next (contentsOf s.queue) next := by
      intro next rest heq
      have hsorted := ok.sorted
      rw [heq] at hsorted ⊢
      refine ⟨mem_cons_self, fun other hother => (Event.not_less_iff other next).mpr ?_⟩
      rcases mem_cons.mp hother with rfl | hmem
      · exact le_rfl
      · exact (pairwise_cons.mp hsorted).1 other hmem
    have served : Ensures (serve S s.queue op)
        (fun r => Serves (contentsOf s.queue) op r.1 (contentsOf r.2) ∧ Calendar.Sorted r.2)
        (fun _ => False) := by
      cases op with
      | insert ev =>
        rw [serve, insert _ _ timely.1]
        exact ⟨⟨rfl, Multiset.coe_eq_coe.mpr (insertBefore_perm ev s.queue)⟩,
          sorted_insertBefore ok.sorted⟩
      | peekNext =>
        rw [serve, peekNext]
        cases hq : s.queue with
        | nil => exact absurd (congrArg contentsOf hq) timely.1
        | cons next rest => exact ⟨⟨next, rfl, hq ▸ front next rest hq, rfl⟩, hq ▸ ok.sorted⟩
      | removeNext =>
        rw [serve, removeNext]
        cases hq : s.queue with
        | nil => exact absurd (congrArg contentsOf hq) timely.1
        | cons next rest =>
          have hsorted := ok.sorted
          rw [hq] at hsorted
          exact ⟨⟨next, rfl, hq ▸ front next rest hq, rfl⟩, (pairwise_cons.mp hsorted).2⟩
      | remove ev =>
        refine ensures_map.mpr ((remove _ ev ok.distinct timely.1).weaken fun q' hq' => ?_)
        exact ⟨⟨rfl, hq'.1⟩, ok.sorted.sublist hq'.2⟩
    exact served.weaken fun r hr => ⟨hr.1, hr.2, hr.1.uidsDistinct timely.1 ok.distinct⟩

theorem ListScheduler.lawful : Lawful ListScheduler.scheduler contentsOf OrderedOk [] := by
  refine ordered_lawful rfl rfl rfl (fun _ _ _ => rfl) fun q ev distinct present => ?_
  refine contentsOf_eraseP present (by simp) fun other hother huid => ?_
  exact distinct.eq_of_uid hother present (of_decide_eq_true huid)

theorem MapScheduler.lawful : Lawful MapScheduler.scheduler contentsOf OrderedOk [] := by
  refine ordered_lawful rfl rfl rfl (fun q ev fresh => congrArg pure (insert_eq_insertBefore fresh))
    fun q ev distinct present => ?_
  have hfound : sameKey ev ev := sameKey_iff.mpr rfl
  change Ensures (remove q ev) _ _
  rw [remove, if_pos (any_eq_true.mpr ⟨ev, present, hfound⟩)]
  refine contentsOf_eraseP present hfound fun other hother hsame => ?_
  exact distinct.eq_of_uid hother present (Event.uid_eq_of_rank (sameKey_iff.mp hsame))

/-! ## Two schedulers side by side -/

theorem Next.unique {pending : Multiset Event} {a b : Event} (distinct : UidsDistinct pending)
    (ha : Next pending a) (hb : Next pending b) : a = b := by
  have hab := (Event.not_less_iff b a).mp (ha.2 b hb.1)
  have hba := (Event.not_less_iff a b).mp (hb.2 a ha.1)
  exact distinct.eq_of_uid ha.1 hb.1 (Event.uid_eq_of_rank (le_antisymm hab hba))

theorem Serves.unique {pending left left' : Multiset Event} {op : Op}
    {answer answer' : Option Event}
    (distinct : UidsDistinct pending) (h : Serves pending op answer left)
    (h' : Serves pending op answer' left') : answer = answer' ∧ left = left' := by
  cases op with
  | insert ev => exact ⟨h.1.trans h'.1.symm, h.2.trans h'.2.symm⟩
  | peekNext =>
    obtain ⟨a, ha, hnext, hleft⟩ := h
    obtain ⟨b, hb, hnext', hleft'⟩ := h'
    obtain rfl := hnext.unique distinct hnext'
    exact ⟨ha.trans hb.symm, hleft.trans hleft'.symm⟩
  | removeNext =>
    obtain ⟨a, ha, hnext, hleft⟩ := h
    obtain ⟨b, hb, hnext', hleft'⟩ := h'
    obtain rfl := hnext.unique distinct hnext'
    exact ⟨ha.trans hb.symm, (Multiset.cons_inj_right a).mp (hleft.symm.trans hleft')⟩
  | remove ev => exact ⟨h.1.trans h'.1.symm, (Multiset.cons_inj_right ev).mp (h.2.symm.trans h'.2)⟩

variable {σ σ' τ : Type} (S : Scheduler σ) (S' : Scheduler σ') {contents : σ → Multiset Event}
  {contents' : σ' → Multiset Event} {Ok : Session σ → Prop} {Ok' : Session σ' → Prop} {empty : σ}
  {empty' : σ'}

/-- It goes wrong where the two answer differently. -/
def beside : Scheduler (σ × σ') where
  insert q ev := do
    let r ← S.insert q.1 ev
    let r' ← S'.insert q.2 ev
    pure (r, r')
  isEmpty q := S.isEmpty q.1
  peekNext q := S.peekNext q.1
  removeNext q := do
    let r ← S.removeNext q.1
    let r' ← S'.removeNext q.2
    if r.1 = r'.1 then pure (r.1, r.2, r'.2) else throw .outOfRange
  remove q ev := do
    let r ← S.remove q.1 ev
    let r' ← S'.remove q.2 ev
    pure (r, r')

variable (contents contents' Ok Ok') in
structure BesideOk (s : Session (σ × σ')) : Prop where
  first : Ok ⟨s.queue.1, s.lastTs⟩
  second : Ok' ⟨s.queue.2, s.lastTs⟩
  same : contents' s.queue.2 = contents s.queue.1
  distinct : UidsDistinct (contents s.queue.1)

variable {S S'}

theorem beside_lawful (lawful : Lawful S contents Ok empty)
    (lawful' : Lawful S' contents' Ok' empty') :
    Lawful (beside S S') (fun q => contents q.1) (BesideOk contents contents' Ok Ok')
    (empty, empty') where
  empty_ok := ⟨lawful.empty_ok, lawful'.empty_ok,
    lawful'.empty_contents.trans lawful.empty_contents.symm,
    lawful.empty_contents ▸ Multiset.nodup_zero⟩
  empty_contents := lawful.empty_contents
  isEmpty_iff := fun _ ok fits => lawful.isEmpty_iff _ ok.first fits
  serves := by
    rintro ⟨⟨q, q'⟩, lastTs⟩ op ⟨first, second, same, distinct⟩ timely
    have timely' : Timely contents' ⟨q', lastTs⟩ op := by
      unfold Timely at timely ⊢
      rwa [same]
    obtain ⟨r, hr, hserves, hok⟩ := (lawful.serves ⟨q, lastTs⟩ op first timely).exists_ok
    obtain ⟨r', hr', hserves', hok'⟩ := (lawful'.serves ⟨q', lastTs⟩ op second timely').exists_ok
    dsimp only at same hserves' hok'
    rw [same] at hserves'
    obtain ⟨hanswer, hleft⟩ := Serves.unique distinct hserves hserves'
    have hrun : serve (beside S S') (q, q') op = .ok (r.1, r.2, r'.2) := by
      cases op with
      | insert ev =>
        obtain ⟨a, ha, rfl⟩ := map_ok_inv hr
        obtain ⟨b, hb, rfl⟩ := map_ok_inv hr'
        simp only [serve, beside, ha, hb]
        rfl
      | peekNext =>
        obtain ⟨a, ha, rfl⟩ := map_ok_inv hr
        obtain ⟨b, hb, rfl⟩ := map_ok_inv hr'
        simp only [serve, beside, ha]
        rfl
      | removeNext =>
        obtain ⟨a, ha, rfl⟩ := map_ok_inv hr
        obtain ⟨b, hb, rfl⟩ := map_ok_inv hr'
        have heq : a.1 = b.1 := Option.some.inj hanswer
        simp only [serve, beside, ha, hb]
        exact congrArg (Except.map _) (if_pos heq)
      | remove ev =>
        obtain ⟨a, ha, rfl⟩ := map_ok_inv hr
        obtain ⟨b, hb, rfl⟩ := map_ok_inv hr'
        simp only [serve, beside, ha, hb]
        rfl
    rw [hrun]
    refine ⟨hserves, hok, ?_, hleft.symm, hserves.uidsDistinct timely.1 distinct⟩
    rw [hanswer]
    exact hok'

/-! ## The same simulation -/

namespace Simulator

section Leads

variable {α β γ δ : Type} {f : α → β} {g : γ → δ} {x : Except Fault α} {y : Except Fault β}

/-- What `x` gives, `y` gives after `f`. -/
def Leads (f : α → β) (x : Except Fault α) (y : Except Fault β) : Prop :=
  Ensures x (fun a => y = .ok (f a)) fun _ => True

theorem Leads.bind {k : α → Except Fault γ} {l : β → Except Fault δ} (h : Leads f x y)
    (rest : ∀ a, Leads g (k a) (l (f a))) : Leads g (x >>= k) (y >>= l) :=
  Ensures.bind h fun a ha => by
    rw [ha]
    exact rest a

theorem Leads.map {h : α → γ} {h' : β → δ} (lead : Leads f x y) (same : ∀ a, h' (f a) = g (h a)) :
    Leads g (x.map h) (y.map h') :=
  ensures_map.mpr (lead.weaken fun a ha => by rw [ha, ← same a]; rfl)

theorem Leads.ite {c : Prop} [Decidable c] {x' : Except Fault α} {y' : Except Fault β}
    (yes : Leads f x y)
    (no : Leads f x' y') : Leads f (if c then x else x') (if c then y else y') := by
  by_cases hc : c
  · rwa [if_pos hc, if_pos hc]
  · rwa [if_neg hc, if_neg hc]

theorem leads_pure (a : α) : Leads f (pure a) (pure (f a)) := rfl

end Leads

variable (f : τ → σ)

def onSim (s : DefaultSimulatorImpl τ) : DefaultSimulatorImpl σ :=
  { s with m_events := f s.m_events }

def onExecution (e : Execution τ) : Execution σ := { e with sim := onSim f e.sim }

variable (T : Scheduler τ) (S) in
structure Projects : Prop where
  insert : ∀ q ev, Leads f (T.insert q ev) (S.insert (f q) ev)
  removeNext : ∀ q, Leads (fun r => (r.1, f r.2)) (T.removeNext q) (S.removeNext (f q))
  remove : ∀ q ev, Leads f (T.remove q ev) (S.remove (f q) ev)

namespace Projects

variable {f} {T : Scheduler τ} (projects : Projects S f T)
include projects

theorem insertEvent (s : DefaultSimulatorImpl τ) (event ts context : ℕ) :
    Leads (fun r => (r.1, onSim f r.2)) (Simulator.insertEvent T s event ts context)
      (Simulator.insertEvent S (onSim f s) event ts context) :=
  (projects.insert s.m_events _).bind fun _ => leads_pure _

theorem insertAll (ws : List EventWithContext) (s : DefaultSimulatorImpl τ) :
    Leads (fun r => (r.1, onSim f r.2)) (Simulator.insertAll T ws s)
    (Simulator.insertAll S ws (onSim f s)) := by
  induction ws generalizing s with
  | nil => rfl
  | cons w ws ih =>
    exact (projects.insertEvent s _ _ _).bind fun r => (ih r.2).bind fun _ => leads_pure _

theorem enter (e : Execution τ) (phase : Phase) :
    Leads (onExecution f) (Simulator.enter T e phase)
    (Simulator.enter S (onExecution f e) phase) := by
  have hwaiting : Leads (fun r => (r.1, onSim f r.2)) (processEventsWithContext T e.sim)
      (processEventsWithContext S (onSim f e.sim)) := by
    unfold processEventsWithContext
    by_cases hempty : e.sim.m_eventsWithContextEmpty
    · rw [if_pos hempty, if_pos (show (onSim f e.sim).m_eventsWithContextEmpty from hempty)]
      exact leads_pure _
    · rw [if_neg hempty, if_neg (show ¬(onSim f e.sim).m_eventsWithContextEmpty from hempty)]
      exact projects.insertAll _ _
  exact hwaiting.bind fun _ => leads_pure _

theorem removeId (s : DefaultSimulatorImpl τ) (id : EventId) :
    Leads (onSim f) (Simulator.remove T s id) (Simulator.remove S (onSim f s) id) := by
  unfold Simulator.remove
  refine Leads.ite (c := id.m_uid = 2) (leads_pure _) (Leads.ite (leads_pure _) ?_)
  exact (projects.remove s.m_events _).bind fun _ => leads_pure _

theorem execStep {e : Execution τ}
    (isEmpty : S.isEmpty (f e.sim.m_events) = T.isEmpty e.sim.m_events) (act : Act) :
    Leads (onExecution f) (Simulator.execStep T e act)
    (Simulator.execStep S (onExecution f e) act) := by
  cases act with
  | schedule delay => exact (projects.insertEvent e.sim _ _ _).bind fun _ => leads_pure _
  | scheduleNow => exact (projects.insertEvent e.sim _ _ _).bind fun _ => leads_pure _
  | scheduleWithContext onMain context delay =>
    cases onMain with
    | true =>
      have hinsert := projects.insertEvent e.sim e.made (tAbsolute e.sim delay) context
      have hmap : Leads (fun r => (r.1, onSim f r.2))
        (scheduleWithContext T e.sim true context delay e.made)
          (scheduleWithContext S (onSim f e.sim) true context delay e.made) :=
        hinsert.map fun _ => rfl
      refine hmap.bind fun r => ?_
      cases hr : r.1 with
      | some ev => rfl
      | none => rfl
    | false => rfl
  | scheduleDestroy => rfl
  | cancel id =>
    have hcancel : cancel (onSim f e.sim) id = onSim f (cancel e.sim id) := by
      unfold cancel
      by_cases hexpired : isExpired e.sim id
      · rw [if_pos hexpired, if_pos (show isExpired (onSim f e.sim) id from hexpired)]
      · rw [if_neg hexpired, if_neg (show ¬isExpired (onSim f e.sim) id from hexpired)]
        rfl
    exact congrArg (fun sim => Except.ok { onExecution f e with
      sim := sim
      killed := killedAfter e id }) hcancel
  | remove id => exact (projects.removeId e.sim id).bind fun _ => leads_pure _
  | stop => rfl
  | run => exact (projects.enter e _).bind fun _ => leads_pure _
  | loop =>
    unfold Simulator.execStep
    rw [show (onExecution f e).sim.m_events = f e.sim.m_events from rfl, isEmpty]
    refine Leads.ite (leads_pure _) ?_
    have htake :
      Leads (fun r => (r.1, onSim f r.2)) (takeNext T e.sim) (takeNext S (onSim f e.sim)) :=
      (projects.removeNext e.sim.m_events).bind fun _ => leads_pure _
    exact htake.bind fun r => Leads.ite (leads_pure _) (leads_pure _)
  | ret => exact projects.enter e _

end Projects

theorem proper_onExecution {f : τ → σ} {e : Execution τ} {act : Act} :
    Proper (onExecution f e) act ↔ Proper e act := by
  cases act <;> exact Iff.rfl

theorem exec_alike {T : Scheduler τ} {f : τ → σ} {f' : τ → σ'} (projects : Projects S f T)
    (projects' : Projects S' f' T) {Inv : Execution τ → Prop}
    (step : ∀ e act, Inv e → Proper e act → Ensures (execStep T e act) Inv fun _ => False)
    (isEmpty : ∀ e, Inv e → S.isEmpty (f e.sim.m_events) = T.isEmpty e.sim.m_events ∧
      S'.isEmpty (f' e.sim.m_events) = T.isEmpty e.sim.m_events)
    {acts : List Act} {e : Execution τ} (inv : Inv e)
    (proper : Along (execStep S) Proper (onExecution f e) acts) :
    ∃ e', exec (execStep S) (onExecution f e) acts = .ok (onExecution f e') ∧
      exec (execStep S') (onExecution f' e) acts = .ok (onExecution f' e') ∧ Inv e' := by
  induction acts generalizing e with
  | nil => exact ⟨e, rfl, rfl, inv⟩
  | cons act acts ih =>
    obtain ⟨next, hnext, hinv⟩ := (step e act inv (proper_onExecution.mp proper.1)).exists_ok
    have hfirst := (projects.execStep (isEmpty e inv).1 act).of_ok hnext
    have hsecond := (projects'.execStep (isEmpty e inv).2 act).of_ok hnext
    obtain ⟨e', hrun, hrun', hinv'⟩ := ih hinv (proper.2 _ hfirst)
    exact ⟨e', (exec_cons_ok hfirst acts).trans hrun,
      (exec_cons_ok hsecond acts).trans hrun', hinv'⟩

theorem both_ok {x : Except Fault σ} {y : Except Fault σ'} {q : σ × σ'}
    (h : (do let r ← x; let r' ← y; pure (r, r')) = .ok q) : x = .ok q.1 ∧ y = .ok q.2 := by
  obtain ⟨r, hr, h⟩ := bind_ok_inv h
  obtain ⟨r', hr', h⟩ := bind_ok_inv h
  cases h
  exact ⟨hr, hr'⟩

theorem taken_ok {q : σ × σ'} {r : Event × σ × σ'} (h : (beside S S').removeNext q = .ok r) :
    S.removeNext q.1 = .ok (r.1, r.2.1) ∧ S'.removeNext q.2 = .ok (r.1, r.2.2) := by
  obtain ⟨a, ha, h⟩ := bind_ok_inv h
  obtain ⟨b, hb, h⟩ := bind_ok_inv h
  by_cases heq : a.1 = b.1
  · rw [if_pos heq] at h
    cases h
    exact ⟨ha, hb.trans (congrArg (fun ev => Except.ok (ev, b.2)) heq.symm)⟩
  · rw [if_neg heq] at h
    cases h

theorem beside_first : Projects S Prod.fst (beside S S') where
  insert _ _ := ensures_iff.mpr ⟨fun _ h => (both_ok h).1, fun _ _ => trivial⟩
  removeNext _ := ensures_iff.mpr ⟨fun _ h => (taken_ok h).1, fun _ _ => trivial⟩
  remove _ _ := ensures_iff.mpr ⟨fun _ h => (both_ok h).1, fun _ _ => trivial⟩

theorem beside_second : Projects S' Prod.snd (beside S S') where
  insert _ _ := ensures_iff.mpr ⟨fun _ h => (both_ok h).2, fun _ _ => trivial⟩
  removeNext _ := ensures_iff.mpr ⟨fun _ h => (taken_ok h).2, fun _ _ => trivial⟩
  remove _ _ := ensures_iff.mpr ⟨fun _ h => (both_ok h).2, fun _ _ => trivial⟩

theorem runs_beside (lawful : Lawful S contents Ok empty) (lawful' : Lawful S' contents' Ok' empty')
    {acts : List Act} (proper : Along (execStep S) Proper (begin empty) acts) :
    ∃ e : Execution (σ × σ'), exec (execStep S) (begin empty) acts = .ok (onExecution Prod.fst e) ∧
      exec (execStep S') (begin empty') acts = .ok (onExecution Prod.snd e) ∧
      contents' e.sim.m_events.2 = contents e.sim.m_events.1 := by
  have hbeside := beside_lawful lawful lawful'
  have isEmpty : ∀ e,
    RunOk (fun q : σ × σ' => contents q.1) (BesideOk contents contents' Ok Ok') e →
      S'.isEmpty e.sim.m_events.2 = S.isEmpty e.sim.m_events.1 := by
    intro e inv
    have hcard := inv.books.card_lt
    obtain ⟨hfirst, hsecond, hsame, -⟩ := inv.books.session
    rw [Bool.eq_iff_iff, lawful'.isEmpty_iff _ hsecond (hsame ▸ hcard), hsame]
    exact (lawful.isEmpty_iff _ hfirst hcard).symm
  obtain ⟨e, hrun, hrun', hinv⟩ := exec_alike beside_first beside_second
    (fun _ _ inv hproper => RunOk.step hbeside inv hproper) (fun e inv => ⟨rfl, isEmpty e inv⟩)
    (RunOk.begin hbeside) proper
  exact ⟨e, hrun, hrun', hinv.books.session.same⟩

/-- An execution that goes well with one scheduler goes the same way with any other one. -/
theorem simulator_alike (lawful : Lawful S contents Ok empty)
    (lawful' : Lawful S' contents' Ok' empty')
    (acts : List Act) (proper : Along (execStep S) Proper (begin empty) acts) :
    ∃ e q', exec (execStep S) (begin empty) acts = .ok e ∧
      exec (execStep S') (begin empty') acts = .ok (onExecution (fun _ => q') e) ∧
      contents' q' = contents e.sim.m_events := by
  obtain ⟨e, hrun, hrun', hsame⟩ := runs_beside lawful lawful' proper
  exact ⟨onExecution Prod.fst e, e.sim.m_events.2, hrun, hrun', hsame⟩

theorem simulator_alike_calendar : ∃ e q',
    exec (execStep scheduler) (begin start) [.schedule 5, .schedule 3, .scheduleNow,
        .cancel ⟨some 1, 3, NO_CONTEXT, 5⟩, .run, .loop, .schedule 2,
          .remove ⟨some 0, 5, NO_CONTEXT, 4⟩, .ret,
        .loop, .ret, .loop, .ret, .loop] = .ok e ∧
      exec (execStep MapScheduler.scheduler) (begin []) [.schedule 5, .schedule 3, .scheduleNow,
        .cancel ⟨some 1, 3, NO_CONTEXT, 5⟩, .run, .loop, .schedule 2,
          .remove ⟨some 0, 5, NO_CONTEXT, 4⟩, .ret,
        .loop, .ret, .loop, .ret, .loop] = .ok (onExecution (fun _ => q') e) ∧
      contentsOf q' = Calendar.contents e.sim.m_events :=
  simulator_alike Calendar.calendar_lawful MapScheduler.lawful _ (by decide +kernel)

/-- The calendar queue, the list and the map lead to one simulation. -/
theorem schedulers_alike (acts : List Act)
    (proper : Along (execStep scheduler) Proper (begin start) acts) :
    ∃ e list map, exec (execStep scheduler) (begin start) acts = .ok e ∧
      exec (execStep ListScheduler.scheduler) (begin []) acts =
        .ok (onExecution (fun _ => list) e) ∧
      exec (execStep MapScheduler.scheduler) (begin []) acts = .ok (onExecution (fun _ => map) e) ∧
      contentsOf list = Calendar.contents e.sim.m_events ∧
      contentsOf map = Calendar.contents e.sim.m_events := by
  obtain ⟨e, hrun, hlist, hsame⟩ := runs_beside Calendar.calendar_lawful ListScheduler.lawful proper
  obtain ⟨e', hrun', hmap, hsame'⟩ :=
    runs_beside Calendar.calendar_lawful MapScheduler.lawful proper
  have heq : onExecution Prod.fst e' = onExecution Prod.fst e :=
    Except.ok.inj (hrun'.symm.trans hrun)
  have hqueue := congrArg (fun e => Calendar.contents e.sim.m_events) heq
  have hsecond : onExecution Prod.snd e' =
      onExecution (fun _ => e'.sim.m_events.2) (onExecution Prod.fst e) := by
    rw [← heq]
    rfl
  exact ⟨onExecution Prod.fst e, e.sim.m_events.2, e'.sim.m_events.2, hrun, hlist,
    hsecond ▸ hmap, hsame, hsame'.trans hqueue⟩

end Simulator

end Egsr.Core
