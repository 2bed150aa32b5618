import Mathlib.Data.List.Nodup
import Egsr.Internet.Rip

/-! The table of RIP and its events over whole runs. Every pending event is
that of one route, and what is done to a route reschedules that event. The
order of the routes does not matter. -/

namespace Egsr.Internet.RipProtocol

open Lib.Run Lib.Outcome List Rip

def networksOf (addresses : List Ipv4InterfaceAddress) : List (UInt32 × UInt32) :=
  (addresses.filter fun address => address.m_scope = .global).map fun address =>
    (address.network, address.m_mask)

namespace RipRoutingTableEntry

variable (e : RipRoutingTableEntry) (metric : UInt8) (status : Status) (tag : UInt16)

@[simp] theorem setRouteMetric_metric : (e.setRouteMetric metric).m_metric = metric := by
  unfold setRouteMetric
  split_ifs with h
  · rfl
  · exact not_not.mp h

@[simp] theorem setRouteMetric_status : (e.setRouteMetric metric).m_status = e.m_status := by
  unfold setRouteMetric
  split_ifs <;> rfl

@[simp] theorem setRouteMetric_gateway : (e.setRouteMetric metric).m_gateway = e.m_gateway := by
  unfold setRouteMetric
  split_ifs <;> rfl

@[simp] theorem setRouteMetric_interface :
    (e.setRouteMetric metric).m_interface = e.m_interface := by
  unfold setRouteMetric
  split_ifs <;> rfl

@[simp] theorem setRouteMetric_key : (e.setRouteMetric metric).key = e.key := by
  unfold setRouteMetric
  split_ifs <;> rfl

@[simp] theorem setRouteStatus_status : (e.setRouteStatus status).m_status = status := by
  unfold setRouteStatus
  split_ifs with h
  · rfl
  · exact not_not.mp h

@[simp] theorem setRouteStatus_metric : (e.setRouteStatus status).m_metric = e.m_metric := by
  unfold setRouteStatus
  split_ifs <;> rfl

@[simp] theorem setRouteStatus_gateway : (e.setRouteStatus status).m_gateway = e.m_gateway := by
  unfold setRouteStatus
  split_ifs <;> rfl

@[simp] theorem setRouteStatus_interface :
    (e.setRouteStatus status).m_interface = e.m_interface := by
  unfold setRouteStatus
  split_ifs <;> rfl

@[simp] theorem setRouteStatus_key : (e.setRouteStatus status).key = e.key := by
  unfold setRouteStatus
  split_ifs <;> rfl

@[simp] theorem setRouteTag_status : (e.setRouteTag tag).m_status = e.m_status := by
  unfold setRouteTag
  split_ifs <;> rfl

@[simp] theorem setRouteTag_metric : (e.setRouteTag tag).m_metric = e.m_metric := by
  unfold setRouteTag
  split_ifs <;> rfl

@[simp] theorem setRouteTag_gateway : (e.setRouteTag tag).m_gateway = e.m_gateway := by
  unfold setRouteTag
  split_ifs <;> rfl

@[simp] theorem setRouteTag_interface : (e.setRouteTag tag).m_interface = e.m_interface := by
  unfold setRouteTag
  split_ifs <;> rfl

@[simp] theorem setRouteTag_key : (e.setRouteTag tag).key = e.key := by
  unfold setRouteTag
  split_ifs <;> rfl

variable (changed : Bool)

@[simp] theorem setRouteChanged_status : (e.setRouteChanged changed).m_status = e.m_status := rfl

@[simp] theorem setRouteChanged_metric : (e.setRouteChanged changed).m_metric = e.m_metric := rfl

@[simp] theorem setRouteChanged_gateway : (e.setRouteChanged changed).m_gateway = e.m_gateway := rfl

@[simp] theorem setRouteChanged_interface :
    (e.setRouteChanged changed).m_interface = e.m_interface := rfl

@[simp] theorem setRouteChanged_key : (e.setRouteChanged changed).key = e.key := rfl

end RipRoutingTableEntry

def Armed (pending : List Event) (it : Route) (handler : Handler) (latest : ℕ) : Prop :=
  ∃ e ∈ pending, it.event = some e.uid ∧ e.route = it.route ∧ e.handler = handler ∧ e.ts ≤ latest

/-- What the status of a route says about its metric and its event. -/
structure Sound (c : Config) (pending : List Event) (it : Route) : Prop where
  valid : it.entry.m_status = .valid → it.entry.m_metric.toUInt32 < c.m_linkDown
  learned : it.entry.m_status = .valid → it.learned →
    ∃ latest, Armed pending it .invalidateRoute latest
  invalid : it.entry.m_status = .invalid → it.entry.m_metric.toUInt32 = c.m_linkDown ∧
    Armed pending it .deleteRoute (it.invalidSince + c.m_garbageCollectionDelay)

/-- Two routes are not the same, do not share an event and are not both valid for one network. -/
structure Apart (a b : Route) : Prop where
  route : a.route ≠ b.route
  event : a.event = b.event → a.event = none
  key : a.entry.m_status = .valid → b.entry.m_status = .valid → a.entry.key ≠ b.entry.key

theorem Apart.symm {a b : Route} (h : Apart a b) : Apart b a where
  route := h.route.symm
  event := fun e => e.trans (h.event e.symm)
  key := fun hb ha => (h.key ha hb).symm

structure Consistent (c : Config) (s : Rip) (routes : List Route) : Prop where
  routes_lt : ∀ it ∈ routes, it.route < s.nextRoute
  event_lt : ∀ it ∈ routes, ∀ id, it.event = some id → id < s.nextUid
  apart : routes.Pairwise Apart
  uids : s.pending.Pairwise fun e e' => e.uid ≠ e'.uid
  owner : ∀ e ∈ s.pending, e.uid < s.nextUid ∧
    ∃ it ∈ routes, it.event = some e.uid ∧ it.route = e.route
  sound : ∀ it ∈ routes, Sound c s.pending it

variable {c : Config} {s : Rip} {routes : List Route}

theorem Consistent.perm {routes' : List Route} (h : Consistent c s routes)
    (perm : routes.Perm routes') : Consistent c s routes' where
  routes_lt it hit := h.routes_lt it (perm.mem_iff.mpr hit)
  event_lt it hit := h.event_lt it (perm.mem_iff.mpr hit)
  apart := (perm.pairwise_iff Apart.symm).mp h.apart
  uids := h.uids
  owner e he := by
    obtain ⟨hlt, it, hit, howner⟩ := h.owner e he
    exact ⟨hlt, it, perm.mem_iff.mp hit, howner⟩
  sound it hit := h.sound it (perm.mem_iff.mpr hit)

theorem Consistent.event_inj (h : Consistent c s routes) {e e' : Event} (he : e ∈ s.pending)
    (he' : e' ∈ s.pending) (uid : e.uid = e'.uid) : e = e' :=
  inj_on_of_nodup_map (pairwise_map.mpr h.uids) he he' uid

variable {it : Route}

theorem Armed.mono {pending pending' : List Event} {handler : Handler} {latest : ℕ}
    (h : Armed pending it handler latest)
    (sub : ∀ e ∈ pending, it.event = some e.uid → e ∈ pending') :
      Armed pending' it handler latest := by
  obtain ⟨e, he, hid, hrest⟩ := h
  exact ⟨e, sub e he hid, hid, hrest⟩

theorem Armed.later {pending : List Event} {handler : Handler} {latest latest' : ℕ}
    (h : Armed pending it handler latest) (le : latest ≤ latest') :
      Armed pending it handler latest' := by
  obtain ⟨e, he, hid, hroute, hhandler, hts⟩ := h
  exact ⟨e, he, hid, hroute, hhandler, Nat.le_trans hts le⟩

theorem Sound.mono {pending pending' : List Event} (h : Sound c pending it)
    (sub : ∀ e ∈ pending, it.event = some e.uid → e ∈ pending') : Sound c pending' it where
  valid := h.valid
  learned := fun hv hl => (h.learned hv hl).imp fun _ ha => ha.mono sub
  invalid := fun hi => ⟨(h.invalid hi).1, (h.invalid hi).2.mono sub⟩

/-! ## Changes of one route -/

theorem mem_cancel {id : EventId} {e : Event} :
    e ∈ (s.cancel id).pending ↔ e ∈ s.pending ∧ id ≠ some e.uid := by
  simp [cancel]

theorem Apart.mem_cancel {r : Route} (h : Apart it r) {e : Event} (he : e ∈ s.pending)
    (id : r.event = some e.uid) : e ∈ (s.cancel it.event).pending := by
  refine RipProtocol.mem_cancel.mpr ⟨he, fun hit => ?_⟩
  have hnone := h.event (hit.trans id.symm)
  rw [hit] at hnone
  cases hnone

theorem Consistent.reschedule {n : Route} {rest : List Route} (h : Consistent c s (it :: rest))
    {nextRoute : ℕ} (le : s.nextRoute ≤ nextRoute) (lt : n.route < nextRoute)
    (fresh : n.route = it.route ∨ s.nextRoute ≤ n.route)
    (key : n.entry.m_status = .valid → ∀ r ∈ rest, r.entry.m_status = .valid →
      n.entry.key ≠ r.entry.key) {k delay : ℕ} {handler : Handler}
    (sound : ∀ pending, Armed pending { n with event := some s.nextUid } handler (s.now + delay) →
      Sound c pending { n with event := some s.nextUid }) :
    Consistent c (({ s with nextRoute }.cancel it.event).schedule k n delay handler)
      ({ n with event := some s.nextUid } :: rest) := by
  have hrest := pairwise_cons.mp h.apart
  have hkeep : ∀ r ∈ rest, ∀ e ∈ s.pending, r.event = some e.uid →
      e ∈ (({ s with nextRoute }.cancel it.event).schedule k n delay handler).pending :=
    fun r hr e he hid => mem_append_left _ ((hrest.1 r hr).mem_cancel he hid)
  constructor
  · intro r hr
    rcases mem_cons.mp hr with rfl | hr
    · exact lt
    · exact Nat.lt_of_lt_of_le (h.routes_lt r (mem_cons_of_mem _ hr)) le
  · intro r hr id hid
    rcases mem_cons.mp hr with rfl | hr
    · cases hid
      exact Nat.lt_succ_self _
    · exact Nat.lt_succ_of_lt (h.event_lt r (mem_cons_of_mem _ hr) id hid)
  · refine pairwise_cons.mpr ⟨fun r hr => ⟨fun heq => ?_, fun heq => ?_, fun hv => key hv r hr⟩,
      hrest.2⟩
    · rcases fresh with hsame | hnew
      · exact (hrest.1 r hr).route (hsame.symm.trans heq)
      · have hlt := h.routes_lt r (mem_cons_of_mem _ hr)
        have heq' : n.route = r.route := heq
        omega
    · have hlt := h.event_lt r (mem_cons_of_mem _ hr) s.nextUid heq.symm
      exact absurd hlt (Nat.lt_irrefl _)
  · refine pairwise_append.mpr ⟨h.uids.filter _, pairwise_singleton _ _, ?_⟩
    intro e he e' he'
    rw [mem_singleton.mp he']
    have hlt := (h.owner e (mem_cancel.mp he).1).1
    exact Nat.ne_of_lt hlt
  · intro e he
    rcases mem_append.mp he with he | he
    · obtain ⟨hmem, hne⟩ := mem_cancel.mp he
      obtain ⟨hlt, r, hr, hid, hroute⟩ := h.owner e hmem
      refine ⟨Nat.lt_succ_of_lt hlt, r, ?_, hid, hroute⟩
      rcases mem_cons.mp hr with rfl | hr
      · exact absurd hid hne
      · exact mem_cons_of_mem _ hr
    · rw [mem_singleton.mp he]
      exact ⟨Nat.lt_succ_self _, _, mem_cons_self, rfl, rfl⟩
  · intro r hr
    rcases mem_cons.mp hr with rfl | hr
    · exact sound _ ⟨_, mem_append_right _ (mem_singleton_self _), rfl, rfl, rfl, Nat.le_refl _⟩
    · exact (h.sound r (mem_cons_of_mem _ hr)).mono (hkeep r hr)

theorem Consistent.add {n : Route} (h : Consistent c s routes) (id : n.event = none)
    (route : n.route = s.nextRoute)
    (key : ∀ r ∈ routes, r.entry.m_status = .valid → n.entry.key ≠ r.entry.key)
    (sound : Sound c s.pending n) {s' : Rip} (pending : s'.pending = s.pending)
    (uid : s'.nextUid = s.nextUid) (next : s'.nextRoute = s.nextRoute + 1) :
    Consistent c s' (n :: routes) := by
  constructor
  · rw [next]
    refine forall_mem_cons.mpr ⟨by omega, fun r hr => ?_⟩
    exact Nat.lt_succ_of_lt (h.routes_lt r hr)
  · rw [uid]
    have hnone : ∀ i, n.event = some i → i < s.nextUid := by simp [id]
    exact forall_mem_cons.mpr ⟨hnone, h.event_lt⟩
  · refine pairwise_cons.mpr ⟨fun r hr => ⟨?_, fun _ => id, fun _ => key r hr⟩, h.apart⟩
    have hlt := h.routes_lt r hr
    omega
  · rw [pending]
    exact h.uids
  · rw [pending, uid]
    intro e he
    obtain ⟨hlt, r, hr, howner⟩ := h.owner e he
    exact ⟨hlt, r, mem_cons_of_mem _ hr, howner⟩
  · rw [pending]
    exact forall_mem_cons.mpr ⟨sound, h.sound⟩

theorem Consistent.remove {rest : List Route} (h : Consistent c s (it :: rest)) :
    Consistent c (s.cancel it.event) rest where
  routes_lt r hr := h.routes_lt r (mem_cons_of_mem _ hr)
  event_lt r hr := h.event_lt r (mem_cons_of_mem _ hr)
  apart := (pairwise_cons.mp h.apart).2
  uids := h.uids.filter _
  owner e he := by
    obtain ⟨hmem, hne⟩ := mem_cancel.mp he
    obtain ⟨hlt, r, hr, hid, hroute⟩ := h.owner e hmem
    rcases mem_cons.mp hr with rfl | hr
    · exact absurd hid hne
    · exact ⟨hlt, r, hr, hid, hroute⟩
  sound r hr := (h.sound r (mem_cons_of_mem _ hr)).mono fun _ he hid =>
    ((pairwise_cons.mp h.apart).1 r hr).mem_cancel he hid

theorem exists_rest {k : ℕ} (at_k : s.m_routes[k]? = some it) :
    ∃ rest, s.m_routes.Perm (it :: rest) ∧ (∀ n, (s.m_routes.set k n).Perm (n :: rest)) ∧
      (s.m_routes.eraseIdx k).Perm rest := by
  obtain ⟨hk, rfl⟩ := List.getElem?_eq_some_iff.mp at_k
  refine ⟨s.m_routes.take k ++ s.m_routes.drop (k + 1), ?_, fun n => ?_, ?_⟩
  · conv_lhs => rw [← take_append_drop k s.m_routes, drop_eq_getElem_cons hk]
    exact perm_middle
  · rw [set_eq_take_append_cons_drop, if_pos hk]
    exact perm_middle
  · rw [eraseIdx_eq_take_drop_succ]

def Distinct (s : Rip) : Prop := s.m_routes.Pairwise fun a b => a.route ≠ b.route

theorem Consistent.distinct (h : Consistent c s s.m_routes) : Distinct s :=
  h.apart.imp fun hapart => hapart.route

theorem find_route (distinct : Distinct s) {k : ℕ} (at_k : s.m_routes[k]? = some it) :
    (s.m_routes.findIdx? fun r => r.route = it.route) = some k := by
  obtain ⟨hk, rfl⟩ := List.getElem?_eq_some_iff.mp at_k
  refine List.findIdx?_eq_some_iff_getElem.mpr ⟨hk, by simp, fun j hj => ?_⟩
  simpa using pairwise_iff_getElem.mp distinct j k (Nat.lt_trans hj hk) hk hj

theorem cancel_cancel (id : EventId) : (s.cancel id).cancel id = s.cancel id := by
  simp [cancel, filter_filter]

theorem cancel_of_not_isRunning {id : EventId} (h : s.isRunning id = false) : s.cancel id = s := by
  have hnone : ∀ e ∈ s.pending, id ≠ some e.uid := by
    simpa [isRunning, find] using h
  have hfilter : (s.pending.filter fun e => decide (id ≠ some e.uid)) = s.pending :=
    filter_eq_self.mpr fun e he => decide_eq_true (hnone e he)
  rw [cancel, hfilter]

/-- The entry of a route that becomes invalid, and the time of it. -/
def invalidated (c : Config) (now : ℕ) (it : Route) : Route :=
  { it with
    entry := ((it.entry.setRouteStatus .invalid).setRouteMetric
      c.m_linkDown.toUInt8).setRouteChanged true
    invalidSince := if it.entry.m_status = .valid then now else it.invalidSince }

section Invalidated

variable (c : Config) (now : ℕ) (it : Route)

@[simp] theorem invalidated_status : (invalidated c now it).entry.m_status = .invalid := by
  simp [invalidated]

@[simp] theorem invalidated_metric :
    (invalidated c now it).entry.m_metric = c.m_linkDown.toUInt8 := by
  simp [invalidated]

@[simp] theorem invalidated_key : (invalidated c now it).entry.key = it.entry.key := by
  simp [invalidated]

end Invalidated

theorem invalidateRoute_eq (distinct : Distinct s) {k : ℕ} (at_k : s.m_routes[k]? = some it) :
    s.invalidateRoute c it.route = .ok ((s.cancel it.event).schedule k (invalidated c s.now it)
      c.m_garbageCollectionDelay .deleteRoute) := by
  rw [invalidateRoute, find_route distinct at_k]
  simp only [at_k]
  by_cases hrun : s.isRunning it.event
  · rw [if_pos hrun]
    rfl
  · rw [if_neg hrun, cancel_of_not_isRunning (Bool.eq_false_iff.mpr hrun)]
    rfl

/-! ## Responses -/

theorem toUInt8_toUInt32 {x : UInt32} (le : x ≤ 255) : x.toUInt8.toUInt32 = x := by
  have hle : x.toNat ≤ 255 := UInt32.le_iff_toNat_le.mp le
  apply UInt32.toNat_inj.mp
  rw [UInt8.toNat_toUInt32, UInt32.toNat_toUInt8]
  omega

theorem rteMetric_le (c : Config) (i : ℕ) (rte : RipRte) : c.rteMetric i rte ≤ c.m_linkDown := by
  unfold Config.rteMetric
  dsimp only
  split_ifs with h
  · exact UInt32.le_refl _
  · exact UInt32.not_lt.mp h

section Entries

variable (e : RipRoutingTableEntry) (rteMetric : UInt32) (tag : UInt16)

@[simp] theorem renewed_metric : (renewed e rteMetric tag).m_metric = rteMetric.toUInt8 := by
  simp [renewed]

@[simp] theorem renewed_status : (renewed e rteMetric tag).m_status = .valid := by
  simp [renewed]

@[simp] theorem renewed_gateway : (renewed e rteMetric tag).m_gateway = e.m_gateway := by
  simp [renewed]

@[simp] theorem renewed_interface : (renewed e rteMetric tag).m_interface = e.m_interface := by
  simp [renewed]

@[simp] theorem renewed_key : (renewed e rteMetric tag).key = e.key := by
  simp [renewed]

end Entries

def addedEntry (c : Config) (m : Response) (rte : RipRte) : RipRoutingTableEntry :=
  (((RipRoutingTableEntry.create rte.network rte.m_subnetMask m.senderAddress
    m.incomingInterface).setRouteMetric
      (c.rteMetric m.incomingInterface rte).toUInt8).setRouteStatus .valid).setRouteChanged true

section Added

variable (c : Config) (m : Response) (rte : RipRte)

@[simp] theorem addedEntry_metric :
    (addedEntry c m rte).m_metric = (c.rteMetric m.incomingInterface rte).toUInt8 := by
  simp [addedEntry]

@[simp] theorem addedEntry_status : (addedEntry c m rte).m_status = .valid := by
  simp [addedEntry]

@[simp] theorem addedEntry_gateway : (addedEntry c m rte).m_gateway = m.senderAddress := by
  simp [addedEntry, RipRoutingTableEntry.create]

@[simp] theorem addedEntry_interface : (addedEntry c m rte).m_interface = m.incomingInterface := by
  simp [addedEntry, RipRoutingTableEntry.create]

@[simp] theorem addedEntry_key : (addedEntry c m rte).key = rte.key := by
  simp [addedEntry, RipRoutingTableEntry.create]
  rfl

end Added

inductive RoundResult (c : Config) (m : Response) (rte : RipRte) (s : Rip) (k : ℕ) (it : Route) :
    Rip → Prop where
  | skip (other : it.entry.key ≠ rte.key) : RoundResult c m rte s k it s
  | keep (same : it.entry.key = rte.key) (sender : m.senderAddress ≠ it.entry.m_gateway)
      (worse : it.entry.m_metric.toUInt32 ≤ c.rteMetric m.incomingInterface rte) :
      RoundResult c m rte s k it s
  | refresh (same : it.entry.key = rte.key) (sender : m.senderAddress = it.entry.m_gateway)
      (equal : c.rteMetric m.incomingInterface rte = it.entry.m_metric.toUInt32) :
      RoundResult c m rte s k it ((s.cancel it.event).schedule k { it with learned := true }
        c.m_timeoutDelay .invalidateRoute)
  | update (same : it.entry.key = rte.key) (sender : m.senderAddress = it.entry.m_gateway)
      (better : c.rteMetric m.incomingInterface rte < it.entry.m_metric.toUInt32 ∨
        it.entry.m_metric.toUInt32 < c.rteMetric m.incomingInterface rte ∧
          c.rteMetric m.incomingInterface rte < c.m_linkDown) :
      RoundResult c m rte s k it ((s.cancel it.event).schedule k
        { it with
          entry := renewed it.entry (c.rteMetric m.incomingInterface rte) rte.m_tag
          learned := true } c.m_timeoutDelay .invalidateRoute)
  | replace (same : it.entry.key = rte.key) (sender : m.senderAddress ≠ it.entry.m_gateway)
      (better : c.rteMetric m.incomingInterface rte < it.entry.m_metric.toUInt32 ∨
        c.rteMetric m.incomingInterface rte = it.entry.m_metric.toUInt32 ∧
          s.getDelayLeft it.event < c.m_timeoutDelay / 2) :
      RoundResult c m rte s k it
        (({ s with nextRoute := s.nextRoute + 1 }.cancel it.event).schedule k
        { it with
          route := s.nextRoute
          entry := renewed (.create rte.network rte.m_subnetMask m.senderAddress
            m.incomingInterface) (c.rteMetric m.incomingInterface rte) rte.m_tag
          learned := true } c.m_timeoutDelay .invalidateRoute)
  | invalidate (same : it.entry.key = rte.key) (sender : m.senderAddress = it.entry.m_gateway)
      (worse : it.entry.m_metric.toUInt32 < c.rteMetric m.incomingInterface rte)
      (down : ¬c.rteMetric m.incomingInterface rte < c.m_linkDown) :
      RoundResult c m rte s k it ((s.cancel it.event).schedule k (invalidated c s.now it)
        c.m_garbageCollectionDelay .deleteRoute)

theorem responseRound_spec (distinct : Distinct s) {k : ℕ}
    (at_k : s.m_routes[k]? = some it) (m : Response) (rte : RipRte) (found changed : Bool) :
    Ensures (responseRound c m rte k s found changed) (fun r => RoundResult c m rte s k it r.1 ∧
        r.2.1 = (found || decide (it.entry.key = rte.key))) fun _ => False := by
  have hkey : it.entry.m_destNetwork = rte.network ∧ it.entry.m_destNetworkMask = rte.m_subnetMask ↔
      it.entry.key = rte.key := by
    rw [RipRoutingTableEntry.key, RipRte.key, Prod.mk.injEq]
  unfold responseRound
  simp only [at_k, hkey]
  by_cases hsame : it.entry.key = rte.key
  · rw [if_pos hsame]
    have hfound : true = (found || decide (it.entry.key = rte.key)) := by simp [hsame]
    by_cases hlt : c.rteMetric m.incomingInterface rte < it.entry.m_metric.toUInt32
    · rw [if_pos hlt]
      by_cases hsender : m.senderAddress = it.entry.m_gateway
      · rw [if_neg (not_not.mpr hsender)]
        exact ⟨.update hsame hsender (.inl hlt), hfound⟩
      · rw [if_pos hsender]
        exact ⟨.replace hsame hsender (.inl hlt), hfound⟩
    rw [if_neg hlt]
    have hle := UInt32.not_lt.mp hlt
    by_cases heq : c.rteMetric m.incomingInterface rte = it.entry.m_metric.toUInt32
    · rw [if_pos heq]
      by_cases hsender : m.senderAddress = it.entry.m_gateway
      · rw [if_pos hsender]
        exact ⟨.refresh hsame hsender heq, hfound⟩
      rw [if_neg hsender]
      by_cases hdue : s.getDelayLeft it.event < c.m_timeoutDelay / 2
      · rw [if_pos hdue]
        exact ⟨.replace hsame hsender (.inr ⟨heq, hdue⟩), hfound⟩
      · rw [if_neg hdue]
        exact ⟨.keep hsame hsender hle, hfound⟩
    rw [if_neg heq]
    have hgt : it.entry.m_metric.toUInt32 < c.rteMetric m.incomingInterface rte :=
      UInt32.lt_of_le_of_ne hle (Ne.symm heq)
    by_cases hsender : m.senderAddress = it.entry.m_gateway
    · rw [if_pos hsender]
      by_cases hdown : c.rteMetric m.incomingInterface rte < c.m_linkDown
      · rw [if_pos hdown]
        exact ⟨.update hsame hsender (.inr ⟨hgt, hdown⟩), hfound⟩
      · rw [if_neg hdown, invalidateRoute_eq (s := s.cancel it.event) distinct at_k, cancel_cancel]
        exact ⟨.invalidate hsame hsender hgt hdown, hfound⟩
    · rw [if_neg hsender]
      exact ⟨.keep hsame hsender hle, hfound⟩
  · rw [if_neg hsame]
    exact ⟨.skip hsame, by simp [hsame]⟩

def keysOf (s : Rip) : List (UInt32 × UInt32) := s.m_routes.map fun it => it.entry.key

theorem RoundResult.keysOf {m : Response} {rte : RipRte} {k : ℕ} {s' : Rip}
    (h : RoundResult c m rte s k it s') (at_k : s.m_routes[k]? = some it) : keysOf s' =
      keysOf s := by
  have hset : ∀ n : Route, n.entry.key = it.entry.key →
      (s.m_routes.set k n).map (fun r => r.entry.key) = s.m_routes.map fun r => r.entry.key := by
    intro n hn
    obtain ⟨hk, rfl⟩ := List.getElem?_eq_some_iff.mp at_k
    refine ext_getElem (by simp) fun j hj hj' => ?_
    rw [getElem_map, getElem_map, getElem_set]
    split_ifs with heq
    · subst heq
      exact hn
    · rfl
  cases h with
  | skip => rfl
  | keep => rfl
  | refresh => exact hset _ rfl
  | update => exact hset _ (renewed_key ..)
  | replace same => exact hset _ ((renewed_key ..).trans same.symm)
  | invalidate => exact hset _ (invalidated_key c s.now it)

theorem length_keysOf (s : Rip) : (keysOf s).length = s.m_routes.length := length_map _

theorem responseLoop_spec {m : Response} {rte : RipRte} {I : List ℕ → Rip → Prop}
    (distinct : ∀ ks s, I ks s → Distinct s)
    (keep : ∀ k ks s it s', I (k :: ks) s → s.m_routes[k]? = some it →
      RoundResult c m rte s k it s' → I ks s')
    {ks : List ℕ} (init : I ks s) (places : ∀ k ∈ ks, k < s.m_routes.length)
    (found changed : Bool) :
    Ensures (responseLoop c m rte ks s found changed)
      (fun r => I [] r.1 ∧ keysOf r.1 = keysOf s ∧
        r.2.1 = (found || ks.any fun k => decide ((keysOf s)[k]? = some rte.key))) fun _ =>
          False := by
  induction ks generalizing s found changed with
  | nil => exact ensures_ok.mpr ⟨init, rfl, by simp⟩
  | cons k ks ih =>
    obtain ⟨it, hit⟩ : ∃ it, s.m_routes[k]? = some it :=
      ⟨_, List.getElem?_eq_getElem (places k mem_cons_self)⟩
    have hkey : (keysOf s)[k]? = some it.entry.key := by rw [keysOf, List.getElem?_map, hit]; rfl
    rw [responseLoop]
    refine (responseRound_spec (distinct _ s init) hit m rte found changed).bind fun r hr => ?_
    obtain ⟨hround, hfound⟩ := hr
    have hkeys := hround.keysOf hit
    have hlen : r.1.m_routes.length = s.m_routes.length := by
      rw [← length_keysOf, ← length_keysOf, hkeys]
    refine (ih (keep k ks s it r.1 init hit hround) (fun j hj => ?_) r.2.1 r.2.2).weaken
      fun r' hr' => ⟨hr'.1, hr'.2.1.trans hkeys, ?_⟩
    · rw [hlen]
      exact places j (mem_cons_of_mem k hj)
    · rw [hr'.2.2, hfound, hkeys, any_cons, hkey, Bool.or_assoc]
      simp

theorem responseLoop_range {m : Response} {rte : RipRte} {I : List ℕ → Rip → Prop}
    (distinct : ∀ ks s, I ks s → Distinct s)
    (keep : ∀ k ks s it s', I (k :: ks) s → s.m_routes[k]? = some it →
      RoundResult c m rte s k it s' → I ks s')
    (init : I (range s.m_routes.length) s) (changed : Bool) :
    Ensures (responseLoop c m rte (range s.m_routes.length) s false changed)
      (fun r => I [] r.1 ∧ keysOf r.1 = keysOf s ∧ (r.2.1 = true ↔ rte.key ∈ keysOf s))
      fun _ => False := by
  refine (responseLoop_spec distinct keep init (fun k hk => mem_range.mp hk) false changed).weaken
    fun r hr => ⟨hr.1, hr.2.1, ?_⟩
  rw [hr.2.2, Bool.false_or, any_eq_true]
  constructor
  · rintro ⟨k, -, hk⟩
    exact mem_of_getElem? (of_decide_eq_true hk)
  · intro hmem
    obtain ⟨k, hk, heq⟩ := getElem_of_mem hmem
    refine ⟨k, ?_, decide_eq_true (List.getElem?_eq_some_iff.mpr ⟨hk, heq⟩)⟩
    rw [length_keysOf] at hk
    exact mem_range.mpr hk

end Egsr.Internet.RipProtocol
