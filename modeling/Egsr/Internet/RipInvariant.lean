import Egsr.Internet.RipTable

/-! Runs of one router, and its table in every state of a run. Messages that
revive a route of which the network has another one, or that are about a route
which is being deleted, break the table; so do interfaces that come up with a
network that has a valid route. -/

namespace Egsr.Internet.RipProtocol

open Lib.Run Lib.Outcome List Rip

structure TableInvariant (c : Config) (s : Rip) : Prop where
  validOnce : s.m_routes.Pairwise fun a b =>
    a.entry.m_status = .valid → b.entry.m_status = .valid → a.entry.key ≠ b.entry.key
  validMetric : ∀ it ∈ s.m_routes, it.entry.m_status = .valid →
    it.entry.m_metric.toUInt32 < c.m_linkDown
  invalid : ∀ it ∈ s.m_routes, it.entry.m_status = .invalid →
    it.entry.m_metric.toUInt32 = c.m_linkDown ∧
      Armed s.pending it .deleteRoute (it.invalidSince + c.m_garbageCollectionDelay)
  learned : ∀ it ∈ s.m_routes, it.entry.m_status = .valid → it.learned →
    ∃ latest, Armed s.pending it .invalidateRoute latest
  present : ∀ e ∈ s.pending, ∃ it ∈ s.m_routes, it.route = e.route

theorem Consistent.tableInvariant {c : Config} {s : Rip} (h : Consistent c s s.m_routes) :
    TableInvariant c s where
  validOnce := h.apart.imp fun hapart => hapart.key
  validMetric it hit := (h.sound it hit).valid
  invalid it hit := (h.sound it hit).invalid
  learned it hit := (h.sound it hit).learned
  present e he := by
    obtain ⟨-, it, hit, -, hroute⟩ := h.owner e he
    exact ⟨it, hit, hroute⟩

/-! ## Runs -/

inductive Action where
  /-- `DoInitialize`. -/
  | start
  | interfaceUp (i : ℕ)
  | interfaceDown (i : ℕ)
  | response (m : Response)
  /-- The next event has the time `t` or a later one. -/
  | wait (t : ℕ)
  /-- A pending event is invoked. -/
  | fire (uid : ℕ)
  | update (periodic : Bool)
deriving DecidableEq

def step (c : Config) (s : Rip) : Action → Except Fault Rip
  | .start => .ok (s.doInitialize c)
  | .interfaceUp i => .ok (s.notifyInterfaceUp c i)
  | .interfaceDown i => s.notifyInterfaceDown c i
  | .response m => Rip.handleResponses c m s
  | .wait t => .ok { s with now := t }
  | .fire uid =>
    match s.find (some uid) with
    | none => .error .noEvent
    | some e =>
      match e.handler with
      | .invalidateRoute => (s.cancel (some uid)).invalidateRoute c e.route
      | .deleteRoute => (s.cancel (some uid)).deleteRoute e.route
  | .update periodic =>
    .ok (if periodic then s.sendUnsolicitedRouteUpdate c else s.triggeredRouteUpdate c).2

def Possible (s : Rip) : Action → Prop
  | .wait t => s.now ≤ t ∧ ∀ e ∈ s.pending, t ≤ e.ts
  | .fire uid => ∃ e ∈ s.pending, e.uid = uid ∧ e.ts = s.now
  | _ => True

/-- A metric below `m_linkDown` is for a network with one route at most. Another one is not from
the gateway of a route which is being deleted, and the deletion is not due soon. -/
def RteSafe (c : Config) (m : Response) (rte : RipRte) (s : Rip) : Prop :=
  if c.rteMetric m.incomingInterface rte < c.m_linkDown then (keysOf s).count rte.key ≤ 1
  else ∀ it ∈ s.m_routes, it.entry.key = rte.key → it.entry.m_status = .invalid →
    m.senderAddress ≠ it.entry.m_gateway ∧ c.m_timeoutDelay / 2 ≤ s.getDelayLeft it.event
deriving Decidable

def RtesSafe (c : Config) (m : Response) : Rip × Bool → List RipRte → Prop :=
  Along (fun s rte => handleRte c m rte s.1 s.2) fun s rte => RteSafe c m rte s.1

def Safe (c : Config) (s : Rip) : Action → Prop
  | .interfaceUp i => ¬c.isLoopback i → (networksOf (c.addresses i)).Nodup ∧
      ∀ it ∈ s.m_routes, it.entry.m_status = .valid → it.entry.key ∉ networksOf (c.addresses i)
  | .interfaceDown i => ∀ it ∈ s.m_routes, it.entry.m_interface = i →
      it.entry.m_status = .invalid → it.invalidSince = s.now
  | .response m => m.incomingInterface ∉ c.m_interfaceExclusions →
      (∀ rte ∈ m.rtes, ¬rte.malformed c.m_linkDown) → RtesSafe c m (s, false) m.rtes
  | _ => True

variable {c : Config} {s : Rip}

theorem Consistent.frame {routes : List Route} (h : Consistent c s routes) {s' : Rip}
    (pending : s'.pending = s.pending) (uid : s'.nextUid = s.nextUid)
    (next : s'.nextRoute = s.nextRoute) : Consistent c s' routes where
  routes_lt := next ▸ h.routes_lt
  event_lt := uid ▸ h.event_lt
  apart := h.apart
  uids := pending ▸ h.uids
  owner := by
    rw [pending, uid]
    exact h.owner
  sound := pending ▸ h.sound

/-! ## Interfaces -/

theorem Consistent.addNetworkRouteTo (h : Consistent c s s.m_routes) (one : 1 < c.m_linkDown)
    (network mask : UInt32) (i : ℕ)
    (key : ∀ r ∈ s.m_routes, r.entry.m_status = .valid → r.entry.key ≠ (network, mask)) :
    Consistent c (s.addNetworkRouteTo network mask i)
    (s.addNetworkRouteTo network mask i).m_routes := by
  have hadd : Consistent c (s.addNetworkRouteTo network mask i)
      (⟨s.nextRoute, ⟨network, mask, 0, i, 0, 1, .valid, true⟩, none, false, 0⟩ :: s.m_routes) :=
    h.add (n := ⟨s.nextRoute, ⟨network, mask, 0, i, 0, 1, .valid, true⟩, none, false, 0⟩) rfl rfl
      (fun r hr hv => (key r hr hv).symm)
      { valid := fun _ => one
        learned := fun _ hl => by cases hl
        invalid := fun hi => by cases hi } rfl rfl rfl
  exact hadd.perm (perm_append_singleton _ _).symm

theorem Consistent.addNetworks (one : 1 < c.m_linkDown) (i : ℕ)
    {addresses : List Ipv4InterfaceAddress} (h : Consistent c s s.m_routes)
    (nodup : (networksOf addresses).Nodup)
    (new : ∀ it ∈ s.m_routes, it.entry.m_status = .valid → it.entry.key ∉ networksOf addresses) :
    let s' := addresses.foldl (fun s address =>
      if address.m_scope = .global then s.addNetworkRouteTo address.network address.m_mask i
        else s) s
    Consistent c s' s'.m_routes := by
  induction addresses generalizing s with
  | nil => exact h
  | cons address addresses ih =>
    rw [foldl_cons]
    by_cases hglobal : address.m_scope = .global
    · have hcons : networksOf (address :: addresses) =
          (address.network, address.m_mask) :: networksOf addresses := by
        simp [networksOf, hglobal]
      rw [hcons] at nodup new
      have hnodup := nodup_cons.mp nodup
      rw [if_pos hglobal]
      refine ih (h.addNetworkRouteTo one _ _ i fun r hr hv heq => ?_) hnodup.2
        fun it hit hv hmem => ?_
      · exact new r hr hv (heq ▸ mem_cons_self)
      · rcases mem_append.mp hit with hit | hit
        · exact new it hit hv (mem_cons_of_mem _ hmem)
        · rw [mem_singleton.mp hit] at hmem
          exact hnodup.1 hmem
    · have hskip : networksOf (address :: addresses) = networksOf addresses := by
        simp [networksOf, hglobal]
      rw [hskip] at nodup new
      rw [if_neg hglobal]
      exact ih h nodup new

structure SameTable (s s' : Rip) : Prop where
  routes : s'.m_routes = s.m_routes
  pending : s'.pending = s.pending
  uid : s'.nextUid = s.nextUid
  next : s'.nextRoute = s.nextRoute

theorem Consistent.same (h : Consistent c s s.m_routes) {s' : Rip} (same : SameTable s s') :
    Consistent c s' s'.m_routes := by
  rw [same.routes]
  exact h.frame same.pending same.uid same.next

theorem SameTable.foldl {α : Type} {f : Rip → α → Rip} (each : ∀ s a, SameTable s (f s a))
    (xs : List α) (s : Rip) : SameTable s (xs.foldl f s) := by
  induction xs generalizing s with
  | nil => exact ⟨rfl, rfl, rfl, rfl⟩
  | cons a xs ih =>
    have ha := each s a
    have hrest := ih (f s a)
    exact ⟨hrest.routes.trans ha.routes, hrest.pending.trans ha.pending, hrest.uid.trans ha.uid,
      hrest.next.trans ha.next⟩

theorem Consistent.notifyInterfaceUp (h : Consistent c s s.m_routes)
    (one : 1 < c.m_linkDown) {i : ℕ} (safe : Safe c s (.interfaceUp i)) :
    Consistent c (s.notifyInterfaceUp c i) (s.notifyInterfaceUp c i).m_routes := by
  unfold Rip.notifyInterfaceUp
  by_cases hloop : c.isLoopback i
  · rw [if_pos hloop]
    exact h
  rw [if_neg hloop]
  have hadded := h.addNetworks one i (safe hloop).1 (safe hloop).2
  generalize (c.addresses i).foldl _ s = s' at hadded
  dsimp only at hadded ⊢
  split_ifs
  · exact hadded
  · refine hadded.same (SameTable.foldl (fun s address => ?_) _ s')
    split_ifs <;> exact ⟨rfl, rfl, rfl, rfl⟩

variable {it : Route}

theorem Consistent.invalidate (h : Consistent c s s.m_routes) (small : c.m_linkDown ≤ 255) {k : ℕ}
    (at_k : s.m_routes[k]? = some it)
    (since : it.entry.m_status = .invalid → s.now ≤ it.invalidSince) :
    let s' := (s.cancel it.event).schedule k (invalidated c s.now it) c.m_garbageCollectionDelay
      .deleteRoute
    Consistent c s' s'.m_routes := by
  obtain ⟨rest, hperm, hset, -⟩ := exists_rest at_k
  have hit := h.routes_lt it (mem_of_getElem? at_k)
  refine ((h.perm hperm).reschedule (Nat.le_refl _) hit (.inl rfl) (fun hv => ?_)
    (n := invalidated c s.now it) fun pending harmed => ?_).perm (hset _).symm
  · rw [invalidated_status] at hv
    cases hv
  · have hsince : s.now ≤ (invalidated c s.now it).invalidSince := by
      cases hstatus : it.entry.m_status with
      | valid => simp [invalidated, hstatus]
      | invalid => simpa [invalidated, hstatus] using since hstatus
    have hstatus := invalidated_status c s.now it
    exact
      { valid := fun hv => by rw [hstatus] at hv; cases hv
        learned := fun hv => by rw [hstatus] at hv; cases hv
        invalid := fun _ => ⟨by rw [invalidated_metric]; exact toUInt8_toUInt32 small,
          harmed.later (Nat.add_le_add_right hsince _)⟩ }

theorem Consistent.invalidateInterface (small : c.m_linkDown ≤ 255) (i : ℕ) {ks : List ℕ}
    (nodup : ks.Nodup) (h : Consistent c s s.m_routes) (places : ∀ k ∈ ks, k < s.m_routes.length)
    (since : ∀ k ∈ ks, ∀ it, s.m_routes[k]? = some it → it.entry.m_interface = i →
      it.entry.m_status = .invalid → it.invalidSince = s.now) :
    Ensures (invalidateInterface c i ks s) (fun s' => Consistent c s' s'.m_routes)
      fun _ => False := by
  induction ks generalizing s with
  | nil => exact ensures_ok.mpr h
  | cons k ks ih =>
    obtain ⟨hk, hnodup⟩ := nodup_cons.mp nodup
    obtain ⟨it, hit⟩ : ∃ it, s.m_routes[k]? = some it :=
      ⟨_, List.getElem?_eq_getElem (places k mem_cons_self)⟩
    rw [invalidateInterface]
    simp only [hit]
    by_cases hi : it.entry.m_interface = i
    · have hnow := since k mem_cons_self it hit hi
      have hnext := h.invalidate small hit fun hinvalid => Nat.le_of_eq (hnow hinvalid).symm
      rw [if_pos hi, invalidateRoute_eq h.distinct hit]
      refine ih hnodup hnext (fun j hj => ?_) fun j hj r hr => ?_
      · have hlt := places j (mem_cons_of_mem k hj)
        simpa [schedule, cancel] using hlt
      · have hne : k ≠ j := fun heq => hk (heq ▸ hj)
        have hr' : s.m_routes[j]? = some r := by
          simpa [schedule, cancel, List.getElem?_set_ne hne] using hr
        exact since j (mem_cons_of_mem k hj) r hr'
    · rw [if_neg hi]
      exact ih hnodup h (fun j hj => places j (mem_cons_of_mem k hj))
        fun j hj => since j (mem_cons_of_mem k hj)

theorem Consistent.notifyInterfaceDown (h : Consistent c s s.m_routes) (small : c.m_linkDown ≤ 255)
    {i : ℕ} (safe : Safe c s (.interfaceDown i)) :
    Ensures (s.notifyInterfaceDown c i) (fun s' => Consistent c s' s'.m_routes) fun _ => False := by
  refine (h.invalidateInterface small i nodup_range (fun k hk => mem_range.mp hk)
    fun k _ it hit => safe it (mem_of_getElem? hit)).bind fun s' hs' => ensures_ok.mpr ?_
  split_ifs <;> exact hs'.same ⟨rfl, rfl, rfl, rfl⟩

theorem Consistent.fire (h : Consistent c s s.m_routes) (small : c.m_linkDown ≤ 255) {uid : ℕ}
    (pending : ∃ e ∈ s.pending, e.uid = uid) :
    Ensures (step c s (.fire uid)) (fun s' => Consistent c s' s'.m_routes) fun _ => False := by
  obtain ⟨e, hfind⟩ : ∃ e, s.find (some uid) = some e := by
    obtain ⟨e, he, huid⟩ := pending
    have hsome : (s.find (some uid)).isSome := List.find?_isSome.mpr ⟨e, he, by simp [huid]⟩
    exact Option.isSome_iff_exists.mp hsome
  have he : e ∈ s.pending := mem_of_find?_eq_some hfind
  have huid : uid = e.uid := by simpa using List.find?_some hfind
  obtain ⟨-, it, hit, hid, hroute⟩ := h.owner e he
  obtain ⟨k, hk, rfl⟩ := getElem_of_mem hit
  have hat : s.m_routes[k]? = some s.m_routes[k] := List.getElem?_eq_getElem hk
  generalize s.m_routes[k] = it at hat hid hroute
  rw [step, hfind]
  cases hhandler : e.handler with
  | invalidateRoute =>
    have hvalid : it.entry.m_status ≠ .invalid := by
      intro hinvalid
      obtain ⟨e', he', hid', -, hhandler', -⟩ := ((h.sound it (mem_of_getElem? hat)).invalid
        hinvalid).2
      have heq : e = e' := h.event_inj he he' (Option.some.inj (hid.symm.trans hid'))
      rw [← heq, hhandler] at hhandler'
      cases hhandler'
    simp only [hhandler]
    rw [← hroute, huid, ← hid, invalidateRoute_eq (s := s.cancel it.event) h.distinct hat,
      cancel_cancel]
    exact h.invalidate small hat fun hinvalid => absurd hinvalid hvalid
  | deleteRoute =>
    obtain ⟨rest, hperm, -, herase⟩ := exists_rest hat
    have hremove := (h.perm hperm).remove
    simp only [hhandler]
    rw [← hroute, huid, ← hid, deleteRoute, find_route (s := s.cancel it.event) h.distinct hat]
    exact (hremove.perm herase.symm).frame rfl rfl rfl

theorem Consistent.update (h : Consistent c s s.m_routes) (periodic : Bool) :
    Ensures (step c s (.update periodic)) (fun s' => Consistent c s' s'.m_routes) fun _ =>
      False := by
  have hmap : Consistent c s
      (s.m_routes.map fun it => { it with entry := it.entry.setRouteChanged false }) := by
    refine ⟨?_, ?_, ?_, h.uids, ?_, ?_⟩
    · simpa using h.routes_lt
    · simpa using h.event_lt
    · exact pairwise_map.mpr (h.apart.imp fun hapart => ⟨hapart.route, hapart.event, hapart.key⟩)
    · simpa using h.owner
    · refine forall_mem_map.mpr fun it hit => ?_
      have hsound := h.sound it hit
      exact ⟨hsound.valid, hsound.learned, hsound.invalid⟩
  cases periodic <;> exact hmap.frame rfl rfl rfl

/-! ## Responses -/

def RouteSafe (c : Config) (m : Response) (rte : RipRte) (s : Rip) (it : Route) : Prop :=
  it.entry.key = rte.key → ¬c.rteMetric m.incomingInterface rte < c.m_linkDown →
    it.entry.m_status = .invalid →
      m.senderAddress ≠ it.entry.m_gateway ∧ c.m_timeoutDelay / 2 ≤ s.getDelayLeft it.event

variable {m : Response} {rte : RipRte}

theorem Consistent.renew (h : Consistent c s s.m_routes) (small : c.m_linkDown ≤ 255)
    {k : ℕ} (at_k : s.m_routes[k]? = some it)
    (same : it.entry.key = rte.key) (lt : c.rteMetric m.incomingInterface rte < c.m_linkDown)
    (once : (keysOf s).count rte.key ≤ 1) {nextRoute : ℕ} (le : s.nextRoute ≤ nextRoute) {n : Route}
    (fresh : n.route = it.route ∨ s.nextRoute ≤ n.route) (hlt : n.route < nextRoute)
    (valid : n.entry.m_status = .valid)
    (metric : n.entry.m_metric = (c.rteMetric m.incomingInterface rte).toUInt8)
    (key : n.entry.key = rte.key) :
    let s' := ({ s with nextRoute }.cancel it.event).schedule k n c.m_timeoutDelay .invalidateRoute
    Consistent c s' s'.m_routes := by
  obtain ⟨rest, hperm, hset, -⟩ := exists_rest at_k
  have halone : rte.key ∉ rest.map fun r => r.entry.key := by
    have hcount : (keysOf s).count rte.key =
      ((it :: rest).map fun r => r.entry.key).count rte.key :=
      (hperm.map _).count_eq _
    rw [map_cons, same, count_cons_self] at hcount
    exact count_eq_zero.mp (by omega)
  refine ((h.perm hperm).reschedule le hlt fresh (fun _ r hr _ heq => halone ?_) (n := n)
    fun pending harmed => ?_).perm (hset _).symm
  · exact mem_map.mpr ⟨r, hr, heq.symm.trans key⟩
  · have hvalid : n.entry.m_status ≠ .invalid := by rw [valid]; decide
    exact
      { valid := fun _ => by
          show n.entry.m_metric.toUInt32 < c.m_linkDown
          rwa [metric, toUInt8_toUInt32 (UInt32.le_trans (rteMetric_le ..) small)]
        learned := fun _ _ => ⟨_, harmed⟩
        invalid := fun hinvalid => absurd hinvalid hvalid }

theorem Consistent.round (h : Consistent c s s.m_routes) (small : c.m_linkDown ≤ 255)
    {k : ℕ} {s' : Rip} (at_k : s.m_routes[k]? = some it) (round : RoundResult c m rte s k it s')
    (once : c.rteMetric m.incomingInterface rte < c.m_linkDown → (keysOf s).count rte.key ≤ 1)
    (safe : RouteSafe c m rte s it) : Consistent c s' s'.m_routes := by
  have hsound := h.sound it (mem_of_getElem? at_k)
  have hroute := h.routes_lt it (mem_of_getElem? at_k)
  have hle := rteMetric_le c m.incomingInterface rte
  have hmetric : it.entry.m_metric.toUInt32 ≤ c.m_linkDown := by
    cases hstatus : it.entry.m_status with
    | valid => exact UInt32.le_of_lt (hsound.valid hstatus)
    | invalid => exact UInt32.le_of_eq (hsound.invalid hstatus).1
  cases round with
  | skip => exact h
  | keep => exact h
  | refresh same sender equal =>
    have hvalid : it.entry.m_status ≠ .invalid := by
      intro hinvalid
      have hdown := (hsound.invalid hinvalid).1
      have hnot : ¬c.rteMetric m.incomingInterface rte < c.m_linkDown := by
        rw [equal, hdown]
        exact UInt32.lt_irrefl _
      exact (safe same hnot hinvalid).1 sender
    obtain ⟨rest, hperm, hset, -⟩ := exists_rest at_k
    have hperm' := h.perm hperm
    refine (hperm'.reschedule (Nat.le_refl _) hroute (.inl rfl) (fun hv r hr hrv => ?_)
      (n := { it with learned := true }) fun pending harmed => ?_).perm (hset _).symm
    · exact ((pairwise_cons.mp hperm'.apart).1 r hr).key hv hrv
    · exact
        { valid := hsound.valid
          learned := fun _ _ => ⟨_, harmed⟩
          invalid := fun hinvalid => absurd hinvalid hvalid }
  | update same sender better =>
    have hlt : c.rteMetric m.incomingInterface rte < c.m_linkDown := by
      rcases better with hlt | ⟨-, hlt⟩
      · exact UInt32.lt_of_lt_of_le hlt hmetric
      · exact hlt
    exact h.renew small at_k same hlt (once hlt) (Nat.le_refl _) (.inl rfl) hroute
      (renewed_status ..) (renewed_metric ..) ((renewed_key ..).trans same)
  | replace same sender better =>
    have hlt : c.rteMetric m.incomingInterface rte < c.m_linkDown := by
      rcases better with hlt | ⟨heq, hdue⟩
      · exact UInt32.lt_of_lt_of_le hlt hmetric
      · by_contra hnot
        cases hstatus : it.entry.m_status with
        | valid => exact hnot (heq ▸ hsound.valid hstatus)
        | invalid => exact Nat.not_lt.mpr (safe same hnot hstatus).2 hdue
    exact h.renew small at_k same hlt (once hlt) (Nat.le_succ _) (.inr (Nat.le_refl _))
      (Nat.lt_succ_self _) (renewed_status ..) (renewed_metric ..) (renewed_key ..)
  | invalidate same sender worse down =>
    refine h.invalidate small at_k fun hinvalid => ?_
    rw [(hsound.invalid hinvalid).1] at worse
    exact absurd (UInt32.lt_of_lt_of_le worse hle) (UInt32.lt_irrefl _)

theorem find_schedule {r : Route} (event_lt : ∀ id, r.event = some id → id < s.nextUid)
    (apart : it.event = r.event → it.event = none) (nextRoute k : ℕ) (n : Route) (delay : ℕ)
    (handler : Handler) :
    (({ s with nextRoute }.cancel it.event).schedule k n delay handler).find r.event =
      s.find r.event := by
  have hnew : r.event ≠ some s.nextUid := fun hid => Nat.lt_irrefl _ (event_lt _ hid)
  have hfilter : ∀ e : Event,
      decide (decide (it.event ≠ some e.uid) = true ∧ decide (r.event = some e.uid) = true) =
        decide (r.event = some e.uid) := by
    intro e
    by_cases hid : r.event = some e.uid
    · have hne : it.event ≠ some e.uid := by
        intro hit
        have hnone := apart (hit.trans hid.symm)
        rw [hit] at hnone
        cases hnone
      simp [hid, hne]
    · simp [hid]
  have hold : (s.pending.filter fun e => decide (it.event ≠ some e.uid)).find?
      (fun e => decide (r.event = some e.uid)) =
        s.pending.find? fun e => decide (r.event = some e.uid) := by
    rw [List.find?_filter]
    exact congrArg (fun p => s.pending.find? p) (funext hfilter)
  rw [find, find, schedule, cancel, List.find?_append, hold]
  simp [hnew]

theorem RoundResult.others {k : ℕ} {s' : Rip}
    (round : RoundResult c m rte s k it s') (h : Consistent c s s.m_routes)
    (at_k : s.m_routes[k]? = some it) {j : ℕ} (ne : k ≠ j) {r : Route}
    (at_j : s'.m_routes[j]? = some r) :
    s.m_routes[j]? = some r ∧ s'.getDelayLeft r.event = s.getDelayLeft r.event := by
  have hchanged : ∀ nextRoute n delay handler,
      (({ s with nextRoute }.cancel it.event).schedule k n delay handler).m_routes[j]? = some r →
      s.m_routes[j]? = some r ∧
        (({ s with nextRoute }.cancel it.event).schedule k n delay handler).getDelayLeft r.event =
          s.getDelayLeft r.event := by
    intro nextRoute n delay handler hj
    have hr : s.m_routes[j]? = some r := by
      simpa [schedule, cancel, List.getElem?_set_ne ne] using hj
    obtain ⟨hk', rfl⟩ := List.getElem?_eq_some_iff.mp at_k
    obtain ⟨hj', rfl⟩ := List.getElem?_eq_some_iff.mp hr
    have hapart : Apart s.m_routes[k] s.m_routes[j] := by
      rcases Nat.lt_or_gt_of_ne ne with hlt | hgt
      · exact pairwise_iff_getElem.mp h.apart k j hk' hj' hlt
      · exact (pairwise_iff_getElem.mp h.apart j k hj' hk' hgt).symm
    refine ⟨hr, ?_⟩
    rw [getDelayLeft, find_schedule (h.event_lt _ (getElem_mem hj')) hapart.event]
    rfl
  cases round with
  | skip => exact ⟨at_j, rfl⟩
  | keep => exact ⟨at_j, rfl⟩
  | refresh => exact hchanged s.nextRoute _ _ _ at_j
  | update => exact hchanged s.nextRoute _ _ _ at_j
  | replace => exact hchanged (s.nextRoute + 1) _ _ _ at_j
  | invalidate => exact hchanged s.nextRoute _ _ _ at_j

/-- The table in the loop over the routes, of which those at `ks` are left. -/
structure LoopInvariant (c : Config) (m : Response) (rte : RipRte) (ks : List ℕ) (s : Rip) :
    Prop where
  consistent : Consistent c s s.m_routes
  nodup : ks.Nodup
  once : c.rteMetric m.incomingInterface rte < c.m_linkDown → (keysOf s).count rte.key ≤ 1
  safe : ∀ k ∈ ks, ∀ it, s.m_routes[k]? = some it → RouteSafe c m rte s it

theorem LoopInvariant.round (small : c.m_linkDown ≤ 255) {k : ℕ}
    {ks : List ℕ} {s' : Rip} (h : LoopInvariant c m rte (k :: ks) s)
    (at_k : s.m_routes[k]? = some it) (round : RoundResult c m rte s k it s') :
    LoopInvariant c m rte ks s' where
  consistent := h.consistent.round small at_k round h.once (h.safe k mem_cons_self it at_k)
  nodup := (nodup_cons.mp h.nodup).2
  once := round.keysOf at_k ▸ h.once
  safe j hj r hr := by
    have hne : k ≠ j := fun heq => (nodup_cons.mp h.nodup).1 (heq ▸ hj)
    obtain ⟨hr', hdelay⟩ := round.others h.consistent at_k hne hr
    intro hsame hnot hinvalid
    rw [hdelay]
    exact h.safe j (mem_cons_of_mem k hj) r hr' hsame hnot hinvalid

section

variable (h : Consistent c s s.m_routes)

include h

theorem LoopInvariant.start
    (safe : RteSafe c m rte s) : LoopInvariant c m rte (range s.m_routes.length) s := by
  unfold RteSafe at safe
  by_cases hlt : c.rteMetric m.incomingInterface rte < c.m_linkDown
  · rw [if_pos hlt] at safe
    exact ⟨h, nodup_range, fun _ => safe, fun _ _ _ _ _ hnot => absurd hlt hnot⟩
  · rw [if_neg hlt] at safe
    exact ⟨h, nodup_range, fun hlt' => absurd hlt' hlt, fun k _ it hit hsame _ =>
      safe it (mem_of_getElem? hit) hsame⟩

theorem Consistent.addRoute (small : c.m_linkDown ≤ 255)
    (lt : c.rteMetric m.incomingInterface rte < c.m_linkDown) (new : rte.key ∉ keysOf s) :
    Consistent c (Rip.addRoute c s m rte) (Rip.addRoute c s m rte).m_routes := by
  have hkey : ∀ r ∈ s.m_routes, (addedEntry c m rte).key ≠ r.entry.key := by
    intro r hr heq
    rw [addedEntry_key] at heq
    exact new (mem_map.mpr ⟨r, hr, heq.symm⟩)
  have hmetric : (addedEntry c m rte).m_metric.toUInt32 < c.m_linkDown := by
    rwa [addedEntry_metric, toUInt8_toUInt32 (UInt32.le_trans (rteMetric_le ..) small)]
  have hvalid : (addedEntry c m rte).m_status ≠ .invalid := by
    rw [addedEntry_status]
    decide
  -- the route is added without its event, which is then scheduled
  have hadd : Consistent c { s with nextRoute := s.nextRoute + 1 }
      (⟨s.nextRoute, addedEntry c m rte, none, false, 0⟩ :: s.m_routes) :=
    h.add (n := ⟨s.nextRoute, addedEntry c m rte, none, false, 0⟩) rfl rfl (fun r hr _ => hkey r hr)
      { valid := fun _ => hmetric
        learned := fun _ hl => by cases hl
        invalid := fun hi => absurd hi hvalid } rfl rfl rfl
  have hscheduled := hadd.reschedule (k := 0) (Nat.le_refl _) (Nat.lt_succ_self _) (.inl rfl)
    (fun _ r hr _ => hkey r hr) (n := ⟨s.nextRoute, addedEntry c m rte, none, true, 0⟩)
    fun pending (harmed : Armed _ _ .invalidateRoute (s.now + c.m_timeoutDelay)) =>
      { valid := fun _ => hmetric
        learned := fun _ _ => ⟨_, harmed⟩
        invalid := fun hi => absurd hi hvalid }
  refine hscheduled.frame ?_ rfl rfl
  simp [Rip.addRoute, schedule, cancel]

theorem Consistent.handleRte (small : c.m_linkDown ≤ 255) (safe : RteSafe c m rte s)
    (changed : Bool) :
    Ensures (handleRte c m rte s changed) (fun r => Consistent c r.1 r.1.m_routes)
      fun _ => False := by
  have hkeep : ∀ k ks s it s', LoopInvariant c m rte (k :: ks) s → s.m_routes[k]? = some it →
      RoundResult c m rte s k it s' → LoopInvariant c m rte ks s' :=
    fun _ _ _ _ _ hinv hit hround => hinv.round small hit hround
  refine (responseLoop_range (fun _ _ hinv => hinv.consistent.distinct) hkeep (.start h safe)
    changed).bind fun r hr => ?_
  obtain ⟨hinv, hkeys, hfound⟩ := hr
  dsimp only
  split_ifs with hadd
  · have hnew : rte.key ∉ keysOf r.1 := by
      rw [hkeys, ← hfound]
      simpa using hadd.1
    exact ensures_ok.mpr (hinv.consistent.addRoute small
      (UInt32.lt_of_le_of_ne (rteMetric_le ..) hadd.2) hnew)
  · exact ensures_ok.mpr hinv.consistent

theorem Consistent.handleResponses (small : c.m_linkDown ≤ 255) (safe : Safe c s (.response m)) :
    Ensures (Rip.handleResponses c m s) (fun s' => Consistent c s' s'.m_routes) fun _ => False := by
  have hrtes : ∀ (rtes : List RipRte) (s : Rip) (changed : Bool), Consistent c s s.m_routes →
      RtesSafe c m (s, changed) rtes →
      Ensures (handleRtes c m rtes s changed) (fun r => Consistent c r.1 r.1.m_routes)
        fun _ => False := by
    intro rtes
    induction rtes with
    | nil => exact fun s changed h _ => ensures_ok.mpr h
    | cons rte rtes ih =>
      intro s changed h safe
      have hboth := (h.handleRte small safe.1 changed).and_ok fun r hr => safe.2 r hr
      exact hboth.bind fun r hr => ih r.1 r.2 hr.1 hr.2
  unfold Rip.handleResponses
  split_ifs with hexcluded hmalformed
  · exact ensures_ok.mpr h
  · exact ensures_ok.mpr h
  · have hwell : ∀ rte ∈ m.rtes, ¬rte.malformed c.m_linkDown := by simpa using hmalformed
    refine (hrtes m.rtes s false h (safe hexcluded hwell)).bind fun r hr => ensures_ok.mpr ?_
    split_ifs
    · exact hr.same ⟨rfl, rfl, rfl, rfl⟩
    · exact hr

theorem Consistent.step (one : 1 < c.m_linkDown)
    (small : c.m_linkDown ≤ 255) {a : Action} (possible : Possible s a) (safe : Safe c s a) :
    Ensures (step c s a) (fun s' => Consistent c s' s'.m_routes) fun _ => False := by
  cases a with
  | start => exact ensures_ok.mpr (h.same ⟨rfl, rfl, rfl, rfl⟩)
  | interfaceUp i => exact ensures_ok.mpr (h.notifyInterfaceUp one safe)
  | interfaceDown i => exact h.notifyInterfaceDown small safe
  | response m => exact h.handleResponses small safe
  | wait t => exact ensures_ok.mpr (h.frame rfl rfl rfl)
  | fire uid =>
    obtain ⟨e, he, huid, -⟩ := possible
    exact h.fire small ⟨e, he, huid⟩
  | update periodic => exact h.update periodic

end

theorem initial_consistent (c : Config) : Consistent c initial initial.m_routes where
  routes_lt _ hit := absurd hit not_mem_nil
  event_lt _ hit := absurd hit not_mem_nil
  apart := .nil
  uids := .nil
  owner _ he := absurd he not_mem_nil
  sound _ hit := absurd hit not_mem_nil

/-- Every run of safe steps keeps the table, and reaches no abort. -/
theorem rip_tableInvariant (c : Config) (one : 1 < c.m_linkDown) (small : c.m_linkDown ≤ 255)
    (actions : List Action)
    (along : Along (step c) (fun s a => Possible s a ∧ Safe c s a) initial actions) :
    Ensures (exec (step c) initial actions) (TableInvariant c) fun _ => False := by
  have hkeep : ∀ s a, Consistent c s s.m_routes → Possible s a ∧ Safe c s a →
      Ensures (step c s a) (fun s' => Consistent c s' s'.m_routes) fun _ => False :=
    fun s a h guard => h.step one small guard.1 guard.2
  exact (ensures_exec hkeep (initial_consistent c) along).weaken fun s h => h.tableInvariant

instance (s : Rip) : ∀ a, Decidable (Possible s a)
  | .wait _ | .fire .. | .start | .interfaceUp _ | .interfaceDown _ | .response _ | .update _ =>
    by unfold Possible; infer_instance

instance (c : Config) (m : Response) (s : Rip × Bool) (rtes : List RipRte) :
    Decidable (RtesSafe c m s rtes) :=
  inferInstanceAs (Decidable (Along _ _ s rtes))

instance (c : Config) (s : Rip) : ∀ a, Decidable (Safe c s a)
  | .interfaceUp _ | .interfaceDown _ | .response _ | .start | .wait _ | .fire _ | .update _ =>
    by unfold Safe; infer_instance

def oneInterface : Config where
  nInterfaces := 2
  m_linkDown := 16
  m_timeoutDelay := 180
  m_garbageCollectionDelay := 120
  m_splitHorizonStrategy := .poisonReverse
  m_interfaceExclusions := []
  m_interfaceMetrics := fun _ => none
  addresses := fun i => if i = 1 then [⟨0x0a010101, 0xffffff00, .global⟩] else []
  isLoopback := fun i => i = 0
  mtu := fun _ => 1500

def advertise (metric : UInt32) : Action :=
  .response ⟨[⟨0x0a020000, 0xffff0000, 0, metric⟩], 0x0a010102, 1⟩

/-- A route is learned, times out and is deleted. -/
theorem rip_tableInvariant_timeout : Ensures (exec (step oneInterface) initial
      [.interfaceUp 1, .start, advertise 1, .wait 30, advertise 1, .update true, .wait 210, .fire 1,
        .wait 330, .fire 2, .interfaceDown 1]) (TableInvariant oneInterface) fun _ => False :=
  rip_tableInvariant oneInterface (by decide) (by decide) _ (by decide +kernel)

/-- A gateway says twice that the network is out of reach. The route is invalid, and the second
message has replaced its deletion by a timeout. -/
theorem rip_deletion_lost : ¬∀ actions : List Action,
    Along (step oneInterface) Possible initial actions →
    Ensures (exec (step oneInterface) initial actions) (TableInvariant oneInterface)
      fun _ => False := by
  intro h
  obtain ⟨s, hs, hinv⟩ := (h [advertise 1, advertise 16, advertise 16] (by decide)).exists_ok
  let it : Route :=
    ⟨0, ⟨0x0a020000, 0xffff0000, 0x0a010102, 1, 0, 16, .invalid, true⟩, some 2, true, 0⟩
  obtain rfl : (⟨[it], [], false, true, 0, [⟨2, 180, .invalidateRoute, 0⟩], 3, 1⟩ : Rip) = s :=
    Except.ok.inj (Eq.trans (by rfl) hs)
  obtain ⟨-, e, he, -, -, hhandler, -⟩ := hinv.invalid it mem_cons_self rfl
  rw [mem_singleton.mp he] at hhandler
  cases hhandler

end Egsr.Internet.RipProtocol
