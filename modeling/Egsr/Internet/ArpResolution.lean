import Mathlib.Algebra.Order.Group.Multiset
import Mathlib.Tactic.Abel
import Egsr.Internet.ArpCache
import Egsr.Lib.Outcome

/-! What becomes of the packets that wait for a hardware address. One timer serves
all entries; it expires no later than an entry that waits does, and each expiry
counts a retry of every such entry, so none waits for long. -/

namespace Egsr.Internet.Arp

open Lib Lib.Run Lib.Outcome List

variable {P : Type}

/-! ## Accounts -/

namespace Event

def passedTo : Event P → Option (P × Ipv4Address)
  | .passed packet destination => some (packet, destination)
  | _ => none

def answeredFor : Event P → Option (P × Ipv4Address)
  | .answered packet destination _ => some (packet, destination)
  | _ => none

def sentTo : Event P → Option (P × Ipv4Address)
  | .sent packet destination => some (packet, destination)
  | _ => none

def droppedFor : Event P → Option (P × Ipv4Address)
  | .dropped packet destination => some (packet, destination)
  | _ => none

end Event

def tally (kind : Event P → Option (P × Ipv4Address)) (log : List (Event P)) :
    Multiset (P × Ipv4Address) :=
  log.filterMap kind

def waitingAt (destination : Ipv4Address) (packets : List P) : Multiset (P × Ipv4Address) :=
  packets.map fun packet => (packet, destination)

def pending (m : OrderedMap Ipv4Address (Entry P)) : Multiset (P × Ipv4Address) :=
  m.entries.flatMap fun e => e.2.m_pending.map fun packet => (packet, e.1)

def Balanced (log : List (Event P)) (m : OrderedMap Ipv4Address (Entry P)) : Prop :=
  tally Event.passedTo log =
    tally Event.answeredFor log + tally Event.sentTo log + tally Event.droppedFor log + pending m

section Accounts

variable {log new : List (Event P)} {m m' : OrderedMap Ipv4Address (Entry P)} {k : Ipv4Address}
    {e e' : Entry P}

@[simp] theorem tally_append (kind : Event P → Option (P × Ipv4Address)) :
    tally kind (log ++ new) = tally kind log + tally kind new := by
  rw [tally, filterMap_append, ← Multiset.coe_add]
  rfl

theorem tally_dropped (packets : List P) :
    tally Event.passedTo (packets.map fun packet => .dropped packet k) = 0 ∧
      tally Event.answeredFor (packets.map fun packet => .dropped packet k) = 0 ∧
      tally Event.sentTo (packets.map fun packet => .dropped packet k) = 0 ∧
      tally Event.droppedFor (packets.map fun packet => .dropped packet k) =
        waitingAt k packets := by
  have none : ∀ kind : Event P →
    Option (P × Ipv4Address), (∀ packet, kind (.dropped packet k) = none) →
      tally kind (packets.map fun packet => .dropped packet k) = 0 := by
    intro kind hnone
    have hnil : packets.filterMap (kind ∘ fun packet => .dropped packet k) = [] :=
      filterMap_eq_nil_iff.mpr fun packet _ => hnone packet
    rw [tally, filterMap_map, hnil]
    rfl
  refine ⟨none _ fun _ => rfl, none _ fun _ => rfl, none _ fun _ => rfl, ?_⟩
  rw [tally, filterMap_map]
  exact congrArg _ (congrFun filterMap_eq_map packets)

@[simp] theorem waitingAt_nil : waitingAt k ([] : List P) = 0 := rfl

theorem waitingAt_cons (p : P) (ps : List P) : waitingAt k (p :: ps) = {(p, k)} + waitingAt k ps :=
  rfl

theorem waitingAt_append (ps qs : List P) : waitingAt k (ps ++ qs) =
    waitingAt k ps + waitingAt k qs := by
  rw [waitingAt, map_append, ← Multiset.coe_add]
  rfl

theorem pending_erase (h : m.find? k = some e) : pending m = waitingAt k e.m_pending + pending
    (m.erase k) := by
  have perm := (OrderedMap.perm_entries_erase h).flatMap_right fun e : Ipv4Address × Entry P =>
    e.2.m_pending.map fun packet => (packet, e.1)
  exact (Multiset.coe_eq_coe.mpr perm).trans (Multiset.coe_add _ _).symm

theorem pending_set : pending (m.set k e') = waitingAt k e'.m_pending + pending (m.erase k) := by
  rw [pending_erase OrderedMap.find?_set_self, OrderedMap.erase_set]

theorem Balanced.extend (h : Balanced log m) (moved : tally Event.passedTo new + pending m =
      tally Event.answeredFor new + tally Event.sentTo new + tally Event.droppedFor new +
        pending m') :
    Balanced (log ++ new) m' := by
  rw [Balanced] at h
  rw [Balanced, tally_append, tally_append, tally_append, tally_append, h]
  calc _ = tally Event.answeredFor log + tally Event.sentTo log + tally Event.droppedFor log +
        (tally Event.passedTo new + pending m) := by abel
    _ = _ := by
      rw [moved]
      abel

end Accounts

variable (c : Config)

structure EntryOk (now : ℕ) (timer : Option ℕ) (e : Entry P) : Prop where
  seen : e.m_lastSeen ≤ now
  state : match e.m_state with
    | .waitReply =>
      e.m_retries ≤ c.m_maxRetries ∧ ∃ due, timer = some due ∧
        due ≤ e.m_lastSeen + c.m_waitReplyTimeout
    | .alive => e.m_pending = [] ∧ e.m_retries = 0
    | .dead => e.m_pending = [] ∧ e.m_retries = 0
    | .permanent => False

structure Invariant (s : State P) : Prop where
  entries : s.m_arpCache.All fun _ e => EntryOk c s.now s.m_waitReplyTimer e
  timer : ∀ due, s.m_waitReplyTimer = some due → s.now ≤ due ∧ due ≤ s.now + c.m_waitReplyTimeout
  balanced : Balanced s.log s.m_arpCache

namespace EntryOk

variable {c : Config} {now : ℕ} {timer : Option ℕ} {e : Entry P}

theorem waiting (h : EntryOk c now timer e) (hw : e.m_state = .waitReply) :
    e.m_retries ≤ c.m_maxRetries ∧ ∃ due, timer = some due ∧
      due ≤ e.m_lastSeen + c.m_waitReplyTimeout := by
  have hstate := h.state
  rwa [hw] at hstate

theorem resting (h : EntryOk c now timer e) (hw : e.m_state ≠ .waitReply) : e.m_pending =
    [] ∧ e.m_retries = 0 := by
  have hstate := h.state
  cases heq : e.m_state with
  | waitReply => exact absurd heq hw
  | alive => rwa [heq] at hstate
  | dead => rwa [heq] at hstate
  | permanent =>
    rw [heq] at hstate
    exact hstate.elim

theorem of_resting (seen : e.m_lastSeen ≤ now) (hs : e.m_state = .alive ∨ e.m_state = .dead)
    (hp : e.m_pending = []) (hr : e.m_retries = 0) : EntryOk c now timer e := by
  refine ⟨seen, ?_⟩
  rcases hs with hs | hs <;> rw [hs] <;> exact ⟨hp, hr⟩

theorem of_waiting (seen : e.m_lastSeen ≤ now) (hs : e.m_state = .waitReply)
    (hr : e.m_retries ≤ c.m_maxRetries) {due : ℕ}
    (ht : timer = some due) (hdue : due ≤ e.m_lastSeen + c.m_waitReplyTimeout) :
      EntryOk c now timer e := by
  refine ⟨seen, ?_⟩
  rw [hs]
  exact ⟨hr, due, ht, hdue⟩

theorem not_expired (h : EntryOk c now timer e) (hw : e.m_state = .waitReply)
    (htimer : ∀ due, timer = some due → now ≤ due) : e.isExpired c now = false := by
  obtain ⟨-, due, hdue, hle⟩ := h.waiting hw
  have hnow := htimer due hdue
  have hseen := h.seen
  have htimeout : e.getTimeout c = some c.m_waitReplyTimeout := by rw [Entry.getTimeout, hw]
  rw [Entry.isExpired, htimeout]
  exact decide_eq_false (by omega)

end EntryOk

/-! ## Looking up -/

inductive Looked (c : Config) (packet : P) (destination : Ipv4Address) (s : State P) :
    State P × Option Address → Prop where
  | answered {e : Entry P} (find : s.m_arpCache.find? destination = some e)
    (alive : e.m_state = .alive)
      (fresh : e.isExpired c s.now = false) :
      Looked c packet destination s
        ({ s with log := s.log ++ [.passed packet destination,
          .answered packet destination e.m_macAddress] }, some e.m_macAddress)
  | dropped :
      Looked c packet destination s
        ({ s with log := s.log ++ [.passed packet destination, .dropped packet destination] }, none)
  | queued {e : Entry P} (find : s.m_arpCache.find? destination = some e)
    (waiting : e.m_state = .waitReply) :
      Looked c packet destination s
        ({ s with
          m_arpCache := s.m_arpCache.set destination { e with m_pending := e.m_pending ++ [packet] }
          log := s.log ++ [.passed packet destination] }, none)
  | resolved {e : Entry P}
      (find : s.m_arpCache.find? destination = some e ∨ s.m_arpCache.find? destination = none ∧
        e = .new destination)
      (resting : e.m_state = .alive ∨ e.m_state = .dead) (empty : e.m_pending = [])
        (retries : e.m_retries = 0) :
      Looked c packet destination s
        ({ s with
          m_arpCache := s.m_arpCache.set destination
            { e with m_state := .waitReply, m_pending := [packet], m_lastSeen := s.now }
          m_waitReplyTimer := some (s.m_waitReplyTimer.getD (s.now + c.m_waitReplyTimeout))
          log := s.log ++ [.passed packet destination, .request destination] }, none)

section Lookup

variable {c : Config} {packet : P} {destination : Ipv4Address} {s : State P} {e : Entry P}

theorem say_say (ev ev' : Event P) : (s.say ev).say ev' = { s with log := s.log ++ [ev, ev'] } := by
  simp only [State.say, append_assoc, cons_append, nil_append]

theorem resolve_eq (resting : e.m_state = .alive ∨ e.m_state = .dead) (empty : e.m_pending = []) :
    (s.say (.passed packet destination)).resolve c packet destination e = .ok { s with
        m_arpCache := s.m_arpCache.set destination
          { e with m_state := .waitReply, m_pending := [packet], m_lastSeen := s.now }
        m_waitReplyTimer := some (s.m_waitReplyTimer.getD (s.now + c.m_waitReplyTimeout))
        log := s.log ++ [.passed packet destination, .request destination] } := by
  have hmark : e.markWaitReply s.now packet = .ok
      { e with m_state := .waitReply, m_pending := [packet], m_lastSeen := s.now } := by
    rw [Entry.markWaitReply, if_pos ⟨resting, by rw [empty]; rfl⟩, empty]
    rfl
  cases htimer : s.m_waitReplyTimer <;>
    simp [State.resolve, State.say, State.put, State.startWaitReplyTimer, hmark, htimer, bind,
      Except.bind, pure, Except.pure]

theorem lookup_spec (h : Invariant c s) :
    Ensures (s.lookup c packet destination) (Looked c packet destination s) fun _ => False := by
  have timer : ∀ due, s.m_waitReplyTimer = some due → s.now ≤ due :=
    fun due hdue => (h.timer due hdue).1
  have hsame : (s.say (.passed packet destination)).m_arpCache.find? destination =
      s.m_arpCache.find? destination := rfl
  unfold State.lookup
  simp only [hsame]
  cases hfind : s.m_arpCache.find? destination with
  | none =>
    have hresolve := @resolve_eq P c packet destination s (.new destination) (.inl rfl) rfl
    simp only [hresolve]
    exact .resolved (.inr ⟨hfind, rfl⟩) (.inl rfl) rfl rfl
  | some e =>
    have hok : EntryOk c s.now s.m_waitReplyTimer e := h.entries destination e hfind
    have hnow : (s.say (.passed packet destination)).now = s.now := rfl
    cases hexpired : e.isExpired c s.now with
    | true =>
      have hresting : e.m_state ≠ .waitReply := fun hw => by
        rw [hok.not_expired hw timer] at hexpired
        cases hexpired
      obtain ⟨hempty, hretries⟩ := hok.resting hresting
      have hlive := hok.state
      cases hstate : e.m_state with
      | waitReply => exact absurd hstate hresting
      | permanent =>
        rw [hstate] at hlive
        exact hlive.elim
      | alive =>
        have hresolve := @resolve_eq P c packet destination s e (.inl hstate) hempty
        simp only [hnow, hexpired, hstate, if_true, hresolve]
        exact .resolved (.inl hfind) (.inl hstate) hempty hretries
      | dead =>
        have hresolve := @resolve_eq P c packet destination s e (.inr hstate) hempty
        simp only [hnow, hexpired, hstate, if_true, hresolve]
        exact .resolved (.inl hfind) (.inr hstate) hempty hretries
    | false =>
      have hlive := hok.state
      simp only [hnow, hexpired, Bool.false_eq_true, if_false]
      cases hstate : e.m_state with
      | permanent =>
        rw [hstate] at hlive
        exact hlive.elim
      | alive =>
        simp only [say_say]
        exact .answered hfind hstate hexpired
      | dead =>
        simp only [say_say]
        exact .dropped
      | waitReply =>
        rw [Entry.updateWaitReply, if_pos hstate]
        by_cases hfull : c.m_pendingQueueSize.toNat ≤ e.m_pending.length
        · simp only [if_pos hfull, pure_bind, say_say]
          exact .dropped
        · simp only [if_neg hfull, pure_bind]
          exact .queued hfind hstate

theorem EntryOk.start {timer : Option ℕ} {now : ℕ} (h : EntryOk c now timer e) :
    EntryOk c now (some (timer.getD (now + c.m_waitReplyTimeout))) e := by
  refine ⟨h.seen, ?_⟩
  have hstate := h.state
  cases heq : e.m_state <;> rw [heq] at hstate
  case waitReply =>
    obtain ⟨hr, due, rfl, hdue⟩ := hstate
    exact ⟨hr, due, rfl, hdue⟩
  all_goals exact hstate

theorem Looked.invariant (h : Invariant c s) {r : State P × Option Address}
    (look : Looked c packet destination s r) : Invariant c r.1 := by
  cases look with
  | answered =>
    refine ⟨h.entries, h.timer, h.balanced.extend ?_⟩
    change {(packet, destination)} + _ = {(packet, destination)} + 0 + 0 + _
    abel
  | dropped =>
    refine ⟨h.entries, h.timer, h.balanced.extend ?_⟩
    change {(packet, destination)} + _ = 0 + 0 + {(packet, destination)} + _
    abel
  | @queued e find waiting =>
    have hok : EntryOk c s.now s.m_waitReplyTimer e := h.entries destination e find
    refine ⟨h.entries.set ?_, h.timer, h.balanced.extend ?_⟩
    · obtain ⟨hr, due, hdue, hle⟩ := hok.waiting waiting
      exact .of_waiting hok.seen waiting hr hdue hle
    · rw [pending_erase find, pending_set, waitingAt_append]
      change {(packet, destination)} + _ = 0 + 0 + 0 + (_ + {(packet, destination)} + _)
      abel
  | @resolved e find resting empty retries =>
    have pendingSet : pending (s.m_arpCache.set destination
        { e with m_state := .waitReply, m_pending := [packet], m_lastSeen := s.now }) =
        {(packet, destination)} + pending s.m_arpCache := by
      rw [pending_set]
      rcases find with find | ⟨find, -⟩
      · rw [pending_erase find, empty, waitingAt_nil, zero_add]
        rfl
      · rw [OrderedMap.erase_eq_self find]
        rfl
    have due : s.now ≤ s.m_waitReplyTimer.getD (s.now + c.m_waitReplyTimeout) ∧
        s.m_waitReplyTimer.getD (s.now + c.m_waitReplyTimeout) ≤ s.now + c.m_waitReplyTimeout := by
      cases htimer : s.m_waitReplyTimer with
      | none => exact ⟨Nat.le_add_right _ _, le_rfl⟩
      | some due => exact h.timer due htimer
    refine ⟨OrderedMap.All.set (h.entries.imp fun _ _ _ hok => hok.start) ?_, fun due' hdue =>
      ?_, h.balanced.extend ?_⟩
    · exact .of_waiting le_rfl rfl (retries ▸ UInt32.zero_le) rfl due.2
    · cases hdue
      exact due
    · rw [pendingSet]
      change {(packet, destination)} + _ = 0 + 0 + 0 + ({(packet, destination)} + _)
      abel

end Lookup

/-! ## Replies -/

def sentEvents (source : Ipv4Address) (macAddress : Address) (packet : P) : List (Event P) :=
  if c.resolves
    source then [.sent packet source, .passed packet source, .answered packet source macAddress]
  else [.sent packet source]

section Replies

variable {c : Config} {source : Ipv4Address} {s : State P} {e : Entry P}

theorem send_eq {packet : P} (find : s.m_arpCache.find? source = some e)
    (alive : e.m_state = .alive) (seen : e.m_lastSeen = s.now) :
    s.send c packet source =
      .ok { s with log := s.log ++ sentEvents c source e.m_macAddress packet } := by
  have fresh : e.isExpired c s.now = false := by
    rw [Entry.isExpired, Entry.getTimeout, alive]
    exact decide_eq_false (by omega)
  unfold State.send sentEvents
  by_cases hr : c.resolves source = true
  · simp only [hr, if_true, State.lookup, State.say, find, fresh, alive, Bool.false_eq_true,
      if_false, pure_bind, append_assoc, cons_append, nil_append]
    rfl
  · simp only [hr]
    rfl

theorem sendPending_eq (rounds : ℕ) (find : s.m_arpCache.find? source = some e)
    (alive : e.m_state = .alive)
    (seen : e.m_lastSeen = s.now) (enough : e.m_pending.length < rounds) :
    s.sendPending c source rounds = .ok { s with
        m_arpCache := s.m_arpCache.set source { e with m_pending := [] }
        log := s.log ++ e.m_pending.flatMap (sentEvents c source e.m_macAddress) } := by
  induction rounds generalizing s e with
  | zero => exact absurd enough (Nat.not_lt_zero _)
  | succ rounds ih =>
    unfold State.sendPending
    simp only [find]
    cases hpending : e.m_pending with
    | nil =>
      have same : { e with m_pending := [] } = e := by rw [← hpending]
      rw [same, OrderedMap.set_eq_self find, flatMap_nil, append_nil]
      rfl
    | cons packet rest =>
      rw [hpending, length_cons, Nat.succ_lt_succ_iff] at enough
      have hfind : (s.put source { e with m_pending := rest }).m_arpCache.find? source =
        some { e with m_pending := rest } :=
        OrderedMap.find?_set_self
      have hsend := @send_eq P c source _ _ packet hfind alive seen
      simp only [hsend]
      refine (ih (s := { s.put source { e with m_pending := rest } with
        log := s.log ++ sentEvents c source e.m_macAddress packet }) hfind alive seen enough).trans
          ?_
      rw [flatMap_cons, ← append_assoc]
      simp only [State.put, OrderedMap.set_set]

theorem sentEvents_balanced (macAddress : Address) (packets : List P) :
    tally Event.passedTo (packets.flatMap (sentEvents c source macAddress)) +
      waitingAt source packets =
      tally Event.answeredFor (packets.flatMap (sentEvents c source macAddress)) +
        tally Event.sentTo (packets.flatMap (sentEvents c source macAddress)) +
        tally Event.droppedFor (packets.flatMap (sentEvents c source macAddress)) := by
  induction packets with
  | nil => rfl
  | cons packet packets ih =>
    have one : tally Event.passedTo (sentEvents c source macAddress packet) + {(packet, source)} =
        tally Event.answeredFor (sentEvents c source macAddress packet) +
          tally Event.sentTo (sentEvents c source macAddress packet) +
          tally Event.droppedFor (sentEvents c source macAddress packet) := by
      rw [sentEvents]
      split_ifs <;> rfl
    simp only [flatMap_cons, tally_append, waitingAt_cons]
    calc _ = tally Event.passedTo (sentEvents c source macAddress packet) + {(packet, source)} +
          (tally Event.passedTo (packets.flatMap (sentEvents c source macAddress)) +
            waitingAt source packets) := by abel
      _ = _ := by
        rw [one, ih]
        abel

theorem sentEvents_sent (macAddress : Address) (packets : List P) :
    tally Event.sentTo (packets.flatMap (sentEvents c source macAddress)) =
      waitingAt source packets := by
  induction packets with
  | nil => rfl
  | cons packet packets ih =>
    have one : tally Event.sentTo (sentEvents c source macAddress packet) = {(packet, source)} := by
      rw [sentEvents]
      split_ifs <;> rfl
    rw [flatMap_cons, tally_append, ih, one, waitingAt_cons]

inductive Answered (c : Config) (arp : State.ArpHeader) (s : State P) : State P → Prop where
  | noticed {ev : Event P} (kind : ev = .replyDropped ∨ ∃ a b h, ev = .reply a b h) :
    Answered c arp s (s.say ev)
  | ignored : Answered c arp s s
  | resolved {e : Entry P} (isReply : ¬ arp.isRequest)
    (find : s.m_arpCache.find? arp.source = some e)
      (waiting : e.m_state = .waitReply) :
      Answered c arp s
        { s with
          m_arpCache := s.m_arpCache.set arp.source
            { e with
              m_macAddress := arp.sourceHardware, m_state := .alive, m_retries := 0
              m_lastSeen := s.now, m_pending := [] }
          log := s.log ++ e.m_pending.flatMap (sentEvents c arp.source arp.sourceHardware) }

variable {arp : State.ArpHeader}

theorem receiveReply_eq (find : s.m_arpCache.find? arp.source = some e)
    (waiting : e.m_state = .waitReply) : s.receiveReply c arp = .ok { s with
        m_arpCache := s.m_arpCache.set arp.source
          { e with
            m_macAddress := arp.sourceHardware, m_state := .alive, m_retries := 0
            m_lastSeen := s.now, m_pending := [] }
        log := s.log ++ e.m_pending.flatMap (sentEvents c arp.source arp.sourceHardware) } := by
  let alive : Entry P :=
    { e with
      m_macAddress := arp.sourceHardware, m_state := .alive, m_retries := 0, m_lastSeen := s.now }
  have hfind : (s.put arp.source alive).m_arpCache.find? arp.source = some alive :=
    OrderedMap.find?_set_self
  have hsend :=
    sendPending_eq (c := c) (alive.m_pending.length + 1) hfind rfl rfl (Nat.lt_succ_self _)
  have hmark : e.markAlive s.now arp.sourceHardware = .ok alive := if_pos waiting
  simp only [State.receiveReply, find, waiting, if_true, hmark]
  refine hsend.trans ?_
  simp only [State.put, OrderedMap.set_set, alive]

theorem receiveReply_spec (isReply : ¬ arp.isRequest) :
    Ensures (s.receiveReply c arp) (Answered c arp s) fun _ => False := by
  cases hfind : s.m_arpCache.find? arp.source with
  | none =>
    simp only [State.receiveReply, hfind]
    exact .noticed (.inl rfl)
  | some e =>
    by_cases hw : e.m_state = .waitReply
    · rw [receiveReply_eq hfind hw]
      exact .resolved isReply hfind hw
    · simp only [State.receiveReply, hfind, hw, if_false]
      exact .noticed (.inl rfl)

theorem receive_spec : Ensures (s.receive c arp) (Answered c arp s) fun _ => False := by
  unfold State.receive
  induction c.addresses with
  | nil => exact .ignored
  | cons a as ih =>
    unfold State.receiveAt
    refine Ensures.ite (fun _ => .noticed (.inr ⟨_, _, _, rfl⟩)) fun _ =>
      Ensures.ite (fun h => ?_) fun _ => ih
    exact receiveReply_spec h.1

def ForThisNode (c : Config) (arp : State.ArpHeader) : Prop :=
  ¬ arp.isRequest ∧ arp.destination ∈ c.addresses ∧ arp.destinationHardware = c.deviceAddress

theorem receive_reply (forThis : ForThisNode c arp) : s.receive c arp = s.receiveReply c arp := by
  obtain ⟨isReply, mine, hardware⟩ := forThis
  unfold State.receive
  generalize c.addresses = as at mine
  induction as with
  | nil => cases mine
  | cons a as ih =>
    rw [State.receiveAt, if_neg fun h => isReply h.1]
    by_cases ha : arp.destination = a
    · rw [if_pos ⟨isReply, ha, hardware⟩]
    · rw [if_neg fun h => ha h.2.1]
      exact ih ((mem_cons.mp mine).resolve_left ha)

theorem Answered.invariant (h : Invariant c s) {s' : State P} (answered : Answered c arp s s') :
    Invariant c s' := by
  cases answered with
  | ignored => exact h
  | noticed kind =>
    refine ⟨h.entries, h.timer, h.balanced.extend ?_⟩
    rcases kind with rfl | ⟨_, _, _, rfl⟩ <;> exact (zero_add _).trans (by rfl)
  | @resolved e isReply find waiting =>
    refine ⟨h.entries.set (.of_resting le_rfl (.inl rfl) rfl rfl), h.timer, h.balanced.extend ?_⟩
    rw [pending_erase find, pending_set, waitingAt_nil, zero_add, ← add_assoc, sentEvents_balanced]

end Replies

/-! ## The timer -/

def Entry.timeout (now : ℕ) (e : Entry P) : Entry P :=
  if e.m_state = .waitReply then
    if e.m_retries < c.m_maxRetries then e.incrementRetries now
      else { e.markDead now with m_pending := [] }
  else e

def Entry.Retried (e : Entry P) : Prop := e.m_state = .waitReply ∧ e.m_retries < c.m_maxRetries

section Timer

variable {c : Config} {s : State P} {e : Entry P} {k destination : Ipv4Address}

theorem toNat_retries {now : ℕ} (h : e.m_retries < c.m_maxRetries) :
    (e.incrementRetries now).m_retries.toNat = e.m_retries.toNat + 1 := by
  have hlt := UInt32.lt_iff_toNat_lt.mp h
  have hmax := c.m_maxRetries.toNat_lt
  change (e.m_retries + 1).toNat = _
  rw [UInt32.toNat_add, UInt32.toNat_one, Nat.mod_eq_of_lt (by omega)]

theorem timeoutAt_find? (c : Config) (r : State.Timeout P) (destination k : Ipv4Address) :
    (State.timeoutAt c r destination).1.m_arpCache.find? k =
      if k = destination then (r.1.m_arpCache.find? k).map (Entry.timeout c r.1.now)
        else r.1.m_arpCache.find? k := by
  unfold State.timeoutAt
  cases hfind : r.1.m_arpCache.find? destination with
  | none =>
    by_cases hk : k = destination
    · rw [if_pos hk, hk, hfind]
      rfl
    · rw [if_neg hk]
  | some e =>
    by_cases hw : e.m_state = .waitReply <;> by_cases hr : e.m_retries < c.m_maxRetries <;>
      by_cases hk : k = destination <;>
      simp [hw, hr, hk, hfind, State.put, State.say, OrderedMap.find?_set, Entry.timeout]

theorem timeoutAt_same (c : Config) (r : State.Timeout P) (destination : Ipv4Address) :
    (State.timeoutAt c r destination).1.now = r.1.now ∧
      (State.timeoutAt c r destination).1.m_waitReplyTimer = r.1.m_waitReplyTimer := by
  unfold State.timeoutAt
  split <;> try split_ifs
  all_goals exact ⟨rfl, rfl⟩

variable {r : State.Timeout P}

theorem timeoutAt_restart (find : r.1.m_arpCache.find? destination = some e)
    (retried : e.Retried c) : (State.timeoutAt c r destination).2 = true := by
  simp only [State.timeoutAt, find, retried.1, retried.2, if_true]

theorem timeoutAt_restart_of (c : Config) (destination : Ipv4Address) (h : r.2 = true) :
    (State.timeoutAt c r destination).2 = true := by
  unfold State.timeoutAt
  split <;> try split_ifs
  all_goals first | exact h | rfl

theorem timeoutAt_balanced (c : Config) (destination : Ipv4Address)
    (h : Balanced r.1.log r.1.m_arpCache) :
    Balanced (State.timeoutAt c r destination).1.log
    (State.timeoutAt c r destination).1.m_arpCache := by
  unfold State.timeoutAt
  cases hfind : r.1.m_arpCache.find? destination with
  | none => exact h
  | some e =>
    simp only []
    split_ifs
    · refine h.extend ?_
      change 0 + pending r.1.m_arpCache =
        0 + 0 + 0 + pending (r.1.m_arpCache.set destination (e.incrementRetries r.1.now))
      rw [pending_erase hfind, pending_set]
      rfl
    · obtain ⟨hpassed, hanswered, hsent, hdropped⟩ := tally_dropped (k := destination) e.m_pending
      refine h.extend ?_
      rw [hpassed, hanswered, hsent, hdropped, pending_erase hfind, pending_set, waitingAt_nil]
      abel
    · exact h

variable (order : List Ipv4Address)

theorem timeouts_find? (nodup : order.Nodup) (r : State.Timeout P) (k : Ipv4Address) :
    (order.foldl (State.timeoutAt c) r).1.m_arpCache.find? k =
      if k ∈ order then (r.1.m_arpCache.find? k).map (Entry.timeout c r.1.now)
        else r.1.m_arpCache.find? k := by
  induction order generalizing r with
  | nil => rfl
  | cons destination order ih =>
    obtain ⟨hnew, nodup⟩ := nodup_cons.mp nodup
    rw [foldl_cons, ih nodup, timeoutAt_find?, (timeoutAt_same c r destination).1]
    by_cases hk : k = destination
    · subst hk
      rw [if_neg hnew, if_pos rfl, if_pos mem_cons_self]
    · simp only [hk, if_false, mem_cons, false_or]

theorem timeouts_same (r : State.Timeout P) : (order.foldl (State.timeoutAt c) r).1.now = r.1.now ∧
      (order.foldl (State.timeoutAt c) r).1.m_waitReplyTimer = r.1.m_waitReplyTimer := by
  refine foldlRecOn (motive := fun r' : State.Timeout P => r'.1.now = r.1.now ∧
    r'.1.m_waitReplyTimer = r.1.m_waitReplyTimer) _ _ ⟨rfl, rfl⟩ fun r' h destination _ => ?_
  obtain ⟨hnow, htimer⟩ := timeoutAt_same c r' destination
  exact ⟨hnow.trans h.1, htimer.trans h.2⟩

theorem timeouts_balanced (h : Balanced r.1.log r.1.m_arpCache) :
    Balanced (order.foldl (State.timeoutAt c) r).1.log
    (order.foldl (State.timeoutAt c) r).1.m_arpCache :=
  foldlRecOn (motive := fun r' : State.Timeout P => Balanced r'.1.log r'.1.m_arpCache) _ _ h
    fun _ h destination _ => timeoutAt_balanced c destination h

theorem timeouts_restart_of (h : r.2 = true) : (order.foldl (State.timeoutAt c) r).2 = true :=
  foldlRecOn (motive := fun r' : State.Timeout P => r'.2 = true) _ _ h
    fun _ h destination _ => timeoutAt_restart_of c destination h

theorem timeouts_restart {order : List Ipv4Address} (nodup : order.Nodup) (hk : k ∈ order)
    (find : r.1.m_arpCache.find? k = some e) (retried : e.Retried c) :
    (order.foldl (State.timeoutAt c) r).2 = true := by
  induction order generalizing r with
  | nil => cases hk
  | cons destination order ih =>
    obtain ⟨hnew, nodup⟩ := nodup_cons.mp nodup
    rw [foldl_cons]
    by_cases heq : k = destination
    · subst heq
      exact timeouts_restart_of order (timeoutAt_restart find retried)
    · refine ih nodup (mem_of_ne_of_mem heq hk) ?_
      rw [timeoutAt_find?, if_neg heq, find]

theorem handleWaitReplyTimeout_find? {order : List Ipv4Address}
    (perm : order.Perm s.m_arpCache.keys) (k : Ipv4Address) :
    (s.handleWaitReplyTimeout c order).m_arpCache.find? k =
    (s.m_arpCache.find? k).map (Entry.timeout c s.now) := by
  have hfind := timeouts_find? (c := c) order (perm.nodup_iff.mpr OrderedMap.nodup_keys)
    ({ s with m_waitReplyTimer := none }, false) k
  have hsame : (s.handleWaitReplyTimeout c order).m_arpCache =
      (order.foldl (State.timeoutAt c)
        ({ s with m_waitReplyTimer := none }, false)).1.m_arpCache := by
    unfold State.handleWaitReplyTimeout
    dsimp only
    split_ifs <;> rfl
  rw [hsame, hfind]
  split_ifs with hk
  · rfl
  · rw [perm.mem_iff, OrderedMap.mem_keys, Bool.not_eq_true, Option.isSome_eq_false_iff,
      Option.isNone_iff_eq_none] at hk
    rw [hk]
    rfl

theorem handleWaitReplyTimeout_invariant (h : Invariant c s) {order : List Ipv4Address}
    (perm : order.Perm s.m_arpCache.keys) : Invariant c (s.handleWaitReplyTimeout c order) := by
  have nodup : order.Nodup := perm.nodup_iff.mpr OrderedMap.nodup_keys
  have hnow : (s.handleWaitReplyTimeout c order).now = s.now := by
    unfold State.handleWaitReplyTimeout
    dsimp only
    split_ifs <;> exact (timeouts_same order _).1
  have htimer : ∀ due, (s.handleWaitReplyTimeout c order).m_waitReplyTimer = some due →
      due = s.now + c.m_waitReplyTimeout := by
    intro due
    unfold State.handleWaitReplyTimeout
    dsimp only
    split_ifs
    · rw [(timeouts_same order _).1]
      exact fun hdue => (Option.some.inj hdue).symm
    · rw [(timeouts_same order _).2]
      exact fun hdue => nomatch hdue
  refine ⟨fun k e' hk => ?_, fun due hdue => ?_, ?_⟩
  · rw [handleWaitReplyTimeout_find? perm, Option.map_eq_some_iff] at hk
    obtain ⟨e, hfind, rfl⟩ := hk
    have hok : EntryOk c s.now s.m_waitReplyTimer e := h.entries k e hfind
    rw [hnow]
    by_cases hw : e.m_state = .waitReply
    · by_cases hr : e.m_retries < c.m_maxRetries
      · have hmem : k ∈ order :=
          perm.mem_iff.mpr (OrderedMap.mem_keys.mpr (Option.isSome_of_mem hfind))
        have restart :=
          timeouts_restart (c := c) (r := ({ s with m_waitReplyTimer := none }, false)) nodup hmem
            hfind ⟨hw, hr⟩
        have hdue : (s.handleWaitReplyTimeout c order).m_waitReplyTimer =
            some (s.now + c.m_waitReplyTimeout) := by
          unfold State.handleWaitReplyTimeout
          dsimp only
          rw [if_pos restart, (timeouts_same order _).1]
        rw [Entry.timeout, if_pos hw, if_pos hr]
        refine .of_waiting le_rfl hw ?_ hdue le_rfl
        rw [UInt32.le_iff_toNat_le]
        exact (toNat_retries hr).trans_le (UInt32.lt_iff_toNat_lt.mp hr)
      · rw [Entry.timeout, if_pos hw, if_neg hr]
        exact .of_resting le_rfl (.inr rfl) rfl rfl
    · rw [Entry.timeout, if_neg hw]
      obtain ⟨hempty, hretries⟩ := hok.resting hw
      refine .of_resting hok.seen ?_ hempty hretries
      have hstate := hok.state
      cases heq : e.m_state with
      | alive => exact .inl rfl
      | dead => exact .inr rfl
      | waitReply => exact absurd heq hw
      | permanent =>
        rw [heq] at hstate
        exact hstate.elim
  · rw [htimer due hdue, hnow]
    exact ⟨Nat.le_add_right _ _, le_rfl⟩
  · have hbalanced :=
      timeouts_balanced (c := c) order (r := ({ s with m_waitReplyTimer := none }, false))
        h.balanced
    unfold State.handleWaitReplyTimeout
    dsimp only
    split_ifs <;> exact hbalanced

end Timer

/-! ## Runs -/

section Runs

variable {c : Config} {s t : State P} {a : Action P} {k : Ipv4Address} {e e' : Entry P}

theorem invariant_initial : Invariant c (.initial : State P) where
  entries := OrderedMap.all_empty
  timer due hdue := by cases hdue
  balanced := rfl

theorem step_spec (h : Invariant c s) (a : Action P) : Ensures (step c s a) (Invariant c)
    (fun err => err = .notDue) := by
  cases a with
  | lookup packet destination =>
    exact ((lookup_spec h).mono (fun r hr => hr.invariant h) fun _ => False.elim).bind
      fun r hr => hr
  | receive arp => exact receive_spec.mono (fun s' hs' => hs'.invariant h) fun _ => False.elim
  | wait delay =>
    refine Ensures.ite (fun hdue => ⟨fun k e hk => ?_, fun due htimer => ?_, h.balanced⟩) fun _ =>
      rfl
    · have hok : EntryOk c s.now s.m_waitReplyTimer e := h.entries k e hk
      exact ⟨hok.seen.trans (Nat.le_add_right _ _), hok.state⟩
    · exact ⟨hdue due htimer, (h.timer due htimer).2.trans (by change _ ≤ s.now + delay + _; omega)⟩
  | timeout order =>
    exact Ensures.ite (fun hdue => handleWaitReplyTimeout_invariant h hdue.2) fun _ => rfl

theorem step_lookup (h : Invariant c s) {packet : P} {destination : Ipv4Address}
    (run : step c s (.lookup packet destination) = .ok t) : ∃ hw, Looked c packet destination s
    (t, hw) := by
  have hspec : Ensures (s.lookup c packet destination) (Looked c packet destination s) fun _ =>
      False := lookup_spec h
  obtain ⟨r, hr, hlook⟩ := hspec.exists_ok
  simp only [step, hr] at run
  cases run
  exact ⟨r.2, hlook⟩

/-! ## Retries -/

def Action.isTimeout : Action P → Bool
  | .timeout _ => true
  | _ => false

def Waits (destination : Ipv4Address) (s : State P) : Prop :=
  ∃ e, s.m_arpCache.find? destination = some e ∧ e.m_state = .waitReply

theorem Looked.retries {packet : P} {destination : Ipv4Address} {r : State P × Option Address}
    (look : Looked c packet destination s r) (find : s.m_arpCache.find? k = some e)
    (hw : e.m_state = .waitReply)
    (find' : r.1.m_arpCache.find? k = some e') : e'.m_retries = e.m_retries := by
  cases look with
  | answered | dropped =>
    rw [find] at find'
    rw [Option.some.inj find']
  | queued hfind _ =>
    rw [OrderedMap.find?_set] at find'
    split_ifs at find' with hk
    · rw [← hk, find] at hfind
      rw [← Option.some.inj find', ← Option.some.inj hfind]
    · rw [find] at find'
      rw [Option.some.inj find']
  | resolved hfind resting _ _ =>
    rw [OrderedMap.find?_set] at find'
    split_ifs at find' with hk
    · rw [← hk, find] at hfind
      rcases hfind with hfind | ⟨hnone, -⟩
      · rw [Option.some.inj hfind] at hw
        rw [hw] at resting
        simp at resting
      · cases hnone
    · rw [find] at find'
      rw [Option.some.inj find']

theorem Answered.retries {arp : State.ArpHeader} (answered : Answered c arp s t)
    (find : s.m_arpCache.find? k = some e) (find' : t.m_arpCache.find? k = some e')
    (hw' : e'.m_state = .waitReply) : e'.m_retries = e.m_retries := by
  cases answered with
  | noticed | ignored =>
    have hsame : some e = some e' := find.symm.trans find'
    rw [Option.some.inj hsame]
  | resolved =>
    rw [OrderedMap.find?_set] at find'
    split_ifs at find' with hk
    · rw [← Option.some.inj find'] at hw'
      cases hw'
    · rw [find] at find'
      rw [Option.some.inj find']

theorem step_retries (h : Invariant c s) (run : step c s a = .ok t)
    (find : s.m_arpCache.find? k = some e)
    (hw : e.m_state = .waitReply) (find' : t.m_arpCache.find? k = some e')
    (hw' : e'.m_state = .waitReply) :
    e'.m_retries.toNat = e.m_retries.toNat + if a.isTimeout then 1 else 0 := by
  cases a with
  | lookup packet destination =>
    obtain ⟨hardware, hlook⟩ := step_lookup h run
    rw [hlook.retries find hw find']
    rfl
  | receive arp =>
    have hanswered : Answered c arp s t := receive_spec.of_ok run
    rw [hanswered.retries find find' hw']
    rfl
  | wait delay =>
    simp only [step] at run
    split_ifs at run
    cases run
    rw [find] at find'
    rw [Option.some.inj find']
    rfl
  | timeout order =>
    simp only [step] at run
    split_ifs at run with hdue
    cases run
    rw [handleWaitReplyTimeout_find? hdue.2, find, Option.map_some, Option.some_inj] at find'
    subst find'
    rw [Entry.timeout, if_pos hw] at hw' ⊢
    by_cases hr : e.m_retries < c.m_maxRetries
    · rw [if_pos hr]
      exact toNat_retries hr
    · rw [if_neg hr] at hw'
      cases hw'

theorem timeouts_le (h : Invariant c s) (find : s.m_arpCache.find? k = some e)
    (hw : e.m_state = .waitReply) {as : List (Action P)} (run : exec (step c) s as = .ok t)
    (waits : Along (step c) (fun s _ => Waits k s) s as) :
    (as.filter Action.isTimeout).length + e.m_retries.toNat ≤ c.m_maxRetries.toNat + 1 := by
  induction as generalizing s e with
  | nil =>
    have hr := UInt32.le_iff_toNat_le.mp ((h.entries k e find).waiting hw).1
    rw [filter_nil, length_nil]
    omega
  | cons a as ih =>
    obtain ⟨u, hu, hrest⟩ := exec_cons_inv run
    have along : Along (step c) (fun s _ => Waits k s) u as := waits.2 u hu
    have hkeep : Invariant c u := (step_spec h a).of_ok hu
    rw [filter_cons]
    cases as with
    | nil =>
      have hr := UInt32.le_iff_toNat_le.mp ((h.entries k e find).waiting hw).1
      split_ifs <;> simp only [filter_nil, length_cons, length_nil] <;> omega
    | cons b as =>
      obtain ⟨e', find', hw'⟩ := along.1
      have hretries := step_retries h hu find hw find' hw'
      have hcount := ih hkeep find' hw' hrest along
      by_cases ha : a.isTimeout = true
      · rw [if_pos ha] at hretries ⊢
        rw [length_cons]
        omega
      · rw [if_neg ha] at hretries ⊢
        omega

/-! ## Fates -/

def Justified (a : Action P) (c : Config) (t : State P) : Event P → Prop
  | .answered _ destination hardwareDestination =>
    ∃ e, t.m_arpCache.find? destination = some e ∧ e.m_state = .alive ∧
      e.isExpired c t.now = false ∧ e.m_macAddress = hardwareDestination
  | .sent _ destination => ∃ arp, a = .receive arp ∧ ¬ arp.isRequest ∧ arp.source = destination
  | .passed packet destination =>
    a = .lookup packet destination ∨ ∃ arp, a = .receive arp ∧ arp.source = destination
  | _ => True

def Reports (c : Config) (s : State P) (a : Action P) : Prop :=
  ∀ t, step c s a = .ok t → ∃ new, t.log = s.log ++ new ∧ (∀ ev ∈ new, Justified a c t ev) ∧
    ∀ packet destination, a = .lookup packet destination → .passed packet destination ∈ new

/-- A reply for an entry that waits makes it alive and sends what is pending on it. -/
def Resolves (c : Config) (s : State P) (a : Action P) : Prop :=
  ∀ arp e, a = .receive arp → ForThisNode c arp → s.m_arpCache.find? arp.source = some e →
    e.m_state = .waitReply →
    Ensures (step c s a) (fun t =>
      (∃ e', t.m_arpCache.find? arp.source = some e' ∧ e'.m_state = .alive ∧
        e'.m_macAddress = arp.sourceHardware ∧ e'.m_pending = []) ∧
      ∃ new, t.log = s.log ++ new ∧ tally Event.sentTo new = waitingAt arp.source e.m_pending)
      fun _ => False

theorem step_resolves (s : State P) (a : Action P) : Resolves c s a := by
  rintro arp e rfl forThis find waiting
  rw [step, receive_reply forThis, receiveReply_eq find waiting]
  exact ⟨⟨_, OrderedMap.find?_set_self, rfl, rfl, rfl⟩, _, rfl, sentEvents_sent _ _⟩

theorem timeouts_report (order : List Ipv4Address) (r : State.Timeout P) :
    ∃ new, (order.foldl (State.timeoutAt c) r).1.log = r.1.log ++ new ∧
      ∀ ev ∈ new, ∀ a t, Justified a c t ev := by
  refine foldlRecOn (motive := fun r' : State.Timeout P =>
    ∃ new, r'.1.log = r.1.log ++ new ∧ ∀ ev ∈ new, ∀ a t, Justified a c t ev) _ _ ⟨[], by simp⟩
    fun r' h destination _ => ?_
  obtain ⟨new, hlog, hnew⟩ := h
  unfold State.timeoutAt
  cases r'.1.m_arpCache.find? destination with
  | none => exact ⟨new, hlog, hnew⟩
  | some e =>
    have request : ∀ a t, Justified a c t (.request e.m_ipv4Address : Event P) := fun _ _ => trivial
    simp only []
    split_ifs
    · refine ⟨new ++ [.request e.m_ipv4Address], ?_, forall_mem_append.mpr
        ⟨hnew, forall_mem_singleton.mpr request⟩⟩
      rw [← append_assoc, ← hlog]
      rfl
    · refine ⟨new ++ _, by
        rw [← append_assoc, ← hlog], forall_mem_append.mpr ⟨hnew, fun ev hev => ?_⟩⟩
      obtain ⟨packet, -, rfl⟩ := mem_map.mp hev
      exact fun _ _ => trivial
    · exact ⟨new, hlog, hnew⟩

theorem step_reports (h : Invariant c s) (a : Action P) : Reports c s a := by
  intro t run
  cases a with
  | lookup packet destination =>
    obtain ⟨hardware, hlook⟩ := step_lookup h run
    cases hlook with
    | answered find alive fresh =>
      refine ⟨_, rfl,
        forall_mem_cons.mpr ⟨.inl rfl, forall_mem_singleton.mpr ⟨_, find, alive, fresh, rfl⟩⟩, ?_⟩
      rintro _ _ ⟨⟩
      exact mem_cons_self
    | dropped | resolved =>
      refine ⟨_, rfl, forall_mem_cons.mpr ⟨.inl rfl, forall_mem_singleton.mpr trivial⟩, ?_⟩
      rintro _ _ ⟨⟩
      exact mem_cons_self
    | queued =>
      refine ⟨_, rfl, forall_mem_singleton.mpr (.inl rfl), ?_⟩
      rintro _ _ ⟨⟩
      exact mem_cons_self
  | receive arp =>
    have hanswered : Answered c arp s t := receive_spec.of_ok run
    cases hanswered with
    | noticed kind =>
      refine ⟨_, rfl, forall_mem_singleton.mpr ?_, fun _ _ heq => nomatch heq⟩
      rcases kind with rfl | ⟨_, _, _, rfl⟩ <;> trivial
    | ignored => exact ⟨[], (append_nil _).symm, by simp, fun _ _ heq => nomatch heq⟩
    | @resolved e isReply find waiting =>
      refine ⟨_, rfl, fun ev hev => ?_, fun _ _ heq => nomatch heq⟩
      obtain ⟨packet, -, hev⟩ := mem_flatMap.mp hev
      have sent : Justified (.receive arp) c
          { s with
            m_arpCache := s.m_arpCache.set arp.source
              { e with
                m_macAddress := arp.sourceHardware, m_state := .alive, m_retries := 0
                m_lastSeen := s.now, m_pending := [] }
            log := s.log ++ e.m_pending.flatMap (sentEvents c arp.source arp.sourceHardware) }
          (.sent packet arp.source) := ⟨arp, rfl, isReply, rfl⟩
      rw [sentEvents] at hev
      split_ifs at hev
      · simp only [mem_cons, not_mem_nil, or_false] at hev
        rcases hev with rfl | rfl | rfl
        · exact sent
        · exact .inr ⟨arp, rfl, rfl⟩
        · refine ⟨_, OrderedMap.find?_set_self, rfl, ?_, rfl⟩
          exact decide_eq_false (by change ¬ c.m_aliveTimeout < s.now - s.now; omega)
      · rw [mem_singleton.mp hev]
        exact sent
  | wait delay =>
    simp only [step] at run
    split_ifs at run
    cases run
    exact ⟨[], (append_nil _).symm, by simp, fun _ _ heq => nomatch heq⟩
  | timeout order =>
    simp only [step] at run
    split_ifs at run
    cases run
    obtain ⟨new, hlog, hnew⟩ :=
      timeouts_report (c := c) order ({ s with m_waitReplyTimer := none }, false)
    refine ⟨new, ?_, fun ev hev => hnew ev hev _ _, fun _ _ heq => nomatch heq⟩
    unfold State.handleWaitReplyTimeout
    dsimp only
    split_ifs <;> exact hlog

end Runs

/-- In every state of a run each packet has one fate, and those that have none yet wait on an entry
that waits for a reply; such an entry is as old as the timer allows; and it will not wait for
long. -/
structure Resolving (s : State P) : Prop where
  balanced : Balanced s.log s.m_arpCache
  onWaiting : ∀ k e, s.m_arpCache.find? k = some e → e.m_pending ≠ [] → e.m_state = .waitReply
  timer : ∀ k e, s.m_arpCache.find? k = some e → e.m_state = .waitReply →
    s.m_waitReplyTimer.isSome ∧ e.m_lastSeen ≤ s.now ∧ s.now - e.m_lastSeen ≤ c.m_waitReplyTimeout
  givesUp : ∀ k as t, exec (step c) s as = .ok t → Along (step c) (fun s _ => Waits k s) s as →
    (as.filter Action.isTimeout).length ≤ c.m_maxRetries.toNat + 1

theorem Invariant.resolving {c : Config} {s : State P} (h : Invariant c s) : Resolving c s where
  balanced := h.balanced
  onWaiting k e hk hne := by
    by_contra hw
    exact hne ((h.entries k e hk).resting hw).1
  timer k e hk hw := by
    have hok : EntryOk c s.now s.m_waitReplyTimer e := h.entries k e hk
    obtain ⟨-, due, hdue, hle⟩ := hok.waiting hw
    have hnow := (h.timer due hdue).1
    exact ⟨by rw [hdue]; rfl, hok.seen, by omega⟩
  givesUp k as t run waits := by
    cases as with
    | nil => exact Nat.zero_le _
    | cons a as =>
      obtain ⟨e, find, hw⟩ := waits.1
      have hcount := timeouts_le h find hw run waits
      omega

/-- Every run goes on, and no check of the code fails in it. -/
theorem arp_resolves (c : Config) (as : List (Action P)) :
    Ensures (exec (step c) .initial as) (Resolving c) (fun err => err = .notDue) ∧
      Along (step c) (fun s a => Reports c s a ∧ Resolves c s a) .initial as := by
  have keep : ∀ (s : State P) a s', Invariant c s → True → step c s a = .ok s' → Invariant c s' :=
    fun s a _ h _ hs' =>
    (step_spec h a).of_ok hs'
  have always : Along (step c) (fun _ _ => True) (.initial : State P) as :=
    along_of_forall (fun _ _ => trivial) _ as
  refine ⟨ensures_iff.mpr ⟨fun t ht => ?_, fun err herr => ?_⟩, ?_⟩
  · exact (exec_invariant keep invariant_initial always ht).resolving
  · by_contra hne
    refine exec_ne_error keep (fun s a h _ hs => hne ?_) invariant_initial always herr
    exact (step_spec h a).of_error hs
  · exact (Along.with_invariant keep invariant_initial always).mono fun s a h =>
      ⟨step_reports h.1 a, step_resolves s a⟩

def oneAddress : Config := ⟨120, 100, 1, 3, 3, [1], [7], fun _ => true⟩

/-- Two packets wait for a reply, which sends them, and a third one is answered at once. -/
def replied : List (Action ℕ) :=
  [.lookup 10 2, .lookup 11 2, .receive ⟨false, 2, [9], 1, [7]⟩, .lookup 12 2]

theorem arp_resolves_replied : Ensures (exec (step oneAddress) .initial replied)
    (fun s => Resolving oneAddress s ∧ s.log.filterMap Event.sentTo = [(10, 2), (11, 2)])
    (fun _ => False) ∧
      Along (step oneAddress)
      (fun s a => Reports oneAddress s a ∧ Resolves oneAddress s a) .initial replied := by
  have hrun : Ensures (exec (step oneAddress) .initial replied)
      (fun s => s.log.filterMap Event.sentTo = [(10, 2), (11, 2)]) (fun _ => False) := by
    decide +kernel
  obtain ⟨s, run, hsent⟩ := hrun.exists_ok
  obtain ⟨hresolving, halong⟩ := arp_resolves oneAddress replied
  rw [run] at hresolving ⊢
  exact ⟨⟨hresolving, hsent⟩, halong⟩

end Egsr.Internet.Arp
