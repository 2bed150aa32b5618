import Egsr.Grp.Handlers

/-! The expiry of neighbours. A neighbour is kept for the time its message
announces and checked once, a HELLO interval after the message; so the check
comes too early just if the announced time is rounded up. -/

namespace Egsr.Grp.NeighborExpiry

open Grp.Road Grp.Header Grp.State Grp.Emf Grp.Control List Option
open Grp.Handlers Grp.DataPlane Lib.Outcome Lib.Run Network.ByteIterator

section Check

variable (v : Vehicle) {addr b : Ipv4Address}

theorem compare_ne (ne : b ≠ addr) : compare addr b ≠ .eq :=
  fun h => ne (Std.LawfulEqOrd.eq_of_compare h).symm

theorem neiTableCheckExpire_eq : neiTableCheckExpire v addr =
    { v with neiTable := (neiTableCheckExpire v addr).neiTable } := by
  unfold neiTableCheckExpire
  dsimp only
  split <;> rfl

@[simp] theorem neiTableCheckExpire_now : (neiTableCheckExpire v addr).now = v.now := by
  rw [neiTableCheckExpire_eq]

@[simp] theorem neiTableCheckExpire_helloInterval :
    (neiTableCheckExpire v addr).helloInterval = v.helloInterval := by
  rw [neiTableCheckExpire_eq]

@[simp] theorem neiTableCheckExpire_neiTableChecks :
    (neiTableCheckExpire v addr).neiTableChecks = v.neiTableChecks := by
  rw [neiTableCheckExpire_eq]

theorem neiTableCheckExpire_of_ne (ne : b ≠ addr) :
    (neiTableCheckExpire v addr).neiTable[b]? = v.neiTable[b]? := by
  have hkept : (v.neiTable.insertIfNew addr emptyEntry)[b]? = v.neiTable[b]? := by
    rw [Std.TreeMap.getElem?_insertIfNew, if_neg fun h => compare_ne ne h.1]
  unfold neiTableCheckExpire
  dsimp only
  split
  · rw [Std.TreeMap.getElem?_erase, if_neg (compare_ne ne), hkept]
  · exact hkept

theorem neiTableCheckExpire_self (started : 0 ≤ v.now) :
    (neiTableCheckExpire v addr).neiTable[addr]? =
      (v.neiTable[addr]?).filter fun entry => v.now < entry.nTime := by
  have hread : v.neiTable.getD addr emptyEntry = (v.neiTable[addr]?).getD emptyEntry :=
    Std.TreeMap.getD_eq_getD_getElem?
  unfold neiTableCheckExpire
  rw [hread]
  cases hentry : v.neiTable[addr]? with
  | none =>
    have hpast : emptyEntry.nTime ≤ v.now := started
    simp only [getD_none, if_pos hpast, Std.TreeMap.getElem?_erase_self, filter_none]
  | some entry =>
    have hmem : addr ∈ v.neiTable := by
      rw [Std.TreeMap.mem_iff_isSome_getElem?, hentry]
      rfl
    have hkept : (v.neiTable.insertIfNew addr emptyEntry)[addr]? = some entry := by
      rw [Std.TreeMap.getElem?_insertIfNew, if_neg fun h => h.2 hmem, hentry]
    by_cases hpast : entry.nTime ≤ v.now
    · simp only [getD_some, if_pos hpast, Std.TreeMap.getElem?_erase_self]
      rw [filter_some, if_neg (by simpa using hpast)]
    · simp only [getD_some, if_neg hpast, hkept]
      rw [filter_some, if_pos (by simpa using hpast)]

end Check

/-! ## Steps -/

inductive ExpiryAction where
  | elapse (t : Time)
  /-- Anything else that happens at the node. -/
  | observe (n : Node)
  | receive (msg : MessageHeader Time) (receiverIfaceAddr : Ipv4Address) (rand : ℕ) (jitter : Time)
  /-- Pending check `k`. -/
  | neiTableCheckExpire (k : ℕ)

def takeCheck (v : Vehicle) (k : ℕ) : Vehicle :=
  { v with neiTableChecks := v.neiTableChecks.eraseIdx k }

section Steps

variable [Platform]

def expiryStep (n : Node) : ExpiryAction → Except Fault Node
  | .elapse t => pure { n with now := t }
  | .observe n' => pure { n' with
      neiTable := n.neiTable
      neiTableChecks := n.neiTableChecks
      helloInterval := n.helloInterval
      now := n.now }
  | .receive msg receiverIfaceAddr rand jitter => recvMessage n msg receiverIfaceAddr rand jitter
  | .neiTableCheckExpire k =>
    match n.neiTableChecks[k]? with
    | some check =>
      pure { n with toVehicle := neiTableCheckExpire (takeCheck n.toVehicle k) check.2 }
    | none => pure n

end Steps

variable (h : Time)

/-- Checks are made at their time, and the senders announce the interval `h`. -/
def Timely (n : Node) : ExpiryAction → Prop
  | .elapse t => n.now ≤ t ∧ ∀ check ∈ n.neiTableChecks, t ≤ check.1
  | .observe _ => True
  | .receive msg _ _ _ => secondsToEmf h = .ok msg.vTime
  | .neiTableCheckExpire k => ∀ check ∈ n.neiTableChecks[k]?, check.1 = n.now

instance (h : Time) (n : Node) (act : ExpiryAction) : Decidable (Timely h n act) :=
  match act with
  | .elapse _ | .observe _ | .receive .. | .neiTableCheckExpire _ =>
    by unfold Timely; infer_instance

structure Alone (n : Node) : Prop where
  interval : n.helloInterval = h
  started : 0 ≤ n.now
  neiTable : n.neiTable = ∅
  checks : n.neiTableChecks = []

def Silent [Platform] (addr : Ipv4Address) (n : Node) : ExpiryAction → Prop
  | .receive msg receiverIfaceAddr rand jitter => msg.originatorAddress = addr →
    ∀ n', recvMessage n msg receiverIfaceAddr rand jitter = .ok n' → n'.toVehicle = n.toVehicle
  | _ => True

/-- Every neighbour has a check pending that is not before its time; if nothing
more is accepted from it, it is gone after that check. -/
def Expires [Platform] (h : Time) (n : Node) : Prop :=
  ∀ addr entry, n.neiTable[addr]? = some entry →
    ∃ t, (t, addr) ∈ n.neiTableChecks ∧ entry.nTime ≤ t ∧
      ∀ acts n', Along expiryStep (fun n act => Timely h n act ∧ Silent addr n act) n acts →
        exec expiryStep n acts = .ok n' → t < n'.now → n'.neiTable[addr]? = none

def AlwaysExpires [Platform] (h : Time) : Prop :=
  ∀ start n, Alone h start → ∀ acts, Along expiryStep (Timely h) start acts →
    exec expiryStep start acts = .ok n → Expires h n

inductive Effect (n : Node) (act : ExpiryAction) (n' : Node) : Prop where
  | quiet (neiTable : n'.neiTable = n.neiTable) (checks : n'.neiTableChecks = n.neiTableChecks)
      (later : n.now ≤ n'.now)
      (ahead : n'.now = n.now ∨ ∀ check ∈ n.neiTableChecks, n'.now ≤ check.1)
  | accepted (msg : MessageHeader Time) (receiverIfaceAddr : Ipv4Address) (rand : ℕ)
      (jitter : Time) (received : act = .receive msg receiverIfaceAddr rand jitter)
      (code : secondsToEmf h = .ok msg.vTime)
      (heard : Heard n.toVehicle msg receiverIfaceAddr n'.toVehicle)
  | checked (k : ℕ) (check : Time × Ipv4Address) (pending : n.neiTableChecks[k]? = some check)
      (due : check.1 = n.now) (clock : n'.now = n.now)
      (checks : n'.neiTableChecks = n.neiTableChecks.eraseIdx k)
      (others : ∀ b, b ≠ check.2 → n'.neiTable[b]? = n.neiTable[b]?)
      (kept : n'.neiTable[check.2]? =
        (n.neiTable[check.2]?).filter fun entry => n.now < entry.nTime)

section Runs

variable [Platform] {h : Time} {n n' : Node} {act : ExpiryAction}

theorem expiryStep_effect (started : 0 ≤ n.now) (timely : Timely h n act) :
    Ensures (expiryStep n act)
      (fun n' => n'.helloInterval = n.helloInterval ∧ Effect h n act n') (fun _ => True) := by
  cases act with
  | elapse t => exact ⟨rfl, .quiet rfl rfl timely.1 (.inr timely.2)⟩
  | observe n' => exact ⟨rfl, .quiet rfl rfl le_rfl (.inl rfl)⟩
  | receive msg receiverIfaceAddr rand jitter =>
    refine (recvMessage_spec n msg receiverIfaceAddr rand jitter).mono (fun n' hn => ?_)
      fun _ _ => trivial
    cases hn with
    | inl same => exact ⟨by rw [same], .quiet (by rw [same]) (by rw [same]) (by rw [same])
        (.inl (by rw [same]))⟩
    | inr heard => exact ⟨by rw [heard.frame], .accepted _ _ _ _ rfl timely heard⟩
  | neiTableCheckExpire k =>
    simp only [expiryStep]
    cases hcheck : n.neiTableChecks[k]? with
    | none => exact ⟨rfl, .quiet rfl rfl le_rfl (.inl rfl)⟩
    | some check =>
      refine ⟨?_, .checked k check hcheck (timely check hcheck) ?_ ?_ (fun b hb => ?_) ?_⟩
      · exact neiTableCheckExpire_helloInterval (takeCheck n.toVehicle k)
      · exact neiTableCheckExpire_now (takeCheck n.toVehicle k)
      · exact neiTableCheckExpire_neiTableChecks (takeCheck n.toVehicle k)
      · exact neiTableCheckExpire_of_ne (takeCheck n.toVehicle k) hb
      · exact neiTableCheckExpire_self (takeCheck n.toVehicle k) started

end Runs

/-! ## The checks that are pending -/

section Pending

variable {h : Time} {n n' : Node} {act : ExpiryAction}

structure Punctual (h : Time) (n : Node) : Prop where
  interval : n.helloInterval = h
  started : 0 ≤ n.now
  ahead : ∀ check ∈ n.neiTableChecks, n.now ≤ check.1

theorem Punctual.of_effect (punctual : Punctual h n) (nonneg : 0 ≤ h)
    (interval : n'.helloInterval = n.helloInterval) (effect : Effect h n act n') :
    Punctual h n' := by
  have hinterval : n'.helloInterval = h := interval.trans punctual.interval
  cases effect with
  | quiet neiTable checks later ahead =>
    refine ⟨hinterval, punctual.started.trans later, fun check hcheck => ?_⟩
    rw [checks] at hcheck
    cases ahead with
    | inl same => exact same ▸ punctual.ahead check hcheck
    | inr ahead => exact ahead check hcheck
  | accepted msg receiverIfaceAddr rand jitter received code heard =>
    have hnow : n'.now = n.now := by rw [heard.frame]
    refine ⟨hinterval, hnow ▸ punctual.started, fun check hcheck => ?_⟩
    rw [heard.checks] at hcheck
    rw [hnow]
    cases mem_append.mp hcheck with
    | inl hold => exact punctual.ahead check hold
    | inr hnew =>
      rw [mem_singleton.mp hnew, punctual.interval]
      exact le_add_of_nonneg_right nonneg
  | checked k check pending due clock checks others kept =>
    refine ⟨hinterval, clock ▸ punctual.started, fun check' hcheck' => ?_⟩
    rw [checks] at hcheck'
    rw [clock]
    exact punctual.ahead check' (mem_of_mem_eraseIdx hcheck')

theorem mem_eraseIdx_of_ne {α : Type} {x y : α} {xs : List α} {k : ℕ} (mem : x ∈ xs)
    (erased : xs[k]? = some y) (ne : x ≠ y) : x ∈ xs.eraseIdx k := by
  obtain ⟨i, hi⟩ := List.getElem?_of_mem mem
  refine mem_eraseIdx_iff_getElem?.mpr ⟨i, fun heq => ne ?_, hi⟩
  rw [heq, erased] at hi
  exact (Option.some.inj hi).symm

def Watched (n : Node) : Prop :=
  ∀ addr entry, n.neiTable[addr]? = some entry →
    ∃ t, (t, addr) ∈ n.neiTableChecks ∧ entry.nTime ≤ t

theorem Watched.of_effect (watched : Watched n) (punctual : Punctual h n)
    (rounded : ∀ v, secondsToEmf h = .ok v → emfToSeconds v ≤ h)
    (effect : Effect h n act n') : Watched n' := by
  intro addr entry hentry
  cases effect with
  | quiet neiTable checks later ahead =>
    rw [neiTable] at hentry
    rw [checks]
    exact watched addr entry hentry
  | accepted msg receiverIfaceAddr rand jitter received code heard =>
    rw [heard.neiTable, Std.TreeMap.getElem?_insert] at hentry
    rw [heard.checks, punctual.interval]
    by_cases hsender : compare msg.originatorAddress addr = .eq
    · rw [if_pos hsender] at hentry
      refine ⟨n.now + h, ?_, ?_⟩
      · rw [Std.LawfulEqOrd.eq_of_compare hsender]
        exact mem_append_right _ (mem_singleton_self _)
      · rw [← Option.some.inj hentry]
        exact add_le_add_right (rounded _ code) _
    · rw [if_neg hsender] at hentry
      obtain ⟨t, ht, hle⟩ := watched addr entry hentry
      exact ⟨t, mem_append_left _ ht, hle⟩
  | checked k check pending due clock checks others kept =>
    rw [checks]
    by_cases haddr : addr = check.2
    · rw [haddr, kept, filter_eq_some_iff] at hentry
      obtain ⟨hold, hfuture⟩ := hentry
      obtain ⟨t, ht, hle⟩ := watched check.2 entry hold
      -- an entry that stays is for later than the check made now
      have hlater : check.1 < t := due ▸ (of_decide_eq_true hfuture).trans_le hle
      refine ⟨t, haddr ▸ mem_eraseIdx_of_ne ht pending fun heq => ?_, hle⟩
      rw [← heq] at hlater
      exact lt_irrefl t hlater
    · rw [others addr haddr] at hentry
      obtain ⟨t, ht, hle⟩ := watched addr entry hentry
      exact ⟨t, mem_eraseIdx_of_ne ht pending fun heq => haddr (heq ▸ rfl), hle⟩

/-- The neighbour is gone, or as it was with the check at `t` still to come. -/
def Doomed (t : Time) (addr : Ipv4Address) (entry : NeighborTableEntry) (n : Node) : Prop :=
  n.neiTable[addr]? = none ∨ n.neiTable[addr]? = some entry ∧ (t, addr) ∈ n.neiTableChecks

theorem Doomed.of_effect [Platform] {t : Time} {addr : Ipv4Address} {entry : NeighborTableEntry}
    (doomed : Doomed t addr entry n) (past : entry.nTime ≤ t)
    (silent : Silent addr n act) (step : expiryStep n act = .ok n')
    (effect : Effect h n act n') : Doomed t addr entry n' := by
  cases effect with
  | quiet neiTable checks later ahead =>
    rw [Doomed, neiTable, checks]
    exact doomed
  | accepted msg receiverIfaceAddr rand jitter received code heard =>
    have hsender : addr ≠ msg.originatorAddress := by
      intro heq
      subst received
      have hsame := congrArg Vehicle.neiTableChecks (silent heq.symm n' step)
      rw [heard.checks] at hsame
      simp at hsame
    rw [Doomed, heard.neiTable, heard.checks, Std.TreeMap.getElem?_insert,
      if_neg (compare_ne hsender)]
    exact doomed.imp id fun h => ⟨h.1, mem_append_left _ h.2⟩
  | checked k check pending due clock checks others kept =>
    rw [Doomed, checks]
    by_cases haddr : addr = check.2
    · rw [← haddr] at kept
      rw [kept]
      cases doomed with
      | inl gone => exact .inl (by simp [gone])
      | inr stays =>
        by_cases htime : n.now < entry.nTime
        · refine .inr ⟨by simp [stays.1, htime], mem_eraseIdx_of_ne stays.2 pending fun heq => ?_⟩
          rw [← due, ← heq] at htime
          exact absurd past (not_le.mpr htime)
        · exact .inl (by simpa [stays.1] using htime)
    · rw [others addr haddr]
      exact doomed.imp id fun h =>
        ⟨h.1, mem_eraseIdx_of_ne h.2 pending fun heq => haddr (heq ▸ rfl)⟩

end Pending

section Runs

variable {h : Time} {n : Node}

theorem Alone.punctual (alone : Alone h n) : Punctual h n where
  interval := alone.interval
  started := alone.started
  ahead check hcheck := by
    rw [alone.checks] at hcheck
    cases hcheck

theorem Alone.watched (alone : Alone h n) : Watched n := by
  intro addr entry hentry
  rw [alone.neiTable] at hentry
  simp at hentry

variable [Platform]

theorem Watched.expires (watched : Watched n) (punctual : Punctual h n) (nonneg : 0 ≤ h) :
    Expires h n := by
  intro addr entry hentry
  obtain ⟨t, ht, hpast⟩ := watched addr entry hentry
  refine ⟨t, ht, hpast, fun acts n' along run late => ?_⟩
  have keep : ∀ s act s', Punctual h s ∧ Doomed t addr entry s →
      Timely h s act ∧ Silent addr s act → expiryStep s act = .ok s' →
      Punctual h s' ∧ Doomed t addr entry s' := by
    intro s act s' hs guard hstep
    have heffect := (expiryStep_effect hs.1.started guard.1).of_ok hstep
    exact ⟨hs.1.of_effect nonneg heffect.1 heffect.2, hs.2.of_effect hpast guard.2 hstep heffect.2⟩
  have hend := exec_invariant keep ⟨punctual, .inr ⟨hentry, ht⟩⟩ along run
  cases hend.2 with
  | inl gone => exact gone
  | inr pending => exact absurd (hend.1.ahead _ pending.2) (not_le.mpr late)

theorem alwaysExpires_of_rounded (nonneg : 0 ≤ h)
    (rounded : ∀ v, secondsToEmf h = .ok v → emfToSeconds v ≤ h) : AlwaysExpires h := by
  intro start n alone acts along run
  have keep : ∀ s act s', Punctual h s ∧ Watched s → Timely h s act →
      expiryStep s act = .ok s' → Punctual h s' ∧ Watched s' := by
    intro s act s' hs timely hstep
    have heffect := (expiryStep_effect hs.1.started timely).of_ok hstep
    exact ⟨hs.1.of_effect nonneg heffect.1 heffect.2, hs.2.of_effect hs.1 rounded heffect.2⟩
  have hend := exec_invariant keep ⟨alone.punctual, alone.watched⟩ along run
  exact hend.2.expires hend.1 nonneg

end Runs

/-! ## One message -/

def listening : Node := emptyNode { approaching with helloInterval := h }

def announcement (vTime : UInt8) : MessageHeader Time :=
  { approaching.staleMessage with
    vTime
    originatorAddress := 0x0a010002
    timeToLive := 1
    messageSequenceNumber := 1 }

theorem listening_alone : Alone h (listening h) := ⟨rfl, le_rfl, rfl, rfl⟩

theorem listening_hears [Platform] (vTime : UInt8) :
    recvMessage (listening h) (announcement vTime) 0 0 0 = .ok { listening h with
      toVehicle := scheduleCheck (updateNeighbor (listening h).toVehicle (announcement vTime) 0)
        0x0a010002 } := by
  have hnearest : Ensures (getNearestJID approaching) (fun _ => True) (fun _ => False) := by
    decide +kernel
  obtain ⟨cjid, hcjid, -⟩ := hnearest.exists_ok
  have hsame : getNearestJID (listening h).toVehicle = .ok cjid := hcjid
  have hdirection : (announcement vTime).hello.getDirection.toBitVec.toInt = 0 := rfl
  have hcrossing : fromCrossingRoad (listening h).toVehicle (announcement vTime) cjid =
      .ok false := by
    unfold fromCrossingRoad
    exact if_neg fun crossing => crossing.1 hdirection
  have hnew : ¬ outdated (listening h).toVehicle (announcement vTime) := by
    intro hold
    obtain ⟨entry, hentry, -⟩ := hold
    have hnone : (∅ : NeighborTable)[(announcement vTime).originatorAddress]? = none :=
      Std.TreeMap.getElem?_emptyc
    rw [show (listening h).neiTable = ∅ from rfl, hnone] at hentry
    cases hentry
  have haddressed : ¬ ((announcement vTime).timeToLive = 0 ∨
      (announcement vTime).originatorAddress = (listening h).mainAddress) := by
    simp [announcement, listening, emptyNode, approaching]
  rw [recvMessage, if_neg haddressed]
  simp only [show (announcement vTime).messageType = .hello from rfl, processHello, hsame,
    bind, Except.bind, hcrossing]
  rw [if_neg (by decide), if_neg hnew]
  rfl

theorem rounded_of_alwaysExpires [Platform] {h : Time} {v : UInt8} (code : secondsToEmf h = .ok v)
    (always : AlwaysExpires h) : emfToSeconds v ≤ h := by
  have hear : expiryStep (listening h) (.receive (announcement v) 0 0 0) = .ok _ :=
    listening_hears h v
  have along : Along expiryStep (Timely h) (listening h) [.receive (announcement v) 0 0 0] :=
    ⟨code, fun _ _ => trivial⟩
  have hexpires := always _ _ (listening_alone h) _ along (exec_cons_ok hear [])
  obtain ⟨t, ht, hle, -⟩ := hexpires 0x0a010002 (neighborEntry (listening h).toVehicle
    (announcement v) 0) Std.TreeMap.getElem?_insert_self
  have htime : t = 0 + h := congrArg Prod.fst (mem_singleton.mp ht)
  have hentry : 0 + emfToSeconds v ≤ t := hle
  linarith

/-- Neighbours always expire just if coding the interval does not make it longer. -/
theorem expires_iff [Platform] {h : Time} (accepted : Accepted h) :
    AlwaysExpires h ↔ RoundsDown h := by
  have hnonneg : 0 ≤ h := le_trans (by norm_num [grpC]) accepted.least
  obtain ⟨v, hv, -⟩ := accepted.secondsToEmf_eq
  constructor
  · intro always
    exact (accepted.emfToSeconds_le_iff hv).mp (rounded_of_alwaysExpires hv always)
  · intro rounds
    exact alwaysExpires_of_rounded hnonneg fun w hw => (accepted.emfToSeconds_le_iff hw).mpr rounds

theorem expires_iff_second : @AlwaysExpires integralPlatform 1 :=
  (@expires_iff integralPlatform 1 ⟨by decide +kernel, by decide +kernel⟩).mpr (by decide +kernel)

/-- The check is made after 1.06 s, and the validity of 1.0625 s is not over. -/
def outlived : List ExpiryAction :=
  [.receive (announcement 0x14) 0 0 0, .elapse (53 / 50), .neiTableCheckExpire 0, .elapse 1000]

theorem outlived_stays : Accepted (53 / 50) ∧ Alone (53 / 50) (listening (53 / 50)) ∧
    Along (@expiryStep integralPlatform) (Timely (53 / 50)) (listening (53 / 50)) outlived ∧
      ∃ n, exec (@expiryStep integralPlatform) (listening (53 / 50)) outlived = .ok n ∧
        n.neiTable.contains 0x0a010002 ∧ n.neiTableChecks = [] ∧
          ¬ @Expires integralPlatform (53 / 50) n := by
  have hrun : Ensures (exec (@expiryStep integralPlatform) (listening (53 / 50)) outlived)
      (fun n => n.neiTable.contains 0x0a010002 ∧ n.neiTableChecks = []) (fun _ => False) := by
    decide +kernel
  have along : Along (@expiryStep integralPlatform) (Timely (53 / 50)) (listening (53 / 50))
      outlived := by
    decide +kernel
  obtain ⟨n, run, hcontains, hchecks⟩ := hrun.exists_ok
  refine ⟨⟨by decide +kernel, by decide +kernel⟩, listening_alone _, along, n, run, hcontains,
    hchecks, fun expires => ?_⟩
  rw [Std.TreeMap.contains_eq_isSome_getElem?, isSome_iff_exists] at hcontains
  obtain ⟨entry, hentry⟩ := hcontains
  obtain ⟨t, ht, -⟩ := expires 0x0a010002 entry hentry
  rw [hchecks] at ht
  cases ht

end Egsr.Grp.NeighborExpiry
