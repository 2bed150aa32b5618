import Mathlib.Order.Bounds.Basic
import Egsr.Lib.History
import Egsr.Wifi.OriginatorBookkeeping

/-! The transmit window of an originator by itself: calls of the agreement with
any sequence numbers, and what the flags of the window say about them. -/

namespace Egsr.Wifi.BlockAck.Originator.Window

open Lib.History Lib.Run Lib.Outcome BlockAckWindow

inductive Fault where
  /-- A distance for `At` that is not in the window. -/
  | outOfRange
  /-- The loop of `AdvanceTxWindow` does not end in the rounds it is given. -/
  | unfinished
deriving DecidableEq

variable (w : BlockAckWindow)

def checkedAt (distance : ℕ) : Except Fault Bool :=
  if distance < w.getWinSize then .ok (w.at' distance) else .error .outOfRange

def checkedSetAt (distance : ℕ) : Except Fault BlockAckWindow :=
  if distance < w.getWinSize then .ok (w.setAt distance) else .error .outOfRange

/-- The loop of `AdvanceTxWindow`, for so many tests of its condition. -/
def advanceLoop : ℕ → BlockAckWindow → Except Fault BlockAckWindow
  | 0, _ => .error .unfinished
  | tests + 1, w => do
    if ← checkedAt w 0 then advanceLoop tests (w.advance 1) else .ok w

def advanceTxWindow : Except Fault BlockAckWindow := advanceLoop (w.getWinSize + 1) w

inductive Op where
  | notifyTransmittedMpdu (mpduSeqNumber : Fin 4096)
  | notifyAckedMpdu (mpduSeqNumber : Fin 4096)
  | notifyDiscardedMpdu (mpduSeqNumber : Fin 4096)
deriving DecidableEq

def notify : Op → Except Fault BlockAckWindow
  | .notifyTransmittedMpdu mpduSeqNumber =>
    let distance := distance w.m_winStart mpduSeqNumber
    if 2048 ≤ distance then .ok w
    else if w.getWinSize ≤ distance then advanceTxWindow (w.advance (distance - w.getWinSize + 1))
    else .ok w
  | .notifyAckedMpdu mpduSeqNumber =>
    let distance := distance w.m_winStart mpduSeqNumber
    if 2048 ≤ distance then .ok w else (checkedSetAt w distance).bind advanceTxWindow
  | .notifyDiscardedMpdu mpduSeqNumber =>
    let distance := distance w.m_winStart mpduSeqNumber
    if 2048 ≤ distance then .ok w else advanceTxWindow (w.advance (distance + 1))

structure Event where
  op : Op
  before : BlockAckWindow
  after : BlockAckWindow
deriving DecidableEq

structure State where
  window : BlockAckWindow
  log : List Event
deriving DecidableEq

def start (winStart : Fin 4096) (winSize : ℕ) : State := ⟨.init winStart winSize, []⟩

def step (st : State) (op : Op) : Except Fault State :=
  (notify st.window op).map fun w => ⟨w, st.log ++ [⟨op, st.window, w⟩]⟩

def Op.Acks (op : Op) (s : ℕ) : Prop :=
  ∃ mpduSeqNumber : Fin 4096, op = .notifyAckedMpdu mpduSeqNumber ∧ mpduSeqNumber = s

/-- The number was in the window, and the call has not moved the window past it. -/
def Keeps (s : ℕ) (e : Event) : Prop :=
  distance e.before.m_winStart s < e.before.getWinSize ∧
    distance e.before.m_winStart e.after.m_winStart ≤ distance e.before.m_winStart s

def AckedSince (log : List Event) (s : ℕ) : Prop := Since (fun e => e.op.Acks s) (Keeps s) log

def Represents (log : List Event) : Prop :=
  ∀ s < 4096, distance w.m_winStart s < w.getWinSize →
    (w.at' (distance w.m_winStart s) = true ↔ AckedSince log s)

/-- How far the call itself requires the window to move: to contain an MPDU that was transmitted,
and past one that was discarded. -/
def required : Op → ℕ
  | .notifyTransmittedMpdu mpduSeqNumber =>
    if 2048 ≤ distance w.m_winStart mpduSeqNumber then 0
      else distance w.m_winStart mpduSeqNumber + 1 - w.getWinSize
  | .notifyAckedMpdu _ => 0
  | .notifyDiscardedMpdu mpduSeqNumber =>
    if 2048 ≤ distance w.m_winStart mpduSeqNumber then 0
      else distance w.m_winStart mpduSeqNumber + 1

/-- The number that is so far ahead is in the window and acknowledged, at the latest by the call. -/
def Acknowledged (past : List Event) (w : BlockAckWindow) (op : Op) (n : ℕ) : Prop :=
  n < w.getWinSize ∧
    (AckedSince past ((w.m_winStart + n) % 4096) ∨ op.Acks ((w.m_winStart + n) % 4096))

/-- The window moves as far as required, and from there to the first number not acknowledged. -/
def MovesRight (past : List Event) (e : Event) : Prop :=
  ∃ n, e.after.m_winStart = (e.before.m_winStart + n) % 4096 ∧
    IsLeast {n | required e.before e.op ≤ n ∧ ¬Acknowledged past e.before e.op n} n

/-- An MPDU is acknowledged in the window or when it is old, not between; one that is discarded in
the window is not old. -/
def InReach : Op → Prop
  | .notifyTransmittedMpdu _ => True
  | .notifyAckedMpdu mpduSeqNumber =>
    distance w.m_winStart mpduSeqNumber < w.getWinSize ↔ distance w.m_winStart mpduSeqNumber < 2048
  | .notifyDiscardedMpdu mpduSeqNumber =>
    distance w.m_winStart mpduSeqNumber < w.getWinSize → distance w.m_winStart mpduSeqNumber < 2048

instance (w : BlockAckWindow) : DecidablePred (InReach w) := fun op =>
  match op with
  | .notifyTransmittedMpdu _ | .notifyAckedMpdu .. | .notifyDiscardedMpdu .. =>
    by unfold InReach; infer_instance

def AfterTransmission (past : List Op) : Op → Prop
  | .notifyAckedMpdu mpduSeqNumber => .notifyTransmittedMpdu mpduSeqNumber ∈ past
  | _ => True

instance (past : List Op) : DecidablePred (AfterTransmission past) := fun op =>
  match op with
  | .notifyTransmittedMpdu _ | .notifyAckedMpdu .. | .notifyDiscardedMpdu _ =>
    by unfold AfterTransmission; infer_instance

/-! ## What a call does -/

section Steps

variable {w w' v : BlockAckWindow} {op : Op} {n k : ℕ}

theorem advanceLoop_eq (head : w.m_head < w.getWinSize) {rounds : ℕ}
    (ends : (advanceWhile rounds w).at' 0 = false) :
    advanceLoop (rounds + 1) w = .ok (advanceWhile rounds w) := by
  have hat : checkedAt w 0 = .ok (w.at' 0) := if_pos ((Nat.zero_le _).trans_lt head)
  induction rounds generalizing w with
  | zero =>
    rw [advanceWhile] at ends ⊢
    rw [advanceLoop, hat, ends]
    rfl
  | succ rounds ih =>
    rw [advanceWhile] at ends ⊢
    rw [advanceLoop, hat]
    by_cases hflag : w.at' 0 = true
    · have hhead := (moved_advance head 1).head
      rw [if_pos hflag] at ends
      rw [if_pos hflag, hflag]
      exact ih hhead ends (if_pos ((Nat.zero_le _).trans_lt hhead))
    · rw [if_neg hflag, Bool.eq_false_iff.mpr hflag]
      rfl

theorem advanceTxWindow_eq (head : w.m_head < w.getWinSize) (start : w.m_winStart < 4096) :
    advanceTxWindow w = .ok w.advanceTxWindow := by
  obtain ⟨-, -, -, hends⟩ := moved_advanceTxWindow head start
  exact advanceLoop_eq head hends

def notifyAgreement (s : OriginatorAgreement) : Op → OriginatorAgreement
  | .notifyTransmittedMpdu mpduSeqNumber => s.notifyTransmittedMpdu mpduSeqNumber
  | .notifyAckedMpdu mpduSeqNumber => s.notifyAckedMpdu mpduSeqNumber
  | .notifyDiscardedMpdu mpduSeqNumber => s.advancePast mpduSeqNumber

/-- The call acknowledges the number that is so far ahead, which is not old. -/
def AcksAt (w : BlockAckWindow) (op : Op) (d : ℕ) : Prop :=
  ∃ mpduSeqNumber : Fin 4096, op = .notifyAckedMpdu mpduSeqNumber ∧
    distance w.m_winStart mpduSeqNumber = d ∧ d < 2048

structure Good (w : BlockAckWindow) : Prop where
  head : w.m_head < w.getWinSize
  start : w.m_winStart < 4096
  near : ∀ d < w.getWinSize, w.at' d = true → d < 2048
  first : w.at' 0 = false

structure Stepped (w : BlockAckWindow) (op : Op) (w' : BlockAckWindow) (n : ℕ) : Prop where
  start : w'.m_winStart = (w.m_winStart + n) % 4096
  size : w'.getWinSize = w.getWinSize
  head : w'.m_head < w'.getWinSize
  first : w'.at' 0 = false
  required : required w op ≤ n
  far : n ≤ 2048
  flag : ∀ d < w.getWinSize, w'.at' d = true ↔ d + n < w.getWinSize ∧
    (w.at' (d + n) = true ∨ AcksAt w op (d + n))
  passed : ∀ i < n, Window.required w op ≤ i → i < w.getWinSize ∧ (w.at' i = true ∨ AcksAt w op i)

theorem Good.stay (h : Good w) (none : required w op = 0) (noAck : ∀ d, ¬AcksAt w op d) :
    Stepped w op w 0 where
  start := (Nat.mod_eq_of_lt h.start).symm
  size := rfl
  head := h.head
  first := h.first
  required := none.le
  far := Nat.zero_le _
  flag d hd := by rw [Nat.add_zero, and_iff_right hd, or_iff_left (noAck d)]
  passed i hi := absurd hi (Nat.not_lt_zero i)

theorem Good.advance (h : Good w) {count : ℕ} (hcount : count ≤ 2048)
    (needs : required w op = count) (noAck : ∀ d, ¬AcksAt w op d) :
    ∃ n, advanceTxWindow (w.advance count) = .ok (w.advance count).advanceTxWindow ∧
      Stepped w op (w.advance count).advanceTxWindow n := by
  have hadvanced := moved_advance h.head count
  have hstart : (w.advance count).m_winStart < 4096 :=
    hadvanced.start.trans_lt (Nat.mod_lt _ (by decide))
  obtain ⟨k, hmoved, hset, hends⟩ := moved_advanceTxWindow hadvanced.head hstart
  have hall := hadvanced.trans hmoved
  have hpassed : ∀ i < k, count + i < w.getWinSize ∧ w.at' (count + i) = true := fun i hi => by
    obtain ⟨hlt, hflag⟩ := hset i hi
    rw [hadvanced.size] at hlt
    rw [hadvanced.flag i hlt, Nat.add_comm] at hflag
    by_cases hin : count + i < w.getWinSize
    · exact ⟨hin, (if_pos hin).symm.trans hflag⟩
    · rw [if_neg hin] at hflag
      cases hflag
  refine ⟨count + k, advanceTxWindow_eq hadvanced.head hstart, hall.start, hall.size, hall.head,
    hends, ?_, ?_, ?_, ?_⟩
  · rw [needs]
    exact Nat.le_add_right _ _
  · rcases Nat.eq_zero_or_pos k with rfl | hpos
    · exact hcount
    · obtain ⟨hlt, hflag⟩ := hpassed (k - 1) (by omega)
      have := h.near _ hlt hflag
      omega
  · intro d hd
    rw [hall.flag d hd, or_iff_left (noAck _)]
    by_cases hin : d + (count + k) < w.getWinSize
    · rw [if_pos hin, and_iff_right hin]
    · rw [if_neg hin]
      exact iff_of_false Bool.false_ne_true fun h => hin h.1
  · intro i hi hle
    rw [needs] at hle
    obtain ⟨hlt, hflag⟩ := hpassed (i - count) (by omega)
    rw [Nat.add_sub_cancel' hle] at hlt hflag
    exact ⟨hlt, .inl hflag⟩

theorem Good.ack (h : Good w) {mpduSeqNumber : Fin 4096}
    (hin : distance w.m_winStart mpduSeqNumber < w.getWinSize)
    (recent : distance w.m_winStart mpduSeqNumber < 2048) :
    ∃ w' n, (checkedSetAt w (distance w.m_winStart mpduSeqNumber)).bind advanceTxWindow = .ok w' ∧
      Stepped w (.notifyAckedMpdu mpduSeqNumber) w' n := by
  set d := distance w.m_winStart mpduSeqNumber with hd
  have hsize : (w.setAt d).getWinSize = w.getWinSize := Lib.RingBuffer.length_write
  have hhead : (w.setAt d).m_head < (w.setAt d).getWinSize := h.head.trans_eq hsize.symm
  obtain ⟨k, hmoved, hset, hends⟩ := moved_advanceTxWindow hhead h.start
  have hflag : ∀ i < w.getWinSize, (w.setAt d).at' i = true ↔
      w.at' i = true ∨ AcksAt w (.notifyAckedMpdu mpduSeqNumber) i := fun i hi => by
    have hacks : AcksAt w (.notifyAckedMpdu mpduSeqNumber) i ↔ d = i := by
      constructor
      · rintro ⟨_, ⟨rfl⟩, heq, -⟩
        exact heq
      · rintro rfl
        exact ⟨mpduSeqNumber, rfl, rfl, recent⟩
    rw [at'_setAt hin hi, hacks]
    by_cases heq : d = i
    · rw [if_pos heq]
      exact iff_of_true rfl (.inr heq)
    · rw [if_neg heq, or_iff_left heq]
  have hpassed : ∀ i < k, i < w.getWinSize ∧
    (w.at' i = true ∨ AcksAt w (.notifyAckedMpdu mpduSeqNumber) i) :=
    fun i hi => by
    obtain ⟨hlt, hi'⟩ := hset i hi
    rw [hsize] at hlt
    exact ⟨hlt, (hflag i hlt).mp hi'⟩
  refine ⟨_, k, ?_, hmoved.start, hmoved.size.trans hsize, hmoved.head, hends, Nat.zero_le _, ?_,
    ?_, fun i hi _ => hpassed i hi⟩
  · rw [checkedSetAt, if_pos hin]
    exact advanceTxWindow_eq hhead h.start
  · rcases Nat.eq_zero_or_pos k with rfl | hpos
    · exact Nat.zero_le _
    · obtain ⟨hlt, hi | ⟨_, _, _, hi⟩⟩ := hpassed (k - 1) (by omega)
      · have := h.near _ hlt hi
        omega
      · omega
  · intro i hi
    rw [hmoved.flag i (hi.trans_eq hsize.symm), hsize]
    by_cases hlt : i + k < w.getWinSize
    · rw [if_pos hlt, and_iff_right hlt, hflag _ hlt]
    · rw [if_neg hlt]
      exact iff_of_false Bool.false_ne_true fun h => hlt h.1

theorem notify_spec (h : Good w) (reach : InReach w op) : ∃ w' n, notify w op = .ok w' ∧
    Stepped w op w' n := by
  cases op with
  | notifyTransmittedMpdu mpduSeqNumber =>
    have noAck : ∀ d, ¬AcksAt w (.notifyTransmittedMpdu mpduSeqNumber) d := by
      rintro d ⟨_, heq, -⟩
      cases heq
    rw [notify]
    by_cases hold : 2048 ≤ distance w.m_winStart mpduSeqNumber
    · exact ⟨w, 0, if_pos hold, h.stay (if_pos hold) noAck⟩
    by_cases hout : w.getWinSize ≤ distance w.m_winStart mpduSeqNumber
    · have needs : required w (.notifyTransmittedMpdu mpduSeqNumber) =
          distance w.m_winStart mpduSeqNumber - w.getWinSize + 1 := by
        rw [required, if_neg hold]
        omega
      obtain ⟨n, hrun, hstepped⟩ := h.advance (by omega) needs noAck
      exact ⟨_, n, (if_neg hold).trans ((if_pos hout).trans hrun), hstepped⟩
    · refine ⟨w, 0, (if_neg hold).trans (if_neg hout), h.stay ?_ noAck⟩
      rw [required, if_neg hold]
      omega
  | notifyAckedMpdu mpduSeqNumber =>
    rw [notify]
    by_cases hold : 2048 ≤ distance w.m_winStart mpduSeqNumber
    · refine ⟨w, 0, if_pos hold, h.stay rfl ?_⟩
      rintro d ⟨_, ⟨rfl⟩, hd, hrecent⟩
      omega
    · have hrecent := Nat.lt_of_not_le hold
      obtain ⟨w', n, hrun, hstepped⟩ := h.ack (reach.mpr hrecent) hrecent
      exact ⟨w', n, (if_neg hold).trans hrun, hstepped⟩
  | notifyDiscardedMpdu mpduSeqNumber =>
    have noAck : ∀ d, ¬AcksAt w (.notifyDiscardedMpdu mpduSeqNumber) d := by
      rintro d ⟨_, heq, -⟩
      cases heq
    rw [notify]
    by_cases hold : 2048 ≤ distance w.m_winStart mpduSeqNumber
    · exact ⟨w, 0, if_pos hold, h.stay (if_pos hold) noAck⟩
    · have needs : required w (.notifyDiscardedMpdu mpduSeqNumber) =
          distance w.m_winStart mpduSeqNumber + 1 := if_neg hold
      obtain ⟨n, hrun, hstepped⟩ := h.advance (by omega) needs noAck
      exact ⟨_, n, (if_neg hold).trans hrun, hstepped⟩

theorem notify_agreement {s : OriginatorAgreement} (h : Good s.m_txWindow)
    (reach : InReach s.m_txWindow op) :
    notify s.m_txWindow op = .ok (notifyAgreement s op).m_txWindow := by
  have hadvance : ∀ count, advanceTxWindow (s.m_txWindow.advance count) =
      .ok (s.m_txWindow.advance count).advanceTxWindow := fun count =>
    have hadvanced := moved_advance h.head count
    advanceTxWindow_eq hadvanced.head (hadvanced.start.trans_lt (Nat.mod_lt _ (by decide)))
  have hset : ∀ d, d < s.m_txWindow.getWinSize →
    (checkedSetAt s.m_txWindow d).bind advanceTxWindow =
      .ok (s.m_txWindow.setAt d).advanceTxWindow := fun d hd => by
    have hsize : (s.m_txWindow.setAt d).getWinSize = s.m_txWindow.getWinSize :=
      Lib.RingBuffer.length_write
    rw [checkedSetAt, if_pos hd]
    exact advanceTxWindow_eq (h.head.trans_eq hsize.symm) h.start
  have hdistance : ∀ seqNumber, s.getDistance seqNumber =
      distance s.m_txWindow.m_winStart seqNumber := fun _ => rfl
  cases op with
  | notifyTransmittedMpdu mpduSeqNumber =>
    rw [notify, notifyAgreement, OriginatorAgreement.notifyTransmittedMpdu, hdistance]
    split_ifs
    · rfl
    · exact hadvance _
    · rfl
  | notifyAckedMpdu mpduSeqNumber =>
    rw [notify, notifyAgreement, OriginatorAgreement.notifyAckedMpdu, hdistance]
    split_ifs with hold
    · rfl
    · exact hset _ (reach.mpr (Nat.lt_of_not_le hold))
  | notifyDiscardedMpdu mpduSeqNumber =>
    rw [notify, notifyAgreement, OriginatorAgreement.advancePast, hdistance]
    split_ifs
    · rfl
    · exact hadvance _

end Steps

/-! ## Runs -/

section Runs

variable {w w' : BlockAckWindow} {op : Op} {n : ℕ} {past : List Event}

theorem acksAt_iff (h : Good w) (reach : InReach w op) {s : ℕ} (hs : s < 4096)
    (hin : distance w.m_winStart s < w.getWinSize) : AcksAt w op (distance w.m_winStart s) ↔
      op.Acks s := by
  constructor
  · rintro ⟨m, hop, heq, -⟩
    exact ⟨m, hop, distance_inj h.start m.isLt hs heq⟩
  · rintro ⟨m, rfl, rfl⟩
    exact ⟨m, rfl, rfl, reach.mp hin⟩

theorem flag_iff (h : Good w) (represents : Represents w past) (reach : InReach w op) {i : ℕ}
    (hi : i < w.getWinSize)
    (hi' : i < 4096) : w.at' i = true ∨ AcksAt w op i ↔ Acknowledged past w op i := by
  have hdist : distance w.m_winStart ((w.m_winStart + i) % 4096) = i := distance_add h.start hi'
  have hlt : (w.m_winStart + i) % 4096 < 4096 := Nat.mod_lt _ (by decide)
  have hacks := acksAt_iff h reach hlt (hdist.trans_lt hi)
  have hflag := represents _ hlt (hdist.trans_lt hi)
  rw [hdist] at hacks hflag
  rw [Acknowledged, and_iff_right hi, hflag, hacks]

theorem Stepped.movesRight (h : Good w) (represents : Represents w past) (reach : InReach w op)
    (stepped : Stepped w op w' n) : MovesRight past ⟨op, w, w'⟩ := by
  have hfar := stepped.far
  refine ⟨n, stepped.start, ⟨stepped.required, fun hpassed => ?_⟩, fun m hm =>
    Nat.le_of_not_lt fun hlt => ?_⟩
  · have hflag := (stepped.flag 0 ((Nat.zero_le _).trans_lt h.head)).mpr
    rw [Nat.zero_add] at hflag
    have hset := hflag ⟨hpassed.1, (flag_iff h represents reach hpassed.1 (by omega)).mpr hpassed⟩
    rw [stepped.first] at hset
    cases hset
  · obtain ⟨hneeds, hnot⟩ := hm
    obtain ⟨hin, hflag⟩ := stepped.passed m hlt hneeds
    exact hnot ((flag_iff h represents reach hin (by omega)).mp hflag)

theorem Stepped.good (h : Good w) (stepped : Stepped w op w' n) : Good w' where
  head := stepped.head
  start := stepped.start.trans_lt (Nat.mod_lt _ (by decide))
  near d hd hset := by
    rw [stepped.size] at hd
    obtain ⟨hlt, hflag | ⟨-, -, -, hnear⟩⟩ := (stepped.flag d hd).mp hset
    · have := h.near _ hlt hflag
      omega
    · omega
  first := stepped.first

theorem Stepped.represents (h : Good w) (represents : Represents w past) (reach : InReach w op)
    (stepped : Stepped w op w' n) : Represents w' (past ++ [⟨op, w, w'⟩]) := by
  intro s hs hin
  have hfar := stepped.far
  have hmove : distance w.m_winStart w'.m_winStart = n := by
    rw [stepped.start, distance_add h.start (by omega)]
  have hlt := distance_lt w.m_winStart s
  rw [stepped.size] at hin
  rw [stepped.flag _ hin, AckedSince]
  rw [stepped.start, distance_from h.start (by omega) hs]
  by_cases hbehind : n ≤ distance w.m_winStart s
  · have hplace : (distance w.m_winStart s + 4096 - n) % 4096 + n = distance w.m_winStart s := by
      omega
    rw [hplace]
    by_cases hold : distance w.m_winStart s < w.getWinSize
    · have hkeeps : Keeps s ⟨op, w, w'⟩ := ⟨hold, hmove.trans_le hbehind⟩
      rw [since_snoc_iff hkeeps, and_iff_right hold, represents s hs hold,
        acksAt_iff h reach hs hold, or_comm]
      rfl
    · refine iff_of_false (fun hset => hold hset.1) fun hsince => hold ?_
      have hkeeps : Keeps s ⟨op, w, w'⟩ := hsince.last
      exact hkeeps.1
  · have hplace : (distance w.m_winStart s + 4096 - n) % 4096 + n =
        distance w.m_winStart s + 4096 := by
      omega
    rw [hplace]
    refine iff_of_false ?_ fun hsince => hbehind ?_
    · -- A number that comes round again is too far ahead to have been acknowledged.
      rintro ⟨hold, hset | ⟨-, -, -, hnear⟩⟩
      · have := h.near _ hold hset
        omega
      · omega
    · have hkeeps : Keeps s ⟨op, w, w'⟩ := hsince.last
      exact hmove.symm.trans_le hkeeps.2

structure Inv (st : State) : Prop where
  good : Good st.window
  represents : Represents st.window st.log
  each : Each (fun past e => Represents e.after (past ++ [e]) ∧ e.after.at' 0 = false ∧
    MovesRight past e) st.log

theorem inv_start (winStart : Fin 4096) {winSize : ℕ} (size : 1 ≤ winSize) :
    Inv (start winStart winSize) := by
  have hclear : ∀ d, (init winStart winSize).at' d = false := fun d => by
    rw [at', Lib.RingBuffer.entry, init, List.getD_eq_getElem?_getD]
    exact List.getElem?_getD_replicate_default_eq _ _ _
  have hsize : (init winStart winSize).getWinSize = winSize := List.length_replicate
  refine ⟨⟨hsize.symm ▸ size, winStart.isLt, fun d _ hset => ?_, hclear 0⟩, fun s _ _ =>
    ?_, each_nil⟩
  · exact absurd ((hclear d).symm.trans hset) Bool.false_ne_true
  · rw [start, hclear]
    refine iff_of_false Bool.false_ne_true ?_
    rintro ⟨past, e, later, heq, -⟩
    cases past <;> cases heq

theorem inv_step {st : State} (h : Inv st) (reach : InReach st.window op) :
    Ensures (step st op) Inv fun _ => False := by
  obtain ⟨w', n, hrun, hstepped⟩ := notify_spec h.good reach
  have hrepresents := hstepped.represents h.good h.represents reach
  rw [step, hrun]
  exact ⟨hstepped.good h.good, hrepresents,
    each_snoc.mpr
      ⟨h.each, hrepresents, hstepped.first, hstepped.movesRight h.good h.represents reach⟩⟩

/-- In every run of calls that are in reach, for every size of the window, no distance is out of
range and the loops end. After each call the flags are those of the numbers in the window, the first
is not set, and the window has moved as far as required and past what is acknowledged. -/
theorem window_right (winStart : Fin 4096) {winSize : ℕ} (size : 1 ≤ winSize) {ops : List Op}
    (reach : Along step (fun st op => InReach st.window op) (start winStart winSize) ops) :
    ∃ st, exec step (start winStart winSize) ops = .ok st ∧
      Represents st.window st.log ∧ st.window.at' 0 = false ∧
      Each (fun past e => Represents e.after (past ++ [e]) ∧ e.after.at' 0 = false ∧
        MovesRight past e) st.log := by
  obtain ⟨st, hrun, hinv⟩ :=
    (ensures_exec (fun _ _ h reach => inv_step h reach) (inv_start winStart size) reach).exists_ok
  exact ⟨st, hrun, hinv.represents, hinv.good.first, hinv.each⟩

/-- The start moves to 1 when the numbers 0 and 1 are acknowledged out of order, and past 5 when it
is discarded. -/
theorem window_right_reordered : (1 ≤ 4 ∧ Along step (fun st op => InReach st.window op) (start 0 4)
      [.notifyTransmittedMpdu 0, .notifyTransmittedMpdu 1, .notifyAckedMpdu 1, .notifyAckedMpdu 0,
        .notifyTransmittedMpdu 7, .notifyDiscardedMpdu 5]) ∧
      ∃ st, exec step (start 0 4)
          [.notifyTransmittedMpdu 0, .notifyTransmittedMpdu 1, .notifyAckedMpdu 1,
            .notifyAckedMpdu 0, .notifyTransmittedMpdu 7, .notifyDiscardedMpdu 5] = .ok st ∧
        Represents st.window st.log ∧ st.window.m_winStart = 6 := by
  have hreach : Along step (fun st op => InReach st.window op) (start 0 4)
      [.notifyTransmittedMpdu 0, .notifyTransmittedMpdu 1, .notifyAckedMpdu 1, .notifyAckedMpdu 0,
        .notifyTransmittedMpdu 7, .notifyDiscardedMpdu 5] := by
    decide
  obtain ⟨st, hrun, hrepresents, -⟩ := window_right 0 (show 1 ≤ 4 by decide) hreach
  refine ⟨⟨by decide, hreach⟩, st, hrun, hrepresents, ?_⟩
  have hend : (exec step (start 0 4)
    [.notifyTransmittedMpdu 0, .notifyTransmittedMpdu 1, .notifyAckedMpdu 1,
      .notifyAckedMpdu 0, .notifyTransmittedMpdu 7, .notifyDiscardedMpdu 5]).map
        (fun st => st.window.m_winStart) = .ok 6 := by
    decide
  rw [hrun] at hend
  exact Except.ok.inj hend

/-- The MPDU 0 is acknowledged when the window has gone round almost to it. -/
theorem late_ack_out_of_range : ¬∀ (winStart : Fin 4096) (winSize : ℕ) (ops : List Op), 1 ≤
    winSize →
    Each AfterTransmission ops → ∃ st, exec step (start winStart winSize) ops = .ok st := by
  intro h
  obtain ⟨st, hrun⟩ := h 0 16
    [.notifyTransmittedMpdu 0, .notifyTransmittedMpdu 2000, .notifyTransmittedMpdu 3900,
      .notifyAckedMpdu 0] (by decide)
    (by decide)
  have hfault : exec step (start 0 16)
    [.notifyTransmittedMpdu 0, .notifyTransmittedMpdu 2000, .notifyTransmittedMpdu 3900,
      .notifyAckedMpdu 0] = .error .outOfRange := by
    decide
  rw [hfault] at hrun
  cases hrun

end Runs

end Egsr.Wifi.BlockAck.Originator.Window
