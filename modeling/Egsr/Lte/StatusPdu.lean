import Egsr.Lte.RlcAmHeader
import Egsr.Lte.RlcUm

/-! The STATUS PDU of the acknowledged mode: the sequence numbers that the
receiver reports missing, as many as the opportunity has room for. -/

namespace Egsr.Lte.Rlc.StatusPdu

open LteRlcAmHeader List

structure PduBuffer where
  m_pduComplete : Bool
deriving DecidableEq

/-- What the STATUS PDU is made of. -/
structure LteRlcAm where
  m_vrR : SequenceNumber10
  m_vrMs : SequenceNumber10
  m_rxonBuffer : List (ℕ × PduBuffer)
  m_statusPduRequested : Bool
  m_statusPduBufferSize : ℕ
  /-- Whether the timer runs. -/
  m_statusProhibitTimer : Bool
deriving DecidableEq

inductive Failure where
  | opportunityTooSmall
  | ackSnBehindVrMs
  | endless
deriving DecidableEq

namespace LteRlcAm

variable (rlc : LteRlcAm)

def pduComplete (sn : ℕ) : Bool :=
  match rlc.m_rxonBuffer.lookup sn with
  | none => false
  | some pdu => pdu.m_pduComplete

def pushNacks (bytes : ℕ) : ℕ → SequenceNumber10 → LteRlcAmHeader →
    Option (SequenceNumber10 × LteRlcAmHeader)
  | 0, _, _ => none
  | rounds + 1, sn, h =>
    if sn.lt rlc.m_vrMs then
      if !h.oneMoreNackWouldFitIn bytes then some (sn, h)
      else pushNacks bytes rounds sn.next (if rlc.pduComplete sn.m_value then h
        else h.pushNack sn.m_value)
    else some (sn, h)

/-- The loop that looks for the number to acknowledge, for so many rounds. -/
def findAckSn : ℕ → SequenceNumber10 → Option SequenceNumber10
  | 0, _ => none
  | rounds + 1, sn =>
    if sn.lt rlc.m_vrMs && rlc.pduComplete sn.m_value then findAckSn rounds sn.next else some sn

/-- The header of the STATUS PDU; there are no more rounds than sequence numbers. -/
def statusPdu (lastSegmentFlag bytes : ℕ) : Except Failure LteRlcAmHeader :=
  match rlc.pushNacks bytes 1024 rlc.m_vrR ((fresh lastSegmentFlag).setControlPdu STATUS_PDU) with
  | none => .error .endless
  | some (sn, h) =>
    match rlc.findAckSn 1024 sn with
    | none => .error .endless
    | some sn => if sn.le rlc.m_vrMs then .ok (h.setAckSn sn.m_value) else .error .ackSnBehindVrMs

/-- The STATUS PDU with the state after it; nothing when it is the turn of the data. -/
def doNotifyTxOpportunity (lastSegmentFlag bytes : ℕ) :
    Except Failure (Option (LteRlcAmHeader × LteRlcAm)) :=
  if bytes < 4 then .error .opportunityTooSmall
  else if rlc.m_statusPduRequested && !rlc.m_statusProhibitTimer then
    if bytes < rlc.m_statusPduBufferSize then .error .opportunityTooSmall
    else (rlc.statusPdu lastSegmentFlag bytes).map fun h => some (h,
      { rlc with
        m_statusPduRequested := false, m_statusPduBufferSize := 0, m_statusProhibitTimer := true })
  else .ok none

def number (i : ℕ) : ℕ := (rlc.m_vrR.m_value + i) % 1024

/-- How far VR(MS) is from VR(R). -/
def reach : ℕ := (rlc.m_vrMs.m_value + 1024 - rlc.m_vrR.m_value) % 1024

def missing (n : ℕ) : List ℕ := ((range n).map rlc.number).filter fun sn => !rlc.pduComplete sn

/-- VR(MS) is compared with VR(R) as the base. -/
@[mk_iff]
structure Ready : Prop where
  vrR_lt : rlc.m_vrR.m_value < 1024
  vrMs_lt : rlc.m_vrMs.m_value < 1024
  vrR_base : rlc.m_vrR.m_modulusBase = rlc.m_vrR.m_value
  vrMs_base : rlc.m_vrMs.m_modulusBase = rlc.m_vrR.m_value
  requested : rlc.m_statusPduRequested = true
  allowed : rlc.m_statusProhibitTimer = false

instance : Decidable rlc.Ready := decidable_of_iff _ rlc.ready_iff.symm

/-- The PDU is no larger than the opportunity and reports the state of the reception buffer. -/
structure Reports (bytes : ℕ) (h : LteRlcAmHeader) : Prop where
  fits : h.getSerializedSize ≤ bytes
  reported : ∃ n ≤ rlc.reach, h.m_ackSn = rlc.number n ∧ h.m_nackSnList = rlc.missing n
  ackMissing : rlc.pduComplete h.m_ackSn = false

end LteRlcAm

def Room (bytes n : ℕ) : Prop :=
  if n % 2 = 0 then 2 + packedSize n < u16 bytes else 2 + packedSize n + 1 < u16 bytes

def capacity (bytes : ℕ) : ℕ := 2 * (u16 bytes / 3) - 1

theorem room_of_lt {bytes n : ℕ} (hlt : n < capacity bytes) : Room bytes n := by
  unfold capacity at hlt
  unfold Room packedSize
  split_ifs <;> omega

theorem not_room_capacity (bytes : ℕ) : ¬Room bytes (capacity bytes) := by
  unfold Room packedSize capacity
  split_ifs <;> omega

theorem le_capacity {bytes n : ℕ} (room : ∀ k < n, Room bytes k) : n ≤ capacity bytes := by
  by_contra hlt
  exact not_room_capacity bytes (room _ (by omega))

theorem capacity_le {bytes n : ℕ} (full : ¬Room bytes n) : capacity bytes ≤ n := by
  by_contra hlt
  exact full (room_of_lt (by omega))

/-- The last one that is let in does not fit when the opportunity is a multiple of three. -/
theorem size_le_iff {bytes n m : ℕ} (large : 4 ≤ bytes) (hn : n = min m (capacity bytes)) :
    2 + packedSize n ≤ bytes ↔ ¬(bytes < 2 ^ 16 ∧ 3 ∣ bytes ∧ capacity bytes ≤ m) := by
  unfold capacity u16 at *
  unfold packedSize
  by_cases hshort : bytes < 2 ^ 16
  · rw [Nat.mod_eq_of_lt hshort] at *
    omega
  · omega

def nackHeader (lastSegmentFlag : ℕ) (nacks : List ℕ) : LteRlcAmHeader :=
  { (fresh lastSegmentFlag).setControlPdu STATUS_PDU with
    m_nackSnList := nacks
    m_headerLength := 2 + packedSize nacks.length }

theorem oneMore_iff (lastSegmentFlag bytes : ℕ) (nacks : List ℕ) :
    (nackHeader lastSegmentFlag nacks).oneMoreNackWouldFitIn bytes = true ↔
      Room bytes nacks.length := by
  unfold oneMoreNackWouldFitIn Room nackHeader
  dsimp only
  split_ifs
  · exact decide_eq_true_iff
  · rw [decide_eq_true_iff]
    omega

theorem pushNack_nackHeader {lastSegmentFlag : ℕ} {nacks : List ℕ} (short : nacks.length < 1024)
    (sn : ℕ) :
    (nackHeader lastSegmentFlag nacks).pushNack sn = nackHeader lastSegmentFlag
    (nacks ++ [sn]) := by
  have hlength : (if (nacks ++ [sn]).length % 2 = 0 then u16 (2 + packedSize nacks.length + 1)
      else u16 (2 + packedSize nacks.length + 2)) = 2 + packedSize (nacks ++ [sn]).length := by
    rw [length_append, length_singleton]
    unfold u16 packedSize
    split_ifs <;> omega
  unfold pushNack nackHeader
  dsimp only
  rw [hlength]

/-! ## The loops -/

section Loops

variable {rlc : LteRlcAm} {n : ℕ}

open LteRlcAm

theorem missing_succ (n : ℕ) :
    rlc.missing (n + 1) = rlc.missing n ++ if rlc.pduComplete (rlc.number n) then []
      else [rlc.number n] := by
  rw [missing, range_succ, map_append, filter_append, missing, map_singleton, filter_singleton]
  cases rlc.pduComplete (rlc.number n) <;> rfl

theorem length_missing_le (n : ℕ) : (rlc.missing n).length ≤ n := by
  have hle := length_filter_le (fun sn => !rlc.pduComplete sn) ((range n).map rlc.number)
  rwa [length_map, length_range] at hle

theorem length_missing_mono {m : ℕ} (hle : n ≤ m) : (rlc.missing n).length ≤
    (rlc.missing m).length := by
  induction m, hle using Nat.le_induction with
  | base => exact le_rfl
  | succ m hle ih =>
    rw [missing_succ, length_append]
    exact ih.trans (Nat.le_add_right _ _)

/-- The sequence number so far from VR(R), to be compared with VR(MS). -/
def place (rlc : LteRlcAm) (i : ℕ) : SequenceNumber10 := ⟨rlc.number i, rlc.m_vrR.m_modulusBase⟩

theorem place_next (rlc : LteRlcAm) (i : ℕ) : (place rlc i).next = place rlc (i + 1) := by
  unfold place SequenceNumber10.next number
  rw [Nat.mod_add_mod, Nat.add_assoc]

theorem reach_lt (rlc : LteRlcAm) : rlc.reach < 1024 := Nat.mod_lt _ (by decide)

variable (ready : rlc.Ready)
include ready

theorem place_zero : place rlc 0 = rlc.m_vrR := by
  unfold place number
  rw [Nat.add_zero, Nat.mod_eq_of_lt ready.vrR_lt]

theorem number_reach : rlc.number rlc.reach = rlc.m_vrMs.m_value := by
  have hvrR := ready.vrR_lt
  have hvrMs := ready.vrMs_lt
  unfold number reach
  omega

theorem fromBase_place (hn : n < 1024) :
    (place rlc n).fromBase = if rlc.m_vrR.m_value + n < 1024 then n else 65536 + n - 1024 := by
  have hvrR := ready.vrR_lt
  have hbase := ready.vrR_base
  have hnumber : rlc.number n < 1024 := Nat.mod_lt _ (by decide)
  have hplace := @fromBase_eq (place rlc n) hnumber (hbase ▸ hvrR)
  unfold place number at *
  rw [hplace, hbase]
  dsimp only
  split_ifs <;> omega

theorem vrMs_eq : rlc.m_vrMs = place rlc rlc.reach := by
  have hnumber := number_reach ready
  have hbase := ready.vrMs_base.trans ready.vrR_base.symm
  unfold place
  rw [hnumber, ← hbase]

theorem lt_vrMs (hn : n ≤ rlc.reach) : (place rlc n).lt rlc.m_vrMs = decide (n < rlc.reach) := by
  have hreach := reach_lt rlc
  have hvrR := ready.vrR_lt
  rw [vrMs_eq ready, Bool.eq_iff_iff, lt_iff, fromBase_place ready (by omega),
    fromBase_place ready hreach, decide_eq_true_iff]
  unfold place number
  dsimp only
  split_ifs <;> omega

theorem le_vrMs (hn : n ≤ rlc.reach) : (place rlc n).le rlc.m_vrMs = true := by
  have hreach := reach_lt rlc
  rw [vrMs_eq ready, SequenceNumber10.le, SequenceNumber10.gt, fromBase_place ready hreach,
    fromBase_place ready (by omega), Bool.not_eq_true', decide_eq_false_iff_not]
  split_ifs <;> omega

theorem pushNacks_spec (lastSegmentFlag bytes : ℕ) {rounds : ℕ} (hn : n ≤ rlc.reach)
    (enough : rlc.reach < n + rounds) (room : ∀ k < (rlc.missing n).length, Room bytes k) :
    ∃ m, n ≤ m ∧ m ≤ rlc.reach ∧
      rlc.pushNacks bytes rounds (place rlc n) (nackHeader lastSegmentFlag (rlc.missing n)) =
        some (place rlc m, nackHeader lastSegmentFlag (rlc.missing m)) ∧
      (∀ k < (rlc.missing m).length, Room bytes k) ∧
      (m = rlc.reach ∨ ¬Room bytes (rlc.missing m).length) := by
  induction rounds generalizing n with
  | zero => omega
  | succ rounds ih =>
    rw [pushNacks, lt_vrMs ready hn]
    by_cases hlt : n < rlc.reach
    · rw [if_pos (decide_eq_true hlt)]
      by_cases hroom : Room bytes (rlc.missing n).length
      · have hshort := (@length_missing_le rlc n).trans_lt (hlt.trans (reach_lt rlc))
        have hnext :
          (if rlc.pduComplete (place rlc n).m_value then nackHeader lastSegmentFlag (rlc.missing n)
            else (nackHeader lastSegmentFlag (rlc.missing n)).pushNack (place rlc n).m_value) =
              nackHeader lastSegmentFlag (rlc.missing (n + 1)) := by
          rw [pushNack_nackHeader hshort, missing_succ, place]
          dsimp only
          split_ifs
          · rw [append_nil]
          · rfl
        have hroom' : ∀ k < (rlc.missing (n + 1)).length, Room bytes k := by
          intro k hk
          have hlen : (rlc.missing (n + 1)).length ≤ (rlc.missing n).length + 1 := by
            rw [missing_succ, length_append]
            split_ifs <;> simp
          rcases Nat.lt_or_ge k (rlc.missing n).length with hold | hnew
          · exact room k hold
          · rwa [show k = (rlc.missing n).length by omega]
        rw [(oneMore_iff lastSegmentFlag bytes _).mpr hroom, Bool.not_true,
          if_neg Bool.false_ne_true, hnext, place_next]
        obtain ⟨m, hle, hrest⟩ := ih (n := n + 1) hlt (by omega) hroom'
        exact ⟨m, by omega, hrest⟩
      · have hfull :
            (nackHeader lastSegmentFlag (rlc.missing n)).oneMoreNackWouldFitIn bytes = false := by
          rw [← Bool.not_eq_true, oneMore_iff]
          exact hroom
        rw [hfull, Bool.not_false, if_pos rfl]
        exact ⟨n, le_rfl, hn, rfl, room, Or.inr hroom⟩
    · rw [if_neg (by simpa using hlt)]
      exact ⟨n, le_rfl, hn, rfl, room, Or.inl (by omega)⟩

theorem findAckSn_spec {rounds : ℕ} (hn : n ≤ rlc.reach) (enough : rlc.reach < n + rounds) :
    ∃ m, n ≤ m ∧ m ≤ rlc.reach ∧ rlc.findAckSn rounds (place rlc n) = some (place rlc m) ∧
      rlc.missing m = rlc.missing n ∧ (m = rlc.reach ∨ rlc.pduComplete (rlc.number m) = false) := by
  induction rounds generalizing n with
  | zero => omega
  | succ rounds ih =>
    rw [findAckSn, lt_vrMs ready hn]
    by_cases hlt : n < rlc.reach
    · cases hcomplete : rlc.pduComplete (rlc.number n) with
      | true =>
        have hmissing : rlc.missing (n + 1) = rlc.missing n := by
          rw [missing_succ, hcomplete, if_pos rfl, append_nil]
        obtain ⟨m, hle, hreach, hfind, hsame, hstop⟩ := ih (n := n + 1) hlt (by omega)
        have hgo : (decide (n < rlc.reach) && rlc.pduComplete (place rlc n).m_value) = true := by
          rw [decide_eq_true hlt, Bool.true_and]
          exact hcomplete
        rw [if_pos hgo, place_next]
        exact ⟨m, by omega, hreach, hfind, hsame.trans hmissing, hstop⟩
      | false =>
        have hstop : ¬(decide (n < rlc.reach) && rlc.pduComplete (place rlc n).m_value) = true := by
          rw [decide_eq_true hlt, Bool.true_and, Bool.not_eq_true]
          exact hcomplete
        rw [if_neg hstop]
        exact ⟨n, le_rfl, hn, rfl, rfl, Or.inr hcomplete⟩
    · rw [if_neg (by simp [hlt])]
      exact ⟨n, le_rfl, hn, rfl, rfl, Or.inl (by omega)⟩

theorem statusPdu_spec (lastSegmentFlag bytes : ℕ) :
    ∃ m ≤ rlc.reach, rlc.statusPdu lastSegmentFlag bytes =
        .ok ((nackHeader lastSegmentFlag (rlc.missing m)).setAckSn (rlc.number m)) ∧
      (rlc.missing m).length = min (rlc.missing rlc.reach).length (capacity bytes) ∧
      (m = rlc.reach ∨ rlc.pduComplete (rlc.number m) = false) := by
  have hreach := reach_lt rlc
  obtain ⟨n, -, hn, hpush, hroom, hend⟩ := @pushNacks_spec _ 0 ready lastSegmentFlag bytes 1024
    (Nat.zero_le _) (by omega) (fun k hk => absurd hk (Nat.not_lt_zero k))
  obtain ⟨m, hle, hm, hfind, hsame, hstop⟩ := @findAckSn_spec _ _ ready 1024 hn (by omega)
  have hfirst : (fresh lastSegmentFlag).setControlPdu STATUS_PDU =
      nackHeader lastSegmentFlag (rlc.missing 0) := by
    have hnone : rlc.missing 0 = [] := rfl
    rw [hnone]
    rfl
  refine ⟨m, hm, ?_, ?_, hstop⟩
  · rw [statusPdu, hfirst, ← place_zero ready, hpush]
    dsimp only
    rw [hfind]
    dsimp only
    rw [le_vrMs ready hm, if_pos rfl, hsame]
    rfl
  · have hcapacity := le_capacity hroom
    have hmono := @length_missing_mono rlc _ _ hn
    rw [hsame]
    rcases hend with rfl | hfull
    · omega
    · have hfull' := capacity_le hfull
      omega

end Loops

/-- The STATUS PDU fits and reports the buffer just when the opportunity is not a multiple of three
that runs out of room, and VR(MS) is missing, or else some number before it is left out. -/
theorem statusPdu_iff {rlc : LteRlcAm} (ready : rlc.Ready) (lastSegmentFlag : ℕ) {bytes : ℕ}
    (large : 4 ≤ bytes) (expected : rlc.m_statusPduBufferSize ≤ bytes) :
    ∃ h after, rlc.doNotifyTxOpportunity lastSegmentFlag bytes = .ok (some (h, after)) ∧
      (rlc.Reports bytes h ↔
        ¬(bytes < 2 ^ 16 ∧ 3 ∣ bytes ∧ capacity bytes ≤ (rlc.missing rlc.reach).length) ∧
          (capacity bytes < (rlc.missing rlc.reach).length ∨
            rlc.pduComplete rlc.m_vrMs.m_value = false)) := by
  obtain ⟨m, hm, hstatus, hcount, hstop⟩ := statusPdu_spec ready lastSegmentFlag bytes
  have hnotify : rlc.doNotifyTxOpportunity lastSegmentFlag bytes =
      .ok (some ((nackHeader lastSegmentFlag (rlc.missing m)).setAckSn (rlc.number m),
        { rlc with
          m_statusPduRequested := false
          m_statusPduBufferSize := 0
          m_statusProhibitTimer := true })) := by
    rw [LteRlcAm.doNotifyTxOpportunity, if_neg (by omega), ready.requested, ready.allowed,
      Bool.not_false, Bool.and_true, if_pos rfl, if_neg (by omega), hstatus]
    rfl
  have hack : rlc.pduComplete (rlc.number m) = false ↔
      capacity bytes < (rlc.missing rlc.reach).length ∨
        rlc.pduComplete rlc.m_vrMs.m_value = false := by
    rcases Nat.lt_or_eq_of_le hm with hlt | rfl
    · -- The PDU stops before VR(MS), so a missing number is left out.
      have hmissing := hstop.resolve_left hlt.ne
      have hmore := @length_missing_mono rlc _ _ (Nat.succ_le_of_lt hlt)
      rw [missing_succ, hmissing, if_neg Bool.false_ne_true, length_append,
        length_singleton] at hmore
      exact iff_of_true hmissing (Or.inl (by omega))
    · rw [number_reach ready]
      exact ⟨Or.inr, fun h => h.resolve_left (by omega)⟩
  refine ⟨_, _, hnotify, ?_⟩
  rw [← size_le_iff large hcount, ← hack]
  exact ⟨fun h => ⟨h.fits, h.ackMissing⟩, fun h => ⟨h.1, ⟨m, hm, rfl, rfl⟩, h.2⟩⟩

/-- Of the eight numbers up to VR(MS) two are completely received and one in part. -/
def gapped : LteRlcAm :=
  ⟨⟨1020, 1020⟩, ⟨4, 1020⟩, [(1021, ⟨true⟩), (0, ⟨true⟩), (2, ⟨false⟩)], true, 4, false⟩

theorem statusPdu_iff_gapped : gapped.missing gapped.reach = [1020, 1022, 1023, 1, 2, 3] ∧
    ∃ h after, gapped.doNotifyTxOpportunity 0 7 = .ok (some (h, after)) ∧ gapped.Reports 7 h := by
  have ready : gapped.Ready := by decide
  obtain ⟨h, after, run, right⟩ := statusPdu_iff ready 0 (by decide : 4 ≤ 7) (by decide)
  exact ⟨by decide, h, after, run, right.mpr (by decide)⟩

def waiting : LteRlcAm := ⟨⟨0, 0⟩, ⟨6, 0⟩, [], true, 4, false⟩

/-- With six bytes the PDU takes seven. -/
theorem statusPdu_six : ∃ h after, waiting.doNotifyTxOpportunity 0 6 = .ok (some (h, after)) ∧
    h.getSerializedSize = 7 ∧ ¬waiting.Reports 6 h :=
  ⟨_, _, rfl, rfl, fun h => absurd h.fits (by decide)⟩

end Egsr.Lte.Rlc.StatusPdu
