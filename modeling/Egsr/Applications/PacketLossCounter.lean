import Egsr.Lib.Outcome
import Egsr.Lib.RingBuffer

/-! The counter of lost packets: a number that was not received is counted when the window of the
last numbers has moved past it. -/

namespace Egsr.Applications

open Lib Lib.Run Lib.Outcome List

structure PacketLossCounter where
  m_lost : ℕ
  m_lastMaxSeqNum : ℕ
  /-- The bits of the bytes, from the highest one of each on. -/
  m_receiveBitMap : List Bool
deriving DecidableEq

def construct (m_bitMapSize : ℕ) : PacketLossCounter := ⟨0, 0, replicate (m_bitMapSize * 8) true⟩

variable (c : PacketLossCounter)

def getBit (seqNum : ℕ) : Bool := c.m_receiveBitMap.getD (seqNum % c.m_receiveBitMap.length) false

def setBit (seqNum : ℕ) (val : Bool) : PacketLossCounter :=
  { c with m_receiveBitMap := c.m_receiveBitMap.set (seqNum % c.m_receiveBitMap.length) val }

def passNumber (i : ℕ) : PacketLossCounter :=
  { setBit c i false with m_lost := if getBit c i then c.m_lost else c.m_lost + 1 }

/-- The loop of `NotifyReceived` from `i` on, for so many rounds. -/
def passNumbers : ℕ → ℕ → PacketLossCounter → PacketLossCounter
  | 0, _, c => c
  | rounds + 1, i, c => passNumbers rounds (i + 1) (passNumber c i)

def notifyReceived (seqNum : ℕ) : PacketLossCounter :=
  let c' := setBit (passNumbers (seqNum - c.m_lastMaxSeqNum) (c.m_lastMaxSeqNum + 1) c) seqNum true
  { c' with m_lastMaxSeqNum := max c.m_lastMaxSeqNum seqNum }

def step (c : PacketLossCounter) (seqNum : ℕ) : Except Empty PacketLossCounter :=
  .ok (notifyReceived c seqNum)

/-- How many of the numbers from 1 to `n` were not received. -/
def missing (received : List ℕ) (n : ℕ) : ℕ := (range n).countP fun k => k + 1 ∉ received

/-- The bit of a number beyond `last` tells of the one before it in the same place. -/
structure Counted (window : ℕ) (received : List ℕ) (last : ℕ) (c : PacketLossCounter) : Prop where
  length : c.m_receiveBitMap.length = window
  bits : ∀ i < window, getBit c (last + 1 + i) ↔ last + 1 + i ≤ window ∨
    last + 1 + i - window ∈ received
  lost : c.m_lost = missing received (last - window)

variable {c} {window last seq : ℕ} {received : List ℕ}

theorem getBit_setBit {i j : ℕ} (hi : i < c.m_receiveBitMap.length)
    (hj : j < c.m_receiveBitMap.length) (val : Bool) :
    getBit (setBit c (last + i) val) (last + j) = if i = j then val else getBit c (last + j) :=
  RingBuffer.entry_write hi hj

theorem missing_succ (received : List ℕ) (n : ℕ) :
    missing received (n + 1) = missing received n + if n + 1 ∈ received then 0 else 1 := by
  rw [missing, range_succ, countP_append, countP_singleton, missing]
  by_cases h : n + 1 ∈ received <;> simp [h]

theorem Counted.pass (counted : Counted window received last c) (pos : 0 < window)
    (le : ∀ seq ∈ received, seq ≤ last) :
    Counted window received (last + 1) (passNumber c (last + 1)) where
  length := length_set.trans counted.length
  bits := by
    intro i hi
    have hlength := counted.length
    have hnew : ∀ j < window, getBit (passNumber c (last + 1)) (last + 1 + j) =
        if 0 = j then false else getBit c (last + 1 + j) := fun j hj => by
      have hfirst : 0 < c.m_receiveBitMap.length := by omega
      exact getBit_setBit hfirst (hj.trans_eq hlength.symm) false
    by_cases hlast : i + 1 = window
    · have hwrap : getBit (passNumber c (last + 1)) (last + 1 + window) =
          getBit (passNumber c (last + 1)) (last + 1) := by
        rw [← hlength]
        simp [getBit, passNumber, setBit]
      rw [show last + 1 + 1 + i = last + 1 + window by omega, hwrap, hnew 0 pos, if_pos rfl]
      refine iff_of_false Bool.false_ne_true ?_
      rintro (h | h)
      · omega
      · have := le _ h
        omega
    · rw [show last + 1 + 1 + i = last + 1 + (i + 1) by
        omega, hnew (i + 1) (by omega), if_neg (by omega)]
      exact counted.bits (i + 1) (by omega)
  lost := by
    have hbit := counted.bits 0 pos
    rw [Nat.add_zero] at hbit
    change (if getBit c (last + 1) then c.m_lost else c.m_lost + 1) = _
    by_cases hfilling : last + 1 ≤ window
    · rw [if_pos (hbit.mpr (Or.inl hfilling)), counted.lost, show last + 1 - window =
        last - window by omega]
    · rw [show last + 1 - window = last - window + 1 by omega] at hbit ⊢
      rw [missing_succ, ← counted.lost]
      by_cases hreceived : last - window + 1 ∈ received
      · rw [if_pos (hbit.mpr (Or.inr hreceived)), if_pos hreceived, Nat.add_zero]
      · rw [if_neg fun h => (hbit.mp h).elim hfilling hreceived, if_neg hreceived]

theorem Counted.passes (counted : Counted window received last c) (pos : 0 < window)
    (le : ∀ seq ∈ received, seq ≤ last) (rounds : ℕ) :
    Counted window received (last + rounds) (passNumbers rounds (last + 1) c) := by
  induction rounds generalizing last c with
  | zero => exact counted
  | succ rounds ih =>
    rw [show last + (rounds + 1) = last + 1 + rounds by omega]
    exact ih (counted.pass pos le) fun seq hseq => (le seq hseq).trans (Nat.le_succ _)

theorem Counted.receive (counted : Counted window received last c) (inside : last < seq + window)
    (le : seq ≤ last) : Counted window (received ++ [seq]) last (setBit c seq true) where
  length := length_set.trans counted.length
  bits := by
    intro i hi
    have hlength := counted.length
    have hplace : setBit c seq true = setBit c (last + 1 + (seq + window - (last + 1))) true := by
      rw [show last + 1 + (seq + window - (last + 1)) = seq + window by omega, ← hlength]
      simp [setBit]
    rw [hplace, getBit_setBit (by omega) (by omega), mem_append, mem_singleton]
    by_cases hsame : seq + window - (last + 1) = i
    · rw [if_pos hsame]
      exact iff_of_true rfl (by omega)
    · rw [if_neg hsame, counted.bits i hi]
      constructor
      · tauto
      · rintro (h | h | h)
        · exact Or.inl h
        · exact Or.inr h
        · omega
  lost := by
    refine counted.lost.trans (countP_congr fun k hk => ?_)
    have hlt := mem_range.mp hk
    simp [show k + 1 ≠ seq by omega]

/-- In whatever order packets come, as long as none is older than the window, the lost ones are the
numbers from 1 on that the window has moved past and that have not come. The bits are all set at
first, so that number 0 never counts as lost. -/
theorem lost_right {m_bitMapSize : ℕ} (pos : 0 < m_bitMapSize) (seqs : List ℕ)
    (inside : Along step (fun c seq => c.m_lastMaxSeqNum < seq + m_bitMapSize * 8 ∧
      seq < 2 ^ 32 - 1) (construct m_bitMapSize) seqs) :
    Ensures (exec step (construct m_bitMapSize) seqs)
      (fun c => c.m_lost = missing seqs (c.m_lastMaxSeqNum - m_bitMapSize * 8)) fun _ => False := by
  have keep : ∀ received c seq, (Counted (m_bitMapSize * 8) received c.m_lastMaxSeqNum c ∧
      ∀ seq ∈ received, seq ≤ c.m_lastMaxSeqNum) →
      c.m_lastMaxSeqNum < seq + m_bitMapSize * 8 ∧ seq < 2 ^ 32 - 1 →
      Ensures (step c seq)
        (fun c' => Counted (m_bitMapSize * 8) (received ++ [seq]) c'.m_lastMaxSeqNum c' ∧
        ∀ seq' ∈ received ++ [seq], seq' ≤ c'.m_lastMaxSeqNum) fun _ => False := by
    rintro received c seq ⟨hcounted, hle⟩ ⟨hinside, -⟩
    have hpassed := hcounted.passes (by omega) hle (seq - c.m_lastMaxSeqNum)
    have hreceived := hpassed.receive (show _ < seq + _ by omega) (by omega)
    rw [show c.m_lastMaxSeqNum + (seq - c.m_lastMaxSeqNum) = max c.m_lastMaxSeqNum seq by
      omega] at hreceived
    refine ⟨⟨hreceived.length, hreceived.bits, hreceived.lost⟩, fun seq' h => ?_⟩
    rcases mem_append.mp h with hold | hnew
    · exact (hle seq' hold).trans (le_max_left _ _)
    · exact mem_singleton.mp hnew ▸ le_max_right _ _
  have init : Counted (m_bitMapSize * 8) [] 0 (construct m_bitMapSize) := by
    refine ⟨length_replicate, fun i hi => iff_of_true ?_ (Or.inl (by omega)), by
      simp [construct, missing]⟩
    simp [getBit, construct, getD_eq_getElem?_getD,
      Nat.mod_lt _ (show 0 < m_bitMapSize * 8 by omega)]
  exact (ensures_exec_history keep ⟨init, forall_mem_nil _⟩ inside).weaken fun c h => h.1.lost

theorem lost_right_reordered : Ensures (exec step (construct 1) [1, 4, 2, 9, 12, 5, 14])
    (fun c => c.m_lost = missing [1, 4, 2, 9, 12, 5, 14] (c.m_lastMaxSeqNum - 1 * 8)) fun _ =>
      False :=
  lost_right (by decide) _ (by decide +kernel)

end Egsr.Applications
