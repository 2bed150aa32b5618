import Mathlib.Data.List.Perm.Subperm
import Egsr.Lib.Outcome
import Egsr.Lib.ReorderBuffer

/-! Reordering of MPDUs at the recipient of a block-ack agreement, for HT
stations. Sequence numbers count modulo 4096. -/

namespace Egsr.Wifi.BlockAck

open Lib.Run Lib.Outcome List

structure Mpdu where
  m_seqSeq : Fin 4096
  m_seqFrag : Fin 16
  m_ctrlMoreFrag : Bool
  packet : List UInt8
deriving DecidableEq

def Mpdu.getSequenceControl (mpdu : Mpdu) : ℕ := 16 * mpdu.m_seqSeq + mpdu.m_seqFrag

structure Recipient where
  m_startingSeq : ℕ
  m_winEnd : ℕ
  buffer : List Mpdu
  /-- The calls of `m_rxCallback`. -/
  calls : List Mpdu
  /-- The starting sequence, counted on without wrapping. -/
  number : ℕ
  /-- The MPDUs that were not old when received, with their numbers counted in the same way. -/
  accepted : List (ℕ × Mpdu)
deriving DecidableEq

inductive Fault where
  /-- The loop over MPDUs with smaller sequence does not get past a fragment that more follow. -/
  | endless
deriving DecidableEq

def distance (startingSeq seqNumber : ℕ) : ℕ := (seqNumber + 4096 - startingSeq) % 4096

def isOldPacket (startingSeq seqNumber : ℕ) : Bool := 2048 ≤ distance startingSeq seqNumber

def isInWindow (seq winstart winsize : ℕ) : Bool := distance winstart seq < winsize

def mapSeqControlToUniqueInteger (seqControl endSequence : ℕ) : ℕ :=
  (4096 - (endSequence + 1) + seqControl / 16 % 4096) % 4096 * 16 + seqControl % 16

def insertMapped (endSequence : ℕ) (mpdu : Mpdu) : List Mpdu → List Mpdu
  | [] => [mpdu]
  | i :: rest =>
    if mapSeqControlToUniqueInteger i.getSequenceControl endSequence <
        mapSeqControlToUniqueInteger mpdu.getSequenceControl endSequence then
      i :: insertMapped endSequence mpdu rest
    else mpdu :: i :: rest

/-- The loop of `RxCompleteBufferedPacketsWithSmallerSequence`: what is passed up and what stays.
`guard` is the sequence control that was passed up last; what has the same one is skipped. -/
def completeSmaller (endSequence mappedStart : ℕ) : Option ℕ → List Mpdu →
    Except Fault (List Mpdu × List Mpdu)
  | _, [] => .ok ([], [])
  | guard, i :: rest =>
    if guard = some i.getSequenceControl then completeSmaller endSequence mappedStart guard rest
    else if mapSeqControlToUniqueInteger i.getSequenceControl endSequence < mappedStart then
      if i.m_ctrlMoreFrag then .error .endless
      else (completeSmaller endSequence mappedStart (some i.getSequenceControl) rest).map
        fun out => (i :: out.1, out.2)
    else .ok ([], i :: rest)

/-- The loop of `RxCompleteBufferedPacketsUntilFirstLost`: what is passed up, the last guard and
what stays. `fragments` are those from `lastComplete` on. -/
def completeUntilFirstLost (guard : ℕ) (fragments : List Mpdu) : List Mpdu →
    List Mpdu × ℕ × List Mpdu
  | [] => ([], guard, fragments)
  | i :: rest =>
    if guard = i.getSequenceControl then
      if i.m_ctrlMoreFrag then completeUntilFirstLost ((guard + 1) % 65536) (fragments ++ [i]) rest
      else
        -- `(guard + 16) & 0xfff0`
        let out := completeUntilFirstLost ((guard + 16) % 65536 / 16 * 16) [] rest
        (fragments ++ i :: out.1, out.2)
    else ([], guard, fragments ++ i :: rest)

namespace Recipient

variable (bufferSize : ℕ) (s : Recipient)

def setStartingSequence (seq : ℕ) : Recipient :=
  { s with m_startingSeq := seq, number := s.number + distance s.m_startingSeq seq }

def setWinEnd (seq : ℕ) : Recipient := { s with m_winEnd := seq }

def getStartingSequenceControl : ℕ := 16 * s.m_startingSeq

def storeMpduIfNeeded (mpdu : Mpdu) : Recipient :=
  { s with buffer := insertMapped ((s.m_startingSeq + 2047) % 4096) mpdu s.buffer }

def rxCompleteBufferedPacketsWithSmallerSequence (seq : ℕ) : Except Fault Recipient :=
  let endSequence := (s.m_startingSeq + 2047) % 4096
  (completeSmaller endSequence (mapSeqControlToUniqueInteger seq endSequence) none s.buffer).map
    fun out =>
    { s with calls := s.calls ++ out.1, buffer := out.2 }

def rxCompleteBufferedPacketsUntilFirstLost : Recipient :=
  let out := completeUntilFirstLost s.getStartingSequenceControl [] s.buffer
  { s with calls := s.calls ++ out.1, buffer := out.2.2 }.setStartingSequence (out.2.1 / 16 % 4096)

def closeWindow : Recipient := s.setWinEnd ((s.m_startingSeq + bufferSize - 1) % 4096)

/-- `(seqNumber - GetWinEnd () + 4096) % 4096`, as an unsigned number of 16 bits. -/
def delta (seqNumber : ℕ) : ℕ := (((seqNumber : ℤ) - s.m_winEnd + 4096).tmod 4096 % 65536).toNat

def windowStart (seqNumber : ℕ) : ℕ := (seqNumber + 1 + 4096 - bufferSize) % 4096

def receiveMpdu (mpdu : Mpdu) : Except Fault Recipient := do
  let seqNumber : ℕ := mpdu.m_seqSeq
  if isOldPacket s.m_startingSeq seqNumber then .ok s
  else
    let s := { s with
      accepted := s.accepted ++ [(s.number + distance s.m_startingSeq seqNumber, mpdu)] }
    let s := s.storeMpduIfNeeded mpdu
    let s ← (if isInWindow seqNumber s.m_startingSeq bufferSize then .ok s
      else if s.delta seqNumber > 1 then
        let s := (s.setWinEnd seqNumber).setStartingSequence (windowStart bufferSize seqNumber)
        s.rxCompleteBufferedPacketsWithSmallerSequence s.getStartingSequenceControl
      else .ok s)
    .ok (s.rxCompleteBufferedPacketsUntilFirstLost.closeWindow bufferSize)

/-- What `SendBlockAckAfterBlockAckRequest` does before it responds. -/
def blockAckRequest (startingSeq : Fin 4096) : Except Fault Recipient := do
  if isOldPacket s.m_startingSeq startingSeq then .ok s
  else
    let s := (s.setStartingSequence startingSeq).closeWindow bufferSize
    let s ← s.rxCompleteBufferedPacketsWithSmallerSequence (16 * startingSeq)
    .ok (s.rxCompleteBufferedPacketsUntilFirstLost.closeWindow bufferSize)

/-- After `CreateBlockAckAgreement`, which does not set the end of the window. -/
def initial (startingSeq : Fin 4096) (winEnd : UInt16) : Recipient :=
  ⟨startingSeq, winEnd.toNat, [], [], startingSeq, []⟩

end Recipient

inductive Action where
  | receiveMpdu (mpdu : Mpdu)
  | blockAckRequest (startingSeq : Fin 4096)
deriving DecidableEq

def step (bufferSize : ℕ) (s : Recipient) : Action → Except Fault Recipient
  | .receiveMpdu mpdu => s.receiveMpdu bufferSize mpdu
  | .blockAckRequest startingSeq => s.blockAckRequest bufferSize startingSeq

/-! ## Distances -/

section Distances

variable {start m n d k s : ℕ}

theorem distance_lt (start s : ℕ) : distance start s < 4096 := Nat.mod_lt _ (by decide)

theorem distance_self (start : ℕ) : distance start start = 0 := by
  rw [distance, Nat.add_sub_cancel_left, Nat.mod_self]

theorem add_distance (hstart : start < 4096) (hs : s < 4096) : s =
    (start + distance start s) % 4096 := by
  unfold distance
  omega

theorem distance_add (hstart : start < 4096) (hd : d < 4096) :
    distance start ((start + d) % 4096) = d := by
  unfold distance
  omega

theorem distance_from (hstart : start < 4096) (hd : d < 4096) (hs : s < 4096) :
    distance ((start + d) % 4096) s = (distance start s + 4096 - d) % 4096 := by
  unfold distance
  omega

theorem distance_moved (hstart : start < 4096) (hs : s < 4096) (hk : k ≤ distance start s) :
    distance ((start + k) % 4096) s = distance start s - k := by
  have hlt := distance_lt start s
  rw [distance_from hstart (by omega) hs]
  omega

theorem distance_succ (hstart : start < 4096) (hs : s < 4096) (far : distance start s < 4095) :
    distance start ((s + 1) % 4096) = distance start s + 1 := by
  simp only [distance] at *
  omega

theorem distance_inj (hstart : start < 4096) (hm : m < 4096) (hn : n < 4096)
    (h : distance start m = distance start n) : m = n := by
  rw [add_distance hstart hm, h, ← add_distance hstart hn]

theorem distance_pos (hstart : start < 4096) (hs : s < 4096) (hne : s ≠ start) : 0 <
    distance start s :=
  Nat.pos_of_ne_zero fun h =>
    hne (distance_inj hstart hs hstart (h.trans (distance_self start).symm))

theorem distance_next_le_iff {last : ℕ} (hstart : start < 4096) (hs : s < 4096)
    (hlast : last < 4096) (hne : s ≠ start) (unfinished : last ≠ start) :
    distance ((start + 1) % 4096) s ≤ distance ((start + 1) % 4096) last ↔
      distance start s ≤ distance start last := by
  have hpos := distance_pos hstart hs hne
  have hpos' := distance_pos hstart hlast unfinished
  rw [distance_moved hstart hs hpos, distance_moved hstart hlast hpos']
  omega

end Distances

/-! ## Numbers

An MPDU is numbered like the starting sequence. Its number tells where it stands. -/

open Lib.ReorderBuffer

structure Plain (p : ℕ × Mpdu) : Prop where
  seq : (p.2.m_seqSeq : ℕ) = p.1 % 4096
  frag : p.2.m_seqFrag = 0
  complete : p.2.m_ctrlMoreFrag = false

section Numbers

variable {p q : ℕ × Mpdu} {l : List (ℕ × Mpdu)} {number : ℕ}

theorem Plain.sequenceControl (h : Plain p) : p.2.getSequenceControl = 16 * (p.1 % 4096) := by
  rw [Mpdu.getSequenceControl, h.seq, h.frag]
  rfl

theorem mapped_eq {n : ℕ} (above : number ≤ n + 2048) (below : n < number + 2048) :
    mapSeqControlToUniqueInteger (16 * (n % 4096)) ((number % 4096 + 2047) % 4096) =
      16 * (n + 2048 - number) := by
  rw [mapSeqControlToUniqueInteger]
  omega

def Near (number : ℕ) (l : List (ℕ × Mpdu)) : Prop :=
  ∀ p ∈ l, Plain p ∧ number ≤ p.1 + 2048 ∧ p.1 < number + 2048

theorem Near.mapped (near : Near number l) (mem : p ∈ l) :
    mapSeqControlToUniqueInteger p.2.getSequenceControl ((number % 4096 + 2047) % 4096) =
      16 * (p.1 + 2048 - number) := by
  obtain ⟨hplain, habove, hbelow⟩ := near p mem
  rw [hplain.sequenceControl]
  exact mapped_eq habove hbelow

theorem insertMapped_eq (near : Near number (p :: l)) :
    insertMapped ((number % 4096 + 2047) % 4096) p.2 (l.map Prod.snd) =
    (hold p l).map Prod.snd := by
  induction l with
  | nil => rfl
  | cons q rest ih =>
    have hrest : Near number (p :: rest) := fun r hr => by
      rcases mem_cons.mp hr with rfl | hr
      · exact near r mem_cons_self
      · exact near r (mem_cons_of_mem _ (mem_cons_of_mem _ hr))
    obtain ⟨-, hp, -⟩ := near p mem_cons_self
    obtain ⟨-, hq, -⟩ := near q (mem_cons_of_mem _ mem_cons_self)
    rw [map_cons, insertMapped, hold, near.mapped mem_cons_self,
      near.mapped (mem_cons_of_mem _ mem_cons_self)]
    by_cases hlt : q.1 < p.1
    · rw [if_pos (by omega), if_pos hlt, ih hrest, map_cons]
    · rw [if_neg (by omega), if_neg hlt, map_cons, map_cons]

theorem sequenceControl_eq_iff (hp : Plain p) (hq : Plain q) (near : p.1 < q.1 + 4096)
    (near' : q.1 < p.1 + 4096) : p.2.getSequenceControl = q.2.getSequenceControl ↔ p.1 = q.1 := by
  rw [hp.sequenceControl, hq.sequenceControl]
  omega

theorem completeSmaller_eq (near : Near number l) (last : Option (ℕ × Mpdu))
    (nearLast : ∀ p ∈ last, Plain p ∧ number ≤ p.1 + 2048 ∧ p.1 < number + 2048) :
    completeSmaller ((number % 4096 + 2047) % 4096)
        (mapSeqControlToUniqueInteger (16 * (number % 4096)) ((number % 4096 + 2047) % 4096))
        (last.map fun p => p.2.getSequenceControl) (l.map Prod.snd) =
      .ok ((releaseBelow number (last.map Prod.fst) l).1.map Prod.snd,
        (releaseBelow number (last.map Prod.fst) l).2.map Prod.snd) := by
  induction l generalizing last with
  | nil => rfl
  | cons p rest ih =>
    have hp := near p mem_cons_self
    have hrest : Near number rest := fun q hq => near q (mem_cons_of_mem _ hq)
    have hsame : last.map (fun p => p.2.getSequenceControl) = some p.2.getSequenceControl ↔
        last.map Prod.fst = some p.1 := by
      cases last with
      | none => simp
      | some q =>
        obtain ⟨hplain, habove, hbelow⟩ := nearLast q rfl
        rw [Option.map_some, Option.map_some, Option.some.injEq, Option.some.injEq]
        exact sequenceControl_eq_iff hplain hp.1 (by omega) (by omega)
    rw [map_cons, completeSmaller, releaseBelow, mapped_eq (by omega) (by omega),
      near.mapped mem_cons_self]
    by_cases hlast : last.map Prod.fst = some p.1
    · rw [if_pos (hsame.mpr hlast), if_pos hlast, ← ih hrest last nearLast,
        mapped_eq (by omega) (by omega)]
    · rw [if_neg (hsame.not.mpr hlast), if_neg hlast]
      by_cases hlt : p.1 < number
      · have hnext := ih hrest (some p) fun q hq => by
          obtain rfl := Option.some.inj hq
          exact hp
        rw [mapped_eq (by omega) (by omega)] at hnext
        rw [if_pos (by omega), if_neg (by simp [hp.1.complete]), if_pos hlt]
        rw [Option.map_some, Option.map_some] at hnext
        rw [hnext]
        rfl
      · rw [if_neg (by omega), if_neg hlt]
        rfl

theorem completeUntilFirstLost_eq (near : Near number l) (sorted : Sorted l) :
    completeUntilFirstLost (16 * (number % 4096)) [] (l.map Prod.snd) =
      ((releaseFrom number l).1.map Prod.snd, 16 * ((releaseFrom number l).2.1 % 4096),
        (releaseFrom number l).2.2.map Prod.snd) := by
  induction l generalizing number with
  | nil => rfl
  | cons p rest ih =>
    obtain ⟨hplain, habove, hbelow⟩ := near p mem_cons_self
    obtain ⟨hfirst, hsorted⟩ := pairwise_cons.mp sorted
    rw [map_cons, completeUntilFirstLost, releaseFrom, hplain.sequenceControl]
    by_cases hsame : p.1 = number
    · subst hsame
      have hguard : (16 * (p.1 % 4096) + 16) % 65536 / 16 * 16 = 16 * ((p.1 + 1) % 4096) := by omega
      have hrest : Near (p.1 + 1) rest := by
        intro q hq
        obtain ⟨hplain', -, hlt⟩ := near q (mem_cons_of_mem _ hq)
        have hle := hfirst q hq
        exact ⟨hplain', by omega, by omega⟩
      rw [if_pos rfl, if_neg (by simp [hplain.complete]), if_pos rfl, hguard, ih hrest hsorted]
      rfl
    · rw [if_neg (by omega), if_neg hsame]
      rfl

end Numbers

/-! ## Runs -/

structure Numbered (first : ℕ) (s : Recipient) (called waiting : List (ℕ × Mpdu)) : Prop where
  start : s.m_startingSeq = s.number % 4096
  first_le : first ≤ s.number
  calls : called.map Prod.snd = s.calls
  buffer : waiting.map Prod.snd = s.buffer
  plain : ∀ p ∈ called ++ waiting, Plain p
  before : ∀ p ∈ called, p.1 < s.number
  increasing : Increasing called
  apart : ∀ p ∈ called, ∀ q ∈ waiting, p.1 < q.1
  sorted : Sorted waiting
  accepted : ∀ p ∈ called ++ waiting, p ∈ s.accepted
  covered : ∀ p ∈ s.accepted, ∃ q ∈ called ++ waiting, q.1 = p.1

/-- An MPDU that has a copy in the buffer comes after a gap. -/
def CopiesStay (startingSeq : ℕ) (buffer : List Mpdu) : Prop :=
  ∀ m ∈ buffer, isOldPacket startingSeq m.m_seqSeq = false →
    (∃ j < distance startingSeq m.m_seqSeq, ∀ i ∈ buffer, (i.m_seqSeq : ℕ) ≠
      (startingSeq + j) % 4096) ∨ buffer.countP (fun i => i.m_seqSeq = m.m_seqSeq) ≤ 1

section Steps

variable {first bufferSize number : ℕ} {s : Recipient} {called waiting : List (ℕ × Mpdu)}

theorem Numbered.setWinEnd (h : Numbered first s called waiting) (seq : ℕ) :
    Numbered first (s.setWinEnd seq) called waiting :=
  ⟨h.start, h.first_le, h.calls, h.buffer, h.plain, h.before, h.increasing, h.apart, h.sorted,
    h.accepted, h.covered⟩

theorem Numbered.setStartingSequence (h : Numbered first s called waiting) {seq : ℕ}
    (bound : seq < 4096) : Numbered first (s.setStartingSequence seq) called waiting := by
  have hstart := h.start
  have hstart' : seq = (s.number + distance s.m_startingSeq seq) % 4096 := by
    rw [distance]
    omega
  exact ⟨hstart', h.first_le.trans (Nat.le_add_right _ _), h.calls, h.buffer, h.plain,
    fun p hp => (h.before p hp).trans_le (Nat.le_add_right _ _), h.increasing, h.apart, h.sorted,
      h.accepted, h.covered⟩

theorem copiesWait {buffer : List Mpdu} (copies : CopiesStay (number % 4096) buffer)
    (sub : (waiting.map Prod.snd).Subperm buffer)
    (near : ∀ p ∈ waiting, Plain p ∧ number ≤ p.1 ∧ p.1 < number + 2048) :
      CopiesWait number waiting := by
  intro p hp
  obtain ⟨hplain, hle, hlt⟩ := near p hp
  have hdistance : distance (number % 4096) p.2.m_seqSeq = p.1 - number := by
    rw [distance, hplain.seq]
    omega
  have hnew : isOldPacket (number % 4096) p.2.m_seqSeq = false := by
    rw [isOldPacket, hdistance, decide_eq_false_iff_not]
    omega
  have hmem : ∀ q ∈ waiting, q.2 ∈ buffer := fun q hq => sub.subset (mem_map_of_mem hq)
  rcases copies p.2 (hmem p hp) hnew with ⟨j, hj, hgap⟩ | hcount
  · rw [hdistance] at hj
    refine .inl ⟨number + j, by omega, by omega, fun q hq heq => hgap q.2 (hmem q hq) ?_⟩
    rw [(near q hq).1.seq, heq]
    omega
  · refine .inr (le_trans ?_ ((sub.countP_le _).trans hcount))
    rw [countP_map]
    refine countP_mono_left fun q hq heq => ?_
    rw [Function.comp_apply, decide_eq_true_eq, Fin.ext_iff, (near q hq).1.seq, hplain.seq,
      of_decide_eq_true heq]

theorem Numbered.flush (h : Numbered first s called waiting) (near : Near s.number waiting) :
    ∃ t called' waiting',
      s.rxCompleteBufferedPacketsWithSmallerSequence s.getStartingSequenceControl = .ok t ∧
      t.number = s.number ∧ Numbered first t called' waiting' ∧ waiting'.Sublist waiting ∧
        ∀ p ∈ waiting', s.number ≤ p.1 := by
  have hout := releaseBelow_spec s.number none h.sorted (by simp)
  have hrun : completeSmaller ((s.m_startingSeq + 2047) % 4096) (mapSeqControlToUniqueInteger
      s.getStartingSequenceControl ((s.m_startingSeq + 2047) % 4096)) none s.buffer =
        .ok ((releaseBelow s.number none waiting).1.map Prod.snd,
          (releaseBelow s.number none waiting).2.map Prod.snd) := by
    rw [Recipient.getStartingSequenceControl, h.start, ← h.buffer]
    exact completeSmaller_eq near none (by simp)
  generalize releaseBelow s.number none waiting = out at hout hrun
  refine ⟨{ s with calls := s.calls ++ out.1.map Prod.snd, buffer := out.2.map Prod.snd },
    called ++ out.1, out.2, ?_, rfl, ?_, hout.sublist, hout.kept⟩
  · exact congrArg (Except.map fun out => { s with calls := s.calls ++ out.1, buffer := out.2 })
      hrun
  have hmem : ∀ p ∈ called ++ out.1 ++ out.2, p ∈ called ++ waiting := by
    intro p hp
    rcases mem_append.mp hp with hp | hp
    · rcases mem_append.mp hp with hp | hp
      · exact mem_append_left _ hp
      · exact mem_append_right _ (hout.released p hp).1
    · exact mem_append_right _ (hout.sublist.subset hp)
  refine ⟨h.start, h.first_le, by
    rw [map_append, h.calls], rfl, fun p hp => h.plain p (hmem p hp), fun p hp => ?_,
    pairwise_append.mpr ⟨h.increasing, hout.increasing, fun p hp q hq =>
      h.apart p hp q (hout.released q hq).1⟩,
    fun p hp q hq => ?_, h.sorted.sublist hout.sublist, fun p hp =>
      h.accepted p (hmem p hp), fun p hp => ?_⟩
  · rcases mem_append.mp hp with hp | hp
    · exact h.before p hp
    · exact (hout.released p hp).2.1
  · rcases mem_append.mp hp with hp | hp
    · exact h.apart p hp q (hout.sublist.subset hq)
    · exact (hout.released p hp).2.1.trans_le (hout.kept q hq)
  · obtain ⟨q, hq, heq⟩ := h.covered p hp
    rcases mem_append.mp hq with hq | hq
    · exact ⟨q, mem_append_left _ (mem_append_left _ hq), heq⟩
    · rcases hout.covered q hq with hnone | ⟨r, hr, hsame⟩ | hkept
      · cases hnone
      · exact ⟨r, mem_append_left _ (mem_append_right _ hr), hsame.trans heq⟩
      · exact ⟨q, mem_append_right _ hkept, heq⟩

theorem Numbered.drain (h : Numbered first s called waiting)
    (ahead : ∀ p ∈ waiting, s.number ≤ p.1 ∧ p.1 < s.number + bufferSize) (small : bufferSize ≤ 256)
    (copies : CopiesWait s.number waiting) :
    ∃ called' waiting', Numbered first s.rxCompleteBufferedPacketsUntilFirstLost called' waiting' ∧
      ∀ p ∈ waiting', s.rxCompleteBufferedPacketsUntilFirstLost.number < p.1 ∧
        p.1 < s.rxCompleteBufferedPacketsUntilFirstLost.number + bufferSize := by
  have hnear : Near s.number waiting := fun p hp =>
    ⟨h.plain p (mem_append_right _ hp), by have := ahead p hp; omega, by have := ahead p hp; omega⟩
  have hout := releaseFrom_spec h.sorted (fun p hp => (ahead p hp).1) copies
  have hrun := completeUntilFirstLost_eq hnear h.sorted
  generalize releaseFrom s.number waiting = out at hout hrun
  obtain ⟨released, stop, kept⟩ := out
  have hstop : stop ≤ s.number + bufferSize := by
    rcases hout.stop with heq | ⟨p, hp, heq⟩
    · exact heq.le.trans (Nat.le_add_right _ _)
    · have := (ahead p (hout.released p hp).1).2
      exact heq.ge.trans this
  have hle : s.number ≤ stop := hout.le
  have hresult : s.rxCompleteBufferedPacketsUntilFirstLost =
      { s with
        calls := s.calls ++ released.map Prod.snd, buffer := kept.map Prod.snd }.setStartingSequence
        (16 * (stop % 4096) / 16 % 4096) := by
    rw [Recipient.rxCompleteBufferedPacketsUntilFirstLost, Recipient.getStartingSequenceControl,
      h.start, ← h.buffer, hrun]
  have hnumber : s.rxCompleteBufferedPacketsUntilFirstLost.number = stop := by
    have hstart := h.start
    rw [hresult]
    change s.number + distance s.m_startingSeq (16 * (stop % 4096) / 16 % 4096) = stop
    rw [distance, hstart]
    omega
  have hmem : ∀ p ∈ called ++ released ++ kept, p ∈ called ++ waiting := by
    intro p hp
    rcases mem_append.mp hp with hp | hp
    · rcases mem_append.mp hp with hp | hp
      · exact mem_append_left _ hp
      · exact mem_append_right _ (hout.released p hp).1
    · exact mem_append_right _ (hout.sublist.subset hp)
  refine ⟨called ++ released, kept,
    ⟨?_, ?_, ?_, ?_, fun p hp => h.plain p (hmem p hp), fun p hp => ?_,
    pairwise_append.mpr ⟨h.increasing, hout.increasing, fun p hp q hq =>
      h.apart p hp q (hout.released q hq).1⟩,
    fun p hp q hq => ?_, h.sorted.sublist hout.sublist, fun p hp => ?_, fun p hp => ?_⟩,
      fun p hp => ?_⟩
  · rw [hnumber, hresult]
    change 16 * (stop % 4096) / 16 % 4096 = stop % 4096
    omega
  · rw [hnumber]
    exact h.first_le.trans hle
  · rw [hresult, map_append, h.calls]
    rfl
  · rw [hresult]
    rfl
  · rw [hnumber]
    rcases mem_append.mp hp with hp | hp
    · exact (h.before p hp).trans_le hle
    · exact (hout.released p hp).2.2
  · rcases mem_append.mp hp with hp | hp
    · exact h.apart p hp q (hout.sublist.subset hq)
    · exact (hout.released p hp).2.2.trans (hout.kept q hq)
  · rw [hresult]
    exact h.accepted p (hmem p hp)
  · rw [hresult] at hp
    obtain ⟨q, hq, heq⟩ := h.covered p hp
    rcases mem_append.mp hq with hq | hq
    · exact ⟨q, mem_append_left _ (mem_append_left _ hq), heq⟩
    · rcases hout.covered q hq with hreleased | hkept
      · exact ⟨q, mem_append_left _ (mem_append_right _ hreleased), heq⟩
      · exact ⟨q, mem_append_right _ hkept, heq⟩
  · rw [hnumber]
    exact ⟨hout.kept p hp,
      (ahead p (hout.sublist.subset hp)).2.trans_le (Nat.add_le_add_right hle _)⟩

/-- What is buffered is ahead of the starting sequence, and in the window. -/
def Settled (bufferSize first : ℕ) (s : Recipient) : Prop :=
  ∃ called waiting, Numbered first s called waiting ∧
    ∀ p ∈ waiting, s.number < p.1 ∧ p.1 < s.number + bufferSize

/-- An MPDU that is received moves the window when it is beyond it, and does not lead to a copy. -/
def CopiesStayAfter (bufferSize : ℕ) (s : Recipient) : Action → Prop
  | .receiveMpdu mpdu => isOldPacket s.m_startingSeq mpdu.m_seqSeq = true ∨
      if isInWindow mpdu.m_seqSeq s.m_startingSeq bufferSize = true then
        CopiesStay s.m_startingSeq (mpdu :: s.buffer)
      else 1 < s.delta mpdu.m_seqSeq ∧ CopiesStay (Recipient.windowStart bufferSize mpdu.m_seqSeq)
      (mpdu :: s.buffer)
  | .blockAckRequest startingSeq => isOldPacket s.m_startingSeq startingSeq = true ∨
      CopiesStay startingSeq s.buffer

def Unfragmented : Action → Prop
  | .receiveMpdu mpdu => mpdu.m_seqFrag = 0 ∧ mpdu.m_ctrlMoreFrag = false
  | .blockAckRequest _ => True

theorem Numbered.settled (h : Numbered first s called waiting)
    (ahead : ∀ p ∈ waiting, s.number ≤ p.1 ∧ p.1 < s.number + bufferSize) (small : bufferSize ≤ 256)
    (copies : CopiesWait s.number waiting) :
    Settled bufferSize
      first (s.rxCompleteBufferedPacketsUntilFirstLost.closeWindow bufferSize) := by
  obtain ⟨called', waiting', hnumbered, hahead⟩ := h.drain ahead small copies
  exact ⟨called', waiting', hnumbered.setWinEnd _, hahead⟩

theorem Numbered.store (h : Numbered first s called waiting) {mpdu : Mpdu} {n : ℕ}
    (plain : Plain (n, mpdu)) (le : s.number ≤ n) (near : Near s.number ((n, mpdu) :: waiting)) :
    Numbered first ({ s with accepted := s.accepted ++ [(n, mpdu)] }.storeMpduIfNeeded mpdu) called
      (hold (n, mpdu) waiting) := by
  have hmem : ∀ p ∈ called ++ hold (n, mpdu) waiting, p = (n, mpdu) ∨ p ∈ called ++ waiting := by
    intro p hp
    rcases mem_append.mp hp with hp | hp
    · exact .inr (mem_append_left _ hp)
    · exact (mem_hold.mp hp).imp_right fun hp => mem_append_right _ hp
  refine ⟨h.start, h.first_le, h.calls, ?_, fun p hp =>
    ?_, h.before, h.increasing, fun p hp q hq => ?_,
    sorted_hold h.sorted, fun p hp => ?_, fun p hp => ?_⟩
  · change _ = insertMapped ((s.m_startingSeq + 2047) % 4096) mpdu s.buffer
    rw [h.start, ← h.buffer, insertMapped_eq (p := (n, mpdu)) near]
  · rcases hmem p hp with rfl | hp
    · exact plain
    · exact h.plain p hp
  · rcases mem_hold.mp hq with rfl | hq
    · exact (h.before p hp).trans_le le
    · exact h.apart p hp q hq
  · rcases hmem p hp with rfl | hp
    · exact mem_append_right _ (mem_singleton.mpr rfl)
    · exact mem_append_left _ (h.accepted p hp)
  · rcases mem_append.mp hp with hp | hp
    · obtain ⟨q, hq, heq⟩ := h.covered p hp
      refine ⟨q, ?_, heq⟩
      rcases mem_append.mp hq with hq | hq
      · exact mem_append_left _ hq
      · exact mem_append_right _ (mem_hold.mpr (.inr hq))
    · rw [mem_singleton.mp hp]
      exact ⟨(n, mpdu), mem_append_right _ (mem_hold.mpr (.inl rfl)), rfl⟩

theorem Numbered.advance (h : Numbered first s called waiting) (near : Near s.number waiting)
    (below : ∀ p ∈ waiting, p.1 < s.number + bufferSize) (small : bufferSize ≤ 256)
    {buffer : List Mpdu}
    (copies : CopiesStay (s.number % 4096) buffer) (sub : (waiting.map Prod.snd).Subperm buffer) :
    Ensures (s.rxCompleteBufferedPacketsWithSmallerSequence s.getStartingSequenceControl)
      (fun t => Settled bufferSize
        first (t.rxCompleteBufferedPacketsUntilFirstLost.closeWindow bufferSize))
      (fun _ => False) := by
  obtain ⟨t, called', waiting', hrun, hnumber, hnumbered, hsub, hle⟩ := h.flush near
  rw [hrun, ensures_ok]
  have hahead : ∀ p ∈ waiting', t.number ≤ p.1 ∧ p.1 < t.number + bufferSize := by
    intro p hp
    rw [hnumber]
    exact ⟨hle p hp, below p (hsub.subset hp)⟩
  refine hnumbered.settled hahead small
    (copiesWait (hnumber.symm ▸ copies) ((hsub.map _).subperm.trans sub) fun p hp => ?_)
  obtain ⟨hge, hlt⟩ := hahead p hp
  exact ⟨(near p (hsub.subset hp)).1, hge, by omega⟩

theorem blockAckRequest_settled (h : Settled bufferSize first s) (small : bufferSize ≤ 256)
    (startingSeq : Fin 4096)
    (copies : CopiesStayAfter bufferSize s (.blockAckRequest startingSeq)) :
    Ensures (s.blockAckRequest bufferSize startingSeq) (Settled bufferSize first)
    (fun _ => False) := by
  unfold Recipient.blockAckRequest
  refine .ite (fun _ => ensures_ok.mpr h) fun hnew => ?_
  obtain ⟨called, waiting, hnumbered, hwindow⟩ := h
  have hcopies := copies.resolve_left hnew
  have hdistance : distance s.m_startingSeq startingSeq < 2048 := by simpa [isOldPacket] using hnew
  -- the window starts at the requested number
  have hmoved :
    Numbered first ((s.setStartingSequence startingSeq).closeWindow bufferSize) called waiting :=
    (hnumbered.setStartingSequence startingSeq.isLt).setWinEnd _
  have hstart := hmoved.start
  have hnumber : ((s.setStartingSequence startingSeq).closeWindow bufferSize).number =
      s.number + distance s.m_startingSeq startingSeq := rfl
  have hnear : Near (s.number + distance s.m_startingSeq startingSeq) waiting := fun p hp => by
    obtain ⟨hgt, hlt⟩ := hwindow p hp
    exact ⟨hmoved.plain p (mem_append_right _ hp), by omega, by omega⟩
  refine Ensures.bind ?_ fun t ht => ensures_ok.mpr ht
  have hcopies' : CopiesStay
    (((s.setStartingSequence startingSeq).closeWindow bufferSize).number % 4096) s.buffer :=
    hstart ▸ hcopies
  refine hmoved.advance (hnumber ▸ hnear) (fun p hp => ?_) small hcopies' ?_
  · rw [hnumber]
    exact (hwindow p hp).2.trans_le (by omega)
  · rw [hnumbered.buffer]

theorem receiveMpdu_settled (h : Settled bufferSize first s) (positive : 0 < bufferSize)
    (small : bufferSize ≤ 256) {mpdu : Mpdu} (unfragmented : Unfragmented (.receiveMpdu mpdu))
    (copies : CopiesStayAfter bufferSize s (.receiveMpdu mpdu)) :
    Ensures (s.receiveMpdu bufferSize mpdu) (Settled bufferSize first) (fun _ => False) := by
  unfold Recipient.receiveMpdu
  refine .ite (fun _ => ensures_ok.mpr h) fun hnew => ?_
  obtain ⟨called, waiting, hnumbered, hwindow⟩ := h
  have hcopies := copies.resolve_left hnew
  have hstart := hnumbered.start
  have hlt := mpdu.m_seqSeq.isLt
  have hdistance : distance s.m_startingSeq mpdu.m_seqSeq < 2048 := by
    simpa [isOldPacket] using hnew
  have hplain : Plain (s.number + distance s.m_startingSeq mpdu.m_seqSeq, mpdu) := by
    refine ⟨?_, unfragmented.1, unfragmented.2⟩
    change (mpdu.m_seqSeq : ℕ) = (s.number + distance s.m_startingSeq mpdu.m_seqSeq) % 4096
    rw [distance]
    omega
  have hnear :
      Near s.number ((s.number + distance s.m_startingSeq mpdu.m_seqSeq, mpdu) :: waiting) := by
    intro p hp
    rcases mem_cons.mp hp with rfl | hp
    · exact ⟨hplain, by dsimp only; omega, by dsimp only; omega⟩
    · obtain ⟨hgt, hbelow⟩ := hwindow p hp
      exact ⟨hnumbered.plain p (mem_append_right _ hp), by omega, by omega⟩
  have hstored := hnumbered.store hplain (Nat.le_add_right _ _) hnear
  have hsub : ((hold (s.number + distance s.m_startingSeq mpdu.m_seqSeq, mpdu) waiting).map
    Prod.snd).Subperm
      (mpdu :: s.buffer) := by
    rw [← hnumbered.buffer]
    exact ((hold_perm _ _).map Prod.snd).subperm
  dsimp only
  generalize hn : s.number + distance s.m_startingSeq mpdu.m_seqSeq =
    n at hplain hnear hstored hsub ⊢
  have hstoredStart :
    ({ s with accepted := s.accepted ++ [(n, mpdu)] }.storeMpduIfNeeded mpdu).m_startingSeq =
      s.m_startingSeq := rfl
  have hstoredNumber :
    ({ s with accepted := s.accepted ++ [(n, mpdu)] }.storeMpduIfNeeded mpdu).number = s.number :=
    rfl
  have hstoredDelta :
    ({ s with accepted := s.accepted ++ [(n, mpdu)] }.storeMpduIfNeeded mpdu).delta mpdu.m_seqSeq =
      s.delta mpdu.m_seqSeq := rfl
  generalize ({ s with accepted := s.accepted ++ [(n, mpdu)] }.storeMpduIfNeeded mpdu) = u
    at hstored hstoredStart hstoredNumber hstoredDelta ⊢
  rw [hstoredStart]
  have hhold : ∀ p ∈ hold (n, mpdu) waiting, Plain p ∧ s.number ≤ p.1 ∧ p.1 < s.number + 2048 := by
    intro p hp
    have hge : s.number ≤ p.1 := by
      rcases mem_hold.mp hp with rfl | hp
      · exact hn ▸ Nat.le_add_right _ _
      · exact (hwindow p hp).1.le
    obtain ⟨hplain, -, hbelow⟩ := hnear p (mem_cons.mpr (mem_hold.mp hp))
    exact ⟨hplain, hge, hbelow⟩
  by_cases hinWindow : isInWindow mpdu.m_seqSeq s.m_startingSeq bufferSize = true
  · rw [if_pos hinWindow] at hcopies ⊢
    have hin : distance s.m_startingSeq mpdu.m_seqSeq < bufferSize := by
      simpa [isInWindow] using hinWindow
    have hahead : ∀ p ∈ hold (n, mpdu) waiting, u.number ≤ p.1 ∧ p.1 < u.number + bufferSize := by
      intro p hp
      rw [hstoredNumber]
      refine ⟨(hhold p hp).2.1, ?_⟩
      rcases mem_hold.mp hp with rfl | hp
      · exact hn ▸ Nat.add_lt_add_left hin _
      · exact (hwindow p hp).2
    refine hstored.settled hahead small (copiesWait ?_ hsub (hstoredNumber ▸ hhold))
    rw [hstoredNumber, ← hstart]
    exact hcopies
  · rw [if_neg hinWindow] at hcopies ⊢
    have hout : bufferSize ≤ distance s.m_startingSeq mpdu.m_seqSeq := by
      simpa [isInWindow] using hinWindow
    rw [hstoredDelta, if_pos hcopies.1]
    have hmoved : Numbered first ((u.setWinEnd mpdu.m_seqSeq).setStartingSequence
        (Recipient.windowStart bufferSize mpdu.m_seqSeq)) called (hold (n, mpdu) waiting) :=
      (hstored.setWinEnd _).setStartingSequence (Nat.mod_lt _ (by decide))
    have hmovedStart := hmoved.start
    have hnumber : ((u.setWinEnd mpdu.m_seqSeq).setStartingSequence
        (Recipient.windowStart bufferSize mpdu.m_seqSeq)).number = n + 1 - bufferSize := by
      change u.number + distance u.m_startingSeq (Recipient.windowStart bufferSize mpdu.m_seqSeq) =
        n + 1 - bufferSize
      rw [hstoredNumber, hstoredStart, Recipient.windowStart, distance]
      rw [distance] at hn hout hdistance
      omega
    refine Ensures.bind ?_ fun t ht => ensures_ok.mpr ht
    refine hmoved.advance (fun p hp => ?_) (fun p hp => ?_) small (hmovedStart ▸ hcopies.2) hsub
    · obtain ⟨hplain, hge, hbelow⟩ := hhold p hp
      rw [hnumber]
      exact ⟨hplain, by omega, by omega⟩
    · rw [hnumber]
      rcases mem_hold.mp hp with rfl | hp
      · dsimp only
        omega
      · have := (hwindow p hp).2
        omega

theorem step_settled (h : Settled bufferSize first s) (positive : 0 < bufferSize)
    (small : bufferSize ≤ 256)
    (a : Action) (unfragmented : Unfragmented a) (copies : CopiesStayAfter bufferSize s a) :
    Ensures (step bufferSize s a) (Settled bufferSize first) (fun _ => False) := by
  cases a with
  | receiveMpdu mpdu => exact receiveMpdu_settled h positive small unfragmented copies
  | blockAckRequest startingSeq => exact blockAckRequest_settled h small startingSeq copies

/-- The calls and the buffered MPDUs, with the numbers that tell distinct MPDUs apart. -/
structure InOrder (bufferSize first : ℕ) (s : Recipient) (called waiting : List (ℕ × Mpdu)) :
    Prop where
  calls : called.map Prod.snd = s.calls
  buffer : waiting.map Prod.snd = s.buffer
  number : ∀ p ∈ called ++ waiting, (p.2.m_seqSeq : ℕ) = p.1 % 4096
  /-- Within half the space the sequence numbers show it as well. -/
  increasing : called.Pairwise fun p q => p.1 < q.1 ∧
    (q.1 < p.1 + 2048 → 0 < distance p.2.m_seqSeq q.2.m_seqSeq ∧
      distance p.2.m_seqSeq q.2.m_seqSeq < 2048)
  received : ∀ p ∈ called, p ∈ s.accepted
  once : ∀ p ∈ s.accepted, (∃ q ∈ called, q.1 = p.1) ↔ ¬∃ q ∈ waiting, q.1 = p.1
  window : ∀ m ∈ s.buffer, 0 < distance s.m_startingSeq m.m_seqSeq ∧
    distance s.m_startingSeq m.m_seqSeq ≤ bufferSize - 1
  /-- When all MPDUs up to some point have been received, none of them stays buffered. -/
  complete : ∀ n, (∀ k, first ≤ k → k ≤ n → ∃ p ∈ s.accepted, p.1 = k) → ∀ p ∈ waiting, n < p.1

theorem Settled.inOrder (h : Settled bufferSize first s) (small : bufferSize ≤ 256) :
    ∃ called waiting, InOrder bufferSize first s called waiting := by
  obtain ⟨called, waiting, hnumbered, hwindow⟩ := h
  have hstart := hnumbered.start
  have hplain : ∀ p ∈ called ++ waiting, (p.2.m_seqSeq : ℕ) = p.1 % 4096 :=
    fun p hp => (hnumbered.plain p hp).seq
  have hcalled : ∀ p ∈ called, (p.2.m_seqSeq : ℕ) = p.1 % 4096 :=
    fun p hp => hplain p (mem_append_left _ hp)
  refine ⟨called, waiting, hnumbered.calls, hnumbered.buffer, hplain, ?_,
    fun p hp => hnumbered.accepted p (mem_append_left _ hp), fun p hp => ?_, fun m hm =>
      ?_, fun n hall p hp => ?_⟩
  · refine hnumbered.increasing.imp_of_mem fun {p q} hp hq hlt => ⟨hlt, fun hnear => ?_⟩
    rw [distance, hcalled p hp, hcalled q hq]
    omega
  · constructor
    · rintro ⟨q, hq, heq⟩ ⟨r, hr, heq'⟩
      have := hnumbered.apart q hq r hr
      omega
    · intro hleft
      obtain ⟨q, hq, heq⟩ := hnumbered.covered p hp
      rcases mem_append.mp hq with hq | hq
      · exact ⟨q, hq, heq⟩
      · exact absurd ⟨q, hq, heq⟩ hleft
  · rw [← hnumbered.buffer] at hm
    obtain ⟨p, hp, rfl⟩ := mem_map.mp hm
    obtain ⟨hgt, hlt⟩ := hwindow p hp
    rw [distance, hplain p (mem_append_right _ hp), hstart]
    omega
  · -- the starting sequence itself would be received, but it is neither passed up nor buffered
    by_contra hle
    obtain ⟨hgt, -⟩ := hwindow p hp
    obtain ⟨q, hq, heq⟩ := hall s.number hnumbered.first_le (by omega)
    obtain ⟨r, hr, hsame⟩ := hnumbered.covered q hq
    rcases mem_append.mp hr with hr | hr
    · have := hnumbered.before r hr
      omega
    · have := (hwindow r hr).1
      omega

/-- MPDUs are passed up in order and once. -/
theorem reordering (positive : 0 < bufferSize) (small : bufferSize ≤ 256) (startingSeq : Fin 4096)
    (winEnd : UInt16) (actions : List Action) (unfragmented : ∀ a ∈ actions, Unfragmented a)
    (along : Along (step bufferSize) (CopiesStayAfter bufferSize) (.initial startingSeq winEnd)
      actions) :
    Ensures (exec (step bufferSize) (.initial startingSeq winEnd) actions)
      (fun s => ∃ called waiting, InOrder bufferSize startingSeq s called waiting)
      (fun _ => False) := by
  have hinitial : Settled bufferSize startingSeq (.initial startingSeq winEnd) := by
    refine ⟨[], [], ⟨(Nat.mod_eq_of_lt startingSeq.isLt).symm, le_rfl, rfl, rfl, ?_, ?_, .nil, ?_,
      .nil, ?_, ?_⟩, ?_⟩ <;>
      simp [Recipient.initial]
  have hguarded := (along_of_mem (s := Recipient.initial startingSeq winEnd) unfragmented).and along
  have hrun :=
    ensures_exec (fun s a hs hguard => step_settled hs positive small a hguard.1 hguard.2) hinitial
      hguarded
  exact hrun.weaken fun s hs => hs.inOrder small

end Steps

/-! The conditions can be checked along a run. -/

instance (startingSeq : ℕ) (buffer : List Mpdu) : Decidable (CopiesStay startingSeq buffer) := by
  unfold CopiesStay
  infer_instance

instance (bufferSize : ℕ) (s : Recipient) : DecidablePred (CopiesStayAfter bufferSize s)
  | .receiveMpdu mpdu => by
    unfold CopiesStayAfter
    infer_instance
  | .blockAckRequest startingSeq => by
    unfold CopiesStayAfter
    infer_instance

def plainMpdu (seq : Fin 4096) : Mpdu := ⟨seq, 0, false, [seq.val.toUInt8]⟩

/-- Two MPDUs are lost, and one comes twice before a block-ack request passes them over. -/
def lossyRun : List Action :=
  [.receiveMpdu (plainMpdu 4094), .receiveMpdu (plainMpdu 0), .receiveMpdu (plainMpdu 2),
    .receiveMpdu (plainMpdu 2),
    .blockAckRequest 3, .receiveMpdu (plainMpdu 3), .receiveMpdu (plainMpdu 21),
      .receiveMpdu (plainMpdu 6)]

theorem reordering_lossy : Ensures (exec (step 16) (.initial 4094 0) lossyRun)
    (fun s => ∃ called waiting, InOrder 16 (4094 : Fin 4096) s called waiting)
    (fun _ => False) := by
  apply reordering
  · decide
  · decide
  · simp [lossyRun, Unfragmented, plainMpdu]
  · decide +kernel

def retransmissionRun : List Action :=
  [.receiveMpdu (plainMpdu 1), .receiveMpdu (plainMpdu 1), .receiveMpdu (plainMpdu 0),
    .receiveMpdu (plainMpdu 2), .blockAckRequest 3]

/-- The copy is passed up as well. -/
theorem retransmission_calls : (∀ a ∈ retransmissionRun, Unfragmented a) ∧
    ¬Ensures (exec (step 16) (.initial 0 0) retransmissionRun)
      (fun s => ∃ called waiting, InOrder 16 (0 : Fin 4096) s called waiting) (fun _ => False) := by
  refine ⟨by simp [retransmissionRun, Unfragmented, plainMpdu], fun h => ?_⟩
  have hrun : Ensures (exec (step 16) (.initial 0 0) retransmissionRun)
      (fun s => s.calls = [plainMpdu 0, plainMpdu 1, plainMpdu 1, plainMpdu 2] ∧
        ∀ p ∈ s.accepted, p.1 = p.2.m_seqSeq) (fun _ => False) := by
    decide +kernel
  obtain ⟨s, hs, hcalls, hnumber⟩ := hrun.exists_ok
  obtain ⟨called, waiting, hinOrder⟩ := h.of_ok hs
  have hincreasing : s.calls.Pairwise fun m i => m.m_seqSeq < i.m_seqSeq := by
    rw [← hinOrder.calls, pairwise_map]
    refine hinOrder.increasing.imp_of_mem fun {p q} hp hq hlt => ?_
    rw [Fin.lt_def, ← hnumber p (hinOrder.received p hp), ← hnumber q (hinOrder.received q hq)]
    exact hlt.1
  rw [hcalls] at hincreasing
  exact absurd hincreasing (by decide)

end Egsr.Wifi.BlockAck
