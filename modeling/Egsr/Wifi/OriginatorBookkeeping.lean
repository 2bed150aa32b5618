import Mathlib.Data.List.GetD
import Egsr.Wifi.BlockAckOriginator

/-! The lists of the originator over a run: which MPDUs they hold, in which
order, and what block acks do to them. -/

namespace Egsr.Wifi.BlockAck.Originator

open Lib.Run Lib.Outcome List OriginatorAgreement BlockAckWindow

/-! ## The window -/

section Window

variable {w w' w'' : BlockAckWindow} {k l d : ℕ}

structure Moved (w w' : BlockAckWindow) (k : ℕ) : Prop where
  start : w'.m_winStart = (w.m_winStart + k) % 4096
  size : w'.getWinSize = w.getWinSize
  head : w'.m_head < w'.getWinSize
  flag : ∀ d < w.getWinSize, w'.at' d = if d + k < w.getWinSize then w.at' (d + k) else false

theorem Moved.trans (h : Moved w w' k) (h' : Moved w' w'' l) : Moved w w'' (k + l) := by
  have hsize := h.size
  refine ⟨?_, h'.size.trans h.size, h'.head, fun d hd => ?_⟩
  · rw [h'.start, h.start, Nat.mod_add_mod, Nat.add_assoc]
  · rw [h'.flag d (by omega), hsize]
    by_cases hl : d + l < w.getWinSize
    · rw [if_pos hl, h.flag _ hl, Nat.add_assoc, Nat.add_comm l k]
    · rw [if_neg hl, if_neg (by omega)]

theorem moved_zero (head : w.m_head < w.getWinSize) (start : w.m_winStart < 4096) : Moved w w 0 :=
  ⟨(Nat.mod_eq_of_lt start).symm, rfl, head, fun _ hd => (if_pos hd).symm⟩

theorem clearHead_iterate (head : w.m_head < w.getWinSize) (n : ℕ) :
    (clearHead^[n] w).getWinSize = w.getWinSize ∧
      (clearHead^[n] w).m_head < w.getWinSize ∧
        ∀ d < w.getWinSize, (clearHead^[n] w).at' d =
          if d + n < w.getWinSize then w.at' (d + n) else false := by
  induction n with
  | zero => exact ⟨rfl, head, fun d hd => (if_pos hd).symm⟩
  | succ n ih =>
    obtain ⟨hsize, hhead, hflag⟩ := ih
    rw [Function.iterate_succ_apply']
    generalize clearHead^[n] w = v at hsize hhead hflag
    refine ⟨Lib.RingBuffer.length_drop.trans hsize, ?_, fun d hd => ?_⟩
    · exact (Nat.mod_lt _ ((Nat.zero_le _).trans_lt (hhead.trans_eq hsize.symm))).trans_eq hsize
    · have hentry := Lib.RingBuffer.entry_drop false (hsize ▸ hhead) (hsize ▸ hd)
      rw [at', clearHead, hentry]
      rw [getWinSize] at hsize hflag
      rw [hsize]
      by_cases hlt : d + 1 < w.getWinSize
      · rw [if_pos hlt]
        refine (hflag (d + 1) hlt).trans ?_
        rw [Nat.add_right_comm, Nat.add_assoc]
        rfl
      · rw [if_neg hlt, if_neg (by omega)]

theorem moved_advance (head : w.m_head < w.getWinSize) (count : ℕ) :
    Moved w (w.advance count) count := by
  rw [advance]
  by_cases hall : w.getWinSize ≤ count
  · rw [if_pos hall]
    have hsize : (w.reset ((w.m_winStart + count) % 4096)).getWinSize = w.getWinSize :=
      length_replicate
    refine ⟨rfl, hsize, hsize.symm ▸ (Nat.zero_le _).trans_lt head, fun d hd => ?_⟩
    rw [if_neg (by omega), at', Lib.RingBuffer.entry, reset, init,
      getD_eq_getElem?_getD]
    exact List.getElem?_getD_replicate_default_eq _ _ _
  · rw [if_neg hall]
    obtain ⟨hsize, hhead, hflag⟩ := clearHead_iterate head count
    exact ⟨rfl, hsize, hsize.symm ▸ hhead, hflag⟩

theorem moved_advanceWhile (head : w.m_head < w.getWinSize) (start : w.m_winStart < 4096)
    (rounds : ℕ) :
    ∃ k, Moved w (advanceWhile rounds w) k ∧ (∀ i < k, i < w.getWinSize ∧ w.at' i = true) ∧
      (k = rounds ∨ (advanceWhile rounds w).at' 0 = false) := by
  induction rounds generalizing w with
  | zero => exact ⟨0, moved_zero head start, fun i hi => absurd hi (Nat.not_lt_zero i), .inl rfl⟩
  | succ rounds ih =>
    rw [advanceWhile]
    by_cases hflag : w.at' 0 = true
    · rw [if_pos hflag]
      have hone := moved_advance head 1
      obtain ⟨k, hmoved, hset, hstop⟩ :=
        ih hone.head (hone.start.trans_lt (Nat.mod_lt _ (by decide)))
      refine ⟨1 + k, hone.trans hmoved, fun i hi => ?_, hstop.imp_left fun h => by omega⟩
      cases i with
      | zero => exact ⟨(Nat.zero_le _).trans_lt head, hflag⟩
      | succ i =>
        obtain ⟨hlt, hi'⟩ := hset i (by omega)
        rw [hone.size] at hlt
        rw [hone.flag i hlt] at hi'
        by_cases hin : i + 1 < w.getWinSize
        · exact ⟨hin, (if_pos hin).symm.trans hi'⟩
        · rw [if_neg hin] at hi'
          cases hi'
    · rw [if_neg hflag]
      exact ⟨0, moved_zero head start, fun i hi =>
        absurd hi (Nat.not_lt_zero i), .inr (Bool.eq_false_iff.mpr hflag)⟩

theorem moved_advanceTxWindow (head : w.m_head < w.getWinSize) (start : w.m_winStart < 4096) :
    ∃ k, Moved w w.advanceTxWindow k ∧ (∀ i < k, i < w.getWinSize ∧ w.at' i = true) ∧
      w.advanceTxWindow.at' 0 = false := by
  obtain ⟨k, hmoved, hset, hstop⟩ := moved_advanceWhile head start w.getWinSize
  refine ⟨k, hmoved, hset, hstop.elim (fun h => ?_) id⟩
  have hflag := hmoved.flag 0 ((Nat.zero_le _).trans_lt head)
  rwa [if_neg (by omega)] at hflag

theorem at'_setAt (hd : d < w.getWinSize) {j : ℕ} (hj : j < w.getWinSize) :
    (w.setAt d).at' j = if d = j then true else w.at' j :=
  Lib.RingBuffer.entry_write hd hj

end Window

section Queues

variable {start : ℕ} {item : WifiMacQueueItem} {l queue : List WifiMacQueueItem}

def Sorted (start : ℕ) (l : List WifiMacQueueItem) : Prop :=
  l.Pairwise fun i j => distance start i.getSequenceNumber < distance start j.getSequenceNumber

theorem insertByDistance_perm (h : insertByDistance start item l = some queue) :
    queue.Perm (item :: l) := by
  induction l generalizing queue with
  | nil =>
    obtain rfl := Option.some.inj h
    exact .rfl
  | cons i rest ih =>
    rw [insertByDistance] at h
    by_cases hsame : item.getSequenceControl = i.getSequenceControl
    · rw [if_pos hsame] at h
      cases h
    rw [if_neg hsame] at h
    split_ifs at h
    · obtain rfl := Option.some.inj h
      exact .rfl
    · obtain ⟨queue', hrest, rfl⟩ := Option.map_eq_some_iff.mp h
      exact ((ih hrest).cons i).trans (.swap item i rest)

theorem insertByDistance_mem (sorted : Sorted start l) (mem : item ∈ l) :
    insertByDistance start item l = none := by
  induction l with
  | nil => cases mem
  | cons i rest ih =>
    rw [insertByDistance]
    rcases mem_cons.mp mem with rfl | hrest
    · exact if_pos rfl
    · obtain ⟨hfirst, hsorted⟩ := pairwise_cons.mp sorted
      have hlt := hfirst item hrest
      rw [ih hsorted hrest, if_neg (c := _ ∨ _) (by omega)]
      exact ite_self none

theorem control_ne {i : WifiMacQueueItem}
    (ne : distance start i.getSequenceNumber ≠ distance start item.getSequenceNumber) :
    item.getSequenceControl ≠ i.getSequenceControl := by
  intro h
  rw [WifiMacQueueItem.getSequenceControl, WifiMacQueueItem.getSequenceControl,
    Mpdu.getSequenceControl, Mpdu.getSequenceControl] at h
  exact ne (congrArg (distance start) (show (i.mpdu.m_seqSeq : ℕ) = item.mpdu.m_seqSeq by omega))

theorem insertByDistance_spec (sorted : Sorted start l)
    (apart : ∀ i ∈ l, distance start i.getSequenceNumber ≠ distance start item.getSequenceNumber) :
    ∃ queue, insertByDistance start item l = some queue ∧ Sorted start queue := by
  induction l with
  | nil => exact ⟨[item], rfl, pairwise_singleton _ _⟩
  | cons i rest ih =>
    obtain ⟨hfirst, hsorted⟩ := pairwise_cons.mp sorted
    have hne := apart i mem_cons_self
    rw [insertByDistance, if_neg (control_ne hne)]
    by_cases hlt : distance start item.getSequenceNumber < distance start i.getSequenceNumber
    · refine ⟨item :: i :: rest, if_pos (.inl hlt), pairwise_cons.mpr ⟨fun j hj => ?_, sorted⟩⟩
      rcases mem_cons.mp hj with rfl | hj
      · exact hlt
      · exact hlt.trans (hfirst j hj)
    · obtain ⟨queue, hqueue, hsorted'⟩ := ih hsorted fun j hj => apart j (mem_cons_of_mem _ hj)
      refine ⟨i :: queue, ?_, pairwise_cons.mpr ⟨fun j hj => ?_, hsorted'⟩⟩
      · rw [if_neg (by omega), hqueue]
        rfl
      · rcases mem_cons.mp ((insertByDistance_perm hqueue).subset hj) with rfl | hj
        · omega
        · exact hfirst j hj

theorem insertByDistance_last
    (far : ∀ i ∈ l, distance start i.getSequenceNumber < distance start item.getSequenceNumber) :
    insertByDistance start item l = some (l ++ [item]) := by
  induction l with
  | nil => rfl
  | cons i rest ih =>
    have hlt := far i mem_cons_self
    rw [insertByDistance, if_neg (control_ne hlt.ne), if_neg (by omega), ih fun j hj =>
      far j (mem_cons_of_mem _ hj)]
    rfl

end Queues

/-! ## MPDUs and the window -/

def OriginatorAgreement.held (s : OriginatorAgreement) : List WifiMacQueueItem :=
  s.outstanding ++ s.m_retryPackets

/-- A distance in the window, of an MPDU that was numbered not too long ago. -/
structure Spot (s : OriginatorAgreement) (d : ℕ) : Prop where
  inWindow : d < s.m_txWindow.getWinSize
  numbered : d < s.getDistance s.nextSequenceNumber
  recent : s.getDistance s.nextSequenceNumber ≤ d + s.m_txWindow.getWinSize

structure Unacked (s : OriginatorAgreement) (d : ℕ) : Prop extends Spot s d where
  flag : s.m_txWindow.at' d = false

/-- The window holds all MPDUs, each at a distance of its own, and none that was acknowledged. -/
structure Windowed (s : OriginatorAgreement) : Prop where
  size : s.m_txWindow.getWinSize ≤ 1024
  head : s.m_txWindow.m_head < s.m_txWindow.getWinSize
  start : s.m_txWindow.m_winStart < 4096
  next : s.nextSequenceNumber < 4096
  unacked : ∀ i ∈ s.held, Unacked s (s.getDistance i.getSequenceNumber)
  acked : ∀ d < s.m_txWindow.getWinSize, s.m_txWindow.at' d = true → Spot s d
  outstanding : Sorted s.getStartingSequence s.outstanding
  retry : Sorted s.getStartingSequence s.m_retryPackets
  apart : ∀ i ∈ s.outstanding, ∀ j ∈ s.m_retryPackets,
    s.getDistance i.getSequenceNumber ≠ s.getDistance j.getSequenceNumber

structure Free (s : OriginatorAgreement) (item : WifiMacQueueItem) : Prop where
  unacked : Unacked s (s.getDistance item.getSequenceNumber)
  apart : ∀ i ∈ s.held, s.getDistance i.getSequenceNumber ≠ s.getDistance item.getSequenceNumber

section Windowed

variable {s : OriginatorAgreement} {item : WifiMacQueueItem} {w : BlockAckWindow} {k : ℕ}

theorem getSequenceNumber_lt (item : WifiMacQueueItem) : item.getSequenceNumber < 4096 :=
  item.mpdu.m_seqSeq.isLt

section

variable (h : Windowed s)

include h

theorem Windowed.sublist {outstanding retry : List WifiMacQueueItem}
    (hout : outstanding.Sublist s.outstanding) (hretry : retry.Sublist s.m_retryPackets) :
    Windowed { s with outstanding := outstanding, m_retryPackets := retry } where
  size := h.size
  head := h.head
  start := h.start
  next := h.next
  unacked i hi :=
    have hu := h.unacked i ((hout.append hretry).subset hi)
    ⟨⟨hu.inWindow, hu.numbered, hu.recent⟩, hu.flag⟩
  acked d hd hflag :=
    have hs := h.acked d hd hflag
    ⟨hs.inWindow, hs.numbered, hs.recent⟩
  outstanding := h.outstanding.sublist hout
  retry := h.retry.sublist hretry
  apart i hi j hj := h.apart i (hout.subset hi) j (hretry.subset hj)

theorem Spot.moved {d : ℕ} (spot : Spot s (d + k)) (moved : Moved s.m_txWindow w k) :
    Spot { s with m_txWindow := w } d := by
  have hsize := moved.size
  have hin := spot.inWindow
  have hnumbered := spot.numbered
  have hrecent := spot.recent
  have hdist : ({ s with m_txWindow := w } : OriginatorAgreement).getDistance s.nextSequenceNumber =
      s.getDistance s.nextSequenceNumber - k := by
    rw [getDistance, getStartingSequence]
    refine (congrArg (distance · s.nextSequenceNumber) moved.start).trans ?_
    have hk : k ≤ s.getDistance s.nextSequenceNumber := by omega
    exact distance_moved h.start h.next hk
  constructor
  · exact (show d < w.getWinSize by omega)
  · rw [hdist]
    omega
  · rw [hdist]
    exact (show s.getDistance s.nextSequenceNumber - k ≤ d + w.getWinSize by omega)

theorem Windowed.moved (moved : Moved s.m_txWindow w k)
    (past : ∀ i ∈ s.held, k ≤ s.getDistance i.getSequenceNumber) :
      Windowed { s with m_txWindow := w } := by
  have hdist : ∀ i ∈ s.held,
    ({ s with m_txWindow := w } : OriginatorAgreement).getDistance i.getSequenceNumber =
      s.getDistance i.getSequenceNumber - k := by
    intro i hi
    refine (congrArg (distance · i.getSequenceNumber) moved.start).trans ?_
    exact distance_moved h.start (getSequenceNumber_lt i) (past i hi)
  have hsize := moved.size
  have hsorted : ∀ l : List WifiMacQueueItem, l ⊆ s.held → Sorted s.getStartingSequence l →
      Sorted ({ s with m_txWindow := w } : OriginatorAgreement).getStartingSequence l := by
    intro l hl hsorted
    refine List.Pairwise.imp_of_mem (fun {i j} hi hj hlt => ?_) hsorted
    have hi' := hdist i (hl hi)
    have hj' := hdist j (hl hj)
    have := past i (hl hi)
    rw [getDistance] at hi' hj' this
    rw [hi', hj']
    exact (show distance s.getStartingSequence i.getSequenceNumber - k <
      distance s.getStartingSequence j.getSequenceNumber - k by omega)
  exact {
    size := hsize.trans_le h.size
    head := moved.head
    start := moved.start.trans_lt (Nat.mod_lt _ (by decide))
    next := h.next
    unacked := fun i hi => by
      have hu := h.unacked i hi
      have hpast := past i hi
      have hspot := hu.toSpot
      rw [← Nat.sub_add_cancel hpast] at hspot
      rw [hdist i hi]
      refine ⟨hspot.moved h moved, ?_⟩
      have hin := hu.inWindow
      have hflag := moved.flag (s.getDistance i.getSequenceNumber - k) (by omega)
      rw [Nat.sub_add_cancel hpast, if_pos hin, hu.flag] at hflag
      exact hflag
    acked := fun d hd hflag => by
      have hd' : d < s.m_txWindow.getWinSize := hd.trans_eq hsize
      have hflag' := (moved.flag d hd').symm.trans hflag
      by_cases hin : d + k < s.m_txWindow.getWinSize
      · rw [if_pos hin] at hflag'
        exact (h.acked _ hin hflag').moved h moved
      · rw [if_neg hin] at hflag'
        cases hflag'
    outstanding := hsorted _ (subset_append_left _ _) h.outstanding
    retry := hsorted _ (subset_append_right _ _) h.retry
    apart := fun i hi j hj => by
      have hne := h.apart i hi j hj
      have hi' := past i (mem_append_left _ hi)
      have hj' := past j (mem_append_right _ hj)
      rw [hdist i (mem_append_left _ hi), hdist j (mem_append_right _ hj)]
      omega }

theorem Windowed.settle : Windowed { s with m_txWindow := s.m_txWindow.advanceTxWindow } := by
  obtain ⟨k, hmoved, hset, -⟩ := moved_advanceTxWindow h.head h.start
  refine h.moved hmoved fun i hi => not_lt.mp fun hlt => ?_
  exact Bool.false_ne_true ((h.unacked i hi).flag.symm.trans (hset _ hlt).2)

theorem Windowed.ack (free : Free s item) :
    Windowed (s.notifyAckedMpdu item.getSequenceNumber) := by
  have hin := free.unacked.inWindow
  have hsize := h.size
  have hlen : (s.m_txWindow.setAt (s.getDistance item.getSequenceNumber)).getWinSize =
    s.m_txWindow.getWinSize :=
    Lib.RingBuffer.length_write
  rw [notifyAckedMpdu, if_neg (by omega)]
  refine Windowed.settle (s := { s with
    m_txWindow := s.m_txWindow.setAt (s.getDistance item.getSequenceNumber) }) { h with
      size := hlen.trans_le hsize
      head := h.head.trans_eq hlen.symm
      unacked := fun i hi => ?_
      acked := fun d hd hflag => ?_ }
  · have hu := h.unacked i hi
    refine ⟨⟨hu.inWindow.trans_eq hlen.symm, hu.numbered,
      hu.recent.trans_eq (congrArg _ hlen.symm)⟩, ?_⟩
    refine (at'_setAt hin hu.inWindow).trans ?_
    rw [if_neg (free.apart i hi).symm]
    exact hu.flag
  · have hflag' := (at'_setAt hin (hd.trans_eq hlen)).symm.trans hflag
    have hspot : Spot s d := by
      by_cases heq : s.getDistance item.getSequenceNumber = d
      · exact heq ▸ free.unacked.toSpot
      · rw [if_neg heq] at hflag'
        exact h.acked d (hd.trans_eq hlen) hflag'
    exact ⟨hspot.inWindow.trans_eq hlen.symm, hspot.numbered,
      hspot.recent.trans_eq (congrArg _ hlen.symm)⟩

theorem Windowed.hold (free : Free s item) :
    ∃ queue, insertByDistance s.getStartingSequence item s.outstanding = some queue ∧
      Windowed { s with outstanding := queue } := by
  obtain ⟨queue, hqueue, hsorted⟩ := insertByDistance_spec h.outstanding fun i hi =>
    free.apart i (mem_append_left _ hi)
  have hmem : ∀ i ∈ queue, i = item ∨ i ∈ s.outstanding := fun i hi =>
    mem_cons.mp ((insertByDistance_perm hqueue).subset hi)
  refine ⟨queue, hqueue, { h with
    outstanding := hsorted, unacked := fun i hi => ?_, acked := ?_, apart := fun i hi j hj => ?_ }⟩
  · have hu : Unacked s (s.getDistance i.getSequenceNumber) := by
      rcases mem_append.mp hi with hi | hi
      · rcases hmem i hi with rfl | hi
        · exact free.unacked
        · exact h.unacked i (mem_append_left _ hi)
      · exact h.unacked i (mem_append_right _ hi)
    exact ⟨⟨hu.inWindow, hu.numbered, hu.recent⟩, hu.flag⟩
  · exact fun d hd hflag =>
      ⟨(h.acked d hd hflag).inWindow, (h.acked d hd hflag).numbered, (h.acked d hd hflag).recent⟩
  · rcases hmem i hi with rfl | hi
    · exact (free.apart j (mem_append_right _ hj)).symm
    · exact h.apart i hi j hj

theorem Windowed.requeue (free : Free s item) :
    Windowed (s.insertInRetryQueue item) ∧
      (s.m_retryPackets.length + s.elsewhere < maxQueueSize →
        item ∈ (s.insertInRetryQueue item).m_retryPackets) := by
  obtain ⟨queue, hqueue, hsorted⟩ := insertByDistance_spec h.retry fun i hi =>
    free.apart i (mem_append_right _ hi)
  have hperm := insertByDistance_perm hqueue
  have hmem : ∀ i ∈ queue, i = item ∨ i ∈ s.m_retryPackets :=
    fun i hi => mem_cons.mp (hperm.subset hi)
  have hin := free.unacked.inWindow
  have hsize := h.size
  rw [insertInRetryQueue, if_neg (by omega), hqueue]
  dsimp only
  split_ifs with hroom
  swap
  · exact ⟨h, fun room => absurd room hroom⟩
  refine ⟨{ h with
    retry := hsorted, unacked := fun i hi => ?_, acked := ?_, apart := fun i hi j hj => ?_ },
    fun _ => hperm.symm.subset mem_cons_self⟩
  · have hu : Unacked s (s.getDistance i.getSequenceNumber) := by
      rcases mem_append.mp hi with hi | hi
      · exact h.unacked i (mem_append_left _ hi)
      · rcases hmem i hi with rfl | hi
        · exact free.unacked
        · exact h.unacked i (mem_append_right _ hi)
    exact ⟨⟨hu.inWindow, hu.numbered, hu.recent⟩, hu.flag⟩
  · exact fun d hd hflag =>
      ⟨(h.acked d hd hflag).inWindow, (h.acked d hd hflag).numbered, (h.acked d hd hflag).recent⟩
  · rcases hmem j hj with rfl | hj
    · exact free.apart i (mem_append_left _ hi)
    · exact h.apart i hi j hj

theorem Windowed.store (free : Free s item) : Windowed (s.storePacket item) := by
  obtain ⟨queue, hqueue, hstored⟩ := h.hold free
  have hin := free.unacked.inWindow
  have hsize := h.size
  have hkept : ({ s with outstanding := queue } : OriginatorAgreement).notifyTransmittedMpdu
    item.getSequenceNumber =
      { s with outstanding := queue } := by
    rw [notifyTransmittedMpdu]
    refine (if_neg (show ¬2048 ≤ s.getDistance item.getSequenceNumber by omega)).trans ?_
    exact if_neg (show ¬s.m_txWindow.getWinSize ≤ s.getDistance item.getSequenceNumber by omega)
  rw [storePacket, if_neg (by omega), hqueue]
  rw [← hkept] at hstored
  exact hstored

end

theorem Free.sublist (free : Free s item) {outstanding retry : List WifiMacQueueItem}
    (hout : outstanding.Sublist s.outstanding) (hretry : retry.Sublist s.m_retryPackets) :
    Free { s with outstanding := outstanding, m_retryPackets := retry } item where
  unacked := ⟨⟨free.unacked.inWindow, free.unacked.numbered, free.unacked.recent⟩,
    free.unacked.flag⟩
  apart i hi := free.apart i ((hout.append hretry).subset hi)

/-! ## New MPDUs -/

def OriginatorAgreement.numberNext (s : OriginatorAgreement) : OriginatorAgreement :=
  { s with nextSequenceNumber := (s.nextSequenceNumber + 1) % 4096, made := s.made + 1 }

theorem Spot.numberNext (h : Windowed s) {d : ℕ} (spot : Spot s d)
    (recent : s.getDistance s.nextSequenceNumber < d + s.m_txWindow.getWinSize) :
      Spot s.numberNext d := by
  have hin := spot.inWindow
  have hnumbered := spot.numbered
  have hsize := h.size
  have hfar : s.getDistance s.nextSequenceNumber < 4095 := by omega
  have hnext : s.numberNext.getDistance s.numberNext.nextSequenceNumber =
    s.getDistance s.nextSequenceNumber + 1 :=
    distance_succ h.start h.next hfar
  exact ⟨hin, by rw [hnext]; omega, by rw [hnext]; exact recent⟩

theorem Windowed.numberNext (h : Windowed s)
    (recent : ∀ d, Spot s d → s.getDistance s.nextSequenceNumber < d + s.m_txWindow.getWinSize) :
    Windowed s.numberNext :=
  { h with
    next := Nat.mod_lt _ (by decide)
    unacked := fun i hi =>
      have hu := h.unacked i hi
      ⟨hu.toSpot.numberNext h (recent _ hu.toSpot), hu.flag⟩
    acked := fun d hd hflag => (h.acked d hd hflag).numberNext h (recent d (h.acked d hd hflag)) }

attribute [local instance] sequenceNumbers_ne_zero fragmentNumbers_ne_zero

def OriginatorAgreement.newItem (s : OriginatorAgreement) (packet : List UInt8) :
    WifiMacQueueItem :=
  ⟨⟨Fin.ofNat 4096 s.nextSequenceNumber, 0, false, packet⟩, s.made, s.now⟩

theorem take_new (packet : List UInt8) : take s (.new packet) =
    some (s.newItem packet, s.numberNext) := rfl

section

variable (h : Windowed s)

include h

theorem newItem_sequenceNumber (packet : List UInt8) :
    (s.newItem packet).getSequenceNumber = s.nextSequenceNumber := Nat.mod_eq_of_lt h.next

theorem Windowed.new_inWindow
    (inWindow : s.getDistance s.nextSequenceNumber < s.m_txWindow.getWinSize)
    (packet : List UInt8) : Windowed s.numberNext ∧ Free s.numberNext (s.newItem packet) := by
  have hdist : s.numberNext.getDistance (s.newItem packet).getSequenceNumber =
      s.getDistance s.nextSequenceNumber := by
    rw [newItem_sequenceNumber h]
    rfl
  have hsize := h.size
  have hfar : s.getDistance s.nextSequenceNumber < 4095 := by omega
  have hnext : s.numberNext.getDistance s.numberNext.nextSequenceNumber =
    s.getDistance s.nextSequenceNumber + 1 :=
    distance_succ h.start h.next hfar
  refine ⟨h.numberNext fun d _ => by omega, ⟨⟨⟨?_, ?_, ?_⟩, ?_⟩, fun i hi => ?_⟩⟩
  · exact hdist.trans_lt inWindow
  · rw [hdist, hnext]
    exact Nat.lt_succ_self _
  · rw [hdist, hnext]
    exact Nat.add_le_add_left (show 1 ≤ s.m_txWindow.getWinSize by omega) _
  · rw [hdist]
    by_contra hflag
    exact lt_irrefl _ (h.acked _ inWindow (Bool.not_eq_false _ ▸ hflag)).numbered
  · rw [hdist]
    exact (h.unacked i hi).numbered.ne

theorem Windowed.new_old (old : 2048 ≤ s.getDistance s.nextSequenceNumber) :
    Windowed s.numberNext := by
  have hsize := h.size
  refine h.numberNext fun d hspot => ?_
  have hin := hspot.inWindow
  have hrecent := hspot.recent
  omega

theorem Windowed.store_beyond
    (beyond : s.m_txWindow.getWinSize ≤ s.getDistance s.nextSequenceNumber)
    (near : s.getDistance s.nextSequenceNumber < 2048)
    (past : ∀ i ∈ s.held, s.getDistance s.nextSequenceNumber - s.m_txWindow.getWinSize + 1 ≤
      s.getDistance i.getSequenceNumber) (packet : List UInt8) :
    Windowed (s.numberNext.storePacket (s.newItem packet)) := by
  have hseq := newItem_sequenceNumber h packet
  have hmoved :=
    moved_advance h.head (s.getDistance s.nextSequenceNumber - s.m_txWindow.getWinSize + 1)
  have hhead := h.head
  generalize hw : s.m_txWindow.advance
    (s.getDistance s.nextSequenceNumber - s.m_txWindow.getWinSize + 1) = w at hmoved
  have hwindow := h.moved hmoved past
  have hdist : ({ s with m_txWindow := w } : OriginatorAgreement).getDistance s.nextSequenceNumber =
      s.m_txWindow.getWinSize - 1 := by
    have hle : s.getDistance s.nextSequenceNumber - s.m_txWindow.getWinSize + 1 ≤
        s.getDistance s.nextSequenceNumber := by
      omega
    refine (congrArg (distance · s.nextSequenceNumber) hmoved.start).trans ?_
    refine (distance_moved h.start h.next hle).trans ?_
    change s.getDistance s.nextSequenceNumber -
      (s.getDistance s.nextSequenceNumber - s.m_txWindow.getWinSize + 1) = _
    omega
  have hsize := hmoved.size
  obtain ⟨hnumbered, hfree⟩ :=
    hwindow.new_inWindow (hdist.trans_lt (show _ < w.getWinSize by omega)) packet
  obtain ⟨queue, hqueue, hstored⟩ := hnumbered.hold hfree
  -- both before and after the window moves the MPDU is farther than all others
  have hlast : queue = s.outstanding ++ [s.newItem packet] := by
    refine Option.some.inj (hqueue.symm.trans (insertByDistance_last fun i hi => ?_))
    have hu := hwindow.unacked i (mem_append_left _ hi)
    have hlt := hu.numbered
    rw [← newItem_sequenceNumber h packet] at hlt
    exact hlt
  have hinsert : insertByDistance s.getStartingSequence (s.newItem packet) s.outstanding =
      some (s.outstanding ++ [s.newItem packet]) := by
    refine insertByDistance_last fun i hi => ?_
    rw [hseq]
    exact (h.unacked i (mem_append_left _ hi)).numbered
  subst hlast
  have hfar : s.numberNext.getDistance (s.newItem packet).getSequenceNumber =
      s.getDistance s.nextSequenceNumber := by
    rw [hseq]
    rfl
  have hstore : s.numberNext.storePacket (s.newItem packet) =
      ({ s.numberNext with outstanding := s.outstanding ++ [s.newItem packet] } :
        OriginatorAgreement).notifyTransmittedMpdu (s.newItem packet).getSequenceNumber := by
    rw [storePacket, if_neg (by omega), show insertByDistance s.numberNext.getStartingSequence
      (s.newItem packet) s.numberNext.outstanding = some _ from hinsert]
  have hmove : ({ s.numberNext with outstanding := s.outstanding ++ [s.newItem packet] } :
      OriginatorAgreement).notifyTransmittedMpdu (s.newItem packet).getSequenceNumber =
        { s.numberNext with
          outstanding := s.outstanding ++ [s.newItem packet]
          m_txWindow :=
            (s.m_txWindow.advance (s.numberNext.getDistance (s.newItem packet).getSequenceNumber -
            s.m_txWindow.getWinSize + 1)).advanceTxWindow } :=
    (if_neg (show ¬2048 ≤ s.numberNext.getDistance (s.newItem packet).getSequenceNumber by
      omega)).trans (if_pos (show s.m_txWindow.getWinSize ≤
        s.numberNext.getDistance (s.newItem packet).getSequenceNumber by omega))
  rw [hstore, hmove, hfar, hw]
  exact hstored.settle

/-! ## MPDUs that are taken -/

theorem Windowed.pop {rest : List WifiMacQueueItem} (front : s.outstanding = item :: rest) :
    Windowed { s with outstanding := rest } ∧ Free { s with outstanding := rest } item := by
  have hmem : item ∈ s.outstanding := front ▸ mem_cons_self
  have hu := h.unacked item (mem_append_left _ hmem)
  have hsorted := h.outstanding
  rw [front] at hsorted
  refine ⟨h.sublist (front ▸ sublist_cons_self _ _) (List.Sublist.refl _),
    ⟨⟨hu.inWindow, hu.numbered, hu.recent⟩, hu.flag⟩, fun i hi => ?_⟩
  rcases mem_append.mp hi with hi | hi
  · exact ((pairwise_cons.mp hsorted).1 i hi).ne'
  · exact (h.apart item hmem i hi).symm

theorem Windowed.dequeue {position : ℕ} (mem : s.m_retryPackets[position]? = some item) :
    Windowed { s with m_retryPackets := s.m_retryPackets.eraseIdx position } ∧
      Free { s with m_retryPackets := s.m_retryPackets.eraseIdx position } item := by
  obtain ⟨hlt, hget⟩ := List.getElem?_eq_some_iff.mp mem
  have hmem : item ∈ s.m_retryPackets := mem_of_getElem? mem
  have hu := h.unacked item (mem_append_right _ hmem)
  have hperm := getElem_cons_eraseIdx_perm hlt
  rw [hget] at hperm
  have hne : (item :: s.m_retryPackets.eraseIdx position).Pairwise fun i j =>
      s.getDistance i.getSequenceNumber ≠ s.getDistance j.getSequenceNumber :=
    (hperm.pairwise_iff fun hij => hij.symm).mpr (List.Pairwise.imp (fun hlt => hlt.ne) h.retry)
  refine ⟨h.sublist (List.Sublist.refl _) (eraseIdx_sublist _ _),
    ⟨⟨hu.inWindow, hu.numbered, hu.recent⟩, hu.flag⟩, fun i hi => ?_⟩
  rcases mem_append.mp hi with hi | hi
  · exact h.apart i hi item hmem
  · exact ((pairwise_cons.mp hne).1 i hi).symm

theorem Windowed.erase (mem : item ∈ s.outstanding) :
    Windowed (s.eraseOutstanding item.getSequenceNumber) ∧
      Free (s.eraseOutstanding item.getSequenceNumber) item := by
  have hu := h.unacked item (mem_append_left _ mem)
  refine ⟨h.sublist filter_sublist (List.Sublist.refl _),
    ⟨⟨hu.inWindow, hu.numbered, hu.recent⟩, hu.flag⟩, fun i hi heq => ?_⟩
  rcases mem_append.mp hi with hi | hi
  · refine of_decide_eq_true (mem_filter.mp hi).2 ?_
    exact distance_inj h.start (getSequenceNumber_lt i) (getSequenceNumber_lt item) heq
  · exact h.apart item mem i hi heq.symm

end

def InWindow (s : OriginatorAgreement) : Frame → Prop
  | .new _ => s.getDistance s.nextSequenceNumber < s.m_txWindow.getWinSize ∨
    2048 ≤ s.getDistance s.nextSequenceNumber
  | _ => True

variable {t : OriginatorAgreement}

theorem Windowed.taken {frame : Frame} (h : Windowed s) (inWindow : InWindow s frame)
    (taken : take s frame = some (item, t)) : Windowed (t.eraseOutstanding item.getSequenceNumber) ∧
      (Free (t.eraseOutstanding item.getSequenceNumber) item ∨
        2048 ≤ (t.eraseOutstanding item.getSequenceNumber).getDistance item.getSequenceNumber) := by
  have hrest : Windowed t → Windowed (t.eraseOutstanding item.getSequenceNumber) := fun ht =>
    ht.sublist filter_sublist (List.Sublist.refl _)
  have hfree : Free t item → Free (t.eraseOutstanding item.getSequenceNumber) item := fun ht =>
    ht.sublist filter_sublist (List.Sublist.refl _)
  cases frame with
  | new packet =>
    rw [take_new] at taken
    obtain ⟨rfl, rfl⟩ := Prod.mk.inj (Option.some.inj taken)
    rcases inWindow with hin | hold
    · obtain ⟨ht, hnew⟩ := h.new_inWindow hin packet
      exact ⟨hrest ht, .inl (hfree hnew)⟩
    · refine ⟨hrest (h.new_old hold), .inr ?_⟩
      rw [newItem_sequenceNumber h]
      exact hold
  | retransmitted position =>
    obtain ⟨i, hi, heq⟩ := Option.map_eq_some_iff.mp taken
    obtain ⟨rfl, rfl⟩ := Prod.mk.inj heq
    obtain ⟨ht, hnew⟩ := h.dequeue hi
    exact ⟨hrest ht, .inl (hfree hnew)⟩
  | outstanding position =>
    obtain ⟨i, hi, heq⟩ := Option.map_eq_some_iff.mp taken
    obtain ⟨rfl, rfl⟩ := Prod.mk.inj heq
    obtain ⟨ht, hnew⟩ := h.erase (mem_of_getElem? hi)
    exact ⟨ht, .inl hnew⟩

theorem Windowed.gotAck {frame : Frame} (h : Windowed s) (inWindow : InWindow s frame)
    (taken : take s frame = some (item, t)) : Windowed (t.notifyGotAck item) := by
  obtain ⟨hwindowed, hfree | hold⟩ := h.taken inWindow taken
  · exact hwindowed.ack hfree
  · rw [notifyGotAck, notifyAckedMpdu, if_pos hold]
    exact hwindowed

theorem Windowed.missedAck {frame : Frame} (h : Windowed s) (inWindow : InWindow s frame)
    (taken : take s frame = some (item, t)) : Windowed (t.notifyMissedAck item) := by
  obtain ⟨hwindowed, hfree | hold⟩ := h.taken inWindow taken
  · exact (hwindowed.requeue hfree).1
  · rw [notifyMissedAck, insertInRetryQueue, if_pos hold]
    exact hwindowed

def PassesNone (s : OriginatorAgreement) : Frame → Prop
  | .new _ => s.m_txWindow.getWinSize ≤ s.getDistance s.nextSequenceNumber →
    s.getDistance s.nextSequenceNumber < 2048 →
      ∀ i ∈ s.held, s.getDistance s.nextSequenceNumber - s.m_txWindow.getWinSize + 1 ≤
        s.getDistance i.getSequenceNumber
  | _ => True

theorem Windowed.stored {frame : Frame} (h : Windowed s) (passes : PassesNone s frame)
    (taken : take s frame = some (item, t)) : Windowed (t.storePacket item) := by
  cases frame with
  | new packet =>
    rw [take_new] at taken
    obtain ⟨rfl, rfl⟩ := Prod.mk.inj (Option.some.inj taken)
    by_cases hold : 2048 ≤ s.getDistance s.nextSequenceNumber
    · rw [storePacket, newItem_sequenceNumber h]
      exact (if_pos hold).symm ▸ h.new_old hold
    · by_cases hin : s.getDistance s.nextSequenceNumber < s.m_txWindow.getWinSize
      · obtain ⟨ht, hnew⟩ := h.new_inWindow hin packet
        exact ht.store hnew
      · exact h.store_beyond (not_lt.mp hin) (not_le.mp hold)
          (passes (not_lt.mp hin) (not_le.mp hold)) packet
  | retransmitted position =>
    obtain ⟨i, hi, heq⟩ := Option.map_eq_some_iff.mp taken
    obtain ⟨rfl, rfl⟩ := Prod.mk.inj heq
    obtain ⟨ht, hnew⟩ := h.dequeue hi
    exact ht.store hnew
  | outstanding position =>
    obtain ⟨i, hi, heq⟩ := Option.map_eq_some_iff.mp taken
    obtain ⟨rfl, rfl⟩ := Prod.mk.inj heq
    have hsame : i ∈ s.outstanding := mem_of_getElem? hi
    rw [storePacket, insertByDistance_mem h.outstanding hsame]
    exact (ite_self s).symm ▸ h

/-! ## Loops over the outstanding MPDUs -/

/-- The retransmit queue gets the MPDU, if it is wanted and there is room, and no other. -/
structure Puts (wanted : Bool) (t : OriginatorAgreement) (item : WifiMacQueueItem)
    (u : OriginatorAgreement) : Prop where
  subset : t.m_retryPackets ⊆ u.m_retryPackets
  elsewhere : u.elsewhere = t.elsewhere
  length : u.m_retryPackets.length ≤ t.m_retryPackets.length + wanted.toNat
  put : wanted = true → t.m_retryPackets.length + t.elsewhere < maxQueueSize →
    item ∈ u.m_retryPackets

theorem Windowed.drain {f : OriginatorAgreement → WifiMacQueueItem → OriginatorAgreement}
    (wanted : WifiMacQueueItem → Bool)
    (erased : ∀ t i l, f { t with outstanding := l } i = { f t i with outstanding := l })
    (keep : ∀ t i, Windowed t → Free t i → Windowed (f t i) ∧ Puts (wanted i) t i (f t i))
    {l : List WifiMacQueueItem} (h : Windowed { s with outstanding := l }) :
    Windowed { l.foldl f s with outstanding := [] } ∧
      s.m_retryPackets ⊆ (l.foldl f s).m_retryPackets ∧
      (s.m_retryPackets.length + s.elsewhere + (l.filter wanted).length ≤ maxQueueSize →
        ∀ i ∈ l, wanted i = true → i ∈ (l.foldl f s).m_retryPackets) := by
  induction l generalizing s with
  | nil => exact ⟨h, List.Subset.refl _, fun _ i hi => absurd hi not_mem_nil⟩
  | cons item rest ih =>
    obtain ⟨hrest, hfree⟩ := h.pop rfl
    obtain ⟨hstep, hputs⟩ := keep _ item hrest hfree
    rw [erased s item rest] at hstep hputs
    obtain ⟨hwindowed, hsubset, hwanted⟩ := ih hstep
    refine ⟨hwindowed, List.Subset.trans hputs.subset hsubset, fun room i hi hw => ?_⟩
    have helsewhere : (f s item).elsewhere = s.elsewhere := hputs.elsewhere
    have hlength : (f s item).m_retryPackets.length ≤ s.m_retryPackets.length + _ := hputs.length
    rw [filter_cons] at room
    rcases mem_cons.mp hi with rfl | hi
    · rw [if_pos hw, length_cons] at room
      exact hsubset (hputs.put hw (show s.m_retryPackets.length + s.elsewhere < _ by omega))
    · refine hwanted ?_ i hi hw
      cases hitem : wanted item <;> simp only [hitem, Bool.toNat_true, Bool.toNat_false, if_true,
        Bool.false_eq_true, if_false, length_cons] at hlength room <;> omega

theorem insertInRetryQueue_cases (t : OriginatorAgreement) (item : WifiMacQueueItem) :
    t.insertInRetryQueue item = t ∨ ∃ queue, queue.Perm (item :: t.m_retryPackets) ∧
      t.insertInRetryQueue item = { t with m_retryPackets := queue } := by
  rw [insertInRetryQueue]
  split
  · exact .inl rfl
  · split
    · exact .inl rfl
    · rename_i queue hqueue
      split
      · exact .inr ⟨queue, insertByDistance_perm hqueue, rfl⟩
      · exact .inl rfl

theorem Windowed.requeued (h : Windowed s) (free : Free s item) :
    Windowed (s.insertInRetryQueue item) ∧ Puts true s item (s.insertInRetryQueue item) := by
  obtain ⟨hwindowed, hput⟩ := h.requeue free
  obtain hsame | ⟨queue, hperm, hqueue⟩ := insertInRetryQueue_cases s item
  · rw [hsame] at hwindowed hput ⊢
    exact ⟨hwindowed, List.Subset.refl _, rfl, Nat.le_add_right _ _, fun _ => hput⟩
  · rw [hqueue] at hwindowed hput ⊢
    refine ⟨hwindowed, fun i hi => hperm.symm.subset (mem_cons_of_mem _ hi), rfl, ?_,
      fun _ => hput⟩
    exact hperm.length_eq.le

theorem notifyAckedMpdu_retry (t : OriginatorAgreement) (seqNumber : ℕ) :
    (t.notifyAckedMpdu seqNumber).m_retryPackets = t.m_retryPackets := by
  rw [notifyAckedMpdu]
  split <;> rfl

theorem insertInRetryQueue_erased (t : OriginatorAgreement) (item : WifiMacQueueItem)
    (l : List WifiMacQueueItem) :
    ({ t with outstanding := l } : OriginatorAgreement).insertInRetryQueue item =
      { t.insertInRetryQueue item with outstanding := l } := by
  have hstart : ({ t with outstanding := l } : OriginatorAgreement).getStartingSequence =
      t.getStartingSequence := rfl
  have hdistance : ({ t with outstanding := l } : OriginatorAgreement).getDistance =
    t.getDistance :=
    rfl
  simp only [insertInRetryQueue, hstart, hdistance]
  cases insertByDistance t.getStartingSequence item t.m_retryPackets <;>
    (dsimp only; split_ifs <;> rfl)

theorem notifyAckedMpdu_eq (t : OriginatorAgreement) (seqNumber : ℕ) :
    t.notifyAckedMpdu seqNumber = { t with
      m_txWindow := if 2048 ≤ t.getDistance seqNumber then t.m_txWindow
        else (t.m_txWindow.setAt (t.getDistance seqNumber)).advanceTxWindow } := by
  rw [notifyAckedMpdu]
  split_ifs <;> rfl

theorem gotBlockAckOf_erased (t : OriginatorAgreement) (item : WifiMacQueueItem)
    (l : List WifiMacQueueItem) (isPacketReceived : ℕ → Bool) (start : ℕ) :
    ({ t with outstanding := l } : OriginatorAgreement).gotBlockAckOf isPacketReceived start item =
      { t.gotBlockAckOf isPacketReceived start item with outstanding := l } := by
  rw [gotBlockAckOf, gotBlockAckOf]
  split_ifs
  · rw [notifyAckedMpdu_eq, notifyAckedMpdu_eq]
    rfl
  · exact insertInRetryQueue_erased t item l
  · rfl

variable (isPacketReceived : ℕ → Bool)

theorem Windowed.gotBlockAck (h : Windowed s) :
    let u := s.outstanding.foldl
      (fun t item => t.gotBlockAckOf isPacketReceived s.getStartingSequence item) s
    Windowed { u with outstanding := [] } ∧ s.m_retryPackets ⊆ u.m_retryPackets ∧
      (s.m_retryPackets.length + s.elsewhere +
          (s.outstanding.filter (s.isLost isPacketReceived)).length ≤ maxQueueSize →
        ∀ i ∈ s.outstanding, s.isLost isPacketReceived i = true → i ∈ u.m_retryPackets) := by
  refine Windowed.drain (s.isLost isPacketReceived) (fun t i l => gotBlockAckOf_erased t i l _ _)
    (fun t i ht hfree => ?_) h
  rw [gotBlockAckOf]
  split_ifs with hreceived hold
  · have hkept := notifyAckedMpdu_retry t i.getSequenceNumber
    have hwanted : s.isLost isPacketReceived i = false := by simp [isLost, hreceived]
    refine ⟨ht.ack hfree, hkept ▸ List.Subset.refl _, ?_, hkept ▸ Nat.le_add_right _ _,
      fun hw => ?_⟩
    · rw [notifyAckedMpdu_eq]
    · exact absurd (hwanted.symm.trans hw) Bool.false_ne_true
  · have hwanted : s.isLost isPacketReceived i = true := by
      simpa [isLost, hreceived] using hold
    exact hwanted ▸ ht.requeued hfree
  · have hwanted : s.isLost isPacketReceived i = false := by
      simpa [isLost, hreceived] using hold
    exact ⟨ht, List.Subset.refl _, rfl, Nat.le_add_right _ _,
      fun hw => absurd (hwanted.symm.trans hw) Bool.false_ne_true⟩

theorem Windowed.missedBlockAck (h : Windowed s) : Windowed s.notifyMissedBlockAck :=
  (Windowed.drain (fun _ => true) insertInRetryQueue_erased
    (fun _ _ ht hfree => ht.requeued hfree) h).1

theorem Windowed.discarded (h : Windowed s) {seqNumber : ℕ} (bound : seqNumber < 4096)
    (ne : s.getDistance seqNumber ≠ 2047) :
    Ensures (s.notifyDiscardedMpdu seqNumber) Windowed (fun _ => False) := by
  have hstart := h.start
  rw [notifyDiscardedMpdu, isOldPacket]
  refine Ensures.ite (fun _ => h) fun hold => ?_
  have hnear : s.getDistance seqNumber < 2047 := by
    have hlt : s.getDistance seqNumber < 2048 := not_le.mp fun hle => hold (decide_eq_true hle)
    omega
  have hnext : s.getDistance ((seqNumber + 1) % 4096) = s.getDistance seqNumber + 1 :=
    distance_succ hstart bound (show s.getDistance seqNumber < 4095 by omega)
  have hne : (seqNumber + 1) % 4096 ≠ s.getStartingSequence := by
    intro heq
    rw [heq, getDistance, distance] at hnext
    omega
  have hlast : ((seqNumber + 1) % 4096 + 4096 - 1) % 4096 = seqNumber := by omega
  have hzero : s.getDistance s.getStartingSequence = 0 := by
    rw [getDistance, distance]
    omega
  rw [removeOldPackets, if_neg (by omega), if_neg hne, hlast, ensures_map, ensures_ok]
  have hrest := h.sublist (filter_sublist (l := s.outstanding)
      (p := fun i => ¬s.getDistance i.getSequenceNumber ≤ s.getDistance seqNumber))
    (filter_sublist (l := s.m_retryPackets) (p := fun i => ¬(s.getDistance s.getStartingSequence ≤
      s.getDistance i.getSequenceNumber ∧ s.getDistance i.getSequenceNumber ≤
        s.getDistance seqNumber)))
  generalize hu : ({ s with
    outstanding :=
      s.outstanding.filter fun i => ¬s.getDistance i.getSequenceNumber ≤ s.getDistance seqNumber
    m_retryPackets := s.m_retryPackets.filter fun i => ¬(s.getDistance s.getStartingSequence ≤
      s.getDistance i.getSequenceNumber ∧ s.getDistance i.getSequenceNumber ≤
        s.getDistance seqNumber) } : OriginatorAgreement) = u at hrest
  have hpast : ∀ i ∈ u.held, s.getDistance seqNumber + 1 ≤ u.getDistance i.getSequenceNumber := by
    subst hu
    intro i hi
    rcases mem_append.mp hi with hi | hi
    · exact not_le.mp (of_decide_eq_true (mem_filter.mp hi).2)
    · refine not_le.mp fun hle => of_decide_eq_true (mem_filter.mp hi).2 ⟨?_, hle⟩
      exact hzero.trans_le (Nat.zero_le _)
  have hmoved := hrest.moved (moved_advance hrest.head _) hpast
  subst hu
  have hnot : ¬2048 ≤ s.getDistance seqNumber := by omega
  exact (congrArg Windowed (if_neg hnot)).mpr hmoved.settle

end Windowed

/-! ## What the lists hold -/

structure Adds (items : List WifiMacQueueItem) (s t : OriginatorAgreement) : Prop where
  held : t.held ⊆ items ++ s.held
  made : t.made = s.made
  reported : t.reported = s.reported
  missing : t.missing = s.missing

section Adds

variable {s t u : OriginatorAgreement} {item : WifiMacQueueItem} {items : List WifiMacQueueItem}

theorem Adds.refl (s : OriginatorAgreement) (items : List WifiMacQueueItem) : Adds items s s :=
  ⟨subset_append_right _ _, rfl, rfl, rfl⟩

theorem Adds.trans (h : Adds items s t) (h' : Adds items t u) : Adds items s u where
  held i hi := by
    rcases mem_append.mp (h'.held hi) with hi | hi
    · exact mem_append_left _ hi
    · exact h.held hi
  made := h'.made.trans h.made
  reported := h'.reported.trans h.reported
  missing := h'.missing.trans h.missing

theorem adds_notifyAckedMpdu (s : OriginatorAgreement) (seqNumber : ℕ)
    (items : List WifiMacQueueItem) : Adds items s (s.notifyAckedMpdu seqNumber) := by
  rw [notifyAckedMpdu_eq]
  exact ⟨subset_append_right _ _, rfl, rfl, rfl⟩

theorem adds_notifyTransmittedMpdu (s : OriginatorAgreement) (seqNumber : ℕ)
    (items : List WifiMacQueueItem) : Adds items s (s.notifyTransmittedMpdu seqNumber) := by
  rw [notifyTransmittedMpdu]
  split_ifs <;> exact ⟨subset_append_right _ _, rfl, rfl, rfl⟩

theorem adds_eraseOutstanding (s : OriginatorAgreement) (seqNumber : ℕ)
    (items : List WifiMacQueueItem) : Adds items s (s.eraseOutstanding seqNumber) where
  held _ hi := mem_append_right _ ((filter_sublist.append (List.Sublist.refl _)).subset hi)
  made := rfl
  reported := rfl
  missing := rfl

theorem adds_insertInRetryQueue (s : OriginatorAgreement) (item : WifiMacQueueItem) :
    Adds [item] s (s.insertInRetryQueue item) := by
  obtain hsame | ⟨queue, hperm, hqueue⟩ := insertInRetryQueue_cases s item
  · exact hsame.symm ▸ .refl s _
  · rw [hqueue]
    refine ⟨fun i hi => ?_, rfl, rfl, rfl⟩
    rcases mem_append.mp hi with hi | hi
    · exact mem_append_right _ (mem_append_left _ hi)
    · rcases mem_cons.mp (hperm.subset hi) with rfl | hi
      · exact mem_cons_self
      · exact mem_append_right _ (mem_append_right _ hi)

theorem adds_storePacket (s : OriginatorAgreement) (item : WifiMacQueueItem) :
    Adds [item] s (s.storePacket item) := by
  rw [storePacket]
  split
  · exact .refl s _
  · split
    · exact .refl s _
    · rename_i queue hqueue
      have hstored : Adds [item] s { s with outstanding := queue } := by
        refine ⟨fun i hi => ?_, rfl, rfl, rfl⟩
        rcases mem_append.mp hi with hi | hi
        · rcases mem_cons.mp ((insertByDistance_perm hqueue).subset hi) with rfl | hi
          · exact mem_cons_self
          · exact mem_append_right _ (mem_append_left _ hi)
        · exact mem_append_right _ (mem_append_right _ hi)
      exact hstored.trans (adds_notifyTransmittedMpdu _ _ _)

theorem adds_notifyGotAck (s : OriginatorAgreement) (item : WifiMacQueueItem) :
    Adds [item] s (s.notifyGotAck item) :=
  (adds_eraseOutstanding s _ _).trans (adds_notifyAckedMpdu _ _ _)

theorem adds_notifyMissedAck (s : OriginatorAgreement) (item : WifiMacQueueItem) :
    Adds [item] s (s.notifyMissedAck item) :=
  (adds_eraseOutstanding s _ _).trans (adds_insertInRetryQueue _ item)

theorem adds_foldl_insertInRetryQueue (l : List WifiMacQueueItem) (sub : l ⊆ items)
    (s : OriginatorAgreement) : Adds items s (l.foldl insertInRetryQueue s) := by
  induction l generalizing s with
  | nil => exact .refl s _
  | cons item rest ih =>
    have hone := adds_insertInRetryQueue s item
    have hfirst : Adds items s (s.insertInRetryQueue item) :=
      ⟨fun i hi => (mem_append.mp (hone.held hi)).elim
        (fun hi => mem_append_left _ (sub (mem_singleton.mp hi ▸ mem_cons_self)))
        (mem_append_right _), hone.made, hone.reported, hone.missing⟩
    exact hfirst.trans (ih (fun i hi => sub (mem_cons_of_mem _ hi)) _)

theorem adds_notifyMissedBlockAck (s : OriginatorAgreement) : Adds [] s s.notifyMissedBlockAck := by
  have h := adds_foldl_insertInRetryQueue s.outstanding
    (subset_append_left s.outstanding s.m_retryPackets) s
  refine ⟨fun i hi => ?_, h.made, h.reported, h.missing⟩
  exact (mem_append.mp (h.held (mem_append_right _ hi))).elim id id

theorem mem_gotBlockAck {isPacketReceived : ℕ → Bool} {start : ℕ} (l : List WifiMacQueueItem)
    (s : OriginatorAgreement) {i : WifiMacQueueItem}
    (mem : i ∈ (l.foldl (fun t item => t.gotBlockAckOf isPacketReceived start item)
      s).m_retryPackets) :
    i ∈ s.m_retryPackets ∨ i ∈ l ∧ isPacketReceived i.getSequenceNumber = false := by
  induction l generalizing s with
  | nil => exact .inl mem
  | cons item rest ih =>
    rcases ih _ mem with hmem | ⟨hmem, hnot⟩
    · change i ∈ (s.gotBlockAckOf isPacketReceived start item).m_retryPackets at hmem
      rw [gotBlockAckOf] at hmem
      split_ifs at hmem with hreceived
      · rw [notifyAckedMpdu_retry] at hmem
        exact .inl hmem
      · obtain hsame | ⟨queue, hperm, hqueue⟩ := insertInRetryQueue_cases s item
        · exact .inl (hsame ▸ hmem)
        · rw [hqueue] at hmem
          rcases mem_cons.mp (hperm.subset hmem) with rfl | hmem
          · exact .inr ⟨mem_cons_self, Bool.not_eq_true _ ▸ hreceived⟩
          · exact .inl hmem
      · exact .inl hmem
    · exact .inr ⟨mem_cons_of_mem _ hmem, hnot⟩

theorem gotBlockAckOf_counts (isPacketReceived : ℕ → Bool) (start : ℕ) (l : List WifiMacQueueItem)
    (s : OriginatorAgreement) :
    (l.foldl (fun t item => t.gotBlockAckOf isPacketReceived start item) s).made = s.made := by
  induction l generalizing s with
  | nil => rfl
  | cons item rest ih =>
    refine (ih _).trans ?_
    change (s.gotBlockAckOf isPacketReceived start item).made = s.made
    rw [gotBlockAckOf]
    split_ifs
    · exact (adds_notifyAckedMpdu s _ []).made
    · exact (adds_insertInRetryQueue s item).made
    · rfl

theorem adds_notifyDiscardedMpdu (s : OriginatorAgreement) (seqNumber : ℕ) :
    Ensures (s.notifyDiscardedMpdu seqNumber) (fun t => Adds [] s t) (fun _ => True) := by
  rw [notifyDiscardedMpdu]
  refine Ensures.ite (fun _ => .refl s _) fun _ => ensures_map.mpr ?_
  have hpast : ∀ t, Adds [] s t → Adds [] s (t.advancePast seqNumber) := fun t ht => by
    rw [advancePast]
    split_ifs
    · exact ht
    · exact ⟨ht.held, ht.made, ht.reported, ht.missing⟩
  rw [removeOldPackets]
  refine Ensures.ite (fun _ => trivial) fun _ => Ensures.ite (fun _ => hpast s (.refl s _)) fun _ =>
    hpast _ ?_
  refine ⟨fun i hi => ?_, rfl, rfl, rfl⟩
  rcases mem_append.mp hi with hi | hi
  · exact mem_append_right [] (mem_append_left _ (mem_of_mem_filter hi))
  · exact mem_append_right [] (mem_append_right _ (mem_of_mem_filter hi))

end Adds

/-! ## Runs -/

/-- Items are told apart by their numbers, and those reported received are gone. -/
structure Accounted (s : OriginatorAgreement) : Prop where
  made : ∀ i ∈ s.held, i.number < s.made
  reported : ∀ i ∈ s.reported, i.number < s.made ∧ i ∉ s.held

structure Kept (s : OriginatorAgreement) : Prop extends Windowed s, Accounted s where
  missing : ∀ i ∈ s.missing, i ∈ s.m_retryPackets

section Steps

variable {s t u : OriginatorAgreement} {item : WifiMacQueueItem}

theorem Accounted.adds (h : Accounted s) (adds : Adds [] s t) : Accounted t where
  made i hi := (h.made i (adds.held hi)).trans_eq adds.made.symm
  reported i hi := by
    rw [adds.reported] at hi
    exact ⟨(h.reported i hi).1.trans_eq adds.made.symm, fun hheld =>
      (h.reported i hi).2 (adds.held hheld)⟩

theorem Accounted.withFrame (h : Accounted s) (empty : s.missing = []) (frame : Frame)
    {f : OriginatorAgreement → WifiMacQueueItem → OriginatorAgreement}
    (adds : ∀ t item, Adds [item] t (f t item)) :
    Accounted (withFrame s frame f) ∧ (withFrame s frame f).missing = [] := by
  rw [Originator.withFrame]
  cases frame with
  | new packet =>
    rw [take_new]
    have hadds := adds s.numberNext (s.newItem packet)
    refine ⟨⟨fun i hi => ?_, fun i hi => ?_⟩, hadds.missing.trans empty⟩
    · refine lt_of_lt_of_eq ?_ hadds.made.symm
      rcases mem_cons.mp (hadds.held hi) with rfl | hi
      · exact Nat.lt_succ_self _
      · exact (h.made i hi).trans (Nat.lt_succ_self _)
    · have hi' : i ∈ s.reported := hadds.reported ▸ hi
      obtain ⟨hlt, hgone⟩ := h.reported i hi'
      refine ⟨(hlt.trans (Nat.lt_succ_self _)).trans_eq hadds.made.symm, fun hheld => ?_⟩
      rcases mem_cons.mp (hadds.held hheld) with rfl | hheld
      · exact lt_irrefl _ hlt
      · exact hgone hheld
  | retransmitted position =>
    rw [take]
    cases hget : s.m_retryPackets[position]? with
    | none => exact ⟨h, empty⟩
    | some item =>
      have hadds := adds { s with m_retryPackets := s.m_retryPackets.eraseIdx position } item
      refine ⟨h.adds ⟨fun i hi => ?_, hadds.made, hadds.reported, hadds.missing⟩,
        hadds.missing.trans empty⟩
      rcases mem_cons.mp (hadds.held hi) with rfl | hi
      · exact mem_append_right s.outstanding (mem_of_getElem? hget)
      · have hsub : (s.outstanding ++ s.m_retryPackets.eraseIdx position).Sublist s.held :=
          (List.Sublist.refl _).append (eraseIdx_sublist _ _)
        exact hsub.subset hi
  | outstanding position =>
    rw [take]
    cases hget : s.outstanding[position]? with
    | none => exact ⟨h, empty⟩
    | some item =>
      have hadds := adds s item
      refine ⟨h.adds ⟨fun i hi => ?_, hadds.made, hadds.reported, hadds.missing⟩,
        hadds.missing.trans empty⟩
      rcases mem_cons.mp (hadds.held hi) with rfl | hi
      · exact mem_append_left s.m_retryPackets (mem_of_getElem? hget)
      · exact hi

theorem Kept.gotBlockAck (h : Windowed s) (accounted : Accounted s) {isPacketReceived : ℕ → Bool}
    (waiting : ∀ i ∈ s.m_retryPackets, isPacketReceived i.getSequenceNumber = false)
    (room : s.m_retryPackets.length + s.elsewhere +
      (s.outstanding.filter (s.isLost isPacketReceived)).length ≤ maxQueueSize) :
    Kept (s.notifyGotBlockAck isPacketReceived) := by
  obtain ⟨hwindowed, -, hwanted⟩ := h.gotBlockAck isPacketReceived
  have hmade := gotBlockAckOf_counts isPacketReceived s.getStartingSequence s.outstanding s
  have hmem := @mem_gotBlockAck isPacketReceived s.getStartingSequence s.outstanding s
  rw [notifyGotBlockAck]
  generalize s.outstanding.foldl
    (fun t item => t.gotBlockAckOf isPacketReceived s.getStartingSequence item) s = u
    at hwindowed hwanted hmade hmem
  have hheld : ∀ i ∈ u.m_retryPackets, i ∈ s.held := fun i hi =>
    (hmem hi).elim (mem_append_right _) fun h => mem_append_left _ h.1
  refine ⟨{ hwindowed with unacked := fun i hi => ?_, acked := fun d hd hflag => ?_ },
    ⟨fun i hi => (accounted.made i (hheld i hi)).trans_eq hmade.symm, fun i hi => ?_⟩,
      fun i hi => ?_⟩
  · have hu := hwindowed.unacked i hi
    exact ⟨⟨hu.inWindow, hu.numbered, hu.recent⟩, hu.flag⟩
  · have hspot := hwindowed.acked d hd hflag
    exact ⟨hspot.inWindow, hspot.numbered, hspot.recent⟩
  · rcases mem_append.mp hi with hi | hi
    · obtain ⟨hlt, hgone⟩ := accounted.reported i hi
      exact ⟨hlt.trans_eq hmade.symm, fun hin => hgone (hheld i hin)⟩
    · obtain ⟨hi, hreceived⟩ := mem_filter.mp hi
      refine ⟨(accounted.made i hi).trans_eq hmade.symm, fun hin => ?_⟩
      rcases hmem hin with hretry | ⟨-, hnot⟩
      · exact Bool.false_ne_true ((waiting i hretry).symm.trans hreceived)
      · exact Bool.false_ne_true (hnot.symm.trans hreceived)
  · obtain ⟨hi, hlost⟩ := mem_filter.mp hi
    exact hwanted room i hi hlost

end Steps

variable {s : OriginatorAgreement}

/-- What the callers see to: an MPDU that is sent by itself is in the window. -/
def Sent (s : OriginatorAgreement) : Action → Prop
  | .notifyGotAck frame | .notifyMissedAck frame => InWindow s frame
  | _ => True

/-- A new MPDU beyond the window moves it past none that is held, no block ack reports received what
waits in the retransmit queue, which has room for what is lost, nothing just in front of the old
ones is discarded, and nothing in the queue has expired when it is put to use. -/
def Steady (s : OriginatorAgreement) : Action → Prop
  | .storePacket frame => PassesNone s frame
  | .notifyGotBlockAck isPacketReceived =>
    s.Fresh ∧ (∀ i ∈ s.m_retryPackets, isPacketReceived i.getSequenceNumber = false) ∧
      s.m_retryPackets.length + s.elsewhere +
        (s.outstanding.filter (s.isLost isPacketReceived)).length ≤ maxQueueSize
  | .notifyDiscardedMpdu seqNumber => s.Fresh ∧ s.getDistance seqNumber ≠ 2047
  | .notifyMissedAck _ | .notifyMissedBlockAck => s.Fresh
  | .notifyGotAck _ | .elapse _ _ => True

instance (s : OriginatorAgreement) : (frame : Frame) → Decidable (InWindow s frame)
  | .new _ | .retransmitted _ | .outstanding _ => by unfold InWindow; infer_instance

instance (s : OriginatorAgreement) : (frame : Frame) → Decidable (PassesNone s frame)
  | .new _ | .retransmitted _ | .outstanding _ => by unfold PassesNone; infer_instance

instance (s : OriginatorAgreement) : (a : Action) → Decidable (Sent s a)
  | .notifyGotAck .. | .notifyMissedAck .. | .storePacket _ | .notifyGotBlockAck _
  | .notifyMissedBlockAck | .notifyDiscardedMpdu _ | .elapse .. => by unfold Sent; infer_instance

instance (s : OriginatorAgreement) : (a : Action) → Decidable (Steady s a)
  | .storePacket .. | .notifyGotBlockAck _ | .notifyDiscardedMpdu _ | .notifyMissedAck _
  | .notifyMissedBlockAck | .notifyGotAck _ | .elapse .. => by unfold Steady; infer_instance

theorem Kept.forget (h : Kept s) (now elsewhere : ℕ) :
    Kept { s with missing := [], now := now, elsewhere := elsewhere } where
  toWindowed := { h.toWindowed with
    unacked := fun i hi =>
      ⟨⟨(h.unacked i hi).inWindow, (h.unacked i hi).numbered, (h.unacked i hi).recent⟩,
      (h.unacked i hi).flag⟩
    acked := fun d hd hflag =>
      ⟨(h.acked d hd hflag).inWindow, (h.acked d hd hflag).numbered, (h.acked d hd hflag).recent⟩ }
  toAccounted := ⟨h.made, h.reported⟩
  missing _ hi := absurd hi not_mem_nil

theorem withFrame_windowed {frame : Frame}
    {f : OriginatorAgreement → WifiMacQueueItem → OriginatorAgreement} (h : Windowed s)
    (keep : ∀ item t, take s frame = some (item, t) → Windowed (f t item)) :
      Windowed (withFrame s frame f) := by
  rw [withFrame]
  cases htake : take s frame with
  | none => exact h
  | some p => exact keep p.1 p.2 htake

theorem step_kept {a : Action} (kept : Kept s) (sent : Sent s a) (steady : Steady s a) :
    Ensures (step s a) Kept (fun _ => False) := by
  have h := kept.forget s.now s.elsewhere
  have hempty : ({ s with missing := [] } : OriginatorAgreement).missing = [] := rfl
  have hframe : ∀ {t : OriginatorAgreement}, Windowed t → Accounted t ∧ t.missing = [] → Kept t :=
    fun hw ha =>
    ⟨hw, ha.1, fun i hi => absurd (ha.2 ▸ hi) not_mem_nil⟩
  cases a with
  | storePacket frame =>
    refine hframe (withFrame_windowed h.toWindowed fun item t htake => ?_)
      (h.toAccounted.withFrame hempty frame adds_storePacket)
    refine h.toWindowed.stored ?_ htake
    cases frame <;> exact steady
  | notifyGotAck frame =>
    refine hframe (withFrame_windowed h.toWindowed fun item t htake => ?_)
      (h.toAccounted.withFrame hempty frame adds_notifyGotAck)
    refine h.toWindowed.gotAck ?_ htake
    cases frame <;> exact sent
  | notifyMissedAck frame =>
    refine hframe (withFrame_windowed h.toWindowed fun item t htake => ?_)
      (h.toAccounted.withFrame hempty frame adds_notifyMissedAck)
    refine h.toWindowed.missedAck ?_ htake
    cases frame <;> exact sent
  | notifyGotBlockAck isPacketReceived =>
    exact .gotBlockAck h.toWindowed h.toAccounted steady.2.1 steady.2.2
  | notifyMissedBlockAck =>
    have hadds := adds_notifyMissedBlockAck { s with missing := [] }
    exact hframe h.toWindowed.missedBlockAck ⟨h.toAccounted.adds hadds, hadds.missing⟩
  | notifyDiscardedMpdu seqNumber =>
    have hwindowed := h.toWindowed.discarded seqNumber.isLt steady.2
    refine ensures_iff.mpr ⟨fun t ht => ?_, fun e he => hwindowed.of_error he⟩
    have hadds := (adds_notifyDiscardedMpdu _ _).of_ok ht
    exact hframe (hwindowed.of_ok ht) ⟨h.toAccounted.adds hadds, hadds.missing⟩
  | elapse time elsewhere => exact kept.forget (s.now + time) elsewhere

theorem established_kept (startingSeq : Fin 4096) (bufferSize : Fin 1024) :
    Kept (established startingSeq bufferSize) := by
  have hsize : (established startingSeq bufferSize).m_txWindow.getWinSize = bufferSize + 1 :=
    length_replicate
  have hlt := bufferSize.isLt
  refine ⟨⟨by omega, hsize ▸ Nat.succ_pos _, startingSeq.isLt, startingSeq.isLt, ?_,
    fun d hd hflag => ?_, .nil, .nil, ?_⟩, ⟨?_, ?_⟩, ?_⟩
  · exact fun i hi => absurd hi not_mem_nil
  · rw [at', Lib.RingBuffer.entry, getD_eq_getElem?_getD] at hflag
    exact absurd (hflag.symm.trans (List.getElem?_getD_replicate_default_eq _ _ _)) (by decide)
  · exact fun i hi => absurd hi not_mem_nil
  · exact fun i hi => absurd hi not_mem_nil
  · exact fun i hi => absurd hi not_mem_nil
  · exact fun i hi => absurd hi not_mem_nil

def OriginatorAgreement.notOld (s : OriginatorAgreement) (l : List WifiMacQueueItem) :
    List WifiMacQueueItem :=
  l.filter fun i => !isOldPacket s.getStartingSequence i.getSequenceNumber

@[mk_iff]
structure Sound (s : OriginatorAgreement) : Prop where
  distinct : ((s.outstanding ++ s.m_retryPackets).map WifiMacQueueItem.getSequenceControl).Nodup
  outstanding : (s.notOld s.outstanding).Pairwise fun i j =>
    s.getDistance i.getSequenceNumber ≤ s.getDistance j.getSequenceNumber
  retry : (s.notOld s.m_retryPackets).Pairwise fun i j =>
    s.getDistance i.getSequenceNumber ≤ s.getDistance j.getSequenceNumber
  reported : ∀ i ∈ s.reported, i ∉ s.outstanding ∧ i ∉ s.m_retryPackets
  missing : ∀ i ∈ s.missing, i ∈ s.m_retryPackets

instance (s : OriginatorAgreement) : Decidable (Sound s) :=
  decidable_of_iff _ (sound_iff s).symm

theorem Kept.sound (h : Kept s) : Sound s where
  distinct := by
    have hsorted : ∀ l, Sorted s.getStartingSequence l → l.Pairwise fun i j =>
        s.getDistance i.getSequenceNumber ≠ s.getDistance j.getSequenceNumber := fun l hl =>
      List.Pairwise.imp (fun hlt => hlt.ne) hl
    have hne : s.held.Pairwise fun i j =>
      s.getDistance i.getSequenceNumber ≠ s.getDistance j.getSequenceNumber :=
      pairwise_append.mpr ⟨hsorted _ h.outstanding, hsorted _ h.retry, h.apart⟩
    exact pairwise_map.mpr (List.Pairwise.imp (fun hne => (control_ne hne).symm) hne)
  outstanding := List.Pairwise.imp (fun hlt => hlt.le) (h.outstanding.sublist filter_sublist)
  retry := List.Pairwise.imp (fun hlt => hlt.le) (h.retry.sublist filter_sublist)
  reported i hi :=
    ⟨fun hin => (h.reported i hi).2 (mem_append_left _ hin), fun hin =>
      (h.reported i hi).2 (mem_append_right _ hin)⟩
  missing := h.missing

def resent : List Action :=
  [.storePacket (.new [1]), .storePacket (.new [2]), .notifyMissedBlockAck,
  .storePacket (.retransmitted 0), .notifyGotBlockAck (· ≤ 1)]

end Egsr.Wifi.BlockAck.Originator
