import Egsr.Internet.Scoreboard

/-! The choice of what to send next. One pass over the sent items looks for a lost one
and saves the first that may be sent again; that none is saved yet is told from the
saved number being 0, which may as well be the number of an item. -/

namespace Egsr.Internet.TxBuffer

open Network Network.SequenceNumber32 Lib.Run List TcpTxBuffer

namespace TcpTxBuffer

/-- The loop over the sent items: the start of a lost one, or what is saved for rule 3. -/
def scanSent (isRecovery : Bool) : List Node → (beginOfCurrentPkt seqPerRule3 : SequenceNumber32) →
    (isSeqPerRule3Valid : Bool) → SequenceNumber32 ⊕ (SequenceNumber32 × Bool)
  | [], _, seqPerRule3, isSeqPerRule3Valid => .inr (seqPerRule3, isSeqPerRule3Valid)
  | node :: rest, begin, seqPerRule3, isSeqPerRule3Valid =>
    if node.item.m_retrans = false ∧ node.item.m_sacked = false then
      if node.item.m_lost then .inl begin
      else if seqPerRule3.m_value = 0 ∧ isRecovery then
        scanSent isRecovery rest (begin.add node.item.getSize) begin true
      else scanSent isRecovery rest (begin.add node.item.getSize) seqPerRule3 isSeqPerRule3Valid
    else scanSent isRecovery rest (begin.add node.item.getSize) seqPerRule3 isSeqPerRule3Valid

def nextSeg (b : TcpTxBuffer) (isRecovery : Bool) : Option SequenceNumber32 :=
  match scanSent isRecovery b.m_sentList b.m_firstByteSeq ⟨0⟩ false with
  | .inl seq => some seq
  | .inr (seqPerRule3, isSeqPerRule3Valid) =>
    if b.sizeFromSequence (b.m_firstByteSeq.add b.m_sentSize) > 0 then
      some (b.m_firstByteSeq.add b.m_sentSize)
    else if isSeqPerRule3Valid then some seqPerRule3
    else none

end TcpTxBuffer

def Open (node : Node) : Prop := node.item.m_retrans = false ∧ node.item.m_sacked = false
deriving Decidable

def openItems (place : ℕ) : List Node → List (ℕ × TcpTxItem)
  | [] => []
  | node :: rest =>
    if Open node then (place, node.item) :: openItems (place + node.item.m_packet.length) rest
    else openItems (place + node.item.m_packet.length) rest

@[mk_iff]
structure Counted (b : TcpTxBuffer) : Prop where
  sent : Filled b.m_sentList
  size : b.m_size.toNat = b.data.length
  sentSize : b.m_sentSize.toNat = (bytes b.m_sentList).length

instance (b : TcpTxBuffer) : Decidable (Counted b) := decidable_of_iff _ (counted_iff b).symm

namespace TcpTxBuffer

variable (b : TcpTxBuffer)

def firstLost : Option ℕ :=
  ((openItems 0 b.m_sentList).find? fun e => e.2.m_lost).map Prod.fst

def firstUnsent : Option ℕ :=
  if bytes b.m_appList = [] then none else some (bytes b.m_sentList).length

def firstOpen : Option ℕ := (openItems 0 b.m_sentList).head?.map Prod.fst

variable (isRecovery : Bool)

def byRules : Option ℕ :=
  b.firstLost.or (b.firstUnsent.or (if isRecovery then b.firstOpen else none))

def FollowsRules : Prop :=
  b.nextSeg isRecovery = (b.byRules isRecovery).map (offset b.m_firstByteSeq.m_value)
deriving Decidable

/-- What is not sent is less than half of the range of the numbers, or half of it and wraps
around. -/
def UnsentInReach : Prop :=
  (bytes b.m_appList).length < 2 ^ 31 ∨
    (bytes b.m_appList).length = 2 ^ 31 ∧
      b.tailSequence.m_value < (b.m_firstByteSeq.add b.m_sentSize).m_value

def FirstOpenKept : Prop :=
  (∀ place ∈ b.firstOpen, (offset b.m_firstByteSeq.m_value place).m_value ≠ 0) ∨
    (openItems 0 b.m_sentList).length ≤ 1

/-- There is a lost item; or there is unsent data, and it is in reach; or there is none, and the
first open item is kept where it is asked for. -/
def Answerable : Prop :=
  b.firstLost.isSome ∨
    if bytes b.m_appList = [] then isRecovery = true → b.FirstOpenKept else b.UnsentInReach

end TcpTxBuffer

/-! ## The pass over the items -/

section Pass

variable {n : UInt32} {place : ℕ} {l : List Node} {isRecovery : Bool}

def save (n : UInt32) (isRecovery : Bool) (saved : SequenceNumber32 × Bool) (places : List ℕ) :
    SequenceNumber32 × Bool :=
  places.foldl (fun saved place => if saved.1.m_value = 0 ∧ isRecovery then (offset n place, true)
    else saved) saved

theorem scanSent_eq (n : UInt32) (isRecovery : Bool) (l : List Node) (place : ℕ)
    (saved : SequenceNumber32 × Bool) : scanSent isRecovery l (offset n place) saved.1 saved.2 =
      match (openItems place l).find? fun e => e.2.m_lost with
      | some e => .inl (offset n e.1)
      | none => .inr (save n isRecovery saved ((openItems place l).map Prod.fst)) := by
  induction l generalizing place saved with
  | nil => rfl
  | cons node rest ih =>
    have next : (offset n place).add node.item.getSize =
        offset n (place + node.item.m_packet.length) := by
      rw [getSize_eq, add_offset]
    by_cases hopen : Open node
    · have flags : node.item.m_retrans = false ∧ node.item.m_sacked = false := hopen
      rw [scanSent, if_pos flags, openItems, if_pos hopen, next]
      cases lost : node.item.m_lost with
      | true =>
        rw [if_pos rfl, List.find?_cons_of_pos (p := fun e : ℕ × TcpTxItem => e.2.m_lost) lost]
      | false =>
        have other : ¬ (place, node.item).2.m_lost = true := by simp [lost]
        rw [if_neg Bool.false_ne_true,
          List.find?_cons_of_neg (p := fun e : ℕ × TcpTxItem => e.2.m_lost) other,
          map_cons, save, foldl_cons, ← save]
        by_cases free : saved.1.m_value = 0 ∧ isRecovery
        · rw [if_pos free, if_pos free]
          exact ih _ (offset n place, true)
        · rw [if_neg free, if_neg free]
          exact ih _ saved
    · have flags : ¬ (node.item.m_retrans = false ∧ node.item.m_sacked = false) := hopen
      rw [scanSent, if_neg flags, openItems, if_neg hopen, next]
      exact ih _ saved

theorem mem_openItems {e : ℕ × TcpTxItem} (filled : Filled l) (he : e ∈ openItems place l) :
    place ≤ e.1 ∧ e.1 < place + (bytes l).length := by
  induction l generalizing place with
  | nil => cases he
  | cons node rest ih =>
    obtain ⟨pos, filled⟩ := (filled_cons ..).mp filled
    rw [bytes_cons, length_append]
    have behind : e ∈ openItems (place + node.item.m_packet.length) rest →
        place ≤ e.1 ∧ e.1 < place + (node.item.m_packet.length + (bytes rest).length) := by
      intro he
      have := ih filled he
      omega
    rw [openItems] at he
    split_ifs at he
    · rcases mem_cons.mp he with rfl | he
      · exact ⟨le_rfl, by dsimp only; omega⟩
      · exact behind he
    · exact behind he

theorem openItems_pairwise (filled : Filled l) :
    (openItems place l).Pairwise fun e e' => e.1 < e'.1 := by
  induction l generalizing place with
  | nil => exact .nil
  | cons node rest ih =>
    obtain ⟨pos, filled⟩ := (filled_cons ..).mp filled
    rw [openItems]
    split_ifs
    · refine pairwise_cons.mpr ⟨fun e he => ?_, ih filled⟩
      have := (mem_openItems filled he).1
      dsimp only
      omega
    · exact ih filled

theorem save_false (places : List ℕ) : save n false (⟨0⟩, false) places = (⟨0⟩, false) := by
  induction places with
  | nil => rfl
  | cons place places ih =>
    rw [save, foldl_cons, if_neg fun h => Bool.false_ne_true h.2]
    exact ih

theorem save_nonzero {saved : SequenceNumber32 × Bool} (h : saved.1.m_value ≠ 0) (places : List ℕ) :
    save n isRecovery saved places = saved := by
  induction places with
  | nil => rfl
  | cons place places ih =>
    rw [save, foldl_cons, if_neg fun h' => h h'.1]
    exact ih

theorem save_cons {saved : SequenceNumber32 × Bool} (h : saved.1.m_value = 0) (places : List ℕ) :
    save n true saved (place :: places) = save n true (offset n place, true) places := by
  rw [save, foldl_cons, if_pos ⟨h, rfl⟩, save]

theorem save_mem (n : UInt32) (isRecovery : Bool) (saved : SequenceNumber32 × Bool)
    (places : List ℕ) :
    save n isRecovery saved places = saved ∨ ∃ place ∈ places, save n isRecovery saved places =
    (offset n place, true) := by
  induction places generalizing saved with
  | nil => exact .inl rfl
  | cons place places ih =>
    rw [save, foldl_cons, ← save]
    split_ifs
    · right
      rcases ih (offset n place, true) with same | ⟨other, hother, heq⟩
      · exact ⟨place, mem_cons_self, same⟩
      · exact ⟨other, mem_cons_of_mem _ hother, heq⟩
    · exact (ih saved).imp_right fun ⟨other, hother, heq⟩ => ⟨other, mem_cons_of_mem _ hother, heq⟩

def savedOf (n : UInt32) : List ℕ → SequenceNumber32 × Bool
  | [] => (⟨0⟩, false)
  | [place] => (offset n place, true)
  | first :: second :: _ =>
  (if (offset n first).m_value = 0 then offset n second else offset n first, true)

theorem save_places {places : List ℕ} (order : places.Pairwise (· < ·))
    (short : ∀ place ∈ places, place < 2 ^ 32) :
    save n true (⟨0⟩, false) places = savedOf n places := by
  rcases places with _ | ⟨first, _ | ⟨second, rest⟩⟩
  · rfl
  · exact save_cons rfl []
  · rw [save_cons rfl, savedOf]
    by_cases zero : (offset n first).m_value = 0
    · have less := (pairwise_cons.mp order).1 second mem_cons_self
      have other : (offset n second).m_value ≠ 0 := by
        intro same
        have first_eq := toNat_offset n first
        have second_eq := toNat_offset n second
        have limit := short second (by simp)
        rw [zero] at first_eq
        rw [same] at second_eq
        change 0 = _ at first_eq
        change 0 = _ at second_eq
        omega
      rw [if_pos zero, save_cons zero, save_nonzero other]
    · rw [if_neg zero, save_nonzero zero]

end Pass

/-! ## The answers -/

section Answers

variable {b : TcpTxBuffer} (counted : Counted b)
include counted

theorem Counted.endOfSent_eq : b.m_firstByteSeq.add b.m_sentSize =
    offset b.m_firstByteSeq.m_value (bytes b.m_sentList).length := by
  rw [← counted.sentSize, offset, UInt32.ofNat_toNat]
  rfl

theorem Counted.tailSequence_eq : b.tailSequence =
    offset b.m_firstByteSeq.m_value b.data.length := by
  rw [← counted.size, offset, UInt32.ofNat_toNat]
  rfl

theorem Counted.length_lt : (bytes b.m_sentList).length + (bytes b.m_appList).length < 2 ^ 32 := by
  rw [← b.length_data, ← counted.size]
  exact b.m_size.toNat_lt

theorem Counted.sizeFromSequence_pos_iff (unsent : bytes b.m_appList ≠ []) :
    b.sizeFromSequence (b.m_firstByteSeq.add b.m_sentSize) > 0 ↔ b.UnsentInReach := by
  have short := counted.length_lt
  have pos := length_pos_iff.mpr unsent
  have sent := toNat_offset b.m_firstByteSeq.m_value (bytes b.m_sentList).length
  have tail := toNat_offset b.m_firstByteSeq.m_value b.data.length
  rw [← counted.endOfSent_eq] at sent
  rw [← counted.tailSequence_eq, b.length_data] at tail
  rw [TcpTxBuffer.UnsentInReach, sizeFromSequence, greaterEqual]
  generalize b.tailSequence = t at *
  generalize b.m_firstByteSeq.add b.m_sentSize = e at *
  have apart : t ≠ e := by
    rintro rfl
    omega
  have difference : 0 < (t.sub e).toNat := by
    rw [sub, UInt32.toNat_sub]
    omega
  have reach : t.greater e = true ↔ (bytes b.m_appList).length < 2 ^ 31 ∨
      (bytes b.m_appList).length = 2 ^ 31 ∧ t.m_value < e.m_value := by
    simp only [greater, halfMaxValue, Bool.or_eq_true, Bool.and_eq_true, decide_eq_true_eq,
      gt_iff_lt, UInt32.lt_iff_toNat_lt, UInt32.le_iff_toNat_le, UInt32.toNat_sub, sent, tail,
        UInt32.reduceToNat]
    omega
  rw [← reach, decide_eq_false apart, Bool.or_false]
  cases t.greater e with
  | true => exact iff_of_true difference rfl
  | false =>
    rw [if_neg Bool.false_ne_true]
    decide

theorem Counted.sizeFromSequence_none (unsent : bytes b.m_appList = []) :
    ¬ b.sizeFromSequence (b.m_firstByteSeq.add b.m_sentSize) > 0 := by
  have same : b.tailSequence = b.m_firstByteSeq.add b.m_sentSize := by
    rw [counted.endOfSent_eq, counted.tailSequence_eq, b.length_data, unsent, length_nil,
      Nat.add_zero]
  have nothing : b.sizeFromSequence (b.m_firstByteSeq.add b.m_sentSize) = 0 := by
    rw [sizeFromSequence, same, sub, UInt32.sub_self, ite_self]
  rw [nothing]
  decide

theorem Counted.offset_ne {p q : ℕ} (hp : p < q) (hq : q ≤ (bytes b.m_sentList).length) :
    offset b.m_firstByteSeq.m_value p ≠ offset b.m_firstByteSeq.m_value q := by
  intro same
  have short := counted.length_lt
  have p_eq := toNat_offset b.m_firstByteSeq.m_value p
  have q_eq := toNat_offset b.m_firstByteSeq.m_value q
  rw [same] at p_eq
  omega

omit counted in
theorem nextSeg_eq (b : TcpTxBuffer) (isRecovery : Bool) : b.nextSeg isRecovery =
    match b.firstLost with
    | some place => some (offset b.m_firstByteSeq.m_value place)
    | none =>
      if b.sizeFromSequence (b.m_firstByteSeq.add b.m_sentSize) >
        0 then some (b.m_firstByteSeq.add b.m_sentSize)
      else
        let saved :=
          save b.m_firstByteSeq.m_value isRecovery (⟨0⟩, false)
            ((openItems 0 b.m_sentList).map Prod.fst)
        if saved.2 then some saved.1 else none := by
  have first : b.m_firstByteSeq = offset b.m_firstByteSeq.m_value 0 := by
    exact congrArg SequenceNumber32.mk (UInt32.add_zero _).symm
  have scan := scanSent_eq b.m_firstByteSeq.m_value isRecovery b.m_sentList 0 (⟨0⟩, false)
  rw [← first] at scan
  rw [nextSeg, scan, firstLost]
  cases (openItems 0 b.m_sentList).find? fun e => e.2.m_lost with
  | none => rfl
  | some e => rfl

theorem Counted.openPlaces : ((openItems 0 b.m_sentList).map Prod.fst).Pairwise (· < ·) ∧
    ∀ place ∈ (openItems 0 b.m_sentList).map Prod.fst, place < (bytes b.m_sentList).length := by
  refine ⟨pairwise_map.mpr (openItems_pairwise counted.sent), fun place h => ?_⟩
  obtain ⟨e, he, rfl⟩ := mem_map.mp h
  have := (mem_openItems counted.sent he).2
  omega

theorem Counted.followsRules_iff_of_unsent {isRecovery : Bool} (lost : b.firstLost = none)
    (unsent : bytes b.m_appList ≠ []) : b.FollowsRules isRecovery ↔ b.UnsentInReach := by
  have answer : (b.byRules isRecovery).map (offset b.m_firstByteSeq.m_value) =
      some (b.m_firstByteSeq.add b.m_sentSize) := by
    rw [byRules, lost, firstUnsent, if_neg unsent, counted.endOfSent_eq]
    rfl
  rw [TcpTxBuffer.FollowsRules, answer, nextSeg_eq, lost, ← counted.sizeFromSequence_pos_iff unsent]
  dsimp only
  by_cases seen : b.sizeFromSequence (b.m_firstByteSeq.add b.m_sentSize) > 0
  · exact iff_of_true (if_pos seen) seen
  · refine iff_of_false ?_ seen
    rw [if_neg seen, counted.endOfSent_eq]
    -- what is saved is the number of a byte that was sent
    rcases save_mem b.m_firstByteSeq.m_value isRecovery (⟨0⟩, false)
      ((openItems 0 b.m_sentList).map Prod.fst) with none | ⟨place, hplace, saved⟩
    · rw [none, if_neg Bool.false_ne_true]
      exact Option.some_ne_none _ |>.symm
    · rw [saved]
      exact fun same =>
        counted.offset_ne (counted.openPlaces.2 place hplace) le_rfl (Option.some.inj same)

theorem Counted.followsRules_iff_of_sent {isRecovery : Bool} (lost : b.firstLost = none)
    (unsent : bytes b.m_appList = []) :
    b.FollowsRules isRecovery ↔ (isRecovery = true → b.FirstOpenKept) := by
  obtain ⟨order, bound⟩ := counted.openPlaces
  have short := counted.length_lt
  rw [TcpTxBuffer.FollowsRules, nextSeg_eq, lost, if_neg (counted.sizeFromSequence_none unsent),
    byRules, lost, firstUnsent, if_pos unsent, TcpTxBuffer.FirstOpenKept, firstOpen]
  dsimp only
  cases isRecovery with
  | false =>
    rw [save_false]
    exact iff_of_true rfl fun h => absurd h Bool.false_ne_true
  | true =>
    rw [save_places order fun place h => (bound place h).trans (by omega)]
    rcases hitems : openItems 0 b.m_sentList with _ | ⟨first, _ | ⟨second, rest⟩⟩
    · exact iff_of_true rfl fun _ => .inr (Nat.zero_le 1)
    · exact iff_of_true rfl fun _ => .inr le_rfl
    · rw [hitems] at order bound
      have less : first.1 < second.1 := (pairwise_cons.mp order).1 _ mem_cons_self
      have inside := bound second.1 (mem_cons_of_mem _ mem_cons_self)
      have several : ¬ (first :: second :: rest).length ≤ 1 := by
        rw [length_cons, length_cons]
        omega
      by_cases zero : (offset b.m_firstByteSeq.m_value first.1).m_value = 0
      · refine iff_of_false (fun same => ?_) fun h => ?_
        · rw [map_cons, map_cons, savedOf, if_pos zero] at same
          exact counted.offset_ne less inside.le (Option.some.inj same).symm
        · exact (h rfl).elim (fun nonzero => nonzero first.1 rfl zero) several
      · refine iff_of_true ?_ fun _ => .inl ?_
        · rw [map_cons, map_cons, savedOf, if_neg zero]
          rfl
        · rintro place ⟨⟩
          exact zero

end Answers

/-- The answer is that of the rules if and only if what it is about is neither out of reach nor
mistaken for none. -/
theorem nextSeg_iff {b : TcpTxBuffer} (counted : Counted b) (isRecovery : Bool) :
    b.FollowsRules isRecovery ↔ b.Answerable isRecovery := by
  cases lost : b.firstLost with
  | some place =>
    refine iff_of_true ?_ (.inl (by rw [lost]; rfl))
    rw [TcpTxBuffer.FollowsRules, nextSeg_eq, byRules, lost]
    rfl
  | none =>
    rw [TcpTxBuffer.Answerable, lost]
    by_cases unsent : bytes b.m_appList = []
    · rw [if_pos unsent, counted.followsRules_iff_of_sent lost unsent]
      exact (or_iff_right Bool.false_ne_true).symm
    · rw [if_neg unsent, counted.followsRules_iff_of_unsent lost unsent]
      exact (or_iff_right Bool.false_ne_true).symm

def acknowledgedUpToZero : List Op :=
  [.add [0, 1, 2], .copyFromSequence 0 1 ⟨4294967295⟩, .copyFromSequence 0 1 ⟨0⟩,
    .copyFromSequence 0 1 ⟨1⟩, .discardUpTo 0 ⟨0⟩]

/-- Further on in the numbers the first open item is kept for rule 3. -/
theorem nextSeg_iff_inRecovery : ∃ s, exec step (start 1000 100 3) [.add [0, 1, 2],
    .copyFromSequence 0 1 ⟨1000⟩, .copyFromSequence 0 1 ⟨1001⟩, .copyFromSequence 0 1 ⟨1002⟩,
    .discardUpTo 0 ⟨1001⟩] = .ok s ∧
    s.buffer.FollowsRules true ∧ s.buffer.nextSeg true = some ⟨1001⟩ := by
  refine ⟨_, rfl, (nextSeg_iff (by decide +kernel) true).mpr (.inr ?_), by decide +kernel⟩
  rw [if_pos (by decide +kernel)]
  exact fun _ => .inl (by decide +kernel)

/-- Of the items at 0 and at 1 the second one is to be sent again. -/
theorem nextSeg_passes_zero : ∃ s, exec step (start 4294967295 100 3) acknowledgedUpToZero = .ok s ∧
    Counted s.buffer ∧ ¬ s.buffer.FollowsRules true ∧ s.buffer.nextSeg true = some ⟨1⟩ :=
  ⟨_, rfl, by decide +kernel⟩

end Egsr.Internet.TxBuffer
