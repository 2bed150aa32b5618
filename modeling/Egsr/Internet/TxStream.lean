import Egsr.Internet.TxItems

/-! The send buffer as a queue of bytes. Whatever the items are, the buffer is
the accepted bytes from the first unacknowledged one on, and a request is
answered with the bytes it asks for, unless it spans sent and unsent data where
the sequence numbers wrap around. -/

namespace Egsr.Internet.TxBuffer

open Network Network.SequenceNumber32 Lib.Run Lib.Outcome List UInt32 TcpTxBuffer

namespace TcpTxBuffer

def data (b : TcpTxBuffer) : List UInt8 := bytes b.m_sentList ++ bytes b.m_appList

theorem length_data (b : TcpTxBuffer) :
    b.data.length = (bytes b.m_sentList).length + (bytes b.m_appList).length := by
  rw [data, length_append]

def placeOf (b : TcpTxBuffer) (seq : SequenceNumber32) : ℕ := (seq.sub b.m_firstByteSeq).toNat

end TcpTxBuffer

structure Ok (b : TcpTxBuffer) : Prop where
  sent : Filled b.m_sentList
  app : Filled b.m_appList
  size : b.m_size = .ofNat b.data.length
  sentSize : b.m_sentSize = .ofNat (bytes b.m_sentList).length
  short : b.data.length < 2 ^ 31

structure Frame (b b' : TcpTxBuffer) : Prop where
  maxBuffer : b'.m_maxBuffer = b.m_maxBuffer
  size : b'.m_size = b.m_size
  firstByteSeq : b'.m_firstByteSeq = b.m_firstByteSeq
  highestSack : b'.m_highestSack = b.m_highestSack
  lostOut : b'.m_lostOut = b.m_lostOut
  sackedOut : b'.m_sackedOut = b.m_sackedOut
  dupAckThresh : b'.m_dupAckThresh = b.m_dupAckThresh

/-! ## Serving a request -/

section Serving

variable {b : TcpTxBuffer} (ok : Ok b)
include ok

omit ok in
theorem segmentSize_spec (numBytes : UInt32) (seq : SequenceNumber32) {l : List Node}
    (filled : Filled l) (short : (bytes l).length < 2 ^ 31) (pos : 0 < numBytes.toNat) :
    0 < (segmentSize numBytes seq l).toNat ∧
      (segmentSize numBytes seq l).toNat ≤ numBytes.toNat := by
  have hmin : ∀ x : UInt32, 0 < x.toNat → 0 < (min numBytes x).toNat ∧
      (min numBytes x).toNat ≤ numBytes.toNat := by
    intro x hx
    have heq : min numBytes x = if numBytes ≤ x then numBytes else x := rfl
    rw [heq]
    split_ifs with hle
    · exact ⟨pos, Nat.le_refl _⟩
    · rw [le_iff_toNat_le] at hle
      exact ⟨hx, by omega⟩
  induction l with
  | nil => exact ⟨pos, Nat.le_refl _⟩
  | cons node rest ih =>
    rw [filled_cons] at filled
    rw [bytes_cons, length_append] at short
    have hnode := RxBuffer.toNat_ofNat (k := node.item.m_packet.length) (by omega)
    unfold segmentSize
    split_ifs
    · cases rest with
      | nil => exact hmin _ (by rw [getSize_eq, hnode]; exact filled.1)
      | cons next rest =>
        have hfilled := (filled_cons _ _).mp filled.2
        rw [bytes_cons, length_append] at short
        have hnext := RxBuffer.toNat_ofNat (k := next.item.m_packet.length) (by omega)
        dsimp only
        split_ifs
        · exact hmin _ (by rw [getSize_eq, hnode]; exact filled.1)
        · refine hmin _ ?_
          rw [getSize_eq, getSize_eq, UInt32.toNat_add, hnode, hnext]
          omega
    · exact ih filled.2 (by omega)

/-- Bytes that were sent are served from the sent list. -/
structure Resent (b b' : TcpTxBuffer) (k m : ℕ) : Prop where
  frame : Frame b b'
  app : b'.m_appList = b.m_appList
  sentSize : b'.m_sentSize = b.m_sentSize
  same : bytes b'.m_sentList = bytes b.m_sentList
  filled : Filled b'.m_sentList
  counted : (b'.m_retrans.toNat + retransmitted b.m_sentList) % 2 ^ 32 =
    (b.m_retrans.toNat + retransmitted b'.m_sentList) % 2 ^ 32
  uniform : Uniform (flags b.m_sentList) k m →
    flags b'.m_sentList = flags b.m_sentList ∧ b'.mergedApart = b.mergedApart

variable {k : ℕ}

theorem getTransmittedSegment_spec {s : ℕ} (pos : 0 < s)
    (fits : k + s ≤ (bytes b.m_sentList).length) (now : ℤ) :
    ∃ f b', b.getTransmittedSegment (.ofNat s) (b.m_firstByteSeq.add (.ofNat k)) =
        .ok (f, b') ∧
      ∃ m, m = (segmentSize (.ofNat s) (b.m_firstByteSeq.add (.ofNat k))
        b.m_sentList).toNat ∧ 0 < m ∧ m ≤ s ∧
      f.node.item.m_packet = ((bytes b.m_sentList).drop k).take m ∧
      Resent b { b' with
          m_sentList := f.before ++ setLastSent now f.node :: f.after } k m := by
  have hshort := ok.short
  have hsizes := b.length_data
  have hs := RxBuffer.toNat_ofNat (k := s) (by omega)
  have hsize := segmentSize_spec (.ofNat s) (b.m_firstByteSeq.add (.ofNat k)) ok.sent
    (by omega) (by rw [hs]; exact pos)
  obtain ⟨m, hm⟩ : ∃ m, m = (segmentSize (.ofNat s)
    (b.m_firstByteSeq.add (.ofNat k)) b.m_sentList).toNat := ⟨_, rfl⟩
  rw [← hm, hs] at hsize
  have hsegment : segmentSize (.ofNat s) (b.m_firstByteSeq.add (.ofNat k))
      b.m_sentList = .ofNat m := by rw [hm, UInt32.ofNat_toNat]
  have hhead : b.m_firstByteSeq = offset b.m_firstByteSeq.m_value 0 := by simp [offset]
  have hseq : b.m_firstByteSeq.add (.ofNat k) = offset b.m_firstByteSeq.m_value (0 + k) := by
    rw [Nat.zero_add]
    rfl
  obtain ⟨f, hrun, hserved⟩ :=
    getPacketFromList_spec b.m_firstByteSeq.m_value hsize.1 (p := 0) (k := k)
    ok.sent (by omega) (by omega) b.m_retrans b.nextNode b.mergedApart
  rw [← hseq, ← hhead] at hrun
  have hpacket := hserved.packet
  have hlength := hserved.size
  obtain ⟨⟨hsame, hfilled, hcounted, -⟩, -, -, huniform⟩ := hserved
  have hnat : m = (UInt32.ofNat m).toNat := (RxBuffer.toNat_ofNat (by omega)).symm
  rw [getTransmittedSegment, hsegment, hrun]
  simp only [bind, Except.bind]
  simp only [Found.list, bytes_append, bytes_cons, filled_append, filled_cons, retransmitted_append,
    retransmitted_cons, flags_append, flags_cons] at hsame hfilled hcounted huniform
  by_cases hflag : f.node.item.m_retrans
  · simp only [hflag, if_true]
    refine ⟨f, _, rfl, m, hnat, hsize.1, hsize.2, hpacket, ⟨rfl, rfl, rfl, rfl, rfl, rfl, rfl⟩, rfl,
      rfl, ?_, ?_, ?_, ?_⟩
    · simpa [setLastSent] using hsame
    · simpa [setLastSent, filled_append, filled_cons] using hfilled
    · simpa [setLastSent] using hcounted
    · simpa [setLastSent] using huniform
  · simp only [hflag, if_false, Bool.false_eq_true]
    refine ⟨_, _, rfl, m, hnat, hsize.1, hsize.2, hpacket, ⟨rfl, rfl, rfl, rfl, rfl, rfl, rfl⟩, rfl,
      rfl, ?_, ?_, ?_, ?_⟩
    · simpa [setLastSent] using hsame
    · simpa [setLastSent, filled_append, filled_cons] using hfilled
    · have hadd : (f.retrans + .ofNat m).toNat = (f.retrans.toNat + m) % 2 ^ 32 := by
        rw [UInt32.toNat_add, RxBuffer.toNat_ofNat (k := m) (by omega)]
      simp only [hflag, if_false, Bool.false_eq_true] at hcounted
      simp only [setLastSent, retransmitted_append, retransmitted_cons, if_true]
      rw [getSize_eq, hlength, hadd]
      omega
    · simpa [setLastSent] using huniform

def Plainly (l : List Node) : Prop := ∀ node ∈ l,
  node.item.m_sacked = false ∧ node.item.m_lost = false ∧ node.item.m_retrans = false

/-- New bytes move from the front of the application's list to the end of the sent list. -/
structure Sent (b b' : TcpTxBuffer) (m : ℕ) : Prop where
  frame : Frame b b'
  filled : Filled b'.m_sentList
  filledApp : Filled b'.m_appList
  sent : bytes b'.m_sentList = bytes b.m_sentList ++ (bytes b.m_appList).take m
  app : bytes b'.m_appList = (bytes b.m_appList).drop m
  sentSize : b'.m_sentSize = b.m_sentSize + .ofNat m
  length : b'.m_sentList.length = b.m_sentList.length + 1
  plainly : Plainly b.m_appList → Plainly b'.m_appList ∧
    flags b'.m_sentList = flags b.m_sentList ++ replicate m (false, false) ∧
    retransmitted b'.m_sentList = retransmitted b.m_sentList ∧ b'.m_retrans = b.m_retrans ∧
    b'.mergedApart = b.mergedApart

theorem getNewSegment_spec {s : ℕ} (pos : 0 < s) (fits : s ≤ (bytes b.m_appList).length) (now : ℤ) :
    ∃ item b', b.getNewSegment (.ofNat s) = .ok (item, b') ∧
      item.m_packet = (bytes b.m_appList).take s ∧
      Sent b { b' with m_sentList := b'.m_sentList.dropLast ++
        (b'.m_sentList.getLast?.map (setLastSent now)).toList } s := by
  have hshort := ok.short
  have hsizes := b.length_data
  have hstart : b.m_firstByteSeq.add b.m_sentSize =
      offset (b.m_firstByteSeq.add b.m_sentSize).m_value (0 + 0) := by simp [offset]
  obtain ⟨f, hrun, hserved⟩ :=
    getPacketFromList_spec (b.m_firstByteSeq.add b.m_sentSize).m_value pos
    (p := 0) (k := 0) ok.app (by omega) (by omega) b.m_retrans b.nextNode b.mergedApart
  rw [← hstart] at hrun
  have hpacket := hserved.packet
  have hlength := hserved.size
  rw [drop_zero] at hpacket
  rw [getNewSegment]
  dsimp only
  rw [hrun]
  simp only [bind, Except.bind]
  obtain ⟨⟨hsame, hfilled, hcounted, hclean⟩, hplace, -, huniform⟩ := hserved
  have hbefore : f.before = [] := by
    have hfilled' := ((filled_append _ _).mp hfilled).1
    cases hlist : f.before with
    | nil => rfl
    | cons node rest =>
      rw [hlist, bytes_cons, length_append] at hplace
      rw [hlist, filled_cons] at hfilled'
      omega
  simp only [Found.list, hbefore, nil_append, bytes_cons, filled_cons, flags_cons,
    retransmitted_cons] at hsame hfilled hcounted hclean huniform
  refine ⟨_, _, rfl, hpacket, ⟨rfl, rfl, rfl, rfl, rfl, rfl, rfl⟩, ?_, ?_, ?_, ?_, ?_, ?_,
    fun plainly => ?_⟩
  · simp only [dropLast_concat, List.getLast?_append, List.getLast?_singleton, Option.some_or,
      Option.map_some, Option.toList_some, filled_append, filled_cons, setLastSent]
    exact ⟨ok.sent, hfilled.1, by simp [Filled]⟩
  · simpa [hbefore] using hfilled.2
  · simp [setLastSent, hpacket]
  · dsimp only
    rw [hbefore, nil_append, ← hsame, ← hlength, drop_left]
  · dsimp only
    rw [getSize_eq, hlength]
  · simp
  · have hnone : NoRetrans b.m_appList := fun node hnode => (plainly node hnode).2.2
    have hflags : ∀ c ∈ flags b.m_appList, c = (false, false) := by
      intro c hc
      obtain ⟨node, hnode, hmem⟩ := mem_flatMap.mp hc
      rw [(mem_replicate.mp hmem).2, (plainly node hnode).1, (plainly node hnode).2.1]
    have huni : Uniform (flags b.m_appList) 0 s := fun c hc c' hc' => by
      rw [hflags c (mem_of_mem_drop (mem_of_mem_take hc)),
        hflags c' (mem_of_mem_drop (mem_of_mem_take hc'))]
    obtain ⟨hnone', hretrans⟩ := hclean hnone
    obtain ⟨hflags', hapart⟩ := huniform huni
    have hall : ∀ node ∈ f.node :: f.after, node.item.m_sacked = false ∧
        node.item.m_lost = false := by
      intro node hnode
      have hpos : 0 < node.item.m_packet.length :=
        ((filled_cons _ _).mpr hfilled) node hnode
      have hmem : (node.item.m_sacked, node.item.m_lost) ∈ flags (f.node :: f.after) :=
        mem_flatMap.mpr ⟨node, hnode, mem_replicate.mpr ⟨by omega, rfl⟩⟩
      rw [flags_cons, hflags'] at hmem
      have heq := hflags _ hmem
      exact ⟨congrArg Prod.fst heq, congrArg Prod.snd heq⟩
    have hnode := hall f.node (by simp)
    have hretransNode : f.node.item.m_retrans = false := hnone' f.node (by simp)
    refine ⟨fun node hmem => ?_, ?_, ?_, hretrans, hapart⟩
    · simp only [hbefore, nil_append] at hmem
      exact ⟨(hall node (by simp [hmem])).1, (hall node (by simp [hmem])).2,
        hnone' node (by simp [hmem])⟩
    · simp [setLastSent, hnode, hlength]
    · simp [setLastSent, hretransNode]

/-- How a request for `n` bytes from place `k` on is served. -/
inductive Copied (b : TcpTxBuffer) (n : UInt32) (k : ℕ) : Packet → TcpTxBuffer → Prop
  | nothing (h : n = 0 ∨ k = b.data.length) : Copied b n k [] b
  | resent {b' : TcpTxBuffer} {m : ℕ} (inside : k < (bytes b.m_sentList).length)
      (size : m = (segmentSize
        (.ofNat (min n.toNat ((bytes b.m_sentList).length - k)))
        (b.m_firstByteSeq.add (.ofNat k)) b.m_sentList).toNat)
      (pos : 0 < m) (le : m ≤ min n.toNat ((bytes b.m_sentList).length - k))
      (served : Resent b b' k m) : Copied b n k (((bytes b.m_sentList).drop k).take m) b'
  | sent {b' : TcpTxBuffer} {m : ℕ} (behind : k = (bytes b.m_sentList).length)
      (size : m = min n.toNat (bytes b.m_appList).length) (pos : 0 < m) (served : Sent b b' m) :
      Copied b n k ((bytes b.m_appList).take m) b'

omit ok in
theorem min_ofNat (n : UInt32) {j : ℕ} (short : j < 2 ^ 32) :
    min n (.ofNat j) = .ofNat (min n.toNat j) := by
  have heq : min n (.ofNat j) = if n ≤ .ofNat j then n else .ofNat j := rfl
  have hnat := RxBuffer.toNat_ofNat short
  rw [heq]
  split_ifs with hle
  · rw [le_iff_toNat_le, hnat] at hle
    rw [Nat.min_eq_left hle, UInt32.ofNat_toNat]
  · rw [le_iff_toNat_le, hnat] at hle
    rw [Nat.min_eq_right (by omega)]

theorem sizeFromSequence_eq (le : k ≤ b.data.length) :
    b.sizeFromSequence (b.m_firstByteSeq.add (.ofNat k)) = .ofNat (b.data.length - k) := by
  have hshort := ok.short
  have htail : b.tailSequence = offset b.m_firstByteSeq.m_value b.data.length := by
    rw [tailSequence, ok.size]
    rfl
  have hseq : b.m_firstByteSeq.add (.ofNat k) = offset b.m_firstByteSeq.m_value k := rfl
  rw [sizeFromSequence, htail, hseq, greaterEqual_offset _ (by omega) (by omega),
    if_pos (decide_eq_true le), sub_offset _ le]

theorem endOfSent_eq : b.m_firstByteSeq.add b.m_sentSize =
    offset b.m_firstByteSeq.m_value (bytes b.m_sentList).length := by
  rw [ok.sentSize]
  rfl

omit ok in
theorem ofNat_ne_zero {j : ℕ} (pos : 0 < j) (short : j < 2 ^ 32) : UInt32.ofNat j ≠ 0 := fun h => by
  have hnat := congrArg UInt32.toNat h
  rw [RxBuffer.toNat_ofNat short] at hnat
  exact absurd hnat (by simp; omega)

theorem request_eq {n : UInt32} {s : ℕ} (hs : s = min n.toNat (b.data.length - k))
    (le : k ≤ b.data.length) : ¬b.m_firstByteSeq.greater (b.m_firstByteSeq.add (.ofNat k)) ∧
      min n (b.sizeFromSequence (b.m_firstByteSeq.add (.ofNat k))) = .ofNat s := by
  have hshort := ok.short
  refine ⟨?_, by rw [sizeFromSequence_eq ok le, min_ofNat n (by omega), hs]⟩
  have hseq : b.m_firstByteSeq.add (.ofNat k) = offset b.m_firstByteSeq.m_value k := rfl
  have hhead : b.m_firstByteSeq = offset b.m_firstByteSeq.m_value 0 := by simp [offset]
  rw [hseq]
  nth_rw 1 [hhead]
  rw [greater_offset _ (by omega) (by omega)]
  simp

theorem endOfRequest_eq {s : ℕ} (le : k + s ≤ b.data.length) :
    (b.m_firstByteSeq.add b.m_sentSize).greaterEqual
        ((b.m_firstByteSeq.add (.ofNat k)).add (.ofNat s)) =
      decide (k + s ≤ (bytes b.m_sentList).length) := by
  have hshort := ok.short
  have hsizes := b.length_data
  have hseq : b.m_firstByteSeq.add (.ofNat k) = offset b.m_firstByteSeq.m_value k := rfl
  rw [endOfSent_eq ok, hseq, add_offset, greaterEqual_offset _ (by omega) (by omega)]

theorem copyFromSequenceDepth_resent {n : UInt32} {s : ℕ} (hs : s = min n.toNat (b.data.length - k))
    (pos : 0 < s) (inside : k + s ≤ (bytes b.m_sentList).length) (now : ℤ) (depth : ℕ) :
    ∃ p b', copyFromSequenceDepth now (depth + 1) b n
      (b.m_firstByteSeq.add (.ofNat k)) = .ok (p, b') ∧ ∃ m, m = (segmentSize
        (UInt32.ofNat s) (b.m_firstByteSeq.add (UInt32.ofNat k)) b.m_sentList).toNat ∧
          0 < m ∧ m ≤ s ∧
        p = ((bytes b.m_sentList).drop k).take m ∧ Resent b b' k m := by
  have hshort := ok.short
  have hsizes := b.length_data
  obtain ⟨f, b', hrun, m, hm, hpos, hle, hpacket, hresent⟩ :=
    getTransmittedSegment_spec ok pos inside now
  obtain ⟨hgreater, hsize⟩ := request_eq ok hs (by omega)
  have hne := ofNat_ne_zero pos (by omega)
  have hend := (endOfRequest_eq ok (k := k) (s := s) (by omega)).trans (decide_eq_true inside)
  refine ⟨f.node.item.m_packet, _, ?_, m, hm, hpos, hle, hpacket, hresent⟩
  rw [copyFromSequenceDepth]
  dsimp only
  rw [if_neg hgreater, hsize, if_neg hne, if_pos hend, hrun]
  rfl

/-- A request that spans sent and unsent data does not reach past the largest sequence number. -/
def NoWrap (b : TcpTxBuffer) (n : UInt32) (k : ℕ) : Prop :=
  k < b.m_sentSize.toNat → b.m_sentSize.toNat < k + min n.toNat (b.m_size.toNat - k) →
    (b.m_firstByteSeq.add (.ofNat k)).m_value.toNat + min n.toNat (b.m_size.toNat - k) < 2 ^ 32
deriving Decidable

theorem copyFromSequence_spec {n : UInt32} (inside : k ≤ (bytes b.m_sentList).length)
    (noWrap : NoWrap b n k) (now : ℤ) :
    ∃ p b', b.copyFromSequence now n (b.m_firstByteSeq.add (.ofNat k)) = .ok (p, b') ∧
      Copied b n k p b' := by
  have hshort := ok.short
  have hsizes := b.length_data
  have htotal : b.m_size.toNat = b.data.length := by rw [ok.size, RxBuffer.toNat_ofNat (by omega)]
  have hsentSize : b.m_sentSize.toNat = (bytes b.m_sentList).length := by
    rw [ok.sentSize, RxBuffer.toNat_ofNat (by omega)]
  rw [NoWrap, htotal, hsentSize] at noWrap
  obtain ⟨s, hs⟩ : ∃ s, s = min n.toNat (b.data.length - k) := ⟨_, rfl⟩
  rw [← hs] at noWrap
  have hseq : b.m_firstByteSeq.add (.ofNat k) = offset b.m_firstByteSeq.m_value k := rfl
  obtain ⟨hgreater, hsize⟩ := request_eq ok hs (by omega)
  rw [copyFromSequence]
  by_cases hzero : s = 0
  · refine ⟨[], b, ?_, .nothing ?_⟩
    · rw [copyFromSequenceDepth]
      dsimp only
      rw [if_neg hgreater, hsize, if_pos (by rw [hzero]; rfl)]
    · by_cases hn : n.toNat = 0
      · exact Or.inl (UInt32.toNat_inj.mp hn)
      · exact Or.inr (by omega)
  have hne := ofNat_ne_zero (Nat.pos_of_ne_zero hzero) (by omega)
  have hend := endOfRequest_eq ok (k := k) (s := s) (by omega)
  have hless : (b.m_firstByteSeq.add b.m_sentSize).lessEqual
      (b.m_firstByteSeq.add (.ofNat k)) = decide ((bytes b.m_sentList).length ≤ k) := by
    rw [endOfSent_eq ok, hseq, lessEqual_offset _ (by omega) (by omega)]
  by_cases hwhole : k + s ≤ (bytes b.m_sentList).length
  · obtain ⟨p, b', hrun, m, hm, hpos, hle, rfl, hresent⟩ :=
      copyFromSequenceDepth_resent ok hs (by omega) hwhole now 1
    have hmin : min n.toNat ((bytes b.m_sentList).length - k) = s := by omega
    exact ⟨_, b', hrun, .resent (by omega) (by rw [hmin]; exact hm) hpos (by omega) hresent⟩
  by_cases hnew : k = (bytes b.m_sentList).length
  · have happ : s = min n.toNat (bytes b.m_appList).length := by omega
    obtain ⟨item, b', hrun, hpacket, hsent⟩ :=
      getNewSegment_spec ok (s := s) (by omega) (by omega) now
    have hsame : b.m_firstByteSeq.add b.m_sentSize = b.m_firstByteSeq.add (.ofNat k) := by
      rw [ok.sentSize, hnew]
    refine ⟨_, _, ?_, .sent hnew happ (by omega) hsent⟩
    rw [← hpacket, copyFromSequenceDepth]
    dsimp only
    rw [if_neg hgreater, hsize, if_neg hne, hend, if_neg (by simpa using hwhole), hless,
      if_pos (decide_eq_true hnew.ge), if_pos hsame, hrun]
    rfl
  · -- the request spans sent and unsent data: it is cut down to what was sent
    obtain ⟨j, hj⟩ : ∃ j, (bytes b.m_sentList).length = k + j := Nat.exists_eq_add_of_le inside
    have hbound := noWrap (by omega) (by omega)
    have hvalue : (b.m_firstByteSeq.add b.m_sentSize).m_value =
        (b.m_firstByteSeq.add (.ofNat k)).m_value + .ofNat j := by
      rw [endOfSent_eq ok, hseq, hj, ← add_offset]
      rfl
    have hamount : (b.m_firstByteSeq.add b.m_sentSize).m_value -
        (b.m_firstByteSeq.add (.ofNat k)).m_value = .ofNat j := by
      rw [hvalue, UInt32.add_comm, UInt32.add_sub_cancel]
    have hjnat := RxBuffer.toNat_ofNat (k := j) (by omega)
    have hsnat := RxBuffer.toNat_ofNat (k := s) (by omega)
    have hgt : (b.m_firstByteSeq.add b.m_sentSize).m_value >
        (b.m_firstByteSeq.add (.ofNat k)).m_value := by
      rw [gt_iff_lt, lt_iff_toNat_lt, hvalue, UInt32.toNat_add, hjnat]
      omega
    have hlt : (b.m_firstByteSeq.add b.m_sentSize).m_value <
        (b.m_firstByteSeq.add (.ofNat k)).m_value + .ofNat s := by
      rw [lt_iff_toNat_lt, hvalue, UInt32.toNat_add, UInt32.toNat_add, hjnat, hsnat]
      omega
    obtain ⟨p, b', hrun, m, hm, hpos, hle, rfl, hresent⟩ := copyFromSequenceDepth_resent ok
      (n := .ofNat j) (k := k) (s := j) (by rw [hjnat]; omega) (by omega) (by omega) now 0
    have hmin : min n.toNat ((bytes b.m_sentList).length - k) = j := by omega
    refine ⟨_, b', ?_, .resent (by omega) (by rw [hmin]; exact hm) hpos (by omega) hresent⟩
    rw [copyFromSequenceDepth]
    dsimp only
    rw [if_neg hgreater, hsize, if_neg hne, hend, if_neg (by simpa using hwhole), hless,
      if_neg (by simp; omega), hamount, if_pos (by simp [hgt, hlt])]
    exact hrun

structure Unchanged (b b' : TcpTxBuffer) : Prop where
  ok : Ok b'
  data : b'.data = b.data
  firstByteSeq : b'.m_firstByteSeq = b.m_firstByteSeq
  maxBuffer : b'.m_maxBuffer = b.m_maxBuffer

theorem Resent.unchanged {b' : TcpTxBuffer} {m : ℕ} (h : Resent b b' k m) : Unchanged b b' := by
  have hdata : b'.data = b.data := by rw [data, data, h.same, h.app]
  refine ⟨⟨h.filled, ?_, ?_, ?_, ?_⟩, hdata, h.frame.firstByteSeq, h.frame.maxBuffer⟩
  · rw [h.app]
    exact ok.app
  · rw [hdata, h.frame.size, ok.size]
  · rw [h.same, h.sentSize, ok.sentSize]
  · rw [hdata]
    exact ok.short

theorem Sent.unchanged {b' : TcpTxBuffer} {m : ℕ} (h : Sent b b' m)
    (le : m ≤ (bytes b.m_appList).length) : Unchanged b b' := by
  have hdata : b'.data = b.data := by
    rw [data, data, h.sent, h.app, append_assoc, take_append_drop]
  refine ⟨⟨h.filled, h.filledApp, ?_, ?_, ?_⟩, hdata, h.frame.firstByteSeq, h.frame.maxBuffer⟩
  · rw [hdata, h.frame.size, ok.size]
  · rw [h.sent, h.sentSize, ok.sentSize, length_append, length_take, Nat.min_eq_left le,
      UInt32.ofNat_add]
  · rw [hdata]
    exact ok.short

theorem Copied.unchanged {n : UInt32} {p : Packet} {b' : TcpTxBuffer}
    (h : Copied b n k p b') : Unchanged b b' := by
  cases h with
  | nothing _ => exact ⟨ok, rfl, rfl, rfl⟩
  | resent _ _ _ _ served => exact served.unchanged ok
  | sent _ size _ served => exact served.unchanged ok (by omega)

omit ok in
theorem Copied.answer {n : UInt32} {p : Packet} {b' : TcpTxBuffer}
    (h : Copied b n k p b') : p <+: b.data.drop k ∧ p.length ≤ n.toNat ∧
      (n ≠ 0 → k < b.data.length → p ≠ []) := by
  have hsizes := b.length_data
  cases h with
  | nothing h =>
    refine ⟨List.nil_prefix, Nat.zero_le _, fun hn hk => ?_⟩
    rcases h with h | h
    · exact absurd h hn
    · omega
  | @resent _ m inside size pos le served =>
    have hlength : (((bytes b.m_sentList).drop k).take m).length = m := by
      rw [length_take, length_drop]
      omega
    refine ⟨?_, by omega, fun _ _ h => ?_⟩
    · rw [data, drop_append_of_le_length (by omega)]
      exact (List.take_prefix _ _).trans (prefix_append _ _)
    · rw [h] at hlength
      exact absurd hlength (by simp; omega)
  | @sent _ m behind size pos served =>
    have hlength : ((bytes b.m_appList).take m).length = m := by
      rw [length_take]
      omega
    refine ⟨?_, by omega, fun _ _ h => ?_⟩
    · rw [data, behind, drop_left]
      exact take_prefix _ _
    · rw [h] at hlength
      exact absurd hlength (by simp; omega)

end Serving

/-! ## Changing flags -/

variable (l : List Node)

def packets : List Packet := l.map fun node => node.item.m_packet

theorem bytes_eq_flatten : bytes l = (packets l).flatten := by
  rw [bytes, packets, flatMap_def]

theorem filled_iff : Filled l ↔ ∀ p ∈ packets l, 0 < p.length := by
  simp [Filled, packets]

/-- The flags and counts may differ. -/
structure Relabeled (b b' : TcpTxBuffer) : Prop where
  sent : packets b'.m_sentList = packets b.m_sentList
  app : b'.m_appList = b.m_appList
  size : b'.m_size = b.m_size
  sentSize : b'.m_sentSize = b.m_sentSize
  firstByteSeq : b'.m_firstByteSeq = b.m_firstByteSeq
  maxBuffer : b'.m_maxBuffer = b.m_maxBuffer

variable {b : TcpTxBuffer}

theorem Relabeled.trans {b' b'' : TcpTxBuffer} (h : Relabeled b b') (h' : Relabeled b' b'') :
    Relabeled b b'' :=
  ⟨h'.sent.trans h.sent, h'.app.trans h.app, h'.size.trans h.size, h'.sentSize.trans h.sentSize,
    h'.firstByteSeq.trans h.firstByteSeq, h'.maxBuffer.trans h.maxBuffer⟩

theorem Relabeled.unchanged {b' : TcpTxBuffer} (h : Relabeled b b') (ok : Ok b) :
    Unchanged b b' := by
  have hsent : bytes b'.m_sentList = bytes b.m_sentList := by
    rw [bytes_eq_flatten, h.sent, ← bytes_eq_flatten]
  have hdata : b'.data = b.data := by rw [data, data, hsent, h.app]
  refine ⟨⟨?_, ?_, ?_, ?_, ?_⟩, hdata, h.firstByteSeq, h.maxBuffer⟩
  · rw [filled_iff, h.sent, ← filled_iff]
    exact ok.sent
  · rw [h.app]
    exact ok.app
  · rw [hdata, h.size, ok.size]
  · rw [hsent, h.sentSize, ok.sentSize]
  · rw [hdata]
    exact ok.short

section Relabeling

variable (b : TcpTxBuffer)

theorem markHeadAsLost_relabeled : Relabeled b b.markHeadAsLost := by
  unfold markHeadAsLost
  cases h : b.m_sentList with
  | nil => exact ⟨rfl, rfl, rfl, rfl, rfl, rfl⟩
  | cons head rest => exact ⟨by simp [packets, h], rfl, rfl, rfl, rfl, rfl⟩

theorem addRenoSack_relabeled (filled : b.m_sentList ≠ []) :
    ∃ b', b.addRenoSack = .ok b' ∧ Relabeled b b' := by
  unfold addRenoSack
  cases h : b.m_sentList with
  | nil => exact absurd h filled
  | cons head rest =>
    dsimp only
    cases hrest : rest.dropWhile fun node => node.item.m_sacked with
    | nil => exact ⟨b, rfl, ⟨rfl, rfl, rfl, rfl, rfl, rfl⟩⟩
    | cons node behind =>
      refine ⟨_, rfl, ⟨?_, rfl, rfl, rfl, rfl, rfl⟩⟩
      have hsplit := takeWhile_append_dropWhile (l := rest) (p := fun node => node.item.m_sacked)
      have hpackets := congrArg packets hsplit
      rw [hrest] at hpackets
      dsimp only
      rw [h]
      simp only [packets, map_append, map_cons, cons_append] at hpackets ⊢
      rw [hpackets]

theorem resetRenoSack_relabeled : Relabeled b b.resetRenoSack := by
  refine ⟨?_, rfl, rfl, rfl, rfl, rfl⟩
  simp [resetRenoSack, packets]

theorem setSentListLost_relabeled (resetSack : Bool) :
    Relabeled b (b.setSentListLost resetSack) := by
  unfold setSentListLost
  split_ifs
  · refine ⟨?_, rfl, rfl, rfl, rfl, rfl⟩
    simp [packets]
  · refine ⟨?_, rfl, rfl, rfl, rfl, rfl⟩
    simp [packets]

theorem unsackHead_relabeled : ∃ b', b.unsackHead = .ok b' ∧ Relabeled b b' := by
  unfold unsackHead
  cases h : b.m_sentList with
  | nil => exact ⟨b, rfl, ⟨rfl, rfl, rfl, rfl, rfl, rfl⟩⟩
  | cons head rest =>
    dsimp only
    split_ifs
    · obtain ⟨cleared, hcleared⟩ : ∃ cleared : TcpTxBuffer, cleared = { b with
          m_sentList := { head with item := { head.item with m_sacked := false } } :: rest
          m_sackedOut := b.m_sackedOut - head.item.getSize } := ⟨_, rfl⟩
      rw [← hcleared]
      have hfirst : Relabeled b cleared := by
        rw [hcleared]
        refine ⟨?_, rfl, rfl, rfl, rfl, rfl⟩
        simp [packets, h]
      obtain ⟨b', hrun, hsame⟩ := addRenoSack_relabeled cleared (by rw [hcleared]; simp)
      rw [hrun]
      exact ⟨_, rfl, hfirst.trans (hsame.trans (markHeadAsLost_relabeled b'))⟩
    · exact ⟨b, rfl, ⟨rfl, rfl, rfl, rfl, rfl, rfl⟩⟩

theorem sackItem_packet (node : Node) (begin : SequenceNumber32) (s : TcpTxBuffer.Scan) :
    (sackItem node begin s).1.item.m_packet = node.item.m_packet ∧
      (sackItem node begin s).1.number = node.number := by
  unfold sackItem
  split_ifs <;> exact ⟨rfl, rfl⟩

end Relabeling

/-! ### Update -/

/-- `m_highestSack` refers to a node of the list, or to its end if nothing is sacked. -/
def Tracks (list : List Node) (highestSack : Option ℕ) : Prop :=
  (highestSack = none → ∀ node ∈ list, node.item.m_sacked = false) ∧
    ∀ number ∈ highestSack, ∃ node ∈ list, node.number = number
deriving Decidable

def numbers : List ℕ := l.map fun node => node.number

theorem mem_numbers {node : Node} {l : List Node} (h : node ∈ l) : node.number ∈ numbers l :=
  mem_map.mpr ⟨node, h, rfl⟩

/-- The state of the loops: while the iterator is the end, nothing is sacked and nothing was
modified. -/
structure Scanned (known : List ℕ) (l : List Node) (s : TcpTxBuffer.Scan) : Prop where
  fresh : s.highestSack.1 = none → (∀ node ∈ l, node.item.m_sacked = false) ∧ s.modified = false
  known : ∀ number ∈ s.highestSack.1, number ∈ known

variable {s : TcpTxBuffer.Scan}

theorem sackItem_highest {known : List ℕ} {node : Node} (begin : SequenceNumber32)
    (mem : node.number ∈ known) (hknown : ∀ number ∈ s.highestSack.1, number ∈ known)
    (fresh : s.highestSack.1 = none → node.item.m_sacked = false) :
    (sackItem node begin s).2.highestSack.1 ≠ none ∧
      ∀ number ∈ (sackItem node begin s).2.highestSack.1, number ∈ known := by
  unfold sackItem
  by_cases hsacked : node.item.m_sacked
  · rw [if_pos hsacked]
    refine ⟨fun h => ?_, hknown⟩
    have := fresh h
    simp [hsacked] at this
  · rw [if_neg hsacked]
    dsimp only
    split_ifs with hcase
    · simpa using mem
    · refine ⟨fun h => hcase ?_, hknown⟩
      simp [h]

theorem sackItem_none {node : Node} {begin : SequenceNumber32}
    (h : (sackItem node begin s).2.highestSack.1 = none) : s.highestSack.1 = none := by
  unfold sackItem at h
  by_cases hsacked : node.item.m_sacked
  · rw [if_pos hsacked] at h
    exact h
  · rw [if_neg hsacked] at h
    by_cases hcase : (s.highestSack.1 = none || s.highestSack.2.lessEqual
        (begin.add node.item.getSize)) = true
    · rw [if_pos hcase] at h
      cases h
    · rw [if_neg hcase] at h
      exact h

theorem sackBlock_none {block : SequenceNumber32 × SequenceNumber32} {l : List Node}
    {begin : SequenceNumber32}
    (h : (sackBlock block l begin s).2.highestSack.1 = none) : s.highestSack.1 = none := by
  induction l generalizing begin s with
  | nil => exact h
  | cons node rest ih =>
    unfold sackBlock at h
    dsimp only at h
    split_ifs at h
    · exact sackItem_none (ih h)
    · exact h
    · exact ih h

theorem sackBlock_spec (block : SequenceNumber32 × SequenceNumber32) {known : List ℕ}
    {l : List Node} (begin : SequenceNumber32) (mem : ∀ node ∈ l, node.number ∈ known)
    (scanned : Scanned known l s) :
    packets (sackBlock block l begin s).1 = packets l ∧
      numbers (sackBlock block l begin s).1 = numbers l ∧
      Scanned known (sackBlock block l begin s).1
        (sackBlock block l begin s).2 := by
  induction l generalizing begin s with
  | nil => exact ⟨rfl, rfl, scanned⟩
  | cons node rest ih =>
    have hmem : ∀ node ∈ rest, node.number ∈ known := fun o ho => mem o (by simp [ho])
    unfold sackBlock
    dsimp only
    split_ifs
    · obtain ⟨hne, hknown⟩ := sackItem_highest begin (mem node (by simp)) scanned.known
        fun h => (scanned.fresh h).1 node (by simp)
      obtain ⟨hpackets, hnumbers, hscanned⟩ := ih (begin.add node.item.getSize) hmem
        (s := (sackItem node begin s).2) ⟨fun h => absurd h hne, hknown⟩
      obtain ⟨hpacket, hnumber⟩ := sackItem_packet node begin s
      refine ⟨?_, ?_, fun h => absurd (sackBlock_none h) hne, hscanned.known⟩
      · simp only [packets, map_cons, hpacket] at hpackets ⊢
        rw [hpackets]
      · simp only [numbers, map_cons, hnumber] at hnumbers ⊢
        rw [hnumbers]
    · exact ⟨rfl, rfl, scanned⟩
    · obtain ⟨hpackets, hnumbers, hscanned⟩ := ih (begin.add node.item.getSize) hmem
        (s := s) ⟨fun h => ⟨fun o ho => (scanned.fresh h).1 o (by simp [ho]), (scanned.fresh h).2⟩,
          scanned.known⟩
      refine ⟨?_, ?_, fun h => ?_, hscanned.known⟩
      · simp only [packets, map_cons] at hpackets ⊢
        rw [hpackets]
      · simp only [numbers, map_cons] at hnumbers ⊢
        rw [hnumbers]
      · have hfresh := scanned.fresh (sackBlock_none h)
        refine ⟨fun o ho => ?_, (hscanned.fresh h).2⟩
        rcases mem_cons.mp ho with rfl | ho
        · exact hfresh.1 o (by simp)
        · exact (hscanned.fresh h).1 o ho

theorem sackBlocks_spec (first endOfSent : SequenceNumber32)
    (blocks : List (SequenceNumber32 × SequenceNumber32)) {known : List ℕ} {l : List Node}
    (mem : ∀ node ∈ l, node.number ∈ known) (scanned : Scanned known l s) :
    ∀ r ∈ sackBlocks first endOfSent blocks l s,
      packets r.1 = packets l ∧ numbers r.1 = numbers l ∧ Scanned known r.1 r.2 := by
  induction blocks generalizing l s with
  | nil =>
    rintro r hr
    obtain rfl := Option.some.inj hr
    exact ⟨rfl, rfl, scanned⟩
  | cons block blocks ih =>
    intro r hr
    unfold sackBlocks at hr
    dsimp only at hr
    split_ifs at hr
    · cases hr
    · obtain ⟨hpackets, hnumbers, hscanned⟩ := sackBlock_spec block first mem scanned
      have hmem : ∀ node ∈ (sackBlock block l first s).1, node.number ∈ known := by
        intro node hnode
        have hnumber : node.number ∈ numbers l := by
          rw [← hnumbers]
          exact mem_numbers hnode
        obtain ⟨o, ho, heq⟩ := mem_map.mp hnumber
        rw [← heq]
        exact mem o ho
      obtain ⟨hpackets', hnumbers', hscanned'⟩ := ih hmem hscanned r hr
      exact ⟨hpackets'.trans hpackets, hnumbers'.trans hnumbers, hscanned'⟩

theorem markLost_packets (dupAckThresh : UInt32) (l : List Node) (sacked lostOut : UInt32) :
    packets (markLost dupAckThresh l sacked lostOut).1 = packets l := by
  induction l generalizing sacked lostOut with
  | nil => rfl
  | cons node rest ih =>
    unfold markLost
    dsimp only
    split_ifs <;>
    · simp only [packets, map_cons] at ih ⊢
      rw [ih]

theorem updateLostCount_relabeled {number : ℕ}
    (highest : b.m_highestSack.1 = some number)
    (mem : ∃ node ∈ b.m_sentList, node.number = number) :
    ∃ b', b.updateLostCount = .ok b' ∧ Relabeled b b' := by
  obtain ⟨node, hnode, hnumber⟩ := mem
  cases hsent : b.m_sentList with
  | nil =>
    rw [hsent] at hnode
    cases hnode
  | cons head rest =>
    rw [hsent] at hnode
    have hfound : (head.number = number || rest.any fun node => node.number = number) = true := by
      rcases mem_cons.mp hnode with rfl | hmem
      · simp [hnumber]
      · rw [Bool.or_eq_true, any_eq_true]
        exact Or.inr ⟨node, hmem, by simpa using hnumber⟩
    unfold updateLostCount
    rw [hsent, highest]
    dsimp only
    rw [if_pos hfound]
    obtain ⟨walked, hwalked⟩ : ∃ walked, walked =
      rest.take ((rest.findIdx? fun node => node.number = number).elim 0 (· + 1)) := ⟨_, rfl⟩
    rw [← hwalked]
    have hpackets : packets ((markLost b.m_dupAckThresh walked.reverse 0 b.m_lostOut).1.reverse
        ++ rest.drop walked.length) = packets rest := by
      have hmark := markLost_packets b.m_dupAckThresh walked.reverse 0 b.m_lostOut
      have hsplit : walked ++ rest.drop walked.length = rest := by
        obtain ⟨behind, hbehind⟩ : walked <+: rest := hwalked ▸ take_prefix _ _
        rw [← hbehind, drop_left]
      have hrest := congrArg packets hsplit
      simp only [packets, map_append, map_reverse] at hmark hrest ⊢
      rw [hmark, reverse_reverse, hrest]
    refine ⟨_, rfl, ?_⟩
    split_ifs
    · refine ⟨?_, rfl, rfl, rfl, rfl, rfl⟩
      simp only [packets, map_cons, hsent] at hpackets ⊢
      rw [hpackets]
    · refine ⟨?_, rfl, rfl, rfl, rfl, rfl⟩
      simp only [packets, map_cons, hsent] at hpackets ⊢
      rw [hpackets]

theorem update_relabeled (list : List (SequenceNumber32 × SequenceNumber32))
    (tracks : Tracks b.m_sentList b.m_highestSack.1) :
    ∃ modified b', b.update list = .ok (modified, b') ∧ Relabeled b b' := by
  have hscanned : Scanned (numbers b.m_sentList) b.m_sentList
      ⟨b.m_sackedOut, b.m_lostOut, b.m_highestSack, false⟩ := by
    refine ⟨fun h => ⟨tracks.1 h, rfl⟩, fun number hnumber => ?_⟩
    obtain ⟨node, hnode, rfl⟩ := tracks.2 number hnumber
    exact mem_numbers hnode
  have hspec := sackBlocks_spec b.m_firstByteSeq (b.m_firstByteSeq.add b.m_sentSize) list
    (fun _ hnode => mem_numbers hnode) hscanned
  unfold update
  cases hrun : sackBlocks b.m_firstByteSeq (b.m_firstByteSeq.add b.m_sentSize) list
      b.m_sentList ⟨b.m_sackedOut, b.m_lostOut, b.m_highestSack, false⟩ with
  | none => exact ⟨false, b, rfl, ⟨rfl, rfl, rfl, rfl, rfl, rfl⟩⟩
  | some r =>
    obtain ⟨hpackets, hnumbers, hscanned'⟩ := hspec r hrun
    obtain ⟨marked, hmarked⟩ : ∃ marked : TcpTxBuffer, marked = { b with
      m_sentList := r.1
      m_sackedOut := r.2.sackedOut
      m_lostOut := r.2.lostOut
      m_highestSack := r.2.highestSack } := ⟨_, rfl⟩
    have hsame : Relabeled b marked := by
      rw [hmarked]
      exact ⟨hpackets, rfl, rfl, rfl, rfl, rfl⟩
    dsimp only
    rw [← hmarked]
    by_cases hmodified : r.2.modified
    · rw [if_pos hmodified]
      cases hhighest : r.2.highestSack.1 with
      | none =>
        have := (hscanned'.fresh hhighest).2
        simp [hmodified] at this
      | some number =>
        have hmem := hscanned'.known number hhighest
        rw [← hnumbers] at hmem
        obtain ⟨node, hnode, hnumber⟩ := mem_map.mp hmem
        have hmarkedHighest : marked.m_highestSack.1 = some number := by
          rw [hmarked]; exact hhighest
        obtain ⟨b', hupdate, hrelabeled⟩ := updateLostCount_relabeled hmarkedHighest
          ⟨node, by rw [hmarked]; exact hnode, hnumber⟩
        rw [hupdate]
        exact ⟨true, b', rfl, hsame.trans hrelabeled⟩
    · rw [if_neg hmodified]
      exact ⟨false, marked, rfl, hsame⟩

/-! ## DiscardUpTo -/

/-- The counters are those of the flags, and what was not sent carries none. -/
structure Board (b : TcpTxBuffer) : Prop where
  app : Plainly b.m_appList
  sacked : b.m_sackedOut = .ofNat ((flags b.m_sentList).countP fun c => c.1)
  lost : b.m_lostOut = .ofNat ((flags b.m_sentList).countP fun c => c.2)
  retrans : b.m_retrans = .ofNat (retransmitted b.m_sentList)
  merged : b.mergedApart = false

structure Discarded (b b' : TcpTxBuffer) (k : ℕ) : Prop where
  ok : Ok b'
  data : b'.data = b.data.drop k
  firstByteSeq : b'.m_firstByteSeq = b.m_firstByteSeq.add (.ofNat (min k b.data.length))
  maxBuffer : b'.m_maxBuffer = b.m_maxBuffer
  board : Board b → Board b' ∧ ∃ j,
    flags b'.m_sentList = (flags b.m_sentList ++ replicate j (false, false)).drop k

namespace Discarded

variable {b b' b'' : TcpTxBuffer} {j k : ℕ}

theorem add_add (seq : SequenceNumber32) (j k : ℕ) :
    (seq.add (.ofNat j)).add (.ofNat k) = seq.add (.ofNat (j + k)) := by
  simp only [SequenceNumber32.add, UInt32.ofNat_add, UInt32.add_assoc]

theorem nothing (ok : Ok b) (h : k = 0 ∨ b.data.length = 0) : Discarded b b k := by
  have hzero : min k b.data.length = 0 := by omega
  refine ⟨ok, ?_, ?_, rfl, fun board => ⟨board, 0, ?_⟩⟩
  · rcases h with rfl | h
    · rfl
    · rw [length_eq_zero_iff.mp h, drop_nil]
  · rw [hzero]
    simp [SequenceNumber32.add]
  · rw [replicate_zero, append_nil]
    rcases h with rfl | h
    · rfl
    · have hsizes := b.length_data
      have hflags : flags b.m_sentList = [] := by
        rw [← length_eq_zero_iff, length_flags]
        omega
      rw [hflags, drop_nil]

theorem trans (h : Discarded b b' j) (h' : Discarded b' b'' k)
    (le : j ≤ (bytes b.m_sentList).length) : Discarded b b'' (j + k) := by
  have hsizes := b.length_data
  have hdata := congrArg List.length h.data
  rw [length_drop] at hdata
  refine ⟨h'.ok, ?_, ?_, h'.maxBuffer.trans h.maxBuffer, fun board => ?_⟩
  · rw [h'.data, h.data, drop_drop]
  · rw [h'.firstByteSeq, h.firstByteSeq, add_add]
    congr 2
    omega
  · obtain ⟨hboard, i, hflags⟩ := h.board board
    obtain ⟨hboard', i', hflags'⟩ := h'.board hboard
    refine ⟨hboard', i + i', ?_⟩
    have hlength : j ≤ (flags b.m_sentList ++ replicate i (false, false)).length := by
      rw [length_append, length_flags]
      omega
    rw [hflags', hflags, ← drop_append_of_le_length hlength, drop_drop, append_assoc,
      replicate_append_replicate]

end Discarded

theorem Sent.discarded {b' : TcpTxBuffer} {m : ℕ} (ok : Ok b) (h : Sent b b' m)
    (le : m ≤ (bytes b.m_appList).length) : Discarded b b' 0 := by
  obtain ⟨hok, hdata, hfirst, hmax⟩ := h.unchanged ok le
  refine ⟨hok, hdata, ?_, hmax, fun board => ?_⟩
  · rw [Nat.zero_min, hfirst]
    simp [SequenceNumber32.add]
  · obtain ⟨happ, hflags, hretrans, hcount, hmerged⟩ := h.plainly board.app
    refine ⟨⟨happ, ?_, ?_, ?_, hmerged.trans board.merged⟩, m, hflags⟩
    · rw [h.frame.sackedOut, board.sacked, hflags]
      simp [countP_append, countP_replicate]
    · rw [h.frame.lostOut, board.lost, hflags]
      simp [countP_append, countP_replicate]
    · rw [hcount, board.retrans, hretrans]

section Head

variable {b : TcpTxBuffer} (ok : Ok b) {node : Node} {rest : List Node}
  (sent : b.m_sentList = node :: rest)
include ok sent

theorem discarded_front {k : ℕ} (le : k ≤ node.item.m_packet.length) (kept : List Node)
    (hkept : bytes kept = node.item.m_packet.drop k) (filled : Filled kept)
    (hflags : flags kept = replicate (node.item.m_packet.length - k)
      (node.item.m_sacked, node.item.m_lost)) (hretrans : retransmitted kept =
      if node.item.m_retrans then node.item.m_packet.length - k else 0) :
    Discarded b (removeFromCounts { b with
      m_size := b.m_size - .ofNat k
      m_sentSize := b.m_sentSize - .ofNat k
      m_firstByteSeq := b.m_firstByteSeq.add (.ofNat k)
      m_sentList := kept ++ rest } node.item (.ofNat k)) k := by
  have hsizes := b.length_data
  have hfilled := ok.sent
  rw [sent, filled_cons] at hfilled
  have hsent : (bytes b.m_sentList).length = node.item.m_packet.length + (bytes rest).length := by
    rw [sent, bytes_cons, length_append]
  have hbytes : bytes (kept ++ rest) = (bytes b.m_sentList).drop k := by
    rw [sent, bytes_append, hkept, bytes_cons, drop_append_of_le_length le]
  have hdata : bytes (kept ++ rest) ++ bytes b.m_appList = b.data.drop k := by
    rw [hbytes, data, drop_append_of_le_length (by omega)]
  have hcolors : flags (kept ++ rest) = (flags b.m_sentList).drop k := by
    rw [sent, flags_append, flags_cons, hflags, drop_append_of_le_length (by simpa using le),
      drop_replicate]
  refine ⟨⟨?_, ok.app, ?_, ?_, ?_⟩, hdata, ?_, rfl, fun board => ⟨⟨board.app, ?_, ?_, ?_,
    board.merged⟩, 0, ?_⟩⟩
  · exact (filled_append _ _).mpr ⟨filled, hfilled.2⟩
  · change b.m_size - _ = .ofNat (bytes (kept ++ rest) ++ bytes b.m_appList).length
    rw [hdata, ok.size, ofNat_sub_ofNat (by omega), length_drop]
  · change b.m_sentSize - _ = .ofNat (bytes (kept ++ rest)).length
    rw [hbytes, ok.sentSize, ofNat_sub_ofNat (by omega), length_drop]
  · change (bytes (kept ++ rest) ++ bytes b.m_appList).length < _
    have hshort := ok.short
    rw [hdata, length_drop]
    omega
  · rw [Nat.min_eq_left (by omega)]
    rfl
  · have hcount := board.sacked
    rw [sent, flags_cons] at hcount
    simp only [removeFromCounts, flags_append, hflags, countP_append,
      countP_replicate] at hcount ⊢
    rw [hcount]
    split_ifs
    · rw [ofNat_sub_ofNat (by omega)]
      congr 1
      omega
    · rfl
  · have hcount := board.lost
    rw [sent, flags_cons] at hcount
    simp only [removeFromCounts, flags_append, hflags, countP_append,
      countP_replicate] at hcount ⊢
    rw [hcount]
    split_ifs
    · rw [ofNat_sub_ofNat (by omega)]
      congr 1
      omega
    · rfl
  · have hcount := board.retrans
    rw [sent] at hcount
    simp only [removeFromCounts, retransmitted_cons, retransmitted_append, hretrans]
      at hcount ⊢
    rw [hcount]
    split_ifs
    · rw [ofNat_sub_ofNat (by omega)]
      congr 1
      omega
    · rfl
  · rw [replicate_zero, append_nil]
    exact hcolors

end Head

theorem Ok.toNat_size (ok : Ok b) : b.m_size.toNat = b.data.length := by
  have hshort := ok.short
  rw [ok.size, RxBuffer.toNat_ofNat (by omega)]

theorem discard_goes (ok : Ok b) (filled : 0 < b.data.length) {k : ℕ} (pos : 0 < k)
    (short : k < 2 ^ 32) : (decide (b.m_size > 0) && decide (UInt32.ofNat k > 0)) = true := by
  rw [Bool.and_eq_true, decide_eq_true_eq, decide_eq_true_eq, gt_iff_lt, gt_iff_lt,
    lt_iff_toNat_lt, lt_iff_toNat_lt, ok.toNat_size, RxBuffer.toNat_ofNat short]
  exact ⟨filled, pos⟩

theorem discardLoop_done (ok : Ok b) {k : ℕ} (h : k = 0 ∨ b.data.length = 0)
    (now : ℤ) (fuel : ℕ) : discardLoop now (fuel + 1) (.ofNat k) b = .ok b := by
  have hsize := ok.toNat_size
  rw [discardLoop]
  refine if_neg fun hboth => ?_
  rw [Bool.and_eq_true, decide_eq_true_eq, decide_eq_true_eq, gt_iff_lt, gt_iff_lt,
    lt_iff_toNat_lt, lt_iff_toNat_lt, hsize] at hboth
  rcases h with rfl | h
  · exact absurd hboth.2 (by simp)
  · rw [h] at hboth
    exact absurd hboth.1 (by simp)

theorem discardLoop_round (ok : Ok b) {node : Node} {rest : List Node}
    (sent : b.m_sentList = node :: rest) {k : ℕ} (pos : 0 < k) (short : k < 2 ^ 32) (now : ℤ)
    (fuel : ℕ) : (∃ b', discardLoop now (fuel + 1) (.ofNat k) b = .ok b' ∧ Discarded b b' k) ∨
      ∃ b', discardLoop now (fuel + 1) (.ofNat k) b =
          discardLoop now fuel (UInt32.ofNat (k - node.item.m_packet.length)) b' ∧
        b'.m_sentList = rest ∧ b'.m_appList = b.m_appList ∧ node.item.m_packet.length ≤ k ∧
        node.item.m_packet.length ≤ (bytes b.m_sentList).length ∧
        Discarded b b' node.item.m_packet.length := by
  have hsizes := b.length_data
  have hshort := ok.short
  have hfilled := ok.sent
  rw [sent, filled_cons] at hfilled
  have hsent : (bytes b.m_sentList).length = node.item.m_packet.length + (bytes rest).length := by
    rw [sent, bytes_cons, length_append]
  have hk := RxBuffer.toNat_ofNat (k := k) (by omega)
  have hlen := RxBuffer.toNat_ofNat (k := node.item.m_packet.length) (by omega)
  have hboth := discard_goes ok (k := k) (by omega) pos short
  have hloaded : ¬b.m_sentList.isEmpty := by simp [sent]
  rw [discardLoop, if_pos hboth, if_neg hloaded]
  simp only [bind, Except.bind, sent]
  by_cases whole : node.item.m_packet.length ≤ k
  · right
    have hge : .ofNat k ≥ node.item.getSize := by
      rw [ge_iff_le, le_iff_toNat_le, getSize_eq, hk, hlen]
      exact whole
    rw [if_pos hge, getSize_eq, ofNat_sub_ofNat whole]
    have hdiscarded := discarded_front ok sent (k := node.item.m_packet.length) (Nat.le_refl _)
      [] (by simp) (by simp [Filled]) (by simp) (by simp)
    exact ⟨_, rfl, rfl, rfl, whole, by rw [bytes_cons, length_append]; omega, hdiscarded⟩
  · left
    have hlt : ¬.ofNat k ≥ node.item.getSize := by
      rw [ge_iff_le, le_iff_toNat_le, getSize_eq, hk, hlen]
      exact whole
    rw [if_neg hlt, getSize_eq, ofNat_sub_ofNat (by omega),
      createFragment_back (by omega) (by omega)]
    have hdrop : (node.item.m_packet.drop k).length = node.item.m_packet.length - k :=
      length_drop
    have hdiscarded := discarded_front ok sent (k := k) (by omega)
      [{ node with item := { node.item with
        m_packet := node.item.m_packet.drop k
        m_startSeq := node.item.m_startSeq.add (.ofNat k) } }] (by simp)
      (by simp only [Filled, mem_singleton, forall_eq, hdrop]; omega)
      (by simp) (by simp)
    exact ⟨_, rfl, hdiscarded⟩

theorem discardLoop_load (ok : Ok b) (sent : b.m_sentList = []) {k : ℕ} (pos : 0 < k)
    (filled : 0 < b.data.length) (short : k < 2 ^ 32) (now : ℤ) (fuel : ℕ) :
    ∃ b' node m, discardLoop now (fuel + 1) (.ofNat k) b =
        discardLoop now (fuel + 1) (.ofNat k) b' ∧
      b'.m_sentList = [node] ∧ m = min k (bytes b.m_appList).length ∧ Sent b b' m := by
  have hsizes := b.length_data
  have hshort := ok.short
  have hk := RxBuffer.toNat_ofNat (k := k) (by omega)
  have hfirst : b.m_firstByteSeq.add (.ofNat 0) = b.m_firstByteSeq := by
    simp [SequenceNumber32.add]
  have hnone : b.m_sentSize.toNat = 0 := by
    rw [ok.sentSize, sent]
    rfl
  obtain ⟨p, b', hrun, hcopied⟩ := copyFromSequence_spec ok (n := .ofNat k) (k := 0)
    (Nat.zero_le _) (fun h => by omega) now
  rw [hfirst] at hrun
  rw [sent, bytes_nil, length_nil] at hsizes
  have hbody : ∀ b' : TcpTxBuffer, b'.m_sentList ≠ [] → b'.m_size = b.m_size → ∀ p,
      b.copyFromSequence now (.ofNat k) b.m_firstByteSeq = .ok (p, b') →
      discardLoop now (fuel + 1) (.ofNat k) b =
        discardLoop now (fuel + 1) (.ofNat k) b' := by
    intro b' hne hsame p hrun
    have hboth := discard_goes ok filled pos short
    have hloaded : ¬b'.m_sentList.isEmpty := by simpa using hne
    rw [discardLoop, discardLoop, hsame, if_pos hboth, if_pos hboth,
      if_neg hloaded, sent, hrun]
    rfl
  cases hcopied with
  | nothing h =>
    rcases h with h | h
    · rw [h] at hk
      exact absurd hk (by simp; omega)
    · omega
  | resent inside _ _ _ _ =>
    rw [sent] at inside
    exact absurd inside (by simp)
  | @sent _ m behind size pos served =>
    have hlength := served.length
    rw [sent] at hlength
    obtain ⟨node, hnode⟩ := length_eq_one_iff.mp hlength
    refine ⟨b', node, m, hbody b' (by rw [hnode]; simp) served.frame.size _ hrun, hnode, ?_, served⟩
    rw [size, hk]

theorem discardLoop_spec (ok : Ok b) {k : ℕ} (short : k < 2 ^ 32) (now : ℤ) {fuel : ℕ}
    (enough : b.m_sentList.length + 2 < fuel) :
    ∃ b', discardLoop now fuel (.ofNat k) b = .ok b' ∧ Discarded b b' k := by
  obtain ⟨fuel, rfl⟩ := Nat.exists_eq_add_of_lt enough
  obtain ⟨length, hlength⟩ : ∃ length, b.m_sentList.length = length := ⟨_, rfl⟩
  rw [hlength]
  clear enough
  induction length generalizing b k with
  | zero =>
    have hsent := length_eq_zero_iff.mp hlength
    by_cases hdone : k = 0 ∨ b.data.length = 0
    · exact ⟨b, discardLoop_done ok hdone now _, .nothing ok hdone⟩
    · obtain ⟨b', node, m, hload, hnode, hm, hserved⟩ :=
        discardLoop_load ok hsent (k := k) (by omega) (by omega) short now (0 + 2 + fuel)
      have hle : m ≤ (bytes b.m_appList).length := by omega
      have hunchanged := hserved.unchanged ok hle
      have hfirst := hserved.discarded ok hle
      have hsize : node.item.m_packet.length = m := by
        have hbytes := congrArg List.length hserved.sent
        rw [hnode, hsent, bytes_cons, bytes_nil, append_nil, nil_append, length_take] at hbytes
        omega
      rw [hload]
      rcases discardLoop_round hunchanged.ok hnode (k := k) (by omega) short now (0 + 2 + fuel) with
        ⟨b'', hrun, hlast⟩ | ⟨b'', hrun, -, -, hle', hle'', hdiscarded⟩
      · refine ⟨b'', hrun, ?_⟩
        have htrans := hfirst.trans hlast (Nat.zero_le _)
        rwa [Nat.zero_add] at htrans
      · have hsizes := b.length_data
        have hdata := congrArg List.length hdiscarded.data
        rw [hsent, bytes_nil, length_nil] at hsizes
        rw [length_drop, hunchanged.data] at hdata
        have hleft : k - node.item.m_packet.length = 0 ∨ b''.data.length = 0 := by omega
        have hfuel : 0 + 2 + fuel = 1 + fuel + 1 := by omega
        refine ⟨b'', ?_, ?_⟩
        · rw [hrun, hfuel]
          exact discardLoop_done hdiscarded.ok hleft now _
        · have htrans := hfirst.trans (hdiscarded.trans (.nothing hdiscarded.ok hleft) hle'')
            (Nat.zero_le _)
          rwa [Nat.zero_add, Nat.add_sub_cancel' hle'] at htrans
  | succ length ih =>
    cases hsent : b.m_sentList with
    | nil =>
      rw [hsent] at hlength
      cases hlength
    | cons node rest =>
      by_cases hdone : k = 0
      · exact ⟨b, by
          subst hdone; exact discardLoop_done ok (Or.inl rfl) now _, .nothing ok (Or.inl hdone)⟩
      · have hfuel : length + 1 + 2 + fuel + 1 = length + 2 + fuel + 1 + 1 := by omega
        rw [hfuel]
        rcases discardLoop_round ok hsent (k := k) (by omega) short now (length + 2 + fuel + 1) with
          hlast | ⟨b', hrun, hrest, -, hle, hle', hdiscarded⟩
        · exact hlast
        · have hlength' : b'.m_sentList.length = length := by
            rw [hrest]
            rw [hsent, length_cons] at hlength
            omega
          obtain ⟨b'', hrun', hdiscarded'⟩ := ih hdiscarded.ok
            (k := k - node.item.m_packet.length) (by omega) hlength'
          refine ⟨b'', hrun.trans hrun', ?_⟩
          have htrans := hdiscarded.trans hdiscarded' hle'
          rwa [Nat.add_sub_cancel' hle] at htrans

theorem add_placeOf (b : TcpTxBuffer) (seq : SequenceNumber32) :
    b.m_firstByteSeq.add (.ofNat (b.placeOf seq)) = seq := by
  rw [placeOf, UInt32.ofNat_toNat]
  cases seq
  refine congrArg SequenceNumber32.mk ?_
  rw [UInt32.add_comm, sub, UInt32.sub_add_cancel]

theorem Ok.moved {b' : TcpTxBuffer} (ok : Ok b) (sent : b'.m_sentList = b.m_sentList)
    (app : b'.m_appList = b.m_appList) (size : b'.m_size = b.m_size)
    (sentSize : b'.m_sentSize = b.m_sentSize) : Ok b' ∧ b'.data = b.data := by
  have hdata : b'.data = b.data := by rw [data, data, sent, app]
  refine ⟨⟨?_, ?_, ?_, ?_, ?_⟩, hdata⟩
  · rw [sent]
    exact ok.sent
  · rw [app]
    exact ok.app
  · rw [hdata, size, ok.size]
  · rw [sent, sentSize, ok.sentSize]
  · rw [hdata]
    exact ok.short

theorem discardUpTo_spec (ok : Ok b) (now : ℤ) (seq : SequenceNumber32) :
    ∃ b', b.discardUpTo now seq = .ok b' ∧ Ok b' ∧ b'.m_maxBuffer = b.m_maxBuffer ∧
      if b.m_firstByteSeq.greaterEqual seq then b' = b
      else b'.m_firstByteSeq = seq ∧ b'.data = b.data.drop (b.placeOf seq) := by
  unfold discardUpTo
  split_ifs with ahead
  · exact ⟨b, rfl, ok, rfl, rfl⟩
  · have hshort := ok.short
    have henough : b.m_sentList.length + 2 < b.m_sentList.length + 3 := by omega
    obtain ⟨b₁, hrun, hdiscarded⟩ := discardLoop_spec ok (k := b.placeOf seq) (toNat_lt _) now
      henough
    have hoffset : .ofNat (b.placeOf seq) = seq.sub b.m_firstByteSeq := by
      rw [placeOf, UInt32.ofNat_toNat]
    rw [hoffset] at hrun
    rw [hrun]
    obtain ⟨b₂, hb₂⟩ : ∃ b₂, b₂ = if b₁.m_size = 0 then { b₁ with m_firstByteSeq := seq } else b₁ :=
      ⟨_, rfl⟩
    have hmoved : b₂.m_firstByteSeq = seq ∧ b₂.m_maxBuffer = b₁.m_maxBuffer ∧ Ok b₂ ∧
        b₂.data = b₁.data := by
      have hsize := hdiscarded.ok.toNat_size
      have hlength := congrArg List.length hdiscarded.data
      rw [length_drop] at hlength
      by_cases hzero : b₁.m_size = 0
      · rw [if_pos hzero] at hb₂
        rw [hb₂]
        exact ⟨rfl, rfl, hdiscarded.ok.moved rfl rfl rfl rfl⟩
      · rw [if_neg hzero] at hb₂
        have hpos : b₁.m_size.toNat ≠ 0 := fun h => hzero (UInt32.toNat_inj.mp h)
        rw [hb₂]
        refine ⟨?_, rfl, hdiscarded.ok, rfl⟩
        rw [hdiscarded.firstByteSeq, Nat.min_eq_left (by omega), add_placeOf]
    obtain ⟨b₃, hunsack, hrelabeled⟩ := unsackHead_relabeled b₂
    obtain ⟨hok, hdata, hfirst, hmax⟩ := hrelabeled.unchanged hmoved.2.2.1
    simp only [bind, Except.bind]
    rw [← hb₂, hunsack]
    dsimp only
    refine ⟨_, rfl, ?_⟩
    have hmax' : b₃.m_maxBuffer = b.m_maxBuffer := by rw [hmax, hmoved.2.1, hdiscarded.maxBuffer]
    have hdata' : b₃.data = b.data.drop (b.placeOf seq) := by
      rw [hdata, hmoved.2.2.2, hdiscarded.data]
    split_ifs
    · have hok' : Ok { b₃ with m_highestSack := (none, ⟨0⟩) } :=
        ⟨hok.sent, hok.app, hok.size, hok.sentSize, hok.short⟩
      exact ⟨hok', hmax', hfirst.trans hmoved.1, hdata'⟩
    · exact ⟨hok, hmax', hfirst.trans hmoved.1, hdata'⟩

theorem bytes_renumber (first : ℕ) (l : List Node) :
    packets (renumber first l) = packets l := by
  apply ext_getElem
  · simp [packets, renumber]
  · intro i hi hi'
    simp [packets, renumber]

theorem resetSentList_unchanged (ok : Ok b) : Unchanged b b.resetSentList := by
  obtain ⟨moved, hmoved⟩ : ∃ moved, moved = renumber b.nextNode (b.m_sentList.map
    fun node => { node with
      item := { node.item with m_retrans := false, m_sacked := false, m_lost := false } }) :=
        ⟨_, rfl⟩
  have hpackets : packets moved = packets b.m_sentList := by
    rw [hmoved, bytes_renumber]
    simp [packets]
  have hbytes : bytes moved = bytes b.m_sentList := by
    rw [bytes_eq_flatten, hpackets, ← bytes_eq_flatten]
  have hdata : b.resetSentList.data = b.data := by
    rw [data, data, resetSentList, ← hmoved]
    simp [hbytes]
  refine ⟨⟨by simp [resetSentList, Filled], ?_, ?_, rfl, ?_⟩, hdata, rfl, rfl⟩
  · rw [resetSentList, ← hmoved, filled_append, filled_iff, hpackets, ← filled_iff]
    exact ⟨ok.sent, ok.app⟩
  · rw [hdata]
    exact ok.size
  · rw [hdata]
    exact ok.short

theorem resetLastSegmentSent_unchanged (ok : Ok b) : Unchanged b b.resetLastSegmentSent := by
  unfold resetLastSegmentSent
  cases hlast : b.m_sentList.getLast? with
  | none => exact ⟨ok, rfl, rfl, rfl⟩
  | some node =>
    have hsent : b.m_sentList = b.m_sentList.dropLast ++ [node] :=
      (dropLast_append_getLast? node hlast).symm
    have hfilled := ok.sent
    have hshort := ok.short
    have hsizes := b.length_data
    have hsentSize := ok.sentSize
    rw [hsent, filled_append, filled_cons] at hfilled
    rw [hsent, bytes_append, bytes_cons, bytes_nil, append_nil, length_append] at hsentSize
    have hdata : bytes b.m_sentList.dropLast ++ bytes (⟨b.nextNode, node.item⟩ :: b.m_appList) =
        b.data := by
      rw [data]
      nth_rw 2 [hsent]
      simp
    refine ⟨⟨hfilled.1, ?_, ?_, ?_, ?_⟩, hdata, rfl, rfl⟩
    · exact (filled_cons _ _).mpr ⟨hfilled.2.1, ok.app⟩
    · exact ok.size.trans (congrArg (fun l => UInt32.ofNat l.length) hdata.symm)
    · change b.m_sentSize - _ = _
      rw [hsentSize, getSize_eq, ofNat_sub_ofNat (by omega), Nat.add_sub_cancel]
    · exact (congrArg List.length hdata).trans_lt hshort

theorem deleteRetransmittedFlagFromHead_relabeled (ok : Ok b) :
    ∃ b', b.deleteRetransmittedFlagFromHead = .ok b' ∧ Relabeled b b' := by
  unfold deleteRetransmittedFlagFromHead
  split_ifs with hzero
  · exact ⟨b, rfl, ⟨rfl, rfl, rfl, rfl, rfl, rfl⟩⟩
  · cases hsent : b.m_sentList with
    | nil =>
      refine absurd ?_ hzero
      rw [ok.sentSize, hsent]
      rfl
    | cons head rest =>
      dsimp only
      split_ifs
      · refine ⟨_, rfl, ⟨?_, rfl, rfl, rfl, rfl, rfl⟩⟩
        simp [packets, hsent]
      · exact ⟨b, rfl, ⟨rfl, rfl, rfl, rfl, rfl, rfl⟩⟩

/-! ## Runs -/

inductive Op where
  | add (p : Packet)
  | copyFromSequence (now : ℤ) (numBytes : UInt32) (seq : SequenceNumber32)
  | discardUpTo (now : ℤ) (seq : SequenceNumber32)
  | update (list : List (SequenceNumber32 × SequenceNumber32))
  | addRenoSack
  | resetRenoSack
  | markHeadAsLost
  | setSentListLost (resetSack : Bool)
  | resetSentList
  | resetLastSegmentSent
  | deleteRetransmittedFlagFromHead
deriving DecidableEq

/-- A buffer as a queue: the first sequence number, and the bytes from it on. -/
structure Queue where
  head : SequenceNumber32
  bytes : List UInt8
deriving DecidableEq

structure Answer where
  numBytes : UInt32
  seq : SequenceNumber32
  packet : Packet
deriving DecidableEq

/-- The queue that takes in what `Add` accepts; the answer is the one of the last call, if it asked
for a copy. -/
structure Session where
  buffer : TcpTxBuffer
  queue : Queue
  answer : Option Answer
deriving DecidableEq

def Queue.discardUpTo (q : Queue) (seq : SequenceNumber32) : Queue :=
  if q.head.greaterEqual seq then q else ⟨seq, q.bytes.drop (seq.sub q.head).toNat⟩

def step (s : Session) : Op → Except Fault Session
  | .add p =>
    let r := s.buffer.add p
    .ok ⟨r.2, if r.1 then { s.queue with bytes := s.queue.bytes ++ p } else s.queue, none⟩
  | .copyFromSequence now numBytes seq =>
    (s.buffer.copyFromSequence now numBytes seq).map fun r =>
      ⟨r.2, s.queue, some ⟨numBytes, seq, r.1⟩⟩
  | .discardUpTo now seq =>
    (s.buffer.discardUpTo now seq).map fun b => ⟨b, s.queue.discardUpTo seq, none⟩
  | .update list => (s.buffer.update list).map fun r => ⟨r.2, s.queue, none⟩
  | .addRenoSack => s.buffer.addRenoSack.map fun b => ⟨b, s.queue, none⟩
  | .resetRenoSack => .ok ⟨s.buffer.resetRenoSack, s.queue, none⟩
  | .markHeadAsLost => .ok ⟨s.buffer.markHeadAsLost, s.queue, none⟩
  | .setSentListLost resetSack => .ok ⟨s.buffer.setSentListLost resetSack, s.queue, none⟩
  | .resetSentList => .ok ⟨s.buffer.resetSentList, s.queue, none⟩
  | .resetLastSegmentSent => .ok ⟨s.buffer.resetLastSegmentSent, s.queue, none⟩
  | .deleteRetransmittedFlagFromHead =>
    s.buffer.deleteRetransmittedFlagFromHead.map fun b => ⟨b, s.queue, none⟩

def start (n maxBuffer dupAckThresh : UInt32) : Session :=
  ⟨initial n maxBuffer dupAckThresh, ⟨⟨n⟩, []⟩, none⟩

/-- The buffer describes the queue, and the answer is a piece of it. -/
structure Describes (s : Session) : Prop where
  head : s.buffer.headSequence = s.queue.head
  tail : s.buffer.tailSequence = s.queue.head.add (.ofNat s.queue.bytes.length)
  content : bytes s.buffer.m_sentList ++ bytes s.buffer.m_appList = s.queue.bytes
  size : s.buffer.m_size.toNat = s.queue.bytes.length
  sentSize : s.buffer.m_sentSize.toNat = (bytes s.buffer.m_sentList).length
  answer : ∀ a ∈ s.answer,
    a.packet <+: s.queue.bytes.drop (a.seq.sub s.queue.head).toNat ∧
      a.packet.length ≤ a.numBytes.toNat ∧
      (a.numBytes ≠ 0 → (a.seq.sub s.queue.head).toNat < s.queue.bytes.length → a.packet ≠ [])

/-- The calls as they are made: copies start between the head and the end of what was sent, and a
duplicate acknowledgement is counted when more than one item was sent. The buffer holds less than
`2 ^ 31` bytes, no copy wraps around, and the scoreboard is updated while `m_highestSack` is
right. -/
def Sane (b : TcpTxBuffer) : Op → Prop
  | .add p => Packet.getSize p ≤ b.available → b.m_size.toNat + p.length < 2 ^ 31
  | .copyFromSequence _ numBytes seq =>
    b.placeOf seq ≤ b.m_sentSize.toNat ∧ NoWrap b numBytes (b.placeOf seq)
  | .update _ => Tracks b.m_sentList b.m_highestSack.1
  | .addRenoSack => 1 < b.m_sentList.length
  | _ => True

instance (b : TcpTxBuffer) (op : Op) : Decidable (Sane b op) :=
  match op with
  | .add _ | .copyFromSequence .. | .update _ | .addRenoSack | .discardUpTo .. | .resetRenoSack
  | .markHeadAsLost | .setSentListLost _ | .resetSentList | .resetLastSegmentSent
  | .deleteRetransmittedFlagFromHead => by unfold Sane; infer_instance

structure Queued (s : Session) : Prop where
  ok : Ok s.buffer
  head : s.buffer.m_firstByteSeq = s.queue.head
  content : s.buffer.data = s.queue.bytes

namespace Queued

variable {s : Session} (h : Queued s)
include h

theorem describes (answer : ∀ a ∈ s.answer,
    a.packet <+: s.queue.bytes.drop (a.seq.sub s.queue.head).toNat ∧
      a.packet.length ≤ a.numBytes.toNat ∧
      (a.numBytes ≠ 0 → (a.seq.sub s.queue.head).toNat < s.queue.bytes.length → a.packet ≠ [])) :
    Describes s := by
  have hshort := h.ok.short
  have hsizes := s.buffer.length_data
  refine ⟨h.head, ?_, h.content, ?_, ?_, answer⟩
  · rw [tailSequence, h.head, h.ok.size, h.content]
  · rw [h.ok.toNat_size, h.content]
  · rw [h.ok.sentSize, RxBuffer.toNat_ofNat (by omega)]

theorem unchanged {b' : TcpTxBuffer} (same : Unchanged s.buffer b') (answer : Option Answer) :
    Queued ⟨b', s.queue, answer⟩ :=
  ⟨same.ok, same.firstByteSeq.trans h.head, same.data.trans h.content⟩

theorem add (p : Packet) (sane : Sane s.buffer (.add p)) :
    Ensures (step s (.add p)) (fun s' => Queued s' ∧ s'.answer = none) (fun _ => False) := by
  obtain ⟨hok, hhead, hcontent⟩ := h
  have hsize := hok.toNat_size
  by_cases hfits : Packet.getSize p ≤ s.buffer.available
  · have hshort := sane hfits
    have hlength := RxBuffer.toNat_ofNat (k := p.length) (by omega)
    by_cases hpos : Packet.getSize p > 0
    · have hfilled : 0 < p.length := by
        rw [gt_iff_lt, lt_iff_toNat_lt, Packet.getSize, hlength] at hpos
        exact hpos
      have hadd : s.buffer.add p = (true, { s.buffer with
          m_appList := s.buffer.m_appList ++ [⟨s.buffer.nextNode, .ofPacket p⟩]
          m_size := s.buffer.m_size + Packet.getSize p
          nextNode := s.buffer.nextNode + 1 }) := by
        rw [TcpTxBuffer.add, if_pos hfits, if_pos hpos]
      simp only [TxBuffer.step, hadd]
      have hdata : bytes s.buffer.m_sentList ++
          bytes (s.buffer.m_appList ++ [⟨s.buffer.nextNode, .ofPacket p⟩]) =
            s.buffer.data ++ p := by
        simp [data, TcpTxItem.ofPacket]
      refine ⟨⟨⟨hok.sent, ?_, ?_, hok.sentSize, ?_⟩, hhead, ?_⟩, rfl⟩
      · rw [filled_append, filled_cons]
        exact ⟨hok.app, hfilled, by simp [Filled]⟩
      · change s.buffer.m_size + _ = .ofNat (List.length (bytes s.buffer.m_sentList ++ _))
        rw [hdata, hok.size, length_append, UInt32.ofNat_add]
        rfl
      · change List.length (bytes s.buffer.m_sentList ++ _) < _
        rw [hdata, length_append]
        omega
      · change bytes s.buffer.m_sentList ++ _ = _
        rw [hdata, hcontent]
        rfl
    · have hnil : p = [] := by
        rw [gt_iff_lt, lt_iff_toNat_lt, Packet.getSize, hlength] at hpos
        exact length_eq_zero_iff.mp (by simpa using hpos)
      have hadd : s.buffer.add p = (true, s.buffer) := by
        rw [TcpTxBuffer.add, if_pos hfits, if_neg hpos]
      simp only [TxBuffer.step, hadd]
      refine ⟨⟨hok, hhead, ?_⟩, rfl⟩
      simpa [hnil] using hcontent
  · have hadd : s.buffer.add p = (false, s.buffer) := by rw [TcpTxBuffer.add, if_neg hfits]
    simp only [TxBuffer.step, hadd]
    exact ⟨⟨hok, hhead, hcontent⟩, rfl⟩

theorem copyFromSequence (now : ℤ) (numBytes : UInt32) (seq : SequenceNumber32)
    (sane : Sane s.buffer (.copyFromSequence now numBytes seq)) :
    Ensures (step s (.copyFromSequence now numBytes seq)) (fun s' => Queued s' ∧ Describes s')
      (fun _ => False) := by
  have hok := h.ok
  have hshort := hok.short
  have hsizes := s.buffer.length_data
  obtain ⟨hinside, hwrap⟩ := sane
  have hsentSize : s.buffer.m_sentSize.toNat = (bytes s.buffer.m_sentList).length := by
    rw [hok.sentSize, RxBuffer.toNat_ofNat (by omega)]
  rw [hsentSize] at hinside
  obtain ⟨p, b', hrun, hcopied⟩ := copyFromSequence_spec hok hinside hwrap now
  rw [add_placeOf] at hrun
  rw [step, hrun]
  have hqueued := h.unchanged (hcopied.unchanged hok) (some ⟨numBytes, seq, p⟩)
  refine ⟨hqueued, hqueued.describes fun a ha => ?_⟩
  obtain rfl := Option.some.inj ha
  have hanswer := hcopied.answer
  rw [h.content, placeOf, h.head] at hanswer
  exact hanswer

theorem discardUpTo (now : ℤ) (seq : SequenceNumber32) :
    Ensures (step s (.discardUpTo now seq)) (fun s' => Queued s' ∧ s'.answer = none)
      (fun _ => False) := by
  obtain ⟨b', hrun, hok, -, hspec⟩ := discardUpTo_spec h.ok now seq
  rw [step, hrun]
  refine ⟨?_, rfl⟩
  dsimp only
  rw [Queue.discardUpTo, ← h.head]
  split_ifs at hspec ⊢
  · obtain rfl := hspec
    exact ⟨hok, h.head, h.content⟩
  · refine ⟨hok, hspec.1, ?_⟩
    dsimp only
    rw [hspec.2, h.content, placeOf]

theorem relabeled {x : Except Fault TcpTxBuffer} (run : ∃ b', x = .ok b' ∧ Relabeled s.buffer b') :
    Ensures (x.map fun b => (⟨b, s.queue, none⟩ : Session)) (fun s' => Queued s' ∧ s'.answer = none)
      (fun _ => False) := by
  obtain ⟨b', rfl, hrelabeled⟩ := run
  exact ⟨h.unchanged (hrelabeled.unchanged h.ok) none, rfl⟩

theorem step (op : Op) (sane : Sane s.buffer op) :
    Ensures (step s op) (fun s' => Queued s' ∧ Describes s') (fun _ => False) := by
  have hplain : ∀ {x : Except Fault Session},
      Ensures x (fun s' => Queued s' ∧ s'.answer = none) (fun _ => False) →
      Ensures x (fun s' => Queued s' ∧ Describes s') (fun _ => False) := fun hx =>
    hx.weaken fun s' hs' => ⟨hs'.1, hs'.1.describes fun a ha => by rw [hs'.2] at ha; cases ha⟩
  cases op with
  | add p => exact hplain (h.add p sane)
  | copyFromSequence now numBytes seq => exact h.copyFromSequence now numBytes seq sane
  | discardUpTo now seq => exact hplain (h.discardUpTo now seq)
  | update list =>
    obtain ⟨modified, b', hrun, hrelabeled⟩ := update_relabeled list sane
    refine hplain ?_
    rw [TxBuffer.step, hrun]
    exact ⟨h.unchanged (hrelabeled.unchanged h.ok) none, rfl⟩
  | addRenoSack =>
    refine hplain (h.relabeled (addRenoSack_relabeled s.buffer fun hnil => ?_))
    have hsent : 1 < s.buffer.m_sentList.length := sane
    rw [hnil] at hsent
    exact absurd hsent (by simp)
  | resetRenoSack => exact hplain (h.relabeled ⟨_, rfl, resetRenoSack_relabeled s.buffer⟩)
  | markHeadAsLost => exact hplain (h.relabeled ⟨_, rfl, markHeadAsLost_relabeled s.buffer⟩)
  | setSentListLost resetSack =>
    exact hplain (h.relabeled ⟨_, rfl, setSentListLost_relabeled s.buffer resetSack⟩)
  | resetSentList => exact hplain ⟨h.unchanged (resetSentList_unchanged h.ok) none, rfl⟩
  | resetLastSegmentSent =>
    exact hplain ⟨h.unchanged (resetLastSegmentSent_unchanged h.ok) none, rfl⟩
  | deleteRetransmittedFlagFromHead =>
    exact hplain (h.relabeled (deleteRetransmittedFlagFromHead_relabeled h.ok))

end Queued

theorem start_queued (n maxBuffer dupAckThresh : UInt32) :
    Queued (start n maxBuffer dupAckThresh) :=
  ⟨⟨by simp [start, initial, Filled], by simp [start, initial, Filled], rfl, rfl,
    by simp [start, initial, data]⟩, rfl, rfl⟩

/-- As long as no request spans sent and unsent data across the largest sequence number, the buffer
is the queue of what it accepted. -/
theorem txBuffer_queues (n maxBuffer dupAckThresh : UInt32) (ops : List Op)
    (sane : Along step (fun s op => Sane s.buffer op) (start n maxBuffer dupAckThresh) ops) :
    Ensures (exec step (start n maxBuffer dupAckThresh) ops) Describes (fun _ => False) := by
  have keep : ∀ s op, Queued s ∧ Describes s → Sane s.buffer op →
      Ensures (step s op) (fun s' => Queued s' ∧ Describes s') (fun _ => False) :=
    fun s op hs hsane => hs.1.step op hsane
  have hstart := start_queued n maxBuffer dupAckThresh
  exact (ensures_exec keep ⟨hstart, hstart.describes fun a ha => by cases ha⟩ sane).weaken
    fun s hs => hs.2

/-- Items are split and merged where the numbers wrap around: new data, a piece of it again, all of
it again, some of it acknowledged. -/
theorem txBuffer_queues_wrapping : Ensures (exec step (start 4294967286 100 3)
      [.add [0, 1, 2, 3, 4, 5, 6, 7, 8, 9, 10, 11], .add [12, 13, 14, 15],
        .copyFromSequence 0 5 ⟨4294967286⟩, .copyFromSequence 1 6 ⟨4294967291⟩,
        .copyFromSequence 2 4 ⟨4294967288⟩, .copyFromSequence 3 9 ⟨4294967286⟩,
        .update [(⟨4294967291⟩, ⟨4294967292⟩)], .discardUpTo 4 ⟨4294967289⟩, .setSentListLost false,
        .copyFromSequence 5 100 ⟨1⟩, .resetSentList, .copyFromSequence 6 8 ⟨4294967289⟩,
        .discardUpTo 7 ⟨3⟩, .discardUpTo 8 ⟨7⟩]) Describes (fun _ => False) :=
  txBuffer_queues 4294967286 100 3 _ (by decide +kernel)

/-- A request that spans sent and unsent data, across the largest sequence number. -/
theorem txBuffer_straddles : ¬Ensures (exec step (start 4294967280 100 3)
      [.add (replicate 32 0), .copyFromSequence 0 8 ⟨4294967280⟩,
        .copyFromSequence 1 32 ⟨4294967280⟩]) Describes (fun _ => False) := by
  have run : exec step (start 4294967280 100 3)
      [.add (replicate 32 0), .copyFromSequence 0 8 ⟨4294967280⟩,
        .copyFromSequence 1 32 ⟨4294967280⟩] = .error .nullPointer := by decide +kernel
  rw [run]
  exact id

end Egsr.Internet.TxBuffer
