import Egsr.Internet.TxStream

/-! The scoreboard of the send buffer. The three counters are the bytes of the
items with the flag, and no byte is both sacked and lost, as long as no call
sacks a lost item, reports the first item as received, merges items whose flags
differ or takes back an item with its flags. -/

namespace Egsr.Internet.TxBuffer

open Network Network.SequenceNumber32 Lib.Run Lib.Outcome List UInt32 TcpTxBuffer

def sized (p : TcpTxItem → Bool) (l : List Node) : ℕ :=
  (l.map fun node => if p node.item then node.item.m_packet.length else 0).sum

section Sized

variable (p : TcpTxItem → Bool) (node : Node) (l l' : List Node)

@[simp] theorem sized_nil : sized p [] = 0 := rfl

@[simp] theorem sized_cons :
    sized p (node :: l) = (if p node.item then node.item.m_packet.length else 0) + sized p l := by
  simp [sized]

@[simp] theorem sized_append : sized p (l ++ l') = sized p l + sized p l' := by
  simp [sized]

theorem retransmitted_eq : retransmitted l = sized (fun item => item.m_retrans) l := rfl

theorem sized_reverse : sized p l.reverse = sized p l := by
  induction l with
  | nil => rfl
  | cons node l ih =>
    simp only [reverse_cons, sized_append, sized_cons, sized_nil, ih]
    omega

theorem sized_map (q : TcpTxItem → Bool) (f : Node → Node)
    (same : ∀ node ∈ l, p (f node).item = q node.item ∧
      (f node).item.m_packet.length = node.item.m_packet.length) :
    sized p (l.map f) = sized q l := by
  induction l with
  | nil => rfl
  | cons node l ih =>
    obtain ⟨hflag, hlength⟩ := same node (by simp)
    simp only [map_cons, sized_cons, hflag, hlength]
    rw [ih fun o ho => same o (by simp [ho])]

@[simp] theorem sized_false : sized (fun _ => false) l = 0 := by
  simp [sized]

@[simp] theorem sized_true : sized (fun _ => true) l = (bytes l).length := by
  induction l with
  | nil => rfl
  | cons node l ih => simp [ih]

theorem sized_le : sized p l ≤ (bytes l).length := by
  induction l with
  | nil => simp
  | cons node l ih =>
    simp only [sized_cons, bytes_cons, length_append]
    split_ifs <;> omega

theorem countP_sacked : (flags l).countP (fun c => c.1) = sized (fun item => item.m_sacked) l := by
  induction l with
  | nil => rfl
  | cons node l ih => simp [countP_append, countP_replicate, ih]

theorem countP_lost : (flags l).countP (fun c => c.2) = sized (fun item => item.m_lost) l := by
  induction l with
  | nil => rfl
  | cons node l ih => simp [countP_append, countP_replicate, ih]

end Sized

def Disjointly (l : List Node) : Prop :=
  ∀ node ∈ l, ¬(node.item.m_sacked = true ∧ node.item.m_lost = true)

section Disjointly

variable (node : Node) {l l' : List Node}

theorem disjointly_cons : Disjointly (node :: l) ↔
    ¬(node.item.m_sacked = true ∧ node.item.m_lost = true) ∧ Disjointly l := by
  simp only [Disjointly, forall_mem_cons]

theorem disjointly_append : Disjointly (l ++ l') ↔ Disjointly l ∧ Disjointly l' := by
  simp only [Disjointly, forall_mem_append]

theorem disjointly_iff (filled : Filled l) :
    Disjointly l ↔ ∀ c ∈ flags l, ¬(c.1 = true ∧ c.2 = true) := by
  refine ⟨fun h c hc => ?_, fun h node hnode => ?_⟩
  · obtain ⟨node, hnode, hmem⟩ := mem_flatMap.mp hc
    rw [(mem_replicate.mp hmem).2]
    exact h node hnode
  · have hpos := filled node hnode
    exact h _ (mem_flatMap.mpr ⟨node, hnode, mem_replicate.mpr ⟨by omega, rfl⟩⟩)

theorem disjointly_le (h : Disjointly l) :
    sized (fun item => item.m_sacked) l + sized (fun item => item.m_lost) l ≤ (bytes l).length := by
  induction l with
  | nil => simp
  | cons node l ih =>
    obtain ⟨hnode, hrest⟩ := (disjointly_cons node).mp h
    have hle := ih hrest
    simp only [sized_cons, bytes_cons, length_append]
    split_ifs with hsacked hlost <;> first | omega | exact absurd ⟨hsacked, hlost⟩ hnode

end Disjointly

/-- The counters are those of the flags, and no item is both sacked and lost. -/
structure Scored (b : TcpTxBuffer) : Prop where
  app : Plainly b.m_appList
  sacked : b.m_sackedOut = .ofNat (sized (fun item => item.m_sacked) b.m_sentList)
  lost : b.m_lostOut = .ofNat (sized (fun item => item.m_lost) b.m_sentList)
  retrans : b.m_retrans = .ofNat (sized (fun item => item.m_retrans) b.m_sentList)
  merged : b.mergedApart = false
  apart : Disjointly b.m_sentList

variable {b : TcpTxBuffer}

theorem scored_iff (filled : Filled b.m_sentList) :
    Scored b ↔ Board b ∧ ∀ c ∈ flags b.m_sentList, ¬(c.1 = true ∧ c.2 = true) := by
  refine ⟨fun h => ⟨⟨h.app, ?_, ?_, ?_, h.merged⟩, (disjointly_iff filled).mp h.apart⟩,
    fun h => ⟨h.1.app, ?_, ?_, ?_, h.1.merged, (disjointly_iff filled).mpr h.2⟩⟩
  · rw [countP_sacked, h.sacked]
  · rw [countP_lost, h.lost]
  · rw [retransmitted_eq, h.retrans]
  · rw [← countP_sacked, h.1.sacked]
  · rw [← countP_lost, h.1.lost]
  · rw [← retransmitted_eq, h.1.retrans]

theorem ofNat_add_sub (j k : ℕ) : UInt32.ofNat (j + k) - UInt32.ofNat j = UInt32.ofNat k := by
  rw [ofNat_sub_ofNat (Nat.le_add_right j k), Nat.add_sub_cancel_left]

/-! ## The head, and Reno's duplicate acknowledgements -/

namespace Scored

variable {b b' : TcpTxBuffer} (h : Scored b)
include h

theorem addRenoSack
    (clear : ∀ node ∈ (b.m_sentList.tail.dropWhile fun node => node.item.m_sacked).head?,
    node.item.m_lost = false) (run : b.addRenoSack = .ok b') : Scored b' := by
  unfold TcpTxBuffer.addRenoSack at run
  cases hsent : b.m_sentList with
  | nil =>
    rw [hsent] at run
    cases run
  | cons head rest =>
    rw [hsent] at run clear
    dsimp only [tail_cons] at run clear
    cases hrest : rest.dropWhile fun node => node.item.m_sacked with
    | nil =>
      rw [hrest] at run
      cases run
      exact h
    | cons node behind =>
      rw [hrest] at run clear
      obtain rfl := Except.ok.inj run
      have hunsacked : node.item.m_sacked = false := by
        have hhead := List.head?_dropWhile_not (fun node : Node => node.item.m_sacked) rest
        rw [hrest] at hhead
        simpa using hhead
      have hlost : node.item.m_lost = false := clear node rfl
      have hlist : b.m_sentList =
          head :: (rest.takeWhile fun node => node.item.m_sacked) ++ node :: behind := by
        rw [hsent, ← hrest, cons_append, takeWhile_append_dropWhile]
      obtain ⟨happ, hsacked, hlostOut, hretrans, hmerged, hapart⟩ := h
      rw [hlist] at hsacked hlostOut hretrans hapart
      refine ⟨happ, ?_, ?_, ?_, hmerged, ?_⟩
      · rw [hsacked, getSize_eq, ← ofNat_add]
        simp only [sized_append, sized_cons, hunsacked, if_true, if_false, Bool.false_eq_true]
        congr 1
        omega
      · rw [hlostOut]
        simp only [sized_append, sized_cons]
      · rw [hretrans]
        simp only [sized_append, sized_cons]
      · simp only [disjointly_append, disjointly_cons] at hapart ⊢
        exact ⟨hapart.1, fun both => by simp [hlost] at both, hapart.2.2⟩

theorem markHeadAsLost : Scored b.markHeadAsLost := by
  unfold TcpTxBuffer.markHeadAsLost
  cases hsent : b.m_sentList with
  | nil => exact h
  | cons head rest =>
    obtain ⟨happ, hsacked, hlostOut, hretrans, hmerged, hapart⟩ := h
    rw [hsent] at hsacked hlostOut hretrans hapart
    simp only [sized_cons] at hsacked hlostOut hretrans
    dsimp only
    refine ⟨happ, ?_, ?_, ?_, hmerged, ?_⟩
    · rw [hsacked, getSize_eq]
      simp only [sized_cons, if_false, Bool.false_eq_true, Nat.zero_add]
      split_ifs
      · exact ofNat_add_sub _ _
      · rw [Nat.zero_add]
    · rw [hlostOut, getSize_eq]
      simp only [sized_cons, if_true]
      split_ifs
      · rfl
      · rw [Nat.zero_add, ← ofNat_add, Nat.add_comm]
    · rw [hretrans, getSize_eq]
      simp only [sized_cons, if_false, Bool.false_eq_true, Nat.zero_add]
      split_ifs
      · exact ofNat_add_sub _ _
      · rw [Nat.zero_add]
    · rw [disjointly_cons] at hapart ⊢
      exact ⟨fun both => by simp at both, hapart.2⟩

theorem deleteRetransmittedFlagFromHead (run : b.deleteRetransmittedFlagFromHead = .ok b') :
    Scored b' := by
  unfold TcpTxBuffer.deleteRetransmittedFlagFromHead at run
  split_ifs at run
  · cases run
    exact h
  · cases hsent : b.m_sentList with
    | nil =>
      rw [hsent] at run
      cases run
    | cons head rest =>
      rw [hsent] at run
      dsimp only at run
      split_ifs at run with hflag
      · obtain rfl := Except.ok.inj run
        obtain ⟨happ, hsacked, hlostOut, hretrans, hmerged, hapart⟩ := h
        rw [hsent] at hsacked hlostOut hretrans hapart
        refine ⟨happ, hsacked, hlostOut, ?_, hmerged, ?_⟩
        · simp only [sized_cons, hflag, if_true] at hretrans
          rw [hretrans, getSize_eq, ofNat_add_sub]
          simp
        · rw [disjointly_cons] at hapart ⊢
          exact hapart
      · cases run
        exact h

theorem resetRenoSack : Scored b.resetRenoSack := by
  refine ⟨h.app, ?_, ?_, ?_, h.merged, fun node hnode => ?_⟩
  · have hnone : sized (fun item => item.m_sacked) b.resetRenoSack.m_sentList =
        sized (fun _ => false) b.m_sentList := sized_map _ _ _ _ (by simp)
    rw [hnone, sized_false]
    rfl
  · exact h.lost.trans (congrArg UInt32.ofNat (sized_map _ _ _ _ (by simp)).symm)
  · exact h.retrans.trans (congrArg UInt32.ofNat (sized_map _ _ _ _ (by simp)).symm)
  · obtain ⟨o, -, rfl⟩ := mem_map.mp hnode
    exact fun both => by simp at both

theorem setSentListLost (ok : Ok b) (resetSack : Bool) : Scored (b.setSentListLost resetSack) := by
  unfold TcpTxBuffer.setSentListLost
  split_ifs
  · refine ⟨h.app, ?_, ?_, ?_, h.merged, fun node hnode => ?_⟩
    · exact congrArg UInt32.ofNat ((sized_map _ _ (fun _ => false) _ (by simp)).trans
        (sized_false _)).symm
    · exact ok.sentSize.trans
        (congrArg UInt32.ofNat ((sized_map _ _ (fun _ => true) _ (by simp)).trans
        (sized_true _)).symm)
    · exact congrArg UInt32.ofNat ((sized_map _ _ (fun _ => false) _ (by simp)).trans
        (sized_false _)).symm
    · obtain ⟨o, -, rfl⟩ := mem_map.mp hnode
      exact fun both => by simp at both
  · have hfold : ∀ (l : List Node) (k : ℕ), l.foldl (fun lostOut node =>
          if node.item.m_lost || !node.item.m_sacked then lostOut + node.item.getSize else lostOut)
        (.ofNat k) = .ofNat (k + sized (fun item => item.m_lost || !item.m_sacked) l) := by
      intro l
      induction l with
      | nil => exact fun k => rfl
      | cons node l ih =>
        intro k
        rw [foldl_cons, sized_cons]
        split_ifs
        · rw [getSize_eq, ← ofNat_add, ih, Nat.add_assoc]
        · rw [ih, Nat.zero_add]
    refine ⟨h.app, ?_, ?_, ?_, h.merged, fun node hnode => ?_⟩
    · exact h.sacked.trans (congrArg UInt32.ofNat (sized_map _ _ _ _ (by simp)).symm)
    · refine (hfold b.m_sentList 0).trans (congrArg UInt32.ofNat ?_)
      rw [Nat.zero_add]
      exact (sized_map _ _ _ _ (by simp)).symm
    · exact congrArg UInt32.ofNat ((sized_map _ _ (fun _ => false) _ (by simp)).trans
        (sized_false _)).symm
    · obtain ⟨o, ho, rfl⟩ := mem_map.mp hnode
      have hapart := h.apart o ho
      intro both
      dsimp only at both
      rw [both.1] at hapart both
      exact hapart ⟨rfl, by simpa using both.2⟩

theorem resetSentList : Scored b.resetSentList := by
  refine ⟨fun node hnode => ?_, rfl, rfl, rfl, h.merged, fun node hnode => by cases hnode⟩
  rcases mem_append.mp hnode with hmoved | happ
  · obtain ⟨e, he, rfl⟩ := mem_map.mp hmoved
    obtain ⟨o, -, ho⟩ := mem_map.mp (fst_mem_of_mem_zipIdx he)
    rw [← ho]
    exact ⟨rfl, rfl, rfl⟩
  · exact h.app node happ

theorem resetLastSegmentSent (clear : ∀ node ∈ b.m_sentList.getLast?,
    node.item.m_sacked = false ∧ node.item.m_lost = false ∧ node.item.m_retrans = false) :
    Scored b.resetLastSegmentSent := by
  unfold TcpTxBuffer.resetLastSegmentSent
  cases hlast : b.m_sentList.getLast? with
  | none => exact h
  | some node =>
    have hsent : b.m_sentList = b.m_sentList.dropLast ++ [node] :=
      (dropLast_append_getLast? node hlast).symm
    obtain ⟨hnodeSacked, hnodeLost, hnodeRetrans⟩ := clear node hlast
    have hsized : ∀ p : TcpTxItem → Bool, p node.item = false →
        sized p b.m_sentList = sized p b.m_sentList.dropLast := by
      intro p hp
      nth_rw 1 [hsent]
      simp [hp]
    refine ⟨fun o ho => ?_, ?_, ?_, ?_, h.merged, fun o ho => h.apart o (dropLast_subset _ ho)⟩
    · rcases mem_cons.mp ho with rfl | ho
      · exact ⟨hnodeSacked, hnodeLost, hnodeRetrans⟩
      · exact h.app o ho
    · rw [h.sacked, hsized _ hnodeSacked]
    · rw [h.lost, hsized _ hnodeLost]
    · dsimp only
      rw [hnodeRetrans, h.retrans, hsized _ hnodeRetrans]
      rfl

theorem add (p : Packet) : Scored (b.add p).2 := by
  unfold TcpTxBuffer.add
  split_ifs
  · refine ⟨fun node hnode => ?_, h.sacked, h.lost, h.retrans, h.merged, h.apart⟩
    rcases mem_append.mp hnode with happ | hnew
    · exact h.app node happ
    · rw [mem_singleton.mp hnew]
      exact ⟨rfl, rfl, rfl⟩
  · exact h
  · exact h

end Scored

/-! ## Update -/

def covers (begin : SequenceNumber32) (node : Node) (block : SequenceNumber32 × SequenceNumber32) :
    Bool :=
  begin.greaterEqual block.1 && (begin.add node.item.getSize).lessEqual block.2

def reported (blocks : List (SequenceNumber32 × SequenceNumber32)) :
    (begin : SequenceNumber32) → List Node → List Bool
  | _, [] => []
  | begin, node :: rest =>
    (node.item.m_sacked || blocks.any (covers begin node)) ::
      reported blocks (begin.add node.item.getSize) rest

/-- The counters follow the flags. -/
structure Follows (l l' : List Node) (s s' : TcpTxBuffer.Scan) : Prop where
  sacked : s'.sackedOut + .ofNat (sized (fun item => item.m_sacked) l) =
    s.sackedOut + .ofNat (sized (fun item => item.m_sacked) l')
  lost : s'.lostOut + .ofNat (sized (fun item => item.m_lost) l) =
    s.lostOut + .ofNat (sized (fun item => item.m_lost) l')
  retrans : sized (fun item => item.m_retrans) l' = sized (fun item => item.m_retrans) l
  apart : Disjointly l → Disjointly l'

namespace Follows

variable {node node' : Node} {l l' l'' : List Node} {s s' s'' : TcpTxBuffer.Scan}

theorem refl : Follows l l s s := ⟨rfl, rfl, rfl, id⟩

theorem trans (h : Follows l l' s s') (h' : Follows l' l'' s' s'') : Follows l l'' s s'' := by
  have hsacked := h.sacked
  have hsacked' := h'.sacked
  have hlost := h.lost
  have hlost' := h'.lost
  refine ⟨by grind, by grind, h'.retrans.trans h.retrans, fun hl => h'.apart (h.apart hl)⟩

theorem cons (h : Follows [node] [node'] s s') (h' : Follows l l' s' s'') :
    Follows (node :: l) (node' :: l') s s'' := by
  obtain ⟨hsacked, hlost, hretrans, hapart⟩ := h
  obtain ⟨hsacked', hlost', hretrans', hapart'⟩ := h'
  simp only [sized_cons, sized_nil, Nat.add_zero] at hsacked hlost hretrans
  refine ⟨?_, ?_, ?_, fun hl => ?_⟩
  · simp only [sized_cons, ofNat_add]
    grind
  · simp only [sized_cons, ofNat_add]
    grind
  · simp only [sized_cons, hretrans, hretrans']
  · rw [disjointly_cons] at hl ⊢
    have hnode := hapart ((disjointly_cons node).mpr ⟨hl.1, fun o ho => by cases ho⟩)
    exact ⟨((disjointly_cons node').mp hnode).1, hapart' hl.2⟩

end Follows

theorem sackItem_follows (node : Node) (begin : SequenceNumber32) (s : TcpTxBuffer.Scan) :
    Follows [node] [(sackItem node begin s).1] s (sackItem node begin s).2 := by
  unfold sackItem
  by_cases hsacked : node.item.m_sacked
  · rw [if_pos hsacked]
    exact ⟨rfl, rfl, rfl, id⟩
  · rw [if_neg hsacked]
    refine ⟨?_, ?_, rfl, fun _ => ?_⟩
    · simp [hsacked, getSize_eq]
    · by_cases hlost : node.item.m_lost
      · simp [hlost, getSize_eq]
      · simp [hlost]
    · simp [Disjointly]

theorem sackBlock_follows (block : SequenceNumber32 × SequenceNumber32) (l : List Node)
    (begin : SequenceNumber32) (s : TcpTxBuffer.Scan) :
    Follows l (sackBlock block l begin s).1 s (sackBlock block l begin s).2 := by
  induction l generalizing begin s with
  | nil => exact .refl
  | cons node rest ih =>
    unfold sackBlock
    dsimp only
    split_ifs
    · exact (sackItem_follows node begin s).cons (ih _ _)
    · exact .refl
    · exact Follows.refl.cons (ih _ _)

theorem sackBlocks_follows (first endOfSent : SequenceNumber32)
    (blocks : List (SequenceNumber32 × SequenceNumber32)) (l : List Node) (s : TcpTxBuffer.Scan) :
    ∀ r ∈ sackBlocks first endOfSent blocks l s, Follows l r.1 s r.2 := by
  induction blocks generalizing l s with
  | nil =>
    intro r hr
    obtain rfl := Option.some.inj hr
    exact .refl
  | cons block blocks ih =>
    intro r hr
    unfold sackBlocks at hr
    dsimp only at hr
    split_ifs at hr
    · cases hr
    · exact (sackBlock_follows block l first s).trans (ih _ _ r hr)

theorem sackBlock_reported (block : SequenceNumber32 × SequenceNumber32)
    (blocks : List (SequenceNumber32 × SequenceNumber32)) (l : List Node) (begin : SequenceNumber32)
    (s : TcpTxBuffer.Scan) :
    List.Forall₂ (fun r r' : Bool => r = true → r' = true)
      (reported blocks begin (sackBlock block l begin s).1)
      (reported (block :: blocks) begin l) := by
  have hsame : ∀ (l : List Node) (begin : SequenceNumber32),
      List.Forall₂ (fun r r' : Bool => r = true → r' = true) (reported blocks begin l)
        (reported (block :: blocks) begin l) := by
    intro l
    induction l with
    | nil => exact fun _ => .nil
    | cons node rest ih =>
      refine fun begin => .cons (fun h => ?_) (ih _)
      simp only [any_cons, Bool.or_eq_true] at h ⊢
      exact h.imp_right Or.inr
  induction l generalizing begin s with
  | nil => exact .nil
  | cons node rest ih =>
    unfold sackBlock
    dsimp only
    split_ifs with hcovers
    · have hsize := getSize_eq (sackItem node begin s).1.item
      rw [(sackItem_packet node begin s).1, ← getSize_eq] at hsize
      simp only [reported, hsize]
      refine .cons (fun _ => ?_) (ih _ _)
      have hcovers' : covers begin node block = true := hcovers
      simp [hcovers']
    · exact hsame _ _
    · refine .cons (fun h => ?_) (ih _ _)
      simp only [any_cons, Bool.or_eq_true] at h ⊢
      exact h.imp_right Or.inr

theorem sacked_trans {l : List Node} {rs rs' : List Bool}
    (h : List.Forall₂ (fun node (r : Bool) => node.item.m_sacked = true → r = true) l rs)
    (h' : List.Forall₂ (fun r r' : Bool => r = true → r' = true) rs rs') :
    List.Forall₂ (fun node (r : Bool) => node.item.m_sacked = true → r = true) l rs' := by
  induction h generalizing rs' with
  | nil =>
    cases h'
    exact .nil
  | cons himp _ ih =>
    cases h' with
    | cons himp' hrest => exact .cons (fun hsacked => himp' (himp hsacked)) (ih hrest)

theorem sackBlocks_reported (first endOfSent : SequenceNumber32)
    (blocks : List (SequenceNumber32 × SequenceNumber32)) (l : List Node) (s : TcpTxBuffer.Scan) :
    ∀ r ∈ sackBlocks first endOfSent blocks l s,
      List.Forall₂ (fun node (r : Bool) => node.item.m_sacked = true → r = true) r.1
        (reported blocks first l) := by
  induction blocks generalizing l s with
  | nil =>
    intro r hr
    obtain rfl := Option.some.inj hr
    have hrefl : ∀ (l : List Node) (begin : SequenceNumber32),
        List.Forall₂ (fun node (r : Bool) => node.item.m_sacked = true → r = true) l
          (reported [] begin l) := by
      intro l
      induction l with
      | nil => exact fun _ => .nil
      | cons node rest ih => exact fun begin => .cons (fun h => by simp [h]) (ih _)
    exact hrefl l first
  | cons block blocks ih =>
    intro r hr
    unfold sackBlocks at hr
    dsimp only at hr
    split_ifs at hr
    · cases hr
    · have hlater := ih _ _ r hr
      have hfirst := sackBlock_reported block blocks l first s
      exact sacked_trans hlater hfirst

theorem countP_le_of_forall₂ {l : List Node} {rs : List Bool}
    (h : List.Forall₂ (fun node (r : Bool) => node.item.m_sacked = true → r = true) l rs) :
    l.countP (fun node => node.item.m_sacked) ≤ rs.countP id := by
  induction h with
  | nil => exact Nat.le_refl _
  | @cons node r _ _ himp _ ih =>
    rw [countP_cons, countP_cons]
    by_cases hsacked : node.item.m_sacked
    · have hr : r = true := himp hsacked
      simp only [hsacked, hr, if_true, id]
      omega
    · rw [if_neg hsacked]
      omega

theorem markLost_count (dupAckThresh : UInt32) (l : List Node) (sacked lostOut : UInt32) :
    (markLost dupAckThresh l sacked lostOut).2.1 =
      sacked + .ofNat (l.countP fun node => node.item.m_sacked) := by
  induction l generalizing sacked lostOut with
  | nil => exact (UInt32.add_zero sacked).symm
  | cons node rest ih =>
    have hcount : UInt32.ofNat ((node :: rest).countP fun node => node.item.m_sacked) =
        UInt32.ofNat (rest.countP fun node => node.item.m_sacked) +
          if node.item.m_sacked then 1 else 0 := by
      rw [countP_cons, ofNat_add]
      split_ifs <;> rfl
    unfold markLost
    dsimp only
    rw [hcount]
    split_ifs <;>
    · dsimp only
      rw [ih]
      grind

theorem markLost_follows (dupAckThresh : UInt32) (l : List Node) (sacked : UInt32)
    (s : TcpTxBuffer.Scan) :
    Follows l (markLost dupAckThresh l sacked s.lostOut).1 s
      { s with lostOut := (markLost dupAckThresh l sacked s.lostOut).2.2 } := by
  induction l generalizing sacked s with
  | nil => exact .refl
  | cons node rest ih =>
    unfold markLost
    dsimp only
    split_ifs with _ hmarks hmarks
    · simp_all
    · exact Follows.refl.cons (ih _ s)
    · refine Follows.cons ⟨?_, ?_, rfl, fun _ => ?_⟩
        (ih _ { s with lostOut := s.lostOut + node.item.getSize })
      · rfl
      · simp_all [getSize_eq]
      · simp_all [Disjointly]
    · exact Follows.refl.cons (ih _ s)

namespace Follows

variable {l l' m : List Node} {s s' : TcpTxBuffer.Scan}

theorem reverse (h : Follows l.reverse l' s s') : Follows l l'.reverse s s' := by
  obtain ⟨hsacked, hlost, hretrans, hapart⟩ := h
  rw [sized_reverse] at hsacked hlost hretrans
  refine ⟨?_, ?_, ?_, fun hl node hnode => ?_⟩
  · rw [sized_reverse, hsacked]
  · rw [sized_reverse, hlost]
  · rw [sized_reverse, hretrans]
  · exact hapart (fun o ho => hl o (mem_reverse.mp ho)) node (mem_reverse.mp hnode)

theorem append (h : Follows l l' s s') : Follows (l ++ m) (l' ++ m) s s' := by
  obtain ⟨hsacked, hlost, hretrans, hapart⟩ := h
  refine ⟨?_, ?_, ?_, fun hl => ?_⟩
  · simp only [sized_append, ofNat_add]
    grind
  · simp only [sized_append, ofNat_add]
    grind
  · simp only [sized_append, hretrans]
  · rw [disjointly_append] at hl ⊢
    exact ⟨hapart hl.1, hl.2⟩

theorem scored {b b' : TcpTxBuffer} {highestSack : Option ℕ × SequenceNumber32} {modified : Bool}
    (h : Follows b.m_sentList b'.m_sentList ⟨b.m_sackedOut, b.m_lostOut, highestSack, modified⟩ s')
    (scored : Scored b) (app : b'.m_appList = b.m_appList) (sacked : b'.m_sackedOut = s'.sackedOut)
    (lost : b'.m_lostOut = s'.lostOut) (retrans : b'.m_retrans = b.m_retrans)
    (merged : b'.mergedApart = b.mergedApart) : Scored b' := by
  obtain ⟨hsacked, hlost, hretrans, hapart⟩ := h
  obtain ⟨happ, hsackedOut, hlostOut, hretransOut, hmerged, hdisjoint⟩ := scored
  dsimp only at hsacked hlost
  refine ⟨app ▸ happ, ?_, ?_, ?_, merged.trans hmerged, hapart hdisjoint⟩
  · rw [sacked]
    grind
  · rw [lost]
    grind
  · rw [retrans, hretransOut, hretrans]

end Follows

variable {b' : TcpTxBuffer}

theorem Scored.updateLostCount (h : Scored b)
    (spared : ∀ head rest, b.m_sentList = head :: rest → head.item.m_sacked = true →
      (rest.countP fun node => node.item.m_sacked) < b.m_dupAckThresh.toNat)
    (run : b.updateLostCount = .ok b') : Scored b' := by
  unfold TcpTxBuffer.updateLostCount at run
  cases hsent : b.m_sentList with
  | nil =>
    rw [hsent] at run
    cases hhighest : b.m_highestSack.1 with
    | none =>
      rw [hhighest] at run
      dsimp only at run
      split_ifs at run
      cases run
      exact h
    | some number =>
      rw [hhighest] at run
      cases run
  | cons head rest =>
    rw [hsent] at run
    cases hhighest : b.m_highestSack.1 with
    | none =>
      rw [hhighest] at run
      cases run
    | some number =>
      rw [hhighest] at run
      dsimp only at run
      by_cases hfound : (head.number = number || rest.any fun node => node.number = number) = true
      swap
      · rw [if_neg hfound] at run
        cases run
      rw [if_pos hfound] at run
      obtain ⟨walked, hwalked⟩ : ∃ walked, walked =
        rest.take ((rest.findIdx? fun node => node.number = number).elim 0 (· + 1)) := ⟨_, rfl⟩
      rw [← hwalked] at run
      have hprefix : walked <+: rest := hwalked ▸ take_prefix _ _
      have hsplit : walked ++ rest.drop walked.length = rest := by
        obtain ⟨behind, hbehind⟩ := hprefix
        rw [← hbehind, drop_left]
      obtain ⟨s, hs⟩ : ∃ s : TcpTxBuffer.Scan, s =
        ⟨b.m_sackedOut, b.m_lostOut, b.m_highestSack, false⟩ := ⟨_, rfl⟩
      have hlostOut : s.lostOut = b.m_lostOut := by rw [hs]
      have hwalk := markLost_follows b.m_dupAckThresh walked.reverse 0 s
      have hcount := markLost_count b.m_dupAckThresh walked.reverse 0 b.m_lostOut
      rw [hlostOut] at hwalk
      generalize markLost b.m_dupAckThresh walked.reverse 0 b.m_lostOut = r at hwalk hcount run
      have hbehind := hwalk.reverse.append (m := rest.drop walked.length)
      rw [hsplit] at hbehind
      obtain rfl := Except.ok.inj run
      split_ifs with hmarks
      · have hunsacked : head.item.m_sacked = false := by
          by_contra hsacked
          have hfew := spared head rest hsent (by simpa using hsacked)
          rw [Bool.and_eq_true, decide_eq_true_eq, hcount, UInt32.zero_add, countP_reverse,
            ge_iff_le, le_iff_toNat_le, toNat_ofNat'] at hmarks
          have hle := hprefix.sublist.countP_le (p := fun node => node.item.m_sacked)
          have hmod := Nat.mod_le (walked.countP fun node => node.item.m_sacked) (2 ^ 32)
          omega
        have hlost : head.item.m_lost = false := by
          rw [Bool.and_eq_true] at hmarks
          simpa using hmarks.2
        have hhead : Follows [head] [{ head with item := { head.item with m_lost := true } }]
            { s with lostOut := r.2.2 } { s with lostOut := r.2.2 + head.item.getSize } := by
          refine ⟨rfl, ?_, rfl, fun _ => ?_⟩
          · simp [hlost, getSize_eq]
          · simp [Disjointly, hunsacked]
        have hall := (Follows.refl.cons hbehind).trans
          (hhead.append (m := r.1.reverse ++ rest.drop walked.length))
        rw [hs, ← hsent] at hall
        exact Follows.scored hall h rfl rfl rfl rfl rfl
      · have hall := (Follows.refl (l := [head])).cons hbehind
        rw [hs, ← hsent] at hall
        exact Follows.scored hall h rfl rfl rfl rfl rfl

/-- If the first item is sacked or a block covers it, too few items behind it are for it to be
marked as lost. -/
def HeadSpared (b : TcpTxBuffer) (list : List (SequenceNumber32 × SequenceNumber32)) : Prop :=
  ∀ head ∈ (reported list b.m_firstByteSeq b.m_sentList).head?, head = true →
    (reported list b.m_firstByteSeq b.m_sentList).tail.countP id < b.m_dupAckThresh.toNat
deriving Decidable

theorem Scored.update (h : Scored b)
    {list : List (SequenceNumber32 × SequenceNumber32)} {modified : Bool}
    (spared : HeadSpared b list) (run : b.update list = .ok (modified, b')) : Scored b' := by
  unfold TcpTxBuffer.update at run
  have hfollows := sackBlocks_follows b.m_firstByteSeq (b.m_firstByteSeq.add b.m_sentSize) list
    b.m_sentList ⟨b.m_sackedOut, b.m_lostOut, b.m_highestSack, false⟩
  have hreported := sackBlocks_reported b.m_firstByteSeq (b.m_firstByteSeq.add b.m_sentSize) list
    b.m_sentList ⟨b.m_sackedOut, b.m_lostOut, b.m_highestSack, false⟩
  cases hblocks : sackBlocks b.m_firstByteSeq (b.m_firstByteSeq.add b.m_sentSize) list
      b.m_sentList ⟨b.m_sackedOut, b.m_lostOut, b.m_highestSack, false⟩ with
  | none =>
    rw [hblocks] at run
    cases run
    exact h
  | some r =>
    rw [hblocks] at run
    dsimp only at run
    obtain ⟨marked, hmarked⟩ : ∃ marked : TcpTxBuffer, marked = { b with
      m_sentList := r.1
      m_sackedOut := r.2.sackedOut
      m_lostOut := r.2.lostOut
      m_highestSack := r.2.highestSack } := ⟨_, rfl⟩
    rw [← hmarked] at run
    have hscored : Scored marked := by
      rw [hmarked]
      exact (hfollows r hblocks).scored h rfl rfl rfl rfl rfl
    split_ifs at run
    · cases hcount : marked.updateLostCount with
      | error e =>
        rw [hcount] at run
        cases run
      | ok b'' =>
        rw [hcount] at run
        cases run
        refine hscored.updateLostCount (fun head rest hsent hsacked => ?_) hcount
        have hall := hreported r hblocks
        have hlist : r.1 = head :: rest := by
          rw [← hsent, hmarked]
        have hthresh : marked.m_dupAckThresh = b.m_dupAckThresh := by rw [hmarked]
        rw [hlist] at hall
        rw [hthresh]
        rw [HeadSpared] at spared
        cases hreports : reported list b.m_firstByteSeq b.m_sentList with
        | nil =>
          rw [hreports] at hall
          cases hall
        | cons head' rest' =>
          rw [hreports] at hall spared
          cases hall with
          | cons himp hrest =>
            have hfew := spared head' rfl (himp hsacked)
            exact (countP_le_of_forall₂ hrest).trans_lt hfew
    · cases run
      exact hscored

/-! ## DiscardUpTo -/

/-- If the first byte is sacked, the flag can move to the first one that is not: it is not lost. -/
def HandsOver (colors : List (Bool × Bool)) : Prop :=
  ∀ c ∈ colors.head?, c.1 = true → ∀ c' ∈ (colors.dropWhile fun c => c.1).head?, c'.2 = false
deriving Decidable

theorem HandsOver.append {colors : List (Bool × Bool)} (h : HandsOver colors) (j : ℕ) :
    HandsOver (colors ++ replicate j (false, false)) := by
  have hplain : ∀ c ∈ (replicate j (false, false)).head?, c = (false, false) := fun c hc =>
    (mem_replicate.mp (mem_of_mem_head? hc)).2
  intro c hc hsacked c' hc'
  cases colors with
  | nil =>
    rw [hplain c hc] at hsacked
    cases hsacked
  | cons first rest =>
    have hfirst := h c (by simpa using hc) hsacked
    rw [dropWhile_append] at hc'
    split_ifs at hc' with hnone
    · cases j with
      | zero => cases hc'
      | succ j =>
        rw [replicate_succ, dropWhile_cons_of_neg (by simp)] at hc'
        obtain rfl := Option.some.inj hc'
        rfl
    · refine hfirst c' ?_
      rwa [List.head?_append_of_ne_nil _ (by simpa using hnone)] at hc'

theorem dropWhile_flags {l : List Node} (filled : Filled l) :
    (flags l).dropWhile (fun c => c.1) = flags (l.dropWhile fun node => node.item.m_sacked) := by
  induction l with
  | nil => rfl
  | cons node l ih =>
    rw [filled_cons] at filled
    obtain ⟨k, hk⟩ := Nat.exists_eq_add_of_lt filled.1
    by_cases hsacked : node.item.m_sacked
    · rw [flags_cons, dropWhile_append_of_pos,
        dropWhile_cons_of_pos (p := fun node : Node => node.item.m_sacked) hsacked, ih filled.2]
      intro c hc
      rw [(mem_replicate.mp hc).2]
      exact hsacked
    · rw [dropWhile_cons_of_neg (p := fun node : Node => node.item.m_sacked) hsacked, flags_cons,
        hk, replicate_succ, cons_append, dropWhile_cons_of_neg (by simpa using hsacked)]

theorem Scored.unsackHead (h : Scored b) (filled : Filled b.m_sentList)
    (clear : HandsOver (flags b.m_sentList)) (run : b.unsackHead = .ok b') : Scored b' := by
  unfold TcpTxBuffer.unsackHead at run
  cases hsent : b.m_sentList with
  | nil =>
    rw [hsent] at run
    cases run
    exact h
  | cons head rest =>
    rw [hsent] at run
    dsimp only at run
    split_ifs at run with hsacked
    · rw [hsent, filled_cons] at filled
      obtain ⟨cleared, hcleared⟩ : ∃ cleared : TcpTxBuffer, cleared = { b with
          m_sentList := { head with item := { head.item with m_sacked := false } } :: rest
          m_sackedOut := b.m_sackedOut - head.item.getSize } := ⟨_, rfl⟩
      rw [← hcleared] at run
      have hscored : Scored cleared := by
        obtain ⟨happ, hsackedOut, hlostOut, hretrans, hmerged, hapart⟩ := h
        rw [hsent] at hsackedOut hlostOut hretrans hapart
        rw [hcleared]
        refine ⟨happ, ?_, hlostOut, hretrans, hmerged, ?_⟩
        · simp only [sized_cons, hsacked, if_true] at hsackedOut
          simp only [sized_cons, hsackedOut, getSize_eq, ofNat_add_sub, if_false,
            Bool.false_eq_true, Nat.zero_add]
        · rw [disjointly_cons] at hapart ⊢
          exact ⟨fun both => by simp at both, hapart.2⟩
      cases hreno : cleared.addRenoSack with
      | error e =>
        rw [hreno] at run
        cases run
      | ok marked =>
        rw [hreno] at run
        cases run
        refine (hscored.addRenoSack (fun node hnode => ?_) hreno).markHeadAsLost
        obtain ⟨k, hk⟩ := Nat.exists_eq_add_of_lt filled.1
        have hfirst : (true, head.item.m_lost) ∈ (flags b.m_sentList).head? := by
          rw [hsent, flags_cons, hk, hsacked, replicate_succ]
          rfl
        have hrest : (node.item.m_sacked, node.item.m_lost) ∈
            ((flags b.m_sentList).dropWhile fun c => c.1).head? := by
          rw [hsent, dropWhile_flags ((filled_cons _ _).mpr filled),
            dropWhile_cons_of_pos (p := fun node : Node => node.item.m_sacked) hsacked]
          rw [hcleared] at hnode
          dsimp only [tail_cons] at hnode
          obtain ⟨behind, hbehind⟩ := List.head?_eq_some_iff.mp hnode
          have hmem : node ∈ rest := by
            refine (dropWhile_suffix fun node : Node => node.item.m_sacked).mem ?_
            rw [hbehind]
            simp
          obtain ⟨j, hj⟩ := Nat.exists_eq_add_of_lt (filled.2 node hmem)
          rw [hbehind, flags_cons, hj, replicate_succ]
          rfl
        exact clear _ hfirst rfl _ hrest
    · cases run
      exact h

theorem Scored.discardUpTo (h : Scored b) (ok : Ok b) {now : ℤ} {seq : SequenceNumber32}
    (clear : b.m_firstByteSeq.greaterEqual seq = true ∨
      HandsOver ((flags b.m_sentList).drop (b.placeOf seq)))
    (run : b.discardUpTo now seq = .ok b') : Scored b' := by
  unfold TcpTxBuffer.discardUpTo at run
  split_ifs at run with ahead
  · cases run
    exact h
  · have hclear := clear.resolve_left ahead
    have henough : b.m_sentList.length + 2 < b.m_sentList.length + 3 := by omega
    obtain ⟨b₁, hloop, hdiscarded⟩ := discardLoop_spec ok (k := b.placeOf seq) (toNat_lt _) now
      henough
    have hoffset : .ofNat (b.placeOf seq) = seq.sub b.m_firstByteSeq := by
      rw [placeOf, UInt32.ofNat_toNat]
    rw [hoffset] at hloop
    rw [hloop] at run
    simp only [bind, Except.bind] at run
    obtain ⟨hboard, hdisjoint⟩ := (scored_iff ok.sent).mp h
    obtain ⟨hboard₁, j, hflags⟩ := hdiscarded.board hboard
    have hscored₁ : Scored b₁ := by
      refine (scored_iff hdiscarded.ok.sent).mpr ⟨hboard₁, fun c hc => ?_⟩
      rw [hflags] at hc
      rcases mem_append.mp (mem_of_mem_drop hc) with hc | hc
      · exact hdisjoint c hc
      · rw [(mem_replicate.mp hc).2]
        simp
    have hclear₁ : HandsOver (flags b₁.m_sentList) := by
      rw [hflags, drop_append, drop_replicate]
      exact hclear.append _
    obtain ⟨b₂, hb₂⟩ : ∃ b₂, b₂ = if b₁.m_size = 0 then { b₁ with m_firstByteSeq := seq } else b₁ :=
      ⟨_, rfl⟩
    have hsent₂ : b₂.m_sentList = b₁.m_sentList := by
      rw [hb₂]
      split_ifs <;> rfl
    have hscored₂ : Scored b₂ := by
      obtain ⟨happ, hsacked, hlost, hretrans, hmerged, hapart⟩ := hscored₁
      rw [hb₂]
      split_ifs <;> exact ⟨happ, hsacked, hlost, hretrans, hmerged, hapart⟩
    rw [← hb₂] at run
    cases hunsack : b₂.unsackHead with
    | error e =>
      rw [hunsack] at run
      cases run
    | ok b₃ =>
      rw [hunsack] at run
      obtain rfl := Except.ok.inj run
      obtain ⟨happ, hsacked, hlost, hretrans, hmerged, hapart⟩ :=
        hscored₂.unsackHead (hsent₂ ▸ hdiscarded.ok.sent) (hsent₂ ▸ hclear₁) hunsack
      split_ifs <;> exact ⟨happ, hsacked, hlost, hretrans, hmerged, hapart⟩

/-- How many bytes of the sent list a request from place `k` on takes together. -/
def together (b : TcpTxBuffer) (numBytes : UInt32) (seq : SequenceNumber32) : ℕ :=
  (segmentSize (.ofNat (min numBytes.toNat ((bytes b.m_sentList).length - b.placeOf seq)))
    seq b.m_sentList).toNat

theorem Scored.copied (h : Scored b) (ok : Ok b) {numBytes : UInt32} {seq : SequenceNumber32}
    {p : Packet} (uniform : Uniform (flags b.m_sentList) (b.placeOf seq) (together b numBytes seq))
    (copied : Copied b numBytes (b.placeOf seq) p b') : Scored b' := by
  obtain ⟨hboard, hdisjoint⟩ := (scored_iff ok.sent).mp h
  cases copied with
  | nothing => exact h
  | @resent _ m inside size pos le served =>
    rw [add_placeOf] at size
    have hsize : m = together b numBytes seq := size
    rw [← hsize] at uniform
    obtain ⟨hflags, hmerged⟩ := served.uniform uniform
    have hshort := ok.short
    have hsizes := b.length_data
    have hretrans : b'.m_retrans = .ofNat (retransmitted b'.m_sentList) := by
      have hcounted := served.counted
      rw [hboard.retrans, toNat_ofNat'] at hcounted
      rw [← UInt32.toNat_inj, toNat_ofNat']
      have hlt := b'.m_retrans.toNat_lt
      omega
    refine (scored_iff served.filled).mpr ⟨⟨?_, ?_, ?_, hretrans, hmerged.trans hboard.merged⟩, ?_⟩
    · rw [served.app]
      exact hboard.app
    · rw [served.frame.sackedOut, hflags, hboard.sacked]
    · rw [served.frame.lostOut, hflags, hboard.lost]
    · rw [hflags]
      exact hdisjoint
  | sent behind size pos served =>
    obtain ⟨happ, hflags, hretrans, hcount, hmerged⟩ := served.plainly hboard.app
    have hdiscarded := (served.discarded ok (by omega)).board hboard
    refine (scored_iff served.filled).mpr ⟨hdiscarded.1, fun c hc => ?_⟩
    rw [hflags] at hc
    rcases mem_append.mp hc with hc | hc
    · exact hdisjoint c hc
    · rw [(mem_replicate.mp hc).2]
      simp

/-! ## Runs -/

/-- What `ConsistencyCheck` verifies and more: no item is both sacked and lost, and what is in
flight does not underflow. -/
structure Consistent (b : TcpTxBuffer) : Prop where
  sacked : b.m_sackedOut.toNat = sized (fun item => item.m_sacked) b.m_sentList
  lost : b.m_lostOut.toNat = sized (fun item => item.m_lost) b.m_sentList
  retrans : b.m_retrans.toNat = sized (fun item => item.m_retrans) b.m_sentList
  apart : ∀ node ∈ b.m_sentList, ¬(node.item.m_sacked = true ∧ node.item.m_lost = true)
  bounded : b.m_sackedOut.toNat + b.m_lostOut.toNat ≤ b.m_sentSize.toNat
  inFlight : b.bytesInFlight.toNat =
    b.m_sentSize.toNat - (b.m_sackedOut.toNat + b.m_lostOut.toNat) + b.m_retrans.toNat
  merged : b.mergedApart = false

theorem Scored.consistent (h : Scored b) (ok : Ok b) : Consistent b := by
  have hshort := ok.short
  have hsizes := b.length_data
  have hle := disjointly_le h.apart
  have hretransLe := sized_le (fun item => item.m_retrans) b.m_sentList
  have hsacked : b.m_sackedOut.toNat = sized (fun item => item.m_sacked) b.m_sentList := by
    rw [h.sacked, RxBuffer.toNat_ofNat (by omega)]
  have hlost : b.m_lostOut.toNat = sized (fun item => item.m_lost) b.m_sentList := by
    rw [h.lost, RxBuffer.toNat_ofNat (by omega)]
  have hretrans : b.m_retrans.toNat = sized (fun item => item.m_retrans) b.m_sentList := by
    rw [h.retrans, RxBuffer.toNat_ofNat (by omega)]
  have hsentSize : b.m_sentSize.toNat = (bytes b.m_sentList).length := by
    rw [ok.sentSize, RxBuffer.toNat_ofNat (by omega)]
  refine ⟨hsacked, hlost, hretrans, h.apart, by omega, ?_, h.merged⟩
  rw [bytesInFlight, UInt32.toNat_add, UInt32.toNat_sub, UInt32.toNat_add]
  omega

def Careful (b : TcpTxBuffer) : Op → Prop
  | .copyFromSequence _ numBytes seq =>
    Uniform (flags b.m_sentList) (b.placeOf seq) (together b numBytes seq)
  | .discardUpTo _ seq => b.m_firstByteSeq.greaterEqual seq = true ∨
    HandsOver ((flags b.m_sentList).drop (b.placeOf seq))
  | .update list => HeadSpared b list
  | .addRenoSack => ∀ node ∈ (b.m_sentList.tail.dropWhile fun node => node.item.m_sacked).head?,
    node.item.m_lost = false
  | .resetLastSegmentSent => ∀ node ∈ b.m_sentList.getLast?,
    node.item.m_sacked = false ∧ node.item.m_lost = false ∧ node.item.m_retrans = false
  | _ => True

instance (b : TcpTxBuffer) (op : Op) : Decidable (Careful b op) :=
  match op with
  | .copyFromSequence .. | .discardUpTo .. | .update .. | .addRenoSack | .resetLastSegmentSent
  | .add _ | .resetRenoSack | .markHeadAsLost | .setSentListLost _ | .resetSentList
  | .deleteRetransmittedFlagFromHead => by unfold Careful; infer_instance

theorem Scored.step {s s' : Session} (h : Scored s.buffer) (queued : Queued s) {op : Op}
    (sane : Sane s.buffer op) (careful : Careful s.buffer op) (run : step s op = .ok s') :
    Scored s'.buffer := by
  have hok := queued.ok
  cases op with
  | add p =>
    cases run
    exact h.add p
  | copyFromSequence now numBytes seq =>
    obtain ⟨⟨p, b'⟩, hrun, rfl⟩ := map_ok_inv run
    obtain ⟨hinside, hwrap⟩ := sane
    have hsentSize : s.buffer.m_sentSize.toNat = (bytes s.buffer.m_sentList).length := by
      have hshort := hok.short
      have hsizes := s.buffer.length_data
      rw [hok.sentSize, RxBuffer.toNat_ofNat (by omega)]
    rw [hsentSize] at hinside
    obtain ⟨p', b'', hrun', hcopied⟩ := copyFromSequence_spec hok hinside hwrap now
    rw [add_placeOf, hrun] at hrun'
    cases hrun'
    exact h.copied hok careful hcopied
  | discardUpTo now seq =>
    obtain ⟨b', hrun, rfl⟩ := map_ok_inv run
    exact h.discardUpTo hok careful hrun
  | update list =>
    obtain ⟨⟨modified, b'⟩, hrun, rfl⟩ := map_ok_inv run
    exact h.update careful hrun
  | addRenoSack =>
    obtain ⟨b', hrun, rfl⟩ := map_ok_inv run
    exact h.addRenoSack careful hrun
  | resetRenoSack =>
    cases run
    exact h.resetRenoSack
  | markHeadAsLost =>
    cases run
    exact h.markHeadAsLost
  | setSentListLost resetSack =>
    cases run
    exact h.setSentListLost hok resetSack
  | resetSentList =>
    cases run
    exact h.resetSentList
  | resetLastSegmentSent =>
    cases run
    exact h.resetLastSegmentSent careful
  | deleteRetransmittedFlagFromHead =>
    obtain ⟨b', hrun, rfl⟩ := map_ok_inv run
    exact h.deleteRetransmittedFlagFromHead hrun

theorem start_scored (n maxBuffer dupAckThresh : UInt32) :
    Scored (start n maxBuffer dupAckThresh).buffer :=
  ⟨by simp [start, initial, Plainly], rfl, rfl, rfl, rfl, by simp [start, initial, Disjointly]⟩

/-- As long as every call is made with care, the counters are those of the flags. -/
theorem txBuffer_consistent (n maxBuffer dupAckThresh : UInt32) (ops : List Op)
    (careful : Along step (fun s op => Sane s.buffer op ∧ Careful s.buffer op)
      (start n maxBuffer dupAckThresh) ops) :
    Ensures (exec step (start n maxBuffer dupAckThresh) ops) (fun s => Consistent s.buffer)
      (fun _ => False) := by
  have keep : ∀ s op, Queued s ∧ Scored s.buffer → Sane s.buffer op ∧ Careful s.buffer op →
      Ensures (step s op) (fun s' => Queued s' ∧ Scored s'.buffer) (fun _ => False) := by
    intro s op hs hop
    refine ((hs.1.step op hop.1).and_ok fun s' run => ?_).weaken fun s' hs' => ⟨hs'.1.1, hs'.2⟩
    exact hs.2.step hs.1 hop.1 hop.2 run
  exact (ensures_exec keep
    ⟨start_queued n maxBuffer dupAckThresh, start_scored n maxBuffer dupAckThresh⟩
    careful).weaken fun s hs => hs.2.consistent hs.1.ok

/-- Three of five items are reported, what is lost is sent again, and a part of it is
acknowledged. -/
theorem txBuffer_consistent_recovery : Ensures (exec step (start 4294967286 100 3)
      [.add [0, 1, 2, 3], .add [4, 5, 6, 7], .add [8, 9], .add [10, 11], .add [12, 13, 14, 15],
        .copyFromSequence 0 4 ⟨4294967286⟩, .copyFromSequence 1 4 ⟨4294967290⟩,
        .copyFromSequence 2 2 ⟨4294967294⟩, .copyFromSequence 3 2 ⟨0⟩, .copyFromSequence 4 4 ⟨2⟩,
        .update [(⟨4294967294⟩, ⟨6⟩)], .copyFromSequence 5 8 ⟨4294967286⟩,
        .deleteRetransmittedFlagFromHead, .discardUpTo 6 ⟨4294967289⟩, .markHeadAsLost,
        .setSentListLost false, .resetRenoSack, .setSentListLost true, .discardUpTo 7 ⟨3⟩,
        .resetSentList, .copyFromSequence 8 2 ⟨3⟩, .copyFromSequence 9 1 ⟨5⟩, .addRenoSack,
        .discardUpTo 10 ⟨5⟩, .resetRenoSack, .resetSentList, .copyFromSequence 11 8 ⟨5⟩,
        .resetLastSegmentSent]) (fun s => Consistent s.buffer) (fun _ => False) :=
  txBuffer_consistent 4294967286 100 3 _ (by decide +kernel)

/-- A duplicate acknowledgement sacks an item that is lost. -/
theorem addRenoSack_sacks_lost : ¬Ensures (exec step (start 1 100 3)
      [.add [0], .add [1], .add [2], .copyFromSequence 0 1 ⟨1⟩, .copyFromSequence 0 1 ⟨2⟩,
        .copyFromSequence 0 1 ⟨3⟩, .setSentListLost false, .addRenoSack])
      (fun s => Consistent s.buffer) (fun _ => False) := by
  obtain ⟨s, run, hcounts⟩ : ∃ s, exec step (start 1 100 3)
      [.add [0], .add [1], .add [2], .copyFromSequence 0 1 ⟨1⟩, .copyFromSequence 0 1 ⟨2⟩,
        .copyFromSequence 0 1 ⟨3⟩, .setSentListLost false, .addRenoSack] = .ok s ∧
      s.buffer.m_sentSize = 3 ∧ s.buffer.m_lostOut = 3 ∧ s.buffer.m_sackedOut = 1 :=
    ⟨_, rfl, by decide +kernel⟩
  refine not_ensures_of_ok run fun h => ?_
  have hle := h.bounded
  rw [hcounts.1, hcounts.2.1, hcounts.2.2] at hle
  exact absurd hle (by decide)

end Egsr.Internet.TxBuffer
