import Egsr.Internet.Reassembly

/-! The SACK list of a receiver. Packets may carry any bytes: only their lengths
matter. The blocks that are reported are pieces of what is stored, above the
frontier and apart from each other, as long as no segment encloses a stored
packet that was reported. -/

namespace Egsr.Internet.RxBuffer

open Network Network.SequenceNumber32 Lib.Blocks Lib.Run Lib.Outcome List

/-! ## Packets without their bytes -/

def blankPacket (p : Packet) : Packet := replicate p.length 0

def blankEntry (e : SequenceNumber32 × Packet) : SequenceNumber32 × Packet := (e.1, blankPacket e.2)

variable (b : TcpRxBuffer)

def blank : TcpRxBuffer := { b with m_data := b.m_data.map blankEntry }

@[simp] theorem getSize_blank (p : Packet) : Packet.getSize (blankPacket p) = Packet.getSize p := by
  simp [Packet.getSize, blankPacket]

theorem blank_createFragment (p : Packet) (start length : UInt32) :
    Packet.createFragment (blankPacket p) start length =
      blankPacket (Packet.createFragment p start length) := by
  simp only [Packet.createFragment, getSize_blank]
  simp [blankPacket]

theorem blank_append (p q : Packet) : blankPacket (p ++ q) = blankPacket p ++ blankPacket q := by
  simp only [blankPacket, length_append, replicate_append_replicate]

theorem blank_trimToWindow (headSeq tailSeq : SequenceNumber32) :
    trimToWindow (blank b) headSeq tailSeq = trimToWindow b headSeq tailSeq := by
  unfold trimToWindow blank
  cases b.m_data <;> rfl

theorem blank_removeOverlap (data : Data) (size : UInt32) (headSeq tailSeq : SequenceNumber32) :
    removeOverlap (data.map blankEntry) size headSeq tailSeq =
      { removeOverlap data size headSeq tailSeq with
        data := (removeOverlap data size headSeq tailSeq).data.map blankEntry } := by
  induction data generalizing size headSeq tailSeq with
  | nil => rfl
  | cons e rest ih =>
    rw [map_cons]
    unfold removeOverlap
    simp only [blankEntry, getSize_blank, ih]
    split_ifs <;> rfl

theorem blank_insert (data : Data) (seq : SequenceNumber32) (p : Packet) :
    insert (data.map blankEntry) seq (blankPacket p) = (insert data seq p).map blankEntry := by
  induction data with
  | nil => rfl
  | cons e rest ih =>
    rw [map_cons]
    unfold insert
    simp only [blankEntry, ih]
    by_cases hless : e.1.less seq
    · simp [hless, blankEntry]
    · by_cases hgreater : seq.less e.1
      · simp [hless, hgreater, blankEntry]
      · simp [hless, hgreater, blankEntry]

theorem blank_advance (data : Data) (f : Frontier) :
    advance (data.map blankEntry) f = advance data f := by
  induction data generalizing f with
  | nil => rfl
  | cons e rest ih =>
    rw [map_cons]
    unfold advance
    simp only [blankEntry, getSize_blank, ih]

theorem blank_add (p : Packet) (seq : SequenceNumber32) :
    add (blank b) (blankPacket p) seq = (add b p seq).map fun r => (r.1, blank r.2) := by
  unfold add
  simp only [getSize_blank, blank_trimToWindow]
  have hdata : (blank b).m_data = b.m_data.map blankEntry := rfl
  rw [hdata]
  simp only [blank_removeOverlap, blank_createFragment, getSize_blank]
  obtain ⟨trim, htrim⟩ : ∃ trim, trim = removeOverlap b.m_data b.m_size
    (trimToWindow b seq (seq.add (Packet.getSize p))).1
    (trimToWindow b seq (seq.add (Packet.getSize p))).2 := ⟨_, rfl⟩
  have hsize : (blank b).m_size = b.m_size := rfl
  rw [hsize, ← htrim]
  by_cases hge : trim.headSeq.greaterEqual trim.tailSeq
  · rw [if_pos hge, if_pos hge]
    rfl
  · rw [if_neg hge, if_neg hge]
    have hnext : (blank b).m_nextRxSeq = b.m_nextRxSeq := rfl
    have hsack : (blank b).m_sackList = b.m_sackList := rfl
    rw [hnext, hsack]
    split_ifs
    · cases updateSackList b.m_sackList trim.headSeq trim.tailSeq with
      | error e => rfl
      | ok sackList =>
        simp only [blank_insert, blank_advance, bind, Except.bind, Except.map]
        rfl
    · simp only [blank_insert, blank_advance, bind, Except.bind, Except.map]
      rfl

theorem blank_extractLoop (extractSize : UInt32) (b : TcpRxBuffer) (data : Data) (outPkt : Packet) :
    extractLoop extractSize (blank b) (data.map blankEntry) (blankPacket outPkt) =
      (extractLoop extractSize b data outPkt).map fun r => (blankPacket r.1, blank r.2) := by
  induction data generalizing extractSize b outPkt with
  | nil =>
    rw [map_nil]
    unfold extractLoop
    split_ifs <;> rfl
  | cons e rest ih =>
    rw [map_cons]
    unfold extractLoop
    by_cases hzero : extractSize = 0
    · simp only [hzero, if_true]
      rfl
    · have hwhole := ih (extractSize - Packet.getSize e.2)
        { b with m_size := b.m_size - Packet.getSize e.2
                 m_availBytes := b.m_availBytes - Packet.getSize e.2 } (outPkt ++ e.2)
      rw [blank_append] at hwhole
      simp only [hzero, if_false, blankEntry, getSize_blank]
      split_ifs
      · exact hwhole
      · simp only [blank_createFragment, blank_insert, ← blank_append]
        rfl

theorem blank_extract (maxSize : UInt32) :
    (extract (blank b) maxSize).map (fun r => r.2) =
    (extract b maxSize).map fun r => blank r.2 := by
  unfold extract
  have havail : (blank b).m_availBytes = b.m_availBytes := rfl
  have hdata : (blank b).m_data = b.m_data.map blankEntry := rfl
  have hloop := blank_extractLoop (min maxSize b.m_availBytes) b b.m_data []
  rw [havail, hdata]
  dsimp only
  split_ifs
  · rfl
  · change extractLoop _ _ _ [] = _ at hloop
    rw [hloop]
    cases extractLoop (min maxSize b.m_availBytes) b b.m_data [] with
    | error e => rfl
    | ok r =>
      simp only [Except.map, bind, Except.bind, getSize_blank]
      split_ifs <;> rfl

theorem extractLoop_sackList {extractSize : UInt32} {b : TcpRxBuffer} {data : Data}
    {outPkt : Packet} {r : Packet × TcpRxBuffer}
    (run : extractLoop extractSize b data outPkt = .ok r) : r.2.m_sackList = b.m_sackList := by
  induction data generalizing extractSize b outPkt with
  | nil =>
    unfold extractLoop at run
    split_ifs at run
    obtain rfl := Except.ok.inj run
    rfl
  | cons e rest ih =>
    unfold extractLoop at run
    dsimp only at run
    split_ifs at run
    · obtain rfl := Except.ok.inj run
      rfl
    · have hsack := ih run
      exact hsack
    · obtain rfl := Except.ok.inj run
      rfl

theorem extract_sackList {b : TcpRxBuffer} {maxSize : UInt32} {r : Option Packet × TcpRxBuffer}
    (run : extract b maxSize = .ok r) : r.2.m_sackList = b.m_sackList := by
  unfold extract at run
  dsimp only at run
  split_ifs at run
  · obtain rfl := Except.ok.inj run
    rfl
  · obtain ⟨r', hloop, hrest⟩ := bind_ok_inv run
    have hsack := extractLoop_sackList hloop
    split_ifs at hrest
    · obtain rfl := Except.ok.inj hrest
      exact hsack
    · obtain rfl := Except.ok.inj hrest
      exact hsack

namespace Sack

inductive Op where
  | add (seq : SequenceNumber32) (p : Packet)
  | extract (maxSize : UInt32)
deriving DecidableEq

/-- A buffer, and the packet that the last call stored above the frontier. -/
structure Receiver where
  buffer : TcpRxBuffer
  newest : Option (SequenceNumber32 × Packet)
deriving DecidableEq

def newest (b b' : TcpRxBuffer) : Option (SequenceNumber32 × Packet) :=
  b'.m_data.find? fun e => e.1.greater b.m_nextRxSeq && b.m_data.all fun o => o.1 ≠ e.1

def step (s : Receiver) : Op → Except Fault Receiver
  | .add seq p => (add s.buffer p seq).map fun r => ⟨r.2, newest s.buffer r.2⟩
  | .extract maxSize => (extract s.buffer maxSize).map fun r => ⟨r.2, none⟩

def start (n maxBuffer : UInt32) : Receiver := ⟨initial n maxBuffer, none⟩

def InBlock (block : SackBlock) (x : SequenceNumber32) : Prop :=
  x.sub block.1 < block.2.sub block.1

def Stores (data : Data) (x : SequenceNumber32) : Prop :=
  ∃ e ∈ data, (x.sub e.1).toNat < e.2.length

structure Sound (s : Receiver) : Prop where
  above : ∀ block ∈ s.buffer.m_sackList,
    block.1.greater s.buffer.m_nextRxSeq ∧ block.1.less block.2
  held : ∀ block ∈ s.buffer.m_sackList, ∀ x, InBlock block x → Stores s.buffer.m_data x
  disjoint : s.buffer.m_sackList.Pairwise fun block block' =>
    ∀ x, ¬(InBlock block x ∧ InBlock block' x)
  four : s.buffer.m_sackList.length ≤ 4
  first : ∀ e ∈ s.newest, ∃ block ∈ s.buffer.m_sackList.head?,
    ∀ i < e.2.length, InBlock block (e.1.add (.ofNat i))

variable (b : TcpRxBuffer)

def place (x : SequenceNumber32) : ℕ := (x.sub b.m_nextRxSeq + 2147483648).toNat

variable (seq : SequenceNumber32)

/-- The segment and all that is stored lie less than `2 ^ 31` apart. -/
def Near (p : Packet) : Prop :=
  ∀ x ∈ place b seq :: 2 ^ 31 :: b.m_data.map (fun e => place b e.1),
    ∀ y ∈ (place b seq + p.length) :: 2 ^ 31 :: b.m_data.map (fun e => place b e.1 + e.2.length),
      y < x + 2 ^ 31
deriving Decidable

def WindowNear (p : Packet) : Prop :=
  ∀ e ∈ b.m_data.head?, place b e.1 + b.m_maxBuffer.toNat < place b seq + p.length + 2 ^ 31
deriving Decidable

def segmentEnd (p : Packet) : ℕ :=
  match b.m_data.head? with
  | none => place b seq + p.length
  | some e => min (place b seq + p.length) (place b e.1 + b.m_maxBuffer.toNat)

def Reports (e : SequenceNumber32 × Packet) : Prop :=
  ∃ block ∈ b.m_sackList, place b block.1 < place b e.1 + e.2.length ∧ place b e.1 < place b block.2
deriving Decidable

/-- Above the frontier the segment brings a byte that is missing in front of a stored packet, and
ends behind it; some of this packet was reported. -/
def Encloses (p : Packet) : Prop :=
  2 ^ 31 < place b seq ∧ ∃ e ∈ b.m_data, Reports b e ∧
    place b e.1 + e.2.length < segmentEnd b seq p ∧ ∃ i < place b e.1 - place b seq, ∀ o ∈ b.m_data,
      ¬(place b o.1 ≤ place b seq + i ∧ place b seq + i < place b o.1 + o.2.length)

instance (b : TcpRxBuffer) (seq : SequenceNumber32) (p : Packet) : Decidable (Encloses b seq p) :=
  inferInstanceAs (Decidable (2 ^ 31 < place b seq ∧ ∃ e ∈ b.m_data, Reports b e ∧ _ ∧
    ∃ i < _, ∀ o ∈ b.m_data, _))

def Clear (s : Receiver) : Op → Prop
  | .add seq p => Near s.buffer seq p ∧ WindowNear s.buffer seq p ∧ ¬Encloses s.buffer seq p
  | .extract _ => True

instance (s : Receiver) (op : Op) : Decidable (Clear s op) :=
  match op with
  | .add .. | .extract _ => by unfold Clear; infer_instance

/-! ## What is reported -/

def report (n : UInt32) (r : ℕ × ℕ) : SackBlock := (offset n r.1, offset n r.2)

/-- The reported pieces: above the frontier, stored, and apart from each other. -/
structure Reported (next : ℕ) (l : List (Block UInt8)) (rs : List (ℕ × ℕ)) : Prop where
  above : ∀ r ∈ rs, next < r.1 ∧ r.1 < r.2 ∧ r.2 < next + 2 ^ 31
  held : ∀ r ∈ rs, ∀ q, r.1 ≤ q → q < r.2 → Covers l q
  apart : rs.Pairwise fun r r' => r.2 ≤ r'.1 ∨ r'.2 ≤ r.1

namespace Reported

variable {next : ℕ} {l : List (Block UInt8)} {rs rs' : List (ℕ × ℕ)}

theorem sublist (h : Reported next l rs) (sub : rs'.Sublist rs) : Reported next l rs' :=
  ⟨fun r hr => h.above r (sub.subset hr), fun r hr => h.held r (sub.subset hr), h.apart.sublist sub⟩

theorem perm (h : Reported next l rs) (perm : rs.Perm rs') : Reported next l rs' :=
  ⟨fun r hr => h.above r (perm.mem_iff.mpr hr), fun r hr => h.held r (perm.mem_iff.mpr hr),
    (perm.pairwise_iff fun {_ _} h => h.symm).mp h.apart⟩

theorem mono (l' : List (Block UInt8)) (h : Reported next l rs)
    (imp : ∀ q, next < q → Covers l q → Covers l' q) : Reported next l' rs :=
  ⟨h.above, fun r hr q hq hq' =>
    imp q (by have habove := h.above r hr; omega) (h.held r hr q hq hq'),
    h.apart⟩

theorem merge {a b : ℕ × ℕ} (h : Reported next l (a :: b :: rs)) (touch : a.2 = b.1) :
    Reported next l ((a.1, b.2) :: rs) := by
  have ha := h.above a (by simp)
  have hb := h.above b (by simp)
  obtain ⟨hafirst, hrest⟩ := pairwise_cons.mp h.apart
  obtain ⟨hbfirst, hrest⟩ := pairwise_cons.mp hrest
  refine ⟨fun r hr => ?_, fun r hr q hq hq' => ?_, pairwise_cons.mpr ⟨fun r hr => ?_, hrest⟩⟩
  · rcases mem_cons.mp hr with rfl | hmem
    · dsimp only
      omega
    · exact h.above r (by simp [hmem])
  · rcases mem_cons.mp hr with rfl | hmem
    · by_cases hlt : q < a.2
      · exact h.held a (by simp) q hq hlt
      · exact h.held b (by simp) q (by omega) hq'
    · exact h.held r (by simp [hmem]) q hq hq'
  · have hr' := h.above r (by simp [hr])
    have har := hafirst r (by simp [hr])
    have hbr := hbfirst r hr
    dsimp only
    omega

theorem swap {a b : ℕ × ℕ} (h : Reported next l (a :: b :: rs)) : Reported next l (b :: a :: rs) :=
  h.perm (.swap b a rs)

end Reported

section Merge

variable {n : UInt32} {next : ℕ} {l : List (Block UInt8)}

theorem report_inj {p q : ℕ} (hp : next < p) (hq : next < q) (hp' : p < next + 2 ^ 31)
    (hq' : q < next + 2 ^ 31) : offset n p = offset n q ↔ p = q :=
  offset_inj n (by omega) (by omega)

theorem mergeSackBlocks_spec (fuel : ℕ) (begin : ℕ × ℕ) (examined rest : List (ℕ × ℕ))
    (reported : Reported next l (begin :: (examined ++ rest))) {merged : List SackBlock}
    (run : mergeSackBlocks fuel (report n begin) (examined.map (report n)) (rest.map (report n)) =
      .ok merged) :
    ∃ first rs, merged = (first :: rs).map (report n) ∧ Reported next l (first :: rs) ∧
      rs.length ≤ examined.length + rest.length ∧ first.1 ≤ begin.1 ∧ begin.2 ≤ first.2 := by
  induction fuel generalizing begin examined rest with
  | zero => cases run
  | succ fuel ih =>
    cases rest with
    | nil =>
      obtain rfl := Except.ok.inj run
      exact ⟨begin, examined, rfl, by simpa using reported, by simp, le_rfl, le_rfl⟩
    | cons current rest =>
      have hcurrent : Reported next l (begin :: current :: (examined ++ rest)) :=
        reported.perm (.cons begin perm_middle)
      have hbegin := reported.above begin (by simp)
      have hcurrent' := hcurrent.above current (by simp)
      rw [map_cons, mergeSackBlocks] at run
      simp only [report, report_inj hbegin.1 (hcurrent'.1.trans hcurrent'.2.1)
        (hbegin.2.1.trans hbegin.2.2) hcurrent'.2.2, report_inj (hbegin.1.trans hbegin.2.1)
        hcurrent'.1 hbegin.2.2 (hcurrent'.2.1.trans hcurrent'.2.2)] at run
      by_cases hleft : begin.1 = current.2
      · rw [if_pos hleft] at run
        obtain ⟨first, rs, hmerged, hreported, hlength, hle, hge⟩ :=
          ih (current.1, begin.2) [] (examined ++ rest) (hcurrent.swap.merge hleft.symm)
            (by simpa [report] using run)
        refine ⟨first, rs, hmerged, hreported, ?_, ?_, hge⟩
        · simp only [length_nil, length_append, length_cons] at hlength ⊢
          omega
        · dsimp only at hle
          omega
      · rw [if_neg hleft] at run
        by_cases hright : begin.2 = current.1
        · rw [if_pos hright] at run
          obtain ⟨first, rs, hmerged, hreported, hlength, hle, hge⟩ :=
            ih (begin.1, current.2) [] (examined ++ rest) (hcurrent.merge hright)
              (by simpa [report] using run)
          refine ⟨first, rs, hmerged, hreported, ?_, hle, ?_⟩
          · simp only [length_nil, length_append, length_cons] at hlength ⊢
            omega
          · dsimp only at hge
            omega
        · rw [if_neg hright] at run
          obtain ⟨first, rs, hmerged, hreported, hlength, hle, hge⟩ :=
            ih begin (examined ++ [current]) rest (by simpa using reported)
              (by simpa [report] using run)
          refine ⟨first, rs, hmerged, hreported, ?_, hle, hge⟩
          simp only [length_append, length_cons, length_nil] at hlength ⊢
          omega

theorem updateSackList_spec {rs : List (ℕ × ℕ)} {r : ℕ × ℕ} (reported : Reported next l (r :: rs))
    (four : rs.length ≤ 4) {sack : List SackBlock}
    (run : updateSackList (rs.map (report n)) (offset n r.1) (offset n r.2) = .ok sack) :
    ∃ first rs', sack = (first :: rs').map (report n) ∧ Reported next l (first :: rs') ∧
      rs'.length < 4 ∧ first.1 ≤ r.1 ∧ r.2 ≤ first.2 := by
  unfold updateSackList at run
  obtain ⟨merged, hmerge, hsack⟩ := bind_ok_inv run
  obtain ⟨first, rs', rfl, hreported, hlength, hle, hge⟩ :=
    mergeSackBlocks_spec (n := n) _ r [] rs reported hmerge
  obtain rfl := Except.ok.inj hsack
  simp only [length_map, length_cons, length_nil] at hlength ⊢
  by_cases hfive : rs'.length + 1 > 4
  · obtain ⟨s, rs', rfl⟩ := exists_cons_of_length_pos (show 0 < rs'.length by omega)
    rw [if_pos hfive, ← map_dropLast]
    refine ⟨first, (s :: rs').dropLast, rfl, hreported.sublist (.cons_cons _ (dropLast_sublist _)),
      ?_, hle, hge⟩
    simp only [length_dropLast, length_cons] at hlength ⊢
    omega
  · rw [if_neg hfive]
    exact ⟨first, rs', rfl, hreported, by omega, hle, hge⟩

theorem cleared_spec {rs : List (ℕ × ℕ)} (reported : Reported next l rs) {next' : ℕ}
    {passing : List ℕ}
    (passes : Passes next next' passing) (near : next' < next + 2 ^ 31) (gap : ¬Covers l next') :
    ∃ rs', cleared n passing (rs.map (report n)) = rs'.map (report n) ∧ Reported next' l rs' ∧
      rs'.length ≤ rs.length ∧ (next' = next → rs' = rs) := by
  have hcleared : cleared n passing (rs.map (report n)) =
      (rs.filter fun r => passing.all fun m => decide (m < r.2)).map (report n) := by
    rw [cleared, filter_map]
    congr 1
    refine filter_congr fun r hr => ?_
    rw [Function.comp_apply, Bool.eq_iff_iff, all_eq_true, all_eq_true]
    refine forall₂_congr fun m hm => ?_
    have habove := reported.above r hr
    have hm' := passes.between m hm
    rw [report, lessEqual_offset n (by omega) (by omega), Bool.not_eq_true',
      decide_eq_false_iff_not, decide_eq_true_eq, Nat.not_le]
  have hsub := reported.sublist (filter_sublist (l := rs)
    (p := fun r => passing.all fun m => decide (m < r.2)))
  refine ⟨_, hcleared, ⟨fun r hr => ?_, hsub.held, hsub.apart⟩, length_filter_le _ _, ?_⟩
  · have habove := hsub.above r hr
    have hpassed := (mem_filter.mp hr).2
    have hgap : ¬(r.1 ≤ next' ∧ next' < r.2) := fun h => gap (hsub.held r hr _ h.1 h.2)
    rw [all_eq_true] at hpassed
    rcases passes.last with heq | hmem
    · omega
    · have hlt := of_decide_eq_true (hpassed next' hmem)
      have hbetween := passes.between next' hmem
      omega
  · intro heq
    refine filter_eq_self.mpr fun r hr => all_eq_true.mpr fun m hm => ?_
    have habove := reported.above r hr
    have hm' := passes.between m hm
    exact decide_eq_true (by omega)

end Merge

/-! ## What a receiver holds -/

structure Ok (n : UInt32) (b : TcpRxBuffer) (out next : ℕ) (l : List (Block UInt8))
    (rs : List (ℕ × ℕ)) : Prop where
  held : Held n zeros (blank b) out next l
  far : 2 ^ 31 ≤ next
  sack : b.m_sackList = rs.map (report n)
  reported : Reported next l rs
  four : rs.length ≤ 4

theorem slice_zeros (q : ℕ) (p : Packet) : slice zeros q p.length = blankPacket p := by
  simp [slice, zeros, blankPacket, map_const']

theorem inBlock_report {n : UInt32} {r : ℕ × ℕ} (filled : r.1 < r.2) (short : r.2 < r.1 + 2 ^ 32)
    (x : SequenceNumber32) :
    InBlock (report n r) x ↔ ∃ q, r.1 ≤ q ∧ q < r.2 ∧ x = offset n q := by
  have hsize : ((report n r).2.sub (report n r).1).toNat = r.2 - r.1 := by
    rw [report, sub_offset n filled.le, toNat_ofNat (by omega)]
  unfold InBlock
  rw [UInt32.lt_iff_toNat_lt, hsize]
  constructor
  · intro hlt
    refine ⟨r.1 + (x.sub (offset n r.1)).toNat, by omega, ?_, ?_⟩
    · have hx : x.sub (offset n r.1) = x.sub (report n r).1 := rfl
      rw [hx]
      omega
    · rw [← add_offset, UInt32.ofNat_toNat]
      cases x
      refine congrArg SequenceNumber32.mk ?_
      rw [UInt32.add_comm, sub, UInt32.sub_add_cancel]
  · rintro ⟨q, hle, hlt, rfl⟩
    rw [report, sub_offset n hle, toNat_ofNat (by omega)]
    omega

namespace Ok

variable {n : UInt32} {b : TcpRxBuffer} {out next : ℕ} {l : List (Block UInt8)} {rs : List (ℕ × ℕ)}
  (ok : Ok n b out next l rs)
include ok

theorem place_offset {q : ℕ} (above : next ≤ q + 2 ^ 31) (below : q < next + 2 ^ 31) :
    place b (offset n q) + next = q + 2 ^ 31 := by
  have hnext : b.m_nextRxSeq = offset n next := ok.held.nextRxSeq
  have hq := toNat_offset n q
  have hn := toNat_offset n next
  rw [place, hnext]
  simp only [sub, UInt32.toNat_add, UInt32.toNat_sub, hq, hn, UInt32.reduceToNat]
  omega

theorem exists_offset : ∃ q, seq = offset n q ∧ next ≤ q + 2 ^ 31 ∧ q < next + 2 ^ 31 := by
  have hnext : b.m_nextRxSeq = offset n next := ok.held.nextRxSeq
  have hfar := ok.far
  have hn := toNat_offset n next
  have hlt := seq.m_value.toNat_lt
  obtain ⟨k, hk⟩ : ∃ k, k = place b seq := ⟨_, rfl⟩
  have hplace := hk
  rw [place, hnext] at hplace
  simp only [sub, UInt32.toNat_add, UInt32.toNat_sub, hn, UInt32.reduceToNat] at hplace
  refine ⟨k + next - 2 ^ 31, ?_, by omega, by omega⟩
  have hvalue := toNat_offset n (k + next - 2 ^ 31)
  have heq : seq.m_value = (offset n (k + next - 2 ^ 31)).m_value := by
    refine UInt32.toNat_inj.mp ?_
    rw [hvalue]
    omega
  cases seq
  exact congrArg SequenceNumber32.mk heq

theorem start_bounds {c : Block UInt8} (hc : c ∈ l) :
    out ≤ c.start ∧ c.start < c.finish ∧ c.finish < out + 2 ^ 31 ∧ out ≤ next ∧
      next < out + 2 ^ 31 :=
  ⟨ok.held.within.above c hc, ok.held.filled_lt c hc, ok.held.within.below c hc, ok.held.le,
    ok.held.near⟩

theorem exists_block {e : SequenceNumber32 × Packet} (he : e ∈ b.m_data) :
    ∃ c ∈ l, e.1 = offset n c.start ∧ e.2.length = c.bytes.length := by
  have hmem : blankEntry e ∈ l.map (entry n) := by
    rw [← ok.held.data]
    exact mem_map_of_mem he
  obtain ⟨c, hc, heq⟩ := mem_map.mp hmem
  have hlength := congrArg (fun o => o.2.length) heq
  refine ⟨c, hc, (congrArg Prod.fst heq).symm, ?_⟩
  simpa [blankEntry, blankPacket, entry] using hlength.symm

theorem exists_entry {c : Block UInt8} (hc : c ∈ l) :
    ∃ e ∈ b.m_data, e.1 = offset n c.start ∧ e.2.length = c.bytes.length := by
  have hmem : entry n c ∈ b.m_data.map blankEntry := by
    have hdata : b.m_data.map blankEntry = l.map (entry n) := ok.held.data
    rw [hdata]
    exact mem_map_of_mem hc
  obtain ⟨e, he, heq⟩ := mem_map.mp hmem
  have hlength := congrArg (fun o => o.2.length) heq
  refine ⟨e, he, congrArg Prod.fst heq, ?_⟩
  simpa [blankEntry, blankPacket, entry] using hlength

theorem head_data : b.m_data.head? = none ∧ l.head? = none ∨
    ∃ e c, b.m_data.head? = some e ∧ l.head? = some c ∧ e.1 = offset n c.start := by
  have hdata : b.m_data.map blankEntry = l.map (entry n) := ok.held.data
  cases hb : b.m_data with
  | nil =>
    rw [hb] at hdata
    cases l with
    | nil => exact Or.inl ⟨rfl, rfl⟩
    | cons c l => cases hdata
  | cons e data =>
    rw [hb] at hdata
    cases l with
    | nil => cases hdata
    | cons c l =>
      refine Or.inr ⟨e, c, rfl, rfl, ?_⟩
      rw [map_cons, map_cons, cons_eq_cons] at hdata
      exact congrArg Prod.fst hdata.1

theorem place_start {c : Block UInt8} (hc : c ∈ l) :
    place b (offset n c.start) + next = c.start + 2 ^ 31 := by
  have hbounds := ok.start_bounds hc
  exact ok.place_offset (by omega) (by omega)

theorem stores {q : ℕ} (covers : Covers l q) : Stores b.m_data (offset n q) := by
  obtain ⟨c, hc, hholds⟩ := covers
  obtain ⟨e, he, hstart, hlength⟩ := ok.exists_entry hc
  have hbounds := ok.start_bounds hc
  unfold Block.Holds Block.finish at hholds
  unfold Block.finish at hbounds
  refine ⟨e, he, ?_⟩
  rw [hstart, hlength, sub_offset n hholds.1, toNat_ofNat (by omega)]
  omega

theorem sound {newest : Option (SequenceNumber32 × Packet)}
    (first : ∀ e ∈ newest, ∃ block ∈ b.m_sackList.head?,
      ∀ i < e.2.length, InBlock block (e.1.add (.ofNat i))) : Sound ⟨b, newest⟩ where
  above block hblock := by
    have hnext : b.m_nextRxSeq = offset n next := ok.held.nextRxSeq
    dsimp only at hblock ⊢
    rw [ok.sack] at hblock
    obtain ⟨r, hr, rfl⟩ := mem_map.mp hblock
    have habove := ok.reported.above r hr
    rw [hnext, report, greater_offset n (by omega) (by omega), less_offset n (by omega) (by omega)]
    exact ⟨decide_eq_true habove.1, decide_eq_true habove.2.1⟩
  held block hblock x hx := by
    dsimp only at hblock ⊢
    rw [ok.sack] at hblock
    obtain ⟨r, hr, rfl⟩ := mem_map.mp hblock
    have habove := ok.reported.above r hr
    obtain ⟨q, hle, hlt, rfl⟩ := (inBlock_report habove.2.1 (by omega) x).mp hx
    exact ok.stores (ok.reported.held r hr q hle hlt)
  disjoint := by
    dsimp only
    rw [ok.sack, pairwise_map]
    refine ok.reported.apart.imp_of_mem fun {r r'} hr hr' hapart x => ?_
    have habove := ok.reported.above r hr
    have habove' := ok.reported.above r' hr'
    rw [inBlock_report habove.2.1 (by omega), inBlock_report habove'.2.1 (by omega)]
    rintro ⟨⟨q, hle, hlt, rfl⟩, q', hle', hlt', heq⟩
    have := (offset_inj n (by omega) (by omega)).mp heq
    omega
  four := by
    dsimp only
    rw [ok.sack, length_map]
    exact ok.four
  first := first

end Ok

/-! ## Runs -/

theorem mem_newest {b b' : TcpRxBuffer} {e : SequenceNumber32 × Packet} (he : e ∈ newest b b') :
    e ∈ b'.m_data ∧ e.1.greater b.m_nextRxSeq ∧ ∀ o ∈ b.m_data, o.1 ≠ e.1 := by
  have hfound := List.find?_some he
  simp only [Bool.and_eq_true, all_eq_true, decide_eq_true_eq] at hfound
  exact ⟨mem_of_find?_eq_some he, hfound⟩

theorem Near.stored {b : TcpRxBuffer} {seq : SequenceNumber32} {p : Packet} (near : Near b seq p)
    {e : SequenceNumber32 × Packet} (he : e ∈ b.m_data) :
    place b seq + p.length < place b e.1 + 2 ^ 31 ∧
      place b e.1 + e.2.length < place b seq + 2 ^ 31 := by
  have hstart : place b e.1 ∈ b.m_data.map fun e => place b e.1 :=
    mem_map.mpr ⟨e, he, rfl⟩
  have hfinish : place b e.1 + e.2.length ∈ b.m_data.map fun e => place b e.1 + e.2.length :=
    mem_map.mpr ⟨e, he, rfl⟩
  have hmem : place b e.1 ∈ place b seq :: 2 ^ 31 :: b.m_data.map fun e => place b e.1 := by
    rw [mem_cons, mem_cons]
    exact Or.inr (Or.inr hstart)
  have hmem' : place b e.1 + e.2.length ∈
      (place b seq + p.length) :: 2 ^ 31 :: b.m_data.map fun e => place b e.1 + e.2.length := by
    rw [mem_cons, mem_cons]
    exact Or.inr (Or.inr hfinish)
  have hx := near (place b e.1) hmem (place b seq + p.length) (by simp)
  have hy := near (place b seq) (by simp) (place b e.1 + e.2.length) hmem'
  exact ⟨hx, hy⟩

namespace Ok

variable {n : UInt32} {b : TcpRxBuffer} {out next : ℕ} {l : List (Block UInt8)} {rs : List (ℕ × ℕ)}
  (ok : Ok n b out next l rs)
include ok

structure Segment (n : UInt32) (b : TcpRxBuffer) (out next : ℕ) (l : List (Block UInt8))
    (q length : ℕ) : Prop where
  within : Within (min q out) l
  near : q + length < min q out + 2 ^ 31
  nextNear : next < min q out + 2 ^ 31
  window : ∀ c ∈ l.head?, c.start + (blank b).m_maxBuffer.toNat < q + length + 2 ^ 31

theorem segment {q : ℕ} {p : Packet} (above : next ≤ q + 2 ^ 31) (below : q < next + 2 ^ 31)
    (near : Near b (offset n q) p) (window : WindowNear b (offset n q) p) :
    Segment n b out next l q p.length := by
  have hplace := ok.place_offset above below
  have hle := ok.held.le
  have hnear := ok.held.near
  have hself := near (place b (offset n q)) (by simp) (place b (offset n q) + p.length) (by simp)
  have hfrontier := near (place b (offset n q)) (by simp) (2 ^ 31) (by simp)
  have hforward := near (2 ^ 31) (by simp) (place b (offset n q) + p.length) (by simp)
  have hout : q + p.length < out + 2 ^ 31 := by
    by_cases heq : out = next
    · omega
    · obtain ⟨c, hc, hholds⟩ := ok.held.filled out le_rfl (by omega)
      obtain ⟨e, he, hstart, -⟩ := ok.exists_entry hc
      have hbounds := ok.start_bounds hc
      have hpc := ok.place_start hc
      have hx := near.stored he
      rw [hstart] at hx
      unfold Block.Holds at hholds
      omega
  refine ⟨⟨fun c hc => ?_, fun c hc => ?_⟩, by omega, by omega, fun c hc => ?_⟩
  · have hbounds := ok.start_bounds hc
    omega
  · have hbounds := ok.start_bounds hc
    obtain ⟨e, he, hstart, hlength⟩ := ok.exists_entry hc
    have hpc := ok.place_start hc
    have hx := near.stored he
    rw [hstart, hlength] at hx
    unfold Block.finish at hbounds ⊢
    omega
  · rcases ok.head_data with ⟨-, hnone⟩ | ⟨e, c', hsome, hsome', hstart⟩
    · rw [hnone] at hc
      cases hc
    · rw [hsome'] at hc
      obtain rfl := Option.some.inj hc
      have hmem : c' ∈ l := mem_of_mem_head? hsome'
      have hpc := ok.place_start hmem
      have hw := window e hsome
      rw [hstart] at hw
      have hbuffer : (blank b).m_maxBuffer = b.m_maxBuffer := rfl
      rw [hbuffer]
      omega

theorem segmentEnd_eq {q : ℕ} {p : Packet} (above : next ≤ q + 2 ^ 31) (below : q < next + 2 ^ 31) :
    segmentEnd b (offset n q) p + next = cut l (blank b).m_maxBuffer (q + p.length) + 2 ^ 31 := by
  have hplace := ok.place_offset above below
  have hbuffer : (blank b).m_maxBuffer = b.m_maxBuffer := rfl
  unfold segmentEnd cut
  rcases ok.head_data with ⟨hnone, hnone'⟩ | ⟨e, c, hsome, hsome', hstart⟩
  · rw [hnone, hnone']
    dsimp only
    omega
  · have hpc := ok.place_start (mem_of_mem_head? hsome')
    rw [hsome, hsome', hbuffer]
    dsimp only
    rw [hstart]
    omega

theorem fresh {q : ℕ} {p : Packet} (above : next < q) (below : q < next + 2 ^ 31)
    (clear : ¬Encloses b (offset n q) p) {c : Block UInt8} (hc : c ∈ l)
    (enclosed : Enclosed l q (cut l (blank b).m_maxBuffer (q + p.length)) c) {r : ℕ × ℕ}
    (hr : r ∈ rs) {x : ℕ} (hx : r.1 ≤ x ∧ x < r.2) : ¬c.Holds x := by
  intro hholds
  obtain ⟨hfinish, y, hy, hylt, hygap⟩ := enclosed
  obtain ⟨e, he, hstart, hlength⟩ := ok.exists_entry hc
  have hplace := ok.place_offset (q := q) (by omega) below
  have hend := ok.segmentEnd_eq (q := q) (p := p) (by omega) below
  have hbounds := ok.start_bounds hc
  have hpc := ok.place_start hc
  have hreported := ok.reported.above r hr
  have hrstart := ok.place_offset (q := r.1) (by omega) (by omega)
  have hrend := ok.place_offset (q := r.2) (by omega) (by omega)
  unfold Block.Holds at hholds
  unfold Block.finish at hfinish hholds
  refine clear ⟨by omega, e, he, ⟨report n r, ?_, ?_, ?_⟩, ?_, y - q, ?_, fun o ho => ?_⟩
  · rw [ok.sack]
    exact mem_map_of_mem hr
  · rw [hstart, hlength, report]
    dsimp only
    omega
  · rw [hstart, report]
    dsimp only
    omega
  · rw [hstart, hlength]
    omega
  · rw [hstart]
    omega
  · obtain ⟨d, hd, hdstart, hdlength⟩ := ok.exists_block ho
    have hpd := ok.place_start hd
    rw [hdstart, hdlength]
    refine fun h => hygap ⟨d, hd, ?_⟩
    unfold Block.Holds Block.finish
    omega

theorem report_stored {b' : TcpRxBuffer} {q next' : ℕ} {p : Packet} {l' kept : List (Block UInt8)}
    {block : Block UInt8} (below : q < next + 2 ^ 31) (clear : ¬Encloses b (offset n q) p)
    (held' : Held n zeros (blank b') out next' l') (covers : ∀ x, out ≤ x → (Covers l' x ↔
      Covers l x ∨ (q ≤ x ∧ x < cut l (blank b).m_maxBuffer (q + p.length))))
    (stored : Stored n (blank b) (blank b') next next' l l' q
      (cut l (blank b).m_maxBuffer (q + p.length)) kept block) (later : next < block.start) :
    next' = next ∧ Reported next l' ((block.start, block.finish) :: rs) := by
  have hle := ok.held.le
  have hfilled := stored.filled
  have hq := stored.later later
  have hmem : block ∈ l' := by
    rw [stored.blocks, (insert_perm block kept).mem_iff]
    simp
  have hgap : ¬Covers l' next := fun h => by
    rcases (covers next hle).mp h with hold | hnew
    · exact ok.held.gap hold
    · omega
  have hsame : next' = next := by
    have hnext' : next ≤ next' := by
      by_contra hlt
      exact held'.gap
        ((covers next' held'.le).mpr (Or.inl (ok.held.filled next' held'.le (by omega))))
    by_contra hne
    exact hgap (held'.filled next hle (by omega))
  have hbelow := held'.within.below block hmem
  have hmono := ok.reported.mono l' fun x hx hcovers =>
    (covers x (by omega)).mpr (Or.inl hcovers)
  refine ⟨hsame, fun r hr => ?_, fun r hr x hx hx' => ?_, pairwise_cons.mpr
    ⟨fun r hr => ?_, hmono.apart⟩⟩
  · rcases mem_cons.mp hr with rfl | hr
    · dsimp only
      omega
    · exact hmono.above r hr
  · rcases mem_cons.mp hr with rfl | hr
    · exact ⟨block, hmem, hx, hx'⟩
    · exact hmono.held r hr x hx hx'
  · by_contra hmeet
    dsimp only at hmeet
    have hr' := ok.reported.above r hr
    have hshare : r.1 ≤ max r.1 block.start ∧ max r.1 block.start < r.2 := by omega
    obtain ⟨c, hc, hholds⟩ := ok.reported.held r hr _ hshare.1 hshare.2
    rcases stored.enclosed c hc with hkept | henclosed
    · have hfree := stored.free c hkept
      unfold Block.Holds at hholds
      omega
    · rw [max_eq_left hq.le] at henclosed
      exact ok.fresh hq below clear hc henclosed hr hshare hholds

theorem newest_block {b' : TcpRxBuffer} {next' : ℕ} {l' : List (Block UInt8)}
    (held' : Held n zeros (blank b') out next' l')
    {e : SequenceNumber32 × Packet} (he : e ∈ newest b b') :
    ∃ c ∈ l', e.1 = offset n c.start ∧ e.2.length = c.bytes.length ∧ c ∉ l ∧ next < c.start := by
  obtain ⟨hmem, hgreater, hother⟩ := mem_newest he
  have hmem' : blankEntry e ∈ l'.map (entry n) := by
    rw [← held'.data]
    exact mem_map_of_mem hmem
  obtain ⟨c, hc, heq⟩ := mem_map.mp hmem'
  have hkey : e.1 = offset n c.start := (congrArg Prod.fst heq).symm
  have hlength := congrArg (fun o => o.2.length) heq
  have habove := held'.within.above c hc
  have hbelow := held'.within.below c hc
  have hfilled := held'.filled_lt c hc
  have hle := ok.held.le
  have hnext : b.m_nextRxSeq = offset n next := ok.held.nextRxSeq
  have hlt := ok.held.near
  rw [hkey, hnext, greater_offset n (by omega) (by omega)] at hgreater
  refine ⟨c, hc, hkey, ?_, fun hold => ?_, of_decide_eq_true hgreater⟩
  · simpa [blankEntry, blankPacket, entry] using hlength.symm
  · obtain ⟨o, ho, hostart, -⟩ := ok.exists_entry hold
    exact hother o ho (hostart.trans hkey.symm)

theorem next_eq {b' : TcpRxBuffer} {next' : ℕ} (held' : Held n zeros (blank b') out next' l) :
    next' = next := by
  by_contra hne
  rcases Nat.lt_or_gt_of_ne hne with hlt | hlt
  · exact held'.gap (ok.held.filled next' held'.le hlt)
  · exact ok.held.gap (held'.filled next ok.held.le hlt)

theorem step_add {seq : SequenceNumber32} {p : Packet} (near : Near b seq p)
    (window : WindowNear b seq p) (clear : ¬Encloses b seq p) :
    Ensures (add b p seq) (fun r => (∃ next' l' rs', Ok n r.2 out next' l' rs') ∧
      ∀ e ∈ newest b r.2, ∃ block ∈ r.2.m_sackList.head?,
        ∀ i < e.2.length, InBlock block (e.1.add (.ofNat i))) (fun _ => False) := by
  obtain ⟨q, rfl, above, below⟩ := ok.exists_offset seq
  have hsegment := ok.segment above below near window
  obtain ⟨found, b'', next', l', hrun, hheld, hcovers, hstored⟩ := add_spec ok.held hsegment.within
    hsegment.near hsegment.window hsegment.nextNear
  rw [slice_zeros, blank_add] at hrun
  cases hadd : add b p (offset n q) with
  | error e =>
    rw [hadd] at hrun
    cases hrun
  | ok r =>
    rw [hadd] at hrun
    obtain ⟨rfl, rfl⟩ := Prod.mk.inj (Except.ok.inj hrun)
    have hsackList : (blank r.2).m_sackList = r.2.m_sackList := rfl
    have hnew := fun e he => ok.newest_block hheld (e := e) he
    rcases hstored with ⟨hsame, rfl⟩ | ⟨kept, block, stored⟩
    · have hsack : r.2.m_sackList = b.m_sackList := by
        rw [← hsackList, hsame]
        rfl
      have hnext : next' = next := ok.next_eq hheld
      rw [hnext] at hheld
      refine ⟨⟨next, l', rs, hheld, ok.far, hsack.trans ok.sack, ok.reported, ok.four⟩,
        fun e he => ?_⟩
      obtain ⟨c, hc, -, -, hnot, -⟩ := hnew e he
      exact absurd hc hnot
    · obtain ⟨sack, passing, hsack, hpasses, hcleared⟩ := stored.sack
      have hnextRx : (blank b).m_nextRxSeq = offset n next := ok.held.nextRxSeq
      have hold : (blank b).m_sackList = rs.map (report n) := ok.sack
      have hmem : block ∈ l' := by
        rw [stored.blocks, (insert_perm block kept).mem_iff]
        simp
      have habove := hheld.within.above block hmem
      have hbelow := hheld.within.below block hmem
      have hfilled := stored.filled
      have hle := ok.held.le
      have hnear := ok.held.near
      have hnear' := hheld.near
      rw [hsackList] at hcleared
      rw [hnextRx, hold, greater_offset n (by omega) (by omega)] at hsack
      have hmono := ok.reported.mono l' fun x hx hx' =>
        (hcovers x (by omega)).mpr (Or.inl hx')
      by_cases later : next < block.start
      · obtain ⟨rfl, hreported⟩ := ok.report_stored below clear hheld hcovers stored later
        rw [if_pos (decide_eq_true later)] at hsack
        obtain ⟨first, rs', rfl, hreported', hfour, hfirst, hlast⟩ :=
          updateSackList_spec hreported ok.four hsack
        obtain ⟨rs'', hrs, hreported'', -, hkeep⟩ :=
          cleared_spec (n := n) hreported' hpasses (by omega) hheld.gap
        rw [hkeep rfl] at hrs hreported''
        rw [hrs] at hcleared
        refine ⟨⟨next', l', first :: rs', hheld, ok.far, hcleared, hreported'', hfour⟩,
          fun e he => ?_⟩
        obtain ⟨c, hc, hkey, hlength, hnot, -⟩ := hnew e he
        obtain rfl : c = block := by
          rw [stored.blocks, (insert_perm block kept).mem_iff] at hc
          rcases mem_cons.mp hc with heq | hkept
          · exact heq
          · exact absurd (stored.kept_sub.subset hkept) hnot
        have hfirst' := hreported'.above first (by simp)
        refine ⟨report n first, by rw [hcleared]; rfl, fun i hi => ?_⟩
        unfold Block.finish at hlast
        rw [hkey, add_offset, inBlock_report hfirst'.2.1 (by omega)]
        exact ⟨c.start + i, by omega, by omega, rfl⟩
      · rw [if_neg (by simpa using later)] at hsack
        obtain rfl := Except.ok.inj hsack
        obtain ⟨rs', hrs, hreported, hlength, -⟩ :=
          cleared_spec (n := n) hmono hpasses (by omega) hheld.gap
        have hfar : 2 ^ 31 ≤ next' := by
          have hnext' : next ≤ next' := by
            rcases hpasses.last with heq | hlast
            · exact heq.ge
            · exact (hpasses.between next' hlast).1
          exact ok.far.trans hnext'
        refine ⟨⟨next', l', rs', hheld, hfar, hcleared.trans hrs, hreported,
          hlength.trans ok.four⟩, fun e he => ?_⟩
        obtain ⟨c, hc, -, -, hnot, hgt⟩ := hnew e he
        rw [stored.blocks, (insert_perm block kept).mem_iff] at hc
        rcases mem_cons.mp hc with rfl | hkept
        · exact absurd hgt later
        · exact absurd (stored.kept_sub.subset hkept) hnot

theorem step_extract (maxSize : UInt32) :
    Ensures (extract b maxSize) (fun r => ∃ out' next' l' rs', Ok n r.2 out' next' l' rs')
      (fun _ => False) := by
  obtain ⟨answer, b', k, l', hrun, -, hle, hheld, hcovers⟩ := extract_spec ok.held maxSize
  have hblank := blank_extract b maxSize
  rw [hrun] at hblank
  cases hextract : extract b maxSize with
  | error e =>
    rw [hextract] at hblank
    cases hblank
  | ok r =>
    rw [hextract] at hblank
    obtain rfl : b' = blank r.2 := Except.ok.inj hblank
    have hsack := extract_sackList hextract
    have hnext := ok.held.le
    have hmono := ok.reported.mono l' fun x hx hx' => (hcovers x (by omega)).mpr hx'
    exact ⟨out + k, next, l', rs, hheld, ok.far, hsack.trans ok.sack, hmono, ok.four⟩

end Ok

theorem start_ok (n maxBuffer : UInt32) :
    Ok (n - 2147483648) (initial n maxBuffer) (2 ^ 31) (2 ^ 31) [] [] := by
  have hnext : (⟨n⟩ : SequenceNumber32) = offset (n - 2147483648) (2 ^ 31) := by
    refine congrArg SequenceNumber32.mk ?_
    have hhalf : UInt32.ofNat (2 ^ 31) = 2147483648 := rfl
    rw [hhalf, UInt32.sub_add_cancel]
  refine ⟨⟨rfl, .nil, by simp, ⟨by simp, by simp⟩, hnext, le_rfl, by
    omega, fun q hq hq' => by omega,
    by simp, rfl, rfl, rfl⟩, le_rfl, rfl, ⟨by simp, by simp, .nil⟩, by simp⟩

/-- As long as no segment encloses a reported packet, the SACK list is sound. -/
theorem sackList_sound (n maxBuffer : UInt32) (ops : List Op)
    (clear : Along step Clear (start n maxBuffer) ops) :
    Ensures (exec step (start n maxBuffer) ops) Sound (fun _ => False) := by
  have keep : ∀ s op, (Sound s ∧ ∃ m out next l rs, Ok m s.buffer out next l rs) → Clear s op →
      Ensures (step s op) (fun s' => Sound s' ∧ ∃ m out next l rs, Ok m s'.buffer out next l rs)
        (fun _ => False) := by
    rintro s op ⟨-, m, out, next, l, rs, ok⟩ hclear
    cases op with
    | add seq p =>
      obtain ⟨hnear, hwindow, hencloses⟩ := hclear
      refine ensures_map.mpr ((ok.step_add hnear hwindow hencloses).weaken fun r hr => ?_)
      obtain ⟨⟨next', l', rs', ok'⟩, hfirst⟩ := hr
      exact ⟨ok'.sound hfirst, m, out, next', l', rs', ok'⟩
    | extract maxSize =>
      refine ensures_map.mpr ((ok.step_extract maxSize).weaken fun r hr => ?_)
      obtain ⟨out', next', l', rs', ok'⟩ := hr
      exact ⟨ok'.sound fun e he => (by cases he), m, out', next', l', rs', ok'⟩
  have hstart := start_ok n maxBuffer
  exact (ensures_exec keep ⟨hstart.sound fun e he => (by cases he), _, _, _, _, _, hstart⟩
    clear).weaken fun s hs => hs.1

/-- Pieces out of order that overlap, more blocks than are reported, and old data again. -/
theorem sackList_sound_overlapping : Ensures (exec step (start 4294967290 32768)
      [.add ⟨4⟩ (replicate 10 7), .add ⟨24⟩ (replicate 10 1), .add ⟨9⟩ (replicate 10 2),
        .add ⟨22⟩ (replicate 4 3), .add ⟨4294967280⟩ (replicate 16 4),
        .add ⟨44⟩ [5], .add ⟨54⟩ [6], .add ⟨64⟩ [7], .add ⟨74⟩ [8], .extract 4,
        .add ⟨4294967290⟩ (replicate 40 9)]) Sound (fun _ => False) :=
  sackList_sound 4294967290 32768 _ (by decide +kernel)

/-- A segment that encloses a reported packet: what was reported is reported twice. -/
theorem sackList_enclosed : ¬Ensures (exec step (start 0 32768)
      [.add ⟨10⟩ (replicate 10 0), .add ⟨5⟩ (replicate 20 0)]) Sound (fun _ => False) := by
  refine not_ensures_of_ok (a := ⟨{ initial 0 32768 with
    m_size := 20
    m_data := [(⟨5⟩, replicate 20 0)]
    m_sackList := [(⟨5⟩, ⟨25⟩), (⟨10⟩, ⟨20⟩)] }, some (⟨5⟩, replicate 20 0)⟩) (by decide +kernel) ?_
  intro sound
  have hdisjoint := sound.disjoint
  simp only [pairwise_cons] at hdisjoint
  refine hdisjoint.1 (⟨10⟩, ⟨20⟩) (by simp) ⟨10⟩ ⟨?_, ?_⟩
  · unfold InBlock
    decide
  · unfold InBlock
    decide

end Sack

end Egsr.Internet.RxBuffer
