import Mathlib.Tactic.Linarith
import Egsr.Lib.Blocks
import Egsr.Lib.Outcome
import Egsr.Internet.TcpRxBuffer

/-! Reassembly of a stream. The stored packets are blocks of the stream, apart
from each other; a segment is trimmed to a piece that none of them holds, and
what is stored without a gap after the extracted bytes is available. -/

namespace Egsr.Internet.RxBuffer

open Network Network.SequenceNumber32 Lib.Blocks Lib.Run Lib.Outcome List

variable (n : UInt32) (stream : ℕ → UInt8)

/-! ## Sessions -/

inductive Op where
  | add (start length : ℕ)
  | extract (maxSize : UInt32)
deriving DecidableEq

/-- A buffer, the bytes extracted from it so far, and the pieces of the stream it was given
within its window. -/
structure Session where
  buffer : TcpRxBuffer
  extracted : List UInt8
  received : List (ℕ × ℕ)
deriving DecidableEq

/-- The place in the stream of a sequence number, when `out` bytes were extracted: the first one
that is not before them. -/
def placeOf (out : ℕ) (seq : SequenceNumber32) : ℕ := out + (seq.sub (offset n out)).toNat

/-- Where the window ends: `m_maxBuffer` bytes after the first stored one, if there is one. -/
def windowEnd (b : TcpRxBuffer) (out : ℕ) : Option ℕ :=
  b.m_data.head?.map fun e => placeOf n out e.1 + b.m_maxBuffer.toNat

def inWindow (b : TcpRxBuffer) (out finish : ℕ) : ℕ :=
  match windowEnd n b out with
  | none => finish
  | some w => min finish w

variable (s : Session)

def step : Op → Except Fault Session
  | .add start length =>
    (add s.buffer (slice stream start length) (offset n start)).map fun r =>
      ⟨r.2, s.extracted,
        (start, inWindow n s.buffer s.extracted.length (start + length)) :: s.received⟩
  | .extract maxSize =>
    (extract s.buffer maxSize).map fun r => ⟨r.2, s.extracted ++ r.1.getD [], s.received⟩

def start (maxBuffer : UInt32) : Session := ⟨initial n maxBuffer, [], []⟩

def reach (b : TcpRxBuffer) (out : ℕ) : ℕ :=
  b.m_data.foldr (fun e k => max (placeOf n out e.1 + e.2.length) k) out

/-- A segment and what the buffer is concerned with lie less than `2 ^ 31` apart. -/
def Near : Op → Prop
  | .add start length =>
    max (start + length) (reach n s.buffer s.extracted.length) <
      min start s.extracted.length + 2 ^ 31
  | .extract _ => True

def WindowNear : Op → Prop
  | .add start length =>
    ∀ w ∈ windowEnd n s.buffer s.extracted.length, w < start + length + 2 ^ 31
  | .extract _ => True

instance (s : Session) (op : Op) : Decidable (Near n s op) :=
  match op with
  | .add .. | .extract _ => by unfold Near; infer_instance

instance (s : Session) (op : Op) : Decidable (WindowNear n s op) :=
  match op with
  | .add .. | .extract _ => by unfold WindowNear; infer_instance

def Session.Received (q : ℕ) : Prop := ∃ r ∈ s.received, r.1 ≤ q ∧ q < r.2

def RangesDisjoint (e e' : SequenceNumber32 × Packet) : Prop :=
  ∀ i < e.2.length, ∀ j < e'.2.length, e.1.add (.ofNat i) ≠ e'.1.add (.ofNat j)

/-- `next` is the place of `m_nextRxSeq`. -/
structure Reassembled (next : ℕ) : Prop where
  isPrefix : s.extracted = slice stream 0 s.extracted.length
  nextRxSeq : s.buffer.m_nextRxSeq = offset n next
  firstMissing : IsLeast {q | ¬s.Received q} next
  availBytes : s.extracted.length + s.buffer.m_availBytes.toNat = next
  size : s.buffer.m_size.toNat = (s.buffer.m_data.map fun e => e.2.length).sum
  disjoint : s.buffer.m_data.Pairwise RangesDisjoint

/-- The packet that stores a block of the stream whose first byte has the number `n`. -/
def entry (b : Block UInt8) : SequenceNumber32 × Packet := (offset n b.start, b.bytes)

theorem add_finish (b : Block UInt8) :
    (offset n b.start).add (Packet.getSize b.bytes) = offset n b.finish :=
  add_offset n b.start b.bytes.length

/-- The places that are compared lie less than half of the range apart. -/
structure Within (lo : ℕ) (l : List (Block UInt8)) : Prop where
  above : ∀ b ∈ l, lo ≤ b.start
  below : ∀ b ∈ l, b.finish < lo + 2 ^ 31

variable {b : Block UInt8} {l : List (Block UInt8)}

theorem Within.tail {lo : ℕ} (h : Within lo (b :: l)) : Within lo l :=
  ⟨fun c hc => h.above c (by simp [hc]), fun c hc => h.below c (by simp [hc])⟩

/-! ## Trimming against the stored packets -/

/-- The piece from `head` to `tail` is what is new in the one from `h` to `t`, when the blocks
that are inside of it are taken out. -/
structure Trimmed (l : List (Block UInt8)) (h t : ℕ) (kept : List (Block UInt8)) (head tail : ℕ) :
    Prop where
  sub : kept.Sublist l
  head_le : h ≤ head
  tail_le : tail ≤ t
  head_eq : head = h ∨ ∃ b ∈ l, head = b.finish
  tail_eq : tail = t ∨ ∃ b ∈ l, tail = b.start
  covers : ∀ q, Covers kept q ∨ (head ≤ q ∧ q < tail) ↔ Covers l q ∨ (h ≤ q ∧ q < t)
  free : ∀ b ∈ kept, b.finish ≤ head ∨ tail ≤ b.start
  same : tail ≤ head → kept = l
  ahead : h < t → (∀ b ∈ l, h < b.start) → head < tail

/-- The piece from `h` to `t` becomes the one from `h'` to `t'` at a block that is kept. -/
structure Cut (b : Block UInt8) (h t h' t' : ℕ) : Prop where
  head_le : h ≤ h'
  tail_le : t' ≤ t
  head_eq : h' = h ∨ h' = b.finish
  tail_eq : t' = t ∨ t' = b.start
  covers : ∀ q, b.Holds q ∨ (h' ≤ q ∧ q < t') ↔ b.Holds q ∨ (h ≤ q ∧ q < t)
  free : b.finish ≤ h' ∨ t' ≤ b.start
  ahead : h < t → h < b.start → h' = h ∧ h < t'

theorem Cut.before {h t : ℕ} (filled : b.start < b.finish) (front : b.finish ≤ h) :
    Cut b h t h t where
  head_le := le_rfl
  tail_le := le_rfl
  head_eq := Or.inl rfl
  tail_eq := Or.inl rfl
  covers _ := Iff.rfl
  free := Or.inl front
  ahead _ lt := by omega

theorem Cut.meeting {h t : ℕ} (filled : b.start < b.finish) (hstart : b.start ≤ t)
    (hlast : h < b.finish) (outside : ¬(h < b.start ∧ b.finish < t)) :
    Cut b h t (if b.start ≤ h then b.finish else h) (if t ≤ b.finish then b.start else t) := by
  by_cases hbh : b.start ≤ h
  · rw [if_pos hbh]
    by_cases htb : t ≤ b.finish
    · rw [if_pos htb]
      exact ⟨hlast.le, hstart, Or.inr rfl, Or.inr rfl, fun q => by unfold Block.Holds; omega,
        Or.inl le_rfl, fun _ _ => by omega⟩
    · rw [if_neg htb]
      exact ⟨hlast.le, le_rfl, Or.inr rfl, Or.inl rfl, fun q => by unfold Block.Holds; omega,
        Or.inl le_rfl, fun _ _ => by omega⟩
  · rw [if_neg hbh, if_pos (by omega)]
    exact ⟨le_rfl, hstart, Or.inl rfl, Or.inr rfl, fun q => by unfold Block.Holds; omega,
      Or.inr le_rfl, fun _ _ => by omega⟩

namespace Trimmed

variable {l kept : List (Block UInt8)} {b : Block UInt8} {h t head tail : ℕ}

theorem nil : Trimmed [] h t [] h t where
  sub := .slnil
  head_le := le_rfl
  tail_le := le_rfl
  head_eq := Or.inl rfl
  tail_eq := Or.inl rfl
  covers _ := Iff.rfl
  free := by simp
  same _ := rfl
  ahead lt _ := lt

theorem behind (after : ∀ b ∈ l, t ≤ b.start) : Trimmed l h t l h t where
  sub := .refl l
  head_le := le_rfl
  tail_le := le_rfl
  head_eq := Or.inl rfl
  tail_eq := Or.inl rfl
  covers _ := Iff.rfl
  free b hb := Or.inr (after b hb)
  same _ := rfl
  ahead lt _ := lt

theorem erase (rest : Trimmed l h t kept head tail) (apart : Apart (b :: l))
    (filled : b.start < b.finish) (hstart : h < b.start) (hfinish : b.finish < t) :
    Trimmed (b :: l) h t kept head tail where
  sub := rest.sub.cons b
  head_le := rest.head_le
  tail_le := rest.tail_le
  head_eq := rest.head_eq.imp_right fun ⟨c, hc, heq⟩ => ⟨c, by simp [hc], heq⟩
  tail_eq := rest.tail_eq.imp_right fun ⟨c, hc, heq⟩ => ⟨c, by simp [hc], heq⟩
  covers q := by
    rw [rest.covers, covers_cons, Block.Holds]
    constructor
    · tauto
    · rintro ((hb | hl) | hq)
      · exact Or.inr (by omega)
      · exact Or.inl hl
      · exact Or.inr hq
  free := rest.free
  same le := by
    have hahead := rest.ahead (by omega) fun c hc => by
      have hbc := (apart_cons.mp apart).1 c hc
      omega
    omega
  ahead lt all := rest.ahead lt fun c hc => all c (by simp [hc])

theorem keep {h' t' : ℕ} (rest : Trimmed l h' t' kept head tail) (cut : Cut b h t h' t') :
    Trimmed (b :: l) h t (b :: kept) head tail where
  sub := rest.sub.cons_cons b
  head_le := cut.head_le.trans rest.head_le
  tail_le := rest.tail_le.trans cut.tail_le
  head_eq := by
    rcases rest.head_eq with heq | ⟨c, hc, heq⟩
    · rcases cut.head_eq with heq' | heq'
      · exact Or.inl (heq.trans heq')
      · exact Or.inr ⟨b, by simp, heq.trans heq'⟩
    · exact Or.inr ⟨c, by simp [hc], heq⟩
  tail_eq := by
    rcases rest.tail_eq with heq | ⟨c, hc, heq⟩
    · rcases cut.tail_eq with heq' | heq'
      · exact Or.inl (heq.trans heq')
      · exact Or.inr ⟨b, by simp, heq.trans heq'⟩
    · exact Or.inr ⟨c, by simp [hc], heq⟩
  covers q := by
    rw [covers_cons, covers_cons, or_assoc, rest.covers, or_left_comm, cut.covers, or_left_comm,
      or_assoc]
  free c hc := by
    rcases mem_cons.mp hc with rfl | hmem
    · have hhead := rest.head_le
      have htail := rest.tail_le
      have hfree := cut.free
      omega
    · exact rest.free c hmem
  same le := by rw [rest.same le]
  ahead lt all := by
    obtain ⟨rfl, hlt⟩ := cut.ahead lt (all b (by simp))
    exact rest.ahead hlt fun c hc => all c (by simp [hc])

end Trimmed

/-- The piece from `h` to `t` has a place in front of the block that no block holds, and ends behind
the block. -/
def Enclosed (l : List (Block UInt8)) (h t : ℕ) (c : Block UInt8) : Prop :=
  c.finish < t ∧ ∃ q, h ≤ q ∧ q < c.start ∧ ¬Covers l q

theorem Enclosed.of_keep {c : Block UInt8} {h t h' t' : ℕ}
    (enclosed : Enclosed l h' t' c) (cut : Cut b h t h' t') (filled : c.start < c.finish) :
    Enclosed (b :: l) h t c := by
  obtain ⟨hfinish, q, hq, hlt, hgap⟩ := enclosed
  have head_le := cut.head_le
  have tail_le := cut.tail_le
  have free := cut.free
  refine ⟨by omega, q, by omega, hlt, ?_⟩
  rw [covers_cons, Block.Holds]
  rintro (hholds | hmem)
  · omega
  · exact hgap hmem

theorem Enclosed.first {c : Block UInt8} {h t : ℕ}
    (apart : Apart (b :: l)) (hstart : h < b.start) (filled : b.start < b.finish)
    (hc : b.start ≤ c.start) (hfinish : c.finish < t) : Enclosed (b :: l) h t c := by
  refine ⟨hfinish, h, le_rfl, by omega, ?_⟩
  rintro ⟨d, hd, hholds⟩
  unfold Block.Holds at hholds
  rcases mem_cons.mp hd with rfl | hmem
  · omega
  · have hbd := (apart_cons.mp apart).1 d hmem
    omega

theorem removeOverlap_spec {lo : ℕ} (apart : Apart l)
    (filled : ∀ b ∈ l, b.start < b.finish) (within : Within lo l) {h t : ℕ}
    (hlo : lo ≤ h) (hhi : h < lo + 2 ^ 31) (tlo : lo ≤ t) (thi : t < lo + 2 ^ 31) (c : ℕ) :
    ∃ kept head tail, Trimmed l h t kept head tail ∧ (∀ d ∈ l, d ∈ kept ∨ Enclosed l h t d) ∧
      removeOverlap (l.map (entry n)) (.ofNat (c + total l)) (offset n h) (offset n t) =
        ⟨kept.map (entry n), .ofNat (c + total kept), offset n head, offset n tail⟩ := by
  induction l generalizing h t c with
  | nil => exact ⟨[], h, t, .nil, by simp, rfl⟩
  | cons b l ih =>
    have hb := filled b (by simp)
    have hbabove := within.above b (by simp)
    have hbbelow := within.below b (by simp)
    obtain ⟨hfirst, hrest⟩ := apart_cons.mp apart
    have hfilled : ∀ d ∈ l, d.start < d.finish := fun d hd => filled d (by simp [hd])
    have ih' := @ih hrest hfilled within.tail
    have hsize : .ofNat (c + total (b :: l)) =
        .ofNat (c + total l) + Packet.getSize b.bytes := by
      rw [Packet.getSize, ← UInt32.ofNat_add, total_cons]
      congr 1
      omega
    have hcons : ∀ k : List (Block UInt8), UInt32.ofNat (c + b.bytes.length + total k) =
        UInt32.ofNat (c + total (b :: k)) := by
      intro k
      rw [total_cons, Nat.add_assoc]
    -- The block is kept, and the piece goes on from `h'` to `t'`.
    have keep : ∀ {h' t' : ℕ}, Cut b h t h' t' → ∃ kept head tail,
        Trimmed (b :: l) h t (b :: kept) head tail ∧
          (∀ d ∈ b :: l, d ∈ b :: kept ∨ Enclosed (b :: l) h t d) ∧
          removeOverlap (l.map (entry n)) (.ofNat (c + total (b :: l))) (offset n h')
            (offset n t') = ⟨kept.map (entry n), .ofNat (c + total (b :: kept)),
              offset n head, offset n tail⟩ := by
      intro h' t' cut
      have hh' := cut.head_eq
      have ht' := cut.tail_eq
      obtain ⟨kept, head, tail, htrim, hrest, heq⟩ :=
        @ih' h' t' (by omega) (by omega) (by omega) (by omega) (c + b.bytes.length)
      rw [hcons, hcons] at heq
      refine ⟨kept, head, tail, htrim.keep cut, fun d hd => ?_, heq⟩
      rcases mem_cons.mp hd with rfl | hmem
      · exact Or.inl (by simp)
      · refine (hrest d hmem).imp (fun hkept => by simp [hkept]) fun enclosed => ?_
        exact enclosed.of_keep cut (hfilled d hmem)
    rw [map_cons, entry, removeOverlap]
    simp only [add_finish]
    rw [lessEqual_offset n (by omega) (by omega), greater_offset n (by omega) (by omega),
      greater_offset n (by omega) (by omega), less_offset n (by omega) (by omega),
      lessEqual_offset n (by omega) (by omega), greaterEqual_offset n (by omega) (by omega)]
    by_cases hstart : b.start ≤ t
    · by_cases hlast : h < b.finish
      · by_cases hin : h < b.start ∧ b.finish < t
        · obtain ⟨kept, head, tail, htrim, hrest, heq⟩ := ih' hlo hhi tlo thi c
          refine ⟨kept, head, tail, htrim.erase apart hb hin.1 hin.2, fun d hd => ?_, ?_⟩
          · rcases mem_cons.mp hd with rfl | hmem
            · exact Or.inr (.first apart hin.1 hb le_rfl hin.2)
            · have hbd := hfirst d hmem
              exact (hrest d hmem).imp_right fun enclosed =>
                .first apart hin.1 hb (by omega) enclosed.1
          simp only [hstart, hlast, hin.1, hin.2, decide_true, Bool.and_self, if_true]
          rw [hsize, UInt32.add_sub_cancel, heq]
        · obtain ⟨kept, head, tail, htrim, hrest, heq⟩ := keep (.meeting hb hstart hlast hin)
          refine ⟨b :: kept, head, tail, htrim, hrest, ?_⟩
          rw [apply_ite (offset n), apply_ite (offset n)] at heq
          simp only [hstart, hlast, decide_true, if_true, Bool.and_eq_true, decide_eq_true_eq, hin,
            if_false, heq]
          rfl
      · obtain ⟨kept, head, tail, htrim, hrest, heq⟩ := keep (.before hb (by omega))
        refine ⟨b :: kept, head, tail, htrim, hrest, ?_⟩
        simp only [hstart, hlast, decide_true, decide_false, if_true, Bool.false_eq_true,
          if_false, heq]
        rfl
    · refine ⟨b :: l, h, t, .behind fun d hd => ?_, fun d hd => Or.inl hd, ?_⟩
      · rcases mem_cons.mp hd with rfl | hmem
        · omega
        · have hbd := hfirst d hmem
          omega
      · simp [hstart, entry]

/-! ## Storing a packet -/

theorem insert_spec {lo : ℕ} (within : Within lo l)
    (above : lo ≤ b.start) (below : b.start < lo + 2 ^ 31) (new : ∀ c ∈ l, c.start ≠ b.start)
    (filled : ∀ c ∈ l, c.start < c.finish) :
    insert (l.map (entry n)) (offset n b.start) b.bytes =
    (Lib.Blocks.insert b l).map (entry n) := by
  induction l with
  | nil => rfl
  | cons c l ih =>
    have hc := filled c (by simp)
    have hcabove := within.above c (by simp)
    have hcbelow := within.below c (by simp)
    have hne := new c (by simp)
    have ih' := ih within.tail (fun d hd => new d (by simp [hd])) fun d hd =>
      filled d (by simp [hd])
    rw [map_cons, entry, insert, insert_cons, less_offset n (by omega) (by omega),
      less_offset n (by omega) (by omega)]
    by_cases hlt : c.start < b.start
    · simp only [hlt, decide_true, if_true, map_cons, ih']
      rfl
    · have hgt : b.start < c.start := by omega
      simp only [hlt, hgt, decide_true, decide_false, Bool.false_eq_true, if_true, if_false]
      rfl

structure Passes (next next' : ℕ) (passing : List ℕ) : Prop where
  between : ∀ m ∈ passing, next ≤ m ∧ m ≤ next'
  last : next' = next ∨ next' ∈ passing

def cleared (passing : List ℕ) (sack : List SackBlock) : List SackBlock :=
  sack.filter fun block => passing.all fun m => !block.2.lessEqual (offset n m)

theorem cleared_nil (sack : List SackBlock) : cleared n [] sack = sack := by
  simp [cleared]

theorem cleared_clearSackList (m : ℕ) (passing : List ℕ) (sack : List SackBlock) :
    cleared n passing (clearSackList sack (offset n m)) = cleared n (m :: passing) sack := by
  simp only [cleared, clearSackList, filter_filter, all_cons, Bool.and_comm]

theorem advance_spec {lo : ℕ} (apart : Apart l)
    (filled : ∀ b ∈ l, b.start < b.finish) (within : Within lo l) (next : ℕ)
    (above : lo ≤ next) (below : next < lo + 2 ^ 31)
    (passed : ∀ b ∈ l, b.start < next → b.finish ≤ next) (avail : UInt32) (sack : List SackBlock) :
    ∃ next' passing, next ≤ next' ∧ next' < lo + 2 ^ 31 ∧
      (∀ q, next ≤ q → q < next' → Covers l q) ∧ ¬Covers l next' ∧ Passes next next' passing ∧
      advance (l.map (entry n)) ⟨offset n next, avail, sack⟩ =
        ⟨offset n next', avail + .ofNat (next' - next), cleared n passing sack⟩ := by
  induction l generalizing next avail sack with
  | nil =>
    refine ⟨next, [], le_rfl, below, fun q _ _ => by omega, covers_nil, ⟨by simp, Or.inl rfl⟩, ?_⟩
    simp [advance, cleared_nil]
  | cons b l ih =>
    have hb := filled b (by simp)
    have hbabove := within.above b (by simp)
    have hbbelow := within.below b (by simp)
    obtain ⟨hfirst, hrest⟩ := apart_cons.mp apart
    have hfilled : ∀ d ∈ l, d.start < d.finish := fun d hd => filled d (by simp [hd])
    rw [map_cons, entry, advance, less_offset n (by omega) (by omega),
      greater_offset n (by omega) (by omega)]
    by_cases hlt : b.start < next
    · have hpassed := passed b (by simp) hlt
      obtain ⟨next', passing, hle, hnear, hcovers, hgap, hpasses, heq⟩ :=
        ih hrest hfilled within.tail
        next above below (fun d hd => passed d (by simp [hd])) avail sack
      refine ⟨next', passing, hle, hnear, fun q h h' =>
        covers_cons.mpr (Or.inr (hcovers q h h')), ?_, hpasses, ?_⟩
      · rw [covers_cons, Block.Holds]
        rintro (hholds | hmem)
        · omega
        · exact hgap hmem
      · simp only [hlt, decide_true, if_true, heq]
    · by_cases hgt : next < b.start
      · refine ⟨next, [], le_rfl, below, fun q _ _ => by omega, ?_, ⟨by simp, Or.inl rfl⟩, ?_⟩
        · rintro ⟨c, hc, hholds⟩
          unfold Block.Holds at hholds
          rcases mem_cons.mp hc with rfl | hmem
          · omega
          · have hbc := hfirst c hmem
            omega
        · simp [hlt, hgt, cleared_nil]
      · have heq : b.start = next := by omega
        obtain ⟨next', passing, hle, hnear, hcovers, hgap, hpasses, hrun⟩ :=
          ih hrest hfilled within.tail b.finish (by omega) (by omega)
          (fun d hd hlt => by have hbd := hfirst d hd; omega)
          (avail + Packet.getSize b.bytes) (clearSackList sack (offset n b.finish))
        refine ⟨next', b.finish :: passing, by omega, hnear, fun q h h' => covers_cons.mpr ?_, ?_,
          ⟨fun m hm => ?_, Or.inr ?_⟩, ?_⟩
        · by_cases hq : q < b.finish
          · exact Or.inl ⟨by omega, hq⟩
          · exact Or.inr (hcovers q (by omega) h')
        · rw [covers_cons, Block.Holds]
          rintro (hholds | hmem)
          · omega
          · exact hgap hmem
        · rcases mem_cons.mp hm with rfl | hmem
          · exact ⟨by omega, hle⟩
          · have hbetween := hpasses.between m hmem
            omega
        · exact mem_cons.mpr hpasses.last
        · have hsum : next' - next = b.bytes.length + (next' - b.finish) := by
            unfold Block.finish at hle ⊢
            omega
          simp only [hlt, hgt, decide_false, Bool.false_eq_true, if_false, add_finish, hrun]
          rw [cleared_clearSackList]
          rw [Packet.getSize, UInt32.add_assoc, ← UInt32.ofNat_add, hsum]

theorem toNat_ofNat {k : ℕ} (short : k < 2 ^ 32) : (UInt32.ofNat k).toNat = k :=
  UInt32.toNat_ofNat_of_lt' short

theorem sub_ofNat_add (x : UInt32) (j k : ℕ) :
    x - .ofNat (j + k) = x - .ofNat j - .ofNat k := by
  rw [UInt32.ofNat_add, UInt32.sub_eq_add_neg, UInt32.neg_add, UInt32.sub_eq_add_neg,
    ← UInt32.add_assoc, UInt32.sub_eq_add_neg (x - _), UInt32.sub_eq_add_neg x]

theorem createFragment_slice {a k len : ℕ} (fits : a + k ≤ len) (short : len < 2 ^ 32) (place : ℕ) :
    Packet.createFragment (slice stream place len) (.ofNat a) (.ofNat k) =
      slice stream (place + a) k := by
  have ha : (UInt32.ofNat a).toNat = a := toNat_ofNat (by omega)
  have hback : (UInt32.ofNat len - (UInt32.ofNat a + UInt32.ofNat k)).toNat = len - (a + k) := by
    rw [← UInt32.ofNat_add, UInt32.toNat_sub, UInt32.toNat_ofNat', UInt32.toNat_ofNat']
    omega
  unfold Packet.createFragment Packet.getSize
  rw [length_slice, hback, ha]
  dsimp only
  rw [drop_slice, length_slice, take_slice, Nat.min_eq_left (by omega)]
  congr 1
  omega

theorem mergeSackBlocks_ok (begin : SackBlock) (examined rest : List SackBlock) (fuel : ℕ)
    (enough : (examined.length + rest.length) * (examined.length + rest.length + 1) + rest.length <
      fuel) : ∃ merged, mergeSackBlocks fuel begin examined rest = .ok merged := by
  induction fuel generalizing begin examined rest with
  | zero => omega
  | succ fuel ih =>
    cases rest with
    | nil => exact ⟨_, rfl⟩
    | cons current rest =>
      have hmerge : ∀ block : SackBlock,
          ∃ merged, mergeSackBlocks fuel block [] (examined ++ rest) = .ok merged := by
        intro block
        refine ih block [] (examined ++ rest) ?_
        simp only [length_cons, length_append, length_nil, Nat.zero_add] at enough ⊢
        nlinarith
      rw [mergeSackBlocks]
      split_ifs
      · exact hmerge _
      · exact hmerge _
      · refine ih _ _ _ ?_
        simp only [length_cons, length_append, length_nil] at enough ⊢
        have hsum : examined.length + (0 + 1) + rest.length =
            examined.length + (rest.length + 1) := by
          omega
        rw [hsum]
        omega

theorem updateSackList_ok (sackList : List SackBlock) (head tail : SequenceNumber32) :
    ∃ sackList', updateSackList sackList head tail = .ok sackList' := by
  obtain ⟨merged, hmerged⟩ := mergeSackBlocks_ok (head, tail) [] sackList
    ((sackList.length + 1) * (sackList.length + 1)) (by
      simp only [length_nil, Nat.zero_add]
      nlinarith)
  rw [updateSackList, hmerged]
  exact ⟨_, rfl⟩

/-- The blocks of a buffer from which `out` bytes were extracted and which waits for `next`. -/
structure Held (b : TcpRxBuffer) (out next : ℕ) (l : List (Block UInt8)) : Prop where
  data : b.m_data = l.map (entry n)
  apart : Apart l
  carry : ∀ c ∈ l, c.Carries stream
  within : Within out l
  nextRxSeq : b.m_nextRxSeq = offset n next
  le : out ≤ next
  near : next < out + 2 ^ 31
  filled : ∀ q, out ≤ q → q < next → Covers l q
  gap : ¬Covers l next
  avail : b.m_availBytes = .ofNat (next - out)
  size : b.m_size = .ofNat (total l)
  noFin : b.m_gotFin = false

namespace Held

variable {n stream} {b : TcpRxBuffer} {out next : ℕ} {l : List (Block UInt8)}

theorem filled_lt (held : Held n stream b out next l) : ∀ c ∈ l, c.start < c.finish :=
  fun c hc => (held.carry c hc).filled

theorem total_lt (held : Held n stream b out next l) : total l < 2 ^ 31 := by
  have hbelow : ∀ c ∈ l, c.finish ≤ out + (2 ^ 31 - 1) := fun c hc => by
    have hlt := held.within.below c hc
    omega
  have hle := total_le held.apart held.carry held.within.above hbelow
  omega

theorem passed (held : Held n stream b out next l) : ∀ c ∈ l, c.start < next → c.finish ≤ next := by
  intro c hc hlt
  by_contra hgt
  exact held.gap ⟨c, hc, by omega, by omega⟩

end Held

/-- How the piece from `place` to `t` is stored: a block takes the place of the ones that it
encloses, and above the frontier it is reported. -/
structure Stored (b b' : TcpRxBuffer) (next next' : ℕ) (l l' : List (Block UInt8)) (place t : ℕ)
    (kept : List (Block UInt8)) (block : Block UInt8) : Prop where
  filled : block.start < block.finish
  blocks : l' = Lib.Blocks.insert block kept
  free : ∀ c ∈ kept, c.finish ≤ block.start ∨ block.finish ≤ c.start
  kept_sub : kept.Sublist l
  enclosed : ∀ c ∈ l, c ∈ kept ∨ Enclosed l (max place next) t c
  later : next < block.start → next < place
  sack : ∃ sack passing, (if (offset n block.start).greater b.m_nextRxSeq then
      updateSackList b.m_sackList (offset n block.start) (offset n block.finish)
        else .ok b.m_sackList) = .ok sack ∧
    Passes next next' passing ∧ b'.m_sackList = cleared n passing sack

/-! ## Add -/

def cut (l : List (Block UInt8)) (maxBuffer : UInt32) (finish : ℕ) : ℕ :=
  match l.head? with
  | none => finish
  | some c => min finish (c.start + maxBuffer.toNat)

section Add

variable {n stream} {b : TcpRxBuffer} {out next : ℕ} {l : List (Block UInt8)}
  (held : Held n stream b out next l) {place length : ℕ}
  (within : Within (min place out) l) (near : place + length < min place out + 2 ^ 31)
  (window : ∀ c ∈ l.head?, c.start + b.m_maxBuffer.toNat < place + length + 2 ^ 31)
  (nextNear : next < min place out + 2 ^ 31)
include held within near window nextNear

theorem trimToWindow_spec : ∃ h, trimToWindow b (offset n place) (offset n (place + length)) =
        (offset n h, offset n (cut l b.m_maxBuffer (place + length))) ∧ (h = max place next ∨
        (h = cut l b.m_maxBuffer (place + length) ∧ h ≤ max place next)) ∧
      min place out ≤ h ∧ min place out ≤ cut l b.m_maxBuffer (place + length) ∧
      cut l b.m_maxBuffer (place + length) ≤ place + length := by
  have hle := held.le
  have hhead : (if (offset n place).less b.m_nextRxSeq then b.m_nextRxSeq else offset n place) =
      offset n (max place next) := by
    rw [held.nextRxSeq, less_offset n (by omega) (by omega)]
    by_cases hlt : place < next
    · simp [hlt, Nat.max_eq_right hlt.le]
    · simp [hlt, Nat.max_eq_left (Nat.le_of_not_lt hlt)]
  cases l with
  | nil =>
    refine ⟨max place next, ?_, Or.inl rfl, by omega, by
      simp only [cut, List.head?_nil]; omega, le_rfl⟩
    rw [trimToWindow, hhead, held.data]
    rfl
  | cons c l =>
    have hc := within.above c (by simp)
    have hcout := held.within.above c (by simp)
    have hwindow := window c (by simp)
    have hcbelow := within.below c (by simp)
    have hfilled := held.filled_lt c (by simp)
    obtain ⟨t, ht⟩ : ∃ t, t = cut (c :: l) b.m_maxBuffer (place + length) := ⟨_, rfl⟩
    have ht' : t = min (place + length) (c.start + b.m_maxBuffer.toNat) := ht
    rw [← ht]
    have htail : (if ((offset n c.start).add b.m_maxBuffer).less (offset n (place + length)) then
        (offset n c.start).add b.m_maxBuffer else offset n (place + length)) = offset n t := by
      have hadd : (offset n c.start).add b.m_maxBuffer =
          offset n (c.start + b.m_maxBuffer.toNat) := by
        rw [← add_offset, UInt32.ofNat_toNat]
      rw [hadd, less_offset n (by omega) (by omega)]
      by_cases hlt : c.start + b.m_maxBuffer.toNat < place + length
      · rw [if_pos (decide_eq_true hlt), ht', Nat.min_eq_right hlt.le]
      · rw [if_neg (by simpa using hlt), ht', Nat.min_eq_left (Nat.le_of_not_lt hlt)]
    have hcut : trimToWindow b (offset n place) (offset n (place + length)) =
        (if (offset n t).less (offset n (max place next)) then offset n t
          else offset n (max place next), offset n t) := by
      rw [trimToWindow, hhead, held.data, map_cons, entry]
      dsimp only
      rw [htail]
    rw [less_offset n (by omega) (by omega)] at hcut
    by_cases hlt : t < max place next
    · refine ⟨t, ?_, Or.inr ⟨rfl, hlt.le⟩, by omega, by omega, by omega⟩
      rw [hcut, if_pos (decide_eq_true hlt)]
    · refine ⟨max place next, ?_, Or.inl rfl, by omega, by omega, by omega⟩
      rw [hcut, if_neg (by simpa using hlt)]

omit within near window nextNear in
theorem covers_trimmed {h t q : ℕ} (hcases : h = max place next ∨ (h = t ∧ h ≤ max place next))
    (hq : out ≤ q) : Covers l q ∨ (h ≤ q ∧ q < t) ↔ Covers l q ∨ (place ≤ q ∧ q < t) := by
  by_cases hcovers : Covers l q
  · simp [hcovers]
  · have hnext : next ≤ q := by
      by_contra hlt
      exact hcovers (held.filled q hq (by omega))
    simp only [hcovers, false_or]
    omega

omit held within near window nextNear in
theorem finish_slice {head tail : ℕ} (le : head ≤ tail) :
    (⟨head, slice stream head (tail - head)⟩ : Block UInt8).finish = tail := by
  rw [Block.finish, length_slice]
  exact Nat.add_sub_cancel' le

omit within near window nextNear in
theorem stored_block {h t head tail : ℕ} {kept : List (Block UInt8)}
    (trimmed : Trimmed l h t kept head tail) (lt : head < tail) (hnext : next ≤ h)
    (ht : t < out + 2 ^ 31) {block : Block UInt8}
    (hblock : block = ⟨head, slice stream head (tail - head)⟩) :
    Apart (Lib.Blocks.insert block kept) ∧ (∀ c ∈ Lib.Blocks.insert block kept, c.Carries stream) ∧
      Within out (Lib.Blocks.insert block kept) ∧
      (∀ c ∈ Lib.Blocks.insert block kept, c.start < next → c.finish ≤ next) ∧
      ∀ q, Covers (Lib.Blocks.insert block kept) q ↔ Covers l q ∨ (h ≤ q ∧ q < t) := by
  have hle := held.le
  have hhead := trimmed.head_le
  have htail := trimmed.tail_le
  have hstart : block.start = head := by rw [hblock]
  have hfinish : block.finish = tail := hblock ▸ finish_slice lt.le
  have hcarries : block.Carries stream := by
    refine ⟨by omega, ?_⟩
    rw [hblock, length_slice]
  have hkept : ∀ c ∈ kept, c.Carries stream := fun c hc => held.carry c (trimmed.sub.subset hc)
  have hmem : ∀ c ∈ Lib.Blocks.insert block kept, c = block ∨ c ∈ kept := fun c hc =>
    mem_cons.mp ((insert_perm block kept).mem_iff.mp hc)
  refine ⟨?_, fun c hc => ?_, ⟨fun c hc => ?_, fun c hc => ?_⟩, fun c hc hlt => ?_, fun q => ?_⟩
  · refine apart_insert (held.apart.sublist trimmed.sub) hkept hcarries fun c hc => ?_
    rw [hstart, hfinish]
    exact trimmed.free c hc
  · rcases hmem c hc with rfl | hc
    · exact hcarries
    · exact hkept c hc
  · rcases hmem c hc with rfl | hc
    · omega
    · exact held.within.above c (trimmed.sub.subset hc)
  · rcases hmem c hc with rfl | hc
    · omega
    · exact held.within.below c (trimmed.sub.subset hc)
  · rcases hmem c hc with rfl | hc
    · omega
    · exact held.passed c (trimmed.sub.subset hc) hlt
  · rw [covers_perm (insert_perm block kept), covers_cons, ← trimmed.covers, Block.Holds, hstart,
      hfinish, or_comm]

omit near window nextNear in
theorem insert_trimmed {h t head tail : ℕ} {kept : List (Block UInt8)}
    (trimmed : Trimmed l h t kept head tail) (lt : head < tail) (above : min place out ≤ head)
    (below : head < min place out + 2 ^ 31) {block : Block UInt8}
    (hblock : block = ⟨head, slice stream head (tail - head)⟩) :
    insert (kept.map (entry n)) (offset n head) block.bytes =
      (Lib.Blocks.insert block kept).map (entry n) := by
  have hwithin : Within (min place out) kept :=
    ⟨fun c hc => within.above c (trimmed.sub.subset hc),
      fun c hc => within.below c (trimmed.sub.subset hc)⟩
  have hfilled : ∀ c ∈ kept, c.start < c.finish := fun c hc =>
    held.filled_lt c (trimmed.sub.subset hc)
  have hstart : block.start = head := by rw [hblock]
  rw [← hstart]
  refine insert_spec n hwithin (by omega) (by omega) (fun c hc => ?_) hfilled
  have hlt := hfilled c hc
  rcases trimmed.free c hc with hbefore | hafter
  · omega
  · omega

omit within near window nextNear in
theorem head_of_gap {h t head tail : ℕ} {kept : List (Block UInt8)}
    (trimmed : Trimmed l h t kept head tail) (lt : head < tail) (hh : h = max place next)
    (later : next < head) : next < place := by
  by_contra hle
  have heq : h = next := by omega
  subst heq
  have hhead := trimmed.head_le
  have htail := trimmed.tail_le
  rcases (trimmed.covers h).mpr (Or.inr (by omega)) with ⟨c, hc, hholds⟩ | hrange
  · exact held.gap ⟨c, trimmed.sub.subset hc, hholds⟩
  · omega

theorem add_spec : ∃ found b' next' l',
    add b (slice stream place length) (offset n place) = .ok (found, b') ∧
      Held n stream b' out next' l' ∧ (∀ q, out ≤ q → (Covers l' q ↔
        Covers l q ∨ (place ≤ q ∧ q < cut l b.m_maxBuffer (place + length)))) ∧
      (b' = { b with m_size := b'.m_size } ∧ l' = l ∨
        ∃ kept block, Stored n b b' next next' l l' place
          (cut l b.m_maxBuffer (place + length)) kept block) := by
  obtain ⟨h, hwindow, hcases, hlo, tlo, thi⟩ := trimToWindow_spec held within near window nextNear
  obtain ⟨t, ht⟩ : ∃ t, t = cut l b.m_maxBuffer (place + length) := ⟨_, rfl⟩
  rw [← ht] at hwindow hcases tlo thi ⊢
  have hle := held.le
  obtain ⟨kept, head, tail, trimmed, henclosed, hrun⟩ :=
    removeOverlap_spec n held.apart held.filled_lt within
    (h := h) (t := t) hlo (by omega) tlo (by omega) 0
  rw [Nat.zero_add, Nat.zero_add, ← held.data, ← held.size] at hrun
  have hhead : head < min place out + 2 ^ 31 := by
    rcases trimmed.head_eq with heq | ⟨c, hc, heq⟩
    · omega
    · have hbelow := within.below c hc
      omega
  have htail : min place out ≤ tail := by
    rcases trimmed.tail_eq with heq | ⟨c, hc, heq⟩
    · omega
    · have habove := within.above c hc
      omega
  have hhle := trimmed.head_le
  have htle := trimmed.tail_le
  have hcovers := fun q (hq : out ≤ q) => covers_trimmed held hcases hq
  have hsize : (offset n place).add (Packet.getSize (slice stream place length)) =
      offset n (place + length) := by
    rw [Packet.getSize, length_slice, add_offset]
  have hge : (offset n head).greaterEqual (offset n tail) = decide (tail ≤ head) :=
    greaterEqual_offset n (by omega) (by omega)
  by_cases hlt : head < tail
  · have hnext : h = max place next := by omega
    obtain ⟨block, hblock⟩ : ∃ block : Block UInt8, block =
      ⟨head, slice stream head (tail - head)⟩ :=
      ⟨_, rfl⟩
    obtain ⟨hapart, hcarry, hwithin, hpassed, hstored⟩ :=
      stored_block held trimmed hlt (by omega) (by omega) hblock
    have hfragment : Packet.createFragment (slice stream place length)
        ((offset n head).sub (offset n place)) ((offset n tail).sub (offset n head)) =
          block.bytes := by
      rw [sub_offset n (by omega), sub_offset n hlt.le,
        createFragment_slice stream (by omega) (by omega), hblock, Nat.add_sub_cancel' (by omega)]
    have hinsert := insert_trimmed held within trimmed hlt (by omega) hhead hblock
    obtain ⟨sack, hsack⟩ : ∃ sack, (if (offset n head).greater b.m_nextRxSeq then
        updateSackList b.m_sackList (offset n head) (offset n tail) else .ok b.m_sackList) =
          .ok sack := by
      split_ifs
      · exact updateSackList_ok _ _ _
      · exact ⟨_, rfl⟩
    obtain ⟨next', passing, hnextle, hnextnear, hfilled, hgap, hpasses, hadvance⟩ :=
      advance_spec n hapart
      (fun c hc => (hcarry c hc).filled) hwithin next held.le held.near hpassed b.m_availBytes sack
    rw [← held.nextRxSeq] at hadvance
    refine ⟨true, { b with
      m_data := (Lib.Blocks.insert block kept).map (entry n)
      m_size := .ofNat (total kept) + Packet.getSize block.bytes
      m_availBytes := b.m_availBytes + .ofNat (next' - next)
      m_sackList := cleared n passing sack
      m_nextRxSeq := offset n next' }, next', Lib.Blocks.insert block kept, ?_, ?_,
      fun q hq => (hstored q).trans (hcovers q hq), Or.inr ⟨kept, block, ?_⟩⟩
    · rw [add]
      simp only [hsize, hwindow, hrun, hge, decide_eq_true_eq, Nat.not_le_of_lt hlt, if_false,
        hfragment, hinsert, bind, Except.bind, held.noFin, Bool.false_and, Bool.false_eq_true]
      split_ifs at hsack ⊢
      · rw [hsack]
        simp only [hadvance]
      · obtain rfl := Except.ok.inj hsack
        simp only [hadvance]
    · refine ⟨rfl, hapart, hcarry, hwithin, rfl, by
        omega, hnextnear, fun q hq hq' => ?_, hgap, ?_, ?_, held.noFin⟩
      · by_cases hold : q < next
        · exact (hstored q).mpr (Or.inl (held.filled q hq hold))
        · exact hfilled q (by omega) hq'
      · have hsum : next - out + (next' - next) = next' - out := by omega
        rw [← hsum, UInt32.ofNat_add, ← held.avail]
      · rw [Packet.getSize, ← UInt32.ofNat_add, total_perm (insert_perm block kept), total_cons,
          Nat.add_comm]
    · have hstart : block.start = head := by rw [hblock]
      have hfinish : block.finish = tail := hblock ▸ finish_slice hlt.le
      refine ⟨by omega, rfl, ?_, trimmed.sub, ?_, ?_, sack, passing, ?_, hpasses, rfl⟩
      · rw [hstart, hfinish]
        exact trimmed.free
      · rw [← hnext]
        exact henclosed
      · rw [hstart]
        exact head_of_gap held trimmed hlt hnext
      · rw [hstart, hfinish]
        exact hsack
  · have hkept := trimmed.same (by omega)
    refine ⟨false, { b with m_data := kept.map (entry n), m_size := .ofNat (total kept) },
      next, l, ?_, ?_, fun q hq => ?_, Or.inl ⟨?_, rfl⟩⟩
    · rw [add]
      simp only [hsize, hwindow, hrun, hge, decide_eq_true_eq, Nat.le_of_not_lt hlt, if_true]
    · rw [hkept]
      exact { held with data := rfl, size := rfl }
    · have hq' := trimmed.covers q
      rw [hkept] at hq'
      have hnone : ¬(head ≤ q ∧ q < tail) := by omega
      rw [← hcovers q hq, ← hq', or_iff_left hnone]
    · rw [hkept, ← held.data]

end Add

/-! ## Extract -/

section Extract

variable {n stream} {out next : ℕ} {l : List (Block UInt8)}

theorem start_eq {c : Block UInt8} (apart : Apart (c :: l)) (carry : ∀ d ∈ c :: l, d.Carries stream)
    (above : ∀ d ∈ c :: l, out ≤ d.start) (covered : Covers (c :: l) out) : c.start = out := by
  have hc := above c (by simp)
  have hfilled := (carry c (by simp)).filled
  obtain ⟨d, hd, hholds⟩ := covered
  unfold Block.Holds at hholds
  rcases mem_cons.mp hd with rfl | hmem
  · omega
  · have hcd := (apart_cons.mp apart).1 d hmem
    omega

theorem extractLoop_zero (b : TcpRxBuffer) (data : Data) (outPkt : Packet) :
    extractLoop (.ofNat 0) b data outPkt = .ok (outPkt ++ slice stream out 0, { b with
        m_data := data
        m_size := b.m_size
        m_availBytes := b.m_availBytes - .ofNat 0 }) := by
  cases data <;> simp [extractLoop, slice]

structure Taken (stream : ℕ → UInt8) (out k : ℕ) (l l' : List (Block UInt8)) : Prop where
  apart : Apart l'
  carry : ∀ c ∈ l', c.Carries stream
  within : Within (out + k) l'
  covers : ∀ q, out + k ≤ q → (Covers l' q ↔ Covers l q)

theorem Taken.nothing (apart : Apart l) (carry : ∀ c ∈ l, c.Carries stream)
    (within : Within out l) : Taken stream out 0 l l := ⟨apart, carry, within, fun _ _ => Iff.rfl⟩

theorem Taken.first {c : Block UInt8} {j : ℕ} {l' : List (Block UInt8)}
    (hfinish : c.finish = out + c.bytes.length)
    (h : Taken stream (out + c.bytes.length) j l l') : Taken stream out (c.bytes.length + j)
    (c :: l) l' := by
  refine ⟨h.apart, h.carry, ?_, fun q hq => ?_⟩
  · rw [← Nat.add_assoc]
    exact h.within
  · have hnot : ¬c.Holds q := fun hholds => by
      unfold Block.Holds at hholds
      omega
    rw [h.covers q (by omega), covers_cons, or_iff_right hnot]

theorem Taken.cut {c behind : Block UInt8} {k : ℕ} (apart : Apart (c :: l))
    (carry : ∀ d ∈ c :: l, d.Carries stream)
    (within : Within out (c :: l)) (hstart : c.start = out) (less : k < c.bytes.length)
    (hbehind : behind = ⟨out + k, slice stream (out + k) (c.bytes.length - k)⟩) :
    Taken stream out k (c :: l) (behind :: l) := by
  obtain ⟨hfirst, hrest⟩ := apart_cons.mp apart
  have hbstart : behind.start = out + k := by rw [hbehind]
  have hfinish : c.finish = out + c.bytes.length := by rw [Block.finish, hstart]
  have hbfinish : behind.finish = c.finish := by
    rw [hbehind, Block.finish, length_slice, hfinish]
    dsimp only
    omega
  have hbelow := within.below c (by simp)
  refine ⟨?_, fun d hd => ?_, ⟨fun d hd => ?_, fun d hd => ?_⟩, fun q hq => ?_⟩
  · rw [apart_cons, hbfinish]
    exact ⟨hfirst, hrest⟩
  · rcases mem_cons.mp hd with rfl | hd
    · refine ⟨by omega, ?_⟩
      rw [hbehind, length_slice]
    · exact carry d (by simp [hd])
  · rcases mem_cons.mp hd with rfl | hd
    · exact hbstart.ge
    · have hcd := hfirst d hd
      omega
  · rcases mem_cons.mp hd with rfl | hd
    · omega
    · have hd := within.below d (by simp [hd])
      omega
  · rw [covers_cons, covers_cons]
    refine or_congr ?_ Iff.rfl
    unfold Block.Holds
    omega

theorem ofNat_ne_zero {k : ℕ} (hk : k ≠ 0) (short : k < 2 ^ 32) : UInt32.ofNat k ≠ 0 :=
  fun heq => by
  have hknat := toNat_ofNat (k := k) short
  rw [heq] at hknat
  exact hk hknat.symm

theorem extractLoop_cut {c : Block UInt8} (apart : Apart (c :: l))
    (carry : ∀ d ∈ c :: l, d.Carries stream)
    (within : Within out (c :: l)) (hstart : c.start = out) {k : ℕ} (hk : k ≠ 0)
    (less : k < c.bytes.length)
    {b : TcpRxBuffer} (size : b.m_size = .ofNat (total (c :: l))) (outPkt : Packet) :
    ∃ l', extractLoop (.ofNat k) b ((c :: l).map (entry n)) outPkt =
        .ok (outPkt ++ slice stream out k, { b with
          m_data := l'.map (entry n)
          m_size := .ofNat (total l')
          m_availBytes := b.m_availBytes - UInt32.ofNat k }) ∧ Taken stream out k (c :: l) l' := by
  have hcarry := carry c (by simp)
  have hbelow := within.below c (by simp)
  have hfinish : c.finish = out + c.bytes.length := by rw [Block.finish, hstart]
  obtain ⟨j, hj⟩ := Nat.exists_eq_add_of_le less.le
  obtain ⟨behind, hbehind⟩ : ∃ behind : Block UInt8, behind =
    ⟨out + k, slice stream (out + k) (c.bytes.length - k)⟩ :=
    ⟨_, rfl⟩
  have hj' : c.bytes.length - k = j := by omega
  have hbytes : c.bytes = slice stream out (k + j) := by rw [hcarry.bytes, hstart, hj]
  have hbstart : behind.start = out + k := by rw [hbehind]
  have hlater : ∀ d ∈ l, behind.start < d.start := fun d hd => by
    have hcd := (apart_cons.mp apart).1 d hd
    omega
  have hput : Lib.Blocks.insert behind l = behind :: l := by
    cases l with
    | nil => rfl
    | cons d l => rw [insert_cons, if_neg (Nat.lt_asymm (hlater d (by simp)))]
  have hinsert : insert (l.map (entry n)) ((offset n c.start).add (.ofNat k)) behind.bytes =
      (behind :: l).map (entry n) := by
    rw [← hput, add_offset, hstart, ← hbstart]
    exact insert_spec n within.tail (by omega) (by omega) (fun d hd => (hlater d hd).ne')
      fun d hd => (carry d (by simp [hd])).filled
  have hcut : Packet.createFragment c.bytes (.ofNat k) (Packet.getSize c.bytes - .ofNat k) =
      behind.bytes := by
    have hsub : Packet.getSize c.bytes - .ofNat k = .ofNat j := by
      rw [Packet.getSize, hj, Nat.add_comm, UInt32.ofNat_add, UInt32.add_sub_cancel]
    rw [hsub, hbytes, createFragment_slice stream le_rfl (by omega), hbehind, hj']
  have hfront : Packet.createFragment c.bytes 0 (.ofNat k) = slice stream out k := by
    rw [hbytes]
    exact createFragment_slice stream (a := 0) (by omega) (by omega) out
  have hsize : b.m_size - .ofNat k = .ofNat (total (behind :: l)) := by
    have htotal : total (c :: l) = total (behind :: l) + k := by
      rw [total_cons, total_cons, hbehind, length_slice]
      omega
    rw [size, htotal, UInt32.ofNat_add, UInt32.add_sub_cancel]
  have hlong : ¬Packet.getSize c.bytes ≤ UInt32.ofNat k := by
    rw [Packet.getSize, UInt32.le_iff_toNat_le, toNat_ofNat (by omega), toNat_ofNat (by omega)]
    omega
  refine ⟨behind :: l, ?_, .cut apart carry within hstart less hbehind⟩
  rw [map_cons, entry, extractLoop, if_neg (ofNat_ne_zero hk (by omega))]
  dsimp only
  rw [if_neg hlong, hcut, hfront, hinsert, hsize]

theorem extractLoop_spec (apart : Apart l) (carry : ∀ c ∈ l, c.Carries stream)
    (within : Within out l) {k : ℕ} (available : ∀ q, out ≤ q → q < out + k → Covers l q)
    (short : k < 2 ^ 31) {b : TcpRxBuffer} (size : b.m_size = .ofNat (total l))
    (outPkt : Packet) :
    ∃ l', extractLoop (.ofNat k) b (l.map (entry n)) outPkt =
        .ok (outPkt ++ slice stream out k, { b with
          m_data := l'.map (entry n)
          m_size := .ofNat (total l')
          m_availBytes := b.m_availBytes - .ofNat k }) ∧ Taken stream out k l l' := by
  induction l generalizing out k b outPkt with
  | nil =>
    have hk : k = 0 := by
      by_contra hne
      exact covers_nil (available out le_rfl (by omega))
    subst hk
    refine ⟨[], ?_, .nothing apart carry ⟨by simp, by simp⟩⟩
    rw [← size]
    exact extractLoop_zero b _ outPkt
  | cons c l ih =>
    by_cases hk : k = 0
    · subst hk
      refine ⟨c :: l, ?_, .nothing apart carry within⟩
      rw [← size]
      exact extractLoop_zero b _ outPkt
    have hstart := start_eq apart carry within.above (available out le_rfl (by omega))
    by_cases hless : k < c.bytes.length
    · exact extractLoop_cut apart carry within hstart hk hless size outPkt
    · obtain ⟨j, rfl⟩ := Nat.exists_eq_add_of_le (Nat.le_of_not_lt hless)
      obtain ⟨hfirst, hrest⟩ := apart_cons.mp apart
      have hcarry := carry c (by simp)
      have hfinish : c.finish = out + c.bytes.length := by rw [Block.finish, hstart]
      have hwithin : Within (out + c.bytes.length) l :=
        ⟨fun d hd => hfinish ▸ hfirst d hd, fun d hd => by
          have hd := within.below d (by simp [hd])
          omega⟩
      have havailable : ∀ q, out + c.bytes.length ≤ q → q < out + c.bytes.length + j →
          Covers l q := by
        intro q hq hq'
        rcases covers_cons.mp (available q (by omega) (by omega)) with hholds | hcovers
        · unfold Block.Holds at hholds
          omega
        · exact hcovers
      have hrestSize : b.m_size - Packet.getSize c.bytes = .ofNat (total l) := by
        rw [size, total_cons, Nat.add_comm, UInt32.ofNat_add, Packet.getSize, UInt32.add_sub_cancel]
      obtain ⟨l', hrun, taken⟩ :=
        ih hrest (fun d hd => carry d (by simp [hd])) hwithin havailable (by omega) (b := { b with
          m_size := b.m_size - Packet.getSize c.bytes
          m_availBytes := b.m_availBytes - Packet.getSize c.bytes }) hrestSize (outPkt ++ c.bytes)
      refine ⟨l', ?_, taken.first hfinish⟩
      have hle : Packet.getSize c.bytes ≤ UInt32.ofNat (c.bytes.length + j) := by
        rw [Packet.getSize, UInt32.le_iff_toNat_le, toNat_ofNat (by omega), toNat_ofNat (by omega)]
        omega
      have hsub : .ofNat (c.bytes.length + j) - Packet.getSize c.bytes = .ofNat j := by
        rw [Nat.add_comm, UInt32.ofNat_add, Packet.getSize, UInt32.add_sub_cancel]
      have hbytes : c.bytes ++ slice stream (out + c.bytes.length) j =
          slice stream out (c.bytes.length + j) := by
        rw [← slice_append, ← hstart, ← hcarry.bytes]
      rw [map_cons, entry, extractLoop, if_neg (ofNat_ne_zero hk (by omega))]
      dsimp only
      rw [if_pos hle, hsub, hrun, append_assoc, hbytes, sub_ofNat_add]
      rfl

theorem extract_spec {b : TcpRxBuffer} (held : Held n stream b out next l) (maxSize : UInt32) :
    ∃ answer b' k l', extract b maxSize = .ok (answer, b') ∧
      answer.getD [] = slice stream out k ∧ out + k ≤ next ∧
      Held n stream b' (out + k) next l' ∧ ∀ q, out + k ≤ q → (Covers l' q ↔ Covers l q) := by
  have hle := held.le
  have hnear := held.near
  have havail : b.m_availBytes.toNat = next - out := by
    rw [held.avail, toNat_ofNat (by omega)]
  obtain ⟨k, hk⟩ : ∃ k, k = (min maxSize b.m_availBytes).toNat := ⟨_, rfl⟩
  have hkavail : k ≤ next - out := by
    have hmin : min maxSize b.m_availBytes =
        if maxSize ≤ b.m_availBytes then maxSize else b.m_availBytes := rfl
    rw [hk, ← havail, hmin]
    split_ifs with hmax
    · exact UInt32.le_iff_toNat_le.mp hmax
    · exact le_rfl
  have hmin : min maxSize b.m_availBytes = .ofNat k := by rw [hk, UInt32.ofNat_toNat]
  unfold extract
  rw [hmin]
  by_cases hzero : k = 0
  · subst hzero
    exact ⟨none, b, 0, l, rfl, rfl, by omega, held, fun _ _ => Iff.rfl⟩
  · have hkne : UInt32.ofNat k ≠ 0 := ofNat_ne_zero hzero (by omega)
    obtain ⟨l', hrun, hapart, hcarry, hwithin, hcovers⟩ :=
      extractLoop_spec (n := n) held.apart held.carry
      held.within (k := k) (fun q hq hq' => held.filled q hq (by omega)) (by omega) held.size []
    have hfull : ¬Packet.getSize (slice stream out k) = 0 := by
      rw [Packet.getSize, length_slice]
      exact hkne
    rw [if_neg hkne, held.data, hrun, nil_append]
    refine ⟨some (slice stream out k), _, k, l', if_neg hfull, rfl, by omega, ?_, hcovers⟩
    refine ⟨rfl, hapart, hcarry, hwithin, held.nextRxSeq, by omega, by
      omega, fun q hq hq' => ?_, ?_, ?_, rfl, held.noFin⟩
    · exact (hcovers q hq).mpr (held.filled q (by omega) hq')
    · exact fun h => held.gap ((hcovers next (by omega)).mp h)
    · have hsum : next - out = next - (out + k) + k := by omega
      dsimp only
      rw [held.avail, hsum, UInt32.ofNat_add, UInt32.add_sub_cancel]

end Extract

/-! ## Runs -/

/-- The blocks of a session: what was received and not extracted is stored. -/
structure Ok (next : ℕ) (l : List (Block UInt8)) : Prop where
  held : Held n stream s.buffer s.extracted.length next l
  isPrefix : s.extracted = slice stream 0 s.extracted.length
  extracted : ∀ q < s.extracted.length, s.Received q
  stored : ∀ q, s.extracted.length ≤ q → (s.Received q ↔ Covers l q)

namespace Ok

variable {n stream} {s : Session} {next : ℕ} {l : List (Block UInt8)} (ok : Ok n stream s next l)
include ok

theorem placeOf_eq {c : Block UInt8} (hc : c ∈ l) :
    placeOf n s.extracted.length (offset n c.start) = c.start := by
  have habove := ok.held.within.above c hc
  have hbelow := ok.held.within.below c hc
  have hfilled := ok.held.filled_lt c hc
  rw [placeOf, sub_offset n habove, toNat_ofNat (by omega), Nat.add_sub_cancel' habove]

theorem windowEnd_eq : windowEnd n s.buffer s.extracted.length =
    l.head?.map fun c => c.start + s.buffer.m_maxBuffer.toNat := by
  rw [windowEnd, ok.held.data, List.head?_map, Option.map_map]
  cases l with
  | nil => rfl
  | cons c l =>
    have hplace := ok.placeOf_eq (c := c) (by simp)
    simp only [List.head?_cons, Option.map_some, Function.comp, entry, hplace]

theorem inWindow_eq (finish : ℕ) :
    inWindow n s.buffer s.extracted.length finish = cut l s.buffer.m_maxBuffer finish := by
  rw [inWindow, ok.windowEnd_eq, cut]
  cases l.head? <;> rfl

theorem reach_spec : s.extracted.length ≤ reach n s.buffer s.extracted.length ∧
    (∀ c ∈ l, c.finish ≤ reach n s.buffer s.extracted.length) ∧
    next ≤ reach n s.buffer s.extracted.length := by
  have hreach : s.extracted.length ≤ reach n s.buffer s.extracted.length ∧
      ∀ c ∈ l, c.finish ≤ reach n s.buffer s.extracted.length := by
    rw [reach, ok.held.data]
    have hplace : ∀ c ∈ l, placeOf n s.extracted.length (offset n c.start) = c.start :=
      fun c hc => ok.placeOf_eq hc
    clear ok
    induction l with
    | nil => simp
    | cons c l ih =>
      have ih' := ih fun d hd => hplace d (by simp [hd])
      simp only [map_cons, foldr_cons, entry, hplace c (by simp)]
      refine ⟨ih'.1.trans (le_max_right _ _), fun d hd => ?_⟩
      rcases mem_cons.mp hd with rfl | hmem
      · exact le_max_left _ _
      · exact (ih'.2 d hmem).trans (le_max_right _ _)
  refine ⟨hreach.1, hreach.2, ?_⟩
  by_contra hlt
  obtain ⟨c, hc, hholds⟩ := ok.held.filled (next - 1) (by omega) (by omega)
  have hfinish := hreach.2 c hc
  unfold Block.Holds at hholds
  omega

theorem reassembled : Reassembled n stream s next := by
  have held := ok.held
  have hle := held.le
  have hnear := held.near
  refine ⟨ok.isPrefix, held.nextRxSeq, ⟨?_, fun q hq => ?_⟩, ?_, ?_, ?_⟩
  · exact fun h => held.gap ((ok.stored next hle).mp h)
  · by_contra hlt
    by_cases hout : q < s.extracted.length
    · exact hq (ok.extracted q hout)
    · exact hq ((ok.stored q (by omega)).mpr (held.filled q (by omega) (by omega)))
  · rw [held.avail, toNat_ofNat (by omega)]
    omega
  · have htotal := held.total_lt
    rw [held.size, toNat_ofNat (by omega), held.data, List.map_map]
    rfl
  · rw [held.data, pairwise_map]
    refine held.apart.imp_of_mem fun {c d} hc hd hcd i hi j hj => ?_
    have hcabove := held.within.above c hc
    have hdbelow := held.within.below d hd
    unfold Block.finish at hcd hdbelow
    simp only [entry] at hi hj ⊢
    rw [add_offset, add_offset, ne_eq, offset_inj n (by omega) (by omega)]
    omega

theorem step_add {place length : ℕ} (near : Near n s (.add place length))
    (window : WindowNear n s (.add place length)) :
    Ensures (step n stream s (.add place length)) (fun s' => ∃ next l, Ok n stream s' next l)
      (fun _ => False) := by
  obtain ⟨hout, hblocks, hnext⟩ := ok.reach_spec
  have hnear : max (place + length) (reach n s.buffer s.extracted.length) <
      min place s.extracted.length + 2 ^ 31 := near
  have hwithin : Within (min place s.extracted.length) l := by
    refine ⟨fun c hc => (min_le_right _ _).trans (ok.held.within.above c hc), fun c hc => ?_⟩
    have hfinish := hblocks c hc
    omega
  have hwindow : ∀ c ∈ l.head?,
      c.start + s.buffer.m_maxBuffer.toNat < place + length + 2 ^ 31 := by
    intro c hc
    refine window _ ?_
    rw [ok.windowEnd_eq, Option.mem_def, Option.mem_def.mp hc]
    rfl
  obtain ⟨found, b', next', l', hrun, hheld, hcovers, -⟩ :=
    add_spec ok.held hwithin (by omega) hwindow (by omega)
  rw [step, hrun]
  have hreceived : ∀ q, Session.Received ⟨b', s.extracted,
      (place, inWindow n s.buffer s.extracted.length (place + length)) :: s.received⟩ q ↔
        s.Received q ∨
          (place ≤ q ∧ q < inWindow n s.buffer s.extracted.length (place + length)) := by
    intro q
    simp only [Session.Received, mem_cons, exists_eq_or_imp]
    exact or_comm
  refine ⟨next', l', hheld, ok.isPrefix, fun q hq => ?_, fun q hq => ?_⟩
  · exact (hreceived q).mpr (Or.inl (ok.extracted q hq))
  · rw [hreceived, hcovers q hq, ok.stored q hq, ok.inWindow_eq]

theorem step_extract (maxSize : UInt32) :
    Ensures (step n stream s (.extract maxSize)) (fun s' => ∃ next l, Ok n stream s' next l)
      (fun _ => False) := by
  obtain ⟨answer, b', k, l', hrun, hanswer, hle, hheld, hcovers⟩ := extract_spec ok.held maxSize
  have hbytes : s.extracted ++ answer.getD [] = slice stream 0 (s.extracted.length + k) := by
    have happend := slice_append stream 0 s.extracted.length k
    rw [Nat.zero_add, ← ok.isPrefix] at happend
    rw [hanswer, happend]
  have hlength : (s.extracted ++ answer.getD []).length = s.extracted.length + k := by
    rw [hbytes, length_slice]
  rw [step, hrun]
  have hreceived : ∀ q, Session.Received ⟨b', s.extracted ++ answer.getD [], s.received⟩ q ↔
      s.Received q := fun q => Iff.rfl
  refine ⟨next, l', ?_, ?_, fun q hq => ?_, fun q hq => ?_⟩
  · dsimp only
    rw [hlength]
    exact hheld
  · dsimp only
    rw [hlength, hbytes]
  · dsimp only at hq
    rw [hreceived]
    by_cases hold : q < s.extracted.length
    · exact ok.extracted q hold
    · exact (ok.stored q (by omega)).mpr (ok.held.filled q (by omega) (by omega))
  · dsimp only at hq
    rw [hreceived, ok.stored q (by omega), hcovers q (by omega)]

end Ok

theorem start_ok (maxBuffer : UInt32) : Ok n stream (start n maxBuffer) 0 [] := by
  have hzero : (⟨n⟩ : SequenceNumber32) = offset n 0 := by simp [offset]
  refine ⟨⟨rfl, .nil, by simp, ⟨by simp, by simp⟩, hzero, le_rfl, by simp [start], by simp, by simp,
    rfl, rfl, rfl⟩, rfl, by simp [start], fun q _ => ?_⟩
  simp [Session.Received, start]

/-- While segments and window stay near, the stream is reassembled. -/
theorem rxBuffer_reassembles (maxBuffer : UInt32) (ops : List Op)
    (near : Along (step n stream) (fun s op => Near n s op ∧ WindowNear n s op) (start n maxBuffer)
      ops) :
    Ensures (exec (step n stream) (start n maxBuffer) ops)
      (fun s => ∃ next, Reassembled n stream s next) (fun _ => False) := by
  have keep : ∀ s op, (∃ next l, Ok n stream s next l) → Near n s op ∧ WindowNear n s op →
      Ensures (step n stream s op) (fun s' => ∃ next l, Ok n stream s' next l)
        (fun _ => False) := by
    rintro s op ⟨next, l, ok⟩ ⟨hnear, hwindow⟩
    cases op with
    | add place length => exact ok.step_add hnear hwindow
    | extract maxSize => exact ok.step_extract maxSize
  refine (ensures_exec keep ⟨0, [], start_ok n stream maxBuffer⟩ near).weaken fun s hs => ?_
  obtain ⟨next, l, ok⟩ := hs
  exact ⟨next, ok.reassembled⟩

/-- Segments that wrap around and overlap: two pieces in order around one behind a gap. -/
theorem rxBuffer_reassembles_overlapping :
    Ensures (exec (step 4294967290 fun q => .ofNat q) (start 4294967290 32768)
        [.add 8 6, .add 0 5, .extract 3, .add 3 8, .add 0 20, .extract 100])
      (fun s => ∃ next, Reassembled 4294967290 (fun q => .ofNat q) s next) (fun _ => False) :=
  rxBuffer_reassembles 4294967290 (fun q => .ofNat q) 32768 _ (by decide +kernel)

/-! ### Old segments -/

section Old

theorem step_first (maxBuffer : UInt32) {k : ℕ} (pos : 0 < k) (short : k < 2 ^ 31) :
    step n stream (start n maxBuffer) (.add 0 k) =
      .ok ⟨{ initial n maxBuffer with
        m_nextRxSeq := offset n k
        m_size := .ofNat k
        m_availBytes := .ofNat k
        m_data := [(offset n 0, slice stream 0 k)] }, [], [(0, k)]⟩ := by
  have hzero : (⟨n⟩ : SequenceNumber32) = offset n 0 := by simp [offset]
  have hsize : Packet.getSize (slice stream 0 k) = .ofNat k := by
    rw [Packet.getSize, length_slice]
  have hless : (offset n 0).less (offset n 0) = false := by
    rw [less_offset n (by omega) (by omega)]
    rfl
  have hgreater : (offset n 0).greater (offset n 0) = false := by
    rw [greater_offset n (by omega) (by omega)]
    rfl
  have hge : (offset n 0).greaterEqual (offset n k) = false := by
    rw [greaterEqual_offset n (by omega) (by omega)]
    exact decide_eq_false (by omega)
  have hlast : (offset n 0).add (.ofNat k) = offset n k := by
    rw [add_offset, Nat.zero_add]
  have hfragment : Packet.createFragment (slice stream 0 k) ((offset n 0).sub (offset n 0))
      ((offset n k).sub (offset n 0)) = slice stream 0 k := by
    rw [sub_offset n le_rfl, sub_offset n (Nat.zero_le k)]
    exact createFragment_slice stream (by omega) (by omega) 0
  have hwindow : trimToWindow (initial n maxBuffer) (offset n 0) (offset n k) =
      (offset n 0, offset n k) := by
    simp only [trimToWindow, initial, hzero, hless, Bool.false_eq_true, if_false]
  have hstored : insert [] (offset n 0) (slice stream 0 k) = [(offset n 0, slice stream 0 k)] := rfl
  have hadvance : advance [(offset n 0, slice stream 0 k)] ⟨offset n 0, 0, []⟩ =
      ⟨offset n k, .ofNat k, []⟩ := by
    simp only [advance, hless, hgreater, hsize, hlast, Bool.false_eq_true, if_false, clearSackList,
      filter_nil, UInt32.zero_add]
  have hadd : add (initial n maxBuffer) (slice stream 0 k) (offset n 0) =
      .ok (true, { initial n maxBuffer with
        m_nextRxSeq := offset n k
        m_size := .ofNat k
        m_availBytes := .ofNat k
        m_data := [(offset n 0, slice stream 0 k)] }) := by
    have hdata : (initial n maxBuffer).m_data = [] := rfl
    have hnext : (initial n maxBuffer).m_nextRxSeq = offset n 0 := hzero
    have hnone : (initial n maxBuffer).m_size = 0 ∧ (initial n maxBuffer).m_availBytes = 0 ∧
      (initial n maxBuffer).m_sackList = [] ∧ (initial n maxBuffer).m_gotFin = false :=
        ⟨rfl, rfl, rfl, rfl⟩
    rw [add]
    simp only [hsize, hlast, hwindow, hdata, hnext, hnone, removeOverlap, hge, hgreater, hfragment,
      hstored, Bool.false_eq_true, if_false, bind, Except.bind, hadvance, Bool.false_and,
      UInt32.zero_add]
  have hin : inWindow n (initial n maxBuffer) 0 (0 + k) = k := Nat.zero_add k
  rw [step, start, hadd]
  simp only [Except.map, length_nil, hin]

theorem step_second (maxBuffer : UInt32) {k : ℕ} (pos : 0 < k) (short : k < 2 ^ 31) :
    step n stream ⟨{ initial n maxBuffer with
        m_nextRxSeq := offset n k
        m_size := .ofNat k
        m_availBytes := .ofNat k
        m_data := [(offset n 0, slice stream 0 k)] }, [], [(0, k)]⟩ (.extract (.ofNat k)) =
      .ok ⟨{ initial n maxBuffer with m_nextRxSeq := offset n k }, slice stream 0 k, [(0, k)]⟩ := by
  have hsize : Packet.getSize (slice stream 0 k) = .ofNat k := by
    rw [Packet.getSize, length_slice]
  have hne : UInt32.ofNat k ≠ 0 := fun heq => by
    have hnat := toNat_ofNat (k := k) (by omega)
    rw [heq] at hnat
    exact absurd hnat (by simpa using pos.ne)
  have hmin : min (UInt32.ofNat k) (UInt32.ofNat k) = UInt32.ofNat k := ite_self _
  simp only [step, extract, hmin, hne, if_false, extractLoop, hsize, UInt32.le_refl, if_true,
    UInt32.sub_self, bind, Except.bind, nil_append, Except.map, Option.getD_some]
  rfl

def zeros : ℕ → UInt8 := fun _ => 0

/-- With the end of the window more than half of the range ahead, an old segment is taken to
reach up to it. -/
def oldSegment : List Op :=
  [.add 0 2147473648, .extract 2147473648, .add 2147473648 10, .add 2147473668 10, .add 0 5,
    .add 2147473658 10]

def oldSegmentBuffer (next avail size : UInt32) (data : Data) (sackList : List SackBlock) :
    TcpRxBuffer :=
  ⟨⟨next⟩, false, ⟨0⟩, size, 32768, avail, data, sackList⟩

theorem step_add_ok {b b' : TcpRxBuffer} {xs : List UInt8} {r : List (ℕ × ℕ)} {out : ℕ}
    (length_eq : xs.length = out) {place length finish : ℕ} {f : Bool}
    (run : add b (slice stream place length) (offset n place) = .ok (f, b'))
    (window : inWindow n b out (place + length) = finish) :
    step n stream ⟨b, xs, r⟩ (.add place length) = .ok ⟨b', xs, (place, finish) :: r⟩ := by
  rw [step, run, ← window, ← length_eq]
  rfl

theorem near_add_iff {b : TcpRxBuffer} {xs : List UInt8} {r : List (ℕ × ℕ)} {out : ℕ}
    (length_eq : xs.length = out) (place length : ℕ) :
    Near n ⟨b, xs, r⟩ (.add place length) ↔
      max (place + length) (reach n b out) < min place out + 2 ^ 31 := by
  rw [← length_eq]
  rfl

theorem oldSegment_drops {xs : List UInt8} (hlength : xs.length = 2147473648)
    (received : List (ℕ × ℕ)) :
    step 0 zeros ⟨oldSegmentBuffer 2147473658 10 20
      [(⟨2147473648⟩, replicate 10 0), (⟨2147473668⟩, replicate 10 0)]
      [(⟨2147473668⟩, ⟨2147473678⟩)], xs, received⟩ (.add 0 5) =
        .ok ⟨oldSegmentBuffer 2147473658 10 10 [(⟨2147473648⟩, replicate 10 0), (⟨2147473658⟩, [])]
          [(⟨2147473668⟩, ⟨2147473678⟩)], xs, (0, 5) :: received⟩ :=
  step_add_ok 0 zeros hlength (f := true) (by decide +kernel) (by decide +kernel)

theorem oldSegment_fills {xs : List UInt8} (hlength : xs.length = 2147473648)
    (received : List (ℕ × ℕ)) :
    step 0 zeros ⟨oldSegmentBuffer 2147473658 10 10
      [(⟨2147473648⟩, replicate 10 0), (⟨2147473658⟩, [])]
      [(⟨2147473668⟩, ⟨2147473678⟩)], xs, received⟩ (.add 2147473658 10) =
        .ok ⟨oldSegmentBuffer 2147473668 20 20
          [(⟨2147473648⟩, replicate 10 0), (⟨2147473658⟩, replicate 10 0)]
          [(⟨2147473668⟩, ⟨2147473678⟩)], xs, (2147473658, 2147473668) :: received⟩ :=
  step_add_ok 0 zeros hlength (f := true) (by decide +kernel) (by decide +kernel)

theorem rxBuffer_oldSegment : Along (step 0 zeros) (Near 0) (start 0 32768) oldSegment ∧
      ¬Ensures (exec (step 0 zeros) (start 0 32768) oldSegment)
        (fun s => ∃ next, Reassembled 0 zeros s next) (fun _ => False) := by
  have hfirst := step_first 0 zeros 32768 (k := 2147473648) (by decide) (by decide)
  have hsecond := step_second 0 zeros 32768 (k := 2147473648) (by decide) (by decide)
  obtain ⟨xs, hxs⟩ : ∃ xs, xs = slice zeros 0 2147473648 := ⟨_, rfl⟩
  have hlength : xs.length = 2147473648 := by rw [hxs, length_slice]
  rw [← hxs] at hfirst hsecond
  have hthird : step 0 zeros ⟨oldSegmentBuffer 2147473648 0 0 [] [], xs, [(0, 2147473648)]⟩
      (.add 2147473648 10) = .ok ⟨oldSegmentBuffer 2147473658 10 10
        [(⟨2147473648⟩, replicate 10 0)] [], xs, [(2147473648, 2147473658), (0, 2147473648)]⟩ :=
    step_add_ok 0 zeros hlength (f := true) (by decide +kernel) (by decide +kernel)
  have hfourth : step 0 zeros ⟨oldSegmentBuffer 2147473658 10 10
      [(⟨2147473648⟩, replicate 10 0)] [], xs, [(2147473648, 2147473658), (0, 2147473648)]⟩
      (.add 2147473668 10) = .ok ⟨oldSegmentBuffer 2147473658 10 20
        [(⟨2147473648⟩, replicate 10 0), (⟨2147473668⟩, replicate 10 0)]
        [(⟨2147473668⟩, ⟨2147473678⟩)], xs,
        [(2147473668, 2147473678), (2147473648, 2147473658), (0, 2147473648)]⟩ :=
    step_add_ok 0 zeros hlength (f := true) (by decide +kernel) (by decide +kernel)
  have hfifth := oldSegment_drops hlength
    [(2147473668, 2147473678), (2147473648, 2147473658), (0, 2147473648)]
  have hsixth := oldSegment_fills hlength
    [(0, 5), (2147473668, 2147473678), (2147473648, 2147473658), (0, 2147473648)]
  constructor
  · refine (along_cons_ok hfirst).mpr ⟨by decide +kernel, (along_cons_ok hsecond).mpr ⟨trivial, ?_⟩⟩
    refine (along_cons_ok hthird).mpr ⟨(near_add_iff 0 hlength _ _).mpr (by decide +kernel), ?_⟩
    refine (along_cons_ok hfourth).mpr ⟨(near_add_iff 0 hlength _ _).mpr (by decide +kernel), ?_⟩
    refine (along_cons_ok hfifth).mpr ⟨(near_add_iff 0 hlength _ _).mpr (by decide +kernel), ?_⟩
    exact (along_cons_ok hsixth).mpr ⟨(near_add_iff 0 hlength _ _).mpr (by decide +kernel), trivial⟩
  · refine not_ensures_of_ok ((exec_cons_ok hfirst _).trans <| (exec_cons_ok hsecond _).trans <|
      (exec_cons_ok hthird _).trans <| (exec_cons_ok hfourth _).trans <|
      (exec_cons_ok hfifth _).trans <| exec_cons_ok hsixth []) ?_
    rintro ⟨next, hnext⟩
    have hmissing := hnext.firstMissing.1
    have hleast := hnext.firstMissing.2
    simp only [Session.Received, mem_cons, not_mem_nil, or_false, exists_eq_or_imp,
      exists_eq_left, Set.mem_ofPred_eq] at hmissing
    have hle : next ≤ 2147473678 := hleast (by
      simp only [Session.Received, mem_cons, not_mem_nil, or_false, exists_eq_or_imp,
        exists_eq_left, Set.mem_ofPred_eq]
      omega)
    obtain rfl : next = 2147473678 := by omega
    have hseq : (⟨2147473668⟩ : SequenceNumber32) = offset 0 2147473678 := hnext.nextRxSeq
    exact absurd hseq (by decide)

end Old

end Egsr.Internet.RxBuffer
