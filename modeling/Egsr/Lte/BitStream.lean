import Egsr.Lte.Asn1Header

/-! Encoder and decoder as ends of one stream of bits. What was written are the
octets and the pending bits behind them; what will be read are the pending bits
and the octets behind them. -/

namespace Egsr.Lte

open Lib.BitOrder Lib.Outcome List

variable {N : ℕ}

/-! ## The encoder -/

namespace Asn1Header

def written (h : Asn1Header) : List Bool :=
  stream h.m_serializationResult ++
    firstBits h.m_serializationPendingBits h.m_numSerializationPendingBits

/-- No pending bits but those that are counted. -/
structure Clean (h : Asn1Header) : Prop where
  lt : h.m_numSerializationPendingBits < 8
  filled : Filled h.m_serializationPendingBits h.m_numSerializationPendingBits

theorem initial_clean : initial.Clean := ⟨by decide, filled_zero⟩

theorem written_initial : initial.written = [] := rfl

end Asn1Header

open Asn1Header

variable (data : BitVec N)

theorem firstBits_octetToWrite (p : ℕ) :
    firstBits (octetToWrite data (p + 8) 8 1 0) 8 ++ lowBits data p = lowBits data (p + 8) := by
  have hall : ∀ b₇ b₆ b₅ b₄ b₃ b₂ b₁ b₀ : Bool,
      firstBits (0 ||| (if b₀ then 1 else 0) ||| (if b₁ then 2 else 0) ||| (if b₂ then 4 else 0) |||
        (if b₃ then 8 else 0) ||| (if b₄ then 16 else 0) ||| (if b₅ then 32 else 0) |||
        (if b₆ then 64 else 0) ||| (if b₇ then 128 else 0)) 8 =
          [b₇, b₆, b₅, b₄, b₃, b₂, b₁, b₀] := by
    decide +kernel
  exact congrArg (· ++ lowBits data p) (hall ..)

theorem storeBits_spec {p k : ℕ} {pending : Octet} (filled : Filled pending k) (fits : k + p ≤ 8) :
    firstBits (storeBits data p ((0x80 : Octet) >>> k) pending) (k + p) =
        firstBits pending k ++ lowBits data p ∧
      Filled (storeBits data p ((0x80 : Octet) >>> k) pending) (k + p) := by
  induction p generalizing k pending with
  | zero => exact ⟨(append_nil _).symm, filled⟩
  | succ p ih =>
    have hor := firstBits_or filled (by omega) (data.getLsbD p)
    have hrest := ih hor.2 (by omega)
    rw [storeBits, mask_next, show k + (p + 1) = k + 1 + p by omega]
    refine ⟨?_, hrest.2⟩
    rw [hrest.1, hor.1, append_assoc]
    rfl

variable {h : Asn1Header}

theorem completeOctet_spec {p : ℕ}
    (filled : Filled h.m_serializationPendingBits h.m_numSerializationPendingBits)
    (le : h.m_numSerializationPendingBits ≤ 8) {p' : ℕ} {h' : Asn1Header}
    (run : completeOctet data p ((0x80 : Octet) >>> h.m_numSerializationPendingBits) h = (p', h')) :
    h'.written ++ lowBits data p' = h.written ++ lowBits data p ∧
      h'.m_numSerializationPendingBits ≤ 8 ∧
      Filled h'.m_serializationPendingBits h'.m_numSerializationPendingBits ∧
      (h'.m_numSerializationPendingBits < 8 → p' = 0) := by
  induction p generalizing h with
  | zero =>
    cases run
    exact ⟨rfl, le, filled, fun _ => rfl⟩
  | succ p ih =>
    rw [completeOctet] at run
    by_cases hlt : h.m_numSerializationPendingBits < 8
    · rw [if_pos hlt, mask_next] at run
      have hor := firstBits_or filled hlt (data.getLsbD p)
      have hrest := ih (h := { h with
        m_serializationPendingBits := h.m_serializationPendingBits |||
          if data.getLsbD p then (0x80 : Octet) >>> h.m_numSerializationPendingBits else 0
        m_numSerializationPendingBits := h.m_numSerializationPendingBits + 1 })
        hor.2 (Nat.succ_le_of_lt hlt) run
      refine ⟨?_, hrest.2⟩
      rw [hrest.1]
      simp only [written, hor.1, append_assoc]
      rfl
    · rw [if_neg hlt] at run
      cases run
      exact ⟨rfl, le, filled, fun hlt' => absurd hlt' hlt⟩

theorem writeRest_spec (p : ℕ) (clean : h.Clean) (none : h.m_numSerializationPendingBits = 0) :
    (writeRest data p h).written = h.written ++ lowBits data p ∧ (writeRest data p h).Clean := by
  induction p, h using writeRest.induct data with
  | case1 p h ih =>
    have hrest := ih ⟨clean.lt, clean.filled⟩ none
    refine ⟨?_, hrest.2⟩
    rw [writeRest, hrest.1, ← firstBits_octetToWrite data p]
    simp [written, writeOctet, none]
  | case2 h => exact ⟨(append_nil _).symm, clean⟩
  | case3 p h few pos =>
    have hlt : p < 8 := by
      by_contra hge
      exact few (p - 8) (by omega)
    have hfilled : Filled h.m_serializationPendingBits 0 := none ▸ clean.filled
    have hstore := storeBits_spec data hfilled (show 0 + p ≤ 8 by omega)
    rw [Nat.zero_add, show (0x80 : Octet) >>> 0 = 0x80 from rfl] at hstore
    rw [writeRest.eq_3 data p h few pos]
    refine ⟨?_, hlt, hstore.2⟩
    rw [written, written, none]
    exact congrArg (stream h.m_serializationResult ++ ·) hstore.1 |>.trans (by simp)

theorem serializeBitset_spec (clean : h.Clean) (data : BitVec N) (le : N ≤ 65536) :
    (h.serializeBitset data).written = h.written ++ lowBits data (N % 256) ∧
      (h.serializeBitset data).Clean := by
  unfold serializeBitset
  by_cases hN : N = 0
  · subst hN
    exact ⟨(append_nil _).symm, clean⟩
  rw [if_neg hN, if_pos le]
  by_cases hnone : h.m_numSerializationPendingBits = 0
  · rw [if_neg (by omega)]
    exact writeRest_spec data _ clean hnone
  rw [if_pos (by omega)]
  rcases hrun : completeOctet data (N % 256) ((0x80 : Octet) >>> h.m_numSerializationPendingBits) h
    with ⟨p', h'⟩
  have hspec := completeOctet_spec data clean.filled (Nat.le_of_lt clean.lt) hrun
  obtain ⟨hbits, hle, hfilled, hdone⟩ := hspec
  dsimp only
  by_cases hfull : h'.m_numSerializationPendingBits ≥ 8
  · have heq : h'.m_numSerializationPendingBits = 8 := by omega
    rw [if_pos hfull, ← hbits]
    have hrest := writeRest_spec data p' (h := { h'.writeOctet h'.m_serializationPendingBits with
        m_numSerializationPendingBits := 0
        m_serializationPendingBits := 0 }) ⟨by simp, filled_zero⟩ rfl
    refine ⟨?_, hrest.2⟩
    rw [hrest.1]
    simp [written, writeOctet, heq]
  · -- the octet is not full, all bits have gone into it
    rw [if_neg hfull, ← hbits, hdone (by omega)]
    exact ⟨(append_nil _).symm, Nat.lt_of_not_ge hfull, hfilled⟩

theorem finalizeSerialization_spec (clean : h.Clean) :
    ∃ k < 8, stream h.finalizeSerialization.m_serializationResult =
      h.written ++ replicate k false := by
  unfold finalizeSerialization
  have hlt := clean.lt
  by_cases hnone : h.m_numSerializationPendingBits = 0
  · refine ⟨0, by omega, ?_⟩
    rw [if_neg (by omega)]
    simp [written, hnone]
  · refine ⟨8 - h.m_numSerializationPendingBits, by omega, ?_⟩
    have hresult : ({ h with m_numSerializationPendingBits := 0 }.serializeBitset
        h.m_serializationPendingBits).m_serializationResult =
        h.m_serializationResult ++ [octetToWrite h.m_serializationPendingBits 8 8 1 0] := rfl
    have hoctet := firstBits_octetToWrite h.m_serializationPendingBits 0
    rw [if_pos (by omega), hresult, written, append_assoc,
      ← firstBits_eq_append clean.filled (by omega), firstBits_eq_lowBits, ← hoctet]
    simp [lowBits]

/-! ## The decoder -/

def unread (r : Reading) : List Bool :=
  firstBits r.1.m_serializationPendingBits r.1.m_numSerializationPendingBits ++ stream r.2

theorem readPending_spec {b : ℕ} {data : BitVec N} {data' : BitVec N} {b' : ℕ}
    {h' : Asn1Header} (run : readPending b data h = (data', b', h')) :
    ∃ bs, firstBits h.m_serializationPendingBits h.m_numSerializationPendingBits =
        bs ++ firstBits h'.m_serializationPendingBits h'.m_numSerializationPendingBits ∧
      b = bs.length + b' ∧ data' = assign data b bs ∧
      (b' ≠ 0 → h'.m_numSerializationPendingBits = 0) := by
  induction b generalizing data h with
  | zero =>
    cases run
    exact ⟨[], rfl, rfl, rfl, fun h => absurd rfl h⟩
  | succ b ih =>
    rw [readPending] at run
    by_cases hpos : h.m_numSerializationPendingBits > 0
    · rw [if_pos hpos] at run
      obtain ⟨bs, hbits, hlen, hdata, hzero⟩ := ih run
      obtain ⟨k, hk⟩ : ∃ k, h.m_numSerializationPendingBits = k + 1 :=
        ⟨_, (Nat.sub_add_cancel hpos).symm⟩
      refine ⟨h.m_serializationPendingBits.getMsbD 0 :: bs, ?_, ?_, ?_, hzero⟩
      · rw [hk, firstBits_succ_eq_cons, cons_append, ← hbits]
        simp [hk]
      · rw [hlen, length_cons]
        omega
      · rw [hdata, assign, Nat.add_sub_cancel,
          ← and_mask h.m_serializationPendingBits (show 0 < 8 by decide)]
        rfl
    · rw [if_neg hpos] at run
      cases run
      exact ⟨[], rfl, by simp, rfl, fun _ => by omega⟩

theorem setBits_eq_assign (octet : Octet) {count i : ℕ} (b : ℕ) (fits : i + count ≤ 8)
    (data : BitVec N) :
    setBits octet count b ((0x80 : Octet) >>> i) data =
      assign data b (firstBits (octet <<< i) count) := by
  induction count generalizing i b data with
  | zero => rfl
  | succ count ih =>
    have hbit : (octet <<< i).getMsbD 0 = octet.getMsbD i := by simp
    rw [setBits, mask_step, ih (b - 1) (by omega), and_mask octet (by omega),
      firstBits_succ_eq_cons, hbit, assign, BitVec.shiftLeft_add]

theorem setBits_spec (octet : Octet) {count : ℕ} (b : ℕ) (le : count ≤ 8) (data : BitVec N) :
    setBits octet count b 0x80 data = assign data b (firstBits octet count) :=
  (setBits_eq_assign octet b (i := 0) (by omega) data).trans (by rw [BitVec.shiftLeft_zero])

theorem unread_eq_stream {r : Reading} (none : r.1.m_numSerializationPendingBits = 0) :
    unread r = stream r.2 := by
  rw [unread, none]
  rfl

theorem readRest_spec {b : ℕ} (r : Reading) (none : b ≠ 0 → r.1.m_numSerializationPendingBits = 0) :
    Ensures (readRest b data r)
      (fun r' => b ≤ (unread r).length ∧ r'.1 = assign data b ((unread r).take b) ∧
        unread r'.2 = (unread r).drop b)
      fun _ => (unread r).length < b := by
  induction b, data, r using readRest.induct with
  | case1 b data h it ih =>
    have hnone : h.m_numSerializationPendingBits = 0 := none (by omega)
    rw [unread_eq_stream hnone]
    cases it with
    | nil => exact Nat.succ_pos _
    | cons o it =>
      have hlen : b + 8 = (firstBits o 8).length + b := by
        rw [length_firstBits]
        omega
      have htake : (stream (o :: it)).take (b + 8) = firstBits o 8 ++ (stream it).take b := by
        rw [stream_cons, hlen, take_length_add_append]
      have hdrop : (stream (o :: it)).drop (b + 8) = (stream it).drop b := by
        rw [stream_cons, hlen, drop_length_add_append]
      have hrest := ih o it fun _ => hnone
      rw [unread_eq_stream hnone] at hrest
      refine Ensures.mono (x := readRest b (setBits o 8 (b + 8) 0x80 data) (h, it)) hrest
        (fun r' hr => ⟨?_, ?_, ?_⟩) fun _ hr => ?_
      · have hle := hr.1
        simp only [length_stream, length_cons] at hle ⊢
        omega
      · rw [hr.2.1, setBits_spec o (b + 8) (Nat.le_refl 8)]
        refine Eq.trans ?_ (congrArg (assign data (b + 8)) htake.symm)
        rw [assign_append, length_firstBits, Nat.add_sub_cancel]
      · rw [hr.2.2]
        exact hdrop.symm
      · simp only [length_stream, length_cons] at hr ⊢
        omega
  | case2 data r => exact ensures_ok.mpr ⟨Nat.zero_le _, rfl, rfl⟩
  | case3 b data h it few pos =>
    have hlt : b < 8 := by
      by_contra hge
      exact few (b - 8) (by omega)
    have hnone : h.m_numSerializationPendingBits = 0 := none pos
    rw [unread_eq_stream hnone, readRest.eq_3 b data h it few pos]
    cases it with
    | nil => exact Nat.pos_of_ne_zero pos
    | cons o it =>
      have htake : (stream (o :: it)).take b = firstBits o b := by
        rw [stream_cons, take_append_of_le_length (by simp; omega), take_firstBits o 8 (by omega)]
      have hdrop : (stream (o :: it)).drop b = firstBits (o <<< b) (8 - b) ++ stream it := by
        rw [stream_cons, drop_append_of_le_length (by simp; omega), firstBits_shiftLeft,
          Nat.add_sub_cancel' (by omega)]
      refine ensures_ok.mpr ⟨by simp; omega, ?_, hdrop.symm⟩
      rw [htake]
      exact setBits_spec o b (by omega) data

theorem deserializeBitset_spec (r : Reading) : Ensures (deserializeBitset data r)
      (fun r' => N ≤ (unread r).length ∧ r'.1 = assign data N ((unread r).take N) ∧
        unread r'.2 = (unread r).drop N)
      fun _ => (unread r).length < N := by
  rcases hrun : readPending N data r.1 with ⟨data', b, h⟩
  obtain ⟨bs, hbits, hlen, hdata, hzero⟩ := readPending_spec hrun
  have hsplit : unread r = bs ++ unread (h, r.2) := by
    rw [unread, hbits, append_assoc]
    rfl
  have htake : (bs ++ unread (h, r.2)).take (bs.length + b) = bs ++ (unread (h, r.2)).take b :=
    take_length_add_append b
  have hdrop : (bs ++ unread (h, r.2)).drop (bs.length + b) = (unread (h, r.2)).drop b :=
    drop_length_add_append b
  rw [← hlen, ← hsplit] at htake hdrop
  have hcount : (unread r).length = bs.length + (unread (h, r.2)).length := by
    rw [hsplit, length_append]
  rw [deserializeBitset, hrun]
  refine (readRest_spec data' (h, r.2) hzero).mono (fun r' hr => ⟨by omega, ?_, ?_⟩)
    fun _ hr => by omega
  · rw [hr.2.1, htake, assign_append, ← hdata, show N - bs.length = b by omega]
  · rw [hr.2.2, hdrop]

end Egsr.Lte
