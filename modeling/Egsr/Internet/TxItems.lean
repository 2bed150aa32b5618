import Egsr.Internet.Reassembly
import Egsr.Internet.TcpTxBuffer

/-! Splitting and merging the items of a list. The bytes of the list stay the
same, and so do the flags of every byte, unless items are merged whose flags
differ; the count of retransmitted bytes follows the flags of the items. -/

namespace Egsr.Internet.TxBuffer

open Network Network.SequenceNumber32 Lib.Outcome List

variable (l : List Node)

def bytes : List UInt8 := l.flatMap fun node => node.item.m_packet

/-- The `m_sacked` and the `m_lost` flag of every byte. -/
def flags : List (Bool × Bool) :=
  l.flatMap fun node =>
    replicate node.item.m_packet.length (node.item.m_sacked, node.item.m_lost)

def retransmitted : ℕ :=
  (l.map fun node => if node.item.m_retrans then node.item.m_packet.length else 0).sum

def Filled : Prop := ∀ node ∈ l, 0 < node.item.m_packet.length
deriving Decidable

section Lists

variable (node : Node) (l l' : List Node)

@[simp] theorem bytes_nil : bytes [] = [] := rfl

@[simp] theorem bytes_cons : bytes (node :: l) = node.item.m_packet ++ bytes l := rfl

@[simp] theorem bytes_append : bytes (l ++ l') = bytes l ++ bytes l' := flatMap_append

@[simp] theorem flags_nil : flags [] = [] := rfl

@[simp] theorem flags_cons : flags (node :: l) =
    replicate node.item.m_packet.length (node.item.m_sacked, node.item.m_lost) ++ flags l := rfl

@[simp] theorem flags_append : flags (l ++ l') = flags l ++ flags l' := flatMap_append

@[simp] theorem length_flags : (flags l).length = (bytes l).length := by
  induction l with
  | nil => rfl
  | cons node l ih => simp [ih]

@[simp] theorem retransmitted_nil : retransmitted [] = 0 := rfl

@[simp] theorem retransmitted_cons : retransmitted (node :: l) =
    (if node.item.m_retrans then node.item.m_packet.length else 0) + retransmitted l := by
  simp [retransmitted]

@[simp] theorem retransmitted_append :
    retransmitted (l ++ l') = retransmitted l + retransmitted l' := by
  simp [retransmitted]

theorem filled_cons : Filled (node :: l) ↔ 0 < node.item.m_packet.length ∧ Filled l := by
  simp [Filled]

theorem filled_append : Filled (l ++ l') ↔ Filled l ∧ Filled l' := by
  simp [Filled, or_imp, forall_and]

end Lists

/-- The bytes from place `k` on, `m` of them, have the same flags. -/
def Uniform (colors : List (Bool × Bool)) (k m : ℕ) : Prop :=
  ∀ c ∈ (colors.drop k).take m, ∀ c' ∈ (colors.drop k).take m, c = c'
deriving Decidable

theorem ofNat_eq_iff {j k : ℕ} (hj : j < 2 ^ 32) (hk : k < 2 ^ 32) :
    UInt32.ofNat j = UInt32.ofNat k ↔ j = k := by
  refine ⟨fun h => ?_, fun h => by rw [h]⟩
  have hnat := congrArg UInt32.toNat h
  rwa [RxBuffer.toNat_ofNat hj, RxBuffer.toNat_ofNat hk] at hnat

theorem ofNat_lt_iff {j k : ℕ} (hj : j < 2 ^ 32) (hk : k < 2 ^ 32) :
    UInt32.ofNat j < UInt32.ofNat k ↔ j < k := by
  rw [UInt32.lt_iff_toNat_lt, RxBuffer.toNat_ofNat hj, RxBuffer.toNat_ofNat hk]

theorem ofNat_sub_ofNat {j k : ℕ} (le : k ≤ j) :
    UInt32.ofNat j - UInt32.ofNat k = UInt32.ofNat (j - k) := by
  obtain ⟨i, rfl⟩ := Nat.exists_eq_add_of_le le
  rw [UInt32.ofNat_add, UInt32.add_comm, UInt32.add_sub_cancel, Nat.add_sub_cancel_left]

theorem getSize_eq (t : TcpTxItem) : t.getSize = .ofNat t.m_packet.length := rfl

/-! ## One split, one merge -/

theorem createFragment_front {p : Packet} {k : ℕ} (le : k ≤ p.length) (short : p.length < 2 ^ 32) :
    Packet.createFragment p 0 (.ofNat k) = p.take k := by
  have hback : (UInt32.ofNat p.length - (0 + UInt32.ofNat k)).toNat = p.length - k := by
    rw [UInt32.zero_add, UInt32.toNat_sub, UInt32.toNat_ofNat', UInt32.toNat_ofNat']
    omega
  have hzero : (0 : UInt32).toNat = 0 := rfl
  unfold Packet.createFragment Packet.getSize
  rw [hback, hzero, drop_zero]
  dsimp only
  congr 1
  omega

theorem createFragment_back {p : Packet} {k : ℕ} (le : k ≤ p.length) (short : p.length < 2 ^ 32) :
    Packet.createFragment p (.ofNat k) (.ofNat (p.length - k)) = p.drop k := by
  have hk := RxBuffer.toNat_ofNat (k := k) (by omega)
  have hback : (UInt32.ofNat p.length - (UInt32.ofNat k + UInt32.ofNat (p.length - k))).toNat =
      0 := by
    rw [← UInt32.ofNat_add, Nat.add_sub_cancel' le, UInt32.sub_self]
    rfl
  unfold Packet.createFragment Packet.getSize
  rw [hback, hk]
  exact take_length

section Split

variable {t : TcpTxItem} {k : ℕ} (le : k ≤ t.m_packet.length) (short : t.m_packet.length < 2 ^ 32)
include le short

theorem splitItems_fst :
    (splitItems t (.ofNat k)).1 = { t with m_packet := t.m_packet.take k } := by
  unfold splitItems
  rw [createFragment_front le short]

theorem splitItems_snd : (splitItems t (.ofNat k)).2 =
    { t with m_packet := t.m_packet.drop k, m_startSeq := t.m_startSeq.add (.ofNat k) } := by
  unfold splitItems
  rw [RxBuffer.toNat_ofNat (by omega)]

end Split

def NoRetrans : Prop := ∀ node ∈ l, node.item.m_retrans = false

/-- What editing a list leaves as it is: the bytes, and what is counted as retransmitted. -/
structure Edited (l l' : List Node) (retrans retrans' : UInt32) : Prop where
  same : bytes l' = bytes l
  filled : Filled l'
  counted : (retrans'.toNat + retransmitted l) % 2 ^ 32 =
    (retrans.toNat + retransmitted l') % 2 ^ 32
  clean : NoRetrans l → NoRetrans l' ∧ retrans' = retrans

namespace Edited

variable {l l' l'' : List Node} {r r' r'' : UInt32}

theorem refl (filled : Filled l) : Edited l l r r := ⟨rfl, filled, rfl, fun h => ⟨h, rfl⟩⟩

theorem trans (h : Edited l l' r r') (h' : Edited l' l'' r' r'') : Edited l l'' r r'' := by
  refine ⟨h'.same.trans h.same, h'.filled, ?_, fun none => ?_⟩
  · have hfirst := h.counted
    have hsecond := h'.counted
    omega
  · obtain ⟨hnone, hsame⟩ := h.clean none
    obtain ⟨hnone', hsame'⟩ := h'.clean hnone
    exact ⟨hnone', hsame'.trans hsame⟩

variable {before after : List Node} {node : Node}

theorem split {first rest : Node} (filled : Filled (before ++ node :: after))
    (hbytes : first.item.m_packet ++ rest.item.m_packet = node.item.m_packet)
    (hfirst : 0 < first.item.m_packet.length) (hrest : 0 < rest.item.m_packet.length)
    (same : first.item.m_retrans = node.item.m_retrans)
    (same' : rest.item.m_retrans = node.item.m_retrans) :
    Edited (before ++ node :: after) (before ++ first :: rest :: after) r r := by
  simp only [filled_append, filled_cons] at filled
  have hlength := congrArg List.length hbytes
  rw [length_append] at hlength
  refine ⟨?_, ?_, ?_, fun none => ⟨?_, rfl⟩⟩
  · simp only [bytes_append, bytes_cons, ← hbytes, append_assoc]
  · simp only [filled_append, filled_cons]
    exact ⟨filled.1, hfirst, hrest, filled.2.2⟩
  · simp only [retransmitted_append, retransmitted_cons, same, same', ← hlength]
    split_ifs <;> omega
  · simp only [NoRetrans, forall_mem_append, forall_mem_cons] at none ⊢
    exact ⟨none.1, same.trans none.2.1, same'.trans none.2.1, none.2.2⟩

theorem merge {next : Node} (filled : Filled (before ++ node :: next :: after))
    (short : (bytes (before ++ node :: next :: after)).length < 2 ^ 32) :
    Edited (before ++ node :: next :: after)
      (before ++ ⟨node.number, (mergeItems node.item next.item r).1⟩ :: after) r
      (mergeItems node.item next.item r).2 := by
  simp only [filled_append, filled_cons] at filled
  simp only [bytes_append, bytes_cons, length_append] at short
  refine ⟨by simp [mergeItems], ?_, ?_, fun none => ?_⟩
  · simp only [filled_append, filled_cons, mergeItems, length_append]
    exact ⟨filled.1, by omega, filled.2.2.2⟩
  · have hnode := RxBuffer.toNat_ofNat (k := node.item.m_packet.length) (by omega)
    have hnext := RxBuffer.toNat_ofNat (k := next.item.m_packet.length) (by omega)
    have hr := r.toNat_lt
    simp only [retransmitted_append, retransmitted_cons, mergeItems, length_append]
    cases node.item.m_retrans
    · cases next.item.m_retrans
      · simp
      · simp [getSize_eq, UInt32.toNat_sub, hnext]
        omega
    · cases next.item.m_retrans
      · simp [getSize_eq, UInt32.toNat_sub, hnode]
        omega
      · simp only [if_true, Bool.and_self]
        omega
  · simp only [NoRetrans, forall_mem_append, forall_mem_cons] at none ⊢
    simp only [mergeItems, none.2.1, none.2.2.1, Bool.and_self, if_true, and_true]
    exact ⟨none.1, trivial, none.2.2.2⟩

end Edited

theorem flags_split {before after : List Node} {node first rest : Node}
    (hlength : first.item.m_packet.length + rest.item.m_packet.length = node.item.m_packet.length)
    (same : (first.item.m_sacked, first.item.m_lost) = (node.item.m_sacked, node.item.m_lost))
    (same' : (rest.item.m_sacked, rest.item.m_lost) = (node.item.m_sacked, node.item.m_lost)) :
    flags (before ++ first :: rest :: after) = flags (before ++ node :: after) := by
  simp only [flags_append, flags_cons, same, same', ← hlength, ← replicate_append_replicate,
    append_assoc]

theorem flags_merge {before after : List Node} {node next : Node} (r : UInt32)
    (same : (node.item.m_sacked, node.item.m_lost) = (next.item.m_sacked, next.item.m_lost)) :
    flags (before ++ ⟨node.number, (mergeItems node.item next.item r).1⟩ :: after) =
      flags (before ++ node :: next :: after) := by
  simp only [flags_append, flags_cons, mergeItems, length_append,
    ← replicate_append_replicate, append_assoc, same]

theorem same_of_uniform {before after : List Node} {node next : Node}
    (filled : 0 < node.item.m_packet.length ∧ 0 < next.item.m_packet.length) {m : ℕ}
    (reaches : node.item.m_packet.length < m)
    (uniform : Uniform (flags (before ++ node :: next :: after)) (bytes before).length m) :
    (node.item.m_sacked, node.item.m_lost) = (next.item.m_sacked, next.item.m_lost) := by
  have hdrop : (flags (before ++ node :: next :: after)).drop (bytes before).length =
      flags (node :: next :: after) := by
    rw [flags_append, ← length_flags, drop_left]
  unfold Uniform at uniform
  rw [hdrop] at uniform
  obtain ⟨k, hk⟩ := Nat.exists_eq_add_of_lt reaches
  refine uniform _ ?_ _ ?_
  · refine mem_take_iff_getElem.mpr ⟨0, ?_, ?_⟩
    · simp
      omega
    · simp [filled.1]
  · refine mem_take_iff_getElem.mpr ⟨node.item.m_packet.length, ?_, ?_⟩
    · simp
      omega
    · simp [filled.2]

/-! ## GetPacketFromList -/

theorem locate_spec (n : UInt32) (before : List Node) (current : Node) (after : List Node) {p q : ℕ}
    (le : p + (bytes before).length ≤ q)
    (lt : q < p + (bytes before).length + current.item.m_packet.length)
    (short : (bytes (before ++ current :: after)).length < 2 ^ 31) :
    locate (offset n q) (before ++ current :: after) (offset n p) =
      some (before, current, after, offset n (p + (bytes before).length)) := by
  induction before generalizing p with
  | nil =>
    simp only [bytes_nil, nil_append, bytes_cons, length_append, length_nil, Nat.add_zero] at *
    rw [locate, getSize_eq, add_offset, less_offset n (by omega) (by omega),
      if_pos (decide_eq_true lt)]
  | cons node before ih =>
    have hsize : (bytes (before ++ current :: after)).length =
        (bytes before).length + current.item.m_packet.length + (bytes after).length := by
      simp only [bytes_append, bytes_cons, length_append, Nat.add_assoc]
    simp only [bytes_cons, cons_append, length_append] at *
    rw [locate, getSize_eq, add_offset, less_offset n (by omega) (by omega),
      if_neg (by simp; omega), ih (by omega) (by omega) (by omega)]
    simp only [Option.map_some, Nat.add_assoc]

/-- What a call finds: the bytes from place `k` on, `m` of them, as one item. -/
structure Served (k m : ℕ) (retrans : UInt32) (mergedApart : Bool) (f : Found) : Prop where
  edited : Edited l f.list retrans f.retrans
  place : (bytes f.before).length = k
  size : f.node.item.m_packet.length = m
  uniform : Uniform (flags l) k m → flags f.list = flags l ∧ f.mergedApart = mergedApart

theorem Served.of_edit {l l' : List Node} {k m : ℕ} {retrans retrans' : UInt32}
    {apart apart' : Bool}
    {f : Found} (served : Served l' k m retrans' apart' f) (edited : Edited l l' retrans retrans')
    (uniform : Uniform (flags l) k m → flags l' = flags l ∧ apart' = apart) :
    Served l k m retrans apart f where
  edited := edited.trans served.edited
  place := served.place
  size := served.size
  uniform h := by
    obtain ⟨hflags, hapart⟩ := uniform h
    obtain ⟨hflags', hapart'⟩ := served.uniform (hflags ▸ h)
    exact ⟨hflags'.trans hflags, hapart'.trans hapart⟩

section Requests

variable (n : UInt32) {p k m : ℕ} (pos : 0 < m)
include pos

theorem getPacketFromList_inside {before after : List Node} {current : Node}
    (filled : Filled (before ++ current :: after)) (place : (bytes before).length = k)
    (inside : m ≤ current.item.m_packet.length)
    (short : (bytes (before ++ current :: after)).length < 2 ^ 31) (retrans : UInt32) (nextNode : ℕ)
    (apart : Bool) (fuel : ℕ) :
    ∃ f, getPacketFromList (offset n p) (.ofNat m) (offset n (p + k)) (fuel + 1)
        (before ++ current :: after) retrans nextNode apart = .ok f ∧
      Served (before ++ current :: after) k m retrans apart f := by
  have hfilled := ((filled_append _ _).mp filled).2
  rw [filled_cons] at hfilled
  have hsize : (bytes (before ++ current :: after)).length =
      k + current.item.m_packet.length + (bytes after).length := by
    simp only [bytes_append, bytes_cons, length_append, place, Nat.add_assoc]
  have hlocate :=
    locate_spec n before current after (p := p) (q := p + k) (by omega) (by omega) short
  rw [place] at hlocate
  have hend : ((offset n (p + k)).add (.ofNat m)).lessEqual
      ((offset n (p + k)).add current.item.getSize) := by
    rw [getSize_eq, add_offset, add_offset, lessEqual_offset n (by omega) (by omega)]
    exact decide_eq_true (by omega)
  rw [getPacketFromList, hlocate]
  dsimp only
  rw [if_pos rfl, if_pos hend]
  by_cases heq : m = current.item.m_packet.length
  · have hsame : .ofNat m = current.item.getSize := by rw [getSize_eq, heq]
    rw [if_pos hsame]
    exact ⟨_, rfl, ⟨.refl filled, place, heq.symm, fun _ => ⟨rfl, rfl⟩⟩⟩
  · have hne : UInt32.ofNat m ≠ current.item.getSize := fun h =>
      heq ((ofNat_eq_iff (by omega) (by omega)).mp h)
    have hlt : UInt32.ofNat m < current.item.getSize := by
      rw [getSize_eq, ofNat_lt_iff (by omega) (by omega)]
      omega
    rw [if_neg hne, if_pos hlt, splitItems_fst (by omega) (by omega),
      splitItems_snd (by omega) (by omega)]
    have htake : (current.item.m_packet.take m).length = m := by
      rw [length_take]
      omega
    have hdrop : (current.item.m_packet.drop m).length = current.item.m_packet.length - m :=
      length_drop
    refine ⟨_, rfl, .split filled (take_append_drop _ _) ?_ ?_ rfl rfl, place, htake,
      fun _ => ⟨flags_split ?_ rfl rfl, rfl⟩⟩
    · dsimp only
      omega
    · dsimp only
      omega
    · dsimp only
      omega

theorem getPacketFromList_boundary {before after : List Node} {current : Node}
    (filled : Filled (before ++ current :: after)) (place : (bytes before).length = k)
    (fits : k + m ≤ (bytes (before ++ current :: after)).length)
    (short : (bytes (before ++ current :: after)).length < 2 ^ 31) (retrans : UInt32) (nextNode : ℕ)
    (apart : Bool) {fuel : ℕ} (enough : after.length < fuel) :
    ∃ f, getPacketFromList (offset n p) (.ofNat m) (offset n (p + k)) fuel
        (before ++ current :: after) retrans nextNode apart = .ok f ∧
      Served (before ++ current :: after) k m retrans apart f := by
  induction after generalizing current retrans apart fuel with
  | nil =>
    obtain ⟨fuel, rfl⟩ := Nat.exists_eq_add_of_lt enough
    have hsize : (bytes (before ++ [current])).length = k + current.item.m_packet.length := by
      simp [place]
    exact getPacketFromList_inside n pos filled place (by omega) short retrans nextNode apart _
  | cons next after ih =>
    obtain ⟨fuel, rfl⟩ := Nat.exists_eq_add_of_lt enough
    by_cases inside : m ≤ current.item.m_packet.length
    · exact getPacketFromList_inside n pos filled place inside short retrans nextNode apart _
    · have hfilled := ((filled_append _ _).mp filled).2
      rw [filled_cons, filled_cons] at hfilled
      have hsize : (bytes (before ++ current :: next :: after)).length =
          k + current.item.m_packet.length + (bytes (next :: after)).length := by
        simp only [bytes_append, bytes_cons, length_append, place, Nat.add_assoc]
      have hlocate := locate_spec n before current (next :: after) (p := p) (q := p + k)
        (by omega) (by omega) short
      rw [place] at hlocate
      have hend : ¬((offset n (p + k)).add (.ofNat m)).lessEqual
          ((offset n (p + k)).add current.item.getSize) := by
        rw [getSize_eq, add_offset, add_offset, lessEqual_offset n (by omega) (by omega)]
        simp only [decide_eq_true_eq]
        omega
      have hedited := Edited.merge (r := retrans) filled (by omega)
      have henough : after.length < fuel + 1 + after.length := by omega
      obtain ⟨f, hrun, hserved⟩ := ih hedited.filled (by rw [hedited.same]; exact fits)
        (by rw [hedited.same]; exact short) (mergeItems current.item next.item retrans).2
        (apart || current.item.m_sacked != next.item.m_sacked ||
          current.item.m_lost != next.item.m_lost) henough
      refine ⟨f, ?_, hserved.of_edit hedited fun uniform => ?_⟩
      · rw [getPacketFromList, hlocate]
        dsimp only
        rw [if_pos rfl, if_neg hend]
        rw [← hrun]
        congr 1
        simp only [length_cons]
        omega
      · rw [← place] at uniform
        have hsame := same_of_uniform ⟨hfilled.1, hfilled.2.1⟩ (Nat.lt_of_not_le inside) uniform
        refine ⟨flags_merge retrans hsame, ?_⟩
        have hsacked := congrArg Prod.fst hsame
        have hlost := congrArg Prod.snd hsame
        dsimp only at hsacked hlost
        simp [hsacked, hlost]

omit pos in
theorem exists_around {l : List Node} (filled : Filled l) (lt : k < (bytes l).length) :
    ∃ before current after, l = before ++ current :: after ∧ (bytes before).length ≤ k ∧
      k < (bytes before).length + current.item.m_packet.length := by
  induction l generalizing k with
  | nil => simp at lt
  | cons node l ih =>
    by_cases inside : k < node.item.m_packet.length
    · exact ⟨[], node, l, rfl, by simp, by simpa using inside⟩
    · rw [bytes_cons, length_append] at lt
      obtain ⟨before, current, after, rfl, hle, hlt⟩ := ih ((filled_cons _ _).mp filled).2
        (k := k - node.item.m_packet.length) (by omega)
      refine ⟨node :: before, current, after, rfl, ?_, ?_⟩
      · rw [bytes_cons, length_append]
        omega
      · rw [bytes_cons, length_append]
        omega

theorem getPacketFromList_spec {l : List Node} (filled : Filled l) (fits : k + m ≤ (bytes l).length)
    (short : (bytes l).length < 2 ^ 31) (retrans : UInt32) (nextNode : ℕ) (apart : Bool) :
    ∃ f, getPacketFromList (offset n p) (.ofNat m) (offset n (p + k)) (fuelFor l) l retrans
        nextNode apart = .ok f ∧ Served l k m retrans apart f := by
  obtain ⟨before, current, after, rfl, hle, hlt⟩ := exists_around filled (k := k) (by omega)
  have hlength : (before ++ current :: after).length = before.length + (after.length + 1) := by simp
  by_cases heq : (bytes before).length = k
  · exact getPacketFromList_boundary n pos filled heq fits short retrans nextNode apart
      (by rw [fuelFor, hlength]; omega)
  · obtain ⟨j, hj⟩ : ∃ j, k = (bytes before).length + j := Nat.exists_eq_add_of_le hle
    have hsize : (bytes (before ++ current :: after)).length =
        (bytes before).length + current.item.m_packet.length + (bytes after).length := by
      simp only [bytes_append, bytes_cons, length_append, Nat.add_assoc]
    have hlocate :=
      locate_spec n before current after (p := p) (q := p + k) (by omega) (by omega) short
    have hne : offset n (p + k) ≠ offset n (p + (bytes before).length) := fun h => by
      have := (offset_inj n (by omega) (by omega)).mp h
      omega
    have hgt : (offset n (p + k)).greater (offset n (p + (bytes before).length)) := by
      rw [greater_offset n (by omega) (by omega)]
      exact decide_eq_true (by omega)
    have hsub : (offset n (p + k)).sub (offset n (p + (bytes before).length)) = .ofNat j := by
      rw [sub_offset n (by omega)]
      congr 1
      omega
    have htake : (current.item.m_packet.take j).length = j := by
      rw [length_take]
      omega
    have hdrop : (current.item.m_packet.drop j).length = current.item.m_packet.length - j :=
      length_drop
    obtain ⟨first, hfirst⟩ : ∃ first : Node, first = ⟨nextNode,
      { current.item with m_packet := current.item.m_packet.take j }⟩ := ⟨_, rfl⟩
    obtain ⟨rest, hrest⟩ : ∃ rest : Node, rest = ⟨current.number, { current.item with
      m_packet := current.item.m_packet.drop j
      m_startSeq := current.item.m_startSeq.add (.ofNat j) }⟩ := ⟨_, rfl⟩
    have hedited : Edited (before ++ current :: after) (before ++ first :: rest :: after) retrans
        retrans := by
      refine .split filled ?_ ?_ ?_ ?_ ?_
      · rw [hfirst, hrest]
        exact take_append_drop _ _
      · rw [hfirst]
        dsimp only
        omega
      · rw [hrest]
        dsimp only
        omega
      · rw [hfirst]
      · rw [hrest]
    have hplace : (bytes (before ++ [first])).length = k := by
      rw [bytes_append, length_append, bytes_cons, bytes_nil, append_nil, hfirst, htake, hj]
    have hlist : before ++ first :: rest :: after = (before ++ [first]) ++ rest :: after := by simp
    have hfilled : Filled ((before ++ [first]) ++ rest :: after) := hlist ▸ hedited.filled
    have henough : after.length < before.length + (after.length + 1) + 2 := by omega
    obtain ⟨f, hrun, hserved⟩ := getPacketFromList_boundary n pos (p := p) hfilled hplace
      (by rw [← hlist, hedited.same]; exact fits)
        (by rw [← hlist, hedited.same]; exact short) retrans
      (nextNode + 1) apart henough
    rw [← hlist] at hrun hserved
    refine ⟨f, ?_, hserved.of_edit hedited fun _ => ⟨flags_split ?_ ?_ ?_, rfl⟩⟩
    · rw [fuelFor, hlength, getPacketFromList, hlocate]
      dsimp only
      rw [if_neg hne, if_pos hgt, hsub, splitItems_fst (by omega) (by omega),
        splitItems_snd (by omega) (by omega), ← hfirst, ← hrest]
      exact hrun
    · rw [hfirst, hrest]
      dsimp only
      omega
    · rw [hfirst]
    · rw [hrest]

end Requests

theorem Served.packet {l : List Node} {k m : ℕ} {retrans : UInt32} {apart : Bool} {f : Found}
    (served : Served l k m retrans apart f) : f.node.item.m_packet = ((bytes l).drop k).take m := by
  rw [← served.edited.same, Found.list, bytes_append, ← served.place, drop_left, bytes_cons,
    ← served.size, take_left]

end Egsr.Internet.TxBuffer
