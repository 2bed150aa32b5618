import Egsr.Internet.FragmentReassembly

/-! What is left of a datagram when its time is up. A stored fragment may end in front
of what has been put together already; the size of what is to be added of it is then
not that of any piece of it. -/

namespace Egsr.Internet.Ipv4

open Internet Lib List

def Fragments.Request.Inside (r : Fragments.Request) : Prop :=
  r.start.toNat + r.length.toNat ≤ r.fragment.length
deriving Decidable

section Loop

variable {payload : Packet} {it : Packet × UInt16} {e : ℕ}

/-- The place up to which the payload is put together after a fragment. -/
def after (e : ℕ) (it : Packet × UInt16) : ℕ := if start it ≤ e then max e (stop it) else e

theorem gt_iff (short : e < 2 ^ 16) : .ofNat e > it.2 ↔ start it < e := by
  rw [gt_iff_lt, UInt16.lt_iff_toNat_lt, UInt16.toNat_ofNat', start]
  omega

theorem eq_iff (short : e < 2 ^ 16) : .ofNat e = it.2 ↔ start it = e := by
  rw [← UInt16.toNat_inj, UInt16.toNat_ofNat', start]
  omega

theorem getSize_take (le : e ≤ payload.length) :
    (Packet.getSize (payload.take e)).toUInt16 = .ofNat e := by
  rw [← UInt16.toNat_inj, UInt32.toNat_toUInt16, Packet.getSize, UInt32.toNat_ofNat',
    UInt16.toNat_ofNat', length_take]
  omega

theorem createFragment_beyond (p : Packet) (newStart newSize : UInt32)
    (h : p.length ≤ newStart.toNat) : p.createFragment newStart newSize = [] := by
  rw [Packet.createFragment, drop_eq_nil_of_le h]
  exact take_nil

theorem Carries.overlap (carries : Carries payload it) (short : payload.length < 2 ^ 16)
    (le : e ≤ payload.length) (before : start it < e) :
    payload.take e ++ it.1.createFragment (.ofNat (e - start it))
        (it.1.getSize - .ofNat (e - start it)) = payload.take (max e (stop it)) ∧
      (Fragments.Request.Inside
        ⟨it.1, .ofNat (e - start it), it.1.getSize - .ofNat (e - start it)⟩ ↔ e ≤ stop it) := by
  have hinside := carries.inside
  have hlength : stop it = start it + it.1.length := rfl
  have hstart : (UInt32.ofNat (e - start it)).toNat = e - start it := by
    rw [UInt32.toNat_ofNat']
    omega
  constructor
  · by_cases hstop : e ≤ stop it
    · rw [carries.append_rest short before.le hstop, Nat.max_eq_right hstop]
    · rw [createFragment_beyond _ _ _ (by omega), append_nil, Nat.max_eq_left (by omega)]
  · have hsize : it.1.getSize.toNat = it.1.length := by
      rw [Packet.getSize, UInt32.toNat_ofNat']
      omega
    rw [Fragments.Request.Inside, UInt32.toNat_sub, hstart, hsize]
    dsimp only
    omega

theorem Carries.after_le (carries : Carries payload it) (le : e ≤ payload.length) : after e it ≤
    payload.length := by
  have hinside := carries.inside
  rw [after]
  split_ifs <;> omega

theorem partialFrom_spec (short : payload.length < 2 ^ 16) {l : List (Packet × UInt16)}
    (carry : ∀ it ∈ l, Carries payload it) (le : e ≤ payload.length) :
    (Fragments.partialFrom (payload.take e) (.ofNat e) l).1 =
      payload.take (Coverage.extent start stop e l) ∧
      ((∀ r ∈ (Fragments.partialFrom (payload.take e) (.ofNat e) l).2, r.Inside) ↔
        Coverage.Reaching start stop e l) := by
  induction l generalizing e with
  | nil => exact ⟨rfl, iff_of_true (fun r hr => by cases hr) trivial⟩
  | cons it rest ih =>
    have hcarries := carry it (by simp)
    have hnext := ih (fun it hit => carry it (by simp [hit])) (hcarries.after_le le)
    rw [Fragments.partialFrom, Coverage.extent, Coverage.Reaching, ← after]
    by_cases hbefore : start it < e
    · obtain ⟨hadd, hinside⟩ := hcarries.overlap short le hbefore
      have hafter : after e it = max e (stop it) := if_pos hbefore.le
      rw [if_pos ((gt_iff (by omega)).mpr hbefore), newStart_eq (by omega) hbefore.le]
      dsimp only
      rw [hadd, ← hafter, getSize_take (hcarries.after_le le), forall_mem_cons, hinside, hnext.2]
      exact ⟨hnext.1, and_congr_left fun _ => ⟨fun h _ => h, fun h => h hbefore⟩⟩
    · rw [if_neg (mt (gt_iff (by omega)).mp hbefore)]
      have hadd : (if .ofNat e = it.2 then payload.take e ++ it.1 else payload.take e) =
          payload.take (after e it) := by
        rw [if_congr (eq_iff (by omega)) rfl rfl, after]
        have hlength : stop it = start it + it.1.length := rfl
        split_ifs with heq hle
        · rw [hcarries.append heq, Nat.max_eq_right (by omega)]
        · omega
        · omega
        · rfl
      dsimp only
      rw [hadd, getSize_take (hcarries.after_le le), hnext.2]
      exact ⟨hnext.1, (and_iff_right fun h => absurd h hbefore).symm⟩

end Loop

def Received (received : List PayloadHeaderPair) (q : ℕ) : Prop :=
  ∃ x ∈ received, x.2.m_fragmentOffset.toNat ≤ q ∧ q < x.2.m_fragmentOffset.toNat + x.1.length

/-- The answer is the longest prefix that has been received, and only pieces of the fragments are
asked for. -/
def PartialRight (payload : Packet) (received : List PayloadHeaderPair) : Prop :=
  ∃ p requests m, (gathered received).getPartialPacket = .ok (p, requests) ∧ p = payload.take m ∧
    (∀ q < m, Received received q) ∧ ¬Received received m ∧ ∀ r ∈ requests, r.Inside

/-- No stored fragment begins in front of the end of what those stored before it cover from 0 on
without a gap, and ends in front of it too. -/
def NoneEndsBefore (l : List (Packet × UInt16)) : Prop :=
  ∀ before it after m, l = before ++ it :: after → Coverage.CoveredUpTo start stop before m →
    start it < m → m ≤ stop it

section Partial

variable {payload : Packet} {received : List PayloadHeaderPair}

theorem noneEndsBefore_iff {l : List (Packet × UInt16)}
    (sorted : l.Pairwise fun a b => start a ≤ start b) :
    NoneEndsBefore l ↔ Coverage.Reaching start stop 0 l := by
  rw [Coverage.reaching_iff, NoneEndsBefore]
  constructor
  · intro h before it after hl hlt
    refine h before it after _ hl (Coverage.coveredUpTo_extent ?_) hlt
    rw [hl] at sorted
    exact (pairwise_append.mp sorted).1
  · intro h before it after m hl covered hlt
    rw [hl] at sorted
    rw [covered.unique (Coverage.coveredUpTo_extent (pairwise_append.mp sorted).1)] at hlt ⊢
    exact h before it after hl hlt

theorem getPartialPacket_spec (short : payload.length < 2 ^ 16)
    (carry : ∀ x ∈ received, Carries payload (x.1, x.2.m_fragmentOffset)) (filled : received ≠ []) :
    ∃ requests, (gathered received).getPartialPacket =
        .ok (payload.take (Coverage.extent start stop 0 (gathered received).m_fragments),
          requests) ∧
      ((∀ r ∈ requests, r.Inside) ↔ NoneEndsBefore (gathered received).m_fragments) := by
  have hgathers := gathers received
  have hcarry : ∀ it ∈ (gathered received).m_fragments, Carries payload it := by
    intro it hit
    obtain ⟨x, hx, rfl⟩ := (hgathers.mem it).mp hit
    exact carry x hx
  have hsorted := hgathers.sorted
  obtain ⟨x, hx⟩ := exists_mem_of_ne_nil received filled
  have hfirst := (hgathers.mem _).mpr ⟨x, hx, rfl⟩
  rw [noneEndsBefore_iff hsorted, Fragments.getPartialPacket]
  cases hlist : (gathered received).m_fragments with
  | nil =>
    rw [hlist] at hfirst
    cases hfirst
  | cons it rest =>
    rw [hlist] at hcarry hsorted
    by_cases hzero : it.2 > 0
    · have hbehind : ∀ a ∈ it :: rest, 0 < start a := by
        have hpos : 0 < start it := UInt16.lt_iff_toNat_lt.mp hzero
        intro a ha
        rcases mem_cons.mp ha with rfl | ha
        · exact hpos
        · exact hpos.trans_le ((pairwise_cons.mp hsorted).1 a ha)
      rw [Coverage.extent_eq_of_lt hbehind]
      dsimp only
      rw [if_pos hzero]
      exact ⟨[], rfl, iff_of_true (fun r hr => by cases hr) (Coverage.reaching_of_lt hbehind)⟩
    · have hspec := partialFrom_spec short hcarry (Nat.zero_le _)
      dsimp only
      rw [if_neg hzero]
      exact ⟨_, congrArg Except.ok (Prod.ext hspec.1 rfl), hspec.2⟩

end Partial

/-- The prefix is always right; what is asked for is if and only if no stored fragment ends in front
of what those before it cover. -/
theorem getPartialPacket_iff {payload : Packet} {received : List PayloadHeaderPair}
    (short : payload.length < 2 ^ 16)
    (carry : ∀ x ∈ received, Carries payload (x.1, x.2.m_fragmentOffset)) (filled : received ≠ []) :
    PartialRight payload received ↔ NoneEndsBefore (gathered received).m_fragments := by
  obtain ⟨requests, run, hinside⟩ := getPartialPacket_spec short carry filled
  obtain ⟨hcovers, hnot⟩ : Coverage.CoveredUpTo start stop (gathered received).m_fragments _ :=
    Coverage.coveredUpTo_extent (gathers received).sorted
  rw [← hinside]
  constructor
  · rintro ⟨p, requests', m, run', -, -, -, hrequests⟩
    rw [run] at run'
    cases run'
    exact hrequests
  · intro hrequests
    refine ⟨_, requests, _, run, rfl, fun q hq => ?_, fun h => hnot ?_, hrequests⟩
    · exact ((gathers received).covers_iff q).mp (hcovers q hq)
    · exact ((gathers received).covers_iff _).mpr h

theorem Piece.carries {d : Datagram} {x : PayloadHeaderPair} (piece : Piece d x) :
    Carries d.payload (x.1, x.2.m_fragmentOffset) := piece.part.slice.carries

/-- The bytes from 48 to 95 of a copy, and those up to `k` of another one. -/
def twoCopies (mtu : UInt32) : List PayloadHeaderPair :=
  ((cut (counting.payload, counting.header) 68).drop 1).take 1 ++
    (cut (counting.payload, counting.header) mtu).take 1

theorem twoCopies_pieces {mtu : UInt32} (h : 68 ≤ mtu) : ∀ x ∈ twoCopies mtu, Piece counting x := by
  intro x hx
  rcases mem_append.mp hx with hx | hx
  · exact Piece.whole.cut (by decide) (mem_of_mem_drop (mem_of_mem_take hx))
  · exact Piece.whole.cut h (mem_of_mem_take hx)

theorem getPartialPacket_iff_twoCopies :
    (∀ x ∈ twoCopies 108, Carries counting.payload (x.1, x.2.m_fragmentOffset)) ∧
    (PartialRight counting.payload (twoCopies 108) ↔
      NoneEndsBefore (gathered (twoCopies 108)).m_fragments) := by
  have carry : ∀ x ∈ twoCopies 108, Carries counting.payload (x.1, x.2.m_fragmentOffset) :=
    fun x hx => (twoCopies_pieces (by decide) x hx).carries
  exact ⟨carry,
    getPartialPacket_iff (counting.short.trans_lt (by decide)) carry (by decide +kernel)⟩

/-- The bytes up to 111 have been put together when those from 48 to 95 are looked at. -/
theorem getPartialPacket_asks_beyond : (∀ x ∈ twoCopies 136, Piece counting x) ∧
    ¬PartialRight counting.payload (twoCopies 136) := by
  refine ⟨twoCopies_pieces (by decide), ?_⟩
  have houtside : (gathered (twoCopies 136)).getPartialPacket.toOption.all
      (fun out => !decide (∀ r ∈ out.2, Fragments.Request.Inside r)) = true := by decide +kernel
  rintro ⟨p, requests, m, run, -, -, -, hrequests⟩
  rw [run, Except.toOption, Option.all_some, decide_eq_true hrequests] at houtside
  exact Bool.false_ne_true houtside

end Egsr.Internet.Ipv4
