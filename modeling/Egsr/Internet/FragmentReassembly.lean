import Egsr.Internet.Fragmentation
import Egsr.Lib.Coverage
import Egsr.Lib.Outcome

/-! Putting fragments together again. Whether a datagram is complete is decided
by the fragment that starts last, and this one need not be its end: fragments
of two copies of a datagram may be cut at different places. -/

namespace Egsr.Internet.Ipv4

open Internet Lib Lib.Run Lib.Outcome List Function UInt32

def Completed (payload : Packet) (received : List PayloadHeaderPair) : Prop :=
  ∀ q < payload.length, ∃ x ∈ received,
    x.2.m_fragmentOffset.toNat ≤ q ∧ q < x.2.m_fragmentOffset.toNat + x.1.length

instance (payload : Packet) (received : List PayloadHeaderPair) :
    Decidable (Completed payload received) :=
  inferInstanceAs (Decidable (∀ q < _, ∃ x ∈ received, _))

def final (received : List PayloadHeaderPair) : Option PayloadHeaderPair :=
  received.foldl (fun best x =>
    if ∀ b ∈ best, b.2.m_fragmentOffset ≤ x.2.m_fragmentOffset then some x else best) none

theorem final_append (received : List PayloadHeaderPair) (x : PayloadHeaderPair) :
    final (received ++ [x]) = if ∀ b ∈ final received, b.2.m_fragmentOffset ≤ x.2.m_fragmentOffset
      then some x else final received := by
  rw [final, foldl_append]
  rfl

def gathered (received : List PayloadHeaderPair) : Fragments :=
  received.foldl (fun f x => f.addFragment x.1 x.2.m_fragmentOffset !x.2.isLastFragment) .empty

theorem gathered_append (received : List PayloadHeaderPair) (x : PayloadHeaderPair) :
    gathered (received ++ [x]) =
      (gathered received).addFragment x.1 x.2.m_fragmentOffset !x.2.isLastFragment := by
  rw [gathered, foldl_append]
  rfl

def start (it : Packet × UInt16) : ℕ := it.2.toNat

def stop (it : Packet × UInt16) : ℕ := it.2.toNat + it.1.length

section Adding

variable (f : Fragments) (p : Packet) (offset : UInt16) (more : Bool)

theorem not_greater (it : Packet × UInt16) :
    (!decide (it.2 > offset)) = decide (start it ≤ start (p, offset)) := by
  rw [← decide_not, decide_eq_decide, gt_iff_lt, UInt16.not_lt, UInt16.le_iff_toNat_le]
  rfl

theorem addFragment_fragments : (f.addFragment p offset more).m_fragments =
    Coverage.insert start (p, offset) f.m_fragments := by
  simp only [Fragments.addFragment, Coverage.insert, not_greater p offset]

theorem addFragment_more (sorted : f.m_fragments.Pairwise fun a b => start a ≤ start b) :
    (f.addFragment p offset more).m_moreFragment =
      if ∀ b ∈ f.m_fragments.getLast?, b.2 ≤ offset then more else f.m_moreFragment := by
  have hempty : (f.m_fragments.dropWhile fun it => decide (start it ≤ start (p, offset))).isEmpty =
      true ↔ ∀ b ∈ f.m_fragments.getLast?, b.2 ≤ offset := by
    rw [List.isEmpty_iff, dropWhile_eq_nil_iff]
    simp only [decide_eq_true_eq]
    exact Coverage.forall_le_iff sorted _
  simp only [Fragments.addFragment, not_greater p offset]
  exact if_congr hempty rfl rfl

end Adding

structure Gathers (received : List PayloadHeaderPair) (f : Fragments) : Prop where
  sorted : f.m_fragments.Pairwise fun a b => start a ≤ start b
  mem : ∀ it, it ∈ f.m_fragments ↔ ∃ x ∈ received, (x.1, x.2.m_fragmentOffset) = it
  last : f.m_fragments.getLast? = (final received).map fun x => (x.1, x.2.m_fragmentOffset)
  more : ∀ x ∈ final received, f.m_moreFragment = !x.2.isLastFragment

theorem gathers (received : List PayloadHeaderPair) : Gathers received (gathered received) := by
  induction received using List.reverseRecOn with
  | nil => exact ⟨.nil, by simp [gathered, Fragments.empty], rfl, by simp [final]⟩
  | append_singleton received x ih =>
    obtain ⟨hsorted, hmem, hlast, hmore⟩ := ih
    have hlater : (∀ b ∈ (gathered received).m_fragments.getLast?, b.2 ≤ x.2.m_fragmentOffset) ↔
        ∀ b ∈ final received, b.2.m_fragmentOffset ≤ x.2.m_fragmentOffset := by
      rw [hlast]
      cases final received <;> simp
    rw [gathered_append]
    refine ⟨?_, fun it => ?_, ?_, ?_⟩
    · rw [addFragment_fragments]
      exact Coverage.insert_sorted hsorted
    · rw [addFragment_fragments, Coverage.mem_insert, hmem]
      simp only [mem_append, mem_singleton]
      constructor
      · rintro (rfl | ⟨y, hy, rfl⟩)
        · exact ⟨x, Or.inr rfl, rfl⟩
        · exact ⟨y, Or.inl hy, rfl⟩
      · rintro ⟨y, hy | rfl, rfl⟩
        · exact Or.inr ⟨y, hy, rfl⟩
        · exact Or.inl rfl
    · rw [addFragment_fragments, Coverage.getLast?_insert hsorted, final_append]
      have hsame : (∀ b ∈ (gathered received).m_fragments.getLast?,
          start b ≤ start (x.1, x.2.m_fragmentOffset)) ↔
          ∀ b ∈ final received, b.2.m_fragmentOffset ≤ x.2.m_fragmentOffset := hlater
      rw [if_congr hsame rfl rfl, apply_ite (Option.map _), hlast]
      rfl
    · rw [addFragment_more _ _ _ _ hsorted, if_congr hlater rfl rfl, final_append]
      split_ifs
      · rintro y hy
        rw [Option.mem_some_iff.mp hy]
      · exact hmore

/-! ## IsEntire and GetPacket -/

section Entire

variable {d : Datagram}

structure Slice (payload : Packet) (it : Packet × UInt16) : Prop where
  filled : start it < stop it
  inside : stop it ≤ payload.length
  content : it.1 = (payload.drop (start it)).take it.1.length

theorem Part.slice {x : PayloadHeaderPair} (part : Part d x) :
    Slice d.payload (x.1, x.2.m_fragmentOffset) := by
  refine ⟨?_, part.inside, part.content⟩
  have hfilled := part.filled
  simp only [start, stop]
  omega

structure Carries (payload : Packet) (it : Packet × UInt16) : Prop where
  inside : stop it ≤ payload.length
  content : it.1 = (payload.drop (start it)).take it.1.length

theorem Slice.carries {payload : Packet} {it : Packet × UInt16} (slice : Slice payload it) :
    Carries payload it :=
  ⟨slice.inside, slice.content⟩

section Appending

variable {payload : Packet} {it : Packet × UInt16} {e : ℕ} (carries : Carries payload it)

theorem newStart_eq (short : e < 2 ^ 16) (le : start it ≤ e) :
    (UInt16.ofNat e).toUInt32 - it.2.toUInt32 = UInt32.ofNat (e - start it) := by
  rw [← UInt32.toNat_inj, UInt32.toNat_sub, UInt16.toNat_toUInt32, UInt16.toNat_toUInt32,
    UInt16.toNat_ofNat', toNat_ofNat']
  rw [start] at le ⊢
  omega

include carries

theorem Carries.append_rest (short : payload.length < 2 ^ 16) (hstart : start it ≤ e)
    (hstop : e ≤ stop it) : payload.take e ++ it.1.createFragment (.ofNat (e - start it))
      (it.1.getSize - .ofNat (e - start it)) = payload.take (stop it) := by
  obtain ⟨hinside, hcontent⟩ := carries
  have hlength : stop it = start it + it.1.length := rfl
  have hsize : it.1.getSize.toNat = it.1.length := by
    rw [Packet.getSize, toNat_ofNat']
    omega
  have hrest : it.1.getSize - .ofNat (e - start it) = .ofNat (stop it - e) := by
    rw [← UInt32.toNat_inj, UInt32.toNat_sub, hsize, toNat_ofNat', toNat_ofNat']
    omega
  have htail : (it.1.drop (e - start it)).take (stop it - e) =
      (payload.drop e).take (stop it - e) := by
    rw [hcontent, drop_take, take_take, drop_drop]
    congr 1
    · omega
    · congr 1
      omega
  rw [hrest, createFragment_eq (by omega) (by omega), htail, ← take_add]
  congr 1
  omega

theorem Carries.append (hstart : start it = e) : payload.take e ++ it.1 =
    payload.take (stop it) := by
  subst hstart
  rw [carries.content, ← take_add]
  rfl

end Appending

variable {payload : Packet} (short : payload.length ≤ 65515)
include short

theorem entireFrom_iff {l : List (Packet × UInt16)} (slices : ∀ it ∈ l, Slice payload it)
    (e : UInt16) : Fragments.entireFrom e l = true ↔ Coverage.Gapless start stop e.toNat l := by
  induction l generalizing e with
  | nil => simp [Fragments.entireFrom, Coverage.Gapless]
  | cons it rest ih =>
    have hinside := (slices it (by simp)).inside
    have hend : (max e (it.1.getSize + it.2.toUInt32).toUInt16).toNat = max e.toNat (stop it) := by
      have hnat : (it.1.getSize + it.2.toUInt32).toUInt16.toNat = stop it := by
        rw [stop] at hinside ⊢
        rw [toNat_toUInt16, UInt32.toNat_add, Packet.getSize, toNat_ofNat',
          UInt16.toNat_toUInt32]
        omega
      have hmax : max e (it.1.getSize + it.2.toUInt32).toUInt16 =
          if e ≤ (it.1.getSize + it.2.toUInt32).toUInt16
          then (it.1.getSize + it.2.toUInt32).toUInt16 else e := rfl
      rw [hmax]
      split_ifs with hle <;> rw [UInt16.le_iff_toNat_le, hnat] at hle
      · rw [hnat]
        omega
      · omega
    have hrest := ih (fun it hit => slices it (by simp [hit]))
      (max e (it.1.getSize + it.2.toUInt32).toUInt16)
    rw [Fragments.entireFrom, Coverage.Gapless, ← hend, ← hrest]
    split_ifs with hgap
    · rw [UInt16.lt_iff_toNat_lt] at hgap
      simp only [start, false_iff, not_and]
      omega
    · rw [UInt16.lt_iff_toNat_lt] at hgap
      exact ⟨fun h => ⟨Nat.le_of_not_lt hgap, h⟩, fun h => h.2⟩

theorem packetFrom_spec {l : List (Packet × UInt16)} (slices : ∀ it ∈ l, Slice payload it) {e : ℕ}
    (gapless : Coverage.Gapless start stop e l) (le : e ≤ payload.length) :
    Fragments.packetFrom (payload.take e) (.ofNat e) l =
      payload.take (Coverage.reach stop e l) := by
  induction l generalizing e with
  | nil => rfl
  | cons it rest ih =>
    have hcarries := (slices it (by simp)).carries
    have hinside := hcarries.inside
    obtain ⟨hstart, hgapless⟩ := gapless
    have hstop : stop it = start it + it.1.length := rfl
    have hsize : it.1.getSize.toNat = it.1.length := by
      rw [Packet.getSize, toNat_ofNat']
      omega
    have hadd : (if .ofNat e > it.2 then
          if it.1.getSize > (UInt16.ofNat e).toUInt32 - it.2.toUInt32 then
            payload.take e ++ it.1.createFragment ((UInt16.ofNat e).toUInt32 - it.2.toUInt32)
              (it.1.getSize - ((UInt16.ofNat e).toUInt32 - it.2.toUInt32))
          else payload.take e
        else payload.take e ++ it.1) = payload.take (max e (stop it)) := by
      have hafter : (.ofNat e > it.2) ↔ start it < e := by
        rw [gt_iff_lt, UInt16.lt_iff_toNat_lt, UInt16.toNat_ofNat', start]
        omega
      have hlonger : (it.1.getSize > .ofNat (e - start it)) ↔ e < stop it := by
        rw [gt_iff_lt, lt_iff_toNat_lt, hsize, toNat_ofNat']
        omega
      rw [newStart_eq (by omega) hstart, if_congr hafter rfl rfl, if_congr hlonger rfl rfl]
      split_ifs with hover hmore
      · rw [hcarries.append_rest (by omega) hstart hmore.le, Nat.max_eq_right hmore.le]
      · rw [Nat.max_eq_left (by omega)]
      · rw [hcarries.append (by omega), Nat.max_eq_right (by omega)]
    have hlength : (Packet.getSize (payload.take (max e (stop it)))).toUInt16 =
        .ofNat (max e (stop it)) := by
      rw [← UInt16.toNat_inj, toNat_toUInt16, Packet.getSize, toNat_ofNat',
        UInt16.toNat_ofNat', length_take]
      omega
    rw [Fragments.packetFrom]
    dsimp only
    rw [hadd, hlength]
    exact ih (fun it hit => slices it (by simp [hit])) hgapless (by omega)

end Entire

section Received

variable {d : Datagram} {received : List PayloadHeaderPair} {f : Fragments} (h : Gathers received f)
  (parts : ∀ x ∈ received, Part d x)
include h parts

theorem Gathers.slices : ∀ it ∈ f.m_fragments, Slice d.payload it := by
  intro it hit
  obtain ⟨x, hx, rfl⟩ := (h.mem it).mp hit
  exact (parts x hx).slice

omit parts in
theorem Gathers.covers_iff (q : ℕ) : Coverage.Covers start stop f.m_fragments q ↔
    ∃ x ∈ received, x.2.m_fragmentOffset.toNat ≤ q ∧
      q < x.2.m_fragmentOffset.toNat + x.1.length := by
  constructor
  · rintro ⟨it, hit, hle, hlt⟩
    obtain ⟨x, hx, rfl⟩ := (h.mem it).mp hit
    exact ⟨x, hx, hle, hlt⟩
  · rintro ⟨x, hx, hle, hlt⟩
    exact ⟨_, (h.mem _).mpr ⟨x, hx, rfl⟩, hle, hlt⟩

end Received

theorem final_mem {received : List PayloadHeaderPair} {x : PayloadHeaderPair}
    (hx : x ∈ final received) : x ∈ received := by
  induction received using List.reverseRecOn with
  | nil => cases hx
  | append_singleton received y ih =>
    rw [final_append] at hx
    split_ifs at hx
    · rw [Option.mem_some_iff.mp hx]
      simp
    · exact mem_append_left _ (ih hx)

theorem final_eq_none {received : List PayloadHeaderPair} (h : final received = none) :
    received = [] := by
  induction received using List.reverseRecOn with
  | nil => rfl
  | append_singleton received y ih =>
    rw [final_append] at h
    split_ifs at h with hlater
    rw [ih h] at hlater
    exact absurd (by simp [final]) hlater

theorem isEntire_iff {d : Datagram} {received : List PayloadHeaderPair} {f : Fragments}
    (h : Gathers received f) (parts : ∀ x ∈ received, Part d x) (filled : received ≠ []) :
    f.isEntire = true ↔ (∀ x ∈ final received, x.2.isLastFragment = true) ∧
      Completed d.payload received := by
  have hslices := h.slices parts
  have hgapless := entireFrom_iff d.short hslices 0
  have hcovers := Coverage.gapless_iff (e := 0) h.sorted fun it hit => (hslices it hit).filled
  have hsize : f.m_fragments.length > 0 := by
    obtain ⟨x, hx⟩ := exists_mem_of_ne_nil received filled
    exact length_pos_of_mem ((h.mem _).mpr ⟨x, hx, rfl⟩)
  obtain ⟨x, hx⟩ : ∃ x, final received = some x := by
    cases hfinal : final received with
    | none => exact absurd (final_eq_none hfinal) filled
    | some x => exact ⟨x, rfl⟩
  have hmore := h.more x hx
  have hpart := parts x (final_mem hx)
  have hlast : (∀ y ∈ final received, y.2.isLastFragment = true) ↔ x.2.isLastFragment = true := by
    rw [hx]
    simp
  have hreach : x.2.isLastFragment = true → ∀ q, q < Coverage.reach stop 0 f.m_fragments ↔
      q < d.payload.length := by
    intro hend q
    rw [Coverage.lt_reach_iff]
    constructor
    · rintro (hq | ⟨it, hit, hq⟩)
      · omega
      · exact hq.trans_le (hslices it hit).inside
    · intro hq
      refine Or.inr ⟨_, (h.mem _).mpr ⟨x, final_mem hx, rfl⟩, ?_⟩
      rw [← hpart.last.mp hend] at hq
      exact hq
  rw [hlast, Fragments.isEntire, Bool.and_eq_true, Bool.and_eq_true, hgapless, hmore, Bool.not_not,
    decide_eq_true_eq]
  have hzero : (0 : UInt16).toNat = 0 := rfl
  rw [hzero, hcovers]
  constructor
  · rintro ⟨⟨hend, -⟩, hall⟩
    refine ⟨hend, fun q hq => (h.covers_iff q).mp ?_⟩
    exact hall q (Nat.zero_le q) ((hreach hend q).mpr hq)
  · rintro ⟨hend, hall⟩
    refine ⟨⟨hend, hsize⟩, fun q _ hq => (h.covers_iff q).mpr ?_⟩
    exact hall q ((hreach hend q).mp hq)

theorem getPacket_spec {d : Datagram} {received : List PayloadHeaderPair} {f : Fragments}
    (h : Gathers received f) (parts : ∀ x ∈ received, Part d x) (filled : received ≠ [])
    (entire : f.isEntire = true) : f.getPacket = .ok d.payload := by
  have hslices := h.slices parts
  obtain ⟨hlast, hcompleted⟩ := (isEntire_iff h parts filled).mp entire
  rw [Fragments.isEntire, Bool.and_eq_true, entireFrom_iff d.short hslices] at entire
  have hgapless := entire.2
  have hreach : d.payload.length ≤ Coverage.reach stop 0 f.m_fragments := by
    by_contra hless
    obtain ⟨x, hx, -, hlt⟩ := hcompleted (Coverage.reach stop 0 f.m_fragments) (by omega)
    exact Nat.lt_irrefl _
      (Coverage.lt_reach_iff.mpr (Or.inr ⟨_, (h.mem _).mpr ⟨x, hx, rfl⟩, hlt⟩))
  rw [Fragments.getPacket]
  cases hlist : f.m_fragments with
  | nil =>
    obtain ⟨x, hx⟩ := exists_mem_of_ne_nil received filled
    have hmem := (h.mem _).mpr ⟨x, hx, rfl⟩
    rw [hlist] at hmem
    cases hmem
  | cons it rest =>
    rw [hlist] at hslices hgapless hreach
    obtain ⟨hfilled, hinside, hcontent⟩ := hslices it (by simp)
    obtain ⟨hstart, hrest⟩ := hgapless
    have hzero : start it = 0 := Nat.le_zero.mp hstart
    have hstop : stop it = it.1.length := by
      rw [stop, ← start, hzero, Nat.zero_add]
    have hfirst : it.1 = d.payload.take (stop it) := by
      rw [hzero, drop_zero] at hcontent
      rw [hstop]
      exact hcontent
    have hsize : it.1.getSize.toUInt16 = .ofNat (stop it) := by
      have hshort := d.short
      rw [← UInt16.toNat_inj, toNat_toUInt16, Packet.getSize, toNat_ofNat',
        UInt16.toNat_ofNat', hstop]
      omega
    have hgap : Coverage.Gapless start stop (stop it) rest := by simpa using hrest
    have hloop :=
      packetFrom_spec d.short (fun o ho => hslices o (mem_cons_of_mem it ho)) hgap hinside
    dsimp only
    rw [hsize]
    nth_rw 1 [hfirst]
    rw [hloop, take_of_length_le]
    simpa [Coverage.reach] using hreach

/-! ## Runs -/

/-- What is received of every datagram, and since it was last complete also what was received. -/
structure Session where
  fragments : MapFragments
  pending : Key → List PayloadHeaderPair

section Runs

variable (sent : Key → Datagram)

def Session.received (s : Session) (x : PayloadHeaderPair) : List PayloadHeaderPair :=
  s.pending (keyOf x.2) ++ [x]

def Session.complete (s : Session) (x : PayloadHeaderPair) : Prop :=
  Completed (sent (keyOf x.2)).payload (s.received x)
deriving Decidable

def step (s : Session) (x : PayloadHeaderPair) : Except Fault Session :=
  (processFragment s.fragments x.1 x.2).map fun r =>
    ⟨r.2.2, update s.pending (keyOf x.2) (if s.complete sent x then [] else s.received x)⟩

def Session.start : Session := ⟨fun _ => none, fun _ => []⟩

/-- The answer is that the packet is complete exactly if it is, and then the packet is the one that
was sent. -/
def Right (s : Session) (x : PayloadHeaderPair) : Prop :=
  Ensures (processFragment s.fragments x.1 x.2)
    (fun r => (r.1 = true ↔ s.complete sent x) ∧ (r.1 = true → r.2.1 = (sent (keyOf x.2)).payload))
    (fun _ => False)
deriving Decidable

def EndsLast (s : Session) (x : PayloadHeaderPair) : Prop :=
  s.complete sent x → ∀ y ∈ final (s.received x), y.2.isLastFragment = true
deriving Decidable

def entry (received : List PayloadHeaderPair) : Option Fragments :=
  if received = [] then none else some (gathered received)

structure Pending (s : Session) : Prop where
  parts : ∀ k, ∀ x ∈ s.pending k, Part (sent k) x
  fragments : ∀ k, s.fragments k = entry (s.pending k)

variable {sent} {s : Session} (pending : Pending sent s) {x : PayloadHeaderPair}
  (part : Part (sent (keyOf x.2)) x)
include pending part

theorem Pending.received_parts : ∀ y ∈ s.received x, Part (sent (keyOf x.2)) y := by
  intro y hy
  rcases mem_append.mp hy with hy | hy
  · exact pending.parts _ y hy
  · rw [mem_singleton.mp hy]
    exact part

theorem Pending.processFragment : processFragment s.fragments x.1 x.2 =
    .ok (if (gathered (s.received x)).isEntire then
        (true, (sent (keyOf x.2)).payload, update s.fragments (keyOf x.2) none)
      else (false, x.1, update s.fragments (keyOf x.2) (some (gathered (s.received x))))) := by
  have hparts := pending.received_parts part
  have hfragments : (s.fragments (keyOf x.2)).getD .empty = gathered (s.pending (keyOf x.2)) := by
    rw [pending.fragments, entry]
    split_ifs with hnone
    · rw [hnone]
      rfl
    · rfl
  have hadded := gathered_append (s.pending (keyOf x.2)) x
  rw [Ipv4.processFragment, hfragments, ← hadded]
  change (if (gathered (s.received x)).isEntire = true then
    (gathered (s.received x)).getPacket.map _ else _) = _
  split_ifs with hentire
  · rw [getPacket_spec (gathers _) hparts (by simp [Session.received]) hentire]
    rfl
  · rfl

theorem Pending.right_iff : Right sent s x ↔ EndsLast sent s x := by
  have hparts := pending.received_parts part
  have hentire := isEntire_iff (gathers (s.received x)) hparts (by simp [Session.received])
  rw [Right, EndsLast, pending.processFragment part]
  split_ifs with hcase
  · obtain ⟨hlast, hcompleted⟩ := hentire.mp hcase
    exact ⟨fun _ _ => hlast, fun _ => ⟨iff_of_true rfl hcompleted, fun _ => rfl⟩⟩
  · constructor
    · intro hright hcompleted
      exact absurd (hright.1.mpr hcompleted) (by simp)
    · intro hends
      refine ⟨iff_of_false (by simp) fun hcompleted => ?_, fun h => absurd h (by simp)⟩
      exact hcase (hentire.mpr ⟨hends hcompleted, hcompleted⟩)

omit part in
theorem Pending.update {k : Key} {received : List PayloadHeaderPair}
    (parts : ∀ y ∈ received, Part (sent k) y) :
    Pending sent ⟨update s.fragments k (entry received), update s.pending k received⟩ := by
  refine ⟨fun j y hy => ?_, fun j => ?_⟩ <;> dsimp only at *
  · by_cases hj : j = k
    · subst hj
      rw [update_self] at hy
      exact parts y hy
    · rw [update_of_ne hj] at hy
      exact pending.parts j y hy
  · by_cases hj : j = k
    · subst hj
      rw [update_self, update_self]
    · rw [update_of_ne hj, update_of_ne hj]
      exact pending.fragments j

theorem Pending.step {s' : Session} (right : Right sent s x) (run : Ipv4.step sent s x = .ok s') :
    Pending sent s' := by
  have hparts := pending.received_parts part
  have hfilled : s.received x ≠ [] := by simp [Session.received]
  rw [Right, pending.processFragment part] at right
  rw [Ipv4.step, pending.processFragment part] at run
  by_cases hentire : (gathered (s.received x)).isEntire = true
  · rw [if_pos hentire] at right run
    obtain rfl := Except.ok.inj run
    rw [if_pos (right.1.mp rfl)]
    exact pending.update (forall_mem_nil _)
  · rw [if_neg hentire] at right run
    obtain rfl := Except.ok.inj run
    have hincomplete : ¬s.complete sent x := fun h => Bool.false_ne_true (right.1.mpr h)
    rw [if_neg hincomplete]
    have hsome := pending.update hparts
    rwa [entry, if_neg hfilled] at hsome

end Runs

theorem start_pending (sent : Key → Datagram) : Pending sent .start := by
  refine ⟨fun k x hx => ?_, fun k => rfl⟩
  simp [Session.start] at hx

/-- Every fragment is a part of its datagram that fits its MTU; and fragments of any number of
datagrams, delivered in any order, are put together rightly exactly if each time a datagram is
complete the last of its fragments ends it. -/
theorem fragments_reassembled (sent : Key → Datagram) (xs : List PayloadHeaderPair)
    (pieces : ∀ x ∈ xs, Piece (sent (keyOf x.2)) x) :
    (∀ k x, Piece (sent k) x → ∀ mtu : UInt32, 68 ≤ mtu →
      ∃ l, doFragmentation x.1 x.2 mtu = .ok l ∧ l.flatMap Prod.fst = x.1 ∧
        ∀ y ∈ l, Fits (sent k) mtu.toNat y) ∧
    (Along (step sent) (Right sent) .start xs ↔ Along (step sent) (EndsLast sent) .start xs) := by
  refine ⟨fun k x piece mtu enough => doFragmentation_spec piece.part enough, ?_⟩
  have hparts : Along (step sent) (fun _ x => Part (sent (keyOf x.2)) x) .start xs :=
    along_of_mem fun x hx => (pieces x hx).part
  exact along_iff (fun s x s' pending part right run => pending.step part right run)
    (fun s x pending part => pending.right_iff part) (start_pending sent) hparts

def cut (x : PayloadHeaderPair) (mtu : UInt32) : List PayloadHeaderPair :=
  (doFragmentation x.1 x.2 mtu).toOption.getD []

theorem Piece.cut {d : Datagram} {x y : PayloadHeaderPair} (piece : Piece d x) {mtu : UInt32}
    (enough : 68 ≤ mtu) (mem : y ∈ cut x mtu) : Piece d y := by
  unfold Ipv4.cut at mem
  cases run : doFragmentation x.1 x.2 mtu with
  | error e =>
    rw [run] at mem
    cases mem
  | ok l =>
    rw [run] at mem
    exact .split piece enough run mem

def counting : Datagram :=
  ⟨(range 150).map .ofNat, ⟨150, 7, 17, 0, 0, 167772161, 167772162, 20⟩, by simp, by simp,
    rfl, rfl, rfl⟩

def recut : List PayloadHeaderPair :=
  (cut (counting.payload, counting.header) 108).drop 1 ++
    ((cut (counting.payload, counting.header) 108).take 1).flatMap (fun x => (cut x 68).reverse) ++
    cut (counting.payload, counting.header) 68

theorem recut_pieces : ∀ x ∈ recut, Piece counting x := by
  intro x hx
  rcases mem_append.mp hx with hx | hx
  · rcases mem_append.mp hx with hx | hx
    · exact Piece.whole.cut (by decide) (mem_of_mem_drop hx)
    · obtain ⟨y, hy, hxy⟩ := mem_flatMap.mp hx
      exact (Piece.whole.cut (by decide) (mem_of_mem_take hy)).cut (by decide)
        (mem_reverse.mp hxy)
  · exact Piece.whole.cut (by decide) hx

-- the run is evaluated by the kernel only
attribute [irreducible] recut

theorem fragments_reassembled_recut :
    Along (step fun _ => counting) (Right fun _ => counting) .start recut := by
  refine (fragments_reassembled (fun _ => counting) recut recut_pieces).2.mpr ?_
  decide +kernel

/-- Two copies, cut at different places: the bytes from `88` on to the end, those from `96` to `143`
of the copy, and at last those up to `87`. -/
theorem fragments_stuck : ¬∀ (sent : Key → Datagram) (xs : List PayloadHeaderPair),
    (∀ x ∈ xs, Piece (sent (keyOf x.2)) x) → Along (step sent) (Right sent) .start xs := by
  intro h
  obtain ⟨xs, hxs⟩ : ∃ xs, xs = (cut (counting.payload, counting.header) 108).drop 1 ++
    ((cut (counting.payload, counting.header) 68).drop 2).take 1 ++
    (cut (counting.payload, counting.header) 108).take 1 := ⟨_, rfl⟩
  have hpieces : ∀ x ∈ xs, Piece counting x := by
    intro x hx
    rw [hxs] at hx
    rcases mem_append.mp hx with hx | hx
    · rcases mem_append.mp hx with hx | hx
      · exact Piece.whole.cut (by decide) (mem_of_mem_drop hx)
      · exact Piece.whole.cut (by decide) (mem_of_mem_drop (mem_of_mem_take hx))
    · exact Piece.whole.cut (by decide) (mem_of_mem_take hx)
  have hright := h (fun _ => counting) xs hpieces
  have hstuck : ¬Along (step fun _ => counting) (Right fun _ => counting) .start xs := by
    rw [hxs]
    decide +kernel
  exact hstuck hright

end Egsr.Internet.Ipv4
