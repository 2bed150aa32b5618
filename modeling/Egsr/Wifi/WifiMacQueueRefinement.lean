import Mathlib.Algebra.Group.Nat.Defs
import Egsr.Lib.Outcome
import Egsr.Wifi.LifetimeQueueLedger

/-! The transmit queue does what the bounded list with lifetimes does, as long as a
new item does not go in front of the oldest one where that one is dropped for it. -/

namespace Egsr.Wifi.MacQueue

open Lib Lib.Run Lib.Outcome List Option UInt32 LifetimeQueue

def WifiMacQueue.plain (q : WifiMacQueue) : LifetimeQueue :=
  ⟨q.now, q.m_packets.nodes, q.m_packets.fresh, q.m_expiredPacketsPresent, q.log⟩

structure Counted (c : Config) (q : WifiMacQueue) : Prop where
  packets : q.m_nPackets = .ofNat q.m_packets.nodes.length
  bytes : q.m_nBytes = totalSize q.m_packets.nodes
  bounded : q.m_packets.nodes.length ≤ c.getMaxSize.toNat

/-- A call goes through and does what the call of the plain list does. -/
def Refines (c : Config) {ρ : Type} (x : Except Fault (WifiMacQueue × ρ))
    (y : LifetimeQueue × ρ) : Prop :=
  ∃ q', x = .ok (q', y.2) ∧ q'.plain = y.1 ∧ Counted c q'

section Basics

variable {c : Config} {q : WifiMacQueue} {pre post : List Node} {n : Node} {pos : ConstIterator}

theorem Counted.toNat (h : Counted c q) : q.m_nPackets.toNat = q.m_packets.nodes.length := by
  have hmax := c.getMaxSize.toNat_lt
  rw [h.packets, toNat_ofNat', Nat.mod_eq_of_lt (Nat.lt_of_le_of_lt h.bounded hmax)]

theorem totalSize_perm {nodes nodes' : List Node} (perm : nodes.Perm nodes') :
    totalSize nodes = totalSize nodes' := by
  refine perm.foldr_eq' (fun m _ n _ total => ?_) 0
  rw [← UInt32.add_assoc, ← UInt32.add_assoc, UInt32.add_comm m.2.size]

theorem deref_of_nodes (h : q.m_packets.nodes = pre ++ n :: post) : q.deref (some n.1) = .ok n := by
  simp only [WifiMacQueue.deref, Chain.get?_of_nodes h]
  rfl

theorem advance_of_nodes (h : q.m_packets.nodes = pre ++ n :: post) :
    q.advance (some n.1) = .ok (post.head?.map Prod.fst) := by
  rw [WifiMacQueue.advance, deref_of_nodes h, ← Chain.next_of_nodes h]
  rfl

theorem doErase_refines (counted : Counted c q) (h : q.m_packets.nodes = pre ++ n :: post)
    (cause : Cause) : Refines c (q.doErase cause (some n.1))
      ({ q.plain with items := pre ++ post, log := q.log ++ [.left cause n q.now] }, some n.2) := by
  have hlength := counted.toNat
  rw [h, length_append, length_cons] at hlength
  have hsome : q.m_nPackets ≠ 0 := fun hzero => by
    rw [hzero, UInt32.toNat_zero] at hlength
    omega
  have herase := Chain.erase_of_nodes h
  unfold WifiMacQueue.doErase
  rw [if_neg hsome, deref_of_nodes h]
  refine ⟨_, rfl, ?_, ?_, ?_, ?_⟩
  · simp only [WifiMacQueue.plain, herase]
    rfl
  · change q.m_nPackets - 1 = .ofNat (q.m_packets.erase n.1).nodes.length
    rw [herase, counted.packets, h, length_append, length_append, length_cons, ← Nat.add_assoc,
      ofNat_add]
    exact UInt32.add_sub_cancel _ _
  · change q.m_nBytes - n.2.size = totalSize (q.m_packets.erase n.1).nodes
    rw [herase, counted.bytes, h, totalSize_perm perm_middle]
    exact (congrArg (· - n.2.size) (UInt32.add_comm _ _)).trans (UInt32.add_sub_cancel _ _)
  · change (q.m_packets.erase n.1).nodes.length ≤ _
    have hbounded := counted.bounded
    rw [h, length_append, length_cons] at hbounded
    rw [herase, length_append]
    omega

theorem ttlExceeded_of_fresh (h : q.m_packets.nodes = pre ++ n :: post)
    (fresh : expired c q.now n.2 = false) :
    q.ttlExceeded c (some n.1) = .ok (q, some n.1, false) := by
  simp only [WifiMacQueue.ttlExceeded, deref_of_nodes h, bind, Except.bind, fresh]
  rfl

theorem ttlExceeded_of_expired (counted : Counted c q) (h : q.m_packets.nodes = pre ++ n :: post)
    (gone : expired c q.now n.2 = true) :
    ∃ q', q.ttlExceeded c (some n.1) = .ok (q', post.head?.map Prod.fst, true) ∧
      q'.plain = { q.plain with items := pre ++ post, log := q.log ++ [.left .expired n q.now] } ∧
        Counted c q' := by
  obtain ⟨q', hrun, hplain, hcounted⟩ := doErase_refines counted h .expired
  refine ⟨q', ?_, hplain, hcounted⟩
  simp only [WifiMacQueue.ttlExceeded, WifiMacQueue.doRemove, deref_of_nodes h, advance_of_nodes h,
    bind, Except.bind, gone, if_true, hrun]
  rfl

end Basics

/-! ## Loops -/

section Loops

variable {c : Config} {q : WifiMacQueue} {pre rest : List Node} {pos : ConstIterator} {γ : Type}
  (visit : WifiMacQueueItem → γ → γ × WifiMacQueue.Visit)

theorem purging_refines (counted : Counted c q) (h : q.plain.items = pre ++ rest) {rounds : ℕ}
    (enough : rest.length ≤ rounds) (acc : γ) :
    Refines c (WifiMacQueue.purging c visit rounds (rest.head?.map Prod.fst) acc q) ({ q.plain with
        items := pre ++ (passing c q.plain.now visit rest acc).1
        log := q.plain.log ++ (passing c q.plain.now visit rest acc).2.2 },
        (passing c q.plain.now visit rest acc).2.1) := by
  induction rest generalizing q pre rounds acc with
  | nil =>
    rw [append_nil] at h
    refine ⟨q, ?_, ?_, counted⟩
    · cases rounds <;> rfl
    · simp only [passing, append_nil, ← h]
  | cons n post ih =>
    cases rounds with
    | zero => exact absurd enough (Nat.not_succ_le_zero _)
    | succ rounds =>
      have enough := Nat.le_of_succ_le_succ enough
      simp only [List.head?_cons, map_some]
      rw [WifiMacQueue.purging, passing]
      cases hexpired : expired c q.plain.now n.2 with
      | true =>
        obtain ⟨q₁, hrun, hplain, hcounted⟩ := ttlExceeded_of_expired counted h hexpired
        have hitems : q₁.plain.items = pre ++ post := by rw [hplain]
        obtain ⟨q', hrest, hplain', hcounted'⟩ := ih hcounted hitems enough acc
        simp only [hplain] at hrest hplain'
        refine ⟨q', ?_, ?_, hcounted'⟩
        · simp only [hrun, bind, Except.bind, if_true]
          exact hrest
        · rw [hplain']
          simp only [if_true, append_assoc, singleton_append]
          rfl
      | false =>
        simp only [ttlExceeded_of_fresh h hexpired, deref_of_nodes h, bind, Except.bind,
          Bool.false_eq_true, if_false]
        cases hvisit : visit n.2 acc with
        | mk acc' next =>
          cases next with
          | go =>
            have hitems : q.plain.items = (pre ++ [n]) ++ post := by
              rw [h, append_assoc, singleton_append]
            obtain ⟨q', hrest, hplain', hcounted'⟩ := ih counted hitems enough acc'
            refine ⟨q', ?_, ?_, hcounted'⟩
            · simp only [advance_of_nodes h]
              exact hrest
            · rw [hplain']
              simp only [append_assoc, singleton_append]
          | stop => exact ⟨q, rfl, by simp only [append_nil, ← h], counted⟩
          | erase cause =>
            obtain ⟨q', hrun, hplain', hcounted'⟩ := doErase_refines counted h cause
            refine ⟨q', ?_, hplain', hcounted'⟩
            simp only [hrun]
            rfl

theorem purge_refines (counted : Counted c q) (acc : γ) : Refines c (q.purge c visit acc)
    (q.plain.purge c visit acc) :=
  @purging_refines c q [] q.plain.items γ visit counted rfl _ (Nat.le_refl _) acc

omit visit in
theorem purgingTo_refines (counted : Counted c q) (h : q.plain.items = pre ++ rest) {rounds : ℕ}
    (enough : rest.length ≤ rounds) :
    Refines c (WifiMacQueue.purgingTo c pos rounds (rest.head?.map Prod.fst) q) ({ q.plain with
        items := pre ++ (passingTo c q.plain.now pos rest).1
        log := q.plain.log ++ (passingTo c q.plain.now pos rest).2.2 },
        (passingTo c q.plain.now pos rest).2.1) := by
  induction rest generalizing q pre rounds with
  | nil =>
    rw [append_nil] at h
    refine ⟨q, ?_, ?_, counted⟩
    · cases rounds <;> rfl
    · simp only [passingTo, append_nil, ← h]
  | cons n post ih =>
    cases rounds with
    | zero => exact absurd enough (Nat.not_succ_le_zero _)
    | succ rounds =>
      have enough := Nat.le_of_succ_le_succ enough
      simp only [List.head?_cons, map_some]
      rw [WifiMacQueue.purgingTo, passingTo]
      by_cases hpos : some n.1 = pos
      · rw [if_pos hpos, if_pos hpos]
        exact ⟨q, rfl, by simp only [append_nil, ← h], counted⟩
      · rw [if_neg hpos, if_neg hpos]
        cases hexpired : expired c q.plain.now n.2 with
        | true =>
          obtain ⟨q₁, hrun, hplain, hcounted⟩ := ttlExceeded_of_expired counted h hexpired
          have hitems : q₁.plain.items = pre ++ post := by rw [hplain]
          obtain ⟨q', hrest, hplain', hcounted'⟩ := ih hcounted hitems enough
          simp only [hplain] at hrest hplain'
          refine ⟨q', ?_, ?_, hcounted'⟩
          · simp only [hrun, bind, Except.bind, if_true]
            exact hrest
          · rw [hplain']
            simp only [if_true, append_assoc, singleton_append]
            rfl
        | false =>
          have hitems : q.plain.items = (pre ++ [n]) ++ post := by
            rw [h, append_assoc, singleton_append]
          obtain ⟨q', hrest, hplain', hcounted'⟩ := ih counted hitems enough
          refine ⟨q', ?_, ?_, hcounted'⟩
          · simp only [ttlExceeded_of_fresh h hexpired, advance_of_nodes h, bind, Except.bind,
              Bool.false_eq_true, if_false]
            exact hrest
          · rw [hplain']
            simp only [Bool.false_eq_true, if_false, append_assoc, singleton_append]

omit visit in
theorem purgeTo_refines (counted : Counted c q) (pos : ConstIterator) :
    Refines c (q.purgeTo c pos) (q.plain.purgeTo c pos) :=
  @purgingTo_refines c q [] q.plain.items pos counted rfl _ (Nat.le_refl _)

omit visit in
theorem findStale_refines (counted : Counted c q) (h : q.plain.items = pre ++ rest) {rounds : ℕ}
    (enough : rest.length ≤ rounds) :
    match withoutStale c q.plain.now pos rest with
    | some (items, it, ev) =>
      ∃ q', WifiMacQueue.findStale c pos rounds (rest.head?.map Prod.fst) q = .ok (q', some it) ∧
        q'.plain = { q.plain with items := pre ++ items, log := q.plain.log ++ [ev] } ∧ Counted c q'
    | none => WifiMacQueue.findStale c pos rounds (rest.head?.map Prod.fst) q = .ok (q, none) := by
  induction rest generalizing pre rounds with
  | nil => cases rounds <;> rfl
  | cons n post ih =>
    cases rounds with
    | zero => exact absurd enough (Nat.not_succ_le_zero _)
    | succ rounds =>
      have enough := Nat.le_of_succ_le_succ enough
      simp only [List.head?_cons, map_some]
      rw [WifiMacQueue.findStale, withoutStale]
      cases hexpired : expired c q.plain.now n.2 with
      | true =>
        obtain ⟨q₁, hrun, hplain, hcounted⟩ := ttlExceeded_of_expired counted h hexpired
        refine ⟨q₁, ?_, hplain, hcounted⟩
        simp only [hrun, bind, Except.bind, if_true]
        rfl
      | false =>
        have hitems : q.plain.items = (pre ++ [n]) ++ post := by
          rw [h, append_assoc, singleton_append]
        have hrest := ih hitems enough
        simp only [ttlExceeded_of_fresh h hexpired, advance_of_nodes h, bind, Except.bind,
          Bool.false_eq_true, if_false]
        cases hstale : withoutStale c q.plain.now pos post with
        | none =>
          rw [hstale] at hrest
          exact hrest
        | some r =>
          rw [hstale] at hrest
          simp only [append_assoc, singleton_append] at hrest
          exact hrest

end Loops

/-! ## Adding -/

section Adding

variable {c : Config} {q : WifiMacQueue} {pos : ConstIterator} {item : WifiMacQueueItem}

/-- The position is the end or that of an item in the queue. -/
def Points (pos : ConstIterator) (nodes : List Node) : Prop := ∀ i ∈ pos, i ∈ nodes.map Prod.fst

theorem doEnqueue_refines (counted : Counted c q)
    (room : q.m_packets.nodes.length < c.getMaxSize.toNat)
    (points : Points pos q.m_packets.nodes) : Refines c (q.doEnqueue c pos item)
    (q.plain.put pos item, true) := by
  have hmax := c.getMaxSize.toNat_lt
  have hlength := counted.toNat
  have hroom : ¬ c.getMaxSize < q.m_nPackets + 1 := by
    rw [lt_iff_toNat_lt, UInt32.toNat_add, toNat_one, hlength]
    omega
  have perm := Chain.perm_insertNode (q.m_packets.fresh, item) pos q.m_packets.nodes
  refine ⟨{ q with
      m_packets := q.m_packets.insert pos item
      m_nBytes := q.m_nBytes + item.size
      m_nPackets := q.m_nPackets + 1
      log := q.log ++ [.enqueued (q.m_packets.fresh, item)] }, ?_, rfl, ?_, ?_, ?_⟩
  · rw [WifiMacQueue.doEnqueue, if_neg hroom]
    cases pos with
    | none => rfl
    | some i =>
      obtain ⟨n, hn, rfl⟩ := mem_map.mp (points i rfl)
      obtain ⟨pre, post, hnodes⟩ := append_of_mem hn
      simp only [Chain.get?_of_nodes hnodes]
      rfl
  · change q.m_nPackets + 1 = .ofNat (Chain.insertNode _ _ _).length
    rw [perm.length_eq, length_cons, ofNat_add, counted.packets]
    rfl
  · change q.m_nBytes + item.size = totalSize (Chain.insertNode _ _ _)
    rw [totalSize_perm perm, counted.bytes]
    exact UInt32.add_comm _ _
  · change (Chain.insertNode _ _ _).length ≤ _
    rw [perm.length_eq, length_cons]
    omega

theorem withoutStale_none {now : ℕ} {nodes : List Node} (h : withoutStale c now pos nodes = none) :
    ∀ n ∈ nodes, expired c now n.2 = false := by
  induction nodes with
  | nil => exact fun n hn => nomatch hn
  | cons m nodes ih =>
    rw [withoutStale] at h
    by_cases hm : expired c now m.2 = true
    · rw [if_pos hm] at h
      cases h
    · rw [if_neg hm] at h
      exact forall_mem_cons.mpr ⟨Bool.eq_false_iff.mpr hm, ih (map_eq_none_iff.mp h)⟩

theorem Points.of_erase {pre post : List Node} {n : Node} (points : Points pos (pre ++ n :: post))
    (ne : pos ≠ some n.1) : Points pos (pre ++ post) := by
  intro i hi
  have hmem := points i hi
  have hne : i ≠ n.1 := fun heq => ne (by rw [← heq]; exact hi)
  rw [map_append, map_cons, mem_append, mem_cons] at hmem
  rw [map_append, mem_append]
  exact hmem.imp_right fun h => h.resolve_left hne

theorem getMaxSize_pos (c : Config) : 0 < c.getMaxSize.toNat := by
  rw [Config.getMaxSize]
  split_ifs with hzero
  · decide
  · exact Nat.pos_of_ne_zero fun h => hzero (UInt32.toNat_inj.mp h)

/-- In a full queue without expired items a new item does not go in front of the oldest one where
that one is dropped, and the number of items can be told from one more where the new one is. -/
def Room (c : Config) (pos : ConstIterator) (q : WifiMacQueue) : Prop :=
  c.getMaxSize ≤ q.m_nPackets → (∀ n ∈ q.m_packets.nodes, expired c q.now n.2 = false) →
    match c.m_dropPolicy with
    | .dropOldest => pos ≠ q.m_packets.first
    | .dropNewest => c.getMaxSize.toNat + 1 < 2 ^ 32

theorem insertAt_refines (counted : Counted c q) (points : Points pos q.m_packets.nodes)
    (room : Room c pos q) : Refines c (q.insertAt c pos item) (q.plain.insertAt c pos item) := by
  have hlength := counted.toNat
  unfold WifiMacQueue.insertAt insertAt
  by_cases hroom : q.m_nPackets < c.getMaxSize
  · have hroom' : q.plain.items.length < c.getMaxSize.toNat := hlength ▸ lt_iff_toNat_lt.mp hroom
    rw [if_pos hroom, if_pos hroom']
    exact doEnqueue_refines counted hroom' points
  · have hfull : ¬ q.plain.items.length < c.getMaxSize.toNat := fun h =>
      hroom (lt_iff_toNat_lt.mpr (hlength ▸ h))
    have hfull' : q.m_packets.nodes.length = c.getMaxSize.toNat :=
      Nat.le_antisymm counted.bounded (Nat.not_lt.mp hfull)
    rw [if_neg hroom, if_neg hfull]
    have hstale := @findStale_refines c q [] q.plain.items pos counted rfl _ (Nat.le_refl _)
    cases hwithout : withoutStale c q.plain.now pos q.plain.items with
    | some r =>
      obtain ⟨items, it, ev⟩ := r
      rw [hwithout] at hstale
      obtain ⟨q₁, hrun, hplain, hcounted⟩ := hstale
      obtain ⟨pre, n, post, hnodes, rfl, rfl, -, rfl⟩ := withoutStale_some hwithout
      have hnodes₁ : q₁.m_packets.nodes = pre ++ post := congrArg items hplain
      have hless : q₁.m_packets.nodes.length < c.getMaxSize.toNat := by
        have hlen : q.m_packets.nodes.length = (pre ++ n :: post).length :=
          congrArg List.length hnodes
        rw [length_append, length_cons] at hlen
        rw [hnodes₁, length_append]
        omega
      have hpoints : Points (if some n.1 = pos then post.head?.map Prod.fst
          else pos) q₁.m_packets.nodes := by
        rw [hnodes₁]
        split_ifs with hpos
        · intro i hi
          obtain ⟨m, hm, rfl⟩ := map_eq_some_iff.mp hi
          exact mem_map_of_mem (mem_append_right _ (mem_of_head? hm))
        · have hnodes' : q.m_packets.nodes = pre ++ n :: post := hnodes
          exact (hnodes' ▸ points).of_erase fun h => hpos h.symm
      have hput := @doEnqueue_refines c q₁ _ item hcounted hless hpoints
      rw [hplain] at hput
      have hrun' : WifiMacQueue.findStale c pos q.m_packets.nodes.length q.m_packets.first q =
        .ok (q₁, some (if some n.1 = pos then post.head?.map Prod.fst else pos)) := hrun
      simp only [hrun', bind, Except.bind]
      exact hput
    | none =>
      rw [hwithout] at hstale
      have hrun : WifiMacQueue.findStale c pos q.m_packets.nodes.length q.m_packets.first q =
          .ok (q, none) := hstale
      have hspared := room (UInt32.not_lt.mp hroom) (withoutStale_none hwithout)
      simp only [hrun, bind, Except.bind]
      cases hpolicy : c.m_dropPolicy with
      | dropNewest =>
        rw [hpolicy] at hspared
        have hover : c.getMaxSize < q.m_nPackets + 1 := by
          rw [lt_iff_toNat_lt, UInt32.toNat_add, toNat_one, hlength, hfull',
            Nat.mod_eq_of_lt hspared]
          exact Nat.lt_succ_self _
        have hdrop : q.doEnqueue c pos item = .ok (q.say (.dropBeforeEnqueue item), false) :=
          if_pos hover
        exact ⟨q.say (.dropBeforeEnqueue item), hdrop, rfl, counted.packets, counted.bytes,
          counted.bounded⟩
      | dropOldest =>
        rw [hpolicy] at hspared
        cases hnodes : q.m_packets.nodes with
        | nil =>
          have hpos := getMaxSize_pos c
          rw [hnodes, length_nil] at hfull'
          omega
        | cons n rest =>
          have hfirst := Chain.first_of_nodes hnodes
          obtain ⟨q₁, hrun₁, hplain, hcounted⟩ :=
            @doErase_refines c q [] rest n counted hnodes .oldest
          have hnodes₁ : q₁.m_packets.nodes = rest := congrArg items hplain
          have hless : q₁.m_packets.nodes.length < c.getMaxSize.toNat := by
            rw [hnodes, length_cons] at hfull'
            rw [hnodes₁]
            omega
          have hpoints : Points pos q₁.m_packets.nodes := by
            rw [hnodes₁]
            exact (show Points pos ([] ++ n :: rest) from hnodes ▸ points).of_erase
              (hfirst ▸ hspared)
          have hput := @doEnqueue_refines c q₁ pos item hcounted hless hpoints
          rw [hplain] at hput
          have hitems : q.plain.items = n :: rest := hnodes
          simp only [WifiMacQueue.doRemove, hfirst, hrun₁, hitems]
          exact hput

end Adding

/-! ## Taking out -/

section Taking

variable {c : Config} {q : WifiMacQueue} {pre post : List Node} {n : Node}

theorem take_of_nodes (h : q.m_packets.nodes = pre ++ n :: post) (cause : Cause) :
    q.plain.take cause n.1 =
    ({ q.plain with items := pre ++ post, log := q.log ++ [.left cause n q.now] }, some n.2) := by
  have hfind : (q.plain.items.find? fun m => m.1 = n.1) = some n := Chain.find?_of_nodes h
  have herase : (q.plain.items.filter fun m => m.1 ≠ n.1) = pre ++ post := Chain.erase_of_nodes h
  rw [LifetimeQueue.take, hfind]
  simp only [herase]
  rfl

theorem takeFresh_refines (counted : Counted c q) (h : q.m_packets.nodes = pre ++ n :: post) :
    Refines c (do
      let (q, it, gone) ← q.ttlExceeded c (some n.1)
      if gone then pure (q, none) else q.doDequeue it) (q.plain.takeFresh c n.1) := by
  have hfind : (q.plain.items.find? fun m => m.1 = n.1) = some n := Chain.find?_of_nodes h
  rw [takeFresh, hfind]
  cases hexpired : expired c q.plain.now n.2 with
  | true =>
    obtain ⟨q', hrun, hplain, hcounted⟩ := ttlExceeded_of_expired counted h hexpired
    simp only [hexpired, if_true, hrun, take_of_nodes h, bind, Except.bind]
    exact ⟨q', rfl, hplain, hcounted⟩
  | false =>
    simp only [ttlExceeded_of_fresh h hexpired, bind, Except.bind, hexpired, Bool.false_eq_true,
      if_false, take_of_nodes h]
    exact doErase_refines counted h .dequeued

theorem passingTo_of_nodes {now : ℕ} (h : ∀ m ∈ pre, m.1 ≠ n.1) :
    ∃ front, passingTo c now (some n.1) (pre ++ n :: post) =
      (front ++ n :: post, true, (passingTo c now (some n.1) (pre ++ n :: post)).2.2) := by
  induction pre with
  | nil =>
    rw [nil_append, passingTo, if_pos rfl]
    exact ⟨[], rfl⟩
  | cons m pre ih =>
    obtain ⟨hm, hpre⟩ := forall_mem_cons.mp h
    obtain ⟨front, hfront⟩ := ih hpre
    rw [cons_append, passingTo, if_neg fun heq => hm (Option.some.inj heq)]
    cases hexpired : expired c now m.2 with
    | true => exact ⟨front, by rw [if_pos rfl, hfront]⟩
    | false => exact ⟨m :: front, by rw [if_neg Bool.false_ne_true, hfront]; rfl⟩

theorem purgeTo_found (counted : Counted c q) (h : q.m_packets.nodes = pre ++ n :: post) :
    ∃ q' front, q.purgeTo c (some n.1) = .ok (q', true) ∧ q'.m_packets.nodes = front ++ n :: post ∧
      q'.plain = (q.plain.purgeTo c (some n.1)).1 ∧ Counted c q' := by
  obtain ⟨q', hrun, hplain, hcounted⟩ := purgeTo_refines counted (some n.1)
  obtain ⟨front, hfront⟩ := @passingTo_of_nodes c pre post n q.plain.now (Chain.ne_of_nodes h).1
  have hitems : q.plain.items = pre ++ n :: post := h
  have hnodes : q'.m_packets.nodes = front ++ n :: post := by
    have heq := congrArg items hplain
    rw [purgeTo, hitems, hfront] at heq
    exact heq
  have hfound : (q.plain.purgeTo c (some n.1)).2 = true := by
    rw [purgeTo, hitems, hfront]
  rw [hfound] at hrun
  exact ⟨q', front, hrun, hnodes, hplain, hcounted⟩

theorem dequeueAt_refines (counted : Counted c q) (h : q.m_packets.nodes = pre ++ n :: post) :
    Refines c (q.dequeueAt c (some n.1)) (q.plain.dequeueAt c n.1) := by
  unfold WifiMacQueue.dequeueAt dequeueAt
  cases hstale : q.m_expiredPacketsPresent with
  | false =>
    have hstale' : q.plain.stale = false := hstale
    simp only [hstale', Bool.not_false, if_true]
    exact takeFresh_refines counted h
  | true =>
    have hstale' : q.plain.stale = true := hstale
    obtain ⟨q', front, hrun, hnodes, hplain, hcounted⟩ := purgeTo_found counted h
    have hq : Counted c { q' with m_expiredPacketsPresent := false } :=
      ⟨hcounted.packets, hcounted.bytes, hcounted.bounded⟩
    have htake :=
      @takeFresh_refines c { q' with m_expiredPacketsPresent := false } front post n hq hnodes
    have hplain' : WifiMacQueue.plain { q' with m_expiredPacketsPresent := false } =
        { (q.plain.purgeTo c (some n.1)).1 with stale := false } := by
      rw [← hplain]
      rfl
    rw [hplain'] at htake
    simp only [hstale', Bool.not_true, Bool.false_eq_true, if_false, hrun]
    exact htake

theorem removeAt_refines (counted : Counted c q) (h : q.m_packets.nodes = pre ++ n :: post)
    (removeExpired : Bool) :
    Refines c (q.removeAt c (some n.1) removeExpired) (q.plain.removeAt c n.1 removeExpired) := by
  have remove (q : WifiMacQueue) (counted : Counted c q) {pre : List Node}
    (h : q.m_packets.nodes = pre ++ n :: post) :
      Refines c (do
        let next ← q.advance (some n.1)
        let r ← q.doRemove .removed (some n.1)
        pure (r.1, next)) ((q.plain.take .removed n.1).1, q.plain.behind n.1) := by
    obtain ⟨q', hrun, hplain, hcounted⟩ := doErase_refines counted h .removed
    refine ⟨q', ?_, ?_, hcounted⟩
    · simp only [advance_of_nodes h, WifiMacQueue.doRemove, hrun, bind, Except.bind,
        ← Chain.next_of_nodes h]
      rfl
    · rw [take_of_nodes h, hplain]
  unfold WifiMacQueue.removeAt removeAt
  cases removeExpired with
  | false => exact remove q counted h
  | true =>
    obtain ⟨q', front, hrun, hnodes, hplain, hcounted⟩ := purgeTo_found counted h
    have hq : Counted c { q' with m_expiredPacketsPresent := false } :=
      ⟨hcounted.packets, hcounted.bytes, hcounted.bounded⟩
    have hremove := remove { q' with m_expiredPacketsPresent := false } hq hnodes
    have hplain' : WifiMacQueue.plain { q' with m_expiredPacketsPresent := false } =
        { (q.plain.purgeTo c (some n.1)).1 with stale := false } := by
      rw [← hplain]
      rfl
    rw [hplain'] at hremove
    simp only [Bool.not_true, Bool.false_eq_true, if_false, if_true, hrun]
    exact hremove

theorem peekWhere_plain (select : WifiMacQueueItem → Bool) (pos : Option ConstIterator) :
    (q.peekWhere c select pos).1.plain = (q.plain.peekWhere c select pos).1 ∧
      (q.peekWhere c select pos).2 = (q.plain.peekWhere c select pos).2 := ⟨rfl, rfl⟩

theorem Counted.peekWhere (counted : Counted c q) (select : WifiMacQueueItem → Bool)
    (pos : Option ConstIterator) :
    Counted c (q.peekWhere c select pos).1 := ⟨counted.packets, counted.bytes, counted.bounded⟩

theorem mem_of_peeking {now : ℕ} {select : WifiMacQueueItem → Bool} {nodes : List Node}
    {present : Bool}
    (h : (WifiMacQueue.peeking c now select nodes present).1 = some n) : n ∈ nodes := by
  induction nodes generalizing present with
  | nil => cases h
  | cons m nodes ih =>
    rw [WifiMacQueue.peeking] at h
    split_ifs at h
    · exact mem_cons_of_mem m (ih h)
    · cases h
      exact mem_cons_self
    · exact mem_cons_of_mem m (ih h)

theorem mem_of_itemsFrom {pos : ConstIterator} {nodes : List Node}
    (h : n ∈ WifiMacQueue.itemsFrom pos nodes) : n ∈ nodes := by
  cases pos with
  | none => cases h
  | some i => exact (dropWhile_sublist _).subset h

theorem dequeueWhere_refines (counted : Counted c q) (select : WifiMacQueueItem → Bool) :
    Refines c (q.dequeueWhere c select) (q.plain.dequeueWhere c select) := by
  unfold WifiMacQueue.dequeueWhere dequeueWhere
  have hplain := (peekWhere_plain (q := q) (c := c) select none)
  have hcounted := counted.peekWhere select none
  cases hpeek : (q.peekWhere c select none).2 with
  | none =>
    have hpeek' : (q.plain.peekWhere c select none).2 = none := hpeek
    simp only [hpeek, hpeek']
    exact ⟨(q.peekWhere c select none).1, rfl, hplain.1, hcounted⟩
  | some n =>
    have hpeek' : (q.plain.peekWhere c select none).2 = some n := hpeek
    have hmem : n ∈ (q.peekWhere c select none).1.m_packets.nodes :=
      mem_of_itemsFrom (mem_of_peeking hpeek)
    obtain ⟨pre, post, hnodes⟩ := append_of_mem hmem
    simp only [hpeek, hpeek']
    exact dequeueAt_refines hcounted hnodes

end Taking

/-! ## Runs -/

/-- Positions that are passed are the end or those of items in the queue. -/
def Valid (q : WifiMacQueue) : Action → Prop
  | .insertAt pos _ => Points pos q.m_packets.nodes
  | .dequeueAt pos => pos ≠ none ∧ Points pos q.m_packets.nodes
  | .removeAt pos _ => pos ≠ none ∧ Points pos q.m_packets.nodes
  | .peekWhere _ pos => ∀ p ∈ pos, Points p q.m_packets.nodes
  | _ => True

def Spared (c : Config) (q : WifiMacQueue) : Action → Prop
  | .enqueue _ => Room c none q
  | .pushFront _ => Room c q.m_packets.first q
  | .insertAt pos _ => Room c pos q
  | _ => True

section Runs

variable {c : Config} {q : WifiMacQueue} {a : Action}

theorem Refines.map {ρ ρ' : Type} {x : Except Fault (WifiMacQueue × ρ)} {y : LifetimeQueue × ρ}
    (h : Refines c x y) (f : ρ → ρ') : Refines c (x.map fun r => (r.1, f r.2)) (y.1, f y.2) := by
  obtain ⟨q', rfl, hplain, hcounted⟩ := h
  exact ⟨q', rfl, hplain, hcounted⟩

theorem points_first (q : WifiMacQueue) : Points q.m_packets.first q.m_packets.nodes := by
  intro i hi
  obtain ⟨n, hn, rfl⟩ := map_eq_some_iff.mp hi
  exact mem_map_of_mem (mem_of_head? hn)

theorem perform_refines (counted : Counted c q) (valid : Valid q a) (spared : Spared c q a) :
    Refines c (perform c q a) (q.plain.perform c a) := by
  cases a with
  | enqueue item =>
    exact (insertAt_refines counted (fun _ h => by cases h) spared).map Result.accepted
  | pushFront item => exact (insertAt_refines counted (points_first q) spared).map Result.accepted
  | insertAt pos item => exact (insertAt_refines counted valid spared).map Result.accepted
  | dequeue => exact (purge_refines _ counted none).map Result.item
  | dequeueWhere query => exact (dequeueWhere_refines counted query.select).map Result.item
  | dequeueAt pos =>
    obtain ⟨hsome, points⟩ := valid
    obtain ⟨i, rfl⟩ := ne_none_iff_exists'.mp hsome
    obtain ⟨n, hn, rfl⟩ := mem_map.mp (points i rfl)
    obtain ⟨pre, post, hnodes⟩ := append_of_mem hn
    exact (dequeueAt_refines counted hnodes).map Result.item
  | peek => exact ⟨_, rfl, rfl, counted.peekWhere _ _⟩
  | peekWhere query pos => exact ⟨_, rfl, rfl, counted.peekWhere _ _⟩
  | remove => exact (purge_refines _ counted none).map Result.item
  | removePacket packet => exact (purge_refines _ counted false).map Result.found
  | removeAt pos removeExpired =>
    obtain ⟨hsome, points⟩ := valid
    obtain ⟨i, rfl⟩ := ne_none_iff_exists'.mp hsome
    obtain ⟨n, hn, rfl⟩ := mem_map.mp (points i rfl)
    obtain ⟨pre, post, hnodes⟩ := append_of_mem hn
    exact (removeAt_refines counted hnodes removeExpired).map Result.position
  | getNPacketsByAddress dest => exact (purge_refines _ counted 0).map Result.number
  | getNPacketsByTidAndAddress tid dest => exact (purge_refines _ counted 0).map Result.number
  | isEmpty => exact (purge_refines _ counted true).map Result.found
  | getNPackets =>
    obtain ⟨q', hrun, hplain, hcounted⟩ :=
      purge_refines (fun _ (_ : Unit) => ((), WifiMacQueue.Visit.go)) counted ()
    refine ⟨q', ?_, hplain, hcounted⟩
    have hitems := congrArg items hplain
    have hlength : q'.m_nPackets =
        .ofNat (q.plain.purge c (fun _ (_ : Unit) => ((), .go)) ()).1.items.length := by
      rw [← hitems]
      exact hcounted.packets
    simp only [perform, WifiMacQueue.getNPackets, hrun, LifetimeQueue.perform, ← hlength]
    rfl
  | getNBytes =>
    obtain ⟨q', hrun, hplain, hcounted⟩ :=
      purge_refines (fun _ (_ : Unit) => ((), WifiMacQueue.Visit.go)) counted ()
    refine ⟨q', ?_, hplain, hcounted⟩
    have hitems := congrArg items hplain
    have hsize : q'.m_nBytes =
        totalSize (q.plain.purge c (fun _ (_ : Unit) => ((), .go)) ()).1.items := by
      rw [← hitems]
      exact hcounted.bytes
    simp only [perform, WifiMacQueue.getNBytes, hrun, LifetimeQueue.perform, ← hsize]
    rfl
  | wait delay =>
    exact ⟨{ q with now := q.now + delay }, rfl, rfl, counted.packets, counted.bytes,
      counted.bounded⟩

theorem step_refines (counted : Counted c q) (valid : Valid q a) (spared : Spared c q a) :
    ∃ q', step c q a = .ok q' ∧ q'.plain = q.plain.step c a ∧ Counted c q' := by
  obtain ⟨q', hrun, hplain, hcounted⟩ := perform_refines counted valid spared
  refine ⟨q'.say (.returned (q.plain.perform c a).2), ?_, ?_, hcounted.packets, hcounted.bytes,
    hcounted.bounded⟩
  · rw [step, hrun]
    rfl
  · rw [LifetimeQueue.step, ← hplain]
    rfl

structure Orderly (c : Config) (q : WifiMacQueue) (a : Action) : Prop where
  order : ∀ q', step c q a = .ok q' → InOrder q.m_packets.nodes q'.m_packets.nodes
  fresh : a.dequeues = true → ∀ q' item, perform c q a = .ok (q', .item (some item)) →
    expired c q.now item = false

structure Faithful (c : Config) (l : LifetimeQueue) (q : WifiMacQueue) : Prop where
  plain : q.plain = l
  counted : Counted c q
  ledger : Ledger c l

theorem Faithful.step {l : LifetimeQueue} (h : Faithful c l q) (valid : Valid q a)
    (spared : Spared c q a) : ∃ q', MacQueue.step c q a = .ok q' ∧ Faithful c (l.step c a) q' := by
  obtain ⟨q', hrun, hplain, hcounted⟩ := step_refines h.counted valid spared
  exact ⟨q', hrun, h.plain ▸ hplain, hcounted, h.ledger.step a⟩

theorem Faithful.orderly {l : LifetimeQueue} (h : Faithful c l q) (valid : Valid q a)
    (spared : Spared c q a) : Orderly c q a where
  order q' hrun := by
    obtain ⟨q₁, hrun₁, hfaithful⟩ := h.step valid spared
    obtain rfl : q' = q₁ := Except.ok.inj (hrun.symm.trans hrun₁)
    have horder := step_inOrder (c := c) h.ledger.numbered a
    rwa [← hfaithful.plain, ← h.plain] at horder
  fresh dequeues q' item hrun := by
    obtain ⟨q₁, hrun₁, -, -⟩ := perform_refines h.counted valid spared
    have hresult := congrArg Prod.snd (Except.ok.inj (hrun₁.symm.trans hrun))
    exact fresh_of_perform dequeues hresult

theorem Faithful.run {l : LifetimeQueue} {as : List Action} (h : Faithful c l q)
    (guarded : Along (MacQueue.step c) (fun q a => Valid q a ∧ Spared c q a) q as) :
    (∃ q', exec (MacQueue.step c) q as = .ok q' ∧
      Faithful c (as.foldl (LifetimeQueue.step c) l) q') ∧
      Along (MacQueue.step c) (Orderly c) q as := by
  induction as generalizing l q with
  | nil => exact ⟨⟨q, rfl, h⟩, trivial⟩
  | cons a as ih =>
    obtain ⟨⟨valid, spared⟩, rest⟩ := guarded
    obtain ⟨q', hrun, hstep⟩ := h.step valid spared
    rw [exec_cons_ok hrun, along_cons_ok hrun]
    obtain ⟨hrest, horderly⟩ := ih hstep (rest q' hrun)
    exact ⟨hrest, h.orderly valid spared, horderly⟩

end Runs

/-- As long as no new item is to go in front of the oldest one that is dropped for it, the queue
does what the plain list does, and no call uses a position whose element was erased. -/
theorem queue_refines (c : Config) (as : List Action)
    (guarded : Along (step c) (fun q a => Valid q a ∧ Spared c q a) .initial as) :
    (∃ q, exec (step c) .initial as = .ok q ∧
      Faithful c (as.foldl (LifetimeQueue.step c) .initial) q) ∧
      Along (step c) (Orderly c) .initial as := by
  have start : Faithful c .initial .initial := ⟨rfl, ⟨rfl, rfl, Nat.zero_le _⟩, ledger_initial c⟩
  exact start.run guarded

def oneItem : Config := ⟨1, 500, .dropOldest⟩

def dataItem (packet : ℕ) : WifiMacQueueItem := ⟨packet, 100, true, false, 9, 0, 0⟩

def appendRun : List Action :=
  [.enqueue (dataItem 1), .peekWhere .any none, .enqueue (dataItem 2), .wait 600, .dequeue]

theorem queue_refines_appendRun : (∃ q, exec (step oneItem) .initial appendRun = .ok q ∧
        Faithful oneItem (appendRun.foldl (LifetimeQueue.step oneItem) .initial) q) ∧
      Along (step oneItem) (Orderly oneItem) .initial appendRun := by
  refine queue_refines oneItem appendRun
    ((along_cons_ok rfl).mpr ⟨⟨?_, ?_⟩, (along_cons_ok rfl).mpr ⟨⟨?_, trivial⟩,
    (along_cons_ok rfl).mpr ⟨⟨?_, ?_⟩, (along_cons_ok rfl).mpr ⟨⟨trivial, trivial⟩,
      (along_cons_ok rfl).mpr ⟨⟨trivial, trivial⟩, trivial⟩⟩⟩⟩⟩)
  · trivial
  · exact fun hfull => absurd hfull (by decide)
  · exact fun _ h => by cases h
  · trivial
  · exact fun _ _ => (by decide : (none : ConstIterator) ≠ some 0)

def frontRun : List Action := [.enqueue (dataItem 1), .pushFront (dataItem 2)]

/-- The new item is to go in front of the item that is dropped for it. -/
theorem erased_position : Along (step oneItem) Valid .initial frontRun ∧
    exec (step oneItem) .initial frontRun = .error .erased :=
  ⟨⟨trivial, fun _ _ => ⟨trivial, fun _ _ => trivial⟩⟩, rfl⟩

end Egsr.Wifi.MacQueue
