import Egsr.Grp.Control
import Egsr.Grp.DataPlane

/-! The neighbours an ant is handed to. At a junction a lottery among the streets decides: a street
has a ticket for every neighbour on it, but the number drawn is below the size of the whole
neighbour table, so it may be that of no ticket. -/

namespace Egsr.Grp.Forwarders

open Grp.Road Grp.State Grp.Control Grp.DataPlane Lib.Outcome List Network.ByteIterator

def lies (map : RoadMap) (p : Position) (cjid djid : ℕ) : Bool :=
  match isBetweenSegment map p cjid djid with
  | .ok between => between
  | .error _ => false

theorem junction_eq {map : RoadMap} {jid : ℕ} (h : jid < map.length) : junction map jid =
    .ok map[jid] := by
  rw [junction, List.getElem?_eq_getElem h]
  rfl

theorem isBetweenSegment_eq {map : RoadMap} {cjid djid : ℕ} (hc : cjid < map.length)
    (hd : djid < map.length)
    (p : Position) : isBetweenSegment map p cjid djid = .ok (lies map p cjid djid) := by
  have direction : ∃ dir, getDirection map cjid djid = .ok dir := by
    simp only [getDirection, junction_eq hc, junction_eq hd, bind, Except.bind]
    split_ifs <;> exact ⟨_, rfl⟩
  obtain ⟨dir, hdir⟩ := direction
  have total : ∃ between, isBetweenSegment map p cjid djid = .ok between := by
    simp only [isBetweenSegment, junction_eq hc, junction_eq hd, hdir, bind, Except.bind]
    exact ⟨_, rfl⟩
  obtain ⟨between, h⟩ := total
  rw [lies, h]

section Selections

variable {q : List (ℚ × Ipv4Address)}
  {numOfNei : ℕ → List (ℚ × Ipv4Address)} {streets : List ℕ} {r sum e : ℕ}

theorem top_mem (above : ℚ × Ipv4Address → ℚ × Ipv4Address → Bool) (ne : q ≠ []) : ∃ x ∈ q,
    top above q = some x := by
  have every : ∀ (better : Option (ℚ × Ipv4Address) → ℚ × Ipv4Address → Option (ℚ × Ipv4Address)),
      (∀ b x, better (some b) x = if above x b then some x else some b) →
      ∀ (l : List (ℚ × Ipv4Address)) (b : ℚ × Ipv4Address), ∃ x, (x = b ∨ x ∈ l) ∧
        l.foldl better (some b) = some x := by
    intro better round l
    induction l with
    | nil => exact fun b => ⟨b, .inl rfl, rfl⟩
    | cons a l ih =>
      intro b
      rw [foldl_cons, round]
      by_cases habove : above a b
      · rw [if_pos habove]
        obtain ⟨x, hx, htop⟩ := ih a
        exact ⟨x, .inr (mem_cons.mpr hx), htop⟩
      · rw [if_neg habove]
        obtain ⟨x, hx, htop⟩ := ih b
        exact ⟨x, hx.imp id (mem_cons_of_mem a), htop⟩
  cases q with
  | nil => exact absurd rfl ne
  | cons b q =>
    obtain ⟨better, round, run⟩ : ∃ better, (∀ b x, better (some b) x = if above x b then some x
      else some b) ∧
        top above (b :: q) = q.foldl better (some b) := by
      refine ⟨_, ?_, rfl⟩
      exact fun _ _ => rfl
    obtain ⟨x, hx, htop⟩ := every better round q b
    exact ⟨x, mem_cons.mpr hx, run.trans htop⟩

def total (numOfNei : ℕ → List (ℚ × Ipv4Address)) (streets : List ℕ) : ℕ :=
  (streets.map fun e => (numOfNei e).length).sum

theorem total_perm {streets' : List ℕ} (h : streets.Perm streets') :
    total numOfNei streets = total numOfNei streets' := (h.map _).sum_eq

theorem total_congr {numOfNei' : ℕ → List (ℚ × Ipv4Address)}
    (h : ∀ e ∈ streets, numOfNei e = numOfNei' e) :
    total numOfNei streets = total numOfNei' streets := by
  rw [total, total, map_congr_left fun e he => congrArg List.length (h e he)]

theorem total_pos_iff : 0 < total numOfNei streets ↔ ∃ e ∈ streets, numOfNei e ≠ [] := by
  rw [total, Nat.pos_iff_ne_zero, ne_eq, sum_eq_zero_iff]
  simp [length_eq_zero_iff]

theorem lottery_eq_none (below : sum ≤ r) :
    lottery numOfNei r sum streets = none ↔ sum + total numOfNei streets ≤ r := by
  induction streets generalizing sum with
  | nil => simp [lottery, total, below]
  | cons e streets ih =>
    have split : total numOfNei (e :: streets) = (numOfNei e).length + total numOfNei streets := by
      simp [total]
    rw [lottery, split, ← Nat.add_assoc]
    by_cases won : r < sum + (numOfNei e).length
    · rw [if_pos won]
      simp only [reduceCtorEq, false_iff]
      omega
    · rw [if_neg won]
      exact ih (not_lt.mp won)

theorem lottery_eq_some (below : sum ≤ r) (h : lottery numOfNei r sum streets = some e) :
    e ∈ streets ∧ numOfNei e ≠ [] := by
  induction streets generalizing sum with
  | nil => cases h
  | cons a streets ih =>
    rw [lottery] at h
    by_cases won : r < sum + (numOfNei a).length
    · rw [if_pos won, Option.some_inj] at h
      subst h
      refine ⟨mem_cons_self, fun nil => ?_⟩
      rw [nil, length_nil] at won
      omega
    · rw [if_neg won] at h
      exact (ih (not_lt.mp won) h).imp (mem_cons_of_mem a) id

end Selections

/-! ## Tickets -/

section Tickets

variable (v : Vehicle) (fromJid toJid : ℤ)

def excluded (p : Position) : Bool :=
  decide (fromJid ≠ -1 ∧ toJid ≠ -1) && lies v.map p fromJid.toNat toJid.toNat

/-- The neighbour is on the street to `e` and not on the one left out. -/
def qualifies (e : ℕ) (entry : NeighborTableEntry) : Bool :=
  lies v.map entry.nLocation v.currentJID e && !excluded v fromJid toJid entry.nLocation

def tickets (e : ℕ) : List (ℚ × Ipv4Address) :=
  (v.neiTable.toList.filter fun nei => qualifies v fromJid toJid e nei.2).map fun nei =>
    (squaredDistance v.last nei.2.nLocation, nei.1)

/-- The current junction, the ends of its streets and those of the street left out are on the
map. -/
structure Mapped : Prop where
  here : v.currentJID < v.map.length
  streets : ∀ e ∈ v.map[v.currentJID].outedge, e < v.map.length
  left : fromJid ≠ -1 ∧ toJid ≠ -1 →
    (0 ≤ fromJid ∧ fromJid.toNat < v.map.length) ∧ 0 ≤ toJid ∧ toJid.toNat < v.map.length

/-- A street of the junction, and a neighbour on it that is not on the street left out. -/
structure Candidate (e : ℕ) (addr : Ipv4Address) : Prop where
  street : ∃ here, v.map[v.currentJID]? = some here ∧ e ∈ here.outedge
  neighbor : ∃ entry, v.neiTable[addr]? = some entry ∧ qualifies v fromJid toJid e entry

/-- All tickets of the junction: one for each neighbour and each of the streets it is on. -/
def chances : ℕ :=
  match v.map[v.currentJID]? with
  | some here => total (tickets v fromJid toJid) here.outedge.keys
  | none => 0

end Tickets

section Lottery

variable {v : Vehicle} {fromJid toJid : ℤ} {streets : List ℕ} {e : ℕ} {addr : Ipv4Address}

theorem tickets_ne_nil : tickets v fromJid toJid e ≠ [] ↔
    ∃ (addr : Ipv4Address) (entry : NeighborTableEntry), v.neiTable[addr]? = some entry ∧
      qualifies v fromJid toJid e entry := by
  rw [tickets, ne_eq, map_eq_nil_iff, filter_eq_nil_iff]
  push Not
  constructor
  · intro h
    obtain ⟨nei, hnei, hqualifies⟩ := h
    exact ⟨nei.1, nei.2, Std.TreeMap.mem_toList_iff_getElem?_eq_some.mp hnei, hqualifies⟩
  · intro h
    obtain ⟨addr, entry, hentry, hqualifies⟩ := h
    exact ⟨(addr, entry), Std.TreeMap.mem_toList_iff_getElem?_eq_some.mpr hentry, hqualifies⟩

theorem exists_of_mem_tickets {x : ℚ × Ipv4Address} (h : x ∈ tickets v fromJid toJid e) :
    ∃ entry, v.neiTable[x.2]? = some entry ∧ qualifies v fromJid toJid e entry := by
  obtain ⟨nei, hnei, rfl⟩ := mem_map.mp h
  obtain ⟨hmem, hqualifies⟩ := mem_filter.mp hnei
  exact ⟨nei.2, Std.TreeMap.mem_toList_iff_getElem?_eq_some.mp hmem, hqualifies⟩

theorem foldl_streets (hit : ℕ → Bool) (x : ℚ × Ipv4Address) (nodup : streets.Nodup)
    (q : ℕ → List (ℚ × Ipv4Address)) :
    streets.foldl (fun q e => if hit e then Function.update q e (q e ++ [x]) else q) q =
      fun e => if e ∈ streets ∧ hit e then q e ++ [x] else q e := by
  induction streets generalizing q with
  | nil =>
    funext e
    simp
  | cons a streets ih =>
    have apart := nodup_cons.mp nodup
    rw [foldl_cons, ih apart.2]
    funext e
    by_cases here : e = a
    · subst here
      by_cases hhit : hit e <;> simp [apart.1, hhit]
    · by_cases hhit : hit a <;> simp [here, hhit]

theorem neighborsOnStreets_eq (mapped : Mapped v fromJid toJid) (nodup : streets.Nodup)
    (onMap : ∀ e ∈ streets, e < v.map.length) :
    neighborsOnStreets v streets fromJid toJid =
      .ok fun e => if e ∈ streets then tickets v fromJid toJid e else [] := by
  have left : ∀ p,
    (if fromJid ≠ -1 ∧ toJid ≠ -1 then isBetweenSegment v.map p fromJid.toNat toJid.toNat
      else pure false) = .ok (excluded v fromJid toJid p) := by
    intro p
    by_cases street : fromJid ≠ -1 ∧ toJid ≠ -1
    · have ends := mapped.left street
      rw [if_pos street, isBetweenSegment_eq ends.1.2 ends.2.2, excluded, decide_eq_true street,
        Bool.true_and]
    · rw [if_neg street, excluded, decide_eq_false street, Bool.false_and]
      rfl
  let step : (ℕ → List (ℚ × Ipv4Address)) → Ipv4Address × NeighborTableEntry → ℕ →
    List (ℚ × Ipv4Address) :=
    fun q nei => if excluded v fromJid toJid nei.2.nLocation then q else
      fun e => if e ∈ streets ∧ lies v.map nei.2.nLocation v.currentJID e then
        q e ++ [(squaredDistance v.last nei.2.nLocation, nei.1)] else q e
  have loop : neighborsOnStreets v streets fromJid toJid =
      pure (v.neiTable.toList.foldl step fun _ => []) := by
    unfold neighborsOnStreets
    refine foldlM_pure (fun _ => True) trivial fun q _ nei _ => ⟨?_, trivial⟩
    simp only [left, bind, Except.bind, step]
    by_cases out : excluded v fromJid toJid nei.2.nLocation
    · rw [if_pos out, if_pos out]
    · rw [if_neg out, if_neg out, ← foldl_streets _ _ nodup]
      refine foldlM_pure (fun _ => True) trivial fun q _ e he => ⟨?_, trivial⟩
      simp only [isBetweenSegment_eq mapped.here (onMap e he)]
      split_ifs <;> rfl
  rw [loop]
  refine congrArg Except.ok ?_
  have collect : ∀ (l : List (Ipv4Address × NeighborTableEntry)) q, l.foldl step q = fun e =>
      if e ∈ streets then q e ++
        ((l.filter fun nei => qualifies v fromJid toJid e nei.2).map fun nei =>
        (squaredDistance v.last nei.2.nLocation, nei.1)) else q e := by
    intro l
    induction l with
    | nil =>
      intro q
      funext e
      simp
    | cons nei l ih =>
      intro q
      rw [foldl_cons, ih]
      funext e
      by_cases he : e ∈ streets <;> by_cases out : excluded v fromJid toJid nei.2.nLocation <;>
        by_cases on : lies v.map nei.2.nLocation v.currentJID e <;>
          simp [step, qualifies, he, out, on]
  rw [collect]
  funext e
  simp [tickets]

/-- The answer is a street of the junction with a neighbour on it, or says that there is none. -/
def Right (v : Vehicle) (fromJid toJid : ℤ) (r : ℤ × Ipv4Address) : Prop :=
  (∃ e : ℕ, r.1 = e ∧ Candidate v fromJid toJid e r.2) ∨
    r = (-1, loopback) ∧ ∀ e addr, ¬ Candidate v fromJid toJid e addr

theorem chances_pos_iff : 0 < chances v fromJid toJid ↔
    ∃ e addr, Candidate v fromJid toJid e addr := by
  unfold chances
  cases hhere : v.map[v.currentJID]? with
  | none =>
    simp only [lt_irrefl, false_iff]
    intro h
    obtain ⟨e, addr, hcandidate⟩ := h
    obtain ⟨here, hmap, -⟩ := hcandidate.street
    rw [hhere] at hmap
    cases hmap
  | some here =>
    simp only [total_pos_iff, tickets_ne_nil, Std.TreeMap.mem_keys]
    constructor
    · intro h
      obtain ⟨e, he, addr, entry, hentry, hqualifies⟩ := h
      exact ⟨e, addr, ⟨here, hhere, he⟩, entry, hentry, hqualifies⟩
    · intro h
      obtain ⟨e, addr, ⟨here', hhere', he⟩, entry, hentry, hqualifies⟩ := h
      obtain rfl : here = here' := Option.some.inj (hhere.symm.trans hhere')
      exact ⟨e, he, addr, entry, hentry, hqualifies⟩

variable [Platform]

theorem getNextForwarderInAnchor_lottery (mapped : Mapped v fromJid toJid) (rand : ℕ) :
    ∃ r, getNextForwarderInAnchor v rand fromJid toJid = .ok r ∧
      if rand % v.neiTable.size < chances v fromJid toJid then
        ∃ e : ℕ, r.1 = e ∧ Candidate v fromJid toJid e r.2
      else r = (-1, loopback) := by
  obtain ⟨here, hhere⟩ : ∃ here, v.map[v.currentJID]? = some here :=
    ⟨_, List.getElem?_eq_getElem mapped.here⟩
  have hjunction : junction v.map v.currentJID = .ok here := by
    rw [junction, hhere]
    rfl
  have onMap : ∀ e ∈ here.outedge.keys, e < v.map.length := by
    obtain ⟨-, rfl⟩ := List.getElem?_eq_some_iff.mp hhere
    exact fun e he => mapped.streets e (Std.TreeMap.mem_keys.mp he)
  let numOfNei := fun e => if e ∈ here.outedge.keys then tickets v fromJid toJid e else []
  have hstreets : neighborsOnStreets v here.outedge.keys fromJid toJid = .ok numOfNei :=
    neighborsOnStreets_eq mapped Std.TreeMap.nodup_keys onMap
  have hchances : total numOfNei (Platform.bucketOrder here.outedge.keys) =
      chances v fromJid toJid := by
    rw [total_perm (Platform.bucketOrder_perm _), chances, hhere]
    exact total_congr fun e he => if_pos he
  unfold getNextForwarderInAnchor
  simp only [hjunction, bind, Except.bind]
  by_cases empty : v.neiTable.size = 0
  · have none : ¬ rand % v.neiTable.size < chances v fromJid toJid := by
      intro drawn
      obtain ⟨e, addr, candidate⟩ := chances_pos_iff.mp (Nat.zero_lt_of_lt drawn)
      obtain ⟨entry, hentry, -⟩ := candidate.neighbor
      have hmem := Std.TreeMap.mem_toList_iff_getElem?_eq_some.mpr hentry
      rw [← Std.TreeMap.length_toList, length_eq_zero_iff] at empty
      rw [empty] at hmem
      cases hmem
    exact ⟨_, if_pos empty, by rw [if_neg none]⟩
  · rw [if_neg empty]
    simp only [hstreets]
    cases hlottery :
      lottery numOfNei (rand % v.neiTable.size) 0 (Platform.bucketOrder here.outedge.keys) with
    | none =>
      rw [lottery_eq_none (Nat.zero_le _), Nat.zero_add, hchances] at hlottery
      exact ⟨_, rfl, by rw [if_neg (not_lt.mpr hlottery)]⟩
    | some e =>
      have drawn : rand % v.neiTable.size < chances v fromJid toJid := by
        by_contra missed
        rw [(lottery_eq_none (Nat.zero_le _)).mpr
          (by rw [Nat.zero_add, hchances]; exact not_lt.mp missed)] at hlottery
        cases hlottery
      obtain ⟨hmem, ne⟩ := lottery_eq_some (Nat.zero_le _) hlottery
      have he : e ∈ here.outedge.keys := (Platform.bucketOrder_perm _).mem_iff.mp hmem
      obtain ⟨x, hx, htop⟩ := top_mem (fun a b => decide (pairLt b a)) ne
      simp only [htop]
      refine ⟨_, rfl, ?_⟩
      rw [if_pos drawn]
      rw [show numOfNei e = tickets v fromJid toJid e from if_pos he] at hx
      exact ⟨e, rfl, ⟨here, hhere, Std.TreeMap.mem_keys.mp he⟩, exists_of_mem_tickets hx⟩

/-- So the answer is right just if there is no candidate or the number drawn is that of a ticket. -/
theorem getNextForwarderInAnchor_right_iff (mapped : Mapped v fromJid toJid) (rand : ℕ) :
    ∃ r, getNextForwarderInAnchor v rand fromJid toJid = .ok r ∧ (Right v fromJid toJid r ↔
        chances v fromJid toJid = 0 ∨ rand % v.neiTable.size < chances v fromJid toJid) := by
  obtain ⟨r, hr, answer⟩ := getNextForwarderInAnchor_lottery mapped rand
  refine ⟨r, hr, ?_⟩
  by_cases drawn : rand % v.neiTable.size < chances v fromJid toJid
  · rw [if_pos drawn] at answer
    exact iff_of_true (.inl answer) (.inr drawn)
  · rw [if_neg drawn] at answer
    rw [or_iff_left drawn, ← Nat.le_zero, ← not_lt, chances_pos_iff]
    constructor
    · intro right
      rcases right with hfound | hnone
      · obtain ⟨e, he, -⟩ := hfound
        rw [answer] at he
        exact absurd he (by simp)
      · rintro ⟨e, addr, candidate⟩
        exact hnone.2 e addr candidate
    · intro none
      exact .inr ⟨answer, fun e addr candidate => none ⟨e, addr, candidate⟩⟩

end Lottery

def corner : RoadMap :=
  [⟨0, 0, (∅ : Std.TreeMap ℕ ℚ).insert 1 1000 |>.insert 2 1000⟩, ⟨1000, 0, ∅⟩, ⟨0, 1000, ∅⟩]

/-- A vehicle at junction 0 with a neighbour on the street to junction 1 and one between the
streets. -/
def atCorner : Vehicle := { approaching with
  map := corner
  currentJID := 0
  neiTable := (∅ : NeighborTable).insert 0x0a010002 { emptyEntry with nLocation := ⟨500, 0⟩ }
    |>.insert 0x0a010003 { emptyEntry with nLocation := ⟨500, 500⟩ } }

theorem atCorner_mapped : Mapped atCorner (-1) (-1) := by
  have here : atCorner.currentJID < atCorner.map.length := by decide
  have ends : ∀ entry ∈ corner, ∀ e ∈ entry.outedge.keys, e < corner.length := by decide +kernel
  exact ⟨here, fun e he => ends _ (getElem_mem here) e (Std.TreeMap.mem_keys.mpr he), fun left =>
    absurd rfl left.1⟩

theorem getNextForwarderInAnchor_right_iff_atCorner : Mapped atCorner (-1) (-1) ∧
    ∃ r, @getNextForwarderInAnchor integralPlatform atCorner 0 (-1) (-1) = .ok r ∧
      Right atCorner (-1) (-1) r := by
  obtain ⟨r, hr, right⟩ :=
    @getNextForwarderInAnchor_right_iff _ _ _ integralPlatform atCorner_mapped 0
  exact ⟨atCorner_mapped, r, hr, right.mpr (.inr (by decide +kernel))⟩

/-- The number drawn is 1 of two neighbours, and the only ticket is 0. -/
theorem noTicket_noForwarder : Mapped atCorner (-1) (-1) ∧
    (∃ e addr, Candidate atCorner (-1) (-1) e addr) ∧
      @getNextForwarderInAnchor integralPlatform atCorner 1 (-1) (-1) = .ok (-1, loopback) := by
  refine ⟨atCorner_mapped, chances_pos_iff.mp (by decide +kernel), ?_⟩
  obtain ⟨r, hr, missed⟩ :=
    @getNextForwarderInAnchor_lottery _ _ _ integralPlatform atCorner_mapped 1
  rw [if_neg (by decide +kernel)] at missed
  rw [hr, missed]

end Egsr.Grp.Forwarders
