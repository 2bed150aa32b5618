import Egsr.Lib.Selection
import Egsr.Grp.Forwarders
import Egsr.Grp.NextHop

/-! Following `IntraPathRouting` from vehicle to vehicle outside junction areas: while vehicles
stand still, every hop to a neighbour comes nearer to the target junction, so no vehicle is visited
twice. -/

namespace Egsr.Grp.GreedyForwarding

open Grp.Road Grp.State Grp.Control Grp.DataPlane Grp.Forwarders Grp.NextHop List
open Lib.Outcome Lib.Selection Network.ByteIterator

theorem length_le_card {S : Finset Ipv4Address} {path : List Ipv4Address} (nodup : path.Nodup)
    (mem : ∀ b ∈ path, b ∈ S) : path.length ≤ S.card := by
  rw [← toFinset_card_of_nodup nodup]
  exact Finset.card_le_card fun b hb => mem b (mem_toFinset.mp hb)

section Following

variable [Platform]

/-- A neighbour packets are handed to: the link is symmetric and its place within range. -/
def Eligible (v : Vehicle) (nei : Ipv4Address × NeighborTableEntry) : Prop :=
  nei.2.nStatus ≠ .notSym ∧ distance v.position nei.2.nLocation < v.rssiDistanceThreshold
deriving Decidable

/-- The neighbour is nearer to the target than the vehicle, and none that is eligible is nearer. -/
structure Closest (v : Vehicle) (target : Position) (hop : Ipv4Address)
    (entry : NeighborTableEntry) : Prop where
  neighbor : v.neiTable[hop]? = some entry
  eligible : Eligible v (hop, entry)
  nearer : distance entry.nLocation target < distance v.position target
  least : ∀ addr other, v.neiTable[addr]? = some other → Eligible v (addr, other) →
    distance entry.nLocation target ≤ distance other.nLocation target

/-- The vehicle is outside junction areas, between two junctions of the map. -/
structure OnRoad (v : Vehicle) : Prop where
  outside : v.junAreaTag = false
  current : v.currentJID < v.map.length
  next : v.nextJID < v.map.length

variable {v : Vehicle} {dest hop : Ipv4Address} {dstjid : ℕ}

theorem considerNeighbor_eq (onRoad : OnRoad v) (target : Position) (best : ℚ × Ipv4Address)
    (nei : Ipv4Address × NeighborTableEntry) :
    considerNeighbor v dstjid target best nei =
      .ok (better (Eligible v) (fun nei => distance nei.2.nLocation target) Prod.fst best nei) := by
  have nearest : ∃ jid, getNearestJID v = .ok jid := by
    simp only [getNearestJID, junction_eq onRoad.current, junction_eq onRoad.next, bind,
      Except.bind]
    split_ifs <;> exact ⟨_, rfl⟩
  obtain ⟨jid, hjid⟩ := nearest
  unfold considerNeighbor better Eligible
  by_cases sym : nei.2.nStatus = .notSym
  · rw [if_pos sym, if_neg fun taken => taken.1.1 sym]
    rfl
  · rw [if_neg sym]
    by_cases taken : distance nei.2.nLocation target < best.1 ∧
        distance v.position nei.2.nLocation < v.rssiDistanceThreshold
    · rw [if_pos taken, if_pos ⟨⟨sym, taken.2⟩, taken.1⟩, hjid, onRoad.outside]
      rfl
    · rw [if_neg taken, if_neg fun h => taken ⟨h.2, h.1.2⟩]
      rfl

theorem intraPathRouting_closest (onRoad : OnRoad v) (dest : Ipv4Address)
    (target : dstjid < v.map.length) : ∃ hop, intraPathRouting v dest dstjid = .ok hop ∧
      (hop = loopback ∨ hop = dest ∧ InRange v dest ∨
        ∃ entry, Closest v v.map[dstjid].position hop entry) := by
  unfold intraPathRouting
  rw [if_neg (Int.not_lt.mpr (Int.natCast_nonneg dstjid))]
  by_cases near : InRange v dest
  · exact ⟨dest, if_pos near, .inr (.inl ⟨rfl, near⟩)⟩
  · have far : ¬ distance v.position (v.positionOf dest) < v.rssiDistanceThreshold := near
    rw [if_neg far, Int.toNat_natCast, junction_eq target]
    let place := v.map[dstjid].position
    let init := (distance v.position place, loopback)
    have loop : v.neiTable.toList.foldlM (considerNeighbor v dstjid place) init = pure
        (v.neiTable.toList.foldl
          (better (Eligible v) (fun nei => distance nei.2.nLocation place) Prod.fst) init) :=
      foldlM_pure (fun _ => True) trivial fun best _ nei _ =>
        ⟨considerNeighbor_eq onRoad place best nei, trivial⟩
    change ∃ hop, (v.neiTable.toList.foldlM (considerNeighbor v dstjid place) init >>= fun best =>
      pure best.2) = .ok hop ∧ _
    rw [loop]
    refine ⟨_, rfl, ?_⟩
    have least : Least (Eligible v) (fun nei => distance nei.2.nLocation place) Prod.fst
      v.neiTable.toList init _ :=
      least_foldl v.neiTable.toList init
    rcases least.found with none | found
    · rw [none]
      exact .inl rfl
    · obtain ⟨nei, hmem, eligible, hbest, nearer⟩ := found
      rw [hbest] at least ⊢
      refine .inr (.inr ⟨nei.2, ?_⟩)
      exact {
        neighbor := Std.TreeMap.mem_toList_iff_getElem?_eq_some.mp hmem
        eligible := eligible
        nearer := nearer
        least := fun addr other hother =>
          least.le (addr, other) (Std.TreeMap.mem_toList_iff_getElem?_eq_some.mpr hother) }

/-! ## Vehicles that stand still -/

variable {S : Finset Ipv4Address} {vehicle : Ipv4Address → Vehicle} {map : RoadMap}

/-- The vehicles of the set are on roads of the map, and their neighbours are vehicles of the set
that are where the tables say. -/
structure Standing (S : Finset Ipv4Address) (vehicle : Ipv4Address → Vehicle) (map : RoadMap) :
    Prop where
  map : ∀ a ∈ S, (vehicle a).map = map
  onRoad : ∀ a ∈ S, OnRoad (vehicle a)
  known : ∀ a ∈ S, ∀ b entry, (vehicle a).neiTable[b]? = some entry →
    b ∈ S ∧ entry.nLocation = (vehicle b).position

/-- The vehicles a packet for `dest` visits from `a` on, in at most so many hops. -/
def follow (vehicle : Ipv4Address → Vehicle) (dest : Ipv4Address) (dstjid : ℤ) :
    ℕ → Ipv4Address → Except Fault (List Ipv4Address)
  | 0, a => pure [a]
  | hops + 1, a =>
    if a = dest then pure [a]
    else do
      let nextHop ← intraPathRouting (vehicle a) dest dstjid
      if nextHop = loopback then pure [a]
      else do
        let path ← follow vehicle dest dstjid hops nextHop
        pure (a :: path)

/-- A hop from a vehicle: to the destination within its range, or to its neighbour closest to the
target, which is nearer than the vehicle itself. -/
def Hop (S : Finset Ipv4Address) (vehicle : Ipv4Address → Vehicle) (dest : Ipv4Address)
    (target : Position) (a b : Ipv4Address) : Prop :=
  a ∈ S ∧ a ≠ dest ∧ (b = dest ∧ InRange (vehicle a) dest ∨
    b ∈ S ∧ distance (vehicle b).position target < distance (vehicle a).position target ∧
      ∃ entry, Closest (vehicle a) target b entry)

/-- The packet goes no further: the vehicle is the destination or has no next hop. -/
def Ends (vehicle : Ipv4Address → Vehicle) (dest : Ipv4Address) (dstjid : ℤ)
    (a : Ipv4Address) : Prop :=
  a = dest ∨ intraPathRouting (vehicle a) dest dstjid = .ok loopback

def Nearer (vehicle : Ipv4Address → Vehicle) (dest : Ipv4Address) (target : Position)
    (a b : Ipv4Address) : Prop :=
  a ≠ dest ∧ (b = dest ∨ distance (vehicle b).position target <
    distance (vehicle a).position target)

theorem Hop.nearer {target : Position} {a b : Ipv4Address} (h : Hop S vehicle dest target a b) :
    Nearer vehicle dest target a b :=
  ⟨h.2.1, h.2.2.imp And.left fun closest => closest.2.1⟩

instance {target : Position} : IsTrans Ipv4Address (Nearer vehicle dest target) where
  trans a b c hab hbc := by
    refine ⟨hab.1, hbc.2.imp_right fun nearer => ?_⟩
    exact nearer.trans (hab.2.resolve_left hbc.1)

theorem Nearer.ne {target : Position} {a b : Ipv4Address} (h : Nearer vehicle dest target a b) :
    a ≠ b := by
  intro same
  subst same
  rcases h.2 with hdest | nearer
  · exact h.1 hdest
  · exact lt_irrefl _ nearer

theorem follow_hops (standing : Standing S vehicle map) (dest : Ipv4Address)
    (target : dstjid < map.length) (hops : ℕ) {a : Ipv4Address} (ha : a ∈ S ∨ a = dest) :
    ∃ path last, follow vehicle dest dstjid hops a = .ok path ∧ path.head? = some a ∧
      path.getLast? = some last ∧ path.IsChain (Hop S vehicle dest map[dstjid].position) ∧
      (last ∈ S ∨ last = dest) ∧ (Ends vehicle dest dstjid last ∨ path.length = hops + 1) := by
  induction hops generalizing a with
  | zero => exact ⟨[a], a, rfl, rfl, rfl, isChain_singleton a, ha, .inr rfl⟩
  | succ hops ih =>
    rw [follow]
    by_cases arrived : a = dest
    · exact ⟨[a], a, if_pos arrived, rfl, rfl, isChain_singleton a, ha, .inl (.inl arrived)⟩
    · rw [if_neg arrived]
      have mem : a ∈ S := ha.resolve_right arrived
      have hmap := standing.map a mem
      have onMap : dstjid < (vehicle a).map.length := hmap ▸ target
      obtain ⟨hop, hrun, answer⟩ := intraPathRouting_closest (standing.onRoad a mem) dest onMap
      rw [hrun]
      by_cases stays : hop = loopback
      · refine ⟨[a], a, if_pos stays, rfl, rfl, isChain_singleton a, ha, .inl (.inr ?_)⟩
        rw [hrun, stays]
      · have step : Hop S vehicle dest map[dstjid].position a hop := by
          refine ⟨mem, arrived, (answer.resolve_left stays).imp_right fun found => ?_⟩
          obtain ⟨entry, closest⟩ := found
          obtain ⟨hhop, place⟩ := standing.known a mem hop entry closest.neighbor
          simp only [hmap] at closest
          exact ⟨hhop, place ▸ closest.nearer, entry, closest⟩
        obtain ⟨path, last, hpath, hhead, hlast, chain, place, ends⟩ :=
          ih (step.2.2.symm.imp And.left And.left)
        refine ⟨a :: path, last, ?_, rfl, ?_, ?_, place, ends.imp_right fun long => ?_⟩
        · change (if hop = loopback then pure [a] else do
            let path ← follow vehicle dest dstjid hops hop
            pure (a :: path)) = _
          rw [if_neg stays, hpath]
          rfl
        · rw [List.getLast?_cons, hlast]
          rfl
        · apply chain.cons
          intro b hb
          rw [hhead, Option.mem_some_iff] at hb
          exact hb ▸ step
        · rw [length_cons, long]

theorem mem_of_hops {target : Position} {path : List Ipv4Address}
    (chain : path.IsChain (Hop S vehicle dest target)) : ∀ b ∈ path.dropLast, b ∈ S := by
  induction path with
  | nil => exact fun b hb => absurd hb not_mem_nil
  | cons a path ih =>
    cases path with
    | nil => exact fun b hb => absurd hb not_mem_nil
    | cons c path =>
      intro b hb
      rw [dropLast_cons_cons] at hb
      rcases mem_cons.mp hb with rfl | hb
      · exact chain.rel.1
      · exact ih chain.tail b hb

/-- A packet never visits a vehicle twice, every hop to a neighbour goes to the one closest to the
target junction, and after at most as many hops as there are vehicles it is at the destination or at
a vehicle without a next hop. -/
theorem follow_loopFree (standing : Standing S vehicle map) (dest : Ipv4Address)
    (target : dstjid < map.length) {a : Ipv4Address} (ha : a ∈ S) (hops : ℕ) :
    ∃ path last, follow vehicle dest dstjid hops a = .ok path ∧ path.head? = some a ∧
      path.getLast? = some last ∧ path.Nodup ∧
        path.IsChain (Hop S vehicle dest map[dstjid].position) ∧
      path.length ≤ S.card + 1 ∧ (S.card ≤ hops → Ends vehicle dest dstjid last) := by
  obtain ⟨path, last, hpath, hhead, hlast, chain, place, ends⟩ :=
    follow_hops standing dest target hops (.inl ha)
  have nodup : path.Nodup := (chain.imp fun _ _ => Hop.nearer).pairwise.imp Nearer.ne
  have split : path.dropLast ++ [last] = path := dropLast_append_getLast? last hlast
  have passed : ∀ b ∈ path.dropLast, b ∈ S := mem_of_hops chain
  have few : path.dropLast.length ≤ S.card :=
    length_le_card (nodup.sublist path.dropLast_sublist) passed
  refine ⟨path, last, hpath, hhead, hlast, nodup, chain, ?_, fun enough => ?_⟩
  · rw [← split, length_append]
    exact Nat.add_le_add_right few 1
  · rcases place with member | arrived
    · apply ends.resolve_right
      intro long
      -- all vehicles visited are of the set, and they would be more than it has
      have every : ∀ b ∈ path, b ∈ S := by
        intro b hb
        rw [← split, mem_append, mem_singleton] at hb
        rcases hb with hb | rfl
        · exact passed b hb
        · exact member
      have := length_le_card nodup every
      omega
    · exact .inl arrived

end Following

def convoyPlace (a : Ipv4Address) : Position := ⟨44000 + 200 * (a - 0x0a010001).toNat, 0⟩

def convoy (a : Ipv4Address) : Vehicle := { approaching with
  mainAddress := a
  position := convoyPlace a
  junAreaTag := false
  neiTable := if a < 0x0a010003 then
      (∅ : NeighborTable).insert (a + 1) { emptyEntry with
        nLocation := convoyPlace (a + 1), nStatus := .sym }
    else ∅ }

def convoyAddresses : Finset Ipv4Address := {0x0a010001, 0x0a010002, 0x0a010003}

theorem convoy_standing : Standing convoyAddresses convoy roadAhead where
  map _ _ := rfl
  onRoad _ _ :=
    have current : approaching.currentJID < roadAhead.length := by decide
    have next : approaching.nextJID < roadAhead.length := by decide
    ⟨rfl, current, next⟩
  known := by
    have listed : ∀ a ∈ convoyAddresses, ∀ nei ∈ (convoy a).neiTable.toList,
        nei.1 ∈ convoyAddresses ∧ nei.2.nLocation = (convoy nei.1).position := by
      intro a ha
      simp only [convoyAddresses, Finset.mem_insert, Finset.mem_singleton] at ha
      rcases ha with rfl | rfl | rfl <;> decide +kernel
    intro a ha b entry hentry
    exact listed a ha (b, entry) (Std.TreeMap.mem_toList_iff_getElem?_eq_some.mpr hentry)

theorem follow_loopFree_convoy : Standing convoyAddresses convoy roadAhead ∧
    ∃ path last, @follow integralPlatform convoy 0x0a0100ff 45 3 0x0a010001 = .ok path ∧
      path.head? = some 0x0a010001 ∧ path.getLast? = some last ∧ path.Nodup ∧
      path.IsChain
      (@Hop integralPlatform convoyAddresses convoy 0x0a0100ff roadAhead[45].position) ∧
      path.length ≤ convoyAddresses.card + 1 ∧
      (convoyAddresses.card ≤ 3 → @Ends integralPlatform convoy 0x0a0100ff 45 last) :=
  ⟨convoy_standing, @follow_loopFree integralPlatform 45 _ _ _ convoy_standing 0x0a0100ff
    (by decide) _ (by decide) 3⟩

example : @follow integralPlatform convoy 0x0a0100ff 45 3 0x0a010001 =
    .ok [0x0a010001, 0x0a010002, 0x0a010003] := by
  decide +kernel

end Egsr.Grp.GreedyForwarding
