import Mathlib.Data.List.Pairwise
import Egsr.Aodv.RequestQueue

/-! The routing table of AODV. It is a map from destinations to entries, kept as
a list in the order of destinations. Times are in nanoseconds. -/

namespace Egsr.Aodv

open List

structure Ipv4InterfaceAddress where
  m_local : Ipv4Address
  m_mask : UInt32
deriving DecidableEq

/-- `Ipv4InterfaceAddress ()`. -/
def Ipv4InterfaceAddress.unset : Ipv4InterfaceAddress := ⟨unsetAddress, 0x66666666⟩

def Ipv4InterfaceAddress.broadcast (a : Ipv4InterfaceAddress) : Ipv4Address :=
  a.m_local ||| ~~~a.m_mask

inductive RouteFlags where
  | valid
  | invalid
  | inSearch
deriving DecidableEq

structure RoutingTableEntry where
  m_validSeqNo : Bool
  m_seqNo : UInt32
  m_hops : UInt16
  m_lifeTime : ℤ
  m_ipv4Route : Ipv4Route
  m_iface : Ipv4InterfaceAddress
  m_flag : RouteFlags
  m_reqCount : UInt8
  m_precursorList : List Ipv4Address
  m_blackListState : Bool
deriving DecidableEq

namespace RoutingTableEntry

def create (now : ℤ) (dev : Option ℕ) (dst : Ipv4Address) (vSeqNo : Bool) (seqNo : UInt32)
    (iface : Ipv4InterfaceAddress) (hops : UInt16) (nextHop : Ipv4Address) (lifetime : ℤ) :
    RoutingTableEntry where
  m_validSeqNo := vSeqNo
  m_seqNo := seqNo
  m_hops := hops
  m_lifeTime := lifetime + now
  m_ipv4Route := ⟨dst, nextHop, iface.m_local, dev⟩
  m_iface := iface
  m_flag := .valid
  m_reqCount := 0
  m_precursorList := []
  m_blackListState := false

def unset (now : ℤ) : RoutingTableEntry :=
  create now none unsetAddress false 0 .unset 0 unsetAddress now

variable (rt : RoutingTableEntry)

def getDestination : Ipv4Address := rt.m_ipv4Route.destination

def getNextHop : Ipv4Address := rt.m_ipv4Route.gateway

def getLifeTime (now : ℤ) : ℤ := rt.m_lifeTime - now

def setLifeTime (now lt : ℤ) : RoutingTableEntry := { rt with m_lifeTime := lt + now }

def setNextHop (nextHop : Ipv4Address) (dev : Option ℕ) (iface : Ipv4InterfaceAddress) :
    RoutingTableEntry :=
  { rt with
    m_ipv4Route := { rt.m_ipv4Route with gateway := nextHop, outputDevice := dev }
    m_iface := iface }

def insertPrecursor (id : Ipv4Address) : RoutingTableEntry :=
  if id ∈ rt.m_precursorList then rt else { rt with m_precursorList := rt.m_precursorList ++ [id] }

def getPrecursors (prec : List Ipv4Address) : List Ipv4Address :=
  rt.m_precursorList.foldl (fun prec i => if i ∈ prec then prec else prec ++ [i]) prec

def invalidate (now badLinkLifetime : ℤ) : RoutingTableEntry :=
  if rt.m_flag = .invalid then rt
  else { rt with m_flag := .invalid, m_reqCount := 0, m_lifeTime := badLinkLifetime + now }

def settle : RoutingTableEntry := if rt.m_flag = .inSearch then rt else { rt with m_reqCount := 0 }

end RoutingTableEntry

namespace RoutingTable

variable (now badLinkLifetime : ℤ)

def purgeEntry (e : RoutingTableEntry) : Option RoutingTableEntry :=
  if e.getLifeTime now < 0 then
    match e.m_flag with
    | .invalid => none
    | .valid => some (e.invalidate now badLinkLifetime)
    | .inSearch => some e
  else some e

def purge (table : List RoutingTableEntry) : List RoutingTableEntry :=
  table.filterMap (purgeEntry now badLinkLifetime)

def find (id : Ipv4Address) (table : List RoutingTableEntry) : Option RoutingTableEntry :=
  table.find? fun e => e.getDestination = id

def insert (rt : RoutingTableEntry) : List RoutingTableEntry → List RoutingTableEntry
  | [] => [rt]
  | e :: table =>
    if e.getDestination = rt.getDestination then e :: table
    else if rt.getDestination < e.getDestination then rt :: e :: table
    else e :: insert rt table

def update (rt : RoutingTableEntry) (table : List RoutingTableEntry) : List RoutingTableEntry :=
  table.map fun e => if e.getDestination = rt.getDestination then rt.settle else e

def deleteRoute (dst : Ipv4Address) (table : List RoutingTableEntry) : List RoutingTableEntry :=
  table.filter fun e => e.getDestination ≠ dst

def getListOfDestinationWithNextHop (nextHop : Ipv4Address) (table : List RoutingTableEntry) :
    List (Ipv4Address × UInt32) :=
  (table.filter fun e => e.getNextHop = nextHop).map fun e => (e.getDestination, e.m_seqNo)

def invalidateRoutesWithDst (unreachable : List (Ipv4Address × UInt32))
    (table : List RoutingTableEntry) : List RoutingTableEntry :=
  table.map fun e =>
    if (unreachable.any fun un => un.1 = e.getDestination) && e.m_flag = .valid then
      e.invalidate now badLinkLifetime
    else e

/-! ## What the operations do -/

section Operations

variable {now badLinkLifetime : ℤ} {e e' rt : RoutingTableEntry} {table : List RoutingTableEntry}

def Sorted (table : List RoutingTableEntry) : Prop :=
  table.Pairwise fun a b => a.getDestination < b.getDestination

/-- Entries in search are kept; other ones lead to the same destination, and are not in search. -/
structure Aged (e e' : RoutingTableEntry) : Prop where
  destination : e'.getDestination = e.getDestination
  validSeqNo : e'.m_validSeqNo = e.m_validSeqNo
  seqNo : e'.m_seqNo = e.m_seqNo
  searching : e.m_flag = .inSearch → e' = e
  settled : e.m_flag ≠ .inSearch → e'.m_flag ≠ .inSearch ∧ (e.m_reqCount = 0 → e'.m_reqCount = 0)

theorem Aged.refl (e : RoutingTableEntry) : Aged e e :=
  ⟨rfl, rfl, rfl, fun _ => rfl, fun h => ⟨h, fun h => h⟩⟩

theorem aged_invalidate (valid : e.m_flag = .valid) :
    Aged e (e.invalidate now badLinkLifetime) := by
  have hne : e.m_flag ≠ .invalid := by simp [valid]
  rw [RoutingTableEntry.invalidate, if_neg hne]
  exact ⟨rfl, rfl, rfl, fun h => by simp [valid] at h, fun _ => ⟨by simp, fun _ => rfl⟩⟩

theorem purgeEntry_aged (kept : purgeEntry now badLinkLifetime e = some e') : Aged e e' := by
  unfold purgeEntry at kept
  split_ifs at kept
  · cases hflag : e.m_flag with
    | invalid => simp [hflag] at kept
    | valid =>
      simp only [hflag, Option.some.injEq] at kept
      exact kept ▸ aged_invalidate hflag
    | inSearch =>
      simp only [hflag, Option.some.injEq] at kept
      exact kept ▸ .refl e
  · exact Option.some.inj kept ▸ .refl e

theorem purgeEntry_inSearch (searching : e.m_flag = .inSearch) : purgeEntry now badLinkLifetime e =
    some e := by
  unfold purgeEntry
  split_ifs
  · simp [searching]
  · rfl

theorem exists_purgeEntry (now badLinkLifetime : ℤ) (live : e.m_flag ≠ .invalid) :
    ∃ e', purgeEntry now badLinkLifetime e = some e' := by
  unfold purgeEntry
  split_ifs
  · cases hflag : e.m_flag with
    | invalid => exact absurd hflag live
    | valid => exact ⟨_, rfl⟩
    | inSearch => exact ⟨_, rfl⟩
  · exact ⟨_, rfl⟩

theorem mem_purge : e' ∈ purge now badLinkLifetime table ↔
    ∃ e ∈ table, purgeEntry now badLinkLifetime e = some e' := mem_filterMap

theorem purge_eq_self (alive : ∀ e ∈ table, 0 ≤ e.getLifeTime now) :
    purge now badLinkLifetime table = table := by
  induction table with
  | nil => rfl
  | cons e rest ih =>
    have kept : purgeEntry now badLinkLifetime e = some e :=
      if_neg (not_lt.mpr (alive e mem_cons_self))
    rw [purge, filterMap_cons_some kept]
    exact congrArg (e :: ·) (ih fun e' he' => alive e' (mem_cons_of_mem _ he'))

theorem purge_purge (nonneg : 0 ≤ badLinkLifetime) :
    purge now badLinkLifetime (purge now badLinkLifetime table) =
      purge now badLinkLifetime table := by
  have twice : ∀ e, (purgeEntry now badLinkLifetime e).bind (purgeEntry now badLinkLifetime) =
      purgeEntry now badLinkLifetime e := by
    intro e
    by_cases old : e.getLifeTime now < 0
    · cases hflag : e.m_flag with
      | invalid => simp [purgeEntry, old, hflag]
      | inSearch =>
        rw [purgeEntry_inSearch hflag, Option.bind_some, purgeEntry_inSearch hflag]
      | valid =>
        have once : purgeEntry now badLinkLifetime e = some (e.invalidate now badLinkLifetime) := by
          simp [purgeEntry, old, hflag]
        have young : ¬(e.invalidate now badLinkLifetime).getLifeTime now < 0 := by
          rw [RoutingTableEntry.invalidate, if_neg (by simp [hflag]), RoutingTableEntry.getLifeTime]
          have left : badLinkLifetime + now - now = badLinkLifetime :=
            Int.add_sub_cancel badLinkLifetime now
          exact not_lt.mpr (nonneg.trans_eq left.symm)
        rw [once, Option.bind_some, purgeEntry, if_neg young]
    · have kept : purgeEntry now badLinkLifetime e = some e := if_neg old
      rw [kept, Option.bind_some, kept]
  rw [purge, purge, filterMap_filterMap]
  exact congrArg (List.filterMap · table) (funext twice)

theorem sorted_purge (sorted : Sorted table) : Sorted (purge now badLinkLifetime table) := by
  refine pairwise_filterMap.mpr (sorted.imp fun {a b} hlt a' ha' b' hb' => ?_)
  rw [(purgeEntry_aged ha').destination, (purgeEntry_aged hb').destination]
  exact hlt

theorem find_eq_some {id : Ipv4Address} (found : find id table = some rt) :
    rt ∈ table ∧ rt.getDestination = id :=
  ⟨mem_of_find?_eq_some found, by simpa using List.find?_some found⟩

theorem find_eq_none {id : Ipv4Address} : find id table = none ↔
    ∀ e ∈ table, e.getDestination ≠ id := by
  simp [find]

theorem Sorted.unique (sorted : Sorted table) (he : e ∈ table) (he' : e' ∈ table)
    (same : e.getDestination = e'.getDestination) : e = e' := by
  induction table with
  | nil => cases he
  | cons a rest ih =>
    obtain ⟨hfirst, hrest⟩ := pairwise_cons.mp sorted
    rcases mem_cons.mp he with rfl | hmem <;> rcases mem_cons.mp he' with rfl | hmem'
    · rfl
    · exact absurd same (UInt32.ne_of_lt (hfirst e' hmem'))
    · exact absurd same.symm (UInt32.ne_of_lt (hfirst e hmem))
    · exact ih hrest hmem hmem'

@[simp] theorem destination_settle : rt.settle.getDestination = rt.getDestination := by
  unfold RoutingTableEntry.settle
  split_ifs <;> rfl

@[simp] theorem flag_settle : rt.settle.m_flag = rt.m_flag := by
  unfold RoutingTableEntry.settle
  split_ifs <;> rfl

@[simp] theorem validSeqNo_settle : rt.settle.m_validSeqNo = rt.m_validSeqNo := by
  unfold RoutingTableEntry.settle
  split_ifs <;> rfl

@[simp] theorem seqNo_settle : rt.settle.m_seqNo = rt.m_seqNo := by
  unfold RoutingTableEntry.settle
  split_ifs <;> rfl

theorem mem_insert (mem : e ∈ insert rt table) : e = rt ∨ e ∈ table := by
  induction table with
  | nil => exact .inl (mem_singleton.mp mem)
  | cons a rest ih =>
    rw [insert] at mem
    split_ifs at mem
    · exact .inr mem
    · exact mem_cons.mp mem
    · rcases mem_cons.mp mem with rfl | mem
      · exact .inr mem_cons_self
      · exact (ih mem).imp_right fun h => mem_cons_of_mem _ h

theorem sorted_insert (sorted : Sorted table) : Sorted (insert rt table) := by
  induction table with
  | nil => exact pairwise_singleton _ _
  | cons a rest ih =>
    obtain ⟨hfirst, hrest⟩ := pairwise_cons.mp sorted
    rw [insert]
    split_ifs with hsame hlt
    · exact sorted
    · refine pairwise_cons.mpr ⟨fun b hb => ?_, sorted⟩
      rcases mem_cons.mp hb with rfl | hb
      · exact hlt
      · exact UInt32.lt_trans hlt (hfirst b hb)
    · refine pairwise_cons.mpr ⟨fun b hb => ?_, ih hrest⟩
      rcases mem_insert hb with rfl | hb
      · exact UInt32.lt_of_le_of_ne (UInt32.not_lt.mp hlt) hsame
      · exact hfirst b hb

theorem mem_update : e ∈ update rt table ↔ (e ∈ table ∧ e.getDestination ≠ rt.getDestination) ∨
      e = rt.settle ∧ ∃ old ∈ table, old.getDestination = rt.getDestination := by
  unfold update
  rw [mem_map]
  constructor
  · rintro ⟨old, hold, rfl⟩
    by_cases hsame : old.getDestination = rt.getDestination
    · rw [if_pos hsame]
      exact .inr ⟨rfl, old, hold, hsame⟩
    · rw [if_neg hsame]
      exact .inl ⟨hold, hsame⟩
  · rintro (⟨he, hne⟩ | ⟨rfl, old, hold, hsame⟩)
    · exact ⟨e, he, if_neg hne⟩
    · exact ⟨old, hold, if_pos hsame⟩

theorem sorted_update (sorted : Sorted table) : Sorted (update rt table) := by
  refine pairwise_map.mpr (sorted.imp fun {a b} hlt => ?_)
  have hkeep : ∀ e : RoutingTableEntry, (if e.getDestination = rt.getDestination then rt.settle
    else e).getDestination =
      e.getDestination := by
    intro e
    split_ifs with hsame
    · rw [destination_settle, hsame]
    · rfl
  rw [hkeep, hkeep]
  exact hlt

theorem mem_deleteRoute {dst : Ipv4Address} : e ∈ deleteRoute dst table ↔ e ∈ table ∧
    e.getDestination ≠ dst := by
  simp [deleteRoute]

theorem sorted_deleteRoute {dst : Ipv4Address} (sorted : Sorted table) :
    Sorted (deleteRoute dst table) :=
  sorted.sublist filter_sublist

theorem mem_invalidateRoutesWithDst {unreachable : List (Ipv4Address × UInt32)}
    (mem : e' ∈ invalidateRoutesWithDst now badLinkLifetime unreachable table) : ∃ e ∈ table,
      Aged e e' := by
  obtain ⟨e, he, rfl⟩ := mem_map.mp mem
  refine ⟨e, he, ?_⟩
  split_ifs with hcond
  · rw [Bool.and_eq_true, decide_eq_true_eq] at hcond
    exact aged_invalidate hcond.2
  · exact .refl e

theorem sorted_invalidateRoutesWithDst {unreachable : List (Ipv4Address × UInt32)}
    (sorted : Sorted table) :
    Sorted (invalidateRoutesWithDst now badLinkLifetime unreachable table) := by
  refine pairwise_map.mpr (sorted.imp fun {a b} hlt => ?_)
  have hkeep : ∀ e : RoutingTableEntry,
      (if (unreachable.any fun un => un.1 = e.getDestination) && e.m_flag = .valid then
        e.invalidate now badLinkLifetime else e).getDestination = e.getDestination := by
    intro e
    split_ifs with hcond
    · rw [Bool.and_eq_true, decide_eq_true_eq] at hcond
      exact (aged_invalidate hcond.2).destination
    · rfl
  rw [hkeep, hkeep]
  exact hlt

end Operations

end RoutingTable

end Egsr.Aodv
