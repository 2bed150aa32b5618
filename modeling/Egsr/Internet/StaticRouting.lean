import Egsr.Network.Ipv4Mask

/-! Looking a destination up in a table of static routes. The longest mask and the
smallest metric are kept along the way; a host route ends the search at once,
although there may be another one with a smaller metric behind it. -/

namespace Egsr.Internet.StaticRouting

open Network.Ipv4Mask List

inductive Fault where
  /-- `NS_ASSERT_MSG` on the interface for a link-local multicast address. -/
  | assertion
deriving DecidableEq

def isLocalMulticast (m_address : UInt32) : Bool := (m_address &&& 0xffffff00) = 0xe0000000

/-! ## The table -/

structure Ipv4RoutingTableEntry where
  m_dest : UInt32
  m_destNetworkMask : UInt32
  m_gateway : UInt32
  m_interface : UInt32
deriving DecidableEq

abbrev NetworkRoute := Ipv4RoutingTableEntry × UInt32

section Table

variable (m_networkRoutes : List NetworkRoute)

def addNetworkRouteTo (network networkMask nextHop interface metric : UInt32) : List NetworkRoute :=
  m_networkRoutes ++ [(⟨network, networkMask, nextHop, interface⟩, metric)]

def addHostRouteTo (dest nextHop interface metric : UInt32) : List NetworkRoute :=
  addNetworkRouteTo m_networkRoutes dest 0xffffffff nextHop interface metric

def setDefaultRoute (nextHop interface metric : UInt32) : List NetworkRoute :=
  addNetworkRouteTo m_networkRoutes 0 0 nextHop interface metric

end Table

variable {Device : Type}

/-- What is asked of `m_ipv4`. -/
structure Ipv4 (Device : Type) where
  getNetDevice : UInt32 → Device
  getInterfaceForDevice : Device → UInt32
  /-- `GetAddress (interface, 0).GetLocal ()`. -/
  getLocal : UInt32 → UInt32
  sourceAddressSelection : (interfaceIdx dest : UInt32) → UInt32

structure Ipv4Route (Device : Type) where
  m_dest : UInt32
  m_source : UInt32
  m_gateway : UInt32
  m_outputDevice : Device
deriving DecidableEq

structure Search (Device : Type) where
  rtentry : Option (Ipv4Route Device)
  longest_mask : UInt16
  shortest_metric : UInt32

def Search.start : Search Device := ⟨none, 0, 0xffffffff⟩

section Lookup

variable [DecidableEq Device] (m_ipv4 : Ipv4 Device) (dest : UInt32) (oif : Option Device)

def routeOf (route : Ipv4RoutingTableEntry) : Ipv4Route Device :=
  ⟨route.m_dest, m_ipv4.sourceAddressSelection route.m_interface route.m_dest, route.m_gateway,
    m_ipv4.getNetDevice route.m_interface⟩

def lookupRound (s : Search Device) (i : NetworkRoute) : Search Device × Bool :=
  let j := i.1
  let metric := i.2
  let masklen := getPrefixLength j.m_destNetworkMask
  if isMatch j.m_destNetworkMask dest j.m_dest then
    if oif.isSome ∧ oif ≠ some (m_ipv4.getNetDevice j.m_interface) then (s, false)
    else if masklen < s.longest_mask then (s, false)
    else
      let shortest_metric := if masklen > s.longest_mask then 0xffffffff else s.shortest_metric
      if metric > shortest_metric then ({ s with longest_mask := masklen, shortest_metric }, false)
      else (⟨some (routeOf m_ipv4 j), masklen, metric⟩, masklen = 32)
  else (s, false)

def lookupLoop : Search Device → List NetworkRoute → Search Device
  | s, [] => s
  | s, i :: rest =>
    let r := lookupRound m_ipv4 dest oif s i
    if r.2 then r.1 else lookupLoop r.1 rest

def lookupStatic (m_networkRoutes : List NetworkRoute) : Except Fault (Option (Ipv4Route Device)) :=
  if isLocalMulticast dest then
    match oif with
    | none => .error .assertion
    | some device =>
      .ok (some ⟨dest, m_ipv4.getLocal (m_ipv4.getInterfaceForDevice device), 0, device⟩)
  else .ok (lookupLoop m_ipv4 dest oif .start m_networkRoutes).rtentry

end Lookup

/-! ## The best route -/

section Specification

variable [DecidableEq Device] (m_ipv4 : Ipv4 Device) (dest : UInt32) (oif : Option Device)

def Candidate (r : NetworkRoute) : Prop :=
  isMatch r.1.m_destNetworkMask dest r.1.m_dest ∧
    ∀ device ∈ oif, device = m_ipv4.getNetDevice r.1.m_interface

instance (r : NetworkRoute) : Decidable (Candidate m_ipv4 dest oif r) :=
  inferInstanceAs (Decidable (_ ∧ ∀ device ∈ oif, _))

def Preferred (r r' : NetworkRoute) : Prop :=
  maskLength r'.1.m_destNetworkMask ≤ maskLength r.1.m_destNetworkMask ∧
    (maskLength r'.1.m_destNetworkMask = maskLength r.1.m_destNetworkMask → r.2 ≤ r'.2)

variable (routes : List NetworkRoute)

structure Best (r : NetworkRoute) : Prop where
  mem : r ∈ routes
  candidate : Candidate m_ipv4 dest oif r
  preferred : ∀ r' ∈ routes, Candidate m_ipv4 dest oif r' → Preferred r r'

/-- A best route is returned, and none only if there is no candidate. -/
def LookupRight : Prop :=
  (∃ r, Best m_ipv4 dest oif routes r ∧ lookupStatic m_ipv4 dest oif routes =
    .ok (some (routeOf m_ipv4 r.1))) ∨
    (∀ r ∈ routes, ¬Candidate m_ipv4 dest oif r) ∧ lookupStatic m_ipv4 dest oif routes = .ok none

def Host (r : NetworkRoute) : Prop :=
  Candidate m_ipv4 dest oif r ∧ r.1.m_destNetworkMask = 0xffffffff

instance (r : NetworkRoute) : Decidable (Host m_ipv4 dest oif r) :=
  inferInstanceAs (Decidable (_ ∧ _))

def FirstHostLeast : Prop :=
  ∀ h ∈ routes.find? fun r => Host m_ipv4 dest oif r, ∃ r ∈ routes, Host m_ipv4 dest oif r ∧
    (∀ r' ∈ routes, Host m_ipv4 dest oif r' → r.2 ≤ r'.2) ∧ routeOf m_ipv4 r.1 = routeOf m_ipv4 h.1

end Specification

section Preferences

variable {m_ipv4 : Ipv4 Device} {dest : UInt32} {oif : Option Device} {seen : List NetworkRoute}
  {r r' r'' : NetworkRoute}

theorem Preferred.refl (r : NetworkRoute) : Preferred r r := ⟨le_rfl, fun _ => UInt32.le_refl _⟩

theorem Preferred.trans (h : Preferred r r') (h' : Preferred r' r'') : Preferred r r'' := by
  refine ⟨h'.1.trans h.1, fun same => ?_⟩
  have middle := h.1
  have last := h'.1
  exact UInt32.le_trans (h.2 (by omega)) (h'.2 (by omega))

theorem Best.concat {b : NetworkRoute} (h : Best m_ipv4 dest oif seen b)
    (hr : Candidate m_ipv4 dest oif r → Preferred b r) : Best m_ipv4 dest oif (seen ++ [r]) b := by
  refine ⟨mem_append_left _ h.mem, h.candidate, fun r' hr' candidate => ?_⟩
  rcases mem_append.mp hr' with hr' | hr'
  · exact h.preferred r' hr' candidate
  · cases mem_singleton.mp hr'
    exact hr candidate

theorem best_last (hr : Candidate m_ipv4 dest oif r)
    (h : ∀ r' ∈ seen, Candidate m_ipv4 dest oif r' → Preferred r r') :
    Best m_ipv4 dest oif (seen ++ [r]) r := by
  refine ⟨mem_append_right _ (mem_singleton_self r), hr, fun r' hr' candidate => ?_⟩
  rcases mem_append.mp hr' with hr' | hr'
  · exact h r' hr' candidate
  · cases mem_singleton.mp hr'
    exact .refl r

theorem Best.replace {b : NetworkRoute} (h : Best m_ipv4 dest oif seen b)
    (hr : Candidate m_ipv4 dest oif r)
    (preferred : Preferred r b) : Best m_ipv4 dest oif (seen ++ [r]) r :=
  best_last hr fun r' hr' candidate => preferred.trans (h.preferred r' hr' candidate)

end Preferences

section Loop

variable [DecidableEq Device] {m_ipv4 : Ipv4 Device} {dest : UInt32} {oif : Option Device}
    {seen routes : List NetworkRoute}
  {r : NetworkRoute} {s : Search Device}

theorem not_gt_largest (metric : UInt32) : ¬metric > 0xffffffff := by
  rw [gt_iff_lt, UInt32.not_lt]
  exact UInt32.le_iff_toNat_le.mpr (Nat.le_of_lt_succ metric.toNat_lt)

/-- What the variables say about the routes that have been looked at. -/
def Tracks (m_ipv4 : Ipv4 Device) (dest : UInt32) (oif : Option Device) (seen : List NetworkRoute)
    (s : Search Device) : Prop :=
  (∀ r ∈ seen, ¬Candidate m_ipv4 dest oif r) ∧ s = .start ∨
    ∃ r, Best m_ipv4 dest oif seen r ∧
      s = ⟨some (routeOf m_ipv4 r.1), getPrefixLength r.1.m_destNetworkMask, r.2⟩

theorem candidate_iff : (isMatch r.1.m_destNetworkMask dest r.1.m_dest = true ∧
    ¬(oif.isSome ∧ oif ≠ some (m_ipv4.getNetDevice r.1.m_interface))) ↔
      Candidate m_ipv4 dest oif r := by
  rw [Candidate]
  refine and_congr_right fun _ => ?_
  cases oif with
  | none => simp
  | some device => simp

theorem lookupRound_other (h : ¬Candidate m_ipv4 dest oif r) : lookupRound m_ipv4 dest oif s r =
    (s, false) := by
  rw [← candidate_iff, not_and, not_not] at h
  rw [lookupRound]
  dsimp only
  by_cases match_ : isMatch r.1.m_destNetworkMask dest r.1.m_dest = true
  · rw [if_pos match_, if_pos (h match_)]
  · rw [if_neg match_]

theorem lookupRound_candidate (h : Candidate m_ipv4 dest oif r) : lookupRound m_ipv4 dest oif s r =
    if getPrefixLength r.1.m_destNetworkMask < s.longest_mask then (s, false)
    else if r.2 > (if getPrefixLength r.1.m_destNetworkMask > s.longest_mask then 0xffffffff
      else s.shortest_metric) then
      ({ s with
        longest_mask := getPrefixLength r.1.m_destNetworkMask
        shortest_metric := if getPrefixLength r.1.m_destNetworkMask > s.longest_mask then 0xffffffff
          else s.shortest_metric }, false)
    else (⟨some (routeOf m_ipv4 r.1), getPrefixLength r.1.m_destNetworkMask, r.2⟩,
      getPrefixLength r.1.m_destNetworkMask = 32) := by
  obtain ⟨match_, device⟩ := candidate_iff.mpr h
  rw [lookupRound]
  dsimp only
  rw [if_pos match_, if_neg device]

theorem Tracks.round (h : Tracks m_ipv4 dest oif seen s)
    (contiguous : ∀ r' ∈ seen ++ [r], Contiguous r'.1.m_destNetworkMask) :
    Tracks m_ipv4 dest oif (seen ++ [r]) (lookupRound m_ipv4 dest oif s r).1 := by
  have length := getPrefixLength_eq (contiguous r (by simp))
  by_cases hr : Candidate m_ipv4 dest oif r
  · rw [lookupRound_candidate hr]
    rcases h with ⟨none, rfl⟩ | ⟨b, hb, rfl⟩
    · have first : ¬getPrefixLength r.1.m_destNetworkMask <
          (Search.start : Search Device).longest_mask := UInt16.not_lt.mpr
        (UInt16.le_iff_toNat_le.mpr (Nat.zero_le _))
      have metric :
        (if getPrefixLength r.1.m_destNetworkMask >
          (Search.start : Search Device).longest_mask then 0xffffffff
          else (Search.start : Search Device).shortest_metric) = 0xffffffff := ite_self _
      rw [if_neg first, metric, if_neg (not_gt_largest r.2)]
      exact .inr ⟨r, best_last hr fun r' hr' candidate => absurd candidate (none r' hr'), rfl⟩
    · have length' := getPrefixLength_eq (contiguous b (mem_append_left _ hb.mem))
      dsimp only
      by_cases shorter : getPrefixLength r.1.m_destNetworkMask <
        getPrefixLength b.1.m_destNetworkMask
      · rw [if_pos shorter]
        rw [UInt16.lt_iff_toNat_lt, length, length'] at shorter
        exact .inr ⟨b, hb.concat fun _ => ⟨shorter.le, fun same => absurd same (by omega)⟩, rfl⟩
      · rw [if_neg shorter]
        rw [UInt16.not_lt, UInt16.le_iff_toNat_le, length, length'] at shorter
        by_cases longer :
          getPrefixLength r.1.m_destNetworkMask > getPrefixLength b.1.m_destNetworkMask
        · rw [if_pos longer, if_neg (not_gt_largest r.2)]
          rw [gt_iff_lt, UInt16.lt_iff_toNat_lt, length, length'] at longer
          exact .inr ⟨r, hb.replace hr ⟨longer.le, fun same => absurd same (by omega)⟩, rfl⟩
        · rw [if_neg longer]
          rw [gt_iff_lt, UInt16.not_lt, UInt16.le_iff_toNat_le, length, length'] at longer
          have same : getPrefixLength r.1.m_destNetworkMask =
            getPrefixLength b.1.m_destNetworkMask :=
            UInt16.toNat_inj.mp (by omega)
          by_cases worse : r.2 > b.2
          · rw [if_pos worse, same]
            exact .inr ⟨b, hb.concat fun _ => ⟨longer, fun _ => UInt32.le_of_lt worse⟩, rfl⟩
          · rw [if_neg worse]
            exact .inr ⟨r, hb.replace hr ⟨shorter, fun _ => UInt32.not_lt.mp worse⟩, rfl⟩
  · rw [lookupRound_other hr]
    rcases h with ⟨none, hs⟩ | ⟨b, hb, hs⟩
    · refine .inl ⟨fun r' hr' => ?_, hs⟩
      rcases mem_append.mp hr' with hr' | hr'
      · exact none r' hr'
      · cases mem_singleton.mp hr'
        exact hr
    · exact .inr ⟨b, hb.concat fun candidate => absurd candidate hr, hs⟩

theorem lookupRound_goes_on (contiguous : Contiguous r.1.m_destNetworkMask)
    (h : ¬Host m_ipv4 dest oif r) (less : s.longest_mask.toNat < 32) :
    (lookupRound m_ipv4 dest oif s r).2 = false ∧
    (lookupRound m_ipv4 dest oif s r).1.longest_mask.toNat < 32 := by
  by_cases hr : Candidate m_ipv4 dest oif r
  · have ones : r.1.m_destNetworkMask ≠ 0xffffffff := fun ones => h ⟨hr, ones⟩
    have length := getPrefixLength_eq contiguous
    have short : maskLength r.1.m_destNetworkMask < 32 :=
      lt_of_le_of_ne (maskLength_le contiguous) (mt (maskLength_eq_iff contiguous).mp ones)
    have other : getPrefixLength r.1.m_destNetworkMask ≠ 32 := by
      intro same
      rw [same] at length
      exact short.ne length.symm
    rw [lookupRound_candidate hr]
    split_ifs
    · exact ⟨rfl, less⟩
    · exact ⟨rfl, length.trans_lt short⟩
    · exact ⟨decide_eq_false other, length.trans_lt short⟩
    · exact ⟨rfl, length.trans_lt short⟩
    · exact ⟨decide_eq_false other, length.trans_lt short⟩
  · rw [lookupRound_other hr]
    exact ⟨rfl, less⟩

theorem lookupLoop_tracks (h : Tracks m_ipv4 dest oif seen s)
    (contiguous : ∀ r ∈ seen ++ routes, Contiguous r.1.m_destNetworkMask)
    (none : ∀ r ∈ routes, ¬Host m_ipv4 dest oif r)
    (less : s.longest_mask.toNat < 32) : Tracks m_ipv4 dest oif (seen ++ routes)
    (lookupLoop m_ipv4 dest oif s routes) := by
  induction routes generalizing seen s with
  | nil => rwa [append_nil]
  | cons r rest ih =>
    obtain ⟨goes_on, less'⟩ := lookupRound_goes_on (contiguous r (by simp)) (none r (by simp)) less
    have split : seen ++ r :: rest = seen ++ [r] ++ rest := append_cons seen r rest
    rw [split] at contiguous ⊢
    rw [lookupLoop, goes_on, if_neg Bool.false_ne_true]
    exact ih (h.round fun r' hr' => contiguous r' (mem_append_left _ hr')) contiguous
      (fun r' hr' => none r' (mem_cons_of_mem _ hr')) less'

theorem lookupLoop_host {host : NetworkRoute}
    (contiguous : ∀ r ∈ routes, Contiguous r.1.m_destNetworkMask)
    (first : routes.find? (fun r => Host m_ipv4 dest oif r) = some host)
    (less : s.longest_mask.toNat < 32) :
    (lookupLoop m_ipv4 dest oif s routes).rtentry = some (routeOf m_ipv4 host.1) := by
  induction routes generalizing s with
  | nil => cases first
  | cons r rest ih =>
    rw [lookupLoop]
    by_cases hr : Host m_ipv4 dest oif r
    · rw [List.find?_cons_of_pos (p := fun r => decide (Host m_ipv4 dest oif r))
        (decide_eq_true hr)] at first
      obtain rfl : r = host := Option.some.inj first
      have length : getPrefixLength r.1.m_destNetworkMask = 32 := by
        rw [hr.2]
        decide
      have longest : ¬(32 : UInt16) < s.longest_mask := by
        rw [UInt16.lt_iff_toNat_lt]
        exact not_lt.mpr less.le
      have longer : (32 : UInt16) > s.longest_mask := UInt16.lt_iff_toNat_lt.mpr less
      rw [lookupRound_candidate hr.1, length, if_neg longest, if_pos longer,
        if_neg (not_gt_largest r.2)]
      rfl
    · obtain ⟨goes_on, less'⟩ := lookupRound_goes_on (contiguous r (by simp)) hr less
      rw [List.find?_cons_of_neg (p := fun r => decide (Host m_ipv4 dest oif r))
        (by simpa using hr)] at first
      rw [goes_on, if_neg Bool.false_ne_true]
      exact ih (fun r' hr' => contiguous r' (mem_cons_of_mem _ hr')) first less'

omit [DecidableEq Device] in
theorem best_iff_of_host {host : NetworkRoute}
    (contiguous : ∀ r ∈ routes, Contiguous r.1.m_destNetworkMask)
    (mem : host ∈ routes) (isHost : Host m_ipv4 dest oif host) : Best m_ipv4 dest oif routes r ↔
      r ∈ routes ∧ Host m_ipv4 dest oif r ∧ ∀ r' ∈ routes, Host m_ipv4 dest oif r' →
        r.2 ≤ r'.2 := by
  have full : ∀ r' ∈ routes, Host m_ipv4 dest oif r' → maskLength r'.1.m_destNetworkMask = 32 :=
    fun r' hr' h => (maskLength_eq_iff (contiguous r' hr')).mpr h.2
  constructor
  · intro best
    have longest := (best.preferred host mem isHost.1).1
    have bound := maskLength_le (contiguous r best.mem)
    rw [full host mem isHost] at longest
    have ones := (maskLength_eq_iff (contiguous r best.mem)).mp (le_antisymm bound longest)
    refine ⟨best.mem, ⟨best.candidate, ones⟩, fun r' hr' h => ?_⟩
    exact (best.preferred r' hr' h.1).2 ((full r' hr' h).trans (le_antisymm longest bound))
  · rintro ⟨hr, h, least⟩
    refine ⟨hr, h.1, fun r' hr' candidate => ⟨?_, fun same => ?_⟩⟩
    · rw [full r hr h]
      exact maskLength_le (contiguous r' hr')
    · rw [full r hr h] at same
      exact least r' hr' ⟨candidate, (maskLength_eq_iff (contiguous r' hr')).mp same⟩

end Loop

/-- The answer is right if and only if, where there are host routes, the first of them is the route
of one with the smallest metric. -/
theorem lookupStatic_iff [DecidableEq Device] {m_ipv4 : Ipv4 Device} {dest : UInt32}
    {oif : Option Device} {routes : List NetworkRoute} (unicast : isLocalMulticast dest = false)
    (contiguous : ∀ r ∈ routes, Contiguous r.1.m_destNetworkMask) :
    LookupRight m_ipv4 dest oif routes ↔ FirstHostLeast m_ipv4 dest oif routes := by
  have run : lookupStatic m_ipv4 dest oif routes =
    .ok (lookupLoop m_ipv4 dest oif .start routes).rtentry :=
    if_neg (Bool.eq_false_iff.mp unicast)
  have less : (Search.start : Search Device).longest_mask.toNat < 32 := Nat.succ_pos 31
  rw [LookupRight, run, FirstHostLeast]
  cases first : routes.find? fun r => Host m_ipv4 dest oif r with
  | none =>
    have none : ∀ r ∈ routes, ¬Host m_ipv4 dest oif r := by simpa using first
    have start : Tracks m_ipv4 dest oif [] .start := .inl ⟨fun r hr => absurd hr not_mem_nil, rfl⟩
    have tracks := lookupLoop_tracks start contiguous none less
    rw [nil_append] at tracks
    refine iff_of_true ?_ fun h hh => by cases hh
    rcases tracks with ⟨nothing, same⟩ | ⟨r, best, same⟩
    · exact .inr ⟨nothing, by rw [same]; rfl⟩
    · exact .inl ⟨r, best, by rw [same]⟩
  | some host =>
    have mem := mem_of_find?_eq_some first
    have isHost : Host m_ipv4 dest oif host := by simpa using List.find?_some first
    rw [lookupLoop_host contiguous first less]
    constructor
    · rintro (⟨r, best, same⟩ | ⟨nothing, -⟩)
      · rintro h ⟨⟩
        obtain ⟨hr, rHost, least⟩ := (best_iff_of_host contiguous mem isHost).mp best
        exact ⟨r, hr, rHost, least, (Option.some.inj (Except.ok.inj same)).symm⟩
      · exact absurd isHost.1 (nothing host mem)
    · intro h
      obtain ⟨r, hr, rHost, least, same⟩ := h host rfl
      exact .inl ⟨r, (best_iff_of_host contiguous mem isHost).mpr ⟨hr, rHost, least⟩, by rw [same]⟩

/-- Interface `i` is device `i`, and every interface has the address 10.1.1.1. -/
def numbered : Ipv4 ℕ := ⟨UInt32.toNat, UInt32.ofNat, fun _ => 0x0a010101, fun _ _ => 0x0a010101⟩

/-- Routes to 10.2.0.1: a default route, one to its network, and two to it alone, the first of which
has the metric `metric`. -/
def table (metric : UInt32) : List NetworkRoute :=
  addHostRouteTo (addHostRouteTo (addNetworkRouteTo (setDefaultRoute [] 0x0a010102 1 0)
    0x0a020000 0xffff0000 0x0a010103 1 1) 0x0a020001 0x0a010104 1 metric) 0x0a020001 0x0a010105 1 2

theorem table_contiguous (metric : UInt32) : ∀ r ∈ table metric,
    Contiguous r.1.m_destNetworkMask := by
  intro r hr
  simp only [table, addHostRouteTo, addNetworkRouteTo, setDefaultRoute, nil_append, cons_append,
    mem_cons, not_mem_nil, or_false] at hr
  rcases hr with rfl | rfl | rfl | rfl
  · exact ⟨0, by decide, by decide⟩
  · exact ⟨16, by decide, by decide⟩
  · exact ⟨32, le_rfl, (by decide : (0xffffffff : UInt32) = prefixMask 32)⟩
  · exact ⟨32, by decide, by decide⟩

theorem lookupStatic_iff_table : isLocalMulticast 0x0a020001 = false ∧
    (∀ r ∈ table 1, Contiguous r.1.m_destNetworkMask) ∧
    (LookupRight numbered 0x0a020001 (some 1) (table 1) ↔
      FirstHostLeast numbered 0x0a020001 (some 1) (table 1)) :=
  ⟨by decide, table_contiguous 1, lookupStatic_iff (by decide) (table_contiguous 1)⟩

/-- The route with the metric 3 is returned, and not the one with the metric 2 behind it. -/
theorem lookupStatic_first_host : isLocalMulticast 0x0a020001 = false ∧
    (∀ r ∈ table 3, Contiguous r.1.m_destNetworkMask) ∧
      ¬LookupRight numbered 0x0a020001 none (table 3) := by
  refine ⟨by decide, table_contiguous 3, ?_⟩
  have run : lookupStatic numbered 0x0a020001 none (table 3) =
      .ok (some ⟨0x0a020001, 0x0a010101, 0x0a010104, 1⟩) := by decide +kernel
  have candidates : ∀ r ∈ table 3, routeOf numbered r.1 = ⟨0x0a020001, 0x0a010101, 0x0a010104, 1⟩ →
      r.2 = 3 := by decide
  have last : (⟨0x0a020001, 0xffffffff, 0x0a010105, 1⟩, 2) ∈ table 3 := by decide
  rintro (⟨r, best, same⟩ | ⟨-, none⟩)
  · rw [run] at same
    have metric := candidates r best.mem (Option.some.inj (Except.ok.inj same)).symm
    have one : maskLength r.1.m_destNetworkMask ≤ 32 :=
      maskLength_le (table_contiguous 3 r best.mem)
    have preferred := best.preferred _ last ⟨by decide, by decide⟩
    have length : maskLength 0xffffffff = 32 := by decide
    have smaller := preferred.2 (le_antisymm preferred.1 (by rwa [length]))
    rw [metric] at smaller
    exact absurd smaller (by decide)
  · rw [run] at none
    cases none

end Egsr.Internet.StaticRouting
