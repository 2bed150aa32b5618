import Egsr.Aodv.RerrHeader
import Mathlib.Data.Finset.Card

/-! The messages about broken links, and those that pass such messages on. The loops that
make them are written for a header that refuses more destinations than a message can
hold; the header does not refuse, but asserts that there is room. -/

namespace Egsr.Aodv.ErrorReport

open Lib Network.ByteIterator List RoutingTable

structure Report where
  rerrHeader : RerrHeader
  precursors : List Ipv4Address

structure Building where
  table : List RoutingTableEntry
  rerrHeader : RerrHeader
  precursors : List Ipv4Address
  sent : List Report

def Building.finish (b : Building) : List Report :=
  if b.rerrHeader.getDestCount ≠ 0 then b.sent ++ [⟨b.rerrHeader, b.precursors⟩] else b.sent

section Protocol

variable (now badLinkLifetime : ℤ)

def lookupRoute (id : Ipv4Address) (table : List RoutingTableEntry) :
    List RoutingTableEntry × Option RoutingTableEntry :=
  let table := purge now badLinkLifetime table
  (table, find id table)

def buildLoop : (fuel : ℕ) → List (Ipv4Address × UInt32) → Building → Except Fault Building
  | _, [], b => .ok b
  | 0, _ :: _, _ => .error .unfinished
  | fuel + 1, i :: rest, b =>
    match b.rerrHeader.addUnDestination i.1 i.2 with
    | .error fault => .error fault
    | .ok (false, _) =>
      -- what sending does to the table, the next lookup does as well
      buildLoop fuel (i :: rest)
        { b with rerrHeader := .cleared, sent := b.sent ++ [⟨b.rerrHeader, b.precursors⟩] }
    | .ok (true, rerrHeader) =>
      let (table, toDst) := lookupRoute now badLinkLifetime i.1 b.table
      buildLoop fuel rest
        { b with
          table := table
          rerrHeader := rerrHeader
          precursors := (toDst.getD (.unset now)).getPrecursors b.precursors }

def sendRerrWhenBreaksLinkToNextHop (fuel : ℕ) (nextHop : Ipv4Address)
    (table : List RoutingTableEntry) : Except Fault (List Report) :=
  match lookupRoute now badLinkLifetime nextHop table with
  | (_, none) => .ok []
  | (table, some toNextHop) =>
    match RerrHeader.cleared.addUnDestination nextHop toNextHop.m_seqNo with
    | .error fault => .error fault
    | .ok (_, rerrHeader) =>
      let table := purge now badLinkLifetime table
      let unreachable := getListOfDestinationWithNextHop nextHop table
      (buildLoop now badLinkLifetime fuel unreachable
        ⟨table, rerrHeader, toNextHop.getPrecursors [], []⟩).map Building.finish

/-- The destinations of a header, taken out of it one by one, that have the next hop. -/
def unreachableOf (dstWithNextHopSrc : List (Ipv4Address × UInt32)) (rerrHeader : RerrHeader) :
    OrderedMap Ipv4Address UInt32 :=
  rerrHeader.m_unreachableDstSeqNo.entries.foldl (fun unreachable un =>
    dstWithNextHopSrc.foldl (fun unreachable i => if i.1 = un.1 then unreachable.add un.1 un.2
      else unreachable) unreachable) .empty

def recvError (fuel : ℕ) (p : List UInt8) (src : Ipv4Address) (table : List RoutingTableEntry) :
    Except Fault (List Report) :=
  match removeHeader RerrHeader.cleared p with
  | none => .error .header
  | some (rerrHeader, _) =>
    let table := purge now badLinkLifetime table
    let dstWithNextHopSrc := getListOfDestinationWithNextHop src table
    let unreachable := unreachableOf dstWithNextHopSrc rerrHeader
    (buildLoop now badLinkLifetime fuel unreachable.entries
      ⟨table, { rerrHeader with m_unreachableDstSeqNo := .empty }, [], []⟩).map Building.finish

end Protocol

def Through (nextHop : Ipv4Address) (table : List RoutingTableEntry) (dst : Ipv4Address) : Prop :=
  ∃ e ∈ table, e.getDestination = dst ∧ e.getNextHop = nextHop

def destinations (reports : List Report) : List Ipv4Address :=
  reports.flatMap fun r => r.rerrHeader.m_unreachableDstSeqNo.keys

structure Listed (dests : Ipv4Address → Prop) (reports : List Report) : Prop where
  once : (destinations reports).Nodup
  all : ∀ dst, dst ∈ destinations reports ↔ dests dst
  few : ∀ r ∈ reports, r.rerrHeader.m_unreachableDstSeqNo.entries.length ≤ 255
  roundTrip : ∀ r ∈ reports, RoundTrip r.rerrHeader

def Ends (run : ℕ → Except Fault (List Report)) (reports : List Report) : Prop :=
  ∃ enough, ∀ fuel ≥ enough, run fuel = .ok reports

section Specification

variable (now badLinkLifetime : ℤ)

/-- The messages list the next hop and the destinations over it. `LookupRoute` and
`GetListOfDestinationWithNextHop` purge the table before these are looked for. -/
def BrokenLinkRight (nextHop : Ipv4Address) (table : List RoutingTableEntry) : Prop :=
  ∃ reports, Ends
    (fun fuel => sendRerrWhenBreaksLinkToNextHop now badLinkLifetime fuel nextHop table) reports ∧
    Listed (fun dst => dst = nextHop ∨ Through nextHop
      (purge now badLinkLifetime (purge now badLinkLifetime table)) dst) reports

def RelayRight (rerrHeader : RerrHeader) (p : List UInt8) (src : Ipv4Address)
    (table : List RoutingTableEntry) : Prop :=
  ∃ reports, Ends (fun fuel => recvError now badLinkLifetime fuel p src table) reports ∧
    Listed (fun dst => dst ∈ rerrHeader.m_unreachableDstSeqNo.keys ∧
      Through src (purge now badLinkLifetime table) dst) reports

def broken (nextHop : Ipv4Address) (table : List RoutingTableEntry) : Finset Ipv4Address :=
  insert nextHop ((getListOfDestinationWithNextHop nextHop
    (purge now badLinkLifetime (purge now badLinkLifetime table))).map Prod.fst).toFinset

end Specification

/-! ## What the loop collects -/

section Collecting

variable {now badLinkLifetime : ℤ} {h : RerrHeader} {dst nextHop src : Ipv4Address}
    {table : List RoutingTableEntry}

theorem addUnDestination_eq (few : h.m_unreachableDstSeqNo.entries.length ≤ 255) (dst : Ipv4Address)
    (seqNo : UInt32) : h.addUnDestination dst seqNo =
      if (h.m_unreachableDstSeqNo.add dst seqNo).entries.length ≤ 255 then
        .ok (true, { h with m_unreachableDstSeqNo := h.m_unreachableDstSeqNo.add dst seqNo })
      else .error .destCount := by
  rw [RerrHeader.addUnDestination]
  cases found : h.m_unreachableDstSeqNo.find? dst with
  | some old =>
    rw [OrderedMap.add_eq_self (found ▸ rfl), if_pos few]
    rfl
  | none =>
    have room : h.getDestCount < 255 ↔ (h.m_unreachableDstSeqNo.add dst seqNo).entries.length ≤
        255 := by
      rw [OrderedMap.length_entries_add found, UInt8.lt_iff_toNat_lt, toNat_getDestCount few]
      exact Iff.rfl
    rw [if_neg (by simp), if_congr room rfl rfl]

def Building.note (now badLinkLifetime : ℤ) (b : Building) (i : Ipv4Address × UInt32) : Building :=
  { b with
    table := (lookupRoute now badLinkLifetime i.1 b.table).1
    rerrHeader :=
      { b.rerrHeader with m_unreachableDstSeqNo := b.rerrHeader.m_unreachableDstSeqNo.add i.1 i.2 }
    precursors :=
      ((lookupRoute now badLinkLifetime i.1 b.table).2.getD (.unset now)).getPrecursors
        b.precursors }

def Building.noteAll (now badLinkLifetime : ℤ) (b : Building) (es : List (Ipv4Address × UInt32)) :
    Building :=
  es.foldl (Building.note now badLinkLifetime) b

theorem noteAll_rerrHeader (now badLinkLifetime : ℤ) (b : Building)
    (es : List (Ipv4Address × UInt32)) : (b.noteAll now badLinkLifetime es).rerrHeader =
      { b.rerrHeader with
        m_unreachableDstSeqNo := b.rerrHeader.m_unreachableDstSeqNo.addAll es } := by
  induction es generalizing b with
  | nil => rfl
  | cons e es ih => exact ih _

theorem noteAll_sent (now badLinkLifetime : ℤ) (b : Building) (es : List (Ipv4Address × UInt32)) :
    (b.noteAll now badLinkLifetime es).sent = b.sent := by
  induction es generalizing b with
  | nil => rfl
  | cons e es ih => exact ih _

theorem buildLoop_eq {fuel : ℕ} {es : List (Ipv4Address × UInt32)} {b : Building}
    (few : b.rerrHeader.m_unreachableDstSeqNo.entries.length ≤ 255) (enough : es.length ≤ fuel) :
    buildLoop now badLinkLifetime fuel es b =
      if (b.rerrHeader.m_unreachableDstSeqNo.addAll es).entries.length ≤ 255 then
        .ok (b.noteAll now badLinkLifetime es)
      else .error .destCount := by
  induction es generalizing fuel b with
  | nil =>
    rw [OrderedMap.addAll_nil, if_pos few, buildLoop]
    rfl
  | cons e es ih =>
    obtain ⟨fuel, rfl⟩ :=
      Nat.exists_eq_succ_of_ne_zero (Nat.ne_of_gt ((Nat.succ_pos es.length).trans_le enough))
    rw [buildLoop, addUnDestination_eq few, OrderedMap.addAll_cons]
    by_cases room : (b.rerrHeader.m_unreachableDstSeqNo.add e.1 e.2).entries.length ≤ 255
    · rw [if_pos room]
      exact ih (b := b.note now badLinkLifetime e) room (Nat.le_of_succ_le_succ enough)
    · have full : ¬((b.rerrHeader.m_unreachableDstSeqNo.add e.1 e.2).addAll es).entries.length ≤
          255 := fun le =>
        room ((OrderedMap.length_le_addAll es _).trans le)
      rw [if_neg room, if_neg full]

theorem listed_finish {b : Building} (nothing : b.sent = [])
    (few : b.rerrHeader.m_unreachableDstSeqNo.entries.length ≤ 255) :
    Listed (fun dst => dst ∈ b.rerrHeader.m_unreachableDstSeqNo.keys) b.finish := by
  have none_left : b.rerrHeader.getDestCount = 0 ↔ b.rerrHeader.m_unreachableDstSeqNo.entries =
      [] := by
    rw [← UInt8.toNat_inj, toNat_getDestCount few]
    exact length_eq_zero_iff
  rw [Building.finish, nothing, nil_append]
  by_cases left : b.rerrHeader.getDestCount = 0
  · have keys : b.rerrHeader.m_unreachableDstSeqNo.keys = [] :=
      map_eq_nil_iff.mpr (none_left.mp left)
    rw [if_neg (not_not.mpr left), keys]
    exact ⟨.nil, fun dst => Iff.rfl, fun r hr => absurd hr not_mem_nil, fun r hr =>
      absurd hr not_mem_nil⟩
  · rw [if_pos left]
    refine ⟨?_, fun dst => ?_, fun r hr => ?_, fun r hr => ?_⟩
    · rw [destinations, flatMap_singleton]
      exact OrderedMap.nodup_keys
    · rw [destinations, flatMap_singleton]
    · rw [mem_singleton.mp hr]
      exact few
    · rw [mem_singleton.mp hr]
      exact ErrorReport.roundTrip few

theorem Listed.congr {dests dests' : Ipv4Address → Prop} {reports : List Report}
    (h : Listed dests reports) (same : ∀ dst, dests dst ↔ dests' dst) : Listed dests' reports :=
  ⟨h.once, fun dst => (h.all dst).trans (same dst), h.few, h.roundTrip⟩

theorem mem_getListOfDestinationWithNextHop : dst ∈
    (getListOfDestinationWithNextHop nextHop table).map Prod.fst ↔ Through nextHop table dst := by
  rw [getListOfDestinationWithNextHop, map_map, mem_map]
  constructor
  · rintro ⟨e, he, rfl⟩
    obtain ⟨mem, reached⟩ := mem_filter.mp he
    exact ⟨e, mem, rfl, of_decide_eq_true reached⟩
  · rintro ⟨e, mem, rfl, reached⟩
    exact ⟨e, mem_filter.mpr ⟨mem, decide_eq_true reached⟩, rfl⟩

end Collecting

/-! ## Broken links -/

section BrokenLink

variable {now badLinkLifetime : ℤ} {nextHop : Ipv4Address} {table : List RoutingTableEntry}
    {toNextHop : RoutingTableEntry}

def unreachable (now badLinkLifetime : ℤ) (nextHop : Ipv4Address) (table : List RoutingTableEntry) :
    List (Ipv4Address × UInt32) :=
  getListOfDestinationWithNextHop nextHop
    (purge now badLinkLifetime (purge now badLinkLifetime table))

def beforeLoop (now badLinkLifetime : ℤ) (nextHop : Ipv4Address) (toNextHop : RoutingTableEntry)
    (table : List RoutingTableEntry) : Building :=
  ⟨purge now badLinkLifetime (purge now badLinkLifetime table),
    ⟨0, 0, OrderedMap.empty.add nextHop toNextHop.m_seqNo⟩, toNextHop.getPrecursors [], []⟩

theorem mem_keys_beforeLoop {dst : Ipv4Address} :
    dst ∈ ((beforeLoop now badLinkLifetime nextHop toNextHop
      table).rerrHeader.m_unreachableDstSeqNo.addAll
      (unreachable now badLinkLifetime nextHop table)).keys ↔
    dst ∈ broken now badLinkLifetime nextHop table := by
  have first : dst ∈ (OrderedMap.empty.add nextHop toNextHop.m_seqNo).keys ↔ dst = nextHop := by
    rw [OrderedMap.mem_keys, OrderedMap.isSome_find?_add, OrderedMap.find?_empty,
      Option.isSome_none, Bool.or_false, decide_eq_true_iff]
  rw [OrderedMap.mem_keys_addAll, broken, Finset.mem_insert, mem_toFinset]
  exact or_congr_left first

theorem mem_broken {dst : Ipv4Address} : dst ∈ broken now badLinkLifetime nextHop table ↔
    dst = nextHop ∨
    Through nextHop (purge now badLinkLifetime (purge now badLinkLifetime table)) dst := by
  rw [broken, Finset.mem_insert, mem_toFinset, mem_getListOfDestinationWithNextHop]

theorem length_beforeLoop :
    ((beforeLoop now badLinkLifetime nextHop toNextHop
      table).rerrHeader.m_unreachableDstSeqNo.addAll
      (unreachable now badLinkLifetime nextHop table)).entries.length =
    (broken now badLinkLifetime nextHop table).card := by
  have same : ((beforeLoop now badLinkLifetime nextHop toNextHop
    table).rerrHeader.m_unreachableDstSeqNo.addAll
      (unreachable now badLinkLifetime nextHop table)).keys.toFinset =
        broken now badLinkLifetime nextHop table :=
    Finset.ext fun dst => mem_toFinset.trans mem_keys_beforeLoop
  rw [← same, toFinset_card_of_nodup OrderedMap.nodup_keys, OrderedMap.keys, length_map]

theorem sendRerrWhenBreaksLinkToNextHop_eq {fuel : ℕ}
    (found : (lookupRoute now badLinkLifetime nextHop table).2 = some toNextHop)
    (enough : (unreachable now badLinkLifetime nextHop table).length ≤ fuel) :
    sendRerrWhenBreaksLinkToNextHop now badLinkLifetime fuel nextHop table =
      if (broken now badLinkLifetime nextHop table).card ≤ 255 then
        .ok ((beforeLoop now badLinkLifetime nextHop toNextHop table).noteAll now badLinkLifetime
          (unreachable now badLinkLifetime nextHop table)).finish
      else .error .destCount := by
  have one : (OrderedMap.empty.add nextHop toNextHop.m_seqNo).entries.length ≤ 255 :=
    (OrderedMap.length_addAll_le [(nextHop, toNextHop.m_seqNo)] .empty).trans
      (Nat.le_add_left 1 254)
  have lookup : lookupRoute now badLinkLifetime nextHop table =
      (purge now badLinkLifetime table, some toNextHop) := Prod.ext rfl found
  have first : RerrHeader.cleared.addUnDestination nextHop toNextHop.m_seqNo =
      .ok (true, ⟨0, 0, OrderedMap.empty.add nextHop toNextHop.m_seqNo⟩) := by
    rw [addUnDestination_eq (Nat.zero_le _)]
    exact if_pos one
  have loop : buildLoop now badLinkLifetime fuel (unreachable now badLinkLifetime nextHop table)
      (beforeLoop now badLinkLifetime nextHop toNextHop table) =
        if (broken now badLinkLifetime nextHop table).card ≤ 255 then
          .ok ((beforeLoop now badLinkLifetime nextHop toNextHop table).noteAll now badLinkLifetime
            (unreachable now badLinkLifetime nextHop table))
        else .error .destCount := by
    rw [buildLoop_eq one enough, length_beforeLoop]
  rw [sendRerrWhenBreaksLinkToNextHop, lookup]
  dsimp only
  rw [first]
  change (buildLoop now badLinkLifetime fuel (unreachable now badLinkLifetime nextHop table)
    (beforeLoop now badLinkLifetime nextHop toNextHop table)).map Building.finish = _
  rw [loop]
  split_ifs <;> rfl

theorem brokenLink_right
    (found : (lookupRoute now badLinkLifetime nextHop table).2 = some toNextHop)
    (few : (broken now badLinkLifetime nextHop table).card ≤ 255) :
    BrokenLinkRight now badLinkLifetime nextHop table := by
  refine ⟨_, ⟨(unreachable now badLinkLifetime nextHop table).length, fun fuel enough =>
    (sendRerrWhenBreaksLinkToNextHop_eq found enough).trans (if_pos few)⟩, ?_⟩
  have collected :=
    noteAll_rerrHeader now badLinkLifetime (beforeLoop now badLinkLifetime nextHop toNextHop table)
    (unreachable now badLinkLifetime nextHop table)
  have nothing :=
    noteAll_sent now badLinkLifetime (beforeLoop now badLinkLifetime nextHop toNextHop table)
    (unreachable now badLinkLifetime nextHop table)
  have listed := listed_finish nothing (by rw [collected]; exact length_beforeLoop.trans_le few)
  refine listed.congr fun dst => ?_
  rw [collected]
  exact mem_keys_beforeLoop.trans mem_broken

theorem brokenLink_wrong (toomany : (lookupRoute now badLinkLifetime nextHop table).2 = none ∨
    255 < (broken now badLinkLifetime nextHop table).card) :
      ¬BrokenLinkRight now badLinkLifetime nextHop table := by
  rintro ⟨reports, ⟨enough, ends⟩, listed⟩
  have run := ends (max enough (unreachable now badLinkLifetime nextHop table).length)
    (le_max_left _ _)
  cases found : (lookupRoute now badLinkLifetime nextHop table).2 with
  | none =>
    have nothing : sendRerrWhenBreaksLinkToNextHop now badLinkLifetime
        (max enough (unreachable now badLinkLifetime nextHop table).length) nextHop table =
          .ok [] := by
      rw [sendRerrWhenBreaksLinkToNextHop,
        (Prod.ext rfl found : lookupRoute now badLinkLifetime nextHop table = (_, none))]
    obtain rfl := Except.ok.inj (nothing.symm.trans run)
    exact not_mem_nil ((listed.all nextHop).mpr (.inl rfl))
  | some toNextHop =>
    have many := toomany.resolve_left (by rw [found]; exact Option.some_ne_none _)
    have fails :=
      (sendRerrWhenBreaksLinkToNextHop_eq found (le_max_right enough _)).trans
        (if_neg (not_le.mpr many))
    cases fails.symm.trans run

/-! The protocol of a node takes the header to have room. Where it has, the one message that is made
is what the node sends. -/

theorem addUnDestination_sorted (dst : Ipv4Address) (seqNo : UInt32)
    {es : List (Ipv4Address × UInt32)}
    (sorted : es.Pairwise fun a b => a.1 < b.1) : addUnDestination dst seqNo es =
      if (es.find? fun e => e.1 = dst).isSome then es else OrderedMap.setEntry dst seqNo es := by
  induction es with
  | nil => rfl
  | cons e es ih =>
    obtain ⟨first, sorted⟩ := pairwise_cons.mp sorted
    rw [addUnDestination, OrderedMap.setEntry]
    by_cases same : e.1 = dst
    · rw [if_pos same, List.find?_cons_of_pos (by simpa using same)]
      rfl
    rw [if_neg same, List.find?_cons_of_neg (by simpa using same)]
    by_cases before : dst < e.1
    · have absent : (es.find? fun e => e.1 = dst) = none :=
        List.find?_eq_none.mpr fun e' he' same' =>
        UInt32.lt_asymm before (of_decide_eq_true same' ▸ first e' he')
      rw [if_pos before, absent, if_pos before]
      rfl
    · have after : e.1 < dst := UInt32.lt_of_le_of_ne (UInt32.not_lt.mp before) same
      rw [if_neg before, if_neg before, if_pos after, ih sorted]
      split_ifs <;> rfl

theorem entries_add {m : OrderedMap Ipv4Address UInt32} (dst : Ipv4Address) (seqNo : UInt32) :
    (m.add dst seqNo).entries = addUnDestination dst seqNo m.entries := by
  rw [addUnDestination_sorted dst seqNo m.sorted, OrderedMap.add, OrderedMap.find?,
    Option.isSome_map]
  split_ifs <;> rfl

theorem entries_addAll {m : OrderedMap Ipv4Address UInt32} (es : List (Ipv4Address × UInt32)) :
    (m.addAll es).entries =
      es.foldl (fun header un => addUnDestination un.1 un.2 header) m.entries := by
  induction es generalizing m with
  | nil => rfl
  | cons e es ih => rw [OrderedMap.addAll_cons, ih, entries_add, foldl_cons]

theorem noteAll_precursors {b : Building} (purged : purge now badLinkLifetime b.table = b.table)
    (es : List (Ipv4Address × UInt32)) : (b.noteAll now badLinkLifetime es).precursors =
      es.foldl (fun prec un => ((find un.1 b.table).getD (.unset now)).getPrecursors prec)
        b.precursors := by
  induction es generalizing b with
  | nil => rfl
  | cons e es ih =>
    have same : (b.note now badLinkLifetime e).table = b.table := purged
    have rest := ih (b := b.note now badLinkLifetime e) (by rw [same, purged])
    rw [same] at rest
    refine rest.trans ?_
    rw [foldl_cons, Building.note, lookupRoute, purged]

theorem node_sends_report {c : Config} {s : RoutingProtocol} {reports : List Report}
    (nonneg : 0 ≤ c.m_badLinkLifetime) (found : (s.purge c).find nextHop = some toNextHop)
    (ends : Ends (fun fuel =>
      sendRerrWhenBreaksLinkToNextHop s.now c.m_badLinkLifetime fuel nextHop s.m_routingTable)
      reports) :
    ∃ report, reports = [report] ∧ (∀ dst, dst ∈ report.rerrHeader.m_unreachableDstSeqNo.keys ↔
        dst = nextHop ∨ Through nextHop (s.purge c).m_routingTable dst) ∧
      s.sendRerrWhenBreaksLinkToNextHop c nextHop =
      ((s.purge c).sendRerrMessage c report.rerrHeader.m_unreachableDstSeqNo.entries
        report.precursors >>= fun t =>
        .ok (t.invalidateRoutesWithDst c (addUnDestination nextHop toNextHop.m_seqNo
          (unreachable s.now c.m_badLinkLifetime nextHop s.m_routingTable)))) := by
  let before := beforeLoop s.now c.m_badLinkLifetime nextHop toNextHop s.m_routingTable
  let listed := unreachable s.now c.m_badLinkLifetime nextHop s.m_routingTable
  let after := before.noteAll s.now c.m_badLinkLifetime listed
  have purged : before.table = (s.purge c).m_routingTable := purge_purge nonneg
  have collected : after.rerrHeader = { before.rerrHeader with
      m_unreachableDstSeqNo := before.rerrHeader.m_unreachableDstSeqNo.addAll listed } :=
        noteAll_rerrHeader _ _ before listed
  have size : after.rerrHeader.m_unreachableDstSeqNo.entries.length =
      (broken s.now c.m_badLinkLifetime nextHop s.m_routingTable).card := by
    rw [collected]
    exact length_beforeLoop
  obtain ⟨enough, ends⟩ := ends
  have run := ends (max enough listed.length) (le_max_left _ _)
  dsimp only at run
  rw [sendRerrWhenBreaksLinkToNextHop_eq found (le_max_right enough _)] at run
  split_ifs at run with few
  have nonzero : after.rerrHeader.getDestCount ≠ 0 := by
    have pos : 0 < (broken s.now c.m_badLinkLifetime nextHop s.m_routingTable).card :=
      Finset.card_pos.mpr ⟨nextHop, Finset.mem_insert_self _ _⟩
    intro zero
    have count := toNat_getDestCount (size.trans_le few)
    rw [zero, size] at count
    exact Nat.ne_of_lt pos count
  have sent : after.sent = [] := noteAll_sent _ _ before listed
  have finish : after.finish = [⟨after.rerrHeader, after.precursors⟩] := by
    rw [Building.finish, if_pos nonzero, sent, nil_append]
  have lists : ∀ dst, dst ∈ after.rerrHeader.m_unreachableDstSeqNo.keys ↔
      dst = nextHop ∨ Through nextHop (s.purge c).m_routingTable dst := by
    intro dst
    rw [collected, ← purged]
    exact mem_keys_beforeLoop.trans mem_broken
  refine ⟨⟨after.rerrHeader, after.precursors⟩, (Except.ok.inj run).symm.trans finish, lists, ?_⟩
  have header : after.rerrHeader.m_unreachableDstSeqNo.entries =
      listed.foldl (fun header un => addUnDestination un.1 un.2 header)
        [(nextHop, toNextHop.m_seqNo)] := by
    rw [collected, entries_addAll]
    rfl
  have precursors : after.precursors =
      (s.purge c).precursorsOf listed (toNextHop.getPrecursors []) := by
    refine (noteAll_precursors (purge_purge nonneg) listed).trans ?_
    rw [purged]
    rfl
  have list : listed = getListOfDestinationWithNextHop nextHop (s.purge c).m_routingTable :=
    congrArg (getListOfDestinationWithNextHop nextHop) purged
  rw [RoutingProtocol.sendRerrWhenBreaksLinkToNextHop]
  dsimp only
  rw [found, header, precursors, ← list]

end BrokenLink

/-! ## Relayed errors -/

section Relay

variable {now badLinkLifetime : ℤ} {src : Ipv4Address} {table : List RoutingTableEntry}
    {rerrHeader : RerrHeader}
  {dstWithNextHopSrc : List (Ipv4Address × UInt32)}

theorem unreachableOf_eq : unreachableOf dstWithNextHopSrc rerrHeader = OrderedMap.empty.addAll
    (rerrHeader.m_unreachableDstSeqNo.entries.filter fun un =>
      un.1 ∈ dstWithNextHopSrc.map Prod.fst) := by
  have inner : ∀ (un : Ipv4Address × UInt32) (m : OrderedMap Ipv4Address UInt32),
      dstWithNextHopSrc.foldl (fun m i => if i.1 = un.1 then m.add un.1 un.2 else m) m =
        if un.1 ∈ dstWithNextHopSrc.map Prod.fst then m.add un.1 un.2 else m := by
    intro un
    induction dstWithNextHopSrc with
    | nil => exact fun m => (if_neg not_mem_nil).symm
    | cons i rest ih =>
      intro m
      rw [foldl_cons, ih, map_cons]
      by_cases same : i.1 = un.1
      · have again : (m.add un.1 un.2).add un.1 un.2 = m.add un.1 un.2 :=
          OrderedMap.add_eq_self
            (by rw [OrderedMap.isSome_find?_add, decide_eq_true rfl, Bool.true_or])
        have mem : un.1 ∈ i.1 :: rest.map Prod.fst := by
          rw [same]
          exact mem_cons_self
        rw [if_pos same, if_pos mem, again, ite_self]
      · rw [if_neg same]
        exact if_congr (by rw [mem_cons, or_iff_right (Ne.symm same)]) rfl rfl
  rw [unreachableOf, OrderedMap.addAll, foldl_filter]
  simp only [inner, decide_eq_true_eq]

theorem mem_keys_unreachableOf {dst : Ipv4Address} : dst ∈
    (unreachableOf dstWithNextHopSrc rerrHeader).keys ↔
    dst ∈ rerrHeader.m_unreachableDstSeqNo.keys ∧ dst ∈ dstWithNextHopSrc.map Prod.fst := by
  have none : dst ∉ (OrderedMap.empty : OrderedMap Ipv4Address UInt32).keys := not_mem_nil
  rw [unreachableOf_eq, OrderedMap.mem_keys_addAll, or_iff_right none, mem_map]
  constructor
  · rintro ⟨un, hun, rfl⟩
    obtain ⟨mem, reached⟩ := mem_filter.mp hun
    exact ⟨mem_map_of_mem mem, of_decide_eq_true reached⟩
  · rintro ⟨mem, reached⟩
    obtain ⟨un, hun, rfl⟩ := mem_map.mp mem
    exact ⟨un, mem_filter.mpr ⟨hun, decide_eq_true reached⟩, rfl⟩

theorem length_unreachableOf : (unreachableOf dstWithNextHopSrc rerrHeader).entries.length ≤
    rerrHeader.m_unreachableDstSeqNo.entries.length := by
  rw [unreachableOf_eq]
  exact (OrderedMap.length_addAll_le _ _).trans ((Nat.zero_add _).trans_le (length_filter_le _ _))

/-- The messages of `RecvError` always have room for what they pass on. -/
theorem relay_right {p rest : List UInt8}
    (read : removeHeader RerrHeader.cleared p = some (rerrHeader, rest)) :
    RelayRight now badLinkLifetime rerrHeader p src table := by
  let purged := purge now badLinkLifetime table
  let relayed := unreachableOf (getListOfDestinationWithNextHop src purged) rerrHeader
  let b : Building := ⟨purged, { rerrHeader with m_unreachableDstSeqNo := .empty }, [], []⟩
  have few : relayed.entries.length ≤ 255 := length_unreachableOf.trans (removeHeader_few read)
  have all : b.rerrHeader.m_unreachableDstSeqNo.addAll relayed.entries = relayed :=
    OrderedMap.addAll_entries relayed
  have loop : ∀ fuel ≥ relayed.entries.length,
    buildLoop now badLinkLifetime fuel relayed.entries b =
      .ok (b.noteAll now badLinkLifetime relayed.entries) := by
    intro fuel enough
    rw [buildLoop_eq (Nat.zero_le _) enough, all, if_pos few]
  have collected := noteAll_rerrHeader now badLinkLifetime b relayed.entries
  rw [all] at collected
  refine ⟨(b.noteAll now badLinkLifetime relayed.entries).finish,
    ⟨relayed.entries.length, fun fuel enough => ?_⟩, ?_⟩
  · change recvError now badLinkLifetime fuel p src table = _
    rw [recvError, read]
    change (buildLoop now badLinkLifetime fuel relayed.entries b).map Building.finish = _
    rw [loop fuel enough]
    rfl
  · have listed :=
      listed_finish (noteAll_sent now badLinkLifetime b relayed.entries)
        (by rw [collected]; exact few)
    refine listed.congr fun dst => ?_
    rw [collected]
    exact mem_keys_unreachableOf.trans (and_congr_right' mem_getListOfDestinationWithNextHop)

end Relay

/-- The messages about a broken link are right if and only if there is an entry for the next hop and
no more than 255 destinations are to be listed. Those that pass errors on are always right. -/
theorem rerr_iff (now badLinkLifetime : ℤ) (nextHop : Ipv4Address)
    (table : List RoutingTableEntry) : (BrokenLinkRight now badLinkLifetime nextHop table ↔
      (lookupRoute now badLinkLifetime nextHop table).2.isSome ∧
      (broken now badLinkLifetime nextHop table).card ≤ 255) ∧
    ∀ p rerrHeader rest src, removeHeader RerrHeader.cleared p = some (rerrHeader, rest) →
      RelayRight now badLinkLifetime rerrHeader p src table := by
  refine ⟨⟨fun right => ?_, fun ⟨found, few⟩ => ?_⟩, fun p rerrHeader rest src read =>
    relay_right read⟩
  · by_contra bad
    refine brokenLink_wrong ?_ right
    rw [← Option.isNone_iff_eq_none, ← Option.not_isSome, Bool.not_eq_true', ← Bool.not_eq_true,
      ← not_le]
    exact not_and_or.mp bad
  · obtain ⟨toNextHop, found⟩ := Option.isSome_iff_exists.mp found
    exact brokenLink_right found few

def routeTo (dst : Ipv4Address) : RoutingTableEntry :=
  .create 0 (some 1) dst true 7 ⟨0x0a000001, 0xff000000⟩ 2 0x0a000002 1000

/-- The route to 10.0.0.2, and the routes over it to `n` addresses from 10.1.0.0 on. -/
def routes (n : ℕ) : List RoutingTableEntry :=
  routeTo 0x0a000002 :: (range n).map fun k => routeTo (.ofNat (0x0a010000 + k))

/-- A node with a route to 10.0.0.2 and one over it, each with a precursor. -/
def between : RoutingProtocol :=
  { RoutingProtocol.initial (.standard [⟨1, ⟨0x0a000001, 0xff000000⟩⟩]) 64 30000000000 with
    m_routingTable := [{ routeTo 0x0a000002 with m_precursorList := [0x0a000008] },
      { routeTo 0x0a010000 with m_precursorList := [0x0a000009] }] }

theorem node_sends_report_between : let c := Config.standard [⟨1, ⟨0x0a000001, 0xff000000⟩⟩]
    ∃ report : Report, report.precursors = [0x0a000008, 0x0a000009] ∧
      (∀ dst, dst ∈ report.rerrHeader.m_unreachableDstSeqNo.keys ↔
        dst = 0x0a000002 ∨ Through 0x0a000002 (between.purge c).m_routingTable dst) ∧
      between.sendRerrWhenBreaksLinkToNextHop c 0x0a000002 =
      ((between.purge c).sendRerrMessage c report.rerrHeader.m_unreachableDstSeqNo.entries
        report.precursors >>=
        fun t => .ok (t.invalidateRoutesWithDst c (addUnDestination 0x0a000002 7
          (unreachable between.now c.m_badLinkLifetime 0x0a000002 between.m_routingTable)))) := by
  intro c
  have few : (broken between.now c.m_badLinkLifetime 0x0a000002 between.m_routingTable).card ≤
      255 := by
    decide +kernel
  obtain ⟨report, same, lists, sends⟩ := node_sends_report (c := c) (s := between) (by decide) rfl
    ⟨_, fun fuel enough => (sendRerrWhenBreaksLinkToNextHop_eq rfl enough).trans (if_pos few)⟩
  have precursors := congrArg (List.map Report.precursors) same
  refine ⟨report, ?_, lists, sends⟩
  exact (List.cons.inj precursors.symm).1.trans (by decide +kernel)

theorem purge_routes (n : ℕ) : purge 0 15000 (routes n) = routes n := by
  refine purge_eq_self fun e he => ?_
  rcases mem_cons.mp he with rfl | he
  · decide
  · obtain ⟨k, -, rfl⟩ := mem_map.mp he
    exact (by decide : (0 : ℤ) ≤ 1000 + 0 - 0)

theorem lookupRoute_routes (n : ℕ) :
    (lookupRoute 0 15000 0x0a000002 (routes n)).2 = some (routeTo 0x0a000002) := by
  rw [lookupRoute, purge_routes]
  rfl

theorem card_broken_routes {n : ℕ} (hn : n ≤ 65536) :
    (broken 0 15000 0x0a000002 (routes n)).card = n + 1 := by
  have inRange : ∀ {k : ℕ}, k ∈ range n → (UInt32.ofNat (0x0a010000 + k)).toNat = 0x0a010000 + k :=
    fun hk =>
    UInt32.toNat_ofNat_of_lt' (by have := mem_range.mp hk; simp only [UInt32.size]; omega)
  have all_over : (getListOfDestinationWithNextHop 0x0a000002 (routes n)).map Prod.fst =
      0x0a000002 :: (range n).map fun k => .ofNat (0x0a010000 + k) := by
    have all : (routes n).filter (fun e => e.getNextHop = 0x0a000002) = routes n := by
      refine filter_eq_self.mpr fun e he => ?_
      rcases mem_cons.mp he with rfl | he
      · rfl
      · obtain ⟨k, -, rfl⟩ := mem_map.mp he
        rfl
    rw [getListOfDestinationWithNextHop, all, map_map, routes, map_cons, map_map]
    rfl
  have distinct : (0x0a000002 :: (range n).map fun k => UInt32.ofNat (0x0a010000 + k)).Nodup := by
    refine nodup_cons.mpr ⟨fun h => ?_, nodup_range.map_on fun a ha b hb same => ?_⟩
    · obtain ⟨k, hk, same⟩ := mem_map.mp h
      have := inRange hk
      rw [same] at this
      simp at this
      omega
    · have := congrArg UInt32.toNat same
      rw [inRange ha, inRange hb] at this
      omega
  rw [broken, purge_routes, purge_routes, all_over, Finset.insert_eq_of_mem (by simp),
    toFinset_card_of_nodup distinct, length_cons, length_map, length_range]

def listsOne : List UInt8 := [0, 0, 1, 10, 1, 0, 5, 0, 0, 0, 7]

theorem rerr_iff_one : BrokenLinkRight 0 15000 0x0a000002 (routes 1) ∧
    ∃ rerrHeader, removeHeader RerrHeader.cleared listsOne = some (rerrHeader, []) ∧
      RelayRight 0 15000 rerrHeader listsOne 0x0a000002 (routes 1) := by
  have holds := rerr_iff 0 15000 0x0a000002 (routes 1)
  refine ⟨holds.1.mpr ⟨?_, ?_⟩, ⟨0, 0, .add .empty 0x0a010005 7⟩, rfl, holds.2 listsOne _ [] _ rfl⟩
  · rw [lookupRoute_routes]
    rfl
  · rw [card_broken_routes (by decide)]
    decide

/-- 256 destinations, and the last of them fails the assertion instead of starting another
message. -/
theorem sendRerr_full : ¬BrokenLinkRight 0 15000 0x0a000002 (routes 255) :=
  brokenLink_wrong (.inr (by rw [card_broken_routes (by decide)]; decide))

end Egsr.Aodv.ErrorReport
