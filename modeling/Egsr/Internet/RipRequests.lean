import Egsr.Internet.Rip
import Egsr.Network.Ipv4Mask

/-! The answers to requests. A request for the whole table is told from others after
it is found to have one entry only, and then the others with one entry get no answer.
The networks to be compared are meant to be masked, but the masked ones are dropped. -/

namespace Egsr.Internet.RipProtocol

open Network.Ipv4Mask List Rip

/-- `NS_ASSERT_MSG`: there is no socket to send the reply. -/
inductive RequestFault where
  | noSocket
deriving DecidableEq

structure Request where
  rtes : List RipRte
  senderAddress : UInt32
  senderPort : UInt16
  incomingInterface : ℕ

structure Sent where
  /-- The address and the interface of the sending socket; `m_recvSocket` has none. -/
  socket : Option (UInt32 × ℕ)
  ttl : UInt8
  rtes : List RipRte
  address : UInt32
  port : UInt16
deriving DecidableEq

namespace Rip

variable (c : Config) (s : Rip)

/-- The TTL for `RIP_ALL_NODE`, and for others. -/
def ttlFor (senderAddress : UInt32) : UInt8 := if senderAddress = 0xe0000009 then 1 else 255

def ripPort : UInt16 := 520

/-- `rtDestAddr`; the constructor makes the scope global. -/
def destAddr (e : RipRoutingTableEntry) : Ipv4InterfaceAddress :=
  ⟨e.m_destNetwork, e.m_destNetworkMask, .global⟩

def wholeTable : List RipRte → Bool
  | [rte] => rte.m_prefix = 0 && getPrefixLength rte.m_subnetMask = 0 && rte.m_metric = c.m_linkDown
  | _ => false

def wholeRte (incomingInterface : ℕ) (e : RipRoutingTableEntry) : Option RipRte :=
  let splitHorizoning := decide (e.m_interface = incomingInterface)
  let isGlobal := decide ((destAddr e).m_scope = .global)
  let isDefaultRoute :=
    decide (e.m_destNetwork = 0 ∧ e.m_destNetworkMask = 0 ∧ e.m_interface ≠ incomingInterface)
  if (isGlobal ∨ isDefaultRoute) ∧ e.m_status = .valid then
    let rte : RipRte :=
      { m_prefix := e.m_destNetwork
        m_subnetMask := e.m_destNetworkMask
        m_tag := e.m_tag
        m_metric :=
          if c.m_splitHorizonStrategy = .poisonReverse ∧ splitHorizoning then c.m_linkDown
          else e.m_metric.toUInt32 }
    if c.m_splitHorizonStrategy ≠ .splitHorizon ∨ c.m_splitHorizonStrategy = .splitHorizon ∧
      !splitHorizoning then some rte
    else none
  else none

def wholePackets (incomingInterface : ℕ) : (hdr : List RipRte) → List Route → List (List RipRte)
  | hdr, [] => if hdr.length > 0 then [hdr] else []
  | hdr, rtIter :: rest =>
    let hdr := hdr ++ (wholeRte c incomingInterface rtIter.entry).toList
    if UInt16.ofNat hdr.length = maxRte c incomingInterface then hdr ::
      wholePackets incomingInterface [] rest
    else wholePackets incomingInterface hdr rest

def answerRte (rte : RipRte) : RipRte :=
  -- the networks that `CombineMask` returns are not used
  match s.m_routes.find? fun rtIter => (destAddr rtIter.entry).m_scope = .global ∧
    rtIter.entry.m_status = .valid ∧
      rte.m_prefix = rtIter.entry.m_destNetwork with
  | some rtIter =>
    { rte with m_metric := rtIter.entry.m_metric.toUInt32, m_tag := rtIter.entry.m_tag }
  | none => { rte with m_metric := c.m_linkDown, m_tag := 0 }

def handleRequests (r : Request) : Except RequestFault (List Sent) :=
  if r.rtes.isEmpty then .ok []
  else if r.rtes.length = 1 then
    if wholeTable c r.rtes ∧ r.incomingInterface ∉ c.m_interfaceExclusions then
      match (s.m_sendSocketList.filter fun iter => iter.2 = r.incomingInterface).getLast? with
      | none => .error .noSocket
      | some sendingSocket =>
        .ok ((wholePackets c r.incomingInterface [] s.m_routes).map fun hdr =>
          ⟨some sendingSocket, ttlFor r.senderAddress, hdr, r.senderAddress, ripPort⟩)
    else .ok []
  else .ok [⟨none, ttlFor r.senderAddress, r.rtes.map (answerRte c s), r.senderAddress,
    r.senderPort⟩]

end Rip

/-! ## What is asked for -/

def Usable (it : Route) : Prop := it.entry.m_status = .valid ∧ (destAddr it.entry).m_scope = .global
deriving Decidable

def RipRoutingTableEntry.network (e : RipRoutingTableEntry) : UInt32 × UInt32 :=
  (e.m_destNetwork &&& e.m_destNetworkMask, e.m_destNetworkMask)

def Asked (rte : RipRte) (it : Route) : Prop := Usable it ∧ it.entry.network = rte.key
deriving Decidable

def RipRoutingTableEntry.report (e : RipRoutingTableEntry) : UInt32 × UInt16 :=
  (e.m_metric.toUInt32, e.m_tag)

section Specification

variable (c : Config) (s : Rip)

/-- Metric and tag are those of a route that is asked for; without one the network cannot be
reached. -/
def Reports (rte : RipRte) (report : UInt32 × UInt16) : Prop :=
  (∃ it ∈ s.m_routes, Asked rte it ∧ report = it.entry.report) ∨
    (∀ it ∈ s.m_routes, ¬Asked rte it) ∧ report = (c.m_linkDown, 0)

structure Answers (rte answer : RipRte) : Prop where
  network : answer.m_prefix = rte.m_prefix ∧ answer.m_subnetMask = rte.m_subnetMask
  report : Reports c s rte (answer.m_metric, answer.m_tag)

/-- There is one response, which answers the entries in their order. -/
def RequestRight (r : Request) : Prop :=
  ∃ sent, handleRequests c s r = .ok [sent] ∧ List.Forall₂ (Answers c s) r.rtes sent.rtes

def firstToPrefix (rte : RipRte) : Option Route :=
  s.m_routes.find? fun it => Usable it ∧ it.entry.m_destNetwork = rte.m_prefix

/-- The prefix as it stands leads to a route that says the same as one that is asked for, or to none
where none is asked for. (A route that says what is said of none counts as none.) -/
def PrefixTells (rte : RipRte) : Prop :=
  match firstToPrefix s rte with
  | some it => (∃ it' ∈ s.m_routes, Asked rte it' ∧ it.entry.report = it'.entry.report) ∨
      (∀ it' ∈ s.m_routes, ¬Asked rte it') ∧ it.entry.report = (c.m_linkDown, 0)
  | none => (∀ it' ∈ s.m_routes, ¬Asked rte it') ∨
      ∃ it' ∈ s.m_routes, Asked rte it' ∧ it'.entry.report = (c.m_linkDown, 0)

end Specification

section Answering

variable {c : Config} {s : Rip} {rte : RipRte} {r : Request}

theorem answerRte_eq (c : Config) (s : Rip) (rte : RipRte) : answerRte c s rte =
    match firstToPrefix s rte with
    | some it => { rte with m_metric := it.entry.m_metric.toUInt32, m_tag := it.entry.m_tag }
    | none => { rte with m_metric := c.m_linkDown, m_tag := 0 } := by
  have same : (fun rtIter : Route => decide ((destAddr rtIter.entry).m_scope = .global ∧
      rtIter.entry.m_status = .valid ∧ rte.m_prefix = rtIter.entry.m_destNetwork)) =
      fun it : Route => decide (Usable it ∧ it.entry.m_destNetwork = rte.m_prefix) := by
    funext it
    rw [decide_eq_decide, Usable, and_left_comm, and_assoc, eq_comm (a := rte.m_prefix)]
  rw [answerRte, firstToPrefix, same]

theorem answers_iff : Answers c s rte (answerRte c s rte) ↔ PrefixTells c s rte := by
  rw [answerRte_eq, PrefixTells]
  cases firstToPrefix s rte with
  | some it => exact ⟨Answers.report, fun tells => ⟨⟨rfl, rfl⟩, tells⟩⟩
  | none =>
    constructor
    · rintro ⟨-, ⟨it, mem, asked, same⟩ | ⟨unasked, -⟩⟩
      · exact .inr ⟨it, mem, asked, same.symm⟩
      · exact .inl unasked
    · rintro (unasked | ⟨it, mem, asked, same⟩)
      · exact ⟨⟨rfl, rfl⟩, .inr ⟨unasked, rfl⟩⟩
      · exact ⟨⟨rfl, rfl⟩, .inl ⟨it, mem, asked, same.symm⟩⟩

theorem handleRequests_one (notWhole : wholeTable c r.rtes = false) (one : r.rtes.length = 1) :
    handleRequests c s r = .ok [] := by
  have some : ¬r.rtes.isEmpty := by
    rw [isEmpty_iff_length_eq_zero, one]
    exact Nat.one_ne_zero
  rw [handleRequests, if_neg some, if_pos one, if_neg (by simp [notWhole])]

theorem handleRequests_several (several : 2 ≤ r.rtes.length) : handleRequests c s r =
    .ok [⟨none, ttlFor r.senderAddress, r.rtes.map (answerRte c s), r.senderAddress,
      r.senderPort⟩] := by
  have some : ¬r.rtes.isEmpty := by
    rw [isEmpty_iff_length_eq_zero]
    omega
  rw [handleRequests, if_neg some, if_neg (Nat.ne_of_gt several)]

end Answering

/-- A request is answered rightly if and only if it has several entries, of each of which the prefix
as it stands leads to a route that says what is asked for. -/
theorem handleRequests_iff {c : Config} {s : Rip} {r : Request} (some : r.rtes ≠ [])
    (notWhole : wholeTable c r.rtes = false) :
    RequestRight c s r ↔ 2 ≤ r.rtes.length ∧ ∀ rte ∈ r.rtes, PrefixTells c s rte := by
  rw [RequestRight]
  by_cases several : 2 ≤ r.rtes.length
  · have answers : List.Forall₂ (Answers c s) r.rtes (r.rtes.map (answerRte c s)) ↔
        ∀ rte ∈ r.rtes, PrefixTells c s rte := by
      rw [forall₂_map_right_iff, forall₂_same]
      exact forall₂_congr fun rte _ => answers_iff
    rw [handleRequests_several several, ← answers]
    constructor
    · rintro ⟨sent, ⟨⟩, right⟩
      exact ⟨several, right⟩
    · rintro ⟨-, right⟩
      exact ⟨_, rfl, right⟩
  · have one : r.rtes.length = 1 := by
      have := length_pos_iff.mpr some
      omega
    refine iff_of_false ?_ fun h => several h.1
    rintro ⟨sent, run, -⟩
    rw [handleRequests_one notWhole one] at run
    cases run

def attributes : Config :=
  ⟨1, 16, 180, 120, .poisonReverse, [], fun _ => none, fun _ => [], fun _ => false, fun _ => 1500⟩

/-- A route to 10.1.0.0/16, with the metric 2 and the tag 7, and one to 10.2.0.0/16, which is not
valid. -/
def twoRoutes : Rip :=
  { initial with
    m_routes :=
      [⟨0, ⟨0x0a010000, 0xffff0000, 0x0a000002, 0, 7, 2, .valid, false⟩, none, true, 0⟩,
        ⟨1, ⟨0x0a020000, 0xffff0000, 0x0a000002, 0, 7, 16, .invalid, false⟩, none, true, 0⟩] }

def requestFor (networks : List (UInt32 × UInt32)) : Request :=
  ⟨networks.map fun n => ⟨n.1, n.2, 0, 16⟩, 0x0a000002, 520, 0⟩

theorem handleRequests_iff_two :
    (requestFor [(0x0a010000, 0xffff0000), (0x0a020000, 0xffff0000)]).rtes ≠ [] ∧
    (RequestRight attributes twoRoutes
      (requestFor [(0x0a010000, 0xffff0000), (0x0a020000, 0xffff0000)]) ↔
      2 ≤ (requestFor [(0x0a010000, 0xffff0000), (0x0a020000, 0xffff0000)]).rtes.length ∧
        ∀ rte ∈ (requestFor [(0x0a010000, 0xffff0000), (0x0a020000, 0xffff0000)]).rtes,
          PrefixTells attributes twoRoutes rte) :=
  ⟨by decide, handleRequests_iff (by decide) rfl⟩

/-- A request for 10.1.0.0/16 alone is not answered. One for 10.1.0.0/24 and 10.1.3.0/16 is told of
the route for the first, and of none for the second, where it is the other way round. -/
theorem handleRequests_one_entry : wholeTable attributes
    (requestFor [(0x0a010000, 0xffff0000)]).rtes = false ∧
    ¬RequestRight attributes twoRoutes (requestFor [(0x0a010000, 0xffff0000)]) ∧
    ¬RequestRight attributes twoRoutes
    (requestFor [(0x0a010000, 0xffffff00), (0x0a010300, 0xffff0000)]) := by
  refine ⟨by decide, ?_, ?_⟩
  · rintro ⟨sent, run, -⟩
    have none : handleRequests attributes twoRoutes (requestFor [(0x0a010000, 0xffff0000)]) =
        .ok [] := by decide
    rw [none] at run
    cases run
  · rintro ⟨sent, run, right⟩
    have answers : handleRequests attributes twoRoutes
        (requestFor [(0x0a010000, 0xffffff00), (0x0a010300, 0xffff0000)]) =
      .ok [⟨none, 255, [⟨0x0a010000, 0xffffff00, 7, 2⟩, ⟨0x0a010300, 0xffff0000, 0, 16⟩],
        0x0a000002, 520⟩] := by
      decide
    rw [answers] at run
    obtain rfl := singleton_inj.mp (Except.ok.inj run)
    obtain ⟨⟨-, first⟩, -⟩ := forall₂_cons.mp right
    have unasked : ∀ it ∈ twoRoutes.m_routes, ¬Asked ⟨0x0a010000, 0xffffff00, 0, 16⟩ it := by decide
    rcases first with ⟨it, mem, asked, -⟩ | ⟨-, same⟩
    · exact unasked it mem asked
    · exact absurd same (by decide)

end Egsr.Internet.RipProtocol
