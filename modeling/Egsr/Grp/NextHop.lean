import Egsr.Grp.DataPlane

/-! Looking up the next hop in the neighbour table. `RouteOutput` leaves a packet for the
destination itself to `RouteInput` and looks up neighbours only; `RouteInput` looks up the next hop
before it asks whether that is the destination, which is next where its position says so and need
not be a neighbour. -/

namespace Egsr.Grp.NextHop

open Grp.Road Grp.Dijkstra Grp.Header Grp.State Grp.Forwarding
open Grp.SourceRoute Grp.DataPlane Lib.Outcome Lib.Run Network.ByteIterator

/-- The computation does not read past the end of the neighbour table. -/
abbrev Inside {α : Type} (x : Except Fault α) : Prop :=
  Ensures x (fun _ => True) (fun e => e ≠ .endIterator)

theorem inside_bind {α β : Type} {x : Except Fault α} {f : α → Except Fault β} (h : Inside x)
    (rest : ∀ a, Inside (f a)) : Inside (x >>= f) :=
  Ensures.bind h fun a _ => rest a

theorem receiverIface_inside {v : Vehicle} {hop : Ipv4Address} (known : hop ∈ v.neiTable) :
    Inside (receiverIface v hop) := by
  obtain ⟨entry, hentry⟩ :=
    Option.isSome_iff_exists.mp (Std.TreeMap.mem_iff_isSome_getElem?.mp known)
  rw [receiverIface, hentry]
  trivial

theorem inside_of_planning {α : Type} {x : Except Fault α} {post : α → Prop}
    (h : Ensures x post fun e => e = .junction ∨ e = .walk) : Ensures x post fun e =>
      e ≠ .endIterator :=
  h.mono (fun _ hpost => hpost) fun e he => by rcases he with rfl | rfl <;> simp

theorem inside_of_junction {α : Type} {x : Except Fault α} {post : α → Prop}
    (h : Ensures x post fun e => e = .junction) : Ensures x post fun e => e ≠ .endIterator :=
  h.mono (fun _ hpost => hpost) fun e he => by simp [he]

theorem readPath_inside (path : List UInt16) (k : ℕ) : Inside (readPath path k) := by
  refine (ensures_self _).mono (fun _ _ => trivial) fun e he => ?_
  simp [readPath_error he]

theorem popHeader_inside (bytes : List UInt8) : Inside (popHeader bytes) := by
  refine (ensures_self _).mono (fun _ _ => trivial) fun e he => ?_
  simp [popHeader_error he]

section Decisions

variable [Platform]

/-- The destination is so close that it is taken for the next hop. -/
def InRange (v : Vehicle) (dest : Ipv4Address) : Prop :=
  distance v.position (v.positionOf dest) < v.rssiDistanceThreshold
deriving Decidable

theorem intraPathRouting_next (v : Vehicle) (dest : Ipv4Address) (dstjid : ℤ) :
    Ensures (intraPathRouting v dest dstjid)
      (fun hop => hop = loopback ∨ hop = dest ∧ InRange v dest ∨ hop ∈ v.neiTable)
      (fun e => e = .junction) := by
  by_cases near : InRange v dest
  · refine (intraPathRouting_spec v dest dstjid).weaken fun hop h => ?_
    rcases h with hloop | hdest | hentry
    · exact .inl hloop
    · exact .inr (.inl ⟨hdest, near⟩)
    · obtain ⟨entry, hentry⟩ := hentry
      exact .inr (.inr (Std.TreeMap.mem_iff_isSome_getElem?.mpr (by rw [hentry]; rfl)))
  · -- without the destination in range only the loop over the neighbours is left
    have far : ¬ distance v.position (v.positionOf dest) < v.rssiDistanceThreshold := near
    have other : intraPathRouting v dest dstjid =
        intraPathRouting { v with positionOf := fun _ => v.positionOf dest } loopback dstjid := by
      unfold intraPathRouting
      by_cases negative : dstjid < 0
      · rw [if_pos negative, if_pos negative]
      · rw [if_neg negative, if_neg negative, if_neg far, if_neg far]
        rfl
    rw [other]
    refine (intraPathRouting_spec _ loopback dstjid).weaken fun hop h => ?_
    rcases h with hloop | hdest | hentry
    · exact .inl hloop
    · exact .inl hdest
    · obtain ⟨entry, hentry⟩ := hentry
      exact .inr (.inr (Std.TreeMap.mem_iff_isSome_getElem?.mpr (by rw [hentry]; rfl)))

theorem routeOutput_inside (v : Vehicle) (dest : Ipv4Address) : Inside (routeOutput v dest) := by
  have lookup :
    ∀ (v' : Vehicle) (jid : ℤ) (direct : Ipv4Address → Prop) [∀ hop, Decidable (direct hop)],
      (∀ hop, hop = loopback ∨ hop = dest → direct hop) →
      Inside (do
        let nextHop ← intraPathRouting v' dest jid
        if direct nextHop then pure ((⟨dest, v'.mainAddress, loopback⟩ : Ipv4Route), v')
        else do
          let receiverIfaceAddr ← receiverIface v' nextHop
          pure (⟨dest, receiverIfaceAddr, nextHop⟩, v')) := by
    intro v' jid direct _ hdirect
    refine (inside_of_junction (intraPathRouting_spec v' dest jid)).bind fun hop hhop => ?_
    refine Ensures.ite (fun _ => trivial) fun looked => ?_
    rcases hhop with hloop | hdest | hentry
    · exact absurd (hdirect hop (.inl hloop)) looked
    · exact absurd (hdirect hop (.inr hdest)) looked
    · obtain ⟨entry, hentry⟩ := hentry
      have known : hop ∈ v'.neiTable :=
        Std.TreeMap.mem_iff_isSome_getElem?.mpr (by rw [hentry]; rfl)
      exact (receiverIface_inside known).bind fun iface _ => trivial
  unfold routeOutput
  refine (inside_of_planning (pathToRsu_spec v)).bind fun r _ => ?_
  obtain ⟨path, v₁⟩ := r
  cases path with
  | nil =>
    have target : Inside (if v₁.junAreaTag then getPacketNextJID v₁ else do
        let jid ← getNearestJID v₁
        pure ((jid : ℤ), v₁)) := by
      refine Ensures.ite (fun _ => ?_) fun _ => ?_
      · exact (inside_of_planning (getPacketNextJID_spec v₁)).weaken fun _ _ => trivial
      · exact (inside_of_junction (getNearestJID_spec v₁)).bind fun jid _ => trivial
    refine target.bind fun r _ => ?_
    exact lookup r.2 r.1 (fun hop => hop = loopback ∨ hop = dest ∨ r.2.junAreaTag)
      fun hop h => h.imp id .inl
  | cons j path => exact lookup v₁ j.toNat (fun hop => hop = loopback ∨ hop = dest) fun hop h => h

variable (n : Node)

theorem addDataHeader_inside (p : Packet) (source dest : Ipv4Address) (route : Ipv4Route) :
    Inside (addDataHeader n p source dest route) := by
  unfold addDataHeader
  by_cases hb : matchesBroadcast dest
  · rw [if_pos hb]
    trivial
  · rw [if_neg hb]
    refine inside_bind ?_ fun _ => trivial
    refine (inside_of_planning (pathToRsu_spec n.toVehicle)).bind fun r _ => ?_
    simp only [pushHeader_eq]
    trivial

theorem originate_inside (dest : Ipv4Address) (p : Packet) : Inside (originate n dest p) :=
  (routeOutput_inside n.toVehicle dest).bind fun r _ => addDataHeader_inside _ p _ dest r.1

theorem forwardPacket_inside {n : Node} {header : Ipv4Header}
    (known : InRange n.toVehicle header.destination → header.destination ∈ n.neiTable)
    (p : Packet) : Inside (forwardPacket n p header) := by
  unfold forwardPacket
  refine (popHeader_inside p.bytes).bind fun r _ => ?_
  obtain ⟨d, payload⟩ := r
  have first : Ensures (if d.path.length = 0 then refreshPath n.toVehicle d
    else pure (d, n.toVehicle))
      (fun r => SameButGraph n.toVehicle r.2) (fun e => e ≠ .endIterator) :=
    Ensures.ite (fun _ => (inside_of_planning (refreshPath_spec n.toVehicle d)).weaken
      fun r h => h.1)
      fun _ => SameButGraph.refl _
  refine first.bind fun r same₁ => ?_
  obtain ⟨d₁, v₁⟩ := r
  refine Ensures.ite (fun _ => ?_) fun _ => ?_
  · rw [storePacket_eq]
    trivial
  · refine (readPath_inside _ _).bind fun jid _ => ?_
    have crossing : Ensures (junctionStep v₁ d₁ d₁.nextJidIdx.toNat jid)
        (fun r => SameButGraph v₁ r.2.2.2) (fun e => e ≠ .endIterator) := by
      unfold junctionStep
      refine Ensures.ite (fun _ => Ensures.ite (fun _ => ?_) fun _ => ?_) fun _ =>
        SameButGraph.refl _
      · exact (readPath_inside _ _).bind fun next _ => SameButGraph.refl _
      · refine (inside_of_planning (pathToRsu_spec v₁)).bind fun r hr => ?_
        obtain ⟨path, v'⟩ := r
        cases path <;> exact hr.2
    refine crossing.bind fun r same₂ => ?_
    obtain ⟨d₂, idx, jid₂, v₂⟩ := r
    have same : SameButGraph n.toVehicle v₂ := same₁.trans same₂
    refine Ensures.ite (fun _ => ?_) fun _ => ?_
    · rw [storePacket_eq]
      trivial
    · refine (inside_of_junction (intraPathRouting_next v₂ header.destination jid₂)).bind fun hop
        next => ?_
      refine Ensures.ite (fun away => ?_) fun _ => ?_
      · have neighbor : hop ∈ v₂.neiTable := by
          rcases next with hloop | hdest | hneighbor
          · exact absurd hloop away
          · obtain ⟨rfl, near⟩ := hdest
            rw [same] at near ⊢
            exact known near
          · exact hneighbor
        refine (receiverIface_inside neighbor).bind fun iface _ => ?_
        refine inside_bind ?_ fun _ => trivial
        exact Ensures.ite (fun _ => by rw [pushHeader_eq]; trivial) fun _ => trivial
      · rw [storePacket_eq]
        trivial

theorem checkPacketQueue_inside : Inside (checkPacketQueue n) := by
  have entry : ∀ (n : Node) (q : PacketQueueEntry), Inside (checkEntry n q) := by
    intro n q
    refine Ensures.ite (fun _ => trivial) fun _ => (popHeader_inside _).bind fun r _ => ?_
    have plan : Inside (replan n.toVehicle q.header.destination r.1) := by
      refine (inside_of_planning (refreshPath_spec n.toVehicle r.1)).bind fun r _ => ?_
      refine Ensures.ite (fun _ => trivial) fun _ => (readPath_inside _ _).bind fun jid _ => ?_
      have pass : Inside (passJunction r.2 r.1.path r.1.nextJidIdx.toNat jid) :=
        Ensures.ite (fun _ => (readPath_inside _ _).bind fun _ _ => trivial) fun _ => trivial
      refine pass.bind fun step _ => ?_
      exact (inside_of_junction (intraPathRouting_spec _ _ _)).bind fun _ _ => trivial
    refine plan.bind fun r _ => ?_
    simp only [pushHeader_eq, bind, Except.bind]
    exact Ensures.ite (fun _ => trivial) fun _ => trivial
  have loop : ∀ (rounds : ℕ) (n : Node), Inside (checkLoop rounds n) := by
    intro rounds
    induction rounds with
    | zero => exact fun _ => trivial
    | succ rounds ih =>
      intro n
      rw [checkLoop]
      cases n.pqueue.getLast? with
      | none => trivial
      | some q => exact (entry _ q).bind fun n' _ => ih n'
  exact (loop _ _).bind fun _ _ => trivial

/-! ## Runs -/

def strictStep (act : NodeAction) : Except Fault Node :=
  nodeStep { n with pastEnd := none } act

/-- The destination of a packet that is to be forwarded is a neighbour or out of range. -/
def Known : NodeAction → Prop
  | .routeInput _ header =>
    isDestinationAddress n.toVehicle header.destination ∨ header.ttl ≤ 1 ∨
      ¬ InRange n.toVehicle header.destination ∨ header.destination ∈ n.neiTable
  | _ => True

instance (n : Node) (act : NodeAction) : Decidable (Known n act) :=
  match act with
  | .routeInput .. | .observe _ | .originate .. | .checkPacketQueue | .sendFromSQueue _ =>
    by unfold Known; infer_instance

theorem strictStep_inside {n : Node} {act : NodeAction} (known : Known n act) :
    Inside (strictStep n act) := by
  cases act with
  | observe v => trivial
  | originate dest p => exact originate_inside _ dest p
  | routeInput p header =>
    refine Ensures.ite (fun _ => trivial) fun other =>
      Ensures.ite (fun _ => trivial) fun alive => ?_
    refine forwardPacket_inside (fun near => ?_) p
    rcases known with mine | old | far | neighbor
    · exact absurd mine other
    · exact absurd old alive
    · exact absurd near far
    · exact neighbor
  | checkPacketQueue => exact checkPacketQueue_inside _
  | sendFromSQueue k => exact Ensures.ite (fun _ => trivial) fun _ => trivial

/-- In a run in which the destination of every packet to be forwarded is a neighbour or out of
range, every next hop that is looked up is a key of the neighbour table. -/
theorem nextHop_known {start : Node} {acts : List NodeAction}
    (known : Along strictStep Known start acts) :
    exec strictStep start acts ≠ .error .endIterator := by
  have keep : ∀ n act n', True → Known n act → strictStep n act = .ok n' → True :=
    fun _ _ _ _ _ _ => trivial
  have safe : ∀ n act, True → Known n act → strictStep n act ≠ .error .endIterator :=
    fun _ _ _ hknown hrun => (strictStep_inside hknown).of_error hrun rfl
  exact exec_ne_error keep safe trivial known

end Decisions

/-- A packet for a node far away is stored, and the next one goes to the neighbour on the way. -/
def overNeighbor : List NodeAction :=
  [.routeInput carried carriedHeader, .observe accompanied, .routeInput carried carriedHeader]

theorem nextHop_known_overNeighbor :
    Along (@strictStep integralPlatform) (@Known integralPlatform) (emptyNode approaching)
      overNeighbor ∧
    Ensures (exec (@strictStep integralPlatform) (emptyNode approaching) overNeighbor)
      (fun n => n.ucbCalls.map (fun s => s.route.gateway) = [0x0a010004]) (fun _ => False) ∧
    exec (@strictStep integralPlatform) (emptyNode approaching) overNeighbor ≠
      .error .endIterator := by
  have known : Along (@strictStep integralPlatform) (@Known integralPlatform)
      (emptyNode approaching) overNeighbor := by
    decide +kernel
  have sent : Ensures (exec (@strictStep integralPlatform) (emptyNode approaching) overNeighbor)
      (fun n => n.ucbCalls.map (fun s => s.route.gateway) = [0x0a010004]) (fun _ => False) := by
    decide +kernel
  exact ⟨known, sent, @nextHop_known integralPlatform _ _ known⟩

/-- A packet for a node next to this one that has not been heard of. -/
theorem nextHop_unknown : exec (@strictStep integralPlatform) (emptyNode approaching)
      [.observe approached, .routeInput carried carriedHeader] = .error .endIterator := by
  have fault : Ensures (exec (@strictStep integralPlatform) (emptyNode approaching)
      [.observe approached, .routeInput carried carriedHeader]) (fun _ => False)
      (fun e => e = .endIterator) := by
    decide +kernel
  exact fault.eq_error

end Egsr.Grp.NextHop
