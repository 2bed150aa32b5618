import Egsr.Grp.HeaderBalance

/-! The cursor of a source route over whole runs of the network: it is read
inside the path only, and every header written back names the junction under
it. The exception is the check of the waiting queue at the road-side unit's own
junction, where the path is that junction alone and is stepped past. -/

namespace Egsr.Grp.Cursor

open Grp.Road Grp.State Grp.Forwarding Grp.SourceRoute Grp.DataPlane
open Grp.HeaderRoundTrip Grp.QueueCheck Grp.Network Grp.HeaderBalance
open Lib.Outcome Lib.Run Network.ByteIterator

/-- Every data packet a node holds or has passed on bears a header whose cursor
is inside its path, unless it has been stripped for its last hop. -/
structure CursorsInside (net : Net) : Prop where
  waiting : ∀ a, ∀ q ∈ (net.node a).pwaitqueue,
    Wrapped net.given q.packet q.header.destination
  queued : ∀ a, ∀ s ∈ (net.node a).squeue, Wrapped net.given s.packet s.header.destination
  launched : ∀ a, ∀ s ∈ (net.node a).downTargetCalls,
    Wrapped net.given s.packet s.header.destination
  relayed : ∀ a, ∀ s ∈ (net.node a).ucbCalls,
    Wrapped net.given s.packet s.header.destination ∨
      s.route.gateway = s.header.destination ∧ Whole net.given s.packet s.header.destination

def ToNodes (net : Net) : NetAction → Prop
  | .originate _ dest _ => Unicast net dest
  | _ => True

/-- Packets are sent to single nodes, and the waiting queue is checked at the
road-side unit's junction only if no packet of it stays. -/
def PathsKept (net : Net) : NetAction → Prop
  | .originate _ dest _ => Unicast net dest
  | .checkPacketQueue a => AtRsu (net.node a).toVehicle → ∀ q, ¬ Stays (net.node a) q
  | _ => True

theorem cursor_inside [Platform] {net : Net} (start : NetStarted net) (as : List NetAction)
    (along : Along netStep PathsKept net as) :
    exec netStep net as ≠ .error .cursor ∧
      ∀ net', exec netStep net as = .ok net' → CursorsInside net' := by
  have hsound : ∀ s a, PathsKept s a → Sound False s a ∧ ¬ Overruns s a := by
    intro s a h
    cases a with
    | originate a dest bytes => exact ⟨⟨h, False.elim⟩, id⟩
    | checkPacketQueue a => exact ⟨False.elim, fun hover => by
        obtain ⟨hrsu, q, hq⟩ := hover
        exact h hrsu q hq⟩
    | observe a v => exact ⟨trivial, id⟩
    | launch a s => exact ⟨trivial, id⟩
    | relay a s => exact ⟨trivial, id⟩
    | sendFromSQueue a k => exact ⟨trivial, id⟩
  refine ⟨?_, fun net' run => ?_⟩
  · have keep : ∀ s a s', NetOk False s → PathsKept s a → netStep s a = .ok s' → NetOk False s' :=
      fun s a s' h hkept hstep => (netStep_ok h a (hsound s a hkept).1).of_ok hstep
    have safe : ∀ s a, NetOk False s → PathsKept s a → netStep s a ≠ .error .cursor :=
      fun s a h hkept herr =>
        (hsound s a hkept).2 ((netStep_ok h a (hsound s a hkept).1).of_error herr rfl)
    exact exec_ne_error keep safe (netStarted_ok False start) along
  · have hok := exec_ok False start (along.mono fun s a h => (hsound s a h).1) run
    refine ⟨fun a => (hok.nodes a).waiting, fun a s hs => ((hok.nodes a).queued s hs).wrapped,
      fun a s hs => ((hok.nodes a).launched s hs).wrapped, fun a s hs => ?_⟩
    have hcarried := (hok.nodes a).carried s hs
    by_cases hlast : s.route.gateway = s.header.destination
    · exact (hcarried.last hlast).elim (fun h => .inr ⟨hlast, h⟩) fun h => .inl h.2
    · exact .inl (hcarried.relay hlast)

/-- A stored packet is checked on the way to the road-side unit and handed on. -/
theorem cursor_inside_relayed : ∃ net,
    exec (@netStep integralPlatform) (gathered approaching) relayedTrip = .ok net ∧
      (net.node 0x0a010002).ucbCalls ≠ [] ∧ CursorsInside net := by
  have hrun : Ensures (exec (@netStep integralPlatform) (gathered approaching) relayedTrip)
      (fun net => (net.node 0x0a010002).ucbCalls ≠ []) (fun _ => False) := by
    decide +kernel
  obtain ⟨net, run, hsent⟩ := hrun.exists_ok
  have hbefore : Ensures (exec (@netStep integralPlatform) (gathered approaching)
      (relayedTrip.take 3)) (fun net => ¬ AtRsu (net.node 0x0a010002).toVehicle)
      (fun _ => False) := by
    decide +kernel
  have along : Along (@netStep integralPlatform) PathsKept (gathered approaching)
      (relayedTrip.take 3 ++ relayedTrip.drop 3) :=
    Along.concat ⟨gathered_toOther approaching rfl, fun _ _ =>
      ⟨trivial, fun _ _ => ⟨trivial, fun _ _ => trivial⟩⟩⟩ fun net h =>
        ⟨fun hrsu => absurd hrsu (hbefore.of_ok h), fun _ _ =>
          ⟨trivial, fun _ _ => ⟨trivial, fun _ _ => ⟨trivial, fun _ _ => trivial⟩⟩⟩⟩
  exact ⟨net, run, hsent,
    (@cursor_inside integralPlatform _ (gathered_started approaching) _ along).2 net run⟩

def arrived : Vehicle :=
  { approaching with
    currentJID := 45
    nextJID := 44
    position := ⟨45000, 0⟩
    positionOf := fun _ => ⟨44000, 0⟩ }

/-- A packet that was stored there is read past the end of its path. -/
theorem arrived_cursorOutside : NetStarted (gathered arrived) ∧
    Along (@netStep integralPlatform) ToNodes (gathered arrived) (storedTrip.take 2 ++
      [.checkPacketQueue 0x0a010002]) ∧
      exec (@netStep integralPlatform) (gathered arrived) (storedTrip.take 2 ++
        [.checkPacketQueue 0x0a010002]) = .error .cursor := by
  refine ⟨gathered_started arrived, ?_, ?_⟩
  · exact ⟨gathered_toOther arrived rfl, fun _ _ => ⟨trivial, fun _ _ =>
      ⟨trivial, fun _ _ => trivial⟩⟩⟩
  · have hrun : Ensures (exec (@netStep integralPlatform) (gathered arrived) (storedTrip.take 2 ++
        [.checkPacketQueue 0x0a010002])) (fun _ => False) (fun e => e = .cursor) := by
      decide +kernel
    exact hrun.eq_error

end Egsr.Grp.Cursor
