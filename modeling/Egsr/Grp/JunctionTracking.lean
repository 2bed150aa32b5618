import Egsr.Grp.Handlers

/-! Tracking of junctions. The area of a junction is entered and left by the same
samples of the position that advance the vehicle along its route, and the ant
timer runs in the area only. On the edge of the area the two differ. -/

namespace Egsr.Grp.JunctionTracking

open Grp.Road Grp.Header Grp.State Grp.Control Grp.Handlers
open Grp.DataPlane Lib.Outcome Lib.Run Network.ByteIterator

/-! ## Samples of the position -/

/-- The timer that starts ants runs in the area of a junction and only there. -/
def Synced (v : Vehicle) : Prop := v.antTimer.isSome = v.junAreaTag
deriving Decidable

def Advances (v v' : Vehicle) : Prop :=
  v'.currentJID = v.nextJID ∧ v.trailTrace = v'.nextJID :: v'.trailTrace
deriving Decidable

theorem advance_spec (v : Vehicle) (toNext : ℚ) : Ensures (advance v toNext)
      (fun v' => (toNext ≤ junAreaRadius → Advances v v') ∧
        (junAreaRadius < toNext → v'.trailTrace = v.trailTrace) ∧
        v' = { v with
          turn := v'.turn
          currentJID := v'.currentJID
          nextJID := v'.nextJID
          trailTrace := v'.trailTrace
          direction := v'.direction })
      (fun e => e ≠ .timerRunning) := by
  have hfront : Ensures (trailFront v) (fun r => v.trailTrace = r.1 :: r.2)
      (fun e => e ≠ .timerRunning) := by
    unfold trailFront
    cases htrail : v.trailTrace with
    | nil => simp
    | cons jid rest => exact rfl
  unfold advance
  refine Ensures.ite (fun hnear => ?_) fun hfar => Ensures.ite (fun _ => ?_) fun _ => ?_
  · refine hfront.bind fun r hr => ?_
    have hdirection : Ensures (getDirection v.map v.nextJID r.1) (fun _ => True)
        (fun e => e ≠ .timerRunning) :=
      (getDirection_spec v.map v.nextJID r.1).mono (fun _ h => h) fun e he => by simp [he]
    refine hdirection.bind fun direction _ => ?_
    exact ⟨fun _ => ⟨rfl, hr⟩, fun hfar => absurd hnear (not_le.mpr hfar), rfl⟩
  · refine hfront.bind fun r hr => ?_
    exact ⟨fun hnear => absurd hnear hfar, fun _ => rfl, rfl⟩
  · exact ⟨fun hnear => absurd hnear hfar, fun _ => rfl, rfl⟩

theorem updateTag_spec {v : Vehicle} (synced : Synced v) (toNext toCurrent : ℚ) :
    Ensures (updateTag v toNext toCurrent) (fun v' => v'.junAreaTag =
          (if v.junAreaTag then !decide (junAreaRadius < toNext ∧ junAreaRadius < toCurrent)
          else decide (toNext < junAreaRadius)) ∧
        Synced v' ∧ v' = { v with junAreaTag := v'.junAreaTag, antTimer := v'.antTimer })
      (fun _ => False) := by
  unfold updateTag
  by_cases htag : v.junAreaTag
  · simp only [if_pos htag]
    refine Ensures.ite (fun hfar => ?_) fun hnear => ?_
    · exact ⟨by simp [hfar], rfl, rfl⟩
    · exact ⟨by simp [hnear, htag], synced, rfl⟩
  · have hidle : v.antTimer = none := by
      have hsynced : v.antTimer.isSome = false := synced.trans (by simpa using htag)
      simpa using hsynced
    simp only [if_neg htag]
    refine Ensures.ite (fun hnear => ?_) fun hfar => ?_
    · rw [hidle, schedule_none]
      exact ⟨by simp [hnear], rfl, rfl⟩
    · exact ⟨by simp [hfar, htag], synced, rfl⟩

section Samples

variable [Platform]

def distanceTo (v : Vehicle) (jid : ℕ) : Option ℚ :=
  v.map[jid]?.map fun j => distance v.position j.position

/-- Farther than the radius from the junction passed and from the one ahead. -/
def Far (v : Vehicle) : Prop :=
  ∃ d ∈ distanceTo v v.nextJID, ∃ d' ∈ distanceTo v v.currentJID,
    junAreaRadius < d ∧ junAreaRadius < d'

/-- What a sample does, by its distances to the junction ahead and to the current one. -/
structure Sampled (v v' : Vehicle) (toNext toCurrent : ℚ) : Prop where
  next : distanceTo v v.nextJID = some toNext
  current : distanceTo v v.currentJID = some toCurrent
  advance : toNext ≤ junAreaRadius → Advances v v'
  stay : junAreaRadius < toNext → v'.trailTrace = v.trailTrace
  tag : v'.junAreaTag =
    if v.junAreaTag then !decide (junAreaRadius < toNext ∧ junAreaRadius < toCurrent)
    else decide (toNext < junAreaRadius)
  synced : Synced v'

theorem checkPositionExpire_spec {v : Vehicle} (synced : Synced v)
    (expired : v.positionCheckTimer = none) :
    Ensures (checkPositionExpire v) (fun v' => ∃ d d', Sampled v v' d d')
      (fun e => e ≠ .timerRunning) := by
  unfold checkPositionExpire
  refine ((junction_spec v.map v.nextJID).mono (fun _ h => h) fun e he => by simp [he]).bind
    fun n hn => ?_
  refine ((junction_spec v.map v.currentJID).mono (fun _ h => h) fun e he => by simp [he]).bind
    fun c hc => ?_
  refine (advance_spec v _).bind fun v₁ hv₁ => ?_
  obtain ⟨hadvance, hstay, hframe⟩ := hv₁
  have hsynced : Synced v₁ := by
    rw [hframe]
    exact synced
  refine ((updateTag_spec hsynced _ _).mono (fun _ h => h) fun e he => he.elim).bind
    fun v₂ hv₂ => ?_
  obtain ⟨htag, hsynced₂, hframe₂⟩ := hv₂
  have hexpired : v₂.positionCheckTimer = none := by rw [hframe₂, hframe, expired]
  have hsame : v₁.junAreaTag = v.junAreaTag := by rw [hframe]
  rw [hexpired, schedule_none]
  refine ⟨_, _, by rw [distanceTo, hn, Option.map_some], by rw [distanceTo, hc, Option.map_some],
    fun hnear => ?_, fun hfar => ?_, ?_, hsynced₂⟩
  · have hcurrent : v₂.currentJID = v₁.currentJID := by rw [hframe₂]
    have hnext : v₂.nextJID = v₁.nextJID := by rw [hframe₂]
    have htrail : v₂.trailTrace = v₁.trailTrace := by rw [hframe₂]
    exact ⟨hcurrent.trans (hadvance hnear).1, by
      rw [(hadvance hnear).2]
      exact congrArg₂ List.cons hnext.symm htrail.symm⟩
  · have htrail : v₂.trailTrace = v₁.trailTrace := by rw [hframe₂]
    exact htrail.trans (hstay hfar)
  · rw [← hsame]
    exact htag

end Samples

/-! ## Steps -/

inductive TrackAction where
  /-- The position is sampled by the timer for it. -/
  | checkPositionExpire (p : Position)
  /-- The ant timer, if it runs. -/
  | antTimerExpire (rand : ℕ) (jitter : Time)
  | processAnt (msg : MessageHeader Time) (receiverIfaceAddr : Ipv4Address) (rand : ℕ)
      (jitter : Time)
  /-- Anything else that happens at the node; its way and its ant timer stay. -/
  | observe (n : Node)

section Steps

variable [Platform]

def sampling (v : Vehicle) (p : Position) : Vehicle :=
  { v with position := p, positionCheckTimer := none }

def trackStep (n : Node) : TrackAction → Except Fault Node
  | .checkPositionExpire p => do
    let v ← checkPositionExpire (sampling n.toVehicle p)
    pure { n with toVehicle := v }
  | .antTimerExpire rand jitter =>
    if n.antTimer.isSome then do
      let v ← antTimerExpire { n.toVehicle with antTimer := none } rand jitter
      pure { n with toVehicle := v }
    else pure n
  | .processAnt msg receiverIfaceAddr rand jitter => processAnt n msg receiverIfaceAddr rand jitter
  | .observe n' => pure { n' with
      map := n.map
      currentJID := n.currentJID
      nextJID := n.nextJID
      trailTrace := n.trailTrace
      junAreaTag := n.junAreaTag
      antTimer := n.antTimer }

/-- A sample that advances the vehicle leaves it in the area of the junction, and
it stays there until a sample far from both junctions. -/
def Tracks (n : Node) (act : TrackAction) : Prop :=
  ∀ n', trackStep n act = .ok n' →
    (∀ p, act = .checkPositionExpire p → Advances n.toVehicle n'.toVehicle → n'.junAreaTag) ∧
    (n.junAreaTag → n'.junAreaTag ∨
      ∃ p, act = .checkPositionExpire p ∧ Far (sampling n.toVehicle p))

def OffEdge (n : Node) : TrackAction → Prop
  | .checkPositionExpire p =>
    n.junAreaTag ∨ distanceTo (sampling n.toVehicle p) n.nextJID ≠ some junAreaRadius
  | _ => True

instance (n : Node) (act : TrackAction) : Decidable (OffEdge n act) :=
  match act with
  | .checkPositionExpire _ | .antTimerExpire .. | .processAnt .. | .observe _ =>
    by unfold OffEdge; infer_instance

variable {n n' : Node}

theorem processAnt_antTimer (synced : Synced n.toVehicle) (msg : MessageHeader Time)
    (receiverIfaceAddr : Ipv4Address) (rand : ℕ) (jitter : Time) :
    Ensures (processAnt n msg receiverIfaceAddr rand jitter)
      (fun n' => n'.junAreaTag = n.junAreaTag ∧ Synced n'.toVehicle)
      (fun e => e ≠ .timerRunning) := by
  refine (processAnt_spec n msg receiverIfaceAddr rand jitter).weaken fun n' hn => ?_
  cases hn with
  | inl same =>
    rw [same]
    exact ⟨rfl, synced⟩
  | inr accepted =>
    have htag : n'.junAreaTag = n.junAreaTag := by rw [accepted.1.frame]
    refine ⟨htag, ?_⟩
    rw [Synced, htag, accepted.2.1, delayOwnAnt_antTimer]
    by_cases hdelay : n.junAreaTag ∧ msg.ant.sequenceOfJunctions.length = 1
    · rw [if_pos hdelay, hdelay.1]
      rfl
    · rw [if_neg hdelay]
      exact synced

theorem trackStep_synced (synced : Synced n.toVehicle) (act : TrackAction) :
    Ensures (trackStep n act) (fun n' => Synced n'.toVehicle ∧
        ((∀ p, act ≠ .checkPositionExpire p) → n'.junAreaTag = n.junAreaTag))
      (fun e => e ≠ .timerRunning) := by
  cases act with
  | checkPositionExpire p =>
    have hsampling : Synced (sampling n.toVehicle p) := synced
    refine (checkPositionExpire_spec hsampling rfl).bind fun v hv => ?_
    obtain ⟨d, d', hsampled⟩ := hv
    exact ⟨hsampled.synced, fun other => absurd rfl (other p)⟩
  | antTimerExpire rand jitter =>
    refine Ensures.ite (fun hruns => ?_) fun _ => ⟨synced, fun _ => rfl⟩
    refine (antTimerExpire_spec rfl rand jitter).bind fun v hv => ?_
    have htag : v.junAreaTag = n.junAreaTag := by
      have hsame := hv.same
      unfold SameButMessages at hsame
      rw [hsame]
    have htimer : v.antTimer.isSome = true := by
      have hsame := hv.same
      unfold SameButMessages at hsame
      rw [hsame]
      rfl
    refine ⟨?_, fun _ => htag⟩
    have hrunning : n.junAreaTag = true := synced.symm.trans hruns
    exact htimer.trans (htag.trans hrunning).symm
  | processAnt msg receiverIfaceAddr rand jitter =>
    exact (processAnt_antTimer synced msg receiverIfaceAddr rand jitter).weaken
      fun n' hn => ⟨hn.2, fun _ => hn.1⟩
  | observe n' => exact ⟨synced, fun _ => rfl⟩

theorem sampled_of_step {p : Position} (synced : Synced n.toVehicle)
    (step : trackStep n (.checkPositionExpire p) = .ok n') :
    ∃ d d', Sampled (sampling n.toVehicle p) n'.toVehicle d d' := by
  have hsampling : Synced (sampling n.toVehicle p) := synced
  obtain ⟨v, hv, hn'⟩ := bind_ok_inv step
  cases hn'
  exact (checkPositionExpire_spec hsampling rfl).of_ok hv

theorem Sampled.near_of_advances {v v' : Vehicle} {d d' : ℚ} (sampled : Sampled v v' d d')
    (advances : Advances v v') : d ≤ junAreaRadius := by
  by_contra hfar
  have htrail := advances.2
  rw [← sampled.stay (not_le.mp hfar)] at htrail
  simp at htrail

theorem tracks_of_offEdge (synced : Synced n.toVehicle) {act : TrackAction}
    (off : OffEdge n act) : Tracks n act := by
  intro n' step
  have hother := ((trackStep_synced synced act).of_ok step).2
  cases act with
  | checkPositionExpire p =>
    obtain ⟨d, d', hsampled⟩ := sampled_of_step synced step
    have htag : n'.junAreaTag = if n.junAreaTag then
        !decide (junAreaRadius < d ∧ junAreaRadius < d') else decide (d < junAreaRadius) :=
      hsampled.tag
    refine ⟨fun q _ advances => ?_, fun htagged => ?_⟩
    · have hnear : d ≤ junAreaRadius := hsampled.near_of_advances advances
      rw [htag]
      by_cases htagged : n.junAreaTag
      · simp [htagged, hnear]
      · have hoff : d ≠ junAreaRadius := by
          intro heq
          apply off.resolve_left htagged
          rw [← heq]
          exact hsampled.next
        simp [htagged, lt_of_le_of_ne hnear hoff]
    · by_cases hfar : junAreaRadius < d ∧ junAreaRadius < d'
      · exact .inr ⟨p, rfl, d, hsampled.next, d', hsampled.current, hfar⟩
      · left
        rw [htag, if_pos htagged]
        simp [hfar]
  | antTimerExpire rand jitter =>
    have hsame : n'.junAreaTag = n.junAreaTag := hother nofun
    exact ⟨nofun, fun htagged => .inl (hsame.trans htagged)⟩
  | processAnt msg receiverIfaceAddr rand jitter =>
    have hsame : n'.junAreaTag = n.junAreaTag := hother nofun
    exact ⟨nofun, fun htagged => .inl (hsame.trans htagged)⟩
  | observe m =>
    have hsame : n'.junAreaTag = n.junAreaTag := hother nofun
    exact ⟨nofun, fun htagged => .inl (hsame.trans htagged)⟩

theorem offEdge_of_tracks (synced : Synced n.toVehicle) {act : TrackAction}
    (step : trackStep n act = .ok n') (tracks : Tracks n act) : OffEdge n act := by
  cases act with
  | checkPositionExpire p =>
    obtain ⟨d, d', hsampled⟩ := sampled_of_step synced step
    by_contra hedge
    rw [OffEdge, not_or, not_not] at hedge
    obtain ⟨houtside, hat⟩ := hedge
    have hd : d = junAreaRadius := Option.some.inj (hsampled.next.symm.trans hat)
    have htagged := (tracks n' step).1 p rfl (hsampled.advance hd.le)
    have hsame : (sampling n.toVehicle p).junAreaTag = n.junAreaTag := rfl
    rw [hsampled.tag, hsame, if_neg houtside, hd] at htagged
    simp at htagged
  | antTimerExpire rand jitter => trivial
  | processAnt msg receiverIfaceAddr rand jitter => trivial
  | observe m => trivial

/-- In every run the ant timer runs in the areas only and is never started while it
runs; and every step tracks the junctions just if no sample is on an edge. -/
theorem junctions_tracked {start : Node} (synced : Synced start.toVehicle)
    (acts : List TrackAction) :
    exec trackStep start acts ≠ .error .timerRunning ∧
      ∀ n, exec trackStep start acts = .ok n → Synced n.toVehicle ∧
        (Along trackStep Tracks start acts ↔ Along trackStep OffEdge start acts) := by
  have keep : ∀ s act s', Synced s.toVehicle → trackStep s act = .ok s' → Synced s'.toVehicle :=
    fun s act s' hs hstep => ((trackStep_synced hs act).of_ok hstep).1
  have keepGuarded : ∀ s act s', Synced s.toVehicle → True → trackStep s act = .ok s' →
      Synced s'.toVehicle := fun s act s' hs _ => keep s act s' hs
  have all : Along trackStep (fun _ _ => True) start acts :=
    along_of_forall (fun _ _ => trivial) start acts
  refine ⟨?_, fun n run => ⟨exec_invariant keepGuarded synced all run, ?_⟩⟩
  · refine exec_ne_error keepGuarded (fun s act hs _ herr => ?_) synced all
    exact (trackStep_synced hs act).of_error herr rfl
  · refine along_congr keep (fun s act s' hs hstep => ?_) synced run
    exact ⟨offEdge_of_tracks hs hstep, tracks_of_offEdge hs⟩

end Steps

def driving : Node := emptyNode { approaching with
  position := ⟨44500, 0⟩
  trailTrace := [46, 47]
  junAreaTag := false }

def through : List TrackAction :=
  [.checkPositionExpire ⟨44960, 0⟩, .antTimerExpire 0 0, .checkPositionExpire ⟨45040, 0⟩,
    .checkPositionExpire ⟨45500, 0⟩]

theorem junctions_tracked_through : ∃ n,
    exec (@trackStep integralPlatform) driving through = .ok n ∧ n.currentJID = 45 ∧
      Synced n.toVehicle ∧ Along (@trackStep integralPlatform) (@Tracks integralPlatform)
        driving through := by
  have hrun : Ensures (exec (@trackStep integralPlatform) driving through)
      (fun n => n.currentJID = 45) (fun _ => False) := by
    decide +kernel
  have off : Along (@trackStep integralPlatform) (@OffEdge integralPlatform) driving through := by
    decide +kernel
  obtain ⟨n, run, hcurrent⟩ := hrun.exists_ok
  have htracked := (@junctions_tracked integralPlatform driving rfl through).2 n run
  exact ⟨n, run, hcurrent, htracked.1, htracked.2.mpr off⟩

/-- Fifty metres ahead the vehicle advances but does not enter the area. -/
theorem edge_untracked : Synced driving.toVehicle ∧
    ¬ @Tracks integralPlatform driving (.checkPositionExpire ⟨44950, 0⟩) ∧
      ∃ n, @trackStep integralPlatform driving (.checkPositionExpire ⟨44950, 0⟩) = .ok n ∧
        Advances driving.toVehicle n.toVehicle ∧ n.junAreaTag = false := by
  have hrun : Ensures (@trackStep integralPlatform driving (.checkPositionExpire ⟨44950, 0⟩))
      (fun n => Advances driving.toVehicle n.toVehicle ∧ n.junAreaTag = false)
      (fun _ => False) := by
    decide +kernel
  obtain ⟨n, step, advances, outside⟩ := hrun.exists_ok
  refine ⟨rfl, fun tracks => ?_, n, step, advances, outside⟩
  have inside := (tracks n step).1 _ rfl advances
  rw [outside] at inside
  cases inside

end Egsr.Grp.JunctionTracking
