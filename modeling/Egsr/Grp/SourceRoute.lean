import Egsr.Grp.Forwarding

/-! Source routes on data packets: what a header read back is, which headers are
well formed, and what planning a path, stepping at a junction and replanning a
waiting packet make of them. -/

namespace Egsr.Grp.SourceRoute

open Grp.Road Grp.Dijkstra Grp.Header Grp.HeaderRoundTrip Grp.State
open Grp.Forwarding Lib.Outcome Network.ByteIterator

variable (h : DataPacketHeader)

@[simp] theorem pushHeader_eq (bytes : List UInt8) :
    pushHeader h bytes = .ok (dataBytes h ++ bytes) := by
  rw [pushHeader, data_addHeader]
  rfl

theorem popHeader_push {h : DataPacketHeader} (short : h.path.length < 2 ^ 16)
    (payload : List UInt8) : popHeader (dataBytes h ++ payload) = .ok (h, payload) := by
  rw [popHeader, data_removeHeader _ short]
  rfl

theorem popHeader_error {bytes : List UInt8} {e : Fault} (h : popHeader bytes = .error e) :
    e = .header := by
  unfold popHeader at h
  cases hr : removeHeader (⟨0, 0, []⟩ : DataPacketHeader) bytes with
  | some p =>
    rw [hr] at h
    cases h
  | none =>
    rw [hr] at h
    cases h
    rfl

/-- The cursor is inside the path and on the junction named beside it, and the
path leads to the road-side unit. -/
structure CursorInside : Prop where
  inside : h.nextJidIdx.toNat < h.path.length
  named : h.path[h.nextJidIdx.toNat]? = some h.nextJid
  last : h.path.getLast? = some (.ofNat mRsujid)

/-- A header that fits its length field and has no path or a cursor inside it. -/
structure HeaderOk : Prop where
  short : h.path.length < 2 ^ 16
  cursor : h.path ≠ [] → CursorInside h

theorem headerOk_nil {h : DataPacketHeader} (nil : h.path = []) : HeaderOk h :=
  ⟨by simp [nil], fun hne => absurd nil hne⟩

variable {path : List UInt16}

theorem readPath_error {k : ℕ} {e : Fault} (h : readPath path k = .error e) : e = .cursor := by
  unfold readPath at h
  cases hk : path[k]? with
  | none =>
    rw [hk] at h
    cases h
    rfl
  | some j =>
    rw [hk] at h
    cases h

theorem readPath_of_lt {k : ℕ} (h : k < path.length) :
    ∃ j, path[k]? = some j ∧ readPath path k = .ok j.toNat := by
  refine ⟨path[k], List.getElem?_eq_getElem h, ?_⟩
  rw [readPath, List.getElem?_eq_getElem h]
  rfl

structure At (path : List UInt16) (idx jid : ℕ) : Prop where
  short : path.length < 2 ^ 16
  named : ∃ j, path[idx]? = some j ∧ j.toNat = jid
  last : path.getLast? = some (.ofNat mRsujid)

theorem At.inside {idx jid : ℕ} (h : At path idx jid) : idx < path.length := by
  obtain ⟨j, hj, -⟩ := h.named
  exact (List.getElem?_eq_some_iff.mp hj).1

theorem At.headerOk {idx jid : ℕ} (h : At path idx jid) :
    HeaderOk ⟨.ofNat idx, .ofNat jid, path⟩ := by
  refine ⟨h.short, fun _ => ?_⟩
  have hlt := h.inside
  obtain ⟨j, hj, rfl⟩ := h.named
  have hidx : (UInt16.ofNat idx).toNat = idx := by
    rw [UInt16.toNat_ofNat', Nat.mod_eq_of_lt (hlt.trans h.short)]
  exact ⟨hidx.symm ▸ hlt, by rw [hidx, hj, UInt16.ofNat_toNat], h.last⟩

theorem HeaderOk.readPath {d : DataPacketHeader} (ok : HeaderOk d) (ne : d.path ≠ []) :
    ∃ jid, readPath d.path d.nextJidIdx.toNat = .ok jid ∧ At d.path d.nextJidIdx.toNat jid := by
  have hin := ok.cursor ne
  obtain ⟨j, hj, hread⟩ := readPath_of_lt hin.inside
  exact ⟨j.toNat, hread, ok.short, ⟨j, hj, rfl⟩, hin.last⟩

/-! ## Planning a path -/

def SameButGraph (v v' : Vehicle) : Prop := v' = { v with graph := v'.graph }

theorem SameButGraph.refl (v : Vehicle) : SameButGraph v v := rfl

variable {v : Vehicle}

theorem SameButGraph.trans {u w : Vehicle} (h : SameButGraph u v) (h' : SameButGraph v w) :
    SameButGraph u w := by
  unfold SameButGraph at *
  rw [h', h]

def SameButGraphs (v v' : Vehicle) : Prop := v' = { v with graph := v'.graph, graph2 := v'.graph2 }

theorem SameButGraph.graphs {v' : Vehicle} (h : SameButGraph v v') : SameButGraphs v v' := by
  unfold SameButGraph SameButGraphs at *
  rw [h]

theorem SameButGraphs.trans {u w : Vehicle} (h : SameButGraphs u v) (h' : SameButGraphs v w) :
    SameButGraphs u w := by
  unfold SameButGraphs at *
  rw [h', h]

theorem joinRoad_spec (v : Vehicle) (toCurrent toNext : ℚ) :
    Ensures (joinRoad v toCurrent toNext) (SameButGraph v) (fun e => e = .junction) := by
  unfold joinRoad
  refine (Grid.setBoth_spec _ _ _ _).bind fun graph _ => ?_
  exact (Grid.setBoth_spec _ _ _ _).bind fun graph' _ => rfl

def joinedGraph (v : Vehicle) (toCurrent toNext : ℚ) : Grid (mJuncNum + 2) ℚ where
  cell k l :=
    if k = mJuncNum ∧ l = v.nextJID ∨ k = v.nextJID ∧ l = mJuncNum then toNext
    else if k = mJuncNum ∧ l = v.currentJID ∨ k = v.currentJID ∧ l = mJuncNum then toCurrent
    else v.graph.cell k l

theorem joinRoad_eq (hc : v.currentJID < mJuncNum + 2)
    (hn : v.nextJID < mJuncNum + 2) (toCurrent toNext : ℚ) :
    joinRoad v toCurrent toNext = .ok { v with graph := joinedGraph v toCurrent toNext } := by
  have hj : mJuncNum < mJuncNum + 2 := by omega
  simp only [joinRoad, Grid.setBoth_eq hj hc, Grid.setBoth_eq hj hn, bind, Except.bind]
  rfl

theorem joinRoad_inv {w : Vehicle} {toCurrent toNext : ℚ}
    (h : joinRoad v toCurrent toNext = .ok w) :
    (v.currentJID < mJuncNum + 2 ∧ v.nextJID < mJuncNum + 2) ∧
      w = { v with graph := joinedGraph v toCurrent toNext } := by
  have h' := h
  unfold joinRoad at h'
  obtain ⟨graph, hset, h'⟩ := bind_ok_inv h'
  obtain ⟨graph', hset', -⟩ := bind_ok_inv h'
  have hc := (Grid.setBoth_ok_inv hset).2
  have hn := (Grid.setBoth_ok_inv hset').2
  rw [joinRoad_eq hc hn, Except.ok.injEq] at h
  exact ⟨⟨hc, hn⟩, h.symm⟩

theorem joinedGraph_again (v : Vehicle) (a b a' b' : ℚ) :
    joinedGraph { v with graph := joinedGraph v a b } a' b' = joinedGraph v a' b' := by
  simp only [joinedGraph, Grid.mk.injEq]
  funext k l
  by_cases h : k = mJuncNum ∧ l = v.nextJID ∨ k = v.nextJID ∧ l = mJuncNum
  · rw [if_pos h, if_pos h]
  · by_cases h' : k = mJuncNum ∧ l = v.currentJID ∨ k = v.currentJID ∧ l = mJuncNum
    · simp only [if_neg h, if_pos h']
    · simp only [if_neg h, if_neg h']

theorem joinRoad_again {w : Vehicle} {a b : ℚ} (h : joinRoad v a b = .ok w) (a' b' : ℚ) :
    joinRoad w a' b' = joinRoad v a' b' := by
  obtain ⟨⟨hc, hn⟩, rfl⟩ := joinRoad_inv h
  have hagain := joinRoad_eq (v := { v with graph := joinedGraph v a b }) hc hn a' b'
  rw [joinRoad_eq hc hn, hagain, joinedGraph_again]

structure Planned (v : Vehicle) (path : List UInt16) : Prop where
  last : path.getLast? = some (.ofNat mRsujid)
  short : path.length ≤ mJuncNum + 1
  avoids : v.junAreaTag → v.currentJID ≠ mRsujid → ∀ jid ∈ path, jid.toNat ≠ v.currentJID

theorem Planned.short_length (h : Planned v path) : path.length < 2 ^ 16 := by
  have hle := h.short
  have hsmall : mJuncNum + 1 < 2 ^ 16 := by decide
  omega

theorem Planned.at {j : UInt16} (h : Planned v (j :: path)) : At (j :: path) 0 j.toNat :=
  ⟨h.short_length, ⟨j, rfl, rfl⟩, h.last⟩

theorem Planned.headerOk {j : UInt16}
    (h : Planned v (j :: path)) : HeaderOk ⟨0, .ofNat j.toNat, j :: path⟩ :=
  h.at.headerOk

section Decisions

variable [Platform]

theorem SameButGraph.intraPathRouting {v' : Vehicle} (h : SameButGraph v v')
    (dest : Ipv4Address) (jid : ℤ) : intraPathRouting v' dest jid =
      intraPathRouting v dest jid := by
  rw [h]
  rfl

theorem pathToRsu_spec (v : Vehicle) :
    Ensures (pathToRsu v) (fun r => (r.1 = [] ∨ Planned v r.1) ∧ SameButGraph v r.2)
      (fun e => e = .junction ∨ e = .walk) := by
  have hjunction : ∀ e : Fault, e = .junction → e = .junction ∨ e = .walk := fun _ he => .inl he
  unfold pathToRsu
  refine ((junction_spec v.map v.currentJID).mono (fun _ h => h) hjunction).bind fun c _ => ?_
  refine ((junction_spec v.map v.nextJID).mono (fun _ h => h) hjunction).bind fun n _ => ?_
  refine Ensures.ite (fun tag => ?_) fun noTag => ?_
  · refine (dijkstraAlgorithm_spec v.graph v.currentJID mRsujid).bind fun path hpath => ?_
    refine ⟨hpath.imp id fun h => ?_, SameButGraph.refl v⟩
    exact ⟨h.last, h.short, fun _ => h.avoids⟩
  · refine ((joinRoad_spec v _ _).mono (fun _ h => h) hjunction).bind fun joined hjoined => ?_
    refine (dijkstraAlgorithm_spec joined.graph mJuncNum mRsujid).bind fun path hpath => ?_
    refine ((joinRoad_spec joined _ _).mono (fun _ h => h) hjunction).bind fun left hleft => ?_
    refine ⟨hpath.imp id fun h => ?_, hjoined.trans hleft⟩
    exact ⟨h.last, h.short, fun tag => absurd tag noTag⟩

theorem pathToRsu_at_rsu (tag : v.junAreaTag) (here : v.currentJID = mRsujid)
    {v' : Vehicle} (h : pathToRsu v = .ok (path, v')) :
    path = [.ofNat mRsujid] := by
  obtain ⟨c, -, h⟩ := bind_ok_inv h
  obtain ⟨n, -, h⟩ := bind_ok_inv h
  rw [if_pos tag, here, dijkstraAlgorithm_self] at h
  cases h
  rfl

theorem pathToRsu_again {v' : Vehicle}
    (h : pathToRsu v = .ok (path, v')) : pathToRsu v' = .ok (path, v') := by
  have h' := h
  unfold pathToRsu at h'
  obtain ⟨c, hc, h'⟩ := bind_ok_inv h'
  obtain ⟨n, hn, h'⟩ := bind_ok_inv h'
  by_cases tag : v.junAreaTag
  · rw [if_pos tag] at h'
    obtain ⟨path', -, h'⟩ := bind_ok_inv h'
    cases h'
    exact h
  · rw [if_neg tag] at h'
    obtain ⟨joined, hjoined, h'⟩ := bind_ok_inv h'
    obtain ⟨path', hpath, h'⟩ := bind_ok_inv h'
    obtain ⟨left, hleft, h'⟩ := bind_ok_inv h'
    cases h'
    have hsame : SameButGraph v v' := ((pathToRsu_spec v).of_ok h).2
    have hagain : joinRoad v' (distance v.position c.position) (distance v.position n.position) =
        .ok joined := by
      rw [joinRoad_again hleft, joinRoad_again hjoined, hjoined]
    have hmap : v'.map = v.map := by rw [hsame]
    have hcur : v'.currentJID = v.currentJID := by rw [hsame]
    have hnext : v'.nextJID = v.nextJID := by rw [hsame]
    have htag : v'.junAreaTag = v.junAreaTag := by rw [hsame]
    have hpos : v'.position = v.position := by rw [hsame]
    simp only [pathToRsu, hmap, hcur, hnext, htag, hpos, hc, hn, tag, hagain, hpath, hleft,
      bind, Except.bind, pure, Except.pure, Bool.false_eq_true, if_false]

/-! ## Replanning a waiting packet -/

def AtRsu (v : Vehicle) : Prop := v.junAreaTag ∧ v.currentJID = mRsujid
deriving Decidable

section Replan

variable {v v' : Vehicle} {path : List UInt16}

theorem replan_nil (plan : pathToRsu v = .ok ([], v')) (dest : Ipv4Address) (d : DataPacketHeader) :
    replan v dest d = .ok ({ d with path := [] }, loopback, v') := by
  simp only [replan, refreshPath, plan]
  rfl

theorem replan_cons {j : UInt16} (plan : pathToRsu v = .ok (j :: path, v')) (away : ¬ AtRsu v)
    (dest : Ipv4Address) (d : DataPacketHeader) :
    replan v dest d = (intraPathRouting v dest j.toNat).map fun hop =>
      (⟨0, .ofNat j.toNat, j :: path⟩, hop, v') := by
  have hspec := (pathToRsu_spec v).of_ok plan
  have hplan : Planned v (j :: path) := hspec.1.resolve_left (by simp)
  have hsame : SameButGraph v v' := hspec.2
  have hkeep : passJunction v' (j :: path) 0 j.toNat = .ok (0, j.toNat) := by
    refine if_neg fun h => ?_
    rw [hsame] at h
    refine hplan.avoids h.1 (fun here => away ⟨h.1, here⟩) j (by simp) h.2.1
  have hroute := hsame.intraPathRouting dest j.toNat
  simp only [replan, refreshPath, plan, pure, Except.pure, bind, Except.bind, readPath,
    List.length_cons, ne_eq, Nat.add_one_ne_zero, not_false_eq_true, if_true, if_false,
    UInt16.toNat_zero, List.getElem?_cons_zero, hkeep, hroute]
  cases intraPathRouting v dest j.toNat <;> rfl

theorem replan_atRsu (plan : pathToRsu v = .ok (path, v')) (here : AtRsu v)
    (dest : Ipv4Address) (d : DataPacketHeader) : replan v dest d = .error .cursor := by
  have hsame : SameButGraph v v' := ((pathToRsu_spec v).of_ok plan).2
  rw [pathToRsu_at_rsu here.1 here.2 plan] at plan
  have hpass : passJunction v' [UInt16.ofNat mRsujid] 0 (UInt16.ofNat mRsujid).toNat =
      .error .cursor := by
    rw [hsame]
    exact if_pos ⟨here.1, here.2.symm, by simp⟩
  simp only [replan, refreshPath, plan, pure, Except.pure, bind, Except.bind, readPath,
    List.length_singleton, ne_eq, Nat.one_ne_zero, not_false_eq_true, if_true, if_false,
    UInt16.toNat_zero, List.getElem?_cons_zero, hpass]

end Replan

def Heads (v : Vehicle) (jid : ℕ) : Prop :=
  ∃ j path v', pathToRsu v = .ok (j :: path, v') ∧ j.toNat = jid

theorem replan_spec (v : Vehicle) (dest : Ipv4Address) (d : DataPacketHeader) :
    Ensures (replan v dest d) (fun r => HeaderOk r.1 ∧ (∃ path, pathToRsu v = .ok (path, r.2.2)) ∧
        (r.2.1 ≠ loopback → ∃ jid, Heads v jid ∧ intraPathRouting v dest jid = .ok r.2.1) ∧
        ∀ jid hop, Heads v jid → intraPathRouting v dest jid = .ok hop → r.2.1 = hop)
      (fun e => (e = .cursor → AtRsu v) ∧ e ≠ .timerRunning) := by
  cases hpath : pathToRsu v with
  | error e =>
    have he := (pathToRsu_spec v).of_error hpath
    simp only [replan, refreshPath, hpath, bind, Except.bind, ensures_error]
    cases he with
    | inl he => simp [he]
    | inr he => simp [he]
  | ok r =>
    obtain ⟨path, v'⟩ := r
    have hspec := (pathToRsu_spec v).of_ok hpath
    by_cases here : AtRsu v
    · rw [replan_atRsu hpath here]
      exact ⟨fun _ => here, by simp⟩
    · cases path with
      | nil =>
        rw [replan_nil hpath]
        refine ⟨headerOk_nil rfl, ⟨[], rfl⟩, fun h => absurd rfl h, fun jid hop hheads => ?_⟩
        obtain ⟨j, path, w, hplan, -⟩ := hheads
        rw [hpath] at hplan
        cases hplan
      | cons j path =>
        have hplan : Planned v (j :: path) := hspec.1.resolve_left (by simp)
        rw [replan_cons hpath here]
        cases hhop : intraPathRouting v dest j.toNat with
        | error e =>
          have he := (intraPathRouting_spec v dest j.toNat).of_error hhop
          simp [Except.map, he]
        | ok hop =>
          refine ⟨hplan.headerOk, ⟨_, rfl⟩, fun _ => ⟨j.toNat, ⟨j, path, v', hpath, rfl⟩, hhop⟩,
            fun jid hop' hheads hhop' => ?_⟩
          obtain ⟨j', path', w, hplan', rfl⟩ := hheads
          rw [hpath] at hplan'
          cases hplan'
          rw [hhop] at hhop'
          exact Except.ok.inj hhop'

theorem refreshPath_spec (v : Vehicle) (d : DataPacketHeader) : Ensures (refreshPath v d)
      (fun r => SameButGraph v r.2 ∧ (r.1.path = [] ∨ ∃ jid,
        readPath r.1.path r.1.nextJidIdx.toNat = .ok jid ∧ At r.1.path r.1.nextJidIdx.toNat jid))
      (fun e => e = .junction ∨ e = .walk) := by
  unfold refreshPath
  refine (pathToRsu_spec v).bind fun r hr => ?_
  obtain ⟨path, v'⟩ := r
  refine ⟨hr.2, ?_⟩
  cases path with
  | nil => exact .inl rfl
  | cons j path =>
    have hplan : Planned v (j :: path) := hr.1.resolve_left (by simp)
    exact .inr ⟨j.toNat, rfl, hplan.at⟩

theorem junctionStep_spec (v : Vehicle) (d : DataPacketHeader) (idx nextjid : ℕ) :
    Ensures (junctionStep v d idx nextjid)
      (fun r => SameButGraph v r.2.2.2 ∧ (At d.path idx nextjid →
        r.1.path = [] ∨ At r.1.path r.2.1 r.2.2.1))
      (fun e => (At d.path idx nextjid → e ≠ .cursor) ∧ e ≠ .timerRunning) := by
  unfold junctionStep
  refine Ensures.ite (fun tag => Ensures.ite (fun step => ?_) fun _ => ?_) fun _ => ?_
  · cases hnext : d.path[idx + 1]? with
    | some j =>
      simp only [readPath, hnext, pure, Except.pure, bind, Except.bind, ensures_ok]
      exact ⟨SameButGraph.refl v, fun h => .inr ⟨h.short, ⟨j, hnext, rfl⟩, h.last⟩⟩
    | none =>
      simp only [readPath, hnext, bind, Except.bind]
      refine ⟨fun h => absurd ?_ step.2.1, by simp⟩
      obtain ⟨j, hj, rfl⟩ := h.named
      have hlast : idx = d.path.length - 1 := by
        have := h.inside
        have := List.getElem?_eq_none_iff.mp hnext
        omega
      have hrsu := h.last
      rw [List.getLast?_eq_getElem?, ← hlast, hj, Option.some_inj] at hrsu
      rw [← step.1, hrsu]
      decide
  · have hfault : ∀ e : Fault, e = .junction ∨ e = .walk →
        (At d.path idx nextjid → e ≠ .cursor) ∧ e ≠ .timerRunning := by
      intro e he
      cases he with
      | inl he => simp [he]
      | inr he => simp [he]
    refine ((pathToRsu_spec v).mono (fun _ h => h) hfault).bind fun r hr => ?_
    obtain ⟨path, v'⟩ := r
    cases path with
    | nil => exact ⟨hr.2, fun _ => .inl rfl⟩
    | cons j path =>
      have hplan : Planned v (j :: path) := hr.1.resolve_left (by simp)
      exact ⟨hr.2, fun _ => .inr hplan.at⟩
  · exact ⟨SameButGraph.refl v, .inr⟩

end Decisions

end Egsr.Grp.SourceRoute
