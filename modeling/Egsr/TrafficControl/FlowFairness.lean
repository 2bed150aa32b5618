import Egsr.Lib.DeficitRoundRobin
import Egsr.TrafficControl.FqCoDelQueueDisc

/-! FQ-CoDel is deficit round robin: its lists of flows, their deficits, and how
much the flows are served. -/

namespace Egsr.TrafficControl.FlowFairness

open Lib.DeficitRoundRobin Lib.Outcome Lib.Run QueueDisc FqCoDelDisc List Function FqCoDelQueueDisc

/-! ## Runs -/

inductive Action where
  | enqueue (now : ℕ) (item : QueueDiscItem)
  | dequeue (now : ℕ)
  | drop (now : ℕ)

def step (d : FqCoDelDisc) : Action → Except Fault FqCoDelDisc
  | .enqueue now item => (doEnqueue now item d).map fun out => out.2
  | .dequeue now => (doDequeue now d).map fun out => out.2
  | .drop now => fqCoDelDrop now d

def Small (M : ℕ) : Action → Prop
  | .enqueue _ item => item.size ≤ M
  | _ => True

/-- No flow has been made, and children start without packets. -/
structure Fresh (Q : ℕ) (d : FqCoDelDisc) : Prop where
  quantum : d.own.m_quantum = Q
  indices : d.own.m_flowsIndices = []
  classes : d.own.classes = []
  newFlows : d.own.m_newFlows = []
  oldFlows : d.own.m_oldFlows = []
  factory : ∃ maxSize minBytes interval target, d.own.factory =
    freshCoDel maxSize minBytes interval target

def queue (q : FqCoDelQueueDisc) (i : ℕ) : List QueueDiscItem :=
  (q.classes[i]?).elim [] fun flow => flow.queueDisc.own.internalQueue

def returned (q : FqCoDelQueueDisc) (i : ℕ) : ℤ :=
  (q.classes[i]?).elim 0 fun flow => queueBytes flow.handedOut

def Placed (q : FqCoDelQueueDisc) (i : ℕ) : FlowStatus → Prop
  | .NEW_FLOW => q.m_newFlows.count i = 1 ∧ i ∉ q.m_oldFlows
  | .OLD_FLOW => q.m_oldFlows.count i = 1 ∧ i ∉ q.m_newFlows
  | .INACTIVE => i ∉ q.m_newFlows ∧ i ∉ q.m_oldFlows

def Listed (q : FqCoDelQueueDisc) (i : ℕ) : Prop := i ∈ q.m_newFlows ++ q.m_oldFlows

structure FlowOk (Q M : ℕ) (q : FqCoDelQueueDisc) (i : ℕ) (flow : FqCoDelFlow) : Prop where
  placed : Placed q i flow.m_status
  backlog : flow.queueDisc.own.internalQueue ≠ [] → Listed q i
  deficit : Listed q i → -(M : ℤ) < flow.m_deficit ∧ flow.m_deficit ≤ Q

def DequeueEnds (d : FqCoDelDisc) : Prop :=
  ∀ now, ∃ item d', doDequeue now d = .ok (item, d') ∧ (item = none → ∀ i, queue d'.own i = [])

def ServedAlike (Q M : ℕ) (d : FqCoDelDisc) : Prop :=
  ∀ (a b : ℕ) (as : List Action) (d' : FqCoDelDisc), a ≠ b → (∀ act ∈ as, Small M act) →
    exec step d as = .ok d' →
    Along step (fun s _ => queue s.own a ≠ [] ∧ queue s.own b ≠ []) d as → queue d'.own a ≠ [] ∧
      queue d'.own b ≠ [] →
    |(returned d'.own a - returned d.own a) - (returned d'.own b - returned d.own b)| ≤
      3 * Q + 2 * M

/-- Every flow is in order, and so are dequeues from here on. -/
structure FairlyQueued (Q M : ℕ) (d : FqCoDelDisc) : Prop where
  flows : ∀ (i : ℕ) (flow : FqCoDelFlow), d.own.classes[i]? = some flow → FlowOk Q M d.own i flow
  ends : DequeueEnds d
  alike : ServedAlike Q M d

/-! ## The invariant -/

structure FlowInv (Q M : ℕ) (new old : List ℕ) (i : ℕ) (flow : FqCoDelFlow) : Prop where
  inNew : flow.m_status = .NEW_FLOW ↔ i ∈ new
  inOld : flow.m_status = .OLD_FLOW ↔ i ∈ old
  backlog : flow.queueDisc.own.internalQueue ≠ [] → flow.m_status ≠ .INACTIVE
  deficit : flow.m_status ≠ .INACTIVE → -(M : ℤ) < flow.m_deficit ∧ flow.m_deficit ≤ Q
  small : ∀ item ∈ flow.queueDisc.own.internalQueue, item.size ≤ M
  quiet : flow.queueDisc.m_requeued = none ∧ flow.queueDisc.m_peeked = false

structure Fair (Q M : ℕ) (q : FqCoDelQueueDisc) : Prop where
  quantum : q.m_quantum = Q
  nodup : (q.m_newFlows ++ q.m_oldFlows).Nodup
  exist : ∀ i, i ∈ q.m_newFlows ++ q.m_oldFlows → i < q.classes.length
  indices : ∀ h i, q.m_flowsIndices.lookup h = some i → i < q.classes.length
  flows : ∀ (i : ℕ) (flow : FqCoDelFlow), q.classes[i]? = some flow →
    FlowInv Q M q.m_newFlows q.m_oldFlows i flow
  factory : q.factory.own.internalQueue = [] ∧ q.factory.m_requeued = none ∧
    q.factory.m_peeked = false

def scheduler (q : FqCoDelQueueDisc) : State ℕ :=
  ⟨q.deficit, returned q, q.m_newFlows, q.m_oldFlows⟩

variable {Q M : ℕ} {q q' : FqCoDelQueueDisc} {i j : ℕ} {flow : FqCoDelFlow} {new old : List ℕ}

theorem FlowInv.listed (h : FlowInv Q M new old i flow) : flow.m_status ≠ .INACTIVE ↔
    i ∈ new ++ old := by
  rw [mem_append, ← h.inNew, ← h.inOld]
  cases flow.m_status <;> simp

theorem FlowInv.of_mem {new' old' : List ℕ} (h : FlowInv Q M new old i flow)
    (hnew : i ∈ new' ↔ i ∈ new) (hold : i ∈ old' ↔ i ∈ old) : FlowInv Q M new' old' i flow :=
  { h with inNew := h.inNew.trans hnew.symm, inOld := h.inOld.trans hold.symm }

theorem getElem?_modifyFlow (f : FqCoDelFlow → FqCoDelFlow) (hi : q.classes[i]? = some flow)
    (j : ℕ) : (q.modifyFlow i f).classes[j]? = if j = i then some (f flow) else q.classes[j]? := by
  rw [modifyFlow, List.getElem?_modify]
  by_cases hj : j = i
  · subst hj
    simp [hi]
  · rw [if_neg hj]
    simp [Ne.symm hj]

theorem Fair.modify (h : Fair Q M q) (hi : q.classes[i]? = some flow)
    (f : FqCoDelFlow → FqCoDelFlow) (nodup : (new ++ old).Nodup)
    (hmem : ∀ j, j ≠ i → (j ∈ new ↔ j ∈ q.m_newFlows) ∧ (j ∈ old ↔ j ∈ q.m_oldFlows))
    (hf : FlowInv Q M new old i (f flow)) :
      Fair Q M { q.modifyFlow i f with m_newFlows := new, m_oldFlows := old } := by
  have hlen : (q.modifyFlow i f).classes.length = q.classes.length := length_modify _ _ _
  refine ⟨h.quantum, nodup, fun j hj => ?_, fun k j hj => ?_, fun j flow' hj => ?_, h.factory⟩
  · by_cases hji : j = i
    · rw [hji]
      exact hlen ▸ (List.getElem?_eq_some_iff.mp hi).1
    · refine hlen ▸ h.exist j ?_
      rw [mem_append] at hj ⊢
      rwa [(hmem j hji).1, (hmem j hji).2] at hj
  · exact hlen ▸ h.indices k j hj
  · rw [getElem?_modifyFlow f hi] at hj
    by_cases hji : j = i
    · rw [if_pos hji] at hj
      cases hj
      rwa [hji]
    · rw [if_neg hji] at hj
      exact (h.flows j flow' hj).of_mem (hmem j hji).1 (hmem j hji).2

theorem deficit_eq (hi : q.classes[i]? = some flow) : q.deficit i = flow.m_deficit := by
  rw [deficit, hi]
  rfl

theorem deficit_modifyFlow (hi : q.classes[i]? = some flow) (f : FqCoDelFlow → FqCoDelFlow) :
    (q.modifyFlow i f).deficit = update q.deficit i (f flow).m_deficit := by
  funext j
  rw [deficit, getElem?_modifyFlow f hi]
  by_cases hj : j = i
  · rw [if_pos hj, hj, update_self]
    rfl
  · rw [if_neg hj, update_of_ne hj]
    rfl

/-- Neither the packets of a flow nor what it has returned change. -/
def Rests (q q' : FqCoDelQueueDisc) : Prop := queue q' = queue q ∧ returned q' = returned q

theorem Rests.refl (q : FqCoDelQueueDisc) : Rests q q := ⟨rfl, rfl⟩

theorem Rests.trans {q'' : FqCoDelQueueDisc} (h : Rests q q') (h' : Rests q' q'') : Rests q q'' :=
  ⟨h'.1.trans h.1, h'.2.trans h.2⟩

section

variable (hi : q.classes[i]? = some flow) (f : FqCoDelFlow → FqCoDelFlow)
  (hqueue : (f flow).queueDisc = flow.queueDisc) (hout : (f flow).handedOut = flow.handedOut)
  (new old : List ℕ)

include hi hqueue hout

theorem rests_modifyFlow :
    Rests q { q.modifyFlow i f with m_newFlows := new, m_oldFlows := old } := by
  constructor <;> funext j
  · change ((q.modifyFlow i f).classes[j]?).elim _ _ = _
    rw [getElem?_modifyFlow f hi, queue]
    by_cases hj : j = i
    · rw [if_pos hj, hj, hi]
      exact congrArg (fun d => d.own.internalQueue) hqueue
    · rw [if_neg hj]
  · change ((q.modifyFlow i f).classes[j]?).elim _ _ = _
    rw [getElem?_modifyFlow f hi, returned]
    by_cases hj : j = i
    · rw [if_pos hj, hj, hi]
      exact congrArg (fun items => (queueBytes items : ℤ)) hout
    · rw [if_neg hj]

theorem scheduler_modifyFlow :
    scheduler { q.modifyFlow i f with m_newFlows := new, m_oldFlows := old } =
      ⟨update q.deficit i (f flow).m_deficit, returned q, new, old⟩ := by
  have hdeficit := deficit_modifyFlow hi f
  have hreturned := (rests_modifyFlow hi f hqueue hout new old).2
  rw [scheduler, hreturned]
  congr 1

end

theorem int32_of_bounded {n : ℤ} (hn : -(2 ^ 31) ≤ n ∧ n < 2 ^ 31) : int32 n = n := by
  rw [int32]
  split_ifs <;> omega

/-! ## Loops -/

variable {K : ℕ → Prop}

structure Passed (Q M : ℕ) (K : ℕ → Prop) (q q' : FqCoDelQueueDisc) : Prop where
  fair : Fair Q M q'
  moves : Moves Q M K (scheduler q) (scheduler q')
  rests : Rests q q'
  rounds : q'.roundsServe ≤ q.roundsServe

theorem Passed.refl (h : Fair Q M q) : Passed Q M K q q := ⟨h, .refl, .refl q, le_rfl⟩

theorem Passed.trans {q'' : FqCoDelQueueDisc} (h : Passed Q M K q q') (h' : Passed Q M K q' q'') :
    Passed Q M K q q'' :=
  ⟨h'.fair, h.moves.trans h'.moves, h.rests.trans h'.rests, h'.rounds.trans h.rounds⟩

theorem Fair.flow_of_mem (h : Fair Q M q) (hi : i ∈ q.m_newFlows ++ q.m_oldFlows) :
    ∃ flow, q.classes[i]? = some flow ∧ FlowInv Q M q.m_newFlows q.m_oldFlows i flow ∧
      -(M : ℤ) < flow.m_deficit ∧ flow.m_deficit ≤ Q := by
  have hlt := h.exist i hi
  have hget : q.classes[i]? = some q.classes[i] := List.getElem?_eq_getElem hlt
  have hflow := h.flows i _ hget
  exact ⟨_, hget, hflow, hflow.deficit (hflow.listed.mpr hi)⟩

theorem passed_modify (h : Fair Q M q) (hi : q.classes[i]? = some flow)
    (f : FqCoDelFlow → FqCoDelFlow)
    (hqueue : (f flow).queueDisc = flow.queueDisc) (hout : (f flow).handedOut = flow.handedOut)
    (nodup : (new ++ old).Nodup)
    (hmem : ∀ j, j ≠ i → (j ∈ new ↔ j ∈ q.m_newFlows) ∧ (j ∈ old ↔ j ∈ q.m_oldFlows))
    (hf : FlowInv Q M new old i (f flow))
    (move : Move Q M K (scheduler q) ⟨update q.deficit i (f flow).m_deficit, returned q, new, old⟩)
    (rounds : 2 * new.length + old.length ≤ 2 * q.m_newFlows.length + q.m_oldFlows.length) :
    Passed Q M K q { q.modifyFlow i f with m_newFlows := new, m_oldFlows := old } := by
  refine ⟨h.modify hi f nodup hmem hf, ?_, rests_modifyFlow hi f hqueue hout new old,
    Nat.succ_le_succ rounds⟩
  rw [scheduler_modifyFlow hi f hqueue hout]
  exact .single move

theorem perm_rotate (i : ℕ) (rest old : List ℕ) :
    (rest ++ (old ++ [i])).Perm (i :: rest ++ old) := by
  rw [← append_assoc]
  exact perm_append_singleton i _

section Bounds

variable (hQ : 1 ≤ Q) (hQ' : Q < 2 ^ 30) (hM : M < 2 ^ 30)

include hQ' hM in
theorem increaseDeficit_quantum (hflow : -(M : ℤ) < flow.m_deficit ∧ flow.m_deficit ≤ 0) :
    (flow.increaseDeficit Q).m_deficit = flow.m_deficit + Q := by
  have hquantum : int32 Q = Q := int32_of_bounded (by omega)
  rw [FqCoDelFlow.increaseDeficit, hquantum]
  exact int32_of_bounded (by omega)

include hQ hQ' hM

theorem refillNew_passed {rest : List ℕ} (h : Fair Q M q) (hnew : q.m_newFlows = i :: rest)
    (spent : q.deficit i ≤ 0) :
    Passed Q M K q
    { q.modifyFlow i fun flow => (flow.increaseDeficit q.m_quantum).setStatus .OLD_FLOW with
      m_oldFlows := q.m_oldFlows ++ [i], m_newFlows := rest } := by
  obtain ⟨flow, hi, hflow, hlow, hhigh⟩ := h.flow_of_mem (i := i) (by simp [hnew])
  have hd : (scheduler q).deficit i = flow.m_deficit := deficit_eq hi
  have hspent : (scheduler q).deficit i ≤ 0 := spent
  have hsum := increaseDeficit_quantum hQ' hM ⟨hlow, hd ▸ hspent⟩
  have hnodup := h.nodup
  rw [hnew] at hnodup
  have hfresh : i ∉ rest := fun hmem => (nodup_cons.mp hnodup).1 (mem_append_left _ hmem)
  have hmove := Move.passNew (Q := Q) (M := M) (K := K) (scheduler q) i rest hnew hspent
  rw [hd, ← hsum] at hmove
  rw [h.quantum]
  refine passed_modify h hi _ rfl rfl ((perm_rotate i rest _).nodup_iff.mpr hnodup) (fun j hj => by
    simp [hnew, hj]) ?_ hmove ?_
  · refine ⟨?_, ?_, fun _ => by simp [FqCoDelFlow.setStatus], fun _ => ?_, hflow.small, hflow.quiet⟩
    · simp [FqCoDelFlow.setStatus, hfresh]
    · simp [FqCoDelFlow.setStatus]
    · exact (show _ < (flow.increaseDeficit Q).m_deficit ∧ (flow.increaseDeficit Q).m_deficit ≤ _ by
        omega)
  · simp only [hnew, length_append, length_cons, length_nil]
    omega

theorem refillOld_passed {rest : List ℕ} (h : Fair Q M q) (hnew : q.m_newFlows = [])
    (hold : q.m_oldFlows = i :: rest) (spent : q.deficit i ≤ 0) :
    Passed Q M K q { q.modifyFlow i fun flow => flow.increaseDeficit q.m_quantum with
      m_oldFlows := rest ++ [i] } := by
  obtain ⟨flow, hi, hflow, hlow, hhigh⟩ := h.flow_of_mem (i := i) (by simp [hold])
  have hd : (scheduler q).deficit i = flow.m_deficit := deficit_eq hi
  have hspent : (scheduler q).deficit i ≤ 0 := spent
  have hsum := increaseDeficit_quantum hQ' hM ⟨hlow, hd ▸ hspent⟩
  have hnodup := h.nodup
  rw [hnew, hold] at hnodup
  have hmove := Move.passOld (Q := Q) (M := M) (K := K) (scheduler q) i rest hnew hold hspent
  rw [hd, ← hsum] at hmove
  rw [h.quantum]
  refine passed_modify h hi _ rfl rfl ?_ (fun j hj => by simp [hold, hj, modifyFlow]) ?_ hmove ?_
  · change (q.m_newFlows ++ (rest ++ [i])).Nodup
    rw [hnew]
    exact (perm_append_singleton i rest).nodup_iff.mpr hnodup
  · refine ⟨hflow.inNew, ?_, hflow.backlog, fun _ => ?_, hflow.small, hflow.quiet⟩
    · exact hflow.inOld.trans (by simp [hold])
    · exact (show _ < (flow.increaseDeficit Q).m_deficit ∧ (flow.increaseDeficit Q).m_deficit ≤ _ by
        omega)
  · simp [modifyFlow, hold]

theorem passNew_passed {l : List ℕ} (h : Fair Q M q) (hnew : q.m_newFlows = l) :
    Passed Q M K q (passNew l q).2 ∧
      ((passNew l q).1 = none → (passNew l q).2.m_newFlows = []) ∧
      ∀ i, (passNew l q).1 = some i → ∃ rest, (passNew l q).2.m_newFlows = i :: rest ∧
        0 < (passNew l q).2.deficit i := by
  induction l generalizing q with
  | nil =>
    have hq : { q with m_newFlows := [] } = q := by rw [← hnew]
    rw [passNew, hq]
    exact ⟨.refl h, fun _ => hnew, fun i hi => by cases hi⟩
  | cons i rest ih =>
    rw [passNew]
    split_ifs with hspent
    · have hpassed := refillNew_passed hQ hQ' hM (K := K) h hnew hspent
      obtain ⟨hrest, hnone, hsome⟩ := ih hpassed.fair rfl
      exact ⟨hpassed.trans hrest, hnone, hsome⟩
    · have hq : { q with m_newFlows := i :: rest } = q := by rw [← hnew]
      rw [hq]
      refine ⟨.refl h, fun hn => (by cases hn), fun j hj => ?_⟩
      cases hj
      exact ⟨rest, hnew, not_le.mp hspent⟩

/-- How many rounds the old flows need at most before one of them may be served. -/
def shortage (q : FqCoDelQueueDisc) : ℕ := (q.m_oldFlows.map fun i => (1 - q.deficit i).toNat).sum

omit hM in
theorem shortage_refillOld {rest : List ℕ} (h : Fair Q M q) (hnew : q.m_newFlows = [])
    (hold : q.m_oldFlows = i :: rest) (spent : q.deficit i ≤ 0) (hM : M < 2 ^ 30) :
    shortage { q.modifyFlow i fun flow => flow.increaseDeficit q.m_quantum with
      m_oldFlows := rest ++ [i] } < shortage q := by
  obtain ⟨flow, hi, hflow, hlow, hhigh⟩ := h.flow_of_mem (i := i) (by simp [hold])
  have hd := deficit_eq hi
  have hsum := increaseDeficit_quantum hQ' hM ⟨hlow, hd ▸ spent⟩
  have hnodup := h.nodup
  rw [hnew, hold] at hnodup
  have hne : ∀ j ∈ rest, j ≠ i := fun j hj heq => (nodup_cons.mp hnodup).1 (heq ▸ hj)
  have hdeficit := deficit_modifyFlow hi fun flow => flow.increaseDeficit Q
  have hrest :
    rest.map (fun j => (1 - (q.modifyFlow i fun flow => flow.increaseDeficit Q).deficit j).toNat) =
      rest.map fun j => (1 - q.deficit j).toNat := by
    refine map_congr_left fun j hj => ?_
    rw [hdeficit, update_of_ne (hne j hj)]
  have hself : (q.modifyFlow i fun flow => flow.increaseDeficit Q).deficit i = q.deficit i + Q := by
    rw [hdeficit, update_self, hsum, hd]
  rw [h.quantum, shortage, shortage, hold]
  change ((rest ++ [i]).map fun j =>
    (1 - (q.modifyFlow i fun flow => flow.increaseDeficit Q).deficit j).toNat).sum < _
  rw [map_append, sum_append, hrest, map_cons, map_nil, sum_cons, sum_nil, hself,
    map_cons, sum_cons]
  omega

theorem passOld_passed {rounds : ℕ} (h : Fair Q M q) (hnew : q.m_newFlows = [])
    (enough : shortage q < rounds) :
    ∃ out, passOld rounds q = .ok out ∧ Passed Q M K q out.2 ∧ out.2.m_newFlows = [] ∧
      (out.1 = none → out.2.m_oldFlows = []) ∧
      ∀ i, out.1 = some i → ∃ rest, out.2.m_oldFlows = i :: rest ∧ 0 < out.2.deficit i := by
  induction rounds generalizing q with
  | zero => omega
  | succ rounds ih =>
    rw [passOld]
    cases hold : q.m_oldFlows with
    | nil => exact ⟨_, rfl, .refl h, hnew, fun _ => hold, fun i hi => by cases hi⟩
    | cons i rest =>
      dsimp only
      split_ifs with hspent
      · have hpassed := refillOld_passed hQ hQ' hM (K := K) h hnew hold hspent
        have hless := shortage_refillOld hQ hQ' h hnew hold hspent hM
        obtain ⟨out, hout, hrest, hfinal⟩ := ih hpassed.fair hnew (by omega)
        exact ⟨out, hout, hpassed.trans hrest, hfinal⟩
      · exact ⟨_, rfl, .refl h, hnew, fun hn => (by cases hn), fun j hj => by
          cases hj
          exact ⟨rest, hold, not_le.mp hspent⟩⟩

theorem select_passed (h : Fair Q M q) : ∃ out, q.select = .ok out ∧ Passed Q M K q out.2 ∧
    (out.1 = none → out.2.m_newFlows ++ out.2.m_oldFlows = []) ∧
    ∀ i, out.1 = some i → 0 < out.2.deficit i ∧ ((∃ rest, out.2.m_newFlows = i :: rest) ∨
      out.2.m_newFlows = [] ∧ ∃ rest, out.2.m_oldFlows = i :: rest) := by
  obtain ⟨hpassed, hnone, hsome⟩ := passNew_passed hQ hQ' hM (K := K) h rfl
  rw [select]
  generalize passNew q.m_newFlows q = out at hpassed hnone hsome
  obtain ⟨found, q'⟩ := out
  cases found with
  | some i =>
    refine ⟨_, rfl, hpassed, fun hn => (by cases hn), fun j hj => ?_⟩
    cases hj
    obtain ⟨rest, hfront, hpos⟩ := hsome i rfl
    exact ⟨hpos, Or.inl ⟨rest, hfront⟩⟩
  | none =>
    obtain ⟨out, hout, hrest, hnew, hempty, hfront⟩ :=
      passOld_passed hQ hQ' hM (K := K) hpassed.fair (hnone rfl) (Nat.lt_succ_self _)
    refine ⟨out, hout, hpassed.trans hrest, fun hn => by rw [hnew, hempty hn]; rfl, fun j hj => ?_⟩
    obtain ⟨rest, hfirst, hpos⟩ := hfront j hj
    exact ⟨hpos, Or.inr ⟨hnew, rest, hfirst⟩⟩

end Bounds

theorem retire_passed (h : Fair Q M q) (hempty : queue q i = []) (gone : ¬K i)
    (front : (∃ rest, q.m_newFlows = i :: rest) ∨ q.m_newFlows = [] ∧
      ∃ rest, q.m_oldFlows = i :: rest) :
    Passed Q M K q (q.retire i) ∧ (q.retire i).roundsServe < q.roundsServe := by
  have hlisted : i ∈ q.m_newFlows ++ q.m_oldFlows := by
    rcases front with ⟨rest, hfront⟩ | ⟨-, rest, hfront⟩ <;> simp [hfront]
  obtain ⟨flow, hi, hflow, hlow, hhigh⟩ := h.flow_of_mem hlisted
  have hnodup := h.nodup
  have hqueue : flow.queueDisc.own.internalQueue = [] := by
    rw [queue, hi] at hempty
    exact hempty
  have hself : update q.deficit i flow.m_deficit = q.deficit := by
    rw [← deficit_eq hi, update_eq_self]
  rw [retire]
  rcases front with ⟨rest, hfront⟩ | ⟨hnew, rest, hfront⟩
  · rw [if_pos (by simp [hfront]), hfront, tail_cons]
    rw [hfront] at hnodup
    have hfresh : i ∉ rest := fun hmem => (nodup_cons.mp hnodup).1 (mem_append_left _ hmem)
    have hmove := Move.retireNew (Q := Q) (M := M) (scheduler q) i rest hfront gone
    refine ⟨passed_modify h hi (fun flow => flow.setStatus .OLD_FLOW) rfl rfl
      ((perm_rotate i rest _).nodup_iff.mpr hnodup) (fun j hj => by simp [hfront, hj]) ?_ ?_ ?_, ?_⟩
    · refine ⟨?_, ?_, fun _ => by
        simp [FqCoDelFlow.setStatus], fun _ => ⟨hlow, hhigh⟩, hflow.small, hflow.quiet⟩
      · simp [FqCoDelFlow.setStatus, hfresh]
      · simp [FqCoDelFlow.setStatus]
    · rw [show (flow.setStatus .OLD_FLOW).m_deficit = flow.m_deficit from rfl, hself]
      exact hmove
    · simp only [hfront, length_append, length_cons, length_nil]
      omega
    · simp only [roundsServe, hfront, length_append, length_cons, length_nil]
      omega
  · rw [if_neg (by simp [hnew]), hfront, tail_cons]
    rw [hnew, hfront] at hnodup
    have hfresh : i ∉ rest := (nodup_cons.mp hnodup).1
    have hmove := Move.retireOld (Q := Q) (M := M) (scheduler q) i rest hnew hfront gone
    refine ⟨passed_modify h hi (fun flow => flow.setStatus .INACTIVE) rfl rfl ?_ (fun j hj => ?_) ?_
      ?_ ?_, ?_⟩
    · change (q.m_newFlows ++ rest).Nodup
      rw [hnew]
      exact (nodup_cons.mp hnodup).2
    · simp [hfront, hj, modifyFlow]
    · refine ⟨?_, ?_, fun hback => absurd hqueue hback, fun hact =>
        absurd rfl hact, hflow.small, hflow.quiet⟩
      · simp [FqCoDelFlow.setStatus, modifyFlow, hnew]
      · simp [FqCoDelFlow.setStatus, hfresh]
    · rw [show (flow.setStatus .INACTIVE).m_deficit = flow.m_deficit from rfl, hself]
      exact hmove
    · simp [modifyFlow, hfront]
    · simp [roundsServe, modifyFlow, hfront]

/-! ## Children -/

def replace (q : FqCoDelQueueDisc) (i : ℕ) (flow : FqCoDelFlow) : FqCoDelQueueDisc :=
  { q with classes := q.classes.set i flow }

theorem replace_eq (q : FqCoDelQueueDisc) (i : ℕ) (flow : FqCoDelFlow) :
    replace q i flow =
    { q.modifyFlow i fun _ => flow with
      m_newFlows := q.m_newFlows, m_oldFlows := q.m_oldFlows } := by
  rw [replace, set_eq_modify]
  rfl

variable {flow' : FqCoDelFlow}

theorem getElem?_replace (hi : q.classes[i]? = some flow) (j : ℕ) :
    (replace q i flow').classes[j]? = if j = i then some flow' else q.classes[j]? := by
  rw [replace_eq]
  exact getElem?_modifyFlow (fun _ => flow') hi j

theorem Fair.replace (h : Fair Q M q) (hi : q.classes[i]? = some flow)
    (hstatus : flow'.m_status = flow.m_status) (hdeficit : flow'.m_deficit = flow.m_deficit)
    (backlog : flow'.queueDisc.own.internalQueue ≠ [] → flow.m_status ≠ .INACTIVE)
    (small : ∀ item ∈ flow'.queueDisc.own.internalQueue, item.size ≤ M)
    (quiet : flow'.queueDisc.m_requeued = none ∧ flow'.queueDisc.m_peeked = false) :
    Fair Q M (FlowFairness.replace q i flow') := by
  have hflow := h.flows i flow hi
  rw [replace_eq]
  refine h.modify hi (fun _ => flow') h.nodup (fun j _ => ⟨Iff.rfl, Iff.rfl⟩)
    ⟨?_, ?_, ?_, ?_, small, quiet⟩
  · rw [hstatus]
    exact hflow.inNew
  · rw [hstatus]
    exact hflow.inOld
  · rwa [hstatus]
  · rw [hstatus, hdeficit]
    exact hflow.deficit

theorem queue_replace (hi : q.classes[i]? = some flow) (j : ℕ) :
    queue (replace q i flow') j = if j = i then flow'.queueDisc.own.internalQueue
      else queue q j := by
  rw [queue, getElem?_replace hi]
  split_ifs <;> rfl

theorem returned_replace (hi : q.classes[i]? = some flow) :
    returned (replace q i flow') = update (returned q) i (queueBytes flow'.handedOut : ℤ) := by
  funext j
  rw [returned, getElem?_replace hi]
  by_cases hj : j = i
  · rw [if_pos hj, hj, update_self]
    rfl
  · rw [if_neg hj, update_of_ne hj]
    rfl

theorem deficit_replace (hi : q.classes[i]? = some flow)
    (hdeficit : flow'.m_deficit = flow.m_deficit) : (replace q i flow').deficit = q.deficit := by
  funext j
  rw [deficit, getElem?_replace hi]
  by_cases hj : j = i
  · rw [if_pos hj, hj, deficit_eq hi]
    exact hdeficit
  · rw [if_neg hj]
    rfl

theorem scheduler_replace (hi : q.classes[i]? = some flow)
    (hdeficit : flow'.m_deficit = flow.m_deficit)
    (hout : flow'.handedOut = flow.handedOut) : scheduler (replace q i flow') = scheduler q := by
  have hbytes : (queueBytes flow'.handedOut : ℤ) = returned q i := by
    rw [hout, returned, hi]
    rfl
  rw [scheduler, deficit_replace hi hdeficit, returned_replace hi, hbytes, update_eq_self]
  rfl

theorem queueBytes_append (items items' : List QueueDiscItem) :
    queueBytes (items ++ items') = queueBytes items + queueBytes items' := by
  rw [queueBytes, map_append, sum_append]
  rfl

variable {d : FqCoDelDisc}

theorem childDequeue_replace (h : Fair Q M q) (hi : q.classes[i]? = some flow) (now : ℕ)
    (hd : d.own = q) :
    ∃ item d' flow', childDequeue now i d = .ok (item, d') ∧ d'.own = replace q i flow' ∧
      flow'.m_status = flow.m_status ∧
      flow'.m_deficit = flow.m_deficit ∧ flow'.handedOut = flow.handedOut ++ item.toList ∧
      CoDelDisc.Takes flow.queueDisc.own.internalQueue item flow'.queueDisc.own.internalQueue ∧
      Fair Q M (replace q i flow') := by
  have hflow := h.flows i flow hi
  obtain ⟨htakes, hquiet⟩ := CoDelDisc.doDequeue_takes now { flow.queueDisc with fired := [] }
  have hrun : QueueDisc.dequeue now { flow.queueDisc with fired := [] } =
      .ok (CoDelDisc.doDequeue now { flow.queueDisc with fired := [] }) := by
    rw [QueueDisc.dequeue, show ({ flow.queueDisc with fired := [] } : CoDelDisc).m_requeued =
      none from hflow.quiet.1]
    rfl
  generalize CoDelDisc.doDequeue now { flow.queueDisc with fired := [] } = out at htakes hquiet hrun
  have hchild : childDequeue now i d = .ok (out.1, heard out.2.fired { d with
      own := replace q i { flow with
        queueDisc := out.2, handedOut := flow.handedOut ++ out.1.toList } }) := by
    rw [childDequeue, hd]
    dsimp only
    rw [hi]
    dsimp only
    rw [hrun]
    rfl
  refine ⟨out.1, _, { flow with queueDisc := out.2, handedOut := flow.handedOut ++ out.1.toList },
    hchild, ?_, rfl, rfl, rfl, htakes, h.replace hi rfl rfl ?_ ?_ ?_⟩
  · rw [heard_own]
  · refine fun hleft => hflow.backlog fun hnil => hleft ?_
    exact suffix_nil.mp (hnil ▸ htakes.suffix)
  · exact fun item hitem => hflow.small item (htakes.suffix.subset hitem)
  · exact ⟨hquiet.1.trans hflow.quiet.1, hquiet.2.trans hflow.quiet.2⟩

/-! ## Dequeue -/

/-- What a dequeue does: the moves of the scheduler, where a flow that still has packets is not
retired. -/
structure Served (Q M : ℕ) (q q' : FqCoDelQueueDisc) (item : Option QueueDiscItem) : Prop where
  fair : Fair Q M q'
  drained : ∀ i, queue q i = [] → queue q' i = []
  empty : item = none → ∀ i, queue q' i = []
  moves : Moves Q M (fun i => queue q' i ≠ []) (scheduler q) (scheduler q')

section Bounds

variable (hQ : 1 ≤ Q) (hQ' : Q < 2 ^ 30) (hM : M < 2 ^ 30)

include hQ hQ' hM

theorem served_some {item : QueueDiscItem} (h : Fair Q M d.own) (hi : d.own.classes[i]? = some flow)
    (hlisted : i ∈ d.own.m_newFlows ++ d.own.m_oldFlows) (hpos : 0 < d.own.deficit i)
    (hdeficit : flow'.m_deficit = flow.m_deficit)
    (hout : flow'.handedOut = flow.handedOut ++ [item])
    (htakes : CoDelDisc.Takes flow.queueDisc.own.internalQueue (some item)
      flow'.queueDisc.own.internalQueue)
    (hfair : Fair Q M (replace d.own i flow')) :
    Served Q M d.own ((replace d.own i flow').modifyFlow i fun flow =>
      flow.increaseDeficit (-item.size)) (some item) := by
  have hflow := h.flows i flow hi
  have hget : (replace d.own i flow').classes[i]? = some flow' := by
    rw [getElem?_replace hi, if_pos rfl]
  have hsize : item.size ≤ M := hflow.small item (htakes.mem item rfl)
  obtain ⟨hlow, hhigh⟩ := hflow.deficit (hflow.listed.mpr hlisted)
  rw [deficit_eq hi] at hpos
  have hpaid : (flow'.increaseDeficit (-item.size)).m_deficit = flow.m_deficit - item.size := by
    have hneg : int32 (-(item.size : ℤ)) = -item.size := int32_of_bounded (by omega)
    rw [FqCoDelFlow.increaseDeficit, hneg, hdeficit]
    exact int32_of_bounded (by omega)
  have hflow' := hfair.flows i flow' hget
  have hrests : Rests (replace d.own i flow') ((replace d.own i flow').modifyFlow i fun flow =>
    flow.increaseDeficit (-item.size)) :=
    rests_modifyFlow hget (fun flow => flow.increaseDeficit (-item.size)) rfl rfl d.own.m_newFlows
      d.own.m_oldFlows
  refine ⟨?_, fun j hj => ?_, fun hn => (by cases hn), ?_⟩
  · refine hfair.modify hget (fun flow => flow.increaseDeficit (-item.size)) h.nodup
      (fun j _ => ⟨Iff.rfl, Iff.rfl⟩) ?_
    refine ⟨hflow'.inNew, hflow'.inOld, hflow'.backlog, fun _ => ?_, hflow'.small, hflow'.quiet⟩
    rw [hpaid]
    omega
  · rw [← hj, hrests.1, queue_replace hi]
    split_ifs with hji
    · rw [hji, queue, hi] at hj
      rw [hji, queue, hi]
      exact (suffix_nil.mp (hj ▸ htakes.suffix)).trans hj.symm
    · rfl
  · have hmove := Move.serve (Q := Q) (M := M)
      (K := fun j => queue ((replace d.own i flow').modifyFlow i fun flow =>
        flow.increaseDeficit (-item.size)) j ≠ [])
      (scheduler d.own) i item.size hlisted
        (by rw [show (scheduler d.own).deficit i = _ from deficit_eq hi]; exact hpos)
      ⟨by omega, by omega⟩
    refine .single ?_
    have hbytes : (queueBytes flow'.handedOut : ℤ) = returned d.own i + item.size := by
      rw [hout, queueBytes_append, returned, hi]
      push_cast
      rfl
    have htarget : scheduler ((replace d.own i flow').modifyFlow i fun flow =>
      flow.increaseDeficit (-item.size)) =
        ⟨update d.own.deficit i (flow.m_deficit - item.size),
          update (returned d.own) i (returned d.own i + item.size), d.own.m_newFlows,
            d.own.m_oldFlows⟩ := by
      refine (scheduler_modifyFlow hget (fun flow => flow.increaseDeficit (-item.size)) rfl rfl _
        _).trans ?_
      rw [hpaid, deficit_replace hi hdeficit, returned_replace hi, hbytes]
      rfl
    rw [htarget, ← deficit_eq hi]
    exact hmove

omit hQ hQ' hM in
theorem Served.after {q'' : FqCoDelQueueDisc} {item : Option QueueDiscItem}
    (h : Served Q M q' q'' item)
    (hpassed : Passed Q M (fun _ => True) q q') : Served Q M q q'' item where
  fair := h.fair
  drained i hi := h.drained i (by rw [hpassed.rests.1, hi])
  empty := h.empty
  moves := (hpassed.moves.mono fun _ _ => trivial).trans h.moves

omit hQ hQ' hM in
theorem Served.after_none {q'' : FqCoDelQueueDisc} {item : Option QueueDiscItem}
    (hi : q.classes[i]? = some flow)
    (hdeficit : flow'.m_deficit = flow.m_deficit) (hout : flow'.handedOut = flow.handedOut)
    (hempty : flow'.queueDisc.own.internalQueue = [])
    (hretire : Passed Q M (· ≠ i) (replace q i flow') q')
    (h : Served Q M q' q'' item) : Served Q M q q'' item where
  fair := h.fair
  drained j hj := h.drained j (by
    rw [hretire.rests.1, queue_replace hi]
    split_ifs
    · exact hempty
    · exact hj)
  empty := h.empty
  moves := by
    have hgone : queue q'' i = [] :=
      h.drained i (by rw [hretire.rests.1, queue_replace hi, if_pos rfl, hempty])
    have hmoves := hretire.moves
    rw [scheduler_replace hi hdeficit hout] at hmoves
    refine (hmoves.mono fun j hj heq => hj ?_).trans h.moves
    rw [heq, hgone]

theorem serve_served (now : ℕ) {rounds : ℕ} (h : Fair Q M d.own)
    (enough : d.own.roundsServe ≤ rounds) :
    ∃ item d', serve now rounds d = .ok (item, d') ∧ Served Q M d.own d'.own item := by
  induction rounds generalizing d with
  | zero => exact absurd enough (by simp [roundsServe])
  | succ rounds ih =>
    obtain ⟨⟨found, q⟩, hselect, hpassed, hnone, hfront⟩ :=
      select_passed hQ hQ' hM (K := fun _ => True) h
    have hmoves : ∀ K, Moves Q M K (scheduler d.own) (scheduler q) :=
      fun K => hpassed.moves.mono fun _ _ => trivial
    rw [serve, hselect]
    cases found with
    | none =>
      have hall : ∀ i, queue q i = [] := by
        intro i
        rw [queue]
        cases hi : q.classes[i]? with
        | none => rfl
        | some flow =>
          have hflow := hpassed.fair.flows i flow hi
          by_contra hleft
          have hlisted := hflow.listed.mp (hflow.backlog hleft)
          rw [hnone rfl] at hlisted
          cases hlisted
      exact ⟨none, { d with own := q }, rfl, hpassed.fair, fun i _ => hall i, fun _ =>
        hall, hmoves _⟩
    | some i =>
      obtain ⟨hpos, hhead⟩ := hfront i rfl
      dsimp only at hpassed hpos hhead
      have hlisted : i ∈ q.m_newFlows ++ q.m_oldFlows := by
        rcases hhead with ⟨rest, hhead⟩ | ⟨-, rest, hhead⟩ <;> simp [hhead]
      obtain ⟨flow, hi, hflow, -⟩ := hpassed.fair.flow_of_mem hlisted
      obtain ⟨item, d₁, flow', hchild, hown, hstatus, hdeficit, hout, htakes, hfair⟩ :=
        childDequeue_replace hpassed.fair hi now (d := { d with own := q }) rfl
      cases item with
      | some item =>
        have hserved :=
          served_some hQ hQ' hM (d := { d with own := q }) hpassed.fair hi hlisted hpos hdeficit
            hout htakes hfair
        refine ⟨some item, { d₁ with
          own := d₁.own.modifyFlow i fun flow => flow.increaseDeficit (-item.size) }, ?_, ?_⟩
        · change (childDequeue now i { d with own := q } >>= _) = _
          rw [hchild]
          rfl
        · rw [hown]
          exact hserved.after hpassed
      | none =>
        have hempty := htakes.empty rfl
        have hqueue : queue (replace q i flow') i = [] := by
          rw [queue_replace hi, if_pos rfl, hempty]
        obtain ⟨hretire, hrounds⟩ :=
          retire_passed (K := (· ≠ i)) hfair hqueue (fun hne => hne rfl) hhead
        have hless : (d₁.own.retire i).roundsServe ≤ rounds := by
          have hle : (replace q i flow').roundsServe ≤ d.own.roundsServe := hpassed.rounds
          rw [hown]
          omega
        obtain ⟨item, d', hrun, hserved⟩ :=
          ih (d := { d₁ with own := d₁.own.retire i }) (by rw [hown]; exact hretire.fair) hless
        refine ⟨item, d', ?_, ?_⟩
        · change (childDequeue now i { d with own := q } >>= _) = _
          rw [hchild]
          exact hrun
        · rw [← hown] at hretire
          have hnone :=
            Served.after_none hi hdeficit (by rw [hout]; exact append_nil _) hempty
              (hown ▸ hretire) hserved
          exact hnone.after hpassed

end Bounds

/-! ## Enqueue and batch drops -/

theorem takeBatch_suffix {m_dropBatchSize threshold count len : ℕ} {items : List QueueDiscItem}
    {c : CoDelDisc} (hqueue : c.own.internalQueue = items) :
    Ensures (takeBatch m_dropBatchSize threshold count len items c)
      (fun out => out.2.own.internalQueue <:+ items ∧ CoDelDisc.Quiet c out.2)
      (· = .nullPointer) := by
  induction items generalizing count len c with
  | nil => rfl
  | cons item rest ih =>
    rw [takeBatch]
    have hquiet := CoDelDisc.quiet_popped item c rest
    have hleft := CoDelDisc.popped_internalQueue item rest c
    refine Ensures.ite (fun _ => ensures_map.mpr ?_) fun _ => ⟨?_, hquiet⟩
    · refine (ih (c := (CoDelDisc.popped item rest c).fire (.batchDropped rest)) hleft).weaken
        fun out hout => ?_
      exact ⟨hout.1.trans (suffix_cons item rest), hquiet.trans hout.2⟩
    · change (CoDelDisc.popped item rest c).own.internalQueue <:+ _
      rw [hleft]
      exact suffix_cons item rest

theorem fqCoDelDrop_fair (now : ℕ) (h : Fair Q M d.own) :
    Ensures (fqCoDelDrop now d)
    (fun d' => Fair Q M d'.own ∧ scheduler d'.own = scheduler d.own) DropFails := by
  rw [fqCoDelDrop]
  dsimp only
  cases hi : d.own.classes[d.own.fatFlow.1]? with
  | none => exact .inl rfl
  | some flow =>
    have hflow := h.flows _ flow hi
    refine ensures_map.mpr
      ((takeBatch_suffix (c := flow.queueDisc) rfl).mono (fun out hout => ?_) fun _ => .inr)
    obtain ⟨hsuffix, hquiet⟩ := hout
    rw [dropped_own]
    refine ⟨h.replace hi rfl rfl ?_ ?_ ?_, scheduler_replace hi rfl rfl⟩
    · refine fun hleft => hflow.backlog fun hnil => hleft ?_
      exact suffix_nil.mp (hnil ▸ hsuffix)
    · exact fun item hitem => hflow.small item (hsuffix.subset hitem)
    · exact ⟨hquiet.1.trans hflow.quiet.1, hquiet.2.trans hflow.quiet.2⟩

theorem childEnqueue_fair (now : ℕ) {item : QueueDiscItem} (h : Fair Q M d.own)
    (hi : d.own.classes[i]? = some flow) (hactive : flow.m_status ≠ .INACTIVE)
    (hsize : item.size ≤ M) :
    Ensures (childEnqueue now i item d)
    (fun d' => Fair Q M d'.own ∧ scheduler d'.own = scheduler d.own) fun _ => False := by
  have hflow := h.flows i flow hi
  have hsmall : ∀ x ∈ (CoDelDisc.doEnqueue (item.setTimeStamp now) { flow.queueDisc with
      fired := [], m_stats := { flow.queueDisc.m_stats with
        nTotalReceived := flow.queueDisc.m_stats.nTotalReceived + counted (amount item) }
          }).2.own.internalQueue, x.size ≤ M := by
    rw [CoDelDisc.doEnqueue]
    split_ifs
    · exact hflow.small
    · exact hflow.small
    · intro x hx
      rcases mem_append.mp hx with hx | hx
      · exact hflow.small x hx
      · rw [mem_singleton.mp hx]
        exact hsize
  have hquiet : CoDelDisc.Quiet flow.queueDisc
    (CoDelDisc.doEnqueue (item.setTimeStamp now) { flow.queueDisc with
      fired := [], m_stats := { flow.queueDisc.m_stats with
        nTotalReceived := flow.queueDisc.m_stats.nTotalReceived + counted (amount item) } }).2 := by
    rw [CoDelDisc.doEnqueue]
    split_ifs <;> exact ⟨rfl, rfl⟩
  rw [childEnqueue]
  dsimp only
  rw [hi]
  refine ensures_map.mpr ?_
  change Fair Q M (heard _ _).own ∧ scheduler (heard _ _).own = _
  rw [heard_own]
  exact ⟨h.replace hi rfl rfl (fun _ => hactive) hsmall
    ⟨hquiet.1.trans hflow.quiet.1, hquiet.2.trans hflow.quiet.2⟩, scheduler_replace hi rfl rfl⟩

theorem flowOf_fair (h : Fair Q M q) (k : ℕ) :
    Fair Q M (q.flowOf k).2 ∧ scheduler (q.flowOf k).2 = scheduler q ∧
      ∃ flow, (q.flowOf k).2.classes[(q.flowOf k).1]? = some flow := by
  rw [flowOf]
  cases hk : q.m_flowsIndices.lookup k with
  | some i => exact ⟨h, rfl, _, List.getElem?_eq_getElem (h.indices k i hk)⟩
  | none =>
    have hold : ∀ (j : ℕ) (flow : FqCoDelFlow),
      (q.classes ++ [⟨0, .INACTIVE, q.factory, [], []⟩])[j]? = some flow →
        q.classes[j]? = some flow ∨ j = q.classes.length ∧
          flow = ⟨0, .INACTIVE, q.factory, [], []⟩ := by
      intro j flow hj
      rw [List.getElem?_append] at hj
      split_ifs at hj with hlt
      · exact Or.inl hj
      · rw [List.getElem?_singleton] at hj
        split_ifs at hj with hzero
        exact Or.inr ⟨by omega, (Option.some.inj hj).symm⟩
    have hfresh : ∀ j, q.classes.length ≤ j → j ∉ q.m_newFlows ++ q.m_oldFlows := fun j hj hmem =>
      absurd (h.exist j hmem) (by omega)
    refine ⟨⟨h.quantum, h.nodup, fun j hj => ?_, fun k' j hj => ?_, fun j flow hj => ?_, h.factory⟩,
      ?_, ?_⟩
    · have hlt := h.exist j hj
      rw [length_append]
      exact Nat.lt_add_right _ hlt
    · rw [lookup_append, Option.or_eq_some_iff] at hj
      rw [length_append]
      rcases hj with hj | ⟨-, hj⟩
      · exact Nat.lt_add_right _ (h.indices k' j hj)
      · rw [lookup_cons, lookup_nil] at hj
        split at hj
        · cases hj
          exact Nat.lt_succ_self _
        · cases hj
    · rcases hold j flow hj with hj | ⟨rfl, rfl⟩
      · exact h.flows j flow hj
      · have hout := hfresh _ le_rfl
        rw [mem_append, not_or] at hout
        refine ⟨by simpa using hout.1, by
          simpa using hout.2, fun hleft => absurd h.factory.1 hleft, fun hact => absurd rfl hact,
          fun item hitem => ?_, h.factory.2⟩
        rw [h.factory.1] at hitem
        cases hitem
    · have hnew : ∀ {α : Type} (a : α) (f : FqCoDelFlow → α), f ⟨0, .INACTIVE, q.factory, [], []⟩ =
        a → ∀ j : ℕ,
          ((q.classes ++ [⟨0, .INACTIVE, q.factory, [], []⟩])[j]?).elim a f =
            (q.classes[j]?).elim a f := by
        intro α a f hf j
        rw [List.getElem?_append]
        split_ifs with hlt
        · rfl
        · rw [List.getElem?_singleton, List.getElem?_eq_none (not_lt.mp hlt)]
          split_ifs
          · exact hf
          · rfl
      rw [scheduler, scheduler]
      congr 1
      · exact funext fun j => hnew 0 FqCoDelFlow.m_deficit rfl j
      · exact funext fun j => hnew 0 (fun flow => (queueBytes flow.handedOut : ℤ)) rfl j
    · exact ⟨_, List.getElem?_concat_length ..⟩

theorem setDeficit_quantum (hQ : Q < 2 ^ 30) :
    (fun flow : FqCoDelFlow => (flow.setStatus .NEW_FLOW).setDeficit Q) =
    fun flow => { flow with m_deficit := Q, m_status := .NEW_FLOW } := by
  have hint : int32 (Q : ℤ) = Q := int32_of_bounded (by omega)
  funext flow
  rw [FqCoDelFlow.setDeficit, hint]
  rfl

theorem activate_fair (hQ' : Q < 2 ^ 30) (hQ : 1 ≤ Q) (h : Fair Q M q)
    (hi : q.classes[i]? = some flow) :
    Fair Q M (q.activate i) ∧ Moves Q M K (scheduler q) (scheduler (q.activate i)) ∧
      ∃ flow, (q.activate i).classes[i]? = some flow ∧ flow.m_status ≠ .INACTIVE := by
  have hflow := h.flows i flow hi
  rw [activate, hi]
  dsimp only
  split_ifs with hinactive
  · have hout : i ∉ q.m_newFlows ++ q.m_oldFlows := fun hmem => hflow.listed.mpr hmem hinactive
    have hfresh := hout
    rw [mem_append, not_or] at hfresh
    have hperm :
        (q.m_newFlows ++ [i] ++ q.m_oldFlows).Perm (i :: (q.m_newFlows ++ q.m_oldFlows)) := by
      rw [append_assoc]
      exact perm_middle
    rw [h.quantum, setDeficit_quantum hQ']
    refine ⟨h.modify hi (fun flow => { flow with m_deficit := Q, m_status := .NEW_FLOW })
      (hperm.nodup_iff.mpr (nodup_cons.mpr ⟨hout, h.nodup⟩)) (fun j hj => ?_) ?_, .single ?_,
      { flow with m_deficit := Q, m_status := .NEW_FLOW }, ?_, ?_⟩
    · simp [hj, modifyFlow]
    · refine ⟨?_, ?_, fun _ => ?_, fun _ => ?_, hflow.small, hflow.quiet⟩
      · simp
      · simpa [modifyFlow] using hfresh.2
      · simp
      · exact ⟨show -(M : ℤ) < Q by omega, le_rfl⟩
    · have hmove := Move.activate (Q := Q) (M := M) (K := K) (scheduler q) i hout
      have htarget :=
        scheduler_modifyFlow hi (fun flow => { flow with m_deficit := Q, m_status := .NEW_FLOW })
          rfl rfl
        (q.m_newFlows ++ [i]) q.m_oldFlows
      exact htarget ▸ hmove
    · change (q.modifyFlow i fun flow =>
        { flow with m_deficit := Q, m_status := .NEW_FLOW }).classes[i]? = _
      rw [getElem?_modifyFlow _ hi, if_pos rfl]
    · simp
  · exact ⟨h, .refl, flow, hi, hinactive⟩

theorem doEnqueue_fair (hQ' : Q < 2 ^ 30) (hQ : 1 ≤ Q) (now : ℕ) {item : QueueDiscItem}
    (h : Fair Q M d.own) (hsize : item.size ≤ M) :
    Ensures (doEnqueue now item d)
    (fun out => Fair Q M out.2.own ∧ Moves Q M K (scheduler d.own) (scheduler out.2.own))
      DropFails := by
  rw [doEnqueue]
  cases d.own.flowHash item with
  | none => exact ⟨h, .refl⟩
  | some k =>
    obtain ⟨hflow, hsame, flow, hi⟩ := flowOf_fair h k
    dsimp only
    generalize d.own.flowOf k = out at hflow hsame hi ⊢
    obtain ⟨i, q⟩ := out
    obtain ⟨hactive, hmoves, flow', hi', hstatus⟩ := activate_fair (K := K) hQ' hQ hflow hi
    have hchild :=
      childEnqueue_fair now (d := { d with own := q.activate i }) hactive hi' hstatus hsize
    refine (hchild.mono (fun _ h => h) fun _ h => h.elim).bind fun d₁ hd₁ => ?_
    have hdrop : Ensures (if d₁.m_maxSize.exceededBy d₁.m_size then fqCoDelDrop now d₁ else .ok d₁)
        (fun d' => Fair Q M d'.own ∧ scheduler d'.own = scheduler d₁.own) DropFails :=
      Ensures.ite (fun _ => fqCoDelDrop_fair now hd₁.1) fun _ => ⟨hd₁.1, rfl⟩
    refine hdrop.bind fun d₂ hd₂ => ?_
    have hmoves' : Moves Q M K (scheduler d.own) (scheduler d₂.own) := by
      rw [hd₂.2, hd₁.2, ← hsame]
      exact hmoves
    exact ensures_ok.mpr ⟨hd₂.1, hmoves'⟩

/-! ## Runs -/

section Bounds

variable (hQ : 1 ≤ Q) (hQ' : Q < 2 ^ 30) (hM : M < 2 ^ 30)

include hQ hQ' hM

theorem step_fair {a : Action} (h : Fair Q M d.own) (small : Small M a) :
    Ensures (step d a) (fun d' => Fair Q M d'.own ∧
      Moves Q M (fun i => queue d'.own i ≠ []) (scheduler d.own) (scheduler d'.own)) DropFails := by
  cases a with
  | enqueue now item =>
    refine ensures_map.mpr ?_
    have hall := doEnqueue_fair (K := fun _ => True) hQ' hQ now h small
    exact hall.weaken fun out hout => ⟨hout.1, hout.2.mono fun _ _ => trivial⟩
  | dequeue now =>
    obtain ⟨item, d', hrun, hserved⟩ := serve_served hQ hQ' hM now h le_rfl
    refine ensures_map.mpr ?_
    rw [doDequeue, hrun]
    exact ⟨hserved.fair, hserved.moves⟩
  | drop now =>
    refine (fqCoDelDrop_fair now h).weaken fun d' hd' => ⟨hd'.1, ?_⟩
    rw [hd'.2]

theorem run_moves {d' : FqCoDelDisc} {a b : ℕ} {as : List Action} (h : Fair Q M d.own)
    (small : ∀ a ∈ as, Small M a) (run : exec step d as = .ok d')
    (busy : Along step (fun s _ => queue s.own a ≠ [] ∧ queue s.own b ≠ []) d as)
    (last : queue d'.own a ≠ [] ∧ queue d'.own b ≠ []) :
    Fair Q M d'.own ∧ Moves Q M (fun i => i = a ∨ i = b) (scheduler d.own) (scheduler d'.own) := by
  induction as generalizing d with
  | nil =>
    cases run
    exact ⟨h, .refl⟩
  | cons act as ih =>
    obtain ⟨d₁, hstep, hrest⟩ := exec_cons_inv run
    have hact := small act mem_cons_self
    obtain ⟨hfair, hmoves⟩ := (step_fair hQ hQ' hM h hact).of_ok hstep
    have hbusy := busy.2 d₁ hstep
    have hnext : queue d₁.own a ≠ [] ∧ queue d₁.own b ≠ [] := by
      cases as with
      | nil => exact Except.ok.inj hrest ▸ last
      | cons => exact hbusy.1
    obtain ⟨hfair', hmoves'⟩ :=
      ih hfair (fun act hmem => small act (mem_cons_of_mem _ hmem)) hrest hbusy
    refine ⟨hfair', (hmoves.mono ?_).trans hmoves'⟩
    rintro i (rfl | rfl)
    · exact hnext.1
    · exact hnext.2

end Bounds

theorem Fresh.fair (h : Fresh Q d) : Fair Q M d.own := by
  obtain ⟨maxSize, minBytes, interval, target, hfactory⟩ := h.factory
  refine ⟨h.quantum, ?_, ?_, ?_, ?_, ?_⟩
  · simp [h.newFlows, h.oldFlows]
  · simp [h.newFlows, h.oldFlows]
  · simp [h.indices]
  · simp [h.classes]
  · rw [hfactory]
    exact ⟨rfl, rfl, rfl⟩

theorem Fair.flowOk (h : Fair Q M q) (hi : q.classes[i]? = some flow) : FlowOk Q M q i flow := by
  have hflow := h.flows i flow hi
  refine ⟨?_, fun hleft => hflow.listed.mp (hflow.backlog hleft), fun hlisted =>
    hflow.deficit (hflow.listed.mpr hlisted)⟩
  have hnew := hflow.inNew
  have hold := hflow.inOld
  have hnodup := nodup_append.mp h.nodup
  cases hstatus : flow.m_status with
  | NEW_FLOW =>
    rw [hstatus] at hnew hold
    exact ⟨count_eq_one_of_mem hnodup.1 (hnew.mp rfl), fun hmem => nomatch hold.mpr hmem⟩
  | OLD_FLOW =>
    rw [hstatus] at hnew hold
    exact ⟨count_eq_one_of_mem hnodup.2.1 (hold.mp rfl), fun hmem => nomatch hnew.mpr hmem⟩
  | INACTIVE =>
    rw [hstatus] at hnew hold
    exact ⟨fun hmem => (nomatch hnew.mpr hmem), fun hmem => nomatch hold.mpr hmem⟩

theorem Fair.listed_of_queue (h : Fair Q M q) (hleft : queue q i ≠ []) : i ∈
    q.m_newFlows ++ q.m_oldFlows := by
  cases hi : q.classes[i]? with
  | none =>
    rw [queue, hi] at hleft
    exact absurd rfl hleft
  | some flow =>
    rw [queue, hi] at hleft
    exact (h.flowOk hi).backlog hleft

theorem Fair.bounded (h : Fair Q M q) : Bounded (Q : ℤ) M (scheduler q) := by
  intro i hi
  obtain ⟨flow, hget, -, hdeficit⟩ := h.flow_of_mem hi
  rw [show (scheduler q).deficit i = flow.m_deficit from deficit_eq hget]
  exact hdeficit

/-- The lists agree with the status of the flows, deficits are in bounds, a dequeue ends and gives
no packet only when there is none, and flows that always have packets are served about as much. A
run fails only where a batch is dropped: there is no flow, or the fattest one runs out of
packets. -/
theorem fq_codel_fairness (Q M : ℕ) (hQ : 1 ≤ Q) (hQ' : Q < 2 ^ 30) (hM : M < 2 ^ 30)
    (d₀ : FqCoDelDisc) (fresh : Fresh Q d₀) (as : List Action) (small : ∀ a ∈ as, Small M a) :
    Ensures (exec step d₀ as) (FairlyQueued Q M) DropFails := by
  have hkeep : ∀ d act, Fair Q M d.own → Small M act →
    Ensures (step d act) (fun d' => Fair Q M d'.own) DropFails :=
    fun d act h hact => (step_fair hQ hQ' hM h hact).weaken fun d' hd' => hd'.1
  have hguard : Along step (fun _ act => Small M act) d₀ as := along_of_mem small
  have hreach := ensures_exec hkeep fresh.fair hguard
  refine hreach.weaken fun d hfair => ⟨fun i flow hi => hfair.flowOk hi, fun now => ?_, ?_⟩
  · obtain ⟨item, d', hrun, hserved⟩ := serve_served hQ hQ' hM now hfair le_rfl
    exact ⟨item, d', hrun, hserved.empty⟩
  · intro a b bs d' hab hsmall hrun hbusy hlast
    have hfirst : queue d.own a ≠ [] ∧ queue d.own b ≠ [] := by
      cases bs with
      | nil => exact Except.ok.inj hrun ▸ hlast
      | cons => exact hbusy.1
    obtain ⟨-, hmoves⟩ := run_moves hQ hQ' hM hfair hsmall hrun hbusy hlast
    have hpos : (0 : ℤ) < Q := by omega
    have hsize : (0 : ℤ) ≤ M := by omega
    have hbound := hmoves.fair hpos hsize hfair.nodup hfair.bounded (hfair.listed_of_queue hfirst.1)
      (hfair.listed_of_queue hfirst.2) hab (Or.inl rfl) (Or.inr rfl)
    exact hbound

def someDisc : FqCoDelDisc :=
  ⟨0, ⟨0, 0, 0, 0, 0, 0, 0, 0⟩, ⟨.PACKETS, 10⟩, 64, none, false, none, false, [],
    ⟨300, 2, 64, [], fun item => item.packet, freshCoDel ⟨.PACKETS, 10⟩ 1500 100000000 5000000, [],
      [], [], []⟩⟩

def twoFlows : List Action := [.enqueue 0 ⟨0, 500, 0, 0, false⟩, .enqueue 0 ⟨1, 100, 0, 0, false⟩,
  .dequeue 1, .drop 2, .enqueue 2 ⟨2, 500, 0, 0, false⟩, .dequeue 3]

/-- Two flows with packets of different sizes. -/
theorem fq_codel_fairness_two_flows :
    Ensures (exec step someDisc twoFlows) (FairlyQueued 300 500) DropFails ∧
      (exec step someDisc twoFlows).isOk = true := by
  refine ⟨fq_codel_fairness 300 500 ?_ ?_ ?_ someDisc ?_ twoFlows ?_, ?_⟩
  · decide
  · decide
  · decide
  · exact ⟨rfl, rfl, rfl, rfl, rfl, _, _, _, _, rfl⟩
  · simp [Small, twoFlows]
  · decide +kernel

end Egsr.TrafficControl.FlowFairness
