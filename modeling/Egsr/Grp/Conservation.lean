import Egsr.Grp.DataPlane

/-! Conservation of data packets. What `RouteInput` takes over is passed on,
reported as dropped, waiting or queued for sending, each packet as often as it
came; and a queued packet has an event pending that sends one. -/

namespace Egsr.Grp.Conservation

open Grp.Road Grp.State Grp.Forwarding Grp.SourceRoute Grp.DataPlane List
open Grp.HeaderRoundTrip Lib.Outcome Lib.Run

/-- A packet is told from others by its identifier; its bytes change on the way. -/
abbrev Item := ℕ × Ipv4Header

def items (calls : List (Packet × Ipv4Header)) : Multiset Item :=
  calls.map fun call => (call.1.uid, call.2)

def waitingItems (queue : List PacketQueueEntry) : Multiset Item :=
  queue.map fun q => (q.packet.uid, q.header)

def queuedItems (queue : List SendingQueue) : Multiset Item :=
  queue.map fun s => (s.packet.uid, s.header)

def sentItems (calls : List Sent) : Multiset Item :=
  calls.map fun s => (s.packet.uid, s.header)

variable (n : Node)

/-- Everything a node has passed on, dropped or still holds. -/
def load : Multiset Item :=
  sentItems n.ucbCalls + items n.dropPacketTrace + waitingItems n.pwaitqueue +
    queuedItems n.squeue

section Lists

variable (calls : List (Packet × Ipv4Header)) (queue : List PacketQueueEntry)

@[simp] theorem items_append (call : Packet × Ipv4Header) :
    items (calls ++ [call]) = items calls + {(call.1.uid, call.2)} := by
  simp [items, ← Multiset.coe_add]

@[simp] theorem waitingItems_nil : waitingItems [] = 0 := rfl

@[simp] theorem waitingItems_append (q : PacketQueueEntry) :
    waitingItems (queue ++ [q]) = waitingItems queue + {(q.packet.uid, q.header)} := by
  simp [waitingItems, ← Multiset.coe_add]

theorem waitingItems_cons (q : PacketQueueEntry) :
    waitingItems (q :: queue) = waitingItems queue + {(q.packet.uid, q.header)} := by
  simp [waitingItems, ← Multiset.cons_coe, ← Multiset.singleton_add, add_comm]

@[simp] theorem queuedItems_append (queue : List SendingQueue) (s : SendingQueue) :
    queuedItems (queue ++ [s]) = queuedItems queue + {(s.packet.uid, s.header)} := by
  simp [queuedItems, ← Multiset.coe_add]

@[simp] theorem sentItems_append (calls : List Sent) (s : Sent) :
    sentItems (calls ++ [s]) = sentItems calls + {(s.packet.uid, s.header)} := by
  simp [sentItems, ← Multiset.coe_add]

end Lists

/-! ## One step -/

structure Bookkeeping : Prop where
  balanced : items n.accepted + items n.outlived = load n
  reported : items n.outlived ≤ items n.dropPacketTrace
  idle : n.pqueue = []
  pending : n.squeue ≠ [] → n.sendEvents ≠ []

def outgoing : Multiset Item := queuedItems n.squeue + sentItems n.ucbCalls

theorem outgoing_sendFromSQueue : outgoing (sendFromSQueue n) = outgoing n := by
  cases eq_nil_or_concat' n.squeue with
  | inl h => rw [sendFromSQueue_nil h]
  | inr h =>
    obtain ⟨queue, s, hs⟩ := h
    simp only [sendFromSQueue_concat hs, outgoing, hs, queuedItems_append, sentItems_append,
      sentFrom]
    abel

theorem bookkeeping_sendFromSQueue {n : Node}
    (balanced : items n.accepted + items n.outlived = load n)
    (reported : items n.outlived ≤ items n.dropPacketTrace) (idle : n.pqueue = []) :
    Bookkeeping (sendFromSQueue n) := by
  cases eq_nil_or_concat' n.squeue with
  | inl h =>
    rw [sendFromSQueue_nil h]
    exact ⟨balanced, reported, idle, fun hne => absurd h hne⟩
  | inr h =>
    obtain ⟨queue, s, hs⟩ := h
    rw [sendFromSQueue_concat hs]
    refine ⟨?_, reported, idle, fun _ => by simp⟩
    rw [balanced]
    simp only [load, hs, queuedItems_append, sentItems_append, sentFrom]
    abel

structure Started : Prop where
  pqueue : n.pqueue = []
  pwaitqueue : n.pwaitqueue = []
  squeue : n.squeue = []
  ucbCalls : n.ucbCalls = []
  dropPacketTrace : n.dropPacketTrace = []
  accepted : n.accepted = []
  outlived : n.outlived = []

theorem Started.bookkeeping {n : Node} (h : Started n) : Bookkeeping n := by
  refine ⟨?_, ?_, h.pqueue, fun hne => absurd h.squeue hne⟩
  · simp only [load, h.accepted, h.outlived, h.ucbCalls, h.dropPacketTrace, h.pwaitqueue, h.squeue]
    rfl
  · rw [h.outlived, h.dropPacketTrace]

section Steps

variable [Platform]

theorem routeInput_bookkeeping {n : Node} (books : Bookkeeping n) (p : Packet)
    (header : Ipv4Header) :
    Ensures (routeInput n p header)
      (fun n' => Bookkeeping n' ∧ outgoing n ≤ outgoing n') (fun _ => True) := by
  have hbalanced := books.balanced
  unfold load at hbalanced
  unfold routeInput
  refine Ensures.ite (fun _ => ?_) fun _ => Ensures.ite (fun _ => ?_) fun _ => ?_
  · exact ⟨⟨books.balanced, books.reported, books.idle, books.pending⟩, le_refl _⟩
  · refine ⟨⟨?_, ?_, books.idle, books.pending⟩, le_refl _⟩
    · simp only [load, items_append, ← add_assoc, hbalanced]
      abel
    · simpa only [items_append] using add_le_add_left books.reported _
  · refine (forwardPacket_spec _ p header).mono (fun n' h => ?_) fun _ _ => trivial
    have htotal : items (n.accepted ++ [(p, header)]) + items n.outlived =
        items n.accepted + items n.outlived + {(p.uid, header)} := by
      rw [items_append]
      abel
    obtain ⟨d, payload, v, h, -, -, -, rfl | ⟨source, hop, -, rfl⟩⟩ := h
    · refine ⟨⟨?_, books.reported, books.idle, books.pending⟩, le_refl _⟩
      simp only [load, storedNode, waitingItems_append, htotal, hbalanced]
      abel
    · refine ⟨⟨?_, books.reported, books.idle, books.pending⟩, ?_⟩
      · simp only [load, sentNode, sentItems_append, htotal, hbalanced]
        abel
      · simp only [outgoing, sentNode, sentItems_append, ← add_assoc]
        exact le_self_add

/-- A round of `CheckPacketQueue` finds a place for the packet it took. -/
structure Placed (q : PacketQueueEntry) (n' : Node) : Prop where
  load : load n' = load n + {(q.packet.uid, q.header)}
  accepted : n'.accepted = n.accepted
  outlived : n'.outlived = n.outlived
  dropped : items n.dropPacketTrace ≤ items n'.dropPacketTrace
  outgoing : outgoing n ≤ outgoing n'

theorem Checked.placed {n n' : Node} {q : PacketQueueEntry} (h : Checked n q n') :
    Placed n q n' := by
  cases h with
  | inl h =>
    rw [h.2]
    refine ⟨?_, rfl, rfl, ?_, le_refl _⟩
    · simp only [Conservation.load, droppedNode, items_append]
      abel
    · simp only [droppedNode, items_append]
      exact le_self_add
  | inr h =>
    obtain ⟨-, d, payload, v, h, path, -, -, -, ⟨-, rfl⟩ | ⟨hop, -, -, rfl⟩⟩ := h
    · refine ⟨?_, rfl, rfl, le_refl _, le_refl _⟩
      simp only [Conservation.load, keptNode, waitingItems_append]
      abel
    · refine ⟨?_, rfl, rfl, le_refl _, ?_⟩
      · simp only [Conservation.load, queuedNode, queuedItems_append]
        abel
      · simp only [Conservation.outgoing, queuedNode, queuedItems_append]
        rw [add_right_comm]
        exact le_self_add

theorem checkPacketQueue_bookkeeping {n : Node} (books : Bookkeeping n) :
    Ensures (checkPacketQueue n)
      (fun n' => Bookkeeping n' ∧ outgoing n ≤ outgoing n') (fun _ => True) := by
  let start : Node := { n with pqueue := n.pwaitqueue, pwaitqueue := [] }
  let Inv : List PacketQueueEntry → Node → Prop := fun done m =>
    load m = load start + waitingItems done ∧ m.accepted = n.accepted ∧
      m.outlived = n.outlived ∧ items n.dropPacketTrace ≤ items m.dropPacketTrace ∧
      outgoing n ≤ outgoing m
  have hloop : Ensures (checkLoop n.pwaitqueue.length start)
      (fun m => m.pqueue = [] ∧ Inv n.pwaitqueue m) (fun _ => True) := by
    refine checkLoop_rule (fun left q done m _ _ hm => ?_) rfl ?_
    · obtain ⟨hload, hacc, hout, hdrop, hgo⟩ := hm
      refine (checkEntry_spec { m with pqueue := left } q).mono (fun m' h => ?_) fun _ _ => trivial
      have hplaced := Checked.placed h
      refine ⟨?_, hplaced.accepted.trans hacc, hplaced.outlived.trans hout,
        hdrop.trans hplaced.dropped, hgo.trans hplaced.outgoing⟩
      rw [hplaced.load, waitingItems_cons, ← add_assoc, ← hload]
      rfl
    · exact ⟨by simp, rfl, rfl, le_refl _, le_refl _⟩
  rw [checkPacketQueue_eq, ensures_map]
  refine hloop.mono (fun m hm => ?_) fun _ _ => trivial
  obtain ⟨hidle, hload, hacc, hout, hdrop, hgo⟩ := hm
  have hbalanced : items m.accepted + items m.outlived = load m := by
    rw [hload, hacc, hout, books.balanced]
    simp only [load, start, waitingItems_nil]
    abel
  have hreported : items m.outlived ≤ items m.dropPacketTrace :=
    hout ▸ books.reported.trans hdrop
  cases sendFirst_eq m with
  | inl h =>
    rw [h.1]
    exact ⟨⟨hbalanced, hreported, hidle, fun hne => absurd h.2 hne⟩, hgo⟩
  | inr h =>
    rw [h, outgoing_sendFromSQueue]
    exact ⟨bookkeeping_sendFromSQueue hbalanced hreported hidle, hgo⟩

theorem nodeStep_bookkeeping {n : Node} (books : Bookkeeping n) (a : NodeAction) :
    Ensures (nodeStep n a) (fun n' => Bookkeeping n' ∧ outgoing n ≤ outgoing n')
      (fun _ => True) := by
  cases a with
  | observe v => exact ⟨⟨books.balanced, books.reported, books.idle, books.pending⟩, le_refl _⟩
  | originate destination p =>
    refine (originate_spec n destination p).mono (fun n' h => ?_) fun _ _ => trivial
    obtain ⟨sent, v, -, rfl⟩ := h
    exact ⟨⟨books.balanced, books.reported, books.idle, books.pending⟩, le_refl _⟩
  | routeInput p header => exact routeInput_bookkeeping books p header
  | checkPacketQueue => exact checkPacketQueue_bookkeeping books
  | sendFromSQueue k =>
    refine Ensures.ite (fun _ => ?_) fun _ => ⟨books, le_refl _⟩
    rw [ensures_pure, outgoing_sendFromSQueue]
    exact ⟨bookkeeping_sendFromSQueue books.balanced books.reported books.idle, le_refl _⟩

theorem sendFromSQueue_drains (queue : List SendingQueue) :
    ∀ (n : Node) (ks : List ℕ), n.squeue = queue → ks.length = queue.length →
      (∀ k ∈ ks, k < n.sendEvents.length) →
      ∃ m, exec nodeStep n (ks.map .sendFromSQueue) = .ok m ∧ m.squeue = [] ∧
        m.ucbCalls = n.ucbCalls ++ queue.reverse.map sentFrom := by
  induction queue using List.reverseRecOn with
  | nil =>
    intro n ks hqueue hlen _
    obtain rfl := length_eq_zero_iff.mp hlen
    exact ⟨n, rfl, hqueue, by simp⟩
  | append_singleton queue s ih =>
    intro n ks hqueue hlen hpending
    cases ks with
    | nil => simp at hlen
    | cons k ks =>
      have hk : k < n.sendEvents.length := hpending k (by simp)
      let fired : Node := { n with sendEvents := n.sendEvents.eraseIdx k }
      have hsend := sendFromSQueue_concat (n := fired) hqueue
      have hstep : nodeStep n (.sendFromSQueue k) = .ok (sendFromSQueue fired) := if_pos hk
      have hleft : ∀ l ∈ ks, l < (sendFromSQueue fired).sendEvents.length := by
        intro l hl
        have hlt := hpending l (by simp [hl])
        rw [hsend, length_append, length_singleton, length_eraseIdx_of_lt hk]
        omega
      obtain ⟨m, hrun, hempty, hcalls⟩ := ih (sendFromSQueue fired) ks (by rw [hsend])
        (by simpa using hlen) hleft
      refine ⟨m, by rw [map_cons, exec_cons_ok hstep, hrun], hempty, ?_⟩
      rw [hcalls, hsend]
      simp [fired]

theorem exec_bookkeeping {n n' : Node} {as : List NodeAction} (books : Bookkeeping n)
    (run : exec nodeStep n as = .ok n') : Bookkeeping n' ∧ outgoing n ≤ outgoing n' := by
  have keep : ∀ m a m', Bookkeeping m ∧ outgoing n ≤ outgoing m → True →
      nodeStep m a = .ok m' → Bookkeeping m' ∧ outgoing n ≤ outgoing m' := by
    intro m a m' hm _ hstep
    have hkept := (nodeStep_bookkeeping hm.1 a).of_ok hstep
    exact ⟨hkept.1, hm.2.trans hkept.2⟩
  exact exec_invariant keep ⟨books, le_refl _⟩ (along_of_forall (fun _ _ => trivial) n as) run

/-- No packet is lost, duplicated or stranded. -/
theorem packets_conserved {n n' : Node} (start : Started n) (as : List NodeAction)
    (run : exec nodeStep n as = .ok n') :
    items n'.accepted + items n'.outlived =
        sentItems n'.ucbCalls + items n'.dropPacketTrace + waitingItems n'.pwaitqueue +
          queuedItems n'.squeue ∧
      items n'.outlived ≤ items n'.dropPacketTrace ∧ n'.pqueue = [] ∧
      (n'.squeue ≠ [] → n'.sendEvents ≠ []) ∧
      (∀ ks : List ℕ, ks.length = n'.squeue.length → (∀ k ∈ ks, k < n'.sendEvents.length) →
        ∃ m, exec nodeStep n' (ks.map .sendFromSQueue) = .ok m ∧ m.squeue = [] ∧
          m.ucbCalls = n'.ucbCalls ++ n'.squeue.reverse.map sentFrom) ∧
      ∀ bs m, exec nodeStep n' bs = .ok m → m.sendEvents = [] →
        queuedItems n'.squeue + sentItems n'.ucbCalls ≤ sentItems m.ucbCalls := by
  have books := (exec_bookkeeping start.bookkeeping run).1
  refine ⟨books.balanced, books.reported, books.idle, books.pending,
    fun ks => sendFromSQueue_drains n'.squeue n' ks rfl, fun bs m hrun hquiet => ?_⟩
  obtain ⟨hbooks, hgo⟩ := exec_bookkeeping books hrun
  have hempty : m.squeue = [] := by
    by_contra hne
    exact hbooks.pending hne hquiet
  simpa [outgoing, hempty, queuedItems] using hgo

end Steps

/-- Two packets are stored, and one of them is sent when the queue is checked. -/
def carrying : List NodeAction :=
  [.routeInput carried carriedHeader, .routeInput carried carriedHeader, .observe approached,
    .checkPacketQueue]

theorem packets_conserved_carrying : ∃ n',
    exec (@nodeStep integralPlatform) (emptyNode approaching) carrying = .ok n' ∧
      n'.squeue.length = 1 ∧ n'.ucbCalls.length = 1 ∧
      items n'.accepted + items n'.outlived =
        sentItems n'.ucbCalls + items n'.dropPacketTrace + waitingItems n'.pwaitqueue +
          queuedItems n'.squeue := by
  have hrun : Ensures (exec (@nodeStep integralPlatform) (emptyNode approaching) carrying)
      (fun n' => n'.squeue.length = 1 ∧ n'.ucbCalls.length = 1) (fun _ => False) := by
    decide +kernel
  obtain ⟨n', run, hqueue, hcalls⟩ := hrun.exists_ok
  have start : Started (emptyNode approaching) := ⟨rfl, rfl, rfl, rfl, rfl, rfl, rfl⟩
  exact ⟨n', run, hqueue, hcalls, (@packets_conserved integralPlatform _ n' start carrying run).1⟩

end Egsr.Grp.Conservation
