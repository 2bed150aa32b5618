import Egsr.Internet.TxStream

/-! One direction of a TCP connection: the send buffer of one end, the receive buffer of the
other, and between them all segments and acknowledgements that were ever sent, any of which
arrives at any time, again, or never. -/

namespace Egsr.Internet.StreamDelivery

open Network Network.SequenceNumber32 Lib.Blocks Lib.Run Lib.Outcome List

/-- No code reads the place, which is that of the first byte in the stream. -/
structure Segment where
  seq : SequenceNumber32
  packet : Packet
  place : ℕ

structure Acknowledgement where
  ackNumber : SequenceNumber32
  place : ℕ

structure Connection where
  tx : TxBuffer.Session
  /-- All bytes that `Add` took from the application. -/
  accepted : List UInt8
  segments : List Segment
  rx : RxBuffer.Session
  acks : List Acknowledgement

inductive Fault where
  | tx (fault : TxBuffer.Fault)
  | rx (fault : RxBuffer.Fault)

/-- The calls of the buffers by `TcpSocketBase`: `Send`, `SendDataPacket` and the bookkeeping of
retransmissions, `ReceivedData`, `Recv`, `SendEmptyPacket` and `ReceivedAck`. -/
inductive Act where
  | call (op : TxBuffer.Op)
  | receivedData (i : ℕ)
  | recv (maxSize : UInt32)
  | sendEmptyPacket
  | receivedAck (now : ℤ) (i : ℕ)

def Connection.discarded (c : Connection) : ℕ := c.accepted.length - c.tx.queue.bytes.length

def Connection.sendTo (c : Connection) (tx : TxBuffer.Session) : Connection :=
  { c with
    tx := tx
    accepted := c.accepted ++ tx.queue.bytes.drop c.tx.queue.bytes.length
    segments := c.segments ++
      tx.answer.toList.map fun a => ⟨a.seq, a.packet, c.discarded + c.tx.buffer.placeOf a.seq⟩ }

variable (n : UInt32)

def receive (rx : RxBuffer.Session) (seg : Segment) : Except RxBuffer.Fault RxBuffer.Session :=
  (RxBuffer.add rx.buffer seg.packet seg.seq).map fun r =>
    ⟨r.2, rx.extracted, (seg.place,
      RxBuffer.inWindow n rx.buffer rx.extracted.length (seg.place + seg.packet.length)) ::
        rx.received⟩

def extract (rx : RxBuffer.Session) (maxSize : UInt32) : Except RxBuffer.Fault RxBuffer.Session :=
  (RxBuffer.extract rx.buffer maxSize).map fun r => ⟨r.2, rx.extracted ++ r.1.getD [], rx.received⟩

def step (c : Connection) : Act → Except Fault Connection
  | .call op => ((TxBuffer.step c.tx op).mapError .tx).map c.sendTo
  | .receivedData i =>
    match c.segments[i]? with
    | none => .ok c
    | some seg => ((receive n c.rx seg).mapError .rx).map fun rx => { c with rx := rx }
  | .recv maxSize => ((extract c.rx maxSize).mapError .rx).map fun rx => { c with rx := rx }
  | .sendEmptyPacket =>
    let ackNumber := c.rx.buffer.m_nextRxSeq
    .ok { c with
      acks := c.acks ++ [⟨ackNumber, RxBuffer.placeOf n c.rx.extracted.length ackNumber⟩] }
  | .receivedAck now i =>
    match c.acks[i]? with
    | none => .ok c
    | some ack =>
      ((TxBuffer.step c.tx (.discardUpTo now ack.ackNumber)).mapError .tx).map fun tx =>
        { c with tx := tx }

def start (maxTx dupAckThresh maxRx : UInt32) : Connection :=
  ⟨TxBuffer.start n maxTx dupAckThresh, [], [], RxBuffer.start n maxRx, []⟩

/-- The calls of the send buffer are sane and discard nothing; a segment or an acknowledgement does
not come `2 ^ 31` bytes late. -/
def Proper (c : Connection) : Act → Prop
  | .call (.discardUpTo _ _) => False
  | .call op => TxBuffer.Sane c.tx.buffer op
  | .receivedData i =>
    ∀ seg ∈ c.segments[i]?, RxBuffer.Near n c.rx (.add seg.place seg.packet.length) ∧
      RxBuffer.WindowNear n c.rx (.add seg.place seg.packet.length)
  | .receivedAck _ i => ∀ ack ∈ c.acks[i]?, c.discarded < ack.place + 2 ^ 31
  | .recv _ => True
  | .sendEmptyPacket => True

instance (c : Connection) (act : Act) : Decidable (Proper n c act) := by
  cases act with
  | call op => cases op <;> unfold Proper <;> infer_instance
  | _ => unfold Proper; infer_instance

/-- What the two applications see of each other, and that what left the send buffer has arrived. -/
structure Delivered (c : Connection) : Prop where
  isPrefix : c.rx.extracted <+: c.accepted
  kept : c.tx.queue.bytes = c.accepted.drop c.discarded
  released : ∀ q < c.discarded, c.rx.Received q

/-- The invariant; the receiver is right about every stream that goes on from the accepted bytes. -/
structure Delivers (c : Connection) : Prop where
  queued : TxBuffer.Queued c.tx
  kept : c.tx.queue.bytes = c.accepted.drop c.discarded
  head : c.tx.queue.head = offset n c.discarded
  segments : ∀ seg ∈ c.segments, seg.seq = offset n seg.place ∧
    seg.packet <+: c.accepted.drop seg.place
  rx : ∀ stream, c.accepted = slice stream 0 c.accepted.length →
    ∃ next l, RxBuffer.Ok n stream c.rx next l
  received : ∀ q, c.rx.Received q → q < c.accepted.length
  acks : ∀ ack ∈ c.acks, ack.ackNumber = offset n ack.place ∧ ∀ q < ack.place, c.rx.Received q
  released : ∀ q < c.discarded, c.rx.Received q

theorem ensures_mapError {ε ε' α : Type} {x : Except ε α} {f : ε → ε'} {post : α → Prop}
    (h : Ensures x post fun _ => False) : Ensures (x.mapError f) post fun _ => False := by
  cases x with
  | ok a => exact h
  | error e => exact h

theorem exists_stream (bytes : List UInt8) : ∃ stream, bytes = slice stream 0 bytes.length := by
  refine ⟨fun q => bytes.getD q 0, ext_getElem (length_slice _ _ _).symm fun i hi _ => ?_⟩
  simp [slice, hi]

theorem slice_of_prefix {bytes packet : List UInt8} {place : ℕ} {stream : ℕ → UInt8}
    (h : packet <+: bytes.drop place) (all : bytes = slice stream 0 bytes.length) :
    packet = slice stream place packet.length := by
  rw [all, drop_slice, Nat.zero_add] at h
  have hle := h.length_le
  rw [length_slice] at hle
  rw [← Nat.min_eq_left hle, ← take_slice]
  exact prefix_iff_eq_take.mp h

theorem queue_grows {s s' : TxBuffer.Session} {op : TxBuffer.Op} (run : TxBuffer.step s op = .ok s')
    (keeps : ∀ now seq, op ≠ .discardUpTo now seq) :
    s'.queue.head = s.queue.head ∧ ∃ more, s'.queue.bytes = s.queue.bytes ++ more := by
  have same : s'.queue = s.queue → s'.queue.head = s.queue.head ∧
    ∃ more, s'.queue.bytes = s.queue.bytes ++ more :=
    fun heq => ⟨congrArg _ heq, [], by rw [heq, append_nil]⟩
  cases op with
  | add p =>
    obtain rfl := Except.ok.inj run
    by_cases taken : (s.buffer.add p).1 = true
    · exact ⟨by rw [if_pos taken], p, by rw [if_pos taken]⟩
    · exact same (if_neg taken)
  | discardUpTo now seq => exact absurd rfl (keeps now seq)
  | copyFromSequence now numBytes seq =>
    obtain ⟨r, -, rfl⟩ := map_ok_inv run
    exact same rfl
  | update list =>
    obtain ⟨r, -, rfl⟩ := map_ok_inv run
    exact same rfl
  | addRenoSack | deleteRetransmittedFlagFromHead =>
    obtain ⟨r, -, rfl⟩ := map_ok_inv run
    exact same rfl
  | resetRenoSack | markHeadAsLost | setSentListLost | resetSentList | resetLastSegmentSent =>
    obtain rfl := Except.ok.inj run
    exact same rfl

namespace Delivers

variable {n} {c : Connection} (h : Delivers n c)
include h

theorem length_kept : c.tx.queue.bytes.length = c.accepted.length - c.discarded := by
  rw [h.kept, length_drop]

theorem call {op : TxBuffer.Op} (sane : TxBuffer.Sane c.tx.buffer op)
    (keeps : ∀ now seq, op ≠ .discardUpTo now seq) :
    Ensures (step n c (.call op)) (Delivers n) fun _ => False := by
  obtain ⟨tx, run, queued, describes⟩ := (h.queued.step op sane).exists_ok
  obtain ⟨hhead, more, hmore⟩ := queue_grows run keeps
  rw [step, run]
  have hle : c.discarded ≤ c.accepted.length := Nat.sub_le _ _
  have haccepted : (c.sendTo tx).accepted = c.accepted ++ more := by
    rw [Connection.sendTo, hmore, drop_left]
  have hdiscarded : (c.sendTo tx).discarded = c.discarded := by
    have hlength := h.length_kept
    rw [Connection.discarded, haccepted]
    change _ - tx.queue.bytes.length = _
    rw [hmore, length_append, length_append]
    omega
  have hkept : tx.queue.bytes = (c.accepted ++ more).drop c.discarded := by
    rw [hmore, h.kept, drop_append_of_le_length hle]
  refine ⟨queued, ?_, ?_, fun seg hseg => ?_, fun stream all => h.rx stream ?_, fun q hq =>
    ?_, h.acks, ?_⟩
  · rw [hdiscarded, haccepted]
    exact hkept
  · rw [hdiscarded]
    exact hhead.trans h.head
  · rw [haccepted]
    rcases mem_append.mp hseg with hold | hnew
    · obtain ⟨hseq, hpacket⟩ := h.segments seg hold
      refine ⟨hseq, hpacket.trans ?_⟩
      rw [drop_append]
      exact prefix_append _ _
    · obtain ⟨a, ha, rfl⟩ := mem_map.mp hnew
      have hpacket := (describes.answer a (Option.mem_toList.mp ha)).1
      rw [hkept, drop_drop, hhead, ← h.queued.head] at hpacket
      refine ⟨?_, hpacket⟩
      rw [← add_offset, ← h.head, ← h.queued.head, TxBuffer.add_placeOf]
  · rw [haccepted, length_append] at all
    calc c.accepted = (c.accepted ++ more).take c.accepted.length := take_left.symm
      _ = slice stream 0 c.accepted.length := by
        rw [all, take_slice, Nat.min_eq_left (Nat.le_add_right _ _)]
  · rw [haccepted, length_append]
    exact Nat.lt_add_right _ (h.received q hq)
  · rw [hdiscarded]
    exact h.released

theorem receivedData {seg : Segment} (hseg : seg ∈ c.segments)
    (near : RxBuffer.Near n c.rx (.add seg.place seg.packet.length))
    (window : RxBuffer.WindowNear n c.rx (.add seg.place seg.packet.length)) :
    Ensures (receive n c.rx seg) (fun rx => Delivers n { c with rx := rx }) fun _ => False := by
  obtain ⟨hseq, hpacket⟩ := h.segments seg hseg
  have same : ∀ stream, c.accepted = slice stream 0 c.accepted.length →
      RxBuffer.step n stream c.rx (.add seg.place seg.packet.length) = receive n c.rx seg :=
        fun stream all => by
    rw [RxBuffer.step, receive, ← slice_of_prefix hpacket all, ← hseq]
  have arrives : ∀ stream, c.accepted = slice stream 0 c.accepted.length →
      Ensures (receive n c.rx seg) (fun rx => ∃ next l, RxBuffer.Ok n stream rx next l) fun _ =>
        False := fun stream all => by
    obtain ⟨next, l, ok⟩ := h.rx stream all
    rw [← same stream all]
    exact ok.step_add near window
  obtain ⟨stream, all⟩ := exists_stream c.accepted
  obtain ⟨rx, run, -⟩ := (arrives stream all).exists_ok
  obtain ⟨r, -, hrx⟩ := map_ok_inv run
  have hreceived : ∀ q, rx.Received q ↔ (seg.place ≤ q ∧
      q < RxBuffer.inWindow n c.rx.buffer c.rx.extracted.length (seg.place + seg.packet.length)) ∨
        c.rx.Received q := fun q => by
    simp only [← hrx, RxBuffer.Session.Received, mem_cons, exists_eq_or_imp]
  have hold : ∀ q, c.rx.Received q → rx.Received q := fun q hq => (hreceived q).mpr (.inr hq)
  rw [run]
  refine ⟨h.queued, h.kept, h.head, h.segments, fun stream' all' =>
    (arrives stream' all').of_ok run, fun q hq => ?_,
    fun ack hack => ⟨(h.acks ack hack).1, fun q hq => hold q ((h.acks ack hack).2 q hq)⟩,
    fun q hq => hold q (h.released q hq)⟩
  rcases (hreceived q).mp hq with ⟨hle, hlt⟩ | hq
  · have hlength := hpacket.length_le
    rw [length_drop] at hlength
    rw [RxBuffer.inWindow] at hlt
    change q < c.accepted.length
    split at hlt <;> omega
  · exact h.received q hq

theorem recv (maxSize : UInt32) :
    Ensures (extract c.rx maxSize) (fun rx => Delivers n { c with rx := rx }) fun _ => False := by
  have arrives : ∀ stream, c.accepted = slice stream 0 c.accepted.length →
      Ensures (extract c.rx maxSize) (fun rx => ∃ next l, RxBuffer.Ok n stream rx next l) fun _ =>
        False := fun stream all => by
    obtain ⟨next, l, ok⟩ := h.rx stream all
    exact ok.step_extract maxSize
  obtain ⟨stream, all⟩ := exists_stream c.accepted
  obtain ⟨rx, run, -⟩ := (arrives stream all).exists_ok
  obtain ⟨r, -, rfl⟩ := map_ok_inv run
  rw [run]
  exact ⟨h.queued, h.kept, h.head, h.segments, fun stream' all' =>
    (arrives stream' all').of_ok run, h.received, h.acks, h.released⟩

theorem sendEmptyPacket : Ensures (step n c .sendEmptyPacket) (Delivers n) fun _ => False := by
  obtain ⟨stream, all⟩ := exists_stream c.accepted
  obtain ⟨next, l, ok⟩ := h.rx stream all
  have hle := ok.held.le
  have hnear := ok.held.near
  have hplace : RxBuffer.placeOf n c.rx.extracted.length c.rx.buffer.m_nextRxSeq = next := by
    rw [RxBuffer.placeOf, ok.held.nextRxSeq, sub_offset n hle, RxBuffer.toNat_ofNat (by omega),
      Nat.add_sub_cancel' hle]
  refine ⟨h.queued, h.kept, h.head, h.segments, h.rx, h.received, fun ack hack => ?_, h.released⟩
  rcases mem_append.mp hack with hold | hnew
  · exact h.acks ack hold
  · obtain rfl := mem_singleton.mp hnew
    refine ⟨hplace.symm ▸ ok.held.nextRxSeq, fun q hq => ?_⟩
    by_contra missing
    exact Nat.lt_irrefl q
      ((hplace ▸ hq : q < next).trans_le (ok.reassembled.firstMissing.2 missing))

theorem receivedAck (now : ℤ) {ack : Acknowledgement} (hack : ack ∈ c.acks)
    (late : c.discarded < ack.place + 2 ^ 31) :
    Ensures (TxBuffer.step c.tx (.discardUpTo now ack.ackNumber))
    (fun tx => Delivers n { c with tx := tx }) fun _ => False := by
  obtain ⟨tx, run, queued, -⟩ := (h.queued.discardUpTo now ack.ackNumber).exists_ok
  obtain ⟨hnumber, hreceived⟩ := h.acks ack hack
  obtain ⟨b, -, rfl⟩ := map_ok_inv run
  have hlength := h.length_kept
  have hshort := h.queued.ok.short
  have hle : c.discarded ≤ c.accepted.length := Nat.sub_le _ _
  rw [h.queued.content] at hshort
  have hplace : ack.place ≤ c.accepted.length := by
    by_contra hgt
    exact Nat.lt_irrefl _ (h.received _ (hreceived _ (Nat.lt_of_not_le hgt)))
  rw [run]
  have hqueue : c.tx.queue.discardUpTo ack.ackNumber =
      if ack.place ≤ c.discarded then c.tx.queue
        else ⟨offset n ack.place, c.accepted.drop ack.place⟩ := by
    rw [TxBuffer.Queue.discardUpTo, h.head, hnumber, greaterEqual_offset n late (by omega)]
    by_cases hold : ack.place ≤ c.discarded
    · rw [if_pos (decide_eq_true hold), if_pos hold]
    · rw [if_neg (by simpa using hold), if_neg hold, sub_offset n (by omega),
        RxBuffer.toNat_ofNat (by omega), h.kept, drop_drop, Nat.add_sub_cancel' (by omega)]
  rw [hqueue] at queued ⊢
  split_ifs at queued ⊢ with hold
  · exact ⟨queued, h.kept, h.head, h.segments, h.rx, h.received, h.acks, h.released⟩
  · have hdiscarded : c.accepted.length - (c.accepted.drop ack.place).length = ack.place := by
      rw [length_drop]
      omega
    refine ⟨queued, ?_, ?_, h.segments, h.rx, h.received, h.acks, ?_⟩
    · exact congrArg (c.accepted.drop ·) hdiscarded.symm
    · exact congrArg (offset n) hdiscarded.symm
    · exact fun q hq => hreceived q (hq.trans_eq hdiscarded)

theorem step (act : Act) (proper : Proper n c act) : Ensures (step n c act) (Delivers n) fun _ =>
      False := by
  cases act with
  | call op =>
    cases op with
    | discardUpTo now seq => exact proper.elim
    | _ => exact h.call proper fun _ _ heq => nomatch heq
  | receivedData i =>
    rw [StreamDelivery.step]
    cases hseg : c.segments[i]? with
    | none => exact h
    | some seg =>
      obtain ⟨near, window⟩ := proper seg hseg
      exact ensures_map.mpr (ensures_mapError (h.receivedData (mem_of_getElem? hseg) near window))
  | recv maxSize => exact ensures_map.mpr (ensures_mapError (h.recv maxSize))
  | sendEmptyPacket => exact h.sendEmptyPacket
  | receivedAck now i =>
    rw [StreamDelivery.step]
    cases hack : c.acks[i]? with
    | none => exact h
    | some ack =>
      exact ensures_map.mpr
        (ensures_mapError (h.receivedAck now (mem_of_getElem? hack) (proper ack hack)))

theorem delivered : Delivered c := by
  obtain ⟨stream, all⟩ := exists_stream c.accepted
  obtain ⟨next, l, ok⟩ := h.rx stream all
  have hle : c.rx.extracted.length ≤ c.accepted.length := by
    by_contra hgt
    exact Nat.lt_irrefl _ (h.received _ (ok.extracted _ (Nat.lt_of_not_le hgt)))
  refine ⟨prefix_iff_eq_take.mpr ?_, h.kept, h.released⟩
  rw [all, take_slice, Nat.min_eq_left hle]
  exact ok.isPrefix

end Delivers

theorem start_delivers (maxTx dupAckThresh maxRx : UInt32) :
    Delivers n (start n maxTx dupAckThresh maxRx) :=
  ⟨TxBuffer.start_queued n maxTx dupAckThresh, rfl, by
    simp [start, TxBuffer.start, offset, Connection.discarded], nofun,
    fun stream _ => ⟨0, [], RxBuffer.start_ok n stream maxRx⟩, fun q hq => by
      simp [start, RxBuffer.start, RxBuffer.Session.Received] at hq,
    nofun, nofun⟩

/-- Whatever the network does, the receiver reads the bytes that the sender wrote, from the first
one on, and the sender keeps every byte that has not arrived. -/
theorem stream_delivered (maxTx dupAckThresh maxRx : UInt32) (acts : List Act)
    (proper : Along (step n) (Proper n) (start n maxTx dupAckThresh maxRx) acts) :
    Ensures (exec (step n) (start n maxTx dupAckThresh maxRx) acts) Delivered fun _ => False :=
  (ensures_exec (fun _ act h => h.step act) (start_delivers n maxTx dupAckThresh maxRx)
    proper).weaken fun _ h => h.delivered

theorem stream_delivered_lossy : Ensures (exec (step 4294967290) (start 4294967290 100 3 100)
      [.call (.add [0, 1, 2, 3, 4, 5, 6, 7, 8, 9, 10, 11]),
        .call (.copyFromSequence 0 4 ⟨4294967290⟩),
        .call (.copyFromSequence 0 4 ⟨4294967294⟩), .call (.copyFromSequence 0 4 ⟨2⟩),
          .receivedData 0, .receivedData 2,
        .sendEmptyPacket, .recv 3, .receivedAck 1 0, .call (.copyFromSequence 1 4 ⟨4294967294⟩),
          .receivedData 0,
        .receivedData 3, .recv 100, .sendEmptyPacket, .receivedAck 2 1, .receivedAck 3 0]) Delivered
          fun _ => False :=
  stream_delivered 4294967290 100 3 100 _ (by decide +kernel)

end Egsr.Internet.StreamDelivery
