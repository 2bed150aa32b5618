import Egsr.Grp.MessageRoundTrip
import Egsr.Lib.Batch

/-! Control packets. Queued messages are sent in batches of sixty-four behind a
16-bit length; the receiver takes messages off the packet until the sizes it
computes from what it decoded use the length up. The two sides agree exactly
when every batch fits its length field and every message comes back. -/

namespace Egsr.Grp.Framing

open Lib.Batch Lib.Bytes Network.ByteIterator Grp.Header List
open Grp.HeaderRoundTrip Grp.MessageRoundTrip

abbrev Message := MessageHeader Int64

def grpMaxMsgs : ℕ := 64

/-- `SendPacket`, with the sequence number it leaves behind. The 16-bit length
is that of the packet with its header. -/
def sendPacket (fill : ℕ → UInt8) (packetSequenceNumber : UInt16) (packet : List UInt8) :
    Option (UInt16 × List UInt8) := do
  let seq := packetSequenceNumber + 1
  let header : CtrPacketHeader := ⟨.ofNat (4 + packet.length), seq⟩
  let sent ← addHeader fill header packet
  pure (seq, sent)

/-- The loop of `SendQueuedMessages` before queued message `n`; `fill n` is the
memory that message is written to. -/
def sendLoop (fill : ℕ → ℕ → UInt8) (n : ℕ) (seq : UInt16) (packet : List UInt8)
    (numMessages : ℕ) : List Message → Option (List (List UInt8))
  | [] =>
    if packet.length ≠ 0 then (sendPacket (fill n) seq packet).map fun p => [p.2] else some []
  | message :: queued => do
    let p ← addHeader (fill n) message []
    let packet := packet ++ p
    let numMessages := numMessages + 1
    if numMessages = grpMaxMsgs then
      let (seq, sent) ← sendPacket (fill n) seq packet
      let rest ← sendLoop fill (n + 1) seq [] 0 queued
      pure (sent :: rest)
    else sendLoop fill (n + 1) seq packet numMessages queued

def sendQueuedMessages (fill : ℕ → ℕ → UInt8) (seq : UInt16) (queued : List Message) :
    Option (List (List UInt8)) :=
  sendLoop fill 0 seq [] 0 queued

/-- The `while (sizeLeft)` loop of `RecvGrp`: each message with the value of
`sizeLeft` it was read at. Every message takes bytes off the packet, so the
length of the packet bounds the number of rounds. -/
def recvLoop (stale : ℕ → Message) : ℕ → ℕ → List UInt8 → UInt32 →
    Option (List (Message × UInt32))
  | 0, _, _, sizeLeft => if sizeLeft = 0 then some [] else none
  | fuel + 1, n, packet, sizeLeft =>
    if sizeLeft = 0 then some []
    else do
      let (message, packet) ← removeHeader (stale n).construct packet
      let rest ← recvLoop stale fuel (n + 1) packet
        (sizeLeft - .ofNat message.getSerializedSize)
      pure ((message, sizeLeft) :: rest)

def recvGrp (stale : ℕ → Message) (packet : List UInt8) : Option (List (Message × UInt32)) :=
  match removeHeader (⟨0, 0⟩ : CtrPacketHeader) packet with
  | none => none
  | some (header, packet) =>
    if header.packetLength.toNat < header.getSerializedSize then none
    else
      recvLoop stale packet.length 0 packet
        (header.packetLength.toUInt32 - .ofNat header.getSerializedSize)

def recvAll (stale : ℕ → ℕ → Message) : ℕ → List (List UInt8) →
    Option (List (List (Message × UInt32)))
  | _, [] => some []
  | n, packet :: packets => do
    let messages ← recvGrp (stale n) packet
    let rest ← recvAll stale (n + 1) packets
    pure (messages :: rest)

/-- The packets sent for `queued`, received one after another, give those
messages in that order, and `sizeLeft` is never less than what is subtracted. -/
def FramingExact (fill : ℕ → ℕ → UInt8) (seq : UInt16) (stale : ℕ → ℕ → Message)
    (queued : List Message) : Prop :=
  ∃ packets received, sendQueuedMessages fill seq queued = some packets ∧
    recvAll stale 0 packets = some received ∧
    List.Forall₂ Recovers queued (received.flatten.map Prod.fst) ∧
    ∀ r ∈ received.flatten, r.1.getSerializedSize ≤ r.2.toNat

variable (m : Message)

def Sendable : Prop := m.messageType = .hello ∨ m.messageType = .ant

def totalSize (messages : List Message) : ℕ := (messages.map MessageHeader.getSerializedSize).sum

@[simp] theorem totalSize_nil : totalSize [] = 0 := rfl

@[simp] theorem totalSize_cons (ms : List Message) :
    totalSize (m :: ms) = m.getSerializedSize + totalSize ms := by simp [totalSize]

theorem getSerializedSize_pos : 0 < m.getSerializedSize := by
  cases h : m.messageType <;> simp only [MessageHeader.getSerializedSize, h] <;> omega

theorem addHeader_message {fill : ℕ → UInt8} {m : Message} {bytes : List UInt8}
    (sendable : Sendable m) (written : addHeader fill m [] = some bytes) :
    bytes.length = m.getSerializedSize := by
  cases sendable with
  | inl type =>
    have hlen : (fixedBytes m ++ helloBytes m.hello).length = m.getSerializedSize := by
      simp only [MessageHeader.getSerializedSize, type, length_append, length_fixedBytes,
        length_helloBytes]
    rw [addHeader_full hlen fun i fits => message_serialize_hello fits type,
      append_nil, Option.some_inj] at written
    rw [← written, hlen]
  | inr type =>
    obtain ⟨⟨x, hx⟩, y, hy⟩ := addHeader_ant_some type written
    rw [addHeader_ant type hx hy, Option.some_inj] at written
    rw [← written, length_antPacket type]

/-! ## Batches -/

def pack (fill : ℕ → ℕ → UInt8) : ℕ → List Message → Option (List UInt8)
  | _, [] => some []
  | n, m :: ms => do
    let p ← addHeader (fill n) m []
    let rest ← pack fill (n + 1) ms
    pure (p ++ rest)

variable {n : ℕ} {fill : ℕ → ℕ → UInt8}

theorem pack_cons_inv {m : Message} {ms : List Message}
    {bytes : List UInt8} (h : pack fill n (m :: ms) = some bytes) :
    ∃ p rest, addHeader (fill n) m [] = some p ∧ pack fill (n + 1) ms = some rest ∧
      bytes = p ++ rest := by
  simp only [pack, Option.bind_eq_bind, Option.bind_eq_some_iff, Option.pure_def,
    Option.some_inj] at h
  obtain ⟨p, hp, rest, hrest, rfl⟩ := h
  exact ⟨p, rest, hp, hrest, rfl⟩

theorem length_pack {ms : List Message} {bytes : List UInt8}
    (sendable : ∀ m ∈ ms, Sendable m) (h : pack fill n ms = some bytes) :
    bytes.length = totalSize ms := by
  induction ms generalizing n bytes with
  | nil =>
    cases h
    rfl
  | cons m ms ih =>
    obtain ⟨p, rest, hp, hrest, rfl⟩ := pack_cons_inv h
    rw [length_append, addHeader_message (sendable m (by simp)) hp,
      ih (fun m' h' => sendable m' (by simp [h'])) hrest, totalSize_cons]

def framed (seq : UInt16) (bytes : List UInt8) : List UInt8 :=
  ctrBytes ⟨.ofNat (4 + bytes.length), seq + 1⟩ ++ bytes

theorem sendPacket_eq (fill : ℕ → UInt8) (seq : UInt16) (packet : List UInt8) :
    sendPacket fill seq packet = some (seq + 1, framed seq packet) := by
  simp only [sendPacket, ctr_addHeader, Option.bind_eq_bind, Option.bind_some, Option.pure_def,
    framed]

def sendBatches (fill : ℕ → ℕ → UInt8) : ℕ → UInt16 → List (List Message) →
    Option (List (List UInt8))
  | _, _, [] => some []
  | n, seq, b :: bs => do
    let bytes ← pack fill n b
    let rest ← sendBatches fill (n + b.length) (seq + 1) bs
    pure (framed seq bytes :: rest)

theorem sendLoop_full {seq : UInt16} {b : List Message} {k : ℕ}
    (full : k + b.length = grpMaxMsgs) (nonempty : b ≠ []) (n : ℕ) (packet : List UInt8)
    (rest : List Message) : sendLoop fill n seq packet k (b ++ rest) =
      (pack fill n b).bind fun bytes => (sendLoop fill (n + b.length) (seq + 1) [] 0 rest).map
        fun packets => framed seq (packet ++ bytes) :: packets := by
  induction b generalizing n packet k with
  | nil => exact absurd rfl nonempty
  | cons m b ih =>
    simp only [cons_append, sendLoop, pack, Option.bind_eq_bind, Option.bind_assoc, Option.pure_def]
    refine Option.bind_congr fun p _ => ?_
    by_cases hb : b = []
    · subst hb
      have hk : k + 1 = grpMaxMsgs := full
      simp only [hk, if_true, sendPacket_eq, Option.bind_some, nil_append, pack,
        append_nil, length_singleton]
      cases sendLoop fill (n + 1) (seq + 1) [] 0 rest <;> rfl
    · have hk : k + 1 + b.length = grpMaxMsgs := by
        rw [length_cons] at full
        omega
      have hlt : k + 1 ≠ grpMaxMsgs := by
        have := length_pos_iff.mpr hb
        omega
      rw [if_neg hlt, ih hk hb]
      cases pack fill (n + 1) b with
      | none => rfl
      | some bytes =>
        simp only [Option.bind_some, append_assoc, length_cons, Nat.add_assoc, Nat.add_comm 1]

theorem sendLoop_short {seq : UInt16} {b : List Message} {k : ℕ}
    (short : k + b.length < grpMaxMsgs) (n : ℕ) (packet : List UInt8) :
    sendLoop fill n seq packet k b = (pack fill n b).map fun bytes =>
      if (packet ++ bytes).length ≠ 0 then [framed seq (packet ++ bytes)] else [] := by
  induction b generalizing n packet k with
  | nil =>
    simp only [sendLoop, pack, Option.map_some, append_nil, sendPacket_eq]
    split_ifs <;> rfl
  | cons m b ih =>
    have hk : k + 1 + b.length < grpMaxMsgs := by
      rw [length_cons] at short
      omega
    have hlt : k + 1 ≠ grpMaxMsgs := by omega
    simp only [sendLoop, pack, Option.bind_eq_bind, if_neg hlt, Option.pure_def]
    cases addHeader (fill n) m [] with
    | none => rfl
    | some p =>
      simp only [Option.bind_some, ih hk]
      cases pack fill (n + 1) b <;> simp [append_assoc]

theorem sendLoop_batches {queued : List Message}
    (sendable : ∀ m ∈ queued, Sendable m) (n : ℕ) (seq : UInt16) :
    sendLoop fill n seq [] 0 queued =
      sendBatches fill n seq (batches (grpMaxMsgs - 1) queued) := by
  induction queued using batches.induct (grpMaxMsgs - 1) generalizing n seq with
  | case1 => rw [batches_nil, sendLoop, sendBatches]; rfl
  | case2 m queued ih =>
    have hrest : ∀ k ∈ queued.drop (grpMaxMsgs - 1), Sendable k := fun k hk =>
      sendable k (mem_cons_of_mem m (mem_of_mem_drop hk))
    rw [batches_cons, sendBatches]
    by_cases hlen : grpMaxMsgs - 1 ≤ queued.length
    · have hfull : 0 + (m :: queued.take (grpMaxMsgs - 1)).length = grpMaxMsgs := by
        rw [length_cons, length_take_of_le hlen]
        decide
      conv_lhs => rw [← take_append_drop (grpMaxMsgs - 1) queued, ← cons_append]
      rw [sendLoop_full hfull (by simp), ih hrest]
      simp only [nil_append, Option.bind_eq_bind, Option.pure_def, Option.map_eq_bind]
      rfl
    · have hshort : 0 + (m :: queued).length < grpMaxMsgs := by
        rw [length_cons]
        omega
      have htake : queued.take (grpMaxMsgs - 1) = queued := take_of_length_le (by omega)
      have hdrop : queued.drop (grpMaxMsgs - 1) = [] := drop_of_length_le (by omega)
      rw [sendLoop_short hshort, htake, hdrop, batches_nil]
      cases hp : pack fill n (m :: queued) with
      | none => rfl
      | some bytes =>
        have hne : bytes ≠ [] := by
          rw [← length_pos_iff, length_pack sendable hp, totalSize_cons]
          have := getSerializedSize_pos m
          omega
        simp [sendBatches, hne]

/-! ## Receiving a batch -/

variable {packet : List UInt8}

theorem removeHeader_message {self m' : Message} {rest : List UInt8}
    (h : removeHeader self packet = some (m', rest)) :
    self.deserialize packet = some (m', m'.getSerializedSize) ∧
      rest = packet.drop m'.getSerializedSize := by
  obtain ⟨⟨k, size⟩, hdes, hp⟩ := Option.map_eq_some_iff.mp h
  simp only [Prod.mk.injEq] at hp
  rw [← hp.1, ← hp.2, ← deserialize_size hdes]
  exact ⟨hdes, rfl⟩

variable {sizeLeft : UInt32}

theorem recvLoop_cons_inv {stale : ℕ → Message} {fuel : ℕ}
    {r : Message × UInt32} {received : List (Message × UInt32)}
    (h : recvLoop stale fuel n packet sizeLeft = some (r :: received)) :
    ∃ fuel' rest, fuel = fuel' + 1 ∧ r.2 = sizeLeft ∧ sizeLeft ≠ 0 ∧
      removeHeader (stale n).construct packet = some (r.1, rest) ∧
      recvLoop stale fuel' (n + 1) rest
        (sizeLeft - .ofNat r.1.getSerializedSize) = some received := by
  cases fuel with
  | zero =>
    by_cases h0 : sizeLeft = 0 <;> simp [recvLoop, h0] at h
  | succ fuel =>
    by_cases h0 : sizeLeft = 0
    · simp [recvLoop, h0] at h
    · simp only [recvLoop, h0, if_false, Option.bind_eq_bind, Option.bind_eq_some_iff,
        Option.pure_def, Option.some_inj, List.cons.injEq] at h
      obtain ⟨⟨m, rest⟩, hm, received', hrest, rfl, rfl⟩ := h
      exact ⟨fuel, rest, rfl, rfl, h0, hm, hrest⟩

theorem recvLoop_nil_inv {stale : ℕ → Message} {fuel : ℕ}
    (h : recvLoop stale fuel n packet sizeLeft = some []) :
    sizeLeft = 0 := by
  by_cases h0 : sizeLeft = 0
  · exact h0
  · cases fuel with
    | zero => simp [recvLoop, h0] at h
    | succ fuel =>
      simp only [recvLoop, h0, if_false, Option.bind_eq_bind, Option.bind_eq_some_iff,
        Option.pure_def, Option.some_inj] at h
      obtain ⟨_, _, _, _, hnil⟩ := h
      cases hnil

theorem removeHeader_shorter {self m' : Message} {rest : List UInt8}
    (h : removeHeader self packet = some (m', rest)) : rest.length < packet.length := by
  obtain ⟨hdes, rfl⟩ := removeHeader_message h
  have hne : packet ≠ [] := by
    intro hnil
    rw [hnil] at hdes
    cases hdes
  have := length_pos_iff.mpr hne
  have := getSerializedSize_pos m'
  rw [length_drop]
  omega

theorem recvLoop_fuel (stale : ℕ → Message) {fuel fuel' : ℕ} (n : ℕ)
    (enough : packet.length ≤ fuel) (enough' : packet.length ≤ fuel') (sizeLeft : UInt32) :
    recvLoop stale fuel n packet sizeLeft = recvLoop stale fuel' n packet sizeLeft := by
  induction fuel generalizing fuel' n packet sizeLeft with
  | zero =>
    obtain rfl : packet = [] := eq_nil_of_length_eq_zero (Nat.le_zero.mp enough)
    cases fuel' with
    | zero => rfl
    | succ fuel' =>
      simp only [recvLoop]
      rfl
  | succ fuel ih =>
    by_cases h0 : sizeLeft = 0
    · cases fuel' <;> simp [recvLoop, h0]
    · cases fuel' with
      | zero =>
        obtain rfl : packet = [] := eq_nil_of_length_eq_zero (Nat.le_zero.mp enough')
        simp only [recvLoop, h0, if_false]
        rfl
      | succ fuel' =>
        simp only [recvLoop, h0, if_false, Option.bind_eq_bind]
        refine Option.bind_congr fun r hr => ?_
        have hlt := removeHeader_shorter hr
        have hle : r.2.length ≤ fuel := by omega
        have hle' : r.2.length ≤ fuel' := by omega
        rw [ih (n + 1) hle hle' _]

def NoWrap (received : List (Message × UInt32)) : Prop :=
  ∀ r ∈ received, r.1.getSerializedSize ≤ r.2.toNat

theorem toNat_sub_size (h : n ≤ sizeLeft.toNat) :
    (sizeLeft - .ofNat n).toNat = sizeLeft.toNat - n := by
  have hn : (UInt32.ofNat n).toNat = n := by
    rw [UInt32.toNat_ofNat', Nat.mod_eq_of_lt (h.trans_lt sizeLeft.toNat_lt)]
  rw [UInt32.toNat_sub_of_le, hn]
  rwa [UInt32.le_iff_toNat_le, hn]

theorem totalSize_recvLoop {stale : ℕ → Message} {fuel : ℕ}
    {received : List (Message × UInt32)} (noWrap : NoWrap received)
    (h : recvLoop stale fuel n packet sizeLeft = some received) :
    totalSize (received.map Prod.fst) = sizeLeft.toNat := by
  induction received generalizing fuel n packet sizeLeft with
  | nil => rw [recvLoop_nil_inv h]; rfl
  | cons r received ih =>
    obtain ⟨fuel', rest, rfl, hr, -, -, hrest⟩ := recvLoop_cons_inv h
    have hle := noWrap r (by simp)
    rw [hr] at hle
    have := ih (fun r' h' => noWrap r' (by simp [h'])) hrest
    rw [toNat_sub_size hle] at this
    rw [map_cons, totalSize_cons, this]
    omega

/-- A message the receiver gets back whatever it is followed by. -/
def Sound : Prop :=
  m.messageType = .hello ∨ m.ant.sequenceOfJunctions.length = m.ant.sDelay.length ∧
    CoordinatesFit m.ant ∧ OverlapAgrees m

theorem roundTrips_iff {m : Message} (sendable : Sendable m) (size : m.getSerializedSize < 2 ^ 16)
    (fill : ℕ → UInt8) (stale : Message) (rest : List UInt8) :
    RoundTrips m fill stale rest ↔ Sound m := by
  cases sendable with
  | inl type => simp [Sound, type, hello_roundTrips type size]
  | inr type => simp [Sound, type, ant_roundTrips type size]

section Batch

variable {fill : ℕ → ℕ → UInt8} {stale : ℕ → Message}

theorem sound_of_received {b : List Message} (sendable : ∀ m ∈ b, Sendable m)
    (small : totalSize b < 2 ^ 16) {k fuel : ℕ} {bytes : List UInt8}
    {received : List (Message × UInt32)} (packed : pack fill n b = some bytes)
    (recv : recvLoop stale fuel k bytes sizeLeft = some received)
    (recovers : List.Forall₂ Recovers b (received.map Prod.fst)) : ∀ m ∈ b, Sound m := by
  induction b generalizing n k fuel bytes sizeLeft received with
  | nil => simp
  | cons m b ih =>
    obtain ⟨p, rest, hp, hrest, rfl⟩ := pack_cons_inv packed
    cases received with
    | nil => cases recovers
    | cons r received =>
      rw [map_cons, forall₂_cons] at recovers
      rw [totalSize_cons] at small
      obtain ⟨fuel', left, rfl, -, -, hread, hloop⟩ := recvLoop_cons_inv recv
      obtain ⟨hdes, rfl⟩ := removeHeader_message hread
      have hm := sendable m (by simp)
      have hlen := addHeader_message hm hp
      rw [recovers.1.getSerializedSize_eq] at hdes hloop
      have hround : RoundTrips m (fill n) (stale k) rest :=
        ⟨p, r.1, hp, hlen, hdes, recovers.1⟩
      rw [drop_left' hlen] at hloop
      intro m' hm'
      cases mem_cons.mp hm' with
      | inl heq => rw [heq]; exact (roundTrips_iff hm (by omega) _ _ _).mp hround
      | inr hin =>
        exact ih (fun m hm => sendable m (by simp [hm])) (by omega) hrest hloop recovers.2 m' hin

variable (fill stale) in
theorem received_of_sound {b : List Message} (sendable : ∀ m ∈ b, Sendable m)
    (small : totalSize b < 2 ^ 16) (sound : ∀ m ∈ b, Sound m) (n k fuel : ℕ) :
    ∃ bytes, pack fill n b = some bytes ∧ (bytes.length ≤ fuel →
      ∃ received, recvLoop stale fuel k bytes (.ofNat (totalSize b)) = some received ∧
        List.Forall₂ Recovers b (received.map Prod.fst) ∧ NoWrap received) := by
  induction b generalizing n k fuel with
  | nil =>
    refine ⟨[], rfl, fun _ => ⟨[], ?_, .nil, by simp [NoWrap]⟩⟩
    cases fuel <;> rfl
  | cons m b ih =>
    rw [totalSize_cons] at small
    have hm := sendable m (by simp)
    have hle : m.getSerializedSize ≤ (UInt32.ofNat (m.getSerializedSize + totalSize b)).toNat := by
      rw [UInt32.toNat_ofNat', Nat.mod_eq_of_lt (by omega)]
      omega
    have hsub : UInt32.ofNat (m.getSerializedSize + totalSize b) -
        UInt32.ofNat m.getSerializedSize = UInt32.ofNat (totalSize b) := by
      rw [← UInt32.toNat_inj, toNat_sub_size hle, UInt32.toNat_ofNat', UInt32.toNat_ofNat',
        Nat.mod_eq_of_lt (by omega), Nat.mod_eq_of_lt (by omega)]
      omega
    have hne : UInt32.ofNat (m.getSerializedSize + totalSize b) ≠ 0 := by
      intro h0
      rw [h0] at hle
      have := getSerializedSize_pos m
      simp only [UInt32.toNat_zero] at hle
      omega
    obtain ⟨rest, hrest, -⟩ := ih (fun m' h' => sendable m' (by simp [h'])) (by omega)
      (fun m' h' => sound m' (by simp [h'])) (n + 1) 0 0
    obtain ⟨p, m', hp, hlen, hdes, hrec⟩ := (roundTrips_iff hm (by omega) (fill n) (stale k)
      rest).mpr (sound m (by simp))
    refine ⟨p ++ rest, by simp [pack, hp, hrest], fun hfuel => ?_⟩
    rw [length_append, hlen] at hfuel
    cases fuel with
    | zero =>
      have := getSerializedSize_pos m
      omega
    | succ fuel =>
      obtain ⟨rest', hrest', hrecv⟩ := ih (fun m' h' => sendable m' (by simp [h'])) (by omega)
        (fun m' h' => sound m' (by simp [h'])) (n + 1) (k + 1) fuel
      obtain rfl : rest = rest' := Option.some_inj.mp (hrest.symm.trans hrest')
      obtain ⟨received, hloop, hall, hwrap⟩ := hrecv (by
        have := getSerializedSize_pos m
        omega)
      have hread : removeHeader (stale k).construct (p ++ rest) = some (m', rest) := by
        have hd : Header.deserialize (stale k).construct (p ++ rest) =
          some (m', m.getSerializedSize) := hdes
        rw [removeHeader, hd, Option.map_some, drop_left' hlen]
      refine ⟨(m', UInt32.ofNat (m.getSerializedSize + totalSize b)) :: received, ?_,
        .cons hrec hall, ?_⟩
      · simp only [recvLoop, totalSize_cons, hne, if_false, hread, Option.bind_eq_bind,
          Option.bind_some, hrec.getSerializedSize_eq, hsub, hloop, Option.pure_def]
      · intro r hr
        cases mem_cons.mp hr with
        | inl heq => rw [heq, hrec.getSerializedSize_eq]; exact hle
        | inr hin => exact hwrap r hin

end Batch

/-! ## All packets -/

theorem recvGrp_framed (stale : ℕ → Message) (seq : UInt16) (bytes : List UInt8) :
    recvGrp stale (framed seq bytes) =
      if (UInt16.ofNat (4 + bytes.length)).toNat < 4 then none
      else
        recvLoop stale bytes.length 0 bytes ((UInt16.ofNat (4 + bytes.length)).toUInt32 - 4) := by
  rw [recvGrp, framed, ctr_removeHeader]
  rfl

theorem sizeLeft_framed (h : 4 ≤ (UInt16.ofNat (4 + n)).toNat) :
    ((UInt16.ofNat (4 + n)).toUInt32 - 4).toNat = (4 + n) % 2 ^ 16 - 4 := by
  have hle : (4 : UInt32) ≤ (UInt16.ofNat (4 + n)).toUInt32 := by
    rw [UInt32.le_iff_toNat_le, UInt16.toNat_toUInt32]
    exact h
  rw [UInt32.toNat_sub_of_le _ _ hle, UInt16.toNat_toUInt32, UInt16.toNat_ofNat']
  rfl

theorem recvAll_cons_inv {stale : ℕ → ℕ → Message}
    {packets : List (List UInt8)} {received : List (List (Message × UInt32))}
    (h : recvAll stale n (packet :: packets) = some received) :
    ∃ r rs, received = r :: rs ∧ recvGrp (stale n) packet = some r ∧
      recvAll stale (n + 1) packets = some rs := by
  simp only [recvAll, Option.bind_eq_bind, Option.bind_eq_some_iff, Option.pure_def,
    Option.some_inj] at h
  obtain ⟨r, hr, rs, hrs, rfl⟩ := h
  exact ⟨r, rs, rfl, hr, hrs⟩

theorem sendBatches_cons_inv {seq : UInt16} {b : List Message}
    {bs : List (List Message)} {packets : List (List UInt8)}
    (h : sendBatches fill n seq (b :: bs) = some packets) :
    ∃ bytes rest, packets = framed seq bytes :: rest ∧ pack fill n b = some bytes ∧
      sendBatches fill (n + b.length) (seq + 1) bs = some rest := by
  simp only [sendBatches, Option.bind_eq_bind, Option.bind_eq_some_iff, Option.pure_def,
    Option.some_inj] at h
  obtain ⟨bytes, hbytes, rest, hrest, rfl⟩ := h
  exact ⟨bytes, rest, rfl, hbytes, hrest⟩

def FitsLength (b : List Message) : Prop := 4 + totalSize b < 2 ^ 16

section Packets

variable {fill : ℕ → ℕ → UInt8} {stale : ℕ → ℕ → Message}

theorem received_le {bs : List (List Message)} (sendable : ∀ b ∈ bs, ∀ m ∈ b, Sendable m)
    {k : ℕ} {seq : UInt16} {packets : List (List UInt8)}
    {received : List (List (Message × UInt32))} (noWrap : ∀ r ∈ received, NoWrap r)
    (send : sendBatches fill n seq bs = some packets)
    (recv : recvAll stale k packets = some received) :
    List.Forall₂ (fun b r => totalSize (r.map Prod.fst) ≤ totalSize b) bs received := by
  induction bs generalizing n k seq packets received with
  | nil =>
    cases send
    cases recv
    exact .nil
  | cons b bs ih =>
    obtain ⟨bytes, rest, rfl, hpack, hsend⟩ := sendBatches_cons_inv send
    obtain ⟨r, rs, rfl, hr, hrs⟩ := recvAll_cons_inv recv
    refine .cons ?_ (ih (fun b' h' => sendable b' (by simp [h']))
      (fun r' h' => noWrap r' (by simp [h'])) hsend hrs)
    rw [recvGrp_framed] at hr
    by_cases h4 : (UInt16.ofNat (4 + bytes.length)).toNat < 4
    · rw [if_pos h4] at hr
      cases hr
    · rw [if_neg h4] at hr
      rw [Nat.not_lt] at h4
      have hmod := Nat.mod_le (4 + bytes.length) (2 ^ 16)
      rw [totalSize_recvLoop (noWrap r (by simp)) hr, sizeLeft_framed h4,
        ← length_pack (sendable b (by simp)) hpack]
      omega

theorem batches_sound_of_received {bs : List (List Message)}
    (sendable : ∀ b ∈ bs, ∀ m ∈ b, Sendable m) {k : ℕ} {seq : UInt16}
    {packets : List (List UInt8)} {received : List (List (Message × UInt32))}
    (noWrap : ∀ r ∈ received, NoWrap r) (send : sendBatches fill n seq bs = some packets)
    (recv : recvAll stale k packets = some received)
    (recovers : List.Forall₂ (fun b r => List.Forall₂ Recovers b (r.map Prod.fst)) bs received) :
    ∀ b ∈ bs, FitsLength b ∧ ∀ m ∈ b, Sound m := by
  induction bs generalizing n k seq packets received with
  | nil => simp
  | cons b bs ih =>
    obtain ⟨bytes, rest, rfl, hpack, hsend⟩ := sendBatches_cons_inv send
    obtain ⟨r, rs, rfl, hr, hrs⟩ := recvAll_cons_inv recv
    rw [forall₂_cons] at recovers
    have hb := sendable b (by simp)
    have hlen := length_pack hb hpack
    have htail := ih (fun b' h' => sendable b' (by simp [h']))
      (fun r' h' => noWrap r' (by simp [h'])) hsend hrs recovers.2
    rw [recvGrp_framed] at hr
    by_cases h4 : (UInt16.ofNat (4 + bytes.length)).toNat < 4
    · rw [if_pos h4] at hr
      cases hr
    · rw [if_neg h4] at hr
      rw [Nat.not_lt] at h4
      have htotal : totalSize (r.map Prod.fst) = totalSize b :=
        sum_eq_of_forall₂ (fun _ _ h => h.getSerializedSize_eq) recovers.1
      have hfits : FitsLength b := by
        have hmod := Nat.mod_lt (4 + bytes.length) (show 0 < 2 ^ 16 by decide)
        rw [totalSize_recvLoop (noWrap r (by simp)) hr, sizeLeft_framed h4] at htotal
        rw [UInt16.toNat_ofNat'] at h4
        unfold FitsLength
        omega
      have hsmall : totalSize b < 2 ^ 16 := by
        unfold FitsLength at hfits
        omega
      intro b' hb'
      cases mem_cons.mp hb' with
      | inl heq => rw [heq]; exact ⟨hfits, sound_of_received hb hsmall hpack hr recovers.1⟩
      | inr hin => exact htail b' hin

theorem batches_received_of_sound {bs : List (List Message)}
    (sendable : ∀ b ∈ bs, ∀ m ∈ b, Sendable m)
    (sound : ∀ b ∈ bs, FitsLength b ∧ ∀ m ∈ b, Sound m) (n k : ℕ) (seq : UInt16) :
    ∃ packets received, sendBatches fill n seq bs = some packets ∧
      recvAll stale k packets = some received ∧
      List.Forall₂ (fun b r => List.Forall₂ Recovers b (r.map Prod.fst)) bs received ∧
      ∀ r ∈ received, NoWrap r := by
  induction bs generalizing n k seq with
  | nil => exact ⟨[], [], rfl, rfl, .nil, by simp⟩
  | cons b bs ih =>
    have hb := sendable b (by simp)
    have hfits := (sound b (by simp)).1
    unfold FitsLength at hfits
    obtain ⟨packets, received, hsend, hrecv, hall, hwrap⟩ :=
      ih (fun b' h' => sendable b' (by simp [h'])) (fun b' h' => sound b' (by simp [h']))
        (n + b.length) (k + 1) (seq + 1)
    obtain ⟨bytes, hpack, hloop⟩ := received_of_sound fill (stale k) hb (by omega)
      (sound b (by simp)).2 n 0 (totalSize b)
    have hlen := length_pack hb hpack
    obtain ⟨r, hr, hrec, hrwrap⟩ := hloop hlen.le
    have hnat : (UInt16.ofNat (4 + bytes.length)).toNat = 4 + totalSize b := by
      rw [UInt16.toNat_ofNat', Nat.mod_eq_of_lt (by omega), hlen]
    have h4 : 4 ≤ (UInt16.ofNat (4 + bytes.length)).toNat := by omega
    have hleft : (UInt16.ofNat (4 + bytes.length)).toUInt32 - 4 = UInt32.ofNat (totalSize b) := by
      rw [← UInt32.toNat_inj, sizeLeft_framed h4, UInt32.toNat_ofNat', Nat.mod_eq_of_lt (by omega),
        Nat.mod_eq_of_lt (by omega), hlen]
      omega
    have hgrp : recvGrp (stale k) (framed seq bytes) = some r := by
      rw [recvGrp_framed, if_neg (Nat.not_lt.mpr h4), hleft, hlen, hr]
    refine ⟨framed seq bytes :: packets, r :: received, ?_, ?_, .cons hrec hall, ?_⟩
    · simp only [sendBatches, hpack, hsend, Option.bind_eq_bind, Option.bind_some, Option.pure_def]
    · simp only [recvAll, hgrp, hrecv, Option.bind_eq_bind, Option.bind_some, Option.pure_def]
    · intro r' hr'
      cases mem_cons.mp hr' with
      | inl heq => rw [heq]; exact hrwrap
      | inr hin => exact hwrap r' hin

end Packets

theorem framingExact_batches {seq : UInt16} {stale : ℕ → ℕ → Message}
    {queued : List Message} (sendable : ∀ m ∈ queued, Sendable m)
    (exact : FramingExact fill seq stale queued) :
    ∀ b ∈ batches (grpMaxMsgs - 1) queued, FitsLength b ∧ ∀ m ∈ b, Sound m := by
  obtain ⟨packets, received, send, recv, recovers, noWrap⟩ := exact
  have hsendable : ∀ b ∈ batches (grpMaxMsgs - 1) queued, ∀ m ∈ b, Sendable m :=
    fun b hb m hm => sendable m (mem_of_mem_batches hb hm)
  have hwrap : ∀ r ∈ received, NoWrap r := fun r hr m hm =>
    noWrap m (mem_flatten_of_mem hr hm)
  rw [sendQueuedMessages, sendLoop_batches sendable] at send
  have hle := received_le hsendable hwrap send recv
  have hflat : List.Forall₂ Recovers (batches (grpMaxMsgs - 1) queued).flatten
      (received.map (List.map Prod.fst)).flatten := by
    rw [flatten_batches, ← map_flatten]
    exact recovers
  have hsame : ∀ a b : Message, Recovers a b → b.getSerializedSize = a.getSerializedSize :=
    fun _ _ h => h.getSerializedSize_eq
  have haligned := forall₂_of_flatten getSerializedSize_pos hsame
    (forall₂_map_right_iff.mpr hle) hflat
  exact batches_sound_of_received hsendable hwrap send recv (forall₂_map_right_iff.mp haligned)

theorem framingExact_of_batches {queued : List Message} (sendable : ∀ m ∈ queued, Sendable m)
    (sound : ∀ b ∈ batches (grpMaxMsgs - 1) queued, FitsLength b ∧ ∀ m ∈ b, Sound m)
    (fill : ℕ → ℕ → UInt8) (seq : UInt16) (stale : ℕ → ℕ → Message) :
    FramingExact fill seq stale queued := by
  obtain ⟨packets, received, send, recv, recovers, noWrap⟩ :=
    batches_received_of_sound (fun b hb m hm => sendable m (mem_of_mem_batches hb hm)) sound 0 0 seq
  refine ⟨packets, received, ?_, recv, ?_, fun r hr => ?_⟩
  · rw [sendQueuedMessages, sendLoop_batches sendable, send]
  · rw [← flatten_batches (grpMaxMsgs - 1) queued, map_flatten]
    exact rel_flatten (forall₂_map_right_iff.mpr recovers)
  · obtain ⟨rs, hrs, hin⟩ := mem_flatten.mp hr
    exact noWrap rs hrs r hin

/-- The queued HELLO and ANT messages are what the receiver gets, in order and
within the length it is given, exactly when each batch of sixty-four fits the
16-bit length and each ANT message has one delay for each junction, coordinates
that 32 bits hold, and a HELLO record with the bytes of its ant. -/
theorem framingExact_iff {queued : List Message} (sendable : ∀ m ∈ queued, Sendable m)
    (fill : ℕ → ℕ → UInt8) (seq : UInt16) (stale : ℕ → ℕ → Message) :
    FramingExact fill seq stale queued ↔
      (∀ b ∈ batches (grpMaxMsgs - 1) queued, 4 + totalSize b < 2 ^ 16) ∧
        ∀ m ∈ queued, m.messageType = .hello ∨
          m.ant.sequenceOfJunctions.length = m.ant.sDelay.length ∧
            CoordinatesFit m.ant ∧ OverlapAgrees m := by
  constructor
  · intro h
    have hsound := framingExact_batches sendable h
    refine ⟨fun b hb => (hsound b hb).1, fun m hm => ?_⟩
    rw [← flatten_batches (grpMaxMsgs - 1) queued, mem_flatten] at hm
    obtain ⟨b, hb, hin⟩ := hm
    exact (hsound b hb).2 m hin
  · intro h
    exact framingExact_of_batches sendable
      (fun b hb => ⟨h.1 b hb, fun m hm => h.2 m (mem_of_mem_batches hb hm)⟩) fill seq stale

theorem framingExact_iff_echoed :
    FramingExact (fun _ _ => 0) 0 (fun _ _ => echoedMessage) [echoedMessage, echoedMessage] :=
  (framingExact_iff (by simp [Sendable, echoedMessage]) _ _ _).mpr (by
    rw [batches_cons, grpMaxMsgs, take_of_length_le (by simp), drop_of_length_le (by simp),
      batches_nil]
    refine ⟨by simp only [mem_singleton, forall_eq]; decide, ?_⟩
    simp only [mem_cons, not_mem_nil, or_false, or_self, forall_eq]
    exact .inr ⟨rfl, ⟨⟨0, by decide, by decide +kernel⟩, 0, by decide, by decide +kernel⟩,
      by decide +kernel⟩)

def crowdedMessage : Message :=
  { echoedMessage with
    messageType := .hello
    hello := ⟨0, 0, 0, 0, 0, replicate 250 1⟩ }

/-- One ANT message whose HELLO record differs from its ant, or sixty-four HELLO
messages of 1038 bytes, are not received as they were queued. -/
theorem overlaidMessage_not_framed : (Sendable overlaidMessage ∧
      ¬ FramingExact (fun _ _ => 0) 0 (fun _ _ => overlaidMessage) [overlaidMessage]) ∧
    Sendable crowdedMessage ∧
      ¬ FramingExact (fun _ _ => 0) 0 (fun _ _ => crowdedMessage)
        (replicate 64 crowdedMessage) := by
  have hoverlaid : Sendable overlaidMessage := .inr rfl
  have hcrowded : Sendable crowdedMessage := .inl rfl
  refine ⟨⟨hoverlaid, fun h => ?_⟩, hcrowded, fun h => ?_⟩
  · have hbatches := framingExact_batches (by simpa using hoverlaid) h
    rw [batches_cons, take_nil] at hbatches
    have hdiffer : ¬ OverlapAgrees overlaidMessage := by decide +kernel
    cases (hbatches _ mem_cons_self).2 overlaidMessage mem_cons_self with
    | inl type => cases type
    | inr hsound => exact hdiffer hsound.2.2
  · have hbatches := framingExact_batches (by simpa using hcrowded) h
    rw [replicate_succ, batches_cons] at hbatches
    have hfits := (hbatches _ mem_cons_self).1
    have htotal : totalSize (crowdedMessage ::
        List.take (grpMaxMsgs - 1) (replicate 63 crowdedMessage)) = 66432 := by
      decide +kernel
    rw [FitsLength, htotal] at hfits
    omega

end Egsr.Grp.Framing
