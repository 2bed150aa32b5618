import Egsr.Lte.RlcUm

/-! SDUs that go through the unacknowledged mode in PDUs of any sizes come out as
they were, as soon as they are complete. -/

namespace Egsr.Lte.Rlc.UmSegmentation

open Lib.Outcome Lib.Run LteRlcUmTx LteRlcUmRx List Building SequenceNumber10

/-! ## Runs -/

inductive Action where
  | transmit (sdu : Bytes)
  | opportunity (bytes : ℕ)

structure Sent where
  bytes : ℕ
  rlcHeader : LteRlcHeader
  packet : Bytes

structure Link where
  tx : LteRlcUmTx
  /-- The SDUs that were put into the transmission buffer. -/
  accepted : List Bytes
  sent : List Sent

def start (m_maxTxBufferSize : ℕ) : Link := ⟨⟨m_maxTxBufferSize, 0, [], .ofValue 0⟩, [], []⟩

variable (l : Link)

def step : Action → Except Fault Link
  | .transmit sdu =>
    let tx := l.tx.doTransmitPdcpPdu sdu
    .ok { l with
      tx := tx
      accepted := l.accepted ++ (tx.m_txBuffer.drop l.tx.m_txBuffer.length).map TxPdu.m_pdu }
  | .opportunity bytes =>
    (l.tx.doNotifyTxOpportunity bytes).map fun out =>
      { l with tx := out.2, sent := l.sent ++ out.1.toList.map fun pdu => ⟨bytes, pdu.1, pdu.2⟩ }

def bufferSize (buffer : List TxPdu) : ℕ := (buffer.map fun p => p.m_pdu.length).sum

def Readable (s : Sent) : Prop :=
  s.packet.length ≤ s.bytes ∧ ∃ h size, LteRlcHeader.fresh.deserialize s.packet = some (h, size) ∧
    h.m_extensionBits = s.rlcHeader.m_extensionBits ∧
      h.m_lengthIndicators = s.rlcHeader.m_lengthIndicators

def received : Except Fault LteRlcUmRx :=
  l.sent.foldlM (fun rx s => rx.doReceivePdu s.packet) LteRlcUmRx.fresh

/-- The SDUs of which nothing is left in the transmission buffer. -/
def completed : List Bytes := l.accepted.take (l.accepted.length - l.tx.m_txBuffer.length)

structure InOrder : Prop where
  readable : ∀ s ∈ l.sent, Readable s
  size : l.tx.m_txBufferSize = bufferSize l.tx.m_txBuffer
  delivered : Ensures (received l) (fun rx => rx.delivered = completed l) fun _ => False

abbrev tooMany : ℕ := 43689

/-- There are that many packets, each small enough for a length indicator, and all go into the PDU
with another byte. -/
def Crowded (bytes : ℕ) (buffer : List TxPdu) : Prop :=
  tooMany < buffer.length ∧ (∀ p ∈ buffer.take tooMany, p.m_pdu.length ≤ 2047) ∧
    2 + packedSize tooMany + bufferSize (buffer.take tooMany) + 1 ≤ bytes
deriving Decidable

/-- SDUs are not empty and the buffer does not get larger than its counter; no PDU is crowded. -/
def Proper : Action → Prop
  | .transmit sdu => sdu ≠ [] ∧ bufferSize l.tx.m_txBuffer + sdu.length < 2 ^ 32
  | .opportunity bytes => ¬Crowded bytes l.tx.m_txBuffer

variable (lis : List ℕ)

def header : LteRlcHeader :=
  { LteRlcHeader.fresh with
    m_extensionBits := replicate lis.length 1 ++ [0]
    m_lengthIndicators := lis
    m_headerLength := u16 (2 + packedSize lis.length) }

def partHeader : LteRlcHeader :=
  { LteRlcHeader.fresh with
    m_extensionBits := replicate lis.length 1
    m_lengthIndicators := lis
    m_headerLength := if lis.length = 0 then 0 else u16 (2 + packedSize (lis.length - 1)) }

theorem headerLength_push (e : ℕ) :
    ((partHeader lis).pushExtensionBit e).m_headerLength = u16 (2 + packedSize lis.length) := by
  have hlen : ((partHeader lis).m_extensionBits ++ [e]).length = lis.length + 1 := by
    rw [length_append, partHeader, length_replicate]
    rfl
  rw [LteRlcHeader.pushExtensionBit]
  dsimp only
  rw [hlen]
  by_cases hnil : lis.length = 0
  · rw [hnil]
    rfl
  · have hpart : (partHeader lis).m_headerLength = u16 (2 + packedSize (lis.length - 1)) := by
      rw [partHeader, if_neg hnil]
    rw [if_neg (by omega), hpart, u16_u16_add, u16_u16_add, packedSize, packedSize]
    split_ifs
    · exact congrArg u16 (by omega)
    · exact congrArg u16 (by omega)

theorem push_last : (partHeader lis).pushExtensionBit DATA_FIELD_FOLLOWS = header lis := by
  have hlength := headerLength_push lis DATA_FIELD_FOLLOWS
  rw [header, ← hlength]
  rfl

theorem push_li (li : ℕ) :
    ((partHeader lis).pushExtensionBit E_LI_FIELDS_FOLLOWS).pushLengthIndicator li =
      partHeader (lis ++ [li]) := by
  have hlength := headerLength_push lis E_LI_FIELDS_FOLLOWS
  have hcount : (lis ++ [li]).length = lis.length + 1 := by simp
  have hbits : replicate (lis ++ [li]).length 1 = replicate lis.length 1 ++ [1] := by
    rw [hcount, replicate_succ']
  have hnext : partHeader (lis ++ [li]) = { LteRlcHeader.fresh with
      m_extensionBits := replicate lis.length 1 ++ [1]
      m_lengthIndicators := lis ++ [li]
      m_headerLength := u16 (2 + packedSize lis.length) } := by
    rw [partHeader, hbits, hcount, if_neg (Nat.succ_ne_zero _), Nat.add_sub_cancel]
  rw [hnext, ← hlength]
  rfl

/-! ## The data field -/

section Fill

theorem bufferSize_cons (p : TxPdu) (buffer : List TxPdu) : bufferSize (p :: buffer) =
    p.m_pdu.length + bufferSize buffer := by
  rw [bufferSize, map_cons, sum_cons, bufferSize]

theorem bufferSize_append (buffer buffer' : List TxPdu) :
    bufferSize (buffer ++ buffer') = bufferSize buffer + bufferSize buffer' := by
  rw [bufferSize, map_append, sum_append, bufferSize, bufferSize]

structure Cut (whole taken remain : TxPdu) : Prop where
  bytes : whole.m_pdu = taken.m_pdu ++ remain.m_pdu
  some : taken.m_pdu ≠ []
  left : remain.m_pdu ≠ []
  status : (taken.status, remain.status) = splitStatus whole.status

/-- Packets `full` and then `last` go into the PDU, `before` they do and `after` that. -/
def Takes (before full : List TxPdu) (last : TxPdu) (after : List TxPdu) : Prop :=
  before = full ++ last :: after ∨
    ∃ whole remain rest, before = full ++ whole :: rest ∧ after = remain :: rest ∧
      Cut whole last remain

def Waiting (p : TxPdu) : Prop := p.m_pdu ≠ [] ∧ (p.status = .FULL_SDU ∨ p.status = .LAST_SEGMENT)

structure Packed (room : ℕ) (done : List TxPdu) (b : Building) : Prop where
  dataField : b.dataField = done
  rlcHeader : b.rlcHeader = partHeader (done.map fun p => p.m_pdu.length)
  size : b.nextSegmentSize + packedSize done.length + bufferSize done = room
  nextSegmentId : b.nextSegmentId = done.length + 1

structure Finished (room : ℕ) (before full : List TxPdu) (last : TxPdu) (b : Building) : Prop where
  dataField : b.dataField = full ++ [last]
  rlcHeader : b.rlcHeader = header (full.map fun p => p.m_pdu.length)
  size : packedSize full.length + bufferSize full + last.m_pdu.length ≤ room
  small : ∀ p ∈ full, p.m_pdu.length ≤ 2047
  takes : Takes before full last b.m_txBuffer
  bufferSize : b.m_txBufferSize = bufferSize b.m_txBuffer

variable {room : ℕ} {done buffer : List TxPdu} {b : Building} {first : TxPdu}

theorem whole_status {status : SduStatus} (h : status = .FULL_SDU ∨ status = .LAST_SEGMENT) :
    wholeStatus (splitStatus status).1 = status := by
  rcases h with rfl | rfl <;> rfl

theorem addSegment_finished (h : Packed room done b) (small : ∀ p ∈ done, p.m_pdu.length ≤ 2047)
    (hfirst : Waiting first)
    (hnext : b.nextSegmentSize ≠ 0) (hsize : b.m_txBufferSize = bufferSize buffer)
    (hlt : bufferSize (first :: buffer) < 2 ^ 32) :
    ∃ last, Finished room (done ++ first :: buffer) done last (b.addSegment first buffer) := by
  have hlen : 0 < first.m_pdu.length := length_pos_of_ne_nil hfirst.1
  have hroom := h.size
  rw [bufferSize_cons] at hlt
  rw [addSegment]
  dsimp only
  split_ifs with hrest
  · rw [length_drop] at hrest
    have hmin : min first.m_pdu.length b.nextSegmentSize = b.nextSegmentSize := by omega
    rw [hmin]
    refine ⟨⟨first.m_pdu.take b.nextSegmentSize, (splitStatus first.status).1⟩, ?_, ?_, ?_,
      small, ?_, ?_⟩
    · rw [h.dataField]
    · rw [h.rlcHeader]
      exact push_last _
    · simp only [length_take]
      omega
    · refine Or.inr ⟨first, ⟨first.m_pdu.drop b.nextSegmentSize, (splitStatus first.status).2⟩,
        buffer, rfl, rfl, ?_⟩
      refine ⟨(take_append_drop _ _).symm, ?_, ?_, rfl⟩
      · exact ne_nil_of_length_pos (by rw [length_take]; omega)
      · exact ne_nil_of_length_pos (by rw [length_drop]; omega)
    · dsimp only
      rw [hsize, bufferSize_cons, length_drop, u32_of_lt (by omega),
        Nat.add_comm (bufferSize buffer)]
  · rw [length_drop] at hrest
    have hmin : min first.m_pdu.length b.nextSegmentSize = first.m_pdu.length := by omega
    rw [hmin, take_length]
    refine ⟨first, ?_, ?_, ?_, small, Or.inl rfl, hsize⟩
    · dsimp only
      rw [h.dataField, whole_status hfirst.2]
    · rw [h.rlcHeader]
      exact push_last _
    · omega

theorem addLast_finished (h : Packed room done b) (small : ∀ p ∈ done, p.m_pdu.length ≤ 2047)
    (hfits : first.m_pdu.length ≤ b.nextSegmentSize)
    (hsize : b.m_txBufferSize = bufferSize buffer) :
    Finished room (done ++ first :: buffer) done first (b.addLast first buffer) := by
  have hroom := h.size
  refine ⟨?_, ?_, by omega, small, Or.inl rfl, hsize⟩
  · rw [addLast, h.dataField]
  · rw [addLast, h.rlcHeader]
    exact push_last _

theorem addWithLi_packed {second : TxPdu} (h : Packed room done b)
    (hfits : first.m_pdu.length + 2 < b.nextSegmentSize) :
    Packed room (done ++ [first]) (b.addWithLi first second) ∧
    (b.addWithLi first second).nextSegmentSize ≠ 0 := by
  have hroom := h.size
  have hid := h.nextSegmentId
  have hnext : (b.addWithLi first second).nextSegmentSize =
      b.nextSegmentSize - ((if b.nextSegmentId % 2 ≠ 0 then 2 else 1) + first.m_pdu.length) := rfl
  have hlen : (done ++ [first]).length = done.length + 1 := by simp
  refine ⟨⟨?_, ?_, ?_, ?_⟩, ?_⟩
  · rw [addWithLi, h.dataField]
  · rw [addWithLi, h.rlcHeader, map_append]
    exact push_li _ _
  · have hsingle : bufferSize [first] = first.m_pdu.length := by simp [bufferSize]
    rw [hnext, hlen, bufferSize_append, hsingle]
    rw [packedSize] at hroom ⊢
    split_ifs <;> omega
  · rw [hlen, ← hid]
    rfl
  · rw [hnext]
    split_ifs <;> omega

theorem fill_finished (h : Packed room done b) (small : ∀ p ∈ done, p.m_pdu.length ≤ 2047)
    (waiting : ∀ p ∈ first :: buffer, Waiting p) (hnext : b.nextSegmentSize ≠ 0)
    (hsize : b.m_txBufferSize = bufferSize buffer) (hlt : bufferSize (first :: buffer) < 2 ^ 32) :
    ∃ full last, Finished room (done ++ first :: buffer) full last (fill first buffer b) := by
  induction buffer generalizing first done b with
  | nil =>
    have hfirst := waiting first mem_cons_self
    have hlen : 0 < first.m_pdu.length := length_pos_of_ne_nil hfirst.1
    rw [fill.eq_def]
    dsimp only
    rw [if_neg (by omega)]
    split_ifs with hcut
    · exact ⟨done, addSegment_finished h small hfirst hnext hsize hlt⟩
    · exact ⟨done, first, addLast_finished h small (by omega) hsize⟩
  | cons second buffer ih =>
    have hfirst := waiting first mem_cons_self
    have hlen : 0 < first.m_pdu.length := length_pos_of_ne_nil hfirst.1
    rw [fill.eq_def]
    dsimp only
    rw [if_neg (by omega)]
    split_ifs with hcut hlast
    · exact ⟨done, addSegment_finished h small hfirst hnext hsize hlt⟩
    · exact ⟨done, first, addLast_finished h small (by omega) hsize⟩
    · obtain ⟨hpacked, hleft⟩ := @addWithLi_packed room done b first second h (by omega)
      rw [bufferSize_cons, bufferSize_cons] at hlt
      rw [bufferSize_cons] at hsize
      have hbuffer : (b.addWithLi first second).m_txBufferSize = bufferSize buffer := by
        rw [addWithLi]
        dsimp only
        rw [hsize, sub32_of_le (by omega) (by omega), Nat.add_sub_cancel_left]
      have hsmall : ∀ p ∈ done ++ [first], p.m_pdu.length ≤ 2047 := by
        intro p hp
        rcases mem_append.mp hp with hp | hp
        · exact small p hp
        · rw [mem_singleton.mp hp]
          omega
      have hrest := ih hpacked hsmall (fun p hp => waiting p (mem_cons_of_mem _ hp)) hleft hbuffer
        (by rw [bufferSize_cons]; omega)
      rwa [append_assoc] at hrest

end Fill

/-! ## Reading a header back -/

section Header

open Lib.BitFields

theorem toNat_first (fi e sn : ℕ) :
    (u8 ((fi <<< 3 &&& 0x18) ||| (e <<< 2 &&& 0x04) ||| (sn >>> 8 &&& 0x03))).toNat =
      fi % 4 * 8 + e % 2 * 4 + sn / 256 % 4 := by
  have hfi : fi <<< 3 &&& 0x18 = fi % 4 * 8 := shiftLeft_field fi 2 3
  have he : e <<< 2 &&& 0x04 = e % 2 * 4 := shiftLeft_field e 1 2
  have hsn : sn >>> 8 &&& 0x03 = sn / 256 % 4 := shiftRight_low sn 8 2
  rw [UInt8.toNat_ofNat', hfi, he, hsn, or_below (y := e % 2 * 4) 3 (by omega) (by omega),
    or_below 2 (by omega) (by omega)]
  exact Nat.mod_eq_of_lt (by omega)

theorem deserialize_fresh {byte_1 byte_2 : UInt8} {rest : List UInt8} {e li : List ℕ} {size : ℕ}
    (read : if byte_1.toNat / 4 % 2 = 0 then e = [] ∧ li = [] ∧ size = 0
      else readLengthIndicators rest = some (e, li, size)) :
    ∃ h, LteRlcHeader.fresh.deserialize (byte_1 :: byte_2 :: rest) = some (h, u16 (2 + size)) ∧
      h.m_framingInfo = byte_1.toNat / 8 % 4 ∧
      h.m_sequenceNumber = (byte_1.toNat % 4 * 256 + byte_2.toNat) % 1024 ∧
      h.m_extensionBits = byte_1.toNat / 4 % 2 :: e ∧ h.m_lengthIndicators = li := by
  rw [LteRlcHeader.deserialize]
  simp only [read_extensionBit, read_framingInfo, read_sequenceNumber _ byte_2.toNat_lt]
  by_cases hfirst : byte_1.toNat / 4 % 2 = 0
  · rw [if_pos hfirst] at read
    obtain ⟨rfl, rfl, rfl⟩ := read
    rw [if_pos hfirst]
    exact ⟨_, rfl, rfl, rfl, rfl, rfl⟩
  · rw [if_neg hfirst] at read
    rw [if_neg hfirst, read]
    exact ⟨_, rfl, rfl, rfl, rfl, rfl⟩

variable {lis : List ℕ} {sn fi : ℕ}

abbrev pduHeader (lis : List ℕ) (sn fi : ℕ) : LteRlcHeader :=
  ((header lis).setSequenceNumber sn).setFramingInfo fi

theorem length_serialize (lis : List ℕ) (sn fi : ℕ) :
    (pduHeader lis sn fi).serialize.length = 2 + packedSize lis.length := by
  cases lis with
  | nil => rfl
  | cons li lis =>
    have hbits : (replicate lis.length 1 ++ [0] : List ℕ).length = (li :: lis).length := by simp
    have hlen := length_writeLengthIndicators hbits
    rw [← hlen]
    exact Nat.add_comm _ 2

theorem header_back (small : ∀ li ∈ lis, li ≤ 2047) (hsn : sn < 1024) (hfi : fi < 4)
    (rest : List UInt8) :
    ∃ h, LteRlcHeader.fresh.deserialize ((pduHeader lis sn fi).serialize ++ rest) =
      some (h, u16 (2 + packedSize lis.length)) ∧ h.m_framingInfo = fi ∧ h.m_sequenceNumber = sn ∧
      h.m_extensionBits = replicate lis.length 1 ++ [0] ∧ h.m_lengthIndicators = lis := by
  obtain ⟨first, tail, e, htail, he, hfirst, hread⟩ :=
    read_bits lis.length [] (fun li hli => Nat.lt_succ_of_le (small li hli)) le_rfl rest
  have hand : fi &&& 0x03 = fi := (and_low fi 2).trans (Nat.mod_eq_of_lt hfi)
  have hserialize : (pduHeader lis sn fi).serialize =
      u8 (((fi &&& 0x03) <<< 3 &&& 0x18) ||| (first <<< 2 &&& 0x04) ||| (sn >>> 8 &&& 0x03)) ::
        u8 (sn &&& 0xFF) :: writeLengthIndicators tail lis := by
    have hbits : (pduHeader lis sn fi).m_extensionBits = first :: tail := htail
    rw [LteRlcHeader.serialize.eq_def, hbits]
    rfl
  have hbyte := toNat_first fi first sn
  rw [take_length] at hread
  have hbit : (u8 ((fi <<< 3 &&& 0x18) ||| (first <<< 2 &&& 0x04) ||| (sn >>> 8 &&& 0x03))).toNat /
      4 % 2 = first := by omega
  rw [← hbit] at hread
  obtain ⟨h, hback, hframing, hnumber, hext, hli⟩ :=
    @deserialize_fresh _ (u8 (sn &&& 0xFF)) (writeLengthIndicators tail lis ++ rest) e _ _ hread
  rw [hserialize, hand]
  refine ⟨h, hback, hframing.trans ?_, hnumber.trans ?_, ?_, hli⟩
  · omega
  · rw [toNat_low]
    omega
  · rw [hext, hbit, he]

theorem addHeader_ok (few : lis.length < tooMany) (sn fi : ℕ) (packet : Bytes) :
    addHeader (pduHeader lis sn fi) packet = .ok ((pduHeader lis sn fi).serialize ++ packet) := by
  have hlen := length_serialize lis sn fi
  have hsize : (pduHeader lis sn fi).getSerializedSize = 2 + packedSize lis.length := by
    have hsmall : 2 + packedSize lis.length < 2 ^ 16 := by
      rw [packedSize]
      change _ < 43689 at few
      omega
    exact u16_of_lt hsmall
  rw [addHeader, hlen, hsize, length_append, length_replicate, if_neg (by omega),
    drop_append_of_le_length (by rw [length_replicate]), drop_replicate, Nat.sub_self]
  rfl

end Header

section Pdu

variable {before full after : List TxPdu} {last : TxPdu}

theorem takes_nonempty (h : Takes before full last after) (waiting : ∀ p ∈ before, Waiting p) :
    last.m_pdu ≠ [] := by
  obtain rfl | ⟨whole, remain, rest, rfl, -, hcut⟩ := h
  · exact (waiting last (by simp)).1
  · exact hcut.some

theorem takes_prefix (h : Takes before full last after) : full.length < before.length ∧
    ∀ k ≤ full.length, before.take k = full.take k := by
  have split : ∃ p rest, before = full ++ p :: rest := by
    obtain h | ⟨whole, -, rest, h, -⟩ := h
    · exact ⟨last, after, h⟩
    · exact ⟨whole, rest, h⟩
  obtain ⟨p, rest, rfl⟩ := split
  refine ⟨by simp, fun k hk => ?_⟩
  exact take_append_of_le_length hk

theorem bufferSize_take_le (buffer : List TxPdu) (k : ℕ) : bufferSize (buffer.take k) ≤
    bufferSize buffer := by
  have h := bufferSize_append (buffer.take k) (buffer.drop k)
  rw [take_append_drop] at h
  omega

theorem finished_few {bytes : ℕ} {b : Building} (h : Finished (bytes - 2) before full last b)
    (hbytes : 2 < bytes)
    (waiting : ∀ p ∈ before, Waiting p) (room : ¬Crowded bytes before) : full.length < tooMany := by
  by_contra hmany
  obtain ⟨hlt, htake⟩ := takes_prefix h.takes
  have hlast : 0 < last.m_pdu.length := length_pos_of_ne_nil (takes_nonempty h.takes waiting)
  have hmany' : tooMany ≤ full.length := not_lt.mp hmany
  have hsize := h.size
  have hle := bufferSize_take_le full tooMany
  have hpacked : packedSize tooMany ≤ packedSize full.length := by
    rw [packedSize, packedSize]
    omega
  refine room ⟨by omega, ?_, ?_⟩
  · rw [htake tooMany hmany']
    exact fun p hp => h.small p (mem_of_mem_take hp)
  · rw [htake tooMany hmany']
    omega

theorem doNotifyTxOpportunity_spec {tx : LteRlcUmTx} {bytes : ℕ} (hbytes : 2 < bytes)
    (hne : tx.m_txBuffer ≠ []) (waiting : ∀ p ∈ tx.m_txBuffer, Waiting p)
    (hsize : tx.m_txBufferSize = bufferSize tx.m_txBuffer)
    (hlt : bufferSize tx.m_txBuffer < 2 ^ 32) (room : ¬Crowded bytes tx.m_txBuffer) :
    ∃ full last b first, Finished (bytes - 2) tx.m_txBuffer full last b ∧
    (full ++ [last]).head? = some first ∧
      full.length < tooMany ∧
      tx.doNotifyTxOpportunity bytes = .ok
        (some (pduHeader (full.map fun p => p.m_pdu.length) tx.m_sequenceNumber.m_value
          (framingInfoOf first.status last.status),
            (pduHeader (full.map fun p => p.m_pdu.length) tx.m_sequenceNumber.m_value
              (framingInfoOf first.status last.status)).serialize ++
              (full ++ [last]).flatMap TxPdu.m_pdu), { tx with
            m_txBuffer := b.m_txBuffer
            m_txBufferSize := b.m_txBufferSize
            m_sequenceNumber := tx.m_sequenceNumber.next }) := by
  cases hbuffer : tx.m_txBuffer with
  | nil => exact absurd hbuffer hne
  | cons first buffer =>
    rw [hbuffer] at waiting hsize hlt room
    have hstart : Packed (bytes - 2) []
        ⟨bytes - 2, 1, [], .fresh, sub32 tx.m_txBufferSize first.m_pdu.length, []⟩ :=
          ⟨rfl, rfl, rfl, rfl⟩
    have hsum := bufferSize_cons first buffer
    have hrest : sub32 tx.m_txBufferSize first.m_pdu.length = bufferSize buffer := by
      rw [hsize, hsum, sub32_of_le (by omega) (by omega), Nat.add_sub_cancel_left]
    obtain ⟨full, last, hfinished⟩ :=
      fill_finished hstart (fun p hp => nomatch hp) waiting (by dsimp only; omega) hrest hlt
    rw [nil_append] at hfinished
    have hfew := finished_few hfinished hbytes waiting room
    have hfew' : (full.map fun p => p.m_pdu.length).length < tooMany := by rwa [length_map]
    have hhead : ∃ head, (full ++ [last]).head? = some head := by
      cases full with
      | nil => exact ⟨last, rfl⟩
      | cons p full => exact ⟨p, rfl⟩
    obtain ⟨head, hhead⟩ := hhead
    refine ⟨full, last, _, head, hfinished, hhead, hfew, ?_⟩
    rw [doNotifyTxOpportunity, if_neg (by omega), hbuffer]
    simp only [hfinished.dataField, hfinished.rlcHeader, hhead, List.getLast?_concat,
      addHeader_ok hfew']
    rfl

end Pdu

/-! ## Reception in order -/

section Window

def withWindow (windowSize : ℕ) (vrUr vrUx vrUh : SequenceNumber10) (rxBuffer : List (ℕ × Bytes))
    (reorderingTimer : Bool) (rx : LteRlcUmRx) : LteRlcUmRx :=
  { rx with
    m_windowSize := windowSize
    m_vrUr := vrUr
    m_vrUx := vrUx
    m_vrUh := vrUh
    m_rxBuffer := rxBuffer
    m_reorderingTimer := reorderingTimer }

variable {windowSize : ℕ} {vrUr vrUx vrUh : SequenceNumber10} {rxBuffer : List (ℕ × Bytes)}
    {reorderingTimer : Bool} (rx : LteRlcUmRx)

theorem reassembleFull_withWindow (framingInfo : ℕ) :
    (withWindow windowSize vrUr vrUx vrUh rxBuffer reorderingTimer rx).reassembleFull framingInfo =
      withWindow windowSize vrUr vrUx vrUh rxBuffer reorderingTimer
      (rx.reassembleFull framingInfo) := by
  have hsdus : (withWindow windowSize vrUr vrUx vrUh rxBuffer reorderingTimer rx).m_sdusBuffer =
      rx.m_sdusBuffer := rfl
  rw [reassembleFull, reassembleFull, hsdus]
  split_ifs <;> rfl

theorem joinFirst_withWindow :
    (withWindow windowSize vrUr vrUx vrUh rxBuffer reorderingTimer rx).joinFirst =
      rx.joinFirst.map (withWindow windowSize vrUr vrUx vrUh rxBuffer reorderingTimer) := by
  obtain ⟨vrUr', vrUx', vrUh', windowSize', rxBuffer', timer', state, keepS0, sdusBuffer, expected,
      delivered⟩ := rx
  cases keepS0 <;> cases sdusBuffer <;> rfl

theorem reassembleKept_withWindow (framingInfo : ℕ) :
    (withWindow windowSize vrUr vrUx vrUh rxBuffer reorderingTimer rx).reassembleKept framingInfo =
      (rx.reassembleKept framingInfo).map
      (withWindow windowSize vrUr vrUx vrUh rxBuffer reorderingTimer) := by
  have hsdus : (withWindow windowSize vrUr vrUx vrUh rxBuffer reorderingTimer rx).m_sdusBuffer =
      rx.m_sdusBuffer := rfl
  rw [reassembleKept, reassembleKept, hsdus]
  split_ifs with hlast hmiddle hone
  · change (withWindow windowSize vrUr vrUx vrUh rxBuffer reorderingTimer { rx with
      m_reassemblingState := _ }).joinFirst >>= _ = _
    rw [joinFirst_withWindow]
    cases { rx with m_reassemblingState := .WAITING_S0_FULL }.joinFirst <;> rfl
  · exact joinFirst_withWindow { rx with m_reassemblingState := .WAITING_SI_SF }
  · change (withWindow windowSize vrUr vrUx vrUh rxBuffer reorderingTimer { rx with
      m_reassemblingState := _ }).joinFirst >>= _ = _
    rw [joinFirst_withWindow]
    cases { rx with m_reassemblingState := .WAITING_SI_SF }.joinFirst <;> rfl
  · rfl

theorem reassemble_withWindow (expectedSnLost : Bool) (framingInfo : ℕ) :
    (withWindow windowSize vrUr vrUx vrUh rxBuffer reorderingTimer rx).reassemble expectedSnLost
      framingInfo = (rx.reassemble expectedSnLost framingInfo).map
      (withWindow windowSize vrUr vrUx vrUh rxBuffer reorderingTimer) := by
  have hstate :
      (withWindow windowSize vrUr vrUx vrUh rxBuffer reorderingTimer rx).m_reassemblingState =
        rx.m_reassemblingState := rfl
  rw [reassemble, reassemble, hstate]
  cases rx.m_reassemblingState with
  | WAITING_S0_FULL => exact congrArg Except.ok (reassembleFull_withWindow rx framingInfo)
  | WAITING_SI_SF =>
    cases expectedSnLost with
    | true =>
      exact congrArg Except.ok
        (reassembleFull_withWindow { rx with
          m_keepS0 := none, m_reassemblingState := .WAITING_SI_SF } framingInfo)
    | false => exact reassembleKept_withWindow rx framingInfo

theorem reassembleAndDeliver_withWindow (packet : Bytes) :
    (withWindow windowSize vrUr vrUx vrUh rxBuffer reorderingTimer rx).reassembleAndDeliver packet =
      (rx.reassembleAndDeliver packet).map
      (withWindow windowSize vrUr vrUx vrUh rxBuffer reorderingTimer) := by
  rw [reassembleAndDeliver, reassembleAndDeliver]
  cases LteRlcHeader.fresh.deserialize packet with
  | none => rfl
  | some out =>
    dsimp only
    cases splitDataField out.1.m_extensionBits out.1.m_lengthIndicators (packet.drop out.2) with
    | error fault => rfl
    | ok sdus =>
      exact reassemble_withWindow
        { rx with
          m_expectedSeqNumber :=
            if out.1.m_sequenceNumber != rx.m_expectedSeqNumber.m_value then
              (ofValue out.1.m_sequenceNumber).add 1
            else rx.m_expectedSeqNumber.next
          m_sdusBuffer := rx.m_sdusBuffer ++ sdus } _ _

end Window

section Receive

/-- All PDUs up to this number have come. -/
structure UpTo (x : ℕ) (rx : LteRlcUmRx) : Prop where
  vrUr : rx.m_vrUr.m_value = x
  vrUh : rx.m_vrUh.m_value = x
  windowSize : rx.m_windowSize = 512
  rxBuffer : rx.m_rxBuffer = []
  reorderingTimer : rx.m_reorderingTimer = false

variable {rx : LteRlcUmRx} {x : ℕ} {p : Bytes}

variable {seqNumber : SequenceNumber10}

theorem outside_same (h : seqNumber.m_value = rx.m_vrUh.m_value) :
    (rx.isInsideReorderingWindow seqNumber).1 = false := by
  rw [isInsideReorderingWindow]
  dsimp only
  rw [@lt_same (seqNumber.setModulusBase _) (rx.m_vrUh.setModulusBase _) h, Bool.and_false]

theorem windowStart_value (hsize : rx.m_windowSize = 512) (hx : rx.m_vrUh.m_value < 1024) :
    rx.windowStart.m_value = (rx.m_vrUh.m_value + 512) % 1024 := by
  rw [windowStart, hsize, sub]
  dsimp only
  rw [tmod_small (by omega) (by omega)]
  omega

theorem lt_next {s t : SequenceNumber10} {base : ℕ} (hx : x < 1024) (hs : s.m_value = x)
    (ht : t.m_value = (x + 1) % 1024)
    (hbase : s.m_modulusBase = base) (hbase' : t.m_modulusBase = base) (hlt : base < 1024)
    (hne : base ≠ (x + 1) % 1024) : s.lt t = true := by
  rw [lt_iff, fromBase_eq (by omega) (by omega), fromBase_eq (by omega) (by omega), hs, ht,
    hbase, hbase']
  split_ifs <;> omega

theorem inside_previous (hx : x < 1024) (hsize : rx.m_windowSize = 512)
    (hvrUh : rx.m_vrUh.m_value = (x + 1) % 1024) (h : seqNumber.m_value = x) :
    (rx.isInsideReorderingWindow seqNumber).1 = true := by
  have hstart := @windowStart_value rx hsize (by omega)
  have hstart' :=
    @windowStart_value { rx with m_vrUh := rx.m_vrUh.setModulusBase rx.windowStart } hsize
    (show rx.m_vrUh.m_value < 1024 by omega)
  change _ = (rx.m_vrUh.m_value + 512) % 1024 at hstart'
  have hbase : fromBase
      ({ rx with m_vrUh := rx.m_vrUh.setModulusBase rx.windowStart } : LteRlcUmRx).windowStart =
        0 := by
    change (((_ : ℤ) - (rx.windowStart.m_value : ℤ)).tmod 1024 % 2 ^ 16).toNat = 0
    rw [hstart', hstart, sub_self, Int.zero_tmod]
    rfl
  rw [isInsideReorderingWindow]
  dsimp only
  rw [Bool.and_eq_true, le, gt, hbase]
  refine ⟨by simp, ?_⟩
  refine lt_next hx h hvrUh hstart' hstart (by omega) ?_
  omega

theorem moveWindow_next (hx : x < 1024) (hvrUr : rx.m_vrUr.m_value = x)
    (hvrUh : rx.m_vrUh.m_value = x) (hsize : rx.m_windowSize = 512)
    (hbuffer : rx.m_rxBuffer = [(x, p)])
    (hsn : seqNumber.m_value = x) : ∃ vrUh, vrUh.m_value = (x + 1) % 1024 ∧
      rx.moveWindow seqNumber = .ok { rx with m_vrUh := vrUh } := by
  have houtside := @outside_same rx seqNumber (hsn.trans hvrUh.symm)
  have hnext : (seqNumber.add 1).m_value = (x + 1) % 1024 := by rw [add, hsn]
  have hfirst :=
    @inside_previous { rx with m_vrUh := seqNumber.add 1 } x (.ofValue x) hx hsize hnext
      (Nat.mod_eq_of_lt hx)
  have hkept : ({ rx with m_vrUh := seqNumber.add 1 } : LteRlcUmRx).reassembleOutsideWindow =
      .ok (({ rx with m_vrUh := seqNumber.add 1 } : LteRlcUmRx).isInsideReorderingWindow
        (.ofValue x)).2 := by
    rw [reassembleOutsideWindow, hbuffer, outsideWindow, ← hbuffer, hfirst, if_pos rfl]
  have hlast :=
    @inside_previous (({ rx with m_vrUh := seqNumber.add 1 } : LteRlcUmRx).isInsideReorderingWindow
      (.ofValue x)).2 x
    rx.m_vrUr hx hsize hnext hvrUr
  rw [moveWindow]
  dsimp only
  rw [houtside, if_neg Bool.false_ne_true]
  refine ⟨(seqNumber.add 1).setModulusBase
    ((({ rx with m_vrUh := seqNumber.add 1 } : LteRlcUmRx).isInsideReorderingWindow
      (.ofValue x)).2).windowStart, hnext, ?_⟩
  change ({ rx with m_vrUh := seqNumber.add 1 } : LteRlcUmRx).reassembleOutsideWindow >>= _ = _
  rw [hkept]
  change Except.ok (if (LteRlcUmRx.isInsideReorderingWindow _ rx.m_vrUr).1 then _ else _) = _
  rw [hlast, if_pos rfl]
  rfl

theorem snInterval_step {lowSeqNumber highSeqNumber : SequenceNumber10}
    (hlt : lowSeqNumber.lt highSeqNumber = true)
    (hlookup : rx.m_rxBuffer.lookup lowSeqNumber.m_value = some p) (rounds : ℕ) :
    rx.snInterval highSeqNumber (rounds + 1) lowSeqNumber = rx.reassembleAndDeliver p >>= fun rx =>
      { rx with
        m_rxBuffer :=
          rx.m_rxBuffer.filter fun entry => entry.1 ≠ lowSeqNumber.m_value }.snInterval
        highSeqNumber rounds lowSeqNumber.next := by
  rw [snInterval, if_pos hlt, hlookup]

theorem snInterval_done {lowSeqNumber highSeqNumber : SequenceNumber10}
    (hlt : lowSeqNumber.lt highSeqNumber = false)
    (rounds : ℕ) : rx.snInterval highSeqNumber (rounds + 1) lowSeqNumber = .ok rx := by
  rw [snInterval, if_neg (by rw [hlt]; exact Bool.false_ne_true)]

theorem advanceVrUr_next (hx : x < 1024) (hvrUr : rx.m_vrUr.m_value = x)
    (hbase : rx.m_vrUr.m_modulusBase < 1024)
    (hne : rx.m_vrUr.m_modulusBase ≠ (x + 1) % 1024) (hbuffer : rx.m_rxBuffer = [(x, p)]) :
    ∃ vrUr, vrUr.m_value = (x + 1) % 1024 ∧ rx.advanceVrUr =
      (rx.reassembleAndDeliver p).map
      (withWindow rx.m_windowSize vrUr rx.m_vrUx rx.m_vrUh [] rx.m_reorderingTimer) := by
  have hhas : rx.hasPdu rx.m_vrUr.m_value = true := by
    rw [hasPdu, hbuffer, hvrUr]
    simp
  have hmissing : rx.firstMissing rx.m_rxBuffer.length (u16 (rx.m_vrUr.m_value + 1)) = x + 1 := by
    have hnone : rx.hasPdu (x + 1) = false := by
      rw [hasPdu, hbuffer]
      simp
    rw [hbuffer, hvrUr, u16_of_lt (by omega)]
    change (if rx.hasPdu (x + 1) then _ else x + 1) = _
    rw [hnone, if_neg Bool.false_ne_true]
  have hnext : (rx.m_vrUr.assign (x + 1)).m_value = (x + 1) % 1024 := rfl
  refine ⟨rx.m_vrUr.assign (x + 1), hnext, ?_⟩
  rw [advanceVrUr, if_pos hhas]
  dsimp only
  rw [hmissing, reassembleSnInterval]
  have hstep :=
    @snInterval_step (withWindow rx.m_windowSize (rx.m_vrUr.assign (x + 1)) rx.m_vrUx rx.m_vrUh
      rx.m_rxBuffer rx.m_reorderingTimer rx)
    p rx.m_vrUr (rx.m_vrUr.assign (x + 1)) (lt_next hx hvrUr hnext rfl rfl hbase hne)
    (show rx.m_rxBuffer.lookup rx.m_vrUr.m_value = some p by rw [hbuffer, hvrUr]; simp) 1024
  rw [reassembleAndDeliver_withWindow, hbuffer] at hstep
  refine Eq.trans ?_ (hstep.trans ?_)
  · rw [← hbuffer]
    rfl
  cases rx.reassembleAndDeliver p with
  | error fault => rfl
  | ok rx' =>
    have hsame : rx.m_vrUr.next.lt (rx.m_vrUr.assign (x + 1)) = false := by
      refine lt_same ?_
      rw [SequenceNumber10.next, hvrUr, hnext]
    have hempty : [(x, p)].filter (fun entry => entry.1 ≠ rx.m_vrUr.m_value) = [] := by
      rw [hvrUr]
      simp
    refine (snInterval_done hsame 1023).trans ?_
    refine congrArg Except.ok ?_
    change { withWindow _ _ _ _ _ _ rx' with
      m_rxBuffer := [(x, p)].filter fun entry => entry.1 ≠ rx.m_vrUr.m_value } = _
    rw [hempty]
    rfl

theorem updateTimer_quiet (htimer : rx.m_reorderingTimer = false)
    (hsame : rx.m_vrUr.m_value = rx.m_vrUh.m_value) : rx.updateTimer = { rx with
      m_vrUr := rx.m_vrUr.setModulusBase rx.windowStart
      m_vrUx := rx.m_vrUx.setModulusBase rx.windowStart
      m_vrUh := rx.m_vrUh.setModulusBase rx.windowStart } := by
  have hgt : (rx.m_vrUh.setModulusBase rx.windowStart).gt
      (rx.m_vrUr.setModulusBase rx.windowStart) = false := by
    rw [gt, fromBase, fromBase]
    simp [setModulusBase, hsame]
  rw [updateTimer]
  simp only [htimer, Bool.false_and, hgt, Bool.and_false, Bool.false_eq_true, if_false]

theorem doReceivePdu_next (hx : x < 1024) (h : UpTo x rx) {rlcHeader : LteRlcHeader} {size : ℕ}
    (header : LteRlcHeader.fresh.deserialize p = some (rlcHeader, size))
    (hsn : rlcHeader.m_sequenceNumber = x) :
    ∃ vrUr vrUx vrUh, vrUr.m_value = (x + 1) % 1024 ∧ vrUh.m_value = (x + 1) % 1024 ∧
      rx.doReceivePdu p =
      (rx.reassembleAndDeliver p).map (withWindow 512 vrUr vrUx vrUh [] false) := by
  have hstart := @windowStart_value rx h.windowSize (by rw [h.vrUh]; exact hx)
  rw [h.vrUh] at hstart
  have hvalue : (ofValue rlcHeader.m_sequenceNumber).m_value = x := by
    rw [hsn]
    exact Nat.mod_eq_of_lt hx
  have hbelow := @lt_same (rx.m_vrUr.setModulusBase rx.windowStart)
    ((ofValue rlcHeader.m_sequenceNumber).setModulusBase rx.windowStart) (h.vrUr.trans hvalue.symm)
  have habove := @lt_same ((ofValue rlcHeader.m_sequenceNumber).setModulusBase rx.windowStart)
    (rx.m_vrUr.setModulusBase rx.windowStart) (hvalue.trans h.vrUr.symm)
  obtain ⟨vrUh, hvrUh, hmove⟩ :=
    @moveWindow_next (withWindow rx.m_windowSize (rx.m_vrUr.setModulusBase rx.windowStart)
    rx.m_vrUx (rx.m_vrUh.setModulusBase rx.windowStart) [(x, p)] rx.m_reorderingTimer rx) x p
    ((ofValue rlcHeader.m_sequenceNumber).setModulusBase rx.windowStart) hx h.vrUr h.vrUh
      h.windowSize rfl hvalue
  obtain ⟨vrUr, hvrUr, hadvance⟩ :=
    @advanceVrUr_next (withWindow rx.m_windowSize (rx.m_vrUr.setModulusBase rx.windowStart)
    rx.m_vrUx vrUh [(x, p)] rx.m_reorderingTimer rx) x p hx h.vrUr
      (by change rx.windowStart.m_value < _; omega)
    (by change rx.windowStart.m_value ≠ _; omega) rfl
  rw [reassembleAndDeliver_withWindow] at hadvance
  rw [doReceivePdu, header]
  dsimp only
  rw [hbelow, habove, Bool.false_and, Bool.false_and, Bool.and_false, Bool.or_false,
    if_neg Bool.false_ne_true, h.rxBuffer]
  have hinsert :
    insertPdu ((ofValue rlcHeader.m_sequenceNumber).setModulusBase rx.windowStart).m_value p [] =
      [(x, p)] := by
    rw [insertPdu]
    exact congrArg (fun sn => [(sn, p)]) hvalue
  rw [hinsert]
  -- the last step of the reception only moves the bases
  have htimer : ∀ rx' : LteRlcUmRx,
    (withWindow rx.m_windowSize vrUr rx.m_vrUx vrUh [] rx.m_reorderingTimer rx').updateTimer =
      withWindow 512 (vrUr.setModulusBase (vrUh.sub 512)) (rx.m_vrUx.setModulusBase (vrUh.sub 512))
        (vrUh.setModulusBase (vrUh.sub 512)) [] false rx' := by
    intro rx'
    rw [@updateTimer_quiet
      (withWindow rx.m_windowSize vrUr rx.m_vrUx vrUh [] rx.m_reorderingTimer rx') h.reorderingTimer
      (hvrUr.trans hvrUh.symm)]
    rw [h.reorderingTimer, h.windowSize]
    rfl
  refine ⟨vrUr.setModulusBase (vrUh.sub 512), rx.m_vrUx.setModulusBase (vrUh.sub 512),
    vrUh.setModulusBase (vrUh.sub 512), hvrUr, hvrUh, ?_⟩
  have hlast : ∀ y : Except Fault LteRlcUmRx, y = (rx.reassembleAndDeliver p).map
      (withWindow rx.m_windowSize vrUr rx.m_vrUx vrUh [] rx.m_reorderingTimer) →
      (y >>= fun rx : LteRlcUmRx => Except.ok rx.updateTimer) = (rx.reassembleAndDeliver p).map
        (withWindow 512 (vrUr.setModulusBase (vrUh.sub 512))
          (rx.m_vrUx.setModulusBase (vrUh.sub 512))
          (vrUh.setModulusBase (vrUh.sub 512)) [] false) := by
    rintro y rfl
    cases rx.reassembleAndDeliver p with
    | error fault => rfl
    | ok rx' => exact congrArg Except.ok (htimer rx')
  refine Eq.trans (congrArg (fun y : Except Fault LteRlcUmRx => y >>= fun rx : LteRlcUmRx =>
    rx.advanceVrUr >>= fun rx : LteRlcUmRx => Except.ok rx.updateTimer) hmove)
      (hlast _ (hadvance.trans ?_))
  cases rx.reassembleAndDeliver p <;> rfl

end Receive

/-! ## Reassembly -/

section Reassembly

def joined : Option Bytes → List Bytes → List Bytes
  | some kept, first :: sdus => (kept ++ first) :: sdus
  | _, sdus => sdus

/-- What the receiver has of an SDU that is not complete. -/
def Keeps : Option Bytes → LteRlcUmRx → Prop
  | none, rx => rx.m_reassemblingState = .WAITING_S0_FULL
  | some part, rx => rx.m_reassemblingState = .WAITING_SI_SF ∧ rx.m_keepS0 = some part

def framingInfo (kept : Option Bytes) (complete : Bool) : ℕ :=
  (if kept.isNone then FIRST_BYTE else NO_FIRST_BYTE) ||| (if complete then LAST_BYTE
    else NO_LAST_BYTE)

/-- What is kept after a PDU with these SDUs and parts. -/
def nextKept (parts : List Bytes) (complete : Bool) : Option Bytes :=
  if complete then none else parts.getLast?

def finishedParts (parts : List Bytes) (complete : Bool) : List Bytes :=
  if complete then parts else parts.dropLast

theorem framingInfo_some (part : Bytes) (complete : Bool) :
    framingInfo (some part) complete = if complete then 2 else 3 := by
  cases complete with
  | true => rw [framingInfo, Option.isNone_some, if_neg Bool.false_ne_true]; rfl
  | false => rw [framingInfo, Option.isNone_some, if_neg Bool.false_ne_true]; rfl

theorem framingInfo_none (complete : Bool) : framingInfo none complete = if complete then 0
    else 1 := by
  cases complete <;> simp [framingInfo]

variable {kept : Option Bytes} {rx : LteRlcUmRx}

theorem reassemble_joined (h : Keeps kept rx) (hne : rx.m_sdusBuffer ≠ [])
    (complete : Bool) : ∃ rx',
    rx.reassemble false (framingInfo kept complete) = .ok rx' ∧ rx'.m_sdusBuffer = [] ∧
      rx'.m_expectedSeqNumber = rx.m_expectedSeqNumber ∧
        Keeps (nextKept (joined kept rx.m_sdusBuffer) complete) rx' ∧
      rx'.delivered = rx.delivered ++ finishedParts (joined kept rx.m_sdusBuffer) complete := by
  obtain ⟨vrUr, vrUx, vrUh, windowSize, rxBuffer, timer, state, keepS0, sdusBuffer, expected,
      delivered⟩ := rx
  cases sdusBuffer with
  | nil => exact absurd rfl hne
  | cons first sdus =>
    cases kept with
    | none =>
      obtain rfl : state = .WAITING_S0_FULL := h
      cases complete with
      | true => exact ⟨_, rfl, rfl, rfl, rfl, rfl⟩
      | false =>
        refine ⟨_, rfl, rfl, rfl, ?_, rfl⟩
        exact ⟨rfl, rfl⟩
    | some part =>
      obtain ⟨rfl, rfl⟩ : state = .WAITING_SI_SF ∧ keepS0 = some part := h
      rw [framingInfo_some]
      cases complete with
      | true =>
        refine ⟨_, rfl, rfl, rfl, rfl, ?_⟩
        exact append_assoc delivered [part ++ first] sdus
      | false =>
        cases sdus with
        | nil =>
          refine ⟨_, rfl, rfl, rfl, ⟨rfl, rfl⟩, ?_⟩
          exact (append_nil delivered).symm
        | cons second sdus =>
          refine ⟨_, rfl, rfl, rfl, ⟨rfl, rfl⟩, ?_⟩
          exact append_assoc delivered [part ++ first] (second :: sdus).dropLast

theorem splitDataField_back (full : List TxPdu) (last : TxPdu) :
    splitDataField (replicate full.length 1 ++ [0]) (full.map fun p => p.m_pdu.length)
    ((full ++ [last]).flatMap TxPdu.m_pdu) =
      .ok ((full ++ [last]).map TxPdu.m_pdu) := by
  induction full with
  | nil =>
    change Except.ok [last.m_pdu ++ []] = _
    rw [append_nil]
    rfl
  | cons p full ih =>
    rw [length_cons, replicate_succ, cons_append, map_cons, cons_append, flatMap_cons,
      splitDataField, if_neg (by decide), if_neg (by rw [length_append]; omega), drop_left,
        take_left, ih]
    rfl

theorem framingInfo_lt (kept : Option Bytes) (complete : Bool) : framingInfo kept complete < 4 := by
  cases kept with
  | none =>
    rw [framingInfo_none]
    split_ifs <;> decide
  | some part =>
    rw [framingInfo_some]
    split_ifs <;> decide

theorem small_lengths {full : List TxPdu} (small : ∀ p ∈ full, p.m_pdu.length ≤ 2047) :
    ∀ li ∈ full.map fun p => p.m_pdu.length, li ≤ 2047 := by
  intro li hli
  obtain ⟨p, hp, rfl⟩ := mem_map.mp hli
  exact small p hp

variable {full : List TxPdu} {last : TxPdu} {sn : ℕ} {complete : Bool}

theorem reassembleAndDeliver_parts (small : ∀ p ∈ full, p.m_pdu.length ≤ 2047)
    (few : full.length < tooMany) (hsn : sn < 1024)
    (h : Keeps kept rx) (hempty : rx.m_sdusBuffer = [])
    (hexpected : rx.m_expectedSeqNumber.m_value = sn) : ∃ rx',
    rx.reassembleAndDeliver
    ((pduHeader (full.map fun p => p.m_pdu.length) sn (framingInfo kept complete)).serialize ++
        (full ++ [last]).flatMap TxPdu.m_pdu) = .ok rx' ∧ rx'.m_sdusBuffer = [] ∧
      rx'.m_expectedSeqNumber.m_value = (sn + 1) % 1024 ∧
      Keeps (nextKept (joined kept ((full ++ [last]).map TxPdu.m_pdu)) complete) rx' ∧
      rx'.delivered = rx.delivered ++ finishedParts
      (joined kept ((full ++ [last]).map TxPdu.m_pdu)) complete := by
  obtain ⟨h', hback, hframing, hnumber, hext, hli⟩ :=
    header_back (small_lengths small) hsn (framingInfo_lt kept complete)
      ((full ++ [last]).flatMap TxPdu.m_pdu)
  have hlen := length_serialize (full.map fun p => p.m_pdu.length) sn (framingInfo kept complete)
  have hsize : u16 (2 + packedSize (full.map fun p => p.m_pdu.length).length) =
      2 + packedSize (full.map fun p => p.m_pdu.length).length := by
    change _ < 43689 at few
    rw [length_map, packedSize]
    exact u16_of_lt (by omega)
  rw [hsize, ← hlen] at hback
  rw [reassembleAndDeliver, hback]
  dsimp only
  rw [drop_left, hext, hli, length_map, splitDataField_back, hnumber, hframing, hempty, hexpected]
  have hkept := @reassemble_joined kept { rx with
      m_expectedSeqNumber := rx.m_expectedSeqNumber.next
      m_sdusBuffer :=
        (full ++ [last]).map TxPdu.m_pdu } (by cases kept <;> exact h) (by simp) complete
  obtain ⟨rx', hrun, hsdus, hnext, hkeeps, hdelivered⟩ := hkept
  refine ⟨rx', ?_, hsdus, ?_, hkeeps, hdelivered⟩
  · rw [bne_self_eq_false, if_neg Bool.false_ne_true]
    exact hrun
  · rw [hnext, SequenceNumber10.next, hexpected]

theorem keeps_withWindow {windowSize : ℕ} {vrUr vrUx vrUh : SequenceNumber10}
    {rxBuffer : List (ℕ × Bytes)} {reorderingTimer : Bool} (h : Keeps kept rx) :
      Keeps kept (withWindow windowSize vrUr vrUx vrUh rxBuffer reorderingTimer rx) := by
  cases kept <;> exact h

theorem doReceivePdu_parts (small : ∀ p ∈ full, p.m_pdu.length ≤ 2047) (few : full.length < tooMany)
    (hsn : sn < 1024) (hupTo : UpTo sn rx) (h : Keeps kept rx) (hempty : rx.m_sdusBuffer = [])
    (hexpected : rx.m_expectedSeqNumber.m_value = sn) :
    ∃ rx', rx.doReceivePdu
    ((pduHeader (full.map fun p => p.m_pdu.length) sn (framingInfo kept complete)).serialize ++
        (full ++ [last]).flatMap TxPdu.m_pdu) = .ok rx' ∧ UpTo ((sn + 1) % 1024) rx' ∧
          rx'.m_sdusBuffer = [] ∧
      rx'.m_expectedSeqNumber.m_value = (sn + 1) % 1024 ∧
      Keeps (nextKept (joined kept ((full ++ [last]).map TxPdu.m_pdu)) complete) rx' ∧
      rx'.delivered = rx.delivered ++ finishedParts
      (joined kept ((full ++ [last]).map TxPdu.m_pdu)) complete := by
  obtain ⟨h', hback, -, hnumber, -⟩ :=
    header_back (small_lengths small) hsn (framingInfo_lt kept complete)
      ((full ++ [last]).flatMap TxPdu.m_pdu)
  obtain ⟨vrUr, vrUx, vrUh, hvrUr, hvrUh, hreceive⟩ := doReceivePdu_next hsn hupTo hback hnumber
  obtain ⟨rx', hrun, hsdus, hnext, hkeeps, hdelivered⟩ :=
    @reassembleAndDeliver_parts kept rx full last sn complete small few hsn h hempty hexpected
  rw [hreceive, hrun]
  exact ⟨_, rfl, ⟨hvrUr, hvrUh, rfl, rfl, rfl⟩, hsdus, hnext, keeps_withWindow hkeeps, hdelivered⟩

end Reassembly

/-! ## What waits and what has been sent -/

section Waits

def asFull (sdu : Bytes) : TxPdu := ⟨sdu, .FULL_SDU⟩

/-- `pending` are the SDUs that are not complete at the receiver, which may have kept a part of the
first one. -/
def Waits (kept : Option Bytes) (buffer : List TxPdu) (pending : List Bytes) : Prop :=
  match kept with
  | none => buffer = pending.map asFull
  | some part =>
    ∃ rest sdus, buffer = ⟨rest, .LAST_SEGMENT⟩ :: sdus.map asFull ∧
      pending = (part ++ rest) :: sdus

variable {kept : Option Bytes} {buffer full after : List TxPdu} {pending sdus : List Bytes}
    {first last : TxPdu}

theorem Waits.length (h : Waits kept buffer pending) : buffer.length = pending.length := by
  cases kept with
  | none => rw [show buffer = _ from h, length_map]
  | some part =>
    obtain ⟨rest, sdus, rfl, rfl⟩ := h
    simp

theorem Waits.concat (h : Waits kept buffer pending) (sdu : Bytes) :
    Waits kept (buffer ++ [⟨sdu, .FULL_SDU⟩]) (pending ++ [sdu]) := by
  cases kept with
  | none =>
    obtain rfl : buffer = _ := h
    change _ = (pending ++ [sdu]).map asFull
    rw [map_append]
    rfl
  | some part =>
    obtain ⟨rest, sdus, rfl, rfl⟩ := h
    refine ⟨rest, sdus ++ [sdu], ?_, rfl⟩
    rw [map_append]
    rfl

theorem takes_full (h : Takes (sdus.map asFull) full last after) : ∃ (whole : List Bytes)
    (complete : Bool) (pending' : List Bytes),
    full = whole.map asFull ∧ last.status = (if complete then .FULL_SDU else .FIRST_SEGMENT) ∧
      Waits (if complete then none else some last.m_pdu) after pending' ∧
      sdus = whole ++ ((if complete then [last.m_pdu] else []) ++ pending') := by
  obtain h | ⟨packet, remain, rest, h, rfl, hcut⟩ := h
  · obtain ⟨whole, tail, rfl, rfl, htail⟩ := map_eq_append_iff.mp h
    obtain ⟨sdu, pending', rfl, rfl, rfl⟩ := map_eq_cons_iff.mp htail
    exact ⟨whole, true, pending', rfl, rfl, rfl, rfl⟩
  · obtain ⟨whole, tail, rfl, rfl, htail⟩ := map_eq_append_iff.mp h
    obtain ⟨sdu, pending', rfl, rfl, rfl⟩ := map_eq_cons_iff.mp htail
    obtain ⟨last, status⟩ := last
    obtain ⟨remain, status'⟩ := remain
    obtain ⟨rfl, rfl⟩ := Prod.mk.inj hcut.status
    refine ⟨whole, false, sdu :: pending', rfl, rfl, ⟨remain, pending', rfl, ?_⟩, rfl⟩
    exact congrArg (· :: pending') hcut.bytes

theorem framingInfoOf_full {first last : SduStatus}
    (hfirst : first = .FULL_SDU ∨ first = .FIRST_SEGMENT) {complete : Bool}
    (hlast : last = if complete then .FULL_SDU else .FIRST_SEGMENT) :
    framingInfoOf first last = framingInfo none complete := by
  subst hlast
  obtain rfl | rfl := hfirst <;> cases complete <;> rfl

theorem framingInfoOf_part (part : Bytes) {first last : SduStatus}
    (hfirst : first = .LAST_SEGMENT ∨ first = .MIDDLE_SEGMENT)
    {complete : Bool} (hlast : (last = .FULL_SDU ∨ last = .LAST_SEGMENT) ↔ complete = true) :
    framingInfoOf first last = framingInfo (some part) complete := by
  rw [framingInfo_some]
  obtain rfl | rfl := hfirst <;> cases complete <;> cases last <;> first | rfl | simp at hlast

theorem takes_waits (h : Takes buffer full last after) (waits : Waits kept buffer pending)
    (head : (full ++ [last]).head? = some first) : ∃ (complete : Bool) (pending' : List Bytes),
    framingInfoOf first.status last.status = framingInfo kept complete ∧
      Waits (nextKept (joined kept ((full ++ [last]).map TxPdu.m_pdu)) complete) after pending' ∧
      pending = finishedParts (joined kept ((full ++ [last]).map TxPdu.m_pdu)) complete ++
        pending' := by
  cases kept with
  | none =>
    obtain rfl : buffer = _ := waits
    obtain ⟨whole, complete, pending', rfl, hstatus, hwaits, rfl⟩ := takes_full h
    have hparts : joined none ((whole.map asFull ++ [last]).map TxPdu.m_pdu) =
        whole ++ [last.m_pdu] := by
      simp [joined, asFull, Function.comp_def]
    have hfirst : first.status = .FULL_SDU ∨ first.status = .FIRST_SEGMENT := by
      cases whole with
      | nil =>
        obtain rfl : last = first := by simpa using head
        rw [hstatus]
        cases complete
        · exact Or.inr rfl
        · exact Or.inl rfl
      | cons sdu whole =>
        obtain rfl : asFull sdu = first := by simpa using head
        exact Or.inl rfl
    refine ⟨complete, pending', framingInfoOf_full hfirst hstatus, ?_, ?_⟩
    · rw [hparts, nextKept, List.getLast?_concat]
      exact hwaits
    · rw [hparts, finishedParts, dropLast_concat]
      cases complete <;> simp
  | some part =>
    obtain ⟨rest, sdus, rfl, rfl⟩ := waits
    cases full with
    | nil =>
      obtain rfl : last = first := by simpa using head
      obtain h | ⟨packet, remain, behind, h, rfl, hcut⟩ := h
      · obtain ⟨rfl, rfl⟩ := List.cons.inj h
        exact ⟨true, sdus, framingInfoOf_part part (Or.inl rfl) (by simp), rfl, rfl⟩
      · obtain ⟨rfl, rfl⟩ := List.cons.inj h
        obtain ⟨last, status⟩ := last
        obtain ⟨remain, status'⟩ := remain
        obtain ⟨rfl, rfl⟩ := Prod.mk.inj hcut.status
        refine ⟨false, (part ++ rest) :: sdus, framingInfoOf_part part (Or.inr rfl) (by simp),
          ⟨remain, sdus, rfl, ?_⟩, rfl⟩
        · rw [show rest = last ++ remain from hcut.bytes, ← append_assoc]
          rfl
    | cons packet full =>
      obtain rfl : packet = first := by simpa using head
      have hpacket : packet = ⟨rest, .LAST_SEGMENT⟩ := by
        obtain h | ⟨whole, remain, behind, h, -, -⟩ := h
        · exact (List.cons.inj h).1.symm
        · exact (List.cons.inj h).1.symm
      have hrest : Takes (sdus.map asFull) full last after := by
        obtain h | ⟨whole, remain, behind, h, hafter, hcut⟩ := h
        · exact Or.inl (List.cons.inj h).2
        · exact Or.inr ⟨whole, remain, behind, (List.cons.inj h).2, hafter, hcut⟩
      subst hpacket
      obtain ⟨whole, complete, pending', rfl, hstatus, hwaits, rfl⟩ := takes_full hrest
      have hparts : joined (some part)
        (((⟨rest, .LAST_SEGMENT⟩ :: whole.map asFull) ++ [last]).map TxPdu.m_pdu) =
          ((part ++ rest) :: whole) ++ [last.m_pdu] := by
        simp [joined, asFull, Function.comp_def]
      refine ⟨complete, pending', framingInfoOf_part part (Or.inl rfl) ?_, ?_, ?_⟩
      · rw [hstatus]
        cases complete <;> simp
      · rw [hparts, nextKept, List.getLast?_concat]
        exact hwaits
      · rw [hparts, finishedParts, dropLast_concat]
        cases complete <;> simp

end Waits

/-! ## The link -/

section Link

structure Inv : Prop where
  readable : ∀ s ∈ l.sent, Readable s
  size : l.tx.m_txBufferSize = bufferSize l.tx.m_txBuffer
  fits : bufferSize l.tx.m_txBuffer < 2 ^ 32
  waiting : ∀ p ∈ l.tx.m_txBuffer, Waiting p
  number : l.tx.m_sequenceNumber.m_value < 1024
  received : ∃ rx kept pending, received l = .ok rx ∧ UpTo l.tx.m_sequenceNumber.m_value rx ∧
    rx.m_sdusBuffer = [] ∧
    rx.m_expectedSeqNumber.m_value = l.tx.m_sequenceNumber.m_value ∧ Keeps kept rx ∧
    Waits kept l.tx.m_txBuffer pending ∧ l.accepted = rx.delivered ++ pending

theorem start_inv (m_maxTxBufferSize : ℕ) : Inv (start m_maxTxBufferSize) where
  readable := fun s hs => nomatch hs
  size := rfl
  fits := Nat.two_pow_pos 32
  waiting := fun p hp => nomatch hp
  number := show 0 < 1024 by decide
  received := ⟨LteRlcUmRx.fresh, none, [], rfl, ⟨rfl, rfl, rfl, rfl, rfl⟩, rfl, rfl, rfl, rfl, rfl⟩

theorem transmit_inv {l : Link} {sdu : Bytes} (h : Inv l) (hne : sdu ≠ [])
    (hlt : bufferSize l.tx.m_txBuffer + sdu.length < 2 ^ 32) :
      Ensures (step l (.transmit sdu)) Inv fun _ => False := by
  have hsize := h.size
  have hsum : bufferSize (l.tx.m_txBuffer ++ [⟨sdu, .FULL_SDU⟩]) =
      bufferSize l.tx.m_txBuffer + sdu.length := by
    rw [bufferSize_append]
    exact congrArg _ (Nat.add_zero _)
  rw [step, doTransmitPdcpPdu, hsize, u32_of_lt hlt]
  split_ifs with hroom
  · obtain ⟨rx, kept, pending, hrun, hupTo, hsdus, hexpected, hkeeps, hwaits, haccepted⟩ :=
      h.received
    refine ⟨h.readable, hsum.symm, by rw [hsum]; exact hlt, ?_, h.number, ?_⟩
    · intro p hp
      obtain hp | hp := mem_append.mp hp
      · exact h.waiting p hp
      · rw [mem_singleton.mp hp]
        exact ⟨hne, Or.inl rfl⟩
    · refine ⟨rx, kept, pending ++ [sdu], hrun, hupTo, hsdus, hexpected, hkeeps,
        hwaits.concat sdu, ?_⟩
      dsimp only
      rw [drop_left, haccepted, append_assoc]
      rfl
  · have hsame : (l.tx.m_txBuffer.drop l.tx.m_txBuffer.length).map TxPdu.m_pdu = [] := by
      rw [drop_length, map_nil]
    dsimp only [Ensures]
    rw [hsame, append_nil]
    exact h

theorem length_dataField (dataField : List TxPdu) :
    (dataField.flatMap TxPdu.m_pdu).length = bufferSize dataField := by
  rw [length_flatMap, bufferSize]

theorem takes_bufferSize {before full after : List TxPdu} {last : TxPdu}
    (h : Takes before full last after) : bufferSize after ≤ bufferSize before := by
  obtain rfl | ⟨whole, remain, rest, rfl, rfl, hcut⟩ := h
  · rw [bufferSize_append, bufferSize_cons]
    omega
  · rw [bufferSize_append, bufferSize_cons, bufferSize_cons, hcut.bytes, length_append]
    omega

theorem takes_waiting {before full after : List TxPdu} {last : TxPdu}
    (h : Takes before full last after)
    (waiting : ∀ p ∈ before, Waiting p) : ∀ p ∈ after, Waiting p := by
  obtain rfl | ⟨whole, remain, rest, rfl, rfl, hcut⟩ := h
  · exact fun p hp => waiting p (by simp [hp])
  · have hremain : Waiting remain := by
      refine ⟨hcut.left, Or.inr ?_⟩
      have hstatus := hcut.status
      obtain h | h := (waiting whole (by simp)).2
      · rw [h] at hstatus
        exact (Prod.mk.inj hstatus).2
      · rw [h] at hstatus
        exact (Prod.mk.inj hstatus).2
    intro p hp
    obtain rfl | hp := mem_cons.mp hp
    · exact hremain
    · exact waiting p (by simp [hp])

theorem doNotifyTxOpportunity_none {tx : LteRlcUmTx} {bytes : ℕ}
    (h : bytes ≤ 2 ∨ tx.m_txBuffer = []) : tx.doNotifyTxOpportunity bytes = .ok (none, tx) := by
  rw [doNotifyTxOpportunity]
  obtain h | h := h
  · rw [if_pos h]
  · rw [h]
    split_ifs <;> rfl

theorem pdu_readable {bytes sn fi : ℕ} {full : List TxPdu} {last : TxPdu} (hbytes : 2 < bytes)
    (hsize : packedSize full.length + bufferSize full + last.m_pdu.length ≤ bytes - 2)
    (small : ∀ p ∈ full, p.m_pdu.length ≤ 2047) (hsn : sn < 1024) (hfi : fi < 4) :
    Readable ⟨bytes, pduHeader (full.map fun p => p.m_pdu.length) sn fi,
      (pduHeader (full.map fun p => p.m_pdu.length) sn fi).serialize ++
      (full ++ [last]).flatMap TxPdu.m_pdu⟩ := by
  obtain ⟨h, hback, -, -, hext, hli⟩ :=
    header_back (small_lengths small) hsn hfi ((full ++ [last]).flatMap TxPdu.m_pdu)
  refine ⟨?_, h, _, hback, hext, hli⟩
  have hlast : bufferSize [last] = last.m_pdu.length := Nat.add_zero _
  dsimp only
  rw [length_append, length_serialize, length_dataField, bufferSize_append, hlast, length_map]
  omega

theorem received_concat {l l' : Link} {s : Sent} {rx rx' : LteRlcUmRx}
    (before : received l = .ok rx)
    (next : rx.doReceivePdu s.packet = .ok rx') (sent : l'.sent = l.sent ++ [s] := by rfl) :
      received l' = .ok rx' := by
  rw [received] at before ⊢
  rw [sent, foldlM_append, before]
  simp only [bind, Except.bind, foldlM_cons, next, foldlM_nil, pure, Except.pure]

theorem opportunity_inv {l : Link} {bytes : ℕ} (h : Inv l) (room : ¬Crowded bytes l.tx.m_txBuffer) :
    Ensures (step l (.opportunity bytes)) Inv fun _ => False := by
  rw [step]
  by_cases hnone : bytes ≤ 2 ∨ l.tx.m_txBuffer = []
  · rw [doNotifyTxOpportunity_none hnone]
    have hsame : l.sent ++ (none : Option (LteRlcHeader × Bytes)).toList.map
      (fun pdu => (⟨bytes, pdu.1, pdu.2⟩ : Sent)) =
        l.sent := append_nil _
    dsimp only [Except.map, Ensures]
    rw [hsame]
    exact h
  · obtain ⟨hbytes, hne⟩ := not_or.mp hnone
    obtain ⟨full, last, b, first, hfinished, hhead, hfew, hrun⟩ :=
      doNotifyTxOpportunity_spec (not_le.mp hbytes) hne h.waiting h.size h.fits room
    obtain ⟨rx, kept, pending, hreceived, hupTo, hsdus, hexpected, hkeeps, hwaits, haccepted⟩ :=
      h.received
    obtain ⟨complete, pending', hframing, hwaits', hpending⟩ :=
      takes_waits hfinished.takes hwaits hhead
    rw [hframing] at hrun
    obtain ⟨rx', hreceive, hupTo', hsdus', hexpected', hkeeps', hdelivered'⟩ :=
      @doReceivePdu_parts kept rx full last _ complete hfinished.small hfew h.number hupTo hkeeps
        hsdus hexpected
    rw [hrun]
    refine ⟨?_, hfinished.bufferSize, ?_, takes_waiting hfinished.takes h.waiting,
      Nat.mod_lt _ (by decide), ?_⟩
    · intro s hs
      obtain hs | hs := mem_append.mp hs
      · exact h.readable s hs
      · rw [mem_singleton.mp hs]
        exact pdu_readable (not_le.mp hbytes) hfinished.size hfinished.small h.number
          (framingInfo_lt kept complete)
    · exact lt_of_le_of_lt (takes_bufferSize hfinished.takes) h.fits
    · refine ⟨rx', _, pending', ?_, hupTo', hsdus', hexpected', hkeeps', hwaits', ?_⟩
      · exact received_concat hreceived hreceive
      · rw [haccepted, hdelivered', hpending, append_assoc]

theorem Inv.inOrder {l : Link} (h : Inv l) : InOrder l where
  readable := h.readable
  size := h.size
  delivered := by
    obtain ⟨rx, kept, pending, hreceived, -, -, -, -, hwaits, haccepted⟩ := h.received
    rw [hreceived]
    change rx.delivered = completed l
    rw [completed, hwaits.length, haccepted, length_append, Nat.add_sub_cancel, take_left]

end Link

/-- Whatever the SDUs and the opportunities are, every PDU fits and can be read, and the receiver
has delivered the SDUs that are complete, unless a PDU is crowded. -/
theorem um_round_trip (m_maxTxBufferSize : ℕ) {actions : List Action}
    (proper : Along step Proper (start m_maxTxBufferSize) actions) :
    Ensures (exec step (start m_maxTxBufferSize) actions) InOrder fun _ => False := by
  have keep : ∀ l a, Inv l → Proper l a → Ensures (step l a) Inv fun _ => False := by
    intro l a h guard
    cases a with
    | transmit sdu => exact transmit_inv h guard.1 guard.2
    | opportunity bytes => exact opportunity_inv h guard
  exact (ensures_exec keep (start_inv m_maxTxBufferSize) proper).weaken fun l h => h.inOrder

instance (l : Link) (a : Action) : Decidable (Proper l a) :=
  match a with
  | .transmit _ | .opportunity _ => by unfold Proper; infer_instance

/-- Two SDUs in three PDUs; an opportunity is too small and one finds nothing to send. -/
theorem um_round_trip_two : Ensures (exec step (start 10240)
    [.transmit [1, 2, 3, 4, 5], .opportunity 4, .transmit [6, 7, 8], .opportunity 2, .opportunity 8,
      .opportunity 4, .opportunity 4]) InOrder fun _ => False := by
  -- the run itself is only evaluated by the kernel
  generalize hactions :
    ([.transmit [1, 2, 3, 4, 5], .opportunity 4, .transmit [6, 7, 8], .opportunity 2,
      .opportunity 8,
    .opportunity 4, .opportunity 4] : List Action) = actions
  have proper : Along step Proper (start 10240) actions := by
    rw [← hactions]
    decide +kernel
  exact um_round_trip 10240 proper

/-! ## A header that is too long -/

section Crowded

abbrev one : TxPdu := ⟨[0], .FULL_SDU⟩

theorem bufferSize_ones (n : ℕ) : bufferSize (replicate n one) = n := by
  simp [bufferSize]

theorem lengths_ones (n : ℕ) : (replicate n one).map (fun p => p.m_pdu.length) = replicate n 1 :=
  map_replicate

theorem fill_ones {total d n : ℕ} {b : Building} (odd : total % 2 = 1) (len : d + n = total)
    (h : Packed (packedSize total + total + 1) (replicate d one) b) :
    (fill one (replicate n one) b).dataField = replicate (total + 1) one ∧
      (fill one (replicate n one) b).rlcHeader = header (replicate total 1) := by
  have hlen : ([0] : Bytes).length = 1 := rfl
  induction n generalizing d b with
  | zero =>
    have hsize := h.size
    rw [bufferSize_ones, length_replicate] at hsize
    obtain rfl : d = total := len
    have hlast : fill one (replicate 0 one) b = b.addLast one [] := by
      rw [replicate_zero, fill.eq_def]
      dsimp only
      rw [hlen, if_neg (by omega), if_neg (by omega)]
    rw [hlast, addLast]
    refine ⟨?_, ?_⟩
    · rw [h.dataField, replicate_succ']
    · rw [h.rlcHeader, lengths_ones]
      exact push_last _
  | succ n ih =>
    have hsize := h.size
    rw [bufferSize_ones, length_replicate] at hsize
    have hroom : 1 + 2 < b.nextSegmentSize := by
      rw [packedSize, packedSize] at hsize
      omega
    have hnext : fill one (replicate (n + 1) one) b =
        fill one (replicate n one) (b.addWithLi one one) := by
      rw [replicate_succ, fill.eq_def]
      dsimp only
      rw [hlen, if_neg (by omega), if_neg (by omega), if_neg (by omega)]
    have hpacked := (@addWithLi_packed _ _ b one one h hroom).1
    rw [← replicate_succ'] at hpacked
    rw [hnext]
    exact ih (by omega) hpacked

def waitingOnes (n : ℕ) : Link :=
  ⟨⟨61440, n, replicate n one, .ofValue 0⟩, replicate n [0], []⟩

theorem exec_transmit {k n : ℕ} (h : k + n ≤ 61440) :
    exec step (waitingOnes k) (replicate n (.transmit [0])) = .ok (waitingOnes (k + n)) := by
  induction n generalizing k with
  | zero => rfl
  | succ n ih =>
    have hstep : step (waitingOnes k) (.transmit [0]) = .ok (waitingOnes (k + 1)) := by
      have hsize : u32 (k + 1) = k + 1 := u32_of_lt (by omega)
      have hroom : u32 ((waitingOnes k).tx.m_txBufferSize + ([0] : Bytes).length) ≤
          (waitingOnes k).tx.m_maxTxBufferSize := by
        change u32 (k + 1) ≤ 61440
        omega
      rw [step, doTransmitPdcpPdu, if_pos hroom]
      dsimp only
      rw [drop_left]
      change Except.ok
        (⟨⟨61440, u32 (k + 1), replicate k one ++ [one], .ofValue 0⟩, replicate k [0] ++ [[0]],
          []⟩ : Link) = _
      rw [hsize, ← replicate_succ', ← replicate_succ']
      rfl
    rw [replicate_succ, exec_cons_ok hstep, ih (by omega), Nat.add_right_comm, Nat.add_assoc]

theorem addHeader_tooLong {n : ℕ} {packet : Bytes} (wraps : u16 (2 + packedSize n) = 0) (sn fi : ℕ)
    (short : packet.length < 2 + packedSize n) :
    addHeader (pduHeader (replicate n 1) sn fi) packet = .error .bufferOverrun := by
  have hlen := length_serialize (replicate n 1) sn fi
  have hsize : (pduHeader (replicate n 1) sn fi).getSerializedSize = 0 := by
    change u16 (2 + packedSize (replicate n 1).length) = 0
    rw [length_replicate, wraps]
  rw [length_replicate] at hlen
  rw [addHeader, hlen, hsize, replicate_zero, nil_append, if_pos short]

theorem opportunity_tooLong {n : ℕ} (odd : n % 2 = 1) (wraps : u16 (2 + packedSize n) = 0)
    (short : n + 1 < 2 + packedSize n)
    (lt : n + 1 < 2 ^ 32) : step (waitingOnes (n + 1)) (.opportunity (2 + (packedSize n + n + 1))) =
      .error .bufferOverrun := by
  have hstart : Packed (packedSize n + n + 1) (replicate 0 one)
      ⟨2 + (packedSize n + n + 1) - 2, 1, [], .fresh, sub32 (n + 1) one.m_pdu.length, []⟩ :=
    ⟨rfl, rfl, Nat.add_sub_cancel_left 2 _, rfl⟩
  obtain ⟨hdata, hheader⟩ := fill_ones odd (Nat.zero_add n) hstart
  have hfirst : (replicate (n + 1) one).head? = some one := by
    rw [replicate_succ]
    rfl
  have hlast : (replicate (n + 1) one).getLast? = some one := by
    rw [replicate_succ', List.getLast?_concat]
  have hshort : ((replicate (n + 1) one).flatMap TxPdu.m_pdu).length < 2 + packedSize n := by
    rw [length_dataField, bufferSize_ones]
    exact short
  have hbuffer : (waitingOnes (n + 1)).tx.m_txBuffer = one :: replicate n one := replicate_succ
  rw [step, doNotifyTxOpportunity, if_neg (by omega), hbuffer]
  simp only [waitingOnes, hdata, hheader, hfirst, hlast, addHeader_tooLong wraps _ _ hshort]
  rfl

theorem exec_tooLong {n : ℕ} (odd : n % 2 = 1) (wraps : u16 (2 + packedSize n) = 0)
    (short : n + 1 < 2 + packedSize n) (fits : n + 1 ≤ 61440) : exec step (start 61440)
      (replicate (n + 1) (.transmit [0]) ++ [.opportunity (2 + (packedSize n + n + 1))]) =
        .error .bufferOverrun := by
  have hsent : exec step (start 61440) (replicate (n + 1) (.transmit [0])) =
    .ok (waitingOnes (n + 1)) :=
    (@exec_transmit 0 (n + 1) (by omega)).trans (by rw [Nat.zero_add])
  rw [exec_append hsent, exec_cons_error (opportunity_tooLong odd wraps short (by omega))]

/-- With 43690 SDUs of one byte in a PDU the header gets a length of 2^16. -/
theorem um_header_wraps : ¬∀ (m_maxTxBufferSize : ℕ) (actions : List Action),
    (∀ sdu, .transmit sdu ∈ actions → sdu ≠ []) →
    (∀ bytes, .opportunity bytes ∈ actions → 2 < bytes) →
      Ensures (exec step (start m_maxTxBufferSize) actions) InOrder fun _ => False := by
  intro claim
  have hrun :=
    claim 61440 (replicate (tooMany + 1) (.transmit [0]) ++
      [.opportunity (2 + (packedSize tooMany + tooMany + 1))])
  rw [exec_tooLong (by decide) (by decide) (by decide) (by decide)] at hrun
  refine hrun ?_ ?_
  · intro sdu hsdu
    obtain hsdu | hsdu := mem_append.mp hsdu
    · rw [Action.transmit.inj (eq_of_mem_replicate hsdu)]
      decide
    · cases mem_singleton.mp hsdu
  · intro bytes hbytes
    obtain hbytes | hbytes := mem_append.mp hbytes
    · cases eq_of_mem_replicate hbytes
    · rw [Action.opportunity.inj (mem_singleton.mp hbytes)]
      decide

end Crowded

end Egsr.Lte.Rlc.UmSegmentation
