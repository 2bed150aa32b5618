import Egsr.Grp.HeaderRoundTrip

/-! HELLO and ANT messages, written and read back. The serializers of an ANT
message both start after the size of the HELLO record, so the ant is written
over the HELLO record; both deserializers start there too. The ant comes back
whole, and the HELLO record exactly when its bytes and the ant's agree as far
as both reach. -/

namespace Egsr.Grp.MessageRoundTrip

open Lib.Bytes Lib.SinglePrecision Network.ByteIterator Grp.Header List Option Grp.HeaderRoundTrip
open MessageHeader

variable {bs : List UInt8}

theorem exists_split {k : ℕ} (h : k ≤ bs.length) : ∃ as cs, bs = as ++ cs ∧ as.length = k :=
  ⟨bs.take k, bs.drop k, (take_append_drop k bs).symm, by simp [h]⟩

theorem exists_U16 (h : bs.length = 2) : ∃ x : UInt16, le 2 x.toNat = bs := by
  refine ⟨.ofNat (fromLe bs), ?_⟩
  have hlt := fromLe_lt bs
  rw [h] at hlt
  rw [UInt16.toNat_ofNat', Nat.mod_eq_of_lt (by simpa using hlt), ← h, le_fromLe]

theorem exists_U32 (h : bs.length = 4) : ∃ x : UInt32, le 4 x.toNat = bs := by
  refine ⟨.ofNat (fromLe bs), ?_⟩
  have hlt := fromLe_lt bs
  rw [h] at hlt
  rw [UInt32.toNat_ofNat', Nat.mod_eq_of_lt (by simpa using hlt), ← h, le_fromLe]

theorem exists_U64 (h : bs.length = 8) : ∃ x : UInt64, le 8 x.toNat = bs := by
  refine ⟨UInt64.ofNat (fromLe bs), ?_⟩
  have hlt := fromLe_lt bs
  rw [h] at hlt
  rw [UInt64.toNat_ofNat', Nat.mod_eq_of_lt (by simpa using hlt), ← h, le_fromLe]

theorem exists_addresses {k : ℕ} (h : bs.length = 4 * k) :
    ∃ xs, addresses xs = bs ∧ xs.length = k := by
  induction k generalizing bs with
  | zero => exact ⟨[], by simpa [addresses, eq_comm] using h, rfl⟩
  | succ k ih =>
    obtain ⟨as, cs, rfl, has⟩ := exists_split (show 4 ≤ bs.length by omega)
    obtain ⟨x, rfl⟩ := exists_U32 has
    rw [length_append, length_le] at h
    obtain ⟨xs, rfl, hk⟩ := ih (show cs.length = 4 * k by omega)
    exact ⟨x :: xs, by simp [addresses], by simp [hk]⟩

def helloBytes (h : Hello) : List UInt8 :=
  le 8 h.locationX.toNat ++ le 8 h.locationY.toNat ++ le 4 h.speed.toNat ++
    le 4 h.direction.toNat ++ le 2 h.turn.toNat ++ addresses h.neighborInterfaceAddresses

theorem length_helloBytes (h : Hello) : (helloBytes h).length = h.getSerializedSize := by
  simp only [helloBytes, length_append, length_le, length_addresses, Hello.getSerializedSize]
  omega

variable {i : Iterator}

theorem hello_serialize (fits : i.pos ≤ i.buf.length) (h : Hello) :
    h.serialize i = (i.write (helloBytes h)).buf := by
  simp only [Hello.serialize, Iterator.writeU64, Iterator.writeU32, Iterator.writeU16,
    Iterator.write_write fits]
  exact congrArg Iterator.buf (foldl_writeU32 fits _ h.neighborInterfaceAddresses)

theorem hello_reads {size : UInt32} {h : Hello} (declared : size.toNat = h.getSerializedSize) :
    Reads (Hello.read size) (helloBytes h) h := by
  have hle : (26 : UInt32) ≤ size := by
    rw [UInt32.le_iff_toNat_le, declared, Hello.getSerializedSize]
    simp
  have hcount : ((size - 26) / 4).toNat = h.neighborInterfaceAddresses.length := by
    rw [UInt32.toNat_div, UInt32.toNat_sub_of_le _ _ hle, declared, Hello.getSerializedSize]
    simp
  simp only [helloBytes, append_assoc]
  refine (reads_U64 _).bind ((reads_U64 _).bind ((reads_U32 _).bind ((reads_U32 _).bind
    ((reads_U16 _).bind ?_))))
  dsimp only
  rw [hcount, ← append_nil (addresses h.neighborInterfaceAddresses)]
  exact (reads_many reads_U32 h.neighborInterfaceAddresses).bind (reads_pure h)

theorem exists_hello {k : ℕ} (h : bs.length = 26 + k * 4) :
    ∃ hello, helloBytes hello = bs ∧ hello.neighborInterfaceAddresses.length = k := by
  obtain ⟨b₁, bs, rfl, h₁⟩ := exists_split (show 8 ≤ bs.length by omega)
  obtain ⟨x, rfl⟩ := exists_U64 h₁
  rw [length_append, h₁] at h
  obtain ⟨b₂, bs, rfl, h₂⟩ := exists_split (show 8 ≤ bs.length by omega)
  obtain ⟨y, rfl⟩ := exists_U64 h₂
  rw [length_append, h₂] at h
  obtain ⟨b₃, bs, rfl, h₃⟩ := exists_split (show 4 ≤ bs.length by omega)
  obtain ⟨speed, rfl⟩ := exists_U32 h₃
  rw [length_append, h₃] at h
  obtain ⟨b₄, bs, rfl, h₄⟩ := exists_split (show 4 ≤ bs.length by omega)
  obtain ⟨direction, rfl⟩ := exists_U32 h₄
  rw [length_append, h₄] at h
  obtain ⟨b₅, bs, rfl, h₅⟩ := exists_split (show 2 ≤ bs.length by omega)
  obtain ⟨turn, rfl⟩ := exists_U16 h₅
  rw [length_append, h₅] at h
  obtain ⟨ns, rfl, hk⟩ := exists_addresses (show bs.length = 4 * k by omega)
  exact ⟨⟨x, y, speed, direction, turn, ns⟩, by simp [helloBytes], hk⟩

/-! ## Ants -/

def coordinate (x : Binary32) : UInt32 := .ofNat ⌊x.val⌋.toNat

theorem coordinate_of_some {x : Binary32} {n : UInt32} (h : x.toUInt32 = some n) :
    coordinate x = n := by
  unfold Binary32.toUInt32 at h
  split_ifs at h
  simpa [coordinate] using h

def antBytes (a : Ant Int64) : List UInt8 :=
  le 4 a.senderAddr.toNat ++ le 2 a.seqNum.toNat ++ le 2 a.version.toNat ++
    le 2 a.junFrom.toNat ++ le 2 a.nextJunctionId.toNat ++
    le 2 (UInt16.ofNat a.sequenceOfJunctions.length).toNat ++
    words a.sequenceOfJunctions ++ stamps a.sDelay ++
    le 4 a.nextForwarder.toNat ++ le 4 a.lastSender.toNat ++
    le 4 (coordinate a.lastSenderPositionX).toNat ++ le 4 (coordinate a.lastSenderPositionY).toNat

theorem length_antBytes (a : Ant Int64) : (antBytes a).length = a.getSerializedSize := by
  simp only [antBytes, length_append, length_le, length_words, length_stamps, Ant.getSerializedSize]
  omega

variable {a : Ant Int64}

theorem ant_serialize (fits : i.pos ≤ i.buf.length) {x y : UInt32}
    (hx : a.lastSenderPositionX.toUInt32 = some x) (hy : a.lastSenderPositionY.toUInt32 = some y) :
    a.serialize i = some (i.write (antBytes a)).buf := by
  simp only [Ant.serialize, hx, hy, Iterator.writeU32, Iterator.writeU16, bind_eq_bind,
    bind_some, Option.pure_def, Iterator.write_write fits, foldl_writeU16 fits,
    foldl_writeU64 fits, antBytes, coordinate_of_some hx, coordinate_of_some hy]

theorem ant_serialize_some {buf : List UInt8} (h : a.serialize i = some buf) :
    (∃ x, a.lastSenderPositionX.toUInt32 = some x) ∧
      ∃ y, a.lastSenderPositionY.toUInt32 = some y := by
  simp only [Ant.serialize, bind_eq_bind, bind_eq_some_iff] at h
  obtain ⟨x, hx, y, hy, -⟩ := h
  exact ⟨⟨x, hx⟩, y, hy⟩

def CoordinatesFit (a : Ant Int64) : Prop :=
  (∃ x : ℕ, x < 2 ^ 32 ∧ a.lastSenderPositionX.val = x) ∧
    ∃ y : ℕ, y < 2 ^ 32 ∧ a.lastSenderPositionY.val = y

theorem toUInt32_coordinate {x : Binary32} {n : ℕ} (hn : n < 2 ^ 32) (hx : x.val = n) :
    x.toUInt32 = some (coordinate x) ∧ ofUInt32 (coordinate x) = x := by
  have h := ofUInt32_toUInt32 hx hn
  obtain ⟨w, hw, hback⟩ := map_eq_some_iff.mp h
  obtain rfl : coordinate x = w := coordinate_of_some hw
  exact ⟨hw, hback⟩

theorem ant_reads {self : Ant Int64} (empty : self.sDelay = [])
    (lengths : a.sequenceOfJunctions.length = a.sDelay.length)
    (short : a.sequenceOfJunctions.length < 2 ^ 16) (fit : CoordinatesFit a) :
    Reads (Ant.read self) (antBytes a) a := by
  obtain ⟨⟨x, hx, hxv⟩, y, hy, hyv⟩ := fit
  have hlen : (UInt16.ofNat a.sequenceOfJunctions.length).toNat =
      a.sequenceOfJunctions.length := by rw [UInt16.toNat_ofNat', Nat.mod_eq_of_lt short]
  have hdelays : Reads (readMany (UInt64.toInt64 <$> readU64) a.sequenceOfJunctions.length)
      (stamps a.sDelay) a.sDelay := lengths ▸ reads_many reads_stamp a.sDelay
  simp only [antBytes, append_assoc]
  refine (reads_U32 _).bind ((reads_U16 _).bind ((reads_U16 _).bind ((reads_U16 _).bind
    ((reads_U16 _).bind ((reads_U16 _).bind ?_)))))
  rw [hlen]
  refine (reads_many reads_U16 a.sequenceOfJunctions).bind (hdelays.bind ((reads_U32 _).bind
    ((reads_U32 _).bind ((reads_U32 _).bind ?_))))
  rw [← append_nil (le 4 (coordinate a.lastSenderPositionY).toNat)]
  refine (reads_U32 _).bind ?_
  have hback : (⟨a.senderAddr, a.seqNum, a.version, a.junFrom, a.nextJunctionId,
      a.sequenceOfJunctions, self.sDelay ++ a.sDelay, a.nextForwarder, a.lastSender,
      ofUInt32 (coordinate a.lastSenderPositionX),
      ofUInt32 (coordinate a.lastSenderPositionY)⟩ : Ant Int64) = a := by
    rw [empty, nil_append, (toUInt32_coordinate hx hxv).2, (toUInt32_coordinate hy hyv).2]
  rw [hback]
  exact reads_pure a

theorem ant_read_inv {self : Ant Int64} {rest : List UInt8}
    (h : (Ant.read self).run bs = some (a, rest)) :
    a.sDelay.length = self.sDelay.length + a.sequenceOfJunctions.length ∧
      (∃ x, a.lastSenderPositionX = ofUInt32 x) ∧ ∃ y, a.lastSenderPositionY = ofUInt32 y := by
  obtain ⟨_, _, -, h⟩ := run_bind_inv h
  obtain ⟨_, _, -, h⟩ := run_bind_inv h
  obtain ⟨_, _, -, h⟩ := run_bind_inv h
  obtain ⟨_, _, -, h⟩ := run_bind_inv h
  obtain ⟨_, _, -, h⟩ := run_bind_inv h
  obtain ⟨len, _, -, h⟩ := run_bind_inv h
  obtain ⟨junctions, _, hjunctions, h⟩ := run_bind_inv h
  obtain ⟨delays, _, hdelays, h⟩ := run_bind_inv h
  obtain ⟨_, _, -, h⟩ := run_bind_inv h
  obtain ⟨_, _, -, h⟩ := run_bind_inv h
  obtain ⟨x, _, -, h⟩ := run_bind_inv h
  obtain ⟨y, _, -, h⟩ := run_bind_inv h
  rw [run_pure_inv h, length_append, length_readMany hjunctions, length_readMany hdelays]
  exact ⟨rfl, ⟨x, rfl⟩, y, rfl⟩

/-! ## Messages -/

def fixedBytes (m : MessageHeader Int64) : List UInt8 :=
  le 1 m.messageType.code.toNat ++ le 1 m.vTime.toNat ++
    le 2 (UInt16.ofNat m.getSerializedSize).toNat ++ le 4 m.originatorAddress.toNat ++
    le 1 m.timeToLive.toNat ++ le 1 m.hopCount.toNat ++ le 2 m.messageSequenceNumber.toNat

/-- The fixed part of `m`, its written size included, around a HELLO record and an ant. -/
def received (m : MessageHeader Int64) (hello : Hello) (ant : Ant Int64) : MessageHeader Int64 where
  messageType := m.messageType
  vTime := m.vTime
  originatorAddress := m.originatorAddress
  timeToLive := m.timeToLive
  hopCount := m.hopCount
  messageSequenceNumber := m.messageSequenceNumber
  messageSize := UInt16.ofNat m.getSerializedSize
  hello := hello
  ant := ant

variable {m : MessageHeader Int64}

theorem message_serialize_hello (fits : i.pos ≤ i.buf.length) (type : m.messageType = .hello) :
    m.serialize i = some (i.write (fixedBytes m ++ helloBytes m.hello)).buf := by
  simp only [serialize, type, Iterator.writeU8, Iterator.writeU16,
    Iterator.writeU32, Iterator.write_write fits, some_inj]
  rw [hello_serialize (Iterator.write_fits fits _), Iterator.write_write fits, fixedBytes, type]

/-- What an ANT message writes after the size of its HELLO record: the ant, and
the HELLO record from where the ant ends. -/
def overlaid (m : MessageHeader Int64) : List UInt8 :=
  antBytes m.ant ++ (helloBytes m.hello).drop (antBytes m.ant).length

theorem message_serialize_ant (fits : i.pos ≤ i.buf.length) (type : m.messageType = .ant)
    {x y : UInt32} (hx : m.ant.lastSenderPositionX.toUInt32 = some x)
    (hy : m.ant.lastSenderPositionY.toUInt32 = some y) :
    m.serialize i = some (i.write (fixedBytes m ++
      (le 4 (UInt32.ofNat m.hello.getSerializedSize).toNat ++ overlaid m))).buf := by
  have hfits := Iterator.write_fits fits
    (fixedBytes m ++ le 4 (UInt32.ofNat m.hello.getSerializedSize).toNat)
  have hmid := Iterator.write_fits hfits (helloBytes m.hello)
  rw [← append_assoc, ← Iterator.write_write fits, overlaid,
    ← Iterator.write_same hfits, ← hello_serialize hfits, ← ant_serialize _ hx hy]
  · simp only [serialize, type, Iterator.writeU8, Iterator.writeU16,
      Iterator.writeU32, Iterator.write_write fits, fixedBytes]
  · rw [hello_serialize hfits]
    exact (Nat.le_add_right _ _).trans hmid

theorem code_ofCode (t : MessageType) : MessageType.ofCode t.code = some t := by
  cases t <;> decide

theorem run_lift_some {β γ : Type} (t : β) (f : β → Reader γ) (bs : List UInt8) :
    ((StateT.lift (some t) : Reader β) >>= f).run bs = (f t).run bs := rfl

theorem run_byValue {β γ : Type} (r : Reader β) (f : β → Reader γ) (bs : List UInt8) :
    (byValue r >>= f).run bs = (r.run bs).bind fun p => (f p.1).run bs := by
  rw [StateT.run_bind]
  cases h : r.run bs <;> simp [byValue, StateT.run] at h ⊢ <;> simp [h]

theorem deserialize_hello {self : MessageHeader Int64} (type : m.messageType = .hello)
    (rest : List UInt8) : self.deserialize (fixedBytes m ++ rest) =
      ((Hello.read ((UInt16.ofNat m.getSerializedSize).toUInt32 - 12)).run rest).map fun p =>
        (received m p.1 self.ant, 12 + p.1.getSerializedSize) := by
  simp only [fixedBytes, append_assoc, deserialize, MessageHeader.read]
  rw [(reads_U8 _).run_bind, code_ofCode, run_lift_some, (reads_U8 _).run_bind,
    (reads_U16 _).run_bind, (reads_U32 _).run_bind, (reads_U8 _).run_bind,
    (reads_U8 _).run_bind, (reads_U16 _).run_bind, type]
  dsimp only
  rw [run_byValue]
  cases (Hello.read ((UInt16.ofNat m.getSerializedSize).toUInt32 - 12)).run rest <;>
    simp [received, type]

theorem deserialize_ant {self : MessageHeader Int64} (type : m.messageType = .ant)
    (size : UInt32) (rest : List UInt8) :
    self.deserialize (fixedBytes m ++ (le 4 size.toNat ++ rest)) =
      ((Hello.read size).run rest).bind fun p =>
        ((Ant.read self.ant).run rest).map fun q =>
          (received m p.1 q.1, 12 + 4 + p.1.getSerializedSize + q.1.getSerializedSize) := by
  simp only [fixedBytes, append_assoc, deserialize, MessageHeader.read]
  rw [(reads_U8 _).run_bind, code_ofCode, run_lift_some, (reads_U8 _).run_bind,
    (reads_U16 _).run_bind, (reads_U32 _).run_bind, (reads_U8 _).run_bind,
    (reads_U8 _).run_bind, (reads_U16 _).run_bind, type]
  dsimp only
  rw [(reads_U32 _).run_bind, run_byValue]
  cases (Hello.read size).run rest with
  | none => rfl
  | some p =>
    simp only [bind_some, run_byValue]
    cases (Ant.read self.ant).run rest <;> simp [received, type]

/-! ## What comes back -/

/-- Every field of `m` is in `m'`; the ant is one of them in ANT messages only. -/
structure Recovers (m m' : MessageHeader Int64) : Prop where
  messageType : m'.messageType = m.messageType
  vTime : m'.vTime = m.vTime
  messageSize : m'.messageSize = .ofNat m.getSerializedSize
  originatorAddress : m'.originatorAddress = m.originatorAddress
  timeToLive : m'.timeToLive = m.timeToLive
  hopCount : m'.hopCount = m.hopCount
  messageSequenceNumber : m'.messageSequenceNumber = m.messageSequenceNumber
  hello : m'.hello = m.hello
  ant : m.messageType = .ant → m'.ant = m.ant

theorem recovers_received {hello : Hello} {ant : Ant Int64} :
    Recovers m (received m hello ant) ↔ hello = m.hello ∧ (m.messageType = .ant → ant = m.ant) :=
  ⟨fun h => ⟨h.hello, h.ant⟩, fun h => ⟨rfl, rfl, rfl, rfl, rfl, rfl, rfl, h.1, h.2⟩⟩

theorem Recovers.getSerializedSize_eq {m' : MessageHeader Int64} (h : Recovers m m') :
    m'.getSerializedSize = m.getSerializedSize := by
  cases type : m.messageType with
  | ant => simp only [getSerializedSize, h.messageType, type, h.hello, h.ant type]
  | hello => simp only [getSerializedSize, h.messageType, type, h.hello]
  | cpack => simp only [getSerializedSize, h.messageType, type]

theorem deserialize_size {self : MessageHeader Int64} {n : ℕ}
    (h : self.deserialize bs = some (m, n)) : n = m.getSerializedSize := by
  obtain ⟨⟨p, rest⟩, h, hp⟩ := map_eq_some_iff.mp h
  obtain ⟨_, _, -, h⟩ := run_bind_inv h
  obtain ⟨type, _, -, h⟩ := run_bind_inv h
  obtain ⟨_, _, -, h⟩ := run_bind_inv h
  obtain ⟨_, _, -, h⟩ := run_bind_inv h
  obtain ⟨_, _, -, h⟩ := run_bind_inv h
  obtain ⟨_, _, -, h⟩ := run_bind_inv h
  obtain ⟨_, _, -, h⟩ := run_bind_inv h
  obtain ⟨_, _, -, h⟩ := run_bind_inv h
  cases type with
  | hello =>
    obtain ⟨_, _, -, h⟩ := run_bind_inv h
    cases hp.symm.trans (run_pure_inv h)
    rfl
  | ant =>
    obtain ⟨_, _, -, h⟩ := run_bind_inv h
    obtain ⟨_, _, -, h⟩ := run_bind_inv h
    obtain ⟨_, _, -, h⟩ := run_bind_inv h
    cases hp.symm.trans (run_pure_inv h)
    rfl
  | cpack => cases h

/-- Read from its own bytes into a new object, whatever follows them, `m` comes
back and exactly its declared size is consumed. -/
def RoundTrips (m : MessageHeader Int64) (fill : ℕ → UInt8) (stale : MessageHeader Int64)
    (rest : List UInt8) : Prop :=
  ∃ bytes m', addHeader fill m [] = some bytes ∧ bytes.length = m.getSerializedSize ∧
    stale.construct.deserialize (bytes ++ rest) = some (m', m.getSerializedSize) ∧ Recovers m m'

/-- The HELLO record and the ant have the same bytes as far as both reach. -/
def OverlapAgrees (m : MessageHeader Int64) : Prop :=
  (helloBytes m.hello).take (antBytes m.ant).length =
    (antBytes m.ant).take (helloBytes m.hello).length
deriving Decidable

theorem length_fixedBytes (m : MessageHeader Int64) : (fixedBytes m).length = 12 := by
  simp [fixedBytes]

theorem length_overlaid (m : MessageHeader Int64) : (antBytes m.ant).length ≤ (overlaid m).length ∧
      (helloBytes m.hello).length ≤ (overlaid m).length ∧
      (overlaid m).length ≤ (helloBytes m.hello).length + (antBytes m.ant).length := by
  simp only [overlaid, length_append, length_drop]
  omega

theorem overlaid_take (m : MessageHeader Int64) : (overlaid m).take (helloBytes m.hello).length =
      (antBytes m.ant).take (helloBytes m.hello).length ++
        (helloBytes m.hello).drop (antBytes m.ant).length := by
  rw [overlaid, take_append, ← length_drop, take_length]

theorem overlapAgrees_iff (m : MessageHeader Int64) :
    OverlapAgrees m ↔ (overlaid m).take (helloBytes m.hello).length = helloBytes m.hello := by
  rw [overlaid_take]
  conv_rhs => rhs; rw [← take_append_drop (antBytes m.ant).length (helloBytes m.hello)]
  rw [append_left_inj]
  exact eq_comm

theorem exists_hello_read {size : UInt32} {h : Hello}
    (declared : size.toNat = h.getSerializedSize) (long : (helloBytes h).length ≤ bs.length) :
    ∃ k rest, (Hello.read size).run bs = some (k, rest) ∧
      helloBytes k = bs.take (helloBytes h).length := by
  have htake : (bs.take (helloBytes h).length).length =
      26 + h.neighborInterfaceAddresses.length * 4 := by
    rw [length_take, Nat.min_eq_left long, length_helloBytes, Hello.getSerializedSize]
  obtain ⟨k, hk, hcount⟩ := exists_hello htake
  have hsize : k.getSerializedSize = h.getSerializedSize := by
    simp only [Hello.getSerializedSize, hcount]
  have hread := hello_reads (declared.trans hsize.symm) (bs.drop (helloBytes h).length)
  rw [hk, take_append_drop] at hread
  exact ⟨k, _, hread, hk⟩

theorem helloBytes_unique {size : UInt32} {h k : Hello}
    (declared : size.toNat = h.getSerializedSize) (same : helloBytes k = helloBytes h) :
    k = h := by
  have hsize : k.getSerializedSize = h.getSerializedSize := by
    rw [← length_helloBytes, same, length_helloBytes]
  have hread := hello_reads (declared.trans hsize.symm)
  rw [same] at hread
  exact hread.unique (hello_reads declared)

def antPacket (m : MessageHeader Int64) (fill : ℕ → UInt8) : List UInt8 :=
  fixedBytes m ++ (le 4 (UInt32.ofNat m.hello.getSerializedSize).toNat ++ (overlaid m ++
    (freshBytes fill m.getSerializedSize).drop (16 + (overlaid m).length)))

section AntMessage

variable {m : MessageHeader Int64} (type : m.messageType = .ant)
include type

theorem ant_getSerializedSize : m.getSerializedSize =
    16 + (helloBytes m.hello).length + (antBytes m.ant).length := by
  rw [length_helloBytes, length_antBytes]
  simp only [getSerializedSize, type]

theorem addHeader_ant {x y : UInt32} (hx : m.ant.lastSenderPositionX.toUInt32 = some x)
    (hy : m.ant.lastSenderPositionY.toUInt32 = some y) (fill : ℕ → UInt8) :
    addHeader fill m [] = some (antPacket m fill) := by
  have hlen : (fixedBytes m ++ (le 4 (UInt32.ofNat m.hello.getSerializedSize).toNat ++
      overlaid m)).length = 16 + (overlaid m).length := by
    simp only [length_append, length_fixedBytes, length_le]
    omega
  have hsize : 16 + (overlaid m).length ≤ m.getSerializedSize := by
    have := (length_overlaid m).2.2
    rw [ant_getSerializedSize type]
    omega
  rw [addHeader_eq (hlen.trans_le hsize) fun i fits => message_serialize_ant fits type hx hy, hlen]
  simp only [antPacket, append_assoc, append_nil]
  rfl

theorem addHeader_ant_some {fill : ℕ → UInt8} {packet bytes : List UInt8}
    (written : addHeader fill m packet = some bytes) :
    (∃ x, m.ant.lastSenderPositionX.toUInt32 = some x) ∧
      ∃ y, m.ant.lastSenderPositionY.toUInt32 = some y := by
  simp only [addHeader, Header.serialize, serialize, type] at written
  exact ant_serialize_some written

theorem length_antPacket (fill : ℕ → UInt8) : (antPacket m fill).length = m.getSerializedSize := by
  have hsize := ant_getSerializedSize type
  have hover := length_overlaid m
  simp only [antPacket, length_append, length_fixedBytes, length_le, length_drop, length_freshBytes]
  omega

theorem deserialize_antPacket (self : MessageHeader Int64) (fill : ℕ → UInt8)
    (rest : List UInt8) : ∃ tail,
    self.deserialize (antPacket m fill ++ rest) =
      ((Hello.read (UInt32.ofNat m.hello.getSerializedSize)).run (overlaid m ++ tail)).bind
        fun p => ((Ant.read self.ant).run (overlaid m ++ tail)).map fun q =>
          (received m p.1 q.1, 12 + 4 + p.1.getSerializedSize + q.1.getSerializedSize) := by
  refine ⟨(freshBytes fill m.getSerializedSize).drop (16 + (overlaid m).length) ++ rest, ?_⟩
  rw [← deserialize_ant type]
  simp only [antPacket, append_assoc]

end AntMessage

theorem coordinatesFit_of_read {x y u v : UInt32}
    (hx : a.lastSenderPositionX.toUInt32 = some x) (hy : a.lastSenderPositionY.toUInt32 = some y)
    (hu : a.lastSenderPositionX = ofUInt32 u) (hv : a.lastSenderPositionY = ofUInt32 v) :
    CoordinatesFit a := by
  have hx' := (Binary32.toUInt32_isSome.mp (isSome_of_eq_some hx)).2
  have hy' := (Binary32.toUInt32_isSome.mp (isSome_of_eq_some hy)).2
  rw [hu] at hx'
  rw [hv] at hy'
  obtain ⟨n, hn⟩ := exists_ofUInt32 u
  obtain ⟨k, hk⟩ := exists_ofUInt32 v
  rw [hn] at hx'
  rw [hk] at hy'
  exact ⟨⟨n, by exact_mod_cast hx', by rw [hu, hn]⟩, k, by exact_mod_cast hy', by rw [hv, hk]⟩

/-- A message too large for its size field aside, a HELLO message comes back. -/
theorem hello_roundTrips (type : m.messageType = .hello)
    (size : m.getSerializedSize < 2 ^ 16) (fill : ℕ → UInt8) (stale : MessageHeader Int64)
    (rest : List UInt8) : RoundTrips m fill stale rest := by
  have hsize : m.getSerializedSize = 12 + m.hello.getSerializedSize := by
    simp only [getSerializedSize, type]
  have hlen : (fixedBytes m ++ helloBytes m.hello).length = m.getSerializedSize := by
    rw [length_append, length_fixedBytes, length_helloBytes, hsize]
  have hdeclared : ((UInt16.ofNat m.getSerializedSize).toUInt32 - 12).toNat =
      m.hello.getSerializedSize := by
    have hnat : (UInt16.ofNat m.getSerializedSize).toUInt32.toNat = m.getSerializedSize := by
      rw [UInt16.toNat_toUInt32, UInt16.toNat_ofNat', Nat.mod_eq_of_lt size]
    have hle : (12 : UInt32) ≤ (UInt16.ofNat m.getSerializedSize).toUInt32 := by
      rw [UInt32.le_iff_toNat_le, hnat, hsize]
      simp
    rw [UInt32.toNat_sub_of_le _ _ hle, hnat, hsize]
    simp
  have hwritten : addHeader fill m [] = some (fixedBytes m ++ helloBytes m.hello) := by
    rw [addHeader_full hlen fun i fits => message_serialize_hello fits type, append_nil]
  refine ⟨_, received m m.hello stale.construct.ant, hwritten, hlen, ?_,
    recovers_received.mpr ⟨rfl, by simp [type]⟩⟩
  rw [append_assoc, deserialize_hello type, hello_reads hdeclared, map_some, hsize]

/-- An ANT message comes back exactly when it has one delay for each junction,
both coordinates survive their 32-bit encoding, and the HELLO record is not
changed by the ant that is written over it. -/
theorem ant_roundTrips (type : m.messageType = .ant)
    (size : m.getSerializedSize < 2 ^ 16) (fill : ℕ → UInt8) (stale : MessageHeader Int64)
    (rest : List UInt8) : RoundTrips m fill stale rest ↔
      m.ant.sequenceOfJunctions.length = m.ant.sDelay.length ∧ CoordinatesFit m.ant ∧
        OverlapAgrees m := by
  have hsize := ant_getSerializedSize type
  have hover := length_overlaid m
  have hdeclared : (UInt32.ofNat m.hello.getSerializedSize).toNat = m.hello.getSerializedSize := by
    rw [UInt32.toNat_ofNat', Nat.mod_eq_of_lt]
    rw [← length_helloBytes]
    omega
  obtain ⟨tail, hdes⟩ := deserialize_antPacket type stale.construct fill rest
  have hlong : (helloBytes m.hello).length ≤ (overlaid m ++ tail).length := by
    rw [length_append]
    omega
  obtain ⟨k, rest', hk, hbytes⟩ := exists_hello_read hdeclared hlong
  rw [take_append_of_le_length hover.2.1] at hbytes
  rw [hk, bind_some] at hdes
  constructor
  · intro h
    obtain ⟨bytes, m', written, -, read, recovers⟩ := h
    obtain ⟨⟨x, hx⟩, y, hy⟩ := addHeader_ant_some type written
    rw [addHeader_ant type hx hy, some_inj] at written
    rw [← written, hdes] at read
    obtain ⟨⟨a, rest''⟩, ha, hm'⟩ := map_eq_some_iff.mp read
    simp only [Prod.mk.injEq] at hm'
    rw [← hm'.1, recovers_received] at recovers
    obtain ⟨hdelay, ⟨u, hu⟩, v, hv⟩ := ant_read_inv ha
    rw [recovers.2 type] at hdelay hu hv
    refine ⟨?_, coordinatesFit_of_read hx hy hu hv, ?_⟩
    · simpa [construct] using hdelay.symm
    · rw [overlapAgrees_iff, ← hbytes, recovers.1]
  · intro h
    obtain ⟨lengths, fit, agrees⟩ := h
    rw [overlapAgrees_iff] at agrees
    have hk' : k = m.hello := helloBytes_unique hdeclared (hbytes.trans agrees)
    have hshort : m.ant.sequenceOfJunctions.length < 2 ^ 16 := by
      rw [length_antBytes, Ant.getSerializedSize] at hsize
      omega
    have hread : ((Ant.read stale.construct.ant).run (overlaid m ++ tail)) =
        some (m.ant, (helloBytes m.hello).drop (antBytes m.ant).length ++ tail) := by
      rw [overlaid, append_assoc, ant_reads rfl lengths hshort fit]
    rw [hread, map_some, hk'] at hdes
    obtain ⟨⟨x, hx, hxv⟩, y, hy, hyv⟩ := fit
    refine ⟨antPacket m fill, received m m.hello m.ant,
      addHeader_ant type (toUInt32_coordinate hx hxv).1 (toUInt32_coordinate hy hyv).1 fill,
      length_antPacket type fill, ?_, recovers_received.mpr ⟨rfl, fun _ => rfl⟩⟩
    rw [hdes, hsize, length_helloBytes, length_antBytes]

def WholeCoordinates (a : Ant Int64) : Prop :=
  ∃ x y : ℤ, a.lastSenderPositionX.val = x ∧ a.lastSenderPositionY.val = y

def CoordinatesInRange (a : Ant Int64) : Prop :=
  (0 ≤ a.lastSenderPositionX.val ∧ a.lastSenderPositionX.val < 2 ^ 32) ∧
    0 ≤ a.lastSenderPositionY.val ∧ a.lastSenderPositionY.val < 2 ^ 32
deriving Decidable

theorem fits_iff_of_whole {q : ℚ} {x : ℤ} (whole : q = x) :
    (∃ n : ℕ, n < 2 ^ 32 ∧ q = n) ↔ 0 ≤ q ∧ q < 2 ^ 32 := by
  subst whole
  constructor
  · intro h
    obtain ⟨n, hn, hx⟩ := h
    rw [hx]
    exact ⟨Nat.cast_nonneg n, by exact_mod_cast hn⟩
  · intro h
    have h0 : 0 ≤ x := by exact_mod_cast h.1
    have h1 : x < 2 ^ 32 := by exact_mod_cast h.2
    lift x to ℕ using h0
    exact ⟨x, by exact_mod_cast h1, by simp⟩

theorem coordinatesFit_iff_of_whole (whole : WholeCoordinates a) :
    CoordinatesFit a ↔ CoordinatesInRange a := by
  obtain ⟨x, y, hx, hy⟩ := whole
  exact and_congr (fits_iff_of_whole hx) (fits_iff_of_whole hy)

/-- Of the messages that fit their size field and carry a well-formed ant with
whole coordinates, those come back that are HELLO messages, or whose coordinates
are in range and whose HELLO record has the bytes of the ant. -/
theorem message_roundTrips_iff {m : MessageHeader Int64}
    (type : m.messageType = .hello ∨ m.messageType = .ant) (size : m.getSerializedSize < 2 ^ 16)
    (lengths : m.messageType = .ant → m.ant.sequenceOfJunctions.length = m.ant.sDelay.length)
    (whole : m.messageType = .ant → WholeCoordinates m.ant)
    (fill : ℕ → UInt8) (stale : MessageHeader Int64) (rest : List UInt8) :
    RoundTrips m fill stale rest ↔
      m.messageType = .hello ∨ CoordinatesInRange m.ant ∧ OverlapAgrees m := by
  cases type with
  | inl type => simp [type, hello_roundTrips type size]
  | inr type =>
    rw [ant_roundTrips type size, coordinatesFit_iff_of_whole (whole type)]
    simp [type, lengths type]

def origin : Binary32 := ⟨0, 0, 0, by norm_num, by norm_num⟩

def firstAnt : Ant Int64 := ⟨0, 0, 0, 0, 0, [0], [0], 0, 0, origin, origin⟩

def echoedMessage : MessageHeader Int64 :=
  ⟨.ant, 0, 0, 1, 0, 0, 0, ⟨0, 0x100000000, 0, 0, 0, []⟩, firstAnt⟩

def overlaidMessage : MessageHeader Int64 :=
  { echoedMessage with hello := ⟨0, 0, 0, 0, 0, []⟩ }

theorem message_roundTrips_iff_echoed : RoundTrips echoedMessage (fun _ => 0) echoedMessage [] :=
  (message_roundTrips_iff (.inr rfl) (by decide) (fun _ => rfl)
    (fun _ => ⟨0, 0, by decide +kernel, by decide +kernel⟩) _ _ _).mpr
    (.inr ⟨by decide +kernel, by decide +kernel⟩)

theorem overlaidMessage_lost :
    overlaidMessage.messageType = .ant ∧ overlaidMessage.getSerializedSize < 2 ^ 16 ∧
      overlaidMessage.ant.sequenceOfJunctions.length = overlaidMessage.ant.sDelay.length ∧
      WholeCoordinates overlaidMessage.ant ∧
      ¬ RoundTrips overlaidMessage (fun _ => 0) overlaidMessage [] := by
  refine ⟨rfl, by decide, rfl, ⟨0, 0, by decide +kernel, by decide +kernel⟩, ?_⟩
  rw [ant_roundTrips rfl (by decide)]
  have hdiffer : ¬ OverlapAgrees overlaidMessage := by decide +kernel
  exact fun h => hdiffer h.2.2

end Egsr.Grp.MessageRoundTrip
