import Egsr.Grp.Header

/-! What the serializers write and what the deserializers read back. Every
header has a byte string: the control and data headers, a HELLO message and an
ant are each read back from theirs. In an ANT message the ant is written over
the HELLO record, so the HELLO record comes back only where the two agree. -/

namespace Egsr.Grp.HeaderRoundTrip

open Lib.Bytes Lib.SinglePrecision Network.ByteIterator Grp.Header List

/-- The bytes of a list of 16-bit words, and of the other item types below. -/
def words (xs : List UInt16) : List UInt8 := xs.flatMap fun x => le 2 x.toNat
def addresses (xs : List Ipv4Address) : List UInt8 := xs.flatMap fun x => le 4 x.toNat
def stamps (xs : List Int64) : List UInt8 := xs.flatMap fun x => le 8 x.toUInt64.toNat

@[simp] theorem length_words (xs : List UInt16) : (words xs).length = 2 * xs.length := by
  induction xs with
  | nil => rfl
  | cons x xs ih => simp only [words, flatMap_cons, length_append, length_le,
      length_cons] at ih ⊢; omega

@[simp] theorem length_addresses (xs : List Ipv4Address) :
    (addresses xs).length = 4 * xs.length := by
  induction xs with
  | nil => rfl
  | cons x xs ih => simp only [addresses, flatMap_cons, length_append, length_le,
      length_cons] at ih ⊢; omega

@[simp] theorem length_stamps (xs : List Int64) : (stamps xs).length = 8 * xs.length := by
  induction xs with
  | nil => rfl
  | cons x xs ih => simp only [stamps, flatMap_cons, length_append, length_le,
      length_cons] at ih ⊢; omega

section Folds

variable {i : Iterator} (fits : i.pos ≤ i.buf.length) (bs : List UInt8)
include fits

theorem foldl_writeU16 (xs : List UInt16) :
    xs.foldl Iterator.writeU16 (i.write bs) = i.write (bs ++ words xs) :=
  Iterator.foldl_write fits bs _ xs

theorem foldl_writeU32 (xs : List Ipv4Address) :
    xs.foldl Iterator.writeU32 (i.write bs) = i.write (bs ++ addresses xs) :=
  Iterator.foldl_write fits bs _ xs

theorem foldl_writeU64 (xs : List Int64) :
    xs.foldl (fun i time => i.writeU64 time.toUInt64) (i.write bs) = i.write (bs ++ stamps xs) :=
  Iterator.foldl_write fits bs _ xs

end Folds

theorem reads_stamp (x : Int64) : Reads (UInt64.toInt64 <$> readU64) (le 8 x.toUInt64.toNat) x := by
  have h := (reads_U64 x.toUInt64).map UInt64.toInt64
  rwa [Int64.toInt64_toUInt64] at h

def ctrBytes (h : CtrPacketHeader) : List UInt8 :=
  le 2 h.packetLength.toNat ++ le 2 h.packetSequenceNumber.toNat

theorem ctr_serialize {i : Iterator} (fits : i.pos ≤ i.buf.length) (h : CtrPacketHeader) :
    h.serialize i = (i.write (ctrBytes h)).buf := by
  simp only [CtrPacketHeader.serialize, Iterator.writeU16, Iterator.write_write fits, ctrBytes]

theorem ctr_reads (h : CtrPacketHeader) : Reads CtrPacketHeader.read (ctrBytes h) h := by
  refine (reads_U16 _).bind ?_
  rw [← append_nil (le 2 _)]
  exact (reads_U16 _).bind (reads_pure h)

theorem ctr_addHeader (fill : ℕ → UInt8) (h : CtrPacketHeader) (packet : List UInt8) :
    addHeader fill h packet = some (ctrBytes h ++ packet) := by
  refine addHeader_full ?_ fun i fits => congrArg some (ctr_serialize fits h)
  simp [ctrBytes, Header.getSerializedSize, CtrPacketHeader.getSerializedSize]

theorem ctr_removeHeader (self h : CtrPacketHeader) (packet : List UInt8) :
    removeHeader self (ctrBytes h ++ packet) = some (h, packet) := by
  have hr := ctr_reads h packet
  have hlen : (ctrBytes h).length = 4 := by simp [ctrBytes]
  simp only [removeHeader, Header.deserialize, hr, Option.map_some,
    CtrPacketHeader.getSerializedSize, ← hlen, drop_left]

def dataBytes (h : DataPacketHeader) : List UInt8 :=
  le 2 h.nextJidIdx.toNat ++ le 2 h.nextJid.toNat ++
    le 2 (UInt16.ofNat h.path.length).toNat ++ words h.path

theorem length_dataBytes (h : DataPacketHeader) : (dataBytes h).length = h.getSerializedSize := by
  simp only [dataBytes, length_append, length_le, length_words, DataPacketHeader.getSerializedSize]
  omega

theorem data_serialize {i : Iterator} (fits : i.pos ≤ i.buf.length) (h : DataPacketHeader) :
    h.serialize i = (i.write (dataBytes h)).buf := by
  simp only [DataPacketHeader.serialize, Iterator.writeU16, Iterator.write_write fits]
  rw [foldl_writeU16 fits]
  rfl

theorem data_reads {h : DataPacketHeader} (short : h.path.length < 2 ^ 16) :
    Reads DataPacketHeader.read (dataBytes h) h := by
  have hsize : (UInt16.ofNat h.path.length).toNat = h.path.length := by
    rw [UInt16.toNat_ofNat', Nat.mod_eq_of_lt short]
  rw [dataBytes, append_assoc, append_assoc]
  refine (reads_U16 _).bind ((reads_U16 _).bind ((reads_U16 _).bind ?_))
  rw [hsize, ← append_nil (words h.path)]
  exact (reads_many reads_U16 h.path).bind (reads_pure h)

theorem data_addHeader (fill : ℕ → UInt8) (h : DataPacketHeader) (packet : List UInt8) :
    addHeader fill h packet = some (dataBytes h ++ packet) :=
  addHeader_full (length_dataBytes h) fun _ fits => congrArg some (data_serialize fits h)

theorem data_removeHeader (self : DataPacketHeader) {h : DataPacketHeader}
    (short : h.path.length < 2 ^ 16) (packet : List UInt8) :
    removeHeader self (dataBytes h ++ packet) = some (h, packet) := by
  have hr := data_reads short packet
  simp only [removeHeader, Header.deserialize, hr, Option.map_some, ← length_dataBytes, drop_left]

end Egsr.Grp.HeaderRoundTrip
