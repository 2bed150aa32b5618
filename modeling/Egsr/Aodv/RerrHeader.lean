import Egsr.Aodv.RoutingProtocol
import Egsr.Lib.OrderedMap
import Egsr.Network.ByteIterator

/-! The header of route error messages, and its bytes. The number of destinations is
written as one byte, which the assertions keep from overflowing. -/

namespace Egsr.Aodv.ErrorReport

open Lib Lib.Bytes Network.ByteIterator List OrderedMap

inductive Fault where
  /-- `NS_ASSERT`: there is no room for another destination. -/
  | destCount
  /-- The header of a packet cannot be read. -/
  | header
  /-- The fuel is used up. -/
  | unfinished
deriving DecidableEq

structure RerrHeader where
  /-- No delete flag. -/
  m_flag : UInt8
  m_reserved : UInt8
  /-- Unreachable destinations and their sequence numbers. -/
  m_unreachableDstSeqNo : OrderedMap Ipv4Address UInt32

namespace RerrHeader

def cleared : RerrHeader := ⟨0, 0, .empty⟩

variable (h : RerrHeader)

def getDestCount : UInt8 := UInt8.ofNat h.m_unreachableDstSeqNo.entries.length

def getSerializedSize : ℕ := 3 + 8 * h.getDestCount.toNat

/-- The destination, or one that was there, is in the header. That there is no more room is never
returned. -/
def addUnDestination (dst : Ipv4Address) (seqNo : UInt32) : Except Fault (Bool × RerrHeader) :=
  if (h.m_unreachableDstSeqNo.find? dst).isSome then .ok (true, h)
  else if h.getDestCount < 255 then
    .ok (true, { h with m_unreachableDstSeqNo := h.m_unreachableDstSeqNo.add dst seqNo })
  else .error .destCount

def serialize (i : Iterator) : List UInt8 :=
  (h.m_unreachableDstSeqNo.entries.foldl (fun i j => (i.writeHtonU32 j.1).writeHtonU32 j.2)
    (((i.writeU8 h.m_flag).writeU8 h.m_reserved).writeU8 h.getDestCount)).buf

def readDestination : Reader (Ipv4Address × UInt32) := do
  let address ← readNtohU32
  let seqNo ← readNtohU32
  pure (address, seqNo)

def read : Reader RerrHeader := do
  let m_flag ← readU8
  let m_reserved ← readU8
  let dest ← readU8
  let destinations ← readMany readDestination dest.toNat
  pure ⟨m_flag, m_reserved, empty.addAll destinations⟩

def deserialize (start : List UInt8) : Option (RerrHeader × ℕ) :=
  match read.run start with
  | none => none
  | some (h, rest) =>
    let dist := start.length - rest.length
    -- `NS_ASSERT`
    if dist = h.getSerializedSize then some (h, dist) else none

instance : Header RerrHeader where
  getSerializedSize := getSerializedSize
  serialize h i := some (h.serialize i)
  deserialize _ start := deserialize start

end RerrHeader

/-! ## What is read is what was written -/

section RoundTrip

variable {h : RerrHeader} (un : Ipv4Address × UInt32)

def destinationBytes : List UInt8 := (le 4 un.1.toNat).reverse ++ (le 4 un.2.toNat).reverse

def RerrHeader.bytes (h : RerrHeader) : List UInt8 :=
  le 1 h.m_flag.toNat ++ (le 1 h.m_reserved.toNat ++ (le 1 h.getDestCount.toNat ++
    h.m_unreachableDstSeqNo.entries.flatMap destinationBytes))

@[simp] theorem length_destinationBytes : (destinationBytes un).length = 8 := by
  rw [destinationBytes, length_append, length_reverse, length_reverse, length_le, length_le]

theorem toNat_getDestCount (few : h.m_unreachableDstSeqNo.entries.length ≤ 255) :
    h.getDestCount.toNat = h.m_unreachableDstSeqNo.entries.length := by
  rw [RerrHeader.getDestCount, UInt8.toNat_ofNat']
  exact Nat.mod_eq_of_lt (by omega)

theorem length_bytes (few : h.m_unreachableDstSeqNo.entries.length ≤ 255) :
    h.bytes.length = h.getSerializedSize := by
  have entries : (h.m_unreachableDstSeqNo.entries.flatMap destinationBytes).length =
      8 * h.m_unreachableDstSeqNo.entries.length := by
    simp [length_flatMap, Nat.mul_comm]
  rw [RerrHeader.bytes, RerrHeader.getSerializedSize, toNat_getDestCount few]
  simp only [length_append, length_le, entries]
  omega

theorem foldl_destinations {i : Iterator} (fits : i.pos ≤ i.buf.length) (bs : List UInt8)
    (es : List (Ipv4Address × UInt32)) :
    es.foldl (fun i j => (i.writeHtonU32 j.1).writeHtonU32 j.2) (i.write bs) =
      i.write (bs ++ es.flatMap destinationBytes) := by
  induction es generalizing bs with
  | nil => simp
  | cons un es ih =>
    have one : ((i.write bs).writeHtonU32 un.1).writeHtonU32 un.2 =
        i.write (bs ++ destinationBytes un) := by
      rw [Iterator.writeHtonU32, Iterator.writeHtonU32, Iterator.write_write fits,
        Iterator.write_write fits, append_assoc, destinationBytes]
    rw [foldl_cons, one, ih, flatMap_cons, append_assoc]

theorem serialize_eq {i : Iterator} (fits : i.pos ≤ i.buf.length) : h.serialize i =
    (i.write h.bytes).buf := by
  rw [RerrHeader.serialize, Iterator.writeU8, Iterator.writeU8, Iterator.writeU8,
    Iterator.write_write fits, Iterator.write_write fits, foldl_destinations fits, RerrHeader.bytes]
  simp only [append_assoc]

theorem reads_destination : Reads RerrHeader.readDestination (destinationBytes un) un := by
  have second := (reads_NtohU32 un.2).bind (f := fun seqNo => pure (un.1, seqNo)) (reads_pure un)
  rw [append_nil] at second
  exact (reads_NtohU32 un.1).bind second

theorem reads_bytes (few : h.m_unreachableDstSeqNo.entries.length ≤ 255) :
    Reads RerrHeader.read h.bytes h := by
  have destinations : Reads (readMany RerrHeader.readDestination h.getDestCount.toNat)
      (h.m_unreachableDstSeqNo.entries.flatMap destinationBytes)
        h.m_unreachableDstSeqNo.entries := by
    rw [toNat_getDestCount few]
    exact reads_many reads_destination _
  have last := destinations.bind (f := fun destinations => pure (⟨h.m_flag, h.m_reserved,
    empty.addAll destinations⟩ : RerrHeader)) (reads_pure _)
  rw [append_nil, addAll_entries] at last
  exact (reads_U8 _).bind ((reads_U8 _).bind ((reads_U8 _).bind last))

/-- What the header needs on the way: its bytes are as many as it declares, and it is read back from
them. -/
def RoundTrip (h : RerrHeader) : Prop :=
  ∃ bytes : List UInt8, bytes.length = Header.getSerializedSize h ∧ ∀ fill packet h',
    addHeader fill h packet = some (bytes ++ packet) ∧
      removeHeader h' (bytes ++ packet) = some (h, packet)

theorem roundTrip (few : h.m_unreachableDstSeqNo.entries.length ≤ 255) : RoundTrip h := by
  have size := length_bytes few
  refine ⟨h.bytes, size, fun fill packet h' => ⟨?_, ?_⟩⟩
  · exact addHeader_full size fun i fits => congrArg some (serialize_eq fits)
  · have dist : (h.bytes ++ packet).length - packet.length = h.getSerializedSize := by
      rw [length_append, Nat.add_sub_cancel, size]
    have read : RerrHeader.deserialize (h.bytes ++ packet) = some (h, h.getSerializedSize) := by
      rw [RerrHeader.deserialize, reads_bytes few packet]
      exact (if_pos dist).trans (by rw [dist])
    change (RerrHeader.deserialize (h.bytes ++ packet)).map _ = _
    rw [read, Option.map_some, ← size, drop_left]

theorem removeHeader_few {h' : RerrHeader} {p rest : List UInt8}
    (read : removeHeader h' p = some (h, rest)) : h.m_unreachableDstSeqNo.entries.length ≤ 255 := by
  obtain ⟨⟨_, dist⟩, deserialized, ⟨⟩⟩ := Option.map_eq_some_iff.mp read
  change RerrHeader.deserialize p = _ at deserialized
  rw [RerrHeader.deserialize] at deserialized
  cases hread : RerrHeader.read.run p with
  | none =>
    rw [hread] at deserialized
    cases deserialized
  | some fields =>
    rw [hread] at deserialized
    dsimp only at deserialized
    split_ifs at deserialized
    obtain ⟨rfl, -⟩ := Prod.ext_iff.mp (Option.some.inj deserialized)
    obtain ⟨m_flag, _, -, hread⟩ := run_bind_inv hread
    obtain ⟨m_reserved, _, -, hread⟩ := run_bind_inv hread
    obtain ⟨dest, _, -, hread⟩ := run_bind_inv hread
    obtain ⟨destinations, _, hmany, hread⟩ := run_bind_inv hread
    have le := length_addAll_le destinations empty
    rw [length_readMany hmany] at le
    rw [run_pure_inv hread]
    exact le.trans (by simpa [empty] using Nat.le_of_lt_succ dest.toNat_lt)

end RoundTrip

end Egsr.Aodv.ErrorReport
