import Egsr.Lib.Bytes

/-! Buffer iterators and packet headers. An iterator is a position in a buffer
that several iterators may share: a callee that takes one by value writes to
the shared bytes and leaves the caller's position where it was. Integers are
written least significant byte first, unless they are in network byte order. -/

namespace Egsr.Network.ByteIterator

open Lib.Bytes List

abbrev Ipv4Address := UInt32

structure Iterator where
  buf : List UInt8
  pos : ℕ

namespace Iterator

variable (i : Iterator)

def write (bs : List UInt8) : Iterator :=
  ⟨overwrite i.buf i.pos bs, i.pos + bs.length⟩

def writeU8 (data : UInt8) : Iterator := i.write (le 1 data.toNat)
def writeU16 (data : UInt16) : Iterator := i.write (le 2 data.toNat)
def writeU32 (data : UInt32) : Iterator := i.write (le 4 data.toNat)
def writeU64 (data : UInt64) : Iterator := i.write (le 8 data.toNat)
def writeHtonU16 (data : UInt16) : Iterator := i.write (le 2 data.toNat).reverse
def writeHtonU32 (data : UInt32) : Iterator := i.write (le 4 data.toNat).reverse

theorem write_write {i : Iterator} (fits : i.pos ≤ i.buf.length) (bs cs : List UInt8) :
    (i.write bs).write cs = i.write (bs ++ cs) := by
  simp only [write, overwrite_overwrite fits, length_append, Nat.add_assoc]

theorem write_fits {i : Iterator} (fits : i.pos ≤ i.buf.length) (bs : List UInt8) :
    (i.write bs).pos ≤ (i.write bs).buf.length := by
  simp only [write, overwrite, length_append, length_take, length_drop]
  omega

theorem write_same {i : Iterator} (fits : i.pos ≤ i.buf.length) (bs cs : List UInt8) :
    (Iterator.write ⟨(i.write bs).buf, i.pos⟩ cs).buf =
      (i.write (cs ++ bs.drop cs.length)).buf := by
  simp only [write, overwrite_same fits]

theorem foldl_write {β : Type} {i : Iterator} (fits : i.pos ≤ i.buf.length) (bs : List UInt8)
    (enc : β → List UInt8) (xs : List β) :
    xs.foldl (fun i x => i.write (enc x)) (i.write bs) = i.write (bs ++ xs.flatMap enc) := by
  induction xs generalizing bs with
  | nil => simp
  | cons x xs ih => rw [foldl_cons, write_write fits, ih, flatMap_cons, append_assoc]

end Iterator

def readU8 : Reader UInt8 := (fun bs => .ofNat (fromLe bs)) <$> takeBytes 1
def readU16 : Reader UInt16 := (fun bs => .ofNat (fromLe bs)) <$> takeBytes 2
def readU32 : Reader UInt32 := (fun bs => .ofNat (fromLe bs)) <$> takeBytes 4
def readU64 : Reader UInt64 := (fun bs => UInt64.ofNat (fromLe bs)) <$> takeBytes 8
def readNtohU16 : Reader UInt16 := (fun bs => .ofNat (fromLe bs.reverse)) <$> takeBytes 2
def readNtohU32 : Reader UInt32 := (fun bs => UInt32.ofNat (fromLe bs.reverse)) <$> takeBytes 4

theorem reads_U8 (x : UInt8) : Reads readU8 (le 1 x.toNat) x := by
  have h := (reads_takeBytes (le 1 x.toNat)).map (fun bs => UInt8.ofNat (fromLe bs))
  rwa [length_le, fromLe_le, Nat.mod_eq_of_lt (by simpa using x.toNat_lt), UInt8.ofNat_toNat] at h

theorem reads_U16 (x : UInt16) : Reads readU16 (le 2 x.toNat) x := by
  have h := (reads_takeBytes (le 2 x.toNat)).map (fun bs => UInt16.ofNat (fromLe bs))
  rwa [length_le, fromLe_le, Nat.mod_eq_of_lt (by simpa using x.toNat_lt), UInt16.ofNat_toNat] at h

theorem reads_U32 (x : UInt32) : Reads readU32 (le 4 x.toNat) x := by
  have h := (reads_takeBytes (le 4 x.toNat)).map (fun bs => UInt32.ofNat (fromLe bs))
  rwa [length_le, fromLe_le, Nat.mod_eq_of_lt (by simpa using x.toNat_lt), UInt32.ofNat_toNat] at h

theorem reads_U64 (x : UInt64) : Reads readU64 (le 8 x.toNat) x := by
  have h := (reads_takeBytes (le 8 x.toNat)).map (fun bs => UInt64.ofNat (fromLe bs))
  rwa [length_le, fromLe_le, Nat.mod_eq_of_lt (by simpa using x.toNat_lt), UInt64.ofNat_toNat] at h

theorem reads_NtohU16 (x : UInt16) : Reads readNtohU16 (le 2 x.toNat).reverse x := by
  have h := (reads_takeBytes (le 2 x.toNat).reverse).map
    (fun bs => UInt16.ofNat (fromLe bs.reverse))
  rwa [length_reverse, length_le, reverse_reverse, fromLe_le,
    Nat.mod_eq_of_lt (by simpa using x.toNat_lt), UInt16.ofNat_toNat] at h

theorem reads_NtohU32 (x : UInt32) : Reads readNtohU32 (le 4 x.toNat).reverse x := by
  have h := (reads_takeBytes (le 4 x.toNat).reverse).map
    (fun bs => UInt32.ofNat (fromLe bs.reverse))
  rwa [length_reverse, length_le, reverse_reverse, fromLe_le,
    Nat.mod_eq_of_lt (by simpa using x.toNat_lt), UInt32.ofNat_toNat] at h

/-- A reader handed its iterator by value: the caller's position does not move. -/
def byValue {β : Type} (r : Reader β) : Reader β := fun bs => (r.run bs).map fun p => (p.1, bs)

/-- A packet header: its declared size, the buffer it leaves behind when it is
written at an iterator, and the header read at the start of some bytes together
with the size that reading declares. `none` is a failed assertion or a read
past the end. -/
class Header (H : Type) where
  getSerializedSize : H → ℕ
  serialize : H → Iterator → Option (List UInt8)
  deserialize : H → List UInt8 → Option (H × ℕ)

variable {H : Type} [Header H] (fill : ℕ → UInt8)

/-- Newly allocated bytes hold whatever the memory held before. -/
def freshBytes (n : ℕ) : List UInt8 := (range n).map fill

/-- `Packet::AddHeader`: room for the header is made at the start of the packet
and the header is written there. -/
def addHeader (header : H) (packet : List UInt8) : Option (List UInt8) :=
  Header.serialize header ⟨freshBytes fill (Header.getSerializedSize header) ++ packet, 0⟩

/-- `Packet::RemoveHeader`: the declared size of the header read is cut off. -/
def removeHeader (header : H) (packet : List UInt8) : Option (H × List UInt8) :=
  (Header.deserialize header packet).map fun p => (p.1, packet.drop p.2)

@[simp] theorem length_freshBytes (n : ℕ) : (freshBytes fill n).length = n := by simp [freshBytes]

theorem addHeader_eq {header : H} {packet bs : List UInt8} {fill : ℕ → UInt8}
    (size : bs.length ≤ Header.getSerializedSize header)
    (writes : ∀ i : Iterator, i.pos ≤ i.buf.length →
      Header.serialize header i = some (i.write bs).buf) :
    addHeader fill header packet = some
      (bs ++ ((freshBytes fill (Header.getSerializedSize header)).drop bs.length ++ packet)) := by
  rw [addHeader, writes _ (Nat.zero_le _)]
  simp only [Iterator.write, overwrite, take_zero, nil_append, Nat.zero_add]
  rw [drop_append_of_le_length (by simpa using size)]

theorem addHeader_full {header : H} {packet bs : List UInt8} {fill : ℕ → UInt8}
    (size : bs.length = Header.getSerializedSize header)
    (writes : ∀ i : Iterator, i.pos ≤ i.buf.length →
      Header.serialize header i = some (i.write bs).buf) :
    addHeader fill header packet = some (bs ++ packet) := by
  rw [addHeader_eq size.le writes, drop_eq_nil_of_le (by simp [size]), nil_append]

end Egsr.Network.ByteIterator
