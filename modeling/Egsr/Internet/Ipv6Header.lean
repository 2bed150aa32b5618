import Egsr.Lib.BitFields
import Egsr.Network.ByteIterator

/-! IPv6 addresses, the addresses made from link-layer addresses, and the IPv6
header. The flow label is written whole and read back through a mask that
keeps everything but the flow label. -/

namespace Egsr.Internet

open Lib.Bytes Lib.BitFields Network.ByteIterator List

abbrev Ipv6Address := Block 16

namespace Ipv6Address

def zeros : Ipv6Address := ⟨replicate 16 0, length_replicate⟩

variable (a : Ipv6Address)

def isAny : Bool := a == zeros

def isMulticast : Bool := a.1.head? == some 0xff

/-- `Ipv6Prefix (64)`. -/
def prefix64 : List UInt8 := replicate 8 0xff ++ replicate 8 0

def combinePrefix (mask : List UInt8) : List UInt8 := List.zipWith (· &&& ·) a.1 mask

def linkLocal : List UInt8 := 0xfe :: 0x80 :: replicate 14 0

def isLinkLocal : Bool := !a.isMulticast && a.combinePrefix prefix64 == linkLocal

def linkLocalPrefix : List UInt8 := 0xfe :: 0x80 :: replicate 6 0

def front : Block 8 := ⟨a.1.take 8, by rw [length_take, a.2]; rfl⟩

def interface : Block 8 := ⟨a.1.drop 8, by rw [length_drop, a.2]⟩

theorem front_interface : a.1 = a.front.1 ++ a.interface.1 := (take_append_drop 8 _).symm

theorem zipWith_ones (l : List UInt8) : List.zipWith (· &&& ·) l (replicate l.length 0xff) = l := by
  induction l with
  | nil => rfl
  | cons x l ih =>
    rw [length_cons, replicate_succ, zipWith_cons_cons, ih]
    congr 1
    apply UInt8.toNat_inj.mp
    rw [UInt8.toNat_and]
    exact (and_low x.toNat 8).trans (Nat.mod_eq_of_lt x.toNat_lt)

theorem zipWith_zeros (l : List UInt8) : List.zipWith (· &&& ·) l (replicate l.length 0) =
    replicate l.length 0 := by
  induction l with
  | nil => rfl
  | cons x l ih =>
    rw [length_cons, replicate_succ, zipWith_cons_cons, ih]
    congr 1
    exact UInt8.and_zero

theorem isLinkLocal_iff : a.isLinkLocal = true ↔ a.front.1 = linkLocalPrefix := by
  have hmasked : a.combinePrefix prefix64 = a.front.1 ++ replicate 8 0 := by
    have hones := zipWith_ones a.front.1
    have hzeros := zipWith_zeros a.interface.1
    rw [a.front.2] at hones
    rw [a.interface.2] at hzeros
    rw [combinePrefix, prefix64, front_interface,
      zipWith_append (by rw [a.front.2, length_replicate]), hones, hzeros]
  have hlocal : linkLocal = linkLocalPrefix ++ replicate 8 0 := rfl
  rw [isLinkLocal, hmasked, Bool.and_eq_true, beq_iff_eq, hlocal, append_left_inj]
  refine ⟨And.right, fun h => ⟨?_, h⟩⟩
  have hhead : a.1.head? = some 0xfe := by
    rw [front_interface, h]
    rfl
  rw [isMulticast, hhead]
  rfl

end Ipv6Address

/-- An `Address` by the kind that `IsMatchingType` finds. -/
inductive LinkLayerAddress where
  | mac8 (a : UInt8)
  | mac16 (a b : UInt8)
  | mac48 (a b c d e f : UInt8)
  | mac64 (bytes : Block 8)
deriving DecidableEq

namespace LinkLayerAddress

def autoconfigured (buf2 : List UInt8) : LinkLayerAddress → List UInt8
  | mac8 a => ((overwrite buf2 14 [0, a]).set 11 0xff).set 12 0xfe
  | mac16 a b => ((overwrite buf2 14 [a, b]).set 11 0xff).set 12 0xfe
  | mac48 a b c d e f =>
    (overwrite (((overwrite buf2 8 [a, b, c]).set 11 0xff).set 12 0xfe) 13 [d, e, f]).modify 8
      (· ||| 0x02)
  | mac64 bytes => overwrite buf2 8 bytes.1

theorem length_autoconfigured {buf2 : List UInt8} (h : buf2.length = 16) (addr : LinkLayerAddress) :
    (addr.autoconfigured buf2).length = 16 := by
  cases addr with
  | mac8 a => simp [autoconfigured, overwrite, h]
  | mac16 a b => simp [autoconfigured, overwrite, h]
  | mac48 a b c d e f => simp [autoconfigured, overwrite, h]
  | mac64 bytes => simp [autoconfigured, overwrite, h, bytes.2]

variable (addr : LinkLayerAddress)

def makeAutoconfiguredAddress (pre : Ipv6Address) : Ipv6Address :=
  ⟨addr.autoconfigured pre.1, length_autoconfigured pre.2 addr⟩

def makeAutoconfiguredLinkLocalAddress : Ipv6Address :=
  ⟨addr.autoconfigured Ipv6Address.linkLocal, length_autoconfigured rfl addr⟩

def identifier : Block 8 := addr.makeAutoconfiguredLinkLocalAddress.interface

theorem autoconfigured_eq {pre : List UInt8} (h : pre.length = 8) (addr : LinkLayerAddress) :
    addr.autoconfigured (pre ++ replicate 8 0) = pre ++ addr.identifier.1 := by
  match pre, h with
  | [_, _, _, _, _, _, _, _], _ =>
    cases addr with
    | mac8 a => rfl
    | mac16 a b => rfl
    | mac48 a b c d e f => rfl
    | mac64 bytes =>
      simp [identifier, makeAutoconfiguredLinkLocalAddress, Ipv6Address.interface, autoconfigured,
        overwrite, bytes.2, Ipv6Address.linkLocal]

end LinkLayerAddress

structure Ipv6Header where
  m_trafficClass : UInt8
  m_flowLabel : UInt32
  m_payloadLength : UInt16
  m_nextHeader : UInt8
  m_hopLimit : UInt8
  m_sourceAddress : Ipv6Address
  m_destinationAddress : Ipv6Address
deriving DecidableEq

namespace Ipv6Header

abbrev IPV6_TCP : UInt8 := 6
abbrev IPV6_UDP : UInt8 := 17
abbrev IPV6_ICMPV6 : UInt8 := 58

def constructed : Ipv6Header := ⟨0, 1, 0, 0, 0, .zeros, .zeros⟩

variable (h : Ipv6Header)

def getSerializedSize : ℕ := 10 * 4

def vTcFl : UInt32 := (6 : UInt32) <<< 28 ||| h.m_trafficClass.toUInt32 <<< 20 ||| h.m_flowLabel

def serialize (start : Iterator) : List UInt8 :=
  ((((((start.writeHtonU32 h.vTcFl).writeHtonU16 h.m_payloadLength).writeU8 h.m_nextHeader).writeU8
    h.m_hopLimit).write h.m_sourceAddress.1).write h.m_destinationAddress.1).buf

def deserialize : Reader (Ipv6Header × ℕ) := do
  let vTcFl ← readNtohU32
  if vTcFl >>> 28 ≠ 6 then pure (h, 0)
  else do
    let m_payloadLength ← readNtohU16
    let m_nextHeader ← readU8
    let m_hopLimit ← readU8
    let m_sourceAddress ← takeBlock 16
    let m_destinationAddress ← takeBlock 16
    pure (⟨((vTcFl >>> 20) &&& 0x000000ff).toUInt8, vTcFl &&& 0xfff00000, m_payloadLength,
      m_nextHeader, m_hopLimit, m_sourceAddress, m_destinationAddress⟩, getSerializedSize)

instance : Header Ipv6Header where
  getSerializedSize _ := getSerializedSize
  serialize h i := some (h.serialize i)
  deserialize h start := (h.deserialize.run start).map Prod.fst

def behind : List UInt8 :=
  (le 2 h.m_payloadLength.toNat).reverse ++
    (le 1 h.m_nextHeader.toNat ++ (le 1 h.m_hopLimit.toNat ++
    (h.m_sourceAddress.1 ++ h.m_destinationAddress.1)))

def bytes : List UInt8 := (le 4 h.vTcFl.toNat).reverse ++ h.behind

variable {h : Ipv6Header}

theorem length_bytes : h.bytes.length = getSerializedSize := by
  simp [bytes, behind, h.m_sourceAddress.2, h.m_destinationAddress.2, getSerializedSize]

theorem serialize_eq {i : Iterator} (fits : i.pos ≤ i.buf.length) : h.serialize i =
    (i.write h.bytes).buf := by
  rw [serialize, Iterator.writeHtonU32, Iterator.writeHtonU16, Iterator.writeU8, Iterator.writeU8]
  iterate 5 rw [Iterator.write_write fits]
  simp only [bytes, behind, append_assoc]

theorem addHeader_eq (fill : ℕ → UInt8) (packet : List UInt8) : addHeader fill h packet =
    some (h.bytes ++ packet) :=
  addHeader_full length_bytes fun _ fits => congrArg some (serialize_eq fits)

/-! ### What is read of a header -/

def mislabelled (h : Ipv6Header) : Ipv6Header :=
  { h with m_flowLabel := (6 : UInt32) <<< 28 ||| h.m_trafficClass.toUInt32 <<< 20 }

theorem toNat_vTcFl (short : h.m_flowLabel.toNat < 2 ^ 20) :
    h.vTcFl.toNat = 6 * 2 ^ 28 + h.m_trafficClass.toNat * 2 ^ 20 + h.m_flowLabel.toNat := by
  have hclass := h.m_trafficClass.toNat_lt
  have hversion : ((6 : UInt32) <<< 28).toNat = 6 * 2 ^ 28 := rfl
  have hshift : (h.m_trafficClass.toUInt32 <<< 20).toNat = h.m_trafficClass.toNat * 2 ^ 20 := by
    rw [UInt32.toNat_shiftLeft, UInt8.toNat_toUInt32, Nat.shiftLeft_eq]
    exact Nat.mod_eq_of_lt (by change _ * 2 ^ 20 < _; omega)
  rw [vTcFl, UInt32.toNat_or, UInt32.toNat_or, hversion, hshift,
    or_below (x := 6 * 2 ^ 28) 28 ⟨6, rfl⟩ (by omega), or_below 20 (by omega) short]

theorem version_vTcFl (short : h.m_flowLabel.toNat < 2 ^ 20) : h.vTcFl >>> 28 = 6 := by
  have hclass := h.m_trafficClass.toNat_lt
  apply UInt32.toNat_inj.mp
  rw [UInt32.toNat_shiftRight, Nat.shiftRight_eq_div_pow, toNat_vTcFl short]
  change (6 * 2 ^ 28 + _ + _) / 2 ^ 28 = 6
  omega

theorem class_vTcFl (short : h.m_flowLabel.toNat < 2 ^ 20) :
    ((h.vTcFl >>> 20) &&& 0x000000ff).toUInt8 = h.m_trafficClass := by
  have hclass := h.m_trafficClass.toNat_lt
  apply UInt8.toNat_inj.mp
  rw [UInt32.toNat_toUInt8, UInt32.toNat_and, UInt32.toNat_shiftRight, Nat.shiftRight_eq_div_pow,
    toNat_vTcFl short]
  change ((6 * 2 ^ 28 + _ + _) / 2 ^ 20 &&& (2 ^ 8 - 1)) % 2 ^ 8 = _
  rw [and_low]
  omega

theorem toNat_mislabelled (h : Ipv6Header) :
    h.mislabelled.m_flowLabel.toNat = 6 * 2 ^ 28 + h.m_trafficClass.toNat * 2 ^ 20 := by
  let unlabelled : Ipv6Header := { h with m_flowLabel := 0 }
  have hlabel : unlabelled.m_flowLabel.toNat = 0 := rfl
  have hread : h.mislabelled.m_flowLabel = unlabelled.vTcFl := UInt32.or_zero.symm
  have hvalue := toNat_vTcFl (h := unlabelled) (by rw [hlabel]; decide)
  rw [hlabel, Nat.add_zero] at hvalue
  rw [hread, hvalue]

theorem label_vTcFl (short : h.m_flowLabel.toNat < 2 ^ 20) :
    h.vTcFl &&& 0xfff00000 = h.mislabelled.m_flowLabel := by
  have hclass := h.m_trafficClass.toNat_lt
  apply UInt32.toNat_inj.mp
  rw [toNat_mislabelled, UInt32.toNat_and, toNat_vTcFl short]
  change _ &&& (2 ^ 12 - 1) * 2 ^ 20 = _
  rw [and_field]
  omega

theorem reads_bytes (short : h.m_flowLabel.toNat < 2 ^ 20) (h' : Ipv6Header) :
    Reads h'.deserialize h.bytes (h.mislabelled, getSerializedSize) := by
  refine (reads_NtohU32 h.vTcFl).bind ?_
  rw [if_neg (not_not_intro (version_vTcFl short)), class_vTcFl short, label_vTcFl short]
  have last :=
    (reads_takeBlock h.m_destinationAddress).bind (f := fun d => pure (({ h.mislabelled with
    m_destinationAddress := d } : Ipv6Header), getSerializedSize)) (reads_pure _)
  rw [append_nil] at last
  exact (reads_NtohU16 _).bind
    ((reads_U8 _).bind ((reads_U8 _).bind ((reads_takeBlock _).bind last)))

theorem deserialize_eq (short : h.m_flowLabel.toNat < 2 ^ 20) (h' : Ipv6Header)
    (packet : List UInt8) :
    Header.deserialize h' (h.bytes ++ packet) = some (h.mislabelled, getSerializedSize) := by
  change (h'.deserialize.run (h.bytes ++ packet)).map Prod.fst = _
  rw [reads_bytes short h' packet, Option.map_some]

theorem bytes_of_subset {label : UInt32}
    (subset : h.mislabelled.m_flowLabel ||| label = h.mislabelled.m_flowLabel) :
    ({ h with m_flowLabel := label } : Ipv6Header).bytes =
    ({ h with m_flowLabel := 0 } : Ipv6Header).bytes := by
  have hfirst : ({ h with m_flowLabel := label } : Ipv6Header).vTcFl =
    ({ h with m_flowLabel := 0 } : Ipv6Header).vTcFl :=
    subset.trans UInt32.or_zero.symm
  rw [bytes, bytes, hfirst]
  rfl

theorem bytes_inj {h h' : Ipv6Header} (short : h.m_flowLabel.toNat < 2 ^ 20)
    (short' : h'.m_flowLabel.toNat < 2 ^ 20) (same : h.bytes = h'.bytes) :
    h.m_flowLabel = h'.m_flowLabel ∧ h.m_sourceAddress = h'.m_sourceAddress ∧
      h.m_destinationAddress = h'.m_destinationAddress := by
  have hread' := reads_bytes short' h
  rw [← same] at hread'
  have hread := (reads_bytes short h).unique hread'
  have hheader : h.mislabelled = h'.mislabelled := congrArg Prod.fst hread
  have hfields := (mk.injEq ..).mp hheader
  obtain ⟨hfirst, -⟩ :=
    append_inj same (by rw [length_reverse, length_reverse, length_le, length_le])
  have hvalue : h.vTcFl.toNat = h'.vTcFl.toNat := by
    have := congrArg fromLe (reverse_injective hfirst)
    rwa [fromLe_le, fromLe_le, Nat.mod_eq_of_lt (by simpa using h.vTcFl.toNat_lt),
      Nat.mod_eq_of_lt (by simpa using h'.vTcFl.toNat_lt)] at this
  rw [toNat_vTcFl short, toNat_vTcFl short', hfields.1] at hvalue
  exact ⟨UInt32.toNat_inj.mp (by omega), hfields.2.2.2.2.2⟩

end Ipv6Header

end Egsr.Internet
