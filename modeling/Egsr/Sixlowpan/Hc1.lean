import Egsr.Internet.Ipv6Header

/-! HC1 compression of IPv6 headers over low-power links: the header that
stands for the IPv6 header, and the two functions of the device. Memory that
the code reads before it has written it is a parameter. -/

namespace Egsr.Sixlowpan

open Lib.Bytes Lib.BitFields Network.ByteIterator Internet List Option

abbrev LOWPAN_HC1 : UInt8 := 0x42

inductive LowPanHc1Addr_e where
  | HC1_PIII
  | HC1_PIIC
  | HC1_PCII
  | HC1_PCIC
deriving DecidableEq

inductive LowPanHc1NextHeader_e where
  | HC1_NC
  | HC1_UDP
  | HC1_ICMP
  | HC1_TCP
deriving DecidableEq

def LowPanHc1Addr_e.toByte : LowPanHc1Addr_e → UInt8
  | HC1_PIII => 0
  | HC1_PIIC => 1
  | HC1_PCII => 2
  | HC1_PCIC => 3

def LowPanHc1Addr_e.ofByte (b : UInt8) : LowPanHc1Addr_e :=
  if b = 0 then HC1_PIII else if b = 1 then HC1_PIIC else if b = 2 then HC1_PCII else HC1_PCIC

def LowPanHc1NextHeader_e.toByte : LowPanHc1NextHeader_e → UInt8
  | HC1_NC => 0
  | HC1_UDP => 1
  | HC1_ICMP => 2
  | HC1_TCP => 3

def LowPanHc1NextHeader_e.ofByte (b : UInt8) : LowPanHc1NextHeader_e :=
  if b = 0 then HC1_NC else if b = 1 then HC1_UDP else if b = 2 then HC1_ICMP else HC1_TCP

structure Hc1Address where
  compression : LowPanHc1Addr_e
  pre : Block 8
  interface : Block 8

structure SixLowPanHc1 where
  m_hopLimit : UInt8
  /-- `m_srcCompression`, `m_srcPrefix` and `m_srcInterface`. -/
  m_src : Hc1Address
  /-- `m_dstCompression`, `m_dstPrefix` and `m_dstInterface`. -/
  m_dst : Hc1Address
  m_trafficClass : UInt8
  m_flowLabel : UInt32
  m_nextHeader : UInt8
  m_tcflCompression : Bool
  m_nextHeaderCompression : LowPanHc1NextHeader_e
  m_hc2HeaderPresent : Bool

namespace Hc1Address

variable (part : Hc1Address)

def size : ℕ :=
  match part.compression with
  | .HC1_PIII => 16
  | .HC1_PIIC => 8
  | .HC1_PCII => 8
  | .HC1_PCIC => 0

def write (i : Iterator) : Iterator :=
  match part.compression with
  | .HC1_PIII => (i.write part.pre.1).write part.interface.1
  | .HC1_PIIC => i.write part.pre.1
  | .HC1_PCII => i.write part.interface.1
  | .HC1_PCIC => i

def read (compression : LowPanHc1Addr_e) : Reader Hc1Address :=
  match compression with
  | .HC1_PIII => do
    let pre ← takeBlock 8
    let interface ← takeBlock 8
    pure ⟨compression, pre, interface⟩
  | .HC1_PIIC => do
    let pre ← takeBlock 8
    pure ⟨compression, pre, part.interface⟩
  | .HC1_PCII => do
    let interface ← takeBlock 8
    pure ⟨compression, part.pre, interface⟩
  | .HC1_PCIC => pure ⟨compression, part.pre, part.interface⟩

end Hc1Address

namespace SixLowPanHc1

variable (h : SixLowPanHc1)

def setNextHeader (nextHeader : UInt8) : SixLowPanHc1 :=
  { h with
    m_nextHeader := nextHeader
    m_nextHeaderCompression :=
      if nextHeader = Ipv6Header.IPV6_UDP then .HC1_UDP
      else if nextHeader = Ipv6Header.IPV6_TCP then .HC1_TCP
      else if nextHeader = Ipv6Header.IPV6_ICMPV6 then .HC1_ICMP
      else .HC1_NC }

def getSerializedSize : ℕ :=
  3 + h.m_src.size + h.m_dst.size + (if h.m_tcflCompression = false then 4 else 0) +
    (if h.m_nextHeaderCompression = .HC1_NC then 1 else 0)

def encoding : UInt8 :=
  ((((h.m_src.compression.toByte <<< 2 ||| h.m_dst.compression.toByte) <<< 1 |||
    h.m_tcflCompression.toUInt8) <<< 2 |||
    h.m_nextHeaderCompression.toByte) <<< 1) ||| h.m_hc2HeaderPresent.toUInt8

def temp : List UInt8 :=
  [(h.m_flowLabel &&& 0xff).toUInt8, ((h.m_flowLabel >>> 8) &&& 0xff).toUInt8,
    ((h.m_flowLabel >>> 16) &&& 0xff).toUInt8]

def serialize (start : Iterator) : Option (List UInt8) :=
  let i := ((start.writeU8 LOWPAN_HC1).writeU8 h.encoding).writeU8 h.m_hopLimit
  let i := h.m_dst.write (h.m_src.write i)
  let i := if h.m_tcflCompression = false then (i.writeU8 h.m_trafficClass).write h.temp else i
  let i := if h.m_nextHeaderCompression = .HC1_NC then i.writeU8 h.m_nextHeader else i
  -- `NS_ASSERT_MSG`
  if h.m_hc2HeaderPresent = true then none else some i.buf

def readTcfl (m_tcflCompression : Bool) : Reader (UInt8 × UInt32) :=
  if m_tcflCompression = false then do
    let m_trafficClass ← readU8
    let temp0 ← readU8
    let temp1 ← readU8
    let temp2 ← readU8
    pure (m_trafficClass, ((temp2.toUInt32 <<< 8) ||| temp1.toUInt32) <<< 8 ||| temp0.toUInt32)
  else pure (h.m_trafficClass, h.m_flowLabel)

def readNextHeader : LowPanHc1NextHeader_e → Reader UInt8
  | .HC1_NC => readU8
  | .HC1_TCP => pure Ipv6Header.IPV6_TCP
  | .HC1_UDP => pure Ipv6Header.IPV6_UDP
  | .HC1_ICMP => pure Ipv6Header.IPV6_ICMPV6

def checkHc2 : Reader (SixLowPanHc1 × ℕ) :=
  if h.m_hc2HeaderPresent = true then failure else pure (h, h.getSerializedSize)

def deserialize : Reader (SixLowPanHc1 × ℕ) := do
  let dispatch ← readU8
  if dispatch ≠ LOWPAN_HC1 then pure (h, 0)
  else do
    let encoding ← readU8
    let m_hopLimit ← readU8
    let m_src ← h.m_src.read (.ofByte (encoding >>> 6))
    let m_dst ← h.m_dst.read (.ofByte ((encoding >>> 4) &&& 0x3))
    let tcfl ← h.readTcfl (((encoding >>> 3) &&& 0x1) != 0)
    let m_nextHeader ← readNextHeader (.ofByte ((encoding >>> 1) &&& 0x3))
    checkHc2 ⟨m_hopLimit, m_src, m_dst, tcfl.1, tcfl.2, m_nextHeader,
      ((encoding >>> 3) &&& 0x1) != 0, .ofByte ((encoding >>> 1) &&& 0x3), (encoding &&& 0x1) != 0⟩

instance : Header SixLowPanHc1 where
  getSerializedSize := getSerializedSize
  serialize := serialize
  deserialize h start := (h.deserialize.run start).map Prod.fst

end SixLowPanHc1

/-! ### The header read back -/

namespace Hc1Address

variable {part : Hc1Address}

def bytes (part : Hc1Address) : List UInt8 :=
  match part.compression with
  | .HC1_PIII => part.pre.1 ++ part.interface.1
  | .HC1_PIIC => part.pre.1
  | .HC1_PCII => part.interface.1
  | .HC1_PCIC => []

def received (old part : Hc1Address) : Hc1Address :=
  match part.compression with
  | .HC1_PIII => part
  | .HC1_PIIC => { part with interface := old.interface }
  | .HC1_PCII => { part with pre := old.pre }
  | .HC1_PCIC => { old with compression := part.compression }

theorem length_bytes : part.bytes.length = part.size := by
  rw [bytes, size]
  cases part.compression with
  | HC1_PIII => simp [part.pre.2, part.interface.2]
  | HC1_PIIC => exact part.pre.2
  | HC1_PCII => exact part.interface.2
  | HC1_PCIC => rfl

theorem write_eq {i : Iterator} (fits : i.pos ≤ i.buf.length) (bs : List UInt8) :
    part.write (i.write bs) = i.write (bs ++ part.bytes) := by
  rw [write, bytes]
  cases part.compression with
  | HC1_PIII => rw [Iterator.write_write fits, Iterator.write_write fits, append_assoc]
  | HC1_PIIC => exact Iterator.write_write fits _ _
  | HC1_PCII => exact Iterator.write_write fits _ _
  | HC1_PCIC => rw [append_nil]

theorem reads_bytes (old : Hc1Address) : Reads (old.read part.compression) part.bytes
    (received old part) := by
  obtain ⟨compression, pre, interface⟩ := part
  cases compression with
  | HC1_PIII => exact (reads_takeBlock pre).bind ((reads_takeBlock interface).bind_pure _)
  | HC1_PIIC => exact (reads_takeBlock pre).bind_pure _
  | HC1_PCII => exact (reads_takeBlock interface).bind_pure _
  | HC1_PCIC => exact reads_pure _

theorem size_received (old : Hc1Address) : (received old part).size = part.size := by
  obtain ⟨compression, pre, interface⟩ := part
  cases compression <;> rfl

end Hc1Address

namespace SixLowPanHc1

variable {h : SixLowPanHc1}

theorem encoding_fields (h : SixLowPanHc1) :
    LowPanHc1Addr_e.ofByte (h.encoding >>> 6) = h.m_src.compression ∧
      LowPanHc1Addr_e.ofByte ((h.encoding >>> 4) &&& 0x3) = h.m_dst.compression ∧
      (((h.encoding >>> 3) &&& 0x1) != 0) = h.m_tcflCompression ∧
      LowPanHc1NextHeader_e.ofByte ((h.encoding >>> 1) &&& 0x3) = h.m_nextHeaderCompression ∧
      ((h.encoding &&& 0x1) != 0) = h.m_hc2HeaderPresent := by
  have haddr : ∀ a : LowPanHc1Addr_e, a ∈
      [LowPanHc1Addr_e.HC1_PIII, .HC1_PIIC, .HC1_PCII, .HC1_PCIC] := by
    intro a
    cases a <;> decide
  have hnext : ∀ n : LowPanHc1NextHeader_e, n ∈
      [LowPanHc1NextHeader_e.HC1_NC, .HC1_UDP, .HC1_ICMP, .HC1_TCP] := by
    intro n
    cases n <;> decide
  have hall : ∀ src ∈ [LowPanHc1Addr_e.HC1_PIII, .HC1_PIIC, .HC1_PCII, .HC1_PCIC],
      ∀ dst ∈ [LowPanHc1Addr_e.HC1_PIII, .HC1_PIIC, .HC1_PCII, .HC1_PCIC], ∀ tcfl : Bool,
      ∀ next ∈ [LowPanHc1NextHeader_e.HC1_NC, .HC1_UDP, .HC1_ICMP, .HC1_TCP], ∀ hc2 : Bool,
        ∀ encoding : UInt8,
        encoding = ((((src.toByte <<< 2 ||| dst.toByte) <<< 1 ||| tcfl.toUInt8) <<< 2 |||
          next.toByte) <<< 1) ||| hc2.toUInt8 →
        LowPanHc1Addr_e.ofByte (encoding >>> 6) = src ∧
          LowPanHc1Addr_e.ofByte ((encoding >>> 4) &&& 0x3) = dst ∧
          (((encoding >>> 3) &&& 0x1) != 0) = tcfl ∧
          LowPanHc1NextHeader_e.ofByte ((encoding >>> 1) &&& 0x3) = next ∧
            ((encoding &&& 0x1) != 0) = hc2 := by
    simp only [forall_eq]
    decide +kernel
  exact hall _ (haddr _) _ (haddr _) _ _ (hnext _) _ _ rfl

def nextHeaderBytes (h : SixLowPanHc1) : List UInt8 :=
  if h.m_nextHeaderCompression = .HC1_NC then le 1 h.m_nextHeader.toNat else []

def bytes (h : SixLowPanHc1) : List UInt8 :=
  le 1 LOWPAN_HC1.toNat ++
    (le 1 h.encoding.toNat ++ (le 1 h.m_hopLimit.toNat ++ (h.m_src.bytes ++ (h.m_dst.bytes ++
    ((le 1 h.m_trafficClass.toNat ++ h.temp) ++ h.nextHeaderBytes)))))

theorem length_bytes (plain : h.m_tcflCompression = false) :
    h.bytes.length = h.getSerializedSize := by
  have hnext : h.nextHeaderBytes.length = if h.m_nextHeaderCompression = .HC1_NC then 1 else 0 := by
    rw [nextHeaderBytes]
    split_ifs
    · exact length_le _ _
    · rfl
  rw [bytes, getSerializedSize, if_pos plain]
  simp only [length_append, length_le, Hc1Address.length_bytes, hnext, temp, length_cons,
    length_nil]
  omega

theorem serialize_eq {i : Iterator} (fits : i.pos ≤ i.buf.length)
    (plain : h.m_tcflCompression = false)
    (alone : h.m_hc2HeaderPresent = false) : h.serialize i = some (i.write h.bytes).buf := by
  have hnext : ∀ bs, (if h.m_nextHeaderCompression =
    .HC1_NC then (i.write bs).writeU8 h.m_nextHeader else i.write bs) =
      i.write (bs ++ h.nextHeaderBytes) := by
    intro bs
    rw [nextHeaderBytes]
    split_ifs
    · exact Iterator.write_write fits _ _
    · rw [append_nil]
  have hfront : ((i.writeU8 LOWPAN_HC1).writeU8 h.encoding).writeU8 h.m_hopLimit =
      i.write (le 1 LOWPAN_HC1.toNat ++ le 1 h.encoding.toNat ++ le 1 h.m_hopLimit.toNat) := by
    simp only [Iterator.writeU8, Iterator.write_write fits]
  have htcfl : ∀ bs, ((i.write bs).writeU8 h.m_trafficClass).write h.temp =
      i.write (bs ++ (le 1 h.m_trafficClass.toNat ++ h.temp)) := by
    intro bs
    rw [Iterator.writeU8, Iterator.write_write fits, Iterator.write_write fits, append_assoc]
  rw [serialize, if_pos plain, if_neg (by rw [alone]; decide), hfront, Hc1Address.write_eq fits,
    Hc1Address.write_eq fits, htcfl, hnext]
  simp only [bytes, append_assoc]

theorem reads_tcfl (old : SixLowPanHc1) : Reads (old.readTcfl false)
    (le 1 h.m_trafficClass.toNat ++ h.temp) (h.m_trafficClass, h.m_flowLabel &&& 0xffffff) := by
  have byte : ∀ x : UInt8, Reads readU8 [x] x := fun x => by
    have hx := reads_U8 x
    rwa [le, le, UInt8.ofNat_toNat] at hx
  have label : ∀ l : UInt32,
    ((((l >>> 16) &&& 0xff).toUInt8.toUInt32 <<< 8) ||| ((l >>> 8) &&& 0xff).toUInt8.toUInt32) <<<
      8 ||| (l &&& 0xff).toUInt8.toUInt32 = l &&& 0xffffff := by
    intro l
    have hlow : ∀ x : UInt32, (x &&& 0xff).toUInt8.toUInt32.toNat = x.toNat % 2 ^ 8 := by
      intro x
      rw [UInt8.toNat_toUInt32, UInt32.toNat_toUInt8, UInt32.toNat_and]
      change (x.toNat &&& (2 ^ 8 - 1)) % 2 ^ 8 = _
      rw [and_low, Nat.mod_mod]
    apply UInt32.toNat_inj.mp
    rw [UInt32.toNat_or, UInt32.toNat_shiftLeft, UInt32.toNat_or, UInt32.toNat_shiftLeft, hlow,
      hlow, hlow, UInt32.toNat_shiftRight, UInt32.toNat_shiftRight, UInt32.toNat_and]
    change (((l.toNat >>> 16 % 2 ^ 8) <<< 8 % 2 ^ 32 ||| l.toNat >>> 8 % 2 ^ 8) <<< 8 % 2 ^
      32 ||| _) = l.toNat &&& (2 ^ 24 - 1)
    rw [Nat.shiftLeft_eq, Nat.shiftLeft_eq, Nat.shiftRight_eq_div_pow, Nat.shiftRight_eq_div_pow,
      and_low, or_below 8 (by omega) (by omega), or_below 8 (by omega) (by omega)]
    omega
  rw [readTcfl, if_pos rfl, ← label]
  exact (reads_U8 _).bind ((byte _).bind ((byte _).bind ((byte _).bind (reads_pure _))))

def NextHeaderAgrees (h : SixLowPanHc1) : Prop :=
  Reads (readNextHeader h.m_nextHeaderCompression) h.nextHeaderBytes h.m_nextHeader

theorem setNextHeader_agrees (h : SixLowPanHc1) (nextHeader : UInt8) :
    (h.setNextHeader nextHeader).NextHeaderAgrees := by
  rw [NextHeaderAgrees, nextHeaderBytes, setNextHeader]
  dsimp only
  by_cases udp : nextHeader = Ipv6Header.IPV6_UDP
  · rw [if_pos udp, udp]
    exact reads_pure _
  by_cases tcp : nextHeader = Ipv6Header.IPV6_TCP
  · rw [if_neg udp, if_pos tcp, tcp]
    exact reads_pure _
  by_cases icmp : nextHeader = Ipv6Header.IPV6_ICMPV6
  · rw [if_neg udp, if_neg tcp, if_pos icmp, icmp]
    exact reads_pure _
  · rw [if_neg udp, if_neg tcp, if_neg icmp]
    exact reads_U8 _

def received (old h : SixLowPanHc1) : SixLowPanHc1 :=
  { h with
    m_src := old.m_src.received h.m_src
    m_dst := old.m_dst.received h.m_dst
    m_flowLabel := h.m_flowLabel &&& 0xffffff }

theorem reads_bytes (old : SixLowPanHc1) (plain : h.m_tcflCompression = false)
    (alone : h.m_hc2HeaderPresent = false)
    (agrees : h.NextHeaderAgrees) : Reads old.deserialize h.bytes
    (old.received h, h.getSerializedSize) := by
  obtain ⟨hsrc, hdst, htcfl, hnext, hhc2⟩ := encoding_fields h
  have hsize : (old.received h).getSerializedSize = h.getSerializedSize := by
    simp only [getSerializedSize, received, Hc1Address.size_received]
    rfl
  have hcheck : checkHc2 (old.received h) = pure (old.received h, h.getSerializedSize) := by
    rw [checkHc2, ← hsize]
    exact if_neg (by rw [received, alone]; decide)
  refine (reads_U8 LOWPAN_HC1).bind ?_
  rw [if_neg (not_not_intro rfl)]
  refine (reads_U8 h.encoding).bind ((reads_U8 h.m_hopLimit).bind ?_)
  rw [hsrc, hdst, htcfl, hnext, hhc2, plain, alone]
  refine (Hc1Address.reads_bytes old.m_src).bind
    ((Hc1Address.reads_bytes old.m_dst).bind ((reads_tcfl old).bind ?_))
  rw [← append_nil h.nextHeaderBytes]
  refine agrees.bind ?_
  have hfields :
    (⟨h.m_hopLimit, old.m_src.received h.m_src, old.m_dst.received h.m_dst, h.m_trafficClass,
      h.m_flowLabel &&& 0xffffff, h.m_nextHeader, false, h.m_nextHeaderCompression, false⟩ :
        SixLowPanHc1) =
      old.received h := by
    rw [received, plain, alone]
  dsimp only
  rw [hfields, hcheck]
  exact reads_pure _

end SixLowPanHc1

variable (m_forceEtherType : Bool)

/-- `none` is `NS_ABORT_MSG`: the type of the address is not known. -/
def makeLinkLocalAddressFromMac (addr : LinkLayerAddress) : Option Ipv6Address :=
  let ipv6Addr :=
    match addr with
    | .mac48 .. => if m_forceEtherType then addr.makeAutoconfiguredLinkLocalAddress else .zeros
    | _ => addr.makeAutoconfiguredLinkLocalAddress
  if ipv6Addr.isAny then none else some ipv6Addr

/-- There is no case for addresses of eight bits. -/
def makeGlobalAddressFromMac (addr : LinkLayerAddress) (pre : Ipv6Address) : Option Ipv6Address :=
  let ipv6Addr :=
    match addr with
    | .mac48 .. => if m_forceEtherType then addr.makeAutoconfiguredAddress pre else .zeros
    | .mac64 _ => addr.makeAutoconfiguredAddress pre
    | .mac16 .. => addr.makeAutoconfiguredAddress pre
    | .mac8 _ => .zeros
  if ipv6Addr.isAny then none else some ipv6Addr

/-- What memory holds before the code writes it: the members of the headers that the constructor
leaves alone, the two arrays `address`, and the room for new headers. -/
structure Memory where
  hc1Header : SixLowPanHc1
  encoding : SixLowPanHc1
  srcAddress : Block 16
  dstAddress : Block 16
  fill : ℕ → UInt8

def compressAddress (addr : Ipv6Address) (mac : LinkLayerAddress) (part : Hc1Address) :
    Option Hc1Address := do
  let my ← makeLinkLocalAddressFromMac m_forceEtherType mac
  let same := addr.interface == my.interface
  if addr.isLinkLocal && same then some { part with compression := .HC1_PCIC }
  else if addr.isLinkLocal then some { part with
    compression := .HC1_PCII, interface := addr.interface }
  else if same then some { part with compression := .HC1_PIIC, pre := addr.front }
  else some { part with compression := .HC1_PIII, interface := addr.interface, pre := addr.front }

/-- The size of the header that was replaced, or zero, and the packet. -/
def compressLowPanHc1 (m : Memory) (m_forceEtherType : Bool) (packet : List UInt8)
    (src dst : LinkLayerAddress) : Option (ℕ × List UInt8) := do
  let (_, peeked) ← Header.deserialize Ipv6Header.constructed packet
  if peeked ≠ 0 then
    let (ipHeader, packet) ← removeHeader Ipv6Header.constructed packet
    let hc1Header := { m.hc1Header with m_hopLimit := ipHeader.m_hopLimit }
    let m_src ← compressAddress m_forceEtherType ipHeader.m_sourceAddress src hc1Header.m_src
    let m_dst ← compressAddress m_forceEtherType ipHeader.m_destinationAddress dst hc1Header.m_dst
    let hc1Header := { hc1Header with m_src := m_src, m_dst := m_dst }
    let hc1Header :=
      if ipHeader.m_flowLabel = 0 ∧
        ipHeader.m_trafficClass = 0 then { hc1Header with m_tcflCompression := true }
      else { hc1Header with
        m_tcflCompression := false
        m_trafficClass := ipHeader.m_trafficClass
        m_flowLabel := ipHeader.m_flowLabel }
    let hc1Header :=
      { hc1Header.setNextHeader ipHeader.m_nextHeader with m_hc2HeaderPresent := false }
    let packet ← addHeader m.fill hc1Header packet
    some (Ipv6Header.getSerializedSize, packet)
  else some (0, packet)

/-- The part of `DecompressLowPanHc1` for one address, with what the array `address` holds. -/
def decompressAddress (mac : LinkLayerAddress) (address : Block 16) (part : Hc1Address) :
    Option Ipv6Address :=
  match part.compression with
  | .HC1_PIII =>
    some ⟨part.pre.1 ++ part.interface.1, by rw [length_append, part.pre.2, part.interface.2]⟩
  | .HC1_PIIC => makeGlobalAddressFromMac m_forceEtherType mac
      ⟨part.pre.1 ++ replicate 8 0, by rw [length_append, part.pre.2, length_replicate]⟩
  | .HC1_PCII => some ⟨overwrite (overwrite address.1 0 [0xfe, 0x80]) 8 part.interface.1, by
      simp [overwrite, address.2, part.interface.2]⟩
  | .HC1_PCIC => makeLinkLocalAddressFromMac m_forceEtherType mac

def decompressLowPanHc1 (m : Memory) (m_forceEtherType : Bool) (packet : List UInt8)
    (src dst : LinkLayerAddress) : Option (List UInt8) := do
  let (encoding, packet) ← removeHeader { m.encoding with m_hopLimit := 0 } packet
  let ipHeader := { Ipv6Header.constructed with m_hopLimit := encoding.m_hopLimit }
  let m_sourceAddress ← decompressAddress m_forceEtherType src m.srcAddress encoding.m_src
  let m_destinationAddress ← decompressAddress m_forceEtherType dst m.dstAddress encoding.m_dst
  let ipHeader :=
    { ipHeader with
      m_sourceAddress := m_sourceAddress, m_destinationAddress := m_destinationAddress }
  let ipHeader :=
    if encoding.m_tcflCompression = false then
      { ipHeader with
        m_flowLabel := encoding.m_flowLabel, m_trafficClass := encoding.m_trafficClass }
    else { ipHeader with m_flowLabel := 0, m_trafficClass := 0 }
  let ipHeader :=
    { ipHeader with
      m_nextHeader := encoding.m_nextHeader, m_payloadLength := UInt16.ofNat packet.length }
  -- `NS_ASSERT_MSG`
  if encoding.m_hc2HeaderPresent = true then none else addHeader m.fill ipHeader packet

/-! ## What comes back -/

def Known : LinkLayerAddress → Prop
  | .mac48 .. => m_forceEtherType = true
  | _ => True

section Addresses

variable {m_forceEtherType : Bool} {mac : LinkLayerAddress}

theorem isAny_linkLocal (mac : LinkLayerAddress) :
    mac.makeAutoconfiguredLinkLocalAddress.isAny = false := by
  cases mac <;> rfl

theorem makeLinkLocal_eq (known : Known m_forceEtherType mac) :
    makeLinkLocalAddressFromMac m_forceEtherType mac =
      some mac.makeAutoconfiguredLinkLocalAddress := by
  have hany := isAny_linkLocal mac
  cases mac with
  | mac48 a b c d e f =>
    have hforce : m_forceEtherType = true := known
    simp [makeLinkLocalAddressFromMac, hany, hforce]
  | _ => simp [makeLinkLocalAddressFromMac, hany]

theorem makeLinkLocal_unknown (unknown : ¬Known m_forceEtherType mac) :
    makeLinkLocalAddressFromMac m_forceEtherType mac = none := by
  cases mac with
  | mac48 a b c d e f =>
    have hforce : ¬m_forceEtherType = true := unknown
    rw [makeLinkLocalAddressFromMac, if_neg hforce]
    rfl
  | _ => exact absurd trivial unknown

theorem makeGlobal_eq {pre : Ipv6Address} (known : Known m_forceEtherType mac)
    (wide : ∀ a, mac ≠ .mac8 a) : makeGlobalAddressFromMac m_forceEtherType mac pre =
      if (mac.makeAutoconfiguredAddress
        pre).isAny then none else some (mac.makeAutoconfiguredAddress pre) := by
  cases mac with
  | mac8 a => exact absurd rfl (wide a)
  | mac48 a b c d e f =>
    have hforce : m_forceEtherType = true := known
    rw [makeGlobalAddressFromMac, if_pos hforce]
  | _ => rfl

theorem linkLocal_halves (mac : LinkLayerAddress) :
    mac.makeAutoconfiguredLinkLocalAddress.1 = Ipv6Address.linkLocalPrefix ++ mac.identifier.1 :=
  @LinkLayerAddress.autoconfigured_eq Ipv6Address.linkLocalPrefix rfl mac

theorem global_halves {pre : Ipv6Address} (zeros : pre.interface.1 = replicate 8 0) :
    (mac.makeAutoconfiguredAddress pre).1 = pre.front.1 ++ mac.identifier.1 := by
  have hsplit := mac.autoconfigured_eq pre.front.2
  rwa [← zeros, ← pre.front_interface] at hsplit

structure Recovers (m_forceEtherType : Bool) (mac : LinkLayerAddress) (address : Block 16)
    (addr : Ipv6Address) : Prop where
  known : Known m_forceEtherType mac
  /-- Six bytes of the array are sent with a link-local address that has an identifier of its
  own. -/
  memory : addr.isLinkLocal = true → addr.interface ≠ mac.identifier →
    (address.1.drop 2).take 6 = replicate 6 0
  global : addr.isLinkLocal = false → addr.interface = mac.identifier →
    addr.isAny = false ∧ ∀ a, mac ≠ .mac8 a

def recovered (m_forceEtherType : Bool) (mac : LinkLayerAddress) (address : Block 16)
    (old old' : Hc1Address) (addr : Ipv6Address) : Option Ipv6Address :=
  (compressAddress m_forceEtherType addr mac old).bind fun part =>
    decompressAddress m_forceEtherType mac address (old'.received part)

theorem compressAddress_eq (known : Known m_forceEtherType mac) (addr : Ipv6Address)
    (old : Hc1Address) :
    compressAddress m_forceEtherType addr mac old = some (if addr.isLinkLocal = true then
        if addr.interface = mac.identifier then { old with compression := .HC1_PCIC }
        else { old with compression := .HC1_PCII, interface := addr.interface }
      else if addr.interface =
        mac.identifier then { old with compression := .HC1_PIIC, pre := addr.front }
      else { old with
        compression := .HC1_PIII, interface := addr.interface, pre := addr.front }) := by
  have hidentifier : mac.makeAutoconfiguredLinkLocalAddress.interface = mac.identifier := rfl
  rw [compressAddress, makeLinkLocal_eq known, bind_eq_bind, bind_some, hidentifier]
  by_cases hsame : addr.interface = mac.identifier
  · cases hlocal : addr.isLinkLocal <;> simp [hsame]
  · have hdiffer : (addr.interface == mac.identifier) = false := beq_eq_false_iff_ne.mpr hsame
    cases hlocal : addr.isLinkLocal <;> simp only [hdiffer, if_neg hsame] <;> rfl

theorem overwrite_ends (address : Block 16) (identifier : Block 8) :
    overwrite (overwrite address.1 0 [0xfe, 0x80]) 8 identifier.1 =
      (0xfe :: 0x80 :: (address.1.drop 2).take 6) ++ identifier.1 := by
  have hfront : overwrite address.1 0 [0xfe, 0x80] = (0xfe :: 0x80 :: (address.1.drop 2).take 6) ++
      address.1.drop 8 := by
    have hrest : (address.1.drop 2).take 6 ++ address.1.drop 8 = address.1.drop 2 := by
      rw [show address.1.drop 8 = (address.1.drop 2).drop 6 by rw [drop_drop], take_append_drop]
    rw [cons_append, cons_append, hrest]
    rfl
  have hlen : (0xfe :: 0x80 :: (address.1.drop 2).take 6).length = 8 := by simp [address.2]
  rw [hfront, overwrite_append hlen.le, hlen, overwrite]
  simp [address.2, identifier.2]

theorem recovered_iff {address : Block 16} {old old' : Hc1Address} {addr : Ipv6Address} :
    recovered m_forceEtherType mac address old old' addr = some addr ↔
      Recovers m_forceEtherType mac address addr := by
  by_cases known : Known m_forceEtherType mac
  swap
  · rw [recovered, compressAddress, makeLinkLocal_unknown known]
    exact ⟨nofun, fun h => absurd h.known known⟩
  rw [recovered, compressAddress_eq known, bind_some]
  by_cases hlocal : addr.isLinkLocal = true
  · have hfront := (Ipv6Address.isLinkLocal_iff addr).mp hlocal
    rw [if_pos hlocal]
    by_cases hsame : addr.interface = mac.identifier
    · rw [if_pos hsame]
      have hback : decompressAddress m_forceEtherType mac address
          (old'.received { old with compression := .HC1_PCIC }) = some addr := by
        refine (makeLinkLocal_eq known).trans (congrArg some (Subtype.ext ?_))
        rw [linkLocal_halves, addr.front_interface, hfront, hsame]
      exact ⟨fun _ => ⟨known, fun _ h => absurd hsame h, fun h => absurd hlocal (by simp [h])⟩,
        fun _ => hback⟩
    · rw [if_neg hsame]
      have hback : decompressAddress m_forceEtherType mac address
          (old'.received { old with compression := .HC1_PCII, interface := addr.interface }) =
            some addr ↔ (address.1.drop 2).take 6 = replicate 6 0 := by
        change some (⟨overwrite (overwrite address.1 0 [0xfe, 0x80]) 8 addr.interface.1, _⟩ :
          Ipv6Address) = some addr ↔ _
        rw [some_inj, Subtype.ext_iff]
        dsimp only
        rw [overwrite_ends, addr.front_interface, append_left_inj, hfront]
        exact ⟨fun h => (List.cons.inj (List.cons.inj h).2).2, fun h => by rw [h]; rfl⟩
      exact ⟨fun h => ⟨known, fun _ _ => hback.mp h, fun h => absurd hlocal (by simp [h])⟩,
        fun h => hback.mpr (h.memory hlocal hsame)⟩
  · rw [if_neg hlocal]
    have hglobal : addr.isLinkLocal = false := Bool.eq_false_iff.mpr hlocal
    by_cases hsame : addr.interface = mac.identifier
    · rw [if_pos hsame]
      have hmade : ∀ a : Ipv6Address, a.1 = addr.front.1 ++ replicate 8 0 →
          mac.makeAutoconfiguredAddress a = addr := by
        intro a ha
        have hhalves :=
          append_inj (a.front_interface.symm.trans ha) (by rw [a.front.2, addr.front.2])
        refine Subtype.ext ?_
        rw [global_halves hhalves.2, hhalves.1, ← hsame, ← addr.front_interface]
      by_cases wide : ∀ a, mac ≠ .mac8 a
      · have hback : decompressAddress m_forceEtherType mac address
            (old'.received { old with compression := .HC1_PIIC, pre := addr.front }) =
              if addr.isAny then none else some addr := by
          refine (makeGlobal_eq known wide).trans ?_
          rw [hmade _ rfl]
        rw [hback]
        refine ⟨fun h => ⟨known, fun h' => absurd h' hlocal, fun _ _ => ⟨?_, wide⟩⟩, fun h => ?_⟩
        · by_contra hany
          rw [if_pos (Bool.not_eq_false _ ▸ hany)] at h
          exact nomatch h
        · rw [(h.global hglobal hsame).1]
          rfl
      · push Not at wide
        obtain ⟨a, rfl⟩ := wide
        have hback : decompressAddress m_forceEtherType (.mac8 a) address
            (old'.received { old with compression := .HC1_PIIC, pre := addr.front }) = none := rfl
        rw [hback]
        exact ⟨nofun, fun h => absurd rfl ((h.global hglobal hsame).2 a)⟩
    · rw [if_neg hsame]
      have hback : decompressAddress m_forceEtherType mac address
          (old'.received { old with
            compression := .HC1_PIII, interface := addr.interface, pre := addr.front }) =
            some addr :=
        congrArg some (Subtype.ext addr.front_interface.symm)
      exact ⟨fun _ => ⟨known, fun h => absurd h hlocal, fun _ h => absurd h hsame⟩, fun _ => hback⟩

end Addresses

/-- A packet with any fields, whose payload length is that of its payload. -/
structure Ipv6Packet where
  trafficClass : UInt8
  flowLabel : UInt32
  nextHeader : UInt8
  hopLimit : UInt8
  source : Ipv6Address
  destination : Ipv6Address
  payload : List UInt8
  label_lt : flowLabel.toNat < 2 ^ 20
  payload_lt : payload.length < 2 ^ 16

namespace Ipv6Packet

variable (p : Ipv6Packet)

def header : Ipv6Header :=
  ⟨p.trafficClass, p.flowLabel, UInt16.ofNat p.payload.length, p.nextHeader, p.hopLimit, p.source,
    p.destination⟩

def bytes : List UInt8 := p.header.bytes ++ p.payload

/-- `DecompressLowPanHc1` undoes `CompressLowPanHc1`, with what memory holds when each of them is
called. -/
def RoundTrips (m m' : Memory) (m_forceEtherType : Bool) (src dst : LinkLayerAddress) : Prop :=
  ((compressLowPanHc1 m m_forceEtherType p.bytes src dst).bind fun out =>
    decompressLowPanHc1 m' m_forceEtherType out.2 src dst) = some p.bytes

end Ipv6Packet

section Packets

variable {m m' : Memory} {m_forceEtherType : Bool} {p : Ipv6Packet} {src dst : LinkLayerAddress}

def sent (m : Memory) (p : Ipv6Packet) (m_src m_dst : Hc1Address) : SixLowPanHc1 :=
  { SixLowPanHc1.setNextHeader { m.hc1Header with
      m_hopLimit := p.hopLimit
      m_src := m_src
      m_dst := m_dst
      m_tcflCompression := false
      m_trafficClass := p.trafficClass
      m_flowLabel := p.header.mislabelled.m_flowLabel } p.nextHeader with
    m_hc2HeaderPresent := false }

theorem mislabelled_ne (h : Ipv6Header) : h.mislabelled.m_flowLabel ≠ 0 := by
  intro hzero
  have hvalue := h.toNat_mislabelled
  rw [hzero] at hvalue
  change 0 = _ at hvalue
  omega

theorem compress_eq : compressLowPanHc1 m m_forceEtherType p.bytes src dst =
      (compressAddress m_forceEtherType p.source src m.hc1Header.m_src).bind fun m_src =>
        (compressAddress m_forceEtherType p.destination dst m.hc1Header.m_dst).bind fun m_dst =>
          some (Ipv6Header.getSerializedSize, (sent m p m_src m_dst).bytes ++ p.payload) := by
  have hread :=
    Ipv6Header.deserialize_eq (h := p.header) p.label_lt Ipv6Header.constructed p.payload
  have hremove : removeHeader Ipv6Header.constructed (p.header.bytes ++ p.payload) =
      some (p.header.mislabelled, p.payload) := by
    rw [removeHeader, hread, map_some]
    dsimp only
    rw [← Ipv6Header.length_bytes (h := p.header), drop_left]
  have hadd : ∀ s d, addHeader m.fill (sent m p s d) p.payload =
      some ((sent m p s d).bytes ++ p.payload) := fun s d =>
    addHeader_full (SixLowPanHc1.length_bytes rfl) fun _ fits =>
      SixLowPanHc1.serialize_eq fits rfl rfl
  have hlabel : ¬(p.header.mislabelled.m_flowLabel = 0 ∧ p.header.mislabelled.m_trafficClass = 0) :=
    fun h =>
    mislabelled_ne _ h.1
  rw [compressLowPanHc1, Ipv6Packet.bytes, hread]
  simp only [bind_eq_bind, bind_some, hremove, if_neg hlabel]
  refine (if_pos (by decide)).trans ?_
  refine congrArg _ (funext fun s => congrArg _ (funext fun d => ?_))
  exact congrArg (Option.bind · _) (hadd s d)

theorem decompress_eq (s d : Hc1Address) :
    decompressLowPanHc1 m' m_forceEtherType ((sent m p s d).bytes ++ p.payload) src dst =
      (decompressAddress m_forceEtherType src m'.srcAddress (m'.encoding.m_src.received s)).bind
        fun a =>
        (decompressAddress m_forceEtherType dst m'.dstAddress (m'.encoding.m_dst.received d)).bind
          fun b =>
          some (({ p.header with
            m_flowLabel := 0
            m_sourceAddress := a
            m_destinationAddress := b } : Ipv6Header).bytes ++
            p.payload) := by
  have hread :=
    SixLowPanHc1.reads_bytes (h := sent m p s d) { m'.encoding with m_hopLimit := 0 } rfl rfl
    (SixLowPanHc1.setNextHeader_agrees m.hc1Header p.nextHeader) p.payload
  have hremove :
    removeHeader { m'.encoding with m_hopLimit := 0 } ((sent m p s d).bytes ++ p.payload) =
      some (m'.encoding.received (sent m p s d), p.payload) := by
    have hheader :
      Header.deserialize { m'.encoding with m_hopLimit := 0 } ((sent m p s d).bytes ++ p.payload) =
        some (m'.encoding.received (sent m p s d), (sent m p s d).getSerializedSize) :=
      congrArg (Option.map Prod.fst) hread
    rw [removeHeader, hheader, map_some]
    dsimp only
    rw [← SixLowPanHc1.length_bytes (h := sent m p s d) rfl, drop_left]
  rw [decompressLowPanHc1, hremove]
  simp only [bind_eq_bind, bind_some]
  refine congrArg _ (funext fun a => congrArg _ (funext fun b => ?_))
  -- The flow label is never compressed, and what is read of it is part of the class.
  let rebuilt : Ipv6Header := { p.header with m_sourceAddress := a, m_destinationAddress := b }
  have hsubset :
    rebuilt.mislabelled.m_flowLabel ||| (p.header.mislabelled.m_flowLabel &&& 0xffffff) =
      rebuilt.mislabelled.m_flowLabel := by
    apply UInt32.toNat_inj.mp
    rw [UInt32.toNat_or, UInt32.toNat_and]
    exact or_and_self _ _
  exact (Ipv6Header.addHeader_eq (h := { rebuilt with
    m_flowLabel := p.header.mislabelled.m_flowLabel &&& 0xffffff }) m'.fill p.payload).trans
    (congrArg (fun bs => some (bs ++ p.payload)) (Ipv6Header.bytes_of_subset hsubset))

/-- HC1 brings a packet back just when its flow label is zero and both of its addresses come
back. -/
theorem compressed_roundTrips_iff : p.RoundTrips m m' m_forceEtherType src dst ↔
      p.flowLabel = 0 ∧ Recovers m_forceEtherType src m'.srcAddress p.source ∧
        Recovers m_forceEtherType dst m'.dstAddress p.destination := by
  rw [← @recovered_iff _ _ _ m.hc1Header.m_src m'.encoding.m_src,
    ← @recovered_iff _ _ _ m.hc1Header.m_dst m'.encoding.m_dst, Ipv6Packet.RoundTrips, compress_eq,
      recovered,
    recovered]
  cases compressAddress m_forceEtherType p.source src m.hc1Header.m_src with
  | none => exact ⟨nofun, fun h => nomatch h.2.1⟩
  | some s =>
    cases compressAddress m_forceEtherType p.destination dst m.hc1Header.m_dst with
    | none => exact ⟨nofun, fun h => nomatch h.2.2⟩
    | some d =>
      simp only [bind_some]
      rw [decompress_eq]
      cases decompressAddress m_forceEtherType src m'.srcAddress (m'.encoding.m_src.received s) with
      | none => exact ⟨nofun, fun h => nomatch h.2.1⟩
      | some a =>
        cases decompressAddress m_forceEtherType dst m'.dstAddress
          (m'.encoding.m_dst.received d) with
        | none => exact ⟨nofun, fun h => nomatch h.2.2⟩
        | some b =>
          rw [bind_some, bind_some, some_inj, some_inj, some_inj, Ipv6Packet.bytes, append_left_inj]
          constructor
          · intro h
            obtain ⟨hlabel, hsource, hdestination⟩ :=
              Ipv6Header.bytes_inj (show (0 : UInt32).toNat < 2 ^ 20 by decide) p.label_lt h
            exact ⟨hlabel.symm, hsource, hdestination⟩
          · rintro ⟨hlabel, rfl, rfl⟩
            rw [← hlabel]
            rfl

end Packets

def clearMemory : Memory :=
  let part : Hc1Address := ⟨.HC1_PIII, ⟨replicate 8 0, rfl⟩, ⟨replicate 8 0, rfl⟩⟩
  let header : SixLowPanHc1 := ⟨0, part, part, 0, 0, 0, false, .HC1_NC, false⟩
  ⟨header, header, Ipv6Address.zeros, Ipv6Address.zeros, fun _ => 0⟩

/-- From `2001:db8::ff:fe00:1` to `fe80::ff:fe00:2` with flow label 1. -/
def labelled : Ipv6Packet where
  trafficClass := 0
  flowLabel := 1
  nextHeader := Ipv6Header.IPV6_UDP
  hopLimit := 64
  source := ⟨[0x20, 0x01, 0x0d, 0xb8, 0, 0, 0, 0, 0, 0, 0, 0xff, 0xfe, 0, 0, 1], rfl⟩
  destination := ⟨[0xfe, 0x80, 0, 0, 0, 0, 0, 0, 0, 0, 0, 0xff, 0xfe, 0, 0, 2], rfl⟩
  payload := [7]
  label_lt := by decide
  payload_lt := by decide

/-- It comes back without the flow label. -/
theorem flow_label_lost :
    ((compressLowPanHc1 clearMemory false labelled.bytes (.mac16 0 1) (.mac16 0 2)).bind fun out =>
      decompressLowPanHc1 clearMemory false out.2 (.mac16 0 1) (.mac16 0 2)) =
        some (({ labelled with flowLabel := 0, label_lt := by decide } : Ipv6Packet).bytes) ∧
      ¬labelled.RoundTrips clearMemory clearMemory false (.mac16 0 1) (.mac16 0 2) := by
  have hback :
    ((compressLowPanHc1 clearMemory false labelled.bytes (.mac16 0 1) (.mac16 0 2)).bind fun out =>
      decompressLowPanHc1 clearMemory false out.2 (.mac16 0 1) (.mac16 0 2)) =
        some (({ labelled with flowLabel := 0, label_lt := by decide } : Ipv6Packet).bytes) := by
          decide +kernel
  refine ⟨hback, fun h => ?_⟩
  have hsame := hback.symm.trans h
  exact absurd hsame (by decide +kernel)

end Egsr.Sixlowpan
