import Egsr.Lib.SinglePrecision
import Egsr.Network.ByteIterator

/-! The wire headers of the protocol: the control-packet header, the
source-routing header of data packets, and the HELLO and ANT messages. Each
serializer writes at an iterator field by field and each deserializer reads in
the same order. List lengths and sizes are natural numbers; they are cut to the
width of the field they are written to. -/

namespace Egsr.Grp.Header

open Lib.Bytes Lib.SinglePrecision Network.ByteIterator

structure CtrPacketHeader where
  packetLength : UInt16
  packetSequenceNumber : UInt16
  deriving DecidableEq

namespace CtrPacketHeader

def getSerializedSize (_ : CtrPacketHeader) : ℕ := 4

def serialize (h : CtrPacketHeader) (start : Iterator) : List UInt8 :=
  ((start.writeU16 h.packetLength).writeU16 h.packetSequenceNumber).buf

def read : Reader CtrPacketHeader := do
  let packetLength ← readU16
  let packetSequenceNumber ← readU16
  pure ⟨packetLength, packetSequenceNumber⟩

instance : Header CtrPacketHeader where
  getSerializedSize := getSerializedSize
  serialize h start := some (h.serialize start)
  deserialize _ start := (read.run start).map fun p => (p.1, getSerializedSize p.1)

end CtrPacketHeader

structure DataPacketHeader where
  nextJidIdx : UInt16
  nextJid : UInt16
  path : List UInt16
  deriving DecidableEq

namespace DataPacketHeader

def getSerializedSize (h : DataPacketHeader) : ℕ := 4 + h.path.length * 2 + 2

def serialize (h : DataPacketHeader) (start : Iterator) : List UInt8 :=
  let i := start.writeU16 h.nextJidIdx
  let i := i.writeU16 h.nextJid
  let i := i.writeU16 (.ofNat h.path.length)
  (h.path.foldl Iterator.writeU16 i).buf

def read : Reader DataPacketHeader := do
  let nextJidIdx ← readU16
  let nextJid ← readU16
  let size ← readU16
  let path ← readMany readU16 size.toNat
  pure ⟨nextJidIdx, nextJid, path⟩

instance : Header DataPacketHeader where
  getSerializedSize := getSerializedSize
  serialize h start := some (h.serialize start)
  deserialize _ start := (read.run start).map fun p => (p.1, p.1.getSerializedSize)

end DataPacketHeader

/-! ## Messages -/

def locToUint64 (loc : ℤ) : UInt64 :=
  if 0 ≤ loc then UInt64.ofNat loc.toNat
  else UInt64.ofNat (-loc).toNat ||| 0x8000000000000000

def uint64ToLoc (uin : UInt64) : ℤ :=
  if uin >>> 63 ≠ 0 then -((uin &&& 0x7fffffffffffffff).toNat : ℤ) else uin.toNat

structure Hello where
  locationX : UInt64
  locationY : UInt64
  speed : UInt32
  direction : UInt32
  turn : UInt16
  neighborInterfaceAddresses : List Ipv4Address
  deriving DecidableEq

namespace Hello

variable (h : Hello)

def getTurn : ℤ := if 1000 ≤ h.turn.toNat then -1 else h.turn.toNat
def getLocationX : ℚ := uint64ToLoc h.locationX / 1000
def getLocationY : ℚ := uint64ToLoc h.locationY / 1000
def getSpeed : ℚ := h.speed.toNat / 1000
def getDirection : UInt32 := h.direction

def getSerializedSize : ℕ := 26 + h.neighborInterfaceAddresses.length * 4

def serialize (start : Iterator) : List UInt8 :=
  let i := start.writeU64 h.locationX
  let i := i.writeU64 h.locationY
  let i := i.writeU32 h.speed
  let i := i.writeU32 h.direction
  let i := i.writeU16 h.turn
  (h.neighborInterfaceAddresses.foldl Iterator.writeU32 i).buf

/-- The number of addresses is what the declared size leaves after the fixed
part, in 32-bit unsigned arithmetic. -/
def read (messageSize : UInt32) : Reader Hello := do
  let locationX ← readU64
  let locationY ← readU64
  let speed ← readU32
  let direction ← readU32
  let turn ← readU16
  let numAddresses := (messageSize - 26) / 4
  let addresses ← readMany readU32 numAddresses.toNat
  pure ⟨locationX, locationY, speed, direction, turn, addresses⟩

end Hello

/-- An ant; `T` is the type of its time stamps. -/
structure Ant (T : Type) where
  senderAddr : Ipv4Address
  seqNum : UInt16
  version : UInt16
  junFrom : UInt16
  nextJunctionId : UInt16
  sequenceOfJunctions : List UInt16
  sDelay : List T
  nextForwarder : Ipv4Address
  lastSender : Ipv4Address
  lastSenderPositionX : Binary32
  lastSenderPositionY : Binary32
  deriving DecidableEq

namespace Ant

variable {T : Type}

def getSerializedSize (a : Ant T) : ℕ :=
  12 + (a.sequenceOfJunctions.length * 2 + 2) + a.sDelay.length * 8 + 16

def serialize (a : Ant Int64) (start : Iterator) : Option (List UInt8) := do
  let i := start.writeU32 a.senderAddr
  let i := i.writeU16 a.seqNum
  let i := i.writeU16 a.version
  let i := i.writeU16 a.junFrom
  let i := i.writeU16 a.nextJunctionId
  let i := i.writeU16 (.ofNat a.sequenceOfJunctions.length)
  let i := a.sequenceOfJunctions.foldl Iterator.writeU16 i
  let i := a.sDelay.foldl (fun i time => i.writeU64 time.toUInt64) i
  let i := i.writeU32 a.nextForwarder
  let i := i.writeU32 a.lastSender
  let x ← a.lastSenderPositionX.toUInt32
  let y ← a.lastSenderPositionY.toUInt32
  pure ((i.writeU32 x).writeU32 y).buf

/-- Reads over the ant `self`, whose junctions are cleared first and whose
delays are not. -/
def read (self : Ant Int64) : Reader (Ant Int64) := do
  let senderAddr ← readU32
  let seqNum ← readU16
  let version ← readU16
  let junFrom ← readU16
  let nextJunctionId ← readU16
  let len ← readU16
  let sequenceOfJunctions ← readMany readU16 len.toNat
  let delays ← readMany (UInt64.toInt64 <$> readU64) len.toNat
  let nextForwarder ← readU32
  let lastSender ← readU32
  let x ← readU32
  let y ← readU32
  pure ⟨senderAddr, seqNum, version, junFrom, nextJunctionId, sequenceOfJunctions,
    self.sDelay ++ delays, nextForwarder, lastSender, ofUInt32 x, ofUInt32 y⟩

end Ant

inductive MessageType where
  | hello
  | cpack
  | ant
  deriving DecidableEq

def MessageType.code : MessageType → UInt8
  | .hello => 1
  | .cpack => 2
  | .ant => 3

def MessageType.ofCode (code : UInt8) : Option MessageType :=
  if code = 1 then some .hello else if code = 2 then some .cpack
  else if code = 3 then some .ant else none

structure MessageHeader (T : Type) where
  messageType : MessageType
  vTime : UInt8
  originatorAddress : Ipv4Address
  timeToLive : UInt8
  hopCount : UInt8
  messageSequenceNumber : UInt16
  messageSize : UInt16
  hello : Hello
  ant : Ant T
  deriving DecidableEq

namespace MessageHeader

variable {T : Type}

/-- A message just constructed over memory that held `stale`: its vectors are
empty and its other fields are whatever was there. -/
def construct (stale : MessageHeader T) : MessageHeader T :=
  { stale with
    hello := { stale.hello with neighborInterfaceAddresses := [] }
    ant := { stale.ant with sequenceOfJunctions := [], sDelay := [] } }

/-- The remaining type, `cpack`, fails an assertion here and below. -/
def getSerializedSize (m : MessageHeader T) : ℕ :=
  match m.messageType with
  | .hello => 12 + m.hello.getSerializedSize
  | .ant => 12 + 4 + m.hello.getSerializedSize + m.ant.getSerializedSize
  | .cpack => 12

/-- Both sub-serializers of an ANT message get the iterator by value, so both
start right after the size of the first. -/
def serialize (m : MessageHeader Int64) (start : Iterator) : Option (List UInt8) :=
  let i := start.writeU8 m.messageType.code
  let i := i.writeU8 m.vTime
  let i := i.writeU16 (.ofNat m.getSerializedSize)
  let i := i.writeU32 m.originatorAddress
  let i := i.writeU8 m.timeToLive
  let i := i.writeU8 m.hopCount
  let i := i.writeU16 m.messageSequenceNumber
  match m.messageType with
  | .hello => some (m.hello.serialize i)
  | .ant =>
    let i := i.writeU32 (.ofNat m.hello.getSerializedSize)
    let i := { i with buf := m.hello.serialize i }
    m.ant.serialize i
  | .cpack => none

def read (self : MessageHeader Int64) : Reader (MessageHeader Int64 × ℕ) := do
  let code ← readU8
  let messageType ← StateT.lift (MessageType.ofCode code)
  let vTime ← readU8
  let messageSize ← readU16
  let originatorAddress ← readU32
  let timeToLive ← readU8
  let hopCount ← readU8
  let messageSequenceNumber ← readU16
  let m : MessageHeader Int64 := { self with
    messageType, vTime, messageSize, originatorAddress, timeToLive, hopCount,
    messageSequenceNumber }
  match messageType with
  | .hello =>
    let hello ← byValue (Hello.read (messageSize.toUInt32 - 12))
    pure ({ m with hello }, 12 + hello.getSerializedSize)
  | .ant =>
    let helloSize ← readU32
    let hello ← byValue (Hello.read helloSize)
    let ant ← byValue (Ant.read self.ant)
    pure ({ m with hello, ant }, 12 + 4 + hello.getSerializedSize + ant.getSerializedSize)
  | .cpack => StateT.lift none

def deserialize (self : MessageHeader Int64) (start : List UInt8) :
    Option (MessageHeader Int64 × ℕ) :=
  ((read self).run start).map Prod.fst

instance : Header (MessageHeader Int64) where
  getSerializedSize := getSerializedSize
  serialize := serialize
  deserialize := deserialize

end MessageHeader

end Egsr.Grp.Header
