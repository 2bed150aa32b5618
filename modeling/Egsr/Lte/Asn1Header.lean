import Mathlib.Data.Nat.Log
import Egsr.Lib.BitOrder
import Egsr.Lib.Outcome

/-! The packed encoding of LTE control messages. Bits that do not fill an octet
are pending in the header; encoder and decoder keep them in the same fields. -/

namespace Egsr.Lte

open Lib.BitOrder

inductive Fault where
  /-- `exit (1)` on an integer that needs more than 20 bits. -/
  | exit
  /-- `ReadU8` at the end of the buffer. -/
  | endOfBuffer
deriving DecidableEq

structure Asn1Header where
  m_serializationPendingBits : Octet
  m_numSerializationPendingBits : ℕ
  m_serializationResult : List Octet
deriving DecidableEq

def Asn1Header.initial : Asn1Header := ⟨0x00, 0, []⟩

variable {N : ℕ}

/-! ## SerializeBitset -/

def completeOctet (data : BitVec N) : (pendingBits : ℕ) → (mask : Octet) → (h : Asn1Header) →
    ℕ × Asn1Header
  | 0, _, h => (0, h)
  | pendingBits + 1, mask, h =>
    if h.m_numSerializationPendingBits < 8 then
      completeOctet data pendingBits ((mask >>> 1) &&& ~~~mask) { h with
        m_serializationPendingBits :=
          h.m_serializationPendingBits ||| if data.getLsbD pendingBits then mask else 0
        m_numSerializationPendingBits := h.m_numSerializationPendingBits + 1 }
    else (pendingBits + 1, h)

def storeBits (data : BitVec N) : (pendingBits : ℕ) → (mask pending : Octet) → Octet
  | 0, _, pending => pending
  | pendingBits + 1, mask, pending =>
    storeBits data pendingBits ((mask >>> 1) &&& ~~~mask)
      (pending ||| if data.getLsbD pendingBits then mask else 0)

def octetToWrite (data : BitVec N) (pendingBits : ℕ) : (j : ℕ) → (mask octet : Octet) → Octet
  | 0, _, octet => octet
  | j + 1, mask, octet =>
    octetToWrite data pendingBits j ((mask <<< 1) &&& ~~~mask)
      (octet ||| if data.getLsbD (pendingBits - (j + 1)) then mask else 0)

namespace Asn1Header

variable (h : Asn1Header)

def writeOctet (octet : Octet) : Asn1Header :=
  { h with m_serializationResult := h.m_serializationResult ++ [octet] }

def writeRest (data : BitVec N) : (pendingBits : ℕ) → (h : Asn1Header) → Asn1Header
  | pendingBits + 8, h =>
    writeRest data pendingBits (h.writeOctet (octetToWrite data (pendingBits + 8) 8 1 0))
  | 0, h => h
  | pendingBits, h =>
    { h with
      m_numSerializationPendingBits := pendingBits
      m_serializationPendingBits := storeBits data pendingBits 0x80 h.m_serializationPendingBits }

def serializeBitset (data : BitVec N) : Asn1Header :=
  -- the size is kept in eight bits
  let pendingBits := N % 256
  if N = 0 then h
  else if N ≤ 65536 then
    if h.m_numSerializationPendingBits > 0 then
      let (pendingBits, h) :=
        completeOctet data pendingBits ((0x80 : Octet) >>> h.m_numSerializationPendingBits) h
      if h.m_numSerializationPendingBits ≥ 8 then
        writeRest data pendingBits { h.writeOctet h.m_serializationPendingBits with
          m_numSerializationPendingBits := 0
          m_serializationPendingBits := 0 }
      else writeRest data pendingBits h
    else writeRest data pendingBits h
  -- the source prints that fragmentation is needed
  else h

def serializeBoolean (value : Bool) : Asn1Header :=
  h.serializeBitset (BitVec.ofBool value)

def serializeSequence (optionalOrDefaultMask : BitVec N)
    (isExtensionMarkerPresent : Bool) : Asn1Header :=
  (if isExtensionMarkerPresent then h.serializeBoolean false else h).serializeBitset
    optionalOrDefaultMask

/-- The ceiling of the logarithm of `range` to base two. -/
def requiredBits (range : ℤ) : ℕ := Nat.clog 2 range.toNat

def serializeInteger (n nmin nmax : ℤ) : Except Fault Asn1Header :=
  let range := nmax - nmin + 1
  if range ≤ 1 then .ok h
  else if 1 ≤ requiredBits range ∧ requiredBits range ≤ 20 then
    .ok (h.serializeBitset (BitVec.ofInt (requiredBits range) (n - nmin)))
  else .error .exit

def serializeSequenceOf (numElems nMax nMin : ℤ) : Except Fault Asn1Header :=
  h.serializeInteger numElems nMin nMax

def serializeEnum (numElems selectedElem : ℤ) : Except Fault Asn1Header :=
  h.serializeInteger selectedElem 0 (numElems - 1)

def serializeChoice (numOptions selectedOption : ℤ)
    (isExtensionMarkerPresent : Bool) : Except Fault Asn1Header :=
  let h := if isExtensionMarkerPresent then h.serializeBoolean false else h
  if numOptions < 2 then .ok h else h.serializeInteger selectedOption 0 (numOptions - 1)

def finalizeSerialization : Asn1Header :=
  if h.m_numSerializationPendingBits > 0 then
    { h with m_numSerializationPendingBits := 0 }.serializeBitset h.m_serializationPendingBits
  else h

end Asn1Header

/-- A header and the octets from its iterator on. -/
abbrev Reading := Asn1Header × List Octet

def readU8 : List Octet → Except Fault (Octet × List Octet)
  | [] => .error .endOfBuffer
  | octet :: bIterator => .ok (octet, bIterator)

def readPending : (bitsToRead : ℕ) → (data : BitVec N) → (h : Asn1Header) →
    BitVec N × ℕ × Asn1Header
  | 0, data, h => (data, 0, h)
  | bitsToRead + 1, data, h =>
    if h.m_numSerializationPendingBits > 0 then
      readPending bitsToRead
        (setBit data bitsToRead (h.m_serializationPendingBits &&& 0x80 ≠ 0)) { h with
          m_numSerializationPendingBits := h.m_numSerializationPendingBits - 1
          m_serializationPendingBits := h.m_serializationPendingBits <<< 1 }
    else (data, bitsToRead + 1, h)

/-- The loops over the bits of an octet, `count` rounds of them. -/
def setBits (octet : Octet) : (count bitsToRead : ℕ) → (mask : Octet) → (data : BitVec N) → BitVec N
  | 0, _, _, data => data
  | count + 1, bitsToRead, mask, data =>
    setBits octet count (bitsToRead - 1) (mask >>> 1)
      (setBit data (bitsToRead - 1) (octet &&& mask ≠ 0))

def readRest : (bitsToRead : ℕ) → (data : BitVec N) → (r : Reading) →
    Except Fault (BitVec N × Reading)
  | bitsToRead + 8, data, (h, bIterator) => do
    let (octet, bIterator) ← readU8 bIterator
    readRest bitsToRead (setBits octet 8 (bitsToRead + 8) 0x80 data) (h, bIterator)
  | 0, data, r => .ok (data, r)
  | bitsToRead, data, (h, bIterator) => do
    let (octet, bIterator) ← readU8 bIterator
    .ok (setBits octet bitsToRead bitsToRead 0x80 data, { h with
      m_numSerializationPendingBits := 8 - bitsToRead
      m_serializationPendingBits := octet <<< bitsToRead }, bIterator)

def deserializeBitset (data : BitVec N) (r : Reading) : Except Fault (BitVec N × Reading) :=
  let (data, bitsToRead, h) := readPending N data r.1
  readRest bitsToRead data (h, r.2)

def deserializeBoolean (r : Reading) : Except Fault (Bool × Reading) := do
  let (readBit, r) ← deserializeBitset (0 : BitVec 1) r
  .ok (readBit.getLsbD 0, r)

/-- `n` is the variable that is read into. -/
def deserializeInteger (n nmin nmax : ℤ) (r : Reading) : Except Fault (ℤ × Reading) :=
  let (nmin, nmax) := if nmin > nmax then (nmax, nmin) else (nmin, nmax)
  let range := nmax - nmin + 1
  if range = 1 then .ok (n, r)
  else if 1 ≤ Asn1Header.requiredBits range ∧ Asn1Header.requiredBits range ≤ 20 then do
    let (bitsRead, r) ← deserializeBitset (0 : BitVec (Asn1Header.requiredBits range)) r
    .ok (bitsRead.toNat + nmin, r)
  else .error .exit

def deserializeChoice (numOptions : ℤ) (isExtensionMarkerPresent : Bool) (selectedOption : ℤ)
    (r : Reading) : Except Fault (ℤ × Reading) := do
  let r ← (if isExtensionMarkerPresent then (deserializeBoolean r).map Prod.snd else .ok r)
  deserializeInteger selectedOption 0 (numOptions - 1) r

def deserializeEnum (numElems selectedElem : ℤ) (r : Reading) : Except Fault (ℤ × Reading) :=
  deserializeInteger selectedElem 0 (numElems - 1) r

def deserializeSequence (optionalOrDefaultMask : BitVec N) (isExtensionMarkerPresent : Bool)
    (r : Reading) : Except Fault (BitVec N × Reading) := do
  let r ← (if isExtensionMarkerPresent then (deserializeBoolean r).map Prod.snd else .ok r)
  deserializeBitset optionalOrDefaultMask r

def deserializeSequenceOf (numElems nMax nMin : ℤ) (r : Reading) : Except Fault (ℤ × Reading) :=
  deserializeInteger numElems nMin nMax r

/-- What a call of a `Serialize` function and the mirrored call agree on. -/
inductive Format where
  | bitset (N : ℕ)
  | boolean
  | integer (nmin nmax : ℤ)
  | enumeration (numElems : ℤ)
  | choice (numOptions : ℤ) (isExtensionMarkerPresent : Bool)
  | sequence (N : ℕ) (isExtensionMarkerPresent : Bool)
  | sequenceOf (nMax nMin : ℤ)
  | null
deriving DecidableEq

namespace Format

def Value : Format → Type
  | bitset N => BitVec N
  | boolean => Bool
  | integer .. => ℤ
  | enumeration _ => ℤ
  | choice .. => ℤ
  | sequence N _ => BitVec N
  | sequenceOf .. => ℤ
  | null => Unit

def serialize : (f : Format) → (value : f.Value) → (h : Asn1Header) → Except Fault Asn1Header
  | bitset N, data, h => .ok (h.serializeBitset (N := N) data)
  | boolean, value, h => .ok (h.serializeBoolean value)
  | integer nmin nmax, n, h => h.serializeInteger n nmin nmax
  | enumeration numElems, selectedElem, h => h.serializeEnum numElems selectedElem
  | choice numOptions ext, selectedOption, h => h.serializeChoice numOptions selectedOption ext
  | sequence N ext, mask, h => .ok (h.serializeSequence (N := N) mask ext)
  | sequenceOf nMax nMin, numElems, h => h.serializeSequenceOf numElems nMax nMin
  | null, _, h => .ok h

/-- `old` is what the variable contains that is read into. -/
def deserialize : (f : Format) → (old : f.Value) → (r : Reading) → Except Fault (f.Value × Reading)
  | bitset N, data, r => deserializeBitset (N := N) data r
  | boolean, _, r => deserializeBoolean r
  | integer nmin nmax, n, r => deserializeInteger n nmin nmax r
  | enumeration numElems, selectedElem, r => deserializeEnum numElems selectedElem r
  | choice numOptions ext, selectedOption, r => deserializeChoice numOptions ext selectedOption r
  | sequence N ext, mask, r => deserializeSequence (N := N) mask ext r
  | sequenceOf nMax nMin, numElems, r => deserializeSequenceOf numElems nMax nMin r
  | null, _, r => .ok ((), r)

end Format

structure Field where
  format : Format
  value : format.Value
  old : format.Value

def encode (fields : List Field) : Except Fault (List Octet) := do
  let h ← fields.foldlM (fun h f => f.format.serialize f.value h) Asn1Header.initial
  .ok h.finalizeSerialization.m_serializationResult

def decode : List Field → (r : Reading) → Except Fault (List ((f : Format) × f.Value) × Reading)
  | [], r => .ok ([], r)
  | f :: fields, r => do
    let (value, r) ← f.format.deserialize f.old r
    let (values, r) ← decode fields r
    .ok (⟨f.format, value⟩ :: values, r)

end Egsr.Lte
