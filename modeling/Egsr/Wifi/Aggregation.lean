import Egsr.Lib.BitFields
import Egsr.Lib.Padded
import Egsr.Network.ByteIterator
import Mathlib.Data.List.Forall2

/-! Aggregates of MPDUs and of MSDUs, and what is made of them when they are
taken apart. When one more is added the padding comes from the size of the
aggregate, when they are taken apart it comes from each length alone. A size is
a 32-bit number, so that no packet is too long for the counters of the loops. -/

namespace Egsr.Wifi.Aggregation

open Lib.Bytes Lib.BitFields Lib.Padded Network.ByteIterator Option

/-- `Packet::CreateFragment`; `none` is the failed assertion. -/
def createFragment (packet : List UInt8) (start length : ℕ) : Option (List UInt8) :=
  if start + length ≤ packet.length then some ((packet.drop start).take length) else none

structure AmpduSubframeHeader where
  m_length : UInt16
  m_eof : Bool
  m_signature : UInt8
deriving DecidableEq

namespace AmpduSubframeHeader

/-- `AmpduSubframeHeader ()`; the signature is the unique pattern of the standard. -/
def constructed : AmpduSubframeHeader := ⟨0, false, 0x4E⟩

def getSerializedSize : ℕ := 2 + 1 + 1

variable (h : AmpduSubframeHeader)

def field : UInt16 := (h.m_eof.toUInt16 <<< 15) ||| h.m_length

/-- The CRC is always set to 1. -/
def serialize (i : Iterator) : List UInt8 :=
  (((i.writeU16 h.field).writeU8 1).writeU8 h.m_signature).buf

def read : Reader AmpduSubframeHeader := do
  let field ← readU16
  let _ ← readU8
  let m_signature ← readU8
  pure ⟨field &&& 0x3fff, ((field &&& 0x8000) >>> 15) != 0, m_signature⟩

/-- The size is the distance that the iterator has gone. -/
def deserialize (start : List UInt8) : Option (AmpduSubframeHeader × ℕ) :=
  (read.run start).map fun p => (p.1, start.length - p.2.length)

instance : Header AmpduSubframeHeader where
  getSerializedSize _ := getSerializedSize
  serialize h i := some (h.serialize i)
  deserialize _ start := deserialize start

end AmpduSubframeHeader

structure AmsduSubframeHeader where
  m_da : Block 6
  m_sa : Block 6
  m_length : UInt16
deriving DecidableEq

namespace AmsduSubframeHeader

def constructed : AmsduSubframeHeader := ⟨⟨List.replicate 6 0, rfl⟩, ⟨List.replicate 6 0, rfl⟩, 0⟩

def getSerializedSize : ℕ := 6 + 6 + 2

variable (h : AmsduSubframeHeader)

def serialize (i : Iterator) : List UInt8 :=
  (((i.write h.m_da.1).write h.m_sa.1).writeHtonU16 h.m_length).buf

def read : Reader AmsduSubframeHeader := do
  let m_da ← takeBlock 6
  let m_sa ← takeBlock 6
  let m_length ← readNtohU16
  pure ⟨m_da, m_sa, m_length⟩

def deserialize (start : List UInt8) : Option (AmsduSubframeHeader × ℕ) :=
  (read.run start).map fun p => (p.1, start.length - p.2.length)

instance : Header AmsduSubframeHeader where
  getSerializedSize _ := getSerializedSize
  serialize h i := some (h.serialize i)
  deserialize _ start := deserialize start

end AmsduSubframeHeader

/-! ## The aggregators -/

def padPrevious (calculatePadding : ℕ → UInt8) (aggregate : List UInt8) : List UInt8 :=
  if 0 < aggregate.length then
    let padding := calculatePadding aggregate.length
    if padding ≠ 0 then aggregate ++ List.replicate padding.toNat 0 else aggregate
  else aggregate

/-- The loop of both `Deaggregate` functions, with the packet that is left of the aggregate. `none`
is a failed assertion, a read past the end, or fuel that is used up. -/
def deaggregateLoop {H : Type} [Header H] (getLength : H → UInt16) (padding : ℕ → ℕ) (maxSize : ℕ) :
    (fuel : ℕ) → H → (aggregatedPacket : List UInt8) → (deserialized : ℕ) →
      Option (List (List UInt8 × H) × List UInt8)
  | 0, _, _, _ => none
  | fuel + 1, hdr, aggregatedPacket, deserialized =>
    if deserialized < maxSize then do
      let (hdr, size) ← Header.deserialize hdr aggregatedPacket
      let aggregatedPacket := aggregatedPacket.drop size
      let extractedLength := (getLength hdr).toNat
      let extracted ← createFragment aggregatedPacket 0 extractedLength
      let aggregatedPacket := aggregatedPacket.drop extractedLength
      let deserialized := deserialized + size + extractedLength
      let padded :=
        if 0 < padding extractedLength ∧ deserialized < maxSize then padding extractedLength else 0
      let (set, rest) ← deaggregateLoop getLength padding maxSize fuel hdr
        (aggregatedPacket.drop padded) (deserialized + padded)
      some ((extracted, hdr) :: set, rest)
    else some ([], aggregatedPacket)

structure WifiMacQueueItem where
  m_packet : List UInt8
  /-- The bytes of the header. -/
  m_header : List UInt8
deriving DecidableEq

def WifiMacQueueItem.bytes (mpdu : WifiMacQueueItem) : List UInt8 :=
  mpdu.m_header ++ (mpdu.m_packet ++ List.replicate 4 0)

namespace MpduAggregator

def calculatePadding (ampduSize : UInt32) : UInt8 := ((4 - ampduSize % 4) % 4).toUInt8

/-- The header that `Aggregate` puts in front of an MPDU. -/
def subframeHeader (mpdu : WifiMacQueueItem) (isSingle : Bool) : AmpduSubframeHeader :=
  { AmpduSubframeHeader.constructed with m_length := .ofNat mpdu.bytes.length, m_eof := isSingle }

def aggregate (fill : ℕ → UInt8) (mpdu : WifiMacQueueItem) (ampdu : List UInt8) (isSingle : Bool) :
    Option (List UInt8) :=
  -- `NS_ASSERT`: an A-MPDU with a single MPDU is empty before.
  if isSingle = true ∧ ampdu.length ≠ 0 then none
  else
    let ampdu := padPrevious (fun size => calculatePadding (.ofNat size)) ampdu
    (addHeader fill (subframeHeader mpdu isSingle) mpdu.bytes).map fun tmp => ampdu ++ tmp

def getSizeIfAggregated (mpduSize ampduSize : UInt32) : UInt32 :=
  ampduSize + (calculatePadding ampduSize).toUInt32 + 4 + mpduSize

def deaggregate (aggregatedPacket : List UInt8) :
    Option (List (List UInt8 × AmpduSubframeHeader) × List UInt8) :=
  deaggregateLoop AmpduSubframeHeader.m_length
    (fun extractedLength => (4 - extractedLength % 4) % 4)
    aggregatedPacket.length (aggregatedPacket.length + 1) .constructed aggregatedPacket 0

def peekLoop (aggregatedPacket : List UInt8) :
    (fuel : ℕ) → AmpduSubframeHeader → (deserialized : ℕ) → Option (List (List UInt8))
  | 0, _, _ => none
  | fuel + 1, hdr, deserialized =>
    if deserialized < aggregatedPacket.length then do
      let tempPacket ← createFragment aggregatedPacket deserialized
        AmpduSubframeHeader.getSerializedSize
      let (hdr, size) ← Header.deserialize hdr tempPacket
      let bytesToExtract : UInt16 := .ofNat size + hdr.m_length
      let padding := (4 - hdr.m_length.toNat % 4) % 4
      let bytesToExtract :=
        if 0 < padding ∧ deserialized + bytesToExtract.toNat < aggregatedPacket.length then
          bytesToExtract + .ofNat padding
        else bytesToExtract
      let subframe ← createFragment aggregatedPacket deserialized bytesToExtract.toNat
      let ampduSubframes ← peekLoop aggregatedPacket fuel hdr (deserialized + bytesToExtract.toNat)
      some (subframe :: ampduSubframes)
    else some []

def peekAmpduSubframes (aggregatedPacket : List UInt8) : Option (List (List UInt8)) :=
  peekLoop aggregatedPacket (aggregatedPacket.length + 1) .constructed 0

end MpduAggregator

namespace MsduAggregator

def calculatePadding (amsduSize : UInt16) : UInt8 := ((4 - amsduSize % 4) % 4).toUInt8

def getSizeIfAggregated (msduSize amsduSize : UInt16) : UInt16 :=
  amsduSize + (calculatePadding amsduSize).toUInt16 + 14 + msduSize

def aggregate (fill : ℕ → UInt8) (msdu amsdu : List UInt8) (src dest : Block 6) :
    Option (List UInt8) :=
  let amsdu := padPrevious (fun size => calculatePadding (.ofNat size)) amsdu
  let hdr : AmsduSubframeHeader := ⟨dest, src, .ofNat msdu.length⟩
  (addHeader fill hdr msdu).map fun tmp => amsdu ++ tmp

def deaggregate (aggregatedPacket : List UInt8) :
    Option (List (List UInt8 × AmsduSubframeHeader) × List UInt8) :=
  deaggregateLoop AmsduSubframeHeader.m_length
    (fun extractedLength => (4 - (extractedLength + 14) % 4) % 4)
    aggregatedPacket.length (aggregatedPacket.length + 1) .constructed aggregatedPacket 0

end MsduAggregator

theorem createFragment_front (bs rest : List UInt8) : createFragment (bs ++ rest) 0 bs.length =
    some bs := by
  rw [createFragment, if_pos (by rw [List.length_append]; omega), List.drop_zero, List.take_left]

theorem createFragment_middle (before bs rest : List UInt8) :
    createFragment (before ++ (bs ++ rest)) before.length bs.length = some bs := by
  rw [createFragment, if_pos (by simp only [List.length_append]; omega), List.drop_left,
    List.take_left]

section Loop

variable {H : Type} [Header H] {getLength : H → UInt16} {padding : ℕ → ℕ}

/-- A header that is read back from its bytes, and that fits what is behind it. -/
structure IsSubframe (getLength : H → UInt16) (padding : ℕ → ℕ) (header : H)
    (bytes payload : List UInt8) : Prop where
  nonempty : bytes ≠ []
  reads : ∀ h rest, Header.deserialize h (bytes ++ rest) = some (header, bytes.length)
  length_eq : (getLength header).toNat = payload.length
  pads : padding payload.length = Lib.Padded.padding 4 (bytes ++ payload).length

variable {ι : Type} {header : ι → H} {bytes payload : ι → List UInt8}

theorem deaggregateLoop_cons (fuel : ℕ) (hdr : H) {x : ι} {xs : List ι} {maxSize deserialized : ℕ}
    (hx : IsSubframe getLength padding (header x) (bytes x) (payload x))
    (filled : ∀ f ∈ xs.map fun x => bytes x ++ payload x, f ≠ [])
    (counts : deserialized + (joined 4 0 ((x :: xs).map fun x => bytes x ++ payload x)).length =
      maxSize) :
    ∃ deserialized', deserialized' + (joined 4 0 (xs.map fun x => bytes x ++ payload x)).length =
      maxSize ∧ deaggregateLoop getLength padding maxSize (fuel + 1) hdr
      (joined 4 0 ((x :: xs).map fun x => bytes x ++ payload x))
          deserialized =
        (deaggregateLoop getLength padding maxSize fuel (header x)
          (joined 4 0 (xs.map fun x => bytes x ++ payload x))
          deserialized').map fun out => ((payload x, header x) :: out.1, out.2) := by
  -- What is behind the payload, and the padding that it begins with.
  obtain ⟨p, hp⟩ : ∃ p, p = gap 4 (bytes x ++ payload x) (xs.map fun x => bytes x ++ payload x) :=
    ⟨_, rfl⟩
  obtain ⟨rest, hrest⟩ : ∃ rest, rest =
      joined 4 (0 : UInt8) (xs.map fun x => bytes x ++ payload x) := ⟨_, rfl⟩
  have hpadded : (if 0 < padding (payload x).length ∧
      0 < p + rest.length then padding (payload x).length else 0) = p := by
    rw [hp, hrest, hx.pads]
    exact gap_eq filled
  have hpacket : joined 4 0 ((x :: xs).map fun x => bytes x ++ payload x) =
      bytes x ++ (payload x ++ (List.replicate p 0 ++ rest)) := by
    rw [List.map_cons, joined_cons, hp, hrest, List.append_assoc]
  rw [hpacket] at counts ⊢
  rw [← hrest]
  have hcounts : deserialized + (bytes x).length + (payload x).length + (p + rest.length) =
      maxSize := by
    rw [← counts]
    simp only [List.length_append, List.length_replicate]
    omega
  have hlt : deserialized < maxSize := by
    have := List.length_pos_of_ne_nil hx.nonempty
    omega
  have hif : (if 0 < padding (payload x).length ∧
    deserialized + (bytes x).length + (payload x).length < maxSize then
      padding (payload x).length else 0) = p := by
    rw [← hpadded]
    exact if_congr (and_congr_right fun _ => by omega) rfl rfl
  refine ⟨deserialized + (bytes x).length + (payload x).length + p, by omega, ?_⟩
  rw [deaggregateLoop, if_pos hlt, hx.reads]
  simp only [bind_eq_bind, bind_some, List.drop_left, hx.length_eq, createFragment_front]
  rw [hif, List.drop_left' (List.length_replicate), map_eq_bind]
  rfl

theorem deaggregateLoop_joined {items : List ι}
    (well : ∀ x ∈ items, IsSubframe getLength padding (header x) (bytes x) (payload x))
    {maxSize fuel deserialized : ℕ}
    {hdr : H} (counts :
      deserialized + (joined 4 0 (items.map fun x => bytes x ++ payload x)).length = maxSize)
    (enough : items.length < fuel) :
    deaggregateLoop getLength padding maxSize fuel hdr
    (joined 4 0 (items.map fun x => bytes x ++ payload x)) deserialized =
      some (items.map fun x => (payload x, header x), []) := by
  induction items generalizing deserialized hdr fuel with
  | nil =>
    obtain ⟨fuel, rfl⟩ := Nat.exists_eq_add_one_of_ne_zero (Nat.ne_of_gt enough)
    have hdone : ¬deserialized < maxSize := by
      rw [← counts]
      exact Nat.lt_irrefl _
    rw [deaggregateLoop, if_neg hdone]
    rfl
  | cons x xs ih =>
    obtain ⟨fuel, rfl⟩ := Nat.exists_eq_add_one_of_ne_zero (show fuel ≠ 0 by omega)
    have hfilled : ∀ f ∈ xs.map fun x => bytes x ++ payload x, f ≠ [] := by
      intro f hf
      obtain ⟨y, hy, rfl⟩ := List.mem_map.mp hf
      exact List.append_ne_nil_of_left_ne_nil (well y (by simp [hy])).nonempty _
    obtain ⟨deserialized', hcounts, hloop⟩ :=
      deaggregateLoop_cons fuel hdr (well x (by simp)) hfilled counts
    rw [hloop, ih (fun y hy => well y (by simp [hy])) hcounts
      (by rw [List.length_cons] at enough; omega)]
    rfl

end Loop

/-! ### Headers and padding -/

theorem calculatePadding_mpdu (n : ℕ) :
    (MpduAggregator.calculatePadding (.ofNat n)).toNat = padding 4 n := by
  have hmod : (UInt32.ofNat n % 4).toNat = n % 4 := by
    rw [UInt32.toNat_mod, UInt32.toNat_ofNat']
    exact Nat.mod_mod_of_dvd n (by decide)
  have hle : UInt32.ofNat n % 4 ≤ 4 := by
    rw [UInt32.le_iff_toNat_le, hmod]
    exact (Nat.mod_lt n (by decide)).le
  rw [MpduAggregator.calculatePadding, UInt32.toNat_toUInt8, UInt32.toNat_mod,
    UInt32.toNat_sub_of_le _ _ hle, hmod]
  exact Nat.mod_eq_of_lt ((Nat.mod_lt _ (by decide)).trans (show 4 < 2 ^ 8 by decide))

theorem calculatePadding_msdu (n : ℕ) :
    (MsduAggregator.calculatePadding (.ofNat n)).toNat = padding 4 n := by
  have hmod : (UInt16.ofNat n % 4).toNat = n % 4 := by
    rw [UInt16.toNat_mod, UInt16.toNat_ofNat']
    exact Nat.mod_mod_of_dvd n (by decide)
  have hle : UInt16.ofNat n % 4 ≤ 4 := by
    rw [UInt16.le_iff_toNat_le, hmod]
    exact (Nat.mod_lt n (by decide)).le
  rw [MsduAggregator.calculatePadding, UInt16.toNat_toUInt8, UInt16.toNat_mod,
    UInt16.toNat_sub_of_le _ _ hle, hmod]
  exact Nat.mod_eq_of_lt ((Nat.mod_lt _ (by decide)).trans (show 4 < 2 ^ 8 by decide))

theorem padPrevious_eq {calculatePadding : ℕ → UInt8}
    (pads : ∀ n, (calculatePadding n).toNat = padding 4 n)
    {aggregate : List UInt8} (ne : aggregate ≠ []) :
    padPrevious calculatePadding aggregate = aggregate ++ List.replicate
    (padding 4 aggregate.length) 0 := by
  rw [padPrevious, if_pos (List.length_pos_of_ne_nil ne), ← pads]
  dsimp only
  split_ifs with hzero
  · rfl
  · rw [not_not.mp hzero]
    exact (List.append_nil _).symm

theorem padPrevious_append {calculatePadding : ℕ → UInt8}
    (pads : ∀ n, (calculatePadding n).toNat = padding 4 n)
    {fs : List (List UInt8)} (nonempty : ∀ f ∈ fs, f ≠ []) (f : List UInt8) :
    padPrevious calculatePadding (joined 4 0 fs) ++ f = joined 4 0 (fs ++ [f]) := by
  cases fs with
  | nil => rfl
  | cons g fs =>
    rw [padPrevious_eq pads (joined_ne_nil (nonempty g (by simp))),
      joined_append (by decide) (by simp), List.append_assoc]

namespace AmpduSubframeHeader

def bytes (h : AmpduSubframeHeader) : List UInt8 :=
  le 2 h.field.toNat ++ (le 1 (1 : UInt8).toNat ++ le 1 h.m_signature.toNat)

variable {h : AmpduSubframeHeader}

theorem length_bytes : h.bytes.length = 4 := by
  simp only [bytes, List.length_append, length_le]

theorem addHeader_eq (fill : ℕ → UInt8) (packet : List UInt8) : addHeader fill h packet =
    some (h.bytes ++ packet) := by
  refine addHeader_full length_bytes fun i fits => congrArg some ?_
  rw [serialize, Iterator.writeU16, Iterator.writeU8, Iterator.writeU8, Iterator.write_write fits,
    Iterator.write_write fits, bytes, List.append_assoc]

def received (h : AmpduSubframeHeader) : AmpduSubframeHeader :=
  ⟨h.field &&& 0x3fff, ((h.field &&& 0x8000) >>> 15) != 0, h.m_signature⟩

theorem deserialize_eq (h' : AmpduSubframeHeader) (rest : List UInt8) :
    Header.deserialize h' (h.bytes ++ rest) = some (h.received, h.bytes.length) := by
  have hread : Reads read h.bytes h.received :=
    (reads_U16 h.field).bind ((reads_U8 1).bind ((reads_U8 h.m_signature).bind_pure _))
  change deserialize (h.bytes ++ rest) = _
  rw [deserialize, hread rest, map_some, List.length_append, Nat.add_sub_cancel]

theorem toNat_length_received : h.received.m_length.toNat = h.m_length.toNat % 2 ^ 14 := by
  have hfield : h.field.toNat % 2 ^ 14 = h.m_length.toNat % 2 ^ 14 := by
    have heof : (h.m_eof.toUInt16 <<< 15).toNat % 2 ^ 14 = 0 := by
      cases h.m_eof <;> rfl
    rw [field, UInt16.toNat_or, Nat.or_mod_two_pow, heof, Nat.zero_or]
  rw [← hfield, received]
  dsimp only
  rw [UInt16.toNat_and]
  exact and_low _ 14

theorem received_eq (short : h.m_length.toNat < 2 ^ 14) : h.received = h := by
  have hlength : h.received.m_length = h.m_length := by
    apply UInt16.toNat_inj.mp
    rw [toNat_length_received, Nat.mod_eq_of_lt short]
  have heof : h.received.m_eof = h.m_eof := by
    have hbit : ((h.field &&& 0x8000) >>> 15).toNat = h.m_eof.toNat := by
      have hshift : (h.m_eof.toUInt16 <<< 15).toNat = h.m_eof.toNat * 2 ^ 15 := by
        cases h.m_eof <;> rfl
      rw [UInt16.toNat_shiftRight, UInt16.toNat_and, field, UInt16.toNat_or, hshift,
        or_below 15 (Nat.dvd_mul_left _ _) (by omega)]
      change (_ &&& (2 ^ 1 - 1) * 2 ^ 15) >>> 15 = _
      have hle := h.m_eof.toNat_le
      rw [and_field, Nat.shiftRight_eq_div_pow]
      omega
    change (_ != _) = _
    cases heof : h.m_eof with
    | false =>
      rw [heof] at hbit
      rw [UInt16.toNat_inj.mp (hbit.trans (show Bool.toNat false = (0 : UInt16).toNat from rfl))]
      rfl
    | true =>
      rw [heof] at hbit
      rw [UInt16.toNat_inj.mp (hbit.trans (show Bool.toNat true = (1 : UInt16).toNat from rfl))]
      rfl
  obtain ⟨length, eof, signature⟩ := h
  rw [received] at hlength heof ⊢
  dsimp only at hlength heof ⊢
  rw [hlength, heof]

end AmpduSubframeHeader

namespace AmsduSubframeHeader

def bytes (h : AmsduSubframeHeader) : List UInt8 :=
  h.m_da.1 ++ (h.m_sa.1 ++ (le 2 h.m_length.toNat).reverse)

variable {h : AmsduSubframeHeader}

theorem length_bytes : h.bytes.length = 14 := by
  simp only [bytes, List.length_append, List.length_reverse, length_le, h.m_da.2, h.m_sa.2]

theorem addHeader_eq (fill : ℕ → UInt8) (packet : List UInt8) : addHeader fill h packet =
    some (h.bytes ++ packet) := by
  refine addHeader_full length_bytes fun i fits => congrArg some ?_
  rw [serialize, Iterator.writeHtonU16, Iterator.write_write fits, Iterator.write_write fits, bytes,
    List.append_assoc]

theorem deserialize_eq (h' : AmsduSubframeHeader) (rest : List UInt8) :
    Header.deserialize h' (h.bytes ++ rest) = some (h, h.bytes.length) := by
  have hread : Reads read h.bytes h :=
    (reads_takeBlock h.m_da).bind
      ((reads_takeBlock h.m_sa).bind ((reads_NtohU16 h.m_length).bind_pure _))
  change deserialize (h.bytes ++ rest) = _
  rw [deserialize, hread rest, map_some, List.length_append, Nat.add_sub_cancel]

end AmsduSubframeHeader

/-! ## A-MPDUs -/

namespace MpduAggregator

abbrev Entry : Type := WifiMacQueueItem × Bool

def aggregateAll (fill : ℕ → UInt8) (mpdus : List Entry) : Option (List UInt8) :=
  mpdus.foldlM (fun ampdu m => aggregate fill m.1 ampdu m.2) []

variable (m : Entry)

def header : AmpduSubframeHeader := subframeHeader m.1 m.2

def frame : List UInt8 := (header m).bytes ++ m.1.bytes

variable {fill : ℕ → UInt8} {mpdus : List Entry}

theorem frame_ne_nil : frame m ≠ [] := by
  refine List.append_ne_nil_of_left_ne_nil (List.ne_nil_of_length_pos ?_) _
  rw [AmpduSubframeHeader.length_bytes]
  decide

theorem frames_ne_nil (mpdus : List Entry) : ∀ f ∈ mpdus.map frame, f ≠ [] := by
  intro f hf
  obtain ⟨m, -, rfl⟩ := List.mem_map.mp hf
  exact frame_ne_nil m

theorem aggregate_joined (alone : m.2 = true → mpdus = []) :
    aggregate fill m.1 (joined 4 0 (mpdus.map frame)) m.2 =
      some (joined 4 0 ((mpdus ++ [m]).map frame)) := by
  have hassert : ¬(m.2 = true ∧ (joined 4 0 (mpdus.map frame)).length ≠ 0) := by
    rintro ⟨single, ne⟩
    rw [alone single] at ne
    exact ne rfl
  rw [aggregate, if_neg hassert, AmpduSubframeHeader.addHeader_eq, map_some, List.map_append]
  exact congrArg some (padPrevious_append calculatePadding_mpdu (frames_ne_nil mpdus) (frame m))

theorem aggregateAll_eq (single : ∀ m ∈ mpdus.tail, m.2 = false) :
    aggregateAll fill mpdus = some (joined 4 0 (mpdus.map frame)) := by
  induction mpdus using List.reverseRecOn with
  | nil => rfl
  | append_singleton mpdus m ih =>
    have hbefore : ∀ m' ∈ mpdus.tail, m'.2 = false := fun m' hm' => single m' (by
      cases mpdus with
      | nil => cases hm'
      | cons x xs => exact List.mem_append_left _ hm')
    have halone : m.2 = true → mpdus = [] := by
      intro htrue
      by_contra hne
      obtain ⟨x, xs, rfl⟩ := List.exists_cons_of_ne_nil hne
      exact absurd htrue (by rw [single m (by simp)]; decide)
    have hfold : aggregateAll fill (mpdus ++ [m]) =
        (aggregateAll fill mpdus).bind fun ampdu => aggregate fill m.1 ampdu m.2 := by
      rw [aggregateAll, List.foldlM_append]
      refine congrArg (Option.bind _) (funext fun ampdu => ?_)
      exact bind_pure _
    rw [hfold, ih hbefore, bind_some, aggregate_joined m halone]

theorem getSizeIfAggregated_eq (mpdus : List Entry) :
    getSizeIfAggregated (.ofNat m.1.bytes.length) (.ofNat (joined 4 0 (mpdus.map frame)).length) =
      .ofNat (joined 4 0 ((mpdus ++ [m]).map frame)).length := by
  have hframe : (frame m).length = 4 + m.1.bytes.length := by
    rw [frame, List.length_append, AmpduSubframeHeader.length_bytes]
  have hlength := @length_joined_append _ 4 (0 : UInt8) (by decide) (mpdus.map frame) (frame m)
  rw [hframe, ← List.map_singleton (f := frame), ← List.map_append] at hlength
  apply UInt32.toNat_inj.mp
  rw [getSizeIfAggregated, UInt32.toNat_add, UInt32.toNat_add, UInt32.toNat_add,
    UInt8.toNat_toUInt32,
    calculatePadding_mpdu, UInt32.toNat_ofNat', UInt32.toNat_ofNat', UInt32.toNat_ofNat', hlength]
  change (((_ + _) % 2 ^ 32 + 4) % 2 ^ 32 + _) % 2 ^ 32 = _
  omega

theorem isSubframe (short : m.1.bytes.length < 2 ^ 14) :
    IsSubframe AmpduSubframeHeader.m_length (fun extractedLength => (4 - extractedLength % 4) % 4)
    (header m)
      (header m).bytes m.1.bytes where
  nonempty := List.ne_nil_of_length_pos (by rw [AmpduSubframeHeader.length_bytes]; decide)
  reads h rest := by
    have hlength : (header m).m_length.toNat < 2 ^ 14 := by
      change (UInt16.ofNat _).toNat < _
      rw [UInt16.toNat_ofNat']
      omega
    rw [AmpduSubframeHeader.deserialize_eq, AmpduSubframeHeader.received_eq hlength]
  length_eq := by
    change (UInt16.ofNat _).toNat = _
    rw [UInt16.toNat_ofNat']
    omega
  pads := by
    rw [List.length_append, AmpduSubframeHeader.length_bytes, padding_add (by decide)]
    rfl

theorem deaggregate_joined (short : ∀ m ∈ mpdus, m.1.bytes.length < 2 ^ 14) :
    deaggregate (joined 4 0 (mpdus.map frame)) =
      some (mpdus.map fun m => (m.1.bytes, header m), []) := by
  have hmany : mpdus.length ≤ (joined 4 0 (mpdus.map frame)).length := by
    have hlong := @length_le_joined _ 4 (0 : UInt8) _ (frames_ne_nil mpdus)
    rwa [List.length_map] at hlong
  exact deaggregateLoop_joined (fun m hm => isSubframe m (short m hm)) (Nat.zero_add _)
    (Nat.lt_succ_of_le hmany)

theorem peekLoop_joined (short : ∀ m ∈ mpdus, m.1.bytes.length < 2 ^ 14) (before : List UInt8)
    (fuel : ℕ) (hdr : AmpduSubframeHeader) (enough : mpdus.length < fuel) :
    peekLoop (before ++ joined 4 0 (mpdus.map frame)) fuel hdr before.length =
      some (segments 4 0 (mpdus.map frame)) := by
  induction mpdus generalizing before fuel hdr with
  | nil =>
    obtain ⟨fuel, rfl⟩ := Nat.exists_eq_add_one_of_ne_zero (Nat.ne_of_gt enough)
    have hdone : ¬before.length < (before ++ joined 4 0 (List.map frame [])).length := by
      rw [List.length_append]
      exact Nat.lt_irrefl _
    rw [peekLoop, if_neg hdone]
    rfl
  | cons m ms ih =>
    obtain ⟨fuel, rfl⟩ := Nat.exists_eq_add_one_of_ne_zero (show fuel ≠ 0 by omega)
    have hm := isSubframe m (short m (by simp))
    have hlen := short m (by simp)
    obtain ⟨p, hp⟩ : ∃ p, p = gap 4 (frame m) (ms.map frame) := ⟨_, rfl⟩
    obtain ⟨rest, hrest⟩ : ∃ rest, rest = joined 4 (0 : UInt8) (ms.map frame) := ⟨_, rfl⟩
    have hpadded := @gap_eq _ 4 (0 : UInt8) (frame m) _ (frames_ne_nil ms)
    rw [← hp, ← hrest] at hpadded
    have hframe : (frame m).length = 4 + m.1.bytes.length := by
      rw [frame, List.length_append, AmpduSubframeHeader.length_bytes]
    have hsplit : before ++ (frame m ++ (List.replicate p 0 ++ rest)) =
        before ++ ((header m).bytes ++ (m.1.bytes ++ (List.replicate p 0 ++ rest))) := by
      rw [frame, List.append_assoc]
    have hsegment : before ++ (frame m ++ (List.replicate p 0 ++ rest)) =
        before ++ ((frame m ++ List.replicate p 0) ++ rest) := by
      rw [List.append_assoc]
    have hsize : (frame m ++ List.replicate p 0).length = (frame m).length + p := by
      rw [List.length_append, List.length_replicate]
    have hall : (before ++ (frame m ++ (List.replicate p 0 ++ rest))).length =
        before.length + (frame m).length + (p + rest.length) := by
      simp only [List.length_append, List.length_replicate]
      omega
    have htemp : createFragment (before ++ (frame m ++ (List.replicate p 0 ++ rest))) before.length
        AmpduSubframeHeader.getSerializedSize = some (header m).bytes := by
      rw [hsplit]
      exact createFragment_middle _ _ _
    have hread : Header.deserialize hdr (header m).bytes = some (header m, 4) := by
      have hreads := hm.reads hdr []
      rwa [List.append_nil, AmpduSubframeHeader.length_bytes] at hreads
    -- Header and MPDU fit in sixteen bits, and so does the padding.
    have hextract : (.ofNat 4 + (header m).m_length).toNat = (frame m).length := by
      rw [UInt16.toNat_add, hm.length_eq, hframe]
      exact Nat.mod_eq_of_lt (by change 4 + _ < 2 ^ 16; omega)
    have hpads : (4 - (header m).m_length.toNat % 4) % 4 = padding 4 (frame m).length := by
      rw [hm.length_eq]
      exact hm.pads
    have hbytes : (if 0 < (4 - (header m).m_length.toNat % 4) % 4 ∧
        before.length + (.ofNat 4 + (header m).m_length).toNat <
          (before ++ (frame m ++ (List.replicate p 0 ++ rest))).length then
        .ofNat 4 + (header m).m_length + .ofNat ((4 - (header m).m_length.toNat % 4) % 4)
        else .ofNat 4 + (header m).m_length).toNat = (frame m).length + p := by
      rw [hextract, hall, hpads]
      have hsmall : padding 4 (frame m).length < 4 := Nat.mod_lt _ (by decide)
      split_ifs with h
      · rw [if_pos (by omega)] at hpadded
        rw [UInt16.toNat_add, hextract, UInt16.toNat_ofNat']
        omega
      · rw [if_neg (by omega)] at hpadded
        omega
    have hloop :=
      ih (fun m' hm' => short m' (by simp [hm'])) (before ++ (frame m ++ List.replicate p 0)) fuel
        (header m)
      (by rw [List.length_cons] at enough; omega)
    rw [← hrest, List.append_assoc, ← hsegment, List.length_append, hsize] at hloop
    rw [List.map_cons, joined_cons, segments_cons, ← hp, ← hrest, peekLoop,
      if_pos (by rw [hall]; omega)]
    simp only [htemp, hread, bind_eq_bind, bind_some]
    rw [hbytes, hloop, ← hsize, hsegment, createFragment_middle]
    rfl

/-- Aggregating the MPDUs and taking the aggregate apart. -/
structure RoundTrip (fill : ℕ → UInt8) (mpdus : List Entry) : Prop where
  back : ∃ ampdu, aggregateAll fill mpdus = some ampdu ∧
    deaggregate ampdu = some (mpdus.map fun m => (m.1.bytes, header m), []) ∧
      ∃ subframes, peekAmpduSubframes ampdu = some subframes ∧ subframes.flatten = ampdu ∧
        List.Forall₂ (fun m subframe => frame m <+: subframe) mpdus subframes
  sizes : ∀ before m after, mpdus = before ++ m :: after → ∃ ampdu ampdu',
    aggregateAll fill before = some ampdu ∧ aggregate fill m.1 ampdu m.2 = some ampdu' ∧
      getSizeIfAggregated (.ofNat m.1.bytes.length) (.ofNat ampdu.length) = .ofNat ampdu'.length

theorem roundTrip (single : ∀ m ∈ mpdus.tail, m.2 = false)
    (short : ∀ m ∈ mpdus, m.1.bytes.length < 2 ^ 14) : RoundTrip fill mpdus := by
  constructor
  · refine ⟨_, aggregateAll_eq single, deaggregate_joined short, _, ?_, flatten_segments _, ?_⟩
    · have hmany := @length_le_joined _ 4 (0 : UInt8) _ (frames_ne_nil mpdus)
      rw [List.length_map] at hmany
      exact peekLoop_joined short [] _ _ (Nat.lt_succ_of_le hmany)
    · exact List.forall₂_map_left_iff.mp (starts_segments (mpdus.map frame))
  · intro before m after hsplit
    have hbefore : ∀ m' ∈ before.tail, m'.2 = false := fun m' hm' => single m' (by
      cases before with
      | nil => cases hm'
      | cons x xs =>
        rw [hsplit]
        exact List.mem_append_left _ hm')
    have halone : m.2 = true → before = [] := by
      intro htrue
      by_contra hne
      obtain ⟨x, xs, rfl⟩ := List.exists_cons_of_ne_nil hne
      exact absurd htrue (by rw [single m (by rw [hsplit]; simp)]; decide)
    exact ⟨_, _, aggregateAll_eq hbefore, aggregate_joined m halone,
      getSizeIfAggregated_eq m before⟩

theorem short_of_extracted {m : Entry} {tail rest : List UInt8} {maxSize fuel deserialized : ℕ}
    {hdr h : AmpduSubframeHeader} {set : List (List UInt8 × AmpduSubframeHeader)} {padding : ℕ → ℕ}
    (run : deaggregateLoop AmpduSubframeHeader.m_length padding maxSize fuel hdr (frame m ++ tail)
      deserialized = some ((m.1.bytes, h) :: set, rest)) : m.1.bytes.length < 2 ^ 14 := by
  cases fuel with
  | zero => cases run
  | succ fuel =>
    rw [deaggregateLoop] at run
    split_ifs at run with hlt
    · rw [frame, List.append_assoc, AmpduSubframeHeader.deserialize_eq] at run
      simp only [bind_eq_bind, bind_some, List.drop_left] at run
      obtain ⟨extracted, hextracted, run⟩ := bind_eq_some_iff.mp run
      obtain ⟨out, -, run⟩ := bind_eq_some_iff.mp run
      obtain rfl : extracted = m.1.bytes :=
        (Prod.ext_iff.mp (List.cons.inj (Prod.ext_iff.mp (Option.some.inj run)).1).1).1
      rw [createFragment] at hextracted
      split_ifs at hextracted with hle
      have hlength := congrArg List.length (Option.some.inj hextracted)
      rw [List.drop_zero, List.length_take_of_le (by omega),
        AmpduSubframeHeader.toNat_length_received] at hlength
      rw [← hlength]
      exact Nat.mod_lt _ (by decide)
    · cases run

theorem short_of_back {maxSize fuel deserialized : ℕ} {hdr : AmpduSubframeHeader}
    {rest : List UInt8} (counts : deserialized + (joined 4 0 (mpdus.map frame)).length = maxSize)
    (run : deaggregateLoop AmpduSubframeHeader.m_length
      (fun extractedLength => (4 - extractedLength % 4) % 4) maxSize fuel
      hdr (joined 4 0 (mpdus.map frame)) deserialized =
        some (mpdus.map fun m => (m.1.bytes, header m), rest)) :
    ∀ m ∈ mpdus, m.1.bytes.length < 2 ^ 14 := by
  induction mpdus generalizing fuel deserialized hdr with
  | nil => exact fun m hm => nomatch hm
  | cons m ms ih =>
    have hfirst : m.1.bytes.length < 2 ^ 14 := by
      rw [List.map_cons, List.map_cons, joined_cons] at run
      exact short_of_extracted run
    refine List.forall_mem_cons.mpr ⟨hfirst, ?_⟩
    cases fuel with
    | zero => cases run
    | succ fuel =>
      obtain ⟨deserialized', hcounts, hloop⟩ :=
        deaggregateLoop_cons fuel hdr (isSubframe m hfirst) (frames_ne_nil ms) counts
      have hrun := hloop.symm.trans run
      obtain ⟨⟨set, rest'⟩, hrest, hsame⟩ := map_eq_some_iff.mp hrun
      obtain ⟨hset, rfl⟩ := Prod.ext_iff.mp hsame
      obtain ⟨-, rfl⟩ := List.cons.inj hset
      exact ih hcounts hrest

/-- An A-MPDU comes back just when fourteen bits are enough for the length of each MPDU. -/
theorem roundTrip_iff (single : ∀ m ∈ mpdus.tail, m.2 = false) :
    RoundTrip fill mpdus ↔ ∀ m ∈ mpdus, m.1.bytes.length < 2 ^ 14 := by
  refine ⟨fun h => ?_, roundTrip single⟩
  obtain ⟨ampdu, hall, hback, -⟩ := h.back
  obtain rfl := Option.some.inj (hall.symm.trans (aggregateAll_eq single))
  exact short_of_back (Nat.zero_add _) hback

end MpduAggregator

/-! ## A-MSDUs -/

namespace MsduAggregator

structure Entry where
  msdu : List UInt8
  src : Block 6
  dest : Block 6

def aggregateAll (fill : ℕ → UInt8) (msdus : List Entry) : Option (List UInt8) :=
  msdus.foldlM (fun amsdu m => aggregate fill m.msdu amsdu m.src m.dest) []

variable (m : Entry)

def header : AmsduSubframeHeader := ⟨m.dest, m.src, .ofNat m.msdu.length⟩

def frame : List UInt8 := (header m).bytes ++ m.msdu

variable {fill : ℕ → UInt8} {msdus : List Entry}

theorem frames_ne_nil (msdus : List Entry) : ∀ f ∈ msdus.map frame, f ≠ [] := by
  intro f hf
  obtain ⟨m, -, rfl⟩ := List.mem_map.mp hf
  refine List.append_ne_nil_of_left_ne_nil (List.ne_nil_of_length_pos ?_) _
  rw [AmsduSubframeHeader.length_bytes]
  decide

theorem aggregate_joined (msdus : List Entry) :
    aggregate fill m.msdu (joined 4 0 (msdus.map frame)) m.src m.dest =
      some (joined 4 0 ((msdus ++ [m]).map frame)) := by
  rw [aggregate, AmsduSubframeHeader.addHeader_eq, map_some, List.map_append]
  exact congrArg some (padPrevious_append calculatePadding_msdu (frames_ne_nil msdus) (frame m))

theorem aggregateAll_eq (msdus : List Entry) : aggregateAll fill msdus =
    some (joined 4 0 (msdus.map frame)) := by
  induction msdus using List.reverseRecOn with
  | nil => rfl
  | append_singleton msdus m ih =>
    have hfold : aggregateAll fill (msdus ++ [m]) =
        (aggregateAll fill msdus).bind fun amsdu => aggregate fill m.msdu amsdu m.src m.dest := by
      rw [aggregateAll, List.foldlM_append]
      exact congrArg (Option.bind _) (funext fun amsdu => bind_pure _)
    rw [hfold, ih, bind_some, aggregate_joined m msdus]

theorem isSubframe (short : m.msdu.length < 2 ^ 16) :
    IsSubframe AmsduSubframeHeader.m_length
    (fun extractedLength => (4 - (extractedLength + 14) % 4) % 4) (header m)
      (header m).bytes m.msdu where
  nonempty := List.ne_nil_of_length_pos (by rw [AmsduSubframeHeader.length_bytes]; decide)
  reads _ rest := AmsduSubframeHeader.deserialize_eq _ rest
  length_eq := by
    change (UInt16.ofNat _).toNat = _
    rw [UInt16.toNat_ofNat']
    omega
  pads := by
    rw [List.length_append, AmsduSubframeHeader.length_bytes, Nat.add_comm 14]
    rfl

def aggregateSize (msdus : List Entry) : ℕ :=
  msdus.foldl (fun size m => size + padding 4 size + 14 + m.msdu.length) 0

theorem length_frame : (frame m).length = 14 + m.msdu.length := by
  rw [frame, List.length_append, AmsduSubframeHeader.length_bytes]

theorem length_joined (msdus : List Entry) :
    (joined 4 0 (msdus.map frame)).length = aggregateSize msdus := by
  induction msdus using List.reverseRecOn with
  | nil => rfl
  | append_singleton msdus m ih =>
    rw [List.map_append, List.map_singleton, length_joined_append (by decide), ih, length_frame,
      aggregateSize, aggregateSize, List.foldl_append, List.foldl_cons, List.foldl_nil]
    omega

theorem length_joined_upTo (before : List Entry) (m : Entry) (after : List Entry) :
    (joined 4 0 ((before ++ [m]).map frame)).length ≤
    (joined 4 0 ((before ++ m :: after).map frame)).length := by
  have hle := @length_joined_le _ 4 (0 : UInt8) (by decide) ((before ++ [m]).map frame)
    (after.map frame)
  rwa [← List.map_append, List.append_assoc, List.singleton_append] at hle

theorem getSizeIfAggregated_eq (msdus : List Entry) :
    getSizeIfAggregated (.ofNat m.msdu.length) (.ofNat (joined 4 0 (msdus.map frame)).length) =
      .ofNat (joined 4 0 ((msdus ++ [m]).map frame)).length := by
  have hlength := @length_joined_append _ 4 (0 : UInt8) (by decide) (msdus.map frame) (frame m)
  rw [length_frame, ← List.map_singleton (f := frame), ← List.map_append] at hlength
  apply UInt16.toNat_inj.mp
  rw [getSizeIfAggregated, UInt16.toNat_add, UInt16.toNat_add, UInt16.toNat_add,
    UInt8.toNat_toUInt16,
    calculatePadding_msdu, UInt16.toNat_ofNat', UInt16.toNat_ofNat', UInt16.toNat_ofNat', hlength]
  change (((_ + _) % 2 ^ 16 + 14) % 2 ^ 16 + _) % 2 ^ 16 = _
  omega

/-- Aggregating the MSDUs and taking the aggregate apart. -/
structure RoundTrip (fill : ℕ → UInt8) (msdus : List Entry) : Prop where
  back : ∃ amsdu, aggregateAll fill msdus = some amsdu ∧
    deaggregate amsdu = some (msdus.map fun m => (m.msdu, header m), [])
  sizes : ∀ before m after, msdus = before ++ m :: after → ∃ amsdu amsdu',
    aggregateAll fill before = some amsdu ∧ aggregate fill m.msdu amsdu m.src m.dest = some amsdu' ∧
      (getSizeIfAggregated (.ofNat m.msdu.length) (.ofNat amsdu.length)).toNat = amsdu'.length

theorem roundTrip (fits : aggregateSize msdus < 2 ^ 16) : RoundTrip fill msdus := by
  rw [← length_joined] at fits
  constructor
  · have hshort : ∀ m ∈ msdus, m.msdu.length < 2 ^ 16 := by
      intro m hm
      obtain ⟨before, after, rfl⟩ := List.append_of_mem hm
      have hle := length_joined_upTo before m after
      rw [List.map_append, List.map_singleton, length_joined_append (by decide),
        length_frame] at hle
      omega
    have hmany := @length_le_joined _ 4 (0 : UInt8) _ (frames_ne_nil msdus)
    rw [List.length_map] at hmany
    exact ⟨_, aggregateAll_eq msdus,
      deaggregateLoop_joined (fun m hm => isSubframe m (hshort m hm)) (Nat.zero_add _)
      (Nat.lt_succ_of_le hmany)⟩
  · intro before m after hsplit
    have hle := length_joined_upTo before m after
    rw [← hsplit] at hle
    refine ⟨_, _, aggregateAll_eq before, aggregate_joined m before, ?_⟩
    rw [getSizeIfAggregated_eq, UInt16.toNat_ofNat']
    exact Nat.mod_eq_of_lt (by omega)

end MsduAggregator

/-- A-MPDUs come back just when no MPDU is longer than fourteen bits can say, and A-MSDUs of 16-bit
sizes always. -/
theorem roundTrips {fill : ℕ → UInt8} {mpdus : List MpduAggregator.Entry}
    {msdus : List MsduAggregator.Entry}
    (single : ∀ m ∈ mpdus.tail, m.2 = false) (fits : MsduAggregator.aggregateSize msdus < 2 ^ 16) :
    (MpduAggregator.RoundTrip fill mpdus ↔ ∀ m ∈ mpdus, m.1.bytes.length < 2 ^ 14) ∧
      MsduAggregator.RoundTrip fill msdus :=
  ⟨MpduAggregator.roundTrip_iff single, MsduAggregator.roundTrip fits⟩

/-- The header of a QoS data frame between two stations. -/
def dataHeader : List UInt8 := [0x88, 1, 0, 0] ++ List.replicate 22 0

def mpdusOfTwo : List MpduAggregator.Entry :=
  [(⟨[1, 2, 3], dataHeader⟩, false), (⟨[4], dataHeader⟩, false)]

def msdusOfTwo : List MsduAggregator.Entry :=
  [⟨[1, 2, 3], ⟨[0, 0, 0, 0, 0, 1], rfl⟩, ⟨[0, 0, 0, 0, 0, 2], rfl⟩⟩,
    ⟨[4], ⟨[0, 0, 0, 0, 0, 1], rfl⟩, ⟨[0, 0, 0, 0, 0, 3], rfl⟩⟩]

/-- In both aggregates the first part is padded. -/
theorem roundTrips_two : MpduAggregator.RoundTrip (fun _ => 0) mpdusOfTwo ∧
    MsduAggregator.RoundTrip (fun _ => 0) msdusOfTwo := by
  have single : ∀ m ∈ mpdusOfTwo.tail, m.2 = false := by decide
  have fits : MsduAggregator.aggregateSize msdusOfTwo < 2 ^ 16 := by decide
  obtain ⟨mpdus, msdus⟩ := roundTrips single fits
  exact ⟨mpdus.mpr (by decide), msdus⟩

def longMpdu : WifiMacQueueItem := ⟨List.replicate 16354 0, dataHeader⟩

theorem long_mpdu_lost : longMpdu.bytes.length < 2 ^ 16 ∧
    ¬MpduAggregator.RoundTrip (fun _ => 0) [(longMpdu, false)] := by
  have hlength : longMpdu.bytes.length = 2 ^ 14 := by
    simp only [WifiMacQueueItem.bytes, longMpdu, List.length_append, List.length_replicate]
    decide
  refine ⟨by rw [hlength]; decide, fun h => ?_⟩
  have hshort := (MpduAggregator.roundTrip_iff (by decide)).mp h (longMpdu, false) (by simp)
  rw [hlength] at hshort
  exact absurd hshort (by decide)

end Egsr.Wifi.Aggregation
