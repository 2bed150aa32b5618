import Egsr.Grp.Header
import Egsr.Lib.ReadExtent

/-! How far reading a message goes. A message declares its size, an ANT message besides that of its
HELLO record and the length of its list, and no size is compared with another: the parts are read as
far as their own sizes say, and where a size is too small for the fixed part of a record the number
of addresses that it leaves wraps around. -/

namespace Egsr.Grp.MessageBounds

open Grp.Header Lib.Bytes Lib.ReadExtent Lib.SinglePrecision Network.ByteIterator List

section Parts

variable (bs : List UInt8)

theorem takes_readU8 : Takes readU8 bs 1 1 (fun x => x = .ofNat (fromLe (bs.take 1))) :=
  (takes_takeBytes 1 bs).map _ fun _ h => by rw [h]

theorem takes_readU16 : Takes readU16 bs 2 2 (fun x => x = .ofNat (fromLe (bs.take 2))) :=
  (takes_takeBytes 2 bs).map _ fun _ h => by rw [h]

theorem takes_readU32 : Takes readU32 bs 4 4 (fun x => x = .ofNat (fromLe (bs.take 4))) :=
  (takes_takeBytes 4 bs).map _ fun _ h => by rw [h]

theorem takes_readU64 : Takes readU64 bs 8 8 (fun _ => True) :=
  (takes_takeBytes 8 bs).map _ fun _ _ => trivial

theorem takes_byValue {β : Type} {r : Reader β} {need used : ℕ} {post : β → Prop}
    (h : Takes r bs need used post) : Takes (byValue r) bs need 0 post where
  used_le := Nat.zero_le _
  short few := by
    change (r.run bs).map _ = none
    rw [h.short few]
    rfl
  enough long := by
    obtain ⟨a, ha, reads⟩ := h.enough long
    refine ⟨a, ha, fun other same => ?_⟩
    change (r.run other).map _ = _
    rw [reads other same]
    rfl

def addresses (size : UInt32) : ℕ := ((size - 26) / 4).toNat

theorem takes_hello (size : UInt32) :
    Takes (Hello.read size) bs (26 + 4 * addresses size) (26 + 4 * addresses size)
      (fun hello => hello.getSerializedSize = 26 + 4 * addresses size) := by
  unfold Hello.read
  refine Takes.cast ((takes_readU64 bs).seq fun locationX _ =>
    (takes_readU64 _).seq fun locationY _ =>
    (takes_readU32 _).seq fun speed _ => (takes_readU32 _).seq fun direction _ =>
    (takes_readU16 _).seq fun turn _ =>
      (takes_readMany (fun bs => (takes_readU32 bs).weaken fun _ _ => trivial)
      (addresses size) _).seq fun list hlist => (takes_pure _ _).weaken fun hello hhello => ?_)
        (by omega) (by omega)
  rw [hhello, Hello.getSerializedSize, hlist]
  omega

def antLength : ℕ := (UInt16.ofNat (fromLe ((bs.drop 12).take 2))).toNat

theorem takes_ant (self : Ant Int64) :
    Takes (Ant.read self) bs (30 + 10 * antLength bs) (30 + 10 * antLength bs)
      (fun ant => ant.getSerializedSize = 30 + 10 * antLength bs + 8 * self.sDelay.length) := by
  unfold Ant.read
  refine Takes.cast ((takes_readU32 bs).seq fun senderAddr _ =>
    (takes_readU16 _).seq fun seqNum _ =>
    (takes_readU16 _).seq fun version _ => (takes_readU16 _).seq fun junFrom _ =>
    (takes_readU16 _).seq fun nextJunctionId _ => (takes_readU16 _).seq fun len hlen =>
    (?_ : Takes _ _ (10 * antLength bs + 16) (10 * antLength bs + 16) _)) (by omega) (by omega)
  have hlength : len.toNat = antLength bs := by
    rw [hlen]
    simp only [drop_drop]
    rfl
  rw [hlength]
  have time : ∀ bs, Takes (UInt64.toInt64 <$> readU64) bs 8 8 (fun _ => True) :=
    fun bs => (takes_readU64 bs).map _ fun _ _ => trivial
  refine Takes.cast ((takes_readMany (fun bs => (takes_readU16 bs).weaken fun _ _ => trivial)
    (antLength bs) _).seq fun junctions hjunctions =>
      (takes_readMany time (antLength bs) _).seq fun delays hdelays =>
    (takes_readU32 _).seq fun nextForwarder _ => (takes_readU32 _).seq fun lastSender _ =>
    (takes_readU32 _).seq fun x _ => (takes_readU32 _).seq fun y _ =>
    (takes_pure _ _).weaken fun ant hant => ?_) (by omega) (by omega)
  rw [hant, Ant.getSerializedSize]
  simp only [length_append, hjunctions, hdelays]
  omega

def messageSizeField : UInt16 := .ofNat (fromLe ((bs.drop 2).take 2))

def helloSizeField : UInt32 := .ofNat (fromLe ((bs.drop 12).take 4))

variable {bs}

theorem ofCode_of_head {kind : MessageType} (h : bs.head? = some kind.code) {code : UInt8}
    (hcode : code = .ofNat (fromLe (bs.take 1))) : MessageType.ofCode code = some kind := by
  cases bs with
  | nil => cases h
  | cons b bs =>
    obtain rfl : b = kind.code := Option.some_inj.mp h
    rw [hcode]
    cases kind <;> rfl

def readRecords (self m : MessageHeader Int64) : MessageType → Reader (MessageHeader Int64 × ℕ)
  | .hello => do
    let hello ← byValue (Hello.read (m.messageSize.toUInt32 - 12))
    pure ({ m with hello }, 12 + hello.getSerializedSize)
  | .ant => do
    let helloSize ← readU32
    let hello ← byValue (Hello.read helloSize)
    let ant ← byValue (Ant.read self.ant)
    pure ({ m with hello, ant }, 12 + 4 + hello.getSerializedSize + ant.getSerializedSize)
  | .cpack => StateT.lift none

theorem takes_message {self : MessageHeader Int64} {kind : MessageType}
    (head : bs.head? = some kind.code)
    {need used : ℕ} {post : MessageHeader Int64 × ℕ → Prop} (after : used ≤ need)
    (records : ∀ m : MessageHeader Int64, m.messageSize = messageSizeField bs →
      Takes (readRecords self m kind) (bs.drop 12) need used post) :
    Takes (MessageHeader.read self) bs (12 + need) (12 + used) post := by
  unfold MessageHeader.read
  refine Takes.cast
    ((takes_readU8 bs).lead (fun code hcode => (takes_lift (ofCode_of_head head hcode) _).lead
    (fun messageType htype => (takes_readU8 _).lead (fun vTime _ => (takes_readU16 _).lead
    (fun messageSize hsize =>
      (takes_readU32 _).lead (fun originatorAddress _ => (takes_readU8 _).lead
    (fun timeToLive _ => (takes_readU8 _).lead (fun hopCount _ => (takes_readU16 _).lead
    (fun messageSequenceNumber _ => (?_ : Takes _ _ need used _))
    after) ?_) ?_) ?_) ?_) ?_) ?_) ?_) ?_ ?_
  · subst htype
    have size : messageSize = messageSizeField bs := by
      rw [hsize]
      simp only [drop_drop]
      rfl
    simp only [drop_drop]
    exact records { self with
      messageType, vTime, messageSize, originatorAddress, timeToLive, hopCount,
        messageSequenceNumber } size
  all_goals omega

theorem takes_helloMessage (self : MessageHeader Int64)
    (head : bs.head? = some MessageType.hello.code) :
    Takes (MessageHeader.read self) bs (38 + 4 * addresses ((messageSizeField bs).toUInt32 - 12)) 12
      (fun r => r.2 = 38 + 4 * addresses ((messageSizeField bs).toUInt32 - 12)) := by
  refine Takes.cast (takes_message head (Nat.zero_le _) fun m size =>
    (?_ : Takes _ _ (26 + 4 * addresses ((messageSizeField bs).toUInt32 - 12)) 0 _)) (by omega) rfl
  rw [readRecords, size]
  refine Takes.cast ((takes_byValue _ (takes_hello _ _)).bind
    (fun hello hhello => (takes_pure _ _).weaken fun r hr => ?_) le_rfl) (by omega) rfl
  rw [hr, hhello]
  omega

theorem takes_antMessage (self : MessageHeader Int64)
    (head : bs.head? = some MessageType.ant.code) : Takes (MessageHeader.read self) bs
      (max (42 + 4 * addresses (helloSizeField bs)) (46 + 10 * antLength (bs.drop 16))) 16
      (fun r => r.2 = 72 + 4 * addresses (helloSizeField bs) + 10 * antLength (bs.drop 16) +
        8 * self.ant.sDelay.length) := by
  refine Takes.cast (takes_message head (le_max_left 4 _) fun m _ => (?_ : Takes _ _
    (max 4 (max (30 + 4 * addresses (helloSizeField bs)) (34 + 10 * antLength (bs.drop 16)))) 4 _))
      (by omega) rfl
  unfold readRecords
  refine Takes.cast ((takes_readU32 _).bind (fun helloSize hsize =>
    (?_ : Takes _ _
      (max (26 + 4 * addresses (helloSizeField bs)) (30 + 10 * antLength (bs.drop 16))) 0 _))
    (Nat.zero_le _)) (by omega) rfl
  have field : helloSize = helloSizeField bs := hsize
  rw [field, drop_drop]
  refine Takes.cast ((takes_byValue _ (takes_hello _ _)).bind (fun hello hhello =>
    (takes_byValue _ (takes_ant _ self.ant)).bind (fun ant hant =>
      (takes_pure _ _).weaken fun r hr => ?_) le_rfl) (Nat.zero_le _)) ?_ rfl
  · rw [hr, hhello, hant]
    simp only [drop_zero, Nat.reduceAdd]
    omega
  · simp only [drop_zero, Nat.reduceAdd]
    omega

end Parts

/-! ## Sizes that fit -/

/-- Only bytes inside the first `n` are read, and the size returned is at most `n`. -/
def Bounded (self : MessageHeader Int64) (bs : List UInt8) (n : ℕ) : Prop :=
  Confined (MessageHeader.read self) bs n ∧
    ∀ m size, MessageHeader.deserialize self bs = some (m, size) → size ≤ n

section Fits

variable {self : MessageHeader Int64} {bs : List UInt8} {need used total n : ℕ}

theorem bounded_iff (takes : Takes (MessageHeader.read self) bs need used fun r => r.2 = total)
    (le : need ≤ total) (more : ∃ rest, (MessageHeader.read self).run (bs ++ rest) ≠ none) :
    Bounded self bs n ↔ total ≤ n ∨ bs.length < n ∧ bs.length < need := by
  constructor
  · intro bounded
    by_cases enough : need ≤ bs.length
    · obtain ⟨r, hr, reads⟩ := takes.enough enough
      left
      rw [← hr]
      apply bounded.2 r.1 r.2
      rw [MessageHeader.deserialize, reads bs rfl]
      rfl
    · right
      refine ⟨?_, not_le.mp enough⟩
      by_contra inside
      obtain ⟨rest, hrest⟩ := more
      have same := bounded.1 (bs ++ rest) (take_append_of_le_length (not_lt.mp inside))
      rw [takes.short (not_le.mp enough), Option.map_none, Option.map_eq_none_iff] at same
      exact hrest same
  · intro fits
    rcases fits with fits | ends
    · refine ⟨takes.confined (le.trans fits), fun m size result => ?_⟩
      by_cases enough : need ≤ bs.length
      · obtain ⟨r, hr, reads⟩ := takes.enough enough
        rw [MessageHeader.deserialize, reads bs rfl] at result
        obtain rfl : r = (m, size) := Option.some_inj.mp result
        exact hr.trans_le fits
      · rw [MessageHeader.deserialize, takes.short (not_le.mp enough)] at result
        cases result
    · refine ⟨fun other same => by rw [eq_of_take_eq ends.1 same], fun m size result => ?_⟩
      rw [MessageHeader.deserialize, takes.short ends.2] at result
      cases result

theorem addresses_eq (size : UInt32) :
    addresses size = if 26 ≤ size.toNat then (size.toNat - 26) / 4
      else (2 ^ 32 + size.toNat - 26) / 4 := by
  have bound := size.toNat_lt
  rw [addresses, UInt32.toNat_div, UInt32.toNat_sub]
  change (2 ^ 32 - 26 + size.toNat) % 2 ^ 32 / 4 = _
  split_ifs <;> omega

theorem addresses_lt (size : UInt32) : addresses size < 2 ^ 30 := by
  have bound := size.toNat_lt
  rw [addresses_eq]
  split_ifs <;> omega

theorem antLength_lt (bs : List UInt8) : antLength bs < 2 ^ 16 := UInt16.toNat_lt _

theorem reads_more {kind : MessageType} (head : bs.head? = some kind.code)
    (all : ∀ bs : List UInt8, bs.head? = some kind.code → ∃ need used total, need ≤ 2 ^ 33 ∧
      Takes (MessageHeader.read self) bs need used fun r => r.2 = total) :
    ∃ rest, (MessageHeader.read self).run (bs ++ rest) ≠ none := by
  refine ⟨replicate (2 ^ 33) 0, ?_⟩
  have head' : (bs ++ replicate (2 ^ 33) 0).head? = some kind.code := by
    rw [List.head?_append, head]
    rfl
  obtain ⟨need, used, total, few, takes⟩ := all _ head'
  have enough : need ≤ (bs ++ replicate (2 ^ 33) (0 : UInt8)).length := by
    rw [length_append, length_replicate]
    omega
  obtain ⟨r, -, reads⟩ := takes.enough enough
  rw [reads _ rfl]
  exact Option.some_ne_none _

theorem addresses_hello (size : UInt16) : addresses (size.toUInt32 - 12) =
    if 38 ≤ size.toNat then (size.toNat - 38) / 4 else (2 ^ 32 + size.toNat - 38) / 4 := by
  have bound := size.toNat_lt
  have rest : (size.toUInt32 - 12).toNat = (2 ^ 32 - 12 + size.toNat) % 2 ^ 32 :=
    UInt32.toNat_sub ..
  rw [addresses_eq, rest]
  split_ifs <;> omega

theorem bounded_hello_iff (head : bs.head? = some MessageType.hello.code) :
    Bounded self bs (messageSizeField bs).toNat ↔
      38 ≤ (messageSizeField bs).toNat ∨ bs.length < (messageSizeField bs).toNat := by
  have more : ∃ rest, (MessageHeader.read self).run (bs ++ rest) ≠ none := by
    refine reads_more head fun bs head => ⟨_, _, _, ?_, takes_helloMessage self head⟩
    have := addresses_lt ((messageSizeField bs).toUInt32 - 12)
    omega
  rw [bounded_iff (takes_helloMessage self head) le_rfl more, addresses_hello]
  have bound := (messageSizeField bs).toNat_lt
  split_ifs <;> omega

/-- The HELLO record of an ANT message has room for its fixed part, and all parts declared, with the
times that the object holds already, go into the size of the message. -/
def PartsFit (self : MessageHeader Int64) (bs : List UInt8) : Prop :=
  26 ≤ (helloSizeField bs).toNat ∧
    72 + 4 * (((helloSizeField bs).toNat - 26) / 4) + 10 * antLength (bs.drop 16) +
      8 * self.ant.sDelay.length ≤ (messageSizeField bs).toNat
deriving Decidable

def EndsEarly (bs : List UInt8) : Prop :=
  bs.length < (messageSizeField bs).toNat ∧ ((helloSizeField bs).toNat < 26 ∨
    bs.length < max (42 + 4 * (((helloSizeField bs).toNat - 26) / 4))
      (46 + 10 * antLength (bs.drop 16)))
deriving Decidable

theorem bounded_ant_iff (head : bs.head? = some MessageType.ant.code) :
    Bounded self bs (messageSizeField bs).toNat ↔ PartsFit self bs ∨ EndsEarly bs := by
  have more : ∃ rest, (MessageHeader.read self).run (bs ++ rest) ≠ none := by
    refine reads_more head fun bs head => ⟨_, _, _, ?_, takes_antMessage self head⟩
    have := addresses_lt (helloSizeField bs)
    have := antLength_lt (bs.drop 16)
    omega
  rw [bounded_iff (takes_antMessage self head) (by omega) more, addresses_eq, PartsFit, EndsEarly]
  have bound := (messageSizeField bs).toNat_lt
  have bound' := (helloSizeField bs).toNat_lt
  by_cases record : 26 ≤ (helloSizeField bs).toNat
  · rw [if_pos record, and_iff_right record, or_iff_right (not_lt.mpr record)]
  · -- the addresses wrapped around are more than any message has room for
    have wrapped : ¬ 26 ≤ (helloSizeField bs).toNat := record
    rw [if_neg record]
    simp only [wrapped, false_and, false_or, not_le.mp record, true_or, and_true]
    omega

/-- Reading a message stays within its declared size just if its parts do or the bytes end early. -/
theorem deserialize_bounded_iff (self : MessageHeader Int64) (bs : List UInt8) :
    (bs.head? = some MessageType.hello.code → (Bounded self bs (messageSizeField bs).toNat ↔
      38 ≤ (messageSizeField bs).toNat ∨ bs.length < (messageSizeField bs).toNat)) ∧
    (bs.head? = some MessageType.ant.code → (Bounded self bs (messageSizeField bs).toNat ↔
      PartsFit self bs ∨ EndsEarly bs)) :=
  ⟨bounded_hello_iff, bounded_ant_iff⟩

end Fits

def helloBytes (size : UInt8) : List UInt8 :=
  [1, 0, size, 0, 2, 0, 1, 10, 1, 0, 1, 0] ++ replicate 26 0

def blankMessage : MessageHeader Int64 :=
  ⟨.hello, 0, 0, 0, 0, 0, 0, ⟨0, 0, 0, 0, 0, []⟩,
    ⟨0, 0, 0, 0, 0, [], [], 0, 0, ofUInt32 0, ofUInt32 0⟩⟩

theorem deserialize_bounded_iff_helloBytes : (helloBytes 38).head? = some MessageType.hello.code ∧
    Bounded blankMessage (helloBytes 38) (messageSizeField (helloBytes 38)).toNat :=
  ⟨rfl, ((deserialize_bounded_iff blankMessage (helloBytes 38)).1 rfl).mpr (.inl (by decide))⟩

/-- One byte less, and the number of addresses wraps around. -/
theorem helloBytes_unbounded : (helloBytes 37).head? = some MessageType.hello.code ∧
    (messageSizeField (helloBytes 37)).toNat = 37 ∧ ¬ Bounded blankMessage (helloBytes 37) 37 := by
  have head : (helloBytes 37).head? = some MessageType.hello.code := rfl
  have size : (messageSizeField (helloBytes 37)).toNat = 37 := by decide
  refine ⟨head, size, fun bounded => ?_⟩
  rw [← size, bounded_hello_iff head, size] at bounded
  exact absurd bounded (by decide)

end Egsr.Grp.MessageBounds
