import Egsr.Lib.History
import Egsr.Wifi.BlockAckReordering
import Mathlib.Algebra.GroupWithZero.Nat

/-! The scoreboard of a recipient: one entry for each sequence number, of which
those of the window count, and the bitmaps of the responses that are filled
from it. -/

namespace Egsr.Wifi.BlockAck.Cache

open Lib.History List Function

inductive BlockAckType where
  | BASIC_BLOCK_ACK
  | COMPRESSED_BLOCK_ACK
  | EXTENDED_COMPRESSED_BLOCK_ACK
  | MULTI_TID_BLOCK_ACK
deriving DecidableEq

/-- The type says which member of the union is in use; those of a compressed bitmap are here. -/
structure CtrlBAckResponseHeader where
  m_baType : BlockAckType
  m_startingSeq : ℕ
  m_compressedBitmap : UInt64
  m_extendedCompressedBitmap : List UInt64
deriving DecidableEq

namespace CtrlBAckResponseHeader

variable (h : CtrlBAckResponseHeader)

def room : ℕ := if h.m_baType = .EXTENDED_COMPRESSED_BLOCK_ACK then 256 else 64

def isInBitmap (seq : ℕ) : Bool := (seq + 4096 - h.m_startingSeq) % 4096 < h.room

/-- `none` is a failed assertion. -/
def indexInBitmap (seq : ℕ) : Option ℕ :=
  let index := if h.m_startingSeq ≤ seq then seq - h.m_startingSeq else 4096 - h.m_startingSeq + seq
  if h.m_baType = .EXTENDED_COMPRESSED_BLOCK_ACK then if index ≤ 255 then some index else none
  else if index ≤ 63 then some index else none

def bit (index : ℕ) : UInt64 := 1 <<< UInt64.ofNat index

/-- Of a compressed response; `none` for the others, which `FillBlockAckBitmap` does not fill. -/
def setReceivedPacket (seq : ℕ) : Option CtrlBAckResponseHeader :=
  if !h.isInBitmap seq then some h
  else
    match h.m_baType with
    | .COMPRESSED_BLOCK_ACK => (h.indexInBitmap seq).map fun index =>
      { h with m_compressedBitmap := h.m_compressedBitmap ||| bit index }
    | .EXTENDED_COMPRESSED_BLOCK_ACK => (h.indexInBitmap seq).map fun index =>
      { h with m_extendedCompressedBitmap := h.m_extendedCompressedBitmap.modify (index / 64) (· |||
        bit index) }
    | _ => none

def isSet (word : UInt64) (index : ℕ) : Bool := (word >>> UInt64.ofNat index) &&& 1 == 1

def isPacketReceived (seq : ℕ) : Option Bool :=
  if !h.isInBitmap seq then some false
  else
    match h.m_baType with
    | .BASIC_BLOCK_ACK => some false
    | .COMPRESSED_BLOCK_ACK =>
      (h.indexInBitmap seq).map fun index => isSet h.m_compressedBitmap index
    | .EXTENDED_COMPRESSED_BLOCK_ACK => (h.indexInBitmap seq).map fun index =>
      isSet (h.m_extendedCompressedBitmap.getD (index / 64) 0) index
    | .MULTI_TID_BLOCK_ACK => none

end CtrlBAckResponseHeader

/-! ## The cache -/

structure BlockAckCache where
  m_winStart : ℕ
  m_winSize : ℕ
  m_winEnd : ℕ
  /-- The array, whose indices are the sequence numbers below 4096. -/
  m_bitmap : ℕ → UInt16

/-- The rounds of `ResetPortionOfBitmap` from the entry `i` on; `none` when the fuel is used up. -/
def resetLoop (last : ℕ) : ℕ → ℕ → (ℕ → UInt16) → Option (ℕ → UInt16)
  | 0, _, _ => none
  | fuel + 1, i, m_bitmap =>
    if i = last then some (update m_bitmap i 0)
    else resetLoop last fuel ((i + 1) % 4096) (update m_bitmap i 0)

/-- The rounds of `FillBlockAckBitmap` from the entry `i` on; `none` when the fuel is used up. -/
def fillLoop (m_bitmap : ℕ → UInt16) (last : ℕ) : ℕ → ℕ → CtrlBAckResponseHeader →
    Option CtrlBAckResponseHeader
  | 0, _, _ => none
  | fuel + 1, i, h => do
    let h ← if m_bitmap i = 1 then h.setReceivedPacket i else some h
    if i = last then some h else fillLoop m_bitmap last fuel ((i + 1) % 4096) h

namespace BlockAckCache

def init (winStart : Fin 4096) (winSize : ℕ) : BlockAckCache :=
  ⟨winStart, winSize, (winStart + winSize - 1) % 4096, fun _ => 0⟩

variable (c : BlockAckCache)

def resetPortionOfBitmap (start last : ℕ) : Option BlockAckCache :=
  (resetLoop last 4096 start c.m_bitmap).map fun m_bitmap => { c with m_bitmap := m_bitmap }

def winsizeAssert : Option BlockAckCache :=
  if (c.m_winEnd + 4096 - c.m_winStart) % 4096 = c.m_winSize - 1 then some c else none

def updateWithMpdu (seqNumber : Fin 4096) (fragmentNumber : Fin 16) : Option BlockAckCache :=
  if !isOldPacket c.m_winStart seqNumber then do
    let c ←
      if !isInWindow seqNumber c.m_winStart c.m_winSize then do
        let delta := (seqNumber + 4096 - c.m_winEnd) % 4096
        let c ← if 1 <
          delta then c.resetPortionOfBitmap ((c.m_winEnd + 1) % 4096) ((seqNumber + 4096 - 1) %
            4096) else some c
        { c with m_winStart := (c.m_winStart + delta) % 4096, m_winEnd := seqNumber }.winsizeAssert
      else some c
    some { c with
      m_bitmap := update c.m_bitmap seqNumber
        (c.m_bitmap seqNumber ||| 1 <<< UInt16.ofNat fragmentNumber) }
  else some c

def updateWithBlockAckReq (startingSeq : Fin 4096) : Option BlockAckCache :=
  if !isOldPacket c.m_winStart startingSeq then
    if isInWindow startingSeq c.m_winStart c.m_winSize then
      if startingSeq ≠ c.m_winStart then do
        let newWinEnd := (startingSeq + c.m_winSize - 1) % 4096
        let c ← { c with m_winStart := startingSeq }.resetPortionOfBitmap ((c.m_winEnd + 1) % 4096)
          newWinEnd
        { c with m_winEnd := newWinEnd }.winsizeAssert
      else some c
    else do
      let newWinEnd := (startingSeq + c.m_winSize - 1) % 4096
      let c ← { c with m_winStart := startingSeq, m_winEnd := newWinEnd }.resetPortionOfBitmap
        startingSeq newWinEnd
      c.winsizeAssert
  else some c

/-- `none` is a fatal error. -/
def fillBlockAckBitmap (blockAckHeader : CtrlBAckResponseHeader) : Option CtrlBAckResponseHeader :=
  match blockAckHeader.m_baType with
  | .BASIC_BLOCK_ACK => none
  | .MULTI_TID_BLOCK_ACK => none
  | _ =>
    fillLoop c.m_bitmap ((blockAckHeader.m_startingSeq + c.m_winSize - 1) % 4096) 4096
      blockAckHeader.m_startingSeq blockAckHeader

def blankResponse (baType : BlockAckType) : CtrlBAckResponseHeader :=
  ⟨baType, c.m_winStart, 0, [0, 0, 0, 0]⟩

/-- The type that `SendBlockAckAfterAmpdu` gives its response. -/
def responseType : BlockAckType := if 64 < c.m_winSize then .EXTENDED_COMPRESSED_BLOCK_ACK
    else .COMPRESSED_BLOCK_ACK

end BlockAckCache

inductive Op where
  | updateWithMpdu (seqNumber : Fin 4096)
  | updateWithBlockAckReq (startingSeq : Fin 4096)
deriving DecidableEq

local instance neZeroSixteen : NeZero 16 := ⟨Nat.succ_ne_zero 15⟩

def step (c : BlockAckCache) : Op → Option BlockAckCache
  | .updateWithMpdu seqNumber => c.updateWithMpdu seqNumber 0
  | .updateWithBlockAckReq startingSeq => c.updateWithBlockAckReq startingSeq

/-- A call with the cache that it leaves. -/
abbrev Event : Type := Op × BlockAckCache

def run : BlockAckCache → List Op → Option (BlockAckCache × List Event)
  | c, [] => some (c, [])
  | c, op :: ops => do
    let c' ← step c op
    let (last, log) ← run c' ops
    some (last, (op, c') :: log)

/-! ## What a call changes -/

theorem resetLoop_eq {fuel i last : ℕ} (hi : i < 4096) (hlast : last < 4096)
    (enough : distance i last < fuel)
    (m_bitmap : ℕ → UInt16) : ∃ m_bitmap', resetLoop last fuel i m_bitmap = some m_bitmap' ∧
      ∀ s < 4096, m_bitmap' s = if distance i s ≤ distance i last then 0 else m_bitmap s := by
  induction fuel generalizing i m_bitmap with
  | zero => omega
  | succ fuel ih =>
    rw [resetLoop]
    by_cases heq : i = last
    · refine ⟨_, if_pos heq, fun s hs => ?_⟩
      subst heq
      by_cases hs' : s = i
      · rw [hs', update_self, if_pos le_rfl]
      · have hfar : ¬distance i s ≤ distance i i := by
          rw [distance_self, Nat.not_le]
          exact distance_pos hi hs hs'
        rw [update_of_ne hs', if_neg hfar]
    · have hnext : distance ((i + 1) % 4096) last < fuel := by
        have hpos := distance_pos hi hlast (Ne.symm heq)
        rw [distance_moved hi hlast hpos]
        omega
      obtain ⟨m_bitmap', hrun, hreset⟩ := ih (Nat.mod_lt _ (by decide)) hnext (update m_bitmap i 0)
      refine ⟨m_bitmap', by rw [if_neg heq, hrun], fun s hs => ?_⟩
      rw [hreset s hs]
      by_cases hs' : s = i
      · have hnear : distance i i ≤ distance i last := by
          rw [distance_self]
          exact Nat.zero_le _
        rw [hs', update_self, ite_self, if_pos hnear]
      · rw [update_of_ne hs']
        exact if_congr (distance_next_le_iff hi hs hlast hs' (Ne.symm heq)) rfl rfl

namespace BlockAckCache

def inWindow (c : BlockAckCache) (s : ℕ) : Bool := isInWindow s c.m_winStart c.m_winSize

theorem inWindow_iff {c : BlockAckCache} {s : ℕ} : c.inWindow s = true ↔
    distance c.m_winStart s < c.m_winSize :=
  decide_eq_true_iff

structure Sound (c : BlockAckCache) : Prop where
  size : 1 ≤ c.m_winSize ∧ c.m_winSize ≤ 256
  start : c.m_winStart < 4096
  winEnd : c.m_winEnd = (c.m_winStart + c.m_winSize - 1) % 4096
  marks : ∀ s < 4096, c.m_bitmap s = 0 ∨ c.m_bitmap s = 1

/-- What a call does: the window does not move back, what enters it is not marked, and a received
MPDU is. -/
structure Stepped (c : BlockAckCache) (op : Op) (c' : BlockAckCache) : Prop where
  sound : c'.Sound
  size_eq : c'.m_winSize = c.m_winSize
  forward : distance c.m_winStart c'.m_winStart < 2048
  marked : ∀ s : Fin 4096, c'.inWindow s = true →
    c'.m_bitmap s = if op = .updateWithMpdu s then 1
      else if c.inWindow s = true then c.m_bitmap s else 0

variable {c : BlockAckCache}

theorem resetPortionOfBitmap_eq (c : BlockAckCache) {start last : ℕ} (hstart : start < 4096)
    (hlast : last < 4096) :
    ∃ m_bitmap, c.resetPortionOfBitmap start last = some { c with m_bitmap := m_bitmap } ∧
      ∀ s < 4096, m_bitmap s = if distance start s ≤ distance start last then 0
        else c.m_bitmap s := by
  have hshort : distance start last < 4096 := Nat.mod_lt _ (by decide)
  obtain ⟨m_bitmap, hrun, hreset⟩ := resetLoop_eq hstart hlast hshort c.m_bitmap
  exact ⟨m_bitmap, by rw [resetPortionOfBitmap, hrun, Option.map_some], hreset⟩

theorem winsizeAssert_eq (size : 1 ≤ c.m_winSize ∧ c.m_winSize ≤ 256) (start : c.m_winStart < 4096)
    (winEnd : c.m_winEnd = (c.m_winStart + c.m_winSize - 1) % 4096) : c.winsizeAssert = some c := by
  rw [winsizeAssert, if_pos]
  omega

theorem marked_of_reset {c' : BlockAckCache} {op : Op} {start last : ℕ}
    (hop : ∀ s, op ≠ .updateWithMpdu s)
    (bits : ∀ s < 4096, c'.m_bitmap s = if distance start s ≤ distance start last then 0
      else c.m_bitmap s)
    (enters : ∀ s < 4096, c'.inWindow s = true →
      (distance start s ≤ distance start last ↔ ¬c.inWindow s = true))
    (s : Fin 4096) (hs : c'.inWindow s = true) :
    c'.m_bitmap s = if op = .updateWithMpdu s then 1 else if c.inWindow s = true then c.m_bitmap s
      else 0 := by
  rw [if_neg (hop s), bits s s.isLt]
  by_cases hin : c.inWindow s = true
  · rw [if_pos hin, if_neg fun h => (enters s s.isLt hs).mp h hin]
  · rw [if_neg hin, if_pos ((enters s s.isLt hs).mpr hin)]

theorem marks_of_reset {m_bitmap m_bitmap' : ℕ → UInt16} {reset : ℕ → Prop} [DecidablePred reset]
    (marks : ∀ s < 4096, m_bitmap s = 0 ∨ m_bitmap s = 1)
    (bits : ∀ s < 4096, m_bitmap' s = if reset s then 0 else m_bitmap s) :
    ∀ s < 4096, m_bitmap' s = 0 ∨ m_bitmap' s = 1 := by
  intro s hs
  rw [bits s hs]
  split_ifs
  · exact .inl rfl
  · exact marks s hs

theorem reset_behind (h : c.Sound) {d s : ℕ} (hd : c.m_winSize ≤ d) (hd' : d < 4096)
    (hs : s < 4096) :
    distance ((c.m_winEnd + 1) % 4096) s ≤ distance ((c.m_winEnd + 1) % 4096)
    ((c.m_winStart + d) % 4096) ↔
      c.m_winSize ≤ distance c.m_winStart s ∧ distance c.m_winStart s ≤ d := by
  have hsize := h.size
  have hnext : (c.m_winEnd + 1) % 4096 = (c.m_winStart + c.m_winSize) % 4096 := by
    rw [h.winEnd]
    omega
  have hlt := distance_lt c.m_winStart s
  rw [hnext, distance_from h.start (by omega) hs,
    distance_from h.start (by omega) (Nat.mod_lt _ (by decide)), distance_add h.start hd']
  omega

theorem step_blockAckReq (h : c.Sound) (startingSeq : Fin 4096) :
    ∃ c', c.updateWithBlockAckReq startingSeq = some c' ∧
      c.Stepped (.updateWithBlockAckReq startingSeq) c' := by
  have hstart := h.start
  have hsize := h.size
  have hseq := startingSeq.isLt
  have hop : ∀ s, Op.updateWithBlockAckReq startingSeq ≠ .updateWithMpdu s := nofun
  have hsame : c.Stepped (.updateWithBlockAckReq startingSeq) c := by
    refine ⟨h, rfl, by rw [distance_self]; decide, fun s hs => ?_⟩
    rw [if_neg (hop s), if_pos hs]
  rw [updateWithBlockAckReq]
  by_cases hold : isOldPacket c.m_winStart startingSeq = true
  · exact ⟨c, if_neg (by rw [hold]; decide), hsame⟩
  have hnew : distance c.m_winStart startingSeq < 2048 := by
    simpa [isOldPacket] using hold
  have hahead := add_distance hstart hseq
  have hlast : (startingSeq + c.m_winSize - 1) % 4096 =
      (c.m_winStart + (distance c.m_winStart startingSeq + c.m_winSize - 1)) % 4096 := by
    omega
  rw [if_pos (by simpa using hold)]
  by_cases hin : isInWindow startingSeq c.m_winStart c.m_winSize = true
  · have hinside := inWindow_iff.mp hin
    rw [if_pos hin]
    by_cases hmove : (startingSeq : ℕ) ≠ c.m_winStart
    · rw [if_pos hmove]
      have hpos := distance_pos hstart hseq hmove
      obtain ⟨m_bitmap, hreset, hbits⟩ :=
        resetPortionOfBitmap_eq { c with m_winStart := startingSeq }
        (Nat.mod_lt (c.m_winEnd + 1) (show 0 < 4096 by decide))
          (Nat.mod_lt (startingSeq + c.m_winSize - 1) (by decide))
      refine ⟨{ c with
        m_winStart := startingSeq
        m_winEnd := (startingSeq + c.m_winSize - 1) % 4096
        m_bitmap := m_bitmap },
        ?_, ⟨hsize, hseq, rfl, marks_of_reset h.marks hbits⟩, rfl, hnew,
          marked_of_reset hop hbits ?_⟩
      · exact (congrArg (Option.bind · _) hreset).trans (winsizeAssert_eq hsize hseq rfl)
      · intro s hs hwindow
        have hwindow' : distance startingSeq s < c.m_winSize := inWindow_iff.mp hwindow
        have hlt := distance_lt c.m_winStart s
        rw [hahead, distance_from hstart (by omega) hs] at hwindow'
        rw [hlast, reset_behind h (by omega) (by omega) hs, inWindow_iff]
        omega
    · rw [if_neg hmove]
      exact ⟨c, rfl, hsame⟩
  · have houtside := mt inWindow_iff.mpr hin
    rw [if_neg hin]
    obtain ⟨m_bitmap, hreset, hbits⟩ := resetPortionOfBitmap_eq
      { c with m_winStart := startingSeq, m_winEnd := (startingSeq + c.m_winSize - 1) % 4096 } hseq
      (Nat.mod_lt (startingSeq + c.m_winSize - 1) (by decide))
    refine ⟨{ c with
      m_winStart := startingSeq
      m_winEnd := (startingSeq + c.m_winSize - 1) % 4096
      m_bitmap := m_bitmap },
      ?_, ⟨hsize, hseq, rfl, marks_of_reset h.marks hbits⟩, rfl, hnew, marked_of_reset hop hbits ?_⟩
    · exact (congrArg (Option.bind · _) hreset).trans (winsizeAssert_eq hsize hseq rfl)
    · intro s hs hwindow
      have hwindow' : distance startingSeq s < c.m_winSize := inWindow_iff.mp hwindow
      have hlt := distance_lt c.m_winStart s
      have hall : distance startingSeq ((startingSeq + c.m_winSize - 1) % 4096) =
          c.m_winSize - 1 := by
        rw [Nat.add_sub_assoc hsize.1, distance_add hseq (by omega)]
      have hfar : ¬distance c.m_winStart s < c.m_winSize := by
        rw [hahead, distance_from hstart (by omega) hs] at hwindow'
        omega
      rw [hall, inWindow_iff]
      omega

theorem delta_eq (h : c.Sound) {seqNumber d : ℕ} (hseq : seqNumber = (c.m_winStart + d) % 4096)
    (hd : c.m_winSize ≤ d)
    (hd' : d < 2048) : (seqNumber + 4096 - c.m_winEnd) % 4096 = d - (c.m_winSize - 1) := by
  have hstart := h.start
  have hsize := h.size
  rw [hseq, h.winEnd]
  omega

theorem reset_before (h : c.Sound) {seqNumber d : ℕ} (hseq : seqNumber = (c.m_winStart + d) % 4096)
    (hd : c.m_winSize ≤ d)
    (hd' : d < 2048) : ∃ m_bitmap, (if 1 < (seqNumber + 4096 - c.m_winEnd) % 4096 then
          c.resetPortionOfBitmap ((c.m_winEnd + 1) % 4096) ((seqNumber + 4096 - 1) % 4096)
        else some c) = some { c with m_bitmap := m_bitmap } ∧
      ∀ s < 4096, m_bitmap s =
        if c.m_winSize ≤ distance c.m_winStart s ∧ distance c.m_winStart s ≤ d - 1 then 0
          else c.m_bitmap s := by
  have hsize := h.size
  rw [delta_eq h hseq hd hd']
  by_cases hmore : 1 < d - (c.m_winSize - 1)
  · obtain ⟨m_bitmap, hreset, hbits⟩ :=
      resetPortionOfBitmap_eq c (Nat.mod_lt (c.m_winEnd + 1) (show 0 < 4096 by decide))
      (Nat.mod_lt (seqNumber + 4096 - 1) (by decide))
    refine ⟨m_bitmap, by rw [if_pos hmore, hreset], fun s hs => ?_⟩
    have hlast : (seqNumber + 4096 - 1) % 4096 = (c.m_winStart + (d - 1)) % 4096 := by
      rw [hseq]
      omega
    rw [hbits s hs, hlast]
    exact if_congr (reset_behind h (by omega) (by omega) hs) rfl rfl
  · refine ⟨c.m_bitmap, if_neg hmore, fun s _ => ?_⟩
    rw [if_neg (by omega)]

theorem set_mark {x : UInt16} (h : x = 0 ∨ x = 1) : x ||| 1 <<< UInt16.ofNat (0 : Fin 16) = 1 := by
  rcases h with rfl | rfl <;> rfl

theorem marks_update {m_bitmap : ℕ → UInt16} (marks : ∀ s < 4096, m_bitmap s = 0 ∨ m_bitmap s = 1)
    (seqNumber : Fin 4096) :
    ∀ s < 4096, update m_bitmap seqNumber
    (m_bitmap seqNumber ||| 1 <<< UInt16.ofNat (0 : Fin 16)) s = 0 ∨
      update m_bitmap seqNumber (m_bitmap seqNumber ||| 1 <<< UInt16.ofNat (0 : Fin 16)) s = 1 := by
  intro s hs
  by_cases heq : s = seqNumber
  · rw [heq, update_self]
    exact .inr (set_mark (marks seqNumber seqNumber.isLt))
  · rw [update_of_ne heq]
    exact marks s hs

theorem step_mpdu (h : c.Sound) (seqNumber : Fin 4096) :
    ∃ c', c.updateWithMpdu seqNumber 0 = some c' ∧ c.Stepped (.updateWithMpdu seqNumber) c' := by
  have hstart := h.start
  have hsize := h.size
  have hseq := seqNumber.isLt
  have hahead := add_distance hstart hseq
  rw [updateWithMpdu]
  by_cases hold : isOldPacket c.m_winStart seqNumber = true
  · refine ⟨c, if_neg (by rw [hold]; decide), h, rfl, by rw [distance_self]; decide, fun s hs => ?_⟩
    have hne : Op.updateWithMpdu seqNumber ≠ .updateWithMpdu s := by
      rintro ⟨rfl⟩
      have hin := inWindow_iff.mp hs
      have hfar : 2048 ≤ distance c.m_winStart seqNumber := of_decide_eq_true hold
      omega
    rw [if_neg hne, if_pos hs]
  have hnew : distance c.m_winStart seqNumber < 2048 := by
    simpa [isOldPacket] using hold
  rw [if_pos (by simpa using hold)]
  by_cases hin : isInWindow seqNumber c.m_winStart c.m_winSize = true
  · rw [if_neg (by rw [hin]; decide)]
    refine ⟨_, rfl, ⟨hsize, hstart, h.winEnd, marks_update h.marks seqNumber⟩, rfl,
      (distance_self c.m_winStart).trans_lt (by decide), fun s hs => ?_⟩
    by_cases heq : s = seqNumber
    · rw [heq, if_pos rfl]
      exact (update_self ..).trans (set_mark (h.marks seqNumber hseq))
    · have hs' : c.inWindow s = true := hs
      rw [if_neg (by rintro ⟨rfl⟩; exact heq rfl), if_pos hs']
      exact update_of_ne (fun hval => heq (Fin.ext hval)) _ _
  · have houtside := mt inWindow_iff.mpr hin
    obtain ⟨m_bitmap, hreset, hbits⟩ := reset_before h hahead (by omega) hnew
    have hdelta := delta_eq h hahead (by omega) hnew
    have hend : (seqNumber : ℕ) =
        ((c.m_winStart + (seqNumber + 4096 - c.m_winEnd) % 4096) % 4096 + c.m_winSize - 1) %
          4096 := by
      rw [hdelta]
      clear hold hin hdelta
      omega
    have hlt' : (c.m_winStart + (seqNumber + 4096 - c.m_winEnd) % 4096) % 4096 < 4096 :=
      Nat.mod_lt _ (by decide)
    rw [if_pos (by simpa using hin)]
    refine ⟨{ c with
      m_winStart := (c.m_winStart + (seqNumber + 4096 - c.m_winEnd) % 4096) % 4096
      m_winEnd := seqNumber
      m_bitmap := update m_bitmap seqNumber
        (m_bitmap seqNumber ||| 1 <<< UInt16.ofNat (0 : Fin 16)) },
      ?_, ⟨hsize, hlt', hend, marks_update (marks_of_reset h.marks hbits) seqNumber⟩, rfl, ?_,
        fun s hs => ?_⟩
    · have hmoved := winsizeAssert_eq (c := { c with
        m_winStart := (c.m_winStart + (seqNumber + 4096 - c.m_winEnd) % 4096) % 4096
        m_winEnd := seqNumber
        m_bitmap := m_bitmap }) hsize hlt' hend
      simp only [Option.bind_eq_bind]
      by_cases hmore : 1 < (seqNumber + 4096 - c.m_winEnd) % 4096
      · rw [if_pos hmore] at hreset ⊢
        rw [hreset, Option.bind_some, hmoved]
        rfl
      · rw [if_neg hmore] at hreset ⊢
        rw [hreset, Option.bind_some, hmoved]
        rfl
    · change distance c.m_winStart
        ((c.m_winStart + (seqNumber + 4096 - c.m_winEnd) % 4096) % 4096) < 2048
      rw [hdelta, distance_add hstart (by omega)]
      omega
    · by_cases heq : s = seqNumber
      · rw [heq, if_pos rfl]
        exact (update_self ..).trans (set_mark (marks_of_reset h.marks hbits seqNumber hseq))
      · have hval : (s : ℕ) ≠ seqNumber := fun hval => heq (Fin.ext hval)
        rw [if_neg (by rintro ⟨rfl⟩; exact heq rfl)]
        have hwindow := inWindow_iff.mp hs
        dsimp only at hwindow ⊢
        rw [update_of_ne hval, hbits s s.isLt]
        rw [hdelta, distance_from hstart (by omega) s.isLt] at hwindow
        have hlt := distance_lt c.m_winStart s
        have hplace : distance c.m_winStart s ≠ distance c.m_winStart seqNumber := by
          intro hsame
          rw [hahead, ← hsame, ← add_distance hstart s.isLt] at hval
          exact hval rfl
        by_cases hinside : c.inWindow s = true
        · have := inWindow_iff.mp hinside
          rw [if_pos hinside, if_neg (by omega)]
        · have := mt inWindow_iff.mpr hinside
          rw [if_neg hinside, if_pos (by omega)]

end BlockAckCache

variable {c : BlockAckCache}

theorem step_spec (h : c.Sound) (op : Op) : ∃ c', step c op = some c' ∧ c.Stepped op c' :=
  match op with
  | .updateWithMpdu seqNumber => BlockAckCache.step_mpdu h seqNumber
  | .updateWithBlockAckReq startingSeq => BlockAckCache.step_blockAckReq h startingSeq

theorem sound_init (winStart : Fin 4096) {winSize : ℕ} (size : 1 ≤ winSize ∧ winSize ≤ 256) :
    (BlockAckCache.init winStart winSize).Sound :=
  ⟨size, winStart.isLt, rfl, fun _ _ => .inl rfl⟩

/-! ## Marks in a response -/

namespace CtrlBAckResponseHeader

theorem toNat_count (index : ℕ) : (UInt64.ofNat index).toNat % 64 = index % 64 := by
  rw [UInt64.toNat_ofNat']
  exact Nat.mod_mod_of_dvd index (by decide)

theorem toNat_bit (index : ℕ) : (bit index).toNat = 2 ^ (index % 64) := by
  have hlt : 2 ^ (index % 64) < 2 ^ 64 :=
    Nat.pow_lt_pow_right (by decide) (Nat.mod_lt index (by decide))
  rw [bit, UInt64.toNat_shiftLeft, toNat_count, Nat.shiftLeft_eq, UInt64.toNat_one, Nat.one_mul,
    Nat.mod_eq_of_lt hlt]

theorem isSet_eq (word : UInt64) (index : ℕ) : isSet word index = word.toNat.testBit
    (index % 64) := by
  rw [isSet, Bool.eq_iff_iff, beq_iff_eq, ← UInt64.toNat_inj, UInt64.toNat_and,
    UInt64.toNat_shiftRight, toNat_count,
    UInt64.toNat_one, Nat.and_one_is_mod, Nat.shiftRight_eq_div_pow,
      Nat.testBit_eq_decide_div_mod_eq, decide_eq_true_eq]

theorem isSet_or (word : UInt64) (i j : ℕ) : isSet (word ||| bit i) j =
    (isSet word j || i % 64 == j % 64) := by
  rw [isSet_eq, isSet_eq, UInt64.toNat_or, Nat.testBit_or, toNat_bit, Nat.testBit_two_pow]
  rfl

/-- What `FillBlockAckBitmap` accepts. -/
structure Compressed (h : CtrlBAckResponseHeader) : Prop where
  type : h.m_baType = .COMPRESSED_BLOCK_ACK ∨ h.m_baType = .EXTENDED_COMPRESSED_BLOCK_ACK
  start : h.m_startingSeq < 4096
  words : h.m_extendedCompressedBitmap.length = 4

def mark (h : CtrlBAckResponseHeader) (seq : ℕ) : Bool :=
  if h.m_baType =
    .COMPRESSED_BLOCK_ACK then isSet h.m_compressedBitmap (distance h.m_startingSeq seq)
  else isSet (h.m_extendedCompressedBitmap.getD (distance h.m_startingSeq seq / 64) 0)
    (distance h.m_startingSeq seq)

variable {h h' : CtrlBAckResponseHeader} {i s : ℕ}

theorem isInBitmap_iff : h.isInBitmap s = true ↔ distance h.m_startingSeq s < h.room :=
  decide_eq_true_iff

theorem indexInBitmap_eq (start : h.m_startingSeq < 4096) (hs : s < 4096)
    (hin : h.isInBitmap s = true) : h.indexInBitmap s = some (distance h.m_startingSeq s) := by
  have hroom := isInBitmap_iff.mp hin
  have hindex : (if h.m_startingSeq ≤ s then s - h.m_startingSeq else 4096 - h.m_startingSeq + s) =
      distance h.m_startingSeq s := by
    unfold distance
    split_ifs <;> omega
  rw [room] at hroom
  simp only [indexInBitmap, hindex]
  split_ifs at hroom ⊢ with htype hle hle
  · rfl
  · omega
  · rfl
  · omega

theorem isPacketReceived_iff (hh : h.Compressed) (hs : s < 4096) :
    h.isPacketReceived s = some true ↔ h.isInBitmap s = true ∧ h.mark s = true := by
  rw [isPacketReceived]
  by_cases hin : h.isInBitmap s = true
  · rw [hin, if_neg (by decide), indexInBitmap_eq hh.start hs hin, mark, and_iff_right rfl]
    rcases hh.type with htype | htype
    · rw [htype, if_pos rfl]
      exact Option.some_inj
    · rw [htype, if_neg (by decide)]
      exact Option.some_inj
  · rw [if_pos (by simpa using hin)]
    exact iff_of_false (by decide) fun h => hin h.1

theorem same_place {d e : ℕ} : d / 64 = e / 64 ∧ d % 64 = e % 64 ↔ d = e := by
  omega

theorem mark_compressed (type : h.m_baType = .COMPRESSED_BLOCK_ACK) {d : ℕ} (hd : d < 64)
    (hs : distance h.m_startingSeq s < 64) :
    mark { h with m_compressedBitmap := h.m_compressedBitmap ||| bit d } s = true ↔
      h.mark s = true ∨ d = distance h.m_startingSeq s := by
  rw [mark, mark]
  dsimp only
  rw [if_pos type, if_pos type, isSet_or, Bool.or_eq_true, beq_iff_eq, Nat.mod_eq_of_lt hd,
    Nat.mod_eq_of_lt hs]

theorem mark_extended (type : h.m_baType = .EXTENDED_COMPRESSED_BLOCK_ACK)
    (words : h.m_extendedCompressedBitmap.length = 4) {d : ℕ} (hd : d < 256) :
    mark { h with
      m_extendedCompressedBitmap := h.m_extendedCompressedBitmap.modify (d / 64) (· ||| bit d) } s =
        true ↔
      h.mark s = true ∨ d = distance h.m_startingSeq s := by
  have hext : h.m_baType ≠ .COMPRESSED_BLOCK_ACK := by
    rw [type]
    decide
  have hword : d / 64 < h.m_extendedCompressedBitmap.length := by
    omega
  rw [mark, mark]
  dsimp only
  rw [if_neg hext, if_neg hext, getD_eq_getElem?_getD, getD_eq_getElem?_getD]
  by_cases hplace : d / 64 = distance h.m_startingSeq s / 64
  · rw [← hplace, List.getElem?_modify_eq, List.getElem?_eq_getElem hword, Option.map_eq_map,
      Option.map_some, Option.getD_some,
      Option.getD_some, isSet_or, Bool.or_eq_true, beq_iff_eq, ← same_place (d := d),
        and_iff_right hplace]
  · have hne : d ≠ distance h.m_startingSeq s := fun heq => hplace (by rw [heq])
    rw [List.getElem?_modify_ne _ _ hplace, or_iff_left hne]

theorem received_of_mark (hh : h.Compressed) (hh' : h'.Compressed) (type : h'.m_baType = h.m_baType)
    (start : h'.m_startingSeq = h.m_startingSeq) (hi : i < 4096) (hin : h.isInBitmap i = true)
    (hmark : ∀ s, distance h.m_startingSeq s < h.room →
      (h'.mark s = true ↔ h.mark s = true ∨
        distance h.m_startingSeq i = distance h.m_startingSeq s))
    (hs : s < 4096) : h'.isPacketReceived s = some true ↔
      h.isPacketReceived s = some true ∨ s = i ∧ h.isInBitmap i = true := by
  have hsame : h'.isInBitmap s = h.isInBitmap s := by
    rw [isInBitmap, isInBitmap, room, room, type, start]
  rw [isPacketReceived_iff hh' hs, isPacketReceived_iff hh hs, hsame]
  constructor
  · rintro ⟨hs', h'⟩
    rcases (hmark s (isInBitmap_iff.mp hs')).mp h' with h' | hplace
    · exact .inl ⟨hs', h'⟩
    · exact .inr ⟨distance_inj hh.start hs hi hplace.symm, hin⟩
  · rintro (⟨hs', h'⟩ | ⟨rfl, -⟩)
    · exact ⟨hs', (hmark s (isInBitmap_iff.mp hs')).mpr (.inl h')⟩
    · exact ⟨hin, (hmark s (isInBitmap_iff.mp hin)).mpr (.inr rfl)⟩

theorem setReceivedPacket_eq (hh : h.Compressed) (hi : i < 4096) : ∃ h', h.setReceivedPacket i =
    some h' ∧ h'.Compressed ∧ h'.m_baType = h.m_baType ∧ h'.m_startingSeq = h.m_startingSeq ∧
    ∀ s < 4096, h'.isPacketReceived s = some true ↔
      h.isPacketReceived s = some true ∨ s = i ∧ h.isInBitmap i = true := by
  rw [setReceivedPacket]
  by_cases hin : h.isInBitmap i = true
  · have hroom := isInBitmap_iff.mp hin
    rw [if_neg (by simpa using hin), indexInBitmap_eq hh.start hi hin]
    rcases hh.type with type | type
    · have hroom' : h.room = 64 := by rw [room, type, if_neg (by decide)]
      have hh' : Compressed { h with
          m_compressedBitmap := h.m_compressedBitmap ||| bit (distance h.m_startingSeq i) } :=
            ⟨hh.type, hh.start, hh.words⟩
      refine ⟨_, by rw [type]; rfl, hh', rfl, rfl, fun s =>
        received_of_mark hh hh' rfl rfl hi hin fun s hs => ?_⟩
      exact mark_compressed type (hroom' ▸ hroom) (hroom' ▸ hs)
    · have hroom' : h.room = 256 := by rw [room, type, if_pos rfl]
      have hh' : Compressed { h with
          m_extendedCompressedBitmap :=
            h.m_extendedCompressedBitmap.modify (distance h.m_startingSeq i / 64)
              (· ||| bit (distance h.m_startingSeq i)) } :=
        ⟨hh.type, hh.start, (length_modify ..).trans hh.words⟩
      refine ⟨_, by rw [type]; rfl, hh', rfl, rfl, fun s =>
        received_of_mark hh hh' rfl rfl hi hin fun s _ => ?_⟩
      exact mark_extended type hh.words (hroom' ▸ hroom)
  · refine ⟨h, if_pos (by simpa using hin), hh, rfl, rfl, fun s _ => ?_⟩
    rw [or_iff_left fun hs => hin hs.2]

end CtrlBAckResponseHeader

open CtrlBAckResponseHeader

theorem fillLoop_succ (m_bitmap : ℕ → UInt16) (last fuel i : ℕ) (h : CtrlBAckResponseHeader) :
    fillLoop m_bitmap last (fuel + 1) i h =
      (if m_bitmap i = 1 then h.setReceivedPacket i else some h).bind fun h =>
        if i = last then some h else fillLoop m_bitmap last fuel ((i + 1) % 4096) h := by
  rw [fillLoop]
  by_cases hset : m_bitmap i = 1
  · rw [if_pos hset, if_pos hset]
    rfl
  · rw [if_neg hset, if_neg hset]
    rfl

theorem fillLoop_eq (m_bitmap : ℕ → UInt16) {fuel i last : ℕ} (hi : i < 4096) (hlast : last < 4096)
    (enough : distance i last < fuel) {h : CtrlBAckResponseHeader} (hh : h.Compressed) :
    ∃ h', fillLoop m_bitmap last fuel i h = some h' ∧
      ∀ s < 4096, h'.isPacketReceived s = some true ↔ h.isPacketReceived s = some true ∨
        distance i s ≤ distance i last ∧ m_bitmap s = 1 ∧ h.isInBitmap s = true := by
  induction fuel generalizing i h with
  | zero => omega
  | succ fuel ih =>
    have hround : ∃ h', (if m_bitmap i = 1 then h.setReceivedPacket i else some h) = some h' ∧
      h'.Compressed ∧
        h'.m_baType = h.m_baType ∧ h'.m_startingSeq = h.m_startingSeq ∧
        ∀ s < 4096, h'.isPacketReceived s = some true ↔
          h.isPacketReceived s = some true ∨ s = i ∧ m_bitmap i = 1 ∧ h.isInBitmap i = true := by
      by_cases hset : m_bitmap i = 1
      · obtain ⟨h', hmarked, hh', htype, hstart, hiff⟩ := setReceivedPacket_eq hh hi
        refine ⟨h', by rw [if_pos hset, hmarked], hh', htype, hstart, fun s hs => ?_⟩
        rw [hiff s hs, and_iff_right hset]
      · refine ⟨h, if_neg hset, hh, rfl, rfl, fun s _ => ?_⟩
        rw [or_iff_left fun hs => hset hs.2.1]
    obtain ⟨h', hmarked, hh', htype, hstart, hiff⟩ := hround
    have hsame : ∀ s, h'.isInBitmap s = h.isInBitmap s := fun s => by
      rw [isInBitmap, isInBitmap, room, room, htype, hstart]
    rw [fillLoop_succ, hmarked, Option.bind_some]
    by_cases heq : i = last
    · refine ⟨h', if_pos heq, fun s hs => ?_⟩
      have honly : distance i s ≤ distance i last ↔ s = i := by
        rw [← heq, distance_self, Nat.le_zero, ← distance_self i]
        exact ⟨distance_inj hi hs hi, fun hs' => by rw [hs']⟩
      rw [hiff s hs, honly]
      refine or_congr_right ⟨fun ⟨hs', hrest⟩ => ⟨hs', hs' ▸ hrest⟩, fun ⟨hs', hrest⟩ =>
        ⟨hs', hs' ▸ hrest⟩⟩
    · have hnext : distance ((i + 1) % 4096) last < fuel := by
        have hpos := distance_pos hi hlast (Ne.symm heq)
        rw [distance_moved hi hlast hpos]
        omega
      obtain ⟨r, hrun, hr⟩ := ih (Nat.mod_lt _ (by decide)) hnext hh'
      refine ⟨r, by rw [if_neg heq, hrun], fun s hs => ?_⟩
      rw [hr s hs, hiff s hs, hsame, or_assoc]
      refine or_congr_right ?_
      by_cases hs' : s = i
      · have hnear : distance i i ≤ distance i last := by
          rw [distance_self]
          exact Nat.zero_le _
        subst hs'
        rw [and_iff_right rfl, and_iff_right hnear, or_iff_left_of_imp And.right]
      · rw [or_iff_right fun h => hs' h.1, distance_next_le_iff hi hs hlast hs' (Ne.symm heq)]

namespace BlockAckCache

variable {c : BlockAckCache} {baType : BlockAckType}

theorem blankResponse_compressed (h : c.Sound)
    (type : baType = .COMPRESSED_BLOCK_ACK ∨ baType = .EXTENDED_COMPRESSED_BLOCK_ACK) :
    (c.blankResponse baType).Compressed := ⟨type, h.start, rfl⟩

theorem blankResponse_unmarked (h : c.Sound)
    (type : baType = .COMPRESSED_BLOCK_ACK ∨ baType = .EXTENDED_COMPRESSED_BLOCK_ACK) {s : ℕ}
    (hs : s < 4096) : ¬(c.blankResponse baType).isPacketReceived s = some true := by
  have hzero : ∀ index, isSet 0 index = false := fun index => by
    rw [isSet_eq, UInt64.toNat_zero, Nat.zero_testBit]
  have hword : ∀ index, ([0, 0, 0, 0] : List UInt64).getD index 0 = 0
    | 0 | 1 | 2 | 3 | _ + 4 => rfl
  rw [isPacketReceived_iff (blankResponse_compressed h type) hs, mark]
  rintro ⟨-, hset⟩
  split_ifs at hset
  · rw [blankResponse, hzero] at hset
    cases hset
  · rw [blankResponse, hword, hzero] at hset
    cases hset

theorem fillBlockAckBitmap_eq (h : c.Sound)
    (type : baType = .COMPRESSED_BLOCK_ACK ∨ baType = .EXTENDED_COMPRESSED_BLOCK_ACK) :
    ∃ r, c.fillBlockAckBitmap (c.blankResponse baType) = some r ∧
      ∀ s < 4096, r.isPacketReceived s = some true ↔
      c.inWindow s = true ∧ c.m_bitmap s = 1 ∧ (c.blankResponse baType).isInBitmap s = true := by
  have hsize := h.size
  have hwhole : distance c.m_winStart ((c.m_winStart + c.m_winSize - 1) % 4096) =
      c.m_winSize - 1 := by
    rw [Nat.add_sub_assoc hsize.1, distance_add h.start (by omega)]
  obtain ⟨r, hrun, hr⟩ := fillLoop_eq c.m_bitmap h.start
    (Nat.mod_lt (c.m_winStart + c.m_winSize - 1) (show 0 < 4096 by decide))
      (distance_lt c.m_winStart _)
    (blankResponse_compressed h type)
  refine ⟨r, ?_, fun s hs => ?_⟩
  · rcases type with rfl | rfl
    · exact hrun
    · exact hrun
  · rw [hr s hs, or_iff_right (blankResponse_unmarked h type hs), hwhole, inWindow_iff,
      Nat.le_sub_one_iff_lt hsize.1]

theorem responseType_room (h : c.Sound) {s : ℕ} (hs : c.inWindow s = true) :
    (c.blankResponse c.responseType).isInBitmap s = true := by
  have hsize := h.size
  have hnear := inWindow_iff.mp hs
  rw [isInBitmap_iff, room, blankResponse, responseType]
  dsimp only
  by_cases hlong : 64 < c.m_winSize
  · rw [if_pos hlong, if_pos rfl]
    omega
  · rw [if_neg hlong, if_neg (by decide)]
    omega

theorem responseType_compressed (c : BlockAckCache) :
    c.responseType = .COMPRESSED_BLOCK_ACK ∨ c.responseType = .EXTENDED_COMPRESSED_BLOCK_ACK := by
  rw [responseType]
  split_ifs
  · exact .inr rfl
  · exact .inl rfl

end BlockAckCache

/-! ## Runs -/

def Receives (s : Fin 4096) (e : Event) : Prop := e.1 = .updateWithMpdu s

def Keeps (s : Fin 4096) (e : Event) : Prop := e.2.inWindow s = true

def ReceivedSince (log : List Event) (s : Fin 4096) : Prop := Since (Receives s) (Keeps s) log

structure Inv (c : BlockAckCache) (log : List Event) : Prop where
  sound : c.Sound
  last : ∀ e ∈ log.getLast?, e.2 = c
  marked : ∀ s : Fin 4096, c.inWindow s = true → (c.m_bitmap s = 1 ↔ ReceivedSince log s)

theorem Inv.inWindow {log : List Event} (h : Inv c log) {s : Fin 4096}
    (received : ReceivedSince log s) : c.inWindow s = true := by
  rcases eq_nil_or_concat log with rfl | ⟨past, e, rfl⟩
  · obtain ⟨past, e, later, heq, -⟩ := received
    cases past <;> cases heq
  · rw [concat_eq_append] at received h
    rw [← h.last e (by rw [List.getLast?_append]; rfl)]
    have hkept : Keeps s e := Since.last received
    exact hkept

theorem inv_init (winStart : Fin 4096) {winSize : ℕ} (size : 1 ≤ winSize ∧ winSize ≤ 256) :
    Inv (BlockAckCache.init winStart winSize) [] := by
  refine ⟨sound_init winStart size, nofun, fun s _ => ⟨fun h => ?_, fun h => ?_⟩⟩
  · exact absurd h (show (0 : UInt16) ≠ 1 by decide)
  · obtain ⟨past, e, later, heq, -⟩ := h
    cases past <;> cases heq

theorem inv_step {c' : BlockAckCache} {log : List Event} {op : Op} (h : Inv c log)
    (stepped : c.Stepped op c') : Inv c' (log ++ [(op, c')]) := by
  refine ⟨stepped.sound, fun e he => ?_, fun s hs => ?_⟩
  · rw [List.getLast?_append] at he
    cases he
    rfl
  · have hkept : Keeps s (op, c') := hs
    rw [stepped.marked s hs, ReceivedSince, since_snoc_iff hkept]
    by_cases hop : op = .updateWithMpdu s
    · rw [if_pos hop]
      exact iff_of_true rfl (.inl hop)
    · rw [if_neg hop, or_iff_right (show ¬Receives s (op, c') from hop)]
      by_cases hin : c.inWindow s = true
      · rw [if_pos hin]
        exact h.marked s hin
      · rw [if_neg hin]
        exact iff_of_false (show (0 : UInt16) ≠ 1 by decide) fun hreceived =>
          hin (h.inWindow hreceived)

def Forward : BlockAckCache → List Event → Prop
  | _, [] => True
  | c, e :: log => distance c.m_winStart e.2.m_winStart < 2048 ∧ Forward e.2 log

theorem run_spec {past : List Event} (h : Inv c past) (ops : List Op) : ∃ last log,
    run c ops = some (last, log) ∧ Inv last (past ++ log) ∧ last.m_winSize = c.m_winSize ∧
      Forward c log ∧ ∀ e ∈ log, e.2.Sound ∧ e.2.m_winSize = c.m_winSize := by
  induction ops generalizing c past with
  | nil => exact ⟨c, [], rfl, by rwa [append_nil], rfl, trivial, nofun⟩
  | cons op ops ih =>
    obtain ⟨c', hstep, hstepped⟩ := step_spec h.sound op
    obtain ⟨last, log, hrun, hinv, hsize, hforward, hall⟩ := ih (inv_step h hstepped)
    refine ⟨last, (op, c') :: log, ?_, ?_, hsize.trans hstepped.size_eq,
      ⟨hstepped.forward, hforward⟩, ?_⟩
    · rw [run, hstep, Option.bind_eq_bind, Option.bind_some, hrun]
      rfl
    · rwa [append_assoc, singleton_append] at hinv
    · refine forall_mem_cons.mpr ⟨⟨hstepped.sound, hstepped.size_eq⟩, fun e he => ?_⟩
      obtain ⟨hsound, hsize'⟩ := hall e he
      exact ⟨hsound, hsize'.trans hstepped.size_eq⟩

/-- However often the numbers are reused, the end of the window follows its start, the start does
not move back, and a response marks what was received since it entered the window, as far as the
response has room for it. The type that is chosen has room for all of the window. -/
theorem marks_received (winStart : Fin 4096) {winSize : ℕ} (size : 1 ≤ winSize ∧ winSize ≤ 256)
    (ops : List Op) : ∃ last log, run (BlockAckCache.init winStart winSize) ops = some (last, log) ∧
      (∀ c ∈ BlockAckCache.init winStart winSize :: log.map Prod.snd, c.m_winEnd =
        (c.m_winStart + winSize - 1) % 4096) ∧
      Forward (BlockAckCache.init winStart winSize) log ∧
      (∃ r, last.fillBlockAckBitmap (last.blankResponse last.responseType) = some r ∧
        ∀ s : Fin 4096, r.isPacketReceived s = some true ↔ last.inWindow s = true ∧
          ReceivedSince log s) ∧
      ∀ baType, baType = .COMPRESSED_BLOCK_ACK ∨ baType = .EXTENDED_COMPRESSED_BLOCK_ACK →
        ∃ r, last.fillBlockAckBitmap (last.blankResponse baType) = some r ∧
          ∀ s : Fin 4096, r.isPacketReceived s = some true ↔
            last.inWindow s = true ∧ ReceivedSince log s ∧
            (last.blankResponse baType).isInBitmap s = true := by
  obtain ⟨last, log, hrun, hinv, hsize, hforward, hall⟩ := run_spec (inv_init winStart size) ops
  rw [nil_append] at hinv
  refine ⟨last, log, hrun, ?_, hforward, ?_, fun baType type => ?_⟩
  · refine forall_mem_cons.mpr ⟨rfl, fun c hc => ?_⟩
    obtain ⟨e, he, rfl⟩ := mem_map.mp hc
    obtain ⟨hsound, hsame⟩ := hall e he
    have hwinSize : e.2.m_winSize = winSize := hsame
    rw [hsound.winEnd, hwinSize]
  · obtain ⟨r, hfill, hr⟩ :=
      BlockAckCache.fillBlockAckBitmap_eq hinv.sound last.responseType_compressed
    refine ⟨r, hfill, fun s => ?_⟩
    rw [hr s s.isLt]
    refine and_congr_right fun hin => ?_
    rw [hinv.marked s hin, and_iff_left (BlockAckCache.responseType_room hinv.sound hin)]
  · obtain ⟨r, hfill, hr⟩ := BlockAckCache.fillBlockAckBitmap_eq hinv.sound type
    refine ⟨r, hfill, fun s => ?_⟩
    rw [hr s s.isLt]
    refine and_congr_right fun hin => ?_
    rw [hinv.marked s hin]

/-- The number 5 comes back after the window has gone round, and its old mark is gone. -/
theorem marks_received_reused : (1 ≤ 64 ∧ 64 ≤ 256) ∧ ∃ last log, run (BlockAckCache.init 0 64)
        [.updateWithMpdu 5, .updateWithMpdu 2000, .updateWithMpdu 3900, .updateWithBlockAckReq 4] =
          some (last, log) ∧
      ∃ r, last.fillBlockAckBitmap (last.blankResponse last.responseType) = some r ∧
        (r.isPacketReceived 5 = some true ↔ last.inWindow 5 = true ∧ ReceivedSince log 5) := by
  obtain ⟨last, log, hrun, -, -, ⟨r, hfill, hr⟩, -⟩ :=
    marks_received 0 (show 1 ≤ 64 ∧ 64 ≤ 256 by decide)
    [.updateWithMpdu 5, .updateWithMpdu 2000, .updateWithMpdu 3900, .updateWithBlockAckReq 4]
  exact ⟨by decide, last, log, hrun, r, hfill, hr 5⟩

end Egsr.Wifi.BlockAck.Cache
