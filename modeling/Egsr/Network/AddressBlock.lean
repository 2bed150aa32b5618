import Egsr.Lib.CommonPrefix
import Egsr.Network.ByteIterator

/-! Address blocks of PacketBB messages: the bytes that all addresses have in
common at their front and at their end are written once. -/

namespace Egsr.Network.AddressBlock

open Lib.Bytes Lib.CommonPrefix ByteIterator List

abbrev AHAS_HEAD : UInt8 := 0x80

abbrev AHAS_FULL_TAIL : UInt8 := 0x40

abbrev AHAS_ZERO_TAIL : UInt8 := 0x20

abbrev AHAS_SINGLE_PRE_LEN : UInt8 := 0x10

abbrev AHAS_MULTI_PRE_LEN : UInt8 := 0x08

inductive Family where
  | ipv4
  | ipv6
deriving DecidableEq

def Family.getAddressLength : Family → ℕ
  | ipv4 => 4
  | ipv6 => 16

abbrev Address (f : Family) : Type := {bytes : List UInt8 // bytes.length = f.getAddressLength}

structure PbbAddressBlock (f : Family) where
  m_addressList : List (Address f)
  m_prefixList : List UInt8

variable {f : Family}

def deserializeAddress (f : Family) (buffer : List UInt8) : Option (Address f) :=
  if h : buffer.length = f.getAddressLength then some ⟨buffer, h⟩ else none

def scanHead (buflast bufcur : List UInt8) (headlen : ℕ) : ℕ → ℕ
  | 0 => headlen
  | left + 1 =>
    let i := headlen - (left + 1)
    if buflast[i]? ≠ bufcur[i]? then i else scanHead buflast bufcur headlen left

/-- The loop for the tail from the byte `i` down to the one it stops at. -/
def scanTail (len : ℕ) (buflast bufcur : List UInt8) (headlen taillen : ℕ) : ℕ → ℕ
  | 0 => 0
  | i + 1 =>
    if len - 1 - (i + 1) ≤ taillen ∧ headlen < i + 1 then
      if buflast[i + 1]? ≠ bufcur[i + 1]? then i + 1
        else scanTail len buflast bufcur headlen taillen i
    else i + 1

/-- The loop over the addresses: the buffer `bufcur` that it leaves and the lengths. -/
def narrow (len : ℕ) (buflast bufcur : List UInt8) (headlen taillen : ℕ) : List (List UInt8) →
    List UInt8 × ℕ × ℕ
  | [] => (bufcur, headlen, taillen)
  | address :: rest =>
    let headlen := scanHead buflast address headlen headlen
    if 0 < len - headlen then
      narrow len address buflast headlen
        (len - 1 - scanTail len buflast address headlen taillen (len - 1)) rest
    else if headlen = 0 then (address, headlen, 0)
    else narrow len address buflast headlen taillen rest

structure HeadTail where
  head : List UInt8
  headlen : ℕ
  tail : List UInt8
  taillen : ℕ
deriving DecidableEq

/-- Of addresses of so many bytes. The iterator is incremented behind the first address, but its old
value is used, so that the first address is compared with itself; the second buffer is overwritten
then. -/
def getHeadTail (len : ℕ) (addresses : List (List UInt8)) : HeadTail :=
  let out := narrow len (addresses.headD []) [] len len addresses
  ⟨out.1.take out.2.1, out.2.1, (out.1.drop (len - out.2.2)).take out.2.2, out.2.2⟩

def hasZeroTail (tail : List UInt8) : Bool := tail.all (· == 0)

/-! ### What the loops find -/

def commonHead (addresses : List (List UInt8)) : ℕ := common addresses

def commonTail (addresses : List (List UInt8)) : ℕ := common (addresses.map List.reverse)

section Loops

variable {len : ℕ} {buflast bufcur : List UInt8} {headlen taillen : ℕ}

theorem scanHead_eq {left : ℕ} (hle : left ≤ headlen) (hlast : headlen ≤ buflast.length)
    (hcur : headlen ≤ bufcur.length) (same : headlen - left ≤ agree buflast bufcur) :
    scanHead buflast bufcur headlen left = min headlen (agree buflast bufcur) := by
  induction left with
  | zero =>
    rw [scanHead]
    omega
  | succ left ih =>
    rw [scanHead]
    by_cases heq : buflast[headlen - (left + 1)]? = bufcur[headlen - (left + 1)]?
    · have hmore := succ_le_agree same (by omega) (by omega) heq
      rw [if_neg (not_not_intro heq), ih (by omega) (by omega)]
    · have hstop : ¬headlen - (left + 1) < agree buflast bufcur :=
        fun hlt => heq (getElem?_of_lt_agree hlt)
      rw [if_pos heq]
      omega

theorem scanTail_eq {i : ℕ} (hlast : buflast.length = len) (hcur : bufcur.length = len)
    (hhead : headlen < len)
    (hi : i < len) (same : len - 1 - i ≤ agree buflast.reverse bufcur.reverse)
    (bounded : len - 1 - i ≤ taillen + 1) (behind : headlen ≤ i) :
    len - 1 - scanTail len buflast bufcur headlen taillen i =
      min (agree buflast.reverse bufcur.reverse) (min (taillen + 1) (len - 1 - headlen)) := by
  induction i with
  | zero =>
    rw [scanTail]
    omega
  | succ i ih =>
    rw [scanTail]
    by_cases hgo : len - 1 - (i + 1) ≤ taillen ∧ headlen < i + 1
    · rw [if_pos hgo]
      have hplace : ∀ l : List UInt8, l.length = len →
          l.reverse[len - 1 - (i + 1)]? = l[i + 1]? := by
        intro l hl
        rw [List.getElem?_reverse (by omega), show l.length - 1 - (len - 1 - (i + 1)) = i + 1 by
          omega]
      by_cases heq : buflast[i + 1]? = bufcur[i + 1]?
      · have hmore :=
          succ_le_agree same (by rw [length_reverse]; omega) (by rw [length_reverse]; omega)
          (by rw [hplace _ hlast, hplace _ hcur, heq])
        rw [if_neg (not_not_intro heq), ih (by omega) (by omega) (by omega) (by omega)]
      · have hstop : ¬len - 1 - (i + 1) < agree buflast.reverse bufcur.reverse := fun hlt =>
          heq (by rw [← hplace _ hlast, ← hplace _ hcur, getElem?_of_lt_agree hlt])
        rw [if_pos heq]
        omega
    · rw [if_neg hgo]
      omega

/-- The lengths after the addresses of the list, of which the first is there twice. -/
structure Narrowed (len : ℕ) (l : List (List UInt8)) (headlen taillen : ℕ) : Prop where
  head : headlen = commonHead l
  whole : headlen = len → taillen = len
  tail_le : headlen < len → commonTail l ≤ taillen
  apart : headlen < len → headlen + taillen < len
  exact_iff : ∀ q x y, l = q ++ [x, y] → headlen < len →
    (taillen = commonTail l ↔ commonTail [x, y] = commonTail l ∨
      commonHead l + commonTail l + 1 = len)

theorem commonTail_append (l : List (List UInt8)) (x y : List UInt8) :
    commonTail (l ++ [x, y]) = min (commonTail (l ++ [x])) (agree x.reverse y.reverse) := by
  rw [commonTail, commonTail, map_append, map_append]
  exact common_append _ _ _

theorem commonTail_pair {x y : List UInt8} : commonTail [x, y] = agree x.reverse y.reverse :=
  Nat.min_eq_left agree_le_right

theorem commonHead_add_commonTail_lt {l : List (List UInt8)} (sized : ∀ x ∈ l, x.length = len)
    (hne : l ≠ []) (hlt : commonHead l < len) : commonHead l + commonTail l < len := by
  obtain ⟨x, hx, y, hy, hxy⟩ : ∃ x ∈ l, ∃ y ∈ l, x ≠ y := by
    by_contra hall
    push Not at hall
    have hle : len ≤ common l := (le_common_iff hne).mpr ⟨fun x hx => (sized x hx).ge,
      fun x hx y hy => by rw [hall x hx y hy]⟩
    exact absurd hlt (Nat.not_lt.mpr hle)
  have hhead : commonHead l ≤ agree x y :=
    le_agree_iff.mpr ⟨common_le hx, common_le hy, take_common hx hy le_rfl⟩
  have hmem : ∀ z ∈ l, z.reverse ∈ l.map List.reverse := fun z hz => mem_map_of_mem hz
  have htail : commonTail l ≤ agree x.reverse y.reverse := le_agree_iff.mpr
    ⟨common_le (hmem x hx), common_le (hmem y hy), take_common (hmem x hx) (hmem y hy) le_rfl⟩
  have hapart := agree_add_agree_reverse_lt ((sized x hx).trans (sized y hy).symm) hxy
  rw [sized x hx] at hapart
  omega

theorem Narrowed.next {q : List (List UInt8)} {x y : List UInt8}
    (h : Narrowed len (q ++ [x]) headlen taillen)
    (sized : ∀ z ∈ q ++ [x, y], z.length = len) {headlen' taillen' : ℕ}
    (hhead : headlen' = min headlen (agree x y))
    (whole : headlen' = len → taillen' = taillen) (htail : headlen' < len →
      taillen' = min (agree x.reverse y.reverse) (min (taillen + 1) (len - 1 - headlen'))) :
    Narrowed len (q ++ [x, y]) headlen' taillen' := by
  have hx : x.length = len := sized x (by simp)
  have hy : y.length = len := sized y (by simp)
  have hold := h.head
  have hnew : headlen' = commonHead (q ++ [x, y]) := by
    rw [hhead, hold, commonHead, commonHead, common_append]
  have hle : headlen ≤ len := by
    rw [hold, ← hx]
    exact common_le (by simp)
  have htails := commonTail_append q x y
  have hroom : headlen' < len → commonHead (q ++ [x, y]) + commonTail (q ++ [x, y]) < len :=
    fun hlt =>
    commonHead_add_commonTail_lt sized (by simp) (hnew ▸ hlt)
  -- Before the first difference the tail is the whole address.
  have hbefore : commonTail (q ++ [x]) ≤ taillen := by
    rcases Nat.lt_or_eq_of_le hle with hlt | heq
    · exact h.tail_le hlt
    · rw [h.whole heq, ← hx, ← length_reverse]
      exact common_le (by simp)
  refine ⟨hnew, fun heq => ?_, fun hlt => ?_, fun hlt => ?_, fun q' x' y' hl hlt => ?_⟩
  · rw [whole heq]
    exact h.whole (by omega)
  · have hnext := htail hlt
    have hleft := hroom hlt
    omega
  · have hnext := htail hlt
    omega
  · obtain ⟨-, hpair⟩ := append_inj' hl rfl
    obtain ⟨rfl, rfl⟩ : x = x' ∧ y = y' := by simpa using hpair
    have hnext := htail hlt
    have hleft := hroom hlt
    rw [commonTail_pair]
    omega

theorem narrow_spec {q rest : List (List UInt8)} {last : List UInt8} (positive : 0 < len)
    (h : Narrowed len (q ++ [last]) headlen taillen)
    (sized : ∀ x ∈ q ++ last :: rest, x.length = len) :
    ∃ cur headlen' taillen', narrow len last bufcur headlen taillen rest =
    (cur, headlen', taillen') ∧
      Narrowed len (q ++ last :: rest) headlen' taillen' ∧
      (cur ∈ q ++ last :: rest ∨ rest = [] ∧ cur = bufcur) := by
  induction rest generalizing q last bufcur headlen taillen with
  | nil => exact ⟨_, _, _, rfl, h, Or.inr ⟨rfl, rfl⟩⟩
  | cons y rest ih =>
    have hlast : last.length = len := sized last (by simp)
    have hy : y.length = len := sized y (by simp)
    have hheadle : headlen ≤ len := by
      rw [h.head, ← hlast]
      exact common_le (by simp)
    have hscan := @scanHead_eq last y _ _ (le_refl headlen) (by omega) (by omega) (by omega)
    have hsized : ∀ z ∈ q ++ [last, y], z.length = len := fun z hz => sized z (by
      simp only [mem_append, mem_cons, not_mem_nil, or_false] at hz ⊢
      tauto)
    have hsplit : q ++ last :: y :: rest = (q ++ [last]) ++ y :: rest := by simp
    have hpair : q ++ [last, y] = (q ++ [last]) ++ [y] := by simp
    rw [narrow, hscan]
    by_cases hlt : 0 < len - min headlen (agree last y)
    · have htail := @scanTail_eq _ _ _ _ taillen (len - 1) hlast hy
        (show min headlen (agree last y) < len by omega) (by omega) (by omega) (by omega) (by omega)
      have hnext := h.next (y := y) hsized rfl (fun heq => absurd heq (by omega)) fun _ => htail
      rw [hpair] at hnext
      obtain ⟨cur, headlen', taillen', hrun, hnarrowed, hcur⟩ :=
        @ih last _ _ _ _ hnext (hsplit ▸ sized)
      rw [if_pos hlt, hsplit]
      refine ⟨cur, headlen', taillen', hrun, hnarrowed, Or.inl ?_⟩
      rcases hcur with hmem | ⟨-, rfl⟩
      · exact hmem
      · simp
    · have hwhole : min headlen (agree last y) = len := by omega
      have hnext := h.next (y := y) hsized rfl (fun _ => rfl) fun hlt' => absurd hwhole hlt'.ne
      rw [hpair] at hnext
      obtain ⟨cur, headlen', taillen', hrun, hnarrowed, hcur⟩ :=
        @ih last _ _ _ _ hnext (hsplit ▸ sized)
      rw [if_neg hlt, if_neg (by omega), hsplit]
      refine ⟨cur, headlen', taillen', hrun, hnarrowed, Or.inl ?_⟩
      rcases hcur with hmem | ⟨-, rfl⟩
      · exact hmem
      · simp

theorem getHeadTail_spec {l : List (List UInt8)} (positive : 0 < len)
    (sized : ∀ x ∈ l, x.length = len) (several : 2 ≤ l.length) :
    ∃ x ∈ l, ∃ headlen taillen, getHeadTail len l =
        ⟨x.take headlen, headlen, (x.drop (len - taillen)).take taillen, taillen⟩ ∧
          Narrowed len l headlen taillen := by
  obtain ⟨first, rest, rfl⟩ : ∃ first rest, l = first :: rest := by
    cases l with
    | nil => exact absurd several (by simp)
    | cons first rest => exact ⟨first, rest, rfl⟩
  have hfirst : first.length = len := sized first (by simp)
  have hstart : Narrowed len ([] ++ [first]) len len := by
    refine ⟨hfirst.symm, fun _ => rfl, fun h => absurd h (lt_irrefl _), fun h =>
      absurd h (lt_irrefl _), ?_⟩
    exact fun _ _ _ _ h => absurd h (lt_irrefl _)
  obtain ⟨cur, headlen, taillen, hrun, hnarrowed, hcur⟩ :=
    @narrow_spec _ [] _ _ [] (first :: rest) _
    positive hstart fun x hx => sized x (by simpa using hx)
  have hmem : cur ∈ first :: rest := by
    rcases hcur with hmem | ⟨hnil, -⟩
    · simpa using hmem
    · cases hnil
  have hsame : commonHead ([] ++ first :: first :: rest) = commonHead (first :: rest) :=
    common_congr fun x => by simp
  have htails : commonTail ([] ++ first :: first :: rest) = commonTail (first :: rest) :=
    common_congr fun x => by simp
  refine ⟨cur, hmem, headlen, taillen, ?_,
    ⟨hsame ▸ hnarrowed.head, hnarrowed.whole, htails ▸ hnarrowed.tail_le,
    hnarrowed.apart, fun q x y hl hlt => ?_⟩⟩
  · rw [getHeadTail, headD_cons, hrun]
  · rw [← htails, ← hsame]
    refine hnarrowed.exact_iff (first :: q) x y ?_ hlt
    rw [cons_append, ← hl]
    rfl

end Loops

/-! ## The bytes -/

namespace PbbAddressBlock

variable (b : PbbAddressBlock f)

def addressSize : ℕ := b.m_addressList.length

def addresses : List (List UInt8) := b.m_addressList.map Subtype.val

def getPrefixFlags : UInt8 :=
  match b.m_prefixList with
  | [] => 0
  | [_] => AHAS_SINGLE_PRE_LEN
  | _ => AHAS_MULTI_PRE_LEN

def headTail : HeadTail := getHeadTail f.getAddressLength b.addresses

def headPart : List UInt8 :=
  let ht := b.headTail
  if 0 < ht.headlen then .ofNat ht.headlen :: ht.head else []

def tailPart : List UInt8 :=
  let ht := b.headTail
  if 0 < ht.taillen then .ofNat ht.taillen :: if hasZeroTail ht.tail then [] else ht.tail else []

def middlePart : List UInt8 :=
  let ht := b.headTail
  if ht.headlen + ht.taillen < f.getAddressLength then
    b.addresses.flatMap fun mid =>
      (mid.drop ht.headlen).take (f.getAddressLength - ht.headlen - ht.taillen)
  else []

def flags : UInt8 :=
  let ht := b.headTail
  (if 0 < ht.headlen then AHAS_HEAD else 0) |||
    (if 0 < ht.taillen then if hasZeroTail ht.tail then AHAS_ZERO_TAIL else AHAS_FULL_TAIL
      else 0) ||| b.getPrefixFlags

/-- What `Serialize` writes before the TLV block. The byte for the flags of no addresses stays as it
was. -/
def serialize (before : UInt8) : List UInt8 :=
  match b.addresses with
  | [] => [0, before]
  | [address] =>
    match b.m_prefixList with
    | [p] => 1 :: AHAS_SINGLE_PRE_LEN :: address ++ [p]
    | _ => 1 :: 0 :: address
  | _ =>
    .ofNat b.addressSize :: b.flags :: b.headPart ++ b.tailPart ++ b.middlePart ++ b.m_prefixList

end PbbAddressBlock

def readHead (flags : UInt8) : Reader (List UInt8) := do
  if flags &&& AHAS_HEAD ≠ 0 then
    let headlen ← readU8
    takeBytes headlen.toNat
  else pure []

def readTail (flags : UInt8) : Reader (List UInt8) := do
  if (flags &&& AHAS_FULL_TAIL) ^^^ (flags &&& AHAS_ZERO_TAIL) ≠ 0 then
    let taillen ← readU8
    if flags &&& AHAS_FULL_TAIL ≠ 0 then takeBytes taillen.toNat
      else pure (replicate taillen.toNat 0)
  else pure []

def readMiddle (f : Family) (head tail : List UInt8) : Reader (Address f) := do
  let mid ← takeBytes (f.getAddressLength - head.length - tail.length)
  match deserializeAddress f (head ++ mid ++ tail) with
  | some address => pure address
  | none => failure

/-- `Deserialize` up to the last address, with the flags; none also when head and tail do not fit
the buffer. -/
def readAddresses (f : Family) : Reader (UInt8 × List (Address f)) := do
  let numaddr ← readU8
  let flags ← readU8
  if 0 < numaddr.toNat then
    let head ← readHead flags
    let tail ← readTail flags
    if f.getAddressLength < head.length + tail.length then failure
    else
      let addresses ← readMany (readMiddle f head tail) numaddr.toNat
      pure (flags, addresses)
  else pure (flags, [])

/-! ## What is read back -/

theorem flags_bits {head tail prefixes : UInt8} (hhead : head = 0 ∨ head = AHAS_HEAD)
    (htail : tail = 0 ∨ tail = AHAS_ZERO_TAIL ∨ tail = AHAS_FULL_TAIL)
    (hprefixes : prefixes = 0 ∨ prefixes = AHAS_SINGLE_PRE_LEN ∨ prefixes = AHAS_MULTI_PRE_LEN) :
    (head ||| tail ||| prefixes) &&& AHAS_HEAD = head ∧
      (head ||| tail ||| prefixes) &&& AHAS_FULL_TAIL = tail &&& AHAS_FULL_TAIL ∧
      (head ||| tail ||| prefixes) &&& AHAS_ZERO_TAIL = tail &&& AHAS_ZERO_TAIL ∧
      (head ||| tail ||| prefixes) &&& AHAS_SINGLE_PRE_LEN = prefixes &&& AHAS_SINGLE_PRE_LEN ∧
      (head ||| tail ||| prefixes) &&& AHAS_MULTI_PRE_LEN = prefixes &&& AHAS_MULTI_PRE_LEN := by
  rcases hhead with rfl | rfl <;> rcases htail with rfl | rfl | rfl <;>
    rcases hprefixes with rfl | rfl | rfl <;> decide

theorem getPrefixFlags_cases (b : PbbAddressBlock f) :
    b.getPrefixFlags = 0 ∨ b.getPrefixFlags = AHAS_SINGLE_PRE_LEN ∨
      b.getPrefixFlags = AHAS_MULTI_PRE_LEN := by
  rw [PbbAddressBlock.getPrefixFlags]
  split
  · exact Or.inl rfl
  · exact Or.inr (Or.inl rfl)
  · exact Or.inr (Or.inr rfl)

theorem flags_spec (b : PbbAddressBlock f) :
    b.flags &&& AHAS_HEAD = (if 0 < b.headTail.headlen then AHAS_HEAD else 0) ∧
      b.flags &&& AHAS_FULL_TAIL =
      (if 0 < b.headTail.taillen ∧ ¬hasZeroTail b.headTail.tail then AHAS_FULL_TAIL else 0) ∧
      b.flags &&& AHAS_ZERO_TAIL =
      (if 0 < b.headTail.taillen ∧ hasZeroTail b.headTail.tail then AHAS_ZERO_TAIL else 0) ∧
      b.flags &&& AHAS_SINGLE_PRE_LEN = b.getPrefixFlags &&& AHAS_SINGLE_PRE_LEN ∧
      b.flags &&& AHAS_MULTI_PRE_LEN = b.getPrefixFlags &&& AHAS_MULTI_PRE_LEN := by
  have hhead : (if 0 < b.headTail.headlen then AHAS_HEAD else 0) = 0 ∨
      (if 0 < b.headTail.headlen then AHAS_HEAD else 0) = AHAS_HEAD := by
    split
    · exact Or.inr rfl
    · exact Or.inl rfl
  have htail : ∀ long zero : Prop, ∀ [Decidable long] [Decidable zero],
      (if long then if zero then AHAS_ZERO_TAIL else AHAS_FULL_TAIL else 0) = 0 ∨
        (if long then if zero then AHAS_ZERO_TAIL else AHAS_FULL_TAIL else 0) = AHAS_ZERO_TAIL ∨
          (if long then if zero then AHAS_ZERO_TAIL else AHAS_FULL_TAIL else 0) =
            AHAS_FULL_TAIL := by
    intro long zero _ _
    split
    · split
      · exact Or.inr (Or.inl rfl)
      · exact Or.inr (Or.inr rfl)
    · exact Or.inl rfl
  obtain ⟨h₁, h₂, h₃, h₄, h₅⟩ :=
    flags_bits hhead (htail (0 < b.headTail.taillen) (hasZeroTail b.headTail.tail))
    (getPrefixFlags_cases b)
  have hfull : AHAS_ZERO_TAIL &&& AHAS_FULL_TAIL = 0 := by decide
  have hzeros : AHAS_FULL_TAIL &&& AHAS_ZERO_TAIL = 0 := by decide
  refine ⟨h₁, h₂.trans ?_, h₃.trans ?_, h₄, h₅⟩
  · by_cases hlong : 0 < b.headTail.taillen <;> by_cases hzero : hasZeroTail b.headTail.tail <;>
      simp [hlong, hzero, hfull]
  · by_cases hlong : 0 < b.headTail.taillen <;> by_cases hzero : hasZeroTail b.headTail.tail <;>
      simp [hlong, hzero, hzeros]

theorem reads_byte (x : UInt8) : Reads readU8 [x] x := by
  have h := reads_U8 x
  have hone : le 1 x.toNat = [x] := by rw [le, le, UInt8.ofNat_toNat]
  rwa [hone] at h

theorem reads_length {n : ℕ} (small : n < 256) {β : Type} {r : ℕ → Reader β}
    {bs : List UInt8} {a : β}
    (rest : Reads (r n) bs a) : Reads (readU8 >>= fun x => r x.toNat) (.ofNat n :: bs) a := by
  have hn : (UInt8.ofNat n).toNat = n := by
    rw [UInt8.toNat_ofNat']
    exact Nat.mod_eq_of_lt small
  exact (reads_byte (.ofNat n)).bind (by rwa [hn])

section RoundTrip

variable {b : PbbAddressBlock f}

theorem reads_head (sized : b.headTail.head.length = b.headTail.headlen)
    (small : b.headTail.headlen < 256) : Reads (readHead b.flags) b.headPart b.headTail.head := by
  rw [readHead, PbbAddressBlock.headPart, (flags_spec b).1]
  by_cases hpos : 0 < b.headTail.headlen
  · rw [if_pos hpos, if_pos (by decide), if_pos hpos]
    refine reads_length small ?_
    rw [← sized]
    exact reads_takeBytes _
  · have hnil : b.headTail.head = [] := length_eq_zero_iff.mp (by omega)
    rw [if_neg hpos, if_neg (by decide), if_neg hpos, hnil]
    exact reads_pure []

theorem eq_replicate_of_hasZeroTail {tail : List UInt8} (zero : hasZeroTail tail = true) :
    replicate tail.length 0 = tail := by
  refine (eq_replicate_iff.mpr ⟨rfl, fun x hx => ?_⟩).symm
  exact eq_of_beq (all_eq_true.mp zero x hx)

theorem reads_tail (sized : b.headTail.tail.length = b.headTail.taillen)
    (small : b.headTail.taillen < 256) : Reads (readTail b.flags) b.tailPart b.headTail.tail := by
  rw [readTail, PbbAddressBlock.tailPart, (flags_spec b).2.1, (flags_spec b).2.2.1]
  by_cases hpos : 0 < b.headTail.taillen
  · cases hzero : hasZeroTail b.headTail.tail with
    | true =>
      have hreplicate := eq_replicate_of_hasZeroTail hzero
      simp only [hpos, not_true, and_false, and_true, if_true, if_false]
      rw [if_pos (by decide)]
      refine reads_length (r := fun n => if (0 : UInt8) ≠ 0 then takeBytes n
        else pure (replicate n 0)) small ?_
      rw [if_neg (by decide), ← sized, hreplicate]
      exact reads_pure _
    | false =>
      simp only [hpos, Bool.false_eq_true, not_false_iff, and_false, and_true, if_true, if_false]
      rw [if_pos (by decide)]
      refine reads_length (r := fun n => if AHAS_FULL_TAIL ≠ 0 then takeBytes n
        else pure (replicate n 0)) small ?_
      rw [if_pos (by decide), ← sized]
      exact reads_takeBytes _
  · have hnil : b.headTail.tail = [] := length_eq_zero_iff.mp (by omega)
    rw [hnil]
    simp only [hpos, false_and, if_false]
    rw [if_neg (by decide)]
    exact reads_pure []

theorem reads_middle {head tail : List UInt8} {a : Address f} (hhead : head <+: a.val)
    (htail : tail <:+ a.val) (fits : head.length + tail.length ≤ f.getAddressLength) :
    Reads (readMiddle f head tail)
      ((a.val.drop head.length).take (f.getAddressLength - head.length - tail.length)) a := by
  obtain ⟨behind, hbehind⟩ := hhead
  have hlen := a.property
  have hdrop : a.val.drop head.length = behind := by rw [← hbehind, drop_left]
  have hback : a.val.length = head.length + behind.length := by rw [← hbehind, length_append]
  have hsuffix : tail <:+ behind := by
    refine suffix_of_suffix_length_le htail ?_ (by omega)
    exact ⟨head, hbehind⟩
  obtain ⟨mid, hmid⟩ := hsuffix
  have hmidlen : behind.length = mid.length + tail.length := by rw [← hmid, length_append]
  have htake : (a.val.drop head.length).take (f.getAddressLength - head.length - tail.length) =
      mid := by
    rw [hdrop, ← hmid, show f.getAddressLength - head.length - tail.length = mid.length by
      omega, take_left]
  have hwhole : head ++ mid ++ tail = a.val := by rw [append_assoc, hmid, hbehind]
  have hback : deserializeAddress f (head ++ mid ++ tail) = some a := by
    rw [hwhole, deserializeAddress, dif_pos hlen]
  rw [htake]
  intro rest
  have hread := reads_takeBytes mid rest
  rw [show mid.length = f.getAddressLength - head.length - tail.length by omega] at hread
  rw [readMiddle, StateT.run_bind, hread]
  change StateT.run (match deserializeAddress f (head ++ mid ++ tail) with
    | some address => pure address
    | none => failure) rest = _
  rw [hback]
  rfl

end RoundTrip

theorem length_readAddresses {numaddr flags : UInt8} {bs rest : List UInt8}
    {addresses : List (Address f)}
    (h : (readAddresses f).run (numaddr :: bs) = some ((flags, addresses), rest)) :
      addresses.length = numaddr.toNat := by
  rw [readAddresses, ← singleton_append, (reads_byte numaddr).run_bind] at h
  obtain ⟨flags', left, -, h⟩ := run_bind_inv h
  by_cases hpos : 0 < numaddr.toNat
  · rw [if_pos hpos] at h
    obtain ⟨head, left₁, -, h⟩ := run_bind_inv h
    obtain ⟨tail, left₂, -, h⟩ := run_bind_inv h
    by_cases hfits : f.getAddressLength < head.length + tail.length
    · rw [if_pos hfits] at h
      cases h
    · rw [if_neg hfits] at h
      obtain ⟨read, left₃, hread, h⟩ := run_bind_inv h
      obtain ⟨-, rfl⟩ := Prod.ext_iff.mp (run_pure_inv h)
      exact length_readMany hread
  · rw [if_neg hpos] at h
    obtain ⟨-, rfl⟩ := Prod.ext_iff.mp (run_pure_inv h)
    exact (Nat.eq_zero_of_not_pos hpos).symm

namespace PbbAddressBlock

variable (b : PbbAddressBlock f)

/-- Head and tail are parts of every address, and the addresses are read back. -/
structure Compresses : Prop where
  fits : b.headTail.headlen + b.headTail.taillen ≤ f.getAddressLength
  head : b.headTail.head.length = b.headTail.headlen ∧ ∀ a ∈ b.addresses, b.headTail.head <+: a
  tail : b.headTail.tail.length = b.headTail.taillen ∧ ∀ a ∈ b.addresses, b.headTail.tail <:+ a
  decodes : ∀ before rest, ∃ flags, (readAddresses f).run (b.serialize before ++ rest) =
    some ((flags, b.m_addressList), b.m_prefixList ++ rest)

end PbbAddressBlock

section Decode

variable {b : PbbAddressBlock f}

theorem Family.getAddressLength_pos (f : Family) : 0 < f.getAddressLength ∧
    f.getAddressLength < 256 := by
  cases f <;> decide

theorem sized (b : PbbAddressBlock f) : ∀ a ∈ b.addresses, a.length = f.getAddressLength := by
  intro a ha
  obtain ⟨a, -, rfl⟩ := mem_map.mp ha
  exact a.property

theorem serialize_several (several : 2 ≤ b.m_addressList.length) (before : UInt8) :
    b.serialize before = .ofNat b.addressSize :: b.flags :: b.headPart ++ b.tailPart ++
      b.middlePart ++ b.m_prefixList := by
  have hlen : 2 ≤ b.addresses.length := by rwa [PbbAddressBlock.addresses, length_map]
  rw [PbbAddressBlock.serialize]
  split
  · rename_i hnil
    rw [hnil] at hlen
    exact absurd hlen (by simp)
  · rename_i hone
    rw [hone] at hlen
    exact absurd hlen (by simp)
  · rfl

theorem reads_addresses (several : 2 ≤ b.m_addressList.length) (few : b.m_addressList.length < 256)
    (fits : b.headTail.headlen + b.headTail.taillen ≤ f.getAddressLength)
    (head : b.headTail.head.length = b.headTail.headlen ∧ ∀ a ∈ b.addresses, b.headTail.head <+: a)
    (tail : b.headTail.tail.length = b.headTail.taillen ∧
      ∀ a ∈ b.addresses, b.headTail.tail <:+ a) :
    Reads (readAddresses f)
    (.ofNat b.addressSize :: b.flags :: (b.headPart ++ (b.tailPart ++ b.middlePart)))
      (b.flags, b.m_addressList) := by
  have hbound := f.getAddressLength_pos.2
  have hmiddle : b.middlePart = b.m_addressList.flatMap fun a =>
      (a.val.drop b.headTail.head.length).take
        (f.getAddressLength - b.headTail.head.length - b.headTail.tail.length) := by
    rw [PbbAddressBlock.middlePart, head.1, tail.1]
    by_cases hlt : b.headTail.headlen + b.headTail.taillen < f.getAddressLength
    · rw [if_pos hlt, PbbAddressBlock.addresses, flatMap_map]
    · rw [if_neg hlt, show f.getAddressLength - b.headTail.headlen - b.headTail.taillen = 0 by
        omega]
      simp
  have hcount : (UInt8.ofNat b.addressSize).toNat = b.m_addressList.length := by
    rw [UInt8.toNat_ofNat']
    exact Nat.mod_eq_of_lt few
  refine (reads_byte _).bind ((reads_byte b.flags).bind ?_)
  rw [hcount, if_pos (by omega)]
  refine (reads_head head.1 (by omega)).bind ((reads_tail tail.1 (by omega)).bind ?_)
  rw [if_neg (by omega), hmiddle, ← append_nil (b.m_addressList.flatMap _)]
  refine (reads_many_of_mem fun a ha => ?_).bind (reads_pure _)
  have hmem : a.val ∈ b.addresses := mem_map_of_mem ha
  exact reads_middle (head.2 _ hmem) (tail.2 _ hmem) (by omega)

theorem few_of_decodes {before flags : UInt8} {rest left : List UInt8}
    (several : 2 ≤ b.m_addressList.length) (h : (readAddresses f).run (b.serialize before ++ rest) =
      some ((flags, b.m_addressList), left)) :
    b.m_addressList.length < 256 := by
  rw [serialize_several several] at h
  have hlen := length_readAddresses h
  rw [hlen]
  exact (UInt8.ofNat b.addressSize).toNat_lt

end Decode

theorem suffix_iff {l : List (List UInt8)} {len n : ℕ} (sized : ∀ a ∈ l, a.length = len)
    {x : List UInt8} (hx : x ∈ l)
    (hn : n ≤ len) : (∀ a ∈ l, (x.drop (len - n)).take n <:+ a) ↔ n ≤ commonTail l := by
  have hall : ∀ a ∈ l, (a.drop (len - n)).take n = a.drop (len - n) ∧
      a.reverse.take n = (a.drop (len - n)).reverse := by
    intro a ha
    have hlen : (a.drop (len - n)).length = n := by
      rw [length_drop, sized a ha]
      omega
    refine ⟨take_of_length_le hlen.le, ?_⟩
    rw [take_reverse, sized a ha]
  have hne : l.map List.reverse ≠ [] := ne_nil_of_mem (mem_map_of_mem hx)
  rw [commonTail, le_common_iff hne, (hall x hx).1]
  constructor
  · intro h
    have hsame : ∀ a ∈ l, a.reverse.take n = (x.drop (len - n)).reverse := by
      intro a ha
      obtain ⟨front, hfront⟩ := h a ha
      have hlen : (x.drop (len - n)).length = n := by
        rw [length_drop, sized x hx]
        omega
      rw [← hfront, reverse_append, take_append_of_le_length (by rw [length_reverse, hlen]),
        take_of_length_le (by rw [length_reverse, hlen])]
    constructor
    · intro a' ha'
      obtain ⟨a, ha, rfl⟩ := mem_map.mp ha'
      rw [length_reverse, sized a ha]
      exact hn
    · intro a' ha' c' hc'
      obtain ⟨a, ha, rfl⟩ := mem_map.mp ha'
      obtain ⟨c, hc, rfl⟩ := mem_map.mp hc'
      rw [hsame a ha, hsame c hc]
  · rintro ⟨-, hcommon⟩ a ha
    have htake := hcommon _ (mem_map_of_mem hx) _ (mem_map_of_mem ha)
    rw [(hall x hx).2, (hall a ha).2] at htake
    rw [reverse_injective htake]
    exact drop_suffix _ _

/-- Addresses in a block are compressed rightly just when they are at most 255, not all the same,
and the last two have no longer tail in common than all of them, or head and tail in common leave
one byte. -/
theorem compresses_iff (b : PbbAddressBlock f) (several : 2 ≤ b.m_addressList.length) :
    b.Compresses ↔ b.m_addressList.length < 256 ∧ (∃ x ∈ b.addresses, ∃ y ∈ b.addresses, x ≠ y) ∧
      (commonTail (b.addresses.drop (b.addresses.length - 2)) = commonTail b.addresses ∨
        commonHead b.addresses + commonTail b.addresses + 1 = f.getAddressLength) := by
  have hpos := f.getAddressLength_pos.1
  have hlen : 2 ≤ b.addresses.length := by rwa [PbbAddressBlock.addresses, length_map]
  obtain ⟨x, hx, headlen, taillen, hrun, hnarrowed⟩ := getHeadTail_spec hpos (sized b) hlen
  have hheadTail : b.headTail =
    ⟨x.take headlen, headlen, (x.drop (f.getAddressLength - taillen)).take taillen, taillen⟩ :=
    hrun
  have hxlen := sized b x hx
  have hhead := hnarrowed.head
  have hle : headlen ≤ f.getAddressLength := by
    rw [hhead, ← hxlen]
    exact common_le hx
  -- The addresses differ just when the head is not a whole address.
  have hdiffer : (∃ x ∈ b.addresses, ∃ y ∈ b.addresses, x ≠ y) ↔ headlen < f.getAddressLength := by
    constructor
    · rintro ⟨y, hy, z, hz, hne⟩
      by_contra hwhole
      have htake : y.take headlen = z.take headlen := take_common hy hz hhead.le
      rw [take_of_length_le (by rw [sized b y hy]; omega),
        take_of_length_le (by rw [sized b z hz]; omega)] at htake
      exact hne htake
    · intro hlt
      by_contra hall
      push Not at hall
      have hwhole : f.getAddressLength ≤ commonHead b.addresses :=
        (le_common_iff (ne_nil_of_mem hx)).mpr
        ⟨fun y hy => (sized b y hy).ge, fun y hy z hz => by rw [hall y hy z hz]⟩
      omega
  obtain ⟨q, y, z, hsplit⟩ : ∃ q y z, b.addresses = q ++ [y, z] := by
    refine ⟨b.addresses.take (b.addresses.length - 2), ?_⟩
    obtain ⟨y, z, hyz⟩ := length_eq_two.mp
      (show (b.addresses.drop (b.addresses.length - 2)).length = 2 by rw [length_drop]; omega)
    exact ⟨y, z, by rw [← hyz, take_append_drop]⟩
  have hlast : b.addresses.drop (b.addresses.length - 2) = [y, z] := by
    rw [hsplit, length_append, length_cons, length_cons, length_nil, Nat.add_sub_cancel, drop_left]
  rw [hlast]
  constructor
  · intro h
    have hfits := h.fits
    have htail := h.tail.2
    rw [hheadTail] at hfits htail
    dsimp only at hfits htail
    have hlt : headlen < f.getAddressLength := by
      by_contra hge
      have hwhole := hnarrowed.whole (by omega)
      omega
    have hshort := (suffix_iff (sized b) hx (show taillen ≤ f.getAddressLength by omega)).mp htail
    obtain ⟨flags, hdecode⟩ := h.decodes 0 []
    exact ⟨few_of_decodes several hdecode, hdiffer.mpr hlt,
      (hnarrowed.exact_iff q y z hsplit hlt).mp (le_antisymm hshort (hnarrowed.tail_le hlt))⟩
  · rintro ⟨few, differ, hexact⟩
    have hlt := hdiffer.mp differ
    have happart := hnarrowed.apart hlt
    have htail := (hnarrowed.exact_iff q y z hsplit hlt).mpr hexact
    have hfits : b.headTail.headlen + b.headTail.taillen ≤ f.getAddressLength := by
      rw [hheadTail]
      exact happart.le
    have hheads : b.headTail.head.length = b.headTail.headlen ∧
        ∀ a ∈ b.addresses, b.headTail.head <+: a := by
      rw [hheadTail]
      refine ⟨length_take_of_le (by omega), fun a ha => ?_⟩
      have htake : x.take headlen = a.take headlen := take_common hx ha hhead.le
      change x.take headlen <+: a
      rw [htake]
      exact take_prefix _ _
    have htails : b.headTail.tail.length = b.headTail.taillen ∧
        ∀ a ∈ b.addresses, b.headTail.tail <:+ a := by
      rw [hheadTail]
      refine ⟨length_take_of_le (by rw [length_drop]; omega), ?_⟩
      exact (suffix_iff (sized b) hx (by omega)).mpr htail.le
    refine ⟨hfits, hheads, htails, fun before rest => ⟨b.flags, ?_⟩⟩
    have hread := reads_addresses several few hfits hheads htails (b.m_prefixList ++ rest)
    rw [serialize_several several]
    simp only [cons_append, append_assoc] at hread ⊢
    exact hread

def neighbours : PbbAddressBlock .ipv4 :=
  ⟨[⟨[10, 1, 0, 5], rfl⟩, ⟨[10, 2, 0, 5], rfl⟩, ⟨[10, 3, 7, 5], rfl⟩], []⟩

theorem compresses_iff_neighbours :
    neighbours.headTail.head = [10] ∧ neighbours.headTail.tail = [5] ∧ neighbours.Compresses :=
  ⟨by decide, by decide,
    (compresses_iff neighbours (by decide)).mpr ⟨by decide, by decide, by decide⟩⟩

def repeated : PbbAddressBlock .ipv4 :=
  ⟨[⟨[1, 2, 3, 4], rfl⟩, ⟨[5, 6, 7, 4], rfl⟩, ⟨[5, 6, 7, 4], rfl⟩], []⟩

/-- The tail gets a byte that the first address does not have. -/
theorem repeated_tail : 2 ≤ repeated.m_addressList.length ∧ repeated.headTail.tail =
    [7, 4] ∧ ¬repeated.Compresses :=
  ⟨by decide, by decide, fun h => absurd (h.tail.2 [1, 2, 3, 4] (by decide)) (by decide)⟩

end Egsr.Network.AddressBlock
