import Egsr.Internet.Ipv6AddressText
import Egsr.Lib.Outcome

/-! `AsciiToIpv6Host`, character by character with its buffer. It denotes what
the text denotes, but for a text that has one more colon at its end. -/

namespace Egsr.Internet.Ipv6AddressText

open Lib.Bytes Lib.BitFields Lib.Outcome List

/-- The characters in front of the terminator. -/
structure CString where
  chars : List UInt8
  nonzero : 0 ∉ chars
deriving DecidableEq

inductive Exit where
  /-- `return (0)` -/
  | refused
  /-- An access outside of `tmp`. -/
  | outside
deriving DecidableEq

/-- With its terminator, as `strchr` sees it. -/
def xdigits_l : List UInt8 :=
  [0x30, 0x31, 0x32, 0x33, 0x34, 0x35, 0x36, 0x37, 0x38, 0x39, 0x61, 0x62, 0x63, 0x64, 0x65,
    0x66, 0]

def xdigits_u : List UInt8 :=
  [0x30, 0x31, 0x32, 0x33, 0x34, 0x35, 0x36, 0x37, 0x38, 0x39, 0x41, 0x42, 0x43, 0x44, 0x45,
    0x46, 0]

def strchr (s : List UInt8) (ch : UInt8) : Option ℕ := s.idxOf? ch

def xdigit (ch : UInt8) : Option ℕ := (strchr xdigits_l ch).or (strchr xdigits_u ch)

/-- The local variables; `tp` and `colonp` are places in `tmp`. -/
structure Scan where
  tmp : Block 16
  tp : ℕ
  colonp : Option ℕ
  seen_xdigits : ℕ
  val : UInt32
deriving DecidableEq

def Scan.start : Scan := ⟨Ipv6Address.zeros, 0, none, 0, 0⟩

def peek (tmp : Block 16) (i : ℕ) : Except Exit UInt8 :=
  if h : i < tmp.1.length then .ok tmp.1[i] else .error .outside

def poke (tmp : Block 16) (i : ℕ) (b : UInt8) : Except Exit (Block 16) :=
  if i < 16 then .ok ⟨tmp.1.set i b, by rw [length_set, tmp.2]⟩ else .error .outside

/-- `*tp++ = (unsigned char)(val >> 8) & 0xff; *tp++ = (unsigned char) val & 0xff;` -/
def Scan.put (s : Scan) : Except Exit Scan :=
  if 16 - s.tp < 2 then .error .refused
  else do
    let tmp ← poke s.tmp s.tp ((s.val >>> 8).toUInt8 &&& 0xff)
    let tmp ← poke tmp (s.tp + 1) (s.val.toUInt8 &&& 0xff)
    pure { s with tmp, tp := s.tp + 2 }

def Scan.round (s : Scan) (ch : UInt8) : Except Exit Scan :=
  match xdigit ch with
  | some digit =>
    let s := { s with val := s.val <<< 4 ||| .ofNat digit, seen_xdigits := s.seen_xdigits + 1 }
    if s.seen_xdigits > 4 then .error .refused else .ok s
  | none =>
    if ch = colon then
      if s.seen_xdigits = 0 then
        if s.colonp.isSome then .error .refused else .ok { s with colonp := some s.tp }
      else do
        let s ← s.put
        pure { s with seen_xdigits := 0, val := 0 }
    else .error .refused

/-- `endp[-i] = colonp[n - i]; colonp[n - i] = 0;` -/
def shiftRound (colonp n : ℕ) (tmp : Block 16) (i : ℕ) : Except Exit (Block 16) :=
  if 16 < i ∨ n < i then .error .outside
  else do
    let b ← peek tmp (colonp + (n - i))
    let tmp ← poke tmp (16 - i) b
    poke tmp (colonp + (n - i)) 0

def Scan.shift (s : Scan) : Except Exit Scan :=
  match s.colonp with
  | none => .ok s
  | some colonp =>
    if s.tp = 16 then .error .refused
    else do
      let n := s.tp - colonp
      let tmp ← (List.range' 1 n).foldlM (shiftRound colonp n) s.tmp
      pure { s with tmp, tp := 16 }

def Scan.finish (s : Scan) : Except Exit Ipv6Address := do
  let s ← if s.seen_xdigits = 0 then .ok s else s.put
  let s ← s.shift
  if s.tp = 16 then pure s.tmp else .error .refused

/-- Leading :: requires some special handling. -/
def skipLeading (address : List UInt8) : Except Exit (List UInt8) :=
  if address.head? = some colon then
    if address.tail.head? = some colon then .ok address.tail else .error .refused
  else .ok address

def parse (address : List UInt8) : Except Exit Ipv6Address := do
  let chars ← skipLeading address
  let s ← chars.foldlM Scan.round .start
  s.finish

def asciiToIpv6Host (address : CString) (addr : Ipv6Address) : Except Exit (Bool × Ipv6Address) :=
  match parse address.chars with
  | .ok tmp => .ok (true, tmp)
  | .error .refused => .ok (false, addr)
  | .error .outside => .error .outside

theorem xdigit_eq (ch : UInt8) (nonzero : ch ≠ 0) : xdigit ch = hexValue ch := by
  by_cases hdigit : ch.toNat ∈ List.range' 0x30 10 ++ (List.range' 0x61 6 ++ List.range' 0x41 6)
  · have hall : ∀ n ∈ List.range' 0x30 10 ++ (List.range' 0x61 6 ++ List.range' 0x41 6),
        xdigit (.ofNat n) = hexValue (.ofNat n) := by decide +kernel
    have hch := hall ch.toNat hdigit
    rwa [UInt8.ofNat_toNat] at hch
  · have hall : ∀ x ∈ xdigits_l ++ xdigits_u,
        x = 0 ∨ x.toNat ∈ List.range' 0x30 10 ++ (List.range' 0x61 6 ++ List.range' 0x41 6) := by
          decide +kernel
    have hnot : ch ∉ xdigits_l ++ xdigits_u := fun hmem => (hall ch hmem).elim nonzero hdigit
    have houtside : ∀ {low high : UInt8}, (low.toNat ≤ ch.toNat → high.toNat + 1 ≤ ch.toNat) →
      ¬(low ≤ ch ∧ ch ≤ high) :=
      fun h hin => Nat.not_le.mpr (Nat.lt_succ_of_le (UInt8.le_iff_toNat_le.mp hin.2))
        (h (UInt8.le_iff_toNat_le.mp hin.1))
    rw [mem_append, not_or] at hnot
    simp only [mem_append, mem_range'_1, not_or, not_and, Nat.not_lt] at hdigit
    rw [xdigit, strchr, strchr, List.idxOf?_eq_none_iff.mpr hnot.1,
      List.idxOf?_eq_none_iff.mpr hnot.2, hexValue,
      if_neg (@houtside 0x30 0x39 hdigit.1), if_neg (@houtside 0x61 0x66 hdigit.2.1),
        if_neg (@houtside 0x41 0x46 hdigit.2.2)]
    rfl

theorem poke_ok {tmp : Block 16} {i : ℕ} (b : UInt8) (inside : i < 16) :
    ∃ tmp', poke tmp i b = .ok tmp' ∧ tmp'.1 = tmp.1.set i b := ⟨_, if_pos inside, rfl⟩

theorem set_middle {A C : List UInt8} {x : UInt8} {i : ℕ} (b : UInt8) (at_i : i = A.length) :
    (A ++ x :: C).set i b = A ++ b :: C := by
  subst at_i
  rw [set_append_right _ _ le_rfl, Nat.sub_self, set_cons_zero]

theorem toUInt8_eq {val : UInt32} {v : ℕ} (h : val.toNat = v) :
    val.toUInt8 &&& 0xff = .ofNat v ∧ (val >>> 8).toUInt8 &&& 0xff = .ofNat (v / 256) := by
  subst h
  have hlow : ∀ x : UInt32, x.toUInt8 &&& 0xff = .ofNat x.toNat := fun x => by
    apply UInt8.toNat_inj.mp
    rw [UInt8.toNat_and, UInt32.toNat_toUInt8, UInt8.toNat_ofNat']
    exact (and_low _ 8).trans (Nat.mod_mod _ _)
  refine ⟨hlow val, ?_⟩
  rw [hlow, UInt32.toNat_shiftRight]
  exact congrArg UInt8.ofNat (Nat.shiftRight_eq_div_pow _ _)

theorem val_next {val : UInt32} {v d : ℕ} (h : val.toNat = v) (small : v < 16 ^ 4)
    (digit : d < 16) : (val <<< 4 ||| .ofNat d).toNat = 16 * v + d := by
  subst h
  rw [UInt32.toNat_or, UInt32.toNat_shiftLeft, UInt32.toNat_ofNat']
  change (val.toNat <<< 4 % 2 ^ 32) ||| (d % 2 ^ 32) = _
  have hshift : val.toNat <<< 4 = 16 * val.toNat := by rw [Nat.shiftLeft_eq]; omega
  rw [Nat.mod_eq_of_lt (by omega), Nat.mod_eq_of_lt (by omega),
    ← Nat.shiftLeft_add_eq_or_of_lt digit, hshift]

/-! ## The state that belongs to a text -/

/-- The buffer has the groups of the text, and `colonp` stands for its double colon. -/
structure Filled (t : Text) (s : Scan) : Prop where
  tmp : s.tmp.1 = bytesOf t.groups ++ replicate (16 - 2 * t.groups.length) 0
  tp : s.tp = 2 * t.groups.length
  colonp : s.colonp = t.after.map fun _ => 2 * t.before.length

structure Shows (t : Text) (s : Scan) : Prop extends Filled t s where
  fits : t.Fits
  seen_xdigits : s.seen_xdigits = t.digits.length
  val : s.val.toNat = groupValue t.digits

variable {t : Text} {s : Scan}

theorem shows_start : Shows .empty .start := ⟨⟨rfl, rfl, rfl⟩, Text.fits_empty, rfl, rfl⟩

theorem colonp_close (t : Text) : (t.close.after.map fun _ => 2 * t.close.before.length) =
    t.after.map fun _ => 2 * t.before.length := by
  obtain ⟨before, after, digits⟩ := t
  cases after <;> rfl

theorem Shows.put (h : Shows t s) : Follows Filled .refused
    (if t.groups.length < 8 then some t.close else none) s.put := by
  have htp := h.tp
  have hlength := length_bytesOf t.groups
  rw [Scan.put]
  by_cases hroom : t.groups.length < 8
  · rw [if_pos hroom, if_neg (by omega), (toUInt8_eq h.val).1, (toUInt8_eq h.val).2]
    have hrest : replicate (16 - 2 * t.groups.length) (0 : UInt8) =
        0 :: 0 :: replicate (16 - 2 * t.close.groups.length) 0 := by
      rw [Text.groups_close, length_append, length_singleton, ← replicate_succ, ← replicate_succ]
      congr 1
      omega
    obtain ⟨tmp₁, hpoke₁, htmp₁⟩ :=
      @poke_ok s.tmp s.tp (.ofNat (groupValue t.digits / 256)) (by omega)
    obtain ⟨tmp₂, hpoke₂, htmp₂⟩ :=
      @poke_ok tmp₁ (s.tp + 1) (.ofNat (groupValue t.digits)) (by omega)
    rw [h.tmp, hrest, set_middle _ (htp.trans hlength.symm), append_cons] at htmp₁
    rw [htmp₁, set_middle _ (by rw [length_append, hlength, htp]; rfl)] at htmp₂
    rw [hpoke₁]
    change Follows Filled .refused _ (poke tmp₁ (s.tp + 1) _ >>= fun tmp => pure _)
    rw [hpoke₂]
    refine ⟨?_, ?_, ?_⟩
    · change tmp₂.1 = _
      rw [htmp₂, Text.groups_close, bytesOf_append]
      simp [bytesOf, groupBytes]
    · change s.tp + 2 = _
      rw [htp, Text.groups_close, length_append]
      rfl
    · exact h.colonp.trans (colonp_close t).symm
  · rw [if_neg hroom, if_pos (by omega)]
    rfl

theorem Shows.round (h : Shows t s) {ch : UInt8} (nonzero : ch ≠ 0) :
    Follows Shows .refused (t.read ch) (s.round ch) := by
  have hseen := h.seen_xdigits
  rw [Scan.round, xdigit_eq ch nonzero]
  cases hdigit : hexValue ch with
  | some digit =>
    have hread : t.read ch = if t.digits.length < 4 then some { t with digits := t.digits ++ [ch] }
        else none := by
      rw [Text.read, hdigit, if_pos Option.isSome_some]
    dsimp only
    by_cases hfour : t.digits.length < 4
    · rw [if_pos hfour] at hread
      rw [hread, if_neg (by omega)]
      have hlt := groupValue_lt t.digits
      have hpow : 16 ^ t.digits.length ≤ 16 ^ 4 := Nat.pow_le_pow_right (by decide) hfour.le
      have hch := hexValue_lt ch
      rw [hdigit] at hch
      refine ⟨⟨h.tmp, h.tp, h.colonp⟩, (h.fits.read hread).1, ?_, ?_⟩
      · change s.seen_xdigits + 1 = (t.digits ++ [ch]).length
        rw [hseen, length_append, length_singleton]
      · rw [groupValue_concat, hdigit]
        exact val_next h.val (by omega) hch
    · rw [hread, if_neg hfour, if_pos (by omega)]
      rfl
  | none =>
    have hread : t.read ch = if ch = colon then
        if t.digits = [] then if t.after.isSome then none else some { t with after := some [] }
        else if t.groups.length < 8 then some t.close else none
      else none := by
      rw [Text.read, hdigit]
      rfl
    dsimp only
    by_cases hcolon : ch = colon
    · rw [if_pos hcolon] at hread ⊢
      by_cases hdigits : t.digits = []
      · rw [if_pos hdigits] at hread
        have hnone : s.seen_xdigits = 0 := by rw [hseen, hdigits]; rfl
        have hcolonp : s.colonp.isSome = t.after.isSome := by rw [h.colonp, Option.isSome_map]
        rw [if_pos hnone, hcolonp]
        by_cases hafter : t.after.isSome
        · rw [hread, if_pos hafter, if_pos hafter]
          rfl
        · rw [if_neg hafter] at hread
          rw [hread, if_neg hafter]
          have hgroups : ({ t with after := some [] } : Text).groups = t.groups := by
            rw [Text.groups, Text.groups, Option.not_isSome_iff_eq_none.mp hafter]
            rfl
          have hbefore : t.groups = t.before := by
            rw [Text.groups, Option.not_isSome_iff_eq_none.mp hafter]
            exact append_nil _
          refine ⟨⟨?_, ?_, ?_⟩, (h.fits.read hread).1, hseen, h.val⟩
          · rw [hgroups]
            exact h.tmp
          · rw [hgroups]
            exact h.tp
          · exact congrArg some (h.tp.trans (by rw [hbefore]))
      · have hsome : s.seen_xdigits ≠ 0 := by
          rw [hseen]
          exact length_eq_zero_iff.not.mpr hdigits
        rw [if_neg hdigits] at hread
        rw [if_neg hsome]
        have hput := h.put
        rw [← hread] at hput
        by_cases hroom : t.groups.length < 8
        · rw [if_pos hroom] at hread
          rw [hread] at hput ⊢
          obtain ⟨s', hs', hfilled⟩ := hput.of_some
          rw [hs']
          refine ⟨⟨hfilled.tmp, hfilled.tp, hfilled.colonp⟩, (h.fits.read hread).1, ?_, ?_⟩
          · rw [Text.digits_close]
            rfl
          · rw [Text.digits_close]
            rfl
        · rw [if_neg hroom] at hread
          rw [hread] at hput ⊢
          rw [hput.of_none]
          rfl
    · rw [hread, if_neg hcolon, if_neg hcolon]
      rfl

/-! ## The shift -/

theorem peek_middle {A C : List UInt8} {x : UInt8} {tmp : Block 16} (h : tmp.1 = A ++ x :: C) :
    peek tmp A.length = .ok x := by
  have hin : A.length < tmp.1.length := by simp [h]
  rw [peek, dif_pos hin]
  simp [h]

theorem shiftRound_ok {A B C : List UInt8} {x : UInt8} {k : ℕ} {tmp : Block 16}
    (h : tmp.1 = A ++ (B ++ [x]) ++ replicate (k + 1) 0 ++ C) :
    ∃ tmp', shiftRound A.length (B.length + 1 + C.length) tmp (C.length + 1) = .ok tmp' ∧
      tmp'.1 = A ++ B ++ replicate (k + 1) 0 ++ x :: C := by
  have hsize : A.length + (B.length + 1) + (k + 1) + C.length = 16 := by
    rw [← tmp.2, h]
    simp
    omega
  have hfrom : tmp.1 = (A ++ B) ++ x :: (replicate (k + 1) 0 ++ C) := by rw [h]; simp
  have hplace : A.length + (B.length + 1 + C.length - (C.length + 1)) = (A ++ B).length := by
    rw [length_append]
    omega
  obtain ⟨tmp₁, hpoke₁, htmp₁⟩ := @poke_ok tmp (16 - (C.length + 1)) x (by omega)
  obtain ⟨tmp₂, hpoke₂, htmp₂⟩ := @poke_ok tmp₁ (A ++ B).length 0 (by rw [length_append]; omega)
  have hto : tmp.1 = (A ++ B ++ x :: replicate k 0) ++ 0 :: C := by rw [h]; simp [replicate_succ']
  rw [hto, set_middle x (by simp; omega)] at htmp₁
  have hmoved : tmp₁.1 = (A ++ B) ++ x :: (replicate k 0 ++ x :: C) := by rw [htmp₁]; simp
  rw [hmoved, set_middle 0 rfl] at htmp₂
  refine ⟨tmp₂, ?_, by rw [htmp₂]; simp [replicate_succ]⟩
  rw [shiftRound, if_neg (by omega), hplace, peek_middle hfrom]
  change (poke tmp _ x >>= _) = _
  rw [hpoke₁]
  exact hpoke₂

theorem shift_ok {A B C : List UInt8} {k n : ℕ} {tmp : Block 16}
    (h : tmp.1 = A ++ B ++ replicate (k + 1) 0 ++ C) (all : n = B.length + C.length) :
    ∃ tmp', (List.range' (C.length + 1) B.length).foldlM (shiftRound A.length n) tmp = .ok tmp' ∧
      tmp'.1 = A ++ replicate (k + 1) 0 ++ (B ++ C) := by
  induction B using List.reverseRecOn generalizing C tmp with
  | nil => exact ⟨tmp, rfl, by rw [h]; simp⟩
  | append_singleton B x ih =>
    obtain ⟨tmp₁, hround, htmp₁⟩ := shiftRound_ok h
    rw [length_append, length_singleton] at all
    obtain ⟨tmp₂, hrest, htmp₂⟩ := ih htmp₁ (by rw [all, length_cons]; omega)
    refine ⟨tmp₂, ?_, by rw [htmp₂]; simp⟩
    rw [length_append, length_singleton, List.range'_succ, foldlM_cons, all, hround]
    rw [all] at hrest
    exact hrest

theorem Filled.shift (h : Filled t s) (eight : t.groups.length ≤ 8) :
    Follows (fun bytes (a : Ipv6Address) => a.1 = bytes) .refused t.bytes
      (s.shift >>= fun s => if s.tp = 16 then pure s.tmp else .error .refused) := by
  have htmp := h.tmp
  have htp := h.tp
  have hcolonp := h.colonp
  rw [Scan.shift, Text.bytes]
  obtain ⟨before, after, digits⟩ := t
  cases after with
  | none =>
    have hgroups : (⟨before, none, digits⟩ : Text).groups = before := append_nil _
    rw [hgroups] at htmp htp
    rw [hcolonp]
    change Follows _ _ (if before.length = 8 then some (bytesOf before) else none)
      (if s.tp = 16 then pure s.tmp else .error Exit.refused)
    by_cases hfull : before.length = 8
    · rw [if_pos hfull, if_pos (by omega)]
      rw [hfull] at htmp
      exact htmp.trans (append_nil _)
    · rw [if_neg hfull, if_neg (by omega)]
      rfl
  | some after =>
    have hgroups : (⟨before, some after, digits⟩ : Text).groups = before ++ after := rfl
    rw [hgroups, length_append] at htp eight
    rw [hgroups, bytesOf_append, length_append] at htmp
    rw [hcolonp, hgroups, length_append]
    dsimp only [Option.map_some]
    by_cases hfull : before.length + after.length = 8
    · rw [if_pos hfull, if_pos (by omega)]
      rfl
    · rw [if_neg hfull, if_neg (by omega)]
      obtain ⟨k, hk⟩ : ∃ k, 16 - 2 * (before.length + after.length) = k + 1 :=
        ⟨_, (Nat.sub_add_cancel (by omega)).symm⟩
      have hzeros : 2 * (8 - (before.length + after.length)) = k + 1 := by omega
      rw [hk] at htmp
      have hmove :=
        @shift_ok (bytesOf before) (bytesOf after) [] k (bytesOf after).length s.tmp
          (htmp.trans (append_nil _).symm) rfl
      rw [length_bytesOf, length_bytesOf, length_nil] at hmove
      obtain ⟨tmp, hrun, hbytes⟩ := hmove
      have hn : s.tp - 2 * before.length = 2 * after.length := by omega
      rw [hn, hrun, hzeros]
      exact hbytes.trans (by rw [append_nil])

theorem Shows.finish (h : Shows t s) :
    Follows (fun bytes (a : Ipv6Address) => a.1 = bytes) .refused t.address s.finish := by
  have hseen := h.seen_xdigits
  rw [Text.address, Scan.finish]
  by_cases hdigits : t.digits = []
  · have hnone : s.seen_xdigits = 0 := by rw [hseen, hdigits]; rfl
    rw [if_pos hdigits, if_pos hnone]
    exact h.toFilled.shift h.fits.eight
  · have hsome : s.seen_xdigits ≠ 0 := by
      rw [hseen]
      exact length_eq_zero_iff.not.mpr hdigits
    rw [if_neg hdigits, if_neg hsome]
    have hput := h.put
    by_cases hroom : t.groups.length < 8
    · rw [if_pos hroom] at hput ⊢
      obtain ⟨s', hs', hfilled⟩ := hput.of_some
      rw [hs']
      exact hfilled.shift (h.fits.close hdigits hroom).eight
    · rw [if_neg hroom] at hput ⊢
      rw [hput.of_none]
      rfl

theorem written_eq (t : Text) : t.written = if t.before = [] ∧ t.after.isSome then colon :: t.chars
    else t.chars := by
  obtain ⟨before, after, digits⟩ := t
  cases after with
  | none => simp [Text.written, Text.chars]
  | some after => by_cases h : before = [] <;> simp [Text.written, Text.chars, lead, h, ended]

theorem AllHex.head {group rest : List UInt8} (h : AllHex group) (nonempty : group ≠ []) :
    (group ++ rest).head? ≠ some colon := by
  rw [List.head?_append_of_ne_nil _ nonempty]
  exact fun hhead => h.colon_notMem (mem_of_head? hhead)

theorem Text.Fits.head_iff (h : t.Fits) : t.chars.head? = some colon ↔ t.before =
    [] ∧ t.after.isSome := by
  have hgroups := h.groups
  have hhex := h.hex
  obtain ⟨before, after, digits⟩ := t
  cases before with
  | cons group before =>
    have hgroup : IsGroup group := hgroups group mem_cons_self
    have hchars : ∃ rest, (⟨group :: before, after, digits⟩ : Text).chars = group ++ rest := by
      cases after <;> simp [Text.chars, ended]
    obtain ⟨rest, hchars⟩ := hchars
    rw [hchars]
    exact iff_of_false (hgroup.hex.head hgroup.pos) fun hempty => cons_ne_nil _ _ hempty.1
  | nil =>
    cases after with
    | none =>
      change digits.head? = some colon ↔ _
      exact iff_of_false (fun hhead => AllHex.colon_notMem hhex (mem_of_head? hhead)) fun hsome =>
        Bool.false_ne_true hsome.2
    | some after => exact iff_of_true rfl ⟨rfl, rfl⟩

variable {chars : List UInt8}

theorem skipLeading_iff (h : t.Fits) : skipLeading chars = .ok t.chars ↔ t.written = chars := by
  have hwritten := written_eq t
  by_cases hleading : t.chars.head? = some colon
  · rw [hwritten, if_pos (h.head_iff.mp hleading)]
    constructor
    · intro hskip
      rw [skipLeading] at hskip
      split_ifs at hskip with hhead hsecond
      · obtain ⟨rest, rfl⟩ := List.head?_eq_some_iff.mp hhead
        exact congrArg (colon :: ·) (Except.ok.inj hskip).symm
      · exact absurd (Except.ok.inj hskip ▸ hleading) hhead
    · rintro rfl
      exact (if_pos rfl).trans (if_pos hleading)
  · rw [hwritten, if_neg (h.head_iff.not.mp hleading)]
    constructor
    · intro hskip
      rw [skipLeading] at hskip
      split_ifs at hskip with hhead hsecond
      · exact absurd (Except.ok.inj hskip ▸ hsecond) hleading
      · exact (Except.ok.inj hskip).symm
    · rintro rfl
      exact if_neg hleading

theorem skipLeading_spec (chars : List UInt8) :
    Ensures (skipLeading chars) (fun rest => ∀ ch ∈ rest, ch ∈ chars) (· = .refused) := by
  rw [skipLeading]
  split_ifs
  · exact fun ch => mem_of_mem_tail
  · rfl
  · exact fun ch => id

theorem scan_follows (nonzero : 0 ∉ chars) :
    Follows (fun bytes (a : Ipv6Address) => a.1 = bytes) .refused
    ((Text.reads chars).bind Text.address)
      (chars.foldlM Scan.round .start >>= Scan.finish) := by
  have hrounds : Follows Shows .refused (Text.reads chars) (chars.foldlM Scan.round .start) :=
    follows_foldlM shows_start chars fun t s h ch hch => h.round fun hzero => nonzero (hzero ▸ hch)
  exact hrounds.bind fun t s h => h.finish

/-- Just the texts of addresses are accepted. -/
structure AsClaimed (s : CString) : Prop where
  accepted : ∀ a addr, Denotes s.chars a → asciiToIpv6Host s addr = .ok (true, a)
  refused : ∀ addr, (∀ a, ¬Denotes s.chars a) → asciiToIpv6Host s addr = .ok (false, addr)

theorem parse_iff (nonzero : 0 ∉ chars) {a : Ipv6Address} :
    parse chars = .ok a ↔ Denotes chars a ∨ Trailing chars a := by
  constructor
  · intro hparse
    obtain ⟨rest, hskip, hrun⟩ := bind_ok_inv hparse
    have hspec := (skipLeading_spec chars).of_ok hskip
    have hfollows := scan_follows fun hzero => nonzero (hspec 0 hzero)
    rw [hrun] at hfollows
    obtain ⟨bytes, hbytes, rfl⟩ := hfollows.of_ok
    obtain ⟨t, ht, haddress⟩ := Option.bind_eq_some_iff.mp hbytes
    obtain ⟨hfits, rfl⟩ := Text.reads_iff.mp ht
    exact (skipLeading_iff hfits).mp hskip ▸ denotes_of_address hfits haddress
  · intro h
    obtain ⟨t, hfits, hwritten, haddress⟩ := h.elim address_of_denotes address_of_trailing
    have hskip := (skipLeading_iff hfits).mpr hwritten
    have hspec := (skipLeading_spec chars).of_ok hskip
    have hfollows := scan_follows fun hzero => nonzero (hspec 0 hzero)
    rw [Text.reads_iff.mpr ⟨hfits, rfl⟩, Option.bind_some, haddress] at hfollows
    obtain ⟨b, hrun, hb⟩ := hfollows.of_some
    rw [parse, hskip, ← Subtype.ext hb]
    exact hrun

theorem parse_error (nonzero : 0 ∉ chars) {e : Exit} (h : parse chars = .error e) :
    e = .refused := by
  have hensures : Ensures (parse chars) (fun _ => True) (· = .refused) := by
    refine (skipLeading_spec chars).bind fun rest hspec => ?_
    have hfollows := scan_follows fun hzero => nonzero (hspec 0 hzero)
    cases hrun : rest.foldlM Scan.round .start >>= Scan.finish with
    | ok a => trivial
    | error e' =>
      rw [hrun] at hfollows
      exact hfollows.of_error
  exact hensures.of_error h

/-- The parser stays in its buffer, and it does what it is to do unless the text has one more
colon. -/
theorem parsed_address (s : CString) :
    (∀ addr, ∃ out, asciiToIpv6Host s addr = .ok out) ∧
    (AsClaimed s ↔ ∀ a, ¬Trailing s.chars a) := by
  have hiff := fun a => @parse_iff s.chars s.nonzero a
  cases hparse : parse s.chars with
  | ok a =>
    have hrun : ∀ addr, asciiToIpv6Host s addr = .ok (true, a) := fun addr => by
      rw [asciiToIpv6Host, hparse]
    refine ⟨fun addr => ⟨_, hrun addr⟩, fun h b hb => ?_, fun h =>
      ⟨fun b addr hb => ?_, fun addr hnone => ?_⟩⟩
    · cases (h.refused a fun b' => not_denotes_of_trailing hb b').symm.trans (hrun a)
    · obtain rfl := Except.ok.inj (hparse.symm.trans ((hiff b).mpr (.inl hb)))
      exact hrun addr
    · exact (((hiff a).mp hparse).elim (hnone a) (h a)).elim
  | error e =>
    obtain rfl := parse_error s.nonzero hparse
    have hrun : ∀ addr, asciiToIpv6Host s addr = .ok (false, addr) := fun addr => by
      rw [asciiToIpv6Host, hparse]
    have hnone : ∀ a, ¬(Denotes s.chars a ∨ Trailing s.chars a) := fun a ha => by
      cases hparse.symm.trans ((hiff a).mpr ha)
    refine ⟨fun addr => ⟨_, hrun addr⟩, fun _ a ha => hnone a (.inr ha), fun _ =>
      ⟨fun a _ ha => ?_, fun addr _ => hrun addr⟩⟩
    exact absurd (.inl ha) (hnone a)

/-- `::1:` is accepted as `::1` is. -/
theorem trailing_colon_accepted : ¬AsClaimed ⟨[0x3a, 0x3a, 0x31, 0x3a], by decide⟩ := by
  intro h
  have hgroup : IsGroup [0x31] :=
    ⟨fun ch hch => by rw [mem_singleton.mp hch]; rfl, by decide, by decide⟩
  have hdenotes : Denotes [0x3a, 0x3a, 0x31] ⟨replicate 15 0 ++ [1], rfl⟩ :=
    .inr ⟨[], [[0x31]], by decide, fun g hg => mem_singleton.mp hg ▸ hgroup, rfl, rfl⟩
  have htrailing : Trailing [0x3a, 0x3a, 0x31, 0x3a] ⟨replicate 15 0 ++ [1], rfl⟩ :=
    ⟨_, hdenotes, by decide, rfl⟩
  have hrefused := h.refused Ipv6Address.zeros fun b => not_denotes_of_trailing htrailing b
  exact absurd hrefused (by decide +kernel)

end Egsr.Internet.Ipv6AddressText
