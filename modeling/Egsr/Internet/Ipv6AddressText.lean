import Egsr.Internet.Ipv6Header
import Mathlib.Data.List.Induction

/-! The text form of IPv6 addresses, and how such a text is read from left to
right: groups that a colon has ended, perhaps a double colon among them, and the
digits of a group that is not ended yet. -/

namespace Egsr.Internet.Ipv6AddressText

open List

abbrev colon : UInt8 := 0x3a

def hexValue (ch : UInt8) : Option ℕ :=
  if 0x30 ≤ ch ∧ ch ≤ 0x39 then some (ch.toNat - 0x30)
  else if 0x61 ≤ ch ∧ ch ≤ 0x66 then some (ch.toNat - 0x61 + 10)
  else if 0x41 ≤ ch ∧ ch ≤ 0x46 then some (ch.toNat - 0x41 + 10)
  else none

def AllHex (digits : List UInt8) : Prop := ∀ ch ∈ digits, (hexValue ch).isSome

variable (group : List UInt8)

structure IsGroup : Prop where
  hex : AllHex group
  pos : group ≠ []
  four : group.length ≤ 4

def groupValue : ℕ := group.foldl (fun v ch => 16 * v + (hexValue ch).getD 0) 0

def groupBytes : List UInt8 := [.ofNat (groupValue group / 256), .ofNat (groupValue group)]

def bytesOf (groups : List (List UInt8)) : List UInt8 := groups.flatMap groupBytes

def joined (groups : List (List UInt8)) : List UInt8 := [colon].intercalate groups

def ended (groups : List (List UInt8)) : List UInt8 := groups.flatMap (· ++ [colon])

variable (s : List UInt8) (a : Ipv6Address)

def Full : Prop :=
  ∃ groups, groups.length = 8 ∧ (∀ g ∈ groups, IsGroup g) ∧ s = joined groups ∧ a.1 = bytesOf groups

/-- Up to seven groups, and a double colon that stands for the others. -/
def Compressed : Prop :=
  ∃ before after : List (List UInt8), before.length + after.length ≤ 7 ∧
    (∀ g ∈ before ++ after, IsGroup g) ∧ s = joined before ++ [colon, colon] ++ joined after ∧
    a.1 = bytesOf before ++ replicate (2 * (8 - (before.length + after.length))) 0 ++ bytesOf after

def Denotes : Prop := Full s a ∨ Compressed s a

def Trailing : Prop :=
  ∃ s', Denotes s' a ∧ s'.getLast? ≠ some colon ∧ s = s' ++ [colon]

/-! ## Groups and colons -/

section Groups

variable {groups : List (List UInt8)} {group : List UInt8}

theorem hexValue_colon : hexValue colon = none := by decide

theorem hexValue_lt (ch : UInt8) : (hexValue ch).getD 0 < 16 := by
  rw [hexValue]
  split_ifs with hd hl hu
  · have hle : ch.toNat ≤ 0x39 := hd.2
    exact show ch.toNat - 0x30 < 16 by omega
  · have hle : ch.toNat ≤ 0x66 := hl.2
    exact show ch.toNat - 0x61 + 10 < 16 by omega
  · have hle : ch.toNat ≤ 0x46 := hu.2
    exact show ch.toNat - 0x41 + 10 < 16 by omega
  · decide

theorem groupValue_concat (group : List UInt8) (ch : UInt8) :
    groupValue (group ++ [ch]) = 16 * groupValue group + (hexValue ch).getD 0 := by
  rw [groupValue, foldl_append]
  rfl

theorem groupValue_lt (group : List UInt8) : groupValue group < 16 ^ group.length := by
  induction group using List.reverseRecOn with
  | nil => decide
  | append_singleton group ch ih =>
    have hdigit := hexValue_lt ch
    rw [groupValue_concat, length_append, length_singleton, pow_succ]
    omega

theorem AllHex.colon_notMem (h : AllHex group) : colon ∉ group := by
  intro hin
  have hcolon := h colon hin
  rw [hexValue_colon] at hcolon
  cases hcolon

theorem bytesOf_append (groups groups' : List (List UInt8)) : bytesOf (groups ++ groups') =
    bytesOf groups ++ bytesOf groups' :=
  flatMap_append

theorem length_bytesOf (groups : List (List UInt8)) :
    (bytesOf groups).length = 2 * groups.length := by
  induction groups with
  | nil => rfl
  | cons g groups ih =>
    rw [bytesOf, flatMap_cons, length_append, length_cons]
    change 2 + (bytesOf groups).length = _
    rw [ih]
    ring

theorem ended_concat (groups : List (List UInt8)) (group : List UInt8) :
    ended (groups ++ [group]) = ended groups ++ group ++ [colon] := by
  simp [ended]

theorem joined_concat (groups : List (List UInt8)) (group : List UInt8) :
    joined (groups ++ [group]) = ended groups ++ group := by
  induction groups with
  | nil => exact intercalate_singleton
  | cons g groups ih =>
    have hrest : groups ++ [group] ≠ [] := by simp
    rw [joined] at ih
    rw [joined, cons_append, intercalate_cons_of_ne_nil hrest, ih, ended, ended, flatMap_cons,
      append_assoc, append_assoc, append_assoc]

def lead (groups : List (List UInt8)) : List UInt8 := if groups = [] then [colon] else ended groups

theorem joined_lead (groups : List (List UInt8)) : joined groups ++ [colon] = lead groups := by
  induction groups using List.reverseRecOn with
  | nil => rfl
  | append_singleton groups group _ =>
    rw [joined_concat, lead, if_neg (by simp), ended_concat]

theorem ended_of_ne_nil (nonempty : groups ≠ []) : ended groups = joined groups ++ [colon] := by
  rw [joined_lead, lead, if_neg nonempty]

theorem compressed_chars (before after : List (List UInt8)) :
    joined before ++ [colon, colon] ++ joined after = lead before ++ colon :: joined after := by
  rw [← joined_lead]
  simp

theorem IsGroup.last (h : IsGroup group) : ∃ rest ch, group = rest ++ [ch] ∧ ch ≠ colon := by
  obtain ⟨rest, ch, rfl⟩ := (eq_nil_or_concat' group).resolve_left h.pos
  refine ⟨rest, ch, rfl, ?_⟩
  rintro rfl
  exact h.hex.colon_notMem (by simp)

theorem joined_last (nonempty : groups ≠ []) (all : ∀ g ∈ groups, IsGroup g) :
    ∃ rest ch, joined groups = rest ++ [ch] ∧ ch ≠ colon := by
  obtain ⟨first, group, rfl⟩ := (eq_nil_or_concat' groups).resolve_left nonempty
  obtain ⟨rest, ch, rfl, hch⟩ := (all group (by simp)).last
  exact ⟨ended first ++ rest, ch, by rw [joined_concat, append_assoc], hch⟩

end Groups

/-! ## Reading -/

structure Text where
  before : List (List UInt8)
  /-- The groups after the double colon, if there was one. -/
  after : Option (List (List UInt8))
  /-- The group that is not ended yet. -/
  digits : List UInt8
deriving DecidableEq

namespace Text

def empty : Text := ⟨[], none, []⟩

variable (t : Text)

def groups : List (List UInt8) := t.before ++ t.after.getD []

/-- The characters, without a colon that is the first of two at the start. -/
def chars : List UInt8 :=
  (match t.after with
  | none => ended t.before
  | some after => ended t.before ++ colon :: ended after) ++ t.digits

structure Fits : Prop where
  groups : ∀ g ∈ t.groups, IsGroup g
  eight : t.groups.length ≤ 8
  hex : AllHex t.digits
  four : t.digits.length ≤ 4

def close : Text :=
  match t.after with
  | none => ⟨t.before ++ [t.digits], none, []⟩
  | some after => ⟨t.before, some (after ++ [t.digits]), []⟩

def read (ch : UInt8) : Option Text :=
  if (hexValue ch).isSome then
    if t.digits.length < 4 then some { t with digits := t.digits ++ [ch] } else none
  else if ch = colon then
    if t.digits = [] then if t.after.isSome then none else some { t with after := some [] }
    else if t.groups.length < 8 then some t.close else none
  else none

def reads (cs : List UInt8) : Option Text := cs.foldlM read empty

/-- The bytes at the end of the text, if there are enough of them and not too many. -/
def bytes : Option (List UInt8) :=
  match t.after with
  | none => if t.before.length = 8 then some (bytesOf t.before) else none
  | some after =>
    if t.groups.length = 8 then none
    else some (bytesOf t.before ++ replicate (2 * (8 - t.groups.length)) 0 ++ bytesOf after)

def address : Option (List UInt8) :=
  if t.digits = [] then t.bytes else if t.groups.length < 8 then t.close.bytes else none

variable {t} {t' : Text} {ch : UInt8} {cs : List UInt8}

theorem groups_close : t.close.groups = t.groups ++ [t.digits] := by
  obtain ⟨before, after, digits⟩ := t
  cases after <;> simp [close, groups]

theorem chars_close : t.close.chars = t.chars ++ [colon] := by
  obtain ⟨before, after, digits⟩ := t
  cases after <;> simp [close, chars, ended_concat]

theorem digits_close (t : Text) : t.close.digits = [] := by
  rw [close]
  split <;> rfl

theorem fits_of_groups (all : ∀ g ∈ t.groups, IsGroup g) (eight : t.groups.length ≤ 8)
    (ended : t.digits = []) : t.Fits := by
  refine ⟨all, eight, ?_, ?_⟩
  · rw [ended]
    exact nofun
  · rw [ended]
    exact Nat.zero_le 4

theorem Fits.close (h : t.Fits) (nonempty : t.digits ≠ []) (room : t.groups.length < 8) :
    t.close.Fits := by
  have hgroup : IsGroup t.digits := ⟨h.hex, nonempty, h.four⟩
  refine fits_of_groups (fun g hg => ?_) ?_ t.digits_close
  · rw [groups_close] at hg
    rcases mem_append.mp hg with hg | hg
    · exact h.groups g hg
    · exact mem_singleton.mp hg ▸ hgroup
  · rw [groups_close, length_append]
    exact room

theorem Fits.of_close (h : t.close.Fits) : t.Fits ∧ t.digits ≠ [] ∧ t.groups.length < 8 := by
  have hgroups := h.groups
  have height := h.eight
  rw [groups_close] at hgroups height
  rw [length_append, length_singleton] at height
  have hgroup : IsGroup t.digits := hgroups _ (by simp)
  refine ⟨⟨fun g hg => hgroups g (mem_append_left _ hg), by omega, hgroup.hex, hgroup.four⟩,
    hgroup.pos, by omega⟩

theorem Fits.read (h : t.Fits) (hread : t.read ch = some t') : t'.Fits ∧ t'.chars = t.chars ++
    [ch] := by
  rw [Text.read] at hread
  split_ifs at hread with hdigit hfour hcolon hnone hafter hroom
  · obtain rfl := Option.some.inj hread
    refine ⟨⟨h.groups, h.eight, fun d hd => ?_, ?_⟩, ?_⟩
    · rcases mem_append.mp hd with hd | hd
      · exact h.hex d hd
      · exact mem_singleton.mp hd ▸ hdigit
    · rw [length_append]
      exact hfour
    · exact (append_assoc ..).symm
  · obtain rfl := Option.some.inj hread
    obtain ⟨before, after, digits⟩ := t
    obtain rfl : after = none := by simpa using hafter
    obtain rfl : digits = [] := hnone
    exact ⟨⟨h.groups, h.eight, h.hex, h.four⟩, by simp [chars, ended, hcolon]⟩
  · obtain rfl := Option.some.inj hread
    exact ⟨h.close hnone hroom, hcolon ▸ chars_close⟩

theorem read_of_close (h : t.close.Fits) : t.Fits ∧ t.read colon = some t.close := by
  obtain ⟨hfits, hpos, hroom⟩ := h.of_close
  refine ⟨hfits, ?_⟩
  rw [Text.read, if_neg (by simp [hexValue_colon]), if_pos rfl, if_neg hpos, if_pos hroom]

theorem Fits.exists_read (h : t.Fits) (hchars : t.chars = cs ++ [ch]) :
    ∃ t' : Text, t'.Fits ∧ t'.chars = cs ∧ t'.read ch = some t := by
  have hclosed : ∀ t' : Text, t'.close = t → t'.Fits ∧ t'.chars = cs ∧ t'.read ch = some t := by
    rintro t' rfl
    obtain ⟨hfits, hread⟩ := read_of_close h
    rw [chars_close] at hchars
    obtain ⟨hcs, hch⟩ := append_inj' hchars rfl
    obtain rfl := singleton_inj.mp hch
    exact ⟨hfits, hcs, hread⟩
  obtain ⟨before, after, digits⟩ := t
  rcases eq_nil_or_concat' digits with rfl | ⟨rest, d, rfl⟩
  · cases after with
    | none =>
      rcases eq_nil_or_concat' before with rfl | ⟨before, group, rfl⟩
      · exact absurd hchars.symm (by simp [chars, ended])
      · exact ⟨_, hclosed ⟨before, none, group⟩ rfl⟩
    | some after =>
      rcases eq_nil_or_concat' after with rfl | ⟨after, group, rfl⟩
      · have hdouble : ended before ++ [colon] = cs ++ [ch] := by simpa [chars, ended] using hchars
        obtain ⟨hcs, hch⟩ := append_inj' hdouble rfl
        obtain rfl := singleton_inj.mp hch
        refine ⟨⟨before, none, []⟩, ⟨h.groups, h.eight, h.hex, h.four⟩, by
          simpa [chars] using hcs, ?_⟩
        rw [Text.read, if_neg (by simp [hexValue_colon]), if_pos rfl, if_pos rfl]
        rfl
      · exact ⟨_, hclosed ⟨before, some after, group⟩ rfl⟩
  · have hsplit := hchars
    rw [chars, ← append_assoc] at hsplit
    obtain ⟨hcs, hch⟩ := append_inj' hsplit rfl
    obtain rfl := singleton_inj.mp hch
    have hdigit := h.hex d (by simp)
    have hfour : (rest ++ [d]).length ≤ 4 := h.four
    rw [length_append, length_singleton] at hfour
    refine ⟨⟨before, after, rest⟩,
      ⟨h.groups, h.eight, fun x hx => h.hex x (mem_append_left _ hx), ?_⟩, hcs, ?_⟩
    · exact show rest.length ≤ 4 by omega
    · rw [Text.read, if_pos hdigit]
      exact if_pos hfour

theorem fits_empty : empty.Fits := ⟨nofun, Nat.zero_le 8, nofun, Nat.zero_le 4⟩

theorem reads_concat (cs : List UInt8) (ch : UInt8) : reads (cs ++ [ch]) =
    (reads cs).bind fun t => t.read ch := by
  rw [reads, foldlM_append, reads]
  cases cs.foldlM read empty <;> simp

theorem reads_iff : reads cs = some t ↔ t.Fits ∧ t.chars = cs := by
  induction cs using List.reverseRecOn generalizing t with
  | nil =>
    constructor
    · intro h
      obtain rfl := Option.some.inj h
      exact ⟨fits_empty, rfl⟩
    · rintro ⟨hfits, hchars⟩
      obtain ⟨before, after, digits⟩ := t
      cases after with
      | none =>
        obtain ⟨hended, rfl⟩ := append_eq_nil_iff.mp hchars
        cases before with
        | nil => rfl
        | cons g before => simp [ended] at hended
      | some after => simp [chars] at hchars
  | append_singleton cs ch ih =>
    rw [reads_concat, Option.bind_eq_some_iff]
    constructor
    · rintro ⟨t', ht', hread⟩
      obtain ⟨hfits', rfl⟩ := ih.mp ht'
      exact hfits'.read hread
    · rintro ⟨hfits, hchars⟩
      obtain ⟨t', hfits', hchars', hread⟩ := hfits.exists_read hchars
      exact ⟨t', ih.mpr ⟨hfits', hchars'⟩, hread⟩

/-! ## Addresses -/

def written (t : Text) : List UInt8 :=
  (match t.after with
  | none => ended t.before
  | some after => lead t.before ++ colon :: ended after) ++ t.digits

end Text

section Denoted

open Text

variable {t : Text} {s : List UInt8} {a : Ipv6Address} {before after : List (List UInt8)}

theorem last_ne_colon {rest : List UInt8} {ch : UInt8} (h : ch ≠ colon) :
    (rest ++ [ch]).getLast? ≠ some colon := by
  rw [List.getLast?_concat]
  exact fun heq => h (Option.some.inj heq)

theorem full_last (h : Full s a) : s.getLast? ≠ some colon := by
  obtain ⟨groups, hcount, hall, rfl, -⟩ := h
  obtain ⟨rest, ch, hlast, hch⟩ := joined_last (by rintro rfl; cases hcount) hall
  rw [hlast]
  exact last_ne_colon hch

theorem compressed_last (nonempty : after ≠ []) (all : ∀ g ∈ after, IsGroup g) :
    (joined before ++ [colon, colon] ++ joined after).getLast? ≠ some colon := by
  obtain ⟨rest, ch, hlast, hch⟩ := joined_last nonempty all
  rw [hlast, ← append_assoc]
  exact last_ne_colon hch

theorem not_denotes_of_trailing (h : Trailing s a) (b : Ipv6Address) : ¬Denotes s b := by
  obtain ⟨s', -, hlast, rfl⟩ := h
  rintro (hfull | ⟨before, after, -, hall, hchars, -⟩)
  · exact full_last hfull List.getLast?_concat
  · by_cases hafter : after = []
    · subst hafter
      have hsplit : s' ++ [colon] = joined before ++ [colon] ++ [colon] := by
        rw [hchars]
        simp [joined]
      rw [append_cancel_right hsplit] at hlast
      exact hlast List.getLast?_concat
    · have hend := @compressed_last before after hafter fun g hg => hall g (mem_append_right _ hg)
      rw [← hchars] at hend
      exact hend List.getLast?_concat

theorem bytes_plain {groups : List (List UInt8)} {d : List UInt8} :
    (⟨groups, none, d⟩ : Text).bytes = some a.1 ↔ groups.length = 8 ∧ a.1 = bytesOf groups := by
  change (if groups.length = 8 then some (bytesOf groups) else none) = _ ↔ _
  split_ifs with hcount <;> simp [hcount, eq_comm]

theorem bytes_double {d : List UInt8} (eight : (before ++ after).length ≤ 8) :
    (⟨before, some after, d⟩ : Text).bytes = some a.1 ↔ before.length + after.length ≤ 7 ∧
      a.1 = bytesOf before ++ replicate (2 * (8 - (before.length + after.length))) 0 ++
        bytesOf after := by
  rw [length_append] at eight
  change (if (before ++ after).length = 8 then none
    else some (bytesOf before ++ replicate (2 * (8 - (before ++ after).length)) 0 ++
      bytesOf after)) = _ ↔ _
  rw [length_append]
  split_ifs with hcount
  · simp [hcount]
  · rw [Option.some_inj, eq_comm, iff_and_self]
    exact fun _ => by omega

theorem denotes_of_address (fits : t.Fits) (haddress : t.address = some a.1) :
    Denotes t.written a ∨ Trailing t.written a := by
  obtain ⟨before, after, digits⟩ := t
  rw [address] at haddress
  split_ifs at haddress with hdigits hroom
  · obtain rfl : digits = [] := hdigits
    cases after with
    | none =>
      obtain ⟨hcount, hbytes⟩ := bytes_plain.mp haddress
      have hgroups : ∀ g ∈ before, IsGroup g := fun g hg => fits.groups g (mem_append_left _ hg)
      have hfull : Full (joined before) a := ⟨before, hcount, hgroups, rfl, hbytes⟩
      refine .inr ⟨joined before, .inl hfull, full_last hfull, ?_⟩
      rw [← ended_of_ne_nil (by rintro rfl; cases hcount)]
      exact append_nil _
    | some after =>
      obtain ⟨hcount, hbytes⟩ := (bytes_double fits.eight).mp haddress
      have hcompressed : Compressed (joined before ++ [colon, colon] ++ joined after) a :=
        ⟨before, after, hcount, fits.groups, rfl, hbytes⟩
      by_cases hafter : after = []
      · subst hafter
        rw [compressed_chars] at hcompressed
        exact .inl (.inr (by simpa [written, joined, ended] using hcompressed))
      · refine .inr ⟨_, .inr hcompressed, compressed_last hafter fun g hg =>
          fits.groups g (mem_append_right _ hg), ?_⟩
        rw [compressed_chars, append_assoc, cons_append, ← ended_of_ne_nil hafter]
        exact append_nil _
  · have hclose := fits.close hdigits hroom
    cases after with
    | none =>
      obtain ⟨hcount, hbytes⟩ := bytes_plain.mp haddress
      refine .inl (.inl ⟨before ++ [digits], hcount, fun g hg =>
        hclose.groups g (mem_append_left _ hg), ?_, hbytes⟩)
      exact (joined_concat before digits).symm
    | some after =>
      obtain ⟨hcount, hbytes⟩ := (bytes_double hclose.eight).mp haddress
      refine .inl (.inr ⟨before, after ++ [digits], hcount, hclose.groups, ?_, hbytes⟩)
      rw [compressed_chars, joined_concat]
      exact append_assoc ..

theorem address_of_close (h : t.close.Fits) : t.Fits ∧ t.address = t.close.bytes := by
  obtain ⟨hfits, hpos, hroom⟩ := h.of_close
  refine ⟨hfits, ?_⟩
  rw [address, if_neg hpos, if_pos hroom]

theorem address_of_denotes (h : Denotes s a) : ∃ t : Text, t.Fits ∧ t.written = s ∧
    t.address = some a.1 := by
  rcases h with ⟨groups, hcount, hall, rfl, hbytes⟩ | ⟨before, after, hcount, hall, rfl, hbytes⟩
  · obtain ⟨before, group, rfl⟩ :=
      (eq_nil_or_concat' groups).resolve_left (by rintro rfl; cases hcount)
    have hfits : (⟨before ++ [group], none, []⟩ : Text).Fits :=
      fits_of_groups (by simpa [groups] using hall) (by simpa [groups] using hcount.le) rfl
    obtain ⟨ht, haddress⟩ := address_of_close (t := ⟨before, none, group⟩) hfits
    exact ⟨_, ht, (joined_concat before group).symm,
      haddress.trans (bytes_plain.mpr ⟨hcount, hbytes⟩)⟩
  · have hfits : (⟨before, some after, []⟩ : Text).Fits :=
      fits_of_groups hall (by rw [groups, length_append]; exact hcount.trans (by decide)) rfl
    have haddress := (bytes_double (d := []) hfits.eight).mpr ⟨hcount, hbytes⟩
    rw [compressed_chars]
    rcases eq_nil_or_concat' after with rfl | ⟨after, group, rfl⟩
    · exact ⟨_, hfits, by simp [written, joined, ended], haddress⟩
    · obtain ⟨ht, hclose⟩ := address_of_close (t := ⟨before, some after, group⟩) hfits
      refine ⟨_, ht, ?_, hclose.trans haddress⟩
      rw [joined_concat]
      exact append_assoc ..

theorem address_of_trailing (h : Trailing s a) : ∃ t : Text, t.Fits ∧ t.written = s ∧
    t.address = some a.1 := by
  obtain ⟨s', hfull | hcompressed, hlast, rfl⟩ := h
  · obtain ⟨groups, hcount, hall, rfl, hbytes⟩ := hfull
    refine ⟨⟨groups, none, []⟩, fits_of_groups ?_ ?_ rfl, ?_, bytes_plain.mpr ⟨hcount, hbytes⟩⟩
    · simpa [Text.groups] using hall
    · simpa [Text.groups] using hcount.le
    · rw [← ended_of_ne_nil (by rintro rfl; cases hcount)]
      exact append_nil _
  · obtain ⟨before, after, hcount, hall, rfl, hbytes⟩ := hcompressed
    have hfits : (⟨before, some after, []⟩ : Text).Fits :=
      fits_of_groups hall (by rw [groups, length_append]; exact hcount.trans (by decide)) rfl
    refine ⟨_, hfits, ?_, (bytes_double hfits.eight).mpr ⟨hcount, hbytes⟩⟩
    have hafter : after ≠ [] := by
      rintro rfl
      rw [show joined before ++ [colon, colon] ++ joined [] = joined before ++ [colon] ++ [colon] by
        simp [joined]] at hlast
      exact hlast List.getLast?_concat
    rw [compressed_chars, append_assoc, cons_append, ← ended_of_ne_nil hafter]
    exact append_nil _

end Denoted

end Egsr.Internet.Ipv6AddressText
