import Mathlib.Data.Nat.Basic
import Egsr.Wifi.MacRxMiddle

/-! What is passed up are the MSDUs all fragments of which were received, as
long as none is left unfinished when another one begins. -/

namespace Egsr.Wifi.Defragmentation

open Lib.Run Lib.Outcome List Function

/-- The sequence control of a fragment of the `n`-th MSDU. -/
def control (n i : ℕ) : UInt16 := (UInt16.ofNat (n % 4096) <<< 4) ||| (UInt8.ofNat i).toUInt16

section Control

variable {n i j : ℕ}

theorem control_toNat (lt : i < 16) : (control n i).toNat = n % 4096 * 16 + i := by
  have hbound : n % 4096 < 4096 := Nat.mod_lt _ (by omega)
  have hshift : (UInt16.ofNat (n % 4096) <<< 4).toNat = (n % 4096) <<< 4 := by
    rw [UInt16.toNat_shiftLeft, UInt16.toNat_ofNat', Nat.shiftLeft_eq, Nat.shiftLeft_eq,
      show (4 : UInt16).toNat % 16 = 4 from rfl]
    omega
  have hbyte : (UInt8.ofNat i).toUInt16.toNat = i := by
    rw [UInt8.toNat_toUInt16, UInt8.toNat_ofNat']
    omega
  rw [control, UInt16.toNat_or, hshift, hbyte, ← Nat.shiftLeft_add_eq_or_of_lt (by omega),
    Nat.shiftLeft_eq]

theorem control_inj (hi : i < 16) (hj : j < 16) : control n i = control n j ↔ i = j := by
  rw [← UInt16.toNat_inj, control_toNat hi, control_toNat hj]
  omega

theorem control_shiftRight (lt : i < 16) : control n i >>> 4 = .ofNat (n % 4096) := by
  have hbound : n % 4096 < 4096 := Nat.mod_lt _ (by omega)
  apply UInt16.toNat_inj.mp
  rw [UInt16.toNat_shiftRight, control_toNat lt, UInt16.toNat_ofNat', Nat.shiftRight_eq_div_pow,
    show (4 : UInt16).toNat % 16 = 4 from rfl]
  omega

theorem control_and (lt : i < 16) : control n i &&& 0x0f = UInt16.ofNat i := by
  apply UInt16.toNat_inj.mp
  rw [UInt16.toNat_and, control_toNat lt, UInt16.toNat_ofNat', show (0x0f : UInt16).toNat =
    2 ^ 4 - 1 from rfl, Nat.and_two_pow_sub_one_eq_mod]
  omega

theorem isNextFragment_control {o : OriginatorRxStatus}
    (last : o.m_lastSequenceControl = control n i)
    (hi : i < 16) (hj : j < 16) : o.isNextFragment (control n j) = decide (j = i + 1) := by
  have hnumber : UInt16.ofNat j = UInt16.ofNat i + 1 ↔ j = i + 1 := by
    rw [← UInt16.toNat_inj, UInt16.toNat_add, UInt16.toNat_ofNat', UInt16.toNat_ofNat',
      show (1 : UInt16).toNat = 1 from rfl]
    omega
  rw [OriginatorRxStatus.isNextFragment, last, control_shiftRight hi, control_shiftRight hj,
    control_and hi, control_and hj]
  simp [hnumber]

end Control

/-! ## One frame -/

section Receive

variable {packet : Packet} {hdr : WifiMacHeader} {o : OriginatorRxStatus}

theorem receiveFrom_duplicate (duplicate : isDuplicate hdr o = true) :
    receiveFrom packet hdr o = .ok (none, o) := by
  rw [receiveFrom, if_pos duplicate]

theorem receiveFrom_skip (busy : o.m_defragmenting = true)
    (skip : o.isNextFragment hdr.getSequenceControl = false) :
    receiveFrom packet hdr o = .ok (none, o) := by
  cases hduplicate : isDuplicate hdr o with
  | true => exact receiveFrom_duplicate hduplicate
  | false =>
    have hhandle : handleFragments packet hdr o = .ok (none, o) := by
      rw [handleFragments, if_pos busy, skip]
      cases hdr.m_ctrlMoreFrag <;> rfl
    rw [receiveFrom, if_neg (by simp [hduplicate]), hhandle]
    rfl

variable (new : isDuplicate hdr o = false)
include new

theorem receiveFrom_first (idle : o.m_defragmenting = false) (more : hdr.m_ctrlMoreFrag = true) :
    receiveFrom packet hdr o =
      .ok (none, ⟨true, hdr.getSequenceControl, o.m_fragments ++ [packet]⟩) := by
  have hhandle : handleFragments packet hdr o =
      .ok (none, ⟨true, hdr.getSequenceControl, o.m_fragments ++ [packet]⟩) := by
    rw [handleFragments, if_neg (by simp [idle]), if_pos more,
      OriginatorRxStatus.accumulateFirstFragment, if_neg (by simp [idle])]
    rfl
  rw [receiveFrom, if_neg (by simp [new]), hhandle]
  rfl

theorem receiveFrom_whole (idle : o.m_defragmenting = false) (more : hdr.m_ctrlMoreFrag = false) :
    receiveFrom packet hdr o = .ok (some packet, if !Mac48Address.isGroup hdr.m_addr1 then
      o.setSequenceControl hdr.getSequenceControl else o) := by
  have hhandle : handleFragments packet hdr o = .ok (some packet, o) := by
    rw [handleFragments, if_neg (by simp [idle]), if_neg (by simp [more])]
  rw [receiveFrom, if_neg (by simp [new]), hhandle]
  rfl

variable (busy : o.m_defragmenting = true) (next : o.isNextFragment hdr.getSequenceControl = true)
include busy next

theorem receiveFrom_middle (more : hdr.m_ctrlMoreFrag = true) : receiveFrom packet hdr o =
      .ok (none, ⟨true, hdr.getSequenceControl, o.m_fragments ++ [packet]⟩) := by
  have hhandle : handleFragments packet hdr o =
      .ok (none, ⟨true, hdr.getSequenceControl, o.m_fragments ++ [packet]⟩) := by
    rw [handleFragments, if_pos busy, if_pos more, if_pos next,
      OriginatorRxStatus.accumulateFragment, if_neg (by simp [busy]), ← busy]
    rfl
  rw [receiveFrom, if_neg (by simp [new]), hhandle]
  rfl

theorem receiveFrom_last (more : hdr.m_ctrlMoreFrag = false) :
    receiveFrom packet hdr o = .ok (some (o.m_fragments ++ [packet]).flatten,
      ⟨false, hdr.getSequenceControl, []⟩) := by
  have hhandle : handleFragments packet hdr o = .ok (some (o.m_fragments ++ [packet]).flatten,
      ⟨false, hdr.getSequenceControl, []⟩) := by
    rw [handleFragments, if_pos busy, if_neg (by simp [more]), if_pos next,
      OriginatorRxStatus.accumulateLastFragment, if_neg (by simp [busy])]
    rfl
  rw [receiveFrom, if_neg (by simp [new]), hhandle]
  cases Mac48Address.isGroup hdr.m_addr1 <;> rfl

end Receive

theorem exists_receiveFrom (packet : Packet) (hdr : WifiMacHeader) (o : OriginatorRxStatus) :
    ∃ r, receiveFrom packet hdr o = .ok r := by
  cases hduplicate : isDuplicate hdr o with
  | true => exact ⟨_, receiveFrom_duplicate hduplicate⟩
  | false =>
    cases hbusy : o.m_defragmenting with
    | false =>
      cases hmore : hdr.m_ctrlMoreFrag with
      | true => exact ⟨_, receiveFrom_first hduplicate hbusy hmore⟩
      | false => exact ⟨_, receiveFrom_whole hduplicate hbusy hmore⟩
    | true =>
      cases hnext : o.isNextFragment hdr.getSequenceControl with
      | false => exact ⟨_, receiveFrom_skip hbusy hnext⟩
      | true =>
        cases hmore : hdr.m_ctrlMoreFrag with
        | true => exact ⟨_, receiveFrom_middle hduplicate hbusy hnext hmore⟩
        | false => exact ⟨_, receiveFrom_last hduplicate hbusy hnext hmore⟩

theorem forward_eq {c : Channel} {packet : Packet} {hdr : WifiMacHeader} {p : Option Packet}
    {o : OriginatorRxStatus} (run : receiveFrom packet hdr (c.rx hdr.originator) = .ok (p, o)) :
    c.forward packet hdr = .ok { c with
      rx := update c.rx hdr.originator o
      forwarded := c.forwarded ++ (p.map fun p => (p, hdr)).toList } := by
  rw [Channel.forward, MacRxMiddle.receive, run]
  rfl

/-! ## The invariant -/

inductive StatusOk (t : Transmission) (n : ℕ) (o : OriginatorRxStatus) : Prop where
  | partly (k : ℕ) (pos : 0 < k) (lt : k < t.msdu.fragments.length)
    (first : ∀ j < k, j ∈ t.received)
      (missing : k ∉ t.received) (busy : o.m_defragmenting = true)
      (fragments : o.m_fragments = t.msdu.fragments.take k)
      (last : o.m_lastSequenceControl = control n (k - 1))
  | complete (complete : t.Complete) (idle : o.m_defragmenting = false)
      (last : Mac48Address.isGroup t.msdu.addr1 = false →
        o.m_lastSequenceControl = control n (t.msdu.fragments.length - 1))

structure ChannelOk (S : Sender) (c : Channel) : Prop where
  fragment_lt : c.fragment < c.current.msdu.fragments.length
  received : ∀ j ∈ c.current.received, j < c.fragment ∨ j = c.fragment ∧ 0 < c.copies
  idle : (c.rx S.originator).m_defragmenting = false → (c.rx S.originator).m_fragments = []
  status : 0 ∈ c.current.received → StatusOk c.current (c.number S) (c.rx S.originator)
  passedUp : c.passedUp S = c.completed

/-- A frame of an MSDU the first fragment of which has not been received: if it is that fragment,
the receiver is not waiting for another MSDU and does not take it for a duplicate; else it is
waiting, and not for this fragment. -/
def InTurn (S : Sender) (c : Channel) : Action → Prop
  | .copy true => 0 ∉ c.current.received →
    let o := c.rx S.originator
    if c.fragment = 0 then o.m_defragmenting = false ∧ isDuplicate (c.header S) o = false
    else o.m_defragmenting = true ∧ o.isNextFragment (c.header S).getSequenceControl = false
  | _ => True

def Transmission.passed (t : Transmission) : List Packet :=
  if t.Complete then [t.msdu.bytes] else []

variable {S : Sender} {c : Channel}

theorem completed_eq :
    c.completed =
    (c.past.filter fun t => t.Complete).map (fun t => t.msdu.bytes) ++ c.current.passed := by
  rw [Channel.completed, Channel.sent, filter_append, map_append, Transmission.passed]
  by_cases hcomplete : c.current.Complete <;> simp [hcomplete]

theorem header_control (S : Sender) (c : Channel) :
    (c.header S).getSequenceControl = control (c.number S) c.fragment := rfl

theorem passedUp_append (S : Sender) {c c' : Channel} {p : Option Packet} {hdr : WifiMacHeader}
    (forwarded : c'.forwarded = c.forwarded ++ (p.map fun p => (p, hdr)).toList) :
    c'.passedUp S = c.passedUp S ++ if hdr.originator = S.originator then p.toList else [] := by
  rw [Channel.passedUp, forwarded, filter_append, map_append]
  by_cases hown : hdr.originator = S.originator <;> cases p <;> simp [Channel.passedUp, hown]

theorem ChannelOk.copy (h : ChannelOk S c) {p : Option Packet} {o : OriginatorRxStatus}
    (run : receiveFrom (c.current.msdu.fragments.getD c.fragment []) (c.header S)
      (c.rx S.originator) = .ok (p, o)) (idle : o.m_defragmenting = false → o.m_fragments = [])
    (status : 0 ∈ c.current.received ++ [c.fragment] →
      StatusOk ⟨c.current.msdu, c.current.received ++ [c.fragment]⟩ (c.number S) o)
    (passed : c.current.passed ++ p.toList =
      Transmission.passed ⟨c.current.msdu, c.current.received ++ [c.fragment]⟩) :
    Ensures (step S c (.copy true)) (ChannelOk S) fun _ => False := by
  rw [step, forward_eq run]
  have hself : update c.rx (c.header S).originator o S.originator = o := update_self ..
  refine ensures_ok.mpr ⟨h.fragment_lt, fun j hj => ?_, ?_, ?_, ?_⟩
  · rcases mem_append.mp hj with hj | hj
    · rcases h.received j hj with hlt | ⟨heq, -⟩
      · exact .inl hlt
      · exact .inr ⟨heq, Nat.succ_pos _⟩
    · exact .inr ⟨mem_singleton.mp hj, Nat.succ_pos _⟩
  · dsimp only
    rwa [hself]
  · dsimp only
    rwa [hself]
  · rw [passedUp_append S rfl, if_pos (show (c.header S).originator = S.originator from rfl),
      h.passedUp, completed_eq, completed_eq, append_assoc, passed]

theorem ChannelOk.drop (h : ChannelOk S c)
    (run : receiveFrom (c.current.msdu.fragments.getD c.fragment []) (c.header S)
      (c.rx S.originator) =
      .ok (none, c.rx S.originator)) (status : 0 ∈ c.current.received ++ [c.fragment] →
      StatusOk ⟨c.current.msdu, c.current.received ++ [c.fragment]⟩ (c.number S)
      (c.rx S.originator))
    (same : Transmission.Complete ⟨c.current.msdu, c.current.received ++ [c.fragment]⟩ →
      c.current.Complete) :
    Ensures (step S c (.copy true)) (ChannelOk S) fun _ => False := by
  refine h.copy run h.idle status ?_
  have hmono : c.current.Complete →
      Transmission.Complete ⟨c.current.msdu, c.current.received ++ [c.fragment]⟩ :=
    fun hcomplete j hj => mem_append_left _ (hcomplete j hj)
  by_cases hcomplete : c.current.Complete
  · rw [Transmission.passed, Transmission.passed, if_pos hcomplete, if_pos (hmono hcomplete)]
    rfl
  · rw [Transmission.passed, Transmission.passed, if_neg hcomplete,
      if_neg (fun hc => hcomplete (same hc))]
    rfl

theorem take_getD {fragments : List Packet} {i : ℕ} (lt : i < fragments.length) :
    fragments.take i ++ [fragments.getD i []] = fragments.take (i + 1) := by
  rw [getD_eq_getElem?_getD, List.getElem?_eq_getElem lt, Option.getD_some,
    take_succ_eq_append_getElem lt]

theorem ChannelOk.copy_first (h : ChannelOk S c) (none : 0 ∉ c.current.received)
    (turn : InTurn S c (.copy true)) : Ensures (step S c (.copy true)) (ChannelOk S) fun _ =>
      False := by
  have hpos := c.current.msdu.length_pos
  have hturn := turn none
  dsimp only at hturn
  have hincomplete : ¬c.current.Complete := fun hcomplete => none (hcomplete 0 hpos)
  by_cases hzero : c.fragment = 0
  · rw [if_pos hzero] at hturn
    obtain ⟨hidle, hnew⟩ := hturn
    have hnil := h.idle hidle
    -- nothing has been received before
    have hreceived : c.current.received = [] := eq_nil_iff_forall_not_mem.mpr fun j hj => by
      rcases h.received j hj with hlt | ⟨rfl, -⟩
      · omega
      · exact none (hzero ▸ hj)
    have hget : [c.current.msdu.fragments.getD c.fragment []] =
        c.current.msdu.fragments.take 1 := by
      rw [hzero]
      exact take_getD hpos
    by_cases hmore : 1 < c.current.msdu.fragments.length
    · have hflag : (c.header S).m_ctrlMoreFrag = true := decide_eq_true (by omega)
      refine h.copy (receiveFrom_first hnew hidle hflag) (fun hfalse => nomatch hfalse)
        (fun _ => ?_) ?_
      · refine .partly 1 (by omega) hmore (fun j hj => ?_) ?_ rfl ?_ ?_
        · obtain rfl : j = 0 := by omega
          simp [hzero]
        · simp [hreceived, hzero]
        · rw [hnil]
          exact hget
        · rw [header_control, hzero]
      · have hstill : ¬Transmission.Complete ⟨c.current.msdu, c.current.received ++ [c.fragment]⟩ :=
          fun hcomplete => by
            have hone := hcomplete 1 hmore
            simp [hreceived, hzero] at hone
        rw [Transmission.passed, Transmission.passed, if_neg hincomplete, if_neg hstill]
        rfl
    · have hone : c.current.msdu.fragments.length = 1 := by omega
      have hflag : (c.header S).m_ctrlMoreFrag = false := decide_eq_false (by omega)
      have hcomplete :
          Transmission.Complete ⟨c.current.msdu, c.current.received ++ [c.fragment]⟩ := by
        intro j hj
        obtain rfl : j = 0 := by
          dsimp only at hj
          omega
        simp [hzero]
      refine h.copy (receiveFrom_whole hnew hidle hflag) (fun _ => ?_) (fun _ => ?_) ?_
      · split_ifs
        · exact hnil
        · exact hnil
      · refine .complete hcomplete ?_ fun hgroup => ?_
        · split_ifs
          · exact hidle
          · exact hidle
        · dsimp only at hgroup
          rw [if_pos (by simpa [Channel.header] using hgroup)]
          dsimp only
          rw [hone]
          exact (header_control S c).trans (by rw [hzero])
      · rw [← hone, take_length] at hget
        have hbytes : [c.current.msdu.fragments.getD c.fragment []].flatten =
          c.current.msdu.bytes :=
          congrArg List.flatten hget
        rw [Transmission.passed, Transmission.passed, if_neg hincomplete, if_pos hcomplete,
          ← hbytes, flatten_singleton]
        rfl
  · rw [if_neg hzero] at hturn
    refine h.drop (receiveFrom_skip hturn.1 hturn.2) (fun hmem => ?_) fun hcomplete => ?_
    · rcases mem_append.mp hmem with hmem | hmem
      · exact absurd hmem none
      · exact absurd (mem_singleton.mp hmem).symm hzero
    · rcases mem_append.mp (hcomplete 0 hpos) with hmem | hmem
      · exact absurd hmem none
      · exact absurd (mem_singleton.mp hmem).symm hzero

theorem ChannelOk.copy_more (h : ChannelOk S c) (begun : 0 ∈ c.current.received)
    (possible : Possible S c (.copy true)) :
    Ensures (step S c (.copy true)) (ChannelOk S) fun _ => False := by
  have hlt := h.fragment_lt
  have hle := c.current.msdu.length_le
  cases h.status begun with
  | partly k pos lt first missing busy fragments last =>
    have hreached : k - 1 < c.fragment ∨ k - 1 = c.fragment ∧ 0 < c.copies :=
      h.received (k - 1) (first (k - 1) (by omega))
    have hnext : (c.rx S.originator).isNextFragment (c.header S).getSequenceControl =
        decide (c.fragment = k - 1 + 1) := by
      rw [header_control]
      exact isNextFragment_control last (by omega) (by omega)
    have hskip : c.fragment ≠ k → Ensures (step S c (.copy true)) (ChannelOk S) fun _ => False := by
      intro hne
      have hmissing : k ∉ c.current.received ++ [c.fragment] := by
        simp only [mem_append, mem_singleton, not_or]
        exact ⟨missing, hne.symm⟩
      refine h.drop (receiveFrom_skip busy ?_) (fun _ => ?_) fun hcomplete =>
        absurd (hcomplete k lt) hmissing
      · rw [hnext]
        exact decide_eq_false (by omega)
      · exact .partly k pos lt (fun j hj => mem_append_left _ (first j hj)) hmissing busy
          fragments last
    by_cases hk : c.fragment = k
    · subst hk
      have hnext' : (c.rx S.originator).isNextFragment (c.header S).getSequenceControl = true := by
        rw [hnext]
        exact decide_eq_true (by omega)
      have hnew : isDuplicate (c.header S) (c.rx S.originator) = false := by
        rw [isDuplicate, last, header_control, Bool.and_eq_false_iff, decide_eq_false_iff_not,
          control_inj (by omega) (by omega)]
        exact .inr (by omega)
      have hget : (c.rx S.originator).m_fragments ++ [c.current.msdu.fragments.getD c.fragment []] =
          c.current.msdu.fragments.take (c.fragment + 1) := by
        rw [fragments]
        exact take_getD hlt
      have hfirst : ∀ j < c.fragment + 1, j ∈ c.current.received ++ [c.fragment] := by
        intro j hj
        by_cases hj' : j = c.fragment
        · simp [hj']
        · exact mem_append_left _ (first j (by omega))
      have hincomplete : ¬c.current.Complete := fun hcomplete => missing (hcomplete _ hlt)
      by_cases hmore : c.fragment + 1 < c.current.msdu.fragments.length
      · have hmissing : c.fragment + 1 ∉ c.current.received ++ [c.fragment] := by
          intro hmem
          rcases mem_append.mp hmem with hmem | hmem
          · rcases h.received _ hmem with hbad | hbad <;> omega
          · have heq := mem_singleton.mp hmem
            omega
        refine h.copy (receiveFrom_middle hnew busy hnext' (decide_eq_true hmore))
          (fun hfalse => nomatch hfalse) (fun _ => ?_) ?_
        · exact .partly (c.fragment + 1) (Nat.succ_pos _) hmore hfirst hmissing rfl hget rfl
        · have hstill :
            ¬Transmission.Complete ⟨c.current.msdu, c.current.received ++ [c.fragment]⟩ :=
            fun hcomplete => hmissing (hcomplete _ hmore)
          rw [Transmission.passed, Transmission.passed, if_neg hincomplete, if_neg hstill]
          rfl
      · have hend : c.current.msdu.fragments.length = c.fragment + 1 := by omega
        have hcomplete :
          Transmission.Complete ⟨c.current.msdu, c.current.received ++ [c.fragment]⟩ :=
          fun j hj => hfirst j (by rwa [← hend])
        refine h.copy (receiveFrom_last hnew busy hnext' (decide_eq_false hmore)) (fun _ => rfl)
          (fun _ => ?_) ?_
        · refine .complete hcomplete rfl fun _ => ?_
          dsimp only
          rw [hend]
          rfl
        · rw [Transmission.passed, Transmission.passed, if_neg hincomplete, if_pos hcomplete,
            hget, ← hend, take_length]
          rfl
    · exact hskip hk
  | complete complete idle last =>
    -- only copies of the last fragment can follow
    have hlast := h.received _ (complete (c.current.msdu.fragments.length - 1) (by omega))
    have hfragment : c.fragment = c.current.msdu.fragments.length - 1 := by omega
    have hcopies : 0 < c.copies := by omega
    have hunicast : Mac48Address.isGroup c.current.msdu.addr1 = false := by
      by_contra hgroup
      have hzero := possible (by simpa using hgroup)
      omega
    have hduplicate : isDuplicate (c.header S) (c.rx S.originator) = true := by
      rw [isDuplicate, last hunicast, header_control, hfragment]
      simp [Channel.header, hcopies]
    refine h.drop (receiveFrom_duplicate hduplicate) (fun _ => ?_) fun _ => complete
    exact .complete (fun j hj => mem_append_left _ (complete j hj)) idle last

theorem step_ok (c : Channel) (a : Action) (h : ChannelOk S c) (possible : Possible S c a)
    (turn : InTurn S c a) : Ensures (step S c a) (ChannelOk S) fun _ => False := by
  cases a with
  | copy received =>
    cases received with
    | false =>
      refine ensures_ok.mpr ⟨h.fragment_lt, fun j hj => ?_, h.idle, h.status, h.passedUp⟩
      exact (h.received j hj).imp_right fun hj' => ⟨hj'.1, Nat.succ_pos _⟩
    | true =>
      by_cases hbegun : 0 ∈ c.current.received
      · exact h.copy_more hbegun possible
      · exact h.copy_first hbegun turn
  | nextFragment =>
    refine ensures_ok.mpr ⟨possible.2, fun j hj => .inl ?_, h.idle, h.status, h.passedUp⟩
    rcases h.received j hj with hlt | ⟨rfl, -⟩
    · exact Nat.lt_succ_of_lt hlt
    · exact Nat.lt_succ_self _
  | nextMsdu m =>
    refine ensures_ok.mpr ⟨m.length_pos, fun j hj => absurd hj not_mem_nil, h.idle,
      fun hmem => absurd hmem not_mem_nil, ?_⟩
    have hnothing : ¬Transmission.Complete ⟨m, []⟩ := fun hcomplete =>
      absurd (hcomplete 0 m.length_pos) not_mem_nil
    refine (h.passedUp.trans ?_ : c.passedUp S = _)
    refine (completed_eq.trans ?_).symm
    rw [Transmission.passed, if_neg hnothing, append_nil]
    rfl
  | other packet hdr =>
    obtain ⟨⟨p, o⟩, hrun⟩ := exists_receiveFrom packet hdr (c.rx hdr.originator)
    rw [step, forward_eq hrun]
    have hother : update c.rx hdr.originator o S.originator = c.rx S.originator :=
      update_of_ne (Ne.symm possible) ..
    refine ensures_ok.mpr ⟨h.fragment_lt, h.received, ?_, ?_, ?_⟩
    · dsimp only
      rw [hother]
      exact h.idle
    · dsimp only
      rw [hother]
      exact h.status
    · rw [passedUp_append S rfl, if_neg possible, append_nil]
      exact h.passedUp

/-- What is passed up are the MSDUs all fragments of which were received, in order. -/
theorem defragmentation (S : Sender) (m : Msdu) {actions : List Action}
    (along : Along (step S) (fun c a => Possible S c a ∧ InTurn S c a) (Channel.start m) actions) :
    Ensures (exec (step S) (Channel.start m) actions) (fun c => c.passedUp S = c.completed) fun _ =>
      False := by
  have hstart : ChannelOk S (Channel.start m) := by
    have hnothing : ¬Transmission.Complete ⟨m, []⟩ := fun hcomplete =>
      absurd (hcomplete 0 m.length_pos) not_mem_nil
    refine ⟨m.length_pos, fun j hj => absurd hj not_mem_nil, fun _ => rfl,
      fun hmem => absurd hmem not_mem_nil, ?_⟩
    rw [completed_eq]
    exact (if_neg hnothing).symm
  have hok : Ensures (exec (step S) (Channel.start m) actions) (ChannelOk S) fun _ => False :=
    ensures_exec (fun c a hc hguard => step_ok c a hc hguard.1 hguard.2) hstart along
  exact hok.weaken fun c hc => hc.passedUp

instance (S : Sender) (c : Channel) (a : Action) : Decidable (Possible S c a) :=
  match a with
  | .copy _ | .nextFragment | .nextMsdu _ | .other .. => by unfold Possible; infer_instance

instance (S : Sender) (c : Channel) (a : Action) : Decidable (InTurn S c a) :=
  match a with
  | .copy true | .copy false | .nextFragment | .nextMsdu _ | .other .. =>
    by unfold InTurn; infer_instance

def station : Sender := ⟨0x000000000002, some 3, 4095⟩

def longMsdu : Msdu := ⟨0x000000000001, [[1, 2], [3, 4], [5]], by decide, by decide, by decide⟩

def shortMsdu : Msdu := ⟨0x000000000001, [[6]], by decide, by decide, by decide⟩

theorem defragmentation_retransmitted :
    Ensures (exec (step station) (Channel.start longMsdu)
      [.copy false, .copy true, .copy true, .nextFragment,
      .copy true, .nextFragment, .copy true, .copy true, .nextMsdu shortMsdu, .copy false,
        .copy true])
      (fun c => c.passedUp station = c.completed) fun _ => False :=
  defragmentation station longMsdu (by decide +kernel)

/-- After an abandoned MSDU nothing is passed up any more. -/
theorem abandoned_blocks : let actions := [.copy true, .nextMsdu shortMsdu, .copy true]
    Along (step station) (Possible station) (Channel.start longMsdu) actions ∧
      Ensures (exec (step station) (Channel.start longMsdu) actions)
        (fun c => c.passedUp station = [] ∧ c.completed = [[6]]) fun _ => False := by
  decide +kernel

end Egsr.Wifi.Defragmentation
