import Egsr.Lib.Gaps
import Egsr.MyServer.BlockTable

/-! The longest stretch of a road segment without a block, computed from the block list. An open
first block goes into the list first, where the road begins. An open last block goes in before the
inner ones, and its tailer is read behind the end of the members, so the list exists only without
one. -/

namespace Egsr.MyServer.BlankLength

open List

open Grp.Road hiding Fault
open Lib.Outcome Lib.Gaps MyServer.BlockTable

def factor (dir : ℕ) : ℚ := if dir = 0 ∨ dir = 1 then 1 else -1

/-- One round of the loop: `best` is the position so far and the greatest length. -/
def blankRound (dir : ℕ) (best : ℚ × ℚ) (block : BlockInfo) : ℚ × ℚ :=
  let blen := (block.tloc - best.1) * factor dir
  (block.hloc, if best.2 < blen then blen else best.2)

def getMaxBlankLen (map : RoadMap) (block : List BlockInfo) (seg : RoadSegment) : Except Fault ℚ :=
  do
  let dir ← getRoadDirection map seg.sjid seg.ejid
  let s ← mapEntry map seg.sjid
  let e ← mapEntry map seg.ejid
  let epos := along dir e
  let (spos, lmax) := block.foldl (blankRound dir) (along dir s, -1)
  if spos ≠ epos ∧ lmax < (epos - spos) * factor dir then pure ((epos - spos) * factor dir)
    else pure lmax

/-! ## Members along the road -/

def position (dir : ℕ) (info : BlockMemberInfo) : ℚ := factor dir * info.location

/-- The members of blocks one after the other, and the stretches that the blocks cover: a vehicle
that drives alone, or a tailer and its header; the last block may be open. -/
inductive Blocks (dir : ℕ) (stop : ℚ) : List BlockMemberInfo → List (ℚ × ℚ) → Prop
  | nil : Blocks dir stop [] []
  | isolated {info rest blocks} (alone : info.vType = .isolated)
  (others : Blocks dir stop rest blocks) :
      Blocks dir stop (info :: rest) ((position dir info, position dir info) :: blocks)
  | closed {tailer header rest blocks} (back : tailer.vType = .tailer)
  (front : header.vType = .header)
      (others : Blocks dir stop rest blocks) :
      Blocks dir stop (tailer :: header :: rest)
      ((position dir tailer, position dir header) :: blocks)
  | opened {tailer} (back : tailer.vType = .tailer) : Blocks dir stop [tailer]
  [(position dir tailer, stop)]

/-- The same where the first block may be open. -/
inductive Formed (dir : ℕ) (start stop : ℚ) : List BlockMemberInfo → List (ℚ × ℚ) → Prop
  | inner {members blocks} (others : Blocks dir stop members blocks) :
    Formed dir start stop members blocks
  | opened {header rest blocks} (front : header.vType = .header)
  (others : Blocks dir stop rest blocks) :
      Formed dir start stop (header :: rest) ((start, position dir header) :: blocks)

section Positions

variable {dir : ℕ} {start stop : ℚ} {members : List BlockMemberInfo} {blocks : List (ℚ × ℚ)}

theorem Blocks.ordered (h : Blocks dir stop members blocks) (between : start ≤ stop)
    (sorted : members.Pairwise fun a b => position dir a ≤ position dir b)
    (onRoad : ∀ info ∈ members, start ≤ position dir info ∧ position dir info ≤ stop) :
    Ordered stop start blocks := by
  induction h generalizing start with
  | nil => exact between
  | isolated _ _ ih =>
    rw [pairwise_cons] at sorted
    have first := onRoad _ mem_cons_self
    exact ⟨first.1, le_rfl, ih first.2 sorted.2 fun info mem =>
      ⟨sorted.1 info mem, (onRoad info (mem_cons_of_mem _ mem)).2⟩⟩
  | closed _ _ _ ih =>
    rw [pairwise_cons, pairwise_cons] at sorted
    have front := onRoad _ (mem_cons_of_mem _ mem_cons_self)
    exact ⟨(onRoad _ mem_cons_self).1, sorted.1 _ mem_cons_self,
      ih front.2 sorted.2.2 fun info mem =>
      ⟨sorted.2.1 info mem, (onRoad info (mem_cons_of_mem _ (mem_cons_of_mem _ mem))).2⟩⟩
  | opened _ =>
    have back := onRoad _ mem_cons_self
    exact ⟨back.1, back.2, le_rfl⟩

theorem Formed.ordered (h : Formed dir start stop members blocks) (between : start ≤ stop)
    (sorted : members.Pairwise fun a b => position dir a ≤ position dir b)
    (onRoad : ∀ info ∈ members, start ≤ position dir info ∧ position dir info ≤ stop) :
    Ordered stop start blocks := by
  cases h with
  | inner others => exact others.ordered between sorted onRoad
  | opened front others =>
    rw [pairwise_cons] at sorted
    have first := onRoad _ mem_cons_self
    exact ⟨le_rfl, first.1, others.ordered first.2 sorted.2 fun info mem =>
      ⟨sorted.1 info mem, (onRoad info (mem_cons_of_mem _ mem)).2⟩⟩

theorem Formed.blocks_ne_nil (h : Formed dir start stop members blocks)
    (some_member : members ≠ []) : blocks ≠ [] := by
  cases h with
  | inner others =>
    cases others with
    | nil => exact absurd rfl some_member
    | isolated _ _ => exact cons_ne_nil _ _
    | closed _ _ _ => exact cons_ne_nil _ _
    | opened _ => exact cons_ne_nil _ _
  | opened _ _ => exact cons_ne_nil _ _

def stretch (dir : ℕ) (block : BlockInfo) : ℚ × ℚ :=
  (factor dir * block.tloc, factor dir * block.hloc)

theorem Blocks.matchBlocks_eq (h : Blocks dir stop members blocks)
    (closed : ∀ last ∈ members.getLast?, last.vType ≠ .tailer) (rblock : List BlockInfo) :
    (matchBlocks members [] rblock).map (stretch dir) = rblock.map (stretch dir) ++ blocks := by
  induction h generalizing rblock with
  | nil => simp [matchBlocks]
  | @isolated info rest blocks alone others ih =>
    have closed' : ∀ last ∈ rest.getLast?, last.vType ≠ .tailer := by
      intro last hlast
      apply closed last
      rw [List.getLast?_cons, Option.mem_def.mp hlast]
      rfl
    rw [matchBlocks, alone]
    dsimp only
    rw [ih closed', map_append, append_assoc]
    rfl
  | @closed tailer header rest blocks back front others ih =>
    have closed' : ∀ last ∈ rest.getLast?, last.vType ≠ .tailer := by
      intro last hlast
      apply closed last
      rw [List.getLast?_cons, List.getLast?_cons, Option.mem_def.mp hlast]
      rfl
    rw [matchBlocks, back]
    dsimp only
    rw [matchBlocks, front]
    dsimp only
    rw [ih closed', map_append, append_assoc]
    rfl
  | opened back => exact absurd back (closed _ rfl)

theorem foldl_blankRound {block : List BlockInfo} {spos lmax : ℚ} {e : ℚ}
    (ordered : Ordered (factor dir * e) (factor dir * spos) (block.map (stretch dir)))
    (some_block : 0 ≤ lmax ∨ block ≠ []) : (let r := block.foldl (blankRound dir) (spos, lmax)
     if r.1 ≠ e ∧ r.2 < (e - r.1) * factor dir then (e - r.1) * factor dir else r.2) =
      max lmax (longest (factor dir * e) (factor dir * spos) (block.map (stretch dir))) := by
  have oriented : ∀ x y : ℚ, (x - y) * factor dir = factor dir * x - factor dir * y :=
    fun x y => by ring
  induction block generalizing spos lmax with
  | nil =>
    have nonneg := some_block.resolve_right (fun h => h rfl)
    simp only [foldl_nil, map_nil, longest, oriented]
    by_cases same : spos = e
    · rw [if_neg fun h => h.1 same, same, sub_self, max_eq_left nonneg]
    · by_cases longer : lmax < factor dir * e - factor dir * spos
      · rw [if_pos ⟨same, longer⟩, max_eq_right longer.le]
      · rw [if_neg fun h => longer h.2, max_eq_left (not_lt.mp longer)]
  | cons b block ih =>
    have first : (0 : ℚ) ≤ factor dir * b.tloc - factor dir * spos := sub_nonneg.mpr ordered.1
    have best : (if lmax < (b.tloc - spos) * factor dir then (b.tloc - spos) * factor dir
      else lmax) =
        max lmax (factor dir * b.tloc - factor dir * spos) := by
      rw [oriented]
      by_cases longer : lmax < factor dir * b.tloc - factor dir * spos
      · rw [if_pos longer, max_eq_right longer.le]
      · rw [if_neg longer, max_eq_left (not_lt.mp longer)]
    rw [foldl_cons, map_cons, longest, ← max_assoc]
    have rest := @ih b.hloc (max lmax (factor dir * b.tloc - factor dir * spos)) ordered.2.2
      (.inl (first.trans (le_max_right _ _)))
    simp only [blankRound, best]
    exact rest

end Positions

/-! ## The list of a table -/

/-- A segment of the map, from the junction `c` to the junction `n`. -/
structure OnMap (map : RoadMap) (seg : RoadSegment) (dir : ℕ) (c n : DigitalMapEntry) : Prop where
  direction : getRoadDirection map seg.sjid seg.ejid = .ok dir
  first : mapEntry map seg.sjid = .ok c
  last : mapEntry map seg.ejid = .ok n

section Tables

variable {map : RoadMap} {seg : RoadSegment} {dir : ℕ} {c n : DigitalMapEntry}
    {members : List BlockMemberInfo}
  {blocks : List (ℚ × ℚ)}

theorem OnMap.start_le_stop (h : OnMap map seg dir c n) : factor dir * along dir c ≤
    factor dir * along dir n := by
  have hdir := h.direction
  simp only [getRoadDirection, h.first, h.last, bind, Except.bind, pure, Except.pure] at hdir
  split_ifs at hdir with flat east north
  all_goals
    rw [← Except.ok.inj hdir]
    simp only [factor, along]
    norm_num
    linarith

theorem blocksOf_stretches (onMap : OnMap map seg dir c n) {stop : ℚ}
    (formed : Formed dir (factor dir * along dir c) stop members blocks)
    (some_member : members ≠ []) (closed : ∀ last ∈ members.getLast?, last.vType ≠ .tailer) :
    ∃ rblock, blocksOf map seg dir members = .ok rblock ∧ rblock.map (stretch dir) = blocks := by
  have hlast : members.getLast? = some (members.getLast some_member) :=
    List.getLast?_eq_some_getLast some_member
  have notTailer := closed _ hlast
  cases formed with
  | inner others =>
    have notHeader : ∀ first ∈ members.head?, first.vType ≠ .header := by
      intro first hfirst
      cases others with
      | nil => cases hfirst
      | isolated alone _ => cases hfirst; rw [alone]; decide
      | closed back _ _ => cases hfirst; rw [back]; decide
      | opened back => cases hfirst; rw [back]; decide
    obtain ⟨first, hfirst⟩ := member_head some_member
    have head : first.vType ≠ .header := by
      apply notHeader first
      cases members with
      | nil => exact absurd rfl some_member
      | cons info rest => exact congrArg some (Except.ok.inj hfirst)
    refine ⟨matchBlocks members [] [], ?_, others.matchBlocks_eq closed []⟩
    simp only [blocksOf, hfirst, member_last hlast, bind, Except.bind, if_neg head,
      if_neg notTailer, pure, Except.pure, take_length, drop_zero]
  | @opened header rest blocks front others =>
    have closed' : ∀ last ∈ rest.getLast?, last.vType ≠ .tailer := by
      intro last hlast
      apply closed last
      rw [List.getLast?_cons, Option.mem_def.mp hlast]
      rfl
    refine ⟨matchBlocks rest [] [⟨header.location, along dir c⟩], ?_, ?_⟩
    · have hfirst : member (header :: rest) 0 = .ok header := rfl
      simp only [blocksOf, hfirst, member_last hlast, onMap.first, bind, Except.bind, if_pos front,
        if_neg notTailer, pure, Except.pure, take_length, drop_one, tail_cons]
    · rw [others.matchBlocks_eq closed' _]
      rfl

/-- The greatest length that comes out is that of the longest stretch without a block. -/
theorem getMaxBlankLen_isGreatest (onMap : OnMap map seg dir c n) {rblock : List BlockInfo}
    (hblocks : rblock.map (stretch dir) = blocks) (some_block : rblock ≠ [])
    (ordered : Ordered (factor dir * along dir n) (factor dir * along dir c) blocks) :
    ∃ len, getMaxBlankLen map rblock seg = .ok len ∧ IsGreatest
      {l | ∃ a b, Blank (factor dir * along dir c) (factor dir * along dir
        n) blocks a b ∧ l = b - a} len := by
  subst hblocks
  have nonempty : 0 ≤ (-1 : ℚ) ∨ rblock ≠ [] := .inr some_block
  have best := foldl_blankRound ordered nonempty
  have nonneg := longest_nonneg ordered
  rw [max_eq_right (by linarith)] at best
  refine ⟨_, ?_, isGreatest_longest ordered⟩
  rw [← best]
  simp only [getMaxBlankLen, onMap.direction, onMap.first, onMap.last, bind, Except.bind]
  split_ifs <;> rfl

variable [Runtime]

theorem sortMembers_sorted (dir : ℕ) (members : List BlockMemberInfo) :
    (sortMembers dir members).Pairwise fun a b => position dir a ≤ position dir b := by
  by_cases up : dir = 0 ∨ dir = 1
  · rw [sortMembers, if_pos up]
    have sorted : (Runtime.sort blockSortFunU members).Pairwise fun a b =>
        blockSortFunU b a = false := by
      apply Runtime.sort_sorted
      · intro a b before
        simp only [blockSortFunU, decide_eq_true_eq, decide_eq_false_iff_not] at before ⊢
        exact before.not_gt
      · intro a b c hab hbc
        simp only [blockSortFunU, decide_eq_false_iff_not, not_lt] at hab hbc ⊢
        exact hab.trans hbc
    refine sorted.imp fun h => ?_
    simp only [blockSortFunU, decide_eq_false_iff_not, not_lt] at h
    simpa only [position, factor, if_pos up, one_mul] using h
  · rw [sortMembers, if_neg up]
    have sorted : (Runtime.sort blockSortFunD members).Pairwise fun a b =>
        blockSortFunD b a = false := by
      apply Runtime.sort_sorted
      · intro a b before
        simp only [blockSortFunD, decide_eq_true_eq, decide_eq_false_iff_not] at before ⊢
        exact before.not_gt
      · intro a b c hab hbc
        simp only [blockSortFunD, decide_eq_false_iff_not, not_lt] at hab hbc ⊢
        exact hbc.trans hab
    refine sorted.imp fun h => ?_
    simp only [blockSortFunD, decide_eq_false_iff_not, not_lt] at h
    simpa only [position, factor, if_neg up, neg_mul, one_mul, neg_le_neg_iff] using h

/-- The update reads only members that exist, and the length computed from its list is that of the
longest stretch between the junctions that meets no block. -/
def Measures (s : Server) (seg : RoadSegment) (start stop : ℚ) (blocks : List (ℚ × ℚ)) : Prop :=
  ∃ s' len, updateAvailableBlock s seg = .ok s' ∧ getMaxBlankLen s'.map (s'.blocklist seg) seg =
    .ok len ∧ IsGreatest {l | ∃ a b, Blank start stop blocks a b ∧ l = b - a} len

/-- For a table in order along the road this is so just if its last block is not open. -/
theorem measures_iff {s : Server} (onMap : OnMap s.map seg dir c n)
    (some_member : s.bnodeTable seg ≠ [])
    (formed : Formed dir (factor dir * along dir c) (factor dir * along dir n)
      (sortMembers dir (s.bnodeTable seg))
      blocks) (onRoad : ∀ info ∈ s.bnodeTable seg, factor dir * along dir c ≤ position dir info ∧
      position dir info ≤ factor dir * along dir n) :
    Measures s seg (factor dir * along dir c) (factor dir * along dir n) blocks ↔
      ∀ last ∈ (sortMembers dir (s.bnodeTable seg)).getLast?, last.vType ≠ .tailer := by
  have perm := sortMembers_perm dir (s.bnodeTable seg)
  have some_sorted : sortMembers dir (s.bnodeTable seg) ≠ [] := fun empty =>
    some_member (nil_perm.mp (empty ▸ perm))
  constructor
  · intro measures last hlast
    obtain ⟨s', len, update, -⟩ := measures
    rw [updateAvailableBlock_eq, if_neg some_member] at update
    obtain ⟨rblock, hrblock, -⟩ := map_ok_inv update
    exact (readable_iff onMap.direction hlast).mp ((availableBlocks_spec some_member).of_ok hrblock)
  · intro closed
    obtain ⟨rblock, hrblock, hblocks⟩ := blocksOf_stretches onMap formed some_sorted closed
    have available : availableBlocks s.map seg (s.bnodeTable seg) = .ok rblock := by
      rw [availableBlocks, if_neg (by simpa using some_member), onMap.direction]
      exact hrblock
    have ordered := formed.ordered onMap.start_le_stop (sortMembers_sorted dir _) fun info mem =>
      onRoad info (perm.mem_iff.mp mem)
    have some_block : rblock ≠ [] := by
      rintro rfl
      exact formed.blocks_ne_nil some_sorted hblocks.symm
    obtain ⟨len, hlen, greatest⟩ := getMaxBlankLen_isGreatest onMap hblocks some_block ordered
    refine ⟨{ s with blocklist := Function.update s.blocklist seg rblock }, len, ?_, ?_, greatest⟩
    · rw [updateAvailableBlock_eq, if_neg some_member, available]
      rfl
    · simpa using hlen

end Tables

def rear : BlockMemberInfo := ⟨.tailer, 2, 0, 100, 0⟩
def front : BlockMemberInfo := ⟨.header, 1, 0, 300, 0⟩
def single : BlockMemberInfo := ⟨.isolated, 3, 0, 700, 0⟩

def carrying (members : List BlockMemberInfo) : Server :=
  { start shortRoad with bnodeTable := fun _ => members }

def west : DigitalMapEntry := ⟨0, 0, ∅⟩
def east : DigitalMapEntry := ⟨1000, 0, ∅⟩

theorem shortRoad_onMap : OnMap shortRoad ⟨0, 1⟩ 0 west east where
  direction := by
    have hdir : Ensures (getRoadDirection shortRoad 0 1) (fun dir => dir = 0) fun _ => False := by
      decide +kernel
    obtain ⟨dir, run, rfl⟩ := hdir.exists_ok
    exact run
  first := rfl
  last := rfl

/-- A block from 100 to 300 and a vehicle that drives alone at 700. -/
theorem measures_iff_inner :
    @Measures exactRuntime (carrying [front, single, rear]) ⟨0, 1⟩ (factor 0 * along 0 west)
    (factor 0 * along 0 east)
      [(position 0 rear, position 0 front), (position 0 single, position 0 single)] := by
  have sorted : @sortMembers exactRuntime 0 [front, single, rear] = [rear, front, single] := by
    decide +kernel
  have onRoad : ∀ info ∈ [front, single, rear],
      factor 0 * along 0 west ≤ position 0 info ∧ position 0 info ≤ factor 0 * along 0 east := by
    decide +kernel
  have formed : Formed 0 (factor 0 * along 0 west) (factor 0 * along 0 east)
      (@sortMembers exactRuntime 0 [front, single, rear])
      [(position 0 rear, position 0 front), (position 0 single, position 0 single)] :=
    sorted ▸ .inner (.closed rfl rfl (.isolated rfl .nil))
  refine (@measures_iff _ _ _ _ _ exactRuntime (carrying [front, single, rear]) shortRoad_onMap
    (cons_ne_nil _ _) formed onRoad).mpr ?_
  intro last hlast
  change last ∈ (@sortMembers exactRuntime 0 [front, single, rear]).getLast? at hlast
  rw [sorted] at hlast
  cases hlast
  decide

/-- A block that is still open at the end of the road: its tailer is read behind the end. -/
theorem openBlock_unmeasured : Formed 0 (factor 0 * along 0 west) (factor 0 * along 0 east)
      (@sortMembers exactRuntime 0 ((carrying [rear]).bnodeTable ⟨0, 1⟩))
      [(position 0 rear, factor 0 * along 0 east)] ∧
    (factor 0 * along 0 west ≤ position 0 rear ∧ position 0 rear ≤ factor 0 * along 0 east) ∧
    @updateAvailableBlock exactRuntime (carrying [rear]) ⟨0, 1⟩ = .error .pastTheEnd := by
  have sorted : @sortMembers exactRuntime 0 [rear] = [rear] := by decide +kernel
  refine ⟨?_, by decide +kernel, ?_⟩
  · change Formed _ _ _ (@sortMembers exactRuntime 0 [rear]) _
    rw [sorted]
    exact .inner (.opened rfl)
  · have fault :
      Ensures (@updateAvailableBlock exactRuntime (carrying [rear]) ⟨0, 1⟩) (fun _ => False)
        fun e => e = .pastTheEnd := by
      decide +kernel
    exact fault.eq_error

end Egsr.MyServer.BlankLength
