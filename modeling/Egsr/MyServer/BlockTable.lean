import Mathlib.Data.List.Sort
import Egsr.Grp.Road
import Egsr.Lib.KeyedTable

/-! The road-side server's table of block members for each road segment, and the
list of vehicle blocks it derives from it. Vehicles report themselves as the
header or the tailer of a block or as isolated; a report replaces the vehicle's
earlier one and schedules a purge of the segment. Locations and coordinates are
exact; simulation time is counted in nanoseconds. -/

namespace Egsr.MyServer.BlockTable

open Grp.Road Lib Lib.Outcome Lib.KeyedTable List Function

structure RoadSegment where
  sjid : ℤ
  ejid : ℤ
  deriving DecidableEq

inductive VehType where
  | header
  | tailer
  | isolated
  deriving DecidableEq

structure BlockMemberInfo where
  vType : VehType
  id : ℤ
  dir : ℤ
  location : ℚ
  time : ℤ
  deriving DecidableEq

structure BlockInfo where
  hloc : ℚ
  tloc : ℚ
  deriving DecidableEq

/-- A junction that is not on the map is read, or a member behind the last one. -/
inductive Fault where
  | outOfMap
  | pastTheEnd
  deriving DecidableEq

/-- What the code relies on: the seconds a time in nanoseconds is rounded to, and the sort of the
standard library, which may order equal elements as it likes. -/
class Runtime where
  getSeconds : ℤ → ℚ
  sort : (BlockMemberInfo → BlockMemberInfo → Bool) → List BlockMemberInfo → List BlockMemberInfo
  sort_perm : ∀ lt members, (sort lt members).Perm members
  sort_sorted : ∀ lt members, (∀ a b, lt a b → lt b a = false) →
    (∀ a b c, lt b a = false → lt c b = false → lt c a = false) →
    (sort lt members).Pairwise fun a b => lt b a = false

def blockSortFunU (info1 info2 : BlockMemberInfo) : Bool := info1.location < info2.location

def blockSortFunD (info1 info2 : BlockMemberInfo) : Bool := info1.location > info2.location

/-! ## The server -/

/-- The server's tables, the time of the last event and the purges that are scheduled. -/
structure Server where
  map : RoadMap
  bnodeTable : RoadSegment → List BlockMemberInfo
  blocklist : RoadSegment → List BlockInfo
  now : ℤ
  events : List (ℤ × RoadSegment)

variable (map : RoadMap)

def start : Server where
  map := map
  bnodeTable _ := []
  blocklist _ := []
  now := 0
  events := []

def mapEntry (jid : ℤ) : Except Fault DigitalMapEntry :=
  match map[jid.toNat]? with
  | some entry => if 0 ≤ jid then pure entry else throw .outOfMap
  | none => throw .outOfMap

def getRoadDirection (i j : ℤ) : Except Fault ℕ := do
  let c ← mapEntry map i
  let n ← mapEntry map j
  if n.y = c.y then
    if c.x < n.x then pure 0 else pure 2
  else
    if c.y < n.y then pure 1 else pure 3

def member (rlist : List BlockMemberInfo) (itr : ℕ) : Except Fault BlockMemberInfo :=
  match rlist[itr]? with
  | some info => pure info
  | none => throw .pastTheEnd

def along (dir : ℕ) (entry : DigitalMapEntry) : ℚ := if dir = 0 ∨ dir = 2 then entry.x else entry.y

/-- The loop over the members between the open blocks, with the stack of tailers. -/
def matchBlocks : List BlockMemberInfo → List BlockMemberInfo → List BlockInfo → List BlockInfo
  | [], _, rblock => rblock
  | info :: rest, bstack, rblock =>
    match info.vType with
    | .isolated => matchBlocks rest bstack (rblock ++ [⟨info.location, info.location⟩])
    | .tailer => matchBlocks rest (info :: bstack) rblock
    | .header =>
      match bstack with
      | [] => matchBlocks rest [] rblock
      | tailer :: bstack =>
        matchBlocks rest bstack (rblock ++ [⟨info.location, tailer.location⟩])

def blocksOf (seg : RoadSegment) (dir : ℕ) (rlist : List BlockMemberInfo) :
    Except Fault (List BlockInfo) := do
  let rend := rlist.length
  let first ← member rlist 0
  let (itr, rblock) ←
    if first.vType = .header then do
      let sjunction ← mapEntry map seg.sjid
      pure (1, [⟨first.location, along dir sjunction⟩])
    else pure (0, [])
  let last ← member rlist (rend - 1)
  let (rend, rblock) ←
    if last.vType = .tailer then do
      let ejunction ← mapEntry map seg.ejid
      -- The end iterator is dereferenced here, before it is moved back.
      let behind ← member rlist rend
      pure (rend - 1, rblock ++ [⟨along dir ejunction, behind.location⟩])
    else pure (rend, rblock)
  pure (matchBlocks ((rlist.take rend).drop itr) [] rblock)

section Operations

variable [Runtime]

def sortMembers (dir : ℕ) (rlist : List BlockMemberInfo) : List BlockMemberInfo :=
  if dir = 0 ∨ dir = 1 then Runtime.sort blockSortFunU rlist else Runtime.sort blockSortFunD rlist

variable (s : Server) (seg : RoadSegment)

def updateAvailableBlock : Except Fault Server := do
  let rlist := s.bnodeTable seg
  if rlist.isEmpty then
    pure s
  else
    let dir ← getRoadDirection s.map seg.sjid seg.ejid
    let rblock ← blocksOf s.map seg dir (sortMembers dir rlist)
    pure { s with blocklist := update s.blocklist seg rblock }

/-- The loop that erases members while it goes through the list. The time of a member is converted
to a number of nanoseconds before it is compared with a number of seconds. -/
def purgeLoop (time : ℚ) : List BlockMemberInfo → List BlockMemberInfo → List BlockMemberInfo
  | kept, [] => kept
  | kept, info :: rest =>
    if (info.time : ℚ) < time then purgeLoop time kept rest
      else purgeLoop time (kept ++ [info]) rest

def purgeBlockInfo : Except Fault Server :=
  let rlist := purgeLoop (Runtime.getSeconds s.now) [] (s.bnodeTable seg)
  updateAvailableBlock { s with bnodeTable := update s.bnodeTable seg rlist } seg

/-- `Seconds (BlockUpdateTime + 0.1)`. -/
def purgeDelay : ℤ := 1100000000

def addBlockInfo (info : BlockMemberInfo) : Except Fault Server := do
  let rlist := (s.bnodeTable seg).eraseP (fun member => member.id = info.id) ++ [info]
  let s ← updateAvailableBlock { s with bnodeTable := update s.bnodeTable seg rlist } seg
  pure { s with events := s.events ++ [(s.now + purgeDelay, seg)] }

/-! ## Runs -/

inductive Action where
  | add (time : ℤ) (seg : RoadSegment) (info : BlockMemberInfo)
  | purge (time : ℤ) (seg : RoadSegment)
  deriving DecidableEq

def Action.time : Action → ℤ
  | .add time _ _ => time
  | .purge time _ => time

def step : Action → Except Fault Server
  | .add time seg info => addBlockInfo { s with now := time } seg info
  | .purge time seg =>
    purgeBlockInfo { s with now := time, events := s.events.erase (time, seg) } seg

/-- Time does not go back, and a purge is one that was scheduled for this time. -/
def Scheduled (a : Action) : Prop :=
  s.now ≤ a.time ∧
    match a with
    | .add _ _ _ => True
    | .purge time seg => (time, seg) ∈ s.events

instance decidableScheduled (s : Server) : ∀ a, Decidable (Scheduled s a)
  | .add .. | .purge .. => by unfold Scheduled; infer_instance

/-- The members can be turned into blocks: the segment is on the map, and the last of its members
in driving direction is not a tailer. -/
def Readable (members : List BlockMemberInfo) : Prop :=
  Ensures (getRoadDirection map seg.sjid seg.ejid)
    (fun dir => ∀ info ∈ (sortMembers dir members).getLast?, info.vType ≠ .tailer) fun _ => False
deriving Decidable

def unexpired (time : ℤ) (members : List BlockMemberInfo) : List BlockMemberInfo :=
  members.filter fun info => time ≤ info.time

/-- After a report the members can be turned into blocks. In a purge the comparison of nanoseconds
with seconds comes out as that of the two times, and the purge leaves members that can be turned
into blocks, or there were none before. -/
def Sound : Action → Prop
  | .add _ seg info => Readable s.map seg (put BlockMemberInfo.id (s.bnodeTable seg) info)
  | .purge time seg =>
    (∀ info ∈ s.bnodeTable seg, (info.time : ℚ) < Runtime.getSeconds time ↔ info.time < time) ∧
      (s.bnodeTable seg = [] ∨ unexpired time (s.bnodeTable seg) ≠ [] ∧
          Readable s.map seg (unexpired time (s.bnodeTable seg)))

instance decidableSound (s : Server) : ∀ a, Decidable (Sound s a)
  | .add .. | .purge .. => by unfold Sound; infer_instance

end Operations

/-! ## Blocks of a table -/

theorem getRoadDirection_spec (i j : ℤ) : Ensures (getRoadDirection map i j)
      (fun _ => (∃ c, mapEntry map i = .ok c) ∧ ∃ n, mapEntry map j = .ok n) fun _ => True := by
  unfold getRoadDirection
  refine (ensures_self (mapEntry map i)).mono (fun c hc => hc) (fun _ _ => trivial) |>.bind ?_
  intro c hc
  refine (ensures_self (mapEntry map j)).mono (fun n hn => hn) (fun _ _ => trivial) |>.bind ?_
  intro n hn
  have both : (∃ c, mapEntry map i = .ok c) ∧ ∃ n, mapEntry map j = .ok n := ⟨⟨c, hc⟩, n, hn⟩
  refine Ensures.ite (fun _ => ?_) fun _ => ?_
  · exact Ensures.ite (fun _ => both) fun _ => both
  · exact Ensures.ite (fun _ => both) fun _ => both

variable {rlist : List BlockMemberInfo}

theorem member_last {info : BlockMemberInfo}
    (last : rlist.getLast? = some info) : member rlist (rlist.length - 1) = .ok info := by
  rw [List.getLast?_eq_getElem?] at last
  rw [member, last]
  rfl

theorem member_head (some_member : rlist ≠ []) : ∃ first, member rlist 0 = .ok first := by
  cases rlist with
  | nil => exact absurd rfl some_member
  | cons first rest => exact ⟨first, rfl⟩

theorem member_end (rlist : List BlockMemberInfo) :
    member rlist rlist.length = .error .pastTheEnd := by
  rw [member, List.getElem?_eq_none le_rfl]
  rfl

theorem blocksOf_spec {map : RoadMap} {seg : RoadSegment} {dir : ℕ}
    {c : DigitalMapEntry} (on_map : mapEntry map seg.sjid = .ok c)
    {info : BlockMemberInfo} (last : rlist.getLast? = some info) :
    Ensures (blocksOf map seg dir rlist) (fun _ => info.vType ≠ .tailer)
      fun _ => info.vType = .tailer := by
  have some_member : rlist ≠ [] := by
    rintro rfl
    cases last
  obtain ⟨first, hfirst⟩ := member_head some_member
  simp only [blocksOf, hfirst, on_map, member_last last, bind, Except.bind]
  by_cases header : first.vType = .header <;> by_cases tailer : info.vType = .tailer
  all_goals simp only [header, tailer, if_true, if_false, pure, Except.pure]
  all_goals cases mapEntry map seg.ejid <;> simp [member_end, tailer]

variable (history : List Action)

def added (seg : RoadSegment) : List BlockMemberInfo :=
  history.filterMap fun
    | .add _ other info => if other = seg then some info else none
    | .purge _ _ => none

theorem added_add_self (time : ℤ) (seg : RoadSegment) (info : BlockMemberInfo) :
    added (history ++ [.add time seg info]) seg = added history seg ++ [info] := by
  simp [added]

theorem added_add_other (time : ℤ) {seg other : RoadSegment}
    (differ : other ≠ seg) (info : BlockMemberInfo) :
    added (history ++ [.add time seg info]) other = added history other := by
  simp [added, differ.symm]

theorem added_purge (time : ℤ) (seg other : RoadSegment) :
    added (history ++ [.purge time seg]) other = added history other := by
  simp [added]

theorem purgeLoop_eq (time : ℚ) (kept rest : List BlockMemberInfo) :
    purgeLoop time kept rest = kept ++ rest.filter fun info => ¬(info.time : ℚ) < time := by
  induction rest generalizing kept with
  | nil => simp [purgeLoop]
  | cons info rest ih =>
    by_cases expired : (info.time : ℚ) < time
    · rw [purgeLoop, if_pos expired, ih, filter_cons_of_neg (by simpa using expired)]
    · rw [purgeLoop, if_neg expired, ih, filter_cons_of_pos (by simpa using expired)]
      simp

section Table

variable [Runtime]

/-- The block list that belongs to a table of members. -/
def availableBlocks (seg : RoadSegment) (members : List BlockMemberInfo) :
    Except Fault (List BlockInfo) :=
  if members.isEmpty then pure []
  else do
    let dir ← getRoadDirection map seg.sjid seg.ejid
    blocksOf map seg dir (sortMembers dir members)

@[simp] theorem availableBlocks_nil (seg : RoadSegment) : availableBlocks map seg [] = .ok [] := rfl

theorem sortMembers_perm (dir : ℕ) (members : List BlockMemberInfo) :
    (sortMembers dir members).Perm members := by
  by_cases h : dir = 0 ∨ dir = 1
  · rw [sortMembers, if_pos h]
    exact Runtime.sort_perm _ _
  · rw [sortMembers, if_neg h]
    exact Runtime.sort_perm _ _

variable {members : List BlockMemberInfo}

theorem readable_iff {map : RoadMap} {seg : RoadSegment}
    {dir : ℕ} (hdir : getRoadDirection map seg.sjid seg.ejid = .ok dir) {info : BlockMemberInfo}
    (last : (sortMembers dir members).getLast? = some info) :
    Readable map seg members ↔ info.vType ≠ .tailer := by
  simp [Readable, hdir, last]

theorem availableBlocks_spec {map : RoadMap} {seg : RoadSegment} (some_member : members ≠ []) :
    Ensures (availableBlocks map seg members) (fun _ => Readable map seg members)
      fun _ => ¬Readable map seg members := by
  rw [availableBlocks, if_neg (by simpa using some_member)]
  have direction := getRoadDirection_spec map seg.sjid seg.ejid
  cases hdir : getRoadDirection map seg.sjid seg.ejid with
  | error e => simp [Readable, hdir, bind, Except.bind]
  | ok dir =>
    obtain ⟨⟨c, hc⟩, -⟩ := direction.of_ok hdir
    have sorted_member : sortMembers dir members ≠ [] := fun empty =>
      some_member (nil_perm.mp (empty ▸ sortMembers_perm dir members))
    have last := List.getLast?_eq_some_getLast sorted_member
    refine (blocksOf_spec hc last).mono (fun _ => (readable_iff hdir last).mpr) ?_
    intro _ tailer readable
    exact (readable_iff hdir last).mp readable tailer

theorem updateAvailableBlock_eq (s : Server) (seg : RoadSegment) : updateAvailableBlock s seg =
      if s.bnodeTable seg = [] then .ok s
      else (availableBlocks s.map seg (s.bnodeTable seg)).map fun rblock =>
        { s with blocklist := update s.blocklist seg rblock } := by
  by_cases empty : s.bnodeTable seg = []
  · simp [updateAvailableBlock, empty, pure, Except.pure]
  · simp only [updateAvailableBlock, availableBlocks, List.isEmpty_iff, if_neg empty]
    cases getRoadDirection s.map seg.sjid seg.ejid with
    | error e => rfl
    | ok dir =>
      simp only [bind, Except.bind]
      cases blocksOf s.map seg dir (sortMembers dir (s.bnodeTable seg)) <;> rfl

/-- The block lists of a server are those that belong to its tables. -/
def Current (s : Server) : Prop :=
  ∀ seg, availableBlocks s.map seg (s.bnodeTable seg) = .ok (s.blocklist seg)

theorem Current.eq_nil {s : Server} {seg : RoadSegment} (current : Current s)
    (empty : s.bnodeTable seg = []) : s.blocklist seg = [] := by
  have list := current seg
  rw [empty, availableBlocks_nil] at list
  exact (Except.ok.inj list).symm

theorem updateAvailableBlock_spec {s : Server} {seg : RoadSegment} (others : ∀ other ≠ seg,
      availableBlocks s.map other (s.bnodeTable other) = .ok (s.blocklist other))
    (readable : s.bnodeTable seg = [] ∧ s.blocklist seg = [] ∨
      s.bnodeTable seg ≠ [] ∧ Readable s.map seg (s.bnodeTable seg)) :
    Ensures (updateAvailableBlock s seg)
      (fun s' => Current s' ∧ s' = { s with blocklist := s'.blocklist }) fun _ => False := by
  rw [updateAvailableBlock_eq]
  rcases readable with ⟨empty, none⟩ | ⟨some_member, readable⟩
  · rw [if_pos empty]
    refine ⟨fun other => ?_, rfl⟩
    by_cases same : other = seg
    · rw [same, empty, none, availableBlocks_nil]
    · exact others other same
  · rw [if_neg some_member, ensures_map]
    have computed : Ensures (availableBlocks s.map seg (s.bnodeTable seg))
        (fun rblock => availableBlocks s.map seg (s.bnodeTable seg) = .ok rblock)
        fun _ => False :=
      ((ensures_self _).and_ok fun _ _ => trivial).mono (fun _ h => h.1) fun e he =>
        ((availableBlocks_spec some_member).of_error he) readable
    refine computed.weaken fun rblock hblock => ⟨fun other => ?_, rfl⟩
    by_cases same : other = seg
    · subst same
      simpa using hblock
    · simpa [same] using others other same

/-! ## Steps -/

theorem purgeLoop_eq_unexpired {time : ℤ}
    (compare : ∀ info ∈ members, (info.time : ℚ) < Runtime.getSeconds time ↔ info.time < time) :
    purgeLoop (Runtime.getSeconds time) [] members = unexpired time members := by
  rw [purgeLoop_eq, nil_append, unexpired]
  refine filter_congr fun info hinfo => ?_
  simp [compare info hinfo]

/-- The tables hold the latest records of the history, all those that have not expired, and right
after a purge only those; the block lists belong to the tables. -/
structure Inv (history : List Action) (s : Server) : Prop where
  tracks : ∀ seg, Tracks BlockMemberInfo.id (fun info => s.now ≤ info.time) (added history seg)
    (s.bnodeTable seg)
  current : Current s
  purged : ∀ time seg, history.getLast? = some (.purge time seg) →
    s.now = time ∧ ∀ info ∈ s.bnodeTable seg, time ≤ info.time

theorem start_inv : Inv [] (start map) where
  tracks _ := Tracks.nil
  current _ := rfl
  purged := by simp

theorem add_inv {history : List Action} {s : Server} (h : Inv history s) {time : ℤ}
    {seg : RoadSegment} {info : BlockMemberInfo} (scheduled : Scheduled s (.add time seg info))
    (sound : Sound s (.add time seg info)) :
    Ensures (step s (.add time seg info)) (Inv (history ++ [.add time seg info]))
      fun _ => False := by
  have later : ∀ info : BlockMemberInfo, time ≤ info.time → s.now ≤ info.time :=
    fun _ counts => scheduled.1.trans counts
  have table : (s.bnodeTable seg).eraseP (fun member => member.id = info.id) ++ [info] =
      put BlockMemberInfo.id (s.bnodeTable seg) info := rfl
  rw [step, addBlockInfo]
  simp only [table]
  refine (updateAvailableBlock_spec (fun other differ => ?_) (.inr ?_)).bind ?_
  · simpa [differ] using h.current other
  · simp only [update_self]
    exact ⟨by simp [put], sound⟩
  rintro s' ⟨current, rest⟩
  refine ⟨fun other => ?_, current, by simp⟩
  rw [rest]
  by_cases same : other = seg
  · rw [same, added_add_self]
    simpa using ((h.tracks seg).weaken later).put info
  · rw [added_add_other history time same]
    simpa [same] using (h.tracks other).weaken later

theorem purge_inv {history : List Action} {s : Server} (h : Inv history s) {time : ℤ}
    {seg : RoadSegment} (scheduled : Scheduled s (.purge time seg))
    (sound : Sound s (.purge time seg)) :
    Ensures (step s (.purge time seg)) (Inv (history ++ [.purge time seg])) fun _ => False := by
  have later : ∀ info : BlockMemberInfo, time ≤ info.time → s.now ≤ info.time :=
    fun _ counts => scheduled.1.trans counts
  rw [step, purgeBlockInfo]
  simp only [purgeLoop_eq_unexpired sound.1]
  refine (updateAvailableBlock_spec (fun other differ => ?_) ?_).weaken ?_
  · simpa [differ] using h.current other
  · rcases sound.2 with empty | left
    · exact .inl ⟨by simp [empty, unexpired], h.current.eq_nil empty⟩
    · exact .inr (by simpa using left)
  rintro s' ⟨current, rest⟩
  refine ⟨fun other => ?_, current, fun time' seg' last => ?_⟩
  · rw [rest, added_purge]
    by_cases same : other = seg
    · subst same
      simpa [unexpired] using (h.tracks other).filter later fun info _ counts => by
        simpa using counts
    · simpa [same] using (h.tracks other).weaken later
  · obtain ⟨rfl, rfl⟩ : time = time' ∧ seg = seg' := by simpa using last
    rw [rest]
    refine ⟨rfl, fun info hinfo => ?_⟩
    have kept : info ∈ unexpired time (s.bnodeTable seg) := by simpa using hinfo
    simpa using (mem_filter.mp kept).2

/-- What the tables and block lists are meant to be after the actions of a history. -/
structure UpToDate (history : List Action) (s : Server) : Prop where
  one_per_vehicle : ∀ seg, ((s.bnodeTable seg).map BlockMemberInfo.id).Nodup
  last_added : ∀ seg, ∀ info ∈ s.bnodeTable seg,
    latest BlockMemberInfo.id (added history seg) info.id = some info
  purged : ∀ time seg, history.getLast? = some (.purge time seg) → ∀ info,
    info ∈ s.bnodeTable seg ↔
      latest BlockMemberInfo.id (added history seg) info.id = some info ∧ time ≤ info.time
  current : Current s

theorem Inv.upToDate {history : List Action} {s : Server} (h : Inv history s) :
    UpToDate history s where
  one_per_vehicle seg := (h.tracks seg).distinct
  last_added seg := (h.tracks seg).latest_of_mem
  purged time seg last := by
    obtain ⟨rfl, all⟩ := h.purged time seg last
    exact (h.tracks seg).mem_iff all
  current := h.current

/-- In every run of reports and of the purges they schedule that meets the condition, no read goes
outside and the tables and block lists are up to date. -/
theorem blockTable_upToDate (map : RoadMap) (history : List Action)
    (run : Run.Along step (fun s a => Scheduled s a ∧ Sound s a) (start map) history) :
    Ensures (Run.exec step (start map) history) (UpToDate history) fun _ => False := by
  refine (ensures_exec_history (fun done s a h guard => ?_) (start_inv map)
    run).weaken fun _ h => h.upToDate
  cases a with
  | add time seg info => exact add_inv h guard.1 guard.2
  | purge time seg => exact purge_inv h guard.1 guard.2

end Table

@[reducible] def exactRuntime : Runtime where
  getSeconds time := time / 1000000000
  sort lt members := members.insertionSort fun a b => lt b a = false
  sort_perm lt members := perm_insertionSort _ members
  sort_sorted lt members asymm trans := by
    have : Std.Total fun a b => lt b a = false :=
      ⟨fun a b => by cases h : lt b a with
        | false => exact .inl rfl
        | true => exact .inr (asymm b a h)⟩
    have : IsTrans BlockMemberInfo fun a b => lt b a = false := ⟨trans⟩
    exact pairwise_insertionSort _ members

def shortRoad : RoadMap := [⟨0, 0, ∅⟩, ⟨1000, 0, ∅⟩]

/-- A block of two vehicles, reported head first, and a vehicle that drives alone and reports twice;
nothing expires before the purge. -/
def reports : List Action :=
  [.add 0 ⟨0, 1⟩ ⟨.header, 1, 0, 300, 5000000000⟩, .add 0 ⟨0, 1⟩ ⟨.tailer, 2, 0, 100, 5000000000⟩,
    .add 200 ⟨0, 1⟩ ⟨.isolated, 3, 0, 700, 2000000000⟩,
    .add 300 ⟨0, 1⟩ ⟨.isolated, 3, 0, 710, 5000000000⟩,
    .purge 1100000000 ⟨0, 1⟩]

theorem blockTable_upToDate_reports :
    ∃ s, Run.exec (@step exactRuntime) (start shortRoad) reports = .ok s ∧
      @UpToDate exactRuntime reports s :=
  (@blockTable_upToDate exactRuntime shortRoad reports (by decide +kernel)).exists_ok

def shortLived : BlockMemberInfo := ⟨.isolated, 1, 0, 700, 1000000000⟩

def expired : BlockMemberInfo := ⟨.isolated, 1, 0, 700, 0⟩

def lateReport (info : BlockMemberInfo) : List Action :=
  [.add 0 ⟨0, 1⟩ info, .purge purgeDelay ⟨0, 1⟩]

theorem lateReport_scheduled {info : BlockMemberInfo} (h : info = shortLived ∨ info = expired) :
    Run.Along (@step exactRuntime) Scheduled (start shortRoad) (lateReport info) := by
  rcases h with rfl | rfl <;> decide +kernel

/-- The purge compares nanoseconds with seconds and keeps a member that has expired; when it does
take out the last member, the block list stays. -/
theorem lateReport_not_upToDate :
    (Run.Along (@step exactRuntime) Scheduled (start shortRoad) (lateReport shortLived) ∧
      ¬Ensures (Run.exec (@step exactRuntime) (start shortRoad) (lateReport shortLived))
        (@UpToDate exactRuntime (lateReport shortLived)) fun _ => False) ∧
    (Run.Along (@step exactRuntime) Scheduled (start shortRoad) (lateReport expired) ∧
      ¬Ensures (Run.exec (@step exactRuntime) (start shortRoad) (lateReport expired))
        (@UpToDate exactRuntime (lateReport expired)) fun _ => False) := by
  refine ⟨⟨lateReport_scheduled (.inl rfl), ?_⟩, ⟨lateReport_scheduled (.inr rfl), ?_⟩⟩
  · have kept : Ensures (Run.exec (@step exactRuntime) (start shortRoad) (lateReport shortLived))
        (fun s => shortLived ∈ s.bnodeTable ⟨0, 1⟩) fun _ => False := by decide +kernel
    obtain ⟨s, run, mem⟩ := kept.exists_ok
    refine not_ensures_of_ok run fun good => ?_
    have unexpired :=
      ((@UpToDate.purged exactRuntime _ s good purgeDelay ⟨0, 1⟩ rfl shortLived).mp mem).2
    exact absurd unexpired (by decide)
  · have stale : Ensures (Run.exec (@step exactRuntime) (start shortRoad) (lateReport expired))
        (fun s => s.bnodeTable ⟨0, 1⟩ = [] ∧ s.blocklist ⟨0, 1⟩ ≠ []) fun _ => False := by
      decide +kernel
    obtain ⟨s, run, empty, some_block⟩ := stale.exists_ok
    refine not_ensures_of_ok run fun good => ?_
    have current := @UpToDate.current exactRuntime _ s good
    exact some_block (@Current.eq_nil exactRuntime s ⟨0, 1⟩ current empty)

end Egsr.MyServer.BlockTable
