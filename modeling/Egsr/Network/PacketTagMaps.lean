import Egsr.Network.PacketTagList

/-! Packet tag lists as independent maps. What an operation does is said on
one map for each list; a traversal is described by the node it comes to and
by the nodes before it that are by then the list's own. -/

namespace Egsr.Network.PacketTagList

open Lib.SharedList Lib.Run Lib.Outcome List Function

/-! ## What the lists are for -/

abbrev TagMap := TypeId → Option (List UInt8)

def TagMap.empty : TagMap := fun _ => none

def expected (maps : List TagMap) : Op → Option (List UInt8) × List TagMap
  | .create => (none, maps ++ [.empty])
  | .copy o => (none, maps ++ [maps.getD o .empty])
  | .assign i o => (none, maps.set i (maps.getD o .empty))
  | .removeAll i => (none, maps.set i .empty)
  | .add i tag =>
    (none, maps.set i (update (maps.getD i .empty) tag.tid (some tag.data)))
  | .remove i tid =>
    (maps.getD i .empty tid, maps.set i (update (maps.getD i .empty) tid none))
  | .replace i tag =>
    ((maps.getD i .empty tag.tid).map fun _ => tag.data,
      maps.set i (update (maps.getD i .empty) tag.tid (some tag.data)))
  | .peek i tid => (maps.getD i .empty tid, maps)

def lookup (tags : List Tag) : TagMap := fun tid =>
  (tags.find? fun tag => tag.tid = tid).map Tag.data

def tags (m : Lists) : ℕ → Option ℕ → List Tag
  | 0, _ => []
  | _ + 1, none => []
  | fuel + 1, some a =>
    match node m a with
    | none => []
    | some n => n.value :: tags m fuel n.next

def contents (m : Lists) : List TagMap := m.heads.map fun p => lookup (tags m m.nodes.length p)

def Permitted (size : TypeId → ℕ) (m : Lists) : Op → Prop
  | .create => True
  | .copy o => o < m.heads.length
  | .assign i o => i < m.heads.length ∧ o < m.heads.length
  | .removeAll i => i < m.heads.length
  | .add i tag => i < m.heads.length ∧ (contents m).getD i .empty tag.tid = none ∧
      tag.data.length = size tag.tid
  | .remove i _ => i < m.heads.length
  | .replace i tag => i < m.heads.length ∧ tag.data.length = size tag.tid
  | .peek i _ => i < m.heads.length

instance (size : TypeId → ℕ) (m : Lists) (op : Op) : Decidable (Permitted size m op) :=
  match op with
  | .create | .copy _ | .assign .. | .removeAll _ | .add .. | .remove .. | .replace ..
  | .peek .. => by unfold Permitted; infer_instance

/-- The pointers to a node can be counted in 32 bits, and one pointer more that the operation may
make as well. -/
def Countable (m : Lists) : Op → Prop
  | .copy o => ∀ a ∈ load m (.head o), refs m a + 1 < 4294967296
  | .assign i o => load m (.head i) ≠ load m (.head o) →
    ∀ a ∈ load m (.head o), refs m a + 1 < 4294967296
  | .remove _ _ | .replace _ _ => ∀ a < m.nodes.length, refs m a + 1 < 4294967296
  | .create | .removeAll _ | .add _ _ | .peek _ _ => True

instance (m : Lists) : DecidablePred (Countable m)
  | .copy _ | .assign .. | .remove .. | .replace .. | .create | .removeAll _ | .add ..
  | .peek .. => by unfold Countable; infer_instance

def Reaches (m : Lists) (i a : ℕ) : Prop :=
  ∃ l, Path m (load m (.head i)) l ∧ a ∈ l.map Prod.fst

def Counted (m : Lists) : Prop :=
  (∀ a, countOf m a = refs m a) ∧ ∀ s a, load m s = some a → (node m a).isSome

def SharedKept (m m' : Lists) : Prop :=
  ∀ i j a, i ≠ j → Reaches m i a → Reaches m j a → shape m' a = shape m a

def Sound (m : Lists) (op : Op) : Prop :=
  Ensures (serve m op)
    (fun r => (r.1, contents r.2) = expected (contents m) op ∧ Counted r.2 ∧ SharedKept m r.2)
    (fun _ => False)

theorem lookup_cons (tag : Tag) (l : List Tag) (t : TypeId) :
    lookup (tag :: l) t = if tag.tid = t then some tag.data else lookup l t := by
  unfold lookup
  rw [List.find?_cons]
  by_cases ht : tag.tid = t
  · simp [ht]
  · simp [ht]

theorem lookup_eq_none {l : List Tag} {t : TypeId} : lookup l t = none ↔
    ∀ tag ∈ l, tag.tid ≠ t := by
  simp [lookup]

theorem lookup_middle {before after : List Tag} {tag : Tag}
    (away : ∀ other ∈ before, other.tid ≠ tag.tid) :
    lookup (before ++ tag :: after) =
      update (lookup (before ++ after)) tag.tid (some tag.data) := by
  induction before with
  | nil =>
    funext t
    rw [nil_append, lookup_cons, nil_append]
    by_cases ht : tag.tid = t
    · rw [if_pos ht, ht, update_self]
    · rw [if_neg ht, update_of_ne (Ne.symm ht)]
  | cons other before ih =>
    funext t
    have hother : other.tid ≠ tag.tid := away other (by simp)
    rw [cons_append, lookup_cons, ih fun x hx => away x (by simp [hx])]
    by_cases ht : other.tid = t
    · subst ht
      rw [if_pos rfl, update_of_ne hother, cons_append, lookup_cons, if_pos rfl]
    · rw [if_neg ht]
      by_cases htag : t = tag.tid
      · rw [htag, update_self, update_self]
      · rw [update_of_ne htag, update_of_ne htag, cons_append, lookup_cons, if_neg ht]

variable {m m' : Lists} {i : ℕ} {l l' : List (ℕ × Tag)}

variable {p : Option ℕ}

theorem tags_of_path (path : Path m p l) {fuel : ℕ} (enough : l.length ≤ fuel) :
    tags m fuel p = l.map Prod.snd := by
  induction path generalizing fuel with
  | nil => cases fuel <;> rfl
  | @cons a next v l hshape _ ih =>
    cases fuel with
    | zero => simp at enough
    | succ fuel =>
      rw [tags, node_of_shape hshape]
      exact congrArg (v :: ·) (ih (Nat.le_of_succ_le_succ enough))

theorem contents_getD (path : Path m (load m (.head i)) l) (head : i < m.heads.length) :
    (contents m).getD i .empty = lookup (l.map Prod.snd) := by
  have hlt : i < (contents m).length := by simpa [contents] using head
  rw [getD_eq_getElem _ _ hlt]
  simp only [contents, getElem_map]
  have hload : m.heads[i] = load m (.head i) := (getD_eq_getElem _ _ head).symm
  rw [hload, tags_of_path path path.length_le]

theorem contents_edited (edited : Edited m m' i l) (forest : Forest m) :
    contents m' = (contents m).set i (lookup (l.map Prod.snd)) := by
  refine ext_getElem (by simp [contents, edited.heads]) fun j hj hj' => ?_
  have hlt : j < m.heads.length := by simpa [contents] using hj'
  have hlt' : j < m'.heads.length := by simpa [contents] using hj
  rw [getElem_set, ← getD_eq_getElem _ TagMap.empty hj]
  by_cases hij : i = j
  · subst hij
    rw [if_pos rfl, contents_getD edited.path hlt']
  · obtain ⟨k, hk⟩ := forest.reach (.head j)
    rw [if_neg hij, contents_getD (edited.others j (Ne.symm hij) k hk) hlt',
      ← getD_eq_getElem _ TagMap.empty, contents_getD hk hlt]

theorem shape_of_paths (path : Path m p l) (path' : Path m' p l) :
    ∀ a ∈ l.map Prod.fst, shape m' a = shape m a := by
  induction path with
  | nil => simp
  | @cons a next v l hshape hrest ih =>
    cases path' with
    | @cons _ next' _ _ hshape' hrest' =>
      have hnext : next = next' := by
        cases hrest <;> cases hrest' <;> rfl
      subst hnext
      intro b hb
      rcases mem_cons.mp hb with rfl | hmem
      · rw [hshape, hshape']
      · exact ih hrest' b hmem

theorem path_start {p' : Option ℕ} (path : Path m p l) (path' : Path m' p' l) : p = p' := by
  cases path <;> cases path' <;> rfl

theorem sharedKept_of_others
    (others : ∀ j, j ≠ i → ∀ l, Path m (load m (.head j)) l → Path m' (load m' (.head j)) l) :
    SharedKept m m' := by
  have hkept : ∀ j a, j ≠ i → Reaches m j a → shape m' a = shape m a := by
    rintro j a hj ⟨l, hl, ha⟩
    have hl' := others j hj l hl
    exact shape_of_paths hl (path_start hl hl' ▸ hl') a ha
  intro j k a hjk hj hk
  by_cases hji : j = i
  · exact hkept k a (fun hki => hjk (hji.trans hki.symm)) hk
  · exact hkept j a hji hj

theorem counted_of_forest (forest : Forest m) : Counted m := by
  refine ⟨forest.countOf_eq, fun s a hs => ?_⟩
  obtain ⟨next, v, hshape⟩ := forest.there hs
  rw [node_of_shape hshape]
  rfl

theorem room_of_path (forest : Forest m) (room : ∀ a < m.nodes.length, refs m a + 1 < 4294967296)
    (path : Path m p l) : ∀ x ∈ l, countOf m x.1 + 1 < 4294967296 := by
  intro x hx
  obtain ⟨next, hshape⟩ := path.mem_shape hx
  rw [forest.countOf_eq]
  exact room x.1 (lt_of_node (node_of_shape hshape))

/-! ## Loops -/

theorem deref_ok {a : ℕ} {n : Node Tag} (hn : node m a = some n) : deref m a = .ok n := by
  rw [deref, hn]

theorem addRef_ok (there : ∀ a ∈ p, (node m a).isSome) : addRef m p = .ok (share m p) := by
  cases p with
  | none => rfl
  | some a =>
    obtain ⟨n, hn⟩ := Option.isSome_iff_exists.mp (there a rfl)
    rw [addRef, deref_ok hn]
    rfl

theorem at_of_path (forest : Forest m) {pre rest : List (ℕ × Tag)} {ent : List Slot} {s : Slot}
    {c : ℕ} {v : Tag} (owned : Owned m i pre ent s) (path : Path m (load m s) ((c, v) :: rest)) :
    ∃ n, At m i pre ent s c n rest ∧ n.value = v ∧ 1 ≤ n.count.toNat := by
  generalize hp : load m s = p at path
  cases path with
  | @cons _ next _ _ hshape hrest =>
    have here : At m i pre ent s c _ rest := ⟨forest, owned, hp, node_of_shape hshape, hrest⟩
    exact ⟨_, here, rfl, here.count_pos⟩

/-- Where a traversal of list `i`, which held `tags`, has come to: the nodes up to the node `c`
are the list's own, and the nodes behind it can get a pointer more. -/
structure Arrived (m : Lists) (i : ℕ) (tags : List Tag) (m' : Lists) (pre : List (ℕ × Tag))
    (ent : List Slot) (s : Slot) (c : ℕ) (n : Node Tag) (rest : List (ℕ × Tag)) : Prop where
  here : At m' i pre ent s c n rest
  edited : Edited m m' i (pre ++ (c, n.value) :: rest)
  same : (pre ++ (c, n.value) :: rest).map Prod.snd = tags
  room : ∀ x ∈ rest, countOf m' x.1 + 1 < 4294967296

def Searched (m : Lists) (i : ℕ) (tid : TypeId) (l : List (ℕ × Tag)) : Cursor → Prop
  | .nothing => ∀ x ∈ l, x.2.tid ≠ tid
  | .found c s => ∃ pre ent n rest, Arrived m i (l.map Prod.snd) m pre ent s c n rest ∧
      n.count = 1 ∧ n.value.tid = tid
  | .merge c s => ∃ pre ent n rest, Arrived m i (l.map Prod.snd) m pre ent s c n rest ∧
      1 < n.count ∧ ∀ x ∈ pre, x.2.tid ≠ tid

theorem search_spec (forest : Forest m) (tid : TypeId) {pre rest : List (ℕ × Tag)}
    {ent : List Slot} {s : Slot} (owned : Owned m i pre ent s) (path : Path m (load m s) rest)
    (away : ∀ x ∈ pre, x.2.tid ≠ tid) (room : ∀ x ∈ rest, countOf m x.1 + 1 < 4294967296)
    {fuel : ℕ} (enough : rest.length < fuel) :
    Ensures (search m tid fuel s) (Searched m i tid (pre ++ rest)) (fun _ => False) := by
  induction rest generalizing pre ent s fuel with
  | nil =>
    obtain ⟨fuel, rfl⟩ := Nat.exists_eq_succ_of_ne_zero (Nat.ne_of_gt enough)
    have hnone : load m s = none := by
      generalize load m s = p at path
      cases path
      rfl
    simpa [search, hnone, Searched] using away
  | cons x rest ih =>
    obtain ⟨fuel, rfl⟩ := Nat.exists_eq_succ_of_ne_zero (Nat.ne_zero_of_lt enough)
    obtain ⟨c, v⟩ := x
    obtain ⟨n, here, rfl, hpos⟩ := at_of_path forest owned path
    have harrived : Arrived m i ((pre ++ (c, n.value) :: rest).map Prod.snd) m pre ent s c n rest :=
      ⟨here, .refl forest (owned.paths path).1, rfl, fun x hx => room x (mem_cons_of_mem _ hx)⟩
    simp only [search, here.slot, deref_ok here.isNode]
    refine Ensures.ite (fun hshared => ?_) fun hsingle =>
      Ensures.ite (fun htid => ?_) fun htid => ?_
    · exact ⟨pre, ent, n, rest, harrived, hshared, away⟩
    · exact ⟨pre, ent, n, rest, harrived, Node.single hpos hsingle, htid⟩
    · have hsnoc := Owned.snoc owned here.slot (shape_of_node here.isNode)
        (here.countOf_one (Node.single hpos hsingle))
      have hrest := ih hsnoc here.path_next (fun x hx => ?_) harrived.room
        (Nat.lt_of_succ_lt_succ enough)
      · rwa [append_assoc] at hrest
      · rcases mem_append.mp hx with hold | hlast
        · exact away x hold
        · rw [mem_singleton.mp hlast]
          exact htid

theorem find_spec (path : Path m p l) (tid : TypeId) {fuel : ℕ} (enough : l.length < fuel) :
    Ensures (find m tid fuel p)
      (fun found => found.map (fun n => n.value) = (l.map Prod.snd).find? fun tag => tag.tid = tid)
      (fun _ => False) := by
  induction path generalizing fuel with
  | nil =>
    obtain ⟨fuel, rfl⟩ := Nat.exists_eq_succ_of_ne_zero (Nat.ne_of_gt enough)
    rfl
  | @cons a next v l hshape _ ih =>
    obtain ⟨fuel, rfl⟩ := Nat.exists_eq_succ_of_ne_zero (Nat.ne_zero_of_lt enough)
    simp only [find, deref_ok (node_of_shape hshape), map_cons, List.find?_cons]
    by_cases htid : v.tid = tid
    · simp [htid, bind, Except.bind]
    · simp only [bind, Except.bind, htid, if_false, decide_false]
      exact ih (Nat.lt_of_succ_lt_succ enough)

section Traverse

variable {ts : List Tag} {pre rest : List (ℕ × Tag)} {ent : List Slot} {s : Slot} {c : ℕ}
  {n : Node Tag}

theorem Arrived.next_room (arrived : Arrived m i ts m' pre ent s c n rest) :
    ∀ d ∈ n.next, countOf m' d + 1 < 4294967296 := by
  intro d hd
  have hpath := arrived.here.path
  rw [hd] at hpath
  cases hpath with
  | cons => exact arrived.room _ mem_cons_self

theorem Arrived.move (arrived : Arrived m i ts m' pre ent s c n rest) (shared : 1 < n.count)
    {d : ℕ} {w : Tag} {rest' : List (ℕ × Tag)} (hrest : rest = (d, w) :: rest') :
    ∃ n', Arrived m i ts (substitute m' s c n n.value) (pre ++ [(fresh m', n.value)]) (ent ++ [s])
      (.next (fresh m')) d n' rest' ∧ 1 < n'.count ∧ n'.value = w := by
  have here := arrived.here
  obtain ⟨hedited, howned, hfresh, hold⟩ := substitute_spec here shared arrived.next_room n.value
  have hpath : Path (substitute m' s c n n.value)
      (load (substitute m' s c n n.value) (.head i))
      ((pre ++ [(fresh m', n.value)]) ++ (d, w) :: rest') := by
    have h := hedited.path
    rw [hrest] at h
    simpa using h
  obtain ⟨n', here', rfl, -⟩ := at_of_path hedited.forest howned (howned.rest hedited.forest hpath)
  have hne : Slot.next (fresh m') ≠ .next c := fun heq =>
    node_ne_fresh here.isNode (Slot.next.inj heq).symm
  have htwo := two_le_refs hne here'.slot (hold.trans (hfresh.symm.trans here'.slot))
  rw [← hedited.forest.countOf_eq, here'.countOf_eq] at htwo
  refine ⟨n', ⟨here', ?_, ?_, fun x hx => ?_⟩, Node.one_lt.mpr htwo, rfl⟩
  · have h := arrived.edited.trans hedited
    rw [hrest] at h
    simpa using h
  · have h := arrived.same
    rw [hrest] at h
    simpa using h
  · have hmem : x ∈ rest := hrest ▸ mem_cons_of_mem _ hx
    rw [countOf_substitute here n.value (here.apart.2 x hmem).2 (off_fresh here.path_next x hmem)]
    · exact arrived.room x hmem
    · intro heq
      have hpath := hrest ▸ here.path
      rw [heq] at hpath
      cases hpath with
      | cons hshape hpath =>
        exact (nodup_cons.mp (Path.cons hshape hpath).nodup).1 (mem_map.mpr ⟨x, hx, rfl⟩)

theorem moveMerge_spec {tid : TypeId} (arrived : Arrived m i ts m' pre ent s c n rest)
    (shared : 1 < n.count) (away : ∀ x ∈ pre, x.2.tid ≠ tid)
    (present : ∃ x ∈ (c, n.value) :: rest, x.2.tid = tid) {fuel : ℕ} (enough : rest.length < fuel) :
    Ensures (moveMerge tid fuel m' c s)
      (fun r => ∃ pre ent n rest, Arrived m i ts r.1 pre ent r.2.2 r.2.1 n rest ∧ 1 < n.count ∧
        n.value.tid = tid ∧ ∀ x ∈ pre, x.2.tid ≠ tid) (fun _ => False) := by
  induction rest generalizing m' pre ent s c n fuel with
  | nil =>
    obtain ⟨fuel, rfl⟩ := Nat.exists_eq_succ_of_ne_zero (Nat.ne_zero_of_lt enough)
    have here := arrived.here
    have htid : n.value.tid = tid := by simpa using present
    simp only [moveMerge, deref_ok here.isNode]
    exact Ensures.ite (fun _ => ⟨pre, ent, n, [], arrived, shared, htid, away⟩) fun h =>
      (h htid).elim
  | cons x rest ih =>
    obtain ⟨fuel, rfl⟩ := Nat.exists_eq_succ_of_ne_zero (Nat.ne_zero_of_lt enough)
    have here := arrived.here
    obtain ⟨d, w⟩ := x
    simp only [moveMerge, deref_ok here.isNode]
    refine Ensures.ite (fun htid => ⟨pre, ent, n, _, arrived, shared, htid, away⟩) fun htid => ?_
    obtain ⟨n', harrived, hshared, hvalue⟩ := arrived.move shared rfl
    have hnext : n.next = some d := by
      have hpath := here.path
      generalize n.next = p at hpath
      cases hpath
      rfl
    have hthere := copied_there here.forest here.isNode n.value
    rw [hnext] at hthere
    have hcopy : store (share (alloc (setCount m' c (n.count - 1)) ⟨some d, 1, n.value⟩) (some d)) s
        (some (fresh m')) = substitute m' s c n n.value := by
      rw [substitute, copyNode, hnext]
    simp only [hnext, addRef_ok hthere]
    show Ensures (moveMerge tid fuel (store _ s _) d _) _ _
    rw [hcopy]
    refine ih harrived hshared (fun x hx => ?_) ?_ (Nat.lt_of_succ_lt_succ enough)
    · rcases mem_append.mp hx with hold | hlast
      · exact away x hold
      · rw [mem_singleton.mp hlast]
        exact htid
    · obtain ⟨x, hx, hxtid⟩ := present
      rcases mem_cons.mp hx with rfl | hmem
      · exact (htid hxtid).elim
      · exact ⟨x, hvalue ▸ hmem, hxtid⟩

theorem COWTraverse_spec (forest : Forest m) (path : Path m (load m (.head i)) l)
    (room : ∀ x ∈ l, countOf m x.1 + 1 < 4294967296) {tag : Tag}
    {writer : COWWriter} {post : Option (List UInt8) × Lists → Prop}
    (absent : (∀ x ∈ l, x.2.tid ≠ tag.tid) → post (none, m)) (written : ∀ m' pre ent s c n rest,
      Arrived m i (l.map Prod.snd) m' pre ent s c n rest → n.value.tid = tag.tid →
      Ensures (writer m' tag (n.count = 1) c s) (fun r => post (some r.1, r.2)) fun _ => False) :
    Ensures (COWTraverse m i tag writer) post (fun _ => False) := by
  have henough : l.length < m.nodes.length + 1 := Nat.lt_succ_of_le path.length_le
  have hsearch := search_spec forest tag.tid .nil path (by simp) room henough
  rw [nil_append] at hsearch
  unfold COWTraverse
  refine hsearch.bind fun cursor hcursor => ?_
  cases cursor with
  | nothing => exact absent hcursor
  | found c s =>
    obtain ⟨pre, ent, n, rest, harrived, hsingle, htid⟩ := hcursor
    have hwritten := written m pre ent s c n rest harrived htid
    rw [decide_eq_true hsingle] at hwritten
    exact ensures_map.mpr hwritten
  | merge c s =>
    obtain ⟨pre, ent, n, rest, harrived, hshared, haway⟩ := hcursor
    have hpath := harrived.here.path_cons
    rw [harrived.here.slot] at hpath
    have hl : l = pre ++ (c, n.value) :: rest := path.unique harrived.edited.path
    have hlength : ((c, n.value) :: rest).length < m.nodes.length + 1 := by
      rw [hl, length_append] at henough
      omega
    refine (find_spec hpath tag.tid hlength).bind fun found hfound => ?_
    cases found with
    | none =>
      refine absent fun x hx => ?_
      rw [hl] at hx
      rcases mem_append.mp hx with hbefore | hafter
      · exact haway x hbefore
      · have hnone := List.find?_eq_none.mp hfound.symm x.2 (mem_map_of_mem hafter)
        simpa using hnone
    | some it =>
      have hmem := mem_of_find?_eq_some hfound.symm
      have htid := List.find?_some hfound.symm
      obtain ⟨x, hx, hxv⟩ := mem_map.mp hmem
      have hmoved := moveMerge_spec harrived hshared haway ⟨x, hx, by simpa [hxv] using htid⟩
        (Nat.lt_of_succ_lt hlength)
      refine hmoved.bind fun r hr => ?_
      obtain ⟨pre', ent', n', rest', harrived', hshared', htid', -⟩ := hr
      have hwritten := written _ _ _ _ _ _ _ harrived' htid'
      have hcount : n'.count ≠ 1 := fun heq => UInt32.lt_irrefl 1 (heq ▸ hshared')
      rw [decide_eq_false hcount] at hwritten
      exact ensures_map.mpr hwritten

theorem removeWriter_spec (arrived : Arrived m i ts m' pre ent s c n rest) (tag : Tag) :
    Ensures (removeWriter m' tag (n.count = 1) c s)
      (fun r => r.1 = n.value.data ∧ Edited m r.2 i (pre ++ rest)) (fun _ => False) := by
  have here := arrived.here
  unfold removeWriter
  rw [deref_ok here.isNode]
  refine Ensures.ite (fun hsingle => ?_) fun hshared => ?_
  · have hunlink := unlink_spec here (of_decide_eq_true hsingle)
    exact ⟨rfl, arrived.edited.trans hunlink⟩
  · have hbypass := bypass_spec here (here.shared hshared) arrived.next_room
    rw [addRef_ok here.bypass_there]
    exact ⟨rfl, arrived.edited.trans hbypass⟩

theorem replaceWriter_spec (arrived : Arrived m i ts m' pre ent s c n rest) {tag : Tag}
    (fits : tag.data.length = n.value.data.length) (tid : n.value.tid = tag.tid) :
    Ensures (replaceWriter m' tag (n.count = 1) c s)
      (fun r => r.1 = tag.data ∧ ∃ a, Edited m r.2 i (pre ++ (a, tag) :: rest))
      (fun _ => False) := by
  have here := arrived.here
  unfold replaceWriter
  rw [deref_ok here.isNode]
  refine Ensures.ite (fun hsingle => ensures_map.mpr ?_) fun hshared => ?_
  · have hset := setValue_spec here (of_decide_eq_true hsingle) tag
    have htag : (⟨n.value.tid, tag.data ++ n.value.data.drop tag.data.length⟩ : Tag) = tag := by
      rw [drop_eq_nil_of_le (le_of_eq fits.symm), append_nil, tid]
    unfold serializeOver
    rw [if_neg (by omega), htag]
    exact ⟨rfl, c, arrived.edited.trans hset⟩
  · obtain ⟨hedited, -, -, -⟩ :=
      substitute_spec here (here.shared hshared) arrived.next_room tag
    rw [addRef_ok (copied_there here.forest here.isNode tag)]
    exact ⟨rfl, fresh m', arrived.edited.trans hedited⟩

end Traverse

structure Proper (size : TypeId → ℕ) (tags : List Tag) : Prop where
  distinct : (tags.map Tag.tid).Nodup
  sized : ∀ tag ∈ tags, tag.data.length = size tag.tid

structure Ok (size : TypeId → ℕ) (m : Lists) : Prop where
  forest : Forest m
  proper : ∀ i l, Path m (load m (.head i)) l → Proper size (l.map Prod.snd)

variable {size : TypeId → ℕ}

theorem Proper.middle {before after : List Tag} {tag : Tag}
    (proper : Proper size (before ++ tag :: after)) :
    (∀ other ∈ before, other.tid ≠ tag.tid) ∧ lookup (before ++ after) tag.tid = none ∧
      Proper size (before ++ after) := by
  have hnodup := proper.distinct
  rw [map_append, map_cons, perm_middle.nodup_iff, nodup_cons, ← map_append]
    at hnodup
  have hne : ∀ other ∈ before ++ after, other.tid ≠ tag.tid := fun other hmem heq =>
    hnodup.1 (heq ▸ mem_map_of_mem hmem)
  refine ⟨fun other hmem => hne other (by simp [hmem]), lookup_eq_none.mpr hne, hnodup.2, ?_⟩
  intro other hmem
  refine proper.sized other ?_
  simp only [mem_append, mem_cons] at hmem ⊢
  tauto

theorem Proper.insert {before after : List Tag} (proper : Proper size (before ++ after)) {tag : Tag}
    (absent : lookup (before ++ after) tag.tid = none) (sized : tag.data.length = size tag.tid) :
    Proper size (before ++ tag :: after) where
  distinct := by
    rw [map_append, map_cons, perm_middle.nodup_iff, nodup_cons, ← map_append]
    refine ⟨fun hmem => ?_, proper.distinct⟩
    obtain ⟨other, hother, heq⟩ := mem_map.mp hmem
    exact lookup_eq_none.mp absent other hother heq
  sized other hmem := by
    simp only [mem_append, mem_cons] at hmem
    rcases hmem with hbefore | rfl | hafter
    · exact proper.sized other (by simp [hbefore])
    · exact sized
    · exact proper.sized other (by simp [hafter])

structure Served (size : TypeId → ℕ) (m m' : Lists) (i : ℕ) (f : TagMap) : Prop where
  ok : Ok size m'
  maps : contents m' = (contents m).set i f
  kept : SharedKept m m'

theorem served_of_edited (ok : Ok size m) (edited : Edited m m' i l)
    (proper : Proper size (l.map Prod.snd)) : Served size m m' i (lookup (l.map Prod.snd)) where
  maps := contents_edited edited ok.forest
  kept := sharedKept_of_others edited.others
  ok := by
    refine ⟨edited.forest, fun j k hk => ?_⟩
    by_cases hji : j = i
    · subst hji
      rw [hk.unique edited.path]
      exact proper
    · obtain ⟨k', hk'⟩ := ok.forest.reach (.head j)
      rw [hk.unique (edited.others j hji k' hk')]
      exact ok.proper j k' hk'

/-! ## Operations -/

theorem peek_spec (path : Path m (load m (.head i)) l) (tid : TypeId) :
    Ensures (peek m i tid) (fun answer => answer = lookup (l.map Prod.snd) tid)
      (fun _ => False) := by
  refine ensures_map.mpr ((find_spec path tid (Nat.lt_succ_of_le path.length_le)).weaken ?_)
  intro found hfound
  rw [lookup, ← hfound, Option.map_map]
  rfl

section Operations

variable (ok : Ok size m) (path : Path m (load m (.head i)) l)
include ok path

theorem remove_spec (room : ∀ x ∈ l, countOf m x.1 + 1 < 4294967296) (tid : TypeId) :
    Ensures (remove m i tid) (fun r => r.1 = lookup (l.map Prod.snd) tid ∧
        Served size m r.2 i (update (lookup (l.map Prod.snd)) tid none)) (fun _ => False) := by
  have hproper := ok.proper i l path
  refine COWTraverse_spec ok.forest path room (fun habsent => ?_)
    fun m' pre ent s c n rest harr htid => ?_
  · have hnone : lookup (l.map Prod.snd) tid = none := lookup_eq_none.mpr fun tag hmem => by
      obtain ⟨x, hx, rfl⟩ := mem_map.mp hmem
      exact habsent x hx
    rw [update_eq_self_iff.mpr hnone.symm]
    exact ⟨hnone.symm, served_of_edited ok (.refl ok.forest path) hproper⟩
  · have htid' : n.value.tid = tid := htid
    have hsame := harr.same
    rw [map_append, map_cons] at hsame
    rw [← hsame] at hproper ⊢
    obtain ⟨haway, hnone, hproper'⟩ := hproper.middle
    rw [lookup_middle haway, htid']
    refine (removeWriter_spec harr _).weaken fun r hr => ⟨?_, ?_⟩
    · rw [hr.1, update_self]
    · rw [← map_append] at hproper' hnone ⊢
      rw [update_idem, update_eq_self_iff.mpr (by rw [← htid', hnone])]
      exact served_of_edited ok hr.2 hproper'

theorem add_spec {tag : Tag} (head : i < m.heads.length)
    (absent : lookup (l.map Prod.snd) tag.tid = none) (sized : tag.data.length = size tag.tid) :
    Served size m (add m i tag) i (update (lookup (l.map Prod.snd)) tag.tid (some tag.data)) := by
  have hproper : Proper size ([] ++ tag :: l.map Prod.snd) :=
    Proper.insert (ok.proper i l path) absent sized
  have hedited := prepend_spec ok.forest head path tag
  have hlookup : lookup ([] ++ tag :: l.map Prod.snd) = _ := lookup_middle (by simp)
  rw [nil_append, nil_append] at hlookup
  rw [← hlookup]
  exact served_of_edited ok hedited hproper

theorem replace_spec {tag : Tag} (head : i < m.heads.length)
    (room : ∀ x ∈ l, countOf m x.1 + 1 < 4294967296) (sized : tag.data.length = size tag.tid) :
    Ensures (replace m i tag)
      (fun r => r.1 = (lookup (l.map Prod.snd) tag.tid).map (fun _ => tag.data) ∧
        Served size m r.2 i (update (lookup (l.map Prod.snd)) tag.tid (some tag.data)))
      (fun _ => False) := by
  have hproper := ok.proper i l path
  have htraverse : Ensures (COWTraverse m i tag replaceWriter)
      (fun r => (lookup (l.map Prod.snd) tag.tid = none ∧ r = (none, m)) ∨
        (r.1 = some tag.data ∧ (lookup (l.map Prod.snd) tag.tid).isSome ∧ Served size m r.2 i
            (update (lookup (l.map Prod.snd)) tag.tid (some tag.data))))
      (fun _ => False) := by
    refine COWTraverse_spec ok.forest path room (fun habsent => Or.inl ⟨?_, rfl⟩)
      fun m' pre ent s c n rest harr htid => ?_
    · refine lookup_eq_none.mpr fun tag' hmem => ?_
      obtain ⟨x, hx, rfl⟩ := mem_map.mp hmem
      exact habsent x hx
    · have hsame := harr.same
      rw [map_append, map_cons] at hsame
      rw [← hsame] at hproper ⊢
      obtain ⟨haway, hnone, hproper'⟩ := hproper.middle
      have hfits : tag.data.length = n.value.data.length := by
        rw [sized, hproper.sized n.value (by simp), htid]
      refine (replaceWriter_spec harr hfits htid).weaken fun r hr => Or.inr ?_
      obtain ⟨hanswer, a, hedited⟩ := hr
      have hinsert : Proper size (pre.map Prod.snd ++ tag :: rest.map Prod.snd) :=
        hproper'.insert (htid ▸ hnone) sized
      have hserved := served_of_edited ok hedited (by simpa using hinsert)
      rw [map_append, map_cons, lookup_middle (by simpa [← htid] using haway)] at hserved
      rw [lookup_middle haway, htid, update_idem, update_self]
      exact ⟨congrArg some hanswer, rfl, hserved⟩
  refine htraverse.bind fun r hr => ?_
  obtain ⟨hnone, rfl⟩ | ⟨hanswer, hsome, hserved⟩ := hr
  · rw [hnone]
    exact ⟨rfl, add_spec ok path head hnone sized⟩
  · obtain ⟨data, hdata⟩ := Option.isSome_iff_exists.mp hsome
    dsimp only
    rw [hanswer, hdata]
    exact ⟨rfl, hserved⟩

end Operations

/-! ## Removal of a whole list -/

theorem setNode_comm {a b : ℕ} (ne : a ≠ b) (x y : Option (Node Tag)) :
    setNode (setNode m a x) b y = setNode (setNode m b y) a x := by
  simp only [setNode, set_comm _ _ ne]

theorem node_freePrev {a : ℕ} {n : Node Tag} {prev : Option ℕ}
    (hn : node (freePrev m prev) a = some n) : node m a = some n ∧ prev ≠ some a := by
  cases prev with
  | none => exact ⟨hn, by simp⟩
  | some b =>
    have hlt : a < m.nodes.length := by
      have h := lt_of_node hn
      simpa [freePrev, free, setNode] using h
    by_cases hab : a = b
    · subst hab
      rw [freePrev, free, node_setNode hlt, if_pos rfl] at hn
      cases hn
    · have hkeep : node (freePrev m (some b)) a = node m a := by
        simp [freePrev, free, setNode, node, List.getElem?_set_ne (Ne.symm hab)]
      exact ⟨hkeep ▸ hn, fun heq => hab (Option.some.inj heq).symm⟩

theorem freePrev_setCount {a : ℕ} {n : Node Tag} {prev : Option ℕ}
    (hn : node (freePrev m prev) a = some n) (count : UInt32) :
    freePrev (setCount m a count) prev = setCount (freePrev m prev) a count := by
  obtain ⟨hn', hne⟩ := node_freePrev hn
  cases prev with
  | none => rfl
  | some b =>
    have hab : a ≠ b := fun heq => hne (congrArg some heq.symm)
    unfold setCount
    rw [hn, hn']
    exact setNode_comm hab _ none

theorem heads_freePrev (prev : Option ℕ) : (freePrev m prev).heads = m.heads := by
  cases prev <;> rfl

theorem countOf_freePrev_le (prev : Option ℕ) (x : ℕ) :
    countOf (freePrev m prev) x ≤ countOf m x := by
  cases prev with
  | none => exact le_rfl
  | some b => exact countOf_setNode_le (Nat.zero_le _) x

theorem store_store_head (p q : Option ℕ) :
    store (store m (.head i) p) (.head i) q = store m (.head i) q := by
  simp [store]

theorem free_setCount (a : ℕ) (count : UInt32) : free (setCount m a count) a = free m a := by
  simp [free, setCount, setNode]

theorem removeAllLoop_spec (prev cur : Option ℕ) (head : i < m.heads.length)
    (forest : Forest (store (freePrev m prev) (.head i) cur))
    (path : Path (store (freePrev m prev) (.head i) cur) cur l) {fuel : ℕ}
    (enough : l.length < fuel) :
    Ensures (removeAllLoop fuel m prev cur)
      (fun m' => Edited (store (freePrev m prev) (.head i) cur) (store m' (.head i) none) i [] ∧
        ∀ x, countOf m' x ≤ countOf m x) (fun _ => False) := by
  induction l generalizing m prev cur fuel with
  | nil =>
    obtain ⟨fuel, rfl⟩ := Nat.exists_eq_succ_of_ne_zero (Nat.ne_of_gt enough)
    cases path
    have hwritable : Writable (freePrev m prev) (.head i) := by
      rw [Writable, heads_freePrev]
      exact head
    refine ⟨.refl forest ?_, countOf_freePrev_le prev⟩
    rw [load_store hwritable, if_pos rfl]
    exact .nil
  | cons x rest ih =>
    obtain ⟨fuel, rfl⟩ := Nat.exists_eq_succ_of_ne_zero (Nat.ne_zero_of_lt enough)
    obtain ⟨a, v⟩ := x
    have hwritable : ∀ m' : Lists, m'.heads.length = m.heads.length → Writable m' (.head i) :=
      fun m' heq => by
        rw [Writable, heq]
        exact head
    have hlength : (freePrev m prev).heads.length = m.heads.length := by rw [heads_freePrev]
    have hload : load (store (freePrev m prev) (.head i) cur) (.head i) = cur := by
      rw [load_store (hwritable _ hlength), if_pos rfl]
    obtain ⟨n, here, -, hpos⟩ := at_of_path forest .nil (by rw [hload]; exact path)
    obtain rfl : cur = some a := hload.symm.trans here.slot
    have hn : node (freePrev m prev) a = some n := here.isNode
    have hcommute := freePrev_setCount hn (n.count - 1)
    have hcounts : ∀ x, countOf (freePrev (setCount m a (n.count - 1)) prev) x ≤ countOf m x :=
      fun x => (countOf_freePrev_le prev x).trans (countOf_pred_le (node_freePrev hn).1 hpos x)
    simp only [removeAllLoop, deref_ok (node_freePrev hn).1]
    refine Ensures.ite (fun hshared => ?_) fun hsingle => ?_
    · have hleave := leave_spec forest here.slot here.isNode ((Node.pred_pos hpos).mp hshared)
      rw [leave, store_store_head] at hleave
      refine ensures_ok.mpr ⟨?_, hcounts⟩
      rw [hcommute]
      exact hleave
    · have hunlink := unlink_spec here (Node.single hpos (mt (Node.pred_pos hpos).mpr hsingle))
      have hnext : unlink (store (freePrev m prev) (.head i) (some a)) (.head i) a n =
          store (freePrev (freePrev (setCount m a (n.count - 1)) prev) (some a)) (.head i)
            n.next := by
        rw [hcommute, freePrev, free_setCount, unlink, store_store_head]
        rfl
      rw [hnext, nil_append] at hunlink
      have hheads : (freePrev (freePrev (setCount m a (n.count - 1)) prev) (some a)).heads.length =
          m.heads.length := by
        rw [heads_freePrev, hcommute]
        exact hlength
      have hpath := hunlink.path
      rw [load_store (hwritable _ hheads), if_pos rfl] at hpath
      refine (ih _ _ ?_ hunlink.forest hpath (Nat.lt_of_succ_lt_succ enough)).weaken fun m' hm' =>
        ⟨hunlink.trans hm'.1, fun x => (hm'.2 x).trans (hcounts x)⟩
      rw [heads_freePrev]
      exact head

theorem store_load (m : Lists) (i : ℕ) : store m (.head i) (load m (.head i)) = m := by
  unfold store load
  by_cases hi : i < m.heads.length
  · simp only [getD_eq_getElem _ none hi, set_getElem_self]
  · simp [set_eq_of_length_le (Nat.le_of_not_lt hi)]

theorem removeAll_spec (head : i < m.heads.length) (forest : Forest m) :
    Ensures (removeAll m i) (fun m' => Edited m m' i [] ∧ ∀ x, countOf m' x ≤ countOf m x)
      (fun _ => False) := by
  obtain ⟨l, hl⟩ := forest.reach (.head i)
  have hself : store (freePrev m none) (.head i) (load m (.head i)) = m := store_load m i
  have hloop := removeAllLoop_spec none (load m (.head i)) head
    (by rwa [hself]) (by rwa [hself]) (Nat.lt_succ_of_le hl.length_le)
  rw [hself] at hloop
  exact hloop.bind fun m' hm' => hm'

theorem addRef_join (forest : Forest m) (t : Slot) :
    addRef (store m (.head i) (load m t)) (load m t) = .ok (join m i (load m t)) := by
  refine addRef_ok fun a ha => ?_
  obtain ⟨next, v, hshape⟩ := forest.there ha
  rw [isSome_node_iff, shape_store_head, hshape]
  rfl

theorem Ok.newHead (ok : Ok size m) : Ok size (newHead m) where
  forest := ok.forest.newHead
  proper j k hk := by
    rw [load_newHead] at hk
    exact ok.proper j k (hk.congr fun _ _ => rfl)

theorem tags_newHead : tags (newHead m) = tags m := by
  funext fuel p
  induction fuel generalizing p with
  | zero => rfl
  | succ fuel ih =>
    cases p with
    | none => rfl
    | some a =>
      have hnode : node (newHead m) a = node m a := rfl
      rw [tags, tags, hnode]
      cases node m a with
      | none => rfl
      | some n => exact congrArg (n.value :: ·) (ih n.next)

theorem contents_newHead : contents (newHead m) = contents m ++ [.empty] := by
  have hempty : lookup (tags m m.nodes.length none) = .empty := by
    cases m.nodes.length <;> rfl
  have hcontents : contents (newHead m) =
      (m.heads ++ [none]).map fun p => lookup (tags m m.nodes.length p) := by
    rw [← tags_newHead]
    rfl
  rw [hcontents, map_append, map_singleton, hempty]
  rfl

theorem sharedKept_newHead (served : SharedKept (newHead m) m') : SharedKept m m' := by
  rintro j k a hjk ⟨l, hl, hal⟩ ⟨l', hl', hal'⟩
  refine served j k a hjk ⟨l, ?_, hal⟩ ⟨l', ?_, hal'⟩
  · rw [load_newHead]
    exact path_newHead hl
  · rw [load_newHead]
    exact path_newHead hl'

theorem copy_spec (ok : Ok size m) (o : ℕ) (path : Path m (load m (.head o)) l)
    (room : ∀ a ∈ load m (.head o), refs m a + 1 < 4294967296) :
    Ensures (copy m o)
      (fun m' => Served size (newHead m) m' m.heads.length (lookup (l.map Prod.snd)))
      (fun _ => False) := by
  have hok := ok.newHead
  have hlength : m.heads.length < (newHead m).heads.length := by simp [newHead]
  have hempty : load (newHead m) (.head m.heads.length) = none := by
    simp [load, newHead]
  have hpath : Path (newHead m) (load (newHead m) (.head o)) l := by
    rw [load_newHead]
    exact path_newHead path
  have hroom : ∀ a ∈ load (newHead m) (.head o), countOf (newHead m) a + 1 < 4294967296 := by
    intro a ha
    rw [load_newHead] at ha
    exact ok.forest.countOf_eq a ▸ room a ha
  have hjoin := join_spec hok.forest hlength hempty hpath hroom
  unfold copy
  rw [← load_newHead (m := m) (.head o), addRef_join hok.forest]
  exact served_of_edited hok hjoin (ok.proper o l path)

theorem assign_spec (ok : Ok size m) (head : i < m.heads.length) (o : ℕ)
    (path : Path m (load m (.head o)) l) (room : load m (.head i) ≠ load m (.head o) →
      ∀ a ∈ load m (.head o), refs m a + 1 < 4294967296) :
    Ensures (assign m i o) (fun m' => Served size m m' i (lookup (l.map Prod.snd)))
      (fun _ => False) := by
  have hproper := ok.proper o l path
  refine Ensures.ite (fun hsame => ?_) fun hdiffer => ?_
  · rw [← hsame] at path
    exact served_of_edited ok (.refl ok.forest path) hproper
  · have hoi : o ≠ i := fun heq => hdiffer (heq ▸ rfl)
    refine (removeAll_spec head ok.forest).bind fun m' ⟨hm', hcounts⟩ => ?_
    have hempty : load m' (.head i) = none := by
      have h := hm'.path
      generalize load m' (.head i) = p at h
      cases h
      rfl
    have hpath := hm'.others o hoi l path
    have hroom : ∀ a ∈ load m' (.head o), countOf m' a + 1 < 4294967296 := by
      intro a ha
      rw [path_start hpath path] at ha
      have hbefore := room hdiffer a ha
      rw [← ok.forest.countOf_eq] at hbefore
      exact (Nat.succ_le_succ (hcounts a)).trans_lt hbefore
    have hjoin := join_spec hm'.forest (hm'.heads ▸ head) hempty hpath hroom
    rw [addRef_join hm'.forest]
    exact served_of_edited ok (hm'.trans hjoin) hproper

/-! ## Runs -/

def Right (size : TypeId → ℕ) (m : Lists) (op : Op) (r : Option (List UInt8) × Lists) : Prop :=
  (r.1, contents r.2) = expected (contents m) op ∧ Ok size r.2 ∧ SharedKept m r.2

theorem Served.right {op : Op} {r : Option (List UInt8) × Lists} {f : TagMap}
    (served : Served size m r.2 i f) (answer : r.1 = (expected (contents m) op).1)
    (maps : (expected (contents m) op).2 = (contents m).set i f) : Right size m op r :=
  ⟨Prod.ext answer (served.maps.trans maps.symm), served.ok, served.kept⟩

theorem serve_right (ok : Ok size m) {op : Op} (permitted : Permitted size m op)
    (room : Countable m op) : Ensures (serve m op) (Right size m op) (fun _ => False) := by
  cases op with
  | create => exact ⟨congrArg (Prod.mk none) contents_newHead, ok.newHead, fun _ _ _ _ _ _ => rfl⟩
  | copy o =>
    obtain ⟨l, hl⟩ := ok.forest.reach (.head o)
    refine ensures_map.mpr ((copy_spec ok o hl room).weaken fun m' hm' => ⟨?_, hm'.ok, ?_⟩)
    · have hcontents := hm'.maps
      have hlength : m.heads.length = (contents m).length := by simp [contents]
      rw [contents_newHead, hlength, set_append_right _ _ le_rfl] at hcontents
      simp only [Nat.sub_self, set_cons_zero] at hcontents
      simp only [expected, contents_getD hl permitted, hcontents]
    · exact sharedKept_newHead hm'.kept
  | assign i o =>
    obtain ⟨l, hl⟩ := ok.forest.reach (.head o)
    refine ensures_map.mpr ((assign_spec ok permitted.1 o hl room).weaken fun m' hm' => ?_)
    exact hm'.right rfl (by simp only [expected, contents_getD hl permitted.2])
  | removeAll i =>
    refine ensures_map.mpr ((removeAll_spec permitted ok.forest).weaken fun m' hm' => ?_)
    exact (served_of_edited ok hm'.1 ⟨nodup_nil, by simp⟩).right rfl rfl
  | add i tag =>
    obtain ⟨hhead, habsent, hsized⟩ := permitted
    obtain ⟨l, hl⟩ := ok.forest.reach (.head i)
    rw [contents_getD hl hhead] at habsent
    refine (add_spec ok hl hhead habsent hsized).right rfl ?_
    simp only [expected, contents_getD hl hhead]
  | remove i tid =>
    obtain ⟨l, hl⟩ := ok.forest.reach (.head i)
    refine (remove_spec ok hl (room_of_path ok.forest room hl) tid).weaken fun r hr =>
      hr.2.right ?_ ?_
    · simp only [expected, contents_getD hl permitted, hr.1]
    · simp only [expected, contents_getD hl permitted]
  | replace i tag =>
    obtain ⟨hhead, hsized⟩ := permitted
    obtain ⟨l, hl⟩ := ok.forest.reach (.head i)
    refine (replace_spec ok hl hhead (room_of_path ok.forest room hl) hsized).weaken fun r hr =>
      hr.2.right ?_ ?_
    · simp only [expected, contents_getD hl hhead, hr.1]
    · simp only [expected, contents_getD hl hhead]
  | peek i tid =>
    obtain ⟨l, hl⟩ := ok.forest.reach (.head i)
    refine ensures_map.mpr ((peek_spec hl tid).weaken fun answer hanswer => ⟨?_, ok, ?_⟩)
    · simp only [expected, contents_getD hl permitted, hanswer]
    · exact fun _ _ _ _ _ _ => rfl

theorem start_ok : Ok size start := by
  have hload : ∀ s, load start s = none := by
    intro s
    cases s <;> rfl
  refine ⟨⟨fun x => rfl, fun s => ⟨[], hload s ▸ .nil⟩⟩, fun i l hl => ?_⟩
  rw [hload] at hl
  cases hl
  exact ⟨nodup_nil, by simp⟩

/-- While the pointers to each node can be counted, every operation of a permitted run does to the
lists what it does to independent maps. -/
theorem packetTagLists_independent (size : TypeId → ℕ) (ops : List Op)
    (permitted : Along step (fun m op => Permitted size m op ∧ Countable m op) start ops) :
    Along step Sound start ops := by
  have keep : ∀ m op m', Ok size m → Permitted size m op ∧ Countable m op → step m op = .ok m' →
      Ok size m' := by
    intro m op m' ok hp run
    have hstep : Ensures (step m op) (Ok size) (fun _ => False) :=
      ensures_map.mpr ((serve_right ok hp.1 hp.2).weaken fun r hr => hr.2.1)
    exact hstep.of_ok run
  refine (permitted.with_invariant keep start_ok).mono fun m op h => ?_
  exact (serve_right h.1 h.2.1 h.2.2).weaken fun r hr =>
    ⟨hr.1, counted_of_forest hr.2.1.forest, hr.2.2⟩

/-- A copy loses and changes tags behind the first one they share. -/
theorem packetTagLists_independent_copied : Along step Sound start
      [.create, .add 0 ⟨1, [10]⟩, .add 0 ⟨2, [20, 21]⟩, .add 0 ⟨3, [30]⟩, .copy 0,
        .replace 1 ⟨2, [22, 23]⟩, .remove 0 1, .peek 1 1, .assign 0 1, .removeAll 1] :=
  packetTagLists_independent (fun tid => if tid = 2 then 2 else 1) _ (by decide +kernel)

/-! ### More pointers than can be counted -/

variable (k : ℕ)

/-- A list of one tag and `k` copies of it. -/
def copied : Lists :=
  ⟨replicate (k + 1) (some 0), [some ⟨none, UInt32.ofNat (k + 1), ⟨1, [10]⟩⟩]⟩

def copying : List Op := .create :: .add 0 ⟨1, [10]⟩ :: replicate k (.copy 0)

theorem serve_copied : serve (copied k) (.copy 0) = .ok (none, copied (k + 1)) := by
  have hload : load (copied k) (.head 0) = some 0 := by simp [load, copied]
  have hheads : (replicate (k + 1) (some 0) ++ [none]).set (k + 1) (some 0) =
      replicate (k + 2) (some 0) := by
    rw [set_append_right _ _ (by simp), length_replicate, Nat.sub_self]
    exact replicate_succ'.symm
  have hcopy : copy (copied k) 0 = .ok (copied (k + 1)) := by
    rw [copy, hload]
    simp [copied, newHead, store, hheads, addRef, deref, node, share, setNode, Except.map]
  rw [serve, hcopy]
  rfl

theorem refs_copied : refs (copied k) 0 = k + 1 := by
  simp [refs, copied, countP_replicate]

theorem countOf_copied : countOf (copied k) 0 = (k + 1) % 4294967296 := by
  simp [countOf, node, copied, countAt]

theorem along_copying {guard : Lists → Op → Prop} : Along step guard start (copying k) ↔
      guard start .create ∧ guard (newHead start) (.add 0 ⟨1, [10]⟩) ∧
        ∀ i < k, guard (copied (0 + i)) (.copy 0) := by
  have hcopies : ∀ k, step (copied k) (.copy 0) = .ok (copied (k + 1)) := fun k => by
    rw [step, serve_copied]
    rfl
  have hcreate : step start .create = .ok (newHead start) := rfl
  have hadd : step (newHead start) (.add 0 ⟨1, [10]⟩) = .ok (copied 0) := rfl
  rw [copying, along_cons_ok hcreate, along_cons_ok hadd, along_replicate hcopies]

/-- The count comes back to 0. -/
theorem packetTagLists_uncounted : Along step (Permitted fun _ => 1) start (copying 4294967295) ∧
      ¬Along step Sound start (copying 4294967295) := by
  rw [along_copying, along_copying]
  refine ⟨⟨trivial, by decide, fun i _ => ?_⟩, fun h => ?_⟩
  · simp [Permitted, copied]
  · have hlast := h.2.2 4294967294 (by decide)
    rw [Sound, serve_copied] at hlast
    have hcounted := hlast.2.1.1 0
    rw [countOf_copied, refs_copied] at hcounted
    omega

end Egsr.Network.PacketTagList
