import Egsr.Lib.SharedMemory

/-! Linked lists that share their ends. In a forest every node is balanced and
every list ends; the operations change one list, behind the first nodes that
are its own, and leave the other lists as they are. -/

namespace Egsr.Lib.SharedList

open List

variable {α : Type} {m : Memory α}

/-! ## Paths -/

inductive Path (m : Memory α) : Option ℕ → List (ℕ × α) → Prop
  | nil : Path m none []
  | cons {a : ℕ} {next : Option ℕ} {v : α} {l : List (ℕ × α)} :
      shape m a = some (next, v) → Path m next l → Path m (some a) ((a, v) :: l)

namespace Path

variable {m' : Memory α} {p : Option ℕ} {l l' : List (ℕ × α)}

theorem unique (h : Path m p l) (h' : Path m p l') : l = l' := by
  induction h generalizing l' with
  | nil =>
    cases h'
    rfl
  | cons hshape _ ih =>
    cases h' with
    | cons hshape' hrest' =>
      obtain ⟨rfl, rfl⟩ := Prod.mk.inj (Option.some.inj (hshape.symm.trans hshape'))
      rw [ih hrest']

theorem congr (h : Path m p l) (same : ∀ x ∈ l, shape m' x.1 = shape m x.1) : Path m' p l := by
  induction h with
  | nil => exact .nil
  | @cons a next v l hshape _ ih =>
    exact .cons ((same (a, v) (by simp)).trans hshape) (ih fun x hx => same x (by simp [hx]))

theorem entered {s : Slot} (h : Path m (load m s) l) {x : ℕ × α} (hx : x ∈ l) :
    ∃ t, load m t = some x.1 ∧ (t = s ∨ ∃ y ∈ l, t = .next y.1) := by
  generalize hp : load m s = p at h
  induction h generalizing s with
  | nil => simp at hx
  | @cons a next v l hshape hrest ih =>
    rcases mem_cons.mp hx with rfl | hmem
    · exact ⟨s, hp, Or.inl rfl⟩
    · have hnext : load m (.next a) = next := by
        rw [load_next, hshape]
        rfl
      obtain ⟨t, ht, hfrom⟩ := ih hmem hnext
      refine ⟨t, ht, Or.inr ?_⟩
      rcases hfrom with rfl | ⟨y, hy, rfl⟩
      · exact ⟨(a, v), by simp, rfl⟩
      · exact ⟨y, by simp [hy], rfl⟩

theorem mem_shape (h : Path m p l) {x : ℕ × α} (hx : x ∈ l) :
    ∃ next, shape m x.1 = some (next, x.2) := by
  induction h with
  | nil => simp at hx
  | @cons a next v l hshape _ ih =>
    rcases mem_cons.mp hx with rfl | hmem
    · exact ⟨next, hshape⟩
    · exact ih hmem

theorem suffix (h : Path m p l) {x : ℕ × α} (hx : x ∈ l) :
    ∃ l', Path m (some x.1) l' ∧ l' <:+ l := by
  induction h with
  | nil => simp at hx
  | @cons a next v l hshape hrest ih =>
    rcases mem_cons.mp hx with rfl | hmem
    · exact ⟨_, .cons hshape hrest, suffix_refl _⟩
    · obtain ⟨l', hl', hsuffix⟩ := ih hmem
      exact ⟨l', hl', hsuffix.trans (suffix_cons _ _)⟩

theorem nodup (h : Path m p l) : (l.map Prod.fst).Nodup := by
  induction h with
  | nil => exact nodup_nil
  | @cons a next v l hshape hrest ih =>
    rw [map_cons, nodup_cons]
    refine ⟨fun hmem => ?_, ih⟩
    obtain ⟨x, hx, hxa⟩ := mem_map.mp hmem
    obtain ⟨l', hl', hsuffix⟩ := hrest.suffix hx
    have hlonger := (Path.cons hshape hrest).unique (hxa ▸ hl')
    have hlength := hsuffix.length_le
    rw [← hlonger, length_cons] at hlength
    omega

theorem length_le (h : Path m p l) : l.length ≤ m.nodes.length := by
  have hsub : l.map Prod.fst ⊆ range m.nodes.length := by
    intro a ha
    obtain ⟨x, hx, rfl⟩ := mem_map.mp ha
    obtain ⟨next, hshape⟩ := h.mem_shape hx
    exact mem_range.mpr (lt_of_node (node_of_shape hshape))
  have hle := (subperm_of_subset h.nodup hsub).length_le
  simpa using hle

end Path

/-! ## Forests -/

/-- Every node is balanced and every list ends. -/
structure Forest (m : Memory α) : Prop where
  balanced : ∀ x, balance m x = 0
  reach : ∀ s, ∃ l, Path m (load m s) l

theorem Forest.countOf_eq (forest : Forest m) (x : ℕ) : countOf m x = refs m x := by
  have hbalanced := forest.balanced x
  unfold balance at hbalanced
  omega

theorem Forest.there (forest : Forest m) {s : Slot} {a : ℕ} (h : load m s = some a) :
    ∃ next v, shape m a = some (next, v) := by
  obtain ⟨l, hl⟩ := forest.reach s
  rw [h] at hl
  cases hl with
  | cons hshape _ => exact ⟨_, _, hshape⟩

theorem Forest.slot_unique (forest : Forest m) {s t : Slot} {x : ℕ} (single : countOf m x = 1)
    (hs : load m s = some x) (ht : load m t = some x) : s = t := by
  by_contra hne
  have htwo := two_le_refs hne hs ht
  rw [← forest.countOf_eq, single] at htwo
  omega

/-- The first nodes of list `i`, to which nothing else points, with the slots that lead to them
and the slot after them. -/
inductive Owned (m : Memory α) (i : ℕ) : List (ℕ × α) → List Slot → Slot → Prop
  | nil : Owned m i [] [] (.head i)
  | snoc {pre : List (ℕ × α)} {ent : List Slot} {s : Slot} {a : ℕ} {next : Option ℕ} {v : α} :
      Owned m i pre ent s → load m s = some a → shape m a = some (next, v) → countOf m a = 1 →
        Owned m i (pre ++ [(a, v)]) (ent ++ [s]) (.next a)

namespace Owned

variable {m' : Memory α} {i : ℕ} {pre : List (ℕ × α)} {ent : List Slot} {s : Slot}

theorem paths (owned : Owned m i pre ent s) {l : List (ℕ × α)} (path : Path m (load m s) l) :
    Path m (load m (.head i)) (pre ++ l) ∧ ∀ t ∈ ent, ∃ l', Path m (load m t) l' := by
  induction owned generalizing l with
  | nil => exact ⟨path, fun t ht => by simp at ht⟩
  | @snoc pre ent s a next v _ hload hshape _ ih =>
    have hnext : load m (.next a) = next := by
      rw [load_next, hshape]
      rfl
    have hpath : Path m (load m s) ((a, v) :: l) := by
      rw [hload]
      exact .cons hshape (hnext ▸ path)
    obtain ⟨hhead, hent⟩ := ih hpath
    rw [append_assoc]
    refine ⟨hhead, fun t ht => ?_⟩
    rcases mem_append.mp ht with hold | hlast
    · exact hent t hold
    · exact ⟨_, mem_singleton.mp hlast ▸ hpath⟩

theorem rest (forest : Forest m) (owned : Owned m i pre ent s) {l : List (ℕ × α)}
    (path : Path m (load m (.head i)) (pre ++ l)) : Path m (load m s) l := by
  obtain ⟨l', hl'⟩ := forest.reach s
  have heq := (owned.paths hl').1.unique path
  rwa [append_cancel_left heq] at hl'

theorem head_or_next (owned : Owned m i pre ent s) {b : ℕ} (hs : s = .next b) :
    b ∈ pre.map Prod.fst := by
  cases owned with
  | nil => cases hs
  | snoc _ _ _ _ =>
    cases hs
    simp

theorem head_cases (owned : Owned m i pre ent s) :
    (s = .head i ∨ .head i ∈ ent) ∧ ∀ j, s = .head j ∨ .head j ∈ ent → j = i := by
  induction owned with
  | nil =>
    refine ⟨Or.inl rfl, fun j hj => ?_⟩
    rcases hj with heq | hmem
    · cases heq
      rfl
    · simp at hmem
  | @snoc pre ent s a next v _ _ _ _ ih =>
    refine ⟨Or.inr ?_, fun j hj => ?_⟩
    · rcases ih.1 with heq | hmem
      · simp [heq]
      · simp [hmem]
    · rcases hj with heq | hmem
      · cases heq
      · rcases mem_append.mp hmem with hold | hlast
        · exact ih.2 j (Or.inr hold)
        · exact ih.2 j (Or.inl (mem_singleton.mp hlast).symm)

theorem mem_ent (owned : Owned m i pre ent s) {t : Slot} (ht : t ∈ ent) :
    t = .head i ∨ ∃ x ∈ pre, t = .next x.1 := by
  induction owned with
  | nil => simp at ht
  | @snoc pre ent s a next v hprev _ _ _ ih =>
    rcases mem_append.mp ht with hold | hlast
    · refine (ih hold).imp_right ?_
      rintro ⟨x, hx, rfl⟩
      exact ⟨x, by simp [hx], rfl⟩
    · rw [mem_singleton.mp hlast]
      cases hprev with
      | nil => exact Or.inl rfl
      | @snoc _ _ _ b _ w _ _ _ _ => exact Or.inr ⟨(b, w), by simp, rfl⟩

theorem nodup (forest : Forest m) (owned : Owned m i pre ent s) : (pre.map Prod.fst).Nodup := by
  obtain ⟨l, hl⟩ := forest.reach s
  have hnodup := (owned.paths hl).1.nodup
  rw [map_append] at hnodup
  exact (nodup_append.mp hnodup).1

theorem not_mem_ent (forest : Forest m) (owned : Owned m i pre ent s) : s ∉ ent := by
  cases owned with
  | nil => simp
  | @snoc pre ent s a next v hprev hload hshape hcount =>
    have hnodup := (Owned.snoc hprev hload hshape hcount).nodup forest
    rw [map_append, nodup_append] at hnodup
    have hnot : a ∉ pre.map Prod.fst := fun h => hnodup.2.2 a h a (by simp) rfl
    intro hmem
    rcases mem_append.mp hmem with hold | hlast
    · rcases hprev.mem_ent hold with heq | ⟨x, hx, heq⟩
      · cases heq
      · cases heq
        exact hnot (mem_map_of_mem hx)
    · exact hnot (hprev.head_or_next (mem_singleton.mp hlast).symm)

theorem avoids (forest : Forest m) (owned : Owned m i pre ent s) {t : Slot} (ht : t ∉ ent)
    {l : List (ℕ × α)} (path : Path m (load m t) l) : ∀ x ∈ l, x.1 ∉ pre.map Prod.fst := by
  induction owned with
  | nil => simp
  | @snoc pre ent s a next v hprev hload _ hcount ih =>
    rw [mem_append, not_or, mem_singleton] at ht
    have hbefore := ih ht.1
    intro x hx hmem
    rw [map_append, mem_append] at hmem
    rcases hmem with hold | hlast
    · exact hbefore x hx hold
    · have hxa : x.1 = a := by simpa using hlast
      obtain ⟨t', ht', hfrom⟩ := path.entered hx
      rw [hxa] at ht'
      obtain rfl := forest.slot_unique hcount hload ht'
      rcases hfrom with heq | ⟨y, hy, heq⟩
      · exact ht.2 heq.symm
      · exact hbefore y hy (hprev.head_or_next heq)

end Owned

/-! ## Changing a list behind its first nodes -/

theorem load_congr {m' : Memory α} (heads : m'.heads = m.heads) {t : Slot}
    (same : ∀ b, t = .next b → shape m' b = shape m b) : load m' t = load m t := by
  cases t with
  | head i => simp only [load, heads]
  | next b => rw [load_next, load_next, same b rfl]

theorem shape_store_of_ne {s : Slot} (writable : Writable m s) {x : ℕ} (ne : s ≠ .next x)
    (p : Option ℕ) : shape (store m s p) x = shape m x := by
  cases s with
  | head i => rfl
  | next a =>
    obtain ⟨n, hn⟩ := Option.isSome_iff_exists.mp writable
    rw [shape_store_next hn, if_neg fun h : x = a => ne (congrArg Slot.next h.symm)]

theorem value_store {s : Slot} (writable : Writable m s) (p : Option ℕ) {x : ℕ}
    {next : Option ℕ} {v : α} (h : shape m x = some (next, v)) :
    ∃ next', shape (store m s p) x = some (next', v) := by
  by_cases heq : s = .next x
  · subst heq
    rw [shape_store_next (node_of_shape h), if_pos rfl]
    exact ⟨p, rfl⟩
  · exact ⟨next, (shape_store_of_ne writable heq p).trans h⟩

theorem shape_fresh : shape m (fresh m) = none := by
  rw [shape, node_fresh]
  rfl

namespace Owned

variable {m' : Memory α} {i : ℕ} {pre : List (ℕ × α)} {ent : List Slot} {s : Slot}

theorem value (forest : Forest m) (owned : Owned m i pre ent s) {x : ℕ × α} (hx : x ∈ pre) :
    ∃ next, shape m x.1 = some (next, x.2) := by
  obtain ⟨l, hl⟩ := forest.reach s
  exact (owned.paths hl).1.mem_shape (mem_append_left l hx)

theorem count (owned : Owned m i pre ent s) {x : ℕ × α} (hx : x ∈ pre) : countOf m x.1 = 1 := by
  induction owned with
  | nil => simp at hx
  | @snoc pre ent s a next v _ _ _ hcount ih =>
    rcases mem_append.mp hx with hold | hlast
    · exact ih hold
    · rw [mem_singleton.mp hlast]
      exact hcount

theorem transfer (owned : Owned m i pre ent s) (loads : ∀ t ∈ ent, load m' t = load m t)
    (values : ∀ x ∈ pre, ∃ next, shape m' x.1 = some (next, x.2))
    (counts : ∀ x ∈ pre, countOf m' x.1 = 1) : Owned m' i pre ent s := by
  induction owned with
  | nil => exact .nil
  | @snoc pre ent s a next v _ hload _ _ ih =>
    obtain ⟨next', hvalue⟩ := values (a, v) (by simp)
    refine .snoc (ih (fun t ht => loads t (by simp [ht])) (fun x hx => values x (by simp [hx]))
      fun x hx => counts x (by simp [hx])) ?_ hvalue (counts (a, v) (by simp))
    rw [loads s (by simp), hload]

end Owned

/-- List `i` has become `l`; the nodes and values of the others are the same. -/
structure Edited (m m' : Memory α) (i : ℕ) (l : List (ℕ × α)) : Prop where
  forest : Forest m'
  path : Path m' (load m' (.head i)) l
  others : ∀ j, j ≠ i → ∀ l, Path m (load m (.head j)) l → Path m' (load m' (.head j)) l
  heads : m'.heads.length = m.heads.length

theorem Edited.refl {i : ℕ} {l : List (ℕ × α)} (forest : Forest m)
    (path : Path m (load m (.head i)) l) : Edited m m i l :=
  ⟨forest, path, fun _ _ _ h => h, rfl⟩

theorem Edited.trans {m' m'' : Memory α} {i : ℕ} {l l' : List (ℕ × α)} (h : Edited m m' i l)
    (h' : Edited m' m'' i l') : Edited m m'' i l' where
  forest := h'.forest
  path := h'.path
  others j hj k hk := h'.others j hj k (h.others j hj k hk)
  heads := h'.heads.trans h.heads

theorem rebuild {m' : Memory α} {i : ℕ} {pre rest : List (ℕ × α)} {ent : List Slot} {s : Slot}
    (forest : Forest m) (owned : Owned m i pre ent s) {g : ℕ} (away : g ∉ pre.map Prod.fst)
    (off : ∀ t, t ∉ ent → t ≠ s → t ≠ .next g → ∀ l, Path m (load m t) l → ∀ x ∈ l, x.1 ≠ g)
    (balanced : ∀ x, balance m' x = 0)
    (shapes : ∀ x, x ∉ pre.map Prod.fst → x ≠ g → shape m' x = shape m x)
    (values : ∀ x ∈ pre, ∃ next, shape m' x.1 = some (next, x.2))
    (counts : ∀ x ∈ pre, countOf m' x.1 = 1)
    (loads : ∀ t, t ≠ s → t ≠ .next g → load m' t = load m t)
    (path : Path m' (load m' s) rest) (new : ∃ l, Path m' (load m' (.next g)) l)
    (heads : m'.heads.length = m.heads.length) :
    Edited m m' i (pre ++ rest) ∧ Owned m' i pre ent s := by
  have hent : ∀ t ∈ ent, load m' t = load m t := by
    intro t ht
    refine loads t (fun heq => owned.not_mem_ent forest (heq ▸ ht)) fun heq => ?_
    rcases owned.mem_ent ht with hhead | ⟨x, hx, hnext⟩
    · cases heq.symm.trans hhead
    · cases heq.symm.trans hnext
      exact away (mem_map_of_mem hx)
  have howned := owned.transfer hent values counts
  have hkept : ∀ t, t ∉ ent → t ≠ s → t ≠ .next g → ∀ l, Path m (load m t) l →
      Path m' (load m' t) l := by
    intro t hent hs hg l hl
    rw [loads t hs hg]
    exact hl.congr fun x hx =>
      shapes x.1 (owned.avoids forest hent hl x hx) (off t hent hs hg l hl x hx)
  refine ⟨⟨⟨balanced, fun t => ?_⟩, (howned.paths path).1, fun j hj l hl => ?_, heads⟩, howned⟩
  · by_cases ht : t ∈ ent
    · exact (howned.paths path).2 t ht
    · by_cases hs : t = s
      · exact ⟨rest, hs ▸ path⟩
      · by_cases hg : t = .next g
        · exact hg ▸ new
        · obtain ⟨l, hl⟩ := forest.reach t
          exact ⟨l, hkept t ht hs hg l hl⟩
  · have hnot : ¬(s = .head j ∨ .head j ∈ ent) := fun h => hj (owned.head_cases.2 j h)
    rw [not_or] at hnot
    exact hkept _ hnot.2 (fun heq => hnot.1 heq.symm) (fun heq => by cases heq) l hl

theorem off_fresh {t : Slot} {l : List (ℕ × α)} (hl : Path m (load m t) l) :
    ∀ x ∈ l, x.1 ≠ fresh m := by
  intro x hx heq
  obtain ⟨next, hshape⟩ := hl.mem_shape hx
  rw [heq, shape_fresh] at hshape
  cases hshape

theorem off_single {i : ℕ} {pre : List (ℕ × α)} {ent : List Slot} {s : Slot} (forest : Forest m)
    (owned : Owned m i pre ent s) {a : ℕ} (hload : load m s = some a) (single : countOf m a = 1)
    {t : Slot} (ht : t ∉ ent) (hs : t ≠ s) {l : List (ℕ × α)} (hl : Path m (load m t) l) :
    ∀ x ∈ l, x.1 ≠ a := by
  obtain ⟨next, v, hshape⟩ := forest.there hload
  have hlonger := Owned.snoc owned hload hshape single
  intro x hx heq
  refine hlonger.avoids forest (t := t) ?_ hl x hx ?_
  · simp [ht, hs]
  · simp [heq]

/-! ## Operations -/

theorem countOf_setNode {a : ℕ} (lt : a < m.nodes.length) (n : Option (Node α)) (x : ℕ) :
    countOf (setNode m a n) x = if x = a then countAt n else countOf m x := by
  unfold countOf
  rw [node_setNode lt]
  split <;> rfl

theorem countOf_setNode_le {a : ℕ} {n : Option (Node α)} (le : countAt n ≤ countOf m a) (x : ℕ) :
    countOf (setNode m a n) x ≤ countOf m x := by
  by_cases lt : a < m.nodes.length
  · rw [countOf_setNode lt]
    split_ifs with hxa
    · exact hxa ▸ le
    · exact le_rfl
  · rw [setNode, set_eq_of_length_le (Nat.le_of_not_lt lt)]

theorem countOf_pred_le {a : ℕ} {n : Node α} (hn : node m a = some n) (pos : 1 ≤ n.count.toNat)
    (x : ℕ) : countOf (setCount m a (n.count - 1)) x ≤ countOf m x := by
  refine countOf_setNode_le ?_ x
  simp only [hn, countOf, Option.map_some, countAt, Node.toNat_pred pos]
  exact Nat.sub_le _ _

theorem countOf_setCount_of_ne {a x : ℕ} {n : Node α} (hn : node m a = some n) (ne : x ≠ a)
    (count : UInt32) : countOf (setCount m a count) x = countOf m x := by
  unfold setCount
  rw [countOf_setNode (lt_of_node hn), if_neg ne]

theorem countOf_share_of_ne {p : Option ℕ} (there : ∀ a ∈ p, (node m a).isSome) {x : ℕ}
    (ne : p ≠ some x) : countOf (share m p) x = countOf m x := by
  cases p with
  | none => rfl
  | some a =>
    obtain ⟨n, hn⟩ := Option.isSome_iff_exists.mp (there a rfl)
    unfold share
    rw [countOf_setNode (lt_of_node hn), if_neg fun h : x = a => ne (congrArg some h.symm)]

theorem countOf_alloc_of_ne {n : Node α} {x : ℕ} (ne : x ≠ fresh m) :
    countOf (alloc m n) x = countOf m x := by
  unfold countOf
  rw [node_alloc, if_neg ne]

theorem points_some (a x : ℕ) : points (some a) x = if x = a then 1 else 0 := by
  unfold points
  by_cases hxa : x = a
  · simp [hxa]
  · simp [hxa, Ne.symm hxa]

theorem heads_store_length (s : Slot) (p : Option ℕ) :
    (store m s p).heads.length = m.heads.length := by
  cases s <;> simp [store, setNode]

theorem heads_share (p : Option ℕ) : (share m p).heads = m.heads := by
  cases p <;> rfl

theorem fresh_setCount (a : ℕ) (count : UInt32) : fresh (setCount m a count) = fresh m := by
  simp [fresh, setCount, setNode]

theorem node_ne_fresh {a : ℕ} {n : Node α} (hn : node m a = some n) : a ≠ fresh m := by
  rintro rfl
  rw [node_fresh] at hn
  cases hn

theorem next_there (forest : Forest m) {c : ℕ} {n : Node α} (hn : node m c = some n) :
    ∀ d ∈ n.next, (shape m d).isSome := by
  intro d hd
  have hload : load m (.next c) = some d := by
    rw [load_next, shape_of_node hn]
    exact hd
  obtain ⟨next, v, hshape⟩ := forest.there hload
  rw [hshape]
  rfl

def copyNode (m : Memory α) (c : ℕ) (n : Node α) (v : α) : Memory α :=
  share (alloc (setCount m c (n.count - 1)) ⟨n.next, 1, v⟩) n.next

section Copy

variable {c : ℕ} {n : Node α}

theorem shape_copied (hn : node m c = some n) (v : α) (x : ℕ) :
    shape (alloc (setCount m c (n.count - 1)) ⟨n.next, 1, v⟩) x =
      if x = fresh m then some (n.next, v) else shape m x := by
  rw [shape_alloc, fresh_setCount, shape_setCount hn]

theorem copied_there (forest : Forest m) (hn : node m c = some n) (v : α) :
    ∀ d ∈ n.next, (node (alloc (setCount m c (n.count - 1)) ⟨n.next, 1, v⟩) d).isSome := by
  intro d hd
  rw [isSome_node_iff, shape_copied hn]
  split
  · rfl
  · exact next_there forest hn d hd

theorem shape_copyNode (forest : Forest m) (hn : node m c = some n) (v : α) (x : ℕ) :
    shape (copyNode m c n v) x = if x = fresh m then some (n.next, v) else shape m x := by
  unfold copyNode
  rw [shape_share (copied_there forest hn v), shape_copied hn]

theorem balance_copyNode (forest : Forest m) (hn : node m c = some n) (shared : 1 < n.count)
    (room : ∀ d ∈ n.next, countOf m d + 1 < 4294967296) (v : α) (x : ℕ) :
    balance (copyNode m c n v) x = points (some (fresh m)) x - points (some c) x := by
  have hmany := Node.one_lt.mp shared
  have hpred := Node.toNat_pred hmany.le
  have hroom : ∀ d ∈ n.next,
      countOf (alloc (setCount m c (n.count - 1)) ⟨n.next, 1, v⟩) d + 1 < 4294967296 := by
    intro d hd
    have hbefore := room d hd
    have hfresh : d ≠ fresh m := by
      rintro rfl
      simpa [shape, node_fresh] using next_there forest hn _ hd
    rw [countOf_alloc_of_ne (by rwa [fresh_setCount])]
    by_cases hdc : d = c
    · rw [setCount, countOf_setNode (lt_of_node hn), if_pos hdc, hn]
      rw [hdc, countOf, hn] at hbefore
      simp only [Option.map_some, countAt, hpred] at hbefore ⊢
      omega
    · rwa [countOf_setCount_of_ne hn hdc]
  unfold copyNode
  rw [balance_share (copied_there forest hn v) hroom, balance_alloc, balance_setCount hn,
    fresh_setCount, forest.balanced x, points_some, points_some]
  simp only [hpred, UInt32.toNat_one]
  split_ifs <;> omega

theorem countOf_copyNode (forest : Forest m) (hn : node m c = some n) (v : α) {x : ℕ} (hc : x ≠ c)
    (hfresh : x ≠ fresh m) (hnext : n.next ≠ some x) :
    countOf (copyNode m c n v) x = countOf m x := by
  unfold copyNode
  rw [countOf_share_of_ne (copied_there forest hn v) hnext,
    countOf_alloc_of_ne (by rwa [fresh_setCount]), countOf_setCount_of_ne hn hc]

end Copy

/-! ### Changes at the slot behind the first nodes -/

section Changes

variable {i : ℕ} {pre rest : List (ℕ × α)} {ent : List Slot} {s : Slot} {c : ℕ} {n : Node α}

structure At (m : Memory α) (i : ℕ) (pre : List (ℕ × α)) (ent : List Slot) (s : Slot) (c : ℕ)
    (n : Node α) (rest : List (ℕ × α)) : Prop where
  forest : Forest m
  owned : Owned m i pre ent s
  slot : load m s = some c
  isNode : node m c = some n
  path : Path m n.next rest

namespace At

section

variable (here : At m i pre ent s c n rest)

include here

theorem path_cons : Path m (load m s) ((c, n.value) :: rest) :=
  here.slot ▸ .cons (shape_of_node here.isNode) here.path

theorem path_next : Path m (load m (.next c)) rest := by
  rw [load_next, shape_of_node here.isNode]
  exact here.path

theorem countOf_eq : countOf m c = n.count.toNat := by
  rw [countOf, here.isNode]
  rfl

theorem count_pos : 1 ≤ n.count.toNat := by
  rw [← here.countOf_eq, here.forest.countOf_eq]
  exact refs_pos here.slot

theorem shared (several : ¬(decide (n.count = 1) = true)) : 1 < n.count :=
  by_contra fun few => several (decide_eq_true (Node.single here.count_pos few))

theorem countOf_one (single : n.count = 1) : countOf m c = 1 := by
  rw [here.countOf_eq, single]
  rfl

/-- The list does not come back to the node. -/
theorem path_away {d : ℕ} (hd : d ∈ n.next) : d ≠ c := by
  rintro rfl
  have hpath := here.path
  rw [hd] at hpath
  have hlonger := hpath.unique (.cons (shape_of_node here.isNode) here.path)
  have hlength := congrArg List.length hlonger
  rw [length_cons] at hlength
  omega

theorem apart : c ∉ pre.map Prod.fst ∧ ∀ x ∈ rest, x.1 ∉ pre.map Prod.fst ∧ x.1 ≠ c := by
  have havoid := here.owned.avoids here.forest (here.owned.not_mem_ent here.forest) here.path_cons
  have hnodup := (nodup_cons.mp here.path_cons.nodup).1
  refine ⟨havoid (c, n.value) (by simp), fun x hx => ⟨havoid x (by simp [hx]), fun heq => ?_⟩⟩
  exact hnodup (mem_map.mpr ⟨x, hx, heq⟩)

theorem slot_ne : s ≠ .next c := fun heq =>
  here.apart.1 (here.owned.head_or_next heq)

theorem next_ne {x : ℕ × α} (hx : x ∈ pre) : n.next ≠ some x.1 := by
  intro heq
  have hpath := here.path
  rw [heq] at hpath
  cases hpath with
  | @cons _ _ w l _ _ => exact (here.apart.2 (x.1, w) (by simp)).1 (mem_map.mpr ⟨x, hx, rfl⟩)

theorem ne_fresh : fresh m ∉ pre.map Prod.fst ∧ s ≠ .next (fresh m) := by
  have haway : fresh m ∉ pre.map Prod.fst := by
    intro hmem
    obtain ⟨x, hx, heq⟩ := mem_map.mp hmem
    obtain ⟨next, hvalue⟩ := here.owned.value here.forest hx
    rw [heq, shape_fresh] at hvalue
    cases hvalue
  exact ⟨haway, fun heq => haway (here.owned.head_or_next heq)⟩

end

end At

/-- The node `c` behind slot `s` is replaced by a copy with the value `v`. -/
def substitute (m : Memory α) (s : Slot) (c : ℕ) (n : Node α) (v : α) : Memory α :=
  store (copyNode m c n v) s (some (fresh m))

theorem At.load_copyNode (here : At m i pre ent s c n rest) (v : α) (t : Slot)
    (ht : t ≠ .next (fresh m)) : load (copyNode m c n v) t = load m t := by
  have hheads : (copyNode m c n v).heads = m.heads := heads_share _
  refine load_congr hheads fun b hb => ?_
  rw [shape_copyNode here.forest here.isNode v,
    if_neg fun heq => ht (hb.trans (congrArg Slot.next heq))]

theorem At.writable_copyNode (here : At m i pre ent s c n rest) (v : α) :
    Writable (copyNode m c n v) s :=
  writable_of_load ((here.load_copyNode v s here.ne_fresh.2).trans here.slot)

theorem countOf_substitute (here : At m i pre ent s c n rest) (v : α) {x : ℕ} (hc : x ≠ c)
    (hfresh : x ≠ fresh m) (hnext : n.next ≠ some x) :
    countOf (substitute m s c n v) x = countOf m x := by
  rw [substitute, countOf_store (here.writable_copyNode v),
    countOf_copyNode here.forest here.isNode v hc hfresh hnext]

theorem substitute_spec (here : At m i pre ent s c n rest) (shared : 1 < n.count)
    (room : ∀ d ∈ n.next, countOf m d + 1 < 4294967296) (v : α) :
    Edited m (substitute m s c n v) i (pre ++ (fresh m, v) :: rest) ∧
      Owned (substitute m s c n v) i (pre ++ [(fresh m, v)]) (ent ++ [s]) (.next (fresh m)) ∧
      load (substitute m s c n v) (.next (fresh m)) = n.next ∧
      load (substitute m s c n v) (.next c) = n.next := by
  have hn := here.isNode
  have hshape := shape_copyNode here.forest hn v
  have hsfresh := here.ne_fresh.2
  have haway := here.ne_fresh.1
  have hloads := here.load_copyNode v
  have hwritable := here.writable_copyNode v
  have hstored := fun x (hx : s ≠ .next x) => shape_store_of_ne hwritable hx (some (fresh m))
  have hload : ∀ t, load (substitute m s c n v) t =
      if t = s then some (fresh m) else load (copyNode m c n v) t :=
    load_store hwritable (some (fresh m))
  have hnew : shape (substitute m s c n v) (fresh m) = some (n.next, v) := by
    unfold substitute
    rw [hstored _ hsfresh, hshape, if_pos rfl]
  have hshapes : ∀ x, x ∉ pre.map Prod.fst → x ≠ fresh m →
      shape (substitute m s c n v) x = shape m x := by
    intro x hx hne
    unfold substitute
    rw [hstored x fun heq => hx (here.owned.head_or_next heq), hshape, if_neg hne]
  have hrest : Path (substitute m s c n v) n.next rest :=
    here.path.congr fun x hx => hshapes x.1 (here.apart.2 x hx).1 (off_fresh here.path_next x hx)
  have hcount : countOf (substitute m s c n v) (fresh m) = 1 := by
    have hnext : n.next ≠ some (fresh m) := fun heq => by
      have hthere := next_there here.forest hn (fresh m) heq
      rw [shape_fresh] at hthere
      cases hthere
    unfold substitute
    rw [countOf_store hwritable]
    unfold copyNode
    rw [countOf_share_of_ne (copied_there here.forest hn v) hnext,
      countOf, node_alloc, fresh_setCount, if_pos rfl]
    rfl
  have hslot : load (substitute m s c n v) s = some (fresh m) := by
    rw [hload s, if_pos rfl]
  have hrebuilt : Edited m (substitute m s c n v) i (pre ++ (fresh m, v) :: rest) ∧
      Owned (substitute m s c n v) i pre ent s := by
    refine rebuild here.forest here.owned haway (fun t _ _ _ l hl => off_fresh hl) (fun x => ?_)
      hshapes (fun x hx => ?_) (fun x hx => ?_) (fun t hs hf => ?_) ?_ ⟨rest, ?_⟩ ?_
    · unfold substitute
      rw [balance_store hwritable, hloads s hsfresh, here.slot,
        balance_copyNode here.forest hn shared room]
      ring
    · obtain ⟨next, hvalue⟩ := here.owned.value here.forest hx
      have hne : x.1 ≠ fresh m := fun heq => haway (heq ▸ mem_map_of_mem hx)
      exact value_store hwritable _ ((hshape x.1).trans ((if_neg hne).trans hvalue))
    · have hmem := mem_map_of_mem (f := Prod.fst) hx
      unfold substitute
      rw [countOf_store hwritable, countOf_copyNode here.forest hn v, here.owned.count hx]
      · exact fun heq => here.apart.1 (heq ▸ hmem)
      · exact fun heq => haway (heq ▸ hmem)
      · exact here.next_ne hx
    · rw [hload t, if_neg hs, hloads t hf]
    · rw [hslot]
      exact .cons hnew hrest
    · rw [load_next, hnew]
      exact hrest
    · unfold substitute
      rw [heads_store_length]
      exact congrArg List.length (heads_share _)
  refine ⟨hrebuilt.1, .snoc hrebuilt.2 hslot hnew hcount, ?_, ?_⟩
  · rw [load_next, hnew]
    rfl
  · rw [load_next, hshapes c here.apart.1 (node_ne_fresh hn), shape_of_node hn]
    rfl

/-- The slot is led around the node `c`, to which others point as well. -/
def bypass (m : Memory α) (s : Slot) (c : ℕ) (n : Node α) : Memory α :=
  share (setCount (store m s n.next) c (n.count - 1)) n.next

theorem node_store_of_ne (writable : Writable m s) {x : ℕ} (ne : s ≠ .next x) (p : Option ℕ) :
    node (store m s p) x = node m x := by
  cases s with
  | head i => rfl
  | next a =>
    obtain ⟨n, hn⟩ := Option.isSome_iff_exists.mp writable
    simp only [store]
    rw [node_setNode (lt_of_node hn), if_neg fun h : x = a => ne (congrArg Slot.next h.symm)]

section

variable (here : At m i pre ent s c n rest)

include here

theorem At.node_stored (p : Option ℕ) : node (store m s p) c = some n := by
  rw [node_store_of_ne (writable_of_load here.slot) here.slot_ne, here.isNode]

theorem At.value_stored (p : Option ℕ) {x : ℕ × α}
    (hx : x ∈ pre) : ∃ next, shape (store m s p) x.1 = some (next, x.2) := by
  obtain ⟨next, hvalue⟩ := here.owned.value here.forest hx
  exact value_store (writable_of_load here.slot) p hvalue

theorem At.bypass_there :
    ∀ d ∈ n.next, (node (setCount (store m s n.next) c (n.count - 1)) d).isSome := by
  intro d hd
  have hthere := next_there here.forest here.isNode d hd
  rw [isSome_node_iff, shape_setCount (here.node_stored n.next)]
  obtain ⟨⟨next, v⟩, hshape⟩ := Option.isSome_iff_exists.mp hthere
  obtain ⟨next', hshape'⟩ := value_store (writable_of_load here.slot) n.next hshape
  rw [hshape']
  rfl

theorem bypass_spec (shared : 1 < n.count) (room : ∀ d ∈ n.next, countOf m d + 1 < 4294967296) :
    Edited m (bypass m s c n) i (pre ++ rest) := by
  have hwritable := writable_of_load here.slot
  have hstored := here.node_stored n.next
  have hmany := Node.one_lt.mp shared
  have hroom : ∀ d ∈ n.next, countOf (setCount (store m s n.next) c (n.count - 1)) d + 1 <
      4294967296 := by
    intro d hd
    rw [countOf_setCount_of_ne hstored (here.path_away hd), countOf_store hwritable]
    exact room d hd
  have hshape : ∀ x, shape (bypass m s c n) x = shape (store m s n.next) x := by
    intro x
    unfold bypass
    rw [shape_share here.bypass_there, shape_setCount hstored]
  have hheads : (bypass m s c n).heads = (store m s n.next).heads := heads_share _
  have hload : ∀ t, load (bypass m s c n) t = if t = s then n.next else load m t := by
    intro t
    rw [load_congr hheads fun b _ => hshape b, load_store hwritable]
  have hshapes : ∀ x, x ∉ pre.map Prod.fst → shape (bypass m s c n) x = shape m x := by
    intro x hx
    rw [hshape, shape_store_of_ne hwritable fun heq => hx (here.owned.head_or_next heq)]
  have hrest : Path (bypass m s c n) n.next rest :=
    here.path.congr fun x hx => hshapes x.1 (here.apart.2 x hx).1
  refine (rebuild here.forest here.owned here.ne_fresh.1 (fun t _ _ _ l hl => off_fresh hl)
    (fun x => ?_) (fun x hx _ => hshapes x hx) (fun x hx => ?_) (fun x hx => ?_)
    (fun t hs _ => ?_) ?_ ⟨[], ?_⟩ ?_).1
  · unfold bypass
    rw [balance_share here.bypass_there hroom, balance_setCount hstored,
      balance_store hwritable, here.slot, here.forest.balanced x, points_some,
      Node.toNat_pred hmany.le]
    split_ifs <;> omega
  · rw [hshape]
    exact here.value_stored n.next hx
  · unfold bypass
    rw [countOf_share_of_ne here.bypass_there (here.next_ne hx), countOf_setCount_of_ne hstored,
      countOf_store hwritable, here.owned.count hx]
    exact fun heq => here.apart.1 (heq ▸ mem_map_of_mem hx)
  · rw [hload, if_neg hs]
  · rw [hload, if_pos rfl]
    exact hrest
  · rw [hload, if_neg here.ne_fresh.2.symm, load_next, shape_fresh]
    exact .nil
  · rw [hheads, heads_store_length]

end

/-- The slot is led around the node `c`, to which nothing else points. -/
def unlink (m : Memory α) (s : Slot) (c : ℕ) (n : Node α) : Memory α :=
  free (store m s n.next) c

theorem unlink_spec (here : At m i pre ent s c n rest) (single : n.count = 1) :
    Edited m (unlink m s c n) i (pre ++ rest) := by
  have hwritable := writable_of_load here.slot
  have hstored := here.node_stored n.next
  have hcount : countOf m c = 1 := here.countOf_one single
  have hshape : ∀ x, x ≠ c → shape (unlink m s c n) x = shape (store m s n.next) x := by
    intro x hx
    unfold unlink
    rw [shape_free hstored, if_neg hx]
  have hload : ∀ t, t ≠ .next c →
      load (unlink m s c n) t = if t = s then n.next else load m t := by
    intro t ht
    have hheads : (unlink m s c n).heads = (store m s n.next).heads := rfl
    rw [load_congr hheads fun b hb => hshape b fun heq => ht (hb.trans (congrArg _ heq)),
      load_store hwritable]
  have hshapes : ∀ x, x ∉ pre.map Prod.fst → x ≠ c → shape (unlink m s c n) x = shape m x := by
    intro x hx hne
    rw [hshape x hne, shape_store_of_ne hwritable fun heq => hx (here.owned.head_or_next heq)]
  have hne : ∀ x ∈ pre, x.1 ≠ c := fun x hx heq => here.apart.1 (heq ▸ mem_map_of_mem hx)
  refine (rebuild here.forest here.owned here.apart.1
    (fun t ht hs _ l hl => off_single here.forest here.owned here.slot hcount ht hs hl)
    (fun x => ?_) hshapes (fun x hx => ?_) (fun x hx => ?_) (fun t hs hc => ?_) ?_ ⟨[], ?_⟩ ?_).1
  · unfold unlink
    rw [balance_free hstored, balance_store hwritable, here.slot, here.forest.balanced x,
      points_some, single]
    split_ifs <;> simp
  · rw [hshape x.1 (hne x hx)]
    exact here.value_stored n.next hx
  · unfold unlink free
    rw [countOf_setNode (lt_of_node hstored), if_neg (hne x hx), countOf_store hwritable,
      here.owned.count hx]
  · rw [hload t hc, if_neg hs]
  · rw [hload s here.slot_ne, if_pos rfl]
    exact here.path.congr fun x hx => hshapes x.1 (here.apart.2 x hx).1 (here.apart.2 x hx).2
  · unfold unlink
    rw [load_next, shape_free hstored, if_pos rfl]
    exact .nil
  · exact heads_store_length s n.next

theorem setValue_spec (here : At m i pre ent s c n rest) (single : n.count = 1) (v : α) :
    Edited m (setValue m c v) i (pre ++ (c, v) :: rest) := by
  have hshape := shape_setValue here.isNode v
  have hload : ∀ t, load (setValue m c v) t = load m t := by
    intro t
    cases t with
    | head j => rfl
    | next b =>
      rw [load_next, load_next, hshape]
      by_cases hbc : b = c
      · rw [if_pos hbc, hbc, shape_of_node here.isNode]
        rfl
      · rw [if_neg hbc]
  have hshapes : ∀ x, x ≠ c → shape (setValue m c v) x = shape m x := by
    intro x hx
    rw [hshape, if_neg hx]
  have hrest : Path (setValue m c v) n.next rest :=
    here.path.congr fun x hx => hshapes x.1 (here.apart.2 x hx).2
  have hne : ∀ x ∈ pre, x.1 ≠ c := fun x hx heq => here.apart.1 (heq ▸ mem_map_of_mem hx)
  refine (rebuild here.forest here.owned here.apart.1
    (fun t ht hs _ l hl => off_single here.forest here.owned here.slot
      (here.countOf_one single) ht hs hl)
    (fun x => ?_) (fun x _ => hshapes x) (fun x hx => ?_) (fun x hx => ?_)
    (fun t _ _ => hload t) ?_ ⟨rest, ?_⟩ rfl).1
  · rw [balance_setValue here.isNode, here.forest.balanced x]
  · rw [hshapes x.1 (hne x hx)]
    exact here.owned.value here.forest hx
  · unfold setValue
    rw [countOf_setNode (lt_of_node here.isNode), if_neg (hne x hx), here.owned.count hx]
  · rw [hload, here.slot]
    refine .cons ?_ hrest
    rw [hshape, if_pos rfl]
  · rw [hload, load_next, shape_of_node here.isNode]
    exact hrest

end Changes

/-! ### Changes at a head -/

section Heads

variable {i : ℕ} {l : List (ℕ × α)}

def prepend (m : Memory α) (i : ℕ) (v : α) : Memory α :=
  store (alloc m ⟨load m (.head i), 1, v⟩) (.head i) (some (fresh m))

theorem prepend_spec (forest : Forest m) (head : i < m.heads.length)
    (path : Path m (load m (.head i)) l) (v : α) :
    Edited m (prepend m i v) i ((fresh m, v) :: l) := by
  have hwritable : Writable (alloc m ⟨load m (.head i), 1, v⟩) (.head i) := head
  have hshape : ∀ x, shape (prepend m i v) x =
      if x = fresh m then some (load m (.head i), v) else shape m x := shape_alloc _
  have hload : ∀ t, t ≠ .next (fresh m) →
      load (prepend m i v) t = if t = .head i then some (fresh m) else load m t := by
    intro t ht
    unfold prepend
    rw [load_store hwritable]
    have hheads : (alloc m ⟨load m (.head i), 1, v⟩).heads = m.heads := rfl
    refine if_congr Iff.rfl rfl (load_congr hheads fun b hb => ?_)
    rw [shape_alloc, if_neg fun heq => ht (hb.trans (congrArg _ heq))]
  have hrest : Path (prepend m i v) (load m (.head i)) l :=
    path.congr fun x hx => by rw [hshape, if_neg (off_fresh path x hx)]
  refine (rebuild forest .nil (by simp) (fun t _ _ _ l hl => off_fresh hl) (fun x => ?_)
    (fun x _ hx => ?_) (by simp) (by simp) (fun t hs hf => ?_) ?_ ⟨l, ?_⟩ ?_).1
  · unfold prepend
    rw [balance_store hwritable, balance_alloc, forest.balanced x, points_some]
    have hhead : load (alloc m ⟨load m (.head i), 1, v⟩) (.head i) = load m (.head i) := rfl
    rw [hhead]
    split_ifs <;> simp
  · rw [hshape, if_neg hx]
  · rw [hload t hf, if_neg hs]
  · rw [hload _ (by simp), if_pos rfl]
    refine .cons ?_ hrest
    rw [hshape, if_pos rfl]
  · rw [load_next, hshape, if_pos rfl]
    exact hrest
  · exact heads_store_length _ _

def join (m : Memory α) (i : ℕ) (p : Option ℕ) : Memory α := share (store m (.head i) p) p

theorem join_spec (forest : Forest m) (head : i < m.heads.length)
    (empty : load m (.head i) = none) {t : Slot} (path : Path m (load m t) l)
    (room : ∀ a ∈ load m t, countOf m a + 1 < 4294967296) :
    Edited m (join m i (load m t)) i l := by
  have hwritable : Writable m (.head i) := head
  have hthere : ∀ a ∈ load m t, (node (store m (.head i) (load m t)) a).isSome := by
    intro a ha
    obtain ⟨next, v, hshape⟩ := forest.there ha
    rw [isSome_node_iff, shape_store_head, hshape]
    rfl
  have hshape : ∀ x, shape (join m i (load m t)) x = shape m x := shape_share hthere
  have hload : ∀ t', load (join m i (load m t)) t' =
      if t' = .head i then load m t else load m t' := by
    intro t'
    rw [← load_store hwritable]
    exact load_congr (heads_share _) fun b _ => hshape b
  refine (rebuild forest .nil (g := fresh m) (by simp) (fun t _ _ _ l hl => off_fresh hl)
    (fun x => ?_) (fun x _ _ => hshape x) (by simp) (by simp) (fun t hs _ => ?_) ?_ ⟨[], ?_⟩ ?_).1
  · unfold join
    rw [balance_share hthere room, balance_store hwritable, forest.balanced x, empty, points_none]
    ring
  · rw [hload, if_neg hs]
  · rw [hload, if_pos rfl]
    exact path.congr fun x _ => hshape x.1
  · rw [hload, if_neg (by simp), load_next, shape_fresh]
    exact .nil
  · unfold join
    rw [heads_share, heads_store_length]

def leave (m : Memory α) (i c : ℕ) (n : Node α) : Memory α :=
  setCount (store m (.head i) none) c (n.count - 1)

theorem leave_spec (forest : Forest m) {c : ℕ} {n : Node α} (head : load m (.head i) = some c)
    (hn : node m c = some n) (shared : 1 < n.count) : Edited m (leave m i c n) i [] := by
  have hmany := Node.one_lt.mp shared
  have hwritable : Writable m (.head i) := writable_of_load head
  have hstored : node (store m (.head i) none) c = some n := hn
  have hshape : ∀ x, shape (leave m i c n) x = shape m x := shape_setCount hstored _
  have hload : ∀ t, load (leave m i c n) t = if t = .head i then none else load m t := by
    intro t
    have hheads : (leave m i c n).heads = (store m (.head i) none).heads := rfl
    rw [← load_store hwritable]
    exact load_congr hheads fun b _ => hshape b
  refine (rebuild forest .nil (g := fresh m) (by simp) (fun t _ _ _ l hl => off_fresh hl)
    (fun x => ?_) (fun x _ _ => hshape x) (by simp) (by simp) (fun t hs _ => ?_) ?_ ⟨[], ?_⟩ ?_).1
  · unfold leave
    rw [balance_setCount hstored, balance_store hwritable, forest.balanced x, head, points_some,
      points_none, Node.toNat_pred hmany.le]
    split_ifs <;> omega
  · rw [hload, if_neg hs]
  · rw [hload, if_pos rfl]
    exact .nil
  · rw [hload, if_neg (by simp), load_next, shape_fresh]
    exact .nil
  · exact heads_store_length _ _

def newHead (m : Memory α) : Memory α := { m with heads := m.heads ++ [none] }

theorem load_newHead (t : Slot) : load (newHead m) t = load m t := by
  cases t with
  | next b => rfl
  | head j =>
    unfold load newHead
    by_cases hj : j < m.heads.length
    · simp [List.getElem?_append_left hj]
    · by_cases heq : j = m.heads.length
      · simp [heq]
      · have hold : m.heads.length ≤ j := Nat.le_of_not_lt hj
        have hnew : (m.heads ++ [none]).length ≤ j := by
          rw [length_append, length_singleton]
          omega
        dsimp only
        rw [getD_eq_default _ _ hold, getD_eq_default _ _ hnew]

theorem path_newHead {p : Option ℕ} (path : Path m p l) : Path (newHead m) p l :=
  path.congr fun _ _ => rfl

theorem Forest.newHead (forest : Forest m) : Forest (newHead m) where
  balanced x := by
    have hrefs : refs (SharedList.newHead m) x = refs m x := by
      simp [refs, SharedList.newHead]
    rw [← forest.balanced x, balance, balance, hrefs]
    rfl
  reach t := by
    obtain ⟨l, hl⟩ := forest.reach t
    rw [load_newHead]
    exact ⟨l, path_newHead hl⟩

end Heads

end Egsr.Lib.SharedList
