import Mathlib.Data.List.Nodup
import Mathlib.Data.List.Perm.Subperm

/-! Linked lists whose elements are named by positions. A position stays the same
while other elements come and go, and names nothing once its own element has
been erased. The end is no position. -/

namespace Egsr.Lib

open List

structure Chain (α : Type*) where
  nodes : List (ℕ × α)
  /-- No element has had this position. -/
  fresh : ℕ
  nodup : (nodes.map Prod.fst).Nodup
  old : ∀ i ∈ nodes.map Prod.fst, i < fresh

namespace Chain

variable {α : Type*}

def empty : Chain α := ⟨[], 0, .nil, fun _ h => nomatch h⟩

variable (l : Chain α)

def first : Option ℕ := l.nodes.head?.map Prod.fst

def get? (i : ℕ) : Option α := (l.nodes.find? fun n => n.1 = i).map Prod.snd

def next (i : ℕ) : Option ℕ := (l.nodes.dropWhile fun n => n.1 ≠ i).tail.head?.map Prod.fst

def erase (i : ℕ) : Chain α where
  nodes := l.nodes.filter fun n => n.1 ≠ i
  fresh := l.fresh
  nodup := l.nodup.sublist (filter_sublist.map _)
  old j hj := l.old j ((filter_sublist.map _).subset hj)

/-- The nodes with a new one in front of a position, or behind all of them. -/
def insertNode (n : ℕ × α) : Option ℕ → List (ℕ × α) → List (ℕ × α)
  | none, nodes => nodes ++ [n]
  | some _, [] => [n]
  | some i, m :: nodes => if m.1 = i then n :: m :: nodes else m :: insertNode n (some i) nodes

theorem perm_insertNode (n : ℕ × α) (pos : Option ℕ) (nodes : List (ℕ × α)) :
    (insertNode n pos nodes).Perm (n :: nodes) := by
  cases pos with
  | none =>
    rw [insertNode]
    exact perm_append_singleton n nodes
  | some i =>
    induction nodes with
    | nil => exact List.Perm.refl _
    | cons m nodes ih =>
      rw [insertNode]
      split_ifs
      · exact List.Perm.refl _
      · exact (ih.cons m).trans (List.Perm.swap n m nodes)

def insert (pos : Option ℕ) (a : α) : Chain α where
  nodes := insertNode (l.fresh, a) pos l.nodes
  fresh := l.fresh + 1
  nodup := by
    have perm := (perm_insertNode (l.fresh, a) pos l.nodes).map Prod.fst
    exact perm.nodup_iff.mpr (nodup_cons.mpr ⟨fun h => Nat.lt_irrefl _ (l.old _ h), l.nodup⟩)
  old j hj := by
    have perm := (perm_insertNode (l.fresh, a) pos l.nodes).map Prod.fst
    rcases mem_cons.mp (perm.mem_iff.mp hj) with rfl | hj
    · exact Nat.lt_succ_self _
    · exact Nat.lt_succ_of_lt (l.old j hj)

section Around

variable {l : Chain α} {pre post : List (ℕ × α)} {n : ℕ × α} {i : ℕ} {a : α}

theorem ne_of_nodes (h : l.nodes = pre ++ n :: post) :
    (∀ m ∈ pre, m.1 ≠ n.1) ∧ ∀ m ∈ post, m.1 ≠ n.1 := by
  have hnodup := l.nodup
  rw [h, map_append, map_cons] at hnodup
  obtain ⟨-, htail, hdisjoint⟩ := nodup_append.mp hnodup
  refine ⟨fun m hm => hdisjoint m.1 (mem_map_of_mem hm) n.1 mem_cons_self, fun m hm heq => ?_⟩
  exact (nodup_cons.mp htail).1 (heq ▸ mem_map_of_mem hm)

theorem find?_of_nodes (h : l.nodes = pre ++ n :: post) :
    (l.nodes.find? fun m => m.1 = n.1) = some n := by
  have hpre : ∀ m ∈ pre, ¬ decide (m.1 = n.1) = true := fun m hm => by
    simpa using (ne_of_nodes h).1 m hm
  rw [h, List.find?_append, List.find?_eq_none.mpr hpre, Option.none_or]
  simp

theorem get?_of_nodes (h : l.nodes = pre ++ n :: post) : l.get? n.1 = some n.2 := by
  rw [get?, find?_of_nodes h, Option.map_some]

theorem next_of_nodes (h : l.nodes = pre ++ n :: post) : l.next n.1 = post.head?.map Prod.fst := by
  have hpre : ∀ m ∈ pre, decide (m.1 ≠ n.1) = true :=
    fun m hm => decide_eq_true ((ne_of_nodes h).1 m hm)
  rw [next, h, dropWhile_append_of_pos hpre, dropWhile_cons_of_neg (by simp), tail_cons]

theorem erase_of_nodes (h : l.nodes = pre ++ n :: post) : (l.erase n.1).nodes = pre ++ post := by
  have hpre : ∀ m ∈ pre, decide (m.1 ≠ n.1) = true :=
    fun m hm => decide_eq_true ((ne_of_nodes h).1 m hm)
  have hpost : ∀ m ∈ post, decide (m.1 ≠ n.1) = true :=
    fun m hm => decide_eq_true ((ne_of_nodes h).2 m hm)
  change l.nodes.filter _ = _
  rw [h, filter_append, filter_cons_of_neg (by simp), filter_eq_self.mpr hpre,
    filter_eq_self.mpr hpost]

theorem first_of_nodes (h : l.nodes = n :: post) : l.first = some n.1 := by
  rw [first, h]
  rfl

end Around

section Common

variable {β : Type*} [DecidableEq β]

/-- The elements of a list that are in another one, in the order that they have in the first. -/
def common (items items' : List β) : List β := items.filter (· ∈ items')

theorem common_of_subset {items items' : List β} (subset : items ⊆ items') :
    common items items' = items :=
  filter_eq_self.mpr fun _ hn => decide_eq_true (subset hn)

theorem common_of_sublist {items items' : List β} (sublist : items'.Sublist items)
    (nodup : items.Nodup) : common items items' = items' := by
  have hback : items'.Sublist (common items items') := by
    have hfilter := sublist.filter (· ∈ items')
    rwa [show items'.filter (· ∈ items') =
      items' from common_of_subset (List.Subset.refl items')] at hfilter
  have hsub : common items items' ⊆ items' := fun n hn => of_decide_eq_true (mem_filter.mp hn).2
  exact (hback.eq_of_length_le
    (subperm_of_subset (nodup.sublist filter_sublist) hsub).length_le).symm

theorem common_congr {items l l' : List β} (h : ∀ n ∈ items, (n ∈ l ↔ n ∈ l')) : common items l =
    common items l' :=
  filter_congr fun n hn => decide_eq_decide.mpr (h n hn)

theorem common_insertNode [DecidableEq α] {n : ℕ × α} {pos : Option ℕ} {nodes items : List (ℕ × α)}
    (new : n ∉ items) : common (insertNode n pos nodes) items = common nodes items := by
  have hcons (nodes : List (ℕ × α)) : common (n :: nodes) items = common nodes items :=
    filter_cons_of_neg (by simpa using new)
  cases pos with
  | none =>
    rw [insertNode, common, filter_append]
    exact (congrArg (common nodes items ++ ·) (hcons [])).trans (append_nil _)
  | some i =>
    induction nodes with
    | nil => exact hcons []
    | cons m nodes ih =>
      rw [insertNode]
      split_ifs
      · exact hcons (m :: nodes)
      · unfold common at ih ⊢
        rw [filter_cons, filter_cons, ih]

end Common

end Chain

end Egsr.Lib
