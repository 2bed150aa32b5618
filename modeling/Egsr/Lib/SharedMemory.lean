import Mathlib.Data.List.GetD
import Mathlib.Data.List.Perm.Subperm
import Mathlib.Tactic.Ring

/-! A memory of linked nodes with reference counts. It has list heads and
numbered nodes; a pointer is read from a slot, which is a head or the link of
a node. A node is balanced if its count, which has 32 bits, is the number of
slots that point to it. -/

namespace Egsr.Lib.SharedList

open List Option

variable {α : Type}

structure Node (α : Type) where
  next : Option ℕ
  count : UInt32
  value : α
deriving DecidableEq

namespace Node

variable {n : Node α}

theorem one_lt : 1 < n.count ↔ 1 < n.count.toNat := UInt32.lt_iff_toNat_lt

theorem single (pos : 1 ≤ n.count.toNat) (few : ¬1 < n.count) : n.count = 1 :=
  UInt32.toNat_inj.mp (Nat.le_antisymm (Nat.le_of_not_lt fun many => few (one_lt.mpr many)) pos)

theorem toNat_pred (pos : 1 ≤ n.count.toNat) : (n.count - 1).toNat = n.count.toNat - 1 :=
  UInt32.toNat_sub_of_le _ _ (UInt32.le_iff_toNat_le.mpr pos)

theorem pred_pos (pos : 1 ≤ n.count.toNat) : n.count - 1 > 0 ↔ 1 < n.count := by
  have hzero : (0 : UInt32).toNat = 0 := rfl
  rw [gt_iff_lt, UInt32.lt_iff_toNat_lt, toNat_pred pos, one_lt]
  omega

end Node

/-- A freed node is `none`. -/
structure Memory (α : Type) where
  heads : List (Option ℕ)
  nodes : List (Option (Node α))
deriving DecidableEq

inductive Slot where
  | head (i : ℕ)
  | next (a : ℕ)
deriving DecidableEq

def countAt : Option (Node α) → ℕ
  | some n => n.count.toNat
  | none => 0

section Primitives

variable (m : Memory α)

def node (a : ℕ) : Option (Node α) := m.nodes.getD a none

def load : Slot → Option ℕ
  | .head i => m.heads.getD i none
  | .next a => (node m a).bind Node.next

def Writable : Slot → Prop
  | .head i => i < m.heads.length
  | .next a => (node m a).isSome

def setNode (a : ℕ) (n : Option (Node α)) : Memory α := { m with nodes := m.nodes.set a n }

def store : Slot → Option ℕ → Memory α
  | .head i, p => { m with heads := m.heads.set i p }
  | .next a, p => setNode m a ((node m a).map fun n => { n with next := p })

def setCount (a : ℕ) (count : UInt32) : Memory α :=
  setNode m a ((node m a).map fun n => { n with count := count })

def setValue (a : ℕ) (value : α) : Memory α :=
  setNode m a ((node m a).map fun n => { n with value := value })

def free (a : ℕ) : Memory α := setNode m a none

def fresh : ℕ := m.nodes.length

def alloc (n : Node α) : Memory α := { m with nodes := m.nodes ++ [some n] }

def share : Option ℕ → Memory α
  | some a => setNode m a ((node m a).map fun n => { n with count := n.count + 1 })
  | none => m

def refs (x : ℕ) : ℕ :=
  m.heads.countP (fun p => p = some x) + m.nodes.countP fun n => n.bind Node.next = some x

def countOf (a : ℕ) : ℕ := countAt (node m a)

/-- The count of a node less the number of slots that point to it. -/
def balance (x : ℕ) : ℤ := countOf m x - refs m x

end Primitives

def points (p : Option ℕ) (x : ℕ) : ℤ := if p = some x then 1 else 0

@[simp] theorem points_none (x : ℕ) : points none x = 0 := rfl

@[simp] theorem points_self (x : ℕ) : points (some x) x = 1 := if_pos rfl

variable {m : Memory α}

theorem countP_set {β : Type} {p : β → Bool} {l : List β} {i : ℕ} (lt : i < l.length) (b : β) :
    ((l.set i b).countP p : ℤ) =
      l.countP p - (if p l[i] then 1 else 0) + (if p b then 1 else 0) := by
  have hle := boole_getElem_le_countP (p := p) lt
  rw [List.countP_set lt]
  split_ifs at hle ⊢ <;> omega

variable {a : ℕ} {n : Node α}

theorem lt_of_node (h : node m a = some n) : a < m.nodes.length := by
  by_contra hge
  simp [node, hge] at h

theorem getElem_of_node (lt : a < m.nodes.length) : m.nodes[a] = node m a := by
  simp [node, lt]

theorem node_setNode (lt : a < m.nodes.length) (n : Option (Node α)) (x : ℕ) :
    node (setNode m a n) x = if x = a then n else node m x := by
  unfold node setNode
  by_cases hxa : x = a
  · simp [hxa, lt]
  · simp [hxa, List.getElem?_set_ne (Ne.symm hxa)]

theorem node_alloc (n : Node α) (x : ℕ) :
    node (alloc m n) x = if x = fresh m then some n else node m x := by
  unfold node alloc fresh
  by_cases hx : x = m.nodes.length
  · simp [hx]
  · by_cases hlt : x < m.nodes.length
    · simp [hx, List.getElem?_append_left hlt]
    · have hold : m.nodes.length ≤ x := Nat.le_of_not_lt hlt
      have hnew : (m.nodes ++ [some n]).length ≤ x := by
        rw [length_append, length_singleton]
        omega
      rw [if_neg hx, getD_eq_default _ _ hold, getD_eq_default _ _ hnew]

theorem node_fresh : node m (fresh m) = none := by
  simp [node, fresh]

theorem refs_setNode (lt : a < m.nodes.length) (n : Option (Node α)) (x : ℕ) :
    (refs (setNode m a n) x : ℤ) =
      refs m x - points ((node m a).bind Node.next) x + points (n.bind Node.next) x := by
  have hset := countP_set (p := fun n : Option (Node α) => n.bind Node.next = some x) lt n
  simp only [decide_eq_true_eq, getElem_of_node lt] at hset
  unfold refs setNode points
  push_cast
  rw [hset]
  ring

theorem balance_setNode (lt : a < m.nodes.length) (n : Option (Node α)) (x : ℕ) :
    balance (setNode m a n) x = balance m x + (if x = a then (countAt n : ℤ) - countOf m a else 0) +
      points ((node m a).bind Node.next) x - points (n.bind Node.next) x := by
  unfold balance
  rw [refs_setNode lt]
  unfold countOf
  rw [node_setNode lt]
  by_cases hxa : x = a
  · simp only [hxa, if_pos]
    ring
  · simp only [hxa, if_false]
    ring

/-! ## What the primitives do to the balance -/

variable {s : Slot}

theorem refs_store (writable : Writable m s) (p : Option ℕ) (x : ℕ) :
    (refs (store m s p) x : ℤ) = refs m x - points (load m s) x + points p x := by
  cases s with
  | head i =>
    have hset := countP_set (p := fun q : Option ℕ => q = some x) writable p
    have hload : m.heads[i] = m.heads.getD i none := (getD_eq_getElem _ _ writable).symm
    simp only [decide_eq_true_eq, hload] at hset
    unfold refs store points load
    push_cast
    rw [hset]
    ring
  | next a =>
    obtain ⟨n, hn⟩ := isSome_iff_exists.mp writable
    simp only [store, load]
    rw [refs_setNode (lt_of_node hn), hn]
    rfl

theorem countOf_store (writable : Writable m s) (p : Option ℕ) (x : ℕ) :
    countOf (store m s p) x = countOf m x := by
  cases s with
  | head i => rfl
  | next a =>
    obtain ⟨n, hn⟩ := isSome_iff_exists.mp writable
    simp only [store, countOf]
    rw [node_setNode (lt_of_node hn), hn]
    by_cases hxa : x = a
    · rw [if_pos hxa, hxa, hn]
      rfl
    · rw [if_neg hxa]

theorem balance_store (writable : Writable m s) (p : Option ℕ) (x : ℕ) :
    balance (store m s p) x = balance m x + points (load m s) x - points p x := by
  unfold balance
  rw [refs_store writable, countOf_store writable]
  ring

theorem balance_setCount (hn : node m a = some n) (count : UInt32) (x : ℕ) :
    balance (setCount m a count) x =
      balance m x + if x = a then (count.toNat : ℤ) - n.count.toNat else 0 := by
  unfold setCount
  rw [balance_setNode (lt_of_node hn), hn]
  simp [countOf, countAt, hn]

theorem balance_setValue (hn : node m a = some n) (value : α) (x : ℕ) :
    balance (setValue m a value) x = balance m x := by
  unfold setValue
  rw [balance_setNode (lt_of_node hn), hn]
  simp [countOf, countAt, hn]

theorem balance_free (hn : node m a = some n) (x : ℕ) : balance (free m a) x =
      balance m x - (if x = a then (n.count.toNat : ℤ) else 0) + points n.next x := by
  unfold free
  rw [balance_setNode (lt_of_node hn), hn]
  by_cases hxa : x = a <;> simp [countOf, countAt, hn, hxa]
  ring

theorem balance_share {p : Option ℕ} (there : ∀ a ∈ p, (node m a).isSome)
    (room : ∀ a ∈ p, countOf m a + 1 < 4294967296) (x : ℕ) :
    balance (share m p) x = balance m x + points p x := by
  cases p with
  | none => simp [share]
  | some a =>
    obtain ⟨n, hn⟩ := isSome_iff_exists.mp (there a rfl)
    have hroom := room a rfl
    rw [countOf, hn] at hroom
    have hcount : (n.count + 1).toNat = n.count.toNat + 1 := Nat.mod_eq_of_lt hroom
    unfold share
    rw [balance_setNode (lt_of_node hn), hn]
    by_cases hxa : x = a
    · simp [countOf, countAt, hn, hxa, hcount]
    · simp [points, hxa, Ne.symm hxa]

theorem balance_alloc (n : Node α) (x : ℕ) : balance (alloc m n) x =
      balance m x + (if x = fresh m then (n.count.toNat : ℤ) else 0) - points n.next x := by
  have hrefs : (refs (alloc m n) x : ℤ) = refs m x + points n.next x := by
    unfold refs alloc points
    rw [countP_append, countP_singleton]
    simp only [bind_some, decide_eq_true_eq]
    push_cast
    split_ifs <;> ring
  unfold balance
  rw [hrefs]
  unfold countOf
  rw [node_alloc]
  by_cases hx : x = fresh m
  · simp only [hx, if_pos, node_fresh, countAt, Nat.cast_zero]
    ring
  · simp only [hx, if_false]
    ring

/-! ## Shapes -/

/-- A node without its count. -/
def shape (m : Memory α) (a : ℕ) : Option (Option ℕ × α) :=
  (node m a).map fun n => (n.next, n.value)

theorem shape_of_node (hn : node m a = some n) : shape m a = some (n.next, n.value) := by
  rw [shape, hn]
  rfl

theorem load_next (a : ℕ) : load m (.next a) = (shape m a).bind Prod.fst := by
  simp only [load, shape]
  cases node m a <;> rfl

theorem shape_setNode (lt : a < m.nodes.length) (n : Option (Node α)) (x : ℕ) :
    shape (setNode m a n) x =
      if x = a then n.map (fun n => (n.next, n.value)) else shape m x := by
  unfold shape
  rw [node_setNode lt]
  split <;> rfl

theorem shape_setCount (hn : node m a = some n) (count : UInt32) (x : ℕ) :
    shape (setCount m a count) x = shape m x := by
  unfold setCount
  rw [shape_setNode (lt_of_node hn), hn]
  by_cases hxa : x = a
  · rw [if_pos hxa, hxa, shape_of_node hn]
    rfl
  · rw [if_neg hxa]

theorem shape_setValue (hn : node m a = some n) (value : α) (x : ℕ) :
    shape (setValue m a value) x = if x = a then some (n.next, value) else shape m x := by
  unfold setValue
  rw [shape_setNode (lt_of_node hn), hn]
  rfl

theorem shape_free (hn : node m a = some n) (x : ℕ) :
    shape (free m a) x = if x = a then none else shape m x := by
  unfold free
  rw [shape_setNode (lt_of_node hn)]
  rfl

theorem shape_share {p : Option ℕ} (there : ∀ a ∈ p, (node m a).isSome) (x : ℕ) :
    shape (share m p) x = shape m x := by
  cases p with
  | none => rfl
  | some a =>
    obtain ⟨n, hn⟩ := isSome_iff_exists.mp (there a rfl)
    unfold share
    rw [shape_setNode (lt_of_node hn), hn]
    by_cases hxa : x = a
    · rw [if_pos hxa, hxa, shape_of_node hn]
      rfl
    · rw [if_neg hxa]

theorem shape_alloc (n : Node α) (x : ℕ) :
    shape (alloc m n) x = if x = fresh m then some (n.next, n.value) else shape m x := by
  unfold shape
  rw [node_alloc]
  split <;> rfl

theorem shape_store_head (i : ℕ) (p : Option ℕ) (x : ℕ) :
    shape (store m (.head i) p) x = shape m x := rfl

theorem shape_store_next (hn : node m a = some n) (p : Option ℕ) (x : ℕ) :
    shape (store m (.next a) p) x = if x = a then some (p, n.value) else shape m x := by
  simp only [store]
  rw [shape_setNode (lt_of_node hn), hn]
  rfl

theorem load_store (writable : Writable m s) (p : Option ℕ) (t : Slot) :
    load (store m s p) t = if t = s then p else load m t := by
  cases s with
  | head i =>
    have hi : i < m.heads.length := writable
    cases t with
    | head j =>
      by_cases hji : j = i
      · simp [load, store, hji, hi]
      · simp [load, store, hji, List.getElem?_set_ne (Ne.symm hji)]
    | next b => simp [load, store, node]
  | next a =>
    obtain ⟨n, hn⟩ := isSome_iff_exists.mp writable
    cases t with
    | head j => simp [load, store, setNode]
    | next b =>
      rw [load_next, shape_store_next hn, load_next]
      by_cases hba : b = a
      · simp [hba]
      · simp [hba]

theorem writable_of_load (h : load m s = some a) : Writable m s := by
  cases s with
  | head i =>
    by_contra hlt
    have hge : ¬i < m.heads.length := hlt
    simp [load, hge] at h
  | next b =>
    obtain ⟨n, hn, -⟩ := bind_eq_some_iff.mp h
    exact isSome_iff_exists.mpr ⟨n, hn⟩

theorem isSome_node_iff : (node m a).isSome ↔ (shape m a).isSome := by
  unfold shape
  rw [isSome_map]

theorem node_of_shape {next : Option ℕ} {v : α} (h : shape m a = some (next, v)) :
    node m a = some ⟨next, UInt32.ofNat (countOf m a), v⟩ := by
  unfold shape at h
  obtain ⟨n, hn, heq⟩ := map_eq_some_iff.mp h
  obtain ⟨rfl, rfl⟩ := Prod.mk.inj heq
  rw [hn, countOf, hn, countAt, UInt32.ofNat_toNat]

theorem refs_pos {x : ℕ} (h : load m s = some x) : 1 ≤ refs m x := by
  have hwritable := writable_of_load h
  unfold refs
  cases s with
  | head i =>
    have hmem : some x ∈ m.heads := by
      rw [← h, load, getD_eq_getElem _ _ hwritable]
      exact getElem_mem hwritable
    have hpos : 0 < m.heads.countP fun p => p = some x :=
      countP_pos_iff.mpr ⟨some x, hmem, by simp⟩
    omega
  | next a =>
    obtain ⟨n, hn⟩ := isSome_iff_exists.mp hwritable
    have hlt := lt_of_node hn
    have hmem : some n ∈ m.nodes := by
      rw [← hn, ← getElem_of_node hlt]
      exact getElem_mem hlt
    have hnext : n.next = some x := by simpa [load, hn] using h
    have hpos : 0 < m.nodes.countP fun n => n.bind Node.next = some x :=
      countP_pos_iff.mpr ⟨some n, hmem, by simp [hnext]⟩
    omega

theorem two_le_refs {t : Slot} {x : ℕ} (ne : s ≠ t) (hs : load m s = some x)
    (ht : load m t = some x) : 2 ≤ refs m x := by
  have hwritable := writable_of_load hs
  have hkept : load (store m s none) t = some x := by
    rw [load_store hwritable, if_neg ne.symm, ht]
  have hpos := refs_pos hkept
  have hrefs := refs_store hwritable none x
  rw [hs, points_self, points_none] at hrefs
  omega

end Egsr.Lib.SharedList
