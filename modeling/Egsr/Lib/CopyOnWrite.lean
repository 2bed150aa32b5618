import Mathlib.Data.List.Count
import Mathlib.Data.List.GetD
import Mathlib.Data.List.Perm.Basic
import Mathlib.Data.Nat.Basic

/-! Storage shared by owners under reference counts. Every owner refers to one
cell, sees a part of it, and relies on a condition on the cell and itself and on
one on the cell and every two owners that share it. An owner may move to a new
cell, or change its cell in place where the others see no difference. -/

namespace Egsr.Lib.CopyOnWrite

open List Function

/-- Numbered cells with counts of 32 bits; the cells from `next` on are unused. -/
structure Store (α : Type) where
  cell : ℕ → α
  count : ℕ → UInt32
  next : ℕ

namespace Store

variable {α : Type} (s : Store α)

def create (a : α) : Store α where
  cell := update s.cell s.next a
  count := update s.count s.next 1
  next := s.next + 1

def acquire (i : ℕ) : Store α := { s with count := update s.count i (s.count i + 1) }

def release (i : ℕ) : Store α := { s with count := update s.count i (s.count i - 1) }

def put (i : ℕ) (a : α) : Store α := { s with cell := update s.cell i a }

@[simp] theorem cell_create_next (a : α) : (s.create a).cell s.next = a := by simp [create]

theorem cell_create_of_lt {i : ℕ} (lt : i < s.next) (a : α) : (s.create a).cell i = s.cell i := by
  simp [create, Nat.ne_of_lt lt]

@[simp] theorem cell_acquire (i : ℕ) : (s.acquire i).cell = s.cell := rfl

@[simp] theorem cell_release (i : ℕ) : (s.release i).cell = s.cell := rfl

@[simp] theorem next_create (a : α) : (s.create a).next = s.next + 1 := rfl

@[simp] theorem next_acquire (i : ℕ) : (s.acquire i).next = s.next := rfl

@[simp] theorem next_release (i : ℕ) : (s.release i).next = s.next := rfl

@[simp] theorem next_put (i : ℕ) (a : α) : (s.put i a).next = s.next := rfl

@[simp] theorem count_put (i : ℕ) (a : α) : (s.put i a).count = s.count := rfl

@[simp] theorem cell_put_self (i : ℕ) (a : α) : (s.put i a).cell i = a := by simp [put]

theorem cell_put_of_ne {i j : ℕ} (ne : j ≠ i) (a : α) : (s.put i a).cell j = s.cell j := by
  simp [put, ne]

@[simp] theorem put_put (i : ℕ) (a b : α) : (s.put i a).put i b = s.put i b := by simp [put]

@[simp] theorem create_put_next (a b : α) : (s.create a).put s.next b = s.create b := by
  simp [create, put]

@[simp] theorem acquire_release (i : ℕ) : (s.acquire i).release i = s := by
  simp [acquire, release]

@[simp] theorem release_acquire (i : ℕ) : (s.release i).acquire i = s := by
  simp [acquire, release]

@[simp] theorem put_cell (i : ℕ) : s.put i (s.cell i) = s := by simp [put]

end Store

variable {α ο γ : Type} (ref : ο → ℕ) (Proper : α → ο → Prop) (Together : α → ο → ο → Prop)

/-- The counts are those of the owners, of which no cell has too many to be counted, and what the
owners rely on holds. -/
structure Kept (s : Store α) (owners : List ο) : Prop where
  counted : ∀ i, (s.count i).toNat = (owners.map ref).count i
  below : ∀ o ∈ owners, ref o < s.next
  proper : ∀ o ∈ owners, Proper (s.cell (ref o)) o
  together : ∀ o ∈ owners, ∀ p ∈ owners, ref o = ref p → Together (s.cell (ref o)) o p

def SameView (view : α → ο → γ) (s s' : Store α) (owners : List ο) : Prop :=
  ∀ o ∈ owners, view (s'.cell (ref o)) o = view (s.cell (ref o)) o

variable {ref Proper Together} {s s' s'' : Store α} {o o' : ο} {owners : List ο}
  {view : α → ο → γ}

namespace SameView

theorem refl (s : Store α) (owners : List ο) : SameView ref view s s owners := fun _ _ => rfl

theorem trans (h : SameView ref view s s' owners) (h' : SameView ref view s' s'' owners) :
    SameView ref view s s'' owners := fun p hp => (h' p hp).trans (h p hp)

theorem of_cell (h : ∀ p ∈ owners, s'.cell (ref p) = s.cell (ref p)) :
    SameView ref view s s' owners := fun p hp => by rw [h p hp]

theorem tail (h : SameView ref view s s' (o :: owners)) : SameView ref view s s' owners :=
  fun p hp => h p (mem_cons_of_mem o hp)

end SameView

namespace Kept

theorem perm (h : Kept ref Proper Together s owners) {owners' : List ο}
    (same : owners.Perm owners') : Kept ref Proper Together s owners' where
  counted i := (h.counted i).trans ((same.map ref).count_eq i)
  below p hp := h.below p (same.mem_iff.mpr hp)
  proper p hp := h.proper p (same.mem_iff.mpr hp)
  together p hp q hq := h.together p (same.mem_iff.mpr hp) q (same.mem_iff.mpr hq)

theorem unique (h : Kept ref Proper Together s (o :: owners)) (one : s.count (ref o) = 1) :
    ∀ p ∈ owners, ref p ≠ ref o := by
  intro p hp same
  have count := h.counted (ref o)
  rw [one, map_cons, count_cons_self] at count
  have none : (owners.map ref).count (ref o) = 0 := by
    have : (1 : UInt32).toNat = 1 := rfl
    omega
  exact count_eq_zero.mp none (mem_map.mpr ⟨p, hp, same⟩)

theorem count_pos (h : Kept ref Proper Together s (o :: owners)) : 0 < (s.count (ref o)).toNat := by
  rw [h.counted, map_cons, count_cons_self]
  omega

section

variable (h : Kept ref Proper Together s owners)

include h

theorem ne_next : ∀ p ∈ owners, ref p ≠ s.next :=
  fun p hp => Nat.ne_of_lt (h.below p hp)

theorem count_next : (owners.map ref).count s.next = 0 := by
  refine count_eq_zero.mpr fun mem => ?_
  obtain ⟨p, hp, same⟩ := mem_map.mp mem
  exact h.ne_next p hp same

theorem create {a : α} (own : ref o = s.next) (proper : Proper a o) (together : Together a o o) :
    Kept ref Proper Together (s.create a) (o :: owners) where
  counted i := by
    rw [map_cons, own, count_cons, ← h.counted i]
    by_cases same : i = s.next
    · have none := h.count_next
      rw [← h.counted] at none
      simp [Store.create, same, none]
    · simp [Store.create, same, Ne.symm same]
  below := by
    refine forall_mem_cons.mpr ⟨by rw [own]; exact Nat.lt_succ_self _, fun p hp => ?_⟩
    exact Nat.lt_succ_of_lt (h.below p hp)
  proper := by
    refine forall_mem_cons.mpr ⟨by rwa [own, s.cell_create_next], fun p hp => ?_⟩
    rw [s.cell_create_of_lt (h.below p hp)]
    exact h.proper p hp
  together := by
    have apart := h.ne_next
    intro p memp q memq same
    rcases mem_cons.mp memp with rfl | hp <;> rcases mem_cons.mp memq with rfl | hq
    · rwa [own, s.cell_create_next]
    · exact absurd (same.symm.trans own) (apart q hq)
    · exact absurd (same.trans own) (apart p hp)
    · rw [s.cell_create_of_lt (h.below p hp)]
      exact h.together p hp q hq same

theorem sameView_create (a : α) : SameView ref view s (s.create a) owners :=
  .of_cell fun p hp => s.cell_create_of_lt (h.below p hp) a

end

theorem copy (h : Kept ref Proper Together s (o :: owners)) (own : ref o' = ref o)
    (room : (s.count (ref o)).toNat + 1 < 4294967296)
    (proper : Proper (s.cell (ref o)) o → Proper (s.cell (ref o)) o')
    (left : ∀ p, Together (s.cell (ref o)) o p → Together (s.cell (ref o)) o' p)
    (right : ∀ p, Together (s.cell (ref o)) p o → Together (s.cell (ref o)) p o') :
    Kept ref Proper Together (s.acquire (ref o)) (o' :: o :: owners) where
  counted i := by
    rw [map_cons, own, count_cons, ← h.counted i]
    by_cases same : i = ref o
    · simp [Store.acquire, same, Nat.mod_eq_of_lt room]
    · simp [Store.acquire, same, Ne.symm same]
  below := forall_mem_cons.mpr ⟨by rw [own]; exact h.below o (by simp), h.below⟩
  proper := by
    refine forall_mem_cons.mpr ⟨?_, h.proper⟩
    rw [own]
    exact proper (h.proper o (by simp))
  together := by
    intro p memp q memq same
    rcases mem_cons.mp memp with rfl | hp <;> rcases mem_cons.mp memq with rfl | hq
    · rw [own]
      exact left _ (right _ (h.together o (by simp) o (by simp) rfl))
    · rw [own] at same ⊢
      exact left q (h.together o (by simp) q hq same)
    · have shared := same.trans own
      simp only [s.cell_acquire, shared]
      refine right p ?_
      rw [← shared]
      exact h.together p hp o (by simp) shared
    · exact h.together p hp q hq same

theorem release (h : Kept ref Proper Together s (o :: owners)) :
    Kept ref Proper Together (s.release (ref o)) owners where
  counted i := by
    have count := h.counted i
    rw [map_cons, count_cons] at count
    by_cases same : i = ref o
    · have one : (1 : UInt32) ≤ s.count (ref o) := UInt32.le_iff_toNat_le.mpr h.count_pos
      simp [Store.release, same, UInt32.toNat_sub_of_le _ _ one] at count ⊢
      omega
    · simpa [Store.release, same, Ne.symm same] using count
  below p hp := h.below p (mem_cons_of_mem o hp)
  proper p hp := h.proper p (mem_cons_of_mem o hp)
  together p hp q hq := h.together p (mem_cons_of_mem o hp) q (mem_cons_of_mem o hq)

theorem put (h : Kept ref Proper Together s (o :: owners)) {a : α} (own : ref o' = ref o)
    (proper : Proper a o') (together : Together a o' o')
    (others : ∀ p ∈ owners, ref p = ref o → Proper a p ∧ Together a o' p ∧ Together a p o')
    (between : ∀ p ∈ owners, ∀ q ∈ owners, ref p = ref o → ref q = ref o → Together a p q) :
    Kept ref Proper Together (s.put (ref o) a) (o' :: owners) where
  counted i := by
    rw [map_cons, own]
    simpa using h.counted i
  below := by
    refine forall_mem_cons.mpr ⟨by rw [own]; exact h.below o (by simp), fun p hp => ?_⟩
    exact h.below p (mem_cons_of_mem o hp)
  proper := by
    refine forall_mem_cons.mpr ⟨by rwa [own, s.cell_put_self], fun p hp => ?_⟩
    by_cases same : ref p = ref o
    · rw [same, s.cell_put_self]
      exact (others p hp same).1
    · rw [s.cell_put_of_ne same]
      exact h.proper p (mem_cons_of_mem o hp)
  together := by
    intro p memp q memq same
    rcases mem_cons.mp memp with rfl | hp <;> rcases mem_cons.mp memq with rfl | hq
    · rwa [own, s.cell_put_self]
    · rw [own, s.cell_put_self]
      exact (others q hq (same.symm.trans own)).2.1
    · rw [same, own, s.cell_put_self]
      exact (others p hp (same.trans own)).2.2
    · by_cases shared : ref p = ref o
      · rw [shared, s.cell_put_self]
        exact between p hp q hq shared (same.symm.trans shared)
      · rw [s.cell_put_of_ne shared]
        exact h.together p (mem_cons_of_mem o hp) q (mem_cons_of_mem o hq) same

theorem sameView_put {a : α} {i : ℕ}
    (others : ∀ p ∈ owners, ref p = i → view a p = view (s.cell i) p) :
    SameView ref view s (s.put i a) owners := by
  intro p hp
  by_cases same : ref p = i
  · rw [same, s.cell_put_self]
    exact others p hp same
  · rw [s.cell_put_of_ne same]

theorem replace (h : Kept ref Proper Together s (o :: owners)) (own : ref o' = ref o)
    (proper : Proper (s.cell (ref o)) o')
    (left : ∀ p, Together (s.cell (ref o)) o p → Together (s.cell (ref o)) o' p)
    (right : ∀ p, Together (s.cell (ref o)) p o → Together (s.cell (ref o)) p o') :
    Kept ref Proper Together s (o' :: owners) := by
  have self := h.together o (by simp) o (by simp) rfl
  rw [← s.put_cell (ref o)]
  refine h.put own proper (left _ (right _ self)) (fun p hp same => ?_) fun p hp q hq hp' hq' => ?_
  · have mem := mem_cons_of_mem o hp
    refine ⟨same ▸ h.proper p mem, left p (h.together o (by simp) p mem same.symm), right p ?_⟩
    exact same ▸ h.together p mem o (by simp) same
  · exact hp' ▸ h.together p (mem_cons_of_mem o hp) q (mem_cons_of_mem o hq)
      (hp'.trans hq'.symm)

theorem move (h : Kept ref Proper Together s (o :: owners)) {a : α} (own : ref o' = s.next)
    (proper : Proper a o') (together : Together a o' o') :
    Kept ref Proper Together ((s.create a).release (ref o)) (o' :: owners) :=
  ((h.create own proper together).perm (List.Perm.swap o o' owners)).release

theorem sameView_move (h : Kept ref Proper Together s (o :: owners)) (a : α) :
    SameView ref view s ((s.create a).release (ref o)) owners :=
  (h.sameView_create a).tail

end Kept

/-! ## Owners under handles -/

def live (slots : List (Option ο)) : List ο := slots.filterMap id

def views (view : α → ο → γ) (ref : ο → ℕ) (s : Store α) (slots : List (Option ο)) :
    List (Option γ) := slots.map (Option.map fun o => view (s.cell (ref o)) o)

variable {slots : List (Option ο)} {i j : ℕ}

theorem live_set (lt : i < slots.length) (x : Option ο) :
    (live (slots.set i x)).Perm (x.toList ++ live (slots.set i none)) := by
  induction slots generalizing i with
  | nil => cases lt
  | cons y slots ih =>
    cases i with
    | zero => cases x <;> simp [live]
    | succ i =>
      have rest := ih (Nat.lt_of_succ_lt_succ lt)
      cases y with
      | none => simpa [live] using rest
      | some y =>
        have swap : (y :: (x.toList ++ live (slots.set i none))).Perm
            (x.toList ++ y :: live (slots.set i none)) := perm_middle.symm
        simpa [live] using (rest.cons y).trans swap

theorem lt_of_slot (hi : slots.getD i none = some o) : i < slots.length := by
  by_contra ge
  rw [getD_eq_default _ _ (Nat.le_of_not_lt ge)] at hi
  cases hi

theorem live_of_slot (hi : slots.getD i none = some o) :
    (live slots).Perm (o :: live (slots.set i none)) := by
  have lt := lt_of_slot hi
  have self : slots.set i (some o) = slots := by
    rw [← hi, getD_eq_getElem _ _ lt, set_getElem_self]
  simpa [self] using live_set lt (some o)

theorem mem_live_set_none {p : ο} (hj : slots.getD j none = some p) (ne : j ≠ i) :
    p ∈ live (slots.set i none) := by
  have lt := lt_of_slot hj
  refine mem_filterMap.mpr ⟨some p, ?_, rfl⟩
  have entry : (slots.set i none)[j]? = some (some p) := by
    rw [List.getElem?_set_ne ne.symm, List.getElem?_eq_getElem lt, ← hj, getD_eq_getElem _ _ lt]
  exact mem_of_getElem? entry

theorem getD_set_none (hj : slots.getD j none = some o) (ne : j ≠ i) :
    (slots.set i none).getD j none = some o := by
  rw [getD_eq_getElem?_getD] at hj ⊢
  rwa [List.getElem?_set_ne ne.symm]

theorem set_getD {β : Type} (l : List (Option β)) (i : ℕ) : l.set i (l.getD i none) = l := by
  by_cases lt : i < l.length
  · rw [getD_eq_getElem _ _ lt, set_getElem_self]
  · exact set_eq_of_length_le (Nat.le_of_not_lt lt)

theorem set_none_of_getD (hi : slots.getD i none = none) : slots.set i none = slots := by
  have same := set_getD slots i
  rwa [hi] at same

theorem live_of_slots (hi : slots.getD i none = some o) {p : ο} (hj : slots.getD j none = some p)
    (ne : j ≠ i) : (live slots).Perm (o :: p :: live ((slots.set i none).set j none)) :=
  (live_of_slot hi).trans ((live_of_slot (getD_set_none hj ne)).cons o)

theorem live_append (x : Option ο) : (live (slots ++ [x])).Perm (x.toList ++ live slots) := by
  cases x <;> simp [live]

theorem views_set (same : SameView ref view s s' (live (slots.set i none))) (x : Option ο) :
    views view ref s' (slots.set i x) =
      (views view ref s slots).set i (x.map fun o => view (s'.cell (ref o)) o) := by
  apply ext_getElem?
  intro j
  by_cases here : j = i
  · subst here
    simp only [views, List.getElem?_map, List.getElem?_set_self']
    cases slots[j]? <;> rfl
  · simp only [views, List.getElem?_map, List.getElem?_set_ne (Ne.symm here)]
    cases entry : slots[j]? with
    | none => rfl
    | some y =>
      cases y with
      | none => rfl
      | some p =>
        have slot : slots.getD j none = some p := by
          rw [getD_eq_getElem?_getD, entry]
          rfl
        simp [same p (mem_live_set_none slot here)]

theorem views_append (same : SameView ref view s s' (live slots)) (x : Option ο) :
    views view ref s' (slots ++ [x]) =
      views view ref s slots ++ [x.map fun o => view (s'.cell (ref o)) o] := by
  simp only [views, map_append, map_cons, map_nil, append_left_inj]
  refine map_congr_left fun y hy => ?_
  cases y with
  | none => rfl
  | some p => simp [same p (mem_filterMap.mpr ⟨some p, hy, rfl⟩)]

theorem views_getD (s : Store α) (hi : slots.getD i none = some o) :
    (views view ref s slots).getD i none = some (view (s.cell (ref o)) o) := by
  rw [getD_eq_getElem?_getD] at hi ⊢
  rw [views, List.getElem?_map]
  cases entry : slots[i]? with
  | none =>
    rw [entry] at hi
    cases hi
  | some y =>
    rw [entry] at hi
    obtain rfl : y = some o := hi
    rfl

theorem views_getD_none (s : Store α) (hi : slots.getD i none = none) :
    (views view ref s slots).getD i none = none := by
  rw [getD_eq_getElem?_getD] at hi ⊢
  rw [views, List.getElem?_map]
  cases entry : slots[i]? with
  | none => rfl
  | some y =>
    rw [entry] at hi
    obtain rfl : y = none := hi
    rfl

end Egsr.Lib.CopyOnWrite
