import Mathlib.Algebra.GroupWithZero.Nat
import Mathlib.Data.List.Forall2

/-! Lists cut into batches. When the items of one list of batches match those of
another in order, and no batch of the second is larger than its partner, then
batch matches batch. -/

namespace Egsr.Lib.Batch

open List

variable {α β : Type*}

def batches (k : ℕ) : List α → List (List α)
  | [] => []
  | x :: xs => (x :: xs.take k) :: batches k (xs.drop k)
termination_by xs => xs.length
decreasing_by
  simp only [length_drop, length_cons]
  omega

theorem batches_nil (k : ℕ) : batches k ([] : List α) = [] := by rw [batches]

theorem batches_cons (k : ℕ) (x : α) (xs : List α) :
    batches k (x :: xs) = (x :: xs.take k) :: batches k (xs.drop k) := by rw [batches]

theorem flatten_batches (k : ℕ) (xs : List α) : (batches k xs).flatten = xs := by
  induction xs using batches.induct k with
  | case1 => rw [batches_nil, flatten_nil]
  | case2 x xs ih =>
    rw [batches_cons, flatten_cons, ih, cons_append, take_append_drop]

theorem mem_of_mem_batches {k : ℕ} {xs b : List α} (hb : b ∈ batches k xs) {x : α} (hx : x ∈ b) :
    x ∈ xs := by
  rw [← flatten_batches k xs]
  exact mem_flatten_of_mem hb hx

section Align

variable {R : α → β → Prop} {size : α → ℕ} {size' : β → ℕ}

theorem sum_eq_of_forall₂ (same : ∀ a b, R a b → size' b = size a) {xs : List α} {ys : List β}
    (h : List.Forall₂ R xs ys) : (ys.map size').sum = (xs.map size).sum := by
  induction h with
  | nil => rfl
  | cons hab _ ih => simp only [map_cons, sum_cons, same _ _ hab, ih]

theorem forall₂_split (pos : ∀ a, 0 < size a) (same : ∀ a b, R a b → size' b = size a)
    {xs xs' : List α} {ys ys' : List β} (h : List.Forall₂ R (xs ++ xs') (ys ++ ys'))
    (sum : (ys.map size').sum = (xs.map size).sum) :
    List.Forall₂ R xs ys ∧ List.Forall₂ R xs' ys' := by
  induction xs generalizing ys with
  | nil =>
    cases ys with
    | nil => exact ⟨.nil, h⟩
    | cons y ys =>
      cases h with
      | @cons x _ _ _ hab _ =>
        have := pos x
        rw [map_cons, sum_cons, same _ _ hab, map_nil, sum_nil] at sum
        omega
  | cons x xs ih =>
    cases ys with
    | nil =>
      have := pos x
      rw [map_cons, sum_cons, map_nil, sum_nil] at sum
      omega
    | cons y ys =>
      cases h with
      | cons hab h =>
        rw [map_cons, sum_cons, same _ _ hab, map_cons, sum_cons] at sum
        have hrest := ih h (Nat.add_left_cancel sum)
        exact ⟨.cons hab hrest.1, hrest.2⟩

theorem forall₂_of_flatten (pos : ∀ a, 0 < size a) (same : ∀ a b, R a b → size' b = size a)
    {xss : List (List α)} {yss : List (List β)}
    (le : List.Forall₂ (fun xs ys => (ys.map size').sum ≤ (xs.map size).sum) xss yss)
    (flat : List.Forall₂ R xss.flatten yss.flatten) :
    List.Forall₂ (List.Forall₂ R) xss yss := by
  have htotal : ∀ {xss : List (List α)} {yss : List (List β)},
      List.Forall₂ (fun xs ys => (ys.map size').sum ≤ (xs.map size).sum) xss yss →
      (yss.flatten.map size').sum ≤ (xss.flatten.map size).sum := by
    intro xss yss h
    induction h with
    | nil => exact Nat.le_refl _
    | cons hle _ ih =>
      simp only [flatten_cons, map_append, sum_append]
      exact Nat.add_le_add hle ih
  induction le with
  | nil => exact .nil
  | cons hle rest ih =>
    rw [flatten_cons, flatten_cons] at flat
    have hsum := sum_eq_of_forall₂ same flat
    rw [map_append, sum_append, map_append, sum_append] at hsum
    have hrest := htotal rest
    have hsplit := forall₂_split pos same flat (by omega)
    exact .cons hsplit.1 (ih hsplit.2)

end Align

end Egsr.Lib.Batch
