import Mathlib.Data.Fintype.Option
import Mathlib.Order.Bounds.Basic

/-! The layers of a directed graph about some seeds: what is reached in so many
steps and in no fewer. A search that finds one layer after the other has found
everything when a layer leads nowhere new. -/

namespace Egsr.Lib.Layers

variable {α : Type*}

/-- Reached in so many steps. -/
inductive Reach (seed : α → Prop) (step : α → α → Prop) : ℕ → α → Prop where
  | seed {a : α} (h : seed a) : Reach seed step 0 a
  | step {n : ℕ} {a b : α} (h : Reach seed step n a) (next : step a b) : Reach seed step (n + 1) b

def Layer (seed : α → Prop) (step : α → α → Prop) (n : ℕ) (a : α) : Prop :=
  IsLeast {n | Reach seed step n a} n

section Layer

variable {seed seed' : α → Prop} {step : α → α → Prop} {n m : ℕ} {a b : α}

theorem Reach.holds {P : α → Prop} (h : Reach seed step n a) (init : ∀ a, seed a → P a)
    (next : ∀ a b, step a b → P b) : P a := by
  cases h with
  | seed h => exact init a h
  | step _ hnext => exact next _ a hnext

theorem Reach.exists_seed (h : Reach seed step n a) : ∃ b, seed b := by
  induction h with
  | @seed a h => exact ⟨a, h⟩
  | step _ _ ih => exact ih

theorem Layer.reach (h : Layer seed step n a) : Reach seed step n a := h.1

theorem Layer.unique (h : Layer seed step n a) (h' : Layer seed step m a) : n = m :=
  IsLeast.unique h h'

theorem layer_zero (h : seed a) : Layer seed step 0 a := ⟨.seed h, fun _ _ => Nat.zero_le _⟩

theorem layer_zero_iff : Layer seed step 0 a ↔ seed a := by
  refine ⟨fun h => ?_, layer_zero⟩
  cases h.reach with
  | seed h => exact h

theorem exists_layer (h : Reach seed step n a) : ∃ m ≤ n, Layer seed step m a := by
  classical
  have hex : ∃ m, Reach seed step m a := ⟨n, h⟩
  exact ⟨Nat.find hex, Nat.find_min' hex h, Nat.find_spec hex, fun m hm => Nat.find_min' hex hm⟩

theorem Layer.next (h : Layer seed step n a) (next : step a b) : ∃ m ≤ n + 1, Layer seed step m b :=
  exists_layer (h.reach.step next)

theorem Layer.next_new (h : Layer seed step n a) (next : step a b)
    (new : ∀ m ≤ n, ¬Layer seed step m b) : Layer seed step (n + 1) b := by
  obtain ⟨m, hm, hlayer⟩ := h.next next
  obtain rfl | hlt := Nat.eq_or_lt_of_le hm
  · exact hlayer
  · exact absurd hlayer (new m (Nat.lt_succ_iff.mp hlt))

theorem Layer.prev (h : Layer seed step (n + 1) b) : ∃ a, Layer seed step n a ∧ step a b := by
  cases h.reach with
  | step hreach hnext =>
    obtain ⟨m, hm, hlayer⟩ := exists_layer hreach
    have hle : n + 1 ≤ m + 1 := h.2 (hlayer.reach.step hnext)
    obtain rfl : m = n := by omega
    exact ⟨_, hlayer, hnext⟩

theorem Layer.exists_le (h : Layer seed step n a) (hm : m ≤ n) : ∃ b, Layer seed step m b := by
  induction n generalizing a with
  | zero =>
    obtain rfl : m = 0 := by omega
    exact ⟨a, h⟩
  | succ n ih =>
    obtain rfl | hlt := Nat.eq_or_lt_of_le hm
    · exact ⟨a, h⟩
    · obtain ⟨b, hb, -⟩ := h.prev
      exact ih hb (Nat.lt_succ_iff.mp hlt)

theorem Reach.layer_le (h : Reach seed step m b)
    (closed : ∀ a b, Layer seed step n a → step a b → ∃ k ≤ n, Layer seed step k b) : ∃ k ≤ n,
      Layer seed step k b := by
  induction h with
  | seed h => exact ⟨0, Nat.zero_le n, layer_zero h⟩
  | step _ hnext ih =>
    obtain ⟨k, hk, hlayer⟩ := ih
    obtain rfl | hlt := Nat.eq_or_lt_of_le hk
    · exact closed _ _ hlayer hnext
    · obtain ⟨k', hk', hlayer'⟩ := hlayer.next hnext
      exact ⟨k', hk'.trans hlt, hlayer'⟩

theorem Layer.lt_size (h : Layer seed step n a) {x : α} (out : ∀ m, ¬Layer seed step m x) {size : ℕ}
    {k : α → Fin size} (inj : Function.Injective k) : n + 2 ≤ size := by
  have : Nonempty α := ⟨x⟩
  choose! f hf using fun m (hm : m ≤ n) => h.exists_le hm
  have hlayer : ∀ m : Fin (n + 1), Layer seed step m (f m) := fun m => hf m (Nat.lt_succ_iff.mp m.2)
  let g : Option (Fin (n + 1)) → α := fun o => o.elim x fun m => f m
  have hg : Function.Injective g := by
    intro o o' heq
    cases o with
    | none =>
      cases o' with
      | none => rfl
      | some m =>
        change x = f m at heq
        exact absurd (heq ▸ hlayer m) (out m)
    | some m =>
      cases o' with
      | none =>
        change f m = x at heq
        exact absurd (heq ▸ hlayer m) (out m)
      | some m' =>
        change f m = f m' at heq
        have hm := hlayer m
        rw [heq] at hm
        rw [Fin.ext (hm.unique (hlayer m'))]
  have hcard := Fintype.card_le_of_injective _ (inj.comp hg)
  rwa [Fintype.card_option, Fintype.card_fin, Fintype.card_fin] at hcard

end Layer

end Egsr.Lib.Layers
