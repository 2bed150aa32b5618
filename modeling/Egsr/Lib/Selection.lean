import Mathlib.Order.Lattice

/-! A loop that keeps the least value so far, with what it belongs to, among the items that are
eligible. -/

namespace Egsr.Lib.Selection

open List

variable {α ι β : Type} [LinearOrder α] {eligible : ι → Prop} {value : ι → α} {key : ι → β}
  {items : List ι} {init best : α × β}

/-- One round: an eligible item takes the place of the best if its value is below. -/
def better (eligible : ι → Prop) [DecidablePred eligible] (value : ι → α) (key : ι → β)
    (best : α × β) (x : ι) : α × β :=
  if eligible x ∧ value x < best.1 then (value x, key x) else best

/-- The best of some items: no eligible one has a smaller value, and it is one of them unless none
has a value below the initial one. -/
structure Least (eligible : ι → Prop) (value : ι → α) (key : ι → β) (items : List ι)
    (init best : α × β) : Prop where
  le : ∀ x ∈ items, eligible x → best.1 ≤ value x
  found : best = init ∨ ∃ x ∈ items, eligible x ∧ best = (value x, key x) ∧ value x < init.1

theorem Least.le_init (h : Least eligible value key items init best) : best.1 ≤ init.1 := by
  rcases h.found with same | hfound
  · rw [same]
  · obtain ⟨x, -, -, rfl, below⟩ := hfound
    exact below.le

variable [DecidablePred eligible]

theorem Least.cons {x : ι}
    (h : Least eligible value key items (better eligible value key init x) best) :
    Least eligible value key (x :: items) init best := by
  by_cases taken : eligible x ∧ value x < init.1
  · rw [better, if_pos taken] at h
    constructor
    · intro y hy he
      rcases mem_cons.mp hy with rfl | hy
      · exact h.le_init
      · exact h.le y hy he
    · right
      rcases h.found with same | hfound
      · exact ⟨x, mem_cons_self, taken.1, same, taken.2⟩
      · obtain ⟨y, hy, he, hbest, below⟩ := hfound
        exact ⟨y, mem_cons_of_mem x hy, he, hbest, below.trans taken.2⟩
  · rw [better, if_neg taken] at h
    constructor
    · intro y hy he
      rcases mem_cons.mp hy with rfl | hy
      · exact h.le_init.trans (not_lt.mp fun below => taken ⟨he, below⟩)
      · exact h.le y hy he
    · apply h.found.imp_right
      intro hfound
      obtain ⟨y, hy, rest⟩ := hfound
      exact ⟨y, mem_cons_of_mem x hy, rest⟩

theorem least_foldl (items : List ι) (init : α × β) :
    Least eligible value key items init (items.foldl (better eligible value key) init) := by
  induction items generalizing init with
  | nil => exact ⟨fun x hx => absurd hx not_mem_nil, .inl rfl⟩
  | cons x items ih => exact (ih _).cons

end Egsr.Lib.Selection
