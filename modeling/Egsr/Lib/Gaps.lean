import Mathlib.Algebra.Order.Group.Defs
import Mathlib.Order.Bounds.Basic

/-! Intervals in order between two ends, and the longest stretch between the ends that meets none of
them. An interval may be a single point; stretches are open. -/

namespace Egsr.Lib.Gaps

variable {α : Type} [LinearOrder α]

def Covered (blocks : List (α × α)) (x : α) : Prop := ∃ block ∈ blocks, x ∈ Set.Icc block.1 block.2

def Ordered (stop : α) : α → List (α × α) → Prop
  | start, [] => start ≤ stop
  | start, block :: blocks => start ≤ block.1 ∧ block.1 ≤ block.2 ∧ Ordered stop block.2 blocks

/-- A stretch between the ends that meets no interval. -/
structure Blank (start stop : α) (blocks : List (α × α)) (a b : α) : Prop where
  from_start : start ≤ a
  le : a ≤ b
  to_stop : b ≤ stop
  free : ∀ x ∈ Set.Ioo a b, ¬ Covered blocks x

variable {start stop a b : α} {block : α × α} {blocks : List (α × α)}

theorem Ordered.start_le_stop (h : Ordered stop start blocks) : start ≤ stop := by
  induction blocks generalizing start with
  | nil => exact h
  | cons block blocks ih => exact (h.1.trans h.2.1).trans (ih h.2.2)

theorem Ordered.start_le (h : Ordered stop start blocks) {x : α} (covered : Covered blocks x) :
    start ≤ x := by
  induction blocks generalizing start with
  | nil =>
    obtain ⟨block, mem, -⟩ := covered
    cases mem
  | cons block blocks ih =>
    obtain ⟨other, mem, inside⟩ := covered
    rcases List.mem_cons.mp mem with rfl | mem
    · exact h.1.trans inside.1
    · exact (h.1.trans h.2.1).trans (ih h.2.2 ⟨other, mem, inside⟩)

theorem covered_cons {x : α} : Covered (block :: blocks) x ↔ x ∈ Set.Icc block.1 block.2 ∨
    Covered blocks x := by
  simp only [Covered, List.mem_cons, exists_eq_or_imp]

theorem blank_before (h : Ordered stop start (block :: blocks)) :
    Blank start stop (block :: blocks) start block.1 where
  from_start := le_rfl
  le := h.1
  to_stop := h.2.1.trans h.2.2.start_le_stop
  free x inside covered := by
    rcases covered_cons.mp covered with first | later
    · exact absurd first.1 (not_le.mpr inside.2)
    · exact absurd (h.2.1.trans (h.2.2.start_le later)) (not_le.mpr inside.2)

theorem Blank.after (h : Ordered stop start (block :: blocks))
    (blank : Blank block.2 stop blocks a b) : Blank start stop (block :: blocks) a b where
  from_start := (h.1.trans h.2.1).trans blank.from_start
  le := blank.le
  to_stop := blank.to_stop
  free x inside covered := by
    rcases covered_cons.mp covered with first | later
    · exact absurd (first.2.trans blank.from_start) (not_le.mpr inside.1)
    · exact blank.free x inside later

theorem Blank.before_or_after [DenselyOrdered α] (h : Ordered stop start (block :: blocks))
    (blank : Blank start stop (block :: blocks) a b) (proper : a < b) :
    b ≤ block.1 ∨ Blank block.2 stop blocks a b := by
  by_contra both
  push Not at both
  obtain ⟨before, after⟩ := both
  have inside : a < block.2 := by
    by_contra beyond
    exact after ⟨not_lt.mp beyond, blank.le, blank.to_stop, fun x hx covered =>
      blank.free x hx (covered_cons.mpr (.inr covered))⟩
  by_cases starts : a < block.1
  · exact blank.free block.1 ⟨starts, before⟩ (covered_cons.mpr (.inl ⟨le_rfl, h.2.1⟩))
  · obtain ⟨x, hax, hx⟩ := exists_between (lt_min proper inside)
    rw [lt_min_iff] at hx
    exact blank.free x ⟨hax, hx.1⟩
      (covered_cons.mpr (.inl ⟨(not_lt.mp starts).trans hax.le, hx.2.le⟩))

section Length

variable [AddCommGroup α]

/-- The longest of the stretches before, between and after the intervals. -/
def longest (stop : α) : α → List (α × α) → α
  | start, [] => stop - start
  | start, block :: blocks => max (block.1 - start) (longest stop block.2 blocks)

theorem exists_longest (h : Ordered stop start blocks) :
    ∃ a b, Blank start stop blocks a b ∧ longest stop start blocks = b - a := by
  induction blocks generalizing start with
  | nil =>
    refine ⟨start, stop, ⟨le_rfl, h, le_rfl, fun x _ covered => ?_⟩, rfl⟩
    obtain ⟨block, mem, -⟩ := covered
    cases mem
  | cons block blocks ih =>
    rw [longest]
    rcases le_total (longest stop block.2 blocks) (block.1 - start) with short | long
    · exact ⟨start, block.1, blank_before h, max_eq_left short⟩
    · obtain ⟨a, b, blank, hlen⟩ := ih h.2.2
      exact ⟨a, b, blank.after h, (max_eq_right long).trans hlen⟩

variable [IsOrderedAddMonoid α]

theorem longest_nonneg (h : Ordered stop start blocks) : 0 ≤ longest stop start blocks := by
  cases blocks with
  | nil => exact sub_nonneg.mpr h
  | cons block blocks => exact (sub_nonneg.mpr h.1).trans (le_max_left _ _)

theorem Blank.sub_le_longest [DenselyOrdered α] (h : Ordered stop start blocks)
    (blank : Blank start stop blocks a b) : b - a ≤ longest stop start blocks := by
  induction blocks generalizing start with
  | nil => exact sub_le_sub blank.to_stop blank.from_start
  | cons block blocks ih =>
    rcases blank.le.eq_or_lt with empty | proper
    · rw [empty, sub_self]
      exact longest_nonneg h
    · rw [longest]
      rcases blank.before_or_after h proper with before | after
      · exact (sub_le_sub before blank.from_start).trans (le_max_left _ _)
      · exact (ih h.2.2 after).trans (le_max_right _ _)

theorem isGreatest_longest [DenselyOrdered α] (h : Ordered stop start blocks) :
    IsGreatest {len | ∃ a b, Blank start stop blocks a b ∧ len = b - a}
    (longest stop start blocks) := by
  refine ⟨exists_longest h, ?_⟩
  intro len hlen
  obtain ⟨a, b, blank, rfl⟩ := hlen
  exact blank.sub_le_longest h

end Length

end Egsr.Lib.Gaps
