import Mathlib.Data.List.Basic
import Mathlib.Order.Basic
import Mathlib.Data.Nat.Basic

/-! A buffer that brings numbered items back into order. Items wait in the order
of their numbers, copies of an item side by side. What is below a number is
released with one copy each, and from a number on what follows without a gap. -/

namespace Egsr.Lib.ReorderBuffer

open List

variable {α : Type*}

/-- Before the first item that does not come earlier. -/
def hold (p : ℕ × α) : List (ℕ × α) → List (ℕ × α)
  | [] => [p]
  | q :: rest => if q.1 < p.1 then q :: hold p rest else p :: q :: rest

/-- The items below the bound that are released, and those that are kept. The number that was
released last is skipped. -/
def releaseBelow (bound : ℕ) : Option ℕ → List (ℕ × α) → List (ℕ × α) × List (ℕ × α)
  | _, [] => ([], [])
  | last, p :: rest =>
    if last = some p.1 then releaseBelow bound last rest
    else if p.1 < bound then
      let out := releaseBelow bound (some p.1) rest
      (p :: out.1, out.2)
    else ([], p :: rest)

def releaseFrom : ℕ → List (ℕ × α) → List (ℕ × α) × ℕ × List (ℕ × α)
  | start, [] => ([], start, [])
  | start, p :: rest =>
    if p.1 = start then
      let out := releaseFrom (start + 1) rest
      (p :: out.1, out.2)
    else ([], start, p :: rest)

def Sorted (l : List (ℕ × α)) : Prop := l.Pairwise fun p q => p.1 ≤ q.1

def Increasing (l : List (ℕ × α)) : Prop := l.Pairwise fun p q => p.1 < q.1

variable {p q : ℕ × α} {l : List (ℕ × α)} {bound start : ℕ} {last : Option ℕ}

theorem hold_perm (p : ℕ × α) (l : List (ℕ × α)) : (hold p l).Perm (p :: l) := by
  induction l with
  | nil => exact .refl _
  | cons q rest ih =>
    rw [hold]
    split_ifs
    · exact (ih.cons q).trans (.swap p q rest)
    · exact .refl _

theorem mem_hold : q ∈ hold p l ↔ q = p ∨ q ∈ l := (hold_perm p l).mem_iff.trans mem_cons

theorem sorted_hold (sorted : Sorted l) : Sorted (hold p l) := by
  induction l with
  | nil => exact pairwise_singleton _ _
  | cons q rest ih =>
    obtain ⟨hfirst, hrest⟩ := pairwise_cons.mp sorted
    rw [hold]
    split_ifs with hlt
    · refine pairwise_cons.mpr ⟨fun r hr => ?_, ih hrest⟩
      rcases mem_hold.mp hr with rfl | hr
      · exact hlt.le
      · exact hfirst r hr
    · refine pairwise_cons.mpr ⟨fun r hr => ?_, sorted⟩
      rcases mem_cons.mp hr with rfl | hr
      · exact not_lt.mp hlt
      · exact (not_lt.mp hlt).trans (hfirst r hr)

structure ReleasedBelow (bound : ℕ) (last : Option ℕ) (l : List (ℕ × α))
    (out : List (ℕ × α) × List (ℕ × α)) : Prop where
  increasing : Increasing out.1
  released : ∀ p ∈ out.1, p ∈ l ∧ p.1 < bound ∧ ∀ n ∈ last, n < p.1
  sublist : out.2.Sublist l
  kept : ∀ p ∈ out.2, bound ≤ p.1
  covered : ∀ p ∈ l, last = some p.1 ∨ (∃ q ∈ out.1, q.1 = p.1) ∨ p ∈ out.2

theorem releaseBelow_spec (bound : ℕ) (last : Option ℕ) (sorted : Sorted l)
    (after : ∀ n ∈ last, n < bound ∧ ∀ p ∈ l, n ≤ p.1) :
    ReleasedBelow bound last l (releaseBelow bound last l) := by
  induction l generalizing last with
  | nil =>
    exact ⟨List.Pairwise.nil, by simp [releaseBelow], .refl _, by simp [releaseBelow], by simp⟩
  | cons p rest ih =>
    obtain ⟨hfirst, hrest⟩ := pairwise_cons.mp sorted
    rw [releaseBelow]
    split_ifs with hsame hlt
    · -- a copy of the item that was released last
      have h := ih last hrest fun n hn =>
        ⟨(after n hn).1, fun q hq => (after n hn).2 q (mem_cons_of_mem _ hq)⟩
      refine ⟨h.increasing, fun q hq => ?_, h.sublist.cons p, h.kept, fun q hq => ?_⟩
      · obtain ⟨hmem, hbound, hlast⟩ := h.released q hq
        exact ⟨mem_cons_of_mem _ hmem, hbound, hlast⟩
      · rcases mem_cons.mp hq with rfl | hq
        · exact .inl hsame
        · exact h.covered q hq
    · have h := ih (some p.1) hrest fun n hn => by
        obtain rfl := Option.some.inj hn
        exact ⟨hlt, hfirst⟩
      refine ⟨pairwise_cons.mpr ⟨fun q hq => (h.released q hq).2.2 p.1 rfl, h.increasing⟩,
        fun q hq => ?_, h.sublist.cons p, h.kept, fun q hq => ?_⟩
      · have hlast : ∀ n ∈ last, n < p.1 := fun n hn => by
          refine lt_of_le_of_ne ((after n hn).2 p mem_cons_self) fun heq => hsame ?_
          rw [← heq]
          exact hn
        rcases mem_cons.mp hq with rfl | hq
        · exact ⟨mem_cons_self, hlt, hlast⟩
        · obtain ⟨hmem, hbound, hp⟩ := h.released q hq
          exact ⟨mem_cons_of_mem _ hmem, hbound, fun n hn => (hlast n hn).trans (hp p.1 rfl)⟩
      · have hreleased : ∀ {n : ℕ}, p.1 = n → ∃ q ∈ p :: (releaseBelow bound (some p.1) rest).1,
          q.1 = n :=
          fun heq => ⟨p, mem_cons_self, heq⟩
        rcases mem_cons.mp hq with rfl | hq
        · exact .inr (.inl (hreleased rfl))
        · rcases h.covered q hq with heq | ⟨r, hr, heq⟩ | hkept
          · exact .inr (.inl (hreleased (Option.some.inj heq)))
          · exact .inr (.inl ⟨r, mem_cons_of_mem _ hr, heq⟩)
          · exact .inr (.inr hkept)
    · refine ⟨List.Pairwise.nil, by simp, .refl _, fun q hq => ?_, fun q hq => .inr (.inr hq)⟩
      rcases mem_cons.mp hq with rfl | hq
      · exact not_lt.mp hlt
      · exact (not_lt.mp hlt).trans (hfirst q hq)

def CopiesWait (start : ℕ) (l : List (ℕ × α)) : Prop :=
  ∀ p ∈ l, (∃ n, start ≤ n ∧ n < p.1 ∧ ∀ q ∈ l, q.1 ≠ n) ∨ l.countP (fun q => q.1 = p.1) ≤ 1

structure ReleasedFrom (start : ℕ) (l : List (ℕ × α)) (out : List (ℕ × α) × ℕ × List (ℕ × α)) :
    Prop where
  increasing : Increasing out.1
  released : ∀ p ∈ out.1, p ∈ l ∧ start ≤ p.1 ∧ p.1 < out.2.1
  stop : out.2.1 = start ∨ ∃ p ∈ out.1, p.1 + 1 = out.2.1
  le : start ≤ out.2.1
  sublist : out.2.2.Sublist l
  kept : ∀ p ∈ out.2.2, out.2.1 < p.1
  covered : ∀ p ∈ l, p ∈ out.1 ∨ p ∈ out.2.2

theorem releaseFrom_spec (sorted : Sorted l) (ahead : ∀ p ∈ l, start ≤ p.1)
    (copies : CopiesWait start l) : ReleasedFrom start l (releaseFrom start l) := by
  induction l generalizing start with
  | nil =>
    exact ⟨List.Pairwise.nil, by simp [releaseFrom], .inl rfl, le_rfl, .refl _,
      by simp [releaseFrom], by simp⟩
  | cons p rest ih =>
    obtain ⟨hfirst, hrest⟩ := pairwise_cons.mp sorted
    rw [releaseFrom]
    split_ifs with hstart
    · -- the first item has no copy, since there is no gap before it
      have hsingle : (p :: rest).countP (fun q => q.1 = p.1) ≤ 1 := by
        rcases copies p mem_cons_self with ⟨n, hle, hlt, -⟩ | hcount
        · omega
        · exact hcount
      rw [countP_cons_of_pos (by simp)] at hsingle
      have hothers := countP_eq_zero.mp (Nat.le_zero.mp (Nat.le_of_succ_le_succ hsingle))
      have hnext : ∀ q ∈ rest, start + 1 ≤ q.1 := by
        intro q hq
        refine lt_of_le_of_ne (hstart ▸ hfirst q hq) fun heq => hothers q hq ?_
        simp [hstart, heq]
      have hcopies : CopiesWait (start + 1) rest := by
        intro q hq
        rcases copies q (mem_cons_of_mem _ hq) with ⟨n, hle, hlt, hgap⟩ | hcount
        · have hne : n ≠ start := fun heq => hgap p mem_cons_self (hstart.trans heq.symm)
          exact .inl ⟨n, by omega, hlt, fun r hr => hgap r (mem_cons_of_mem _ hr)⟩
        · exact .inr ((sublist_cons_self p rest).countP_le.trans hcount)
      have h := ih hrest hnext hcopies
      have hle := h.le
      refine ⟨pairwise_cons.mpr ⟨fun q hq => ?_, h.increasing⟩, fun q hq =>
        ?_, ?_, ?_, h.sublist.cons p, h.kept,
        fun q hq => ?_⟩
      · have := (h.released q hq).2.1
        omega
      · rcases mem_cons.mp hq with rfl | hq
        · exact ⟨mem_cons_self, hstart.ge, show q.1 < (releaseFrom (start + 1) rest).2.1 by omega⟩
        · obtain ⟨hmem, hge, hlt⟩ := h.released q hq
          exact ⟨mem_cons_of_mem _ hmem, by omega, hlt⟩
      · rcases h.stop with heq | ⟨q, hq, heq⟩
        · exact .inr ⟨p, mem_cons_self, (congrArg (· + 1) hstart).trans heq.symm⟩
        · exact .inr ⟨q, mem_cons_of_mem _ hq, heq⟩
      · exact (Nat.le_succ start).trans hle
      · rcases mem_cons.mp hq with rfl | hq
        · exact .inl mem_cons_self
        · exact (h.covered q hq).imp_left fun h => mem_cons_of_mem _ h
    · refine ⟨List.Pairwise.nil, by
        simp, .inl rfl, le_rfl, .refl _, fun q hq => ?_, fun q hq => .inr hq⟩
      have hlt : start < p.1 := lt_of_le_of_ne (ahead p mem_cons_self) (Ne.symm hstart)
      rcases mem_cons.mp hq with rfl | hq
      · exact hlt
      · exact hlt.trans_le (hfirst q hq)

end Egsr.Lib.ReorderBuffer
