import Mathlib.Data.List.Basic
import Mathlib.Data.List.TakeWhile
import Mathlib.Order.MinMax

/-! Pieces of a range, each from a start to a stop, in the order of their
starts. Going through them once finds out whether they leave a gap. -/

namespace Egsr.Lib.Coverage

open List

variable {α : Type*}

section Scan

variable (start stop : α → ℕ)

def reach : ℕ → List α → ℕ
  | e, [] => e
  | e, a :: l => reach (max e (stop a)) l

/-- Every piece begins where those before it have reached, or earlier. -/
def Gapless : ℕ → List α → Prop
  | _, [] => True
  | e, a :: l => start a ≤ e ∧ Gapless (max e (stop a)) l

def Covers (l : List α) (q : ℕ) : Prop := ∃ a ∈ l, start a ≤ q ∧ q < stop a

/-- The place up to which pieces reach without a gap, from `e` on. -/
def extent : ℕ → List α → ℕ
  | e, [] => e
  | e, a :: l => extent (if start a ≤ e then max e (stop a) else e) l

/-- No piece that begins in front of where those before it have reached without a gap ends in front
of it. -/
def Reaching : ℕ → List α → Prop
  | _, [] => True
  | e, a :: l => (start a < e → e ≤ stop a) ∧ Reaching (if start a ≤ e then max e (stop a) else e) l

def CoveredUpTo (l : List α) (m : ℕ) : Prop :=
  (∀ q < m, Covers start stop l q) ∧ ¬Covers start stop l m

variable {start stop}

variable {l : List α}

theorem lt_reach_iff {e q : ℕ} : q < reach stop e l ↔ q < e ∨ ∃ a ∈ l, q < stop a := by
  induction l generalizing e with
  | nil => simp [reach]
  | cons a l ih =>
    rw [reach, ih, lt_max_iff, or_assoc]
    simp only [mem_cons, exists_eq_or_imp]

theorem covers_cons {a : α} {q : ℕ} :
    Covers start stop (a :: l) q ↔ (start a ≤ q ∧ q < stop a) ∨ Covers start stop l q := by
  simp only [Covers, mem_cons, exists_eq_or_imp]

theorem gapless_iff (sorted : l.Pairwise fun a b => start a ≤ start b) {e : ℕ}
    (filled : ∀ a ∈ l, start a < stop a) :
    Gapless start stop e l ↔ ∀ q, e ≤ q → q < reach stop e l → Covers start stop l q := by
  induction l generalizing e with
  | nil =>
    refine ⟨fun _ q hle hlt => ?_, fun _ => trivial⟩
    exact absurd hlt (Nat.not_lt.mpr hle)
  | cons a l ih =>
    rw [pairwise_cons] at sorted
    have hfilled := filled a (by simp)
    have hrest := ih sorted.2 (e := max e (stop a)) fun b hb => filled b (by simp [hb])
    constructor
    · rintro ⟨hstart, hgapless⟩ q hle hlt
      rw [covers_cons]
      by_cases hstop : q < stop a
      · exact Or.inl ⟨by omega, hstop⟩
      · exact Or.inr (hrest.mp hgapless q (by omega) hlt)
    · intro hcovers
      have hstart : start a ≤ e := by
        by_contra hgap
        have hreach : e < reach stop e (a :: l) :=
          lt_reach_iff.mpr (Or.inr ⟨a, by simp, by omega⟩)
        obtain ⟨b, hb, hle, -⟩ := hcovers e (Nat.le_refl e) hreach
        rcases mem_cons.mp hb with rfl | hb
        · exact hgap hle
        · have hsorted := sorted.1 b hb
          omega
      refine ⟨hstart, hrest.mpr fun q hle hlt => ?_⟩
      have hcover := hcovers q (by omega) hlt
      rw [covers_cons] at hcover
      exact hcover.resolve_left fun h => by omega

theorem le_extent (e : ℕ) (l : List α) : e ≤ extent start stop e l := by
  induction l generalizing e with
  | nil => exact le_rfl
  | cons a l ih =>
    refine le_trans ?_ (ih _)
    split_ifs <;> omega

theorem extent_eq_of_lt {e : ℕ} (h : ∀ a ∈ l, e < start a) : extent start stop e l = e := by
  induction l with
  | nil => rfl
  | cons a l ih =>
    rw [extent, if_neg (Nat.not_le.mpr (h a (by simp)))]
    exact ih fun b hb => h b (by simp [hb])

theorem reaching_of_lt {e : ℕ} (h : ∀ a ∈ l, e < start a) : Reaching start stop e l := by
  induction l with
  | nil => trivial
  | cons a l ih =>
    have hstart := h a (by simp)
    rw [Reaching, if_neg (Nat.not_le.mpr hstart)]
    exact ⟨fun hlt => absurd hstart hlt.asymm, ih fun b hb => h b (by simp [hb])⟩

theorem covers_extent (sorted : l.Pairwise fun a b => start a ≤ start b) (e : ℕ) :
    (∀ q, e ≤ q → q < extent start stop e l → Covers start stop l q) ∧
      ¬Covers start stop l (extent start stop e l) := by
  induction l generalizing e with
  | nil =>
    refine ⟨fun q hle hlt => absurd hlt (Nat.not_lt.mpr hle), ?_⟩
    rintro ⟨a, ha, -⟩
    cases ha
  | cons a l ih =>
    rw [pairwise_cons] at sorted
    by_cases hstart : start a ≤ e
    · have hle : max e (stop a) ≤ extent start stop (max e (stop a)) l := le_extent _ l
      obtain ⟨hcovers, hnot⟩ := ih sorted.2 (max e (stop a))
      rw [extent, if_pos hstart]
      refine ⟨fun q hq hlt => ?_, ?_⟩
      · rw [covers_cons]
        by_cases hstop : q < stop a
        · exact Or.inl ⟨by omega, hstop⟩
        · exact Or.inr (hcovers q (by omega) hlt)
      · rw [covers_cons]
        rintro (⟨-, hlt⟩ | hcover)
        · omega
        · exact hnot hcover
    · have hall : ∀ b ∈ a :: l, e < start b := by
        intro b hb
        rcases mem_cons.mp hb with rfl | hb
        · omega
        · have hsorted := sorted.1 b hb
          omega
      rw [extent_eq_of_lt hall]
      refine ⟨fun q hle hlt => absurd hlt (Nat.not_lt.mpr hle), ?_⟩
      rintro ⟨b, hb, hle, -⟩
      exact absurd (hall b hb) (Nat.not_lt.mpr hle)

theorem coveredUpTo_extent (sorted : l.Pairwise fun a b => start a ≤ start b) :
    CoveredUpTo start stop l (extent start stop 0 l) :=
  ⟨fun q hq => (covers_extent sorted 0).1 q (Nat.zero_le q) hq, (covers_extent sorted 0).2⟩

theorem CoveredUpTo.unique {m m' : ℕ} (h : CoveredUpTo start stop l m)
    (h' : CoveredUpTo start stop l m') : m = m' := by
  rcases Nat.lt_trichotomy m m' with hlt | heq | hlt
  · exact absurd (h'.1 m hlt) h.2
  · exact heq
  · exact absurd (h.1 m' hlt) h'.2

theorem reaching_iff {e : ℕ} : Reaching start stop e l ↔
    ∀ before a after, l = before ++ a :: after →
    start a < extent start stop e before → extent start stop e before ≤ stop a := by
  induction l generalizing e with
  | nil => exact iff_of_true trivial fun before a after h => by simp at h
  | cons b l ih =>
    rw [Reaching, ih]
    constructor
    · rintro ⟨hfirst, hrest⟩ before a after h
      cases before with
      | nil =>
        obtain ⟨rfl, -⟩ := List.cons.inj h
        exact hfirst
      | cons c before =>
        obtain ⟨rfl, hl⟩ := List.cons.inj h
        exact hrest before a after hl
    · intro h
      refine ⟨h [] b l rfl, fun before a after hl => ?_⟩
      exact h (b :: before) a after (congrArg (b :: ·) hl)

end Scan

section Insert

variable (start : α → ℕ)

def insert (a : α) (l : List α) : List α :=
  l.takeWhile (fun b => start b ≤ start a) ++ a :: l.dropWhile fun b => start b ≤ start a

variable {start} {a : α} {l : List α}

theorem mem_insert {b : α} : b ∈ insert start a l ↔ b = a ∨ b ∈ l := by
  have hmem : b ∈ l ↔ b ∈ l.takeWhile (fun b => decide (start b ≤ start a)) ∨
      b ∈ l.dropWhile fun b => decide (start b ≤ start a) := by
    rw [← mem_append, takeWhile_append_dropWhile]
  rw [insert, hmem, mem_append, mem_cons]
  exact or_left_comm

variable (sorted : l.Pairwise fun a b => start a ≤ start b)
include sorted

theorem forall_le_iff (k : ℕ) : (∀ b ∈ l, start b ≤ k) ↔ ∀ b ∈ l.getLast?, start b ≤ k := by
  rcases eq_nil_or_concat l with rfl | ⟨before, last, rfl⟩
  · simp
  · rw [concat_eq_append, pairwise_append] at sorted
    simp only [concat_eq_append, List.getLast?_concat, Option.mem_some_iff, forall_eq']
    refine ⟨fun h => h last (by simp), fun h b hb => ?_⟩
    rcases mem_append.mp hb with hb | hb
    · exact (sorted.2.2 b hb last (by simp)).trans h
    · rw [mem_singleton.mp hb]
      exact h

theorem lt_of_mem_dropWhile {b : α} (h : b ∈ l.dropWhile fun b => start b ≤ start a) :
    start a < start b := by
  induction l with
  | nil => cases h
  | cons c l ih =>
    rw [pairwise_cons] at sorted
    by_cases hc : start c ≤ start a
    · rw [dropWhile_cons_of_pos (by simpa using hc)] at h
      exact ih sorted.2 h
    · rw [dropWhile_cons_of_neg (by simpa using hc)] at h
      rcases mem_cons.mp h with rfl | h
      · omega
      · have hle := sorted.1 b h
        omega

theorem insert_sorted : (insert start a l).Pairwise fun a b => start a ≤ start b := by
  have hbefore : ∀ b ∈ l.takeWhile (fun b => decide (start b ≤ start a)), start b ≤ start a :=
    fun b hb => by simpa using mem_takeWhile_imp hb
  rw [insert, pairwise_append, pairwise_cons]
  refine ⟨sorted.sublist (takeWhile_sublist _), ⟨fun b hb => ?_, ?_⟩, fun b hb c hc => ?_⟩
  · exact Nat.le_of_lt (lt_of_mem_dropWhile sorted hb)
  · exact sorted.sublist (dropWhile_sublist _)
  · have hle := hbefore b hb
    rcases mem_cons.mp hc with rfl | hc
    · exact hle
    · exact hle.trans (Nat.le_of_lt (lt_of_mem_dropWhile sorted hc))

theorem getLast?_insert : (insert start a l).getLast? =
    if ∀ b ∈ l.getLast?, start b ≤ start a then some a else l.getLast? := by
  have hsplit := takeWhile_append_dropWhile (p := fun b => decide (start b ≤ start a)) (l := l)
  rw [← if_congr (forall_le_iff sorted (start a)) rfl rfl, insert]
  cases hrest : l.dropWhile fun b => decide (start b ≤ start a) with
  | nil =>
    have hall : ∀ b ∈ l, start b ≤ start a := by simpa using dropWhile_eq_nil_iff.mp hrest
    rw [if_pos hall, List.getLast?_concat]
  | cons c behind =>
    have hlater : ¬∀ b ∈ l, start b ≤ start a := fun hall => by
      have hnil := dropWhile_eq_nil_iff.mpr fun b hb => decide_eq_true (hall b hb)
      rw [hrest] at hnil
      cases hnil
    rw [hrest] at hsplit
    rw [if_neg hlater, List.getLast?_append_cons, List.getLast?_cons_cons, ← hsplit,
      List.getLast?_append_cons]

end Insert

end Egsr.Lib.Coverage
