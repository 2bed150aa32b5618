import Mathlib.Algebra.Order.Field.Basic
import Mathlib.Algebra.Order.BigOperators.Group.List
import Mathlib.Data.List.Chain
import Mathlib.Tactic.Linarith
import Mathlib.Tactic.Ring

/-! Token buckets. Each departure has a time, a size and the level that it
leaves in the bucket, which is refilled between departures at a rate, with some
slack for each departure. -/

namespace Egsr.Lib.TokenBucket

open List

/-- What is known of a departure: its time, its size and the level after it. -/
structure Meter (α K : Type*) where
  time : α → K
  size : α → K
  level : α → K

structure Bucket (K : Type*) where
  depth : K
  rate : K
  slack : K

section Windows

variable {K α : Type*} [LinearOrder K] {time : α → K} {l : List α} {first last : K}

def window (time : α → K) (first last : K) (l : List α) : List α :=
  l.filter fun x => first ≤ time x ∧ time x ≤ last

theorem takeWhile_of_sorted (sorted : l.Pairwise fun x y => time x ≤ time y) :
    l.filter (fun x => time x ≤ last) = l.takeWhile fun x => time x ≤ last := by
  induction l with
  | nil => rfl
  | cons x l ih =>
    obtain ⟨hfirst, hrest⟩ := pairwise_cons.mp sorted
    by_cases hx : time x ≤ last
    · rw [filter_cons_of_pos (by simpa using hx), takeWhile_cons_of_pos (by simpa using hx),
        ih hrest]
    · rw [filter_cons_of_neg (by simpa using hx), takeWhile_cons_of_neg (by simpa using hx),
        filter_eq_nil_iff]
      intro y hy hlast
      exact hx ((hfirst y hy).trans (by simpa using hlast))

theorem dropWhile_of_sorted (sorted : l.Pairwise fun x y => time x ≤ time y) :
    l.filter (fun x => first ≤ time x) = l.dropWhile fun x => time x < first := by
  induction l with
  | nil => rfl
  | cons x l ih =>
    obtain ⟨hfirst, hrest⟩ := pairwise_cons.mp sorted
    by_cases hx : first ≤ time x
    · rw [dropWhile_cons_of_neg (by simpa using hx), filter_eq_self]
      intro y hy
      rcases mem_cons.mp hy with rfl | hy
      · simpa using hx
      · simpa using hx.trans (hfirst y hy)
    · rw [filter_cons_of_neg (by simpa using hx), dropWhile_cons_of_pos (by simpa using hx),
        ih hrest]

theorem window_contiguous (sorted : l.Pairwise fun x y => time x ≤ time y) :
    window time first last l <:+: l := by
  have hsplit : window time first last l = (l.filter fun x => first ≤ time x).filter fun x =>
      time x ≤ last := by
    rw [window, filter_filter]
    refine filter_congr fun x _ => ?_
    rw [Bool.and_comm, Bool.decide_and]
  rw [hsplit, takeWhile_of_sorted (sorted.filter _), dropWhile_of_sorted sorted]
  exact (List.takeWhile_prefix _).isInfix.trans (dropWhile_suffix _).isInfix

end Windows

variable {K α : Type*} [Field K] [LinearOrder K] (m : Meter α K) (b : Bucket K)

/-- One departure after another, with no more tokens than were left and have come since. -/
structure Follows (x y : α) : Prop where
  forward : m.time x ≤ m.time y
  refilled : m.level y + m.size y ≤ m.level x + b.rate * (m.time y - m.time x) + b.slack

structure Conforms (l : List α) : Prop where
  chain : l.IsChain (Follows m b)
  within : ∀ x ∈ l, 0 ≤ m.level x ∧ m.level x + m.size x ≤ b.depth

variable {m b} {l l' : List α} {x : α}

theorem conforms_nil : Conforms m b [] := ⟨.nil, nofun⟩

theorem Conforms.snoc (h : Conforms m b l) (follows : ∀ y ∈ l.getLast?, Follows m b y x)
    (within : 0 ≤ m.level x ∧ m.level x + m.size x ≤ b.depth) : Conforms m b (l ++ [x]) := by
  refine ⟨isChain_append.mpr ⟨h.chain, .singleton x, fun y hy z hz => ?_⟩, fun y hy => ?_⟩
  · obtain rfl : x = z := Option.some.inj hz
    exact follows y hy
  · rcases mem_append.mp hy with hy | hy
    · exact h.within y hy
    · rwa [mem_singleton.mp hy]

theorem Conforms.infix (h : Conforms m b l) (sub : l' <:+: l) : Conforms m b l' where
  chain := h.chain.infix sub
  within x hx := h.within x (sub.subset hx)

theorem Conforms.sorted (h : Conforms m b l) : l.Pairwise fun x y => m.time x ≤ m.time y := by
  have hchain : l.IsChain fun x y => m.time x ≤ m.time y := h.chain.imp fun _ _ hxy => hxy.forward
  have : Trans (fun x y => m.time x ≤ m.time y) (fun x y => m.time x ≤ m.time y) fun x y =>
    m.time x ≤ m.time y :=
    ⟨fun hxy hyz => hxy.trans hyz⟩
  exact isChain_iff_pairwise.mp hchain

variable [IsStrictOrderedRing K]

theorem sum_after (chain : (x :: l).IsChain (Follows m b)) :
    (l.map m.size).sum ≤ m.level x - m.level ((x :: l).getLast (cons_ne_nil x l)) +
      b.rate * (m.time ((x :: l).getLast (cons_ne_nil x l)) - m.time x) + b.slack * l.length := by
  induction l generalizing x with
  | nil => simp
  | cons y l ih =>
    have hrest := ih chain.tail
    have hstep := (isChain_cons_cons.mp chain).1.refilled
    rw [getLast_cons (cons_ne_nil y l), map_cons, sum_cons, length_cons, Nat.cast_succ]
    linarith

theorem Conforms.sum_le (h : Conforms m b (x :: l)) (slack : 0 ≤ b.slack) :
    ((x :: l).map m.size).sum ≤
      b.depth + b.rate * (m.time ((x :: l).getLast (cons_ne_nil x l)) - m.time x) + b.slack *
      (x :: l).length := by
  have hfirst := (h.within x mem_cons_self).2
  have hlast := (h.within _ (getLast_mem (cons_ne_nil x l))).1
  have hafter := sum_after h.chain
  rw [map_cons, sum_cons, length_cons, Nat.cast_succ]
  linarith

theorem Conforms.window_le (h : Conforms m b l) (depth : 0 ≤ b.depth) (rate : 0 ≤ b.rate)
    (slack : 0 ≤ b.slack)
    {first last : K} (ordered : first ≤ last) : ((window m.time first last l).map m.size).sum ≤
      b.depth + b.rate * (last - first) + b.slack * (window m.time first last l).length := by
  have hconforms := h.infix (window_contiguous h.sorted : window m.time first last l <:+: l)
  have hin : ∀ x ∈ window m.time first last l, first ≤ m.time x ∧ m.time x ≤ last := fun x hx => by
    simpa using (mem_filter.mp hx).2
  cases hlist : window m.time first last l with
  | nil =>
    have := mul_nonneg rate (sub_nonneg.mpr ordered)
    rw [map_nil, sum_nil, length_nil, Nat.cast_zero, mul_zero, add_zero]
    exact add_nonneg depth this
  | cons x rest =>
    rw [hlist] at hconforms hin
    have hx := (hin x mem_cons_self).1
    have hy := (hin _ (getLast_mem (cons_ne_nil x rest))).2
    have hspan := mul_le_mul_of_nonneg_left (sub_le_sub hy hx) rate
    have := hconforms.sum_le slack
    linarith

end Egsr.Lib.TokenBucket
