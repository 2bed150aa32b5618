import Mathlib.Data.List.Basic
import Mathlib.Data.List.Induction

/-! Frames one after the other, each but the last filled up to a multiple of a
width. How much a frame is filled up can be read off the frame alone or off
all that is there when the next one is added. -/

namespace Egsr.Lib.Padded

open List

variable {β : Type} {width : ℕ}

def padding (width n : ℕ) : ℕ := (width - n % width) % width

theorem dvd_add_padding (pos : 0 < width) (n : ℕ) : width ∣ n + padding width n := by
  have hlt := Nat.mod_lt n pos
  rw [padding]
  rcases Nat.eq_zero_or_pos (n % width) with hzero | hpos
  · rw [hzero, Nat.sub_zero, Nat.mod_self]
    exact Nat.dvd_of_mod_eq_zero hzero
  · rw [Nat.mod_eq_of_lt (by omega)]
    refine ⟨n / width + 1, ?_⟩
    have hdiv := Nat.div_add_mod n width
    rw [Nat.mul_add]
    omega

theorem padding_add {m : ℕ} (h : width ∣ m) (n : ℕ) : padding width (m + n) = padding width n := by
  obtain ⟨k, rfl⟩ := h
  rw [padding, padding, Nat.mul_add_mod]

def joined (width : ℕ) (filler : β) : List (List β) → List β
  | [] => []
  | [f] => f
  | f :: g :: fs =>
    f ++ (replicate (padding width f.length) filler ++ joined width filler (g :: fs))

variable {filler : β} {f : List β} {fs : List (List β)}

theorem joined_append (pos : 0 < width) (ne : fs ≠ []) : joined width filler (fs ++ [f]) =
      joined width filler fs ++
      (replicate (padding width (joined width filler fs).length) filler ++ f) := by
  induction fs with
  | nil => exact absurd rfl ne
  | cons g fs ih =>
    cases fs with
    | nil => rfl
    | cons h hs =>
      have hpadding : padding width (joined width filler (g :: h :: hs)).length =
          padding width (joined width filler (h :: hs)).length := by
        rw [joined, length_append, length_append, length_replicate, ← Nat.add_assoc,
          padding_add (dvd_add_padding pos g.length)]
      rw [hpadding, cons_append, cons_append, joined, ← cons_append, ih (by simp), joined]
      simp only [append_assoc]

theorem joined_ne_nil (nonempty : f ≠ []) : joined width filler (f :: fs) ≠ [] := by
  cases fs with
  | nil => exact nonempty
  | cons g fs =>
    rw [joined]
    exact append_ne_nil_of_left_ne_nil nonempty _

def segments (width : ℕ) (filler : β) : List (List β) → List (List β)
  | [] => []
  | [f] => [f]
  | f :: g :: fs =>
  (f ++ replicate (padding width f.length) filler) :: segments width filler (g :: fs)

/-- How much a frame in front of others is filled up. -/
def gap (width : ℕ) (f : List β) (fs : List (List β)) : ℕ :=
  if fs = [] then 0 else padding width f.length

theorem joined_cons (f : List β) (fs : List (List β)) :
    joined width filler (f :: fs) = f ++
    (replicate (gap width f fs) filler ++ joined width filler fs) := by
  cases fs with
  | nil => exact (append_nil f).symm
  | cons g fs => rfl

theorem length_le_joined (nonempty : ∀ g ∈ fs, g ≠ []) : fs.length ≤
    (joined width filler fs).length := by
  induction fs with
  | nil => exact Nat.le_refl 0
  | cons f fs ih =>
    have hf := length_pos_of_ne_nil (nonempty f (by simp))
    have hfs := ih fun g hg => nonempty g (by simp [hg])
    rw [joined_cons, length_append, length_append, length_cons]
    omega

theorem length_joined_append (pos : 0 < width) (fs : List (List β)) (f : List β) :
    (joined width filler (fs ++ [f])).length =
      (joined width filler fs).length + padding width (joined width filler fs).length +
        f.length := by
  cases fs with
  | nil =>
    have hzero : padding width 0 = 0 := by rw [padding, Nat.zero_mod, Nat.sub_zero, Nat.mod_self]
    change f.length = 0 + padding width 0 + f.length
    rw [hzero, Nat.add_zero, Nat.zero_add]
  | cons g fs =>
    rw [joined_append pos (by simp), length_append, length_append, length_replicate, Nat.add_assoc]

theorem length_joined_le (pos : 0 < width) (fs gs : List (List β)) :
    (joined width filler fs).length ≤ (joined width filler (fs ++ gs)).length := by
  induction gs using List.reverseRecOn with
  | nil => exact Nat.le_of_eq (by rw [append_nil])
  | append_singleton gs g ih =>
    rw [← append_assoc, length_joined_append pos]
    omega

theorem segments_cons (f : List β) (fs : List (List β)) :
    segments width filler (f :: fs) =
    (f ++ replicate (gap width f fs) filler) :: segments width filler fs := by
  cases fs with
  | nil => exact congrArg (· :: []) (append_nil f).symm
  | cons g fs => rfl

theorem gap_eq (nonempty : ∀ g ∈ fs, g ≠ []) :
    (if 0 < padding width f.length ∧
      0 < gap width f fs + (joined width filler fs).length then padding width f.length
      else 0) = gap width f fs := by
  cases fs with
  | nil => exact if_neg fun h => absurd h.2 (Nat.lt_irrefl 0)
  | cons g fs =>
    have hmore : 0 < (joined width filler (g :: fs)).length :=
      length_pos_of_ne_nil (joined_ne_nil (nonempty g (by simp)))
    change _ = padding width f.length
    split_ifs with h
    · rfl
    · omega

theorem flatten_segments (fs : List (List β)) :
    (segments width filler fs).flatten = joined width filler fs := by
  induction fs with
  | nil => rfl
  | cons f fs ih => rw [segments_cons, joined_cons, flatten_cons, ih, append_assoc]

theorem starts_segments (fs : List (List β)) : List.Forall₂ (· <+: ·) fs
    (segments width filler fs) := by
  induction fs with
  | nil => exact .nil
  | cons f fs ih =>
    rw [segments_cons]
    exact .cons (prefix_append f _) ih

end Egsr.Lib.Padded
