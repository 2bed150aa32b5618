import Mathlib.Algebra.GroupWithZero.Nat
import Mathlib.Data.Nat.Basic
import Mathlib.Algebra.BigOperators.Group.List.Basic

/-! Blocks of a stream: pieces at known places, kept in order and apart from
each other. -/

namespace Egsr.Lib.Blocks

open List

variable {β : Type}

def slice (stream : ℕ → β) (a k : ℕ) : List β := (range k).map fun i => stream (a + i)

section Slice

variable (stream : ℕ → β)

@[simp] theorem length_slice (a k : ℕ) : (slice stream a k).length = k := by
  simp [slice]

theorem slice_append (a j k : ℕ) :
    slice stream a j ++ slice stream (a + j) k = slice stream a (j + k) := by
  simp only [slice, range_add, map_append, map_map, append_cancel_left_eq]
  refine map_congr_left fun i _ => ?_
  simp only [Function.comp, Nat.add_assoc]

theorem take_slice (a j k : ℕ) : (slice stream a k).take j = slice stream a (min j k) := by
  rw [slice, ← map_take, take_range, slice]

theorem drop_slice (a j k : ℕ) : (slice stream a k).drop j = slice stream (a + j) (k - j) := by
  by_cases le : j ≤ k
  · obtain ⟨l, rfl⟩ := Nat.exists_eq_add_of_le le
    rw [← slice_append, drop_left' (length_slice stream a j), Nat.add_sub_cancel_left]
  · rw [Nat.sub_eq_zero_of_le (Nat.le_of_not_le le)]
    exact drop_of_length_le (by simpa using Nat.le_of_not_le le)

theorem slice_congr {stream' : ℕ → β} {a k : ℕ}
    (agree : ∀ j, a ≤ j → j < a + k → stream j = stream' j) :
    slice stream a k = slice stream' a k := by
  refine map_congr_left fun i hi => agree _ (Nat.le_add_right a i) ?_
  exact Nat.add_lt_add_left (mem_range.mp hi) a

theorem slice_succ (a k : ℕ) : slice stream a (k + 1) = stream a :: slice stream (a + 1) k := by
  rw [Nat.add_comm k 1, ← slice_append]
  rfl

@[simp] theorem slice_zero (a : ℕ) : slice stream a 0 = [] := rfl

/-- The stream with the entries of a list put over it from place `i` on. -/
def patch (i : ℕ) (entries : List β) (j : ℕ) : β :=
  if i ≤ j then (entries[j - i]?).getD (stream j) else stream j

@[simp] theorem patch_nil (i : ℕ) : patch stream i [] = stream := by
  funext j
  simp [patch]

theorem patch_append (i : ℕ) (xs ys : List β) :
    patch (patch stream i xs) (i + xs.length) ys = patch stream i (xs ++ ys) := by
  funext j
  unfold patch
  by_cases before : i ≤ j
  · by_cases first : j - i < xs.length
    · rw [if_neg (by omega), if_pos before, if_pos before, List.getElem?_append_left first]
    · have later : i + xs.length ≤ j := by omega
      rw [if_pos later, if_pos before, if_pos before, List.getElem?_append_right (by omega),
        List.getElem?_eq_none (l := xs) (by omega), Nat.sub_add_eq]
      rfl
  · rw [if_neg (by omega), if_neg before, if_neg before]

theorem slice_patch_self (i : ℕ) (entries : List β) :
    slice (patch stream i entries) i entries.length = entries := by
  apply ext_getElem
  · simp
  · intro j hj hj'
    simp [slice, patch, hj']

theorem slice_patch_apart {a k i : ℕ} {entries : List β}
    (apart : a + k ≤ i ∨ i + entries.length ≤ a) :
    slice (patch stream i entries) a k = slice stream a k := by
  refine slice_congr _ fun j low high => ?_
  unfold patch
  by_cases before : i ≤ j
  · rw [if_pos before, List.getElem?_eq_none (by omega)]
    rfl
  · rw [if_neg before]

end Slice

structure Block (β : Type) where
  start : ℕ
  bytes : List β

namespace Block

def finish (b : Block β) : ℕ := b.start + b.bytes.length

def Holds (b : Block β) (q : ℕ) : Prop := b.start ≤ q ∧ q < b.finish

structure Carries (stream : ℕ → β) (b : Block β) : Prop where
  filled : b.start < b.finish
  bytes : b.bytes = slice stream b.start b.bytes.length

end Block

def Apart (l : List (Block β)) : Prop := l.Pairwise fun a b => a.finish ≤ b.start

def Covers (l : List (Block β)) (q : ℕ) : Prop := ∃ b ∈ l, b.Holds q

def total (l : List (Block β)) : ℕ := (l.map fun b => b.bytes.length).sum

variable {l : List (Block β)} {b : Block β} {q : ℕ}

@[simp] theorem covers_nil : ¬Covers ([] : List (Block β)) q := by
  simp [Covers]

theorem covers_cons : Covers (b :: l) q ↔ b.Holds q ∨ Covers l q := by
  simp [Covers]

theorem covers_perm {l' : List (Block β)} (perm : l.Perm l') : Covers l q ↔ Covers l' q := by
  simp only [Covers, perm.mem_iff]

@[simp] theorem total_nil : total ([] : List (Block β)) = 0 := rfl

theorem total_cons : total (b :: l) = b.bytes.length + total l := by
  simp [total]

theorem total_perm {l' : List (Block β)} (perm : l.Perm l') : total l = total l' :=
  (perm.map _).sum_eq

theorem apart_cons : Apart (b :: l) ↔ (∀ c ∈ l, b.finish ≤ c.start) ∧ Apart l :=
  pairwise_cons

theorem total_le {stream : ℕ → β} {lo hi : ℕ} (apart : Apart l) (carry : ∀ b ∈ l, b.Carries stream)
    (above : ∀ b ∈ l, lo ≤ b.start) (below : ∀ b ∈ l, b.finish ≤ hi) : total l ≤ hi - lo := by
  induction l generalizing lo with
  | nil => exact Nat.zero_le _
  | cons b l ih =>
    obtain ⟨hfirst, hrest⟩ := apart_cons.mp apart
    have hlo := above b (by simp)
    have hhi := below b (by simp)
    have hle := ih hrest (fun c hc => carry c (by simp [hc])) hfirst
      fun c hc => below c (by simp [hc])
    rw [total_cons]
    unfold Block.finish at hhi hle
    omega

def insert (b : Block β) (l : List (Block β)) : List (Block β) :=
  l.takeWhile (fun c => c.start < b.start) ++ b :: l.dropWhile fun c => c.start < b.start

theorem insert_perm (b : Block β) (l : List (Block β)) : (insert b l).Perm (b :: l) := by
  unfold insert
  refine perm_middle.trans ?_
  rw [takeWhile_append_dropWhile]

theorem insert_cons (b c : Block β) (l : List (Block β)) :
    insert b (c :: l) = if c.start < b.start then c :: insert b l else b :: c :: l := by
  unfold insert
  by_cases hlt : c.start < b.start
  · simp [hlt]
  · simp [hlt]

theorem apart_insert {stream : ℕ → β} (apart : Apart l) (carry : ∀ c ∈ l, c.Carries stream)
    (filled : b.Carries stream) (free : ∀ c ∈ l, c.finish ≤ b.start ∨ b.finish ≤ c.start) :
    Apart (insert b l) := by
  induction l with
  | nil => exact pairwise_singleton _ _
  | cons c l ih =>
    obtain ⟨hfirst, hrest⟩ := apart_cons.mp apart
    have hc := (carry c (by simp)).filled
    have hb := filled.filled
    rw [insert_cons]
    by_cases hlt : c.start < b.start
    · have hcb : c.finish ≤ b.start := by
        rcases free c (by simp) with h | h
        · exact h
        · omega
      rw [if_pos hlt, apart_cons]
      refine ⟨fun d hd => ?_, ih hrest (fun d hd => carry d (by simp [hd]))
        fun d hd => free d (by simp [hd])⟩
      rcases mem_cons.mp ((insert_perm b l).mem_iff.mp hd) with rfl | hmem
      · exact hcb
      · exact hfirst d hmem
    · have hbc : b.finish ≤ c.start := by
        rcases free c (by simp) with h | h
        · omega
        · exact h
      rw [if_neg hlt, apart_cons]
      refine ⟨fun d hd => ?_, apart⟩
      rcases mem_cons.mp hd with rfl | hmem
      · exact hbc
      · have hcd := hfirst d hmem
        omega

end Egsr.Lib.Blocks
