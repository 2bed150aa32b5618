import Mathlib.Data.List.Basic
import Mathlib.Order.Nat

/-! How far lists agree from their front on: two of them, and all lists of a
family. What they have in common at their ends is what the reversed lists have
in common. -/

namespace Egsr.Lib.CommonPrefix

open List

variable {α : Type*} [DecidableEq α]

def agree : List α → List α → ℕ
  | x :: xs, y :: ys => if x = y then agree xs ys + 1 else 0
  | _, _ => 0

def common : List (List α) → ℕ
  | [] => 0
  | [xs] => xs.length
  | xs :: ys :: l => min (agree xs ys) (common (ys :: l))

variable {xs ys : List α} {l : List (List α)} {n i : ℕ}

theorem le_agree_iff : n ≤ agree xs ys ↔ n ≤ xs.length ∧ n ≤ ys.length ∧ xs.take n = ys.take n := by
  induction xs generalizing ys n with
  | nil =>
    rw [agree]
    · constructor
      · intro h
        obtain rfl : n = 0 := by omega
        exact ⟨le_rfl, Nat.zero_le _, rfl⟩
      · exact fun h => h.1
    · exact fun _ _ _ _ h => absurd h (by simp)
  | cons x xs ih =>
    cases ys with
    | nil =>
      rw [agree]
      · constructor
        · intro h
          obtain rfl : n = 0 := by omega
          exact ⟨Nat.zero_le _, le_rfl, rfl⟩
        · exact fun h => h.2.1
      · exact fun _ _ _ _ _ h => absurd h (by simp)
    | cons y ys =>
      rw [agree]
      cases n with
      | zero => simp
      | succ n =>
        rw [take_succ_cons, take_succ_cons, length_cons, length_cons, cons_eq_cons]
        split_ifs with h
        · rw [Nat.succ_le_succ_iff, ih]
          simp [h]
        · simp [h]

theorem agree_le_right : agree xs ys ≤ ys.length := (le_agree_iff.mp le_rfl).2.1

theorem getElem?_of_lt_agree (h : i < agree xs ys) : xs[i]? = ys[i]? := by
  have htake := (le_agree_iff.mp (Nat.succ_le_of_lt h)).2.2
  have hget := congrArg (fun zs => zs[i]?) htake
  simpa only [List.getElem?_take, Nat.lt_succ_self, if_true] using hget

theorem getElem?_agree_ne (hx : agree xs ys < xs.length) (hy : agree xs ys < ys.length) :
    xs[agree xs ys]? ≠ ys[agree xs ys]? := by
  intro heq
  have htake := (le_agree_iff.mp (le_refl (agree xs ys))).2.2
  have hmore : agree xs ys + 1 ≤ agree xs ys := by
    refine le_agree_iff.mpr ⟨hx, hy, ?_⟩
    rw [take_add_one, take_add_one, htake, heq]
  omega

theorem succ_le_agree (h : i ≤ agree xs ys) (hx : i < xs.length) (hy : i < ys.length)
    (heq : xs[i]? = ys[i]?) : i + 1 ≤ agree xs ys := by
  rcases Nat.lt_or_eq_of_le h with hlt | rfl
  · exact hlt
  · exact absurd heq (getElem?_agree_ne hx hy)

theorem eq_of_length_le_agree (h : xs.length ≤ agree xs ys) (same : xs.length = ys.length) :
    xs = ys := by
  have htake := (le_agree_iff.mp h).2.2
  rwa [take_length, same, take_length] at htake

theorem agree_add_agree_reverse_lt (same : xs.length = ys.length) (different : xs ≠ ys) :
    agree xs ys + agree xs.reverse ys.reverse < xs.length := by
  have hlt : agree xs ys < xs.length := by
    by_contra hle
    exact different (eq_of_length_le_agree (Nat.le_of_not_lt hle) same)
  by_contra hle
  have hne := getElem?_agree_ne hlt (same ▸ hlt)
  have hback :=
    @getElem?_of_lt_agree _ _ xs.reverse ys.reverse (xs.length - 1 - agree xs ys) (by omega)
  rw [List.getElem?_reverse (by omega), List.getElem?_reverse (by omega), ← same,
    show xs.length - 1 - (xs.length - 1 - agree xs ys) = agree xs ys by omega] at hback
  exact hne hback

theorem le_common_iff (nonempty : l ≠ []) :
    n ≤ common l ↔ (∀ xs ∈ l, n ≤ xs.length) ∧ ∀ xs ∈ l, ∀ ys ∈ l, xs.take n = ys.take n := by
  induction l with
  | nil => exact absurd rfl nonempty
  | cons xs l ih =>
    cases l with
    | nil => simp [common]
    | cons ys l =>
      rw [common, Nat.le_min, le_agree_iff, ih (by simp)]
      constructor
      · rintro ⟨⟨hx, hy, htake⟩, hlen, hall⟩
        have hfirst : ∀ zs ∈ xs :: ys :: l, zs.take n = ys.take n := by
          intro zs hzs
          rcases mem_cons.mp hzs with rfl | hmem
          · exact htake
          · exact hall zs hmem ys (by simp)
        refine ⟨fun zs hzs => ?_, fun zs hzs ws hws => (hfirst zs hzs).trans (hfirst ws hws).symm⟩
        rcases mem_cons.mp hzs with rfl | hmem
        · exact hx
        · exact hlen zs hmem
      · rintro ⟨hlen, hall⟩
        exact ⟨⟨hlen xs (by simp), hlen ys (by simp), hall xs (by simp) ys (by simp)⟩,
          fun zs hzs => hlen zs (by simp [hzs]),
          fun zs hzs ws hws => hall zs (by simp [hzs]) ws (by simp [hws])⟩

theorem common_le (mem : xs ∈ l) : common l ≤ xs.length :=
  ((le_common_iff (ne_nil_of_mem mem)).mp le_rfl).1 xs mem

theorem take_common (hx : xs ∈ l) (hy : ys ∈ l) (hn : n ≤ common l) : xs.take n = ys.take n :=
  ((le_common_iff (ne_nil_of_mem hx)).mp hn).2 xs hx ys hy

theorem common_congr {l' : List (List α)} (same : ∀ xs, xs ∈ l ↔ xs ∈ l') : common l =
    common l' := by
  cases l with
  | nil =>
    have hnil : l' = [] := eq_nil_iff_forall_not_mem.mpr fun xs hxs => by
      simpa using (same xs).mpr hxs
    rw [hnil]
  | cons xs l =>
    have hne : l' ≠ [] := ne_nil_of_mem ((same xs).mp (by simp))
    refine eq_of_forall_le_iff fun n => ?_
    rw [le_common_iff (by simp), le_common_iff hne]
    simp only [same]

theorem common_append (l : List (List α)) (xs ys : List α) :
    common (l ++ [xs, ys]) = min (common (l ++ [xs])) (agree xs ys) := by
  refine eq_of_forall_le_iff fun n => ?_
  rw [Nat.le_min, le_common_iff (by simp), le_common_iff (by simp), le_agree_iff]
  constructor
  · rintro ⟨hlen, hall⟩
    refine ⟨⟨fun zs hzs => hlen zs ?_, fun zs hzs ws hws => hall zs ?_ ws ?_⟩, hlen xs (by simp),
      hlen ys (by simp), hall xs (by simp) ys (by simp)⟩
    · rw [mem_append] at hzs ⊢
      exact hzs.imp_right fun h => by simp [mem_singleton.mp h]
    · rw [mem_append] at hzs ⊢
      exact hzs.imp_right fun h => by simp [mem_singleton.mp h]
    · rw [mem_append] at hws ⊢
      exact hws.imp_right fun h => by simp [mem_singleton.mp h]
  · rintro ⟨⟨hlen, hall⟩, -, hy, htake⟩
    have hcases : ∀ zs ∈ l ++ [xs, ys], zs ∈ l ++ [xs] ∨ zs = ys := by
      intro zs hzs
      simp only [mem_append, mem_cons, not_mem_nil, or_false] at hzs ⊢
      tauto
    have hsame : ∀ zs ∈ l ++ [xs, ys], zs.take n = xs.take n := by
      intro zs hzs
      rcases hcases zs hzs with hmem | rfl
      · exact hall zs hmem xs (by simp)
      · exact htake.symm
    refine ⟨fun zs hzs => ?_, fun zs hzs ws hws => (hsame zs hzs).trans (hsame ws hws).symm⟩
    rcases hcases zs hzs with hmem | rfl
    · exact hlen zs hmem
    · exact hy

end Egsr.Lib.CommonPrefix
