import Mathlib.Order.Lattice
import Mathlib.Logic.Equiv.Basic

/-! Binary heaps with the root at position 1: position `i` has the children
`2 * i` and `2 * i + 1`. A heap is a key for each of the positions below `n`.
A sift moves one position out of order along a path; `UpOrder` and `DownOrder`
say what is in order meanwhile. -/

namespace Egsr.Lib.BinaryHeap

open Function

variable {κ : Type*} [LinearOrder κ]

def Ordered (key : ℕ → κ) (n : ℕ) : Prop :=
  ∀ i, 1 < i → i < n → key (i / 2) ≤ key i

/-- Only the pair of `i` and its parent may be out of order. -/
structure UpOrder (key : ℕ → κ) (n i : ℕ) : Prop where
  except : ∀ j, 1 < j → j < n → j ≠ i → key (j / 2) ≤ key j
  grand : 1 < i → ∀ c, c < n → c / 2 = i → key (i / 2) ≤ key c

/-- Only the pairs of `i` and its children may be out of order. -/
structure DownOrder (key : ℕ → κ) (n i : ℕ) : Prop where
  except : ∀ j, 1 < j → j < n → j / 2 ≠ i → key (j / 2) ≤ key j
  grand : 1 < i → ∀ c, c < n → c / 2 = i → key (i / 2) ≤ key c

variable {key key' : ℕ → κ} {n i c : ℕ}

theorem Ordered.mono {m : ℕ} (h : Ordered key n) (le : m ≤ n) : Ordered key m :=
  fun i one hi => h i one (by omega)

theorem Ordered.congr (h : Ordered key n) (same : ∀ i, 0 < i → i < n → key' i = key i) :
    Ordered key' n := by
  intro i one hi
  rw [same i (by omega) hi, same (i / 2) (by omega) (by omega)]
  exact h i one hi

theorem Ordered.root_le (h : Ordered key n) (pos : 0 < i) (lt : i < n) : key 1 ≤ key i := by
  induction i using Nat.strong_induction_on with
  | h i ih =>
    by_cases hi : i = 1
    · rw [hi]
    · exact (ih (i / 2) (by omega) (by omega) (by omega)).trans (h i (by omega) lt)

theorem Ordered.upOrder (h : Ordered key (n - 1)) : UpOrder key n (n - 1) where
  except j one hj ne := h j one (by omega)
  grand one c hc hi := by omega

theorem UpOrder.ordered (h : UpOrder key n i) (stop : 1 < i → key (i / 2) ≤ key i) :
    Ordered key n := by
  intro j one hj
  by_cases hji : j = i
  · rw [hji] at one ⊢
    exact stop one
  · exact h.except j one hj hji

theorem UpOrder.swap (h : UpOrder key n i) (one : 1 < i) (lt : i < n)
    (less : key i < key (i / 2)) : UpOrder (key ∘ Equiv.swap i (i / 2)) n (i / 2) := by
  have hchild : ∀ j, 1 < j → j < n → j / 2 = i / 2 → key (i / 2) ≤ key j ∨ j = i := by
    intro j hj hjn heq
    by_cases hji : j = i
    · exact Or.inr hji
    · exact Or.inl (heq ▸ h.except j hj hjn hji)
  constructor
  · intro j hj hjn hne
    simp only [comp_apply]
    by_cases hji : j = i
    · rw [hji, Equiv.swap_apply_left, Equiv.swap_apply_right]
      exact less.le
    · rw [Equiv.swap_apply_of_ne_of_ne hji hne]
      by_cases hpi : j / 2 = i
      · rw [hpi, Equiv.swap_apply_left]
        exact h.grand one j hjn hpi
      · by_cases hpp : j / 2 = i / 2
        · rw [hpp, Equiv.swap_apply_right]
          exact less.le.trans ((hchild j hj hjn hpp).resolve_right hji)
        · rw [Equiv.swap_apply_of_ne_of_ne hpi hpp]
          exact h.except j hj hjn hji
  · intro hone c hc heq
    simp only [comp_apply]
    have hup : key (i / 2 / 2) ≤ key (i / 2) := h.except (i / 2) hone (by omega) (by omega)
    rw [Equiv.swap_apply_of_ne_of_ne (by omega : i / 2 / 2 ≠ i) (by omega)]
    by_cases hci : c = i
    · rw [hci, Equiv.swap_apply_left]
      exact hup
    · rw [Equiv.swap_apply_of_ne_of_ne hci (by omega)]
      exact hup.trans ((hchild c (by omega) hc heq).resolve_right hci)

theorem DownOrder.congr (h : DownOrder key n i) (same : ∀ j, 0 < j → j < n → key' j = key j) :
    DownOrder key' n i := by
  constructor
  · intro j one hj hne
    rw [same j (by omega) hj, same (j / 2) (by omega) (by omega)]
    exact h.except j one hj hne
  · intro one c hc heq
    rw [same c (by omega) hc, same (i / 2) (by omega) (by omega)]
    exact h.grand one c hc heq

theorem DownOrder.ordered (h : DownOrder key n i)
    (stop : ∀ c, 1 < c → c < n → c / 2 = i → key i ≤ key c) : Ordered key n := by
  intro j one hj
  by_cases hji : j / 2 = i
  · rw [hji]
    exact stop j one hj hji
  · exact h.except j one hj hji

theorem DownOrder.swap (h : DownOrder key n i) (child : c / 2 = i) (lt : c < n)
    (least : ∀ c', c' < n → c' / 2 = i → key c ≤ key c') (le : key c ≤ key i) :
    DownOrder (key ∘ Equiv.swap i c) n c := by
  constructor
  · intro j hj hjn hne
    simp only [comp_apply]
    by_cases hji : j = i
    · rw [hji, Equiv.swap_apply_left,
        Equiv.swap_apply_of_ne_of_ne (by omega : i / 2 ≠ i) (by omega)]
      exact h.grand (by omega) c lt child
    · by_cases hjc : j = c
      · rw [hjc, child, Equiv.swap_apply_left, Equiv.swap_apply_right]
        exact le
      · rw [Equiv.swap_apply_of_ne_of_ne hji hjc]
        by_cases hpi : j / 2 = i
        · rw [hpi, Equiv.swap_apply_left]
          exact least j hjn hpi
        · rw [Equiv.swap_apply_of_ne_of_ne hpi hne]
          exact h.except j hj hjn hpi
  · intro _ d hd heq
    simp only [comp_apply]
    rw [child, Equiv.swap_apply_left, Equiv.swap_apply_of_ne_of_ne (by omega : d ≠ i) (by omega)]
    have hdown := h.except d (by omega) hd (by omega)
    rwa [heq] at hdown

theorem Ordered.downOrder (h : Ordered key n) {x : κ}
    (above : 1 < i → i < n → key (i / 2) ≤ x) : DownOrder (update key i x) n i := by
  constructor
  · intro j one hj hne
    rw [update_of_ne hne]
    by_cases hji : j = i
    · rw [hji, update_self]
      exact above (hji ▸ one) (hji ▸ hj)
    · rw [update_of_ne hji]
      exact h j one hj
  · intro one c hc heq
    rw [update_of_ne (by omega : i / 2 ≠ i), update_of_ne (by omega : c ≠ i)]
    have hi := h i one (by omega)
    have hc' := h c (by omega) hc
    rw [heq] at hc'
    exact hi.trans hc'

end Egsr.Lib.BinaryHeap
