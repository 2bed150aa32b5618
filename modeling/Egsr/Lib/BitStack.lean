import Mathlib.Algebra.BigOperators.Group.List.Basic
import Mathlib.Tactic.Ring

/-! Fields of bits one above the other in a number, and the number in words of a fixed
size. A field that is pushed does not change those below it, so that it is found where
it was put. -/

namespace Egsr.Lib.BitStack

open List

def field (n position width : ℕ) : ℕ := n / 2 ^ position % 2 ^ width

section Field

variable {n v p q w b r s t : ℕ}

theorem field_lt (n p w : ℕ) : field n p w < 2 ^ w := Nat.mod_lt _ (Nat.two_pow_pos w)

theorem field_field (h : q + v ≤ w) : field (field n p w) q v = field n (p + q) v := by
  have split : 2 ^ w = 2 ^ q * 2 ^ (w - q) := by rw [← pow_add, Nat.add_sub_cancel' (by omega)]
  rw [field, field, field, split, Nat.mod_mul_right_div_self, Nat.div_div_eq_div_mul, ← pow_add]
  exact Nat.mod_mod_of_dvd _ (Nat.pow_dvd_pow 2 (by omega))

theorem field_append (n p v w : ℕ) : field n p (v + w) =
    field n (p + v) w * 2 ^ v + field n p v := by
  rw [field, field, field, pow_add 2 v w, Nat.mod_mul, Nat.div_div_eq_div_mul, ← pow_add,
    Nat.add_comm, Nat.mul_comm]

theorem field_below (n v : ℕ) (h : p + w ≤ t) : field (n + v * 2 ^ t) p w = field n p w := by
  have split : v * 2 ^ t = 2 ^ p * (2 ^ w * (v * 2 ^ (t - (p + w)))) := by
    calc v * 2 ^ t = v * 2 ^ (p + w + (t - (p + w))) := by rw [Nat.add_sub_cancel' h]
      _ = _ := by ring
  rw [field, split, Nat.add_mul_div_left _ _ (Nat.two_pow_pos p), Nat.add_mul_mod_self_left, field]

theorem field_above (h : p ≤ t) : field (n + v * 2 ^ t) p w =
    (n / 2 ^ p + v * 2 ^ (t - p)) % 2 ^ w := by
  have split : v * 2 ^ t = 2 ^ p * (v * 2 ^ (t - p)) := by
    calc v * 2 ^ t = v * 2 ^ (p + (t - p)) := by rw [Nat.add_sub_cancel' h]
      _ = _ := by ring
  rw [field, split, Nat.add_mul_div_left _ _ (Nat.two_pow_pos p)]

theorem shifts_cut (x : ℕ) (hw : w ≤ r) (hr : r ≤ b) : x * 2 ^ (b - r) % 2 ^ b / 2 ^ (b - w) =
    field x (r - w) w := by
  have word : 2 ^ b = 2 ^ r * 2 ^ (b - r) := by rw [← pow_add, Nat.add_sub_cancel' hr]
  have shift : 2 ^ (b - w) = 2 ^ (b - r) * 2 ^ (r - w) := by
    rw [← pow_add, show b - r + (r - w) = b - w by omega]
  have low : 2 ^ r = 2 ^ (r - w) * 2 ^ w := by rw [← pow_add, Nat.sub_add_cancel hw]
  rw [word, Nat.mul_mod_mul_right, shift, ← Nat.div_div_eq_div_mul,
    Nat.mul_div_cancel _ (Nat.two_pow_pos _), low, Nat.mod_mul_right_div_self, field]

theorem shifts_keep (x : ℕ) (hr : r ≤ w) (hw : w ≤ b) :
    x * 2 ^ (b - r) % 2 ^ b / 2 ^ (b - w) = field x 0 r * 2 ^ (w - r) := by
  have word : 2 ^ b = 2 ^ r * 2 ^ (b - r) := by rw [← pow_add, Nat.add_sub_cancel' (hr.trans hw)]
  have shift : 2 ^ (b - r) = 2 ^ (w - r) * 2 ^ (b - w) := by
    rw [← pow_add, show w - r + (b - w) = b - r by omega]
  rw [word, Nat.mul_mod_mul_right, shift, ← Nat.mul_assoc, Nat.mul_div_cancel _ (Nat.two_pow_pos _),
    field, pow_zero, Nat.div_one]

theorem join_mod (v : ℕ) (hn : n < 2 ^ r) (hr : r ≤ b) :
    (n + v * 2 ^ r) % 2 ^ b = v * 2 ^ r % 2 ^ b + n := by
  have word : 2 ^ b = 2 ^ (b - r) * 2 ^ r := by rw [← pow_add, Nat.sub_add_cancel hr]
  have room : v % 2 ^ (b - r) * 2 ^ r + 2 ^ r ≤ 2 ^ (b - r) * 2 ^ r := by
    rw [← Nat.succ_mul]
    exact Nat.mul_le_mul_right _ (Nat.mod_lt v (Nat.two_pow_pos _))
  rw [word, Nat.add_mod, Nat.mul_mod_mul_right, Nat.mod_eq_of_lt (a := n), Nat.mod_eq_of_lt,
    Nat.add_comm] <;> omega

theorem join_div (v : ℕ) (hn : n < 2 ^ r) (hr : r ≤ b) :
    (n + v * 2 ^ r) / 2 ^ b = v / 2 ^ (b - r) := by
  have word : 2 ^ b = 2 ^ r * 2 ^ (b - r) := by rw [← pow_add, Nat.add_sub_cancel' hr]
  rw [word, ← Nat.div_div_eq_div_mul, Nat.add_mul_div_right _ _ (Nat.two_pow_pos r),
    Nat.div_eq_of_lt hn, Nat.zero_add]

end Field

/-- The number of fields, each given with its width, the first at the bottom. -/
def pack : List (ℕ × ℕ) → ℕ
  | [] => 0
  | (value, width) :: fields => value + 2 ^ width * pack fields

def height (fields : List (ℕ × ℕ)) : ℕ := (fields.map Prod.snd).sum

def Fits (field : ℕ × ℕ) : Prop := field.1 < 2 ^ field.2

section Pack

variable {fields above : List (ℕ × ℕ)} {f : ℕ × ℕ}

@[simp] theorem height_nil : height [] = 0 := rfl

@[simp] theorem height_cons (f : ℕ × ℕ) (fields : List (ℕ × ℕ)) : height (f :: fields) =
    f.2 + height fields :=
  sum_cons

@[simp] theorem height_append (fields above : List (ℕ × ℕ)) : height (fields ++ above) =
    height fields + height above := by
  rw [height, map_append, sum_append, height, height]

theorem pack_append (fields above : List (ℕ × ℕ)) :
    pack (fields ++ above) = pack fields + pack above * 2 ^ height fields := by
  induction fields with
  | nil => simp [pack]
  | cons f fields ih =>
    obtain ⟨v, w⟩ := f
    rw [cons_append, pack, ih, pack, height_cons, pow_add]
    ring

theorem pack_lt (h : ∀ f ∈ fields, Fits f) : pack fields < 2 ^ height fields := by
  induction fields with
  | nil => exact Nat.one_pos
  | cons f fields ih =>
    obtain ⟨v, w⟩ := f
    have low : v < 2 ^ w := h _ mem_cons_self
    have rest := ih fun g hg => h g (mem_cons_of_mem _ hg)
    rw [pack, height_cons, pow_add]
    calc
      v + 2 ^ w * pack fields < 2 ^ w * (pack fields + 1) := by rw [Nat.mul_add, Nat.mul_one]; omega
      _ ≤ 2 ^ w * 2 ^ height fields := Nat.mul_le_mul_left _ rest

theorem pack_concat (fields : List (ℕ × ℕ)) (f : ℕ × ℕ) : pack (fields ++ [f]) =
    pack fields + f.1 * 2 ^ height fields := by
  rw [pack_append, pack, pack, Nat.mul_zero, Nat.add_zero]

theorem field_pack (h : ∀ g ∈ fields, Fits g) (hf : Fits f) :
    field (pack (fields ++ f :: above)) (height fields) f.2 = f.1 := by
  have low := pack_lt h
  rw [pack_append, field_above le_rfl, Nat.sub_self, pow_zero, Nat.mul_one, Nat.div_eq_of_lt low,
    Nat.zero_add]
  rw [pack, Nat.add_mul_mod_self_left, Nat.mod_eq_of_lt hf]

end Pack

end Egsr.Lib.BitStack
