import Mathlib.Data.List.Basic
import Mathlib.Data.Nat.ModEq

/-! A ring of entries with a head. Entries count from the head on; what lies
outside the ring reads as a blank. -/

namespace Egsr.Lib.RingBuffer

open List

variable {α : Type*} (blank : α)

def entry (ring : List α) (head i : ℕ) : α := ring.getD ((head + i) % ring.length) blank

def write (ring : List α) (head i : ℕ) (a : α) : List α := ring.set ((head + i) % ring.length) a

def drop (ring : List α) (head : ℕ) : List α := ring.set head blank

variable {blank} {ring : List α} {head i j : ℕ} {a : α}

@[simp] theorem length_write : (write ring head i a).length = ring.length := length_set

@[simp] theorem length_drop : (drop blank ring head).length = ring.length := length_set

theorem place_inj (head : ℕ) (hi : i < ring.length) (hj : j < ring.length) :
    (head + i) % ring.length = (head + j) % ring.length ↔ i = j := by
  refine ⟨fun h => ?_, congrArg fun k => (head + k) % ring.length⟩
  have := Nat.ModEq.add_left_cancel' head h
  rwa [Nat.ModEq, Nat.mod_eq_of_lt hi, Nat.mod_eq_of_lt hj] at this

theorem entry_write (hi : i < ring.length) (hj : j < ring.length) :
    entry blank (write ring head i a) head j = if i = j then a else entry blank ring head j := by
  have hplace : (head + j) % ring.length < ring.length := Nat.mod_lt _ (by omega)
  rw [entry, entry, length_write, write, getD_eq_getElem?_getD, List.getElem?_set,
    getD_eq_getElem?_getD]
  by_cases heq : i = j
  · subst heq
    rw [if_pos rfl, if_pos rfl, if_pos hplace]
    rfl
  · rw [if_neg heq, if_neg ((place_inj head hi hj).not.mpr heq)]

theorem entry_drop (blank : α) (hhead : head < ring.length) (hi : i < ring.length) :
    entry blank (drop blank ring head) ((head + 1) % ring.length) i =
      if i + 1 < ring.length then entry blank ring head (i + 1) else blank := by
  have hplace : ((head + 1) % ring.length + i) % ring.length = (head + (i + 1)) % ring.length := by
    rw [Nat.mod_add_mod, Nat.add_assoc, Nat.add_comm 1]
  rw [entry, length_drop, hplace, drop, getD_eq_getElem?_getD, List.getElem?_set]
  by_cases hlt : i + 1 < ring.length
  · have hne : head ≠ (head + (i + 1)) % ring.length := by
      have := (place_inj head (i := 0) (by omega) hlt).not.mpr (by omega)
      rwa [Nat.add_zero, Nat.mod_eq_of_lt hhead] at this
    rw [if_neg hne, if_pos hlt, entry, getD_eq_getElem?_getD]
  · have heq : head = (head + (i + 1)) % ring.length := by
      rw [show i + 1 = ring.length by omega, Nat.add_mod_right, Nat.mod_eq_of_lt hhead]
    rw [if_pos heq, if_pos hhead, if_neg hlt]
    rfl

end Egsr.Lib.RingBuffer
