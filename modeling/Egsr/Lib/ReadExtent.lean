import Egsr.Lib.Bytes

/-! How far a reader reads. On given bytes it needs the first `need` of them, ends `used` bytes on
and gives a value with `post`; the same for all bytes that begin alike, and nothing where they are
too few. -/

namespace Egsr.Lib.ReadExtent

open Lib.Bytes List

variable {β γ : Type}

structure Takes (r : Reader β) (bs : List UInt8) (need used : ℕ) (post : β → Prop) : Prop where
  used_le : used ≤ need
  short : bs.length < need → r.run bs = none
  enough : need ≤ bs.length → ∃ a, post a ∧
    ∀ other, other.take need = bs.take need → r.run other = some (a, other.drop used)

variable {r : Reader β} {f : β → Reader γ} {bs : List UInt8} {need used need' used' : ℕ}
  {post post' : β → Prop} {result : γ → Prop}

theorem Takes.weaken (h : Takes r bs need used post) (imp : ∀ a, post a → post' a) :
    Takes r bs need used post' where
  used_le := h.used_le
  short := h.short
  enough long := by
    obtain ⟨a, ha, reads⟩ := h.enough long
    exact ⟨a, imp a ha, reads⟩

theorem Takes.cast (h : Takes r bs need used post) (hneed : need = need') (hused : used = used') :
    Takes r bs need' used' post := by
  subst hneed hused
  exact h

theorem takes_pure (a : β) (bs : List UInt8) : Takes (pure a : Reader β) bs 0 0
    (fun b => b = a) where
  used_le := le_rfl
  short h := absurd h (Nat.not_lt_zero _)
  enough _ := ⟨a, rfl, fun _ _ => rfl⟩

theorem takes_takeBytes (k : ℕ) (bs : List UInt8) : Takes (takeBytes k) bs k k
    (fun a => a = bs.take k) where
  used_le := le_rfl
  short h := if_neg (not_le.mpr h)
  enough long := by
    refine ⟨bs.take k, rfl, fun other same => ?_⟩
    have size : k ≤ other.length := by
      have := congrArg List.length same
      simp only [length_take] at this
      omega
    exact (if_pos size).trans (by rw [same])

theorem Takes.bind (first : Takes r bs need used post)
    (second : ∀ a, post a → Takes (f a) (bs.drop used) need' used' result) (after : used' ≤ need') :
    Takes (r >>= f) bs (max need (used + need')) (used + used') result where
  used_le := (Nat.add_le_add_left after used).trans (le_max_right _ _)
  short few := by
    rw [StateT.run_bind]
    by_cases enough : need ≤ bs.length
    · obtain ⟨a, ha, reads⟩ := first.enough enough
      have := first.used_le
      have rest : (bs.drop used).length < need' := by
        rw [length_drop]
        omega
      rw [reads bs rfl]
      exact (second a ha).short rest
    · rw [first.short (not_le.mp enough)]
      rfl
  enough long := by
    have := first.used_le
    obtain ⟨a, ha, reads⟩ := first.enough (by omega)
    have rest : need' ≤ (bs.drop used).length := by
      rw [length_drop]
      omega
    obtain ⟨b, hb, reads'⟩ := (second a ha).enough rest
    refine ⟨b, hb, fun other same => ?_⟩
    have first_same : other.take need = bs.take need := by
      have := congrArg (List.take need) same
      rwa [take_take, take_take, min_eq_left (le_max_left _ _)] at this
    have second_same : (other.drop used).take need' = (bs.drop used).take need' := by
      have := congrArg (fun l => (l.drop used).take need') same
      have le : need' ≤ max need (used + need') - used := by omega
      simpa only [drop_take, take_take, min_eq_left le] using this
    rw [StateT.run_bind, reads other first_same]
    change (f a).run (other.drop used) = _
    rw [reads' _ second_same, drop_drop]

theorem Takes.seq (first : Takes r bs need need post)
    (second : ∀ a, post a → Takes (f a) (bs.drop need) need' need' result) :
    Takes (r >>= f) bs (need + need') (need + need') result :=
  (first.bind second le_rfl).cast (max_eq_right (Nat.le_add_right _ _)) rfl

theorem Takes.lead (first : Takes r bs need need post)
    (second : ∀ a, post a → Takes (f a) (bs.drop need) need' used' result) (after : used' ≤ need') :
    Takes (r >>= f) bs (need + need') (need + used') result :=
  (first.bind second after).cast (max_eq_right (Nat.le_add_right _ _)) rfl

theorem takes_lift {o : Option β} {a : β} (h : o = some a) (bs : List UInt8) :
    Takes (StateT.lift o : Reader β) bs 0 0 (fun b => b = a) := by
  subst h
  exact takes_pure a bs

theorem Takes.map (h : Takes r bs need used post) (g : β → γ) (imp : ∀ a, post a → result (g a)) :
    Takes (g <$> r) bs need used result where
  used_le := h.used_le
  short few := by
    rw [StateT.run_map, h.short few]
    rfl
  enough long := by
    obtain ⟨a, ha, reads⟩ := h.enough long
    refine ⟨g a, imp a ha, fun other same => ?_⟩
    rw [StateT.run_map, reads other same]
    rfl

theorem takes_readMany {size : ℕ} (one : ∀ bs, Takes r bs size size fun _ => True) (k : ℕ)
    (bs : List UInt8) :
    Takes (readMany r k) bs (size * k) (size * k) (fun xs => xs.length = k) := by
  induction k generalizing bs with
  | zero => exact (takes_pure [] bs).weaken fun xs hxs => by rw [hxs, length_nil]
  | succ k ih =>
    rw [readMany]
    have rest : ∀ x,
      Takes (readMany r k >>= fun xs => pure (x :: xs)) (bs.drop size) (size * k) (size * k)
        (fun xs => xs.length = k + 1) := by
      intro x
      rw [bind_pure_comp]
      exact (ih (bs.drop size)).map _ fun xs hxs => by rw [length_cons, hxs]
    rw [Nat.mul_succ, Nat.add_comm]
    exact (one bs).seq fun x _ => rest x

def Confined (r : Reader β) (bs : List UInt8) (n : ℕ) : Prop :=
  ∀ other, other.take n = bs.take n → (r.run other).map Prod.fst = (r.run bs).map Prod.fst

theorem eq_of_take_eq {n : ℕ} {other : List UInt8} (few : bs.length < n)
    (same : other.take n = bs.take n) : other = bs := by
  have size := congrArg List.length same
  rw [length_take, length_take] at size
  rwa [take_of_length_le (by omega), take_of_length_le (by omega)] at same

theorem Takes.confined (h : Takes r bs need used post) {n : ℕ} (fits : need ≤ n) :
    Confined r bs n := by
  intro other same
  by_cases enough : need ≤ bs.length
  · obtain ⟨a, -, reads⟩ := h.enough enough
    have same' := congrArg (List.take need) same
    rw [take_take, take_take, min_eq_left fits] at same'
    rw [reads other same', reads bs rfl]
    rfl
  · rw [eq_of_take_eq (by omega) same]

end Egsr.Lib.ReadExtent
