import Mathlib.Data.List.Basic
import Mathlib.Tactic.Ring

/-! Little-endian numbers in byte strings, bytes written over a buffer, and
readers that consume a byte string from the front. `Reads r bs a` says that `r`
consumes exactly `bs`, whatever follows, and gives `a`; it composes along
`pure`, `bind` and counted repetition, so that a format is read back by the
same steps that wrote it. -/

namespace Egsr.Lib.Bytes

open List

def le : (w n : ℕ) → List UInt8
  | 0, _ => []
  | w + 1, n => UInt8.ofNat n :: le w (n / 256)

def fromLe : List UInt8 → ℕ
  | [] => 0
  | b :: bs => b.toNat + 256 * fromLe bs

@[simp] theorem length_le (w n : ℕ) : (le w n).length = w := by
  induction w generalizing n with
  | zero => rfl
  | succ w ih => simp [le, ih]

theorem fromLe_le (w n : ℕ) : fromLe (le w n) = n % 256 ^ w := by
  induction w generalizing n with
  | zero => simp [le, fromLe, Nat.mod_one]
  | succ w ih =>
    rw [le, fromLe, ih, pow_succ', Nat.mod_mul]
    simp

theorem fromLe_lt (bs : List UInt8) : fromLe bs < 256 ^ bs.length := by
  induction bs with
  | nil => simp [fromLe]
  | cons b bs ih =>
    have hb := b.toNat_lt
    rw [fromLe, length_cons, pow_succ]
    omega

theorem le_fromLe (bs : List UInt8) : le bs.length (fromLe bs) = bs := by
  induction bs with
  | nil => rfl
  | cons b bs ih =>
    have hb := b.toNat_lt
    have hdiv : (b.toNat + 256 * fromLe bs) / 256 = fromLe bs := by omega
    have hlow : UInt8.ofNat (b.toNat + 256 * fromLe bs) = b := by
      apply UInt8.toNat_inj.mp
      rw [UInt8.toNat_ofNat']
      omega
    rw [length_cons, fromLe, le, hdiv, ih, hlow]

def overwrite (buf : List UInt8) (pos : ℕ) (bs : List UInt8) : List UInt8 :=
  buf.take pos ++ bs ++ buf.drop (pos + bs.length)

variable {bs buf : List UInt8}

theorem take_overwrite {pos : ℕ} (fits : pos ≤ buf.length) :
    (overwrite buf pos bs).take pos = buf.take pos := by
  rw [overwrite, append_assoc, take_append_of_le_length (by simp [fits]), take_take, Nat.min_self]

theorem drop_overwrite {pos : ℕ} (fits : pos ≤ buf.length) :
    (overwrite buf pos bs).drop pos = bs ++ buf.drop (pos + bs.length) := by
  have hlen : (buf.take pos).length = pos := by simp [fits]
  rw [overwrite, append_assoc, drop_append_of_le_length (by omega),
    drop_eq_nil_of_le (by omega), nil_append]

theorem overwrite_overwrite {cs : List UInt8} {pos : ℕ} (fits : pos ≤ buf.length) :
    overwrite (overwrite buf pos bs) (pos + bs.length) cs = overwrite buf pos (bs ++ cs) := by
  have hlen : (buf.take pos ++ bs).length = pos + bs.length := by simp [fits]
  have hhead : (overwrite buf pos bs).take (pos + bs.length) = buf.take pos ++ bs := by
    rw [overwrite, take_append_of_le_length (by omega), take_of_length_le (by omega)]
  have htail : (overwrite buf pos bs).drop (pos + bs.length + cs.length) =
      buf.drop (pos + (bs ++ cs).length) := by
    rw [overwrite, drop_append, drop_eq_nil_of_le (by omega), nil_append,
      drop_drop, hlen, length_append]
    congr 1
    omega
  rw [overwrite, hhead, htail, overwrite, append_assoc (buf.take pos)]

theorem overwrite_append {front : List UInt8} {pos : ℕ} (behind : front.length ≤ pos) :
    overwrite (front ++ buf) pos bs = front ++ overwrite buf (pos - front.length) bs := by
  rw [overwrite, overwrite, take_append, drop_append, take_of_length_le behind,
    drop_eq_nil_of_le (by omega), nil_append, Nat.sub_add_comm behind, append_assoc,
    append_assoc, append_assoc]

theorem overwrite_same {cs : List UInt8} {pos : ℕ} (fits : pos ≤ buf.length) :
    overwrite (overwrite buf pos bs) pos cs = overwrite buf pos (cs ++ bs.drop cs.length) := by
  have htail : (overwrite buf pos bs).drop (pos + cs.length) =
      bs.drop cs.length ++ buf.drop (pos + (cs ++ bs.drop cs.length).length) := by
    rw [← drop_drop, drop_overwrite fits, drop_append, drop_drop, length_append, length_drop]
    congr 2
    omega
  conv_lhs => rw [overwrite, take_overwrite fits, htail]
  rw [overwrite, append_assoc, append_assoc, append_assoc]

/-! ## Readers -/

abbrev Reader := StateT (List UInt8) Option

def takeBytes (k : ℕ) : Reader (List UInt8) := fun bs =>
  if k ≤ bs.length then some (bs.take k, bs.drop k) else none

def readMany {β : Type} (r : Reader β) : ℕ → Reader (List β)
  | 0 => pure []
  | k + 1 => do
    let x ← r
    let xs ← readMany r k
    pure (x :: xs)

/-- `r` consumes exactly `bs` and gives `a`, whatever follows. -/
def Reads {β : Type} (r : Reader β) (bs : List UInt8) (a : β) : Prop :=
  ∀ rest, r.run (bs ++ rest) = some (a, rest)

variable {β γ : Type}

theorem reads_pure (a : β) : Reads (pure a : Reader β) [] a := fun _ => rfl

variable {r : Reader β}

theorem Reads.bind {f : β → Reader γ} {cs : List UInt8} {a : β} {b : γ}
    (first : Reads r bs a) (second : Reads (f a) cs b) : Reads (r >>= f) (bs ++ cs) b := by
  intro rest
  rw [StateT.run_bind, append_assoc, first]
  exact second rest

theorem Reads.bind_pure {a : β} (h : Reads r bs a) (f : β → γ) :
    Reads (r >>= fun x => pure (f x)) bs (f a) := by
  rw [← append_nil bs]
  exact h.bind (reads_pure _)

theorem Reads.map {a : β} (f : β → γ) (h : Reads r bs a) : Reads (f <$> r) bs (f a) := by
  intro rest
  rw [StateT.run_map, h]
  rfl

theorem Reads.run_bind {a : β} (h : Reads r bs a)
    (f : β → Reader γ) (rest : List UInt8) : (r >>= f).run (bs ++ rest) = (f a).run rest := by
  rw [StateT.run_bind, h]
  rfl

theorem run_bind_inv {f : β → Reader γ} {rest : List UInt8} {b : γ}
    (h : (r >>= f).run bs = some (b, rest)) :
    ∃ a mid, r.run bs = some (a, mid) ∧ (f a).run mid = some (b, rest) := by
  rw [StateT.run_bind] at h
  obtain ⟨⟨a, mid⟩, hr, hf⟩ := Option.bind_eq_some_iff.mp h
  exact ⟨a, mid, hr, hf⟩

theorem run_pure_inv {a b : β} {rest : List UInt8}
    (h : (pure a : Reader β).run bs = some (b, rest)) : b = a := by
  rw [StateT.run_pure] at h
  cases h
  rfl

theorem Reads.unique {a b : β} (ha : Reads r bs a) (hb : Reads r bs b) : a = b := by
  have h := (ha []).symm.trans (hb [])
  cases h
  rfl

theorem reads_takeBytes (bs : List UInt8) : Reads (takeBytes bs.length) bs bs := by
  intro rest
  simp [takeBytes, StateT.run]

abbrev Block (k : ℕ) : Type := {bs : List UInt8 // bs.length = k}

def takeBlock (k : ℕ) : Reader (Block k) := fun bs =>
  if h : k ≤ bs.length then some (⟨bs.take k, length_take_of_le h⟩, bs.drop k) else none

theorem reads_takeBlock {k : ℕ} (b : Block k) : Reads (takeBlock k) b.1 b := by
  obtain ⟨bs, rfl⟩ := b
  intro rest
  change takeBlock bs.length (bs ++ rest) = _
  rw [takeBlock, dif_pos (by rw [length_append]; omega)]
  simp only [take_left, drop_left]

theorem reads_many_of_mem {enc : β → List UInt8} {xs : List β} (one : ∀ x ∈ xs, Reads r (enc x) x) :
    Reads (readMany r xs.length) (xs.flatMap enc) xs := by
  induction xs with
  | nil => exact reads_pure []
  | cons x xs ih =>
    rw [length_cons, readMany, flatMap_cons]
    refine (one x (by simp)).bind ?_
    rw [← append_nil (xs.flatMap enc)]
    exact (ih fun y hy => one y (by simp [hy])).bind (reads_pure _)

theorem reads_many {enc : β → List UInt8} (one : ∀ x, Reads r (enc x) x)
    (xs : List β) : Reads (readMany r xs.length) (xs.flatMap enc) xs :=
  reads_many_of_mem fun x _ => one x

theorem length_readMany {k : ℕ} {rest : List UInt8} {xs : List β}
    (h : (readMany r k).run bs = some (xs, rest)) : xs.length = k := by
  induction k generalizing bs rest xs with
  | zero => rw [run_pure_inv h, length_nil]
  | succ k ih =>
    obtain ⟨x, mid, -, h⟩ := run_bind_inv h
    obtain ⟨ys, mid', hys, h⟩ := run_bind_inv h
    rw [run_pure_inv h, length_cons, ih hys]

end Egsr.Lib.Bytes
