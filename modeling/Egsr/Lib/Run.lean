import Mathlib.Data.List.Basic

/-! Runs of a fallible step function. An action either gives the next state or
a fault, and the first fault ends the run. A guard is a condition on the state
before an action and on the action; `Along` says that every action of a run
meets it. Invariants and absence of faults need be checked on one step only. -/

namespace Egsr.Lib.Run

variable {σ α ε : Type*} (step : σ → α → Except ε σ)

def exec : σ → List α → Except ε σ
  | s, [] => .ok s
  | s, a :: as =>
    match step s a with
    | .ok s' => exec s' as
    | .error e => .error e

/-- Every action of the run meets the guard in the state it is performed in. -/
def Along (guard : σ → α → Prop) : σ → List α → Prop
  | _, [] => True
  | s, a :: as => guard s a ∧ ∀ s', step s a = .ok s' → Along guard s' as

variable {step}

@[simp] theorem exec_nil (s : σ) : exec step s [] = .ok s := rfl

variable {s : σ}

theorem exec_cons_ok {s' : σ} {a : α} (h : step s a = .ok s') (as : List α) :
    exec step s (a :: as) = exec step s' as := by
  simp only [exec, h]

theorem exec_cons_error {a : α} {e : ε} (h : step s a = .error e) (as : List α) :
    exec step s (a :: as) = .error e := by
  simp only [exec, h]

variable {as : List α}

theorem exec_cons_inv {s' : σ} {a : α} (h : exec step s (a :: as) = .ok s') :
    ∃ t, step s a = .ok t ∧ exec step t as = .ok s' := by
  cases hs : step s a with
  | ok t => exact ⟨t, rfl, by rwa [exec_cons_ok hs] at h⟩
  | error e => rw [exec_cons_error hs] at h; cases h

theorem exec_append {t : σ} (h : exec step s as = .ok t) (bs : List α) :
    exec step s (as ++ bs) = exec step t bs := by
  induction as generalizing s with
  | nil =>
    obtain rfl : s = t := by simpa using h
    rfl
  | cons a as ih =>
    obtain ⟨u, hu, hrest⟩ := exec_cons_inv h
    rw [List.cons_append, exec_cons_ok hu, ih hrest]

variable {guard : σ → α → Prop} {Inv : σ → Prop}

theorem along_cons_ok {t : σ} {a : α} (h : step s a = .ok t) :
    Along step guard s (a :: as) ↔ guard s a ∧ Along step guard t as := by
  refine and_congr_right fun _ => ⟨fun rest => rest t h, fun rest s' hs' => ?_⟩
  obtain rfl : t = s' := by simpa [h] using hs'
  exact rest

theorem along_cons_error {a : α} {e : ε} (h : step s a = .error e) :
    Along step guard s (a :: as) ↔ guard s a :=
  and_iff_left fun s' hs' => by simp [h] at hs'

/-- Whether a run is guarded can be found out by running it. -/
instance decidableAlong [∀ s a, Decidable (guard s a)] :
    ∀ (s : σ) (as : List α), Decidable (Along step guard s as)
  | _, [] => isTrue trivial
  | s, a :: as =>
    match h : step s a with
    | .ok t =>
      haveI := decidableAlong t as
      decidable_of_iff _ (along_cons_ok h).symm
    | .error _ => decidable_of_iff _ (along_cons_error h).symm

theorem along_replicate {state : ℕ → σ} {a : α} (next : ∀ k, step (state k) a = .ok (state (k + 1)))
    (j n : ℕ) :
    Along step guard (state j) (List.replicate n a) ↔ ∀ i < n, guard (state (j + i)) a := by
  induction n generalizing j with
  | zero => exact iff_of_true trivial fun i hi => absurd hi (Nat.not_lt_zero i)
  | succ n ih =>
    rw [List.replicate_succ, along_cons_ok (next j), ih, Nat.forall_lt_succ_left']
    simp only [Nat.add_zero, Nat.add_assoc, Nat.add_comm 1]

variable {guard' : σ → α → Prop}

theorem Along.mono (imp : ∀ s a, guard s a → guard' s a)
    (h : Along step guard s as) : Along step guard' s as := by
  induction as generalizing s with
  | nil => trivial
  | cons a as ih => exact ⟨imp s a h.1, fun s' hs => ih (h.2 s' hs)⟩

theorem Along.append {t : σ} {bs : List α} (h : Along step guard s (as ++ bs))
    (run : exec step s as = .ok t) : Along step guard t bs := by
  induction as generalizing s with
  | nil =>
    obtain rfl : s = t := by simpa using run
    exact h
  | cons a as ih =>
    obtain ⟨u, hu, hrest⟩ := exec_cons_inv run
    exact ih (h.2 u hu) hrest

theorem Along.concat {bs : List α} (h : Along step guard s as)
    (rest : ∀ t, exec step s as = .ok t → Along step guard t bs) :
    Along step guard s (as ++ bs) := by
  induction as generalizing s with
  | nil => exact rest s rfl
  | cons a as ih =>
    exact ⟨h.1, fun s' hs => ih (h.2 s' hs) fun t ht => rest t (by rw [exec_cons_ok hs, ht])⟩

theorem Along.initial (bs : List α) (h : Along step guard s (as ++ bs)) :
    Along step guard s as := by
  induction as generalizing s with
  | nil => trivial
  | cons a as ih => exact ⟨h.1, fun s' hs => ih (h.2 s' hs)⟩

theorem along_of_forall (all : ∀ s a, guard s a) (s : σ) (as : List α) : Along step guard s as := by
  induction as generalizing s with
  | nil => trivial
  | cons a as ih => exact ⟨all s a, fun s' _ => ih s'⟩

theorem along_of_mem {P : α → Prop} (all : ∀ a ∈ as, P a) : Along step (fun _ a => P a) s as := by
  induction as generalizing s with
  | nil => trivial
  | cons a as ih => exact ⟨all a (by simp), fun s' _ => ih fun b hb => all b (by simp [hb])⟩

theorem Along.and (h : Along step guard s as)
    (h' : Along step guard' s as) : Along step (fun s a => guard s a ∧ guard' s a) s as := by
  induction as generalizing s with
  | nil => trivial
  | cons a as ih => exact ⟨⟨h.1, h'.1⟩, fun t ht => ih (h.2 t ht) (h'.2 t ht)⟩

theorem along_of_exec {P : σ → α → Prop}
    (imp : ∀ s a s', P s a → step s a = .ok s' → guard s a) {t : σ}
    (h : Along step P s as) (run : exec step s as = .ok t) : Along step guard s as := by
  induction as generalizing s with
  | nil => trivial
  | cons a as ih =>
    obtain ⟨u, hu, hrest⟩ := exec_cons_inv run
    exact (along_cons_ok hu).mpr ⟨imp s a u h.1 hu, ih (h.2 u hu) hrest⟩

section Invariant

variable (keep : ∀ s a s', Inv s → guard s a → step s a = .ok s' → Inv s')
include keep

/-- What every guarded step preserves, every guarded run preserves. -/
theorem exec_invariant {t : σ} (init : Inv s) (along : Along step guard s as)
    (run : exec step s as = .ok t) : Inv t := by
  induction as generalizing s with
  | nil =>
    obtain rfl : s = t := by simpa using run
    exact init
  | cons a as ih =>
    obtain ⟨u, hu, hrest⟩ := exec_cons_inv run
    exact ih (keep s a u init along.1 hu) (along.2 u hu) hrest

theorem Along.with_invariant (init : Inv s)
    (along : Along step guard s as) : Along step (fun s a => Inv s ∧ guard s a) s as := by
  induction as generalizing s with
  | nil => trivial
  | cons a as ih =>
    refine ⟨⟨init, along.1⟩, fun s' hs => ih ?_ (along.2 s' hs)⟩
    exact keep s a s' init along.1 hs

theorem exec_ne_error {e : ε} (safe : ∀ s a, Inv s → guard s a → step s a ≠ .error e)
    (init : Inv s) (along : Along step guard s as) :
    exec step s as ≠ .error e := by
  induction as generalizing s with
  | nil => simp
  | cons a as ih =>
    cases hs : step s a with
    | ok t =>
      rw [exec_cons_ok hs]
      exact ih (keep s a t init along.1 hs) (along.2 t hs)
    | error e' =>
      rw [exec_cons_error hs]
      intro heq
      obtain rfl : e' = e := by simpa using heq
      exact safe s a init along.1 hs

end Invariant

theorem along_iff {P : σ → α → Prop}
    (keep : ∀ s a s', Inv s → P s a → guard s a → step s a = .ok s' → Inv s')
    (same : ∀ s a, Inv s → P s a → (guard s a ↔ guard' s a)) (init : Inv s)
    (along : Along step P s as) :
    Along step guard s as ↔ Along step guard' s as := by
  induction as generalizing s with
  | nil => exact Iff.rfl
  | cons a as ih =>
    refine (and_congr_right fun hguard => ?_).trans (and_congr_left fun _ => same s a init along.1)
    exact forall_congr' fun s' => forall_congr' fun hs =>
      ih (keep s a s' init along.1 hguard hs) (along.2 s' hs)

theorem along_congr (keep : ∀ s a s', Inv s → step s a = .ok s' → Inv s')
    (same : ∀ s a s', Inv s → step s a = .ok s' → (guard s a ↔ guard' s a)) {t : σ} (init : Inv s)
    (run : exec step s as = .ok t) :
    Along step guard s as ↔ Along step guard' s as := by
  induction as generalizing s with
  | nil => exact Iff.rfl
  | cons a as ih =>
    obtain ⟨u, hu, hrest⟩ := exec_cons_inv run
    rw [along_cons_ok hu, along_cons_ok hu, same s a u init hu, ih (keep s a u init hu) hrest]

end Egsr.Lib.Run
