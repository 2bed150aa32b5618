import Egsr.Lib.Run

/-! Outcomes of fallible computations. `Ensures x post err` says that `x` gives
a value with `post` or a fault with `err`; the rules follow the way such
computations are put together. -/

namespace Egsr.Lib.Outcome

open List

variable {ε α β : Type}

def Ensures (x : Except ε α) (post : α → Prop) (err : ε → Prop) : Prop :=
  match x with
  | .ok a => post a
  | .error e => err e

variable {x : Except ε α} {post post' : α → Prop} {err err' : ε → Prop}

@[simp] theorem ensures_ok {a : α} : Ensures (.ok a : Except ε α) post err ↔ post a := Iff.rfl

@[simp] theorem ensures_error {e : ε} : Ensures (.error e : Except ε α) post err ↔ err e := Iff.rfl

@[simp] theorem ensures_pure {a : α} : Ensures (pure a : Except ε α) post err ↔ post a := Iff.rfl

@[simp] theorem ensures_throw {e : ε} : Ensures (throw e : Except ε α) post err ↔ err e := Iff.rfl

instance [DecidablePred post] [DecidablePred err] : Decidable (Ensures x post err) :=
  match x with
  | .ok _ | .error _ => by unfold Ensures; infer_instance

theorem ensures_iff : Ensures x post err ↔
    (∀ a, x = .ok a → post a) ∧ ∀ e, x = .error e → err e := by
  cases x <;> simp

theorem Ensures.of_ok (h : Ensures x post err) {a : α} (run : x = .ok a) : post a := by
  subst run
  exact h

theorem Ensures.of_error (h : Ensures x post err) {e : ε} (run : x = .error e) : err e := by
  subst run
  exact h

theorem not_ensures_of_ok {a : α} (run : x = .ok a) (bad : ¬post a) : ¬Ensures x post err :=
  fun h => bad (h.of_ok run)

theorem Ensures.exists_ok (h : Ensures x post fun _ => False) : ∃ a, x = .ok a ∧ post a := by
  cases x with
  | ok a => exact ⟨a, rfl, h⟩
  | error e => exact h.elim

theorem Ensures.eq_error {e : ε} (h : Ensures x (fun _ => False) fun e' => e' = e) :
    x = .error e := by
  cases x with
  | ok a => exact h.elim
  | error e' => exact congrArg Except.error h

theorem Ensures.mono (h : Ensures x post err) (imp : ∀ a, post a → post' a)
    (imp' : ∀ e, err e → err' e) : Ensures x post' err' := by
  cases x with
  | ok a => exact imp a h
  | error e => exact imp' e h

theorem Ensures.weaken (h : Ensures x post err) (imp : ∀ a, post a → post' a) :
    Ensures x post' err := h.mono imp fun _ he => he

theorem Ensures.and_ok (h : Ensures x post err) (h' : ∀ a, x = .ok a → post' a) :
    Ensures x (fun a => post a ∧ post' a) err := by
  cases x with
  | ok a => exact ⟨h, h' a rfl⟩
  | error e => exact h

theorem Ensures.bind {f : α → Except ε β} {post' : β → Prop} (h : Ensures x post err)
    (rest : ∀ a, post a → Ensures (f a) post' err) : Ensures (x >>= f) post' err := by
  cases x with
  | ok a => exact rest a h
  | error e => exact h

theorem ensures_map {f : α → β} {post' : β → Prop} :
    Ensures (x.map f) post' err ↔ Ensures x (fun a => post' (f a)) err := by
  cases x <;> rfl

theorem Ensures.ite {c : Prop} [Decidable c] {y : Except ε α}
    (yes : c → Ensures x post err) (no : ¬c → Ensures y post err) :
    Ensures (if c then x else y) post err := by
  by_cases hc : c
  · rw [if_pos hc]
    exact yes hc
  · rw [if_neg hc]
    exact no hc

theorem ensures_trivial (x : Except ε α) : Ensures x (fun _ => True) fun _ => True := by
  cases x <;> trivial

theorem ensures_self (x : Except ε α) : Ensures x (fun a => x = .ok a) (fun e => x = .error e) := by
  cases x <;> simp

theorem ensures_foldlM {Inv : β → Prop} {f : β → α → Except ε β} {xs : List α} {b : β}
    (init : Inv b) (keep : ∀ b a, a ∈ xs → Inv b → Ensures (f b a) Inv err) :
    Ensures (xs.foldlM f b) Inv err := by
  induction xs generalizing b with
  | nil => exact init
  | cons a xs ih =>
    rw [foldlM_cons]
    refine (keep b a (by simp) init).bind fun b' hb' => ih hb' fun c a' ha' hc => ?_
    exact keep c a' (by simp [ha']) hc

theorem foldlM_pure {step : β → α → Except ε β} {step' : β → α → β} (good : β → Prop)
    {l : List α} {b : β} (hb : good b)
    (same : ∀ b, good b → ∀ a ∈ l, step b a = pure (step' b a) ∧ good (step' b a)) :
    l.foldlM step b = pure (l.foldl step' b) := by
  induction l generalizing b with
  | nil => rfl
  | cons a l ih =>
    have first := same b hb a mem_cons_self
    rw [foldlM_cons, first.1, pure_bind, foldl_cons]
    exact ih first.2 fun b hb x hx => same b hb x (mem_cons_of_mem a hx)

theorem map_ok_inv {f : α → β} {b : β} (h : x.map f = .ok b) : ∃ a, x = .ok a ∧ f a = b := by
  cases x with
  | ok a => exact ⟨a, rfl, Except.ok.inj h⟩
  | error e => cases h

theorem bind_ok_inv {f : α → Except ε β} {b : β} (h : x >>= f = .ok b) :
    ∃ a, x = .ok a ∧ f a = .ok b := by
  cases x with
  | ok a => exact ⟨a, rfl, h⟩
  | error e => cases h

theorem ensures_exec {step : β → α → Except ε β} {guard : β → α → Prop} {Inv : β → Prop}
    (keep : ∀ b a, Inv b → guard b a → Ensures (step b a) Inv err) {b : β} {as : List α}
    (init : Inv b) (along : Run.Along step guard b as) :
    Ensures (Run.exec step b as) Inv err := by
  induction as generalizing b with
  | nil => exact init
  | cons a as ih =>
    have hstep := keep b a init along.1
    cases hrun : step b a with
    | ok b' =>
      rw [hrun] at hstep
      rw [Run.exec_cons_ok hrun]
      exact ih hstep (along.2 b' hrun)
    | error e =>
      rw [hrun] at hstep
      rw [Run.exec_cons_error hrun]
      exact hstep

theorem ensures_exec_history {step : β → α → Except ε β} {guard : β → α → Prop}
    {Inv : List α → β → Prop}
    (keep : ∀ as b a, Inv as b → guard b a → Ensures (step b a) (Inv (as ++ [a])) err)
    {b : β} {done as : List α} (init : Inv done b) (along : Run.Along step guard b as) :
    Ensures (Run.exec step b as) (Inv (done ++ as)) err := by
  induction as generalizing b done with
  | nil => simpa using init
  | cons a as ih =>
    have hstep := keep done b a init along.1
    cases hrun : step b a with
    | ok b' =>
      rw [hrun] at hstep
      rw [Run.exec_cons_ok hrun, append_cons done a as]
      exact ih hstep (along.2 b' hrun)
    | error e =>
      rw [hrun] at hstep
      rw [Run.exec_cons_error hrun]
      exact hstep

section Map

variable {β' : Type} {h : β → β'}

theorem bind_map_congr {f : α → Except ε β'} {g : α → Except ε β} (same : ∀ a, f a = (g a).map h) :
    x >>= f = (x >>= g).map h := by
  cases x with
  | ok a => exact same a
  | error e => rfl

theorem map_bind_map {α' : Type} {k : α → α'} {f : α' → Except ε β'} {g : α → Except ε β}
    (same : ∀ a, f (k a) = (g a).map h) : x.map k >>= f = (x >>= g).map h := by
  cases x with
  | ok a => exact same a
  | error e => rfl

theorem map_map {α' : Type} {k : α → α'} {f : α' → β'} {g : α → β} (same : ∀ a, f (k a) = h (g a)) :
    (x.map k).map f = (x.map g).map h := by
  cases x with
  | ok a => exact congrArg Except.ok (same a)
  | error e => rfl

theorem ite_map {c : Prop} [Decidable c] {x' y' : Except ε β'} {x y : Except ε β}
    (yes : x' = x.map h)
    (no : y' = y.map h) : (if c then x' else y') = (if c then x else y).map h := by
  rw [yes, no]
  split_ifs <;> rfl

theorem exec_map {σ τ : Type} {f : σ → τ} {step : σ → α → Except ε σ} {step' : τ → α → Except ε τ}
    (same : ∀ s a, step' (f s) a = (step s a).map f) (s : σ) (as : List α) :
    Run.exec step' (f s) as = (Run.exec step s as).map f := by
  induction as generalizing s with
  | nil => rfl
  | cons a as ih =>
    have hstep := same s a
    cases hrun : step s a with
    | ok t =>
      rw [hrun] at hstep
      rw [Run.exec_cons_ok hrun, Run.exec_cons_ok hstep, ih]
    | error e =>
      rw [hrun] at hstep
      rw [Run.exec_cons_error hrun, Run.exec_cons_error hstep]
      rfl

end Map

section Follows

variable {γ δ : Type} {e : ε} {rel : α → β → Prop}

/-- The computation fails with `e` where the partial value is missing, and has a related value where
it is not. -/
def Follows (rel : α → β → Prop) (e : ε) : Option α → Except ε β → Prop
  | some a, .ok b => rel a b
  | none, .error e' => e' = e
  | _, _ => False

variable {o : Option α} {y : Except ε β}

theorem Follows.of_some {a : α} (h : Follows rel e (some a) y) : ∃ b, y = .ok b ∧ rel a b := by
  cases y with
  | ok b => exact ⟨b, rfl, h⟩
  | error e' => exact h.elim

theorem Follows.of_none (h : Follows rel e none y) : y = .error e := by
  cases y with
  | ok b => exact h.elim
  | error e' => exact congrArg Except.error h

theorem Follows.of_ok {b : β} (h : Follows rel e o (.ok b)) : ∃ a, o = some a ∧ rel a b := by
  cases o with
  | some a => exact ⟨a, rfl, h⟩
  | none => exact h.elim

theorem Follows.of_error {e' : ε} (h : Follows rel e o (.error e')) : e' = e := by
  cases o with
  | some a => exact h.elim
  | none => exact h

theorem Follows.bind {rel' : γ → δ → Prop} {f : α → Option γ} {g : β → Except ε δ}
    (h : Follows rel e o y)
    (next : ∀ a b, rel a b → Follows rel' e (f a) (g b)) : Follows rel' e (o.bind f) (y >>= g) := by
  cases o with
  | some a =>
    obtain ⟨b, rfl, hrel⟩ := h.of_some
    exact next a b hrel
  | none =>
    cases y with
    | ok b => exact h.elim
    | error e' => exact h

theorem follows_foldlM {step : α → γ → Option α} {run : β → γ → Except ε β} {a : α} {b : β}
    (h : rel a b) (cs : List γ)
    (next : ∀ a b, rel a b → ∀ c ∈ cs, Follows rel e (step a c) (run b c)) :
    Follows rel e (cs.foldlM step a) (cs.foldlM run b) := by
  induction cs generalizing a b with
  | nil => exact h
  | cons c cs ih =>
    rw [foldlM_cons, foldlM_cons]
    refine (next a b h c mem_cons_self).bind fun a' b' h' => ih h' fun a b hab c' hc' => ?_
    exact next a b hab c' (mem_cons_of_mem c hc')

end Follows

end Egsr.Lib.Outcome
