import Mathlib.Data.List.Infix

/-! Histories that grow at the end: what holds of every event and its past, and
what has held since an event. -/

namespace Egsr.Lib.History

open List

variable {α : Type*} {Q : List α → α → Prop} {start keep : α → Prop} {log : List α} {x : α}

def Each (Q : List α → α → Prop) (log : List α) : Prop :=
  ∀ past x future, log = past ++ x :: future → Q past x

/-- There was such an event, and it and all events from it on are to be kept. -/
def Since (start keep : α → Prop) (log : List α) : Prop :=
  ∃ past x later, log = past ++ x :: later ∧ start x ∧ ∀ y ∈ x :: later, keep y

theorem each_nil : Each Q [] := fun past x future h => by simp at h

theorem each_snoc : Each Q (log ++ [x]) ↔ Each Q log ∧ Q log x := by
  constructor
  · intro h
    refine ⟨fun past y future heq => h past y (future ++ [x]) ?_, h log x [] rfl⟩
    rw [heq, append_assoc, cons_append]
  · rintro ⟨h, hx⟩ past y future heq
    rcases eq_nil_or_concat future with rfl | ⟨rest, z, rfl⟩
    · obtain ⟨rfl, hy⟩ := append_inj' heq rfl
      cases hy
      exact hx
    · rw [concat_eq_append, ← cons_append, ← append_assoc] at heq
      obtain ⟨hlog, -⟩ := append_inj' heq rfl
      exact h past y rest hlog

theorem since_snoc (hstart : start x) (hkeep : keep x) : Since start keep (log ++ [x]) :=
  ⟨log, x, [], rfl, hstart, fun y hy => by rwa [mem_singleton.mp hy]⟩

theorem Since.snoc (h : Since start keep log) (hkeep : keep x) : Since start keep (log ++ [x]) := by
  obtain ⟨past, y, later, rfl, hstart, hall⟩ := h
  refine ⟨past, y, later ++ [x], by rw [append_assoc, cons_append], hstart, fun z hz => ?_⟩
  rw [← cons_append] at hz
  rcases mem_append.mp hz with hz | hz
  · exact hall z hz
  · rwa [mem_singleton.mp hz]

theorem Since.last (h : Since start keep (log ++ [x])) : keep x := by
  obtain ⟨past, y, later, heq, -, hall⟩ := h
  rcases eq_nil_or_concat (y :: later) with hnil | ⟨rest, z, hsplit⟩
  · cases hnil
  · rw [hsplit, concat_eq_append, ← append_assoc] at heq
    obtain ⟨-, hz⟩ := append_inj' heq rfl
    cases hz
    exact hall x (by rw [hsplit, concat_eq_append]; exact mem_append_right _ (mem_singleton_self x))

theorem since_snoc_iff (hkeep : keep x) : Since start keep (log ++ [x]) ↔ start x ∨
    Since start keep log := by
  refine ⟨?_, fun h => h.elim (fun hstart => since_snoc hstart hkeep) fun h => h.snoc hkeep⟩
  rintro ⟨past, y, later, heq, hstart, hall⟩
  rcases eq_nil_or_concat later with rfl | ⟨rest, z, rfl⟩
  · obtain ⟨-, hy⟩ := append_inj' heq rfl
    cases hy
    exact .inl hstart
  · rw [concat_eq_append, ← cons_append, ← append_assoc] at heq
    obtain ⟨hlog, -⟩ := append_inj' heq rfl
    refine .inr ⟨past, y, rest, hlog, hstart, fun w hw => hall w ?_⟩
    rw [concat_eq_append, ← cons_append]
    exact mem_append_left _ hw

theorem Since.mono {start' : α → Prop} (h : Since start keep log) (imp : ∀ x, start x → start' x) :
    Since start' keep log := by
  obtain ⟨past, y, later, rfl, hstart, hall⟩ := h
  exact ⟨past, y, later, rfl, imp y hstart, hall⟩

theorem each_iff : Each Q log ↔ ∀ past ∈ log.inits, ∀ x ∈
    (log.drop past.length).head?, Q past x := by
  constructor
  · intro h past hpast x hx
    obtain ⟨rest, rfl⟩ := (mem_inits _ _).mp hpast
    rw [drop_left] at hx
    obtain ⟨future, rfl⟩ := List.head?_eq_some_iff.mp hx
    exact h past x future rfl
  · rintro h past x future rfl
    exact h past ((mem_inits _ _).mpr ⟨x :: future, rfl⟩) x (by rw [drop_left]; rfl)

theorem since_iff : Since start keep log ↔ ∃ later ∈ log.tails,
    (∃ x ∈ later.head?, start x) ∧ ∀ y ∈ later, keep y := by
  constructor
  · rintro ⟨past, x, later, rfl, hstart, hall⟩
    exact ⟨x :: later, (mem_tails _ _).mpr ⟨past, rfl⟩, ⟨x, rfl, hstart⟩, hall⟩
  · rintro ⟨later, htail, ⟨x, hx, hstart⟩, hall⟩
    obtain ⟨past, rfl⟩ := (mem_tails _ _).mp htail
    obtain ⟨rest, rfl⟩ := List.head?_eq_some_iff.mp hx
    exact ⟨past, x, rest, rfl, hstart, hall⟩

instance [∀ past, DecidablePred (Q past)] : Decidable (Each Q log) :=
  decidable_of_iff _ each_iff.symm

instance [DecidablePred start] [DecidablePred keep] : Decidable (Since start keep log) :=
  decidable_of_iff _ since_iff.symm

end Egsr.Lib.History
