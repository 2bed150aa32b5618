import Mathlib.Data.Finset.Insert

/-! Owners are chosen until every item is listed under one of them. Links lead from owners to
items; those that are left are the links of items that nobody covers yet. -/

namespace Egsr.Lib.Covering

open List

section Links

variable {τ α β : Type*} (owner : τ → α) (item : τ → β)

/-- A link is left, or its item is listed under an owner that is chosen. -/
structure Covered (links left : List τ) (chosen : Finset α) : Prop where
  sub : left ⊆ links
  covered : ∀ t ∈ links, t ∈ left ∨ ∃ u ∈ links, owner u ∈ chosen ∧ item u = item t

variable {owner item} {links left : List τ} {chosen chosen' : Finset α}

theorem Covered.start (links : List τ) : Covered owner item links links ∅ :=
  ⟨fun _ h => h, fun _ => .inl⟩

theorem Covered.remove {keep : τ → Bool} (h : Covered owner item links left chosen)
    (sub : chosen ⊆ chosen')
    (reached : ∀ t ∈ left, keep t = false → ∃ u ∈ left, owner u ∈ chosen' ∧ item u = item t) :
    Covered owner item links (left.filter keep) chosen' := by
  refine ⟨fun t ht => h.sub (mem_of_mem_filter ht), fun t ht => ?_⟩
  rcases h.covered t ht with still | ⟨u, hu, mem, same⟩
  · cases kept : keep t with
    | true => exact .inl (mem_filter.mpr ⟨still, kept⟩)
    | false =>
      obtain ⟨u, hu, mem, same⟩ := reached t still kept
      exact .inr ⟨u, h.sub hu, mem, same⟩
  · exact .inr ⟨u, hu, sub mem, same⟩

theorem Covered.done (h : Covered owner item links [] chosen) {t : τ} (ht : t ∈ links) :
    ∃ u ∈ links, owner u ∈ chosen ∧ item u = item t := (h.covered t ht).resolve_left not_mem_nil

end Links

section Choosing

variable {τ α β : Type*} [DecidableEq α] [DecidableEq β] (owner : τ → α) (item : τ → β)

def cover (a : α) (left : List τ) : List τ :=
  left.filter fun t => item t ∉ (left.filter fun u => owner u = a).map item

def exhaust (pick : List τ → Option α) : (fuel : ℕ) → Finset α → List τ → Option (Finset α)
  | _, chosen, [] => some chosen
  | 0, _, _ :: _ => none
  | fuel + 1, chosen, t :: rest =>
    match pick (t :: rest) with
    | some a => exhaust pick fuel (insert a chosen) (cover owner item a (t :: rest))
    | none => exhaust pick fuel chosen (t :: rest)

variable {owner item} {links left : List τ} {chosen : Finset α} {a : α}

theorem Covered.cover (h : Covered owner item links left chosen) (a : α) :
    Covered owner item links (cover owner item a left) (insert a chosen) := by
  refine h.remove (Finset.subset_insert a chosen) fun t _ removed => ?_
  obtain ⟨u, hu, same⟩ := mem_map.mp (not_not.mp (of_decide_eq_false removed))
  obtain ⟨mem, own⟩ := mem_filter.mp hu
  exact ⟨u, mem, by rw [of_decide_eq_true own]; exact Finset.mem_insert_self a chosen, same⟩

theorem length_cover_lt {t : τ} (ht : t ∈ left) (own : owner t = a) :
    (cover owner item a left).length < left.length := by
  refine length_filter_lt_length_iff_exists.mpr ⟨t, ht, ?_⟩
  have listed : item t ∈ (left.filter fun u => owner u = a).map item :=
    mem_map_of_mem (mem_filter.mpr ⟨ht, decide_eq_true own⟩)
  rw [decide_eq_true_eq]
  exact not_not.mpr listed

/-- If there always is an owner of a link to be picked, then as many rounds as there are links are
enough, and every item is covered by what was chosen before and by owners of links. -/
theorem exhaust_covers {pick : List τ → Option α}
    (picks : ∀ left, left ⊆ links → left ≠ [] → ∃ t ∈ left, pick left = some (owner t))
    (h : Covered owner item links left chosen) :
    ∃ final, (∀ fuel ≥ left.length, exhaust owner item pick fuel chosen left = some final) ∧
      Covered owner item links [] final ∧ chosen ⊆ final ∧ ∀ a ∈ final, a ∈ chosen ∨
        ∃ t ∈ links, owner t = a := by
  -- every round leaves out a link
  induction hn : left.length using Nat.strong_induction_on generalizing left chosen with
  | _ n ih =>
    subst hn
    cases left with
    | nil =>
      exact ⟨chosen, fun fuel _ => by cases fuel <;> rfl, h, Finset.Subset.refl chosen,
        fun a ha => .inl ha⟩
    | cons t rest =>
      obtain ⟨u, hu, picked⟩ := picks (t :: rest) h.sub (cons_ne_nil t rest)
      have shorter : (Covering.cover owner item (owner u) (t :: rest)).length <
          (t :: rest).length := length_cover_lt hu rfl
      obtain ⟨final, runs, covered, sub, origin⟩ := ih _ shorter (h.cover (owner u)) rfl
      refine ⟨final, fun fuel enough => ?_, covered, (Finset.subset_insert _ chosen).trans sub,
        fun a ha => ?_⟩
      · obtain ⟨fuel, rfl⟩ :=
          Nat.exists_eq_succ_of_ne_zero (Nat.ne_of_gt ((Nat.succ_pos rest.length).trans_le enough))
        rw [exhaust, picked]
        exact runs fuel (Nat.le_of_lt_succ (shorter.trans_le enough))
      · rcases origin a ha with ha | ha
        · rcases Finset.mem_insert.mp ha with rfl | ha
          · exact .inr ⟨u, h.sub hu, rfl⟩
          · exact .inl ha
        · exact .inr ha

end Choosing

end Egsr.Lib.Covering
