import Mathlib.Data.List.Nodup

/-! Tables of records under keys, kept against the history of what was put in
them. Putting a record in takes out the one under its key; dropping records is
allowed for those that no longer count. What counts is a condition on records
that may shrink as time goes by. -/

namespace Egsr.Lib.KeyedTable

open List

variable {α κ : Type*} [DecidableEq κ] (key : α → κ)

/-- Take out the first record under the key, if there is one, and put the new one at the end. -/
def put (table : List α) (a : α) : List α := table.eraseP (fun b => key b = key a) ++ [a]

def latest (history : List α) (k : κ) : Option α := history.reverse.find? fun a => key a = k

/-- At most one record under a key, each the latest of the history, and of the latest records all
that count. -/
structure Tracks (counts : α → Prop) (history table : List α) : Prop where
  distinct : (table.map key).Nodup
  latest_of_mem : ∀ a ∈ table, latest key history (key a) = some a
  mem_of_latest : ∀ a, latest key history (key a) = some a → counts a → a ∈ table

variable {key} {table history : List α} {counts counts' : α → Prop}

theorem latest_append (a : α) (k : κ) :
    latest key (history ++ [a]) k = if key a = k then some a else latest key history k := by
  by_cases same : key a = k <;> simp [latest, same]

@[simp] theorem latest_nil (k : κ) : latest key ([] : List α) k = none := rfl

theorem eraseP_key (distinct : (table.map key).Nodup) (k : κ) :
    table.eraseP (fun b => key b = k) = table.filter (fun b => key b ≠ k) := by
  induction table with
  | nil => rfl
  | cons b table ih =>
    have split := nodup_cons.mp distinct
    by_cases same : key b = k
    · have others : ∀ c ∈ table, key c ≠ k := fun c hc hkey =>
        split.1 (mem_map.mpr ⟨c, hc, hkey.trans same.symm⟩)
      simpa [same] using (filter_eq_self.mpr (by simpa using others)).symm
    · simpa [same] using ih split.2

theorem mem_put (distinct : (table.map key).Nodup) {a b : α} :
    b ∈ put key table a ↔ b ∈ table ∧ key b ≠ key a ∨ b = a := by
  simp [put, eraseP_key distinct]

theorem put_distinct (distinct : (table.map key).Nodup) (a : α) :
    ((put key table a).map key).Nodup := by
  have rest : ((table.filter fun b => key b ≠ key a).map key).Nodup :=
    distinct.sublist (filter_sublist.map key)
  rw [put, eraseP_key distinct, map_append, nodup_append]
  refine ⟨rest, by simp, ?_⟩
  intro k hk k' hk'
  obtain ⟨b, hb, rfl⟩ := mem_map.mp hk
  obtain rfl : k' = key a := by simpa using hk'
  simpa using (mem_filter.mp hb).2

namespace Tracks

theorem nil : Tracks key counts [] [] where
  distinct := nodup_nil
  latest_of_mem := by simp
  mem_of_latest := by simp

section

variable (h : Tracks key counts history table)

include h

theorem put (a : α) : Tracks key counts (history ++ [a]) (put key table a) where
  distinct := put_distinct h.distinct a
  latest_of_mem b hb := by
    rw [latest_append]
    obtain ⟨hb, other⟩ | rfl := (mem_put h.distinct).mp hb
    · rw [if_neg other.symm]
      exact h.latest_of_mem b hb
    · exact if_pos rfl
  mem_of_latest b hb hcounts := by
    rw [latest_append] at hb
    rw [mem_put h.distinct]
    by_cases same : key a = key b
    · rw [if_pos same] at hb
      exact .inr (Option.some.inj hb).symm
    · rw [if_neg same] at hb
      exact .inl ⟨h.mem_of_latest b hb hcounts, Ne.symm same⟩

theorem filter {keep : α → Bool}
    (shrinks : ∀ a, counts' a → counts a) (kept : ∀ a ∈ table, counts' a → keep a) :
    Tracks key counts' history (table.filter keep) where
  distinct := h.distinct.sublist (filter_sublist.map key)
  latest_of_mem a ha := h.latest_of_mem a (mem_filter.mp ha).1
  mem_of_latest a ha hcounts := by
    have mem := h.mem_of_latest a ha (shrinks a hcounts)
    exact mem_filter.mpr ⟨mem, kept a mem hcounts⟩

theorem weaken (shrinks : ∀ a, counts' a → counts a) : Tracks key counts' history table where
  distinct := h.distinct
  latest_of_mem := h.latest_of_mem
  mem_of_latest a ha hcounts := h.mem_of_latest a ha (shrinks a hcounts)

theorem mem_iff (all : ∀ a ∈ table, counts a) (a : α) :
    a ∈ table ↔ latest key history (key a) = some a ∧ counts a :=
  ⟨fun ha => ⟨h.latest_of_mem a ha, all a ha⟩, fun ha => h.mem_of_latest a ha.1 ha.2⟩

end

end Tracks

end Egsr.Lib.KeyedTable
