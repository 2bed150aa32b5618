import Mathlib.Order.Defs.LinearOrder
import Mathlib.Data.List.Pairwise
import Mathlib.Data.List.Perm.Subperm

/-! Maps from ordered keys, kept as lists of entries in the order of the keys.
Going through such a map meets every key once, the smallest first. What an
operation does is said by what is found afterwards. -/

namespace Egsr.Lib

open List Option

structure OrderedMap (κ α : Type*) [LT κ] where
  entries : List (κ × α)
  sorted : entries.Pairwise fun a b => a.1 < b.1

namespace OrderedMap

variable {κ α : Type*} [LE κ] [LT κ] [DecidableEq κ] [DecidableLT κ]

def empty : OrderedMap κ α := ⟨[], .nil⟩

def keys (m : OrderedMap κ α) : List κ := m.entries.map Prod.fst

def find? (m : OrderedMap κ α) (k : κ) : Option α := (m.entries.find? fun e => e.1 = k).map Prod.snd

def setEntry (k : κ) (a : α) : List (κ × α) → List (κ × α)
  | [] => [(k, a)]
  | e :: es =>
    if k < e.1 then (k, a) :: e :: es else if e.1 < k then e :: setEntry k a es else (k, a) :: es

omit [LE κ] [DecidableEq κ] in
theorem mem_setEntry {k : κ} {a : α} {e : κ × α} {es : List (κ × α)} (h : e ∈ setEntry k a es) :
    e = (k, a) ∨ e ∈ es := by
  induction es with
  | nil => exact .inl (mem_singleton.mp h)
  | cons b es ih =>
    rw [setEntry] at h
    split_ifs at h with hlt hgt
    · exact mem_cons.mp h
    · rcases mem_cons.mp h with rfl | h
      · exact .inr mem_cons_self
      · exact (ih h).imp_right (mem_cons_of_mem _)
    · exact (mem_cons.mp h).imp_right (mem_cons_of_mem _)

variable [Std.IsLinearOrder κ] [Std.LawfulOrderLT κ]

omit [DecidableEq κ] in
theorem sorted_setEntry (k : κ) (a : α) {es : List (κ × α)}
    (h : es.Pairwise fun a b => a.1 < b.1) : (setEntry k a es).Pairwise fun a b => a.1 < b.1 := by
  induction es with
  | nil => exact pairwise_singleton _ _
  | cons b es ih =>
    obtain ⟨hb, hes⟩ := pairwise_cons.mp h
    rw [setEntry]
    split_ifs with hlt hgt
    · refine pairwise_cons.mpr ⟨fun e he => ?_, h⟩
      rcases mem_cons.mp he with rfl | he
      · exact hlt
      · exact Std.lt_trans hlt (hb e he)
    · refine pairwise_cons.mpr ⟨fun e he => ?_, ih hes⟩
      rcases mem_setEntry he with rfl | he
      · exact hgt
      · exact hb e he
    · -- the key was there
      have same : k = b.1 := Std.le_antisymm (Std.not_lt.mp hgt) (Std.not_lt.mp hlt)
      exact pairwise_cons.mpr ⟨fun e he => same ▸ hb e he, hes⟩

def set (m : OrderedMap κ α) (k : κ) (a : α) : OrderedMap κ α :=
  ⟨setEntry k a m.entries, sorted_setEntry k a m.sorted⟩

def add (m : OrderedMap κ α) (k : κ) (a : α) : OrderedMap κ α :=
  if (m.find? k).isSome then m else m.set k a

def addAll (m : OrderedMap κ α) (es : List (κ × α)) : OrderedMap κ α :=
  es.foldl (fun m e => m.add e.1 e.2) m

@[simp] theorem addAll_nil (m : OrderedMap κ α) : m.addAll [] = m := rfl

theorem addAll_cons (m : OrderedMap κ α) (e : κ × α) (es : List (κ × α)) :
    m.addAll (e :: es) = (m.add e.1 e.2).addAll es := rfl

def update (m : OrderedMap κ α) (k : κ) (a : α) : OrderedMap κ α :=
  if (m.find? k).isSome then m.set k a else m

def filter (m : OrderedMap κ α) (p : κ → α → Bool) : OrderedMap κ α :=
  ⟨m.entries.filter fun e => p e.1 e.2, m.sorted.sublist filter_sublist⟩

omit [LE κ] [DecidableEq κ] [DecidableLT κ] [Std.IsLinearOrder κ] [Std.LawfulOrderLT κ] in
theorem sorted_filterMap {β : Type*} (f : κ → α → Option β) {es : List (κ × α)}
    (h : es.Pairwise fun a b => a.1 < b.1) :
    (es.filterMap fun e => (f e.1 e.2).map fun b => (e.1, b)).Pairwise fun a b => a.1 < b.1 := by
  refine h.filterMap _ fun e e' hlt b hb b' hb' => ?_
  obtain ⟨_, _, rfl⟩ := map_eq_some_iff.mp hb
  obtain ⟨_, _, rfl⟩ := map_eq_some_iff.mp hb'
  exact hlt

def filterMap {β : Type*} (f : κ → α → Option β) (m : OrderedMap κ α) : OrderedMap κ β :=
  ⟨m.entries.filterMap fun e => (f e.1 e.2).map fun b => (e.1, b), sorted_filterMap f m.sorted⟩

def erase (m : OrderedMap κ α) (k : κ) : OrderedMap κ α := m.filter fun k' _ => k' ≠ k

variable {m : OrderedMap κ α} {k k' : κ} {a : α}

omit [DecidableLT κ] [LE κ] [Std.IsLinearOrder κ] [Std.LawfulOrderLT κ] in
@[simp] theorem find?_empty : (empty : OrderedMap κ α).find? k = none := rfl

omit [DecidableLT κ] [Std.IsLinearOrder κ] in
theorem find?_eq_some : m.find? k = some a ↔ (k, a) ∈ m.entries := by
  obtain ⟨es, sorted⟩ := m
  change (es.find? fun e => e.1 = k).map Prod.snd = some a ↔ (k, a) ∈ es
  induction es with
  | nil => simp
  | cons e es ih =>
    obtain ⟨he, hes⟩ := pairwise_cons.mp sorted
    by_cases hk : e.1 = k
    · subst hk
      have absent : (e.1, a) ∉ es := fun hmem => Std.lt_irrefl (he (e.1, a) hmem)
      rw [List.find?_cons_of_pos (by simp), mem_cons, or_iff_left absent, Prod.ext_iff]
      simp [eq_comm]
    · rw [List.find?_cons_of_neg (by simpa using hk), ih hes, mem_cons]
      exact (or_iff_right fun heq => hk (congrArg Prod.fst heq).symm).symm

omit [DecidableLT κ] [Std.IsLinearOrder κ] in
theorem mem_keys : k ∈ m.keys ↔ (m.find? k).isSome := by
  rw [keys, List.mem_map, isSome_iff_exists]
  constructor
  · rintro ⟨e, he, rfl⟩
    exact ⟨e.2, find?_eq_some.mpr he⟩
  · rintro ⟨a, ha⟩
    exact ⟨(k, a), find?_eq_some.mp ha, rfl⟩

omit [DecidableLT κ] [Std.IsLinearOrder κ] in
theorem find?_eq_none : m.find? k = none ↔ k ∉ m.keys := by
  rw [mem_keys, Bool.not_eq_true, isSome_eq_false_iff, isNone_iff_eq_none]

omit [DecidableEq κ] [DecidableLT κ] [Std.IsLinearOrder κ] in
theorem nodup_keys : m.keys.Nodup :=
  pairwise_map.mpr (m.sorted.imp Std.ne_of_lt)

omit [DecidableEq κ] [DecidableLT κ] [Std.IsLinearOrder κ] in
theorem nodup_entries : m.entries.Nodup :=
  m.sorted.imp fun hlt heq => Std.ne_of_lt hlt (congrArg Prod.fst heq)

omit [DecidableLT κ] in
theorem ext_find? {m' : OrderedMap κ α} (h : ∀ k, m.find? k = m'.find? k) : m = m' := by
  have hmem : ∀ e, e ∈ m.entries ↔ e ∈ m'.entries := fun e => by
    rw [← find?_eq_some (a := e.2), ← find?_eq_some (a := e.2), h]
  have antisymm : ∀ a b : κ × α, a ∈ m.entries → b ∈ m'.entries → a.1 < b.1 → b.1 < a.1 → a = b :=
    fun _ _ _ _ hlt hgt =>
    absurd (Std.lt_trans hlt hgt) Std.lt_irrefl
  have heq := ((perm_ext_iff_of_nodup nodup_entries nodup_entries).mpr hmem).eq_of_pairwise antisymm
    m.sorted m'.sorted
  cases m
  cases m'
  cases heq
  rfl

theorem find?_set : (m.set k a).find? k' = if k' = k then some a else m.find? k' := by
  obtain ⟨es, sorted⟩ := m
  change ((setEntry k a es).find? fun e => e.1 = k').map Prod.snd =
    if k' = k then some a else (es.find? fun e => e.1 = k').map Prod.snd
  induction es with
  | nil => by_cases hk : k' = k <;> simp [setEntry, hk, eq_comm]
  | cons e es ih =>
    have ih := ih (pairwise_cons.mp sorted).2
    rcases Std.lt_trichotomy k e.1 with hlt | heq | hgt
    · rw [setEntry, if_pos hlt]
      by_cases hk : k' = k
      · simp [hk]
      · rw [List.find?_cons_of_neg (by simpa using Ne.symm hk), if_neg hk]
    · rw [setEntry, if_neg (heq ▸ Std.lt_irrefl), if_neg (heq ▸ Std.lt_irrefl)]
      by_cases hk : k' = k
      · simp [hk]
      · rw [List.find?_cons_of_neg (by simpa using Ne.symm hk), if_neg hk,
          List.find?_cons_of_neg (by simpa using heq ▸ Ne.symm hk)]
    · rw [setEntry, if_neg (Std.not_gt_of_lt hgt), if_pos hgt]
      by_cases he : e.1 = k'
      · subst he
        simp [Std.ne_of_lt hgt]
      · rw [List.find?_cons_of_neg (by simpa using he),
          List.find?_cons_of_neg (by simpa using he), ih]

@[simp] theorem find?_set_self : (m.set k a).find? k = some a := by rw [find?_set, if_pos rfl]

theorem find?_set_of_ne (h : k' ≠ k) : (m.set k a).find? k' = m.find? k' := by
  rw [find?_set, if_neg h]

theorem isSome_find?_set : ((m.set k a).find? k').isSome ↔ k' = k ∨ (m.find? k').isSome := by
  rw [find?_set]
  split_ifs with hk <;> simp [hk]

theorem find?_add : (m.add k a).find? k' = if k' = k then some ((m.find? k).getD a)
    else m.find? k' := by
  rw [add]
  split_ifs with hsome hk hk
  · subst hk
    obtain ⟨b, hb⟩ := isSome_iff_exists.mp hsome
    simp [hb]
  · rfl
  · subst hk
    simp [not_isSome_iff_eq_none.mp hsome]
  · exact find?_set_of_ne hk

theorem find?_update : (m.update k a).find? k' = if k' = k then (m.find? k).map fun _ => a
    else m.find? k' := by
  rw [update]
  split_ifs with hsome hk hk
  · subst hk
    obtain ⟨b, hb⟩ := isSome_iff_exists.mp hsome
    simp [hb]
  · exact find?_set_of_ne hk
  · subst hk
    simp [not_isSome_iff_eq_none.mp hsome]
  · rfl

@[simp] theorem isSome_find?_update : ((m.update k a).find? k').isSome = (m.find? k').isSome := by
  rw [find?_update]
  split_ifs with hk
  · rw [hk, isSome_map]
  · rfl

theorem isSome_find?_add : ((m.add k a).find? k').isSome =
    (decide (k' = k) || (m.find? k').isSome) := by
  rw [find?_add]
  split_ifs with hk <;> simp [hk]

theorem add_eq_self (h : (m.find? k).isSome) : m.add k a = m := if_pos h

variable (es : List (κ × α))

theorem find?_addAll (m : OrderedMap κ α) : (m.addAll es).find? k =
    (m.find? k).or ((es.find? fun e => e.1 = k).map Prod.snd) := by
  induction es generalizing m with
  | nil => exact or_none.symm
  | cons e es ih =>
    rw [addAll_cons, ih, find?_add]
    by_cases hk : e.1 = k
    · rw [if_pos hk.symm, List.find?_cons_of_pos (by simpa using hk), hk]
      cases m.find? k <;> rfl
    · rw [if_neg (Ne.symm hk), List.find?_cons_of_neg (by simpa using hk)]

theorem addAll_entries (m : OrderedMap κ α) : empty.addAll m.entries = m :=
  ext_find? fun k => by rw [find?_addAll, find?_empty, none_or, find?]

theorem mem_keys_addAll {es : List (κ × α)} : k ∈
    (m.addAll es).keys ↔ k ∈ m.keys ∨ k ∈ es.map Prod.fst := by
  rw [mem_keys, mem_keys, find?_addAll, isSome_or, Bool.or_eq_true, isSome_map, List.find?_isSome]
  simp

omit [DecidableLT κ] [Std.IsLinearOrder κ] in
theorem find?_filter {p : κ → α → Bool} : (m.filter p).find? k = (m.find? k).filter (p k) := by
  refine Option.ext fun a => ?_
  rw [filter_eq_some_iff, find?_eq_some, find?_eq_some, filter, mem_filter]

omit [DecidableLT κ] [Std.IsLinearOrder κ] in
theorem find?_filterMap {β : Type*} (f : κ → α → Option β) : (m.filterMap f).find? k =
    (m.find? k).bind (f k) := by
  refine Option.ext fun b => ?_
  rw [find?_eq_some, filterMap, mem_filterMap, bind_eq_some_iff]
  constructor
  · rintro ⟨e, he, hb⟩
    obtain ⟨b', hf, heq⟩ := map_eq_some_iff.mp hb
    cases heq
    exact ⟨e.2, find?_eq_some.mpr he, hf⟩
  · rintro ⟨a, ha, hf⟩
    exact ⟨(k, a), find?_eq_some.mp ha, by rw [hf]; rfl⟩

omit [DecidableLT κ] [Std.IsLinearOrder κ] in
theorem find?_erase : (m.erase k).find? k' = if k' = k then none else m.find? k' := by
  rw [erase, find?_filter]
  by_cases hk : k' = k <;> cases m.find? k' <;> simp [Option.filter, hk]

theorem set_eq_self (h : m.find? k = some a) : m.set k a = m := by
  refine ext_find? fun k' => ?_
  rw [find?_set]
  split_ifs with hk
  · rw [hk, h]
  · rfl

theorem set_set (b : α) : (m.set k a).set k b = m.set k b := by
  refine ext_find? fun k' => ?_
  simp only [find?_set]
  split_ifs <;> rfl

omit [DecidableLT κ] [Std.IsLinearOrder κ] in
theorem perm_entries_erase (h : m.find? k = some a) :
    m.entries.Perm ((k, a) :: (m.erase k).entries) := by
  have absent : (k, a) ∉ (m.erase k).entries := fun hmem => by
    have hfind := find?_eq_some.mpr hmem
    rw [find?_erase, if_pos rfl] at hfind
    cases hfind
  refine (perm_ext_iff_of_nodup nodup_entries (nodup_cons.mpr ⟨absent, nodup_entries⟩)).mpr
    fun e => ?_
  rw [mem_cons, ← find?_eq_some (a := e.2), ← find?_eq_some (a := e.2), find?_erase]
  by_cases hk : e.1 = k
  · rw [if_pos hk, hk, h, some_inj, Prod.ext_iff]
    simp [hk, eq_comm]
  · rw [if_neg hk, Prod.ext_iff]
    simp [hk]

theorem erase_set : (m.set k a).erase k = m.erase k := by
  refine ext_find? fun k' => ?_
  simp only [find?_erase, find?_set]
  split_ifs <;> rfl

omit [DecidableLT κ] in
theorem erase_eq_self (h : m.find? k = none) : m.erase k = m := by
  refine ext_find? fun k' => ?_
  rw [find?_erase]
  split_ifs with hk
  · rw [hk, h]
  · rfl

omit [DecidableLT κ] [Std.IsLinearOrder κ] in
theorem keys_subset {β : Type*} {m' : OrderedMap κ β}
    (sub : ∀ k, (m.find? k).isSome → (m'.find? k).isSome) :
    m.keys ⊆ m'.keys := fun k hk => mem_keys.mpr (sub k (mem_keys.mp hk))

omit [DecidableLT κ] [Std.IsLinearOrder κ] in
theorem length_entries_le {β : Type*} {m' : OrderedMap κ β}
    (sub : ∀ k, (m.find? k).isSome → (m'.find? k).isSome) :
    m.entries.length ≤ m'.entries.length := by
  have le := (nodup_keys.subperm (keys_subset sub)).length_le
  rwa [keys, keys, length_map, length_map] at le

omit [DecidableLT κ] [Std.IsLinearOrder κ] in
theorem isSome_of_length_le {β : Type*} {m' : OrderedMap κ β}
    (sub : ∀ k, (m.find? k).isSome → (m'.find? k).isSome)
    (le : m'.entries.length ≤ m.entries.length) (hk : (m'.find? k).isSome) :
    (m.find? k).isSome := by
  have le : m'.keys.length ≤ m.keys.length := by rwa [keys, keys, length_map, length_map]
  have perm := (nodup_keys.subperm (keys_subset sub)).perm_of_length_le le
  exact mem_keys.mp (perm.mem_iff.mpr (mem_keys.mpr hk))

theorem length_entries_set (new : m.find? k = none) :
    (m.set k a).entries.length = m.entries.length + 1 := by
  rw [(perm_entries_erase find?_set_self).length_eq, erase_set, erase_eq_self new]
  rfl

theorem length_entries_set_le (m : OrderedMap κ α) (k : κ) (a : α) :
    (m.set k a).entries.length ≤ m.entries.length + 1 := by
  rw [(perm_entries_erase find?_set_self).length_eq, erase_set]
  exact Nat.succ_le_succ (length_filter_le _ _)

theorem length_entries_add (new : m.find? k = none) :
    (m.add k a).entries.length = m.entries.length + 1 := by
  rw [add, if_neg (by rw [new]; exact Bool.false_ne_true), length_entries_set new]

theorem length_le_addAll (m : OrderedMap κ α) : m.entries.length ≤
    (m.addAll es).entries.length := by
  refine length_entries_le fun k hk => ?_
  rw [find?_addAll, isSome_or, hk, Bool.true_or]

theorem length_addAll_le (m : OrderedMap κ α) :
    (m.addAll es).entries.length ≤ m.entries.length + es.length := by
  induction es generalizing m with
  | nil => exact Nat.le_refl _
  | cons e es ih =>
    have one : (m.add e.1 e.2).entries.length ≤ m.entries.length + 1 := by
      rw [add]
      split_ifs
      · exact Nat.le_succ _
      · exact length_entries_set_le m e.1 e.2
    rw [addAll_cons, length_cons]
    exact Nat.le_trans (ih _) (by omega)

section Loop

variable {σ β : Type*} (step : σ → κ × α → σ) (Inv : σ → Prop) (look : σ → κ → β)
    (own : κ × α → β → β)

omit [DecidableLT κ] [Std.IsLinearOrder κ] in
theorem foldl_entries (m : OrderedMap κ α) (st : σ) (init : Inv st)
    (keep : ∀ st, ∀ e ∈ m.entries, Inv st → Inv (step st e) ∧ ∀ k, look (step st e) k =
      if k = e.1 then own e (look st k) else look st k) :
    Inv (m.entries.foldl step st) ∧
      (∀ k a, m.find? k = some a → look (m.entries.foldl step st) k = own (k, a) (look st k)) ∧
      ∀ k, m.find? k = none → look (m.entries.foldl step st) k = look st k := by
  have loop : ∀ es : List (κ × α), (es.map Prod.fst).Nodup → (∀ e ∈ es, e ∈ m.entries) →
    ∀ st, Inv st →
      Inv (es.foldl step st) ∧ (∀ e ∈ es, look (es.foldl step st) e.1 = own e (look st e.1)) ∧
      ∀ k, k ∉ es.map Prod.fst → look (es.foldl step st) k = look st k := by
    intro es
    induction es with
    | nil => exact fun _ _ st hst => ⟨hst, fun e he => absurd he not_mem_nil, fun _ _ => rfl⟩
    | cons e es ih =>
      intro nodup sub st hst
      obtain ⟨new, nodup⟩ := nodup_cons.mp nodup
      obtain ⟨hstep, look_step⟩ := keep st e (sub e mem_cons_self) hst
      obtain ⟨hrest, found, kept⟩ := ih nodup (fun e' he' => sub e' (mem_cons_of_mem e he')) _ hstep
      refine ⟨hrest, fun e' he' => ?_, fun k hk => ?_⟩
      · rcases mem_cons.mp he' with rfl | he'
        · rw [foldl_cons, kept e'.1 new, look_step, if_pos rfl]
        · have ne : e'.1 ≠ e.1 := fun heq => new (heq ▸ mem_map_of_mem he')
          rw [foldl_cons, found e' he', look_step, if_neg ne]
      · obtain ⟨ne, hk⟩ := not_or.mp (mem_cons.not.mp hk)
        rw [foldl_cons, kept k hk, look_step, if_neg ne]
  obtain ⟨inv, found, kept⟩ := loop m.entries nodup_keys (fun _ he => he) st init
  exact ⟨inv, fun k a hk => found (k, a) (find?_eq_some.mp hk), fun k hk =>
    kept k (find?_eq_none.mp hk)⟩

end Loop

def All (P : κ → α → Prop) (m : OrderedMap κ α) : Prop := ∀ k a, m.find? k = some a → P k a

variable {P Q : κ → α → Prop}

omit [LE κ] [DecidableLT κ] [Std.IsLinearOrder κ] [Std.LawfulOrderLT κ] in
theorem all_empty : All P (empty : OrderedMap κ α) := fun _ _ h => by cases h

omit [LE κ] [DecidableLT κ] [Std.IsLinearOrder κ] [Std.LawfulOrderLT κ] in
theorem All.imp (h : All P m) (imp : ∀ k a, m.find? k = some a → P k a → Q k a) : All Q m :=
  fun k a hk => imp k a hk (h k a hk)

theorem All.add (h : All P m) (new : P k a) : All P (m.add k a) := by
  intro k' b hb
  rw [find?_add] at hb
  split_ifs at hb with hk
  · subst hk
    cases hold : m.find? k' with
    | none =>
      rw [hold] at hb
      cases hb
      exact new
    | some b' =>
      rw [hold] at hb
      cases hb
      exact h k' b' hold
  · exact h k' b hb

theorem All.set (h : All P m) (new : P k a) : All P (m.set k a) := by
  intro k' b hb
  rw [find?_set] at hb
  split_ifs at hb with hk
  · cases hb
    exact hk ▸ new
  · exact h k' b hb

theorem All.update (h : All P m) (new : (m.find? k).isSome → P k a) : All P (m.update k a) := by
  intro k' b hb
  rw [find?_update] at hb
  split_ifs at hb with hk
  · subst hk
    obtain ⟨b', hb', rfl⟩ := map_eq_some_iff.mp hb
    exact new (isSome_of_mem hb')
  · exact h k' b hb

omit [DecidableLT κ] [Std.IsLinearOrder κ] in
theorem All.filter (h : All P m) (p : κ → α → Bool) : All P (m.filter p) := by
  intro k' b hb
  rw [find?_filter] at hb
  exact h k' b (filter_eq_some_iff.mp hb).1

omit [DecidableLT κ] [Std.IsLinearOrder κ] in
theorem All.erase (h : All P m) (k : κ) : All P (m.erase k) := h.filter _

end OrderedMap

end Egsr.Lib
