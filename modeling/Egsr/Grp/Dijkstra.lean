import Egsr.Grp.Road

/-! The two shortest-path searches. The first runs over the junctions and a
virtual vertex for the vehicle and lists the vertices after the source; the
second runs over the junctions and gives the first hop. The arrays are given a
cell for every index the loops use. -/

namespace Egsr.Grp.Dijkstra

open Grp.Road Lib.Outcome List Function

/-- The local arrays; `none` is the parent `-1`. -/
structure Search where
  visited : ℕ → Bool
  distance : ℕ → ℚ
  parent : ℕ → Option ℕ

def Search.start (srcjid : ℕ) : Search where
  visited _ := false
  distance j := if j = srcjid then 0 else infinite
  parent _ := none

def Search.visit (s : Search) (t : ℕ) : Search :=
  { s with visited := update s.visited t true }

def Search.reach (s : Search) (j t : ℕ) (d : ℚ) : Search :=
  { s with
    distance := update s.distance j d
    parent := update s.parent j (some t) }

/-! ## With the virtual vertex -/

@[irreducible] def select (s : Search) : Option ℕ :=
  (range (mJuncNum + 1)).foldl (fun t j =>
    if s.visited j then t
    else match t with
      | none => some j
      | some t' => if s.distance j < s.distance t' then some j else some t') none

variable (graph : Grid (mJuncNum + 2) ℚ)

@[irreducible] def relax (t : ℕ) (s : Search) : Search :=
  (range (mJuncNum + 1)).foldl (fun s j =>
    if graph.cell t j ≠ infinite then
      if s.distance t + graph.cell t j < s.distance j then
        s.reach j t (s.distance t + graph.cell t j)
      else s
    else s) s

def search (graph : Grid (mJuncNum + 2) ℚ) (dstjid : ℕ) : ℕ → Search → Search
  | 0, s => s
  | rounds + 1, s =>
    match select s with
    | none => s
    | some t =>
      if t = dstjid then s
      else search graph dstjid rounds (relax graph t (s.visit t))

/-- Follows the parents from `jid` back to the source. A walk longer than the
number of vertices never ends, and the parent `-1` has no parent. -/
def walkBack (parent : ℕ → Option ℕ) (srcjid : ℕ) : ℕ → ℕ → List UInt16 →
    Except Fault (List UInt16)
  | 0, _, _ => throw .walk
  | steps + 1, jid, path =>
    if jid = srcjid then pure path
    else
      match parent jid with
      | none => throw .walk
      | some next => walkBack parent srcjid steps next (.ofNat jid :: path)

def dijkstraAlgorithm (srcjid dstjid : ℕ) : Except Fault (List UInt16) :=
  if srcjid = dstjid then pure [.ofNat dstjid]
  else if mJuncNum < srcjid ∨ mJuncNum < dstjid then throw .junction
  else
    let s := search graph dstjid (mJuncNum + 1) (Search.start srcjid)
    if s.distance dstjid = infinite then pure []
    else walkBack s.parent srcjid (mJuncNum + 2) dstjid []

/-- What a path of the search looks like: it ends in the destination, does not
come back to the source, and is no longer than there are vertices. -/
structure PathTo (srcjid dstjid : ℕ) (path : List UInt16) : Prop where
  last : path.getLast? = some (.ofNat dstjid)
  avoids : srcjid ≠ dstjid → ∀ jid ∈ path, jid.toNat ≠ srcjid
  short : path.length ≤ mJuncNum + 1

def InArrays (s : Search) : Prop := ∀ j t, s.parent j = some t → t ≤ mJuncNum

theorem inArrays_reach {s : Search} (h : InArrays s) {j t : ℕ} (ht : t ≤ mJuncNum) (d : ℚ) :
    InArrays (s.reach j t d) := by
  intro k u hk
  simp only [Search.reach, update_apply] at hk
  by_cases hkj : k = j
  · rw [if_pos hkj, Option.some_inj] at hk
    exact hk ▸ ht
  · rw [if_neg hkj] at hk
    exact h k u hk

theorem inArrays_relax {graph : Grid (mJuncNum + 2) ℚ} {s : Search} (h : InArrays s) {t : ℕ}
    (ht : t ≤ mJuncNum) : InArrays (relax graph t s) := by
  unfold relax
  refine foldlRecOn (motive := InArrays) _ _ h fun s hs j _ => ?_
  by_cases hedge : graph.cell t j ≠ infinite
  · rw [if_pos hedge]
    by_cases hless : s.distance t + graph.cell t j < s.distance j
    · rw [if_pos hless]
      exact inArrays_reach hs ht _
    · rwa [if_neg hless]
  · rwa [if_neg hedge]

theorem select_le {s : Search} {t : ℕ} (h : select s = some t) : t ≤ mJuncNum := by
  have hall : ∀ t, select s = some t → t ≤ mJuncNum := by
    unfold select
    refine foldlRecOn (motive := fun acc => ∀ t, acc = some t → t ≤ mJuncNum) _ _
      (fun t ht => by cases ht) fun acc hacc j hj t ht => ?_
    have hj' : j ≤ mJuncNum := Nat.lt_succ_iff.mp (mem_range.mp hj)
    by_cases hv : s.visited j
    · rw [if_pos hv] at ht
      exact hacc t ht
    · rw [if_neg hv] at ht
      cases acc with
      | none =>
        cases ht
        exact hj'
      | some t' =>
        by_cases hlt : s.distance j < s.distance t'
        · simp only [if_pos hlt, Option.some_inj] at ht
          exact ht ▸ hj'
        · simp only [if_neg hlt] at ht
          exact hacc t ht
  exact hall t h

theorem inArrays_search {graph : Grid (mJuncNum + 2) ℚ} {dstjid : ℕ} (rounds : ℕ) {s : Search}
    (h : InArrays s) : InArrays (search graph dstjid rounds s) := by
  induction rounds generalizing s with
  | zero => exact h
  | succ rounds ih =>
    rw [search]
    cases hsel : select s with
    | none => exact h
    | some t =>
      by_cases hdst : t = dstjid
      · simpa only [hdst, if_true] using h
      · have hvisit : InArrays (s.visit t) := h
        simp only [hdst, if_false]
        exact ih (inArrays_relax hvisit (select_le hsel))

theorem toNat_ofNat_junction {j : ℕ} (h : j ≤ mJuncNum) : (UInt16.ofNat j).toNat = j := by
  have hsmall : mJuncNum < 2 ^ 16 := by decide
  rw [UInt16.toNat_ofNat', Nat.mod_eq_of_lt (lt_of_le_of_lt h hsmall)]

theorem walkBack_spec {parent : ℕ → Option ℕ} (inArrays : ∀ j t, parent j = some t → t ≤ mJuncNum)
    {srcjid : ℕ} (steps : ℕ) {jid : ℕ} (hjid : jid ≤ mJuncNum) {path result : List UInt16}
    (h : walkBack parent srcjid steps jid path = .ok result) :
    ∃ front, result = front ++ path ∧ front.length + 1 ≤ steps ∧ (∀ j ∈ front, j.toNat ≠ srcjid) ∧
      (jid ≠ srcjid → front.getLast? = some (.ofNat jid)) := by
  induction steps generalizing jid path with
  | zero => cases h
  | succ steps ih =>
    rw [walkBack] at h
    by_cases hsrc : jid = srcjid
    · rw [if_pos hsrc] at h
      cases h
      exact ⟨[], rfl, by simp, by simp, fun hne => absurd hsrc hne⟩
    · rw [if_neg hsrc] at h
      cases hp : parent jid with
      | none =>
        rw [hp] at h
        cases h
      | some next =>
        rw [hp] at h
        obtain ⟨front, hres, hlen, hne, -⟩ := ih (inArrays jid next hp) h
        refine ⟨front ++ [.ofNat jid], by simp [hres], by simp; omega, ?_, by simp⟩
        intro j hj
        cases mem_append.mp hj with
        | inl hin => exact hne j hin
        | inr hin =>
          rw [mem_singleton.mp hin, toNat_ofNat_junction hjid]
          exact hsrc

theorem walkBack_error {parent : ℕ → Option ℕ} {srcjid steps jid : ℕ} {path : List UInt16}
    {e : Fault} (h : walkBack parent srcjid steps jid path = .error e) : e = .walk := by
  induction steps generalizing jid path with
  | zero =>
    cases h
    rfl
  | succ steps ih =>
    rw [walkBack] at h
    by_cases hsrc : jid = srcjid
    · rw [if_pos hsrc] at h
      cases h
    · rw [if_neg hsrc] at h
      cases hp : parent jid with
      | none =>
        rw [hp] at h
        cases h
        rfl
      | some next =>
        rw [hp] at h
        exact ih h

theorem dijkstraAlgorithm_spec (srcjid dstjid : ℕ) : Ensures (dijkstraAlgorithm graph srcjid dstjid)
      (fun path => path = [] ∨ PathTo srcjid dstjid path) (fun e => e = .junction ∨ e = .walk) := by
  unfold dijkstraAlgorithm
  refine Ensures.ite (fun heq => ?_) fun hne => Ensures.ite (fun _ => .inl rfl) fun hle => ?_
  · exact .inr ⟨by simp, fun hne => absurd heq hne, by simp⟩
  · dsimp only
    refine Ensures.ite (fun _ => .inl rfl) fun _ => ?_
    refine ensures_iff.mpr ⟨fun path hpath => .inr ?_, fun e he => .inr (walkBack_error he)⟩
    have hin : InArrays (search graph dstjid (mJuncNum + 1) (Search.start srcjid)) :=
      inArrays_search _ (by simp [InArrays, Search.start])
    obtain ⟨front, rfl, hlen, hfront, hlast⟩ := walkBack_spec hin _ (by omega) hpath
    rw [append_nil]
    exact ⟨hlast (Ne.symm hne), fun _ => hfront, by omega⟩

theorem dijkstraAlgorithm_self (jid : ℕ) :
    dijkstraAlgorithm graph jid jid = .ok [.ofNat jid] := if_pos rfl

variable (graph2 : Grid mJuncNum ℚ)

/-- The inner loop of `DijkstraAlgorithm2`: relaxes the edges of `curr` and
tracks the unvisited junction of least distance below `min`. -/
@[irreducible] def relax2 (curr : ℕ) (s : Search) (next : Option ℕ) : Search × Option ℕ :=
  let r := (range mJuncNum).foldl (fun (r : Search × Option ℕ × ℚ) n =>
    let (s, next, min) := r
    if s.visited n then r
    else
      let s := if s.distance curr + graph2.cell curr n < s.distance n then
        s.reach n curr (s.distance curr + graph2.cell curr n) else s
      if s.distance n < min then (s, some n, s.distance n) else (s, next, min))
    (s, next, infinite)
  (r.1, r.2.1)

/-- The outer loop; `next` keeps its value between rounds, and a round that
leaves it at `-1` marks a junction outside the array. -/
def search2 (graph2 : Grid mJuncNum ℚ) : ℕ → ℕ → Option ℕ → Search → Except Fault Search
  | 0, _, _, s => pure s
  | rounds + 1, curr, next, s =>
    let r := relax2 graph2 curr s next
    match r.2 with
    | none => throw .junction
    | some n => search2 graph2 rounds n r.2 (r.1.visit n)

/-- Follows the parents from `jid` until the junction before it is the source or
it is not positive any more. -/
def walkBack2 (parent : ℕ → Option ℕ) (srcjid : ℕ) : ℕ → ℕ → Except Fault ℤ
  | 0, _ => throw .walk
  | steps + 1, jid =>
    if jid = 0 then pure 0
    else
      match parent jid with
      | none => pure (-1)
      | some p => if p = srcjid then pure jid else walkBack2 parent srcjid steps p

def dijkstraAlgorithm2 (srcjid dstjid : ℕ) : Except Fault ℤ := do
  if mJuncNum ≤ srcjid ∨ mJuncNum ≤ dstjid then throw .junction
  let s ← search2 graph2 mJuncNum srcjid none ((Search.start srcjid).visit srcjid)
  walkBack2 s.parent srcjid (mJuncNum + 1) dstjid

theorem search2_spec (rounds curr : ℕ) (next : Option ℕ) (s : Search) :
    OnlyJunction (search2 graph2 rounds curr next s) := by
  induction rounds generalizing curr next s with
  | zero => trivial
  | succ rounds ih =>
    unfold search2
    generalize relax2 graph2 curr s next = r
    obtain ⟨s', next'⟩ := r
    cases next' with
    | none => exact rfl
    | some n => exact ih n (some n) (s'.visit n)

theorem walkBack2_spec (parent : ℕ → Option ℕ) (srcjid steps jid : ℕ) :
    Ensures (walkBack2 parent srcjid steps jid) (fun _ => True) (fun e => e = .walk) := by
  induction steps generalizing jid with
  | zero => exact rfl
  | succ steps ih =>
    rw [walkBack2]
    refine Ensures.ite (fun _ => trivial) fun _ => ?_
    cases parent jid with
    | none => trivial
    | some p => exact Ensures.ite (fun _ => trivial) fun _ => ih p

theorem dijkstraAlgorithm2_spec (srcjid dstjid : ℕ) :
    Ensures (dijkstraAlgorithm2 graph2 srcjid dstjid) (fun _ => True)
      (fun e => e = .junction ∨ e = .walk) := by
  unfold dijkstraAlgorithm2
  by_cases hout : mJuncNum ≤ srcjid ∨ mJuncNum ≤ dstjid
  · rw [if_pos hout]
    exact .inl rfl
  · rw [if_neg hout]
    have hsearch := search2_spec graph2 mJuncNum srcjid none ((Search.start srcjid).visit srcjid)
    have hleft : ∀ e : Fault, e = .junction → e = .junction ∨ e = .walk := fun _ he => .inl he
    refine (hsearch.mono (fun _ h => h) hleft).bind fun s _ => ?_
    exact (walkBack2_spec s.parent srcjid (mJuncNum + 1) dstjid).mono (fun _ h => h)
      fun e he => .inr he

end Egsr.Grp.Dijkstra
