import Mathlib.Logic.Relation
import Mathlib.Data.List.Nodup
import Mathlib.Data.Nat.Basic

/-! Distance-vector routing to one destination. Nodes hand their distances on
along links, which keep the order of what is in transit and may lose it; a node
takes a distance over that is not worse than its own. No node ever points to
one that is as far away as itself. -/

namespace Egsr.Lib.DistanceVector

open List Function

variable {R L : Type}

/-- A link leads from its source to its target, at the cost that the target adds. -/
structure Links (R L : Type) where
  src : L → R
  dst : L → R
  cost : L → ℕ
  cost_pos : ∀ l, 0 < cost l

/-- A distance, and the link it was received from, if the node is not attached itself. -/
structure Route (L : Type) where
  metric : ℕ
  via : Option L

abbrev Table (R L : Type) := R → Option (Route L)

/-- The distances in transit, the oldest first. -/
abbrev Queue (L : Type) := L → List ℕ

variable (net : Links R L)

def Within (table : Table R L) (r : R) (x : ℕ) : Prop := ∃ rt, table r = some rt ∧ rt.metric ≤ x

/-- What is in transit is not better than its source, nor worse than what follows it, unless the
target has something better already; who follows a link is not better than what is in transit. -/
structure Inv (table : Table R L) (queue : Queue L) : Prop where
  via : ∀ {r rt l}, table r = some rt → rt.via = some l →
    net.dst l = r ∧ ∃ rt', table (net.src l) = some rt' ∧ rt'.metric + net.cost l ≤ rt.metric
  sent : ∀ l, ∀ x ∈ queue l, Within table (net.src l) x
  order : ∀ l, (queue l).Pairwise fun y z =>
    z ≤ y ∨ ∃ rt, table (net.dst l) = some rt ∧ rt.metric < y + net.cost l
  follow : ∀ {l rt}, table (net.dst l) = some rt → rt.via = some l → ∀ x ∈ queue l,
    x + net.cost l ≤ rt.metric

/-- What a node may send: its distance, or a larger one to a node that it follows itself. -/
def Advertised (table : Table R L) (l : L) (x : ℕ) : Prop :=
  ∃ rt, table (net.src l) = some rt ∧
    (x = rt.metric ∨ rt.metric ≤ x ∧ ∃ l', rt.via = some l' ∧ net.src l' = net.dst l)

variable {net} {table : Table R L} {queue : Queue L}

theorem Inv.start (attached : ∀ r rt, table r = some rt → rt.via = none)
    (empty : ∀ l, queue l = []) : Inv net table queue where
  via hr hl := by rw [attached _ _ hr] at hl; cases hl
  sent l x hx := by simp [empty l] at hx
  order l := by simp [empty l]
  follow _ _ x hx := by simp [empty] at hx

/-! ## Steps -/

theorem Inv.lose (h : Inv net table queue) {queue' : Queue L}
    (sub : ∀ l, (queue' l).Sublist (queue l)) : Inv net table queue' where
  via := h.via
  sent l x hx := h.sent l x ((sub l).subset hx)
  order l := (h.order l).sublist (sub l)
  follow hr hl x hx := h.follow hr hl x ((sub _).subset hx)

theorem Inv.not_mutual (h : Inv net table queue) {l l' : L} {rt rt' : Route L}
    (at_src : table (net.src l) = some rt) (via : rt.via = some l') (back : net.src l' = net.dst l)
    (at_dst : table (net.dst l) = some rt') : rt'.metric < rt.metric := by
  obtain ⟨-, rt'', hrt'', hle⟩ := h.via at_src via
  rw [back, at_dst] at hrt''
  cases hrt''
  have hpos := net.cost_pos l'
  omega

theorem Inv.advertise [DecidableEq L] (h : Inv net table queue) {l : L} {x : ℕ}
    (adv : Advertised net table l x) : Inv net table (update queue l (queue l ++ [x])) := by
  obtain ⟨rt, hrt, hx⟩ := adv
  have hle : rt.metric ≤ x := hx.elim (fun heq => heq ▸ Nat.le_refl _) And.left
  refine ⟨h.via, fun k y hy => ?_, fun k => ?_, fun {k rt'} hk hvia y hy => ?_⟩
  · by_cases heq : k = l
    · subst heq
      rw [update_self] at hy
      rcases mem_append.mp hy with hy | hy
      · exact h.sent k y hy
      · rw [mem_singleton.mp hy]
        exact ⟨rt, hrt, hle⟩
    · rw [update_of_ne heq] at hy
      exact h.sent k y hy
  · by_cases heq : k = l
    · subst heq
      rw [update_self]
      refine pairwise_append.mpr ⟨h.order k, pairwise_singleton _ _, fun y hy z hz => ?_⟩
      rw [mem_singleton.mp hz]
      obtain ⟨rt₀, hrt₀, hy⟩ := h.sent k y hy
      rw [hrt] at hrt₀
      cases hrt₀
      rcases hx with rfl | ⟨-, l', hvia, hback⟩
      · exact .inl hy
      · -- the target is followed, and has something better
        obtain ⟨-, rt', hrt', hle'⟩ := h.via hrt hvia
        have hpos := net.cost_pos l'
        rw [hback] at hrt'
        exact .inr ⟨rt', hrt', by omega⟩
    · rw [update_of_ne heq]
      exact h.order k
  · by_cases heq : k = l
    · subst heq
      rw [update_self] at hy
      rcases mem_append.mp hy with hy | hy
      · exact h.follow hk hvia y hy
      · rw [mem_singleton.mp hy]
        obtain ⟨-, rt₀, hrt₀, hle₀⟩ := h.via hk hvia
        rw [hrt] at hrt₀
        cases hrt₀
        rcases hx with rfl | ⟨-, l', hvia', hback⟩
        · exact hle₀
        · have hlt := h.not_mutual hrt hvia' hback hk
          omega
    · rw [update_of_ne heq] at hy
      exact h.follow hk hvia y hy

theorem Inv.advertise_all [DecidableEq L] (h : Inv net table queue) {l : L} {xs : List ℕ}
    (adv : ∀ x ∈ xs, Advertised net table l x) :
    Inv net table (update queue l (queue l ++ xs)) := by
  induction xs generalizing queue with
  | nil =>
    rw [append_nil, update_eq_self]
    exact h
  | cons x xs ih =>
    have hsent := ih (h.advertise (adv x mem_cons_self)) fun y hy => adv y (mem_cons_of_mem _ hy)
    rwa [update_self, update_idem, append_assoc] at hsent

/-- The first distance in transit is taken over, and stays in transit. -/
theorem Inv.adopt [DecidableEq R] (h : Inv net table queue) {l : L} {x : ℕ} {rest : List ℕ}
    (head : queue l = x :: rest)
    (better : ∀ rt, table (net.dst l) = some rt → x + net.cost l ≤ rt.metric) :
    Inv net (update table (net.dst l) (some ⟨x + net.cost l, some l⟩)) queue := by
  have hpos := net.cost_pos l
  obtain ⟨rt₀, hrt₀, hle₀⟩ := h.sent l x (head ▸ mem_cons_self)
  -- a node does not take over a distance of its own
  have hsrc : net.src l ≠ net.dst l := by
    intro heq
    rw [heq] at hrt₀
    have hle := better rt₀ hrt₀
    omega
  -- no distance becomes larger
  have hdecrease : ∀ {r rt}, table r = some rt → ∃ rt', update table (net.dst l)
      (some ⟨x + net.cost l, some l⟩) r = some rt' ∧ rt'.metric ≤ rt.metric := by
    intro r rt hr
    by_cases heq : r = net.dst l
    · subst heq
      exact ⟨_, update_self .., better rt hr⟩
    · exact ⟨rt, (update_of_ne heq ..).trans hr, Nat.le_refl _⟩
  refine ⟨fun {r rt k} hr hvia => ?_, fun k y hy => ?_, fun k => ?_, fun {k rt} hr hvia y hy => ?_⟩
  · by_cases heq : r = net.dst l
    · subst heq
      rw [update_self] at hr
      cases hr
      cases hvia
      refine ⟨rfl, rt₀, (update_of_ne hsrc ..).trans hrt₀, Nat.add_le_add_right hle₀ _⟩
    · rw [update_of_ne heq] at hr
      obtain ⟨hdst, rt', hrt', hle⟩ := h.via hr hvia
      obtain ⟨rt'', hrt'', hle'⟩ := hdecrease hrt'
      exact ⟨hdst, rt'', hrt'', by omega⟩
  · obtain ⟨rt, hrt, hle⟩ := h.sent k y hy
    obtain ⟨rt', hrt', hle'⟩ := hdecrease hrt
    exact ⟨rt', hrt', Nat.le_trans hle' hle⟩
  · refine (h.order k).imp fun {y z} hyz => hyz.imp_right fun ⟨rt, hrt, hlt⟩ => ?_
    obtain ⟨rt', hrt', hle⟩ := hdecrease hrt
    exact ⟨rt', hrt', Nat.lt_of_le_of_lt hle hlt⟩
  · by_cases heq : net.dst k = net.dst l
    · rw [heq, update_self] at hr
      cases hr
      cases hvia
      have hsorted := h.order l
      rw [head] at hsorted hy
      rcases mem_cons.mp hy with rfl | hy
      · exact Nat.le_refl _
      · rcases (pairwise_cons.mp hsorted).1 y hy with hle | ⟨rt, hrt, hlt⟩
        · exact Nat.add_le_add_right hle _
        · have hle := better rt hrt
          omega
    · rw [update_of_ne heq] at hr
      exact h.follow hr hvia y hy

variable (net table) in
inductive Follows : R → List R → ℕ → Prop where
  | attached {r : R} {rt : Route L} (known : table r = some rt) (here : rt.via = none) :
      Follows r [r] rt.metric
  | hop {r : R} {rt : Route L} {l : L} {p : List R} {m : ℕ} (known : table r = some rt)
      (via : rt.via = some l) (rest : Follows (net.src l) p m) : Follows r (r :: p) (m + net.cost l)

/-- All nodes of a way are at most as far away as the first one, which is not nearer than the way
is long, and no node is met twice. -/
theorem Inv.follows (h : Inv net table queue) {r : R} {p : List R} {m : ℕ}
    (path : Follows net table r p m) {rt : Route L} (known : table r = some rt) :
    (∀ q ∈ p, Within table q rt.metric) ∧ m ≤ rt.metric ∧ p.Nodup := by
  induction path generalizing rt with
  | @attached r rt' known' _ =>
    obtain rfl : rt' = rt := Option.some.inj (known'.symm.trans known)
    refine ⟨fun q hq => ?_, Nat.le_refl _, nodup_singleton _⟩
    rw [mem_singleton.mp hq]
    exact ⟨rt', known, Nat.le_refl _⟩
  | @hop r rt' l p m known' via rest ih =>
    obtain rfl : rt' = rt := Option.some.inj (known'.symm.trans known)
    obtain ⟨-, rt₂, hrt₂, hle⟩ := h.via known via
    obtain ⟨hnodes, hcost, hnodup⟩ := ih hrt₂
    have hpos := net.cost_pos l
    refine ⟨fun q hq => ?_, by omega, nodup_cons.mpr ⟨fun hmem => ?_, hnodup⟩⟩
    · rcases mem_cons.mp hq with rfl | hq
      · exact ⟨rt', known, Nat.le_refl _⟩
      · obtain ⟨rt₁, hrt₁, hle₁⟩ := hnodes q hq
        exact ⟨rt₁, hrt₁, by omega⟩
    · obtain ⟨rt₁, hrt₁, hle₁⟩ := hnodes r hmem
      rw [known] at hrt₁
      cases hrt₁
      omega

theorem Inv.exists_follows (h : Inv net table queue) {r : R} {rt : Route L}
    (known : table r = some rt) : ∃ p m, Follows net table r p m := by
  induction hm : rt.metric using Nat.strong_induction_on generalizing r rt with
  | _ n ih =>
    cases hvia : rt.via with
    | none => exact ⟨[r], rt.metric, .attached known hvia⟩
    | some l =>
      obtain ⟨-, rt', hrt', hle⟩ := h.via known hvia
      have hpos := net.cost_pos l
      obtain ⟨p, m, hpath⟩ := ih rt'.metric (by omega) hrt' rfl
      exact ⟨r :: p, m + net.cost l, .hop known hvia hpath⟩

/-- Following links leads nearer and nearer, and never back. -/
theorem Inv.acyclic (h : Inv net table queue) (r : R) : ¬Relation.TransGen
    (fun r q => ∃ rt l, table r = some rt ∧ rt.via = some l ∧ net.src l = q) r r := by
  have hstep : ∀ {r q rt l rt'}, table r = some rt → rt.via = some l → net.src l = q →
      table q = some rt' → rt'.metric < rt.metric := by
    intro r q rt l rt' hr hvia hsrc hq
    obtain ⟨-, rt₁, hrt₁, hle⟩ := h.via hr hvia
    rw [hsrc, hq] at hrt₁
    cases hrt₁
    have hpos := net.cost_pos l
    omega
  have hnearer : ∀ {r q}, Relation.TransGen
      (fun r q => ∃ rt l, table r = some rt ∧ rt.via = some l ∧ net.src l = q) r q →
      ∃ rt rt', table r = some rt ∧ table q = some rt' ∧ rt'.metric < rt.metric := by
    intro r q htrans
    induction htrans with
    | single hrq =>
      obtain ⟨rt, l, hr, hvia, rfl⟩ := hrq
      obtain ⟨-, rt', hrt', -⟩ := h.via hr hvia
      exact ⟨rt, rt', hr, hrt', hstep hr hvia rfl hrt'⟩
    | tail _ hrq ih =>
      obtain ⟨rt₀, rt, hrt₀, hrt, hlt⟩ := ih
      obtain ⟨rt₁, l, hr, hvia, rfl⟩ := hrq
      rw [hrt] at hr
      cases hr
      obtain ⟨-, rt', hrt', -⟩ := h.via hrt hvia
      exact ⟨rt₀, rt', hrt₀, hrt', Nat.lt_trans (hstep hrt hvia rfl hrt') hlt⟩
  intro hback
  obtain ⟨rt, rt', hr, hr', hlt⟩ := hnearer hback
  rw [hr] at hr'
  cases hr'
  exact Nat.lt_irrefl _ hlt

end Egsr.Lib.DistanceVector
