import Mathlib.Algebra.Order.Monoid.Defs
import Mathlib.Data.List.Nodup
import Mathlib.Data.Set.Insert

/-! Shortest paths from a source by settling vertices one after the other, the
nearest first. `Labelled` says what the labels mean while the search goes on: a
label below the infinite one is the length of a path over settled vertices that
the parents lead back along, and no settled vertex can improve a label. -/

namespace Egsr.Lib.ShortestPath

open List

variable {V W : Type*} [AddCommMonoid W] [LinearOrder W] [IsOrderedAddMonoid W]

/-- The vertices after the first one, with the last one and the cost. -/
inductive Walk (cost : V → V → Option W) : V → List V → V → W → Prop where
  | nil (u : V) : Walk cost u [] u 0
  | cons {u v t : V} {p : List V} {w c : W} (edge : cost u v = some w) (rest : Walk cost v p t c) :
      Walk cost u (v :: p) t (w + c)

/-- The way back along the parents, over settled vertices, and read forward. -/
inductive Back (settled : Set V) (parent : V → Option V) (src : V) : V → List V → Prop where
  | source : Back settled parent src src []
  | step {u v : V} {p : List V} (ne : v ≠ src) (up : parent v = some u) (mem : u ∈ settled)
      (rest : Back settled parent src u p) : Back settled parent src v (p ++ [v])

section Paths

variable {cost : V → V → Option W} {settled settled' : Set V} {parent parent' : V → Option V}
    {src u v t : V}
  {p q : List V} {w c : W}

omit [LinearOrder W] [IsOrderedAddMonoid W] in
theorem Walk.snoc (walk : Walk cost u p v c) (edge : cost v t = some w) : Walk cost u (p ++ [t]) t
    (c + w) := by
  induction walk with
  | nil u =>
    have single := Walk.cons edge (Walk.nil t)
    rwa [add_comm] at single
  | cons first _ ih =>
    rw [add_assoc]
    exact .cons first (ih edge)

omit [LinearOrder W] [IsOrderedAddMonoid W] in
theorem Walk.append {c' : W} (walk : Walk cost u p v c) (rest : Walk cost v q t c') :
    Walk cost u (p ++ q) t (c + c') := by
  induction walk with
  | nil u =>
    rw [zero_add]
    exact rest
  | cons first _ ih =>
    rw [add_assoc]
    exact .cons first (ih rest)

theorem Back.mono (back : Back settled parent src v p) (sub : settled ⊆ settled')
    (same : ∀ u ∈ settled, parent' u = parent u) (last : parent' v = parent v) :
      Back settled' parent' src v p := by
  induction back with
  | source => exact .source
  | step ne up mem _ ih => exact .step ne (last.trans up) (sub mem) (ih (same _ mem))

theorem Back.unique (hp : Back settled parent src v p) (hq : Back settled parent src v q) :
    p = q := by
  induction hp generalizing q with
  | source =>
    cases hq with
    | source => rfl
    | step ne => exact absurd rfl ne
  | step ne up _ _ ih =>
    cases hq with
    | source => exact absurd rfl ne
    | step _ up' _ rest =>
      rw [up] at up'
      cases up'
      rw [ih rest]

section

variable (back : Back settled parent src v p)

include back

theorem Back.part {x : V} (hx : x ∈ p) :
    ∃ q r, p = q ++ r ∧ q ≠ [] ∧ Back settled parent src x q := by
  induction back with
  | source => cases hx
  | @step u v p ne up mem rest ih =>
    rcases mem_append.mp hx with hx | hx
    · obtain ⟨q, r, rfl, hq, back⟩ := ih hx
      exact ⟨q, r ++ [v], by rw [append_assoc], hq, back⟩
    · rw [mem_singleton.mp hx]
      exact ⟨p ++ [v], [], (append_nil _).symm, by simp, .step ne up mem rest⟩

theorem Back.ne_source : ∀ x ∈ p, x ≠ src := by
  induction back with
  | source => simp
  | step ne _ _ _ ih => exact forall_mem_append.mpr ⟨ih, forall_mem_singleton.mpr ne⟩

theorem Back.nodup : p.Nodup := by
  induction back with
  | source => exact nodup_nil
  | @step u v p ne up mem rest ih =>
    refine nodup_append.mpr ⟨ih, nodup_singleton v, fun x hx y hy heq => ?_⟩
    rw [mem_singleton] at hy
    subst hy
    subst heq
    -- a vertex on its own way back would have two of them
    obtain ⟨q, r, rfl, -, back⟩ := rest.part hx
    have heq := congrArg List.length (back.unique (.step ne up mem rest))
    simp only [length_append, length_cons, length_nil] at heq
    omega

theorem Back.getLast? (ne : v ≠ src) : p.getLast? = some v := by
  cases back with
  | source => exact absurd rfl ne
  | step => simp

end

end Paths

/-! ## Labels -/

structure Labelled (cost : V → V → Option W) (inf : W) (src : V) (settled : Set V) (dist : V → W)
    (parent : V → Option V) : Prop where
  source : dist src = 0
  nonneg : ∀ v, 0 ≤ dist v
  bounded : ∀ v, dist v ≤ inf
  reached : ∀ v, dist v < inf → ∃ p, Back settled parent src v p ∧ Walk cost src p v (dist v)
  relaxed : ∀ u ∈ settled, ∀ v w, cost u v = some w → dist v ≤ dist u + w
  ordered : ∀ u ∈ settled, ∀ v, v ∉ settled → dist u ≤ dist v

section Search

variable {cost : V → V → Option W} {inf : W} {src : V} {settled : Set V} {dist dist' : V → W}
  {parent parent' : V → Option V} {u v t : V} {p : List V} {w c : W}

omit [IsOrderedAddMonoid W] in
theorem labelled_start [DecidableEq V] (cost : V → V → Option W) (src : V) (hinf : 0 ≤ inf) :
    Labelled cost inf src ∅ (fun v => if v = src then 0 else inf) fun _ => none where
  source := if_pos rfl
  nonneg v := by
    split_ifs
    · exact le_rfl
    · exact hinf
  bounded v := by
    split_ifs
    · exact hinf
    · exact le_rfl
  reached v hv := by
    by_cases heq : v = src
    · subst heq
      rw [if_pos rfl]
      exact ⟨[], .source, .nil v⟩
    · rw [if_neg heq] at hv
      exact absurd hv (lt_irrefl inf)
  relaxed u hu := hu.elim
  ordered u hu := hu.elim

theorem Labelled.unsettled_of_lt (h : Labelled cost inf src settled dist parent) (ht : t ∉ settled)
    (hw : 0 ≤ w) (better : dist t + w < dist v) : v ∉ insert t settled ∧ v ≠ src := by
  have away : dist t ≤ dist t + w := le_add_of_nonneg_right hw
  refine ⟨fun hmem => ?_, fun heq => ?_⟩
  · rcases hmem with rfl | hmem
    · exact absurd better (not_lt.mpr away)
    · exact absurd better (not_lt.mpr ((h.ordered v hmem t ht).trans away))
  · rw [heq, h.source] at better
    exact absurd better (not_lt.mpr ((h.nonneg t).trans away))

theorem Labelled.settle (h : Labelled cost inf src settled dist parent) (ht : t ∉ settled)
    (least : ∀ v, v ∉ settled → dist t ≤ dist v) (nonneg : ∀ v w, cost t v = some w → 0 ≤ w)
    (changed : ∀ v, dist' v = dist v ∧ parent' v = parent v ∨
      (∃ w, cost t v = some w ∧ dist' v = dist t + w) ∧ dist' v ≤ dist v ∧ parent' v = some t ∧
        v ∉ insert t settled ∧ v ≠ src)
    (improved : ∀ v w, cost t v = some w → dist' v ≤ dist t + w) :
    Labelled cost inf src (insert t settled) dist' parent' := by
  have kept : ∀ v ∈ insert t settled, dist' v = dist v ∧ parent' v = parent v := fun v hv =>
    (changed v).resolve_right fun hnew => hnew.2.2.2.1 hv
  have lower : ∀ v, dist' v ≤ dist v :=
    fun v => (changed v).elim (fun hsame => hsame.1.le) fun hnew => hnew.2.1
  have far : ∀ v, v ∉ settled → dist t ≤ dist' v := by
    intro v hv
    rcases changed v with hsame | ⟨⟨w, hw, hdist⟩, -⟩
    · exact hsame.1 ▸ least v hv
    · rw [hdist]
      exact le_add_of_nonneg_right (nonneg v w hw)
  have back : ∀ v p, parent' v = parent v → Back settled parent src v p →
    Back (insert t settled) parent' src v p :=
    fun v p hsame hback => hback.mono (Set.subset_insert t settled)
      (fun u hu => (kept u (Set.mem_insert_of_mem t hu)).2) hsame
  refine ⟨?_, fun v => ?_, fun v => (lower v).trans (h.bounded v), fun v hv =>
    ?_, fun u hu v w hw => ?_, fun u hu v hv => ?_⟩
  · have same := (changed src).resolve_right fun hnew => hnew.2.2.2.2 rfl
    rw [same.1, h.source]
  · rcases changed v with hsame | ⟨⟨w, hw, hdist⟩, -⟩
    · exact hsame.1 ▸ h.nonneg v
    · exact hdist ▸ add_nonneg (h.nonneg t) (nonneg v w hw)
  · rcases changed v with hsame | ⟨⟨w, hw, hdist⟩, -, hparent, -, hsrc⟩
    · obtain ⟨p, hback, hwalk⟩ := h.reached v (hsame.1 ▸ hv)
      exact ⟨p, back v p hsame.2 hback, hsame.1.symm ▸ hwalk⟩
    · have reached : dist t < inf := (le_add_of_nonneg_right (nonneg v w hw)).trans_lt (hdist ▸ hv)
      obtain ⟨p, hback, hwalk⟩ := h.reached t reached
      have hback := back t p (kept t (Set.mem_insert t settled)).2 hback
      exact ⟨p ++ [v], .step hsrc hparent (Set.mem_insert t settled) hback,
        hdist.symm ▸ hwalk.snoc hw⟩
  · rw [(kept u hu).1]
    rcases hu with rfl | hu
    · exact improved v w hw
    · exact (lower v).trans (h.relaxed u hu v w hw)
  · have hv' : v ∉ settled := fun hmem => hv (Set.mem_insert_of_mem t hmem)
    rw [(kept u hu).1]
    rcases hu with rfl | hu
    · exact far v hv'
    · exact (h.ordered u hu t ht).trans (far v hv')

theorem Walk.cost_nonneg (walk : Walk cost u p v c) (nonneg : ∀ u v w, cost u v = some w → 0 ≤ w) :
    0 ≤ c := by
  induction walk with
  | nil => exact le_rfl
  | cons edge _ ih => exact add_nonneg (nonneg _ _ _ edge) ih

theorem Labelled.escape (h : Labelled cost inf src settled dist parent)
    (nonneg : ∀ u v w, cost u v = some w → 0 ≤ w) (walk : Walk cost u p v c) (hu : u ∈ settled) :
    dist v ≤ dist u + c ∨ ∃ x, x ∉ settled ∧ dist x ≤ dist u + c := by
  induction walk with
  | nil u => exact .inl (add_zero (dist u)).ge
  | @cons u x t p w c edge rest ih =>
    have step := h.relaxed u hu x w edge
    by_cases hx : x ∈ settled
    · have hsum : dist x + c ≤ dist u + (w + c) := by
        rw [← add_assoc]
        exact add_le_add_left step c
      exact (ih hx).imp (fun hle => hle.trans hsum) fun ⟨z, hz, hle⟩ => ⟨z, hz, hle.trans hsum⟩
    · refine .inr ⟨x, hx, step.trans ?_⟩
      rw [← add_assoc]
      exact le_add_of_nonneg_right (rest.cost_nonneg nonneg)

theorem Labelled.le_cost (h : Labelled cost inf src settled dist parent)
    (nonneg : ∀ u v w, cost u v = some w → 0 ≤ w) (least : ∀ v, v ∉ settled → dist t ≤ dist v)
    (walk : Walk cost src p t c) : dist t ≤ c := by
  by_cases hsrc : src ∈ settled
  · have hescape := h.escape nonneg walk hsrc
    rw [h.source, zero_add] at hescape
    rcases hescape with hle | ⟨x, hx, hle⟩
    · exact hle
    · exact (least x hx).trans hle
  · have hle := least src hsrc
    rw [h.source] at hle
    exact hle.trans (walk.cost_nonneg nonneg)

end Search

end Egsr.Lib.ShortestPath
