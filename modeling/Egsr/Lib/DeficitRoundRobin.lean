import Mathlib.Data.List.Permutation
import Mathlib.Algebra.Order.Group.Abs
import Mathlib.Algebra.Order.Group.Int

/-! Deficit round robin with two lists of flows. The flow at the head is served
while its deficit is positive, else it gets a quantum and goes to the back of
the second list. Flows in the first list come first. -/

namespace Egsr.Lib.DeficitRoundRobin

open List Function

structure State (ι : Type*) where
  deficit : ι → ℤ
  served : ι → ℤ
  new : List ι
  old : List ι

variable {ι : Type*} [DecidableEq ι]

/-- The moves of a scheduler with quantum `Q` and packets of size `M`; a flow is retired only if it
is not to be kept. -/
inductive Move (Q M : ℤ) (K : ι → Prop) : State ι → State ι → Prop
  | activate (s : State ι) (i : ι) (out : i ∉ s.new ++ s.old) :
    Move Q M K s { s with deficit := update s.deficit i Q, new := s.new ++ [i] }
  | passNew (s : State ι) (i : ι) (rest : List ι) (front : s.new = i :: rest)
    (spent : s.deficit i ≤ 0) : Move Q M K s
      { s with deficit := update s.deficit i (s.deficit i + Q), new := rest, old := s.old ++ [i] }
  | passOld (s : State ι) (i : ι) (rest : List ι) (last : s.new = []) (front : s.old = i :: rest)
    (spent : s.deficit i ≤ 0) :
    Move Q M K s { s with deficit := update s.deficit i (s.deficit i + Q), old := rest ++ [i] }
  | retireNew (s : State ι) (i : ι) (rest : List ι) (front : s.new = i :: rest) (gone : ¬K i) :
    Move Q M K s { s with new := rest, old := s.old ++ [i] }
  | retireOld (s : State ι) (i : ι) (rest : List ι) (last : s.new = []) (front : s.old = i :: rest)
    (gone : ¬K i) : Move Q M K s { s with old := rest }
  | serve (s : State ι) (i : ι) (n : ℤ) (ready : i ∈ s.new ++ s.old) (credit : 0 < s.deficit i)
    (size : 0 ≤ n ∧ n ≤ M) : Move Q M K s { s with
      deficit := update s.deficit i (s.deficit i - n)
      served := update s.served i (s.served i + n) }

abbrev Moves (Q M : ℤ) (K : ι → Prop) : State ι → State ι → Prop :=
  Relation.ReflTransGen (Move Q M K)

variable {Q M : ℤ} {K K' : ι → Prop} {s t : State ι}

theorem Move.mono (h : Move Q M K s t) (imp : ∀ i, K' i → K i) : Move Q M K' s t := by
  cases h with
  | activate i out => exact .activate s i out
  | passNew i rest front spent => exact .passNew s i rest front spent
  | passOld i rest last front spent => exact .passOld s i rest last front spent
  | retireNew i rest front gone => exact .retireNew s i rest front fun hk => gone (imp i hk)
  | retireOld i rest last front gone =>
    exact .retireOld s i rest last front fun hk => gone (imp i hk)
  | serve i n ready credit size => exact .serve s i n ready credit size

theorem Moves.mono (h : Moves Q M K s t) (imp : ∀ i, K' i → K i) : Moves Q M K' s t :=
  Relation.ReflTransGen.mono (fun _ _ hm => Move.mono hm imp) s t h

def Bounded (Q M : ℤ) (s : State ι) : Prop :=
  ∀ i ∈ s.new ++ s.old, -M < s.deficit i ∧ s.deficit i ≤ Q

theorem update_bounded {l : List ι} {f : ι → ℤ} {i : ι} {x : ℤ} (h : ∀ j ∈ l, -M < f j ∧ f j ≤ Q)
    (hx : -M < x ∧ x ≤ Q)
    (j : ι) (hj : j ∈ l ∨ j = i) : -M < update f i x j ∧ update f i x j ≤ Q := by
  by_cases hij : j = i
  · rw [hij, update_self]
    exact hx
  · rw [update_of_ne hij]
    exact h j (hj.resolve_right hij)

theorem Move.bounded (hQ : 0 < Q) (hM : 0 ≤ M) (h : Move Q M K s t) (hs : Bounded Q M s) :
    Bounded Q M t := by
  cases h with
  | activate i out =>
    refine fun j hj => update_bounded hs ⟨by omega, le_rfl⟩ j ?_
    simp only [mem_append, mem_singleton] at hj ⊢
    tauto
  | passNew i rest front spent =>
    have hi := hs i (by simp [front])
    refine fun j hj => update_bounded hs ⟨by omega, by omega⟩ j ?_
    simp only [mem_append, front, mem_cons] at hj ⊢
    tauto
  | passOld i rest last front spent =>
    have hi := hs i (by simp [front])
    refine fun j hj => update_bounded hs ⟨by omega, by omega⟩ j ?_
    simp only [mem_append, front, mem_cons] at hj ⊢
    tauto
  | retireNew i rest front gone =>
    refine fun j hj => hs j ?_
    simp only [mem_append, front, mem_cons] at hj ⊢
    tauto
  | retireOld i rest last front gone =>
    refine fun j hj => hs j ?_
    simp only [mem_append, front, mem_cons] at hj ⊢
    tauto
  | serve i n ready credit size =>
    have hi := hs i ready
    exact fun j hj => update_bounded hs ⟨by omega, by omega⟩ j (Or.inl hj)

theorem Moves.bounded (hQ : 0 < Q) (hM : 0 ≤ M) (h : Moves Q M K s t) (hs : Bounded Q M s) :
    Bounded Q M t := by
  induction h with
  | refl => exact hs
  | tail _ hmove ih => exact hmove.bounded hQ hM ih

/-! ## Fairness -/

/-- What a flow was served and what it may still be. -/
def credit (s : State ι) (i : ι) : ℤ := s.served i + s.deficit i

def order (a b : ι) (l : List ι) : List ι := l.filter fun i => i = a ∨ i = b

/-- The flow that comes first is not ahead, the other one is not behind by more than a quantum. -/
def InTurn (Q : ℤ) (a b : ι) (c : ℤ) (s : State ι) : Prop :=
  order a b (s.new ++ s.old) = [a, b] ∧ credit s a - credit s b = c ∨
    order a b (s.new ++ s.old) = [b, a] ∧ credit s a - credit s b = c + Q

variable {a b i : ι} {l l' : List ι} {c : ℤ}

theorem order_cons_of_ne (ha : i ≠ a) (hb : i ≠ b) : order a b (i :: l) = order a b l := by
  simp [order, ha, hb]

theorem order_snoc_of_ne (ha : i ≠ a) (hb : i ≠ b) : order a b (l ++ [i]) = order a b l := by
  simp [order, ha, hb]

theorem order_append : order a b (l ++ l') = order a b l ++ order a b l' := filter_append _ _

theorem order_cons_left : order a b (a :: l) = a :: order a b l := by simp [order]

theorem order_cons_right : order a b (b :: l) = b :: order a b l := by simp [order]

theorem mem_order (ha : i ∈ order a b l) : i ∈ l := mem_of_mem_filter ha

theorem order_eq (nodup : l.Nodup) (ha : a ∈ l) (hb : b ∈ l) (hab : a ≠ b) :
    order a b l = [a, b] ∨ order a b l = [b, a] := by
  refine perm_pair.mp ((perm_ext_iff_of_nodup (nodup.filter _) (by simp [hab])).mpr fun i => ?_)
  rw [mem_filter, decide_eq_true_iff, mem_pair]
  constructor
  · exact fun h => h.2
  · rintro (rfl | rfl)
    · exact ⟨ha, Or.inl rfl⟩
    · exact ⟨hb, Or.inr rfl⟩

theorem InTurn.mem (h : InTurn Q a b c s) : a ∈ s.new ++ s.old ∧ b ∈ s.new ++ s.old := by
  rcases h with ⟨horder, -⟩ | ⟨horder, -⟩ <;>
    exact ⟨mem_order (by rw [horder]; simp), mem_order (by rw [horder]; simp)⟩

theorem InTurn.congr (h : InTurn Q a b c s)
    (horder : order a b (t.new ++ t.old) = order a b (s.new ++ s.old))
    (ha : credit t a = credit s a) (hb : credit t b = credit s b) : InTurn Q a b c t := by
  rwa [InTurn, horder, ha, hb]

theorem InTurn.rotate {rest : List ι} (h : InTurn Q a b c s) (hab : a ≠ b)
    (front : s.new ++ s.old = i :: rest)
    (back : t.new ++ t.old = rest ++ [i]) (hi : credit t i = credit s i + Q)
    (hne : ∀ j, j ≠ i → credit t j = credit s j) : InTurn Q a b c t := by
  rw [InTurn, front] at h
  rw [InTurn, back]
  by_cases ha : i = a
  · subst ha
    rw [order_cons_left] at h
    rcases h with ⟨horder, hc⟩ | ⟨horder, -⟩
    · right
      have hrest : order i b rest = [b] := (List.cons.inj horder).2
      rw [order_append, hrest, hi, hne b hab.symm]
      exact ⟨by simp [order], by omega⟩
    · exact absurd (List.cons.inj horder).1 hab
  · by_cases hb : i = b
    · subst hb
      rw [order_cons_right] at h
      rcases h with ⟨horder, -⟩ | ⟨horder, hc⟩
      · exact absurd (List.cons.inj horder).1.symm hab
      · left
        have hrest : order a i rest = [a] := (List.cons.inj horder).2
        rw [order_append, hrest, hi, hne a hab]
        exact ⟨by simp [order], by omega⟩
    · rw [order_cons_of_ne ha hb] at h
      rw [order_snoc_of_ne ha hb, hne a (Ne.symm ha), hne b (Ne.symm hb)]
      exact h

theorem credit_update_deficit (s : State ι) (i : ι) (x : ℤ) (new old : List ι) :
    credit ⟨update s.deficit i (s.deficit i + x), s.served, new, old⟩ i = credit s i + x ∧
      ∀ j, j ≠ i → credit ⟨update s.deficit i (s.deficit i + x), s.served, new, old⟩ j =
        credit s j := by
  refine ⟨?_, fun j hj => ?_⟩
  · simp only [credit, update_self, add_assoc]
  · simp only [credit, update_of_ne hj]

theorem Move.inTurn (h : Move Q M K s t) (hab : a ≠ b) (ha : K a) (hb : K b)
    (hs : InTurn Q a b c s) : InTurn Q a b c t := by
  cases h with
  | activate i out =>
    obtain ⟨hma, hmb⟩ := hs.mem
    have hia : i ≠ a := fun heq => out (heq ▸ hma)
    have hib : i ≠ b := fun heq => out (heq ▸ hmb)
    refine hs.congr ?_ ?_ ?_
    · simp [order, filter_append, hia, hib]
    · simp only [credit, update_of_ne hia.symm]
    · simp only [credit, update_of_ne hib.symm]
  | passNew i rest front spent =>
    obtain ⟨hi, hne⟩ := credit_update_deficit s i Q rest (s.old ++ [i])
    exact hs.rotate hab (by rw [front]; rfl) (append_assoc _ _ _).symm hi hne
  | passOld i rest last front spent =>
    obtain ⟨hi, hne⟩ := credit_update_deficit s i Q s.new (rest ++ [i])
    exact hs.rotate hab (by rw [last, front]; rfl) (by rw [last]; rfl) hi hne
  | retireNew i rest front gone =>
    have hia : i ≠ a := fun heq => gone (heq ▸ ha)
    have hib : i ≠ b := fun heq => gone (heq ▸ hb)
    refine hs.congr ?_ rfl rfl
    rw [front, cons_append, order_cons_of_ne hia hib, ← append_assoc, order_snoc_of_ne hia hib]
  | retireOld i rest last front gone =>
    have hia : i ≠ a := fun heq => gone (heq ▸ ha)
    have hib : i ≠ b := fun heq => gone (heq ▸ hb)
    refine hs.congr ?_ rfl rfl
    rw [last, front, nil_append, nil_append, order_cons_of_ne hia hib]
  | serve i n ready credit size =>
    have hsame : ∀ j, DeficitRoundRobin.credit { s with
        deficit := update s.deficit i (s.deficit i - n)
        served := update s.served i (s.served i + n) } j =
        DeficitRoundRobin.credit s j := by
      intro j
      by_cases hj : j = i
      · simp only [hj, DeficitRoundRobin.credit, update_self]
        omega
      · simp only [DeficitRoundRobin.credit, update_of_ne hj]
    exact hs.congr rfl (hsame a) (hsame b)

theorem Moves.inTurn (h : Moves Q M K s t) (hab : a ≠ b) (ha : K a) (hb : K b)
    (hs : InTurn Q a b c s) : InTurn Q a b c t := by
  induction h with
  | refl => exact hs
  | tail _ hmove ih => exact hmove.inTurn hab ha hb ih

theorem Moves.fair (hQ : 0 < Q) (hM : 0 ≤ M) (h : Moves Q M K s t) (nodup : (s.new ++ s.old).Nodup)
    (bounded : Bounded Q M s) (hma : a ∈ s.new ++ s.old) (hmb : b ∈ s.new ++ s.old) (hab : a ≠ b)
    (ha : K a)
    (hb : K b) : |(t.served a - s.served a) - (t.served b - s.served b)| ≤ 3 * Q + 2 * M := by
  have hstart : ∃ c, InTurn Q a b c s ∧
      (c = credit s a - credit s b ∨ c = credit s a - credit s b - Q) := by
    rcases order_eq nodup hma hmb hab with horder | horder
    · exact ⟨_, Or.inl ⟨horder, rfl⟩, Or.inl rfl⟩
    · exact ⟨credit s a - credit s b - Q, Or.inr ⟨horder, by omega⟩, Or.inr rfl⟩
  obtain ⟨c, hinit, hc⟩ := hstart
  have hfinal := h.inTurn hab ha hb hinit
  obtain ⟨hta, htb⟩ := hfinal.mem
  have hdiff : credit t a - credit t b = c ∨ credit t a - credit t b = c + Q := by
    rcases hfinal with ⟨-, heq⟩ | ⟨-, heq⟩
    · exact Or.inl heq
    · exact Or.inr heq
  have hsa := bounded a hma
  have hsb := bounded b hmb
  have hda := h.bounded hQ hM bounded a hta
  have hdb := h.bounded hQ hM bounded b htb
  simp only [credit] at hc hdiff
  refine abs_le.mpr ⟨?_, ?_⟩
  · omega
  · omega

end Egsr.Lib.DeficitRoundRobin
