import Egsr.Core.Scheduler
import Egsr.Lib.BinaryHeap

/-! The heap scheduler. The entries stand from position 1 on; an entry that
is removed leaves its place to the last one, which is then only ever moved
down. -/

namespace Egsr.Core.Heap

open Lib.Run Lib.Outcome Lib.BinaryHeap List Function

def emptyEvent : Event := ⟨0, 0, 0, 0⟩

structure HeapScheduler where
  m_heap : List Event
deriving DecidableEq

def start : HeapScheduler := ⟨[emptyEvent]⟩

def parent (id : ℕ) : ℕ := id / 2

def leftChild (id : ℕ) : ℕ := id * 2

def rightChild (id : ℕ) : ℕ := id * 2 + 1

def root : ℕ := 1

variable (h : HeapScheduler)

def last : ℕ := h.m_heap.length - 1

def isBottom (id : ℕ) : Bool := h.m_heap.length ≤ id

def entry (id : ℕ) : Event := h.m_heap.getD id emptyEvent

def exch (a b : ℕ) : HeapScheduler :=
  ⟨(h.m_heap.set a (entry h b)).set b (entry h a)⟩

def isLessStrictly (a b : ℕ) : Bool := (entry h a).less (entry h b)

def smallest (a b : ℕ) : ℕ := if isLessStrictly h a b then a else b

def isEmpty : Bool := h.m_heap.length = 1

def popBack : HeapScheduler := ⟨h.m_heap.dropLast⟩

/-- The loop of `bottomUp`; an index halves in each round, so `fuel` rounds are enough from
index `fuel`. -/
def siftUp : ℕ → HeapScheduler → ℕ → HeapScheduler
  | 0, h, _ => h
  | fuel + 1, h, index =>
    if index ≠ root ∧ isLessStrictly h index (parent index) then
      siftUp fuel (exch h index (parent index)) (parent index)
    else h

def bottomUp : HeapScheduler := siftUp (last h) h (last h)

/-- What `topDown` does after its loop: `index` has at most a left child. -/
def finishDown (index : ℕ) : HeapScheduler :=
  if isBottom h index then h
  else
    let left := leftChild index
    if isBottom h left then h
    else if isLessStrictly h index left then h
    else exch h index left

def siftDown : ℕ → HeapScheduler → ℕ → HeapScheduler
  | 0, h, _ => h
  | fuel + 1, h, index =>
    if isBottom h (rightChild index) then finishDown h index
    else
      let tmp := smallest h (leftChild index) (rightChild index)
      if isLessStrictly h index tmp then h
      else siftDown fuel (exch h index tmp) tmp

/-- An index grows in each round, so it is past the end after as many rounds as there are
entries. -/
def topDown (start : ℕ) : HeapScheduler := siftDown h.m_heap.length h start

def insert (ev : Event) : HeapScheduler := bottomUp ⟨h.m_heap ++ [ev]⟩

def peekNext : Except Fault Event :=
  if root < h.m_heap.length then pure (entry h root) else throw .outOfRange

def removeNext : Except Fault (Event × HeapScheduler) :=
  if root < h.m_heap.length then
    let next := entry h root
    pure (next, topDown (popBack (exch h root (last h))) root)
  else throw .outOfRange

def find (uid : ℕ) : Option ℕ :=
  (List.range' 1 (last h)).find? fun i => uid = (entry h i).key.m_uid

def remove (ev : Event) : HeapScheduler :=
  match find h ev.key.m_uid with
  | some i => topDown (popBack (exch h i (last h))) i
  | none => h

def scheduler : Scheduler HeapScheduler where
  insert h ev := pure (insert h ev)
  isEmpty := isEmpty
  peekNext := peekNext
  removeNext := removeNext
  remove h ev := pure (remove h ev)

/-! ## Order and contents -/

def contents : Multiset Event := h.m_heap.tail

def HeapOrdered : Prop :=
  ∀ i, 1 < i → i < h.m_heap.length → ¬isLessStrictly h i (parent i)

def rank (i : ℕ) : ℕ ×ₗ ℕ := (entry h i).rank

instance : Decidable (HeapOrdered h) :=
  decidable_of_iff
    (∀ i ∈ range h.m_heap.length, 1 < i → ¬isLessStrictly h i (parent i)) <|
    forall_congr' fun _ => by rw [mem_range]; exact forall_comm

variable {h}

theorem isLessStrictly_iff {a b : ℕ} : isLessStrictly h a b ↔ rank h a < rank h b :=
  Event.less_iff _ _

theorem heapOrdered_iff : HeapOrdered h ↔ Ordered (rank h) h.m_heap.length := by
  unfold HeapOrdered Ordered
  simp only [isLessStrictly_iff, not_lt]
  rfl

@[simp] theorem length_exch (a b : ℕ) : (exch h a b).m_heap.length = h.m_heap.length := by
  simp [exch]

@[simp] theorem length_popBack : (popBack h).m_heap.length = h.m_heap.length - 1 := by
  simp [popBack]

theorem entry_eq {i : ℕ} (lt : i < h.m_heap.length) : entry h i = h.m_heap[i] := by
  simp [entry, lt]

theorem entry_exch {a b : ℕ} (ha : a < h.m_heap.length) (hb : b < h.m_heap.length) (i : ℕ) :
    entry (exch h a b) i = entry h (Equiv.swap a b i) := by
  have hset : ∀ (l : List Event) (k : ℕ) (ev : Event), k < l.length →
      (l.set k ev).getD i emptyEvent = if i = k then ev else l.getD i emptyEvent := by
    intro l k ev hk
    by_cases hik : i = k
    · simp [hik, hk]
    · simp [hik, Ne.symm hik]
  unfold exch
  rw [entry, hset _ _ _ (by simpa using hb), hset _ _ _ ha, Equiv.swap_apply_def]
  by_cases hia : i = a
  · by_cases hib : i = b
    · rw [if_pos hib, if_pos hia, ← hia, hib]
    · rw [if_neg hib, if_pos hia, if_pos hia]
  · by_cases hib : i = b
    · rw [if_pos hib, if_neg hia, if_pos hib]
    · rw [if_neg hib, if_neg hia, if_neg hia, if_neg hib]
      rfl

theorem rank_exch {a b : ℕ} (ha : a < h.m_heap.length) (hb : b < h.m_heap.length) :
    rank (exch h a b) = rank h ∘ Equiv.swap a b := by
  funext i
  simp only [rank, comp_apply, entry_exch ha hb]

theorem entry_popBack {i : ℕ} (lt : i < h.m_heap.length - 1) : entry (popBack h) i = entry h i := by
  rw [entry_eq (by simpa using lt), entry_eq (by omega)]
  simp [popBack]

theorem contents_exch {a b : ℕ} (pa : 0 < a) (pb : 0 < b) (ha : a < h.m_heap.length)
    (hb : b < h.m_heap.length) : contents (exch h a b) = contents h := by
  obtain ⟨a, rfl⟩ := Nat.exists_eq_succ_of_ne_zero pa.ne'
  obtain ⟨b, rfl⟩ := Nat.exists_eq_succ_of_ne_zero pb.ne'
  unfold contents exch
  rw [entry_eq ha, entry_eq hb]
  generalize h.m_heap = l at ha hb ⊢
  cases l with
  | nil => simp at ha
  | cons ev l =>
    have ha' : a < l.length := Nat.lt_of_succ_lt_succ ha
    have hb' : b < l.length := Nat.lt_of_succ_lt_succ hb
    simpa using Multiset.coe_eq_coe.mpr (set_set_perm ha' hb')

theorem contents_popBack (two : 1 < h.m_heap.length) :
    contents h = entry h (last h) ::ₘ contents (popBack h) := by
  have hlast : entry h (last h) = h.m_heap.getLast (by rintro heq; simp [heq] at two) := by
    rw [entry_eq (by unfold last; omega), getLast_eq_getElem]
    rfl
  rw [hlast]
  obtain ⟨l⟩ := h
  cases l with
  | nil => simp at two
  | cons ev l =>
    have hne : l ≠ [] := by
      rintro rfl
      simp at two
    simp only [contents, popBack, getLast_cons hne, dropLast_cons_of_ne_nil hne, tail_cons]
    refine Multiset.coe_eq_coe.mpr ?_
    calc l = l.dropLast ++ [l.getLast hne] := (dropLast_append_getLast hne).symm
      List.Perm _ (l.getLast hne :: l.dropLast) := perm_append_singleton _ _

/-! ## Sifts -/

structure Rearranged (h h' : HeapScheduler) : Prop where
  length : h'.m_heap.length = h.m_heap.length
  contents : contents h' = contents h

theorem Rearranged.refl (h : HeapScheduler) : Rearranged h h := ⟨rfl, rfl⟩

theorem Rearranged.trans {h h' h'' : HeapScheduler} (a : Rearranged h h')
    (b : Rearranged h' h'') : Rearranged h h'' :=
  ⟨b.length.trans a.length, b.contents.trans a.contents⟩

theorem rearranged_exch {a b : ℕ} (pa : 0 < a) (pb : 0 < b) (ha : a < h.m_heap.length)
    (hb : b < h.m_heap.length) : Rearranged h (exch h a b) :=
  ⟨length_exch a b, contents_exch pa pb ha hb⟩

variable {index : ℕ}

theorem rearranged_siftUp {fuel : ℕ} (pos : 0 < index) (lt : index < h.m_heap.length) :
    Rearranged h (siftUp fuel h index) := by
  induction fuel generalizing h index with
  | zero => exact Rearranged.refl h
  | succ fuel ih =>
    unfold siftUp
    by_cases hup : index ≠ root ∧ isLessStrictly h index (parent index)
    · rw [if_pos hup]
      have hone : index ≠ 1 := hup.1
      have hpos : 0 < parent index := by unfold parent; omega
      have hlt : parent index < h.m_heap.length := by unfold parent; omega
      exact (rearranged_exch pos hpos lt hlt).trans (ih hpos (by simpa using hlt))
    · rw [if_neg hup]
      exact Rearranged.refl h

theorem ordered_siftUp {fuel : ℕ} (pos : 0 < index) (lt : index < h.m_heap.length)
    (enough : index ≤ fuel) (order : UpOrder (rank h) h.m_heap.length index) :
    HeapOrdered (siftUp fuel h index) := by
  induction fuel generalizing h index with
  | zero => omega
  | succ fuel ih =>
    unfold siftUp
    by_cases hup : index ≠ root ∧ isLessStrictly h index (parent index)
    · rw [if_pos hup]
      have hone : index ≠ 1 := hup.1
      have hpos : 0 < parent index := by unfold parent; omega
      have hlt : parent index < h.m_heap.length := by unfold parent; omega
      refine ih hpos (by simpa using hlt) (by unfold parent; omega) ?_
      rw [rank_exch lt hlt, length_exch]
      exact order.swap (by omega) lt (isLessStrictly_iff.mp hup.2)
    · rw [if_neg hup]
      refine heapOrdered_iff.mpr (order.ordered fun one => ?_)
      refine not_lt.mp fun hless => hup ⟨?_, isLessStrictly_iff.mpr hless⟩
      exact one.ne'

theorem rank_smallest (a b : ℕ) :
    rank h (smallest h a b) ≤ rank h a ∧ rank h (smallest h a b) ≤ rank h b := by
  unfold smallest
  by_cases hab : isLessStrictly h a b
  · rw [if_pos hab]
    exact ⟨le_rfl, (isLessStrictly_iff.mp hab).le⟩
  · rw [if_neg hab]
    exact ⟨not_lt.mp fun hlt => hab (isLessStrictly_iff.mpr hlt), le_rfl⟩

theorem smallest_child (index : ℕ) :
    smallest h (leftChild index) (rightChild index) = leftChild index ∨
      smallest h (leftChild index) (rightChild index) = rightChild index := by
  unfold smallest
  split
  · exact Or.inl rfl
  · exact Or.inr rfl

theorem isBottom_iff {id : ℕ} : isBottom h id ↔ h.m_heap.length ≤ id := by
  simp [isBottom]

theorem rearranged_finishDown (pos : 0 < index) :
    Rearranged h (finishDown h index) := by
  unfold finishDown
  by_cases hbottom : isBottom h index
  · rw [if_pos hbottom]
    exact Rearranged.refl h
  · rw [if_neg hbottom]
    by_cases hleft : isBottom h (leftChild index)
    · simp only [if_pos hleft, Rearranged.refl]
    · by_cases hless : isLessStrictly h index (leftChild index)
      · simp only [if_neg hleft, if_pos hless, Rearranged.refl]
      · simp only [if_neg hleft, if_neg hless]
        rw [isBottom_iff, not_le] at hbottom hleft
        exact rearranged_exch pos (by unfold leftChild; omega) hbottom hleft

theorem rearranged_siftDown {fuel : ℕ} (pos : 0 < index) :
    Rearranged h (siftDown fuel h index) := by
  induction fuel generalizing h index with
  | zero => exact Rearranged.refl h
  | succ fuel ih =>
    unfold siftDown
    by_cases hright : isBottom h (rightChild index)
    · rw [if_pos hright]
      exact rearranged_finishDown pos
    · rw [if_neg hright]
      rw [isBottom_iff, not_le] at hright
      by_cases hless : isLessStrictly h index (smallest h (leftChild index) (rightChild index))
      · simp only [if_pos hless, Rearranged.refl]
      · simp only [if_neg hless]
        have hchild := smallest_child (h := h) index
        generalize smallest h (leftChild index) (rightChild index) = tmp at hchild ⊢
        unfold leftChild rightChild at *
        exact (rearranged_exch pos (by omega) (by omega) (by omega)).trans (ih (by omega))

theorem ordered_finishDown (pos : 0 < index) (noRight : isBottom h (rightChild index))
    (order : DownOrder (rank h) h.m_heap.length index) : HeapOrdered (finishDown h index) := by
  rw [isBottom_iff] at noRight
  unfold finishDown
  by_cases hbottom : isBottom h index
  · rw [if_pos hbottom]
    rw [isBottom_iff] at hbottom
    exact heapOrdered_iff.mpr (order.ordered fun c one hc heq => by omega)
  · rw [if_neg hbottom]
    by_cases hleft : isBottom h (leftChild index)
    · simp only [if_pos hleft]
      rw [isBottom_iff] at hleft
      unfold leftChild at hleft
      exact heapOrdered_iff.mpr (order.ordered fun c one hc heq => by omega)
    · have honly : ∀ c, c < h.m_heap.length → c / 2 = index → c = leftChild index := by
        unfold leftChild rightChild at *
        omega
      by_cases hless : isLessStrictly h index (leftChild index)
      · simp only [if_neg hleft, if_pos hless]
        refine heapOrdered_iff.mpr (order.ordered fun c one hc heq => ?_)
        rw [honly c hc heq]
        exact (isLessStrictly_iff.mp hless).le
      · simp only [if_neg hleft, if_neg hless]
        rw [isBottom_iff, not_le] at hbottom hleft
        rw [isLessStrictly_iff, not_lt] at hless
        have hdown := order.swap (c := leftChild index) (by unfold leftChild; omega) hleft
          (fun c' hc' heq => by rw [honly c' hc' heq]) hless
        rw [heapOrdered_iff, rank_exch hbottom hleft, length_exch]
        refine hdown.ordered fun c one hc heq => ?_
        unfold leftChild rightChild at *
        omega

theorem ordered_siftDown {fuel : ℕ} (pos : 0 < index) (enough : h.m_heap.length ≤ index + fuel)
    (order : DownOrder (rank h) h.m_heap.length index) : HeapOrdered (siftDown fuel h index) := by
  induction fuel generalizing h index with
  | zero => exact heapOrdered_iff.mpr (order.ordered fun c one hc heq => by omega)
  | succ fuel ih =>
    unfold siftDown
    by_cases hright : isBottom h (rightChild index)
    · rw [if_pos hright]
      exact ordered_finishDown pos hright order
    · rw [if_neg hright]
      rw [isBottom_iff, not_le] at hright
      have hleast : ∀ c, c < h.m_heap.length → c / 2 = index →
          rank h (smallest h (leftChild index) (rightChild index)) ≤ rank h c := by
        intro c hc heq
        obtain rfl | rfl : c = leftChild index ∨ c = rightChild index := by
          unfold leftChild rightChild
          omega
        · exact (rank_smallest _ _).1
        · exact (rank_smallest _ _).2
      have hchild := smallest_child (h := h) index
      generalize smallest h (leftChild index) (rightChild index) = tmp at hleast hchild ⊢
      have htmp : tmp / 2 = index ∧ tmp < h.m_heap.length ∧ index < tmp := by
        unfold leftChild rightChild at *
        omega
      by_cases hless : isLessStrictly h index tmp
      · simp only [if_pos hless]
        refine heapOrdered_iff.mpr (order.ordered fun c one hc heq => ?_)
        exact (isLessStrictly_iff.mp hless).le.trans (hleast c hc heq)
      · simp only [if_neg hless]
        rw [isLessStrictly_iff, not_lt] at hless
        refine ih (by omega) (by rw [length_exch]; omega) ?_
        rw [rank_exch (by omega) htmp.2.1, length_exch]
        exact order.swap htmp.1 htmp.2.1 hleast hless

theorem siftDown_stays {fuel : ℕ}
    (below : ∀ c, c < h.m_heap.length → c / 2 = index → rank h index < rank h c) :
    siftDown fuel h index = h := by
  cases fuel with
  | zero => rfl
  | succ fuel =>
    unfold siftDown
    by_cases hright : isBottom h (rightChild index)
    · rw [if_pos hright]
      unfold finishDown
      by_cases hleft : isBottom h (leftChild index)
      · simp only [if_pos hleft, ite_self]
      · have hless : isLessStrictly h index (leftChild index) := by
          rw [isBottom_iff, not_le] at hleft
          exact isLessStrictly_iff.mpr (below _ hleft (by unfold leftChild; omega))
        simp only [if_pos hless, ite_self]
    · rw [if_neg hright]
      rw [isBottom_iff, not_le] at hright
      have hless : isLessStrictly h index (smallest h (leftChild index) (rightChild index)) := by
        have hchild := smallest_child (h := h) index
        generalize smallest h (leftChild index) (rightChild index) = tmp at hchild ⊢
        unfold leftChild rightChild at *
        exact isLessStrictly_iff.mpr (below tmp (by omega) (by omega))
      simp only [if_pos hless]

/-! ## Operations -/

theorem contents_insert (started : 0 < h.m_heap.length) (ev : Event) :
    contents (insert h ev) = ev ::ₘ contents h := by
  have hpush : contents ⟨h.m_heap ++ [ev]⟩ = ev ::ₘ contents h := by
    unfold contents
    rw [tail_append_of_ne_nil (ne_nil_of_length_pos started)]
    exact Multiset.coe_eq_coe.mpr (perm_append_singleton _ _)
  unfold insert bottomUp
  rw [(rearranged_siftUp (by simpa [last]) (by simp [last])).contents, hpush]

theorem length_insert (started : 0 < h.m_heap.length) (ev : Event) :
    (insert h ev).m_heap.length = h.m_heap.length + 1 := by
  unfold insert bottomUp
  rw [(rearranged_siftUp (by simpa [last]) (by simp [last])).length]
  simp

theorem ordered_insert (started : 0 < h.m_heap.length) (ordered : HeapOrdered h) (ev : Event) :
    HeapOrdered (insert h ev) := by
  refine ordered_siftUp (by simpa [last]) (by simp [last]) le_rfl (Ordered.upOrder ?_)
  have hlength : (h.m_heap ++ [ev]).length - 1 = h.m_heap.length := by simp
  rw [hlength]
  refine (heapOrdered_iff.mp ordered).congr fun i _ hi => ?_
  simp [rank, entry, List.getElem?_append_left hi]

theorem contents_vacate {i : ℕ} (pos : 0 < i) (lt : i < h.m_heap.length) :
    contents h = entry h i ::ₘ contents (popBack (exch h i (last h))) := by
  have hlast : last h < h.m_heap.length := by unfold last; omega
  have hpos : 0 < last h := by unfold last; omega
  rw [← contents_exch pos hpos lt hlast, contents_popBack (by rw [length_exch]; omega),
    entry_exch lt hlast]
  simp only [last, length_exch, Equiv.swap_apply_right]

theorem rank_vacate {i j : ℕ} (lt : i < h.m_heap.length) (inside : j < h.m_heap.length - 1) :
    rank (popBack (exch h i (last h))) j = update (rank h) i (rank h (last h)) j := by
  have hlast : last h < h.m_heap.length := by unfold last; omega
  have hne : j ≠ last h := by unfold last; omega
  unfold rank
  rw [entry_popBack (by simpa using inside), entry_exch lt hlast]
  by_cases hji : j = i
  · rw [hji, Equiv.swap_apply_left, update_self]
  · rw [Equiv.swap_apply_of_ne_of_ne hji hne, update_of_ne hji]

theorem ordered_vacate_iff {i : ℕ} (ordered : HeapOrdered h) (pos : 0 < i)
    (lt : i < h.m_heap.length) :
    HeapOrdered (topDown (popBack (exch h i (last h))) i) ↔
      (1 < i → i < last h → ¬isLessStrictly h (last h) (parent i)) := by
  have hheap := heapOrdered_iff.mp ordered
  have hvacate := fun j => rank_vacate (j := j) lt
  have hlength : (popBack (exch h i (last h))).m_heap.length = h.m_heap.length - 1 := by simp
  generalize popBack (exch h i (last h)) = h' at hvacate hlength ⊢
  constructor
  · -- the entry would stay below its children, under a parent that is above it
    intro hkept one hi hless
    rw [isLessStrictly_iff] at hless
    have hat : rank h' i = rank h (last h) := by
      rw [hvacate i (by unfold last at hi; omega), update_self]
    have hparent : rank h' (parent i) = rank h (parent i) := by
      rw [hvacate _ (by unfold last at hi; unfold parent; omega),
        update_of_ne (by unfold parent; omega)]
    have hstays : topDown h' i = h' := siftDown_stays fun c hc heq => by
      rw [hat, hvacate c (by omega), update_of_ne (by omega)]
      have hup := hheap i one lt
      have hdown := hheap c (by omega) (by omega)
      rw [heq] at hdown
      exact hless.trans_le (hup.trans hdown)
    rw [hstays] at hkept
    have hbad := heapOrdered_iff.mp hkept i one (by unfold last at hi; omega)
    rw [hat] at hbad
    exact absurd (hparent ▸ hbad) (not_le.mpr hless)
  · intro hcond
    refine ordered_siftDown pos (Nat.le_add_left _ _) ?_
    rw [hlength]
    refine ((hheap.mono (Nat.sub_le _ 1)).downOrder fun one hi => ?_).congr
      fun j _ hj => hvacate j hj
    exact not_lt.mp fun hless => hcond one (by unfold last; omega) (isLessStrictly_iff.mpr hless)

theorem contents_topDown {i : ℕ} (pos : 0 < i) : contents (topDown h i) = contents h :=
  (rearranged_siftDown pos).contents

theorem length_topDown {i : ℕ} (pos : 0 < i) : (topDown h i).m_heap.length = h.m_heap.length :=
  (rearranged_siftDown pos).length

theorem mem_contents {ev : Event} :
    ev ∈ contents h ↔ ∃ i, 0 < i ∧ i < h.m_heap.length ∧ entry h i = ev := by
  unfold contents
  rw [Multiset.mem_coe, mem_iff_getElem]
  constructor
  · rintro ⟨i, hi, heq⟩
    have hlt : i + 1 < h.m_heap.length := by
      rw [length_tail] at hi
      omega
    exact ⟨i + 1, by omega, hlt, by rw [entry_eq hlt, ← heq, getElem_tail]⟩
  · rintro ⟨i, hpos, hlt, heq⟩
    obtain ⟨i, rfl⟩ := Nat.exists_eq_succ_of_ne_zero hpos.ne'
    have hi : i < h.m_heap.tail.length := by
      rw [length_tail]
      omega
    exact ⟨i, hi, by rw [getElem_tail, ← heq, entry_eq hlt]⟩

theorem next_root (ordered : HeapOrdered h) (two : 1 < h.m_heap.length) :
    Next (contents h) (entry h root) := by
  refine ⟨mem_contents.mpr ⟨1, Nat.one_pos, two, rfl⟩, fun other hother => ?_⟩
  obtain ⟨i, hpos, hlt, rfl⟩ := mem_contents.mp hother
  exact (Event.not_less_iff _ _).mpr ((heapOrdered_iff.mp ordered).root_le hpos hlt)

theorem find_spec {ev : Event} (distinct : UidsDistinct (contents h)) (present : ev ∈ contents h) :
    ∃ i, find h ev.key.m_uid = some i ∧ 0 < i ∧ i < h.m_heap.length ∧ entry h i = ev := by
  obtain ⟨k, hpos, hlt, hk⟩ := mem_contents.mp present
  have hsome : (find h ev.key.m_uid).isSome := by
    unfold find
    rw [List.find?_isSome]
    refine ⟨k, ?_, by simp [hk]⟩
    rw [mem_range'_1]
    unfold last
    omega
  obtain ⟨i, hi⟩ := Option.isSome_iff_exists.mp hsome
  have huid := List.find?_some hi
  have hmem := mem_of_find?_eq_some hi
  rw [mem_range'_1] at hmem
  have hlti : i < h.m_heap.length := by
    unfold last at hmem
    omega
  refine ⟨i, hi, hmem.1, hlti, ?_⟩
  refine distinct.eq_of_uid (mem_contents.mpr ⟨i, hmem.1, hlti, rfl⟩) present ?_
  exact (of_decide_eq_true huid).symm

/-! ## Runs -/

/-- Where an event is removed, the last entry is not strictly smaller than the parent of the
place it is to fill. -/
def RemovesInOrder (h : HeapScheduler) : Op → Prop
  | .remove ev => ∀ i ∈ find h ev.key.m_uid,
      1 < i → i < last h → ¬isLessStrictly h (last h) (parent i)
  | _ => True

instance (h : HeapScheduler) (op : Op) : Decidable (RemovesInOrder h op) :=
  match op with
  | .remove .. | .insert _ | .peekNext | .removeNext => by unfold RemovesInOrder; infer_instance

structure HeapOk (h : HeapScheduler) : Prop where
  started : 0 < h.m_heap.length
  ordered : HeapOrdered h
  distinct : UidsDistinct (contents h)

theorem start_ok : HeapOk start := ⟨by decide, by decide, by decide⟩

theorem two_le (filled : contents h ≠ 0) : root < h.m_heap.length := by
  by_contra hone
  refine filled ((Multiset.coe_eq_zero _).mpr (length_eq_zero_iff.mp ?_))
  rw [length_tail]
  unfold root at hone
  omega

theorem length_vacate {i : ℕ} (pos : 0 < i) (lt : i < h.m_heap.length) :
    0 < (topDown (popBack (exch h i (last h))) i).m_heap.length := by
  rw [length_topDown pos, length_popBack, length_exch]
  omega

theorem remove_spec (ok : HeapOk h) {ev : Event} (present : ev ∈ contents h) :
    contents h = ev ::ₘ contents (remove h ev) ∧ 0 < (remove h ev).m_heap.length ∧
      (HeapOrdered (remove h ev) ↔ RemovesInOrder h (.remove ev)) := by
  obtain ⟨i, hfind, hpos, hlt, hentry⟩ := find_spec ok.distinct present
  have hremove : remove h ev = topDown (popBack (exch h i (last h))) i := by
    unfold remove
    rw [hfind]
  rw [hremove, contents_topDown hpos, ← hentry]
  refine ⟨contents_vacate hpos hlt, length_vacate hpos hlt, ?_⟩
  rw [hentry]
  simp only [RemovesInOrder, hfind, Option.mem_some_iff, forall_eq']
  exact ordered_vacate_iff ok.ordered hpos hlt

theorem removeNext_spec (ok : HeapOk h) (two : root < h.m_heap.length) :
    ∃ h', removeNext h = .ok (entry h root, h') ∧ contents h = entry h root ::ₘ contents h' ∧
      0 < h'.m_heap.length ∧ HeapOrdered h' := by
  refine ⟨topDown (popBack (exch h root (last h))) root, if_pos two, ?_,
    length_vacate Nat.one_pos two, ?_⟩
  · exact (contents_vacate Nat.one_pos two).trans
      (congrArg _ (contents_topDown Nat.one_pos).symm)
  · exact (ordered_vacate_iff ok.ordered Nat.one_pos two).mpr fun one => by omega

theorem sound_iff (ok : HeapOk h) {op : Op} (permitted : Permitted (contents h) op) :
    Sound scheduler contents HeapOrdered h op ↔ RemovesInOrder h op := by
  cases op with
  | insert ev =>
    refine iff_of_true (sound_insert_iff.mpr ⟨contents_insert ok.started ev, ?_⟩) trivial
    exact ordered_insert ok.started ok.ordered ev
  | peekNext =>
    have htwo := two_le permitted
    refine iff_of_true (sound_peekNext_iff.mpr ?_) trivial
    change Ensures (peekNext h) _ _
    rw [peekNext, if_pos htwo]
    exact ⟨next_root ok.ordered htwo, ok.ordered⟩
  | removeNext =>
    have htwo := two_le permitted
    obtain ⟨h', hrun, hcontents, -, hordered⟩ := removeNext_spec ok htwo
    refine iff_of_true (sound_removeNext_iff.mpr ?_) trivial
    change Ensures (removeNext h) _ _
    rw [hrun]
    exact ⟨⟨next_root ok.ordered htwo, hcontents⟩, hordered⟩
  | remove ev =>
    obtain ⟨hcontents, -, hordered⟩ := remove_spec ok permitted
    exact sound_remove_iff.trans ((and_iff_right hcontents).trans hordered)

theorem HeapOk.started_step {h' : HeapScheduler} {op : Op} (ok : HeapOk h)
    (permitted : Permitted (contents h) op) (run : step scheduler h op = .ok h') :
    0 < h'.m_heap.length := by
  cases op with
  | insert ev =>
    obtain rfl : insert h ev = h' := Except.ok.inj run
    rw [length_insert ok.started]
    exact Nat.succ_pos _
  | peekNext =>
    have htwo := two_le permitted
    have hpeek : peekNext h = .ok (entry h root) := if_pos htwo
    simp only [step, serve, scheduler, hpeek] at run
    obtain rfl : h = h' := Except.ok.inj run
    exact ok.started
  | removeNext =>
    obtain ⟨h'', hrun, -, hstarted, -⟩ := removeNext_spec ok (two_le permitted)
    simp only [step, serve, scheduler, hrun] at run
    obtain rfl : h'' = h' := Except.ok.inj run
    exact hstarted
  | remove ev =>
    obtain rfl : remove h ev = h' := Except.ok.inj run
    exact (remove_spec ok permitted).2.1

theorem HeapOk.keep {h' : HeapScheduler} {op : Op} (ok : HeapOk h)
    (permitted : Permitted (contents h) op) (sound : Sound scheduler contents HeapOrdered h op)
    (run : step scheduler h op = .ok h') : HeapOk h' := by
  obtain ⟨answer, hserve⟩ := step_ok_inv run
  obtain ⟨hserves, hordered⟩ := sound.next hserve
  exact ⟨ok.started_step permitted run, hordered, hserves.uidsDistinct permitted ok.distinct⟩

/-- In a permitted run every operation is answered right and leaves a heap in order just if
the run removes in order. -/
theorem heap_sound_iff (ops : List Op)
    (permitted : Along (step scheduler) (fun h op => Permitted (contents h) op) start ops) :
    Along (step scheduler) (Sound scheduler contents HeapOrdered) start ops ↔
      Along (step scheduler) RemovesInOrder start ops := by
  have keep : ∀ h op h', HeapOk h → Permitted (contents h) op →
      Sound scheduler contents HeapOrdered h op → step scheduler h op = .ok h' → HeapOk h' :=
    fun _ _ _ ok hp hs => ok.keep hp hs
  exact along_iff keep (fun _ _ ok hp => sound_iff ok hp) start_ok permitted

def eventAt (t : ℕ) : Event := ⟨0, t, t, 0⟩

theorem heap_sound_refilled : Along (step scheduler) (Sound scheduler contents HeapOrdered) start
      [.insert (eventAt 1), .insert (eventAt 2), .insert (eventAt 3), .insert (eventAt 4),
        .remove (eventAt 2), .removeNext, .peekNext] :=
  (heap_sound_iff _ (by decide +kernel)).mpr (by decide +kernel)

/-- A heap whose last entry belongs above the place of the one removed. -/
def misfilled : List Op :=
  [1, 10, 2, 11, 12, 20, 3].map (fun t => .insert (eventAt t)) ++ [.remove (eventAt 11)]

/-- The heap is out of order after the removal, and two removals later an event that is
pending comes after a later one. -/
theorem misfilled_outOfOrder : Along (step scheduler) (fun h op => Permitted (contents h) op) start
        (misfilled ++ [.removeNext, .removeNext]) ∧
      Ensures (exec (step scheduler) start misfilled) (fun h => ¬HeapOrdered h) (fun _ => False) ∧
      Ensures (exec (step scheduler) start (misfilled ++ [.removeNext, .removeNext]))
        (fun h => peekNext h = .ok (eventAt 10) ∧ eventAt 3 ∈ contents h ∧
          (eventAt 3).less (eventAt 10)) (fun _ => False) := by
  decide +kernel

end Egsr.Core.Heap
