import Egsr.Wifi.LifetimeQueue

/-! What calls do to a list of items with lifetimes: every item that was put in leaves
once or is still there, the items that stay keep their order, and an item is dequeued
only before its lifetime is over. -/

namespace Egsr.Wifi.MacQueue

open Lib List LifetimeQueue

def entered (log : List Event) : List Node := log.filterMap fun
  | .enqueued n => some n
  | _ => none

def departed (log : List Event) : List Node := log.filterMap fun
  | .left _ n _ => some n
  | _ => none

@[simp] theorem entered_append (log evs : List Event) : entered (log ++ evs) =
    entered log ++ entered evs :=
  filterMap_append

@[simp] theorem departed_append (log evs : List Event) : departed (log ++ evs) =
    departed log ++ departed evs :=
  filterMap_append

/-- An item is dequeued only before its lifetime is over, and expires only afterwards. -/
def Timely (c : Config) (now : ℕ) (item : WifiMacQueueItem) : Cause → Prop
  | .dequeued => expired c now item = false
  | .expired => expired c now item = true
  | .removed => True
  | .oldest => True

def EventTimely (c : Config) : Event → Prop
  | .left cause n now => Timely c now n.2 cause
  | _ => True

structure Leaves (c : Config) (now : ℕ) (items items' : List Node) (evs : List Event) : Prop where
  sublist : items'.Sublist items
  perm : items.Perm (departed evs ++ items')
  entered_eq : entered evs = []
  timely : ∀ ev ∈ evs, EventTimely c ev

section Leaving

variable {c : Config} {now : ℕ} {items items' items'' : List Node} {evs evs' : List Event}
    {n : Node}

theorem Leaves.none (items : List Node) : Leaves c now items items [] where
  sublist := List.Sublist.refl _
  perm := List.Perm.refl _
  entered_eq := rfl
  timely := fun _ h => nomatch h

theorem Leaves.one {pre post : List Node} {cause : Cause} (timely : Timely c now n.2 cause) :
    Leaves c now (pre ++ n :: post) (pre ++ post) [.left cause n now] where
  sublist := List.Sublist.append (List.Sublist.refl _) (sublist_cons_self _ _)
  perm := perm_middle
  entered_eq := rfl
  timely := fun _ h => mem_singleton.mp h ▸ timely

theorem Leaves.trans (h : Leaves c now items items' evs) (h' : Leaves c now items' items'' evs') :
    Leaves c now items items'' (evs ++ evs') where
  sublist := h'.sublist.trans h.sublist
  perm := by
    rw [departed_append, append_assoc]
    exact h.perm.trans (h'.perm.append_left _)
  entered_eq := by rw [entered_append, h.entered_eq, h'.entered_eq, append_nil]
  timely := fun ev hev => (mem_append.mp hev).elim (h.timely ev) (h'.timely ev)

theorem Leaves.cons (n : Node) (h : Leaves c now items items' evs) : Leaves c now (n :: items)
    (n :: items') evs where
  sublist := h.sublist.cons_cons n
  perm := (h.perm.cons n).trans perm_middle.symm
  entered_eq := h.entered_eq
  timely := h.timely

theorem Leaves.expire (gone : expired c now n.2 = true) (h : Leaves c now items items' evs) :
    Leaves c now (n :: items) items' (.left .expired n now :: evs) :=
  (@Leaves.one c now n [] items .expired gone).trans h

theorem leaves_passing {γ : Type} {visit : WifiMacQueueItem → γ → γ × WifiMacQueue.Visit}
    (honest : ∀ item acc, (visit item acc).2 ≠ .erase .expired) (acc : γ) :
    Leaves c now items (passing c now visit items acc).1
      (passing c now visit items acc).2.2 := by
  induction items generalizing acc with
  | nil => exact Leaves.none []
  | cons n items ih =>
    rw [passing]
    cases hexpired : expired c now n.2 with
    | true => exact (ih acc).expire hexpired
    | false =>
      cases hvisit : visit n.2 acc with
      | mk acc' next =>
        cases next with
        | go => exact (ih acc').cons n
        | stop => exact Leaves.none _
        | erase cause =>
          have timely : Timely c now n.2 cause := by
            cases cause with
            | dequeued => exact hexpired
            | expired => exact absurd (congrArg Prod.snd hvisit) (honest n.2 acc)
            | removed => trivial
            | oldest => trivial
          exact @Leaves.one c now n [] items cause timely

theorem leaves_passingTo (pos : ConstIterator) :
    Leaves c now items (passingTo c now pos items).1 (passingTo c now pos items).2.2 := by
  induction items with
  | nil => exact Leaves.none []
  | cons n items ih =>
    rw [passingTo]
    split_ifs with hpos hexpired
    · exact Leaves.none _
    · exact ih.expire hexpired
    · exact ih.cons n

end Leaving

/-! ## Calls -/

def Leaving (c : Config) (q q' : LifetimeQueue) : Prop :=
  ∃ items stale evs, Leaves c q.now q.items items evs ∧
    q' = { q with items := items, stale := stale, log := q.log ++ evs }

structure Numbered (q : LifetimeQueue) : Prop where
  nodup : (q.items.map Prod.fst).Nodup
  old : ∀ i ∈ q.items.map Prod.fst, i < q.fresh

section Calls

variable {c : Config} {q q' q'' : LifetimeQueue} {n : Node} {pos : ℕ} {cause : Cause}

theorem Leaving.trans (h : Leaving c q q') (h' : Leaving c q' q'') : Leaving c q q'' := by
  obtain ⟨items, stale, evs, leaves, rfl⟩ := h
  obtain ⟨items', stale', evs', leaves', rfl⟩ := h'
  refine ⟨items', stale', evs ++ evs', leaves.trans leaves', ?_⟩
  simp only [append_assoc]

theorem leaving_stale (stale : Bool) : Leaving c q { q with stale := stale } :=
  ⟨q.items, stale, [], Leaves.none _, by simp only [append_nil]⟩

theorem Numbered.leaving (numbered : Numbered q) (h : Leaving c q q') : Numbered q' := by
  obtain ⟨items, stale, evs, leaves, rfl⟩ := h
  have hsub := leaves.sublist.map Prod.fst
  exact ⟨numbered.nodup.sublist hsub, fun i hi => numbered.old i (hsub.subset hi)⟩

theorem leaving_purge {γ : Type} {visit : WifiMacQueueItem → γ → γ × WifiMacQueue.Visit}
    (honest : ∀ item acc, (visit item acc).2 ≠ .erase .expired) (acc : γ) :
      Leaving c q (q.purge c visit acc).1 :=
  ⟨_, _, _, leaves_passing honest acc, rfl⟩

theorem leaving_purgeTo (pos : ConstIterator) : Leaving c q (q.purgeTo c pos).1 :=
  ⟨_, _, _, leaves_passingTo pos, rfl⟩

theorem leaving_take (numbered : Numbered q)
    (timely : ∀ n ∈ q.items, n.1 = pos → Timely c q.now n.2 cause) :
    Leaving c q (q.take cause pos).1 := by
  rw [LifetimeQueue.take]
  cases hfind : q.items.find? fun n => n.1 = pos with
  | none => exact leaving_stale q.stale
  | some n =>
    have hmem := mem_of_find?_eq_some hfind
    have hpos := List.find?_some hfind
    obtain rfl : n.1 = pos := of_decide_eq_true hpos
    obtain ⟨pre, post, hitems⟩ := append_of_mem hmem
    have herase : (q.items.filter fun m => m.1 ≠ n.1) = pre ++ post :=
      @Chain.erase_of_nodes _ ⟨q.items, q.fresh, numbered.nodup, numbered.old⟩ pre post n hitems
    have leaves := @Leaves.one c q.now n pre post cause (timely n hmem rfl)
    rw [← hitems] at leaves
    exact ⟨pre ++ post, q.stale, _, leaves, by simp only [herase]⟩

theorem leaving_takeFresh (numbered : Numbered q) (pos : ℕ) :
    Leaving c q (q.takeFresh c pos).1 := by
  rw [takeFresh]
  cases hfind : q.items.find? fun n => n.1 = pos with
  | none => exact leaving_stale q.stale
  | some n =>
    have unique : ∀ m ∈ q.items, m.1 = pos → m = n := fun m hm hpos => by
      obtain ⟨pre, post, hitems⟩ := append_of_mem hm
      have hfind' :=
        @Chain.find?_of_nodes _ ⟨q.items, q.fresh, numbered.nodup, numbered.old⟩ pre post m hitems
      rw [hpos] at hfind'
      exact Option.some.inj (hfind'.symm.trans hfind)
    cases hexpired : expired c q.now n.2 with
    | true =>
      simp only [hexpired, if_true]
      exact leaving_take numbered fun m hm hpos => by rw [unique m hm hpos]; exact hexpired
    | false =>
      simp only [hexpired, Bool.false_eq_true, if_false]
      exact leaving_take numbered fun m hm hpos => by rw [unique m hm hpos]; exact hexpired

theorem leaving_dequeueAt (numbered : Numbered q) (pos : ℕ) :
    Leaving c q (q.dequeueAt c pos).1 := by
  rw [dequeueAt]
  split_ifs
  · exact leaving_takeFresh numbered pos
  · have hpurge := (leaving_purgeTo (c := c) (q := q) (some pos)).trans (leaving_stale false)
    exact hpurge.trans (leaving_takeFresh (numbered.leaving hpurge) pos)

theorem leaving_dequeueWhere (numbered : Numbered q) (select : WifiMacQueueItem → Bool) :
    Leaving c q (q.dequeueWhere c select).1 := by
  have hpeek : Leaving c q (q.peekWhere c select none).1 := leaving_stale _
  rw [dequeueWhere]
  cases hfound : (q.peekWhere c select none).2 with
  | none => exact hpeek
  | some n =>
    exact hpeek.trans (leaving_dequeueAt (numbered.leaving hpeek) n.1)

theorem leaving_removeAt (numbered : Numbered q) (pos : ℕ) (removeExpired : Bool) :
    Leaving c q (q.removeAt c pos removeExpired).1 := by
  cases removeExpired with
  | false => exact leaving_take numbered fun _ _ _ => trivial
  | true =>
    have hpurge := (leaving_purgeTo (c := c) (q := q) (some pos)).trans (leaving_stale false)
    exact hpurge.trans (leaving_take (numbered.leaving hpurge) fun _ _ _ => trivial)

end Calls

section Dequeued

variable {c : Config} {q : LifetimeQueue} {item : WifiMacQueueItem}

theorem fresh_of_passing {now : ℕ} {items : List Node}
    (h : (passing c now (fun item _ => (some item, .erase .dequeued)) items none).2.1 = some item) :
    expired c now item = false := by
  induction items with
  | nil => cases h
  | cons n items ih =>
    rw [passing] at h
    cases hexpired : expired c now n.2 with
    | true =>
      rw [hexpired] at h
      exact ih h
    | false =>
      rw [hexpired] at h
      cases h
      exact hexpired

theorem fresh_of_takeFresh {pos : ℕ} (h : (q.takeFresh c pos).2 = some item) :
    expired c q.now item = false := by
  rw [takeFresh] at h
  cases hfind : q.items.find? fun n => n.1 = pos with
  | none =>
    rw [hfind] at h
    cases h
  | some n =>
    rw [hfind] at h
    cases hexpired : expired c q.now n.2 with
    | true =>
      simp only [hexpired, if_true] at h
      cases h
    | false =>
      simp only [hexpired, Bool.false_eq_true, if_false, LifetimeQueue.take, hfind] at h
      cases h
      exact hexpired

theorem fresh_of_dequeueAt {pos : ℕ} (h : (q.dequeueAt c pos).2 = some item) :
    expired c q.now item = false := by
  rw [dequeueAt] at h
  split_ifs at h
  · exact fresh_of_takeFresh h
  · exact @fresh_of_takeFresh c { (q.purgeTo c (some pos)).1 with stale := false } item pos h

theorem fresh_of_dequeueWhere {select : WifiMacQueueItem → Bool}
    (h : (q.dequeueWhere c select).2 = some item) : expired c q.now item = false := by
  rw [dequeueWhere] at h
  cases hfound : (q.peekWhere c select none).2 with
  | none =>
    rw [hfound] at h
    cases h
  | some n =>
    rw [hfound] at h
    exact @fresh_of_dequeueAt c (q.peekWhere c select none).1 item n.1 h

def Action.dequeues : Action → Bool
  | .dequeue => true
  | .dequeueWhere _ => true
  | .dequeueAt _ => true
  | _ => false

theorem fresh_of_perform {a : Action} (dequeues : a.dequeues = true)
    (h : (q.perform c a).2 = .item (some item)) : expired c q.now item = false := by
  cases a with
  | dequeue => exact fresh_of_passing (Result.item.inj h)
  | dequeueWhere query => exact fresh_of_dequeueWhere (Result.item.inj h)
  | dequeueAt pos =>
    cases pos with
    | none => cases h
    | some i => exact fresh_of_dequeueAt (Result.item.inj h)
  | _ => cases dequeues

end Dequeued

/-! ## Steps -/

inductive Moves (c : Config) (q : LifetimeQueue) : LifetimeQueue → Prop where
  | leave {q' : LifetimeQueue} (h : Leaving c q q') : Moves c q q'
  | reject (item : WifiMacQueueItem) :
    Moves c q { q with log := q.log ++ [.dropBeforeEnqueue item] }
  | put {q' : LifetimeQueue} (pos : ConstIterator) (item : WifiMacQueueItem) (h : Leaving c q q') :
    Moves c q (q'.put pos item)
  | wait (delay : ℕ) : Moves c q { q with now := q.now + delay }

section Steps

variable {c : Config} {q q' : LifetimeQueue} {a : Action}

theorem withoutStale_some {now : ℕ} {pos : ConstIterator} {nodes items : List Node}
    {it : ConstIterator} {ev : Event} (h : withoutStale c now pos nodes = some (items, it, ev)) :
    ∃ pre n post, nodes = pre ++ n :: post ∧ items = pre ++ post ∧ ev = .left .expired n now ∧
      expired c now n.2 = true ∧ it = if some n.1 = pos then post.head?.map Prod.fst else pos := by
  induction nodes generalizing items with
  | nil => cases h
  | cons m nodes ih =>
    rw [withoutStale] at h
    by_cases hm : expired c now m.2 = true
    · rw [if_pos hm] at h
      cases h
      exact ⟨[], m, nodes, rfl, rfl, rfl, hm, rfl⟩
    · rw [if_neg hm] at h
      obtain ⟨⟨items', it', ev'⟩, hrest, heq⟩ := Option.map_eq_some_iff.mp h
      cases heq
      obtain ⟨pre, n, post, rfl, rfl, rest⟩ := ih hrest
      exact ⟨m :: pre, n, post, rfl, rfl, rest⟩

theorem moves_insertAt (pos : ConstIterator) (item : WifiMacQueueItem) :
    Moves c q (q.insertAt c pos item).1 := by
  rw [insertAt]
  split_ifs
  · exact .put pos item (leaving_stale q.stale)
  · cases hstale : withoutStale c q.now pos q.items with
    | some r =>
      obtain ⟨pre, n, post, hitems, hrest, hev, hexpired, -⟩ := withoutStale_some hstale
      have leaves := @Leaves.one c q.now n pre post .expired hexpired
      rw [← hitems, ← hrest, ← hev] at leaves
      exact .put r.2.1 item ⟨r.1, q.stale, [r.2.2], leaves, rfl⟩
    | none =>
      cases hpolicy : c.m_dropPolicy with
      | dropNewest => exact .reject item
      | dropOldest =>
        cases hitems : q.items with
        | nil =>
          have reject := Moves.reject (c := c) (q := q) item
          rw [hitems] at reject
          exact reject
        | cons n rest =>
          have leaves := @Leaves.one c q.now n [] rest .oldest trivial
          exact .put pos item ⟨rest, q.stale, _, hitems ▸ leaves, rfl⟩

theorem moves_perform (numbered : Numbered q) (a : Action) : Moves c q (q.perform c a).1 := by
  cases a with
  | enqueue item => exact moves_insertAt none item
  | pushFront item => exact moves_insertAt _ item
  | insertAt pos item => exact moves_insertAt pos item
  | dequeue => exact .leave (leaving_purge (fun _ _ h => by cases h) none)
  | dequeueWhere query => exact .leave (leaving_dequeueWhere numbered query.select)
  | dequeueAt pos =>
    cases pos with
    | none => exact .leave (leaving_stale q.stale)
    | some i => exact .leave (leaving_dequeueAt numbered i)
  | peek => exact .leave (leaving_stale _)
  | peekWhere query pos => exact .leave (leaving_stale _)
  | remove => exact .leave (leaving_purge (fun _ _ h => by cases h) none)
  | removePacket packet =>
    refine .leave (leaving_purge (fun item _ h => ?_) false)
    split_ifs at h
    cases h
  | removeAt pos removeExpired =>
    cases pos with
    | none => exact .leave (leaving_stale q.stale)
    | some i => exact .leave (leaving_removeAt numbered i removeExpired)
  | getNPacketsByAddress dest => exact .leave (leaving_purge (fun _ _ h => by cases h) 0)
  | getNPacketsByTidAndAddress tid dest => exact .leave (leaving_purge (fun _ _ h => by cases h) 0)
  | isEmpty => exact .leave (leaving_purge (fun _ _ h => by cases h) true)
  | getNPackets => exact .leave (leaving_purge (fun _ _ h => by cases h) ())
  | getNBytes => exact .leave (leaving_purge (fun _ _ h => by cases h) ())
  | wait delay => exact .wait delay

/-- Every item that was put in has left once or is still there. -/
structure Ledger (c : Config) (q : LifetimeQueue) : Prop where
  perm : (entered q.log).Perm (departed q.log ++ q.items)
  once : ((entered q.log).map Prod.fst).Nodup
  old : ∀ i ∈ (entered q.log).map Prod.fst, i < q.fresh
  timely : ∀ ev ∈ q.log, EventTimely c ev

theorem ledger_initial (c : Config) : Ledger c .initial :=
  ⟨.refl _, .nil, fun _ h => (nomatch h), fun _ h => (nomatch h)⟩

theorem Ledger.numbered (h : Ledger c q) : Numbered q := by
  have perm := h.perm.map Prod.fst
  rw [map_append] at perm
  exact ⟨(nodup_append.mp (perm.nodup_iff.mp h.once)).2.1,
    fun i hi => h.old i (perm.mem_iff.mpr (mem_append_right _ hi))⟩

theorem Ledger.say (h : Ledger c q) {ev : Event} (entered_eq : entered [ev] = [])
    (departed_eq : departed [ev] = [])
    (timely : EventTimely c ev) : Ledger c { q with log := q.log ++ [ev] } := by
  have hentered : entered (q.log ++ [ev]) = entered q.log := by
    rw [entered_append, entered_eq, append_nil]
  refine ⟨?_, hentered ▸ h.once, hentered ▸ h.old,
    forall_mem_append.mpr ⟨h.timely, forall_mem_singleton.mpr timely⟩⟩
  change (entered (q.log ++ [ev])).Perm (departed (q.log ++ [ev]) ++ q.items)
  rw [hentered, departed_append, departed_eq, append_nil]
  exact h.perm

theorem Ledger.leaving (h : Ledger c q) (leaving : Leaving c q q') : Ledger c q' := by
  obtain ⟨items, stale, evs, leaves, rfl⟩ := leaving
  have hentered : entered (q.log ++ evs) = entered q.log := by
    rw [entered_append, leaves.entered_eq, append_nil]
  refine ⟨?_, hentered ▸ h.once, hentered ▸ h.old, forall_mem_append.mpr ⟨h.timely, leaves.timely⟩⟩
  change (entered (q.log ++ evs)).Perm (departed (q.log ++ evs) ++ items)
  rw [hentered, departed_append, append_assoc]
  exact h.perm.trans (leaves.perm.append_left _)

theorem Ledger.put (h : Ledger c q) (pos : ConstIterator) (item : WifiMacQueueItem) :
    Ledger c (q.put pos item) := by
  have hentered : entered (q.log ++ [.enqueued (q.fresh, item)]) =
      entered q.log ++ [(q.fresh, item)] := entered_append _ _
  have hdeparted : departed (q.log ++ [.enqueued (q.fresh, item)]) = departed q.log :=
    (departed_append _ _).trans (append_nil _)
  have hnew : q.fresh ∉ (entered q.log).map Prod.fst := fun hmem => Nat.lt_irrefl _ (h.old _ hmem)
  have hids : (entered (q.log ++ [.enqueued (q.fresh, item)])).map Prod.fst =
      (entered q.log).map Prod.fst ++ [q.fresh] := by
    rw [hentered, map_append]
    rfl
  refine ⟨?_, ?_, ?_, forall_mem_append.mpr ⟨h.timely, forall_mem_singleton.mpr trivial⟩⟩
  · change (entered (q.log ++ [.enqueued (q.fresh, item)])).Perm
      (departed (q.log ++ [.enqueued (q.fresh, item)]) ++
        Chain.insertNode (q.fresh, item) pos q.items)
    rw [hentered, hdeparted]
    have hfront := (h.perm.append_right [(q.fresh, item)]).trans (perm_append_singleton _ _)
    exact hfront.trans
      (perm_middle.symm.trans ((Chain.perm_insertNode _ pos q.items).symm.append_left _))
  · change ((entered (q.log ++ [.enqueued (q.fresh, item)])).map Prod.fst).Nodup
    rw [hids]
    exact (perm_append_singleton _ _).nodup_iff.mpr (nodup_cons.mpr ⟨hnew, h.once⟩)
  · change ∀ i ∈ (entered (q.log ++ [.enqueued (q.fresh, item)])).map Prod.fst, i < q.fresh + 1
    rw [hids]
    intro i hi
    rcases mem_append.mp hi with hold | hi
    · exact Nat.lt_succ_of_lt (h.old i hold)
    · exact mem_singleton.mp hi ▸ Nat.lt_succ_self _

theorem Ledger.moves (h : Ledger c q) (moves : Moves c q q') : Ledger c q' := by
  cases moves with
  | leave leaving => exact h.leaving leaving
  | reject item => exact h.say rfl rfl trivial
  | put pos item leaving => exact (h.leaving leaving).put pos item
  | wait delay => exact ⟨h.perm, h.once, h.old, h.timely⟩

theorem Ledger.step (h : Ledger c q) (a : Action) : Ledger c (q.step c a) :=
  (h.moves (moves_perform h.numbered a)).say rfl rfl trivial

def InOrder (items items' : List Node) : Prop :=
  Chain.common items items' = Chain.common items' items

theorem Moves.inOrder (numbered : Numbered q) (moves : Moves c q q') :
    InOrder q.items q'.items := by
  have hnodup : q.items.Nodup := List.Nodup.of_map _ numbered.nodup
  cases moves with
  | leave leaving =>
    obtain ⟨items, stale, evs, leaves, rfl⟩ := leaving
    exact (Chain.common_of_sublist leaves.sublist hnodup).trans
      (Chain.common_of_subset leaves.sublist.subset).symm
  | reject item => rfl
  | put pos item leaving =>
    obtain ⟨items, stale, evs, leaves, rfl⟩ := leaving
    have hnew : (q.fresh, item) ∉ q.items := fun hmem =>
      Nat.lt_irrefl _ (numbered.old _ (mem_map_of_mem (f := Prod.fst) hmem))
    have perm := Chain.perm_insertNode (q.fresh, item) pos items
    have same : ∀ n ∈ q.items, (n ∈ Chain.insertNode (q.fresh, item) pos items ↔ n ∈ items) :=
      fun n hn => by
      have hne : n ≠ (q.fresh, item) := fun heq => hnew (heq ▸ hn)
      rw [perm.mem_iff, mem_cons, or_iff_right hne]
    calc
      Chain.common q.items (Chain.insertNode (q.fresh, item) pos items) =
        Chain.common q.items items :=
        Chain.common_congr same
      _ = items := Chain.common_of_sublist leaves.sublist hnodup
      _ = Chain.common items q.items := (Chain.common_of_subset leaves.sublist.subset).symm
      _ = Chain.common (Chain.insertNode (q.fresh, item) pos items) q.items :=
        (Chain.common_insertNode hnew).symm
  | wait delay => rfl

theorem step_inOrder (numbered : Numbered q) (a : Action) : InOrder q.items (q.step c a).items := by
  have horder := (moves_perform (c := c) numbered a).inOrder numbered
  exact horder

end Steps

end Egsr.Wifi.MacQueue
