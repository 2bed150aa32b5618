import Egsr.Network.BufferIsolation

/-! Runs of buffer operations. What a buffer reads, copies and shows is the list
of bytes that the same operations produce on a list of its own, in every run that
keeps its offsets within 32 bits and joins zero areas only where nothing lies
behind them. -/

namespace Egsr.Network.Buffers

open Lib Lib.Blocks Lib.CopyOnWrite Lib.Outcome List

/-! ## Reading -/

section Reading

variable {d : Data} {b : Buffer}

def byteAt (d : Data) (b : Buffer) (v : ℕ) : UInt8 :=
  if v < b.mZeroAreaStart then d.bytes v
  else if v < b.mZeroAreaEnd then 0
  else d.bytes (v - (b.mZeroAreaEnd - b.mZeroAreaStart))

theorem content_eq_slice (proper : Proper d b) :
    content d b = slice (byteAt d b) b.mStart b.getSize := by
  have start_le := proper.start_le
  have zero_le := proper.zero_le
  have end_le := proper.end_le
  have whole : b.getSize = b.mZeroAreaStart - b.mStart + (b.mZeroAreaEnd - b.mZeroAreaStart) +
      (b.mEnd - b.mZeroAreaEnd) := by
    unfold Buffer.getSize
    omega
  have front : slice (byteAt d b) b.mStart (b.mZeroAreaStart - b.mStart) =
      slice d.bytes b.mStart (b.mZeroAreaStart - b.mStart) :=
    slice_congr _ fun j low high => if_pos (by omega)
  have zeros : slice (byteAt d b) (b.mStart + (b.mZeroAreaStart - b.mStart))
      (b.mZeroAreaEnd - b.mZeroAreaStart) =
        replicate (b.mZeroAreaEnd - b.mZeroAreaStart) 0 := by
    refine eq_replicate_iff.mpr ⟨length_slice _ _ _, fun x hx => ?_⟩
    obtain ⟨j, hj, rfl⟩ := mem_map.mp hx
    have := mem_range.mp hj
    rw [byteAt, if_neg (by omega), if_pos (by omega)]
  have back : slice (byteAt d b)
      (b.mStart + (b.mZeroAreaStart - b.mStart + (b.mZeroAreaEnd - b.mZeroAreaStart)))
      (b.mEnd - b.mZeroAreaEnd) = slice d.bytes b.mZeroAreaStart (b.mEnd - b.mZeroAreaEnd) := by
    refine map_congr_left fun j _ => ?_
    rw [byteAt, if_neg (by omega), if_neg (by omega)]
    congr 1
    omega
  rw [content_eq proper, whole, ← slice_append, ← slice_append, front, zeros, back]

theorem readAll_eq {s : Store Data} (proper : Proper (s.cell b.mData) b) (n : ℕ) {it : Iterator}
    (same : it = { b.beginIterator with current := it.current })
    (inside : b.mStart ≤ it.current ∧ it.current + n ≤ b.mEnd) :
    it.readAll s n = .ok (slice (byteAt (s.cell b.mData) b) it.current n) := by
  have start_le := proper.start_le
  have zero_le := proper.zero_le
  have end_le := proper.end_le
  have reach := proper.inside
  unfold Buffer.getInternalEnd at reach
  induction n generalizing it with
  | zero => rfl
  | succ n ih =>
    have peek : it.peekU8 s = .ok (byteAt (s.cell b.mData) b it.current) := by
      rw [same]
      unfold Iterator.peekU8 byteAt Buffer.beginIterator
      dsimp only
      split_ifs <;> first | rfl | omega
    have rest := @ih (it.next 1) (by rw [same]; rfl) (by
      simp only [Iterator.next]
      omega)
    rw [Iterator.readAll, peek]
    simp only [bind, Except.bind, rest, slice_succ, pure, Except.pure]
    rfl

theorem bytes_eq {h : Heap} (proper : Proper (h.store.cell b.mData) b) :
    b.bytes h = .ok (contentOf h.store b) := by
  have size : b.mStart + b.getSize ≤ b.mEnd := by
    have := proper.start_le
    have := proper.zero_le
    have := proper.end_le
    unfold Buffer.getSize
    omega
  rw [Buffer.bytes, readAll_eq proper b.getSize rfl ⟨le_rfl, size⟩, contentOf,
    content_eq_slice proper]
  rfl

theorem copyData_eq {h : Heap} (proper : Proper (h.store.cell b.mData) b) (n : ℕ) :
    b.copyData h n = .ok ((contentOf h.store b).take n) := by
  have second : ∀ f z, min z (n - min f n) = min (n - f) z := by omega
  have third : ∀ f z k, min k (n - min f n - min (n - f) z) = min (n - (f + z)) k := by omega
  obtain ⟨f, z, k, hf, hz, hk⟩ := proper.lengths
  have hfront : b.mZeroAreaStart - b.mStart = f := by rw [hf, Nat.add_sub_cancel_left]
  have hzeros : b.mZeroAreaEnd - b.mZeroAreaStart = z := by
    rw [hf, hz, Nat.add_sub_add_left, Nat.add_sub_cancel_left]
  have hback : b.mEnd - b.mZeroAreaEnd = k := by
    rw [hz, hk, Nat.add_sub_add_left, Nat.add_sub_add_left, Nat.add_sub_cancel_left]
  have hboth : b.mZeroAreaEnd - b.mStart = f + z := by rw [hz, Nat.add_sub_cancel_left]
  have reach := proper.inside
  rw [internalEnd_eq hf hz hk] at reach
  have front : readBlock (h.store.cell b.mData) b.mStart (min f n) = .ok _ :=
    readBlock_eq
      (.inr (le_trans (Nat.add_le_add_left ((min_le_left f n).trans (Nat.le_add_right f k)) _)
        reach))
  have back : readBlock (h.store.cell b.mData) b.mZeroAreaStart (min (n - (f + z)) k) = .ok _ :=
    readBlock_eq (.inr (by
      rw [hf, Nat.add_assoc]
      exact le_trans (Nat.add_le_add_left (Nat.add_le_add_left (min_le_right _ k) f) _) reach))
  have taken := take_content proper n
  rw [← contentOf, hfront, hzeros, hback, hboth] at taken
  unfold Buffer.copyData
  simp only [hfront, hzeros, hback, second, third, front, back, bind, Except.bind, pure,
    Except.pure]
  rw [taken, Nat.min_comm f n]
  split_ifs with none inFront inZeros
  · simp [none]
  · have : n - f = 0 := by omega
    have : n - (f + z) = 0 := by omega
    simp [*]
  · have : n - (f + z) = 0 := by omega
    simp [*]
  · rfl

end Reading

/-! ## One step -/

abbrev World.contents (w : World) : List (Option (List UInt8)) :=
  views content Buffer.mData w.heap.store w.buffers

/-- The buffers of a world share their bytes properly, and they see the given lists. -/
structure Agrees (w : World) (p : List (Option (List UInt8))) : Prop where
  shared : Shared w.heap.store (live w.buffers)
  contents : w.contents = p

section Steps

variable {w : World} {p : List (Option (List UInt8))} {i j : ℕ} {b o : Buffer}

theorem Agrees.of_buffer (good : Agrees w p) (hi : w.buffer i = some b) :
    Shared w.heap.store (b :: live (w.buffers.set i none)) ∧
      p.getD i none = some (contentOf w.heap.store b) := by
  refine ⟨good.shared.perm (live_of_slot hi), ?_⟩
  rw [← good.contents]
  exact views_getD w.heap.store hi

theorem Agrees.of_none (good : Agrees w p) (hi : w.buffer i = none) : p.getD i none = none := by
  rw [← good.contents]
  exact views_getD_none w.heap.store hi

theorem Agrees.set (good : Agrees w p) (hi : w.buffer i = some b) {bytes : List UInt8}
    {h : Heap} {b' : Buffer}
    (result : Result w.heap.store (live (w.buffers.set i none)) bytes h.store b') :
    Agrees ⟨h, w.buffers.set i (some b')⟩ (p.set i (some bytes)) where
  shared := by
    refine result.shared.perm (live_set (lt_of_slot hi) (some b')).symm
  contents := by
    rw [World.contents, views_set result.same, ← good.contents]
    exact congrArg (fun l => List.set _ i (some l)) result.content

theorem Agrees.add (good : Agrees w p) {bytes : List UInt8} {h : Heap} {b' : Buffer}
    (result : Result w.heap.store (live w.buffers) bytes h.store b') :
    Agrees ⟨h, w.buffers ++ [some b']⟩ (p ++ [some bytes]) where
  shared := result.shared.perm (live_append (some b')).symm
  contents := by
    rw [World.contents, views_append result.same, ← good.contents]
    exact congrArg (fun l => _ ++ [some l]) result.content

theorem update_spec (good : Agrees w p) (f : Heap → Buffer → Except Fault (Heap × Buffer))
    (g : List UInt8 → List UInt8)
    (spec : ∀ b, w.buffer i = some b → Shared w.heap.store (b :: live (w.buffers.set i none)) →
      Ensures (f w.heap b) (fun r => Result w.heap.store (live (w.buffers.set i none))
        (g (contentOf w.heap.store b)) r.1.store r.2) fun _ => False) :
    Ensures (w.update i f) (fun w' => Agrees w' (p.set i ((p.getD i none).map g)))
      fun _ => False := by
  unfold World.update
  cases hi : w.buffer i with
  | none =>
    rw [good.of_none hi, Option.map_none, set_none_of_getD (good.of_none hi)]
    exact good
  | some b =>
    obtain ⟨shared, entry⟩ := good.of_buffer hi
    rw [entry]
    exact (spec b hi shared).bind fun r result => good.set hi result

theorem set_map (p : List (Option (List UInt8))) (i : ℕ) (g : List UInt8 → List UInt8) :
    p.set i ((p.getD i none).map g) =
      match p.getD i none with
      | some l => p.set i (some (g l))
      | none => p := by
  cases hi : p.getD i none with
  | none => exact set_none_of_getD hi
  | some l => rfl

theorem derive_spec (good : Agrees w p) (f : Heap → Buffer → Heap × Buffer)
    (g : List UInt8 → List UInt8)
    (spec : ∀ b, w.buffer i = some b → ∀ others, Shared w.heap.store (b :: others) →
      Result w.heap.store (b :: others) (g (contentOf w.heap.store b)) (f w.heap b).1.store
        (f w.heap b).2) :
    Agrees (w.derive i f) (match p.getD i none with
        | none => p
        | some l => p ++ [some (g l)]) := by
  unfold World.derive
  cases hi : w.buffer i with
  | none =>
    rw [good.of_none hi]
    exact good
  | some b =>
    obtain ⟨shared, entry⟩ := good.of_buffer hi
    rw [entry]
    have result := spec b hi _ shared
    have order := live_of_slot hi
    refine good.add ⟨result.shared.perm (order.symm.cons _), result.content, fun o ho => ?_⟩
    exact result.same o (order.mem_iff.mp ho)

theorem assign_spec (good : Agrees w p) (hi : w.buffer i = some b) (hj : w.buffer j = some o)
    (room : b.mData ≠ o.mData → Room w.heap o) :
    Result w.heap.store (live (w.buffers.set i none)) (contentOf w.heap.store o)
      (b.assign w.heap o).1.store o := by
  have cells := assign_cell w.heap b o
  refine ⟨?_, by rw [contentOf, cells]; rfl, fun q hq => by rw [cells]⟩
  by_cases same : j = i
  · obtain rfl : b = o := Option.some.inj (hi.symm.trans (same ▸ hj))
    rw [Buffer.assign, if_neg (not_not.mpr rfl)]
    exact (good.of_buffer hi).1
  · have others := live_of_slots hi hj same
    have rest := (live_of_slot (getD_set_none hj same)).symm
    exact (assign_shared (good.shared.perm others) room).perm (rest.cons o)

/-- How many buffers share the Data of `b`. -/
def World.sharers (w : World) (b : Buffer) : ℕ :=
  ((live w.buffers).map Buffer.mData).count b.mData

theorem Agrees.room (good : Agrees w p) (few : w.sharers b + 1 < 4294967296) : Room w.heap b := by
  rwa [Room, good.shared.counted]

/-- No offset leaves 32 bits, fewer than 2 ^ 32 buffers share a Data afterwards, a fragment is a
part of its buffer, and an appended buffer is another one that can be appended. -/
def Sound [Allocator] (w : World) : Op → Prop
  | .construct zeroSize =>
    min (Allocator.size w.heap.store.next 0) w.heap.recommendedStart + zeroSize.toNat < 4294967296
  | .copy i => ∀ b ∈ w.buffer i, w.sharers b + 1 < 4294967296
  | .assign i j =>
    ∀ b ∈ w.buffer i, ∀ o ∈ w.buffer j, b.mData ≠ o.mData → w.sharers o + 1 < 4294967296
  | .createFragment i start length =>
    ∀ b ∈ w.buffer i, w.sharers b + 1 < 4294967296 ∧ start.toNat + length.toNat ≤ b.getSize
  | .addAtStart i data => ∀ b ∈ w.buffer i, FitsAtStart w.heap b data.length
  | .addAtEnd i data => ∀ b ∈ w.buffer i, FitsAtEnd w.heap b data.length
  | .append i j =>
    i ≠ j ∧ ∀ b ∈ w.buffer i, ∀ o ∈ w.buffer j, FitsAppend w.heap b o
  | .removeAtStart i start => ∀ b ∈ w.buffer i, b.mStart + start.toNat < 4294967296
  | .peekData i =>
    ∀ b ∈ w.buffer i, b.mZeroAreaEnd - b.mZeroAreaStart = 0 ∨
      w.heap.recommendedStart + b.getSize < 4294967296
  | .destroy _ | .removeAtEnd _ _ => True

variable [Allocator]

theorem peekData_spec {h : Heap} {others : List Buffer} (shared : Shared h.store (b :: others))
    (fits : b.mZeroAreaEnd - b.mZeroAreaStart = 0 ∨ h.recommendedStart + b.getSize < 4294967296) :
    Ensures (b.peekData h) (fun r => r.1 = contentOf h.store b ∧
        Result h.store others (contentOf h.store b) r.2.1.store r.2.2) fun _ => False := by
  have proper := shared.proper b (by simp)
  have made : Ensures (Buffer.makeReal h b)
      (fun r => Result h.store others (contentOf h.store b) r.1.store r.2 ∧
        r.2.mZeroAreaEnd - r.2.mZeroAreaStart = 0) fun _ => False := by
    by_cases real : b.mZeroAreaEnd - b.mZeroAreaStart = 0
    · obtain ⟨recommended, copied⟩ := makeReal_of_real (h := h) real
      rw [copied]
      refine ⟨⟨?_, rfl, SameView.refl _ _⟩, real⟩
      exact shared.replace rfl ⟨proper.start_le, proper.zero_le, proper.end_le, proper.fits,
        proper.clean, proper.inside⟩ (fun _ together => together) fun _ together => together
    · exact (makeReal_spec shared real (fits.resolve_left real)).weaken fun r made =>
        ⟨made.1, made.2.1⟩
  refine made.bind fun r ⟨result, real⟩ => ?_
  have proper' := result.shared.proper r.2 (by simp)
  have size := proper'.size_eq
  rw [real, Nat.add_zero] at size
  have inside := proper'.internalEnd_eq ▸ proper'.inside
  dsimp only
  rw [size, readBlock_eq (.inr inside)]
  refine ⟨?_, result⟩
  rw [← result.content, contentOf, content, real, spread_zero]

theorem append_step (good : Agrees w p) (other : i ≠ j) (hj : w.buffer j = some o)
    (fits : ∀ b ∈ w.buffer i, FitsAppend w.heap b o) :
    Ensures (w.update i fun h b => b.append h o)
      (fun w' => Agrees w' (p.set i ((p.getD i none).map fun l => l ++ contentOf w.heap.store o)))
      fun _ => False := by
  refine update_spec good _ _ fun b hi shared => ?_
  have rest := live_of_slot (getD_set_none hj other.symm)
  refine (append_spec (shared.perm (rest.cons b)) (fits b hi)).weaken fun r result => ?_
  exact ⟨result.shared.perm (rest.symm.cons _), result.content,
    fun q hq => result.same q (rest.mem_iff.mp hq)⟩

theorem step_spec (good : Agrees w p) {op : Op} (sound : Sound w op) :
    Ensures (w.step op) (fun w' => Agrees w' (plainStep p op)) fun _ => False := by
  cases op with
  | construct zeroSize => exact good.add (construct_spec good.shared _ sound).1.1
  | copy i =>
    refine derive_spec good Buffer.copy (fun l => l) fun b hi others shared => ?_
    exact ⟨copy_shared shared (good.room (sound b hi)), rfl, fun _ _ => rfl⟩
  | assign i j =>
    simp only [World.step, plainStep]
    cases hj : w.buffer j with
    | none =>
      rw [good.of_none hj]
      cases p.getD i none <;> exact good
    | some o =>
      have assigned := update_spec (i := i) good (fun h b => pure (b.assign h o))
        (fun _ => contentOf w.heap.store o) fun b hi shared =>
          assign_spec good hi hj fun other => good.room (sound b hi o hj other)
      rw [set_map] at assigned
      rw [(good.of_buffer hj).2]
      cases hi : p.getD i none <;> simpa only [hi] using assigned
  | createFragment i start length =>
    refine derive_spec good (fun h b => b.createFragment h start.toNat length.toNat)
      (fun l => (l.drop start.toNat).take length.toNat)
      fun b hi others shared => ?_
    obtain ⟨few, inside⟩ := sound b hi
    obtain ⟨shared', bytes⟩ := createFragment_spec shared (good.room few) inside
    exact ⟨shared', bytes, fun _ _ => rfl⟩
  | destroy i =>
    simp only [World.step, plainStep]
    cases hi : w.buffer i with
    | none =>
      rw [set_none_of_getD (good.of_none hi)]
      exact good
    | some b =>
      refine ⟨destroy_shared (good.of_buffer hi).1, ?_⟩
      have same : Same w.heap.store (b.destroy w.heap).store (live (w.buffers.set i none)) :=
        fun _ _ => rfl
      rw [World.contents, views_set same, ← good.contents]
      rfl
  | addAtStart i data =>
    exact update_spec good (fun h b => b.addAtStartWith h data) (fun l => data ++ l) fun b hi
      shared =>
      (addAtStartWith_spec shared (sound b hi)).weaken fun r leaves => leaves.1
  | addAtEnd i data =>
    exact update_spec good (fun h b => b.addAtEndWith h data) (fun l => l ++ data) fun b hi
      shared =>
      (addAtEndWith_spec shared (sound b hi)).weaken fun r leaves => leaves.1
  | append i j =>
    simp only [World.step, plainStep]
    cases hj : w.buffer j with
    | none =>
      rw [good.of_none hj]
      cases p.getD i none <;> exact good
    | some o =>
      rw [(good.of_buffer hj).2]
      have appended := append_step good sound.1 hj fun b hi => sound.2 b hi o hj
      rw [set_map] at appended
      cases hi : p.getD i none <;> simpa only [hi] using appended
  | removeAtStart i start =>
    refine update_spec good (fun h b => pure (h, b.removeAtStart start.toNat))
      (fun l => l.drop start.toNat) fun b hi shared => ?_
    obtain ⟨shared', bytes⟩ := removeAtStart_spec shared (sound b hi)
    exact ⟨shared', bytes, SameView.refl _ _⟩
  | removeAtEnd i last =>
    refine update_spec good (fun h b => pure (h, b.removeAtEnd last.toNat))
      (fun l => l.take (l.length - last.toNat)) fun b hi shared => ?_
    obtain ⟨shared', bytes⟩ := removeAtEnd_spec shared last.toNat
    exact ⟨shared', bytes, SameView.refl _ _⟩
  | peekData i =>
    have peeked := update_spec (i := i) good
      (fun h b => do
        let r ← b.peekData h
        pure r.2)
      (fun l => l) fun b hi shared =>
        (peekData_spec shared (sound b hi)).bind fun r peeked => peeked.2
    have unchanged : p.set i ((p.getD i none).map fun l => l) = p := by
      rw [Option.map_id']
      exact set_getD p i
    rwa [unchanged] at peeked

end Steps

/-! ## Runs -/

def plain (ops : List Op) : List (Option (List UInt8)) := ops.foldl plainStep []

def ReadsAs (w : World) (p : List (Option (List UInt8))) : Prop :=
  ∀ i, match w.buffer i, p.getD i none with
    | some b, some l => b.bytes w.heap = .ok l ∧ ∀ n, b.copyData w.heap n = .ok (l.take n)
    | none, none => True
    | _, _ => False

theorem Agrees.readsAs {w : World} {p : List (Option (List UInt8))} (good : Agrees w p) :
    ReadsAs w p := by
  intro i
  cases hi : w.buffer i with
  | none =>
    rw [good.of_none hi]
    trivial
  | some b =>
    obtain ⟨shared, entry⟩ := good.of_buffer hi
    have proper := shared.proper b (by simp)
    rw [entry]
    exact ⟨bytes_eq proper, copyData_eq proper⟩

theorem start_agrees : Agrees World.start [] where
  shared := ⟨fun _ => rfl, by simp [live, World.start], by simp [live, World.start],
    by simp [live, World.start]⟩
  contents := rfl

section Runs

variable [Allocator]

/-- In every run that meets the condition no byte outside is touched, and every buffer reads as the
list that the same operations produce on a list of its own. -/
theorem buffers_isolated (ops : List Op) (run : Run.Along World.step Sound World.start ops) :
    Ensures (Run.exec World.step World.start ops) (fun w => ReadsAs w (plain ops))
      fun _ => False := by
  have keep : ∀ done w op, Agrees w (plain done) → Sound w op →
      Ensures (World.step w op) (fun w' => Agrees w' (plain (done ++ [op]))) fun _ => False := by
    intro done w op good sound
    rw [plain, foldl_append]
    exact step_spec good sound
  have start : Agrees World.start (plain []) := start_agrees
  exact (ensures_exec_history keep start run).weaken fun w good => good.readsAs

instance decidableSound (w : World) : ∀ op, Decidable (Sound w op)
  | .construct _ | .copy _ | .assign .. | .createFragment .. | .addAtStart .. | .addAtEnd ..
  | .append .. | .removeAtStart .. | .peekData _ | .destroy _ | .removeAtEnd .. =>
    by unfold Sound; infer_instance

end Runs

@[reducible] def roomy : Allocator where
  size _ asked := asked + 64
  bytes _ _ _ := 0
  enough _ asked := Nat.le_add_right asked 64

def sharing : List Op :=
  [.construct 10, .addAtStart 0 [1, 2], .copy 0, .addAtEnd 1 [3], .addAtEnd 0 [4],
    .removeAtStart 0 5, .construct 7, .construct 5, .append 2 3, .append 0 1, .peekData 2,
    .createFragment 0 3 6, .assign 1 2, .removeAtEnd 0 9, .destroy 3]

theorem buffers_isolated_sharing :
    ∃ w, Run.exec (@World.step roomy) World.start sharing = .ok w ∧ ReadsAs w (plain sharing) := by
  -- the run itself is only evaluated by the kernel
  generalize hops : sharing = ops
  have run : Run.Along (@World.step roomy) (@Sound roomy) World.start ops := by
    rw [← hops]
    decide +kernel
  exact (@buffers_isolated roomy ops run).exists_ok

def trailing : List Op := [.construct 10, .construct 5, .addAtEnd 1 [7, 8], .append 0 1]

/-- The bytes behind the joined zero areas are written to where they would be without them. -/
theorem trailing_lost : ¬Ensures (Run.exec (@World.step roomy) World.start trailing)
      (fun w => ReadsAs w (plain trailing)) fun _ => False := by
  have zeros : Ensures (Run.exec (@World.step roomy) World.start trailing)
      (fun w => (w.buffer 0).map (fun b => b.bytes w.heap) =
        some (.ok (replicate 17 0))) fun _ => False := by
    decide +kernel
  obtain ⟨w, run, bytes⟩ := zeros.exists_ok
  refine not_ensures_of_ok run fun good => ?_
  have entry : (plain trailing).getD 0 none = some (replicate 15 0 ++ [7, 8]) := by decide
  have reads := good 0
  rw [entry] at reads
  cases hb : w.buffer 0 with
  | none => simp [hb] at bytes
  | some b =>
    rw [hb] at reads bytes
    have same := (Option.some.inj bytes).symm.trans reads.1
    exact absurd (Except.ok.inj same) (by decide)

end Egsr.Network.Buffers
