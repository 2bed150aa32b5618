import Egsr.Network.Buffer

/-! Buffers that share bytes behave like independent lists of bytes. Each buffer
sees a region of its bytes; the dirty end bounds, for any two buffers on the same
bytes, the zero area of one and the bytes of the other together, so that a buffer
which is not dirty has the free bytes at its end to itself. -/

namespace Egsr.Network.Buffers

open Lib Lib.Blocks Lib.CopyOnWrite Lib.Outcome List

/-! ## What a buffer sees and relies on -/

def spread (front zeros : ℕ) (raw : List UInt8) : List UInt8 :=
  raw.take front ++ replicate zeros 0 ++ raw.drop front

def content (d : Data) (b : Buffer) : List UInt8 :=
  spread (b.mZeroAreaStart - b.mStart) (b.mZeroAreaEnd - b.mZeroAreaStart)
    (slice d.bytes b.mStart b.getInternalSize)

structure Proper (d : Data) (b : Buffer) : Prop where
  start_le : b.mStart ≤ b.mZeroAreaStart
  zero_le : b.mZeroAreaStart ≤ b.mZeroAreaEnd
  end_le : b.mZeroAreaEnd ≤ b.mEnd
  fits : b.mEnd < 4294967296
  clean : d.dirtyStart ≤ b.mStart
  inside : b.getInternalEnd ≤ d.size

def Together (d : Data) (b o : Buffer) : Prop :=
  b.mZeroAreaEnd - b.mZeroAreaStart + o.getInternalEnd ≤ d.dirtyEnd

abbrev Shared (s : Store Data) (buffers : List Buffer) : Prop :=
  Kept Buffer.mData Proper Together s buffers

abbrev Same (s s' : Store Data) (others : List Buffer) : Prop :=
  SameView Buffer.mData content s s' others

def contentOf (s : Store Data) (b : Buffer) : List UInt8 := content (s.cell b.mData) b

theorem u32_of_lt {n : ℕ} (lt : n < 4294967296) : u32 n = n := Nat.mod_eq_of_lt lt

namespace Proper

variable {d : Data} {b : Buffer}

theorem internalEnd_eq (h : Proper d b) : b.getInternalEnd = b.mStart + b.getInternalSize := by
  have := h.start_le
  have := h.zero_le
  have := h.end_le
  unfold Buffer.getInternalEnd Buffer.getInternalSize
  omega

theorem size_eq (h : Proper d b) :
    b.getSize = b.getInternalSize + (b.mZeroAreaEnd - b.mZeroAreaStart) := by
  have := h.start_le
  have := h.zero_le
  have := h.end_le
  unfold Buffer.getSize Buffer.getInternalSize
  omega

end Proper

theorem length_spread {front zeros : ℕ} {raw : List UInt8} :
    (spread front zeros raw).length = raw.length + zeros := by
  simp only [spread, length_append, length_take, length_replicate, length_drop]
  omega

variable {b : Buffer} {d : Data}

theorem length_content (h : Proper d b) : (content d b).length = b.getSize := by
  rw [content, length_spread, length_slice, h.size_eq]

@[simp] theorem spread_zero (front : ℕ) (raw : List UInt8) : spread front 0 raw = raw := by
  simp [spread]

theorem spread_front {front zeros : ℕ} {data raw : List UInt8} :
    spread (data.length + front) zeros (data ++ raw) = data ++ spread front zeros raw := by
  simp [spread, take_length_add_append, drop_length_add_append]

theorem spread_back {front zeros : ℕ} {data raw : List UInt8} (le : front ≤ raw.length) :
    spread front zeros (raw ++ data) = spread front zeros raw ++ data := by
  simp [spread, take_append_of_le_length le, drop_append_of_le_length le]

/-- No other buffer sees the `n` bytes from `i` on. -/
def Exclusive (others : List Buffer) (id i n : ℕ) : Prop :=
  ∀ o ∈ others, o.mData = id → n = 0 ∨ o.getInternalEnd ≤ i ∨ i + n ≤ o.mStart

def Data.write (d : Data) (i : ℕ) (data : List UInt8) : Data :=
  { d with bytes := patch d.bytes i data }

theorem Data.write_append (d : Data) (i : ℕ) (xs ys : List UInt8) :
    (d.write i xs).write (i + xs.length) ys = d.write i (xs ++ ys) := by
  simp [Data.write, patch_append]

@[simp] theorem Data.write_nil (d : Data) (i : ℕ) : d.write i [] = d := by
  simp [Data.write]

variable {s : Store Data}

theorem writeBlock_eq {id i : ℕ} {data : List UInt8}
    (inside : data.length = 0 ∨ i + data.length ≤ (s.cell id).size) :
    writeBlock s id i data = .ok (s.put id ((s.cell id).write i data)) := if_pos inside

@[simp] theorem writeBlock_nil (s : Store Data) (id i : ℕ) : writeBlock s id i [] = .ok s := by
  rw [writeBlock_eq (.inl rfl), Data.write_nil, Store.put_cell]

theorem readBlock_eq {i n : ℕ} (inside : n = 0 ∨ i + n ≤ d.size) :
    readBlock d i n = .ok (slice d.bytes i n) := if_pos inside

variable {others : List Buffer}

theorem Shared.write (h : Shared s (b :: others)) {i : ℕ} {data : List UInt8}
    (exclusive : Exclusive others b.mData i data.length) :
    Shared (s.put b.mData ((s.cell b.mData).write i data)) (b :: others) ∧
      Same s (s.put b.mData ((s.cell b.mData).write i data)) others := by
  have self := h.proper b (by simp)
  refine ⟨h.put rfl ?_ (h.together b (by simp) b (by simp) rfl) (fun o ho same => ?_)
    fun o ho p hp same same' => ?_, Kept.sameView_put fun o ho same => ?_⟩
  · exact ⟨self.start_le, self.zero_le, self.end_le, self.fits, self.clean, self.inside⟩
  · have mem := mem_cons_of_mem b ho
    have proper := h.proper o mem
    rw [same] at proper
    refine ⟨⟨proper.start_le, proper.zero_le, proper.end_le, proper.fits, proper.clean,
      proper.inside⟩, h.together b (by simp) o mem same.symm, ?_⟩
    have together := h.together o mem b (by simp) same
    rwa [same] at together
  · have together := h.together o (mem_cons_of_mem b ho) p (mem_cons_of_mem b hp)
      (same.trans same'.symm)
    rwa [same] at together
  · have proper := h.proper o (mem_cons_of_mem b ho)
    rw [same] at proper
    unfold content
    congr 1
    rcases exclusive o ho same with none | apart
    · rw [length_eq_zero_iff.mp none, Data.write_nil]
    · rw [proper.internalEnd_eq] at apart
      exact slice_patch_apart _ apart

/-! ## Growing -/

/-- A buffer that has grown by `start` bytes in front and by `last` bytes at its end, not yet
written and seen by no other; the largest offset has grown no more than it must. -/
structure Grown (h : Heap) (b : Buffer) (others : List Buffer) (start last : ℕ)
    (r : Heap × Buffer) : Prop where
  shared : Shared r.1.store (r.2 :: others)
  same : Same h.store r.1.store others
  recommended : r.1.recommendedStart = h.recommendedStart
  front : r.2.mZeroAreaStart - r.2.mStart = start + (b.mZeroAreaStart - b.mStart)
  zeros : r.2.mZeroAreaEnd - r.2.mZeroAreaStart = b.mZeroAreaEnd - b.mZeroAreaStart
  back : r.2.mEnd - r.2.mZeroAreaEnd = b.mEnd - b.mZeroAreaEnd + last
  old : slice (r.1.store.cell r.2.mData).bytes (r.2.mStart + start) b.getInternalSize =
    slice (h.store.cell b.mData).bytes b.mStart b.getInternalSize
  frontFree : Exclusive others r.2.mData r.2.mStart start
  backFree : Exclusive others r.2.mData (r.2.getInternalEnd - last) last
  small : r.2.mEnd ≤ max (b.mEnd + last) (b.getSize + start + last)

theorem Shared.inPlace
    (h : Shared s (b :: others)) (b' : Buffer) (own : b'.mData = b.mData) (dirtyStart dirtyEnd : ℕ)
    (proper : Proper { s.cell b.mData with dirtyStart := dirtyStart, dirtyEnd := dirtyEnd } b')
    (self : b'.mZeroAreaEnd - b'.mZeroAreaStart + b'.getInternalEnd ≤ dirtyEnd)
    (clean : ∀ o ∈ others, o.mData = b.mData → dirtyStart ≤ o.mStart ∧
      b'.mZeroAreaEnd - b'.mZeroAreaStart + o.getInternalEnd ≤ dirtyEnd ∧
      o.mZeroAreaEnd - o.mZeroAreaStart + b'.getInternalEnd ≤ dirtyEnd ∧
      (s.cell b.mData).dirtyEnd ≤ dirtyEnd) :
    Shared (setDirty s b.mData dirtyStart dirtyEnd) (b' :: others) ∧
      Same s (setDirty s b.mData dirtyStart dirtyEnd) others := by
  refine ⟨h.put own proper self (fun o ho same => ?_) fun o ho p hp same same' => ?_,
    Kept.sameView_put fun o ho same => rfl⟩
  · obtain ⟨start, left, right, -⟩ := clean o ho same
    have before := h.proper o (mem_cons_of_mem b ho)
    rw [same] at before
    exact ⟨⟨before.start_le, before.zero_le, before.end_le, before.fits, start, before.inside⟩,
      left, right⟩
  · have before := h.together o (mem_cons_of_mem b ho) p (mem_cons_of_mem b hp)
      (same.trans same'.symm)
    rw [same] at before
    exact before.trans (clean o ho same).2.2.2

theorem Shared.alone_or (h : Shared s (b :: others)) :
    (∀ o ∈ others, o.mData ≠ b.mData) ∨ 1 < s.count b.mData := by
  have pos := h.count_pos
  by_cases one : s.count b.mData = 1
  · exact .inl (h.unique one)
  · have ne : (s.count b.mData).toNat ≠ 1 := fun count => one (UInt32.toNat_inj.mp count)
    exact .inr (UInt32.lt_iff_toNat_lt.mpr (Nat.lt_of_le_of_ne pos (Ne.symm ne)))

theorem setDirty_moved (s : Store Data) (d : Data) (i dirtyStart dirtyEnd : ℕ) :
    setDirty ((s.create d).release i) s.next dirtyStart dirtyEnd =
      (s.create { d with dirtyStart := dirtyStart, dirtyEnd := dirtyEnd }).release i := by
  have cell : ((s.create d).release i).cell s.next = d := s.cell_create_next d
  rw [setDirty, cell,
    ← s.create_put_next d { d with dirtyStart := dirtyStart, dirtyEnd := dirtyEnd }]
  rfl

def FitsAtStart (h : Heap) (b : Buffer) (start : ℕ) : Prop :=
  start ≤ b.mStart ∧ ¬Buffer.isDirtyAtStart h b ∨ b.getSize + start < 4294967296
deriving Decidable

def FitsAtEnd (h : Heap) (b : Buffer) (last : ℕ) : Prop :=
  if b.getInternalEnd + last ≤ (h.store.cell b.mData).size ∧ ¬Buffer.isDirtyAtEnd h b then
    b.mEnd + last < 4294967296
  else
    (Buffer.isDirtyAtEnd h b ∨ b.getInternalEnd + last < 4294967296) ∧
      b.getSize + last < 4294967296
deriving Decidable

theorem fitsAtEnd_of_le {h : Heap} {last : ℕ}
    (fits : max b.mEnd b.getSize + last < 4294967296) : FitsAtEnd h b last := by
  have internal : b.getInternalEnd ≤ b.mEnd := Nat.sub_le _ _
  unfold FitsAtEnd
  split
  · omega
  · exact ⟨.inr (by omega), by omega⟩

section Growing

variable [Allocator]

/-- Where a buffer is after it has moved, with `room` bytes left free in front of it. -/
def Buffer.movedTo (b : Buffer) (id room : ℕ) : Buffer :=
  { b with
    mData := id
    mStart := room
    mZeroAreaStart := room + (b.mZeroAreaStart - b.mStart)
    mZeroAreaEnd := room + (b.mZeroAreaEnd - b.mStart)
    mEnd := room + b.getSize }

def movedData (s : Store Data) (b : Buffer) (newSize room : ℕ) : Data where
  size := Allocator.size s.next newSize
  bytes := patch (Allocator.bytes s.next newSize) room
    (slice (s.cell b.mData).bytes b.mStart b.getInternalSize)
  dirtyStart := 0
  dirtyEnd := 0

variable {others : List Buffer}

theorem relocate_eq {h : Heap} (shared : Shared h.store (b :: others)) {newSize room : ℕ}
    (fits : b.getSize + room < 4294967296) (enough : room + b.getInternalSize ≤ newSize) :
    Buffer.relocate h b newSize room =
      .ok ({ h with
          store := (h.store.create (movedData h.store b newSize room)).release b.mData },
        b.movedTo h.store.next room) := by
  have proper := shared.proper b (by simp)
  have start_le := proper.start_le
  have zero_le := proper.zero_le
  have end_le := proper.end_le
  have small := proper.fits
  have allocated := Allocator.enough h.store.next newSize
  have cell : (create h.store newSize).cell b.mData = h.store.cell b.mData :=
    h.store.cell_create_of_lt (shared.below b (by simp)) _
  have source : b.getInternalSize = 0 ∨ b.mStart + b.getInternalSize ≤
      (h.store.cell b.mData).size := .inr (proper.internalEnd_eq ▸ proper.inside)
  have target : (slice (h.store.cell b.mData).bytes b.mStart b.getInternalSize).length = 0 ∨
      room + (slice (h.store.cell b.mData).bytes b.mStart b.getInternalSize).length ≤
        ((create h.store newSize).cell h.store.next).size := by
    rw [length_slice, create, Store.cell_create_next]
    exact .inr (enough.trans allocated)
  have move : ∀ offset, b.mStart ≤ offset → offset ≤ b.mEnd →
      u32 (offset + room + 4294967296 - b.mStart) = room + (offset - b.mStart) := by
    intro offset low high
    unfold Buffer.getSize at fits
    unfold u32
    omega
  have start := move b.mStart le_rfl (start_le.trans (zero_le.trans end_le))
  rw [Nat.sub_self, Nat.add_zero] at start
  have written : (create h.store newSize).put h.store.next
      (((create h.store newSize).cell h.store.next).write room
        (slice (h.store.cell b.mData).bytes b.mStart b.getInternalSize)) =
      h.store.create (movedData h.store b newSize room) := by
    simp [create, movedData, Data.write]
  simp only [Buffer.relocate, cell, readBlock_eq source, bind, Except.bind, writeBlock_eq target,
    pure, Except.pure, written]
  rw [start, move _ start_le (zero_le.trans end_le), move _ (start_le.trans zero_le) end_le,
    move _ (start_le.trans (zero_le.trans end_le)) le_rfl]
  rfl

theorem grown_relocated {h : Heap} (shared : Shared h.store (b :: others)) (start last newSize : ℕ)
    (fits : b.getSize + start + last < 4294967296)
    (enough : start + b.getInternalSize + last ≤ newSize) :
    Grown h b others start last
      ({ h with
          store := setDirty
            ((h.store.create (movedData h.store b newSize start)).release b.mData)
            h.store.next 0 (start + b.getSize + last) },
        Buffer.noteZeroArea { b.movedTo h.store.next start with
          mStart := 0
          mEnd := start + b.getSize + last }) := by
  have proper := shared.proper b (by simp)
  have start_le := proper.start_le
  have zero_le := proper.zero_le
  have end_le := proper.end_le
  have allocated := Allocator.enough h.store.next newSize
  have apart : ∀ o ∈ others, o.mData ≠ h.store.next := fun o ho =>
    (shared.ne_next) o (mem_cons_of_mem b ho)
  unfold Buffer.getSize at fits
  unfold Buffer.getInternalSize at enough
  constructor
  · rw [setDirty_moved]
    refine shared.move rfl ?_ ?_
    · constructor <;>
        simp only [Buffer.noteZeroArea, Buffer.movedTo, Buffer.getSize, Buffer.getInternalEnd,
          movedData] <;> omega
    · simp only [Together, Buffer.noteZeroArea, Buffer.movedTo, Buffer.getSize,
        Buffer.getInternalEnd]
      omega
  · rw [setDirty_moved]
    exact shared.sameView_move _
  · rfl
  · simp only [Buffer.noteZeroArea, Buffer.movedTo]
    omega
  · simp only [Buffer.noteZeroArea, Buffer.movedTo]
    omega
  · simp only [Buffer.noteZeroArea, Buffer.movedTo, Buffer.getSize]
    omega
  · simp only [setDirty_moved, Buffer.noteZeroArea, Buffer.movedTo, Nat.zero_add,
      Store.cell_release, Store.cell_create_next, movedData]
    have whole := slice_patch_self (Allocator.bytes h.store.next newSize) start
      (slice (h.store.cell b.mData).bytes b.mStart b.getInternalSize)
    rwa [length_slice] at whole
  · exact fun o ho same => absurd same (apart o ho)
  · exact fun o ho same => absurd same (apart o ho)
  · simp only [Buffer.noteZeroArea]
    omega

theorem addAtStart_spec {h : Heap} (shared : Shared h.store (b :: others)) {start : ℕ}
    (fits : FitsAtStart h b start) :
    Ensures (Buffer.addAtStart h b start) (Grown h b others start 0) fun _ => False := by
  have proper := shared.proper b (by simp)
  have start_le := proper.start_le
  have zero_le := proper.zero_le
  have end_le := proper.end_le
  have small := proper.fits
  have inside := proper.inside
  have self := shared.together b (by simp) b (by simp) rfl
  unfold Together at self
  unfold Buffer.addAtStart
  refine Ensures.ite (fun room => ?_) fun crowded => ?_
  · -- In front of the buffer there is room, and the bytes there are its own.
    have below : ∀ o ∈ others, o.mData = b.mData → b.mStart ≤ o.mStart := by
      intro o ho same
      have clean := (shared.proper o (mem_cons_of_mem b ho)).clean
      rw [same] at clean
      rcases shared.alone_or with alone | many
      · exact absurd same (alone o ho)
      · have := Nat.le_of_not_lt fun dirty => room.2 ⟨many, dirty⟩
        omega
    have moved := shared.inPlace (Buffer.noteZeroArea { b with mStart := b.mStart - start }) rfl
      (b.mStart - start) (h.store.cell b.mData).dirtyEnd
      ⟨(Nat.sub_le _ _).trans start_le, zero_le, end_le, small, le_rfl, inside⟩ self
      fun o ho same => by
        have lower := below o ho same
        have mem := mem_cons_of_mem b ho
        have left := shared.together b (by simp) o mem same.symm
        have right := shared.together o mem b (by simp) same
        rw [same] at right
        exact ⟨(Nat.sub_le _ _).trans lower, left, right, le_rfl⟩
    refine ⟨moved.1, moved.2, rfl, ?_, rfl, rfl, ?_, ?_, ?_, ?_⟩
    · simp only [Buffer.noteZeroArea]
      omega
    · simp [Buffer.noteZeroArea, setDirty, Nat.sub_add_cancel room.1]
    · intro o ho same
      have lower := below o ho same
      simp only [Buffer.noteZeroArea]
      omega
    · exact fun o ho same => .inl rfl
    · exact le_max_left _ _
  · have size : b.getSize + start < 4294967296 := fits.resolve_left crowded
    have internal := proper.size_eq
    have exact_size : u32 (b.getInternalSize + start) = b.getInternalSize + start :=
      u32_of_lt (by omega)
    rw [exact_size, relocate_eq shared size (by omega)]
    have grown := grown_relocated shared start 0 (b.getInternalSize + start) (by omega) (by omega)
    simpa [Buffer.movedTo, bind, Except.bind] using grown

theorem addAtEnd_spec {h : Heap}
    (shared : Shared h.store (b :: others)) {last : ℕ} (fits : FitsAtEnd h b last) :
    Ensures (Buffer.addAtEnd h b last) (Grown h b others 0 last) fun _ => False := by
  have proper := shared.proper b (by simp)
  have start_le := proper.start_le
  have zero_le := proper.zero_le
  have end_le := proper.end_le
  have small := proper.fits
  have self := shared.together b (by simp) b (by simp) rfl
  unfold Together at self
  have internal : b.getInternalEnd = b.mEnd - (b.mZeroAreaEnd - b.mZeroAreaStart) := rfl
  unfold FitsAtEnd at fits
  unfold Buffer.addAtEnd
  refine Ensures.ite (fun room => ?_) fun crowded => ?_
  · -- Behind the buffer there is room, and no other reaches as far as this one.
    have stays : b.getInternalEnd + last ≤ (h.store.cell b.mData).size ∧
        ¬Buffer.isDirtyAtEnd h b := by
      refine ⟨?_, room.2⟩
      by_contra exceeds
      rw [if_neg fun both => exceeds both.1] at fits
      have := fits.1.resolve_left room.2
      exact exceeds (u32_of_lt this ▸ room.1)
    rw [if_pos stays] at fits
    have reach : ∀ o ∈ others, o.mData = b.mData → (h.store.cell b.mData).dirtyEnd ≤ b.mEnd := by
      intro o ho same
      rcases shared.alone_or with alone | many
      · exact absurd same (alone o ho)
      · exact Nat.le_of_not_lt fun dirty => stays.2 ⟨many, dirty⟩
    have left : ∀ o ∈ others, o.mData = b.mData →
        b.mZeroAreaEnd - b.mZeroAreaStart + o.getInternalEnd ≤
          (h.store.cell b.mData).dirtyEnd := fun o ho same =>
      shared.together b (by simp) o (mem_cons_of_mem b ho) same.symm
    rw [u32_of_lt fits]
    have moved := shared.inPlace (Buffer.noteZeroArea { b with mEnd := b.mEnd + last }) rfl
      (h.store.cell b.mData).dirtyStart (b.mEnd + last)
      (by constructor <;> simp only [Buffer.noteZeroArea, Buffer.getInternalEnd] <;>
            first | exact proper.clean | omega)
      (by simp only [Buffer.noteZeroArea, Buffer.getInternalEnd]
          omega)
      (fun o ho same => by
        have mem := mem_cons_of_mem b ho
        have clean := (shared.proper o mem).clean
        have right := shared.together o mem b (by simp) same
        have upper := reach o ho same
        have before := left o ho same
        unfold Together at right
        rw [same] at clean right
        refine ⟨clean, ?_, ?_, ?_⟩ <;>
          simp only [Buffer.noteZeroArea, Buffer.getInternalEnd] at right before ⊢ <;> omega)
    refine ⟨moved.1, moved.2, rfl, ?_, rfl, ?_, ?_, ?_, ?_, ?_⟩
    · exact (Nat.zero_add _).symm
    · simp only [Buffer.noteZeroArea]
      omega
    · simp [Buffer.noteZeroArea, setDirty]
    · exact fun o ho same => .inl rfl
    · intro o ho same
      have upper := reach o ho same
      have before := left o ho same
      simp only [Buffer.noteZeroArea, Buffer.getInternalEnd] at before ⊢
      omega
    · exact le_max_left _ _
  · have stays : ¬(b.getInternalEnd + last ≤ (h.store.cell b.mData).size ∧
        ¬Buffer.isDirtyAtEnd h b) := by
      rintro ⟨room, clean⟩
      rw [if_pos ⟨room, clean⟩] at fits
      have exact_end : u32 (b.getInternalEnd + last) = b.getInternalEnd + last :=
        u32_of_lt (by omega)
      rw [← exact_end] at room
      exact crowded ⟨room, clean⟩
    rw [if_neg stays] at fits
    have size := proper.size_eq
    have exact_size : u32 (b.getInternalSize + last) = b.getInternalSize + last :=
      u32_of_lt (by omega)
    rw [exact_size, relocate_eq shared (by omega) (by omega)]
    have grown := grown_relocated shared 0 last (b.getInternalSize + last) (by omega) (by omega)
    simpa [Buffer.movedTo, bind, Except.bind, u32_of_lt fits.2] using grown

end Growing

/-- A buffer and its bytes after an operation, of which the other buffers see nothing. -/
structure Result (s : Store Data) (others : List Buffer) (bytes : List UInt8) (s' : Store Data)
    (b' : Buffer) : Prop where
  shared : Shared s' (b' :: others)
  content : contentOf s' b' = bytes
  same : Same s s' others

theorem contentOf_put (s : Store Data) (b : Buffer) (d : Data) :
    contentOf (s.put b.mData d) b = content d b := by
  rw [contentOf, s.cell_put_self]

section Filled

variable {h : Heap} {b : Buffer} {others : List Buffer} {r : Heap × Buffer}

theorem Grown.internalSize {start last : ℕ} (g : Grown h b others start last r) :
    r.2.getInternalSize = start + (b.getInternalSize + last) := by
  have front := g.front
  have back := g.back
  unfold Buffer.getInternalSize
  omega

theorem Grown.fillFront (data : List UInt8) (g : Grown h b others data.length 0 r) :
    Result h.store others (data ++ contentOf h.store b)
      (r.1.store.put r.2.mData ((r.1.store.cell r.2.mData).write r.2.mStart data)) r.2 := by
  obtain ⟨shared, same⟩ := g.shared.write g.frontFree
  refine ⟨shared, ?_, g.same.trans same⟩
  have raw : slice (patch (r.1.store.cell r.2.mData).bytes r.2.mStart data) r.2.mStart
      r.2.getInternalSize =
        data ++ slice (h.store.cell b.mData).bytes b.mStart b.getInternalSize := by
    rw [g.internalSize, ← slice_append, slice_patch_self, slice_patch_apart _ (.inr le_rfl)]
    exact congrArg _ g.old
  rw [contentOf_put]
  simp only [contentOf, content, Data.write, raw, g.front, g.zeros, spread_front]

theorem Grown.fillBack (data : List UInt8) (g : Grown h b others 0 data.length r) :
    Result h.store others (contentOf h.store b ++ data)
      (r.1.store.put r.2.mData
        ((r.1.store.cell r.2.mData).write (r.2.getInternalEnd - data.length) data)) r.2 := by
  obtain ⟨shared, same⟩ := g.shared.write g.backFree
  refine ⟨shared, ?_, g.same.trans same⟩
  have place : r.2.getInternalEnd - data.length = r.2.mStart + b.getInternalSize := by
    have stop := (g.shared.proper r.2 (by simp)).internalEnd_eq
    have size := g.internalSize
    omega
  have raw : slice (patch (r.1.store.cell r.2.mData).bytes (r.2.mStart + b.getInternalSize) data)
      r.2.mStart r.2.getInternalSize =
        slice (h.store.cell b.mData).bytes b.mStart b.getInternalSize ++ data := by
    rw [g.internalSize, Nat.zero_add, ← slice_append, slice_patch_self,
      slice_patch_apart _ (.inl le_rfl), ← g.old, Nat.add_zero]
  have short : b.mZeroAreaStart - b.mStart ≤
      (slice (h.store.cell b.mData).bytes b.mStart b.getInternalSize).length := by
    rw [length_slice]
    exact Nat.le_add_right _ _
  rw [contentOf_put]
  simp only [contentOf, content, Data.write, place, raw, g.front, g.zeros, Nat.zero_add,
    spread_back short]

end Filled

/-! ## Iterators -/

def Iterator.place (it : Iterator) : ℕ :=
  if it.current < it.zeroStart then it.current
  else it.current - (it.zeroEnd - it.zeroStart)

/-- The next `n` bytes lie on one side of the zero area. -/
def Iterator.OneSide (it : Iterator) (n : ℕ) : Prop :=
  it.zeroStart ≤ it.zeroEnd ∧ (it.current + n ≤ it.zeroStart ∨ it.zeroEnd ≤ it.current)

variable {it : Iterator}

theorem writeAll_eq {data : List UInt8} (side : it.OneSide data.length)
    (inside : it.place + data.length ≤ (s.cell it.data).size) :
    it.writeAll s data =
      .ok (s.put it.data ((s.cell it.data).write it.place data), it.next data.length) := by
  induction data generalizing s it with
  | nil => simp [Iterator.writeAll, Iterator.next, pure, Except.pure]
  | cons x data ih =>
    obtain ⟨zeros, side⟩ := side
    rw [length_cons] at side inside
    have one : [x].length = 0 ∨ it.place + [x].length ≤ (s.cell it.data).size :=
      .inr (by rw [length_singleton]; omega)
    have next : data ≠ [] → (it.next 1).place = it.place + 1 := by
      intro some_data
      have pos := length_pos_iff.mpr some_data
      unfold Iterator.place Iterator.next
      dsimp only
      split_ifs <;> omega
    have room : (it.next 1).place + data.length ≤ (s.cell it.data).size := by
      unfold Iterator.place Iterator.next at *
      dsimp only at *
      split_ifs at * <;> omega
    have first : it.writeU8 s x =
        .ok (s.put it.data ((s.cell it.data).write it.place [x]), it.next 1) := by
      have written := writeBlock_eq one
      change (writeBlock s it.data it.place [x] >>= fun s => pure (s, it.next 1)) = _
      rw [written]
      rfl
    have rest := @ih (s.put it.data ((s.cell it.data).write it.place [x])) (it.next 1)
      ⟨zeros, by simp only [Iterator.next]; omega⟩ (by simpa [Iterator.next, Data.write] using room)
    have behind : ((s.cell it.data).write it.place [x]).write (it.next 1).place data =
        (s.cell it.data).write it.place (x :: data) := by
      by_cases empty : data = []
      · rw [empty, Data.write_nil]
      · rw [next empty]
        exact Data.write_append _ _ [x] data
    rw [Iterator.writeAll, first]
    simp only [bind, Except.bind, rest]
    have data_next : (it.next 1).data = it.data := rfl
    rw [data_next, Store.cell_put_self, Store.put_put, behind]
    have current : it.current + 1 + data.length = it.current + (x :: data).length := by
      rw [length_cons]
      omega
    simp only [Iterator.next, current]

theorem writePlace {n : ℕ} (side : it.OneSide n) :
    n = 0 ∨ (if it.current ≤ it.zeroStart then it.current
      else it.current - (it.zeroEnd - it.zeroStart)) = it.place := by
  obtain ⟨zeros, side⟩ := side
  unfold Iterator.place
  by_cases none : n = 0
  · exact .inl none
  · right
    split_ifs <;> omega

theorem write_eq {data : List UInt8} (side : it.OneSide data.length)
    (inside : it.place + data.length ≤ (s.cell it.data).size) :
    it.write s data =
      .ok (s.put it.data ((s.cell it.data).write it.place data), it.next data.length) := by
  rcases writePlace side with none | place
  · rw [length_eq_zero_iff.mp none, Data.write_nil, Store.put_cell]
    simp only [Iterator.write, writeBlock_nil, bind, Except.bind, pure, Except.pure]
  · simp only [Iterator.write, place, writeBlock_eq (.inr inside), bind, Except.bind, pure,
      Except.pure]

theorem writeTimes_eq {data : UInt8} {len : ℕ}
    (side : it.OneSide len) (inside : it.place + len ≤ (s.cell it.data).size) :
    it.writeTimes s data len =
      .ok (s.put it.data ((s.cell it.data).write it.place (replicate len data)),
        it.next len) := by
  have length := length_replicate (n := len) (a := data)
  have written := @write_eq s it (replicate len data) (by rwa [length]) (by rwa [length])
  rw [length] at written
  rw [← written]
  simp [Iterator.writeTimes, Iterator.write]

section Filling

variable {h : Heap} {b : Buffer} {others : List Buffer} {r : Heap × Buffer} {n : ℕ}

theorem Data.write_congr {i j : ℕ} {data : List UInt8}
    (same : data.length = 0 ∨ i = j) : d.write i data = d.write j data := by
  rcases same with none | rfl
  · rw [length_eq_zero_iff.mp none, Data.write_nil, Data.write_nil]
  · rfl

theorem Grown.atBegin (g : Grown h b others n 0 r) :
    r.2.beginIterator.OneSide n ∧ (n = 0 ∨ r.2.beginIterator.place = r.2.mStart) ∧
      r.2.beginIterator.place + n ≤ (r.1.store.cell r.2.mData).size := by
  have proper := g.shared.proper r.2 (by simp)
  have start_le := proper.start_le
  have zero_le := proper.zero_le
  have end_le := proper.end_le
  have inside := proper.inside
  have front := g.front
  unfold Buffer.getInternalEnd at inside
  unfold Iterator.OneSide Iterator.place Buffer.beginIterator
  dsimp only
  refine ⟨⟨zero_le, .inl (by omega)⟩, ?_, ?_⟩
  · by_cases none : n = 0
    · exact .inl none
    · right
      rw [if_pos (by omega)]
  · split_ifs <;> omega

theorem Grown.atEnd (g : Grown h b others 0 n r) :
    (r.2.endIterator.prev n).OneSide n ∧
      (r.2.endIterator.prev n).place = r.2.getInternalEnd - n ∧
      (r.2.endIterator.prev n).place + n ≤ (r.1.store.cell r.2.mData).size := by
  have proper := g.shared.proper r.2 (by simp)
  have zero_le := proper.zero_le
  have end_le := proper.end_le
  have inside := proper.inside
  have back := g.back
  unfold Buffer.getInternalEnd at inside ⊢
  unfold Iterator.OneSide Iterator.place Buffer.endIterator Iterator.prev
  dsimp only
  refine ⟨⟨zero_le, .inr (by omega)⟩, ?_, ?_⟩
  · rw [if_neg (by omega)]
    omega
  · rw [if_neg (by omega)]
    omega

variable [Allocator]

abbrev Leaves (h : Heap) (others : List Buffer) (bytes : List UInt8) (r : Heap × Buffer) : Prop :=
  Result h.store others bytes r.1.store r.2 ∧ r.1.recommendedStart = h.recommendedStart

theorem addAtStartWith_spec (shared : Shared h.store (b :: others)) {data : List UInt8}
    (fits : FitsAtStart h b data.length) :
    Ensures (Buffer.addAtStartWith h b data)
      (Leaves h others (data ++ contentOf h.store b)) fun _ => False := by
  refine (addAtStart_spec shared fits).bind fun r g => ?_
  obtain ⟨side, place, inside⟩ := g.atBegin
  dsimp only
  rw [writeAll_eq side inside, Data.write_congr place]
  exact ⟨g.fillFront data, g.recommended⟩

theorem addAtEndWith_spec (shared : Shared h.store (b :: others)) {data : List UInt8}
    (fits : FitsAtEnd h b data.length) :
    Ensures (Buffer.addAtEndWith h b data)
      (Leaves h others (contentOf h.store b ++ data)) fun _ => False := by
  refine (addAtEnd_spec shared fits).bind fun r g => ?_
  obtain ⟨side, place, inside⟩ := g.atEnd
  dsimp only
  rw [writeAll_eq side inside, place]
  exact ⟨g.fillBack data, g.recommended⟩

end Filling

/-! ## Copies -/

section

variable (proper : Proper d b)

include proper

theorem content_eq :
    content d b = slice d.bytes b.mStart (b.mZeroAreaStart - b.mStart) ++
      replicate (b.mZeroAreaEnd - b.mZeroAreaStart) 0 ++
        slice d.bytes b.mZeroAreaStart (b.mEnd - b.mZeroAreaEnd) := by
  have whole : b.mStart + (b.mZeroAreaStart - b.mStart) = b.mZeroAreaStart :=
    Nat.add_sub_of_le proper.start_le
  rw [content, spread, Buffer.getInternalSize, ← slice_append, whole,
    take_left' (length_slice _ _ _), drop_left' (length_slice _ _ _)]

theorem front_eq :
    slice d.bytes b.mStart (b.mZeroAreaStart - b.mStart) =
      (content d b).take (b.mZeroAreaStart - b.mStart) := by
  rw [content_eq proper, append_assoc, take_left' (length_slice _ _ _)]

theorem back_eq :
    slice d.bytes b.mZeroAreaStart (b.mEnd - b.mZeroAreaEnd) =
      (content d b).drop (b.mZeroAreaEnd - b.mStart) := by
  have start_le := proper.start_le
  have zero_le := proper.zero_le
  rw [content_eq proper, drop_left']
  rw [length_append, length_slice, length_replicate]
  omega

theorem read_front :
    readBlock d b.mStart (b.mZeroAreaStart - b.mStart) =
      .ok ((content d b).take (b.mZeroAreaStart - b.mStart)) := by
  have inside := proper.inside
  rw [proper.internalEnd_eq, Buffer.getInternalSize] at inside
  rw [readBlock_eq (.inr (by omega)), front_eq proper]

theorem read_back :
    readBlock d b.mZeroAreaStart (b.mEnd - b.mZeroAreaEnd) =
      .ok ((content d b).drop (b.mZeroAreaEnd - b.mStart)) := by
  have start_le := proper.start_le
  have inside := proper.inside
  rw [proper.internalEnd_eq, Buffer.getInternalSize] at inside
  rw [readBlock_eq (.inr (by omega)), back_eq proper]

theorem content_split : (content d b).take (b.mZeroAreaStart - b.mStart) ++
      (replicate (b.mZeroAreaEnd - b.mZeroAreaStart) 0 ++
        (content d b).drop (b.mZeroAreaEnd - b.mStart)) = content d b := by
  rw [← front_eq proper, ← back_eq proper, content_eq proper, append_assoc]

end

theorem size_of_result {s' : Store Data} {bytes : List UInt8} {b' : Buffer}
    (result : Result s others bytes s' b') : b'.getSize = bytes.length := by
  rw [← result.content, contentOf, length_content (result.shared.proper b' (by simp))]

section Copies

variable {h : Heap} {b : Buffer} {others : List Buffer}

/-- The Data of the buffer can have one owner more. -/
def Room (h : Heap) (b : Buffer) : Prop := (h.store.count b.mData).toNat + 1 < 4294967296

theorem copy_shared (shared : Shared h.store (b :: others)) (room : Room h b) :
    Shared (Buffer.copy h b).1.store ((Buffer.copy h b).2 :: b :: others) := by
  refine Kept.copy shared rfl room (fun proper => ?_) (fun _ together => together)
    fun _ together => together
  exact ⟨proper.start_le, proper.zero_le, proper.end_le, proper.fits, proper.clean, proper.inside⟩

theorem assign_store (h : Heap) (b o : Buffer) :
    (Buffer.assign h b o).1.store = (h.store.release b.mData).acquire o.mData := by
  by_cases same : b.mData = o.mData <;> simp [Buffer.assign, same]

theorem assign_cell (h : Heap) (b o : Buffer) :
    (Buffer.assign h b o).1.store.cell = h.store.cell := by
  by_cases same : b.mData = o.mData <;> simp [Buffer.assign, same]

theorem assign_shared {o : Buffer} (shared : Shared h.store (b :: o :: others))
    (room : b.mData ≠ o.mData → Room h o) :
    Shared (Buffer.assign h b o).1.store (o :: o :: others) := by
  rw [assign_store]
  refine shared.release.copy rfl ?_ id (fun _ => id) fun _ => id
  have fewer := shared.release.counted o.mData
  have before := shared.counted o.mData
  have below := (h.store.count o.mData).toNat_lt
  rw [map_cons, count_cons] at before
  by_cases same : b.mData = o.mData
  · simp only [same, BEq.rfl, if_true] at before fewer ⊢
    omega
  · have := room same
    unfold Room at this
    omega

theorem destroy_shared (shared : Shared h.store (b :: others)) :
    Shared (Buffer.destroy h b).store others := Kept.release shared

variable [Allocator]

theorem construct_spec (shared : Shared h.store others) (zeroSize : ℕ)
    (fits : min (Allocator.size h.store.next 0) h.recommendedStart + zeroSize < 4294967296) :
    Leaves h others (replicate zeroSize 0) (Buffer.construct h zeroSize) ∧
      (Buffer.construct h zeroSize).2.mZeroAreaEnd -
        (Buffer.construct h zeroSize).2.mZeroAreaStart = zeroSize ∧
      (Buffer.construct h zeroSize).2.mEnd ≤ h.recommendedStart + zeroSize := by
  have small : min (Allocator.size h.store.next 0) h.recommendedStart ≤ h.recommendedStart :=
    min_le_right _ _
  have inside : min (Allocator.size h.store.next 0) h.recommendedStart ≤
      Allocator.size h.store.next 0 := min_le_left _ _
  have size : (create h.store 0).cell h.store.next = _ := h.store.cell_create_next _
  have buffer : (Buffer.construct h zeroSize).2 =
      let start := min (Allocator.size h.store.next 0) h.recommendedStart
      ⟨h.store.next, start, start, start + zeroSize, start, start + zeroSize⟩ := by
    simp only [Buffer.construct, size, u32_of_lt fits]
  have store : (Buffer.construct h zeroSize).1.store = h.store.create
      { size := Allocator.size h.store.next 0
        bytes := Allocator.bytes h.store.next 0
        dirtyStart := min (Allocator.size h.store.next 0) h.recommendedStart
        dirtyEnd := min (Allocator.size h.store.next 0) h.recommendedStart + zeroSize } := by
    simp only [Buffer.construct, size, u32_of_lt fits, setDirty]
    rw [create, Store.create_put_next]
  rw [Leaves, store, buffer]
  refine ⟨⟨⟨shared.create rfl ?_ ?_, ?_, shared.sameView_create _⟩, rfl⟩, ?_, ?_⟩
  · constructor <;> simp only [Buffer.getInternalEnd] <;> omega
  · simp only [Together, Buffer.getInternalEnd]
    omega
  · simp [contentOf, content, spread, Buffer.getInternalSize]
  · simp
  · simp [small]

/-- A buffer without a zero area that lies no further out than its bytes demand. -/
structure Real (h : Heap) (others : List Buffer) (bytes : List UInt8) (r : Heap × Buffer) :
    Prop where
  leaves : Leaves h others bytes r
  real : r.2.mZeroAreaEnd - r.2.mZeroAreaStart = 0
  small : r.2.mEnd ≤ h.recommendedStart + bytes.length

/-- The buffer has grown; when the new bytes are written through the iterator, it is real again. -/
structure Ready (h : Heap) (others : List Buffer) (it : Iterator) (data bytes : List UInt8)
    (r : Heap × Buffer) : Prop where
  side : it.OneSide data.length
  inside : it.place + data.length ≤ (r.1.store.cell it.data).size
  proper : ∀ o ∈ others, Proper (r.1.store.cell o.mData) o
  same : Same h.store r.1.store others
  written : Real h others bytes
    ({ r.1 with store := r.1.store.put it.data ((r.1.store.cell it.data).write it.place data) },
      r.2)

theorem growFront_spec {bytes data : List UInt8} {r₀ : Heap × Buffer}
    (before : Real h others bytes r₀) {n : ℕ} (length : data.length = n)
    (fits : h.recommendedStart + (data ++ bytes).length < 4294967296) :
    Ensures (Buffer.addAtStart r₀.1 r₀.2 n)
      (fun r => Ready h others r.2.beginIterator data (data ++ bytes) r) fun _ => False := by
  subst length
  obtain ⟨⟨result, recommended⟩, real, small⟩ := before
  have size := size_of_result result
  rw [length_append] at fits
  refine (addAtStart_spec result.shared (.inr (by omega))).weaken fun r g => ?_
  obtain ⟨side, place, inside⟩ := g.atBegin
  have filled := g.fillFront data
  have smaller := g.small
  rw [result.content, ← Data.write_congr place] at filled
  refine ⟨side, inside, fun o ho => g.shared.proper o (mem_cons_of_mem _ ho),
    result.same.trans g.same, ⟨⟨filled.shared, filled.content, result.same.trans filled.same⟩,
      g.recommended.trans recommended⟩, g.zeros.trans real, ?_⟩
  rw [length_append]
  dsimp only
  omega

theorem growBack_spec {bytes data : List UInt8} {r₀ : Heap × Buffer}
    (before : Real h others bytes r₀) {n : ℕ} (length : data.length = n)
    (fits : h.recommendedStart + (bytes ++ data).length < 4294967296) :
    Ensures (Buffer.addAtEnd r₀.1 r₀.2 n)
      (fun r => Ready h others (r.2.endIterator.prev n) data (bytes ++ data) r)
      fun _ => False := by
  subst length
  obtain ⟨⟨result, recommended⟩, real, small⟩ := before
  have size := size_of_result result
  rw [length_append] at fits
  refine (addAtEnd_spec result.shared (fitsAtEnd_of_le (by omega))).weaken fun r g => ?_
  obtain ⟨side, place, inside⟩ := g.atEnd
  have filled := g.fillBack data
  have smaller := g.small
  rw [result.content, ← place] at filled
  refine ⟨side, inside, fun o ho => g.shared.proper o (mem_cons_of_mem _ ho),
    result.same.trans g.same, ⟨⟨filled.shared, filled.content, result.same.trans filled.same⟩,
      g.recommended.trans recommended⟩, g.zeros.trans real, ?_⟩
  rw [length_append]
  dsimp only
  omega

theorem createFullCopy_of_real (real : b.mZeroAreaEnd - b.mZeroAreaStart = 0) :
    Buffer.createFullCopy h b = .ok (Buffer.copy h b) := if_neg (not_not.mpr real)

theorem createFullCopy_spec (shared : Shared h.store (b :: others))
    (zeros : b.mZeroAreaEnd - b.mZeroAreaStart ≠ 0)
    (fits : h.recommendedStart + b.getSize < 4294967296) :
    Ensures (Buffer.createFullCopy h b) (Real h (b :: others) (contentOf h.store b))
      fun _ => False := by
  have proper := shared.proper b (by simp)
  have start_le := proper.start_le
  have zero_le := proper.zero_le
  have end_le := proper.end_le
  have size : (contentOf h.store b).length = b.mEnd - b.mStart := length_content proper
  unfold Buffer.getSize at fits
  obtain ⟨leaves, real, small⟩ := construct_spec shared 0 (by
    have := min_le_right (Allocator.size h.store.next 0) h.recommendedStart
    omega)
  have made : Real h (b :: others) [] (Buffer.construct h 0) := ⟨leaves, real, small⟩
  have front_length : ((contentOf h.store b).take (b.mZeroAreaStart - b.mStart)).length =
      b.mZeroAreaStart - b.mStart := by
    rw [length_take]
    omega
  have back_length : ((contentOf h.store b).drop (b.mZeroAreaEnd - b.mStart)).length =
      b.mEnd - b.mZeroAreaEnd := by
    rw [length_drop]
    omega
  have zero_length :=
    length_replicate (n := b.mZeroAreaEnd - b.mZeroAreaStart) (a := (0 : UInt8))
  rw [Buffer.createFullCopy, if_pos zeros]
  -- The zero area, written out in front of nothing.
  refine (growFront_spec made zero_length ?_).bind fun r₁ ready₁ => ?_
  · simp only [append_nil, zero_length]
    omega
  dsimp only
  rw [writeTimes_eq (zero_length ▸ ready₁.side) (zero_length ▸ ready₁.inside)]
  -- The bytes in front of it.
  refine (growFront_spec ready₁.written front_length ?_).bind fun r₂ ready₂ => ?_
  · simp only [length_append, append_nil, zero_length, front_length]
    omega
  have seen₂ : content (r₂.1.store.cell b.mData) b = contentOf h.store b := ready₂.same b (by simp)
  rw [read_front (ready₂.proper b (by simp)), seen₂]
  simp only [bind, Except.bind]
  rw [write_eq ready₂.side ready₂.inside]
  -- The bytes behind it.
  refine (growBack_spec ready₂.written back_length ?_).bind fun r₃ ready₃ => ?_
  · simp only [length_append, append_nil, zero_length, front_length, back_length]
    omega
  have seen₃ : content (r₃.1.store.cell b.mData) b = contentOf h.store b := ready₃.same b (by simp)
  rw [read_back (ready₃.proper b (by simp)), seen₃]
  dsimp only
  rw [write_eq ready₃.side ready₃.inside]
  have done := ready₃.written
  rwa [append_nil, append_assoc, contentOf, content_split proper] at done

theorem makeReal_of_real (real : b.mZeroAreaEnd - b.mZeroAreaStart = 0) :
    ∃ recommended, Buffer.makeReal h b =
      .ok (⟨h.store, recommended⟩, { b with mMaxZeroAreaStart := b.mZeroAreaStart }) := by
  refine ⟨max (max h.recommendedStart b.mMaxZeroAreaStart) b.mZeroAreaStart, ?_⟩
  rw [Buffer.makeReal, createFullCopy_of_real real]
  simp [Buffer.copy, Buffer.assign, Buffer.destroy, bind, Except.bind, pure, Except.pure]

theorem makeReal_spec (shared : Shared h.store (b :: others))
    (zeros : b.mZeroAreaEnd - b.mZeroAreaStart ≠ 0)
    (fits : h.recommendedStart + b.getSize < 4294967296) :
    Ensures (Buffer.makeReal h b)
      (fun r => Result h.store others (contentOf h.store b) r.1.store r.2 ∧
        r.2.mZeroAreaEnd - r.2.mZeroAreaStart = 0 ∧ r.2.mEnd ≤ h.recommendedStart + b.getSize)
      fun _ => False := by
  refine (createFullCopy_spec shared zeros fits).bind fun r copied => ?_
  obtain ⟨⟨result, -⟩, real, small⟩ := copied
  have size : (contentOf h.store b).length = b.getSize :=
    length_content (shared.proper b (by simp))
  -- The count of the new Data goes up and down again.
  have store : (Buffer.destroy (Buffer.assign r.1 b r.2).1 r.2).store =
      r.1.store.release b.mData := by
    rw [Buffer.destroy, assign_store, Store.acquire_release]
  change Result h.store others (contentOf h.store b)
    (Buffer.destroy (Buffer.assign r.1 b r.2).1 r.2).store r.2 ∧ _ ∧ _
  rw [store]
  refine ⟨⟨(result.shared.perm (List.Perm.swap _ _ _)).release, ?_, ?_⟩, real, size ▸ small⟩
  · exact result.content
  · exact result.same.tail

end Copies

/-! ## Ranges -/

theorem writeRange_empty (s : Store Data) (it : Iterator) {start stop : Iterator}
    (empty : stop.current ≤ start.current) :
    Ensures (it.writeRange s start stop) (fun r => r.1 = s) fun _ => False := by
  have none : stop.current - start.current = 0 := Nat.sub_eq_zero_of_le empty
  by_cases before : start.current ≤ start.zeroStart <;>
    by_cases within : start.current ≤ start.zeroEnd <;>
    simp [Iterator.writeRange, none, before, within, readBlock, bind, Except.bind, pure,
      Except.pure, Iterator.next]

theorem Proper.eq_parts (proper : Proper d b) :
    ∃ id m a f z k, b = ⟨id, m, a + f, a + (f + z), a, a + (f + (z + k))⟩ := by
  obtain ⟨f, hf⟩ := Nat.exists_eq_add_of_le proper.start_le
  obtain ⟨z, hz⟩ := Nat.exists_eq_add_of_le proper.zero_le
  obtain ⟨k, hk⟩ := Nat.exists_eq_add_of_le proper.end_le
  refine ⟨b.mData, b.mMaxZeroAreaStart, b.mStart, f, z, k, ?_⟩
  rw [← hf, show b.mStart + (f + z) = b.mZeroAreaEnd by
    omega, show b.mStart + (f + (z + k)) = b.mEnd by omega]

theorem Proper.lengths (proper : Proper d b) : ∃ f z k, b.mZeroAreaStart = b.mStart + f ∧
    b.mZeroAreaEnd = b.mStart + (f + z) ∧ b.mEnd = b.mStart + (f + (z + k)) := by
  obtain ⟨_, _, _, f, z, k, rfl⟩ := proper.eq_parts
  exact ⟨f, z, k, rfl, rfl, rfl⟩

theorem internalEnd_eq {f z k : ℕ} (hf : b.mZeroAreaStart = b.mStart + f)
    (hz : b.mZeroAreaEnd = b.mStart + (f + z)) (hk : b.mEnd = b.mStart + (f + (z + k))) :
    b.getInternalEnd = b.mStart + (f + k) := by
  rw [Buffer.getInternalEnd, hf, hz, hk, Nat.add_sub_add_left, Nat.add_sub_cancel_left]
  omega

theorem writeBlock_more {id i : ℕ} {xs ys : List UInt8}
    (inside : i + (xs.length + ys.length) ≤ (s.cell id).size) :
    writeBlock (s.put id ((s.cell id).write i xs)) id (i + xs.length) ys =
      .ok (s.put id ((s.cell id).write i (xs ++ ys))) := by
  have fits : i + xs.length + ys.length ≤
      ((s.put id ((s.cell id).write i xs)).cell id).size := by
    rw [Store.cell_put_self, Nat.add_assoc]
    exact inside
  rw [writeBlock_eq (.inr fits), Store.cell_put_self, Store.put_put, Data.write_append]

theorem readBlock_written {id j i a n : ℕ} {xs : List UInt8}
    (apart : j = id → n = 0 ∨ a + n ≤ i ∨ i + xs.length ≤ a) :
    readBlock ((s.put id ((s.cell id).write i xs)).cell j) a n = readBlock (s.cell j) a n := by
  by_cases same : j = id
  · subst same
    rw [Store.cell_put_self]
    rcases apart rfl with rfl | apart
    · simp [readBlock]
    · simp only [readBlock, Data.write, slice_patch_apart _ apart]
  · rw [Store.cell_put_of_ne _ same]

theorem writeRange_whole {o : Buffer} (proper : Proper (s.cell o.mData) o)
    (inside : it.current + o.getSize ≤ (s.cell it.data).size)
    (apart : o.mData = it.data → o.getSize = 0 ∨ o.getInternalEnd ≤ it.current ∨
      it.current + o.getSize ≤ o.mStart) :
    Ensures (it.writeRange s o.beginIterator o.endIterator)
      (fun r => r.1 =
        s.put it.data ((s.cell it.data).write it.current (contentOf s o))) fun _ => False := by
  obtain ⟨f, z, k, hf, hz, hk⟩ := proper.lengths
  have hsize : o.getSize = f + z + k := by
    rw [Buffer.getSize, hk, Nat.add_sub_cancel_left, Nat.add_assoc]
  have hend := internalEnd_eq hf hz hk
  have reach := proper.inside
  rw [hsize] at inside apart
  rw [hend] at reach apart
  have front_inside : o.mStart + f ≤ (s.cell o.mData).size := by omega
  have back_inside : o.mStart + f + k ≤ (s.cell o.mData).size := by omega
  have front_fits : it.current + f ≤ (s.cell it.data).size := by omega
  have zeros_fit : it.current + (f + z) ≤ (s.cell it.data).size := by omega
  have back_fits : it.current + (f + z + k) ≤ (s.cell it.data).size := inside
  have apart_back : o.mData = it.data → k = 0 ∨ o.mStart + f + k ≤ it.current ∨
      it.current + (f + z) ≤ o.mStart + f := by
    intro same
    have := apart same
    omega
  obtain ⟨front, front_eq⟩ : ∃ l, l = slice (s.cell o.mData).bytes o.mStart f := ⟨_, rfl⟩
  obtain ⟨zeros, zeros_eq⟩ : ∃ l, l = replicate z (0 : UInt8) := ⟨_, rfl⟩
  obtain ⟨back, back_eq⟩ : ∃ l, l = slice (s.cell o.mData).bytes (o.mStart + f) k := ⟨_, rfl⟩
  have front_length : front.length = f := by simp [front_eq]
  have zeros_length : zeros.length = z := by simp [zeros_eq]
  have back_length : back.length = k := by simp [back_eq]
  have read_front : readBlock (s.cell o.mData) o.mStart f = .ok front := by
    rw [front_eq, readBlock_eq (.inr front_inside)]
  have write_front : writeBlock s it.data it.current front = _ :=
    writeBlock_eq (.inr (front_length ▸ front_fits))
  have write_zeros :=
    @writeBlock_more s it.data it.current front zeros (by rwa [front_length, zeros_length])
  have source : readBlock (s.cell o.mData) (o.mStart + f) k = .ok back := by
    rw [back_eq, readBlock_eq (.inr back_inside)]
  have read_back :=
    (@readBlock_written s it.data o.mData it.current (o.mStart + f) k (front ++ zeros)
    (by rwa [length_append, front_length, zeros_length])).trans source
  have write_back := @writeBlock_more s it.data it.current (front ++ zeros) back (by
    rwa [length_append, front_length, zeros_length, back_length])
  rw [length_append, ← Nat.add_assoc, front_length, zeros_length] at write_back
  rw [front_length] at write_zeros
  have first : min (f + (z + k)) f = f := Nat.min_eq_right (Nat.le_add_right _ _)
  have second : min (z + k) z = z := Nat.min_eq_right (Nat.le_add_right _ _)
  have third : min k (o.mStart + (f + (z + k)) - (o.mStart + f + z)) = k := by
    rw [show o.mStart + (f + (z + k)) = o.mStart + f + z + k by
      omega, Nat.add_sub_cancel_left, Nat.min_self]
  have start_le : o.mStart ≤ o.mStart + f := Nat.le_add_right _ _
  have zero_le : o.mStart + f ≤ o.mStart + (f + z) := by omega
  rw [contentOf, content_eq proper]
  simp only [Iterator.writeRange, Buffer.beginIterator, Buffer.endIterator, Iterator.next,
    hf, hz, hk, Nat.add_sub_add_left, Nat.add_sub_cancel_left,
    if_pos start_le, first, ← front_eq, read_front, write_front, bind, Except.bind, pure,
      Except.pure,
    if_pos zero_le, second, ← zeros_eq, write_zeros, Nat.add_sub_cancel, third, read_back,
      ← back_eq, write_back]
  rfl

/-! ## Appending a buffer -/

section Append

variable [Allocator] {h : Heap} {b o : Buffer} {others : List Buffer}

/-- `AddAtEnd (o)` computes no offset that does not fit 32 bits and, where it joins the two zero
areas, nothing lies behind the one of `o`. -/
def FitsAppend (h : Heap) (b o : Buffer) : Prop :=
  if Buffer.joinsZeroAreas h b o then
    o.mZeroAreaEnd = o.mEnd ∧ b.mEnd + (o.mZeroAreaEnd - o.mZeroAreaStart) < 4294967296
  else if b.mZeroAreaEnd - b.mZeroAreaStart = 0 then
    FitsAtEnd h b o.getSize
  else h.recommendedStart + b.getSize + o.getSize < 4294967296
deriving Decidable

theorem appendReal_spec (shared : Shared h.store (b :: o :: others))
    (real : b.mZeroAreaEnd - b.mZeroAreaStart = 0) (fits : FitsAtEnd h b o.getSize) :
    Ensures (do
        let (h, b) ← Buffer.addAtEnd h b o.getSize
        let (store, _) ← (b.endIterator.prev o.getSize).writeRange h.store o.beginIterator
          o.endIterator
        pure ({ h with store := store }, b))
      (fun r => Result h.store (o :: others) (contentOf h.store b ++ contentOf h.store o)
        r.1.store r.2) fun _ => False := by
  have length : (contentOf h.store o).length = o.getSize :=
    length_content (shared.proper o (by simp))
  refine (addAtEnd_spec shared fits).bind fun r g => ?_
  obtain ⟨side, place, inside⟩ := g.atEnd
  have proper := g.shared.proper r.2 (by simp)
  have still : contentOf r.1.store o = contentOf h.store o := g.same o (by simp)
  have zero_le := proper.zero_le
  have direct : (r.2.endIterator.prev o.getSize).current = r.2.getInternalEnd - o.getSize := by
    have zeros := g.zeros
    unfold Buffer.endIterator Iterator.prev Buffer.getInternalEnd
    dsimp only
    omega
  have free := g.backFree
  rw [← direct] at place
  rw [← length] at g
  have filled := g.fillBack (contentOf h.store o)
  rw [length] at filled
  refine (writeRange_whole (g.shared.proper o (by simp)) (place ▸ inside)
    fun same => ?_).bind fun r' written => ?_
  · rw [direct]
    exact free o (by simp) same
  · rw [still, direct] at written
    change Result h.store (o :: others) _ r'.1 r.2
    rw [written]
    exact filled

omit [Allocator] in
theorem longer_spec (shared : Shared h.store (b :: o :: others))
    (joins : Buffer.joinsZeroAreas h b o) (whole : o.mZeroAreaEnd = o.mEnd)
    (room : b.mEnd + (o.mZeroAreaEnd - o.mZeroAreaStart) < 4294967296) :
    let zeroAreaEnd := b.mZeroAreaEnd + (o.mZeroAreaEnd - o.mZeroAreaStart)
    let b' := { b with mZeroAreaEnd := zeroAreaEnd, mEnd := zeroAreaEnd }
    let store := setDirty h.store b.mData (h.store.cell b.mData).dirtyStart zeroAreaEnd
    Result h.store (o :: others) (contentOf h.store b ++ contentOf h.store o) store b' ∧
      FitsAtEnd { h with store := store } b' 0 := by
  obtain ⟨one, at_zeros, at_dirty, starts, -⟩ := joins
  have proper := shared.proper b (by simp)
  have self := shared.together b (by simp) b (by simp) rfl
  have alone := Kept.unique shared one
  have inside := proper.inside
  have zero_le := proper.zero_le
  have other_proper := shared.proper o (by simp)
  unfold Together Buffer.getInternalEnd at self
  unfold Buffer.getInternalEnd at inside
  rw [at_zeros] at room
  intro zeroAreaEnd b' store
  have longer := shared.inPlace b' rfl (h.store.cell b.mData).dirtyStart zeroAreaEnd
    ⟨proper.start_le, zero_le.trans (Nat.le_add_right _ _), le_rfl, room, proper.clean, by
      simp only [Buffer.getInternalEnd, b', zeroAreaEnd]
      omega⟩
    (by simp only [Buffer.getInternalEnd, b', zeroAreaEnd]
        omega)
    fun p hp same => absurd same (alone p hp)
  have proper' : Proper (store.cell b'.mData) b' := longer.1.proper b' (by simp)
  have bytes : (store.cell b'.mData).bytes = (h.store.cell b.mData).bytes := by
    simp [store, b', setDirty]
  refine ⟨⟨longer.1, ?_, longer.2⟩, ?_⟩
  · have zeros : zeroAreaEnd - b.mZeroAreaStart =
        b.mZeroAreaEnd - b.mZeroAreaStart + (o.mZeroAreaEnd - o.mZeroAreaStart) := by
      simp only [zeroAreaEnd]
      omega
    rw [contentOf, content_eq proper', bytes, contentOf, content_eq proper, contentOf,
      content_eq other_proper]
    simp [b', zeros, at_zeros, starts, whole]
  · unfold FitsAtEnd Buffer.isDirtyAtEnd
    rw [if_pos]
    · simpa [b', zeroAreaEnd] using room
    · refine ⟨proper'.inside, fun dirty => ?_⟩
      have count : store.count b'.mData = 1 := one
      exact absurd dirty.1 (by simp [count])

theorem append_spec (shared : Shared h.store (b :: o :: others)) (fits : FitsAppend h b o) :
    Ensures (Buffer.append h b o)
      (fun r => Result h.store (o :: others) (contentOf h.store b ++ contentOf h.store o)
        r.1.store r.2) fun _ => False := by
  unfold FitsAppend at fits
  unfold Buffer.append
  refine Ensures.ite (fun joins => ?_) fun apart => ?_
  · -- The zero area at the end is made longer, and nothing is written.
    rw [if_pos joins] at fits
    obtain ⟨whole, room⟩ := fits
    have nothing : o.mEnd - o.mZeroAreaEnd = 0 := by omega
    obtain ⟨result, grows⟩ := longer_spec shared joins whole room
    rw [joins.2.1] at room
    simp only [u32_of_lt room, nothing]
    refine (addAtEnd_spec result.shared grows).bind fun r g => ?_
    refine (writeRange_empty r.1.store _ le_rfl).bind fun r' unchanged => ?_
    change Result h.store (o :: others) _ r'.1 r.2
    have filled := Grown.fillBack [] g
    simp only [length_nil, Data.write_nil, Store.put_cell, append_nil] at filled
    rw [unchanged]
    exact ⟨filled.shared, filled.content.trans result.content, result.same.trans filled.same⟩
  · rw [if_neg apart] at fits
    by_cases real : b.mZeroAreaEnd - b.mZeroAreaStart = 0
    · rw [if_pos real] at fits
      obtain ⟨recommended, copied⟩ := makeReal_of_real (h := h) real
      rw [copied]
      have shared' : Shared h.store
          ({ b with mMaxZeroAreaStart := b.mZeroAreaStart } :: o :: others) := by
        have proper := shared.proper b (by simp)
        exact shared.replace rfl ⟨proper.start_le, proper.zero_le, proper.end_le, proper.fits,
          proper.clean, proper.inside⟩ (fun _ together => together) fun _ together => together
      exact appendReal_spec (h := ⟨h.store, recommended⟩) shared' real fits
    · rw [if_neg real] at fits
      have size : (contentOf h.store b).length = b.getSize :=
        length_content (shared.proper b (by simp))
      refine (makeReal_spec shared real (by omega)).bind fun r made => ?_
      obtain ⟨result, real, small⟩ := made
      have made_size := size_of_result result
      refine (appendReal_spec result.shared real (fitsAtEnd_of_le (by omega))).weaken
        fun r' done => ?_
      have still : contentOf r.1.store o = contentOf h.store o := result.same o (by simp)
      refine ⟨done.shared, ?_, result.same.trans done.same⟩
      rw [done.content, result.content, still]

end Append

/-! ## Removing bytes -/

section Removing

variable {s : Store Data} {b b' : Buffer} {others : List Buffer}

structure Shrunk (b b' : Buffer) : Prop where
  same : b'.mData = b.mData
  start : b.mStart ≤ b'.mStart
  start_le : b'.mStart ≤ b'.mZeroAreaStart
  zero_le : b'.mZeroAreaStart ≤ b'.mZeroAreaEnd
  end_le : b'.mZeroAreaEnd ≤ b'.mEnd
  fits : b'.mEnd ≤ b.mEnd
  zeros : b'.mZeroAreaEnd - b'.mZeroAreaStart ≤ b.mZeroAreaEnd - b.mZeroAreaStart
  inside : b'.getInternalEnd ≤ b.getInternalEnd

theorem Shrunk.shared (shrunk : Shrunk b b') (h : Shared s (b :: others)) :
    Shared s (b' :: others) := by
  have proper := h.proper b (by simp)
  refine h.replace shrunk.same ⟨shrunk.start_le, shrunk.zero_le, shrunk.end_le,
    shrunk.fits.trans_lt proper.fits, proper.clean.trans shrunk.start,
    shrunk.inside.trans proper.inside⟩ (fun o left => ?_) fun o right => ?_
  · exact (Nat.add_le_add_right shrunk.zeros _).trans left
  · exact (Nat.add_le_add_left shrunk.inside _).trans right

structure Parts (b : Buffer) (a f z c k : ℕ) : Prop where
  front : b.mZeroAreaStart - b.mStart = f
  at_front : f = 0 ∨ b.mStart = a
  zeros : b.mZeroAreaEnd - b.mZeroAreaStart = z
  back : b.mEnd - b.mZeroAreaEnd = k
  at_back : k = 0 ∨ b.mZeroAreaStart = c

theorem Parts.content {a f z c k : ℕ} (parts : Parts b a f z c k) (proper : Proper d b) :
    content d b = slice d.bytes a f ++ replicate z 0 ++ slice d.bytes c k := by
  rw [content_eq proper, parts.front, parts.zeros, parts.back]
  rcases parts.at_front with rfl | rfl <;> rcases parts.at_back with rfl | rfl <;>
    simp only [slice_zero]

theorem Proper.both (proper : Proper d b) :
    b.mZeroAreaStart - b.mStart + (b.mZeroAreaEnd - b.mZeroAreaStart) = b.mZeroAreaEnd - b.mStart :=
  (Nat.add_comm _ _).trans (Nat.sub_add_sub_cancel proper.zero_le proper.start_le)

theorem drop_content (proper : Proper d b) (n : ℕ) : (content d b).drop n =
      slice d.bytes (b.mStart + n) (b.mZeroAreaStart - b.mStart - n) ++
        replicate
          (b.mZeroAreaEnd - b.mZeroAreaStart - (n - (b.mZeroAreaStart - b.mStart))) 0 ++
        slice d.bytes (b.mZeroAreaStart + (n - (b.mZeroAreaEnd - b.mStart)))
          (b.mEnd - b.mZeroAreaEnd - (n - (b.mZeroAreaEnd - b.mStart))) := by
  rw [content_eq proper, drop_append, drop_append, length_append, length_slice,
    length_replicate, drop_replicate, proper.both, drop_slice, drop_slice]

theorem take_content (proper : Proper d b) (n : ℕ) : (content d b).take n =
      slice d.bytes b.mStart (min n (b.mZeroAreaStart - b.mStart)) ++
        replicate (min (n - (b.mZeroAreaStart - b.mStart))
          (b.mZeroAreaEnd - b.mZeroAreaStart)) 0 ++
        slice d.bytes b.mZeroAreaStart
          (min (n - (b.mZeroAreaEnd - b.mStart)) (b.mEnd - b.mZeroAreaEnd)) := by
  rw [content_eq proper, take_append, take_append, length_append, length_slice,
    length_replicate, take_replicate, proper.both, take_slice, take_slice]

theorem removeAtStart_parts (proper : Proper d b) {n : ℕ} (fits : b.mStart + n < 4294967296) :
    Shrunk b (b.removeAtStart n) ∧
      Parts (b.removeAtStart n) (b.mStart + n) (b.mZeroAreaStart - b.mStart - n)
        (b.mZeroAreaEnd - b.mZeroAreaStart - (n - (b.mZeroAreaStart - b.mStart)))
        (b.mZeroAreaStart + (n - (b.mZeroAreaEnd - b.mStart)))
        (b.mEnd - b.mZeroAreaEnd - (n - (b.mZeroAreaEnd - b.mStart))) := by
  obtain ⟨id, m, a, f, z, k, rfl⟩ := proper.eq_parts
  simp only [Buffer.removeAtStart, u32_of_lt fits, Nat.add_sub_add_left, Nat.add_sub_cancel_left]
  split_ifs with inFront inZeros inBack
  all_goals
    constructor <;> constructor <;>
      simp only [Buffer.noteZeroArea, Buffer.getInternalEnd, or_true] <;> omega

theorem removeAtEnd_parts (proper : Proper d b) (n : ℕ) :
    Shrunk b (b.removeAtEnd n) ∧
      Parts (b.removeAtEnd n) b.mStart (min (b.getSize - n) (b.mZeroAreaStart - b.mStart))
        (min (b.getSize - n - (b.mZeroAreaStart - b.mStart)) (b.mZeroAreaEnd - b.mZeroAreaStart))
        b.mZeroAreaStart
        (min (b.getSize - n - (b.mZeroAreaEnd - b.mStart)) (b.mEnd - b.mZeroAreaEnd)) := by
  obtain ⟨id, m, a, f, z, k, rfl⟩ := proper.eq_parts
  simp only [Buffer.removeAtEnd, Buffer.getSize, Nat.add_sub_add_left, Nat.add_sub_cancel_left]
  split_ifs with inBack inZeros inFront
  all_goals
    constructor <;> constructor <;>
      simp only [Buffer.noteZeroArea, Buffer.getInternalEnd, or_true] <;> omega

theorem removeAtStart_spec (h : Shared s (b :: others)) {n : ℕ}
    (fits : b.mStart + n < 4294967296) :
    Shared s (b.removeAtStart n :: others) ∧
      contentOf s (b.removeAtStart n) = (contentOf s b).drop n := by
  have proper := h.proper b (by simp)
  obtain ⟨shrunk, parts⟩ := removeAtStart_parts proper fits
  have shared := shrunk.shared h
  have proper' := shared.proper _ mem_cons_self
  rw [shrunk.same] at proper'
  refine ⟨shared, ?_⟩
  rw [contentOf, contentOf, shrunk.same, drop_content proper, parts.content proper']

theorem removeAtEnd_spec (h : Shared s (b :: others)) (n : ℕ) :
    Shared s (b.removeAtEnd n :: others) ∧
      contentOf s (b.removeAtEnd n) = (contentOf s b).take ((contentOf s b).length - n) := by
  have proper := h.proper b (by simp)
  have length : (contentOf s b).length = b.getSize := length_content proper
  obtain ⟨shrunk, parts⟩ := removeAtEnd_parts proper n
  have shared := shrunk.shared h
  have proper' := shared.proper _ mem_cons_self
  rw [shrunk.same] at proper'
  refine ⟨shared, ?_⟩
  rw [length, contentOf, contentOf, shrunk.same, take_content proper, parts.content proper']

theorem createFragment_spec {h : Heap} (shared : Shared h.store (b :: others)) {start length : ℕ}
    (unshared : Room h b) (inside : start + length ≤ b.getSize) :
    Shared (b.createFragment h start length).1.store
        ((b.createFragment h start length).2 :: b :: others) ∧
      contentOf (b.createFragment h start length).1.store (b.createFragment h start length).2 =
        ((contentOf h.store b).drop start).take length := by
  have proper := shared.proper b (by simp)
  have fits := proper.fits
  have size : (contentOf h.store b).length = b.getSize := length_content proper
  have first := copy_shared shared unshared
  have room : b.mStart + start < 4294967296 := by
    have := proper.start_le
    have := proper.zero_le
    have := proper.end_le
    unfold Buffer.getSize at inside
    omega
  have last : u32 (b.getSize + 4294967296 - u32 (start + length)) =
      b.getSize - (start + length) := by
    unfold Buffer.getSize at inside ⊢
    unfold u32
    omega
  obtain ⟨second, front⟩ := removeAtStart_spec first (n := start) room
  obtain ⟨third, back⟩ := removeAtEnd_spec second (b.getSize - (start + length))
  have copied : contentOf (b.copy h).1.store (b.copy h).2 = contentOf h.store b := rfl
  rw [Buffer.createFragment, last]
  refine ⟨third, ?_⟩
  rw [back, front, copied, length_drop, size]
  congr 1
  omega

end Removing

end Egsr.Network.Buffers
