import Egsr.Lib.Blocks
import Egsr.Lib.CopyOnWrite
import Egsr.Lib.Outcome

/-! Packet buffers. Buffers share the bytes they hold and are told apart by
virtual offsets, which count the bytes of a zero area for which no memory is
allocated. A reference count and the dirty bounds of the shared bytes decide
whether a buffer grows in place or moves. Offsets are 32-bit. -/

namespace Egsr.Network.Buffers

open Lib.Blocks Lib.CopyOnWrite List

/-- The shared bytes; only the first `size` exist. The dirty bounds are in the virtual offsets of
the buffer that moved last. -/
structure Data where
  size : ℕ
  bytes : ℕ → UInt8
  dirtyStart : ℕ
  dirtyEnd : ℕ

structure Buffer where
  mData : ℕ
  mMaxZeroAreaStart : ℕ
  mZeroAreaStart : ℕ
  mZeroAreaEnd : ℕ
  mStart : ℕ
  mEnd : ℕ
  deriving DecidableEq

/-- The bytes of all buffers, with the start that is recommended for new ones. -/
structure Heap where
  store : Store Data
  recommendedStart : ℕ

/-- A byte that does not exist is read or written. -/
inductive Fault where
  | outside
  deriving DecidableEq

/-- What an allocation gives: by its number and the size asked for, a size that is enough and the
bytes it happens to hold. Bytes that are recycled are as good as new ones. -/
class Allocator where
  size : ℕ → ℕ → ℕ
  bytes : ℕ → ℕ → ℕ → UInt8
  enough : ∀ number asked, asked ≤ size number asked

def u32 (n : ℕ) : ℕ := n % 4294967296

def readBlock (d : Data) (i n : ℕ) : Except Fault (List UInt8) :=
  if n = 0 ∨ i + n ≤ d.size then pure (slice d.bytes i n) else throw .outside

def writeBlock (s : Store Data) (id i : ℕ) (bytes : List UInt8) : Except Fault (Store Data) :=
  let d := s.cell id
  if bytes.length = 0 ∨ i + bytes.length ≤ d.size then
    pure (s.put id { d with bytes := patch d.bytes i bytes })
  else throw .outside

def setDirty (s : Store Data) (id dirtyStart dirtyEnd : ℕ) : Store Data :=
  s.put id { s.cell id with dirtyStart := dirtyStart, dirtyEnd := dirtyEnd }

section Allocation

variable [Allocator]

/-- Bytes for a new owner. Whoever asks sets the dirty bounds before anyone reads them. -/
def create (s : Store Data) (dataSize : ℕ) : Store Data :=
  s.create
    { size := Allocator.size s.next dataSize
      bytes := Allocator.bytes s.next dataSize
      dirtyStart := 0
      dirtyEnd := 0 }

end Allocation

/-! ## Iterators -/

structure Iterator where
  zeroStart : ℕ
  zeroEnd : ℕ
  dataStart : ℕ
  dataEnd : ℕ
  current : ℕ
  data : ℕ

def Buffer.beginIterator (b : Buffer) : Iterator :=
  ⟨b.mZeroAreaStart, b.mZeroAreaEnd, b.mStart, b.mEnd, b.mStart, b.mData⟩

def Buffer.endIterator (b : Buffer) : Iterator :=
  ⟨b.mZeroAreaStart, b.mZeroAreaEnd, b.mStart, b.mEnd, b.mEnd, b.mData⟩

namespace Iterator

variable (it : Iterator)

def prev (delta : ℕ) : Iterator := { it with current := it.current - delta }

def next (delta : ℕ) : Iterator := { it with current := it.current + delta }

variable (s : Store Data)

def writeU8 (data : UInt8) : Except Fault (Store Data × Iterator) := do
  let i := if it.current < it.zeroStart then it.current
    else it.current - (it.zeroEnd - it.zeroStart)
  let s ← writeBlock s it.data i [data]
  pure (s, it.next 1)

def writeAll (s : Store Data) (it : Iterator) : List UInt8 → Except Fault (Store Data × Iterator)
  | [] => pure (s, it)
  | data :: rest => do
    let (s, it) ← it.writeU8 s data
    it.writeAll s rest

/-- `WriteU8 (data, len)`. -/
def writeTimes (data : UInt8) (len : ℕ) : Except Fault (Store Data × Iterator) := do
  let i := if it.current ≤ it.zeroStart then it.current
    else it.current - (it.zeroEnd - it.zeroStart)
  let s ← writeBlock s it.data i (replicate len data)
  pure (s, it.next len)

def write (buffer : List UInt8) : Except Fault (Store Data × Iterator) := do
  let i := if it.current ≤ it.zeroStart then it.current
    else it.current - (it.zeroEnd - it.zeroStart)
  let s ← writeBlock s it.data i buffer
  pure (s, it.next buffer.length)

/-- `Write (start, end)`. The destination is not corrected for a zero area of its own. -/
def writeRange (it start stop : Iterator) : Except Fault (Store Data × Iterator) := do
  let size := stop.current - start.current
  let (s, it, start, size) ←
    if start.current ≤ start.zeroStart then do
      let toCopy := min size (start.zeroStart - start.current)
      let from' ← readBlock (s.cell start.data) start.current toCopy
      let s ← writeBlock s it.data it.current from'
      pure (s, it.next toCopy, start.next toCopy, size - toCopy)
    else pure (s, it, start, size)
  let (s, it, start, size) ←
    if start.current ≤ start.zeroEnd then do
      let toCopy := min size (start.zeroEnd - start.current)
      let s ← writeBlock s it.data it.current (replicate toCopy 0)
      pure (s, it.next toCopy, start.next toCopy, size - toCopy)
    else pure (s, it, start, size)
  let toCopy := min size (start.dataEnd - start.current)
  let from' ← readBlock (s.cell start.data)
    (start.current - (start.zeroEnd - start.zeroStart)) toCopy
  let s ← writeBlock s it.data it.current from'
  pure (s, it.next toCopy)

def peekU8 : Except Fault UInt8 := do
  let d := s.cell it.data
  if it.current < it.zeroStart then
    if it.current < d.size then pure (d.bytes it.current) else throw .outside
  else if it.current < it.zeroEnd then
    pure 0
  else
    let i := it.current - (it.zeroEnd - it.zeroStart)
    if i < d.size then pure (d.bytes i) else throw .outside

def readAll (s : Store Data) (it : Iterator) : ℕ → Except Fault (List UInt8)
  | 0 => pure []
  | n + 1 => do
    let data ← it.peekU8 s
    let rest ← (it.next 1).readAll s n
    pure (data :: rest)

end Iterator

/-! ## Buffers -/

namespace Buffer

variable (b : Buffer)

def getSize : ℕ := b.mEnd - b.mStart

def getInternalSize : ℕ :=
  b.mZeroAreaStart - b.mStart + (b.mEnd - b.mZeroAreaEnd)

def getInternalEnd : ℕ := b.mEnd - (b.mZeroAreaEnd - b.mZeroAreaStart)

/-- `m_maxZeroAreaStart` brought up to date, as at the end of the operations. -/
def noteZeroArea : Buffer :=
  { b with mMaxZeroAreaStart := max b.mMaxZeroAreaStart b.mZeroAreaStart }

variable (h : Heap)

def bytes : Except Fault (List UInt8) :=
  b.beginIterator.readAll h.store b.getSize

def copyData (size : ℕ) : Except Fault (List UInt8) := do
  let d := h.store.cell b.mData
  if size = 0 then pure []
  else
    let before := min (b.mZeroAreaStart - b.mStart) size
    let start ← readBlock d b.mStart before
    let size := size - before
    if size = 0 then pure start
    else
      let zeros := min (b.mZeroAreaEnd - b.mZeroAreaStart) size
      let size := size - zeros
      if size = 0 then pure (start ++ replicate zeros 0)
      else
        let behind := min (b.mEnd - b.mZeroAreaEnd) size
        let stop ← readBlock d b.mZeroAreaStart behind
        pure (start ++ replicate zeros 0 ++ stop)

def copy (o : Buffer) : Heap × Buffer :=
  ({ h with store := h.store.acquire o.mData }, { o with mMaxZeroAreaStart := o.mZeroAreaStart })

def assign (b o : Buffer) : Heap × Buffer :=
  let store :=
    if b.mData ≠ o.mData then (h.store.release b.mData).acquire o.mData else h.store
  (⟨store, max h.recommendedStart b.mMaxZeroAreaStart⟩, o)

def destroy (b : Buffer) : Heap :=
  ⟨h.store.release b.mData, max h.recommendedStart b.mMaxZeroAreaStart⟩

def removeAtStart (start : ℕ) : Buffer :=
  let newStart := u32 (b.mStart + start)
  noteZeroArea <|
    if newStart ≤ b.mZeroAreaStart then
      { b with mStart := newStart }
    else if newStart ≤ b.mZeroAreaEnd then
      let delta := newStart - b.mZeroAreaStart
      { b with
        mStart := b.mZeroAreaStart
        mZeroAreaEnd := b.mZeroAreaEnd - delta
        mEnd := b.mEnd - delta }
    else if newStart ≤ b.mEnd then
      let zeroSize := b.mZeroAreaEnd - b.mZeroAreaStart
      { b with
        mStart := newStart - zeroSize
        mEnd := b.mEnd - zeroSize
        mZeroAreaStart := newStart - zeroSize
        mZeroAreaEnd := newStart - zeroSize }
    else
      let mEnd := b.mEnd - (b.mZeroAreaEnd - b.mZeroAreaStart)
      { b with mEnd := mEnd, mStart := mEnd, mZeroAreaEnd := mEnd, mZeroAreaStart := mEnd }

def removeAtEnd (last : ℕ) : Buffer :=
  let newEnd := b.mEnd - min last (b.mEnd - b.mStart)
  noteZeroArea <|
    if b.mZeroAreaEnd < newEnd then
      { b with mEnd := newEnd }
    else if b.mZeroAreaStart < newEnd then
      { b with mEnd := newEnd, mZeroAreaEnd := newEnd }
    else if b.mStart < newEnd then
      { b with mEnd := newEnd, mZeroAreaEnd := newEnd, mZeroAreaStart := newEnd }
    else
      { b with mEnd := b.mStart, mZeroAreaEnd := b.mStart, mZeroAreaStart := b.mStart }

def createFragment (start length : ℕ) : Heap × Buffer :=
  let (h, tmp) := copy h b
  let tmp := tmp.removeAtStart start
  (h, tmp.removeAtEnd (u32 (b.getSize + 4294967296 - u32 (start + length))))

section Growing

variable [Allocator] (h : Heap)

def construct (zeroSize : ℕ) : Heap × Buffer :=
  let id := h.store.next
  let store := create h.store 0
  let start := min (store.cell id).size h.recommendedStart
  let zeroAreaEnd := u32 (start + zeroSize)
  ({ h with store := setDirty store id start zeroAreaEnd },
    ⟨id, start, start, zeroAreaEnd, start, zeroAreaEnd⟩)

variable (b : Buffer)

def isDirtyAtStart : Prop :=
  1 < h.store.count b.mData ∧ (h.store.cell b.mData).dirtyStart < b.mStart
deriving Decidable

def isDirtyAtEnd : Prop :=
  1 < h.store.count b.mData ∧ b.mEnd < (h.store.cell b.mData).dirtyEnd
deriving Decidable

/-- The bytes are copied to a place of their own, behind `room` new ones; the offsets of the buffer
move by the same distance. -/
def relocate (newSize room : ℕ) : Except Fault (Heap × Buffer) := do
  let id := h.store.next
  let store := create h.store newSize
  let old ← readBlock (store.cell b.mData) b.mStart b.getInternalSize
  let store ← writeBlock store id room old
  let move (offset : ℕ) : ℕ := u32 (offset + room + 4294967296 - b.mStart)
  pure ({ h with store := store.release b.mData },
    { b with
      mData := id
      mStart := move b.mStart
      mZeroAreaStart := move b.mZeroAreaStart
      mZeroAreaEnd := move b.mZeroAreaEnd
      mEnd := move b.mEnd })

def addAtStart (start : ℕ) : Except Fault (Heap × Buffer) := do
  if start ≤ b.mStart ∧ ¬isDirtyAtStart h b then
    let b := { b with mStart := b.mStart - start }
    let dirtyEnd := (h.store.cell b.mData).dirtyEnd
    pure ({ h with store := setDirty h.store b.mData b.mStart dirtyEnd }, b.noteZeroArea)
  else
    let (h, b) ← relocate h b (u32 (b.getInternalSize + start)) start
    let b := { b with mStart := b.mStart - start }
    pure ({ h with store := setDirty h.store b.mData b.mStart b.mEnd }, b.noteZeroArea)

def addAtEnd (last : ℕ) : Except Fault (Heap × Buffer) := do
  let d := h.store.cell b.mData
  if u32 (b.getInternalEnd + last) ≤ d.size ∧ ¬isDirtyAtEnd h b then
    let b := { b with mEnd := u32 (b.mEnd + last) }
    pure ({ h with store := setDirty h.store b.mData d.dirtyStart b.mEnd }, b.noteZeroArea)
  else
    let (h, b) ← relocate h b (u32 (b.getInternalSize + last)) 0
    let b := { b with mEnd := u32 (b.mEnd + last) }
    pure ({ h with store := setDirty h.store b.mData b.mStart b.mEnd }, b.noteZeroArea)

def createFullCopy : Except Fault (Heap × Buffer) := do
  if b.mZeroAreaEnd - b.mZeroAreaStart ≠ 0 then
    let zeroSize := b.mZeroAreaEnd - b.mZeroAreaStart
    let dataStart := b.mZeroAreaStart - b.mStart
    let dataEnd := b.mEnd - b.mZeroAreaEnd
    let (h, tmp) := construct h 0
    let (h, tmp) ← addAtStart h tmp zeroSize
    let (store, _) ← tmp.beginIterator.writeTimes h.store 0 zeroSize
    let (h, tmp) ← addAtStart { h with store := store } tmp dataStart
    let front ← readBlock (h.store.cell b.mData) b.mStart dataStart
    let (store, _) ← tmp.beginIterator.write h.store front
    let (h, tmp) ← addAtEnd { h with store := store } tmp dataEnd
    let back ← readBlock (h.store.cell b.mData) b.mZeroAreaStart dataEnd
    let (store, _) ← (tmp.endIterator.prev dataEnd).write h.store back
    pure ({ h with store := store }, tmp)
  else
    pure (copy h b)

def makeReal : Except Fault (Heap × Buffer) := do
  let (h, tmp) ← createFullCopy h b
  let (h, b) := assign h b tmp
  pure (destroy h tmp, b)

/-- `PeekData`: the bytes from the returned pointer on, up to the end of the buffer. -/
def peekData : Except Fault (List UInt8 × Heap × Buffer) := do
  let (h, b) ← makeReal h b
  let data ← readBlock (h.store.cell b.mData) b.mStart b.getSize
  pure (data, h, b)

/-- The other buffer starts with a zero area that can be joined to the one at the end of this. -/
def joinsZeroAreas (b o : Buffer) : Prop :=
  h.store.count b.mData = 1 ∧ b.mEnd = b.mZeroAreaEnd ∧
    b.mEnd = (h.store.cell b.mData).dirtyEnd ∧ o.mStart = o.mZeroAreaStart ∧
    0 < o.mZeroAreaEnd - o.mZeroAreaStart
deriving Decidable

def append (b o : Buffer) : Except Fault (Heap × Buffer) := do
  if joinsZeroAreas h b o then
    let zeroSize := o.mZeroAreaEnd - o.mZeroAreaStart
    let zeroAreaEnd := u32 (b.mZeroAreaEnd + zeroSize)
    let b := { b with mZeroAreaEnd := zeroAreaEnd, mEnd := zeroAreaEnd }
    let dirtyStart := (h.store.cell b.mData).dirtyStart
    let store := setDirty h.store b.mData dirtyStart zeroAreaEnd
    let endData := o.mEnd - o.mZeroAreaEnd
    let (h, b) ← addAtEnd { h with store := store } b endData
    let (store, _) ← (b.endIterator.prev endData).writeRange h.store (o.endIterator.prev endData)
      o.endIterator
    pure ({ h with store := store }, b)
  else
    let (h, b) ← makeReal h b
    let (h, b) ← addAtEnd h b o.getSize
    let (store, _) ← (b.endIterator.prev o.getSize).writeRange h.store o.beginIterator o.endIterator
    pure ({ h with store := store }, b)

/-- `AddAtStart (n)`, and the new bytes written through an iterator. -/
def addAtStartWith (data : List UInt8) : Except Fault (Heap × Buffer) := do
  let (h, b) ← addAtStart h b data.length
  let (store, _) ← b.beginIterator.writeAll h.store data
  pure ({ h with store := store }, b)

def addAtEndWith (data : List UInt8) : Except Fault (Heap × Buffer) := do
  let (h, b) ← addAtEnd h b data.length
  let (store, _) ← (b.endIterator.prev data.length).writeAll h.store data
  pure ({ h with store := store }, b)

end Growing

end Buffer

/-! ## Families of buffers -/

/-- Buffers under handles; a handle of a buffer that was destroyed is not used again. -/
structure World where
  heap : Heap
  buffers : List (Option Buffer)

def World.start : World := ⟨⟨⟨fun _ => ⟨0, fun _ => 0, 0, 0⟩, fun _ => 0, 0⟩, 0⟩, []⟩

inductive Op where
  | construct (zeroSize : UInt32)
  | copy (i : ℕ)
  | assign (i j : ℕ)
  | createFragment (i : ℕ) (start length : UInt32)
  | destroy (i : ℕ)
  | addAtStart (i : ℕ) (data : List UInt8)
  | addAtEnd (i : ℕ) (data : List UInt8)
  | append (i j : ℕ)
  | removeAtStart (i : ℕ) (start : UInt32)
  | removeAtEnd (i : ℕ) (last : UInt32)
  | peekData (i : ℕ)

namespace World

def buffer (w : World) (i : ℕ) : Option Buffer := w.buffers.getD i none

def update (w : World) (i : ℕ) (f : Heap → Buffer → Except Fault (Heap × Buffer)) :
    Except Fault World :=
  match w.buffer i with
  | none => pure w
  | some b => do
    let (h, b) ← f w.heap b
    pure ⟨h, w.buffers.set i (some b)⟩

def derive (w : World) (i : ℕ) (f : Heap → Buffer → Heap × Buffer) : World :=
  match w.buffer i with
  | none => w
  | some b =>
    let (h, b) := f w.heap b
    ⟨h, w.buffers ++ [some b]⟩

variable [Allocator]

def step (w : World) : Op → Except Fault World
  | .construct zeroSize =>
    let (h, b) := Buffer.construct w.heap zeroSize.toNat
    pure ⟨h, w.buffers ++ [some b]⟩
  | .copy i => pure (w.derive i Buffer.copy)
  | .assign i j =>
    match w.buffer j with
    | none => pure w
    | some o => w.update i fun h b => pure (b.assign h o)
  | .createFragment i start length =>
    pure (w.derive i fun h b => b.createFragment h start.toNat length.toNat)
  | .destroy i =>
    match w.buffer i with
    | none => pure w
    | some b => pure ⟨b.destroy w.heap, w.buffers.set i none⟩
  | .addAtStart i data => w.update i fun h b => b.addAtStartWith h data
  | .addAtEnd i data => w.update i fun h b => b.addAtEndWith h data
  | .append i j =>
    match w.buffer j with
    | none => pure w
    | some o => w.update i fun h b => b.append h o
  | .removeAtStart i start => w.update i fun h b => pure (h, b.removeAtStart start.toNat)
  | .removeAtEnd i last => w.update i fun h b => pure (h, b.removeAtEnd last.toNat)
  | .peekData i => w.update i fun h b => do
    let (_, h, b) ← b.peekData h
    pure (h, b)

end World

def plainStep (p : List (Option (List UInt8))) : Op → List (Option (List UInt8))
  | .construct zeroSize => p ++ [some (replicate zeroSize.toNat 0)]
  | .copy i =>
    match p.getD i none with
    | none => p
    | some l => p ++ [some l]
  | .assign i j =>
    match p.getD i none, p.getD j none with
    | some _, some l => p.set i (some l)
    | _, _ => p
  | .createFragment i start length =>
    match p.getD i none with
    | none => p
    | some l => p ++ [some ((l.drop start.toNat).take length.toNat)]
  | .destroy i => p.set i none
  | .addAtStart i data => p.set i ((p.getD i none).map fun l => data ++ l)
  | .addAtEnd i data => p.set i ((p.getD i none).map fun l => l ++ data)
  | .append i j =>
    match p.getD i none, p.getD j none with
    | some l, some m => p.set i (some (l ++ m))
    | _, _ => p
  | .removeAtStart i start => p.set i ((p.getD i none).map fun l => l.drop start.toNat)
  | .removeAtEnd i last => p.set i ((p.getD i none).map fun l => l.take (l.length - last.toNat))
  | .peekData _ => p

end Egsr.Network.Buffers
