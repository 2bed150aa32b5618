import Egsr.Lib.Outcome
import Egsr.Lib.SharedList

/-! Packet tag lists. The lists share their ends: a copy points to where the
original points, and what changes a list copies the nodes that others point to
up to the tag in question. Each list is to behave as a map of its own from the
types of the tags to what they serialize to. -/

namespace Egsr.Network.PacketTagList

open Lib.SharedList Lib.Run Lib.Outcome

abbrev TypeId := UInt16

/-- A tag by its type and the bytes it serializes to, and the buffer of a node. -/
structure Tag where
  tid : TypeId
  data : List UInt8
deriving DecidableEq

inductive Fault where
  /-- A null pointer or one to a freed node is followed. -/
  | badPointer
  /-- More is written than the buffer of a node has room for. -/
  | bufferOverflow
  | noReturn
deriving DecidableEq

abbrev Lists := Memory Tag

variable (m : Lists)

def deref (a : ℕ) : Except Fault (Node Tag) :=
  match node m a with
  | some n => .ok n
  | none => .error .badPointer

def addRef : Option ℕ → Except Fault Lists
  | none => .ok m
  | some a => (deref m a).map fun _ => share m (some a)

def serializeOver (cur : ℕ) (n : Node Tag) (tag : Tag) : Except Fault Lists :=
  if n.value.data.length < tag.data.length then .error .bufferOverflow
  else .ok (setValue m cur ⟨n.value.tid, tag.data ++ n.value.data.drop tag.data.length⟩)

inductive Cursor where
  | nothing
  | found (cur : ℕ) (prevNext : Slot)
  | merge (cur : ℕ) (prevNext : Slot)
deriving DecidableEq

def search (m : Lists) (tid : TypeId) : ℕ → Slot → Except Fault Cursor
  | 0, _ => .error .noReturn
  | fuel + 1, prevNext =>
    match load m prevNext with
    | none => .ok .nothing
    | some cur => do
      let n ← deref m cur
      if n.count > 1 then .ok (.merge cur prevNext)
      else if n.value.tid = tid then .ok (.found cur prevNext)
      else search m tid fuel (.next cur)

def find (m : Lists) (tid : TypeId) : ℕ → Option ℕ → Except Fault (Option (Node Tag))
  | 0, _ => .error .noReturn
  | _ + 1, none => .ok none
  | fuel + 1, some it => do
    let n ← deref m it
    if n.value.tid = tid then .ok (some n) else find m tid fuel n.next

def moveMerge (tid : TypeId) : ℕ → Lists → ℕ → Slot → Except Fault (Lists × ℕ × Slot)
  | 0, _, _, _ => .error .noReturn
  | fuel + 1, m, cur, prevNext => do
    let n ← deref m cur
    if n.value.tid = tid then .ok (m, cur, prevNext)
    else
      match n.next with
      | none => .error .badPointer
      | some next =>
        let copy := fresh m
        let m ← addRef (alloc (setCount m cur (n.count - 1)) ⟨some next, 1, n.value⟩) (some next)
        moveMerge tid fuel (store m prevNext (some copy)) next (.next copy)

/-- What is done to the node `cur` of the tag, to which `prevNext` points; `preMerge` says that
nothing else points to it. The bytes are what the tag holds then. -/
abbrev COWWriter :=
  Lists → Tag → (preMerge : Bool) → (cur : ℕ) → (prevNext : Slot) →
    Except Fault (List UInt8 × Lists)

variable (i : ℕ)

def COWTraverse (tag : Tag) (writer : COWWriter) : Except Fault (Option (List UInt8) × Lists) := do
  let fuel := m.nodes.length + 1
  match ← search m tag.tid fuel (.head i) with
  | .nothing => .ok (none, m)
  | .found cur prevNext => (writer m tag true cur prevNext).map fun r => (some r.1, r.2)
  | .merge cur prevNext =>
    match ← find m tag.tid fuel (some cur) with
    | none => .ok (none, m)
    | some _ => do
      let (m, cur, prevNext) ← moveMerge tag.tid fuel m cur prevNext
      (writer m tag false cur prevNext).map fun r => (some r.1, r.2)

def removeWriter : COWWriter := fun m _ preMerge cur prevNext => do
  let n ← deref m cur
  let m := store m prevNext n.next
  if preMerge then .ok (n.value.data, free m cur)
  else do
    let m ← addRef (setCount m cur (n.count - 1)) n.next
    .ok (n.value.data, m)

def replaceWriter : COWWriter := fun m tag preMerge cur prevNext => do
  let n ← deref m cur
  if preMerge then (serializeOver m cur n tag).map fun m => (tag.data, m)
  else do
    let copy := fresh m
    let m ← addRef (alloc (setCount m cur (n.count - 1)) ⟨n.next, 1, tag⟩) n.next
    .ok (tag.data, store m prevNext (some copy))

def remove (tid : TypeId) : Except Fault (Option (List UInt8) × Lists) :=
  COWTraverse m i ⟨tid, []⟩ removeWriter

/-- The assertion that the type is not in the list is compiled out. -/
def add (tag : Tag) : Lists := prepend m i tag

def replace (tag : Tag) : Except Fault (Option (List UInt8) × Lists) := do
  let (found, m) ← COWTraverse m i tag replaceWriter
  if found.isSome then .ok (found, m) else .ok (none, add m i tag)

def peek (tid : TypeId) : Except Fault (Option (List UInt8)) :=
  (find m tid (m.nodes.length + 1) (load m (.head i))).map fun found =>
    found.map fun n => n.value.data

def freePrev : Option ℕ → Lists
  | none => m
  | some prev => free m prev

def removeAllLoop : ℕ → Lists → (prev cur : Option ℕ) → Except Fault Lists
  | 0, _, _, _ => .error .noReturn
  | _ + 1, m, prev, none => .ok (freePrev m prev)
  | fuel + 1, m, prev, some cur => do
    let n ← deref m cur
    let m := setCount m cur (n.count - 1)
    if n.count - 1 > 0 then .ok (freePrev m prev)
    else removeAllLoop fuel (freePrev m prev) (some cur) n.next

def removeAll : Except Fault Lists := do
  let m ← removeAllLoop (m.nodes.length + 1) m none (load m (.head i))
  .ok (store m (.head i) none)

def copy (o : ℕ) : Except Fault Lists :=
  addRef (store (newHead m) (.head m.heads.length) (load m (.head o))) (load m (.head o))

def assign (i o : ℕ) : Except Fault Lists :=
  if load m (.head i) = load m (.head o) then .ok m
  else do
    let m ← removeAll m i
    addRef (store m (.head i) (load m (.head o))) (load m (.head o))

inductive Op where
  | create
  | copy (o : ℕ)
  | assign (i o : ℕ)
  | removeAll (i : ℕ)
  | add (i : ℕ) (tag : Tag)
  | remove (i : ℕ) (tid : TypeId)
  | replace (i : ℕ) (tag : Tag)
  | peek (i : ℕ) (tid : TypeId)
deriving DecidableEq

/-- What the tag holds if it was found, and the lists after the operation. -/
def serve : Op → Except Fault (Option (List UInt8) × Lists)
  | .create => .ok (none, newHead m)
  | .copy o => (copy m o).map fun m => (none, m)
  | .assign i o => (assign m i o).map fun m => (none, m)
  | .removeAll i => (removeAll m i).map fun m => (none, m)
  | .add i tag => .ok (none, add m i tag)
  | .remove i tid => remove m i tid
  | .replace i tag => replace m i tag
  | .peek i tid => (peek m i tid).map fun found => (found, m)

def step (op : Op) : Except Fault Lists := (serve m op).map Prod.snd

def start : Lists := ⟨[], []⟩

end Egsr.Network.PacketTagList
