import Std.Data.TreeMap.Lemmas
import Egsr.Lib.Outcome
import Egsr.Lib.SinglePrecision
import Egsr.Network.ByteIterator

/-! The road map: junctions with coordinates and out-edges, the matrices indexed
by junctions, and the geometry the routing decisions use. Coordinates, lengths
and weights are exact; the functions of the C library are parameters. -/

namespace Egsr.Grp.Road

open Lib.Outcome Lib.SinglePrecision Network.ByteIterator

/-- What a handler can do wrong: read a junction or a matrix cell that does not
exist, read a source route past its end, follow Dijkstra parents out of the
array or forever, take a header off a packet that is too short, dereference the
end of the neighbour table, start a timer that is running, take the front of an
empty queue, fail an assertion, read the junctions or delays of an ant outside. -/
inductive Fault where
  | junction
  | cursor
  | walk
  | header
  | endIterator
  | timerRunning
  | emptyQueue
  | assertion
  | ant
  deriving DecidableEq

/-- The parts of the platform the code relies on: the C library, the rounding of
a double to a float, and the order in which an unordered map lists its keys. -/
class Platform where
  sqrt : ℚ → ℚ
  atan : ℚ → ℚ
  toFloat : ℚ → Binary32
  bucketOrder : List ℕ → List ℕ
  bucketOrder_perm : ∀ keys, (bucketOrder keys).Perm keys

/-- Simulation time in seconds. -/
abbrev Time := ℚ

/-- `Time::GetMilliSeconds`, which truncates towards zero. -/
def getMilliSeconds (t : Time) : ℤ := if 0 ≤ t then ⌊t * 1000⌋ else ⌈t * 1000⌉

def mJuncNum : ℕ := 49
def mRsujid : ℕ := 45
def infinite : ℚ := 1000000
def turnLightRange : ℚ := 50
def roadWidth : ℚ := 10
def junAreaRadius : ℚ := 50

/-- A square matrix with `n` rows; only its first `n` rows and columns exist. -/
structure Grid (n : ℕ) (α : Type) where
  cell : ℕ → ℕ → α

namespace Grid

variable {n : ℕ} {α : Type}

def fill (a : α) : Grid n α := ⟨fun _ _ => a⟩

def get (g : Grid n α) (i j : ℕ) : Except Fault α :=
  if i < n ∧ j < n then pure (g.cell i j) else throw .junction

def set (g : Grid n α) (i j : ℕ) (a : α) : Except Fault (Grid n α) :=
  if i < n ∧ j < n then pure ⟨fun k l => if k = i ∧ l = j then a else g.cell k l⟩
  else throw .junction

/-- `g[i][j] = g[j][i] = a`. -/
def setBoth (g : Grid n α) (i j : ℕ) (a : α) : Except Fault (Grid n α) := do
  let g ← g.set j i a
  g.set i j a

def both (g : Grid n α) (i j : ℕ) (a : α) : Grid n α where
  cell k l := if k = i ∧ l = j ∨ k = j ∧ l = i then a else g.cell k l

variable {g : Grid n α}

theorem get_eq {i j : ℕ} (hi : i < n) (hj : j < n) : g.get i j = .ok (g.cell i j) := if_pos ⟨hi, hj⟩

theorem set_eq {i j : ℕ} (hi : i < n) (hj : j < n) (a : α) :
    g.set i j a = .ok ⟨fun k l => if k = i ∧ l = j then a else g.cell k l⟩ := if_pos ⟨hi, hj⟩

theorem setBoth_eq {i j : ℕ} (hi : i < n) (hj : j < n) (a : α) :
    g.setBoth i j a = .ok (g.both i j a) := by
  simp only [setBoth, set, both, if_pos (And.intro hj hi), if_pos (And.intro hi hj)]
  simp only [pure, Except.pure, bind, Except.bind, Except.ok.injEq, Grid.mk.injEq]
  funext k l
  by_cases h : k = i ∧ l = j <;> by_cases h' : k = j ∧ l = i <;> simp [h, h']

theorem both_self (g : Grid n α) (i j : ℕ) (a : α) : (g.both i j a).cell i j = a :=
  if_pos (.inl ⟨rfl, rfl⟩)

theorem both_symmetric (h : ∀ k l, g.cell k l = g.cell l k) (i j : ℕ) (a : α)
    (k l : ℕ) : (g.both i j a).cell k l = (g.both i j a).cell l k :=
  if_congr (by tauto) rfl (h k l)

theorem setBoth_ok_inv {g' : Grid n α} {i j : ℕ} {a : α} (h : g.setBoth i j a = .ok g') :
    i < n ∧ j < n := by
  by_cases hij : j < n ∧ i < n
  · exact ⟨hij.2, hij.1⟩
  · simp only [setBoth, set, if_neg hij] at h
    cases h

end Grid

/-- A junction, with the length of the road to each junction it leads to. -/
structure DigitalMapEntry where
  x : ℚ
  y : ℚ
  outedge : Std.TreeMap ℕ ℚ

abbrev RoadMap := List DigitalMapEntry

structure Position where
  x : ℚ
  y : ℚ
  deriving DecidableEq

variable (map : RoadMap)

def junction (jid : ℕ) : Except Fault DigitalMapEntry :=
  match map[jid]? with
  | some entry => pure entry
  | none => throw .junction

def DigitalMapEntry.position (entry : DigitalMapEntry) : Position := ⟨entry.x, entry.y⟩

section Geometry

variable [Platform]

def squaredDistance (a b : Position) : ℚ := (a.x - b.x) ^ 2 + (a.y - b.y) ^ 2

def distance (a b : Position) : ℚ := Platform.sqrt (squaredDistance a b)

end Geometry

def isAdjacentVex (sjid ejid : ℕ) : Except Fault Bool := do
  let entry ← junction map sjid
  pure (entry.outedge.contains ejid)

def getDirection (currentJID nextJID : ℕ) : Except Fault ℤ := do
  let c ← junction map currentJID
  let n ← junction map nextJID
  if n.y = c.y then
    if c.x < n.x then pure 0 else pure 2
  else
    if c.y < n.y then pure 1 else pure 3

/-- Whether a point lies in the rectangle spanned by two junctions, widened
across the direction of the road. -/
def isBetweenSegment (p : Position) (cjid djid : ℕ) : Except Fault Bool := do
  let d ← junction map djid
  let c ← junction map cjid
  let minx := if c.x < d.x then c.x else d.x
  let maxx := if d.x < c.x then c.x else d.x
  let miny := if c.y < d.y then c.y else d.y
  let maxy := if d.y < c.y then c.y else d.y
  let dir ← getDirection map cjid djid
  let (minx, maxx, miny, maxy) :=
    if dir % 2 = 0 then (minx, maxx, miny - roadWidth, maxy + roadWidth)
    else (minx - roadWidth, maxx + roadWidth, miny, maxy)
  pure (decide (minx ≤ p.x) && decide (p.x ≤ maxx) && decide (miny ≤ p.y) && decide (p.y ≤ maxy))

/-- A computation that at worst reads a junction or a cell that does not exist. -/
abbrev OnlyJunction {α : Type} (x : Except Fault α) : Prop :=
  Ensures x (fun _ => True) (fun e => e = .junction)

theorem junction_spec (jid : ℕ) :
    Ensures (junction map jid) (fun entry => map[jid]? = some entry) (fun e => e = .junction) := by
  unfold junction
  cases h : map[jid]? <;> simp

theorem Grid.get_spec {n : ℕ} {α : Type} (g : Grid n α) (i j : ℕ) : OnlyJunction (g.get i j) :=
  Ensures.ite (fun _ => trivial) fun _ => rfl

theorem Grid.set_spec {n : ℕ} {α : Type} (g : Grid n α) (i j : ℕ) (a : α) :
    OnlyJunction (g.set i j a) :=
  Ensures.ite (fun _ => trivial) fun _ => rfl

theorem Grid.setBoth_spec {n : ℕ} {α : Type} (g : Grid n α) (i j : ℕ) (a : α) :
    OnlyJunction (g.setBoth i j a) := by
  by_cases h : j < n ∧ i < n
  · rw [g.setBoth_eq h.2 h.1]
    trivial
  · simp only [Grid.setBoth, Grid.set, if_neg h]
    exact rfl

theorem getDirection_spec (currentJID nextJID : ℕ) :
    OnlyJunction (getDirection map currentJID nextJID) := by
  unfold getDirection
  refine (junction_spec map currentJID).bind fun c _ => ?_
  refine (junction_spec map nextJID).bind fun n _ => ?_
  refine Ensures.ite (fun _ => ?_) fun _ => ?_
  · exact Ensures.ite (fun _ => trivial) fun _ => trivial
  · exact Ensures.ite (fun _ => trivial) fun _ => trivial

theorem isBetweenSegment_spec (p : Position) (cjid djid : ℕ) :
    OnlyJunction (isBetweenSegment map p cjid djid) := by
  unfold isBetweenSegment
  refine (junction_spec map djid).bind fun d _ => ?_
  refine (junction_spec map cjid).bind fun c _ => ?_
  exact (getDirection_spec map cjid djid).bind fun dir _ => trivial

end Egsr.Grp.Road
