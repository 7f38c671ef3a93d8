import DocQuery.Selector.Basic

/-!
# Walks

A selector that is not the whole array addresses positions counted from the front.  `resolve` makes
a position of an index, without any regard to whether the array has it, and a `Walk` is the run of
positions from one to another, both included, in steps of one up or down.  A walk may be far longer
than any array: between the least and the greatest position there are `2 ^ 64`.

Positions are words of 64 bits.  A distance between two of them needs one bit more, so a walk
reckons in words of 128 bits (`Walk.distance`, `Walk.count`, `Walk.position`) and narrows only the
positions that come out, each of which lies between the two ends.
-/

namespace DocQuery

namespace Selector

/-- The position that an index stands for in an array of `size` elements: a negative index counts
from the end.  The result need not be a position of the array. -/
def resolve (index : Int64) (size : Nat) : Int64 :=
  if index < 0 then Int64.ofNat size + index else index

end Selector

/-- The positions from one to another, both included. -/
structure Walk where
  first : Int64
  last : Int64
deriving DecidableEq

namespace Walk

/-- The difference between a position and the next: up when the walk ends above where it starts,
down otherwise. -/
def step (w : Walk) : Int64 :=
  if w.first < w.last then 1 else -1

/-! ### Wide words -/

/-- A position as a word of 128 bits. -/
def widen (position : Int64) : BitVec 128 :=
  position.toBitVec.signExtend 128

/-- The position that the low half of a wide word holds. -/
def narrow (word : BitVec 128) : Int64 :=
  Int64.ofBitVec (word.setWidth 64)

/-! ### The positions -/

def distance (w : Walk) : BitVec 128 :=
  (widen w.last - widen w.first).abs

def count (w : Walk) : BitVec 128 :=
  w.distance + 1

def place (w : Walk) (k : BitVec 128) : BitVec 128 :=
  widen w.first + widen w.step * k

/-- The position that a walk comes to after `k` steps. -/
def position (w : Walk) (k : Nat) : Int64 :=
  narrow (w.place (BitVec.ofNat 128 k))

def positions (w : Walk) : List Int64 :=
  (List.range w.count.toNat).map w.position

end Walk

/-- The walk that a selector stands for in an array of `size` elements. -/
def Selector.walk (s : Selector) (size : Nat) : Walk :=
  ⟨resolve s.start size, resolve s.stop size⟩

end DocQuery
