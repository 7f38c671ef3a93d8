import DocQuery.Error

/-!
# Elements of arrays

The access to single elements, and the only place with the rules of indexing: a position counts
from the front and is not negative; reading at a position that the array does not have finds
nothing, while writing there is an error that leaves the array as it is; and a value that is not an
array can be neither read nor written by position.
-/

namespace DocQuery.Value

/-! ### Positions -/

/-- The index that a position is among `size` elements, if they have the position. -/
def slot? (position : Int64) (size : Nat) : Option Nat :=
  if 0 ≤ position.toInt ∧ position.toInt < size then some position.toInt.toNat else none

theorem slot?_eq_some_iff {position : Int64} {size i : Nat} :
    slot? position size = some i ↔ position.toInt = i ∧ i < size := by
  unfold slot?
  split <;> simp only [Option.some.injEq, reduceCtorEq, false_iff] <;> omega

theorem slot?_eq_none_iff {position : Int64} {size : Nat} :
    slot? position size = none ↔ position.toInt < 0 ∨ size ≤ position.toInt := by
  unfold slot?
  split <;> simp only [reduceCtorEq, false_iff, true_iff] <;> omega

/-- Refuses a position that `size` elements do not have. -/
def checkPosition (position : Int64) (size : Nat) : Result Unit :=
  match slot? position size with
  | some _ => .ok ()
  | none => .error (.outOfBounds position size)

/-! ### Reading -/

/-- The elements of a value that can be indexed, which is an array. -/
def indexed (v : Value) : Result (List Value) :=
  match v.elements? with
  | some elements => .ok elements
  | none => .error (.typeFault (.notIndexable v.kind))

def arrayLen (v : Value) : Result Nat :=
  v.indexed.map List.length

/-- The element at a position, or none where there is no such element. -/
def elementAt? (elements : List Value) (position : Int64) : Option Value :=
  (slot? position elements.length).bind (elements[·]?)

def arrayGet (v : Value) (position : Int64) : Result (Option Value) :=
  v.indexed.map (elementAt? · position)

/-! ### Writing -/

/-- The elements with another value at a position that they have. -/
def replaceAt (elements : List Value) (position : Int64) (x : Value) : Result (List Value) :=
  match slot? position elements.length with
  | some i => .ok (elements.set i x)
  | none => .error (.outOfBounds position elements.length)

/-- Writes a value at a position of an array. -/
def arraySet (v : Value) (position : Int64) (x : Value) : Outcome :=
  match v.indexed.bind (replaceAt · position x) with
  | .ok elements => ⟨.array elements, .ok ()⟩
  | .error e => ⟨v, .error e⟩

end DocQuery.Value
