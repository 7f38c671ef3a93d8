import DocQuery.Context
import DocQuery.Selector.Walk
import DocQuery.Value.Element

/-!
# Writing through a selector

`Selector.write` changes the part of a document that a selector names.  The whole is replaced by the
value, whatever the two are.  A single element is replaced by the value if the array has the
position.  A range is filled one position after the other, in the order of the walk, with elements
that the context says where to take from (`Selector.source`).

Nothing is looked at ahead: a walk that leaves the array has written everything before that
position, and a walk that starts outside has written nothing.  As it stops at the first position
that the array does not have, its length is bounded by the array however far its ends are apart.
-/

namespace DocQuery

namespace Walk

/-- Fills the positions of a walk from step `k` on, for `steps` of them: the `k`-th one with
`source k`, which may look at the elements as they are by then.  Gives the elements as they are at
the end, or at the first position that is not among them. -/
def fillFrom (w : Walk) (source : Nat → List Value → Value) :
    (steps k : Nat) → List Value → List Value × Result Unit
  | 0, _, elements => (elements, .ok ())
  | steps + 1, k, elements =>
    match Value.replaceAt elements (w.position k) (source k elements) with
    | .ok replaced => fillFrom w source steps (k + 1) replaced
    | .error e => (elements, .error e)

def fill (w : Walk) (source : Nat → List Value → Value) (elements : List Value) :
    List Value × Result Unit :=
  w.fillFrom source w.count.toNat 0 elements

end Walk

namespace Selector

/-- The element at an index counted from the front, and null where there is none. -/
def elementOrNull (elements : List Value) (k : Nat) : Value :=
  elements[k]?.getD default

/-- What a write of `value` through a range fills the range with. -/
def source (s : Selector) (context : Context) (value : Value) :
    Result (Nat → List Value → Value) :=
  match context.rangeWrite with
  | .selfCopy => .ok fun k elements => elementOrNull elements k
  | .spread =>
    match value.elements? with
    | some values => .ok fun k _ => elementOrNull values k
    | none => .error (.typeFault (.notSpreadable value.kind s))

/-- Fills the elements of an array that a range names. -/
def writeRange (s : Selector) (context : Context) (elements : List Value) (value : Value) :
    Outcome :=
  match s.source context value with
  | .ok source =>
    let (filled, result) := (s.walk elements.length).fill source elements
    ⟨.array filled, result⟩
  | .error e => ⟨.array elements, .error e⟩

/-- Writes a value at the part of a document that a selector names. -/
def write (s : Selector) (context : Context) (document value : Value) : Outcome :=
  if s.isAll then ⟨value, .ok ()⟩
  else match document.indexed with
    | .ok elements =>
      if s.isRange then s.writeRange context elements value
      else document.arraySet (resolve s.start elements.length) value
    | .error e => ⟨document, .error e⟩

end Selector

end DocQuery
