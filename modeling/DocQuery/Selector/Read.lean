import DocQuery.Selector.Walk
import DocQuery.Value.Element

/-!
# Reading through a selector

`Selector.read` gives the part of a document that a selector names.  The whole is the document
itself, of whatever kind.  A range is an array of its elements in the order of the walk, which
reverses them when the walk goes down; both ends have to be positions of the array, and the start is
looked at first.  A single element is itself, and null where the array has none.
-/

namespace DocQuery.Selector

/-- The elements of a walk whose two ends are positions of the array.

The walk is contiguous, so its ends being in bounds puts all of it in bounds. -/
def readRange (w : Walk) (elements : List Value) : Result Value := do
  Value.checkPosition w.first elements.length
  Value.checkPosition w.last elements.length
  return .array (w.positions.map fun position => (Value.elementAt? elements position).getD default)

/-- The part of a document that a selector names. -/
def read (s : Selector) (document : Value) : Result Value :=
  if s.isAll then .ok document
  else do
    let elements ← document.indexed
    if s.isRange then readRange (s.walk elements.length) elements
    else return (Value.elementAt? elements (resolve s.start elements.length)).getD default

end DocQuery.Selector
