import DocQuery.Value.Basic

/-!
# Equality of document values

Two values are equal when they are of one kind and have equal contents: numbers are compared as
numbers, so a NaN anywhere makes a value differ from itself and the two zeros are equal; arrays
element by element; objects as maps, whatever the order of their fields.  This is `==` on `Value`,
and it is not `=`.
-/

namespace DocQuery.Value

mutual

/-- Whether two values are equal as documents. -/
def equal : Value → Value → Bool
  | null, null => true
  | boolean b, boolean c => b = c
  | integer n, integer m => n = m
  | float x, float y => x.numEq y
  | string s, string t => s = t
  | array xs, array ys => elementsEqual xs ys
  | object fields, object others =>
    fields.length = others.length && fieldsEqual fields others
  | _, _ => false

/-- Whether two lists have equally many elements, equal in pairs. -/
def elementsEqual : List Value → List Value → Bool
  | [], [] => true
  | x :: xs, y :: ys => x.equal y && elementsEqual xs ys
  | _, _ => false

/-- Whether each of some fields has its key in `others`, with an equal value. -/
def fieldsEqual : List (String × Value) → List (String × Value) → Bool
  | [], _ => true
  | (key, v) :: rest, others =>
    (match others.lookup key with
      | some w => v.equal w
      | none => false) && fieldsEqual rest others

end

instance : BEq Value := ⟨equal⟩

end DocQuery.Value
