import DocQuery.Fields
import DocQuery.Json.Token

/-!
# JSON trees

A `Json` tree is what a JSON text says, and `Json.tokens` are the tokens that say it.  The fields of
an object are in increasing order of their keys, with no key twice; `Json.KeysIncrease` says so of a
whole tree.
-/

namespace DocQuery

/-- What a JSON text says. -/
inductive Json where
  | null
  | boolean (b : Bool)
  | number (n : Json.Number)
  | string (s : String)
  | array (elements : List Json)
  /-- A tree for each of some keys, in increasing order of the keys. -/
  | object (fields : List (String × Json))

namespace Json

mutual

/-- In every object of a tree, at any depth, each key is less than the next. -/
def KeysIncrease : Json → Prop
  | array elements => ElementsKeysIncrease elements
  | object fields =>
    (Fields.keys fields).Pairwise (· < ·) ∧ FieldsKeysIncrease fields
  | _ => True

def ElementsKeysIncrease : List Json → Prop
  | [] => True
  | j :: rest => j.KeysIncrease ∧ ElementsKeysIncrease rest

def FieldsKeysIncrease : List (String × Json) → Prop
  | [] => True
  | (_, j) :: rest => j.KeysIncrease ∧ FieldsKeysIncrease rest

end

/-! ### Tokens -/

mutual

def tokens : Json → List Token
  | null => [.null]
  | boolean b => [.boolean b]
  | number n => [.number n]
  | string s => [.string s]
  | array [] => [.openArray, .closeArray]
  | array (j :: rest) => .openArray :: (j.tokens ++ elementTokens rest)
  | object [] => [.openObject, .closeObject]
  | object ((key, j) :: rest) =>
    .openObject :: .string key :: .colon :: (j.tokens ++ fieldTokens rest)

/-- The tokens of the elements that follow others, up to the end of the array. -/
def elementTokens : List Json → List Token
  | [] => [.closeArray]
  | j :: rest => .comma :: (j.tokens ++ elementTokens rest)

/-- The tokens of the fields that follow others, up to the end of the object. -/
def fieldTokens : List (String × Json) → List Token
  | [] => [.closeObject]
  | (key, j) :: rest => .comma :: .string key :: .colon :: (j.tokens ++ fieldTokens rest)

end

end Json

end DocQuery
