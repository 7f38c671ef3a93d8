import DocQuery.Json.Basic

/-!
# Writing JSON text

There are two ways to write a tree, and both write its tokens in order.  `Json.compact` puts nothing
between them.  `Json.indented` puts each element and each field on a line of its own, two more
spaces from the margin than the line that opens the array or object, and a space behind the colon of
a field; an array or object without parts stays on one line (`Layout.gap`).
-/

namespace DocQuery.Json

namespace Layout

/-- How many spaces each level adds to the margin. -/
def indentWidth : Nat :=
  2

def opens : Token → Bool
  | .openArray | .openObject => true
  | _ => false

def closes : Token → Bool
  | .closeArray | .closeObject => true
  | _ => false

/-- How many arrays and objects are open after a token, of so many before. -/
def depthAfter (depth : Nat) (token : Token) : Nat :=
  if opens token then depth + 1 else if closes token then depth - 1 else depth

/-- The end of a line and the margin of the next. -/
def newLine (depth : Nat) : List Char :=
  '\n' :: List.replicate (indentWidth * depth) ' '

/-- What stands between a token and the next, of which `depth` arrays and objects are open after the
first. -/
def gap (depth : Nat) (token next : Token) : List Char :=
  if opens token then if closes next then [] else newLine depth
  else if closes next then newLine (depth - 1)
  else if token = .comma then newLine depth
  else if token = .colon then [' ']
  else []

/-- The text of some tokens with gaps between them, the first of which stands inside `depth` arrays
and objects. -/
def spaced (depth : Nat) : List Token → List Char
  | [] => []
  | [token] => token.text
  | token :: next :: rest =>
    let inside := depthAfter depth token
    token.text ++ gap inside token next ++ spaced inside (next :: rest)

end Layout

/-- The text of a tree with no blanks. -/
def compact (j : Json) : String :=
  String.ofList (j.tokens.flatMap Token.text)

/-- The text of a tree with a line for each element and field. -/
def indented (j : Json) : String :=
  String.ofList (Layout.spaced 0 j.tokens)

end DocQuery.Json
