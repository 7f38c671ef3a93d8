import DocQuery.Json.Basic

/-!
# Reading JSON text

`Json.ofTokens?` builds the tree that some tokens say.  It takes the tokens one by one and keeps the
arrays and objects that are still open, the innermost first (`Frame`), with what they hold so far;
each token is met in a `State` that says what may come next.  A key that comes again in an object
takes the place of the earlier one.
-/

namespace DocQuery.Json

/-- An array or object that is still open, in the middle of which a tree is expected. -/
inductive Frame where
  /-- An array with the elements so far, the last one first. -/
  | array (before : List Json)
  /-- An object with the fields so far, and the key whose tree comes next. -/
  | object (before : List (String × Json)) (key : String)

/-- What has been read and what may come next. -/
inductive State where
  /-- A tree comes next. -/
  | tree (frames : List Frame)
  /-- An array has just been opened: its first element or its end comes next. -/
  | arrayStart (frames : List Frame)
  /-- An object has just been opened: its first key or its end comes next. -/
  | objectStart (frames : List Frame)
  /-- A further key of an object comes next. -/
  | key (before : List (String × Json)) (frames : List Frame)
  /-- The colon behind a key comes next. -/
  | colon (before : List (String × Json)) (key : String) (frames : List Frame)
  /-- A tree has just ended: what it is part of goes on or ends. -/
  | ended (j : Json) (frames : List Frame)

namespace State

/-- The state after the first token of a tree. -/
def start? (frames : List Frame) : Token → Option State
  | .null => some (ended null frames)
  | .boolean b => some (ended (boolean b) frames)
  | .number n => some (ended (number n) frames)
  | .string s => some (ended (string s) frames)
  | .openArray => some (arrayStart frames)
  | .openObject => some (objectStart frames)
  | _ => none

/-- The state after a token, if the token may come there. -/
def step? : State → Token → Option State
  | tree frames, token => start? frames token
  | arrayStart frames, .closeArray => some (ended (array []) frames)
  | arrayStart frames, token => start? (.array [] :: frames) token
  | objectStart frames, .closeObject => some (ended (object []) frames)
  | objectStart frames, .string k => some (colon [] k frames)
  | key before frames, .string k => some (colon before k frames)
  | colon before k frames, .colon => some (tree (.object before k :: frames))
  | ended j (.array before :: frames), .comma => some (tree (.array (j :: before) :: frames))
  | ended j (.array before :: frames), .closeArray =>
    some (ended (array (j :: before).reverse) frames)
  | ended j (.object before k :: frames), .comma => some (key (Fields.insert k j before) frames)
  | ended j (.object before k :: frames), .closeObject =>
    some (ended (object (Fields.insert k j before)) frames)
  | _, _ => none

/-- The tree that has been read, when nothing is left open. -/
def finished? : State → Option Json
  | ended j [] => some j
  | _ => none

end State

/-- The tree that some tokens say. -/
def ofTokens? (tokens : List Token) : Option Json :=
  (tokens.foldlM State.step? (.tree [])).bind State.finished?

/-- The tree that a text says. -/
def ofText? (text : String) : Option Json :=
  (Token.scan? text.toList).bind ofTokens?

end DocQuery.Json
