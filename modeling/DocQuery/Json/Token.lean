import DocQuery.Json.Number
import DocQuery.Json.Quoted

/-!
# JSON tokens

JSON text is a sequence of tokens with blanks between them.  `Token.text` writes a token, and
`Token.scan?` finds the tokens of a text.  A token is a mark, a string, or a word: the longest run
of characters none of which is a blank, a mark or a quotation mark.  A word is `null`, `true`,
`false` or a numeral.
-/

namespace DocQuery.Json

/-- A token of JSON text. -/
inductive Token where
  | openArray
  | closeArray
  | openObject
  | closeObject
  | comma
  | colon
  | null
  | boolean (b : Bool)
  | number (n : Number)
  | string (s : String)
deriving DecidableEq

namespace Token

/-! ### Writing -/

def text : Token → List Char
  | openArray => ['[']
  | closeArray => [']']
  | openObject => ['\x7b']
  | closeObject => ['\x7d']
  | comma => [',']
  | colon => [':']
  | null => "null".toList
  | boolean true => "true".toList
  | boolean false => "false".toList
  | number n => n.numeral.text
  | string s => Quoted.text s

/-! ### Reading -/

/-- Whether a character may stand between tokens. -/
def isBlank (c : Char) : Bool :=
  c = ' ' || c = '\n' || c = '\r' || c = '\t'

/-- The token that a character is by itself. -/
def ofMark? (c : Char) : Option Token :=
  if c = '[' then some openArray
  else if c = ']' then some closeArray
  else if c = '\x7b' then some openObject
  else if c = '\x7d' then some closeObject
  else if c = ',' then some comma
  else if c = ':' then some colon
  else none

/-- Whether a character can be part of a word. -/
def isWordChar (c : Char) : Bool :=
  !isBlank c && (ofMark? c).isNone && c ≠ '"'

/-- The token that a word is. -/
def ofWord? (word : List Char) : Option Token :=
  if word = "null".toList then some null
  else if word = "true".toList then some (boolean true)
  else if word = "false".toList then some (boolean false)
  else ((Numeral.ofText? word).bind Number.ofNumeral?).map number

/-- The token that a text is between its quotation marks. -/
def ofQuoted? (body : List Char) : Option Token :=
  (Quoted.decode? body).map fun chars => string (String.ofList chars)

/-- What is left behind a string is shorter than what the string was taken from. -/
theorem length_of_split? {chars body rest : List Char}
    (h : Quoted.split? chars = some (body, rest)) : rest.length < chars.length := by
  fun_induction Quoted.split? chars generalizing body rest with
  | case1 => simp at h
  | case2 => simp_all
  | case3 c r ih | case4 c r _ _ ih =>
    obtain ⟨⟨body', rest'⟩, hsplit, hrest⟩ := Option.map_eq_some_iff.1 h
    have := ih hsplit
    simp only [Prod.mk.injEq] at hrest
    simp only [List.length_cons, ← hrest.2]
    omega

/-- The tokens of a text, if it has no other parts than tokens and blanks. -/
def scan? (chars : List Char) : Option (List Token) :=
  match chars with
  | [] => some []
  | c :: rest =>
    if isBlank c then scan? rest
    else match ofMark? c with
      | some token => (scan? rest).map (token :: ·)
      | none =>
        if c = '"' then
          match h : Quoted.split? rest with
          | none => none
          | some (body, behind) =>
            have := length_of_split? h
            match ofQuoted? body with
            | none => none
            | some token => (scan? behind).map (token :: ·)
        else
          have := (List.dropWhile_sublist isWordChar (l := rest)).length_le
          match ofWord? (c :: rest.takeWhile isWordChar) with
          | none => none
          | some token => (scan? (rest.dropWhile isWordChar)).map (token :: ·)
termination_by chars.length

end Token

end DocQuery.Json
