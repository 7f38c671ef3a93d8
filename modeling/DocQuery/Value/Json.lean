import DocQuery.Json.Layout
import DocQuery.Json.Reader
import DocQuery.Value.Basic

/-!
# Documents as JSON

Every JSON tree is a document (`Value.ofJson`): a number that is an integer of 64 bits becomes one,
and any other number the nearest binary64 number.  Every document has a JSON tree (`Value.toJson`),
in which a binary64 number that is not finite becomes null, having no JSON form, and the fields of
each object are put in increasing order of their keys.  `Value.compact` and `Value.indented` are the
JSON texts of a document.
-/

namespace DocQuery.Value

/-! ### From JSON -/

/-- The number of a document that a JSON number is.  It would be null where there is no binary64
number, but there always is one (`ofNumber_ne_null`). -/
def ofNumber (n : Json.Number) : Value :=
  match n.toInt64? with
  | some i => integer i
  | none => (n.toBinary64?.map float).getD null

mutual

def ofJson : Json → Value
  | .null => null
  | .boolean b => boolean b
  | .number n => ofNumber n
  | .string s => string s
  | .array elements => array (elementsOfJson elements)
  | .object fields => object (fieldsOfJson fields)

def elementsOfJson : List Json → List Value
  | [] => []
  | j :: rest => ofJson j :: elementsOfJson rest

def fieldsOfJson : List (String × Json) → List (String × Value)
  | [] => []
  | (key, j) :: rest => (key, ofJson j) :: fieldsOfJson rest

end

/-- The document that a JSON text says. -/
def ofText? (text : String) : Option Value :=
  (Json.ofText? text).map ofJson

/-! ### To JSON -/

/-- The JSON tree of a binary64 number. -/
def floatToJson (x : Binary64) : Json :=
  match Json.Number.ofBinary64? x with
  | some n => .number n
  | none => .null

mutual

def toJson : Value → Json
  | null => .null
  | boolean b => .boolean b
  | integer n => .number (Json.Number.ofInt64 n)
  | float x => floatToJson x
  | string s => .string s
  | array elements => .array (elementsToJson elements)
  | object fields => .object (fieldsToJson fields)

def elementsToJson : List Value → List Json
  | [] => []
  | v :: rest => v.toJson :: elementsToJson rest

/-- The fields of a JSON object, in increasing order of their keys. -/
def fieldsToJson : List (String × Value) → List (String × Json)
  | [] => []
  | (key, v) :: rest => Fields.insert key v.toJson (fieldsToJson rest)

end

def compact (v : Value) : String :=
  v.toJson.compact

/-- The JSON text of a document with a line for each element and field. -/
def indented (v : Value) : String :=
  v.toJson.indented

end DocQuery.Value
