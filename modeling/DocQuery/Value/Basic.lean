import DocQuery.Binary64.Basic
import DocQuery.Fields

/-!
# Document values

A document is a `Value`: null, a boolean, a number, a string, an array of values or an object with a
value for each of its keys.  Integers and binary64 numbers are told apart, so `1` and `1.0` are two
values.  The fields of an object have no order that matters; a list holds them, in which no key
comes twice (`Value.KeysDistinct`), and `Value.ofFields` builds such an object from any list
(`Value.keysDistinct_ofFields`).
-/

namespace DocQuery

/-- A document, or a part of one. -/
inductive Value where
  /-- The value that stands where there is none. -/
  | null
  | boolean (b : Bool)
  /-- An integer of 64 bits. -/
  | integer (n : Int64)
  /-- A binary64 number, NaN and the infinities included. -/
  | float (x : Binary64)
  | string (s : String)
  | array (elements : List Value)
  /-- A value for each of some keys. -/
  | object (fields : List (String × Value))

namespace Value

/-- A value taken where there is none is null. -/
instance : Inhabited Value := ⟨null⟩

/-! ### Kinds -/

inductive Kind where
  | null | boolean | integer | float | string | array | object
deriving DecidableEq

def Kind.name : Kind → String
  | null => "null"
  | boolean => "boolean"
  | integer => "integer"
  | float => "float"
  | string => "string"
  | array => "array"
  | object => "object"

def kind : Value → Kind
  | null => .null
  | boolean _ => .boolean
  | integer _ => .integer
  | float _ => .float
  | string _ => .string
  | array _ => .array
  | object _ => .object

def isNull (v : Value) : Bool :=
  v.kind = .null

def isArray (v : Value) : Bool :=
  v.kind = .array

def isObject (v : Value) : Bool :=
  v.kind = .object

/-- Whether a value has no parts: it is neither an array nor an object. -/
def isScalar (v : Value) : Bool :=
  !v.isArray && !v.isObject

def elements? : Value → Option (List Value)
  | array elements => some elements
  | _ => none

/-! ### Objects -/

/-- The object with the given fields; a key that comes more than once keeps its last value
(`Fields.lookup_ofList`). -/
def ofFields (fields : List (String × Value)) : Value :=
  object (Fields.ofList fields)

mutual

/-- No object in a value, at any depth, has a key twice. -/
def KeysDistinct : Value → Prop
  | array elements => ElementsKeysDistinct elements
  | object fields => (Fields.keys fields).Nodup ∧ FieldsKeysDistinct fields
  | _ => True

def ElementsKeysDistinct : List Value → Prop
  | [] => True
  | v :: rest => v.KeysDistinct ∧ ElementsKeysDistinct rest

def FieldsKeysDistinct : List (String × Value) → Prop
  | [] => True
  | (_, v) :: rest => v.KeysDistinct ∧ FieldsKeysDistinct rest

end

theorem fieldsKeysDistinct_iff (fields : List (String × Value)) :
    FieldsKeysDistinct fields ↔ ∀ field ∈ fields, field.2.KeysDistinct := by
  induction fields with
  | nil => simp [FieldsKeysDistinct]
  | cons field rest ih => simp [FieldsKeysDistinct, ih]

theorem elementsKeysDistinct_iff (elements : List Value) :
    ElementsKeysDistinct elements ↔ ∀ v ∈ elements, v.KeysDistinct := by
  induction elements with
  | nil => simp [ElementsKeysDistinct]
  | cons v rest ih => simp [ElementsKeysDistinct, ih]

/-- An object built from a list has no key twice, whichever keys the list repeats. -/
theorem keysDistinct_ofFields {fields : List (String × Value)}
    (h : ∀ field ∈ fields, field.2.KeysDistinct) : (ofFields fields).KeysDistinct := by
  rw [ofFields, KeysDistinct, fieldsKeysDistinct_iff]
  refine ⟨Fields.nodup_keys_ofList fields, fun field hfield => ?_⟩
  exact h field (Fields.mem_of_mem_ofList hfield)

end Value

end DocQuery
