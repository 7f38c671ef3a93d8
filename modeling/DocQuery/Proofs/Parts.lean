import DocQuery.Proofs.Fields
import DocQuery.Value.Json

/-!
# Parts of documents and of JSON trees

Documents and JSON trees nest arrays and objects.  A list of places leads from the whole to a part
(`Value.at?`, `Json.at?`), and what holds of a value as soon as it holds of its parts holds of every
value (`Value.induction`, `Json.induction`).

Two documents are alike (`Value.Alike`) when they have the same arrays, the same keys and the same
contents, bit for bit, at all places; only the order in which the fields of an object are listed may
differ.  It is the equality of documents that keeps NaNs and the two zeros apart, unlike `==`.
-/

namespace DocQuery

/-- The place of a part in an array or in an object. -/
inductive Place where
  | element (i : Nat)
  | field (key : String)

/-! ### Documents -/

namespace Value

/-- What holds of values without parts, and of arrays and objects whose parts it holds of, holds of
every value. -/
@[elab_as_elim, induction_eliminator]
theorem induction {motive : Value → Prop} (null : motive null)
    (boolean : ∀ b, motive (boolean b)) (integer : ∀ n, motive (integer n))
    (float : ∀ x, motive (float x)) (string : ∀ s, motive (string s))
    (array : ∀ elements, (∀ v ∈ elements, motive v) → motive (array elements))
    (object : ∀ fields, (∀ field ∈ fields, motive field.2) → motive (object fields))
    (v : Value) : motive v :=
  @Value.rec motive (fun elements => ∀ v ∈ elements, motive v)
    (fun fields => ∀ field ∈ fields, motive field.2) (fun field => motive field.2)
    null boolean integer float string array object
    (fun _ h => absurd h List.not_mem_nil)
    (fun _ _ hv hrest => List.forall_mem_cons.mpr ⟨hv, hrest⟩)
    (fun _ h => absurd h List.not_mem_nil)
    (fun _ _ hfield hrest => List.forall_mem_cons.mpr ⟨hfield, hrest⟩)
    (fun _ _ hv => hv) v

/-- The part of a value that some places lead to, the outermost place first. -/
def at? : Value → List Place → Option Value
  | v, [] => some v
  | array elements, .element i :: rest => elements[i]?.bind (·.at? rest)
  | object fields, .field key :: rest => (fields.lookup key).bind (·.at? rest)
  | _, _ :: _ => none

theorem at?_element {elements : List Value} {i : Nat} {v : Value} (h : elements[i]? = some v)
    (rest : List Place) : (array elements).at? (.element i :: rest) = v.at? rest := by
  rw [at?, h, Option.bind_some]

theorem at?_field {fields : List (String × Value)} {key : String} {v : Value}
    (h : fields.lookup key = some v) (rest : List Place) :
    (object fields).at? (.field key :: rest) = v.at? rest := by
  rw [at?, h, Option.bind_some]

/-- The parts of a document in which no object has a key twice are such documents. -/
theorem KeysDistinct.at? {v w : Value} (h : v.KeysDistinct) {path : List Place}
    (hw : v.at? path = some w) : w.KeysDistinct := by
  induction path generalizing v with
  | nil =>
    obtain rfl := Option.some.inj hw
    exact h
  | cons place rest ih =>
    cases v with
    | array elements =>
      cases place with
      | field key => cases hw
      | element i =>
        obtain ⟨x, hx, hw⟩ := Option.bind_eq_some_iff.mp hw
        rw [KeysDistinct, elementsKeysDistinct_iff] at h
        exact ih (h x (List.mem_of_getElem? hx)) hw
    | object fields =>
      cases place with
      | element i => cases hw
      | field key =>
        obtain ⟨x, hx, hw⟩ := Option.bind_eq_some_iff.mp hw
        rw [KeysDistinct, fieldsKeysDistinct_iff] at h
        exact ih (h.2 (key, x) (Fields.mem_of_lookup hx)) hw
    | _ => cases place <;> cases hw

/-- Two values are the same document: they have the same contents, bit for bit, at all places, but
the fields of their objects may be listed in different orders. -/
inductive Alike : Value → Value → Prop where
  | null : Alike null null
  | boolean (b : Bool) : Alike (boolean b) (boolean b)
  | integer (n : Int64) : Alike (integer n) (integer n)
  | float (x : Binary64) : Alike (float x) (float x)
  | string (s : String) : Alike (string s) (string s)
  | array {elements others : List Value} (length_eq : elements.length = others.length)
    (parts : ∀ (i : Nat) v w, elements[i]? = some v → others[i]? = some w → Alike v w) :
    Alike (array elements) (array others)
  | object {fields others : List (String × Value)}
    (mem_keys_iff : ∀ key, key ∈ Fields.keys fields ↔ key ∈ Fields.keys others)
    (parts : ∀ key v w, fields.lookup key = some v → others.lookup key = some w → Alike v w) :
    Alike (object fields) (object others)

namespace Alike

theorem trans {u v w : Value} (huv : u.Alike v) (hvw : v.Alike w) : u.Alike w := by
  induction huv generalizing w with
  | null | boolean | integer | float | string => exact hvw
  | @array elements others length_eq parts ih =>
    cases hvw with
    | @array _ last length_eq' parts' =>
      refine .array (length_eq.trans length_eq') fun i x z hx hz => ?_
      have hi : i < others.length := by
        rw [length_eq']
        exact (List.getElem?_eq_some_iff.mp hz).1
      have hy := List.getElem?_eq_getElem hi
      exact ih i x _ hx hy (parts' i _ z hy hz)
  | @object fields others mem_keys_iff parts ih =>
    cases hvw with
    | @object _ last mem_keys_iff' parts' =>
      refine .object (fun key => (mem_keys_iff key).trans (mem_keys_iff' key)) ?_
      intro key x z hx hz
      obtain ⟨y, hy⟩ := Fields.mem_keys_iff.mp
        ((mem_keys_iff key).mp (Fields.mem_keys_iff.mpr ⟨x, hx⟩))
      exact ih key x y hx hy (parts' key y z hy hz)

/-- Where a document has a part, one that is alike has a part that is alike. -/
theorem at? {u v : Value} (h : u.Alike v) {path : List Place} {w : Value}
    (hw : v.at? path = some w) : ∃ t, u.at? path = some t ∧ t.Alike w := by
  induction path generalizing u v with
  | nil =>
    obtain rfl := Option.some.inj hw
    exact ⟨u, rfl, h⟩
  | cons place rest ih =>
    cases h with
    | array length_eq parts =>
      cases place with
      | field key => cases hw
      | element i =>
        obtain ⟨y, hy, hw⟩ := Option.bind_eq_some_iff.mp hw
        have hi := (List.getElem?_eq_some_iff.mp hy).1
        rw [← length_eq] at hi
        have hx := List.getElem?_eq_getElem hi
        obtain ⟨t, ht, hlike⟩ := ih (parts i _ y hx hy) hw
        exact ⟨t, (at?_element hx rest).trans ht, hlike⟩
    | object mem_keys_iff parts =>
      cases place with
      | element i => cases hw
      | field key =>
        obtain ⟨y, hy, hw⟩ := Option.bind_eq_some_iff.mp hw
        obtain ⟨x, hx⟩ := Fields.mem_keys_iff.mp
          ((mem_keys_iff key).mpr (Fields.mem_keys_iff.mpr ⟨y, hy⟩))
        obtain ⟨t, ht, hlike⟩ := ih (parts key x y hx hy) hw
        exact ⟨t, (at?_field hx rest).trans ht, hlike⟩
    | null | boolean | integer | float | string => cases place <;> cases hw

end Alike

end Value

/-! ### JSON trees -/

namespace Json

/-- What holds of trees without parts, and of arrays and objects whose parts it holds of, holds of
every tree. -/
@[elab_as_elim, induction_eliminator]
theorem induction {motive : Json → Prop} (null : motive null)
    (boolean : ∀ b, motive (boolean b)) (number : ∀ n, motive (number n))
    (string : ∀ s, motive (string s))
    (array : ∀ elements, (∀ j ∈ elements, motive j) → motive (array elements))
    (object : ∀ fields, (∀ field ∈ fields, motive field.2) → motive (object fields))
    (j : Json) : motive j :=
  @Json.rec motive (fun elements => ∀ j ∈ elements, motive j)
    (fun fields => ∀ field ∈ fields, motive field.2) (fun field => motive field.2)
    null boolean number string array object
    (fun _ h => absurd h List.not_mem_nil)
    (fun _ _ hj hrest => List.forall_mem_cons.mpr ⟨hj, hrest⟩)
    (fun _ h => absurd h List.not_mem_nil)
    (fun _ _ hfield hrest => List.forall_mem_cons.mpr ⟨hfield, hrest⟩)
    (fun _ _ hj => hj) j

/-- The part of a tree that some places lead to, the outermost place first. -/
def at? : Json → List Place → Option Json
  | j, [] => some j
  | array elements, .element i :: rest => elements[i]?.bind (·.at? rest)
  | object fields, .field key :: rest => (fields.lookup key).bind (·.at? rest)
  | _, _ :: _ => none

theorem elementsKeysIncrease_iff (elements : List Json) :
    ElementsKeysIncrease elements ↔ ∀ j ∈ elements, j.KeysIncrease := by
  induction elements with
  | nil => simp [ElementsKeysIncrease]
  | cons j rest ih => simp [ElementsKeysIncrease, ih]

theorem fieldsKeysIncrease_iff (fields : List (String × Json)) :
    FieldsKeysIncrease fields ↔ ∀ field ∈ fields, field.2.KeysIncrease := by
  induction fields with
  | nil => simp [FieldsKeysIncrease]
  | cons field rest ih => simp [FieldsKeysIncrease, ih]

end Json

end DocQuery
