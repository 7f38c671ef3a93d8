import DocQuery.Proofs.Binary64.Rounding
import DocQuery.Proofs.Parts

/-!
# Documents through JSON and back

A document that is turned into a JSON tree and back has null in place of each number that is not
finite, at any depth, and is otherwise the same (`Value.alike_ofJson_toJson`).  So the way there and
back is a normal form (`Value.json_normal_form`): it is the identity on the documents without NaNs
and infinities, among them every document that comes from JSON, and doing it twice is doing it once.

The other way round, from a tree to a document and back, changes natural numbers that are no
integers of 64 bits, as these become binary64 numbers, and nothing else
(`Value.toJson_ofJson_eq_iff`).  No number becomes null on that way (`Value.ofNumber_ne_null`).

Everything is said of the parts that places lead to, since both conversions go place by place
(`Value.at?_ofJson`, `Value.at?_toJson`).
-/

namespace DocQuery

namespace Value

/-! ### Documents without the numbers that are not finite -/

mutual

/-- A value with null in place of each number that is not finite, at any depth. -/
def finitePart : Value → Value
  | float x => if x.isFinite then float x else null
  | array elements => array (elementsFinitePart elements)
  | object fields => object (fieldsFinitePart fields)
  | v => v

def elementsFinitePart : List Value → List Value
  | [] => []
  | v :: rest => v.finitePart :: elementsFinitePart rest

def fieldsFinitePart : List (String × Value) → List (String × Value)
  | [] => []
  | (key, v) :: rest => (key, v.finitePart) :: fieldsFinitePart rest

end

/-- No number in a value, at any depth, is a NaN or an infinity. -/
def AllFinite (v : Value) : Prop :=
  ∀ path x, v.at? path = some (float x) → x.isFinite = true

theorem elementsFinitePart_eq_map (elements : List Value) :
    elementsFinitePart elements = elements.map finitePart := by
  induction elements with
  | nil => rfl
  | cons v rest ih => rw [elementsFinitePart, ih, List.map_cons]

theorem fieldsFinitePart_eq_map (fields : List (String × Value)) :
    fieldsFinitePart fields = fields.map fun field => (field.1, field.2.finitePart) := by
  induction fields with
  | nil => rfl
  | cons field rest ih => rw [fieldsFinitePart, ih, List.map_cons]

theorem AllFinite.element {elements : List Value} (h : (array elements).AllFinite) {i : Nat}
    {v : Value} (hv : elements[i]? = some v) : v.AllFinite := by
  intro path x hx
  exact h (.element i :: path) x ((at?_element hv path).trans hx)

theorem AllFinite.field {fields : List (String × Value)} (h : (object fields).AllFinite)
    {key : String} {v : Value} (hv : fields.lookup key = some v) : v.AllFinite := by
  intro path x hx
  exact h (.field key :: path) x ((at?_field hv path).trans hx)

theorem AllFinite.of_alike {u v : Value} (h : u.AllFinite) (halike : u.Alike v) : v.AllFinite := by
  intro path x hx
  obtain ⟨t, ht, hlike⟩ := halike.at? hx
  cases hlike
  exact h path x ht

/-- A document without NaNs and infinities is its finite part. -/
theorem AllFinite.finitePart_alike {v : Value} (h : v.AllFinite) : v.finitePart.Alike v := by
  induction v with
  | null => exact .null
  | boolean b => exact .boolean b
  | integer n => exact .integer n
  | float x =>
    rw [finitePart, if_pos (h [] x rfl)]
    exact .float x
  | string s => exact .string s
  | array elements ih =>
    rw [finitePart, elementsFinitePart_eq_map]
    refine .array (List.length_map _) fun i v w hv hw => ?_
    rw [List.getElem?_map, hw, Option.map_some] at hv
    obtain rfl := Option.some.inj hv
    exact ih w (List.mem_of_getElem? hw) (h.element hw)
  | object fields ih =>
    rw [finitePart, fieldsFinitePart_eq_map]
    refine .object (fun key => by simp [Fields.keys]) fun key v w hv hw => ?_
    rw [Fields.lookup_map, hw, Option.map_some] at hv
    obtain rfl := Option.some.inj hv
    exact ih (key, w) (Fields.mem_of_lookup hw) (h.field hw)

/-! ### Numbers -/

/-- A number of 64 bits with the sign bit clear is the same as an integer of 64 bits. -/
theorem ofInt64_toInt64 {n : UInt64} (h : n.toNat < 0x8000000000000000) :
    Json.Number.ofInt64 n.toInt64 = .natural n := by
  have hword : n.toInt64.toInt = n.toNat := by
    rw [Int64.toInt, UInt64.toBitVec_toInt64, BitVec.toInt_eq_toNat_of_lt, UInt64.toNat_toBitVec]
    rw [UInt64.toNat_toBitVec]
    omega
  have hnonneg : ¬ n.toInt64 < 0 := by
    rw [Int64.lt_iff_toInt_lt, Int64.toInt_zero, hword]
    omega
  rw [Json.Number.ofInt64, dif_neg hnonneg, UInt64.toUInt64_toInt64]

theorem toInt64?_ofInt64 (n : Int64) : (Json.Number.ofInt64 n).toInt64? = some n := by
  unfold Json.Number.ofInt64
  split
  · rfl
  · next hnonneg =>
    have hnat := Int64.toNat_toUInt64_of_le (Int64.not_lt.mp hnonneg)
    have hlt : n.toUInt64.toNat < 0x8000000000000000 := by
      rw [hnat, Int64.toNatClampNeg]
      have hbound := n.toInt_lt
      omega
    rw [Json.Number.toInt64?, if_pos hlt, Int64.toInt64_toUInt64]

theorem ofNumber_ofInt64 (n : Int64) : ofNumber (Json.Number.ofInt64 n) = integer n := by
  rw [ofNumber, toInt64?_ofInt64]

theorem floatToJson_of_isFinite {x : Binary64} (h : x.isFinite = true) :
    floatToJson x = .number (.real x h) := by
  rw [floatToJson, Json.Number.ofBinary64?, dif_pos h]

theorem floatToJson_of_not_isFinite {x : Binary64} (h : ¬ x.isFinite = true) :
    floatToJson x = .null := by
  rw [floatToJson, Json.Number.ofBinary64?, dif_neg h]

theorem floatToJson_cases (x : Binary64) :
    (∃ h, floatToJson x = .number (.real x h)) ∨ floatToJson x = .null := by
  by_cases h : x.isFinite = true
  · exact Or.inl ⟨h, floatToJson_of_isFinite h⟩
  · exact Or.inr (floatToJson_of_not_isFinite h)

/-- Every JSON number has a binary64 number, and that is finite. -/
theorem exists_toBinary64? (n : Json.Number) :
    ∃ x, x.isFinite = true ∧ n.toBinary64? = some x := by
  cases n with
  | natural n => exact ⟨_, Binary64.isFinite_ofInt (n := n.toNat) n.toNat_lt, rfl⟩
  | negative i _ =>
    have hlow := i.le_toInt
    have hhigh := i.toInt_lt
    exact ⟨_, Binary64.isFinite_ofInt (n := i.toInt) (by omega), rfl⟩
  | real x hx => exact ⟨x, hx, rfl⟩

/-- A number of a document that comes from JSON is an integer, or it is finite. -/
theorem ofNumber_cases (n : Json.Number) :
    (∃ i, ofNumber n = integer i) ∨ ∃ x, x.isFinite = true ∧ ofNumber n = float x := by
  rw [ofNumber]
  cases n.toInt64? with
  | some i => exact Or.inl ⟨i, rfl⟩
  | none =>
    obtain ⟨x, hx, hn⟩ := exists_toBinary64? n
    refine Or.inr ⟨x, hx, ?_⟩
    simp only [hn, Option.map_some, Option.getD_some]

/-- No number from JSON becomes null: the binary64 number that is asked for is always there. -/
theorem ofNumber_ne_null (n : Json.Number) : ofNumber n ≠ null := by
  intro h
  rcases ofNumber_cases n with ⟨i, hn⟩ | ⟨x, -, hn⟩ <;> cases hn.symm.trans h

/-- Only a natural number that is no integer of 64 bits is changed on the way through a document. -/
theorem toJson_ofNumber_eq_iff {n : Json.Number} :
    (ofNumber n).toJson = .number n ↔
      ∀ k, n = .natural k → k.toNat < 0x8000000000000000 := by
  cases n with
  | natural k =>
    by_cases hlt : k.toNat < 0x8000000000000000
    · simp only [ofNumber, Json.Number.toInt64?, if_pos hlt, toJson, ofInt64_toInt64 hlt,
        Json.Number.natural.injEq, true_iff]
      rintro _ rfl
      exact hlt
    · have hfinite := Binary64.isFinite_ofInt (n := k.toNat) k.toNat_lt
      simp only [ofNumber, Json.Number.toInt64?, if_neg hlt, Json.Number.toBinary64?,
        Option.map_some, Option.getD_some, toJson, floatToJson_of_isFinite hfinite]
      simp [hlt]
  | negative i hi =>
    simp only [ofNumber, Json.Number.toInt64?, toJson, Json.Number.ofInt64, dif_pos hi]
    simp
  | real x hx =>
    simp only [ofNumber, Json.Number.toInt64?, Json.Number.toBinary64?, Option.map_some,
      Option.getD_some, toJson, floatToJson_of_isFinite hx]
    simp

/-! ### Conversion place by place -/

theorem elementsOfJson_eq_map (elements : List Json) :
    elementsOfJson elements = elements.map ofJson := by
  induction elements with
  | nil => rfl
  | cons j rest ih => rw [elementsOfJson, ih, List.map_cons]

theorem fieldsOfJson_eq_map (fields : List (String × Json)) :
    fieldsOfJson fields = fields.map fun field => (field.1, ofJson field.2) := by
  induction fields with
  | nil => rfl
  | cons field rest ih => rw [fieldsOfJson, ih, List.map_cons]

theorem elementsToJson_eq_map (elements : List Value) :
    elementsToJson elements = elements.map toJson := by
  induction elements with
  | nil => rfl
  | cons v rest ih => rw [elementsToJson, ih, List.map_cons]

theorem lookup_fieldsToJson (key : String) (fields : List (String × Value)) :
    (fieldsToJson fields).lookup key = (fields.lookup key).map toJson := by
  induction fields with
  | nil => rfl
  | cons field rest ih =>
    rw [fieldsToJson, Fields.lookup_insert, Fields.lookup_cons, ih]
    split <;> rfl

theorem pairwise_keys_fieldsToJson (fields : List (String × Value)) :
    (Fields.keys (fieldsToJson fields)).Pairwise (· < ·) := by
  induction fields with
  | nil => exact List.Pairwise.nil
  | cons field rest ih => exact Fields.pairwise_keys_insert field.1 field.2.toJson ih

/-- Fields whose keys increase keep their order in JSON. -/
theorem fieldsToJson_eq_map {fields : List (String × Value)}
    (h : (Fields.keys fields).Pairwise (· < ·)) :
    fieldsToJson fields = fields.map fun field => (field.1, field.2.toJson) := by
  induction fields with
  | nil => rfl
  | cons field rest ih =>
    rw [Fields.keys_cons, List.pairwise_cons] at h
    rw [fieldsToJson, ih h.2, List.map_cons, Fields.insert_eq_cons]
    rw [Fields.keys_map]
    exact h.1

/-- The part of a document at some places comes from the part of the tree that is there. -/
theorem at?_ofJson (j : Json) (path : List Place) :
    (ofJson j).at? path = (j.at? path).map ofJson := by
  induction path generalizing j with
  | nil => rfl
  | cons place rest ih =>
    cases j with
    | array elements =>
      cases place with
      | element i =>
        rw [ofJson, elementsOfJson_eq_map, at?, Json.at?, List.getElem?_map]
        cases elements[i]? with
        | none => rfl
        | some j => exact ih j
      | field key => rfl
    | object fields =>
      cases place with
      | element i => rfl
      | field key =>
        rw [ofJson, fieldsOfJson_eq_map, at?, Json.at?, Fields.lookup_map]
        cases fields.lookup key with
        | none => rfl
        | some j => exact ih j
    | number n =>
      rcases ofNumber_cases n with ⟨i, hn⟩ | ⟨x, -, hn⟩ <;> cases place <;> rw [ofJson, hn] <;> rfl
    | null | boolean | string => cases place <;> rfl

/-- The part of a tree at some places comes from the part of the document that is there. -/
theorem at?_toJson (v : Value) (path : List Place) :
    v.toJson.at? path = (v.at? path).map toJson := by
  induction path generalizing v with
  | nil => rfl
  | cons place rest ih =>
    cases v with
    | array elements =>
      cases place with
      | element i =>
        rw [toJson, elementsToJson_eq_map, at?, Json.at?, List.getElem?_map]
        cases elements[i]? with
        | none => rfl
        | some v => exact ih v
      | field key => rfl
    | object fields =>
      cases place with
      | element i => rfl
      | field key =>
        rw [toJson, at?, Json.at?, lookup_fieldsToJson]
        cases fields.lookup key with
        | none => rfl
        | some v => exact ih v
    | float x =>
      rw [toJson]
      rcases floatToJson_cases x with ⟨_, hjson⟩ | hjson <;> rw [hjson] <;> cases place <;> rfl
    | null | boolean | integer | string => cases place <;> rfl

/-! ### Trees that come from documents -/

theorem keysIncrease_toJson (v : Value) : v.toJson.KeysIncrease := by
  induction v with
  | float x =>
    rw [toJson]
    rcases floatToJson_cases x with ⟨_, hjson⟩ | hjson <;> rw [hjson] <;> trivial
  | array elements ih =>
    rw [toJson, Json.KeysIncrease, elementsToJson_eq_map, Json.elementsKeysIncrease_iff]
    intro j hj
    obtain ⟨v, hv, rfl⟩ := List.mem_map.mp hj
    exact ih v hv
  | object fields ih =>
    rw [toJson, Json.KeysIncrease, Json.fieldsKeysIncrease_iff]
    refine ⟨pairwise_keys_fieldsToJson fields, ?_⟩
    induction fields with
    | nil => exact fun field h => absurd h List.not_mem_nil
    | cons first rest ihrest =>
      intro field hfield
      rcases Fields.mem_of_mem_insert hfield with rfl | hfield
      · exact ih first List.mem_cons_self
      · exact ihrest (fun field h => ih field (List.mem_cons_of_mem first h)) field hfield
  | null | boolean | integer | string => trivial

/-- Objects that come from JSON have no key twice. -/
theorem keysDistinct_ofJson {j : Json} (h : j.KeysIncrease) : (ofJson j).KeysDistinct := by
  induction j with
  | number n =>
    rw [ofJson]
    rcases ofNumber_cases n with ⟨i, hn⟩ | ⟨x, -, hn⟩ <;> rw [hn] <;> trivial
  | array elements ih =>
    rw [Json.KeysIncrease, Json.elementsKeysIncrease_iff] at h
    rw [ofJson, KeysDistinct, elementsOfJson_eq_map, elementsKeysDistinct_iff]
    intro v hv
    obtain ⟨j, hj, rfl⟩ := List.mem_map.mp hv
    exact ih j hj (h j hj)
  | object fields ih =>
    rw [Json.KeysIncrease, Json.fieldsKeysIncrease_iff] at h
    rw [ofJson, KeysDistinct, fieldsOfJson_eq_map, fieldsKeysDistinct_iff]
    constructor
    · rw [Fields.keys_map]
      exact h.1.imp String.ne_of_lt
    · intro field hfield
      obtain ⟨source, hsource, rfl⟩ := List.mem_map.mp hfield
      exact ih source hsource (h.2 source hsource)
  | null | boolean | string => trivial

theorem allFinite_ofJson (j : Json) : (ofJson j).AllFinite := by
  intro path x hx
  rw [at?_ofJson] at hx
  obtain ⟨part, -, hpart⟩ := Option.map_eq_some_iff.mp hx
  cases part with
  | number n =>
    rw [ofJson] at hpart
    rcases ofNumber_cases n with ⟨i, hn⟩ | ⟨y, hy, hn⟩ <;> rw [hn] at hpart
    · cases hpart
    · cases hpart
      exact hy
  | null | boolean | string | array | object => cases hpart

theorem ofJson_eq_null_iff {j : Json} : ofJson j = null ↔ j = .null := by
  cases j with
  | null => simp [ofJson]
  | number n => simp [ofJson, ofNumber_ne_null n]
  | boolean | string | array | object => simp [ofJson]

/-- A document that comes from JSON has null just where the tree has. -/
theorem at?_ofJson_eq_null_iff (j : Json) (path : List Place) :
    (ofJson j).at? path = some null ↔ j.at? path = some .null := by
  rw [at?_ofJson]
  cases j.at? path with
  | none => simp
  | some part => simp [ofJson_eq_null_iff]

/-! ### There and back -/

/-- A document that was turned into JSON and back is its finite part. -/
theorem alike_ofJson_toJson (v : Value) : (ofJson v.toJson).Alike v.finitePart := by
  induction v with
  | null => exact .null
  | boolean b => exact .boolean b
  | integer n =>
    rw [toJson, ofJson, ofNumber_ofInt64]
    exact .integer n
  | float x =>
    rw [toJson, finitePart]
    by_cases hx : x.isFinite = true
    · rw [floatToJson_of_isFinite hx, if_pos hx]
      exact .float x
    · rw [floatToJson_of_not_isFinite hx, if_neg hx]
      exact .null
  | string s => exact .string s
  | array elements ih =>
    rw [toJson, ofJson, finitePart, elementsToJson_eq_map, elementsOfJson_eq_map,
      elementsFinitePart_eq_map, List.map_map]
    refine .array (by simp) fun i v w hv hw => ?_
    rw [List.getElem?_map, Option.map_eq_some_iff] at hv hw
    obtain ⟨element, helement, rfl⟩ := hv
    obtain ⟨other, hother, rfl⟩ := hw
    obtain rfl := Option.some.inj (helement.symm.trans hother)
    exact ih element (List.mem_of_getElem? helement)
  | object fields ih =>
    rw [toJson, ofJson, finitePart, fieldsOfJson_eq_map, fieldsFinitePart_eq_map]
    have hleft (key : String) : List.lookup key ((fieldsToJson fields).map
        fun field => (field.1, ofJson field.2)) =
          (fields.lookup key).map fun v => ofJson v.toJson := by
      rw [Fields.lookup_map, lookup_fieldsToJson, Option.map_map]
      rfl
    refine .object (fun key => ?_) fun key v w hv hw => ?_
    · simp only [Fields.mem_keys_iff, hleft, Fields.lookup_map, Option.map_eq_some_iff]
      cases fields.lookup key <;> simp
    · rw [hleft, Option.map_eq_some_iff] at hv
      rw [Fields.lookup_map, Option.map_eq_some_iff] at hw
      obtain ⟨value, hvalue, rfl⟩ := hv
      obtain ⟨other, hother, rfl⟩ := hw
      obtain rfl := Option.some.inj (hvalue.symm.trans hother)
      exact ih (key, value) (Fields.mem_of_lookup hvalue)

/-- A tree in which each natural number is an integer of 64 bits is not changed on the way through a
document. -/
theorem toJson_ofJson {j : Json} (h : j.KeysIncrease)
    (hfit : ∀ path n, j.at? path = some (.number (.natural n)) → n.toNat < 0x8000000000000000) :
    (ofJson j).toJson = j := by
  induction j with
  | null => rfl
  | boolean b => rfl
  | string s => rfl
  | number n =>
    exact toJson_ofNumber_eq_iff.mpr fun k hk => hfit [] k (by rw [hk]; rfl)
  | array elements ih =>
    rw [Json.KeysIncrease, Json.elementsKeysIncrease_iff] at h
    rw [ofJson, toJson, elementsOfJson_eq_map, elementsToJson_eq_map, List.map_map]
    congr 1
    refine (List.map_congr_left fun j hj => ?_).trans (List.map_id elements)
    obtain ⟨i, hi⟩ := List.mem_iff_getElem?.mp hj
    refine ih j hj (h j hj) fun path n hn => hfit (.element i :: path) n ?_
    rw [Json.at?, hi, Option.bind_some, hn]
  | object fields ih =>
    rw [Json.KeysIncrease, Json.fieldsKeysIncrease_iff] at h
    rw [ofJson, toJson, fieldsOfJson_eq_map, fieldsToJson_eq_map (by rw [Fields.keys_map]; exact h.1),
      List.map_map]
    congr 1
    refine (List.map_congr_left fun field hfield => ?_).trans (List.map_id fields)
    have hlookup := Fields.lookup_of_mem (h.1.imp String.ne_of_lt) hfield
    have hpart := ih field hfield (h.2 field hfield) fun path n hn =>
      hfit (.field field.1 :: path) n (by rw [Json.at?, hlookup, Option.bind_some, hn])
    rw [Function.comp, hpart, id]

/-- A document that comes from JSON is not changed on the way through JSON. -/
theorem ofJson_toJson_ofJson {j : Json} (h : j.KeysIncrease) :
    ofJson (ofJson j).toJson = ofJson j := by
  induction j with
  | null => rfl
  | boolean b => rfl
  | string s => rfl
  | number n =>
    rw [ofJson]
    rcases ofNumber_cases n with ⟨i, hn⟩ | ⟨x, hx, hn⟩
    · rw [hn, toJson, ofJson, ofNumber_ofInt64]
    · rw [hn, toJson, floatToJson_of_isFinite hx]
      rfl
  | array elements ih =>
    rw [Json.KeysIncrease, Json.elementsKeysIncrease_iff] at h
    simp only [ofJson, toJson, elementsOfJson_eq_map, elementsToJson_eq_map, List.map_map]
    congr 1
    exact List.map_congr_left fun j hj => ih j hj (h j hj)
  | object fields ih =>
    rw [Json.KeysIncrease, Json.fieldsKeysIncrease_iff] at h
    simp only [ofJson, toJson, fieldsOfJson_eq_map]
    rw [fieldsToJson_eq_map (by rw [Fields.keys_map]; exact h.1), List.map_map, List.map_map]
    congr 1
    refine List.map_congr_left fun field hfield => ?_
    simp only [Function.comp, ih field hfield (h.2 field hfield)]

/-- A tree that comes from a document has no natural number beyond the integers of 64 bits. -/
theorem toNat_lt_of_at?_toJson {v : Value} {path : List Place} {n : UInt64}
    (h : v.toJson.at? path = some (.number (.natural n))) : n.toNat < 0x8000000000000000 := by
  rw [at?_toJson, Option.map_eq_some_iff] at h
  obtain ⟨part, -, hpart⟩ := h
  cases part with
  | integer i =>
    rw [toJson, Json.number.injEq] at hpart
    -- the tree of an integer is the integer again
    have hfit := toJson_ofNumber_eq_iff.mp (congrArg toJson (ofNumber_ofInt64 i))
    exact hfit n hpart
  | float x =>
    rw [toJson] at hpart
    rcases floatToJson_cases x with ⟨hx, hjson⟩ | hjson <;> rw [hjson] at hpart <;> cases hpart
  | null | boolean | string | array | object => cases hpart

/-- Turning a document into JSON and back does not change its JSON. -/
theorem toJson_ofJson_toJson (v : Value) : (ofJson v.toJson).toJson = v.toJson :=
  toJson_ofJson (keysIncrease_toJson v) fun _ _ h => toNat_lt_of_at?_toJson h

/-! ### Main results -/

/-- **The way to JSON and back is a normal form.**  It replaces the numbers of a document that are
not finite by null and changes nothing else, so it is the identity just on the documents without such
numbers, and doing it twice is doing it once.  What comes from JSON is such a document, has null only
where the tree has it, and comes back unchanged. -/
theorem json_normal_form :
    (∀ v : Value, (ofJson v.toJson).KeysDistinct ∧ (ofJson v.toJson).Alike v.finitePart ∧
      ((ofJson v.toJson).Alike v ↔ v.AllFinite) ∧
      ofJson (ofJson v.toJson).toJson = ofJson v.toJson) ∧
    (∀ j : Json, (ofJson j).AllFinite ∧
      (∀ path, (ofJson j).at? path = some null ↔ j.at? path = some .null) ∧
      (j.KeysIncrease → ofJson (ofJson j).toJson = ofJson j)) := by
  constructor
  · intro v
    have halike := alike_ofJson_toJson v
    refine ⟨keysDistinct_ofJson (keysIncrease_toJson v), halike, ⟨fun h => ?_, fun h => ?_⟩, ?_⟩
    · exact (allFinite_ofJson v.toJson).of_alike h
    · exact halike.trans h.finitePart_alike
    · rw [toJson_ofJson_toJson]
  · intro j
    exact ⟨allFinite_ofJson j, at?_ofJson_eq_null_iff j, ofJson_toJson_ofJson⟩

/-- A NaN in an array becomes null; a natural number that is no integer of 64 bits is a finite number
of the document, which comes back as it is. -/
theorem json_normal_form_nested :
    let v := array [float Binary64.nan, integer 1]
    let j := Json.object [("a", .number (.natural 9223372036854775809)), ("b", .array [.null])]
    (ofJson v.toJson).Alike (array [null, integer 1]) ∧ ¬ (ofJson v.toJson).Alike v ∧
    j.KeysIncrease ∧ ofJson (ofJson j).toJson = ofJson j ∧
      (ofJson j).at? [.field "b", .element 0] = some null := by
  intro v j
  obtain ⟨-, halike, hidentity, -⟩ := json_normal_form.1 v
  obtain ⟨-, hnull, htwice⟩ := json_normal_form.2 j
  have hnan : Binary64.nan.isFinite = false := by decide +kernel
  have hkeys : j.KeysIncrease := by
    simp only [j, Json.KeysIncrease, Json.FieldsKeysIncrease, Json.ElementsKeysIncrease, Fields.keys]
    decide
  refine ⟨?_, fun h => ?_, hkeys, htwice hkeys, (hnull _).mpr rfl⟩
  · simpa only [v, finitePart, elementsFinitePart, hnan, Bool.false_eq_true, if_false] using halike
  · have hfinite := hidentity.mp h [.element 0] Binary64.nan rfl
    rw [hnan] at hfinite
    cases hfinite

/-- **From JSON and back.**  A tree comes back from a document just when each of its natural numbers
is an integer of 64 bits. -/
theorem toJson_ofJson_eq_iff {j : Json} (h : j.KeysIncrease) :
    (ofJson j).toJson = j ↔
      ∀ path n, j.at? path = some (.number (.natural n)) → n.toNat < 0x8000000000000000 := by
  constructor
  · intro heq path n hn
    rw [← heq] at hn
    exact toNat_lt_of_at?_toJson hn
  · exact toJson_ofJson h

/-- The greatest integer of 64 bits comes back, and the natural number behind it does not. -/
theorem toJson_ofJson_eq_iff_greatest :
    let greatest := Json.number (.natural 9223372036854775807)
    let behind := Json.array [.number (.natural 9223372036854775808)]
    greatest.KeysIncrease ∧ (ofJson greatest).toJson = greatest ∧
      behind.KeysIncrease ∧ (ofJson behind).toJson ≠ behind := by
  intro greatest behind
  have hgreatest : greatest.KeysIncrease := trivial
  have hbehind : behind.KeysIncrease := ⟨trivial, trivial⟩
  refine ⟨hgreatest, (toJson_ofJson_eq_iff hgreatest).mpr ?_, hbehind, fun h => ?_⟩
  · rintro (_ | ⟨place, rest⟩) n hn
    · obtain rfl := Json.Number.natural.inj (Json.number.inj (Option.some.inj hn))
      decide
    · cases place <;> cases hn
  · exact absurd ((toJson_ofJson_eq_iff hbehind).mp h [.element 0] _ rfl) (by decide)

/-- The natural number `2 ^ 63 + 1` becomes the binary64 number `2 ^ 63`, and so it does not come
back. -/
theorem toJson_ofJson_natural_ne :
    let j := Json.number (.natural 9223372036854775809)
    ofJson j = float ⟨0x43E0000000000000⟩ ∧ (ofJson j).toJson ≠ j := by
  intro j
  have hrounded : Binary64.ofInt 9223372036854775809 = ⟨0x43E0000000000000⟩ := by decide +kernel
  refine ⟨congrArg float hrounded, fun h => ?_⟩
  rw [ofJson] at h
  have hlt := toJson_ofNumber_eq_iff.mp h 9223372036854775809 rfl
  exact absurd hlt (by decide +kernel)

end Value

end DocQuery
