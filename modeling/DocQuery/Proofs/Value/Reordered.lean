import DocQuery.Proofs.Json.Text
import DocQuery.Proofs.Value.Json

/-!
# The order of the fields

The fields of an object may be listed in any order, at every depth (`Value.Reordered`), and no JSON
text depends on it (`Value.texts_of_reordered`).  A document in another order is alike
(`Value.Reordered.alike`), and documents that are alike have one JSON tree (`Value.Alike.toJson_eq`):
its objects have their keys in increasing order, and fields in this order are known from what the
keys stand for (`Fields.ext_of_pairwise`).

The texts spell the tokens of this tree, in its order, so what the tree lists is what a reader of the
text comes across.
-/

namespace DocQuery

namespace Value

/-! ### Other orders -/

/-- A document in another order: the fields of each of its objects, at every depth, are listed in
some order, and all else is as it was. -/
inductive Reordered : Value → Value → Prop where
  | null : Reordered null null
  | boolean (b : Bool) : Reordered (boolean b) (boolean b)
  | integer (n : Int64) : Reordered (integer n) (integer n)
  | float (x : Binary64) : Reordered (float x) (float x)
  | string (s : String) : Reordered (string s) (string s)
  | array {elements others : List Value} (length_eq : elements.length = others.length)
    (parts : ∀ (i : Nat) v w, elements[i]? = some v → others[i]? = some w → Reordered v w) :
    Reordered (array elements) (array others)
  /-- The fields are listed in another order, and then each value is put in another order. -/
  | object {fields listed others : List (String × Value)} (perm : fields.Perm listed)
    (keys_eq : Fields.keys listed = Fields.keys others)
    (parts : ∀ (i : Nat) key v w, listed[i]? = some (key, v) → others[i]? = some (key, w) →
      Reordered v w) :
    Reordered (object fields) (object others)

/-- A document in another order is the same document. -/
theorem Reordered.alike {u v : Value} (h : u.Reordered v) (hkeys : u.KeysDistinct) :
    u.Alike v := by
  induction h with
  | null => exact .null
  | boolean b => exact .boolean b
  | integer n => exact .integer n
  | float x => exact .float x
  | string s => exact .string s
  | @array elements others length_eq parts ih =>
    rw [KeysDistinct, elementsKeysDistinct_iff] at hkeys
    refine .array length_eq fun i v w hv hw => ?_
    exact ih i v w hv hw (hkeys v (List.mem_of_getElem? hv))
  | @object fields listed others perm keys_eq parts ih =>
    rw [KeysDistinct, fieldsKeysDistinct_iff] at hkeys
    have hperm : (Fields.keys fields).Perm (Fields.keys others) := keys_eq ▸ perm.map Prod.fst
    refine .object (fun key => hperm.mem_iff) fun key v w hv hw => ?_
    -- the key is at the same place in both lists, and what it stands for there is `v` and `w`
    obtain ⟨i, hi⟩ := List.mem_iff_getElem?.mp (Fields.mem_of_lookup hw)
    have hkey : (Fields.keys listed)[i]? = some key := by
      rw [keys_eq, Fields.keys, List.getElem?_map, hi, Option.map_some]
    rw [Fields.keys, List.getElem?_map, Option.map_eq_some_iff] at hkey
    obtain ⟨⟨key', x⟩, hx, rfl⟩ := hkey
    have hmem := perm.mem_iff.mpr (List.mem_of_getElem? hx)
    obtain rfl := Option.some.inj (hv.symm.trans (Fields.lookup_of_mem hkeys.1 hmem))
    exact ih i key' v w hx hi (hkeys.2 (key', v) hmem)

/-! ### The tree of a document -/

/-- The same document has the same JSON tree, in whatever order its fields are listed. -/
theorem Alike.toJson_eq {u v : Value} (h : u.Alike v) : u.toJson = v.toJson := by
  induction h with
  | null | boolean | integer | float | string => rfl
  | @array elements others length_eq parts ih =>
    rw [toJson, toJson, elementsToJson_eq_map, elementsToJson_eq_map]
    congr 1
    apply List.ext_getElem (by simpa using length_eq)
    intro i hi hi'
    rw [List.length_map] at hi hi'
    rw [List.getElem_map, List.getElem_map]
    exact ih i _ _ (List.getElem?_eq_getElem hi) (List.getElem?_eq_getElem hi')
  | @object fields others mem_keys_iff parts ih =>
    rw [toJson, toJson]
    congr 1
    apply Fields.ext_of_pairwise (pairwise_keys_fieldsToJson fields)
      (pairwise_keys_fieldsToJson others)
    intro key
    rw [lookup_fieldsToJson, lookup_fieldsToJson]
    have hfound := mem_keys_iff key
    rw [Fields.mem_keys_iff, Fields.mem_keys_iff] at hfound
    cases hv : fields.lookup key with
    | none =>
      cases hw : others.lookup key with
      | none => rfl
      | some w =>
        obtain ⟨v, hv'⟩ := hfound.mpr ⟨w, hw⟩
        cases hv.symm.trans hv'
    | some v =>
      obtain ⟨w, hw⟩ := hfound.mp ⟨v, hv⟩
      rw [hw, Option.map_some, Option.map_some, ih key v w hv hw]

/-- The keys of an object are those of its JSON tree, in another order. -/
theorem keys_fieldsToJson_perm {fields : List (String × Value)}
    (h : (Fields.keys fields).Nodup) :
    (Fields.keys (fieldsToJson fields)).Perm (Fields.keys fields) := by
  have hnodup := (pairwise_keys_fieldsToJson fields).imp String.ne_of_lt
  rw [List.perm_ext_iff_of_nodup hnodup h]
  intro key
  simp only [Fields.mem_keys_iff, lookup_fieldsToJson, Option.map_eq_some_iff]
  constructor
  · rintro ⟨j, v, hv, -⟩
    exact ⟨v, hv⟩
  · rintro ⟨v, hv⟩
    exact ⟨v.toJson, v, hv, rfl⟩

theorem exists_object_of_toJson {v : Value} {listed : List (String × Json)}
    (h : v.toJson = .object listed) : ∃ fields, v = object fields ∧ listed = fieldsToJson fields := by
  cases v with
  | object fields => exact ⟨fields, rfl, (Json.object.inj h).symm⟩
  | float x =>
    rw [toJson] at h
    rcases floatToJson_cases x with ⟨_, hjson⟩ | hjson <;> rw [hjson] at h <;> cases h
  | null | boolean | integer | string | array => cases h

/-! ### The texts of a document -/

/-- **The order of the fields does not show.**  A document whose fields are listed in another order,
at any depth, has the same texts.  These spell the tokens of one tree, which has an object just where
the document has, and in each of them every key of the object stands once, in increasing order of
code points. -/
theorem texts_of_reordered {u v : Value} (hkeys : u.KeysDistinct) (h : u.Reordered v) :
    u.compact = v.compact ∧ u.indented = v.indented ∧
    ∃ tree : Json,
      Json.Token.scan? u.compact.toList = some tree.tokens ∧
      Json.Token.scan? u.indented.toList = some tree.tokens ∧
      (∀ path fields, u.at? path = some (object fields) →
        ∃ listed, tree.at? path = some (.object listed)) ∧
      (∀ path listed, tree.at? path = some (.object listed) →
        ∃ fields, u.at? path = some (object fields) ∧
          (Fields.keys listed).Perm (Fields.keys fields) ∧
          (Fields.keys listed).Pairwise fun key next =>
            key.toList.map Char.toNat < next.toList.map Char.toNat) := by
  have htree : u.toJson = v.toJson := (h.alike hkeys).toJson_eq
  have happart := u.toJson.wordsApart_tokens
  refine ⟨by rw [compact, htree, compact], by rw [indented, htree, indented], u.toJson, ?_, ?_, ?_,
    ?_⟩
  · rw [compact, Json.compact, String.toList_ofList]
    exact Json.Token.scan?_of_spells (Json.spells_flatMap_text happart)
  · rw [indented, Json.indented, String.toList_ofList]
    exact Json.Token.scan?_of_spells (Json.spells_spaced 0 happart)
  · intro path fields hfields
    exact ⟨fieldsToJson fields, by rw [at?_toJson, hfields]; rfl⟩
  · intro path listed hlisted
    rw [at?_toJson, Option.map_eq_some_iff] at hlisted
    obtain ⟨part, hpart, hjson⟩ := hlisted
    obtain ⟨fields, rfl, rfl⟩ := exists_object_of_toJson hjson
    refine ⟨fields, hpart, keys_fieldsToJson_perm (hkeys.at? hpart).1, ?_⟩
    exact (pairwise_keys_fieldsToJson fields).imp Fields.codePoints_lt_of_lt

/-- An object in an object, with the fields of both the other way round.  In the texts the key `a`
comes first, whichever was listed first. -/
theorem texts_of_reordered_nested :
    let inner := object [("c", integer 1), ("d", null)]
    let inner' := object [("d", null), ("c", integer 1)]
    let u := object [("b", inner), ("a", boolean true)]
    let v := object [("a", boolean true), ("b", inner')]
    u.KeysDistinct ∧ u.Reordered v ∧ u.compact = v.compact ∧ u.indented = v.indented ∧
      ∃ tree : Json, Json.Token.scan? u.compact.toList = some tree.tokens ∧
        ∃ listed, tree.at? [] = some (.object listed) ∧
          (Fields.keys listed).Perm ["b", "a"] ∧
          (Fields.keys listed).Pairwise fun key next =>
            key.toList.map Char.toNat < next.toList.map Char.toNat := by
  intro inner inner' u v
  have hkeys : u.KeysDistinct := by
    simp only [u, inner, KeysDistinct, FieldsKeysDistinct, Fields.keys]
    decide
  have hinner : inner.Reordered inner' := by
    refine .object (List.Perm.swap _ _ _) rfl ?_
    rintro (_ | _ | i) key x y ⟨⟩ ⟨⟩
    · exact .null
    · exact .integer 1
  have h : u.Reordered v := by
    refine .object (List.Perm.swap _ _ _) rfl ?_
    rintro (_ | _ | i) key x y ⟨⟩ ⟨⟩
    · exact .boolean true
    · exact hinner
  obtain ⟨hcompact, hindented, tree, hscan, -, hfound, hlisted⟩ := texts_of_reordered hkeys h
  obtain ⟨listed, htree⟩ := hfound [] _ rfl
  obtain ⟨fields, hfields, hperm, hincrease⟩ := hlisted [] listed htree
  obtain rfl := object.inj (Option.some.inj hfields)
  exact ⟨hkeys, h, hcompact, hindented, tree, hscan, listed, htree, hperm, hincrease⟩

end Value

end DocQuery
