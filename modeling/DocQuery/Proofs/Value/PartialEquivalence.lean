import DocQuery.Proofs.Parts
import DocQuery.Proofs.Value.Equality
import Mathlib.Data.List.Perm.Subperm

/-!
# Equality is a partial equivalence

Equality of documents is symmetric (`Value.beq_symm`) and transitive (`Value.beq_trans`), and a
document equals itself just when it holds no NaN (`Value.beq_self_iff`).  Equal documents have the
same form at all places (`Value.sameForm_of_beq`), with equal parts (`Value.exists_at?_of_beq`).

Objects are compared by looking up the keys of the one in the other, which is not the same both
ways round.  As no key comes twice and there are equally many, the keys are the same set, and so
objects are equal when they are as maps (`Value.object_beq_object_iff`).  In this form nothing
tells the two sides apart, and the laws go from the parts to the whole.
-/

namespace DocQuery

/-! ### Numbers -/

namespace Binary64

variable {x y z : Binary64}

theorem numEq_iff :
    x.numEq y = true ↔ x.isNaN = false ∧ (x = y ∨ x.magnitude = 0 ∧ y.magnitude = 0) := by
  simp [numEq]

theorem isNaN_of_magnitude_eq_zero (h : x.magnitude = 0) : x.isNaN = false := by
  simp [isNaN, h]

/-- A number is equal to itself; what is no number is not. -/
theorem numEq_self_iff : x.numEq x = true ↔ x.isNaN = false := by
  simp [numEq_iff]

theorem numEq_symm (h : x.numEq y = true) : y.numEq x = true := by
  rw [numEq_iff] at h ⊢
  rcases h with ⟨hnan, rfl | ⟨hx, hy⟩⟩
  · exact ⟨hnan, Or.inl rfl⟩
  · exact ⟨isNaN_of_magnitude_eq_zero hy, Or.inr ⟨hy, hx⟩⟩

theorem numEq_trans (h : x.numEq y = true) (h' : y.numEq z = true) : x.numEq z = true := by
  rw [numEq_iff] at h h' ⊢
  rcases h with ⟨hnan, rfl | ⟨hx, hy⟩⟩
  · exact ⟨hnan, h'.2⟩
  · -- what is equal to a zero is a zero
    rcases h'.2 with rfl | ⟨-, hz⟩
    · exact ⟨hnan, Or.inr ⟨hx, hy⟩⟩
    · exact ⟨hnan, Or.inr ⟨hx, hz⟩⟩

end Binary64

/-! ### Keys -/

/-- Where no key comes twice, fields that are as many as some others and have all their keys among
those of the others have the same keys. -/
theorem Fields.length_eq_and_keys_subset_iff {α β : Type} {fields : List (String × α)}
    {others : List (String × β)} (hfields : (keys fields).Nodup) (hothers : (keys others).Nodup) :
    fields.length = others.length ∧ keys fields ⊆ keys others ↔
      ∀ key, key ∈ keys fields ↔ key ∈ keys others := by
  rw [← List.perm_ext_iff_of_nodup hfields hothers]
  have hlength : (keys fields).length = fields.length := List.length_map _
  have hlength' : (keys others).length = others.length := List.length_map _
  constructor
  · rintro ⟨heq, hsubset⟩
    exact (List.subperm_of_subset hfields hsubset).perm_of_length_le (by omega)
  · intro hperm
    exact ⟨by rw [← hlength, hperm.length_eq, hlength'], hperm.subset⟩

namespace Value

/-! ### Equality by kind -/

variable {u v w : Value}

/-- Values that have no parts and are no binary64 numbers are equal only if they are the same. -/
theorem eq_of_beq_of_isScalar (hscalar : u.isScalar = true) (hfloat : u.kind ≠ .float)
    (h : (u == v) = true) : u = v := by
  change u.equal v = true at h
  cases u <;> cases v <;> simp_all [equal, isScalar, isArray, isObject, kind]

theorem float_beq_float (x y : Binary64) : (float x == float y) = x.numEq y := by
  show equal (float x) (float y) = x.numEq y
  rw [equal]

theorem fieldsEqual_iff {fields others : List (String × Value)} :
    fieldsEqual fields others = true ↔
      ∀ field ∈ fields, ∃ w, others.lookup field.1 = some w ∧ (field.2 == w) = true := by
  induction fields with
  | nil => simp [fieldsEqual]
  | cons field rest ih =>
    rw [fieldsEqual, Bool.and_eq_true, ih, List.forall_mem_cons]
    apply and_congr_left'
    cases others.lookup field.1 with
    | none => simp
    | some w => simp [BEq.beq]

/-- A field of an object is one of every equal object, with an equal value. -/
theorem exists_lookup_of_beq {fields others : List (String × Value)}
    (h : (object fields == object others) = true) {key : String} {v : Value}
    (hv : fields.lookup key = some v) : ∃ w, others.lookup key = some w ∧ (v == w) = true := by
  change equal (object fields) (object others) = true at h
  rw [equal, Bool.and_eq_true, fieldsEqual_iff] at h
  exact h.2 (key, v) (Fields.mem_of_lookup hv)

/-- Objects in which no key comes twice are equal when they have the same keys, and each key stands
for equal values. -/
theorem object_beq_object_iff {fields others : List (String × Value)}
    (hfields : (Fields.keys fields).Nodup) (hothers : (Fields.keys others).Nodup) :
    (object fields == object others) = true ↔
      (∀ key, key ∈ Fields.keys fields ↔ key ∈ Fields.keys others) ∧
      ∀ key v w, fields.lookup key = some v → others.lookup key = some w → (v == w) = true := by
  change equal (object fields) (object others) = true ↔ _
  rw [equal, Bool.and_eq_true, decide_eq_true_iff, fieldsEqual_iff,
    ← Fields.length_eq_and_keys_subset_iff hfields hothers]
  constructor
  · rintro ⟨hlength, hfound⟩
    refine ⟨⟨hlength, ?_⟩, ?_⟩
    · intro key hkey
      obtain ⟨v, hv⟩ := Fields.mem_keys_iff.mp hkey
      obtain ⟨w, hw, -⟩ := hfound (key, v) (Fields.mem_of_lookup hv)
      exact Fields.mem_keys_iff.mpr ⟨w, hw⟩
    · intro key v w hv hw
      obtain ⟨w', hw', hequal⟩ := hfound (key, v) (Fields.mem_of_lookup hv)
      obtain rfl := Option.some.inj (hw.symm.trans hw')
      exact hequal
  · rintro ⟨⟨hlength, hsubset⟩, hparts⟩
    refine ⟨hlength, ?_⟩
    rintro ⟨key, v⟩ hmem
    obtain ⟨w, hw⟩ := Fields.mem_keys_iff.mp (hsubset (List.mem_map_of_mem hmem))
    exact ⟨w, hw, hparts key v w (Fields.lookup_of_mem hfields hmem) hw⟩

/-! ### Symmetry and transitivity -/

theorem beq_symm (hu : u.KeysDistinct) (hv : v.KeysDistinct) (h : (u == v) = true) :
    (v == u) = true := by
  -- the equation tells of which kind `v` is, so the cases are those of `u` alone
  induction u generalizing v with
  | null | boolean | integer | string =>
    obtain rfl := eq_of_beq_of_isScalar rfl (by simp [kind]) h
    exact h
  | float x =>
    obtain ⟨y, rfl⟩ := exists_float_of_beq h
    rw [float_beq_float] at h ⊢
    exact Binary64.numEq_symm h
  | array xs ih =>
    obtain ⟨ys, rfl⟩ := exists_array_of_beq h
    rw [array_beq_array_iff] at h ⊢
    rw [KeysDistinct, elementsKeysDistinct_iff] at hu hv
    refine ⟨h.1.symm, fun i y x hy hx => ?_⟩
    have hmem := List.mem_of_getElem? hx
    exact ih x hmem (hu x hmem) (hv y (List.mem_of_getElem? hy)) (h.2 i x y hx hy)
  | object fields ih =>
    obtain ⟨others, rfl⟩ := exists_object_of_beq h
    rw [KeysDistinct, fieldsKeysDistinct_iff] at hu hv
    rw [object_beq_object_iff hu.1 hv.1] at h
    rw [object_beq_object_iff hv.1 hu.1]
    refine ⟨fun key => (h.1 key).symm, fun key y x hy hx => ?_⟩
    have hmem := Fields.mem_of_lookup hx
    exact ih _ hmem (hu.2 _ hmem) (hv.2 _ (Fields.mem_of_lookup hy)) (h.2 key x y hx hy)

theorem beq_trans (hu : u.KeysDistinct) (hv : v.KeysDistinct) (hw : w.KeysDistinct)
    (huv : (u == v) = true) (hvw : (v == w) = true) : (u == w) = true := by
  induction u generalizing v w with
  | null | boolean | integer | string =>
    obtain rfl := eq_of_beq_of_isScalar rfl (by simp [kind]) huv
    exact hvw
  | float x =>
    obtain ⟨y, rfl⟩ := exists_float_of_beq huv
    obtain ⟨z, rfl⟩ := exists_float_of_beq hvw
    rw [float_beq_float] at huv hvw ⊢
    exact Binary64.numEq_trans huv hvw
  | array xs ih =>
    obtain ⟨ys, rfl⟩ := exists_array_of_beq huv
    obtain ⟨zs, rfl⟩ := exists_array_of_beq hvw
    rw [KeysDistinct, elementsKeysDistinct_iff] at hu hv hw
    rw [array_beq_array_iff] at hvw ⊢
    refine ⟨(array_beq_array_iff.mp huv).1.trans hvw.1, fun i x z hx hz => ?_⟩
    obtain ⟨y, hy, hxy⟩ := exists_getElem?_of_beq huv hx
    have hmem := List.mem_of_getElem? hx
    exact ih x hmem (hu x hmem) (hv y (List.mem_of_getElem? hy)) (hw z (List.mem_of_getElem? hz)) hxy
      (hvw.2 i y z hy hz)
  | object fields ih =>
    obtain ⟨others, rfl⟩ := exists_object_of_beq huv
    obtain ⟨last, rfl⟩ := exists_object_of_beq hvw
    rw [KeysDistinct, fieldsKeysDistinct_iff] at hu hv hw
    have hkeys := ((object_beq_object_iff hu.1 hv.1).mp huv).1
    rw [object_beq_object_iff hv.1 hw.1] at hvw
    rw [object_beq_object_iff hu.1 hw.1]
    refine ⟨fun key => (hkeys key).trans (hvw.1 key), fun key x z hx hz => ?_⟩
    obtain ⟨y, hy, hxy⟩ := exists_lookup_of_beq huv hx
    have hmem := Fields.mem_of_lookup hx
    exact ih _ hmem (hu.2 _ hmem) (hv.2 _ (Fields.mem_of_lookup hy))
      (hw.2 _ (Fields.mem_of_lookup hz)) hxy (hvw.2 key y z hy hz)

/-! ### The parts of equal values -/

/-- Where a value has a part, one that is equal has a part that is equal. -/
theorem exists_at?_of_beq (h : (u == v) = true) {path : List Place} {x : Value}
    (hx : u.at? path = some x) : ∃ y, v.at? path = some y ∧ (x == y) = true := by
  induction path generalizing u v with
  | nil =>
    obtain rfl := Option.some.inj hx
    exact ⟨v, rfl, h⟩
  | cons place rest ih =>
    cases u with
    | array xs =>
      cases place with
      | field key => cases hx
      | element i =>
        obtain ⟨ys, rfl⟩ := exists_array_of_beq h
        obtain ⟨u', hu', hx⟩ := Option.bind_eq_some_iff.mp hx
        obtain ⟨v', hv', hequal⟩ := exists_getElem?_of_beq h hu'
        rw [at?_element hv']
        exact ih hequal hx
    | object fields =>
      cases place with
      | element i => cases hx
      | field key =>
        obtain ⟨others, rfl⟩ := exists_object_of_beq h
        obtain ⟨u', hu', hx⟩ := Option.bind_eq_some_iff.mp hx
        obtain ⟨v', hv', hequal⟩ := exists_lookup_of_beq h hu'
        rw [at?_field hv']
        exact ih hequal hx
    | _ => cases place <;> cases hx

/-- Two values have the same form on the outside: they are of one kind, and if they are arrays they
are equally long, and if they are objects they have the same keys. -/
structure SameForm (u v : Value) : Prop where
  kind_eq : u.kind = v.kind
  length_eq : ∀ xs ys, u = array xs → v = array ys → xs.length = ys.length
  mem_keys_iff : ∀ fields others, u = object fields → v = object others →
    ∀ key, key ∈ Fields.keys fields ↔ key ∈ Fields.keys others

theorem SameForm.symm (h : u.SameForm v) : v.SameForm u where
  kind_eq := h.kind_eq.symm
  length_eq ys xs hv hu := (h.length_eq xs ys hu hv).symm
  mem_keys_iff others fields hv hu key := (h.mem_keys_iff fields others hu hv key).symm

theorem sameForm_of_beq (hu : u.KeysDistinct) (hv : v.KeysDistinct) (h : (u == v) = true) :
    u.SameForm v where
  kind_eq := kind_eq_of_beq h
  length_eq := by
    rintro xs ys rfl rfl
    exact (array_beq_array_iff.mp h).1
  mem_keys_iff := by
    rintro fields others rfl rfl
    exact ((object_beq_object_iff hu.1 hv.1).mp h).1

/-- Where a value has a part, one that is equal has a part of the same form. -/
theorem exists_sameForm_of_beq (hu : u.KeysDistinct) (hv : v.KeysDistinct) (h : (u == v) = true)
    {path : List Place} {x : Value} (hx : u.at? path = some x) :
    ∃ y, v.at? path = some y ∧ x.SameForm y := by
  obtain ⟨y, hy, hequal⟩ := exists_at?_of_beq h hx
  exact ⟨y, hy, sameForm_of_beq (hu.at? hx) (hv.at? hy) hequal⟩

/-! ### Equality with itself -/

/-- No number in a value, at any depth, is a NaN. -/
def NoNaN (v : Value) : Prop :=
  ∀ path x, v.at? path = some (float x) → x.isNaN = false

theorem NoNaN.of_beq_self (h : (v == v) = true) : v.NoNaN := by
  intro path x hx
  obtain ⟨y, hy, hequal⟩ := exists_at?_of_beq h hx
  obtain rfl := Option.some.inj (hx.symm.trans hy)
  rwa [float_beq_float, Binary64.numEq_self_iff] at hequal

theorem NoNaN.beq_self (h : v.NoNaN) (hkeys : v.KeysDistinct) : (v == v) = true := by
  induction v with
  | null | boolean | integer | string => simp [BEq.beq, equal]
  | float x =>
    rw [float_beq_float, Binary64.numEq_self_iff]
    exact h [] x rfl
  | array xs ih =>
    rw [KeysDistinct, elementsKeysDistinct_iff] at hkeys
    rw [array_beq_array_iff]
    refine ⟨rfl, fun i x y hx hy => ?_⟩
    obtain rfl := Option.some.inj (hx.symm.trans hy)
    have hmem := List.mem_of_getElem? hx
    refine ih x hmem (fun path z hz => ?_) (hkeys x hmem)
    exact h (.element i :: path) z ((at?_element hx path).trans hz)
  | object fields ih =>
    rw [KeysDistinct, fieldsKeysDistinct_iff] at hkeys
    rw [object_beq_object_iff hkeys.1 hkeys.1]
    refine ⟨fun _ => Iff.rfl, fun key x y hx hy => ?_⟩
    obtain rfl := Option.some.inj (hx.symm.trans hy)
    have hmem := Fields.mem_of_lookup hx
    refine ih _ hmem (fun path z hz => ?_) (hkeys.2 _ hmem)
    exact h (.field key :: path) z ((at?_field hx path).trans hz)

/-- A value equals itself just when it holds no NaN. -/
theorem beq_self_iff (hkeys : v.KeysDistinct) : (v == v) = true ↔ v.NoNaN :=
  ⟨NoNaN.of_beq_self, fun h => h.beq_self hkeys⟩

/-- No value equals the array of which it is the only element. -/
theorem array_singleton_beq_eq_false (x : Value) : (array [x] == x) = false := by
  induction x with
  | array elements ih =>
    rw [Bool.eq_false_iff]
    intro h
    rw [array_beq_array_iff] at h
    -- the array inside has one element, too, and is equal to it, which goes on for ever
    obtain ⟨y, rfl⟩ := List.length_eq_one_iff.mp h.1.symm
    exact Bool.false_ne_true ((ih y List.mem_cons_self).symm.trans (h.2 0 _ y rfl rfl))
  | _ => rfl

/-- **Equality of documents is a partial equivalence,** and only NaNs keep it from being one.  Of
documents whose objects have no key twice: equality goes both ways; what equals the same equals one
another; a document equals itself just when it holds no NaN; documents of different kinds differ;
and equal documents have parts at the same places, and these are of the same form. -/
theorem beq_partial_equivalence (hu : u.KeysDistinct) (hv : v.KeysDistinct) (hw : w.KeysDistinct) :
    ((u == v) = true → (v == u) = true) ∧
    ((u == v) = true → (v == w) = true → (u == w) = true) ∧
    ((v == v) = true ↔ ∀ path x, v.at? path = some (float x) → x.isNaN = false) ∧
    (u.kind ≠ v.kind → (u == v) = false) ∧
    ((u == v) = true → ∀ path,
      (∀ x, u.at? path = some x → ∃ y, v.at? path = some y ∧ x.SameForm y) ∧
      (∀ y, v.at? path = some y → ∃ x, u.at? path = some x ∧ x.SameForm y)) := by
  refine ⟨beq_symm hu hv, beq_trans hu hv hw, beq_self_iff hv, fun hkind => ?_, fun h path => ?_⟩
  · rw [Bool.eq_false_iff]
    exact fun h => hkind (kind_eq_of_beq h)
  · refine ⟨fun x hx => exists_sameForm_of_beq hu hv h hx, fun y hy => ?_⟩
    obtain ⟨x, hx, hform⟩ := exists_sameForm_of_beq hv hu (beq_symm hu hv h) hy
    exact ⟨x, hx, hform.symm⟩

/-- Three objects with their fields in two orders and with zeros of two signs are equal, and an array
with a NaN differs from itself. -/
theorem beq_partial_equivalence_zeros :
    let u := object [("a", float ⟨0⟩), ("b", array [integer 1, null])]
    let v := object [("b", array [integer 1, null]), ("a", float ⟨0x8000000000000000⟩)]
    let w := object [("b", array [integer 1, null]), ("a", float ⟨0⟩)]
    let x := array [u, float .nan]
    (u.KeysDistinct ∧ v.KeysDistinct ∧ w.KeysDistinct ∧ x.KeysDistinct) ∧
      (u == v) = true ∧ (v == w) = true ∧ (v == u) = true ∧ (u == w) = true ∧
      (x == x) = false := by
  intro u v w x
  have hu : u.KeysDistinct := ⟨by decide, trivial, ⟨trivial, trivial, trivial⟩, trivial⟩
  have hv : v.KeysDistinct := ⟨by decide, ⟨trivial, trivial, trivial⟩, trivial, trivial⟩
  have hw : w.KeysDistinct := ⟨by decide, ⟨trivial, trivial, trivial⟩, trivial, trivial⟩
  have hx : x.KeysDistinct := ⟨hu, trivial, trivial⟩
  have huv : (u == v) = true := by decide
  have hvw : (v == w) = true := by decide
  obtain ⟨hsymm, htrans, -⟩ := beq_partial_equivalence hu hv hw
  obtain ⟨-, -, hself, -⟩ := beq_partial_equivalence hx hx hx
  refine ⟨⟨hu, hv, hw, hx⟩, huv, hvw, hsymm huv, htrans huv hvw, ?_⟩
  rw [Bool.eq_false_iff]
  intro h
  exact absurd (hself.mp h [.element 1] .nan rfl) (by decide)

end Value

end DocQuery
