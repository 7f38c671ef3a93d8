import DocQuery.Value.Equality
import Mathlib.Data.List.Basic

/-!
# Equal documents

Two arrays are equal as documents when they are equally long and equal element by element
(`Value.array_beq_array_iff`).  Equal documents are of one kind, so either both are arrays or neither
is (`Value.arrays_or_not_arrays_of_beq`).
-/

namespace DocQuery.Value

/-! ### Kinds -/

theorem kind_eq_of_beq {u v : Value} (h : (u == v) = true) : u.kind = v.kind := by
  change u.equal v = true at h
  cases u <;> cases v <;> simp only [equal, Bool.false_eq_true] at h <;> rfl

theorem isArray_eq_of_beq {u v : Value} (h : (u == v) = true) : u.isArray = v.isArray := by
  rw [isArray, isArray, kind_eq_of_beq h]

theorem exists_float_of_beq {x : Binary64} {v : Value} (h : (float x == v) = true) :
    ∃ y, v = float y := by
  cases v with
  | float y => exact ⟨y, rfl⟩
  | _ => cases kind_eq_of_beq h

theorem exists_array_of_beq {xs : List Value} {v : Value} (h : (array xs == v) = true) :
    ∃ ys, v = array ys := by
  cases v with
  | array ys => exact ⟨ys, rfl⟩
  | _ => cases kind_eq_of_beq h

theorem exists_object_of_beq {fields : List (String × Value)} {v : Value}
    (h : (object fields == v) = true) : ∃ others, v = object others := by
  cases v with
  | object others => exact ⟨others, rfl⟩
  | _ => cases kind_eq_of_beq h

/-! ### Arrays -/

theorem array_beq_array (xs ys : List Value) : (array xs == array ys) = elementsEqual xs ys := by
  show equal (array xs) (array ys) = elementsEqual xs ys
  rw [equal]

/-- Two lists are equal when they are equally long and equal element by element. -/
theorem elementsEqual_iff {xs ys : List Value} :
    elementsEqual xs ys = true ↔ xs.length = ys.length ∧
      ∀ (i : Nat) x y, xs[i]? = some x → ys[i]? = some y → (x == y) = true := by
  induction xs generalizing ys with
  | nil => cases ys <;> simp [elementsEqual]
  | cons x xs ih =>
    cases ys with
    | nil => simp [elementsEqual]
    | cons y ys =>
      rw [elementsEqual, Bool.and_eq_true, ih, List.length_cons, List.length_cons,
        Nat.add_right_cancel_iff]
      constructor
      · rintro ⟨hfirst, hlength, hrest⟩
        refine ⟨hlength, fun i u v hu hv => ?_⟩
        cases i with
        | zero =>
          obtain rfl := Option.some.inj hu
          obtain rfl := Option.some.inj hv
          exact hfirst
        | succ i => exact hrest i u v hu hv
      · rintro ⟨hlength, hparts⟩
        exact ⟨hparts 0 x y rfl rfl, hlength, fun i => hparts (i + 1)⟩

/-- Two arrays are equal when they are equally long and equal element by element. -/
theorem array_beq_array_iff {xs ys : List Value} :
    (array xs == array ys) = true ↔ xs.length = ys.length ∧
      ∀ (i : Nat) x y, xs[i]? = some x → ys[i]? = some y → (x == y) = true := by
  rw [array_beq_array, elementsEqual_iff]

/-- An element of an array is one of every equal array at the same index, with an equal value. -/
theorem exists_getElem?_of_beq {xs ys : List Value} (h : (array xs == array ys) = true) {i : Nat}
    {x : Value} (hx : xs[i]? = some x) : ∃ y, ys[i]? = some y ∧ (x == y) = true := by
  rw [array_beq_array_iff] at h
  have hi : i < ys.length := by
    rw [← h.1]
    exact (List.getElem?_eq_some_iff.mp hx).1
  have hy := List.getElem?_eq_getElem hi
  exact ⟨ys[i], hy, h.2 i x _ hx hy⟩

theorem beq_of_elementsEqual {xs ys : List Value} (h : elementsEqual xs ys = true) {i : Nat}
    {x y : Value} (hx : xs[i]? = some x) (hy : ys[i]? = some y) : (x == y) = true :=
  (elementsEqual_iff.mp h).2 i x y hx hy

/-- Of two equal documents both are arrays, or neither is. -/
theorem arrays_or_not_arrays_of_beq {u v : Value} (h : (u == v) = true) :
    (∃ xs ys, u = array xs ∧ v = array ys ∧ elementsEqual xs ys = true) ∨
      u.elements? = none ∧ v.elements? = none := by
  cases u with
  | array xs =>
    obtain ⟨ys, rfl⟩ := exists_array_of_beq h
    exact Or.inl ⟨xs, ys, rfl, rfl, by rwa [array_beq_array] at h⟩
  | _ =>
    cases v with
    | array ys => cases kind_eq_of_beq h
    | _ => exact Or.inr ⟨rfl, rfl⟩

end DocQuery.Value
