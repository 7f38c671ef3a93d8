import DocQuery.Proofs.Selector.Access

/-!
# What is read of an array

A walk selects the elements at its slots, in its order (`Walk.selection`), and reading a range that
is all in the array gives what its walk selects (`Selector.read_of_reach`).  This includes the whole
array, which is read without a walk: the walk that its two indices stand for goes from the front to
the back.  A single element is read as the element at its position, and as null where there is none.

Indices that are positions already are the plainest case, as they resolve to themselves
(`Selector.read_range_of_inside`, `Selector.read_index_of_position`).
-/

namespace DocQuery

open Selector (elementOrNull)

namespace Walk

/-- The elements that a walk comes to, in the order of the walk. -/
def selection (w : Walk) (elements : List Value) : List Value :=
  (List.range w.count.toNat).map fun k => elementOrNull elements (w.slot k)

variable {w : Walk} {elements : List Value}

@[simp]
theorem length_selection (w : Walk) (elements : List Value) :
    (w.selection elements).length = w.count.toNat := by
  rw [selection, List.length_map, List.length_range]

theorem elementOrNull_selection {k : Nat} (h : k < w.count.toNat) :
    elementOrNull (w.selection elements) k = elementOrNull elements (w.slot k) := by
  apply elementOrNull_of_getElem?
  rw [selection, List.getElem?_map, List.getElem?_range h, Option.map_some]

section Whole

variable {size : Nat}

/-- A walk from the front of an array to its back has as many positions as there are elements. -/
theorem toNat_count_of_whole (hpos : 0 < size) (hfirst : w.first.toInt = 0)
    (hlast : w.last.toInt = size - 1) : w.count.toNat = size := by
  rw [toNat_count, hfirst, hlast]
  omega

theorem slot_of_whole (hfirst : w.first.toInt = 0) (hlast : w.last.toInt = size - 1) {k : Nat}
    (hk : k < size) : w.slot k = k := by
  rw [slot_eq, hfirst, hlast]
  split <;> omega

end Whole

/-- A walk from the front of an array to its back selects the array. -/
theorem selection_of_whole (hpos : 0 < elements.length) (hfirst : w.first.toInt = 0)
    (hlast : w.last.toInt = elements.length - 1) : w.selection elements = elements := by
  have hcount := toNat_count_of_whole hpos hfirst hlast
  apply List.ext_getElem?
  intro i
  by_cases hi : i < elements.length
  · rw [getElem?_eq_some_elementOrNull (by rwa [length_selection, hcount]),
      getElem?_eq_some_elementOrNull hi, elementOrNull_selection (by omega),
      slot_of_whole hfirst hlast hi]
  · rw [List.getElem?_eq_none (by rw [length_selection]; omega), List.getElem?_eq_none (by omega)]

/-- A walk that ends where it starts selects one element. -/
theorem selection_singleton (position : Int64) (elements : List Value) :
    (Walk.mk position position).selection elements =
      [elementOrNull elements position.toInt.toNat] := by
  rw [selection, toNat_count_single, List.range_one, List.map_singleton, slot_zero]

end Walk

namespace Selector

variable {s : Selector}

/-! ### Reading -/

/-- The whole of an array goes from its front to its back. -/
theorem walk_of_isAll (hall : s.isAll = true) {size : Nat} (hsize : size < 2 ^ 63) :
    (s.walk size).first.toInt = 0 ∧ (s.walk size).last.toInt = size - 1 := by
  rw [isAll_iff] at hall
  have hfirst := toInt_resolve s.start hsize
  have hlast := toInt_resolve s.stop hsize
  rw [hall.1, Int64.toInt_zero] at hfirst
  rw [hall.2, show (-1 : Int64).toInt = -1 from rfl] at hlast
  rw [walk, hall.1, hall.2, hfirst, hlast]
  omega

/-- A range that is all in the array, the whole included, is read as the selection of its walk. -/
theorem read_of_reach (hrange : s.isRange = true) {elements : List Value}
    (hsize : elements.length < 2 ^ 63)
    (hreach : (s.walk elements.length).reach elements.length =
      (s.walk elements.length).count.toNat) :
    s.read (.array elements) = .ok (.array ((s.walk elements.length).selection elements)) := by
  cases hall : s.isAll with
  | false =>
    rw [read_eq_readRange hall hrange, readRange_of_reach hreach]
    rfl
  | true =>
    have hpos : 0 < elements.length := by
      have hends := Walk.reach_eq_count_iff.mp hreach
      omega
    obtain ⟨hfirst, hlast⟩ := walk_of_isAll hall hsize
    rw [read_all hall, Walk.selection_of_whole hpos hfirst hlast]

theorem read_index_of_inside (hindex : s.isRange = false) (elements : List Value)
    (h : 0 ≤ (resolve s.start elements.length).toInt ∧
      (resolve s.start elements.length).toInt < elements.length) :
    s.read (.array elements) =
      .ok (elementOrNull elements (resolve s.start elements.length).toInt.toNat) := by
  rw [read_index (isAll_of_isRange_eq_false hindex) hindex, Value.elementAt?,
    Value.slot?_of_inside h]
  rfl

theorem read_index_of_outside (hindex : s.isRange = false) (elements : List Value)
    (h : ¬ (0 ≤ (resolve s.start elements.length).toInt ∧
      (resolve s.start elements.length).toInt < elements.length)) :
    s.read (.array elements) = .ok .null := by
  rw [read_index (isAll_of_isRange_eq_false hindex) hindex, Value.elementAt?,
    Value.slot?_of_outside h]
  rfl

/-! ### Reading by positions -/

theorem isAll_range_of_nonneg {i j : Int64} (hj : 0 ≤ j.toInt) : (range i j).isAll = false := by
  have hne : j ≠ -1 := by
    rintro rfl
    exact absurd hj (by decide)
  simp [isAll, range, hne]

theorem read_range_of_inside {elements : List Value} {i j : Int64}
    (hi : 0 ≤ i.toInt ∧ i.toInt < elements.length) (hj : 0 ≤ j.toInt ∧ j.toInt < elements.length)
    (hne : i ≠ j) :
    (range i j).read (.array elements) = .ok (.array ((Walk.mk i j).selection elements)) := by
  have hrange : (range i j).isRange = true := isRange_iff.mpr hne
  have hwalk : (range i j).walk elements.length = ⟨i, j⟩ := by
    rw [walk, range, resolve_of_nonneg hi.1, resolve_of_nonneg hj.1]
  have hreach : (Walk.mk i j).reach elements.length = (Walk.mk i j).count.toNat :=
    Walk.reach_eq_count_iff.mpr ⟨hi, hj⟩
  rw [read_eq_readRange (isAll_range_of_nonneg hj.1) hrange, hwalk, readRange_of_reach hreach]
  rfl

theorem read_index_of_position {elements : List Value} {i : Int64}
    (hi : 0 ≤ i.toInt ∧ i.toInt < elements.length) :
    (index i).read (.array elements) = .ok (elementOrNull elements i.toInt.toNat) := by
  have hresolve : resolve (index i).start elements.length = i := resolve_of_nonneg hi.1 _
  rw [read_index_of_inside (isRange_index i) elements (by rwa [hresolve]), hresolve]

end Selector

end DocQuery
