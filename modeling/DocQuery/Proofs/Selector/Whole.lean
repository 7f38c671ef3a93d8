import DocQuery.Proofs.Selector.Selection

/-!
# The whole array as a range

The whole of an array can also be named by the positions of its first and its last element
(`Selector.full`).  With more than one element this reads the same as `[*]`, though by a walk.  With
one element the two positions are equal, and equal indices select an element and not an array of
one: so the two are read alike just when the array does not have exactly one element
(`Selector.read_full_eq_read_all_iff`).
-/

namespace DocQuery

theorem Value.array_singleton_ne (x : Value) : array [x] ≠ x := by
  intro h
  have hsize := congrArg sizeOf h
  simp only [array.sizeOf_spec, List.cons.sizeOf_spec, List.nil.sizeOf_spec] at hsize
  omega

namespace Selector

/-- The range from the first position of an array to the last. -/
def full (size : Nat) : Selector :=
  range 0 (Int64.ofInt (size - 1))

variable {elements : List Value}

theorem toInt_stop_full {size : Nat} (hsize : size < 2 ^ 63) :
    (full size).stop.toInt = size - 1 :=
  Int64.toInt_ofInt_of_le (by omega) (by omega)

/-- An array without elements has no last position, and the index in front of the first is the last
from the end. -/
theorem full_zero : full 0 = all :=
  rfl

theorem full_one : full 1 = index 0 :=
  rfl

theorem read_full_singleton (x : Value) : (full 1).read (.array [x]) = .ok x := by
  rw [full_one]
  exact read_index_of_position (by simp)

/-- More than one element is read by walking over all of them. -/
theorem read_full_of_one_lt (hlength : 1 < elements.length) (hsize : elements.length < 2 ^ 63) :
    (full elements.length).read (.array elements) = .ok (.array elements) := by
  let w : Walk := ⟨(full elements.length).start, (full elements.length).stop⟩
  have hfirst : w.first.toInt = 0 := rfl
  have hlast : w.last.toInt = elements.length - 1 := toInt_stop_full hsize
  have hne : w.first ≠ w.last := by
    intro heq
    rw [← heq, hfirst] at hlast
    omega
  have hwhole : w.selection elements = elements :=
    Walk.selection_of_whole (by omega) hfirst hlast
  show (range w.first w.last).read _ = _
  rw [read_range_of_inside (by omega) (by omega) hne]
  exact congrArg (Except.ok ∘ Value.array) hwhole

/-- **The whole array and the range over all of it** are read alike, unless the array has just one
element.  Then the range is read as this element, and the whole as the array. -/
theorem read_full_eq_read_all_iff (hsize : elements.length < 2 ^ 63) :
    ((range 0 (-1)).read (.array elements) = (full elements.length).read (.array elements) ↔
      elements.length ≠ 1) ∧
    ∀ x, elements = [x] →
      (range 0 (-1)).read (.array elements) = .ok (.array [x]) ∧
      (full elements.length).read (.array elements) = .ok x := by
  have hall : (range 0 (-1)).read (.array elements) = .ok (.array elements) := read_all rfl _
  refine ⟨⟨fun heq hone => ?_, fun hne => ?_⟩, ?_⟩
  · obtain ⟨x, rfl⟩ := List.length_eq_one_iff.mp hone
    rw [hall, List.length_singleton, read_full_singleton] at heq
    exact Value.array_singleton_ne x (Except.ok.inj heq)
  · rcases Nat.eq_zero_or_pos elements.length with hzero | hpos
    · rw [hzero, full_zero]
      rfl
    · rw [hall, read_full_of_one_lt (by omega) hsize]
  · rintro x rfl
    exact ⟨hall, read_full_singleton x⟩

/-- Two elements are read alike by `[*]` and by `[0:1]`. -/
theorem read_full_eq_read_all_iff_two :
    let elements := [Value.integer 7, .integer 8]
    elements.length < 2 ^ 63 ∧
      (range 0 (-1)).read (.array elements) = (full elements.length).read (.array elements) := by
  intro elements
  have hsize : elements.length < 2 ^ 63 := by decide
  exact ⟨hsize, (read_full_eq_read_all_iff hsize).1.mpr (by decide)⟩

/-- Of one element, `[*]` reads the array and `[0:0]` the element. -/
theorem read_full_ne_read_all :
    let elements := [Value.integer 7]
    (1 ≤ elements.length ∧ elements.length < 2 ^ 63) ∧
      (range 0 (-1)).read (.array elements) = .ok (.array [.integer 7]) ∧
      (full elements.length).read (.array elements) = .ok (.integer 7) ∧
      (range 0 (-1)).read (.array elements) ≠ (full elements.length).read (.array elements) := by
  intro elements
  have hall : (range 0 (-1)).read (.array elements) = .ok (.array [.integer 7]) := rfl
  have hfull : (full elements.length).read (.array elements) = .ok (.integer 7) := rfl
  refine ⟨by decide, hall, hfull, ?_⟩
  rw [hall, hfull]
  exact nofun

end Selector

end DocQuery
