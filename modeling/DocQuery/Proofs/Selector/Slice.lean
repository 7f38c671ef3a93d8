import DocQuery.Expr.Basic
import DocQuery.Proofs.Selector.Presence
import DocQuery.Proofs.Selector.Selection

/-!
# Reading as slicing

A second account of reading, without words and without walks: an index stands for a place, which is
an integer (`Selector.place`), and a range for the contiguous piece of the array between two places,
taken backwards where the first lies behind the second (`Selector.between`).  `Selector.slice` reads
by it, and every selector is read so, from every document (`Expr.evaluate_select_eq_slice`).

A walk that stays in the array selects what is between its ends (`Walk.selection_eq_between`), so no
null stands for an element that is not there.
-/

namespace DocQuery

namespace Selector

/-! ### Slices -/

/-- The place that an index stands for in an array of `size` elements: a negative index counts from
the end. -/
def place (index : Int64) (size : Nat) : Int :=
  if index.toInt < 0 then size + index.toInt else index.toInt

/-- The elements between two places of a list, both included, in the direction from the first to the
last. -/
def between {α : Type} (elements : List α) (first last : Nat) : List α :=
  let piece := elements.extract (min first last) (max first last + 1)
  if first ≤ last then piece else piece.reverse

/-- The part of an array that a selector other than the whole names, by slices. -/
def sliceElements (s : Selector) (elements : List Value) : Result Value :=
  let size := elements.length
  let first := place s.start size
  let last := place s.stop size
  if s.start = s.stop then
    .ok (if 0 ≤ first then elements[first.toNat]?.getD .null else .null)
  else if ¬ (0 ≤ first ∧ first < size) then .error (.outOfBounds (Int64.ofInt first) size)
  else if ¬ (0 ≤ last ∧ last < size) then .error (.outOfBounds (Int64.ofInt last) size)
  else .ok (.array (between elements first.toNat last.toNat))

/-- The part of a document that a selector names, by slices. -/
def slice (s : Selector) (document : Value) : Result Value :=
  if s.start = 0 ∧ s.stop = -1 then .ok document
  else match document.elements? with
    | some elements => s.sliceElements elements
    | none => .error (.typeFault (.notIndexable document.kind))

variable {α : Type} {elements : List α} {first last : Nat}

theorem length_between (hfirst : first < elements.length) (hlast : last < elements.length) :
    (between elements first last).length = max first last - min first last + 1 := by
  have hpiece : (elements.extract (min first last) (max first last + 1)).length =
      max first last - min first last + 1 := by
    rw [List.extract_eq_take_drop, List.length_take, List.length_drop]
    omega
  unfold between
  split
  · exact hpiece
  · rw [List.length_reverse, hpiece]

theorem getElem?_between (hfirst : first < elements.length) (hlast : last < elements.length)
    {k : Nat} (hk : k ≤ max first last - min first last) :
    (between elements first last)[k]? =
      elements[if first ≤ last then first + k else first - k]? := by
  have hlength := length_between hfirst hlast
  unfold between at hlength ⊢
  by_cases hle : first ≤ last
  · rw [if_pos hle, if_pos hle, List.extract_eq_take_drop, List.getElem?_take_of_lt (by omega),
      List.getElem?_drop, Nat.min_eq_left hle]
  · -- the piece goes from the last place up to the first, and is read from its end
    rw [if_neg hle, List.length_reverse] at hlength
    rw [if_neg hle, if_neg hle, List.getElem?_reverse (by omega), hlength,
      List.extract_eq_take_drop, List.getElem?_take_of_lt (by omega), List.getElem?_drop]
    congr 1
    omega

theorem mem_of_mem_between {x : α} (h : x ∈ between elements first last) : x ∈ elements := by
  have hpiece : ∀ x ∈ elements.extract (min first last) (max first last + 1), x ∈ elements := by
    intro x hx
    rw [List.extract_eq_take_drop] at hx
    exact List.mem_of_mem_drop (List.mem_of_mem_take hx)
  unfold between at h
  split at h
  · exact hpiece x h
  · exact hpiece x (List.mem_reverse.mp h)

end Selector

/-! ### Walks -/

/-- A walk that stays in the array selects what is between its two ends. -/
theorem Walk.selection_eq_between {w : Walk} {elements : List Value}
    (hreach : w.reach elements.length = w.count.toNat) :
    w.selection elements =
      Selector.between elements w.first.toInt.toNat w.last.toInt.toNat := by
  have hends := reach_eq_count_iff.mp hreach
  have hcount := w.toNat_count
  have hfirst : w.first.toInt.toNat < elements.length := by omega
  have hlast : w.last.toInt.toNat < elements.length := by omega
  have hlength := Selector.length_between hfirst hlast
  apply List.ext_getElem?
  intro k
  by_cases hk : k < w.count.toNat
  · have hplace : (if w.first.toInt.toNat ≤ w.last.toInt.toNat then w.first.toInt.toNat + k
        else w.first.toInt.toNat - k) = w.slot k := by
      rw [slot_eq]
      split <;> split <;> omega
    have hslot : w.slot k < elements.length := slot_lt (by omega)
    rw [Selector.getElem?_between hfirst hlast (by omega), hplace,
      getElem?_eq_some_elementOrNull (by rwa [length_selection]), elementOrNull_selection hk,
      getElem?_eq_some_elementOrNull hslot]
  · rw [List.getElem?_eq_none (by rw [length_selection]; omega),
      List.getElem?_eq_none (by omega)]

namespace Selector

variable {s : Selector} {elements : List Value}

/-! ### Reading -/

theorem toInt_resolve_eq_place (index : Int64) {size : Nat} (h : size < 2 ^ 63) :
    (resolve index size).toInt = place index size :=
  toInt_resolve index h

/-- A walk has one position more than its two places are apart. -/
theorem toNat_count_eq_place (s : Selector) {size : Nat} (hsize : size < 2 ^ 63) :
    (s.walk size).count.toNat = (place s.stop size - place s.start size).natAbs + 1 := by
  rw [Walk.toNat_count, ← toInt_resolve_eq_place s.start hsize, ← toInt_resolve_eq_place s.stop hsize]
  rfl

/-- A range of an array is read as the elements between its two places, or the first of these that
the array does not have is refused. -/
theorem read_eq_sliceElements_of_range (hall : s.isAll = false) (hrange : s.isRange = true)
    (hsize : elements.length < 2 ^ 63) : s.read (.array elements) = s.sliceElements elements := by
  unfold sliceElements
  rw [if_neg (isRange_iff.mp hrange), ← toInt_resolve_eq_place s.start hsize,
    ← toInt_resolve_eq_place s.stop hsize, Int64.ofInt_toInt, Int64.ofInt_toInt]
  by_cases hfirst : 0 ≤ (resolve s.start elements.length).toInt ∧
      (resolve s.start elements.length).toInt < elements.length
  · rw [if_neg (not_not.mpr hfirst)]
    by_cases hlast : 0 ≤ (resolve s.stop elements.length).toInt ∧
        (resolve s.stop elements.length).toInt < elements.length
    · have hreach : (s.walk elements.length).reach elements.length =
          (s.walk elements.length).count.toNat := Walk.reach_eq_count_iff.mpr ⟨hfirst, hlast⟩
      rw [if_neg (not_not.mpr hlast), read_of_reach hrange hsize hreach,
        Walk.selection_eq_between hreach]
      rfl
    · rw [if_pos hlast, read_eq_readRange hall hrange]
      exact readRange_of_leaving hfirst hlast
  · rw [if_pos hfirst, read_eq_readRange hall hrange]
    exact readRange_of_outside hfirst

/-- A single element of an array is read as the element at its place, or as null. -/
theorem read_eq_sliceElements_of_index (hindex : s.isRange = false)
    (hsize : elements.length < 2 ^ 63) : s.read (.array elements) = s.sliceElements elements := by
  unfold sliceElements
  rw [if_pos (isRange_eq_false_iff.mp hindex), ← toInt_resolve_eq_place s.start hsize]
  by_cases hinside : 0 ≤ (resolve s.start elements.length).toInt ∧
      (resolve s.start elements.length).toInt < elements.length
  · rw [read_index_of_inside hindex elements hinside, if_pos hinside.1]
    rfl
  · rw [read_index_of_outside hindex elements hinside]
    split
    · rw [List.getElem?_eq_none (by omega), Option.getD_none]
    · rfl

theorem read_eq_slice (s : Selector) (document : Value)
    (hsize : ∀ elements, document = .array elements → elements.length < 2 ^ 63) :
    s.read document = s.slice document := by
  unfold slice
  rcases Bool.eq_false_or_eq_true s.isAll with hall | hall
  · rw [read_all hall, if_pos (isAll_iff.mp hall)]
  · have hnotall : ¬ (s.start = 0 ∧ s.stop = -1) := by
      rw [← isAll_iff, hall]
      exact Bool.false_ne_true
    rw [if_neg hnotall]
    cases document with
    | array elements =>
      rcases Bool.eq_false_or_eq_true s.isRange with hrange | hindex
      · exact read_eq_sliceElements_of_range hall hrange (hsize elements rfl)
      · exact read_eq_sliceElements_of_index hindex (hsize elements rfl)
    | _ => exact read_of_not_indexed hall rfl

theorem exists_read_iff_place (hall : s.isAll = false) (hrange : s.isRange = true)
    (hsize : elements.length < 2 ^ 63) :
    (∃ v, s.read (.array elements) = .ok v) ↔
      (0 ≤ place s.start elements.length ∧ place s.start elements.length < elements.length) ∧
        0 ≤ place s.stop elements.length ∧ place s.stop elements.length < elements.length := by
  rw [exists_read_iff hall hrange, Walk.reach_eq_count_iff, ← toInt_resolve_eq_place s.start hsize,
    ← toInt_resolve_eq_place s.stop hsize]
  rfl

/-- A range of an array that is read gives as many elements as its places are apart, and one more, and
each of them is an element of the array. -/
theorem exists_selected_of_read (hall : s.isAll = false) (hrange : s.isRange = true)
    (hsize : elements.length < 2 ^ 63) {v : Value} (h : s.read (.array elements) = .ok v) :
    ∃ selected, v = .array selected ∧
      selected.length =
        (place s.stop elements.length - place s.start elements.length).natAbs + 1 ∧
      ∀ x ∈ selected, x ∈ elements := by
  have hreach := (exists_read_iff hall hrange).mp ⟨v, h⟩
  rw [read_of_reach hrange hsize hreach] at h
  refine ⟨_, (Except.ok.inj h).symm, ?_, fun x hx => ?_⟩
  · rw [Walk.length_selection, toNat_count_eq_place s hsize]
  · rw [Walk.selection_eq_between hreach] at hx
    exact mem_of_mem_between hx

end Selector

/-- **Reading is slicing.**  Every selector reads from every document what its slice is: the document
itself if it is the whole; a type error if there is no array; the elements between the two places
of a range, or the first of these places that is outside the array; and the element at a single
place, or null.  So a range is read just when both its places are in the array, it gives as many
elements as these are apart, and one more, each of which is an element of the array, and a single
element is always read. -/
theorem Expr.evaluate_select_eq_slice (s : Selector) (document : Value) (context : Context)
    (hsize : ∀ elements, document = .array elements → elements.length < 2 ^ 63) :
    let read := (select s).evaluate document context
    read = s.slice document ∧
    ∀ elements, document = .array elements → s.isAll = false →
      let size := elements.length
      let first := Selector.place s.start size
      let last := Selector.place s.stop size
      (s.isRange = true →
        ((∃ v, read = .ok v) ↔ (0 ≤ first ∧ first < size) ∧ 0 ≤ last ∧ last < size) ∧
        ∀ v, read = .ok v → ∃ selected, v = .array selected ∧
          selected.length = (last - first).natAbs + 1 ∧ ∀ x ∈ selected, x ∈ elements) ∧
      (s.isRange = false → ∃ v, read = .ok v) := by
  intro read
  refine ⟨s.read_eq_slice document hsize, ?_⟩
  rintro elements rfl hall size first last
  have hlength := hsize elements rfl
  constructor
  · intro hrange
    exact ⟨Selector.exists_read_iff_place hall hrange hlength, fun v hv =>
      Selector.exists_selected_of_read hall hrange hlength hv⟩
  · intro hindex
    exact ⟨_, Selector.read_index hall hindex elements⟩

/-- Of five elements, `[-1:1]` reads the last four from behind, `[3:7]` is refused for its end, and
null is read at `[-9]`. -/
theorem Expr.evaluate_select_eq_slice_integers :
    let elements := [Value.integer 0, .integer 1, .integer 2, .integer 3, .integer 4]
    let read := fun s : Selector => (select s).evaluate (.array elements) default
    elements.length < 2 ^ 63 ∧
    read (.range (-1) 1) =
      .ok (.array [.integer 4, .integer 3, .integer 2, .integer 1]) ∧
    read (.range 3 7) = .error (.outOfBounds 7 5) ∧
    read (.index (-9)) = .ok .null := by
  intro elements read
  have hsize : elements.length < 2 ^ 63 := by decide
  have hslice : ∀ s, read s = s.slice (.array elements) := fun s =>
    (evaluate_select_eq_slice s (.array elements) default fun others hothers =>
      Value.array.inj hothers ▸ hsize).1
  refine ⟨hsize, (hslice _).trans ?_, (hslice _).trans ?_, (hslice _).trans ?_⟩ <;> rfl

end DocQuery
