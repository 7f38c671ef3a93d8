import DocQuery.Proofs.Selector.Direction
import DocQuery.Proofs.Selector.Effect
import DocQuery.Proofs.Selector.Whole
import DocQuery.Proofs.Value.PartialEquivalence

/-!
# Negative indices as notation

An index of an array, from its front or from its end, may be replaced by the position that it
stands for, as long as the form of the selector stays the same.  The walk is the same then
(`Selector.walk_range_resolve`), and what is read and written is known from the walk.

The form is decided by the indices as they are given, and there are two ways in which it changes.
The indices `0` and `-1` stand for the whole array, which is read like the range from the front to
the back and is not written like it.  And two indices that are different may stand for one position;
they read an array of one element, and the position read twice is a single element
(`Selector.read_range_of_resolve_eq`).

One trace of the notation is left where the forms agree: a value that cannot be spread over a range
is refused with a message that gives the range as it was written
(`Selector.write_spread_resolve_ne`).
-/

namespace DocQuery.Selector

variable {context : Context} {elements : List Value} {a b : Int64}

/-! ### Ranges -/

theorem walk_range_resolve {size : Nat} (ha : 0 ≤ (resolve a size).toInt)
    (hb : 0 ≤ (resolve b size).toInt) :
    (range (resolve a size) (resolve b size)).walk size = (range a b).walk size := by
  show Walk.mk (resolve (resolve a size) size) (resolve (resolve b size) size) = _
  rw [resolve_of_nonneg ha, resolve_of_nonneg hb]
  rfl

section Inside

variable (hsize : elements.length < 2 ^ 63)
  (ha : -(elements.length : Int) ≤ a.toInt ∧ a.toInt < elements.length)
  (hb : -(elements.length : Int) ≤ b.toInt ∧ b.toInt < elements.length)

include hsize ha hb

/-- A range between two positions is read like that between the indices, the whole included. -/
theorem read_range_resolve (hne : resolve a elements.length ≠ resolve b elements.length) :
    (range a b).read (.array elements) =
      (range (resolve a elements.length) (resolve b elements.length)).read (.array elements) := by
  have hwalk := walk_range_resolve (inside_of_index hsize ha).1 (inside_of_index hsize hb).1
  have hreach := reach_of_indices hsize ha hb
  have hdistinct : a ≠ b := fun heq => hne (by rw [heq])
  rw [read_of_reach (isRange_iff.mpr hdistinct) hsize hreach,
    read_of_reach (isRange_iff.mpr hne) hsize (by rwa [hwalk]), hwalk]

theorem write_range_resolve (hall : (range a b).isAll = false)
    (hne : resolve a elements.length ≠ resolve b elements.length) {value : Value}
    (h : context.rangeWrite = .selfCopy ∨ value.isArray = true) :
    (range a b).write context (.array elements) value =
      (range (resolve a elements.length) (resolve b elements.length)).write context
        (.array elements) value := by
  have hdistinct : a ≠ b := fun heq => hne (by rw [heq])
  have hplain := inside_of_index hsize hb
  refine write_eq_of_walk_eq hall (isAll_range_of_nonneg hplain.1) ?_ ?_ (Or.inr h)
  · rw [isRange_iff.mpr hdistinct, isRange_iff.mpr hne]
  · rw [walk_range_resolve (inside_of_index hsize ha).1 hplain.1]

/-- Two indices that stand for one position read an array of one element. -/
theorem read_range_of_resolve_eq (hdistinct : a ≠ b)
    (heq : resolve a elements.length = resolve b elements.length) :
    (range a b).read (.array elements) =
      .ok (.array [elementOrNull elements (resolve a elements.length).toInt.toNat]) := by
  have hwalk : (range a b).walk elements.length =
      ⟨resolve a elements.length, resolve a elements.length⟩ := by
    show Walk.mk (resolve a elements.length) (resolve b elements.length) = _
    rw [heq]
  rw [read_of_reach (isRange_iff.mpr hdistinct) hsize (reach_of_indices hsize ha hb), hwalk,
    Walk.selection_singleton]

end Inside

/-! ### Single elements -/

section Inside

variable (hsize : elements.length < 2 ^ 63)
  (ha : -(elements.length : Int) ≤ a.toInt ∧ a.toInt < elements.length)

include hsize ha

theorem read_index_resolve :
    (index a).read (.array elements) =
      (index (resolve a elements.length)).read (.array elements) := by
  have hinside := inside_of_index hsize ha
  rw [read_index_of_position hinside]
  exact read_index_of_inside (isRange_index a) elements hinside

theorem write_index_resolve (context : Context) (value : Value) :
    (index a).write context (.array elements) value =
      (index (resolve a elements.length)).write context (.array elements) value := by
  have hinside := inside_of_index hsize ha
  refine write_eq_of_walk_eq (isAll_of_isRange_eq_false (isRange_index a))
    (isAll_of_isRange_eq_false (isRange_index _)) ?_ ?_ (Or.inl (isRange_index a))
  · rw [isRange_index, isRange_index]
  · exact (walk_range_resolve hinside.1 hinside.1).symm

end Inside

/-! ### Selectors and their positions -/

/-- **Negative indices are notation as long as the form stays.**  Let `a` and `b` be two indices of
an array, from its front or from its end, and `first` and `last` the positions that they stand for.

If the positions are different, the range from `a` to `b` is read like the range from `first` to
`last`.  Unless it is the whole array it is also written like it, with the same result; only where a
value that is no array is to be spread both are refused, each with a message that gives the range
as it was written.  If `a` and `b` are one index, the element at `a` is read and written like that at
`first`.  And if `a` and `b` are different and stand for one position, the range from `a` to `b` is
read as an array of the one element that the range from `first` to `last` is read as. -/
theorem read_write_resolve {elements : List Value} (hsize : elements.length < 2 ^ 63) {a b : Int64}
    (ha : -(elements.length : Int) ≤ a.toInt ∧ a.toInt < elements.length)
    (hb : -(elements.length : Int) ≤ b.toInt ∧ b.toInt < elements.length) :
    let first := resolve a elements.length
    let last := resolve b elements.length
    let document := Value.array elements
    (first ≠ last →
      (range a b).read document = (range first last).read document ∧
      (¬ (a = 0 ∧ b = -1) → ∀ (context : Context) (value : Value),
        (context.rangeWrite = .selfCopy ∨ value.isArray = true →
          (range a b).write context document value =
            (range first last).write context document value) ∧
        (context.rangeWrite = .spread → value.isArray = false →
          (range a b).write context document value =
            ⟨document, .error (.typeFault (.notSpreadable value.kind (range a b)))⟩ ∧
          (range first last).write context document value =
            ⟨document, .error (.typeFault (.notSpreadable value.kind (range first last)))⟩))) ∧
    (a = b →
      (index a).read document = (index first).read document ∧
      ∀ (context : Context) (value : Value),
        (index a).write context document value = (index first).write context document value) ∧
    (first = last → a ≠ b →
      ∃ x, (range first last).read document = .ok x ∧
        (range a b).read document = .ok (.array [x]) ∧
        Value.array [x] ≠ x ∧ (Value.array [x] == x) = false) := by
  intro first last document
  refine ⟨fun hne => ⟨read_range_resolve hsize ha hb hne, ?_⟩, ?_, ?_⟩
  · intro hwhole context value
    have hall : (range a b).isAll = false := by
      rw [Bool.eq_false_iff, ne_eq, isAll_iff]
      exact hwhole
    have hall' : (range first last).isAll = false :=
      isAll_range_of_nonneg (inside_of_index hsize hb).1
    have hdistinct : a ≠ b := fun heq => hne (congrArg (resolve · elements.length) heq)
    refine ⟨write_range_resolve hsize ha hb hall hne, fun hmode hvalue => ?_⟩
    have hnone := Value.elements?_eq_none hvalue
    exact ⟨write_spread_of_not_array hall (isRange_iff.mpr hdistinct) hmode hnone elements,
      write_spread_of_not_array hall' (isRange_iff.mpr hne) hmode hnone elements⟩
  · rintro -
    exact ⟨read_index_resolve hsize ha, write_index_resolve hsize ha⟩
  · intro heq hdistinct
    -- one position given twice is a single element
    have hsame : range first last = index first := congrArg (range first) heq.symm
    refine ⟨elementOrNull elements first.toInt.toNat, ?_,
      read_range_of_resolve_eq hsize ha hb hdistinct heq, Value.array_singleton_ne _,
      Value.array_singleton_beq_eq_false _⟩
    rw [hsame]
    exact read_index_of_position (inside_of_index hsize ha)

/-- The last two of three elements from the end on, the last element, and the first element by both
of its indices. -/
theorem read_write_resolve_integers :
    let elements := [Value.integer 0, .integer 1, .integer 2]
    let document := Value.array elements
    (elements.length < 2 ^ 63 ∧ resolve (-1) elements.length ≠ resolve (-2) elements.length ∧
      ¬ ((-1 : Int64) = 0 ∧ (-2 : Int64) = -1) ∧
      resolve (-3) elements.length = resolve 0 elements.length ∧ (-3 : Int64) ≠ 0) ∧
    (range (-1) (-2)).read document = (range 2 1).read document ∧
    (range (-1) (-2)).write ⟨.selfCopy⟩ document .null =
      (range 2 1).write ⟨.selfCopy⟩ document .null ∧
    (index (-1)).write ⟨.spread⟩ document (.integer 5) =
      (index 2).write ⟨.spread⟩ document (.integer 5) ∧
    (range (-3) 0).read document = .ok (.array [.integer 0]) := by
  intro elements document
  have hsize : elements.length < 2 ^ 63 := by decide
  have hlast : resolve (-1) elements.length = 2 := by decide
  have hmiddle : resolve (-2) elements.length = 1 := by decide
  have hfirst : resolve (-3) elements.length = 0 := by decide
  have hzero : resolve 0 elements.length = 0 := by decide
  have hne : resolve (-1) elements.length ≠ resolve (-2) elements.length := by decide
  have heq : resolve (-3) elements.length = resolve 0 elements.length := by decide
  have hwhole : ¬ ((-1 : Int64) = 0 ∧ (-2 : Int64) = -1) := by decide
  have hdistinct : (-3 : Int64) ≠ 0 := by decide
  obtain ⟨hrange, -, -⟩ := @read_write_resolve elements hsize (-1) (-2) (by decide) (by decide)
  obtain ⟨-, hindex, -⟩ := @read_write_resolve elements hsize (-1) (-1) (by decide) (by decide)
  obtain ⟨-, -, hone⟩ := @read_write_resolve elements hsize (-3) 0 (by decide) (by decide)
  obtain ⟨hread, hwrite⟩ := hrange hne
  have hset := (hindex rfl).2 ⟨.spread⟩ (.integer 5)
  obtain ⟨x, hx, hsingle, -⟩ := hone heq hdistinct
  rw [hlast, hmiddle] at hread hwrite
  rw [hlast] at hset
  rw [hfirst, hzero] at hx
  obtain rfl : Value.integer 0 = x := Except.ok.inj hx
  exact ⟨⟨hsize, hne, hwhole, heq, hdistinct⟩, hread,
    (hwrite hwhole ⟨.selfCopy⟩ .null).1 (Or.inl rfl), hset, hsingle⟩

/-- Null cannot be spread over the last to the first of three elements, and the messages give the
range as `[-1:0]` and as `[2:0]`. -/
theorem write_spread_resolve_ne :
    let elements := [Value.integer 0, .integer 1, .integer 2]
    let document := Value.array elements
    let first := resolve (-1) elements.length
    let last := resolve 0 elements.length
    (elements.length < 2 ^ 63 ∧
      (-(elements.length : Int) ≤ (-1 : Int64).toInt ∧ (-1 : Int64).toInt < elements.length) ∧
      (-(elements.length : Int) ≤ (0 : Int64).toInt ∧ (0 : Int64).toInt < elements.length) ∧
      first ≠ last ∧ ¬ ((-1 : Int64) = 0 ∧ (0 : Int64) = -1)) ∧
    ∃ e e', ((range (-1) 0).write ⟨.spread⟩ document .null).result = .error e ∧
      ((range first last).write ⟨.spread⟩ document .null).result = .error e' ∧
      e.message = "Type error: Cannot spread null over array range [-1:0]" ∧
      e'.message = "Type error: Cannot spread null over array range [2:0]" ∧
      ((range (-1) 0).write ⟨.spread⟩ document .null).result ≠
        ((range first last).write ⟨.spread⟩ document .null).result := by
  intro elements document first last
  have hresult : ((range (-1) 0).write ⟨.spread⟩ document .null).result =
      .error (.typeFault (.notSpreadable .null (range (-1) 0))) := rfl
  have hplain : range first last = range 2 0 := by decide
  have hresult' : ((range first last).write ⟨.spread⟩ document .null).result =
      .error (.typeFault (.notSpreadable .null (range 2 0))) := by
    rw [hplain]
    rfl
  refine ⟨by decide, _, _, hresult, hresult', by decide, by decide, ?_⟩
  rw [hresult, hresult']
  decide

end DocQuery.Selector
