import DocQuery.Proofs.Walk.SelfCopy
import DocQuery.Selector.Read

/-!
# Reading and writing by form

What `Selector.read` and `Selector.write` do to each form of selector and each kind of document, one
law for each case.  The laws for ranges speak of the walk: a range is read when all of the walk is
within reach (`Selector.readRange_of_reach`, `Selector.reach_of_readRange`), and it is filled as far
as the walk reaches, with contents that are fixed from the start (`Selector.write_selfCopy`,
`Selector.write_spread`).

A write of given values leaves nothing of an earlier one at the same place
(`Selector.write_write_index`, `Selector.write_write_spread`).
-/

namespace DocQuery

namespace Value

/-! ### Documents -/

/-- A document is an array, or it cannot be indexed. -/
theorem eq_array_or_not_indexed (document : Value) :
    (∃ elements, document = array elements) ∨
      document.indexed = .error (.typeFault (.notIndexable document.kind)) := by
  cases document with
  | array elements => exact Or.inl ⟨elements, rfl⟩
  | _ => exact Or.inr rfl

theorem elements?_eq_none {v : Value} (h : v.isArray = false) : v.elements? = none := by
  cases v with
  | array elements => cases h
  | _ => rfl

theorem indexed_of_not_array {document : Value} (h : document.elements? = none) :
    document.indexed = .error (.typeFault (.notIndexable document.kind)) := by
  rw [indexed, h]

theorem indexed_array (elements : List Value) : (array elements).indexed = .ok elements :=
  rfl

theorem arraySet_of_slot {elements : List Value} {position : Int64} {i : Nat} (x : Value)
    (h : slot? position elements.length = some i) :
    (array elements).arraySet position x = ⟨array (elements.set i x), .ok ()⟩ := by
  unfold arraySet
  rw [indexed_array]
  simp only [Except.bind, replaceAt, h]

theorem arraySet_of_no_slot {elements : List Value} {position : Int64} (x : Value)
    (h : slot? position elements.length = none) :
    (array elements).arraySet position x =
      ⟨array elements, .error (.outOfBounds position elements.length)⟩ := by
  unfold arraySet
  rw [indexed_array]
  simp only [Except.bind, replaceAt, h]

theorem arraySet_of_not_indexed {document : Value} {e : EvalError} (position : Int64) (x : Value)
    (h : document.indexed = .error e) : document.arraySet position x = ⟨document, .error e⟩ := by
  unfold arraySet
  rw [h]
  rfl

theorem slot?_of_inside {position : Int64} {size : Nat}
    (h : 0 ≤ position.toInt ∧ position.toInt < size) :
    slot? position size = some position.toInt.toNat :=
  if_pos h

theorem slot?_of_outside {position : Int64} {size : Nat}
    (h : ¬ (0 ≤ position.toInt ∧ position.toInt < size)) : slot? position size = none :=
  if_neg h

theorem checkPosition_of_outside {position : Int64} {size : Nat}
    (h : ¬ (0 ≤ position.toInt ∧ position.toInt < size)) :
    checkPosition position size = .error (.outOfBounds position size) := by
  rw [checkPosition, slot?_of_outside h]

theorem checkPosition_eq_ok_iff {position : Int64} {size : Nat} :
    checkPosition position size = .ok () ↔ 0 ≤ position.toInt ∧ position.toInt < size := by
  unfold checkPosition
  cases hslot : slot? position size with
  | none =>
    rw [slot?_eq_none_iff] at hslot
    simp only [reduceCtorEq, false_iff]
    omega
  | some i =>
    rw [slot?_eq_some_iff] at hslot
    simp only [true_iff]
    omega

theorem elementAt?_position {w : Walk} {elements : List Value} {k : Nat}
    (h : k < w.reach elements.length) :
    elementAt? elements (w.position k) = elements[w.slot k]? := by
  rw [elementAt?, Walk.slot?_position h, Option.bind_some]

end Value

namespace Selector

variable {s : Selector} {context : Context} {elements : List Value}

/-! ### Forms -/

/-- The indices of a single element are equal, and those of the whole array are not. -/
theorem isAll_of_isRange_eq_false (hindex : s.isRange = false) : s.isAll = false := by
  rw [isRange_eq_false_iff] at hindex
  rw [Bool.eq_false_iff, ne_eq, isAll_iff, hindex]
  rintro ⟨hzero, hlast⟩
  exact absurd (hzero.symm.trans hlast) (by decide)

/-! ### Reading -/

theorem read_all (h : s.isAll = true) (document : Value) : s.read document = .ok document := by
  rw [read, if_pos h]

theorem read_of_not_indexed {document : Value} {e : EvalError} (hall : s.isAll = false)
    (h : document.indexed = .error e) : s.read document = .error e := by
  rw [read, if_neg (by rw [hall]; decide), h]
  rfl

theorem read_index (hall : s.isAll = false) (hindex : s.isRange = false) (elements : List Value) :
    s.read (.array elements) =
      .ok ((Value.elementAt? elements (resolve s.start elements.length)).getD default) := by
  rw [read, if_neg (by rw [hall]; decide), Value.indexed_array]
  simp only [bind, Except.bind, hindex, Bool.false_eq_true, if_false]
  rfl

theorem read_eq_readRange (hall : s.isAll = false) (hrange : s.isRange = true)
    (elements : List Value) :
    s.read (.array elements) = readRange (s.walk elements.length) elements := by
  rw [read, if_neg (by rw [hall]; decide), Value.indexed_array]
  simp only [bind, Except.bind, hrange, if_true]

/-- A walk that stays within reach is read slot by slot. -/
theorem readRange_of_reach {w : Walk} (h : w.reach elements.length = w.count.toNat) :
    readRange w elements =
      .ok (.array ((List.range w.count.toNat).map fun k => elementOrNull elements (w.slot k))) := by
  have hends := Walk.reach_eq_count_iff.mp h
  unfold readRange
  rw [Value.checkPosition_eq_ok_iff.mpr hends.1, Value.checkPosition_eq_ok_iff.mpr hends.2]
  simp only [bind, Except.bind, pure, Except.pure, Walk.positions, List.map_map]
  congr 2
  apply List.map_congr_left
  intro k hk
  have hk : k < w.reach elements.length := by rw [h]; exact List.mem_range.mp hk
  rw [Function.comp, Value.elementAt?_position hk, elementOrNull]

/-- Only a walk that stays within reach is read. -/
theorem reach_of_readRange {w : Walk} {v : Value} (h : readRange w elements = .ok v) :
    w.reach elements.length = w.count.toNat := by
  unfold readRange at h
  cases hfirst : Value.checkPosition w.first elements.length with
  | error e =>
    rw [hfirst] at h
    cases h
  | ok _ =>
    cases hlast : Value.checkPosition w.last elements.length with
    | error e =>
      rw [hfirst, hlast] at h
      cases h
    | ok _ =>
      exact Walk.reach_eq_count_iff.mpr
        ⟨Value.checkPosition_eq_ok_iff.mp hfirst, Value.checkPosition_eq_ok_iff.mp hlast⟩

/-- A walk that starts outside the array is refused at its start. -/
theorem readRange_of_outside {w : Walk}
    (h : ¬ (0 ≤ w.first.toInt ∧ w.first.toInt < elements.length)) :
    readRange w elements = .error (.outOfBounds w.first elements.length) := by
  rw [readRange, Value.checkPosition_of_outside h]
  rfl

/-- A walk that leaves the array is refused at its end, which may lie far outside. -/
theorem readRange_of_leaving {w : Walk}
    (hfirst : 0 ≤ w.first.toInt ∧ w.first.toInt < elements.length)
    (hlast : ¬ (0 ≤ w.last.toInt ∧ w.last.toInt < elements.length)) :
    readRange w elements = .error (.outOfBounds w.last elements.length) := by
  rw [readRange, Value.checkPosition_eq_ok_iff.mpr hfirst, Value.checkPosition_of_outside hlast]
  rfl

/-! ### Writing -/

theorem write_all (h : s.isAll = true) (context : Context) (document value : Value) :
    s.write context document value = ⟨value, .ok ()⟩ := by
  rw [write, if_pos h]

theorem write_of_not_indexed {document : Value} {e : EvalError} (hall : s.isAll = false)
    (h : document.indexed = .error e) (context : Context) (value : Value) :
    s.write context document value = ⟨document, .error e⟩ := by
  rw [write, if_neg (by rw [hall]; decide), h]

theorem write_index (hall : s.isAll = false) (hindex : s.isRange = false) (context : Context)
    (elements : List Value) (value : Value) :
    s.write context (.array elements) value =
      (Value.array elements).arraySet (resolve s.start elements.length) value := by
  rw [write, if_neg (by rw [hall]; decide), Value.indexed_array]
  simp only [hindex, Bool.false_eq_true, if_false]

theorem write_eq_writeRange (hall : s.isAll = false) (hrange : s.isRange = true)
    (context : Context) (elements : List Value) (value : Value) :
    s.write context (.array elements) value = s.writeRange context elements value := by
  rw [write, if_neg (by rw [hall]; decide), Value.indexed_array]
  simp only [hrange, if_true]

/-- A range that is written from the array itself is filled with the elements of the origins. -/
theorem write_selfCopy (hall : s.isAll = false) (hrange : s.isRange = true)
    (hmode : context.rangeWrite = .selfCopy) (elements : List Value) (value : Value) :
    let w := s.walk elements.length
    ∃ filled, s.write context (.array elements) value =
        ⟨.array filled, w.verdict elements.length⟩ ∧
      w.Filled (w.reach elements.length) (fun k => elementOrNull elements (w.origin k)) elements
        filled := by
  refine ⟨_, ?_, Walk.filled_selfCopy (Nat.le_refl _)⟩
  rw [write_eq_writeRange hall hrange]
  simp only [writeRange, source, hmode, Walk.fill_eq]
  rfl

/-- A range over which an array is spread is filled with the elements of this array. -/
theorem write_spread (hall : s.isAll = false) (hrange : s.isRange = true)
    (hmode : context.rangeWrite = .spread) (elements values : List Value) :
    let w := s.walk elements.length
    ∃ filled, s.write context (.array elements) (.array values) =
        ⟨.array filled, w.verdict elements.length⟩ ∧
      w.Filled (w.reach elements.length) (elementOrNull values) elements filled := by
  refine ⟨_, ?_, Walk.filled_afterSteps (fun _ _ _ _ => rfl) (Nat.le_refl _)⟩
  rw [write_eq_writeRange hall hrange]
  simp only [writeRange, source, hmode, Value.elements?, Walk.fill_eq]

theorem write_spread_of_not_array {value : Value} (hall : s.isAll = false)
    (hrange : s.isRange = true) (hmode : context.rangeWrite = .spread)
    (h : value.elements? = none) (elements : List Value) :
    s.write context (.array elements) value =
      ⟨.array elements, .error (.typeFault (.notSpreadable value.kind s))⟩ := by
  rw [write_eq_writeRange hall hrange]
  simp only [writeRange, source, hmode, h]

/-! ### Writing twice -/

/-- A second value for a single element takes the place of the first. -/
theorem write_write_index (hall : s.isAll = false) (hindex : s.isRange = false)
    (elements : List Value) (value other : Value) :
    s.write context (s.write context (.array elements) value).document other =
      s.write context (.array elements) other := by
  rw [write_index hall hindex, write_index hall hindex]
  cases hslot : Value.slot? (resolve s.start elements.length) elements.length with
  | none =>
    rw [Value.arraySet_of_no_slot value hslot, write_index hall hindex]
  | some i =>
    have hset : Value.slot? (resolve s.start (elements.set i value).length)
        (elements.set i value).length = some i := by rw [List.length_set, hslot]
    rw [Value.arraySet_of_slot value hslot, write_index hall hindex,
      Value.arraySet_of_slot other hset, Value.arraySet_of_slot other hslot, List.set_set]

/-- A second array that is spread over a range takes the place of the first, also where the range
runs out of the elements. -/
theorem write_write_spread (hall : s.isAll = false) (hrange : s.isRange = true)
    (hmode : context.rangeWrite = .spread) (elements values others : List Value) :
    s.write context (s.write context (.array elements) (.array values)).document (.array others) =
      s.write context (.array elements) (.array others) := by
  obtain ⟨first, hfirst, hfilled⟩ := write_spread hall hrange hmode elements values
  obtain ⟨second, hsecond, hrefilled⟩ := write_spread hall hrange hmode first others
  obtain ⟨alone, halone, hother⟩ := write_spread hall hrange hmode elements others
  have hlength := hfilled.length_eq
  rw [hlength] at hsecond hrefilled
  have hsame : second = alone := (hfilled.trans hrefilled).unique hother
  rw [hfirst, hsecond, halone, hsame]

end Selector

end DocQuery
