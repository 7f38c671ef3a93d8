import DocQuery.Proofs.Selector.Access

/-!
# What a write does to an array

A write through a selector other than the whole fills some positions of the selector's walk with
fixed contents, and ends in a certain way.  How many positions these are and how it ends depends on
the length of the array and on the value alone (`Selector.effect`); what goes there, in a range that
is filled from the array itself, on its elements too (`Selector.content`).  `Selector.write_eq` is
this description for the two modes and for the two forms, where the walk of a single element has
one position (`Selector.walk_of_index`).

It compares two writes without a look at the loop: two that fill no position in common, or two of
one selector to arrays that are alike.
-/

namespace DocQuery.Selector

/-- How many positions of its walk a write through a selector fills in an array of `size` elements,
and how the write ends. -/
def effect (s : Selector) (context : Context) (size : Nat) (value : Value) : Nat × Result Unit :=
  if s.isRange = true ∧ context.rangeWrite = .spread ∧ value.isArray = false then
    (0, .error (.typeFault (.notSpreadable value.kind s)))
  else ((s.walk size).reach size, (s.walk size).verdict size)

/-- What a write through a selector puts at the position after `k` steps. -/
def content (s : Selector) (context : Context) (elements : List Value) (value : Value) (k : Nat) :
    Value :=
  if s.isRange then
    match context.rangeWrite with
    | .selfCopy => elementOrNull elements ((s.walk elements.length).origin k)
    | .spread => elementOrNull (value.elements?.getD []) k
  else value

variable {s : Selector} {context : Context}

/-! ### Single elements -/

/-- The walk of a single element is its position. -/
theorem walk_of_index (hindex : s.isRange = false) (size : Nat) :
    s.walk size = ⟨resolve s.start size, resolve s.start size⟩ := by
  rw [walk, ← isRange_eq_false_iff.mp hindex]

/-- A single element is filled as a walk of one position. -/
theorem write_index_eq (hindex : s.isRange = false) (context : Context) (elements : List Value)
    (value : Value) :
    let w := s.walk elements.length
    ∃ after, s.write context (.array elements) value = ⟨.array after, w.verdict elements.length⟩ ∧
      w.Filled (w.reach elements.length) (fun _ => value) elements after := by
  intro w
  have hwalk : w = ⟨resolve s.start elements.length, resolve s.start elements.length⟩ :=
    walk_of_index hindex elements.length
  have hposition : resolve s.start elements.length = w.first := by rw [hwalk]
  have hlast : w.last = w.first := by rw [hwalk]
  rw [write_index (isAll_of_isRange_eq_false hindex) hindex, hposition]
  by_cases hinside : 0 ≤ w.first.toInt ∧ w.first.toInt < elements.length
  · have hreach : w.reach elements.length = 1 := by
      rw [Walk.reach_of_inside hinside, Walk.lastInside, hlast]
      omega
    have hverdict : w.verdict elements.length = .ok () := by
      rw [Walk.verdict_eq_ok_iff, Walk.reach_eq_count_iff, hlast]
      exact ⟨hinside, hinside⟩
    rw [Value.arraySet_of_slot value (Value.slot?_of_inside hinside), hverdict, hreach,
      ← w.slot_zero]
    exact ⟨_, rfl, (Walk.Filled.zero w _ elements).succ (by omega)⟩
  · rw [Value.arraySet_of_no_slot value (Value.slot?_of_outside hinside),
      Walk.verdict_of_outside hinside, Walk.reach_of_outside hinside]
    exact ⟨elements, rfl, Walk.Filled.zero w _ elements⟩

/-! ### All forms -/

/-- A write that has something to write fills what its walk reaches. -/
theorem effect_of_supplied {value : Value} (size : Nat)
    (h : s.isRange = false ∨ context.rangeWrite = .selfCopy ∨ value.isArray = true) :
    s.effect context size value = ((s.walk size).reach size, (s.walk size).verdict size) := by
  apply if_neg
  rintro ⟨hrange, hmode, hvalue⟩
  rw [hrange, hmode, hvalue] at h
  simp at h

/-- A write through a selector that is not the whole fills as many positions as its effect says, with
its contents, and it ends as its effect says. -/
theorem write_eq (hall : s.isAll = false) (context : Context) (elements : List Value)
    (value : Value) :
    let effect := s.effect context elements.length value
    ∃ after, s.write context (.array elements) value = ⟨.array after, effect.2⟩ ∧
      (s.walk elements.length).Filled effect.1 (s.content context elements value) elements after := by
  cases hrange : s.isRange with
  | false =>
    rw [effect_of_supplied _ (Or.inl hrange)]
    obtain ⟨after, hwrite, hfilled⟩ := write_index_eq hrange context elements value
    refine ⟨after, hwrite, hfilled.congr fun k _ => ?_⟩
    simp only [content, hrange, Bool.false_eq_true, if_false]
  | true =>
    cases hmode : context.rangeWrite with
    | selfCopy =>
      rw [effect_of_supplied _ (Or.inr (Or.inl hmode))]
      obtain ⟨after, hwrite, hfilled⟩ := write_selfCopy hall hrange hmode elements value
      refine ⟨after, hwrite, hfilled.congr fun k _ => ?_⟩
      simp only [content, hrange, hmode, if_true]
    | spread =>
      cases value with
      | array values =>
        rw [effect_of_supplied _ (Or.inr (Or.inr rfl))]
        obtain ⟨after, hwrite, hfilled⟩ := write_spread hall hrange hmode elements values
        refine ⟨after, hwrite, hfilled.congr fun k _ => ?_⟩
        simp only [content, hrange, hmode, if_true, Value.elements?, Option.getD_some]
      | _ =>
        rw [write_spread_of_not_array hall hrange hmode rfl, effect, if_pos ⟨hrange, hmode, rfl⟩]
        exact ⟨elements, rfl, Walk.Filled.zero _ _ elements⟩

/-- A write that has something to write ends with the verdict on its walk. -/
theorem result_write_of_supplied (hall : s.isAll = false) (elements : List Value) {value : Value}
    (h : s.isRange = false ∨ context.rangeWrite = .selfCopy ∨ value.isArray = true) :
    (s.write context (.array elements) value).result =
      (s.walk elements.length).verdict elements.length := by
  obtain ⟨after, hwrite, -⟩ := write_eq hall context elements value
  rw [hwrite, effect_of_supplied _ h]

/-- A write over a range has nothing to write when it is to spread a value without elements. -/
theorem not_supplied_iff {value : Value} :
    ¬ (context.rangeWrite = .selfCopy ∨ value.isArray = true) ↔
      context.rangeWrite = .spread ∧ value.isArray = false := by
  rw [not_or, Bool.not_eq_true]
  refine and_congr_left fun _ => ?_
  cases context.rangeWrite <;> simp

/-- A write over a range that has nothing to write is refused, wherever the range may lie. -/
theorem write_of_not_supplied (hall : s.isAll = false) (hrange : s.isRange = true)
    (elements : List Value) {value : Value}
    (h : ¬ (context.rangeWrite = .selfCopy ∨ value.isArray = true)) :
    s.write context (.array elements) value =
      ⟨.array elements, .error (.typeFault (.notSpreadable value.kind s))⟩ := by
  obtain ⟨hmode, hvalue⟩ := not_supplied_iff.mp h
  exact write_spread_of_not_array hall hrange hmode (Value.elements?_eq_none hvalue) elements

/-- Two selectors of one form that stand for one walk write the same, if there is something to
write. -/
theorem write_eq_of_walk_eq {t : Selector} {elements : List Value} {value : Value}
    (hall : s.isAll = false) (hall' : t.isAll = false) (hform : s.isRange = t.isRange)
    (hwalk : s.walk elements.length = t.walk elements.length)
    (h : s.isRange = false ∨ context.rangeWrite = .selfCopy ∨ value.isArray = true) :
    s.write context (.array elements) value = t.write context (.array elements) value := by
  obtain ⟨after, hwrite, hfilled⟩ := write_eq hall context elements value
  obtain ⟨after', hwrite', hfilled'⟩ := write_eq hall' context elements value
  have hcontent : t.content context elements value = s.content context elements value := by
    funext k
    simp only [content, hform, hwalk]
  rw [effect_of_supplied _ h] at hwrite hfilled
  rw [effect_of_supplied _ (hform ▸ h), ← hwalk] at hwrite' hfilled'
  rw [hcontent] at hfilled'
  rw [hwrite, hwrite', hfilled.unique hfilled']

/-- No write fills more than its walk reaches. -/
theorem effect_le_reach (s : Selector) (context : Context) (size : Nat) (value : Value) :
    (s.effect context size value).1 ≤ (s.walk size).reach size := by
  unfold effect
  split
  · exact Nat.zero_le _
  · exact Nat.le_refl _

end DocQuery.Selector
