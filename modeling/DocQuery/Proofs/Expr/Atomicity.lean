import DocQuery.Expr.Basic
import DocQuery.Proofs.Selector.Effect

/-!
# What a failed write leaves behind

A write that fails leaves the document as it was, with one exception: a range of an array that starts
inside and ends outside, when there are elements to write (`Selector.StopsMidway`).  Such a write
fills all positions up to the end of the array and fails at the position next to it
(`Selector.write_of_stopsMidway`).  Every other failure comes before the first element is written
(`Selector.write_failure_of_not_stopsMidway`), and for a range it names the start, or the value where
this has no elements; the value is looked at before any position is.

`Expr.set_failure` has it all.  Ranges are dealt with by the verdict on their walk: what a walk can
fill is what it reaches, and this is nothing just when it starts outside.
-/

namespace DocQuery

namespace Selector

/-- A write over a range of an array that begins and cannot be finished: there are elements to write,
and the range starts at a position of the array and ends at none. -/
structure StopsMidway (s : Selector) (context : Context) (elements : List Value) (value : Value) :
    Prop where
  isAll_eq_false : s.isAll = false
  isRange_eq_true : s.isRange = true
  supplied : context.rangeWrite = .selfCopy ∨ value.isArray = true
  start_inside : 0 ≤ (resolve s.start elements.length).toInt ∧
    (resolve s.start elements.length).toInt < elements.length
  stop_outside : ¬ (0 ≤ (resolve s.stop elements.length).toInt ∧
    (resolve s.stop elements.length).toInt < elements.length)

/-- The elements that a write over a range takes from, as they are before the write. -/
def supply (context : Context) (elements : List Value) (value : Value) : List Value :=
  match context.rangeWrite with
  | .selfCopy => elements
  | .spread => value.elements?.getD []

variable {s : Selector} {context : Context}

/-! ### Ranges with elements to write -/

/-- A range is filled as far as its walk reaches, from the first element of the supply on. -/
theorem write_of_supplied (hall : s.isAll = false) (hrange : s.isRange = true)
    (elements : List Value) {value : Value}
    (hsupplied : context.rangeWrite = .selfCopy ∨ value.isArray = true) :
    let w := s.walk elements.length
    ∃ content filled, s.write context (.array elements) value =
        ⟨.array filled, w.verdict elements.length⟩ ∧
      w.Filled (w.reach elements.length) content elements filled ∧
      content 0 = elementOrNull (supply context elements value) 0 := by
  intro w
  obtain ⟨filled, hwrite, hfilled⟩ := write_eq hall context elements value
  rw [effect_of_supplied _ (Or.inr hsupplied)] at hwrite hfilled
  refine ⟨_, filled, hwrite, hfilled, ?_⟩
  have horigin : w.origin 0 = 0 := Nat.le_zero.mp (w.origin_le 0)
  rw [content, if_pos hrange, supply]
  cases context.rangeWrite with
  | selfCopy => exact congrArg (elementOrNull elements) horigin
  | spread => rfl

/-- A write that stops midway has written its first element, and it fails at the position next to
the array. -/
theorem write_of_stopsMidway {elements : List Value} {value : Value}
    (h : s.StopsMidway context elements value) :
    ∃ after position, s.write context (.array elements) value =
        ⟨.array after, .error (.outOfBounds position elements.length)⟩ ∧
      position.toInt =
        (if (resolve s.stop elements.length).toInt < 0 then -1 else (elements.length : Int)) ∧
      after.length = elements.length ∧
      after[(resolve s.start elements.length).toInt.toNat]? =
        some (elementOrNull (supply context elements value) 0) := by
  obtain ⟨content, after, hwrite, hfilled, hcontent⟩ :=
    write_of_supplied h.isAll_eq_false h.isRange_eq_true elements h.supplied
  obtain ⟨position, hverdict, hposition⟩ :=
    Walk.verdict_of_leaving (w := s.walk elements.length) h.start_inside h.stop_outside
  refine ⟨after, position, by rw [hwrite, hverdict], hposition, hfilled.length_eq, ?_⟩
  have hinside : 0 ≤ (s.walk elements.length).first.toInt ∧
      (s.walk elements.length).first.toInt < elements.length := h.start_inside
  have hreach : 0 < (s.walk elements.length).reach elements.length := by
    rw [Walk.reach_of_inside hinside]
    omega
  have hfirst := hfilled.written 0 hreach
  rw [Walk.slot_zero, hcontent] at hfirst
  exact hfirst

/-! ### Failures of ranges -/

/-- The error of a write over a range that fails before the first element is written: the value is
refused if it has no elements to spread, and otherwise the start of the range. -/
def refusal (s : Selector) (context : Context) (elements : List Value) (value : Value) :
    EvalError :=
  if context.rangeWrite = .spread ∧ value.isArray = false then
    .typeFault (.notSpreadable value.kind s)
  else .outOfBounds (resolve s.start elements.length) elements.length

theorem write_failure_of_not_stopsMidway (hall : s.isAll = false) (hrange : s.isRange = true)
    {elements : List Value} {value : Value} {err : EvalError}
    (herr : (s.write context (.array elements) value).result = .error err)
    (hnot : ¬ s.StopsMidway context elements value) :
    s.write context (.array elements) value =
      ⟨.array elements, .error (s.refusal context elements value)⟩ := by
  by_cases hsupplied : context.rangeWrite = .selfCopy ∨ value.isArray = true
  · have hrefused : ¬ (context.rangeWrite = .spread ∧ value.isArray = false) := fun hnot =>
      not_supplied_iff.mpr hnot hsupplied
    obtain ⟨content, filled, hwrite, hfilled, -⟩ :=
      write_of_supplied hall hrange elements hsupplied
    rw [hwrite] at herr ⊢
    -- the walk fails and does not stop midway, so it starts outside and reaches nothing
    have hstart : ¬ (0 ≤ (s.walk elements.length).first.toInt ∧
        (s.walk elements.length).first.toInt < elements.length) := by
      intro hinside
      by_cases hstop : 0 ≤ (s.walk elements.length).last.toInt ∧
          (s.walk elements.length).last.toInt < elements.length
      · rw [Walk.verdict_eq_ok_iff.mpr (Walk.reach_eq_count_iff.mpr ⟨hinside, hstop⟩)] at herr
        cases herr
      · exact hnot ⟨hall, hrange, hsupplied, hinside, hstop⟩
    rw [Walk.reach_of_outside hstart] at hfilled
    rw [hfilled.unique (Walk.Filled.zero _ _ _), Walk.verdict_of_outside hstart, refusal,
      if_neg hrefused]
    rfl
  · rw [write_of_not_supplied hall hrange elements hsupplied, refusal,
      if_pos (not_supplied_iff.mp hsupplied)]

/-- A write to a single element that fails leaves the document as it was. -/
theorem write_index_document_of_error {elements : List Value} {value : Value} {err : EvalError}
    (hall : s.isAll = false) (hindex : s.isRange = false)
    (herr : (s.write context (.array elements) value).result = .error err) :
    (s.write context (.array elements) value).document = .array elements := by
  rw [write_index hall hindex] at herr ⊢
  cases hslot : Value.slot? (resolve s.start elements.length) elements.length with
  | none => rw [Value.arraySet_of_no_slot value hslot]
  | some i =>
    rw [Value.arraySet_of_slot value hslot] at herr
    cases herr

/-- A write to an array that fails and does not stop midway leaves the array as it was. -/
theorem write_document_of_not_stopsMidway {elements : List Value} {value : Value} {err : EvalError}
    (herr : (s.write context (.array elements) value).result = .error err)
    (hnot : ¬ s.StopsMidway context elements value) :
    (s.write context (.array elements) value).document = .array elements := by
  cases hall : s.isAll with
  | true =>
    rw [write_all hall] at herr
    cases herr
  | false =>
    cases hrange : s.isRange with
    | false => exact write_index_document_of_error hall hrange herr
    | true => rw [write_failure_of_not_stopsMidway hall hrange herr hnot]

end Selector

/-! ### Failures of expressions -/

open Selector (resolve elementOrNull supply)

/-- **What a failed write leaves behind.**  Either a range of an array has stopped midway: then its
first element has been written, and the error is the position next to the array, on the side where
the range leaves it.  Or the document is what it was; then, if a range of an array was to be written,
the error is that the value cannot be spread over it, wherever the range may lie, or else the
position at which the range starts. -/
theorem Expr.set_failure (e : Expr) (document value : Value) (context : Context) (err : EvalError)
    (herr : (e.set document value context).result = .error err) :
    (∃ s elements, e = .select s ∧ document = .array elements ∧
      s.StopsMidway context elements value ∧
      ∃ after position, e.set document value context = ⟨.array after, .error err⟩ ∧
        err = .outOfBounds position elements.length ∧
        position.toInt =
          (if (resolve s.stop elements.length).toInt < 0 then -1 else (elements.length : Int)) ∧
        after.length = elements.length ∧
        after[(resolve s.start elements.length).toInt.toNat]? =
          some (elementOrNull (supply context elements value) 0)) ∨
    ((e.set document value context).document = document ∧
      ∀ s elements, e = .select s → document = .array elements →
        ¬ s.StopsMidway context elements value ∧
        (s.isAll = false → s.isRange = true →
          err = if context.rangeWrite = .spread ∧ value.isArray = false then
              .typeFault (.notSpreadable value.kind s)
            else .outOfBounds (resolve s.start elements.length) elements.length)) := by
  cases e with
  | unevaluable diagnostic => exact Or.inr ⟨rfl, fun s elements h => nomatch h⟩
  | select s =>
    rcases Value.eq_array_or_not_indexed document with ⟨elements, rfl⟩ | hnot
    · by_cases hmidway : s.StopsMidway context elements value
      · left
        obtain ⟨after, position, hwrite, hposition, hlength, hfirst⟩ :=
          Selector.write_of_stopsMidway hmidway
        rw [Expr.set, hwrite] at herr ⊢
        obtain rfl := Except.error.inj herr
        exact ⟨s, elements, rfl, rfl, hmidway, after, position, rfl, rfl, hposition, hlength, hfirst⟩
      · right
        refine ⟨Selector.write_document_of_not_stopsMidway herr hmidway, ?_⟩
        intro s' elements' hs helements
        obtain rfl := Expr.select.inj hs
        obtain rfl := Value.array.inj helements
        refine ⟨hmidway, fun hall hrange => ?_⟩
        rw [Expr.set, Selector.write_failure_of_not_stopsMidway hall hrange herr hmidway] at herr
        exact (Except.error.inj herr).symm
    · right
      cases hall : s.isAll with
      | true =>
        rw [Expr.set, Selector.write_all hall] at herr
        cases herr
      | false =>
        refine ⟨by rw [Expr.set, Selector.write_of_not_indexed hall hnot], ?_⟩
        rintro s' elements' - rfl
        cases hnot

/-- Of three elements, the copy of `[1:4]` writes the last two and fails behind them.  A null that
is to be spread over `[7:9]` is refused before the bounds are looked at. -/
theorem Expr.set_failure_integers :
    let document := Value.array [.integer 0, .integer 1, .integer 2]
    let copied := (Expr.select (.range 1 4)).set document .null ⟨.selfCopy⟩
    let spread := (Expr.select (.range 7 9)).set document .null ⟨.spread⟩
    copied.result = .error (.outOfBounds 3 3) ∧
      (∃ after, copied.document = .array after ∧ after.length = 3 ∧
        after[1]? = some (.integer 0)) ∧
    spread.result = .error (.typeFault (.notSpreadable .null (.range 7 9))) ∧
      spread.document = document := by
  intro document copied spread
  have hcopied : copied.result = .error (.outOfBounds 3 3) := rfl
  have hspread : spread.result = .error (.typeFault (.notSpreadable .null (.range 7 9))) := rfl
  refine ⟨hcopied, ?_, hspread, ?_⟩
  · rcases Expr.set_failure _ _ _ _ _ hcopied with
      ⟨s, elements, hs, helements, -, after, position, hset, -, -, hlength, hfirst⟩ | ⟨hsame, -⟩
    · obtain rfl := Expr.select.inj hs
      obtain rfl := Value.array.inj helements
      exact ⟨after, congrArg Outcome.document hset, hlength, hfirst⟩
    · have hfirst : Value.integer 0 = .integer 1 := (List.cons.inj (List.cons.inj
        (Value.array.inj hsame)).2).1
      cases hfirst
  · rcases Expr.set_failure _ _ _ _ _ hspread with
      ⟨s, elements, hs, helements, -, after, position, -, herr, -⟩ | ⟨hsame, -⟩
    · cases herr
    · exact hsame

end DocQuery
