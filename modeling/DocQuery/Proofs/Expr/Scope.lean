import DocQuery.Expr.Hints
import DocQuery.Proofs.Selector.Effect

/-!
# What a scope says of type errors

The scope of an expression is declared with its kind, and nothing that evaluates or writes looks at
it.  Still it says when a type error comes up (`Expr.typeFault_iff_rejected`): evaluation ends in
one just on the values that the scope does not accept, and only the selector of the whole, which
lets every value through, is out of step with its scope.  A write ends in one there too, and
otherwise just when a value without elements is to be spread over a range of an array.

Below this is a law for each kind of document.  What can go wrong on the way through an array is a
position (`Selector.read_array_ne_typeFault`), or the value that is to be written
(`Selector.result_write_array_eq_typeFault_iff`).  Any other document is refused as such, whatever
the form of the selector, the whole apart (`Selector.read_eq_typeFault_iff`,
`Selector.result_write_eq_typeFault_iff`).
-/

namespace DocQuery

namespace Value

theorem exists_eq_array {document : Value} (h : document.isArray = true) :
    ∃ elements, document = array elements := by
  cases document with
  | array elements => exact ⟨elements, rfl⟩
  | _ => cases h

theorem indexed_of_isArray_eq_false {document : Value} (h : document.isArray = false) :
    document.indexed = .error (.typeFault (.notIndexable document.kind)) :=
  indexed_of_not_array (elements?_eq_none h)

end Value

/-! ### Arrays -/

/-- A walk fails at a position, if it fails. -/
theorem Walk.verdict_ne_typeFault (w : Walk) (size : Nat) (fault : TypeFault) :
    w.verdict size ≠ .error (.typeFault fault) := by
  unfold verdict
  split <;> simp

namespace Selector

variable {s : Selector} {context : Context} {elements : List Value} {document value : Value}
  {fault : TypeFault}

theorem readRange_ne_typeFault (w : Walk) (elements : List Value) (fault : TypeFault) :
    readRange w elements ≠ .error (.typeFault fault) := by
  by_cases hfirst : 0 ≤ w.first.toInt ∧ w.first.toInt < elements.length
  · by_cases hlast : 0 ≤ w.last.toInt ∧ w.last.toInt < elements.length
    · rw [readRange_of_reach (Walk.reach_eq_count_iff.mpr ⟨hfirst, hlast⟩)]
      exact nofun
    · rw [readRange_of_leaving hfirst hlast]
      simp
  · rw [readRange_of_outside hfirst]
    simp

/-- Reading an array never ends in a type error. -/
theorem read_array_ne_typeFault (s : Selector) (elements : List Value) (fault : TypeFault) :
    s.read (.array elements) ≠ .error (.typeFault fault) := by
  cases hall : s.isAll with
  | true =>
    rw [read_all hall]
    exact nofun
  | false =>
    cases hrange : s.isRange with
    | false =>
      rw [read_index hall hrange]
      exact nofun
    | true =>
      rw [read_eq_readRange hall hrange]
      exact readRange_ne_typeFault _ elements fault

/-- Writing to an array ends in a type error just when the elements of a value that has none are to
be spread over a range. -/
theorem result_write_array_eq_typeFault_iff :
    (s.write context (.array elements) value).result = .error (.typeFault fault) ↔
      (context.rangeWrite = .spread ∧ (s.isRange = true ∧ s.isAll = false) ∧
        value.isArray = false) ∧ fault = .notSpreadable value.kind s := by
  cases hall : s.isAll with
  | true =>
    rw [write_all hall]
    simp
  | false =>
    obtain ⟨after, hwrite, -⟩ := write_eq hall context elements value
    rw [hwrite, effect]
    split
    · next hrefused => simpa [hrefused] using eq_comm
    · next hsupplied =>
      refine iff_of_false (Walk.verdict_ne_typeFault _ _ fault) ?_
      rintro ⟨⟨hmode, ⟨hrange, -⟩, hvalue⟩, -⟩
      exact hsupplied ⟨hrange, hmode, hvalue⟩

/-! ### All documents -/

/-- Reading ends in a type error just when the document is no array and is to be indexed. -/
theorem read_eq_typeFault_iff :
    s.read document = .error (.typeFault fault) ↔
      (document.isArray = false ∧ s.isAll = false) ∧ fault = .notIndexable document.kind := by
  cases hall : s.isAll with
  | true =>
    rw [read_all hall]
    simp
  | false =>
    cases hkind : document.isArray with
    | true =>
      obtain ⟨elements, rfl⟩ := Value.exists_eq_array hkind
      exact iff_of_false (read_array_ne_typeFault s elements fault) (by simp)
    | false =>
      rw [read_of_not_indexed hall (Value.indexed_of_isArray_eq_false hkind)]
      simpa using eq_comm

/-- Writing ends in a type error where reading does, and where a value that is no array is to be
spread over a range of one. -/
theorem result_write_eq_typeFault_iff :
    (s.write context document value).result = .error (.typeFault fault) ↔
      (document.isArray = false ∧ s.isAll = false) ∧ fault = .notIndexable document.kind ∨
      (context.rangeWrite = .spread ∧ (s.isRange = true ∧ s.isAll = false) ∧
        document.isArray = true ∧ value.isArray = false) ∧
          fault = .notSpreadable value.kind s := by
  cases hkind : document.isArray with
  | true =>
    obtain ⟨elements, rfl⟩ := Value.exists_eq_array hkind
    rw [result_write_array_eq_typeFault_iff]
    simp
  | false =>
    cases hall : s.isAll with
    | true =>
      rw [write_all hall]
      simp
    | false =>
      rw [write_of_not_indexed hall (Value.indexed_of_isArray_eq_false hkind)]
      simpa using eq_comm

end Selector

namespace Expr

/-! ### Expressions -/

theorem accepts_select (s : Selector) (document : Value) :
    (select s).hints.scope.accepts document = document.isArray :=
  rfl

theorem accepts_unevaluable (diagnostic : String) (document : Value) :
    (unevaluable diagnostic).hints.scope.accepts document = true :=
  rfl

theorem select_ne_all_iff {s : Selector} : select s ≠ select .all ↔ s.isAll = false := by
  rw [ne_eq, select.injEq, ← Selector.isAll_iff_eq_all, Bool.not_eq_true]

/-- **A scope foretells the type errors.**  An expression is evaluated to a type error on the values
that its scope rejects, the selector of the whole apart, and on no others.  Writing through it ends
in a type error on the same documents, and on an array when a value that is no array is to be spread
over a range of it. -/
theorem typeFault_iff_rejected (e : Expr) (document value : Value) (context : Context) :
    let rejected := e.hints.scope.accepts document = false ∧ e ≠ .select .all
    ((∃ fault, e.evaluate document context = .error (.typeFault fault)) ↔ rejected) ∧
    ((∃ fault, (e.set document value context).result = .error (.typeFault fault)) ↔
      rejected ∨
        context.rangeWrite = .spread ∧
          (∃ s, e = .select s ∧ s.start ≠ s.stop ∧ s ≠ .all) ∧
          document.isArray = true ∧ value.isArray = false) := by
  intro rejected
  cases e with
  | unevaluable diagnostic =>
    -- nothing is asked of the document, and no error is one of types
    have haccepted : ¬ rejected := by simp [rejected, accepts_unevaluable]
    simp [evaluate, set, haccepted]
  | select s =>
    have hrejected : rejected ↔ document.isArray = false ∧ s.isAll = false := by
      simp only [rejected, accepts_select, select_ne_all_iff]
    have hrange : (∃ t, select s = select t ∧ t.start ≠ t.stop ∧ t ≠ .all) ↔
        s.isRange = true ∧ s.isAll = false := by
      simp [Selector.isRange_iff, ← Selector.isAll_iff_eq_all]
    constructor
    · rw [hrejected]
      simp [evaluate, Selector.read_eq_typeFault_iff]
    · rw [hrejected, hrange]
      simp [set, Selector.result_write_eq_typeFault_iff, exists_or]

end Expr

end DocQuery
