import DocQuery.Proofs.Selector.Access
import DocQuery.Session

/-!
# Where the elements of a document come from

A session whose steps read, or write a given value to a part of the document, never changes what the
document is: an array keeps its length, and what is no array stays as it is
(`Session.run_confined`).  Every element that is found in the array after some step was there at the
start, or one of the steps so far supplied it (`Step.Supplies`).

The step lemma is `Step.run_array`, and the run lemma `Session.run_array` adds up what the steps
supply.  That a copy of the array into itself supplies nothing, not even a null, is due to
`Walk.origin_lt`: the element it copies exists wherever it is written.
-/

namespace DocQuery

/-! ### Steps -/

/-- A step that leaves the whole of a document in its place: it evaluates or reads, or it writes a
given value at a position or through an expression that is not the whole array. -/
def Step.Confined : Step → Prop
  | evaluate _ _ | arraySet _ _ | arrayGet _ | arrayLen => True
  | set expr _ _ => expr ≠ .select .all
  | adopt _ _ | copy _ _ _ => False

/-- A step that writes a given value. -/
def Step.IsWrite : Step → Prop
  | set _ _ _ | arraySet _ _ => True
  | _ => False

/-- A step that writes, if at all, a range from the array itself. -/
def Step.CopiesWithin : Step → Prop
  | set (.select s) _ context => s.isRange = true ∧ context.rangeWrite = .selfCopy
  | arraySet _ _ => False
  | _ => True

/-- The values that a step can bring into an array of `size` elements. -/
inductive Step.Supplies (size : Nat) : Step → Value → Prop where
  /-- The value that is to be written at a position. -/
  | atPosition (position : Int64) (x : Value) : Supplies size (.arraySet position x) x
  /-- The value that is to be written to a single element. -/
  | single {s : Selector} (hindex : s.isRange = false) (x : Value) (context : Context) :
    Supplies size (.set (.select s) x context) x
  /-- An element of the array that is to be spread over a range. -/
  | spread {s : Selector} {context : Context} {values : List Value} {x : Value}
    (hrange : s.isRange = true) (hmode : context.rangeWrite = .spread) (hx : x ∈ values) :
    Supplies size (.set (.select s) (.array values) context) x
  /-- A null for the positions of a range that the array to be spread over it is too short for. -/
  | padding {s : Selector} {context : Context} {values : List Value}
    (hrange : s.isRange = true) (hmode : context.rangeWrite = .spread)
    (hshort : values.length < (s.walk size).count.toNat) :
    Supplies size (.set (.select s) (.array values) context) .null

theorem Step.CopiesWithin.not_supplies {step : Step} (h : step.CopiesWithin) (size : Nat)
    (x : Value) : ¬ step.Supplies size x := by
  rintro (_ | ⟨hindex⟩ | ⟨hrange, hmode⟩ | ⟨hrange, hmode⟩)
  · exact h
  · rw [h.1] at hindex
    cases hindex
  · rw [h.2] at hmode
    cases hmode
  · rw [h.2] at hmode
    cases hmode

/-! ### Writes to arrays -/

theorem Selector.isAll_eq_false {s : Selector} (h : s ≠ all) : s.isAll = false :=
  Bool.eq_false_iff.mpr (mt isAll_iff_eq_all.mp h)

variable {elements : List Value}

theorem Selector.elementOrNull_mem_or (values : List Value) (k : Nat) :
    elementOrNull values k ∈ values ∨ values.length ≤ k ∧ elementOrNull values k = .null := by
  by_cases hk : k < values.length
  · exact Or.inl (List.mem_of_getElem? (Walk.getElem?_eq_some_elementOrNull hk))
  · refine Or.inr ⟨by omega, ?_⟩
    rw [elementOrNull, List.getElem?_eq_none (by omega)]
    rfl

theorem Value.arraySet_array (elements : List Value) (position : Int64) (x : Value) :
    ∃ after, ((array elements).arraySet position x).document = array after ∧
      after.length = elements.length ∧ ∀ y ∈ after, y ∈ elements ∨ y = x := by
  cases hslot : slot? position elements.length with
  | none =>
    rw [arraySet_of_no_slot x hslot]
    exact ⟨elements, rfl, rfl, fun y hy => Or.inl hy⟩
  | some i =>
    rw [arraySet_of_slot x hslot]
    exact ⟨elements.set i x, rfl, List.length_set, fun y hy => List.mem_or_eq_of_mem_set hy⟩

/-- After a write through a selector the elements are those before and what the write supplies. -/
theorem Selector.write_array {s : Selector} (hall : s.isAll = false) (context : Context)
    (elements : List Value) (value : Value) :
    ∃ after, (s.write context (.array elements) value).document = .array after ∧
      after.length = elements.length ∧ ∀ x ∈ after,
        x ∈ elements ∨ (Step.set (.select s) value context).Supplies elements.length x := by
  cases hrange : s.isRange with
  | false =>
    rw [write_index hall hrange]
    obtain ⟨after, hafter, hlength, hmem⟩ :=
      Value.arraySet_array elements (resolve s.start elements.length) value
    refine ⟨after, hafter, hlength, fun x hx => ?_⟩
    rcases hmem x hx with hx | rfl
    · exact Or.inl hx
    · exact Or.inr (.single hrange x context)
  | true =>
    cases hmode : context.rangeWrite with
    | selfCopy =>
      obtain ⟨filled, heq, hfilled⟩ := write_selfCopy hall hrange hmode elements value
      refine ⟨filled, by rw [heq], hfilled.length_eq, fun x hx => Or.inl ?_⟩
      rcases hfilled.mem hx with hx | ⟨k, hk, rfl⟩
      · exact hx
      · exact List.mem_of_getElem? (Walk.getElem?_eq_some_elementOrNull (Walk.origin_lt hk))
    | spread =>
      cases value with
      | array values =>
        obtain ⟨filled, heq, hfilled⟩ := write_spread hall hrange hmode elements values
        refine ⟨filled, by rw [heq], hfilled.length_eq, fun x hx => ?_⟩
        rcases hfilled.mem hx with hx | ⟨k, hk, rfl⟩
        · exact Or.inl hx
        · rcases elementOrNull_mem_or values k with hk' | ⟨hshort, hnull⟩
          · exact Or.inr (.spread hrange hmode hk')
          · have hcount := Walk.reach_le_count (s.walk elements.length) elements.length
            rw [hnull]
            exact Or.inr (.padding hrange hmode (by omega))
      | _ =>
        rw [write_spread_of_not_array hall hrange hmode rfl]
        exact ⟨elements, rfl, rfl, fun x hx => Or.inl hx⟩

/-! ### Steps and sessions on arrays -/

/-- A confined step leaves an array of the same length, of the elements that were there and of those
that the step supplies. -/
theorem Step.run_array {step : Step} (h : step.Confined) (elements : List Value) :
    ∃ after reply, step.run (.array elements) = (.array after, reply) ∧
      after.length = elements.length ∧
        ∀ x ∈ after, x ∈ elements ∨ step.Supplies elements.length x := by
  cases step with
  | evaluate | arrayGet | arrayLen => exact ⟨elements, _, rfl, rfl, fun x hx => Or.inl hx⟩
  | adopt | copy => exact absurd h id
  | arraySet position value =>
    obtain ⟨after, hafter, hlength, hmem⟩ := Value.arraySet_array elements position value
    refine ⟨after, _, by rw [run, Outcome.toStep, hafter], hlength, fun x hx => ?_⟩
    rcases hmem x hx with hx | rfl
    · exact Or.inl hx
    · exact Or.inr (.atPosition position x)
  | set expr value context =>
    cases expr with
    | unevaluable => exact ⟨elements, _, rfl, rfl, fun x hx => Or.inl hx⟩
    | select s =>
      have hall : s.isAll = false := Selector.isAll_eq_false fun hs => h (by rw [hs])
      obtain ⟨after, hafter, hlength, hmem⟩ := Selector.write_array hall context elements value
      exact ⟨after, _, by rw [run, Outcome.toStep, Expr.set, hafter], hlength, hmem⟩

/-- After each confined step of a session the document is an array of the same length, of elements
from the start and of what the steps so far supply. -/
theorem Session.run_array (elements : List Value) {steps : List Step}
    (hsteps : ∀ step ∈ steps, step.Confined) {k : Nat} (hk : k < steps.length) :
    ∃ after reply, (Session.run (.array elements) steps)[k]? = some (.array after, reply) ∧
      after.length = elements.length ∧ ∀ x ∈ after,
        x ∈ elements ∨ ∃ step ∈ steps.take (k + 1), step.Supplies elements.length x := by
  -- on the steps, for all arrays: the rest of the session starts from what the first step leaves
  induction steps generalizing elements k with
  | nil => exact absurd hk (Nat.not_lt_zero k)
  | cons step rest ih =>
    obtain ⟨next, reply, hrun, hlength, hmem⟩ :=
      Step.run_array (hsteps step (List.mem_cons_self ..)) elements
    cases k with
    | zero =>
      refine ⟨next, reply, by simp only [run, hrun, List.getElem?_cons_zero], hlength, ?_⟩
      intro x hx
      refine (hmem x hx).imp_right fun hsupplies => ⟨step, ?_, hsupplies⟩
      simp only [Nat.zero_add, List.take_succ_cons, List.take_zero, List.mem_singleton]
    | succ k =>
      have hrest : ∀ other ∈ rest, other.Confined := fun other hother =>
        hsteps other (List.mem_cons_of_mem step hother)
      obtain ⟨after, last, hlast, hlength', hmem'⟩ :=
        ih next hrest (Nat.lt_of_succ_lt_succ hk)
      rw [hlength] at hlength' hmem'
      refine ⟨after, last, by simp only [run, hrun, List.getElem?_cons_succ, hlast], hlength', ?_⟩
      intro x hx
      rw [List.take_succ_cons]
      rcases hmem' x hx with hx | ⟨other, hother, hsupplies⟩
      · -- the rest found it there, so the first step left it or supplied it
        refine (hmem x hx).imp_right fun hsupplies => ⟨step, List.mem_cons_self .., hsupplies⟩
      · exact Or.inr ⟨other, List.mem_cons_of_mem step hother, hsupplies⟩

/-! ### Steps and sessions on other documents -/

/-- A confined step leaves a document that is no array as it is, and it fails if it is to write. -/
theorem Step.run_of_not_indexed {step : Step} (h : step.Confined) {document : Value} {e : EvalError}
    (hdocument : document.indexed = .error e) :
    ∃ reply, step.run document = (document, reply) ∧
      (step.IsWrite → ∃ e, reply = .written (.error e)) := by
  cases step with
  | evaluate | arrayGet | arrayLen => exact ⟨_, rfl, fun hwrite => absurd hwrite id⟩
  | adopt | copy => exact absurd h id
  | arraySet position value =>
    refine ⟨.written (.error e), ?_, fun _ => ⟨e, rfl⟩⟩
    rw [run, Outcome.toStep, Value.arraySet_of_not_indexed position value hdocument]
  | set expr value context =>
    cases expr with
    | unevaluable diagnostic => exact ⟨_, rfl, fun _ => ⟨_, rfl⟩⟩
    | select s =>
      have hall : s.isAll = false := Selector.isAll_eq_false fun hs => h (by rw [hs])
      refine ⟨.written (.error e), ?_, fun _ => ⟨e, rfl⟩⟩
      rw [run, Outcome.toStep, Expr.set, Selector.write_of_not_indexed hall hdocument]

theorem Session.run_of_not_indexed {document : Value} {e : EvalError}
    (hdocument : document.indexed = .error e) {steps : List Step}
    (hsteps : ∀ step ∈ steps, step.Confined) {k : Nat} {step : Step}
    (hk : steps[k]? = some step) :
    ∃ reply, (Session.run document steps)[k]? = some (document, reply) ∧
      (step.IsWrite → ∃ e, reply = .written (.error e)) := by
  induction steps generalizing k with
  | nil => cases hk
  | cons first rest ih =>
    obtain ⟨reply, hrun, hreply⟩ :=
      Step.run_of_not_indexed (hsteps first (List.mem_cons_self ..)) hdocument
    cases k with
    | zero =>
      rw [List.getElem?_cons_zero, Option.some.injEq] at hk
      subst hk
      exact ⟨reply, by simp only [run, hrun, List.getElem?_cons_zero], hreply⟩
    | succ k =>
      rw [List.getElem?_cons_succ] at hk
      obtain ⟨reply', hlast, hreply'⟩ :=
        ih (fun other hother => hsteps other (List.mem_cons_of_mem first hother)) hk
      exact ⟨reply', by simp only [run, hrun, List.getElem?_cons_succ, hlast], hreply'⟩

/-- **What a session of confined steps does to its document.**  After each step, failed or not, an
array has the length it had at the start; its elements are those from the start and those that the
steps so far supply, so that copying within the array brings in nothing.  A document that is no
array is never changed, and all writes to it fail. -/
theorem Session.run_confined (document : Value) (steps : List Step)
    (hsteps : ∀ step ∈ steps, step.Confined) :
    (∀ elements, document = .array elements → ∀ k < steps.length,
      ∃ after reply, (Session.run document steps)[k]? = some (.array after, reply) ∧
        after.length = elements.length ∧
        (∀ x ∈ after, x ∈ elements ∨
          ∃ step ∈ steps.take (k + 1), step.Supplies elements.length x) ∧
        ((∀ step ∈ steps.take (k + 1), step.CopiesWithin) → ∀ x ∈ after, x ∈ elements)) ∧
    ((∀ elements, document ≠ .array elements) → ∀ (k : Nat) (step : Step), steps[k]? = some step →
      ∃ reply, (Session.run document steps)[k]? = some (document, reply) ∧
        (step.IsWrite → ∃ e, reply = .written (.error e))) := by
  constructor
  · rintro elements rfl k hk
    obtain ⟨after, reply, hrun, hlength, hmem⟩ := Session.run_array elements hsteps hk
    refine ⟨after, reply, hrun, hlength, hmem, fun hcopies x hx => ?_⟩
    rcases hmem x hx with hx | ⟨step, hstep, hsupplies⟩
    · exact hx
    · exact absurd hsupplies ((hcopies step hstep).not_supplies elements.length x)
  · intro hdocument k step hk
    rcases Value.eq_array_or_not_indexed document with ⟨elements, rfl⟩ | hnot
    · exact absurd rfl (hdocument elements)
    · exact Session.run_of_not_indexed hnot hsteps hk

/-- A copy that runs out of the array, a write that misses it, and a spread that falls short. -/
theorem Session.run_confined_integers :
    let elements := [Value.integer 0, .integer 1, .integer 2]
    let steps := [Step.set (.select (.range 1 4)) .null ⟨.selfCopy⟩, .arraySet 7 (.integer 9),
      .set (.select (.range (-1) 1)) (.array [.integer 5]) ⟨.spread⟩]
    (∀ step ∈ steps, step.Confined) ∧
    ∃ after reply, (Session.run (.array elements) steps)[2]? = some (.array after, reply) ∧
      after.length = 3 ∧ ∀ x ∈ after, x ∈ elements ∨ ∃ step ∈ steps, step.Supplies 3 x := by
  intro elements steps
  have hsteps : ∀ step ∈ steps, step.Confined := by
    simp [steps, Step.Confined, Selector.range, Selector.all]
  obtain ⟨after, reply, hrun, hlength, hmem, -⟩ :=
    (Session.run_confined (.array elements) steps hsteps).1 elements rfl 2 (by decide)
  exact ⟨hsteps, after, reply, hrun, hlength, hmem⟩

end DocQuery
