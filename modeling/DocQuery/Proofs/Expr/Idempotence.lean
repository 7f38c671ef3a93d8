import DocQuery.Expr.Basic
import DocQuery.Proofs.Selector.Access

/-!
# Writing twice

Performing a write once more, on the document that it left, gives the same result and leaves the
same document (`Expr.set_set_self`).  This covers the writes that fail, those that failed halfway
through a range included.

Where the array itself is the source, the second write reads what the first has written.  It brings
the same elements because the first left their origins alone (`Walk.elementOrNull_origin`).
-/

namespace DocQuery

namespace Selector

variable {s : Selector} {context : Context}

/-- A range that was filled from the array itself is filled from it again in vain. -/
theorem write_write_selfCopy (hall : s.isAll = false) (hrange : s.isRange = true)
    (hmode : context.rangeWrite = .selfCopy) (elements : List Value) (value : Value) :
    s.write context (s.write context (.array elements) value).document value =
      s.write context (.array elements) value := by
  obtain ⟨once, honce, hfilled⟩ := write_selfCopy hall hrange hmode elements value
  obtain ⟨twice, htwice, hrefilled⟩ := write_selfCopy hall hrange hmode once value
  have hlength := hfilled.length_eq
  rw [hlength] at htwice hrefilled
  -- the second copy brings the same elements, as the first left their origins alone
  have hcontents := hrefilled.congr fun k hk => Walk.elementOrNull_origin hfilled hk
  have hsame : twice = once := hcontents.unique (Walk.Filled.refl hfilled.written)
  rw [honce, htwice, hsame]

/-- What was written through a selector is written again in vain. -/
theorem write_write_self (s : Selector) (context : Context) (document value : Value) :
    s.write context (s.write context document value).document value =
      s.write context document value := by
  cases hall : s.isAll with
  | true => rw [write_all hall, write_all hall]
  | false =>
    rcases Value.eq_array_or_not_indexed document with ⟨elements, rfl⟩ | hnot
    · cases hrange : s.isRange with
      | false => exact write_write_index hall hrange elements value value
      | true =>
        cases hmode : context.rangeWrite with
        | selfCopy => exact write_write_selfCopy hall hrange hmode elements value
        | spread =>
          cases value with
          | array values => exact write_write_spread hall hrange hmode elements values values
          | _ =>
            rw [write_spread_of_not_array hall hrange hmode rfl,
              write_spread_of_not_array hall hrange hmode rfl]
    · rw [write_of_not_indexed hall hnot, write_of_not_indexed hall hnot]

end Selector

/-- **Writing is idempotent.**  A write that is performed a second time, on the document that the
first left behind, has the same result and leaves this document as it is, whether it succeeds, fails
at once or fails halfway. -/
theorem Expr.set_set_self (e : Expr) (document value : Value) (context : Context) :
    e.set (e.set document value context).document value context = e.set document value context := by
  cases e with
  | select s => exact s.write_write_self context document value
  | unevaluable diagnostic => rfl

end DocQuery
