import DocQuery.Proofs.Selector.Access
import DocQuery.Proofs.Value.Equality
import Mathlib.Data.List.Nodup

/-!
# When copying in place is copying

A range that is filled from the array itself reads what has been written where the range runs into
its own source.  Spreading a copy of the array over the range reads the elements as they were.
`Selector.selfCopy_spread_agreement` draws the line: the two writes do the same just when no
element is read after it was written (`Walk.ReadsAhead`), and otherwise they differ on every array
without equal elements.

In terms of origins, a walk reads ahead when each element it brings is its own origin
(`Walk.origin_eq_of_readsAhead`); otherwise some step brings an element from further in front
(`Walk.exists_origin_lt`).
-/

namespace DocQuery

namespace Walk

/-- In an array of `size` elements, the walk writes no element before it reads it as a source: it
goes up from the front, or up to less than twice as far from the front as it starts, or down to no
less than half as far. -/
def ReadsAhead (w : Walk) (size : Nat) : Prop :=
  w.first.toInt = 0 ∧ w.first.toInt ≤ w.lastInside size ∨
  0 < w.first.toInt ∧ w.first.toInt ≤ w.lastInside size ∧
    w.lastInside size < 2 * w.first.toInt ∨
  w.lastInside size < w.first.toInt ∧ w.first.toInt ≤ 2 * w.lastInside size

variable {w : Walk} {size : Nat}

theorem origin_eq_of_readsAhead (h : w.ReadsAhead size) {k : Nat} (hk : k < w.reach size) :
    w.origin k = k := by
  have hinside := inside_of_lt_reach hk
  rw [reach_of_inside hinside] at hk
  unfold ReadsAhead at h
  by_cases hdir : w.first.toInt < w.last.toInt
  · rw [origin_up hdir]
    by_cases hzero : w.first.toInt.toNat = 0
    · rw [hzero, Nat.mod_zero]
    · -- fewer steps than elements in front of the walk, none of which it writes
      apply Nat.mod_eq_of_lt
      unfold lastInside at h hk
      omega
  · -- the walk ends before it comes to what it has read
    rw [origin_down hdir]
    unfold lastInside at h hk
    omega

theorem exists_origin_lt (hinside : 0 ≤ w.first.toInt ∧ w.first.toInt < size)
    (h : ¬ w.ReadsAhead size) : ∃ k < w.reach size, w.origin k < k := by
  rw [reach_of_inside hinside]
  unfold ReadsAhead at h
  by_cases hdir : w.first.toInt < w.last.toInt
  · -- the step that takes the first element that the walk has written
    refine ⟨w.first.toInt.toNat, ?_, ?_⟩
    · unfold lastInside at h ⊢
      omega
    · rw [origin_up hdir, Nat.mod_self]
      unfold lastInside at h
      omega
  · -- the last step within reach
    refine ⟨(w.first.toInt - w.lastInside size).toNat, ?_, ?_⟩
    · unfold lastInside at h ⊢
      omega
    · rw [origin_down hdir]
      unfold lastInside at h ⊢
      omega

end Walk

namespace Selector

variable {s : Selector}

/-- Filling a walk from the array itself and from a copy of it differs, if some step brings another
element and no two elements are the same. -/
theorem filled_differ {w : Walk} {elements xs ys : List Value}
    (hxs : w.Filled (w.reach elements.length) (fun k => elementOrNull elements (w.origin k))
      elements xs)
    (hys : w.Filled (w.reach elements.length) (elementOrNull elements) elements ys)
    {k : Nat} (hk : k < w.reach elements.length) (horigin : w.origin k < k) :
    (elements.Nodup → xs ≠ ys) ∧
    (elements.Pairwise (fun x y => (x == y) = false) →
      (Value.array xs == Value.array ys) = false) := by
  have hx := hxs.written k hk
  have hy := hys.written k hk
  have hlt : k < elements.length := Nat.lt_of_lt_of_le hk (Walk.reach_le_size w _)
  have hlt' : w.origin k < elements.length := Nat.lt_trans horigin hlt
  constructor
  · -- the same elements at `k` and at its origin, which are two places
    rintro hnodup rfl
    rw [hx, ← Walk.getElem?_eq_some_elementOrNull hlt,
      ← Walk.getElem?_eq_some_elementOrNull hlt'] at hy
    have hsame := (List.getElem?_inj hlt' hnodup).mp hy
    omega
  · intro hdiffer
    rw [Value.array_beq_array, ← Bool.not_eq_true]
    intro hequal
    have hbeq := Value.beq_of_elementsEqual hequal hx hy
    have hne := List.pairwise_iff_getElem.mp hdiffer (w.origin k) k hlt' hlt horigin
    rw [elementOrNull, elementOrNull, List.getElem?_eq_getElem hlt, List.getElem?_eq_getElem hlt',
      Option.getD_some, Option.getD_some, hne] at hbeq
    cases hbeq

/-- **The two ways to fill a range agree exactly when the walk reads ahead.**  Filling a range from
the array itself, and spreading a copy of the array over it, have the same result and leave the same
document when no element is read after it was written.  Otherwise they leave different documents of
every array whose elements are pairwise different, and unequal ones where these are unequal. -/
theorem selfCopy_spread_agreement (hall : s.isAll = false) (hrange : s.isRange = true)
    (elements : List Value) (value : Value)
    (hstart : 0 ≤ (resolve s.start elements.length).toInt ∧
      (resolve s.start elements.length).toInt < elements.length) :
    let copied := s.write ⟨.selfCopy⟩ (.array elements) value
    let spread := s.write ⟨.spread⟩ (.array elements) (.array elements)
    ((s.walk elements.length).ReadsAhead elements.length → copied = spread) ∧
    (¬ (s.walk elements.length).ReadsAhead elements.length →
      (elements.Nodup → copied.document ≠ spread.document) ∧
      (elements.Pairwise (fun x y => (x == y) = false) →
        (copied.document == spread.document) = false)) := by
  have hcopy : (Context.mk .selfCopy).rangeWrite = .selfCopy := rfl
  have hmode : (Context.mk .spread).rangeWrite = .spread := rfl
  obtain ⟨xs, hcopied, hxs⟩ := write_selfCopy hall hrange hcopy elements value
  obtain ⟨ys, hspread, hys⟩ := write_spread hall hrange hmode elements elements
  simp only [hcopied, hspread]
  constructor
  · intro hahead
    have hcontents := hxs.congr fun k hk => by rw [Walk.origin_eq_of_readsAhead hahead hk]
    rw [hcontents.unique hys]
  · intro hbehind
    obtain ⟨k, hk, hlt⟩ := Walk.exists_origin_lt (w := s.walk elements.length) hstart hbehind
    obtain ⟨hne, hunequal⟩ := filled_differ hxs hys hk hlt
    exact ⟨fun hnodup heq => hne hnodup (Value.array.inj heq), hunequal⟩

/-- Of five elements, the copy of `[1:4]` reads the second after it was written; that of `[2:3]` is
done before it comes to the third. -/
theorem selfCopy_spread_agreement_integers :
    let elements := [Value.integer 0, .integer 1, .integer 2, .integer 3, .integer 4]
    let first := (resolve 1 elements.length).toInt
    ((range 1 4).isAll = false ∧ (range 1 4).isRange = true ∧
      0 ≤ first ∧ first < elements.length) ∧
    ((range 1 4).write ⟨.selfCopy⟩ (.array elements) .null).document ≠
      ((range 1 4).write ⟨.spread⟩ (.array elements) (.array elements)).document ∧
    (range 2 3).write ⟨.selfCopy⟩ (.array elements) .null =
      (range 2 3).write ⟨.spread⟩ (.array elements) (.array elements) := by
  refine ⟨by decide, ?_, ?_⟩
  · refine ((selfCopy_spread_agreement (by decide) (by decide) _ _ (by decide)).2 ?_).1 (by simp)
    unfold Walk.ReadsAhead
    decide
  · refine (selfCopy_spread_agreement (by decide) (by decide) _ _ (by decide)).1 ?_
    unfold Walk.ReadsAhead
    decide

end Selector

end DocQuery
