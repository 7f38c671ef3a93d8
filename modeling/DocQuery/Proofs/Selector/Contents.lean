import DocQuery.Proofs.Selector.Access

/-!
# What a range holds after it was written

The array that a write through a range leaves behind, element by element, in terms of the elements
as they were.

* From the array itself (`Selector.write_selfCopy_contents`): upwards the elements in front of the
  range repeat over it, and downwards the elements up to the start of the range are mirrored in
  their middle.
* From the elements of a value (`Selector.write_spread_contents`): each position of the range holds
  the value of its step, and null where the values have run out.

A range that runs out of the array is cut off at its end, and one that starts outside changes
nothing.
-/

namespace DocQuery.Selector

variable {s : Selector} {context : Context}

/-! ### Filling from the array itself -/

/-- Upwards, each element is the one that many places further in front as the walk starts behind the
front. -/
theorem getElem?_selfCopy_up {w : Walk} {elements after : List Value}
    (h : w.Filled (w.reach elements.length) (fun k => elementOrNull elements (w.origin k)) elements
      after)
    (hinside : 0 ≤ w.first.toInt ∧ w.first.toInt < elements.length)
    (hup : w.first.toInt < w.last.toInt) (i : Nat) :
    after[i]? = if w.first.toInt ≤ i ∧ (i : Int) ≤ min w.last.toInt (elements.length - 1) then
        elements[i % w.first.toInt.toNat]?
      else elements[i]? := by
  have hlow : min w.first.toInt (w.lastInside elements.length) = w.first.toInt := by
    unfold Walk.lastInside
    omega
  have hhigh : max w.first.toInt (w.lastInside elements.length) =
      min w.last.toInt (elements.length - 1) := by
    unfold Walk.lastInside
    omega
  rw [h.getElem?_eq_ite hinside i, hlow, hhigh]
  split
  · next hbetween =>
    have hi : i = w.first.toInt.toNat + (i - w.first.toInt).natAbs := by omega
    have hlt : i % w.first.toInt.toNat < elements.length :=
      Nat.lt_of_le_of_lt (Nat.mod_le _ _) (by omega)
    have horigin : w.origin (i - w.first.toInt).natAbs = i % w.first.toInt.toNat := by
      conv_rhs => rw [hi]
      rw [Walk.origin_up hup, Nat.add_mod_left]
    rw [horigin, Walk.getElem?_eq_some_elementOrNull hlt]
  · rfl

/-- Downwards, the elements are mirrored. -/
theorem getElem?_selfCopy_down {w : Walk} {elements after : List Value}
    (h : w.Filled (w.reach elements.length) (fun k => elementOrNull elements (w.origin k)) elements
      after)
    (hinside : 0 ≤ w.first.toInt ∧ w.first.toInt < elements.length)
    (hdown : w.last.toInt ≤ w.first.toInt) (i : Nat) :
    after[i]? = if max w.last.toInt 0 ≤ i ∧ (i : Int) ≤ w.first.toInt then
        elements[min i (w.first.toInt.toNat - i)]?
      else elements[i]? := by
  have hlow : min w.first.toInt (w.lastInside elements.length) = max w.last.toInt 0 := by
    unfold Walk.lastInside
    omega
  have hhigh : max w.first.toInt (w.lastInside elements.length) = w.first.toInt := by
    unfold Walk.lastInside
    omega
  rw [h.getElem?_eq_ite hinside i, hlow, hhigh]
  split
  · next hbetween =>
    have horigin : w.origin (i - w.first.toInt).natAbs = min i (w.first.toInt.toNat - i) := by
      rw [Walk.origin_down (Int.not_lt.mpr hdown)]
      omega
    have hlt : min i (w.first.toInt.toNat - i) < elements.length := by omega
    rw [horigin, Walk.getElem?_eq_some_elementOrNull hlt]
  · rfl

/-- **Filling a range from the array itself, in closed form.**  Let the range go from position `first`
to `last`, and let `after` be the array that is left, whether all of the range could be filled or
not.  Upwards, the element at `i` of the range is the one that was at `i % first`; downwards, the one
that was at `i` or at `first - i`, whichever is less.  Here the range ends with the array, if it does
not end before.  All other elements stay, all of them do if the range starts outside or goes up from
the front, and the value that is given to the write has no influence at all. -/
theorem write_selfCopy_contents (hall : s.isAll = false) (hrange : s.isRange = true)
    (hmode : context.rangeWrite = .selfCopy) (elements : List Value) :
    let size := elements.length
    let first := (resolve s.start size).toInt
    let last := (resolve s.stop size).toInt
    ∃ (after : List Value) (result : Result Unit),
      (∀ value, s.write context (.array elements) value = ⟨.array after, result⟩) ∧
      after.length = size ∧
      (¬ (0 ≤ first ∧ first < size) → after = elements) ∧
      (0 ≤ first ∧ first < size → first < last →
        (first = 0 → after = elements) ∧
        (0 < first → ∀ i : Nat, after[i]? =
          if first ≤ i ∧ (i : Int) ≤ min last (size - 1) then elements[i % first.toNat]?
          else elements[i]?)) ∧
      (0 ≤ first ∧ first < size → last ≤ first → ∀ i : Nat, after[i]? =
          if max last 0 ≤ i ∧ (i : Int) ≤ first then elements[min i (first.toNat - i)]?
          else elements[i]?) := by
  intro size first last
  have hfirst : (s.walk size).first.toInt = first := rfl
  have hlast : (s.walk size).last.toInt = last := rfl
  obtain ⟨after, hwrite, hfilled⟩ := write_selfCopy hall hrange hmode elements .null
  have hvalue : ∀ value, s.write context (.array elements) value =
      ⟨.array after, (s.walk size).verdict size⟩ := by
    intro value
    obtain ⟨other, hother, hfilled'⟩ := write_selfCopy hall hrange hmode elements value
    rw [hother, hfilled'.unique hfilled]
  rw [← hfirst, ← hlast]
  refine ⟨after, _, hvalue, hfilled.length_eq, fun houtside => ?_, fun hinside hup => ?_,
    fun hinside hdown => getElem?_selfCopy_down hfilled hinside hdown⟩
  · rw [Walk.reach_of_outside houtside] at hfilled
    exact hfilled.unique (Walk.Filled.zero _ _ _)
  · have hcontents := getElem?_selfCopy_up hfilled hinside hup
    refine ⟨fun hfront => List.ext_getElem? fun i => ?_, fun _ => hcontents⟩
    -- there are no elements in front of the range, so each is filled with itself
    rw [hcontents i, hfront, Int.toNat_zero, Nat.mod_zero, ite_self]

/-- Of six elements, `[2:9]` is filled with the first two over and over up to the end of the array,
and `[4:1]` with the first elements, mirrored. -/
theorem write_selfCopy_contents_integers :
    let elements := [Value.integer 0, .integer 1, .integer 2, .integer 3, .integer 4, .integer 5]
    ((default : Context).rangeWrite = .selfCopy ∧
      (range 2 9).isAll = false ∧ (range 2 9).isRange = true ∧
      (range 4 1).isAll = false ∧ (range 4 1).isRange = true) ∧
    (∃ after, ((range 2 9).write default (.array elements) .null).document = .array after ∧
      after[5]? = some (.integer 1)) ∧
    (∃ after, ((range 4 1).write default (.array elements) .null).document = .array after ∧
      after[3]? = some (.integer 1) ∧ after[5]? = some (.integer 5)) := by
  intro elements
  refine ⟨by decide, ?_, ?_⟩
  · obtain ⟨after, result, hwrite, -, -, hup, -⟩ :=
      @write_selfCopy_contents (range 2 9) default rfl rfl rfl elements
    have hend := (hup (by decide) (by decide)).2 (by decide) 5
    have hfirst : (resolve (range 2 9).start elements.length).toInt = 2 := by decide
    rw [if_pos (by decide), hfirst] at hend
    exact ⟨after, congrArg Outcome.document (hwrite .null), hend⟩
  · obtain ⟨after, result, hwrite, -, -, -, hdown⟩ :=
      @write_selfCopy_contents (range 4 1) default rfl rfl rfl elements
    have hmirrored := hdown (by decide) (by decide) 3
    have hbehind := hdown (by decide) (by decide) 5
    rw [if_pos (by decide)] at hmirrored
    rw [if_neg (by decide)] at hbehind
    exact ⟨after, congrArg Outcome.document (hwrite .null), hmirrored, hbehind⟩

/-! ### Filling with given values -/

/-- Upwards or downwards, the position after `k` steps holds the `k`-th value. -/
theorem getElem?_spread {w : Walk} {elements values after : List Value}
    (h : w.Filled (w.reach elements.length) (elementOrNull values) elements after)
    (hinside : 0 ≤ w.first.toInt ∧ w.first.toInt < elements.length) {k : Nat}
    (hk : k < w.count.toNat) (hlow : 0 ≤ w.first.toInt + w.step.toInt * k)
    (hhigh : w.first.toInt + w.step.toInt * k < elements.length) :
    after[(w.first.toInt + w.step.toInt * k).toNat]? = some (values[k]?.getD .null) :=
  h.written k ((Walk.lt_reach_iff hinside).mpr ⟨hk, hlow, hhigh⟩)

/-- An element that the walk does not come to is what it was. -/
theorem getElem?_spread_of_ne {w : Walk} {elements values after : List Value}
    (h : w.Filled (w.reach elements.length) (elementOrNull values) elements after) {i : Nat}
    (hi : ∀ k < w.count.toNat, w.first.toInt + w.step.toInt * k ≠ i) :
    after[i]? = elements[i]? := by
  apply h.kept
  rintro k hk rfl
  exact hi k (Nat.lt_of_lt_of_le hk (w.reach_le_count _)) (Walk.cast_slot hk).symm

/-- Values for which the range has no position play no part. -/
theorem write_spread_take (hall : s.isAll = false) (hrange : s.isRange = true)
    (hmode : context.rangeWrite = .spread) (elements values : List Value) {n : Nat}
    (hn : (s.walk elements.length).count.toNat ≤ n) :
    s.write context (.array elements) (.array (values.take n)) =
      s.write context (.array elements) (.array values) := by
  obtain ⟨taken, htaken, hfilled⟩ := write_spread hall hrange hmode elements (values.take n)
  obtain ⟨after, hafter, hfilled'⟩ := write_spread hall hrange hmode elements values
  have hcontents : ∀ k < (s.walk elements.length).reach elements.length,
      elementOrNull (values.take n) k = elementOrNull values k := by
    intro k hk
    have hreach := (s.walk elements.length).reach_le_count elements.length
    rw [elementOrNull, List.getElem?_take_of_lt (by omega), elementOrNull]
  rw [htaken, hafter, (hfilled.congr hcontents).unique hfilled']

/-- **Filling a range with given values, in closed form.**  Let the range go from position `first`
to `last` in steps of `step`, and let `after` be the array that is left, whether all of the range
could be filled or not.  If the range starts in the array, every position of the array that it comes
to, after `k` steps, holds the `k`-th value, or null where there are not so many, and every other
element is what it was.  If it starts outside, nothing is changed.  Values for which the range has
no position play no part. -/
theorem write_spread_contents (hall : s.isAll = false) (hrange : s.isRange = true)
    (hmode : context.rangeWrite = .spread) (elements values : List Value) :
    let size := elements.length
    let first := (resolve s.start size).toInt
    let last := (resolve s.stop size).toInt
    let step : Int := if first < last then 1 else -1
    let distance := (last - first).natAbs
    ∃ (after : List Value) (result : Result Unit),
      s.write context (.array elements) (.array values) = ⟨.array after, result⟩ ∧
      (result = .ok () ↔ (0 ≤ first ∧ first < size) ∧ 0 ≤ last ∧ last < size) ∧
      after.length = size ∧
      (0 ≤ first ∧ first < size →
        (∀ k : Nat, k ≤ distance → 0 ≤ first + step * k → first + step * k < size →
          after[(first + step * k).toNat]? = some (values[k]?.getD .null)) ∧
        ∀ i : Nat, (∀ k : Nat, k ≤ distance → first + step * k ≠ i) → after[i]? = elements[i]?) ∧
      (¬ (0 ≤ first ∧ first < size) → after = elements) ∧
      s.write context (.array elements) (.array (values.take (distance + 1))) =
        ⟨.array after, result⟩ := by
  intro size first last step distance
  have hstep : (s.walk elements.length).step.toInt = step := Walk.toInt_step _
  have hcount : (s.walk elements.length).count.toNat = distance + 1 := Walk.toNat_count _
  obtain ⟨after, hwrite, hfilled⟩ := write_spread hall hrange hmode elements values
  refine ⟨after, _, hwrite, Walk.verdict_eq_ok_iff.trans Walk.reach_eq_count_iff,
    hfilled.length_eq, fun hinside => ⟨fun k hk hlow hhigh => ?_, fun i hi => ?_⟩,
    fun houtside => ?_, ?_⟩
  · rw [← hstep] at hlow hhigh ⊢
    exact getElem?_spread hfilled hinside (by omega) hlow hhigh
  · apply getElem?_spread_of_ne hfilled
    intro k hk
    rw [hstep]
    exact hi k (by omega)
  · rw [Walk.reach_of_outside (w := s.walk elements.length) houtside] at hfilled
    exact hfilled.unique (Walk.Filled.zero _ _ _)
  · rw [write_spread_take hall hrange hmode elements values hcount.le, hwrite]

/-- Of three elements, `[1:4]` takes the first two of four values before it runs out of the array,
and `[2:-9]` runs out of values first. -/
theorem write_spread_contents_integers :
    let elements := [Value.integer 0, .integer 1, .integer 2]
    let values := [Value.integer 5, .integer 6, .integer 7, .integer 8]
    ((⟨.spread⟩ : Context).rangeWrite = .spread ∧
      (range 1 4).isAll = false ∧ (range 1 4).isRange = true ∧
      (range 2 (-9)).isAll = false ∧ (range 2 (-9)).isRange = true) ∧
    (∃ after, ((range 1 4).write ⟨.spread⟩ (.array elements) (.array values)).document =
        .array after ∧
      after[0]? = some (.integer 0) ∧ after[2]? = some (.integer 6)) ∧
    (∃ after, ((range 2 (-9)).write ⟨.spread⟩ (.array elements)
        (.array (values.take 1))).document = .array after ∧
      after[2]? = some (.integer 5) ∧ after[0]? = some .null) := by
  intro elements values
  refine ⟨by decide, ?_, ?_⟩
  · obtain ⟨after, result, hwrite, -, -, hinside, -⟩ :=
      @write_spread_contents (range 1 4) ⟨.spread⟩ rfl rfl rfl elements values
    obtain ⟨hwritten, hkept⟩ := hinside (by decide)
    have hfront : ∀ k : Nat, (1 : Int) + 1 * k ≠ (0 : Nat) := by omega
    exact ⟨after, congrArg Outcome.document hwrite, hkept 0 fun k _ => hfront k,
      hwritten 1 (by decide) (by decide) (by decide)⟩
  · obtain ⟨after, result, hwrite, -, -, hinside, -⟩ :=
      @write_spread_contents (range 2 (-9)) ⟨.spread⟩ rfl rfl rfl elements (values.take 1)
    obtain ⟨hwritten, -⟩ := hinside (by decide)
    have hfirst : (resolve (range 2 (-9)).start elements.length).toInt = 2 := by decide
    have hlast : (resolve (range 2 (-9)).stop elements.length).toInt = -6 := by decide
    rw [hfirst, hlast] at hwritten
    have hstart := hwritten 0 (by decide) (by decide) (by decide)
    have hend := hwritten 2 (by decide) (by decide) (by decide)
    exact ⟨after, congrArg Outcome.document hwrite, hstart, hend⟩

end DocQuery.Selector
