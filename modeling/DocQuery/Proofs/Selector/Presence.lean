import DocQuery.Proofs.Selector.Effect

/-!
# Which parts of an array there are

Reading a range looks at its two ends before anything else, while writing one finds out by walking.
Both accept the same ranges, namely those whose two ends are positions of the array.  What they say
of the others differs (`Selector.range_agreement`): where a range starts inside and ends outside,
reading names its end, and writing names the position next to the array.

A single element is always read, and null stands for one that is not there.  It can be written just
when it is there (`Selector.result_write_index_eq_ok_iff`).  `Selector.presence_agreement` has it
all.
-/

namespace DocQuery.Selector

variable {s : Selector} {elements : List Value}

/-! ### Ranges -/

/-- The ranges that can be read are those with both ends in the array. -/
theorem exists_read_iff (hall : s.isAll = false) (hrange : s.isRange = true) :
    (∃ v, s.read (.array elements) = .ok v) ↔
      (s.walk elements.length).reach elements.length = (s.walk elements.length).count.toNat := by
  rw [read_eq_readRange hall hrange]
  constructor
  · rintro ⟨v, hv⟩
    exact reach_of_readRange hv
  · intro hreach
    exact ⟨_, readRange_of_reach hreach⟩

/-- Reading and writing agree on the ranges of an array, and on the start of a range that starts
outside.  Of a range that starts inside and ends outside, reading refuses the end and the verdict
names the position next to the array. -/
theorem range_agreement (hall : s.isAll = false) (hrange : s.isRange = true)
    (elements : List Value) :
    let w := s.walk elements.length
    ((∃ v, s.read (.array elements) = .ok v) ↔ w.verdict elements.length = .ok ()) ∧
    (¬ (0 ≤ w.first.toInt ∧ w.first.toInt < elements.length) →
      s.read (.array elements) = .error (.outOfBounds w.first elements.length) ∧
      w.verdict elements.length = .error (.outOfBounds w.first elements.length)) ∧
    (0 ≤ w.first.toInt ∧ w.first.toInt < elements.length →
      ¬ (0 ≤ w.last.toInt ∧ w.last.toInt < elements.length) →
      s.read (.array elements) = .error (.outOfBounds w.last elements.length) ∧
      ∃ beside : Int64, beside.toInt = (if w.last.toInt < 0 then -1 else (elements.length : Int)) ∧
        w.verdict elements.length = .error (.outOfBounds beside elements.length)) := by
  intro w
  refine ⟨by rw [exists_read_iff hall hrange, Walk.verdict_eq_ok_iff], fun hfirst => ?_,
    fun hfirst hlast => ?_⟩
  · exact ⟨by rw [read_eq_readRange hall hrange, readRange_of_outside hfirst],
      Walk.verdict_of_outside hfirst⟩
  · obtain ⟨beside, hverdict, hbeside⟩ := Walk.verdict_of_leaving hfirst hlast
    exact ⟨by rw [read_eq_readRange hall hrange, readRange_of_leaving hfirst hlast],
      beside, hbeside, hverdict⟩

/-! ### Single elements -/

/-- A single element can be written just when it is there. -/
theorem result_write_index_eq_ok_iff (hindex : s.isRange = false) (context : Context)
    (elements : List Value) (value : Value) :
    (s.write context (.array elements) value).result = .ok () ↔
      0 ≤ (resolve s.start elements.length).toInt ∧
        (resolve s.start elements.length).toInt < elements.length := by
  rw [result_write_of_supplied (isAll_of_isRange_eq_false hindex) elements (Or.inl hindex),
    Walk.verdict_eq_ok_iff, Walk.reach_eq_count_iff, walk_of_index hindex, and_self]

/-- An element is found just where there is a position. -/
theorem isSome_elementAt?_iff {position : Int64} :
    (Value.elementAt? elements position).isSome = true ↔
      0 ≤ position.toInt ∧ position.toInt < elements.length := by
  by_cases h : 0 ≤ position.toInt ∧ position.toInt < elements.length
  · have hlt : position.toInt.toNat < elements.length := by omega
    rw [Value.elementAt?, Value.slot?_of_inside h, Option.bind_some, List.getElem?_eq_getElem hlt]
    exact iff_of_true rfl h
  · rw [Value.elementAt?, Value.slot?_of_outside h]
    exact iff_of_false Bool.false_ne_true h

/-! ### Agreement -/

/-- **Reading and writing agree on which parts there are.**  A range is read just when it can be
filled, from the array itself or with the elements of another one, and this is when both its ends are
positions of the array.  If the first is not, all three name it; if only the last is not, reading
names this one, and both ways of writing name the position next to the array on its side.  A single
element can be written just when it is found, and null is read where it is not. -/
theorem presence_agreement (s : Selector) (document value : Value) (values : List Value) :
    let copied := s.write ⟨.selfCopy⟩ document value
    let spread := s.write ⟨.spread⟩ document (.array values)
    (s.isAll = false → s.isRange = true →
      ((∃ v, s.read document = .ok v) ↔ copied.result = .ok ()) ∧
      ((∃ v, s.read document = .ok v) ↔ spread.result = .ok ()) ∧
      ∀ elements, document = .array elements →
        let size := elements.length
        let first := resolve s.start size
        let last := resolve s.stop size
        ((∃ v, s.read document = .ok v) ↔
          (0 ≤ first.toInt ∧ first.toInt < size) ∧ 0 ≤ last.toInt ∧ last.toInt < size) ∧
        (¬ (0 ≤ first.toInt ∧ first.toInt < size) →
          s.read document = .error (.outOfBounds first size) ∧
          copied.result = .error (.outOfBounds first size) ∧
          spread.result = .error (.outOfBounds first size)) ∧
        (0 ≤ first.toInt ∧ first.toInt < size → ¬ (0 ≤ last.toInt ∧ last.toInt < size) →
          s.read document = .error (.outOfBounds last size) ∧
          ∃ beside : Int64, beside.toInt = (if last.toInt < 0 then -1 else (size : Int)) ∧
            copied.result = .error (.outOfBounds beside size) ∧
            spread.result = .error (.outOfBounds beside size))) ∧
    (s.isRange = false → ∀ elements, document = .array elements →
      ∃ found, document.arrayGet (resolve s.start elements.length) = .ok found ∧
        s.read document = .ok (found.getD .null) ∧
        (found.isSome = true ↔ 0 ≤ (resolve s.start elements.length).toInt ∧
          (resolve s.start elements.length).toInt < elements.length) ∧
        ∀ context, (s.write context document value).result = .ok () ↔ found.isSome = true) := by
  intro copied spread
  constructor
  · intro hall hrange
    rcases Value.eq_array_or_not_indexed document with ⟨elements, rfl⟩ | hnot
    · obtain ⟨hread, houtside, hleaving⟩ := range_agreement hall hrange elements
      have hcopied : copied.result = _ :=
        result_write_of_supplied hall elements (Or.inr (Or.inl rfl))
      have hspread : spread.result = _ :=
        result_write_of_supplied hall elements (Or.inr (Or.inr rfl))
      rw [hcopied, hspread]
      refine ⟨hread, hread, ?_⟩
      rintro _ ⟨⟩
      refine ⟨hread.trans (Walk.verdict_eq_ok_iff.trans Walk.reach_eq_count_iff), ?_, ?_⟩
      · intro hfirst
        obtain ⟨hrefused, hverdict⟩ := houtside hfirst
        exact ⟨hrefused, hverdict, hverdict⟩
      · intro hfirst hlast
        obtain ⟨hrefused, beside, hbeside, hverdict⟩ := hleaving hfirst hlast
        exact ⟨hrefused, beside, hbeside, hverdict, hverdict⟩
    · -- a document that is no array can be neither read nor written
      have hcopied : copied = _ := write_of_not_indexed hall hnot _ _
      have hspread : spread = _ := write_of_not_indexed hall hnot _ _
      rw [hcopied, hspread, read_of_not_indexed hall hnot]
      refine ⟨by simp, by simp, ?_⟩
      rintro elements rfl
      cases hnot
  · rintro hindex elements rfl
    refine ⟨Value.elementAt? elements (resolve s.start elements.length), rfl,
      read_index (isAll_of_isRange_eq_false hindex) hindex elements, isSome_elementAt?_iff,
      fun context => ?_⟩
    rw [result_write_index_eq_ok_iff hindex, isSome_elementAt?_iff]

/-- Downwards from the last of three elements, reading runs to a position six in front of the array,
and writing to the one next to it.  The element four from the end is read as null and cannot be
written. -/
theorem presence_agreement_integers :
    let document := Value.array [.integer 0, .integer 1, .integer 2]
    ((range (-1) (-9)).isAll = false ∧ (range (-1) (-9)).isRange = true ∧
      (index (-4)).isRange = false) ∧
    (range (-1) (-9)).read document = .error (.outOfBounds (-6) 3) ∧
    (∃ beside : Int64, beside.toInt = -1 ∧
      ((range (-1) (-9)).write ⟨.selfCopy⟩ document .null).result =
        .error (.outOfBounds beside 3) ∧
      ((range (-1) (-9)).write ⟨.spread⟩ document (.array [])).result =
        .error (.outOfBounds beside 3)) ∧
    (index (-4)).read document = .ok .null ∧
    ((index (-4)).write default document .null).result ≠ .ok () := by
  intro document
  obtain ⟨hread, hwrite⟩ :=
    (((presence_agreement (range (-1) (-9)) document .null []).1 rfl rfl).2.2 _ rfl).2.2
      (by decide) (by decide)
  obtain ⟨found, hfound, hnull, -, hset⟩ :=
    (presence_agreement (index (-4)) document .null []).2 rfl _ rfl
  have hnone : found = none := (Except.ok.inj hfound).symm
  subst hnone
  exact ⟨by decide, hread, hwrite, hnull, fun h => Bool.false_ne_true ((hset default).mp h)⟩

end DocQuery.Selector
