import DocQuery.Proofs.Selector.Access

/-!
# Reading and writing as a lens

With values spread over ranges, reading and writing through a selector are the two sides of a lens
(`Selector.spread_lens_laws`):

* what was written is read back (`read_write_of_not_range`, `read_write_range`);
* writing what was read changes nothing (`write_read_index`, `write_read_range`);
* of two writes the second counts (`write_write_of_ok`).

The laws of a range come down to the slots of its walk: these are read in the order in which they
are filled, so the elements read and the contents written are the same list.
-/

namespace DocQuery.Selector

variable {s : Selector} {context : Context}

theorem exists_array_of_write {document value : Value} (hall : s.isAll = false)
    (h : (s.write context document value).result = .ok ()) :
    ∃ elements, document = .array elements := by
  rcases Value.eq_array_or_not_indexed document with harray | hnot
  · exact harray
  · rw [write_of_not_indexed hall hnot] at h
    cases h

theorem exists_array_of_read {document v : Value} (hall : s.isAll = false)
    (h : s.read document = .ok v) : ∃ elements, document = .array elements := by
  rcases Value.eq_array_or_not_indexed document with harray | hnot
  · exact harray
  · rw [read_of_not_indexed hall hnot] at h
    cases h

/-- A write over a range that succeeds spreads an array, and the whole walk is within reach. -/
theorem exists_values_of_write {elements : List Value} {value : Value} (hall : s.isAll = false)
    (hrange : s.isRange = true) (hmode : context.rangeWrite = .spread)
    (h : (s.write context (.array elements) value).result = .ok ()) :
    (∃ values, value = .array values) ∧
      (s.walk elements.length).reach elements.length = (s.walk elements.length).count.toNat := by
  cases value with
  | array values =>
    obtain ⟨filled, hwrite, -⟩ := write_spread hall hrange hmode elements values
    rw [hwrite] at h
    exact ⟨⟨values, rfl⟩, Walk.verdict_eq_ok_iff.mp h⟩
  | _ =>
    rw [write_spread_of_not_array hall hrange hmode rfl] at h
    cases h

theorem exists_slot_of_write {elements : List Value} {value : Value} (hall : s.isAll = false)
    (hindex : s.isRange = false)
    (h : (s.write context (.array elements) value).result = .ok ()) :
    ∃ i, Value.slot? (resolve s.start elements.length) elements.length = some i := by
  cases hslot : Value.slot? (resolve s.start elements.length) elements.length with
  | some i => exact ⟨i, rfl⟩
  | none =>
    rw [write_index hall hindex, Value.arraySet_of_no_slot value hslot] at h
    cases h

/-! ### What was written is read back -/

theorem read_write_of_not_range {document value : Value}
    (hform : s.isAll = true ∨ s.isRange = false)
    (h : (s.write context document value).result = .ok ()) :
    s.read (s.write context document value).document = .ok value := by
  cases hall : s.isAll with
  | true => rw [write_all hall, read_all hall]
  | false =>
    have hindex : s.isRange = false := hform.resolve_left (by rw [hall]; decide)
    obtain ⟨elements, rfl⟩ := exists_array_of_write hall h
    obtain ⟨i, hslot⟩ := exists_slot_of_write hall hindex h
    have hi : i < elements.length := (Value.slot?_eq_some_iff.mp hslot).2
    rw [write_index hall hindex, Value.arraySet_of_slot value hslot, read_index hall hindex,
      Value.elementAt?, List.length_set, hslot, Option.bind_some, List.getElem?_set_self hi,
      Option.getD_some]

/-- A range is read as an array with the elements that it was written, and with nulls where these
were too few. -/
theorem read_write_range {elements : List Value} {value : Value} (hall : s.isAll = false)
    (hrange : s.isRange = true) (hmode : context.rangeWrite = .spread)
    (h : (s.write context (.array elements) value).result = .ok ()) :
    ∃ values, value = .array values ∧
      s.read (s.write context (.array elements) value).document =
        .ok (.array ((List.range (s.walk elements.length).count.toNat).map
          fun k => values[k]?.getD .null)) := by
  obtain ⟨⟨values, rfl⟩, hreach⟩ := exists_values_of_write hall hrange hmode h
  obtain ⟨filled, hwrite, hfilled⟩ := write_spread hall hrange hmode elements values
  have hlength := hfilled.length_eq
  refine ⟨values, rfl, ?_⟩
  rw [hwrite, read_eq_readRange hall hrange, hlength, readRange_of_reach (by rw [hlength, hreach])]
  congr 2
  apply List.map_congr_left
  intro k hk
  apply Walk.elementOrNull_of_getElem?
  exact hfilled.written k (by rw [hreach]; exact List.mem_range.mp hk)

/-! ### Writing what was read -/

theorem write_read_index {elements : List Value} {v : Value} {i : Nat} (hall : s.isAll = false)
    (hindex : s.isRange = false)
    (hslot : Value.slot? (resolve s.start elements.length) elements.length = some i)
    (h : s.read (.array elements) = .ok v) :
    s.write context (.array elements) v = ⟨.array elements, .ok ()⟩ := by
  have hi : i < elements.length := (Value.slot?_eq_some_iff.mp hslot).2
  rw [read_index hall hindex, Value.elementAt?, hslot, Option.bind_some,
    List.getElem?_eq_getElem hi, Option.getD_some] at h
  rw [write_index hall hindex, Value.arraySet_of_slot v hslot, ← Except.ok.inj h,
    List.set_getElem_self]

/-- Spreading what was read from a range over the range changes nothing. -/
theorem write_read_range {elements : List Value} {v : Value} (hall : s.isAll = false)
    (hrange : s.isRange = true) (hmode : context.rangeWrite = .spread)
    (h : s.read (.array elements) = .ok v) :
    s.write context (.array elements) v = ⟨.array elements, .ok ()⟩ := by
  rw [read_eq_readRange hall hrange] at h
  have hreach := reach_of_readRange h
  rw [readRange_of_reach hreach] at h
  obtain rfl := Except.ok.inj h
  obtain ⟨filled, hwrite, hfilled⟩ := write_spread hall hrange hmode elements
    ((List.range (s.walk elements.length).count.toNat).map fun k =>
      elementOrNull elements ((s.walk elements.length).slot k))
  -- the `k`-th element that was read is the one at the slot of the `k`-th step
  have hheld : (s.walk elements.length).Filled ((s.walk elements.length).reach elements.length)
      (fun k => elementOrNull elements ((s.walk elements.length).slot k)) elements filled := by
    refine hfilled.congr fun k hk => ?_
    apply Walk.elementOrNull_of_getElem?
    rw [List.getElem?_map, List.getElem?_range (by omega), Option.map_some]
  have hsame : filled = elements := hheld.unique (Walk.Filled.refl fun k hk =>
    Walk.getElem?_eq_some_elementOrNull (Walk.slot_lt hk))
  rw [hwrite, hsame, Walk.verdict_eq_ok_iff.mpr hreach]

/-! ### Writing over what was written -/

/-- Of two writes that succeed, the second alone counts. -/
theorem write_write_of_ok {document value other : Value} (hmode : context.rangeWrite = .spread)
    (h : (s.write context document value).result = .ok ())
    (hother : (s.write context (s.write context document value).document other).result = .ok ()) :
    s.write context (s.write context document value).document other =
      s.write context document other := by
  cases hall : s.isAll with
  | true => rw [write_all hall, write_all hall]
  | false =>
    obtain ⟨elements, rfl⟩ := exists_array_of_write hall h
    cases hrange : s.isRange with
    | false => exact write_write_index hall hrange elements value other
    | true =>
      obtain ⟨⟨values, rfl⟩, -⟩ := exists_values_of_write hall hrange hmode h
      obtain ⟨filled, hwrite, -⟩ := write_spread hall hrange hmode elements values
      rw [hwrite] at hother
      obtain ⟨⟨others, rfl⟩, -⟩ := exists_values_of_write hall hrange hmode hother
      exact write_write_spread hall hrange hmode elements values others

/-- **The lens laws.**  With values spread over ranges: a value that was written is read back, of a
range as an array of one element for each position; writing what was read succeeds and changes
nothing, for a single element if it is there; and of two writes that succeed the second alone
counts. -/
theorem spread_lens_laws (s : Selector) (document : Value) :
    let put := s.write ⟨.spread⟩
    (∀ value, (put document value).result = .ok () →
      (s.isAll = true ∨ s.isRange = false → s.read (put document value).document = .ok value) ∧
      (s.isAll = false → s.isRange = true → ∃ elements values,
        document = .array elements ∧ value = .array values ∧
          s.read (put document value).document =
            .ok (.array ((List.range (s.walk elements.length).count.toNat).map
              fun k => values[k]?.getD .null)))) ∧
    (∀ v, s.read document = .ok v →
      (s.isRange = false → ∀ elements, document = .array elements →
        0 ≤ (resolve s.start elements.length).toInt ∧
          (resolve s.start elements.length).toInt < elements.length) →
      put document v = ⟨document, .ok ()⟩) ∧
    (∀ value other, (put document value).result = .ok () →
      (put (put document value).document other).result = .ok () →
      put (put document value).document other = put document other) := by
  refine ⟨fun value hput => ⟨fun hform => read_write_of_not_range hform hput, ?_⟩, ?_,
    fun value other hput hother => write_write_of_ok rfl hput hother⟩
  · intro hall hrange
    obtain ⟨elements, rfl⟩ := exists_array_of_write hall hput
    obtain ⟨values, rfl, hread⟩ := read_write_range hall hrange rfl hput
    exact ⟨elements, values, rfl, rfl, hread⟩
  · intro v hget hpresent
    cases hall : s.isAll with
    | true =>
      rw [read_all hall] at hget
      show s.write _ document v = _
      rw [write_all hall, Except.ok.inj hget]
    | false =>
      obtain ⟨elements, rfl⟩ := exists_array_of_read hall hget
      cases hrange : s.isRange with
      | true => exact write_read_range hall hrange rfl hget
      | false =>
        obtain ⟨hlow, hhigh⟩ := hpresent hrange elements rfl
        have hslot : Value.slot? (resolve s.start elements.length) elements.length =
            some (resolve s.start elements.length).toInt.toNat := by
          rw [Value.slot?_eq_some_iff]
          omega
        exact write_read_index hall hrange hslot hget

/-- One value spread downwards over the last two of three elements is read back with a null. -/
theorem spread_lens_laws_integers :
    let document := Value.array [.integer 0, .integer 1, .integer 2]
    let after := (range (-1) 1).write ⟨.spread⟩ document (.array [.integer 5])
    after.result = .ok () ∧
      (range (-1) 1).read after.document = .ok (.array [.integer 5, .null]) := by
  intro document after
  have hresult : after.result = .ok () := rfl
  obtain ⟨elements, values, helements, hvalues, hread⟩ :=
    ((spread_lens_laws (range (-1) 1) document).1 (.array [.integer 5]) hresult).2 rfl rfl
  obtain rfl := Value.array.inj helements
  obtain rfl := Value.array.inj hvalues
  exact ⟨hresult, hread⟩

end DocQuery.Selector
