import DocQuery.Proofs.Selector.Effect

/-!
# Writes that do not meet

Two selectors are apart in an array when they address no position of it in common
(`Selector.Apart`); outside the array their walks may meet.  With values spread over ranges, two
writes through selectors that are apart can be done in either order: the document in the end is the
same, and each of them ends the same way (`Selector.write_write_comm`).  This covers the writes that
fail, those that stop midway included.

How a write ends depends on the length of the array and on its value, and neither is changed by the
other write; and what it fills are slots that its selector addresses, with contents that come from
its value alone.
-/

namespace DocQuery

/-! ### Filling slots that do not meet -/

/-- Two walks that fill different slots fill them in either order. -/
theorem Walk.Filled.comm {w v : Walk} {steps others : Nat} {content contents : Nat → Value}
    {before left right both last : List Value} (hleft : w.Filled steps content before left)
    (hboth : v.Filled others contents left both) (hright : v.Filled others contents before right)
    (hlast : w.Filled steps content right last)
    (hne : ∀ k < steps, ∀ l < others, w.slot k ≠ v.slot l) : both = last := by
  apply List.ext_getElem?
  intro i
  rcases w.slot_cases steps i with ⟨k, hk, rfl⟩ | hw
  · have hv : ∀ l < others, v.slot l ≠ w.slot k := fun l hl heq => hne k hk l hl heq.symm
    rw [hboth.kept _ hv, hleft.written k hk, hlast.written k hk]
  · rcases v.slot_cases others i with ⟨l, hl, rfl⟩ | hv
    · rw [hboth.written l hl, hlast.kept _ hw, hright.written l hl]
    · -- an element that neither of them fills
      rw [hboth.kept i hv, hleft.kept i hw, hlast.kept i hw, hright.kept i hv]

namespace Selector

/-! ### Addressed positions -/

/-- The positions that a selector addresses in an array of `size` elements, whether the array has
them or not. -/
def positions (s : Selector) (size : Nat) : List Int64 :=
  if s.isRange then (s.walk size).positions else [resolve s.start size]

/-- No position of an array of `size` elements is addressed by both selectors. -/
def Apart (s t : Selector) (size : Nat) : Prop :=
  ∀ position ∈ s.positions size, position ∈ t.positions size →
    ¬ (0 ≤ position.toInt ∧ position.toInt < size)

variable {s t : Selector} {size : Nat}

/-- What a selector addresses is its walk; that of a single element has one position. -/
theorem positions_eq (s : Selector) (size : Nat) : s.positions size = (s.walk size).positions := by
  cases hrange : s.isRange with
  | true => rw [positions, if_pos hrange]
  | false =>
    have hwalk := walk_of_index hrange size
    rw [positions, if_neg (by simp [hrange]), Walk.positions, hwalk, Walk.toNat_count_single,
      List.range_one, List.map_singleton, Walk.position_zero]

theorem position_mem_positions {k : Nat} (h : k < (s.walk size).reach size) :
    (s.walk size).position k ∈ s.positions size := by
  have hcount := Walk.reach_le_count (s.walk size) size
  rw [positions_eq]
  exact List.mem_map_of_mem (List.mem_range.mpr (by omega))

/-- Selectors that are apart reach different slots. -/
theorem Apart.slot_ne (h : s.Apart t size) {k l : Nat} (hk : k < (s.walk size).reach size)
    (hl : l < (t.walk size).reach size) : (s.walk size).slot k ≠ (t.walk size).slot l := by
  intro heq
  have hs := Value.slot?_eq_some_iff.mp (Walk.slot?_position hk)
  have ht := Value.slot?_eq_some_iff.mp (Walk.slot?_position hl)
  have hsame : (s.walk size).position k = (t.walk size).position l := by
    rw [← Int64.toInt_inj, hs.1, ht.1, heq]
  have hmem := position_mem_positions hl
  rw [← hsame] at hmem
  exact h _ (position_mem_positions hk) hmem (by omega)

/-! ### Two writes -/

/-- **Writes that do not meet commute.**  With values spread over ranges, of two selectors that
address no position of an array in common the one may be written before the other or after it: this
makes no difference to the document in the end, nor to how each of the two writes ends. -/
theorem write_write_comm (hs : s.isAll = false) (ht : t.isAll = false)
    (document value other : Value)
    (hapart : ∀ elements, document = .array elements → s.Apart t elements.length) :
    let first := s.write ⟨.spread⟩ document value
    let second := t.write ⟨.spread⟩ document other
    let behindFirst := t.write ⟨.spread⟩ first.document other
    let behindSecond := s.write ⟨.spread⟩ second.document value
    behindFirst.document = behindSecond.document ∧
      behindFirst.result = second.result ∧ behindSecond.result = first.result := by
  intro first second behindFirst behindSecond
  rcases Value.eq_array_or_not_indexed document with ⟨elements, rfl⟩ | hnot
  · obtain ⟨left, hfirst, hleft⟩ := write_eq hs ⟨.spread⟩ elements value
    obtain ⟨right, hsecond, hright⟩ := write_eq ht ⟨.spread⟩ elements other
    obtain ⟨both, hbehindFirst, hboth⟩ := write_eq ht ⟨.spread⟩ left other
    obtain ⟨last, hbehindSecond, hlast⟩ := write_eq hs ⟨.spread⟩ right value
    -- the second write finds an array of the same length, so it has the effect that it had alone
    rw [hleft.length_eq] at hbehindFirst hboth
    rw [hright.length_eq] at hbehindSecond hlast
    have hne : ∀ k < (s.effect ⟨.spread⟩ elements.length value).1,
        ∀ l < (t.effect ⟨.spread⟩ elements.length other).1,
          (s.walk elements.length).slot k ≠ (t.walk elements.length).slot l := by
      intro k hk l hl
      exact (hapart elements rfl).slot_ne
        (Nat.lt_of_lt_of_le hk (effect_le_reach s _ _ _))
        (Nat.lt_of_lt_of_le hl (effect_le_reach t _ _ _))
    have hsame : both = last := hleft.comm hboth hright hlast hne
    have hfirst : first = _ := hfirst
    have hsecond : second = _ := hsecond
    simp only [behindFirst, behindSecond, hfirst, hsecond, hbehindFirst, hbehindSecond, hsame,
      and_self]
  · simp only [first, second, behindFirst, behindSecond, write_of_not_indexed hs hnot,
      write_of_not_indexed ht hnot, and_self]

/-- Two writes that leave five elements at different ends, each after it has written some. -/
theorem write_write_comm_integers :
    let document := Value.array [.integer 0, .integer 1, .integer 2, .integer 3, .integer 4]
    let value := Value.array [.integer 10, .integer 11, .integer 12]
    let first := (range 3 7).write ⟨.spread⟩ document value
    let second := (range (-3) (-8)).write ⟨.spread⟩ document value
    let behindFirst := (range (-3) (-8)).write ⟨.spread⟩ first.document value
    let behindSecond := (range 3 7).write ⟨.spread⟩ second.document value
    ((range 3 7).isAll = false ∧ (range (-3) (-8)).isAll = false ∧
      (range 3 7).Apart (range (-3) (-8)) 5) ∧
    first.result = .error (.outOfBounds 5 5) ∧ second.result = .error (.outOfBounds (-1) 5) ∧
    behindFirst.document = behindSecond.document ∧
      behindFirst.result = second.result ∧ behindSecond.result = first.result := by
  intro document value first second behindFirst behindSecond
  have hup : (range 3 7).positions 5 = [3, 4, 5, 6, 7] := by decide
  have hdown : (range (-3) (-8)).positions 5 = [2, 1, 0, -1, -2, -3] := by decide
  have hapart : (range 3 7).Apart (range (-3) (-8)) 5 := by
    intro position hs ht
    rw [hup] at hs
    rw [hdown] at ht
    simp only [List.mem_cons, List.not_mem_nil, or_false] at hs
    rcases hs with rfl | rfl | rfl | rfl | rfl <;> exact absurd ht (by decide)
  have hcomm := write_write_comm (s := range 3 7) (t := range (-3) (-8)) rfl rfl document value value
    fun elements helements => by
      obtain rfl := Value.array.inj helements
      exact hapart
  exact ⟨⟨rfl, rfl, hapart⟩, rfl, rfl, hcomm⟩

end Selector

end DocQuery
