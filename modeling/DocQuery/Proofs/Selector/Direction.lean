import DocQuery.Proofs.Selector.Slice

/-!
# Ranges in the two directions

A range with its two indices exchanged comes to the same positions in the other direction.  So it
reads the same elements in reverse, and what is spread over the one is spread in reverse over the
other (`Selector.range_direction`).

Both laws are those of a walk and its reverse (`Walk.selection_reverse`, `Walk.Filled.reverse`).  A
walk that ends where it starts goes down in both directions, and has one position, so it needs no
case of its own.  The whole array does: with the indices `0` and `-1` it is a range by one direction
and the whole by the other, which is neither read nor written by walking.  It is filled like the
walk from the front to the back when there are as many values as elements
(`Selector.write_spread_of_reach`).
-/

namespace DocQuery

open Selector (elementOrNull)

namespace Walk

/-- The walk from the last position to the first. -/
def reverse (w : Walk) : Walk :=
  ⟨w.last, w.first⟩

variable {w : Walk} {size : Nat}

@[simp]
theorem first_reverse (w : Walk) : w.reverse.first = w.last :=
  rfl

@[simp]
theorem last_reverse (w : Walk) : w.reverse.last = w.first :=
  rfl

@[simp]
theorem toNat_count_reverse (w : Walk) : w.reverse.count.toNat = w.count.toNat := by
  simp only [toNat_count, first_reverse, last_reverse]
  omega

/-- The reverse of a walk has its slots from the last to the first. -/
theorem slot_reverse {k : Nat} (hk : k < w.count.toNat) :
    w.reverse.slot k = w.slot (w.count.toNat - 1 - k) := by
  rw [toNat_count] at hk ⊢
  rw [slot_eq, slot_eq, first_reverse, last_reverse]
  split_ifs <;> omega

/-! ### Reading -/

theorem selection_reverse (w : Walk) (elements : List Value) :
    w.reverse.selection elements = (w.selection elements).reverse := by
  apply List.ext_getElem
  · simp
  · intro k hk _
    have hk : k < w.count.toNat := by simpa using hk
    simp only [selection, List.getElem_map, List.getElem_range, List.getElem_reverse,
      List.length_map, List.length_range, slot_reverse hk]

/-! ### Filling -/

/-- Filling all positions of a walk with given values fills those of its reverse with the values in
reverse. -/
theorem Filled.reverse {values before after : List Value}
    (h : w.Filled w.count.toNat (elementOrNull values) before after)
    (hvalues : values.length = w.count.toNat) :
    w.reverse.Filled w.count.toNat (elementOrNull values.reverse) before after where
  length_eq := h.length_eq
  written k hk := by
    rw [slot_reverse hk, h.written _ (by omega), elementOrNull, elementOrNull,
      List.getElem?_reverse (by omega), hvalues]
  kept i hi := by
    apply h.kept
    intro k hk heq
    apply hi (w.count.toNat - 1 - k) (by omega)
    rw [slot_reverse (by omega), Nat.sub_sub_self (by omega), heq]

/-- As many values as there are elements are what filling the walk from the front to the back with
them leaves. -/
theorem filled_of_whole {elements values : List Value} (hpos : 0 < elements.length)
    (hfirst : w.first.toInt = 0) (hlast : w.last.toInt = elements.length - 1)
    (hvalues : values.length = elements.length) :
    w.Filled w.count.toNat (elementOrNull values) elements values := by
  have hcount := toNat_count_of_whole hpos hfirst hlast
  refine ⟨hvalues, fun k hk => ?_, fun i hi => ?_⟩
  · rw [slot_of_whole hfirst hlast (by omega)]
    exact getElem?_eq_some_elementOrNull (by omega)
  · -- every index of the array is a slot, so there is nothing left to keep
    have hout : elements.length ≤ i := by
      by_contra hlt
      exact hi i (by omega) (slot_of_whole hfirst hlast (by omega))
    rw [List.getElem?_eq_none (by omega), List.getElem?_eq_none hout]

end Walk

namespace Selector

variable {s : Selector} {context : Context} {elements : List Value}

/-- As many values as there are positions are spread over a range that is all in the array, the
whole included, slot by slot. -/
theorem write_spread_of_reach (hrange : s.isRange = true) (hmode : context.rangeWrite = .spread)
    (hsize : elements.length < 2 ^ 63)
    (hreach : (s.walk elements.length).reach elements.length =
      (s.walk elements.length).count.toNat)
    (values : List Value) (hvalues : values.length = (s.walk elements.length).count.toNat) :
    ∃ after, s.write context (.array elements) (.array values) = ⟨.array after, .ok ()⟩ ∧
      (s.walk elements.length).Filled (s.walk elements.length).count.toNat (elementOrNull values)
        elements after := by
  cases hall : s.isAll with
  | false =>
    obtain ⟨after, hwrite, hfilled⟩ := write_spread hall hrange hmode elements values
    rw [Walk.verdict_eq_ok_iff.mpr hreach] at hwrite
    rw [hreach] at hfilled
    exact ⟨after, hwrite, hfilled⟩
  | true =>
    have hpos : 0 < elements.length := by
      have hends := Walk.reach_eq_count_iff.mp hreach
      omega
    obtain ⟨hfirst, hlast⟩ := walk_of_isAll hall hsize
    rw [Walk.toNat_count_of_whole hpos hfirst hlast] at hvalues
    exact ⟨values, write_all hall _ _ _, Walk.filled_of_whole hpos hfirst hlast hvalues⟩

/-- An index from the front or from the end of an array stands for a position of it. -/
theorem inside_of_index {i : Int64} {size : Nat} (hsize : size < 2 ^ 63)
    (h : -(size : Int) ≤ i.toInt ∧ i.toInt < size) :
    0 ≤ (resolve i size).toInt ∧ (resolve i size).toInt < size := by
  rw [toInt_resolve i hsize]
  split <;> omega

/-- A range between two indices of an array is all in the array. -/
theorem reach_of_indices {a b : Int64} {size : Nat} (hsize : size < 2 ^ 63)
    (ha : -(size : Int) ≤ a.toInt ∧ a.toInt < size)
    (hb : -(size : Int) ≤ b.toInt ∧ b.toInt < size) :
    ((range a b).walk size).reach size = ((range a b).walk size).count.toNat :=
  Walk.reach_eq_count_iff.mpr ⟨inside_of_index hsize ha, inside_of_index hsize hb⟩

theorem walk_range_swap (a b : Int64) (size : Nat) :
    (range b a).walk size = ((range a b).walk size).reverse :=
  rfl

/-- **The two directions of a range are dual.**  Let `a` and `b` be two indices of an array, from
its front or from its end.  Then the range from `b` to `a` reads in reverse what the range from `a`
to `b` reads, which has one element for each position from the one place to the other.  As many
values are written over the range from `a` to `b`, and in reverse over the range from `b` to `a`,
with the same array as the result.  One of the two may be the whole array, and both indices may
stand for one place. -/
theorem range_direction (hsize : elements.length < 2 ^ 63) {a b : Int64} (hne : a ≠ b)
    (ha : -(elements.length : Int) ≤ a.toInt ∧ a.toInt < elements.length)
    (hb : -(elements.length : Int) ≤ b.toInt ∧ b.toInt < elements.length) :
    let positions := (place b elements.length - place a elements.length).natAbs + 1
    (∃ selected : List Value, selected.length = positions ∧
      (range a b).read (.array elements) = .ok (.array selected) ∧
      (range b a).read (.array elements) = .ok (.array selected.reverse)) ∧
    ∀ context : Context, context.rangeWrite = .spread →
      ∀ values : List Value, values.length = positions → ∃ after,
        (range a b).write context (.array elements) (.array values) = ⟨.array after, .ok ()⟩ ∧
        (range b a).write context (.array elements) (.array values.reverse) =
          ⟨.array after, .ok ()⟩ := by
  intro positions
  have hforth : (range a b).isRange = true := isRange_iff.mpr hne
  have hback : (range b a).isRange = true := isRange_iff.mpr hne.symm
  have hreach := reach_of_indices hsize ha hb
  have hreach' := reach_of_indices hsize hb ha
  have hswap := walk_range_swap a b elements.length
  have hcount : ((range a b).walk elements.length).count.toNat = positions :=
    toNat_count_eq_place (range a b) hsize
  constructor
  · refine ⟨_, ?_, read_of_reach hforth hsize hreach, ?_⟩
    · rw [Walk.length_selection, hcount]
    · rw [← Walk.selection_reverse, ← hswap]
      exact read_of_reach hback hsize hreach'
  · intro context hmode values hvalues
    rw [← hcount] at hvalues
    obtain ⟨after, hwrite, hfilled⟩ :=
      write_spread_of_reach hforth hmode hsize hreach values hvalues
    obtain ⟨after', hwrite', hfilled'⟩ :=
      write_spread_of_reach hback hmode hsize hreach' values.reverse
        (by rw [List.length_reverse, hswap, Walk.toNat_count_reverse, hvalues])
    -- both have filled the positions of one walk with the same contents
    rw [hswap, Walk.toNat_count_reverse] at hfilled'
    obtain rfl : after' = after := hfilled'.unique (hfilled.reverse hvalues)
    exact ⟨after', hwrite, hwrite'⟩

/-- Three elements are read in reverse by the range from the last to the first, and values in
reverse are written over it in the order in which they take the place of the whole array. -/
theorem range_direction_integers :
    let elements := [Value.integer 0, .integer 1, .integer 2]
    let back := range (-1) 0
    (elements.length < 2 ^ 63 ∧ (0 : Int64) ≠ -1 ∧
      (-(elements.length : Int) ≤ (0 : Int64).toInt ∧ (0 : Int64).toInt < elements.length) ∧
      (-(elements.length : Int) ≤ (-1 : Int64).toInt ∧ (-1 : Int64).toInt < elements.length)) ∧
    back.read (.array elements) = .ok (.array [.integer 2, .integer 1, .integer 0]) ∧
    back.write ⟨.spread⟩ (.array elements) (.array [.integer 7, .integer 6, .integer 5]) =
      ⟨.array [.integer 5, .integer 6, .integer 7], .ok ()⟩ := by
  intro elements back
  have hsize : elements.length < 2 ^ 63 := by decide
  obtain ⟨⟨selected, -, hforth, hback⟩, hset⟩ :=
    @range_direction elements hsize 0 (-1) (by decide) (by decide) (by decide)
  have hselected : elements = selected := Value.array.inj (Except.ok.inj hforth)
  obtain ⟨after, hwhole, hwrite⟩ :=
    hset ⟨.spread⟩ rfl [.integer 5, .integer 6, .integer 7] rfl
  have hafter : Value.array [.integer 5, .integer 6, .integer 7] = .array after :=
    congrArg Outcome.document hwhole
  refine ⟨⟨hsize, by decide⟩, ?_, ?_⟩
  · rw [← hselected] at hback
    exact hback
  · rw [← hafter] at hwrite
    exact hwrite

end Selector

end DocQuery
