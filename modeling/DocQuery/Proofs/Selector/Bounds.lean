import DocQuery.Proofs.Selector.Presence
import DocQuery.Proofs.Walk.Positions

/-!
# What the ends of a range say about all of it

An index stands for a position of an array of `size` elements just when it is at least `-size` and
less than `size`, and the position is then its remainder by the size
(`Selector.checkPosition_resolve_eq_ok_iff`, `Selector.toInt_resolve_eq_emod`).  As a walk is
contiguous, an array that has its two ends has all of its positions
(`Walk.checkPosition_ends_iff`), so reading a range has only the ends to look at, and finds an
element everywhere (`Selector.ends_cover_walk`).

The same bounds the work.  A walk that is read has no more positions than the array has elements
(`Walk.length_positions_le`), and one that is written is left at the first position outside, which
comes after at most as many others.  A write that is cut short behind this one
(`Selector.writeRangeWithin`) is therefore the write itself, however far apart the ends are
(`Selector.range_work_bounded`).
-/

namespace DocQuery

open Value (checkPosition checkPosition_eq_ok_iff)

/-! ### Positions between the ends -/

namespace Walk

variable {w : Walk} {size : Nat}

/-- An array has the two ends of a walk just when it has all of its positions. -/
theorem checkPosition_ends_iff :
    (checkPosition w.first size = .ok () ∧ checkPosition w.last size = .ok ()) ↔
      ∀ position ∈ w.positions, checkPosition position size = .ok () := by
  constructor
  · rintro ⟨hfirst, hlast⟩ position hmem
    rw [checkPosition_eq_ok_iff] at hfirst hlast ⊢
    have hbetween := mem_positions_iff.mp hmem
    omega
  · intro hall
    exact ⟨hall _ w.first_mem_positions, hall _ w.last_mem_positions⟩

theorem checkPosition_ends_iff_reach :
    (checkPosition w.first size = .ok () ∧ checkPosition w.last size = .ok ()) ↔
      w.reach size = w.count.toNat := by
  rw [checkPosition_eq_ok_iff, checkPosition_eq_ok_iff, reach_eq_count_iff]

/-- A walk between two positions of an array is no longer than the array. -/
theorem length_positions_le (hfirst : checkPosition w.first size = .ok ())
    (hlast : checkPosition w.last size = .ok ()) : w.positions.length ≤ size := by
  have hreach := w.reach_le_size size
  rwa [checkPosition_ends_iff_reach.mp ⟨hfirst, hlast⟩, toNat_count, ← length_positions] at hreach

end Walk

namespace Selector

variable {s : Selector} {size : Nat}

/-! ### Indices -/

/-- The indices that stand for a position of an array are those that are less than its size, and not
below its size counted from the end. -/
theorem checkPosition_resolve_eq_ok_iff (index : Int64) (h : size < 2 ^ 63) :
    checkPosition (resolve index size) size = .ok () ↔
      -(size : Int) ≤ index.toInt ∧ index.toInt < size := by
  rw [checkPosition_eq_ok_iff, toInt_resolve index h]
  split <;> omega

/-- The position that an index stands for is its remainder by the size. -/
theorem toInt_resolve_eq_emod {index : Int64} (h : size < 2 ^ 63)
    (hlow : -(size : Int) ≤ index.toInt) (hhigh : index.toInt < size) :
    (resolve index size).toInt = index.toInt % size := by
  rw [toInt_resolve index h]
  split
  · rw [← Int.add_emod_left, Int.emod_eq_of_lt (by omega) (by omega)]
  · rw [Int.emod_eq_of_lt (by omega) hhigh]

/-- **The ends of a range answer for all of it.**  An index is accepted just when it is an index of
the array from the front or from the end, and it then stands for its remainder by the size.  The two
ends of a range are accepted just when every position of its walk is, and then there is an element
at each of them, so that no null is read in the place of one. -/
theorem ends_cover_walk (s : Selector) (elements : List Value) (h : elements.length < 2 ^ 63) :
    let size := elements.length
    let w := s.walk size
    (∀ index : Int64,
      (checkPosition (resolve index size) size = .ok () ↔
        -(size : Int) ≤ index.toInt ∧ index.toInt < size) ∧
      (checkPosition (resolve index size) size = .ok () →
        (resolve index size).toInt = index.toInt % size)) ∧
    ((checkPosition w.first size = .ok () ∧ checkPosition w.last size = .ok ()) ↔
      ∀ position ∈ w.positions, checkPosition position size = .ok ()) ∧
    (checkPosition w.first size = .ok () → checkPosition w.last size = .ok () →
      ∀ position ∈ w.positions, ∃ v, (Value.array elements).arrayGet position = .ok (some v)) := by
  intro size w
  refine ⟨fun index => ⟨checkPosition_resolve_eq_ok_iff index h, fun hindex => ?_⟩,
    Walk.checkPosition_ends_iff, fun hfirst hlast position hmem => ?_⟩
  · obtain ⟨hlow, hhigh⟩ := (checkPosition_resolve_eq_ok_iff index h).mp hindex
    exact toInt_resolve_eq_emod h hlow hhigh
  · have hposition := Walk.checkPosition_ends_iff.mp ⟨hfirst, hlast⟩ position hmem
    have hsome := isSome_elementAt?_iff.mpr (checkPosition_eq_ok_iff.mp hposition)
    obtain ⟨v, hv⟩ := Option.isSome_iff_exists.mp hsome
    refine ⟨v, ?_⟩
    rw [Value.arrayGet, Value.indexed_array, Except.map, hv]

/-- Of three elements, the walk from the last to the one three from the end goes down over all of
them. -/
theorem ends_cover_walk_integers :
    let elements := [Value.integer 0, .integer 1, .integer 2]
    let w := (range 2 (-3)).walk 3
    elements.length < 2 ^ 63 ∧
    (resolve (-2) 3).toInt = (-2) % 3 ∧
    w.positions = [2, 1, 0] ∧
    (∀ position ∈ w.positions, checkPosition position 3 = .ok ()) ∧
    ∀ position ∈ w.positions, ∃ v, (Value.array elements).arrayGet position = .ok (some v) := by
  intro elements w
  obtain ⟨hindices, hends, hfound⟩ := ends_cover_walk (range 2 (-3)) elements (by decide)
  have hindex : checkPosition (resolve (-2) 3) 3 = .ok () := rfl
  have hfirst : checkPosition w.first 3 = .ok () := rfl
  have hlast : checkPosition w.last 3 = .ok () := rfl
  exact ⟨by decide, (hindices (-2)).2 hindex, by decide, hends.mp ⟨hfirst, hlast⟩,
    hfound hfirst hlast⟩

/-! ### Work -/

/-- What a write over a range comes to when it makes no more than `limit` steps of its walk. -/
def writeRangeWithin (limit : Nat) (s : Selector) (context : Context) (elements : List Value)
    (value : Value) : Outcome :=
  match s.source context value with
  | .ok source =>
    let w := s.walk elements.length
    let (filled, result) := w.fillFrom source (min limit w.count.toNat) 0 elements
    ⟨.array filled, result⟩
  | .error e => ⟨.array elements, .error e⟩

theorem writeRange_eq_within {limit : Nat} {elements : List Value}
    (h : (s.walk elements.length).reach elements.length < limit) (context : Context)
    (value : Value) :
    s.writeRange context elements value = s.writeRangeWithin limit context elements value := by
  unfold writeRange writeRangeWithin
  cases s.source context value with
  | error e => rfl
  | ok source => simp only [Walk.fill_eq_fillFrom_min h]

/-- A write whose walk is longer than the array fails at one of as many positions as there are
elements, and one more. -/
theorem result_write_of_size_lt (hall : s.isAll = false) (hrange : s.isRange = true)
    (context : Context) (elements : List Value) (value : Value) :
    let size := elements.length
    let w := s.walk size
    size < w.positions.length →
      ∃ e, (s.write context (.array elements) value).result = .error e ∧
        (context.rangeWrite = .selfCopy ∨ value.isArray = true →
          ∃ position ∈ w.positions.take (size + 1), e = .outOfBounds position size) := by
  intro size w hlong
  by_cases hsupplied : context.rangeWrite = .selfCopy ∨ value.isArray = true
  · -- the failure is at the first position out of reach, and no more than `size` are within reach
    have hreach : w.reach size ≤ size := w.reach_le_size size
    have hlt : w.reach size < w.count.toNat := by
      rw [Walk.length_positions, ← Walk.toNat_count] at hlong
      omega
    have hposition : (w.positions.take (size + 1))[w.reach size]? =
        some (w.position (w.reach size)) := by
      rw [List.getElem?_take_of_lt (by omega), Walk.getElem?_positions hlt]
    refine ⟨.outOfBounds (w.position (w.reach size)) size, ?_,
      fun _ => ⟨_, List.mem_of_getElem? hposition, rfl⟩⟩
    rw [result_write_of_supplied hall elements (Or.inr hsupplied), Walk.verdict,
      if_neg (Nat.ne_of_lt hlt)]
  · rw [write_of_not_supplied hall hrange elements hsupplied]
    exact ⟨_, rfl, fun h => absurd h hsupplied⟩

/-- **The work on a range is bounded by the array.**  A write over a range does what it does within
one step more than there are elements: if the walk is longer than the array, it has failed by then,
at one of the positions it has come to, unless the value was refused at once.  A range is read just
when its two ends are accepted, and its walk is then no longer than the array. -/
theorem range_work_bounded (hall : s.isAll = false) (hrange : s.isRange = true)
    (context : Context) (elements : List Value) (value : Value) :
    let size := elements.length
    let w := s.walk size
    s.write context (.array elements) value =
      s.writeRangeWithin (size + 1) context elements value ∧
    (size < w.positions.length →
      ∃ e, (s.writeRangeWithin (size + 1) context elements value).result = .error e ∧
        (context.rangeWrite = .selfCopy ∨ value.isArray = true →
          ∃ position ∈ w.positions.take (size + 1), e = .outOfBounds position size)) ∧
    ((∃ v, s.read (.array elements) = .ok v) ↔
      checkPosition w.first size = .ok () ∧ checkPosition w.last size = .ok ()) ∧
    (checkPosition w.first size = .ok () → checkPosition w.last size = .ok () →
      w.positions.length ≤ size) := by
  intro size w
  have hwithin : s.write context (.array elements) value =
      s.writeRangeWithin (size + 1) context elements value := by
    rw [write_eq_writeRange hall hrange]
    exact writeRange_eq_within (Nat.lt_succ_of_le (w.reach_le_size size)) context value
  refine ⟨hwithin, fun hlong => ?_, ?_, Walk.length_positions_le⟩
  · rw [← hwithin]
    exact result_write_of_size_lt hall hrange context elements value hlong
  · rw [exists_read_iff hall hrange, Walk.checkPosition_ends_iff_reach]

/-- A copy from the second of three elements up to the greatest position there is stops at its third
position. -/
theorem range_work_bounded_greatest :
    let s := range 1 Int64.maxValue
    let elements := [Value.integer 0, .integer 1, .integer 2]
    (s.isAll = false ∧ s.isRange = true) ∧
    s.write ⟨.selfCopy⟩ (.array elements) .null = s.writeRangeWithin 4 ⟨.selfCopy⟩ elements .null ∧
    (s.walk 3).positions.length = 2 ^ 63 - 1 ∧
    ∃ position ∈ (s.walk 3).positions.take 4,
      (s.write ⟨.selfCopy⟩ (.array elements) .null).result = .error (.outOfBounds position 3) := by
  intro s elements
  obtain ⟨hwithin, hfailed, -, -⟩ :=
    range_work_bounded (s := s) rfl rfl ⟨.selfCopy⟩ elements .null
  have hlength : (s.walk 3).positions.length = 2 ^ 63 - 1 :=
    (Walk.length_positions _).trans (by decide)
  have hlong : 3 < (s.walk 3).positions.length := by
    rw [hlength]
    decide
  obtain ⟨e, herror, hposition⟩ := hfailed hlong
  obtain ⟨position, hmem, rfl⟩ := hposition (Or.inl rfl)
  exact ⟨by decide, hwithin, hlength, position, hmem, by rw [hwithin]; exact herror⟩

end Selector

end DocQuery
