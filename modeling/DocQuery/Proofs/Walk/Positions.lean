import DocQuery.Proofs.Walk.Words
import Mathlib.Data.List.Nodup

/-!
# The positions of a walk

A walk comes to every position between its two ends, both included, and to each of them once:

* `Walk.map_toInt_positions`: the positions are an arithmetic progression, in steps of one.
* `Walk.head?_positions`, `Walk.getLast?_positions`: it leads from the one end to the other.
* `Walk.nodup_positions`, `Walk.mem_positions_iff`: the positions are pairwise different, and they
  are all there is between the ends.

These are laws of integers.  That they hold of words up to the greatest distance there is, rests on
`Walk.fitsWords`; `Selector.walk_exact` has both, from the indices of a selector on.
-/

namespace DocQuery

namespace Walk

variable {w : Walk}

/-! ### The list of positions -/

theorem length_positions (w : Walk) :
    w.positions.length = (w.last.toInt - w.first.toInt).natAbs + 1 := by
  rw [positions, List.length_map, List.length_range, toNat_count]

theorem getElem?_positions {k : Nat} (h : k < w.count.toNat) :
    w.positions[k]? = some (w.position k) := by
  rw [positions, List.getElem?_map, List.getElem?_range h, Option.map_some]

/-- The positions are an arithmetic progression. -/
theorem map_toInt_positions (w : Walk) :
    w.positions.map Int64.toInt =
      (List.range w.positions.length).map fun k : Nat => w.first.toInt + w.step.toInt * k := by
  rw [length_positions, ← toNat_count, positions, List.map_map]
  apply List.map_congr_left
  intro k hk
  exact toInt_position w (List.mem_range.mp hk)

/-- A walk comes to its last position after as many steps as its ends are apart. -/
theorem position_natAbs_sub (w : Walk) :
    w.position (w.last.toInt - w.first.toInt).natAbs = w.last := by
  have hlt : (w.last.toInt - w.first.toInt).natAbs < w.count.toNat := by
    rw [toNat_count]
    exact Nat.lt_succ_self _
  rw [← Int64.toInt_inj, toInt_position w hlt, toInt_step]
  split <;> omega

theorem head?_positions (w : Walk) : w.positions.head? = some w.first := by
  rw [positions, List.head?_map, List.head?_range, if_neg (Nat.ne_of_gt w.count_pos),
    Option.map_some, position_zero]

theorem getLast?_positions (w : Walk) : w.positions.getLast? = some w.last := by
  rw [positions, List.getLast?_map, List.getLast?_range, if_neg (Nat.ne_of_gt w.count_pos),
    Option.map_some, toNat_count, Nat.add_sub_cancel, position_natAbs_sub]

/-- The positions are what lies between the two ends. -/
theorem mem_positions_iff {position : Int64} :
    position ∈ w.positions ↔
      min w.first.toInt w.last.toInt ≤ position.toInt ∧
        position.toInt ≤ max w.first.toInt w.last.toInt := by
  rw [positions, List.mem_map]
  constructor
  · rintro ⟨k, hk, rfl⟩
    have hk := List.mem_range.mp hk
    rw [toInt_position w hk]
    exact between_ends w hk
  · rintro ⟨hlow, hhigh⟩
    -- a position between the ends is come to after as many steps as it is away from the first
    have hlt : (position.toInt - w.first.toInt).natAbs < w.count.toNat := by
      rw [toNat_count]
      omega
    refine ⟨_, List.mem_range.mpr hlt, ?_⟩
    rw [← Int64.toInt_inj, toInt_position w hlt, toInt_step]
    split <;> omega

theorem first_mem_positions (w : Walk) : w.first ∈ w.positions :=
  mem_positions_iff.mpr ⟨Int.min_le_left _ _, Int.le_max_left _ _⟩

theorem last_mem_positions (w : Walk) : w.last ∈ w.positions :=
  mem_positions_iff.mpr ⟨Int.min_le_right _ _, Int.le_max_right _ _⟩

/-- A walk comes to no position twice. -/
theorem nodup_positions (w : Walk) : w.positions.Nodup := by
  apply List.Nodup.map_on _ List.nodup_range
  intro k hk l hl h
  have hplaces := congrArg Int64.toInt h
  rw [toInt_position w (List.mem_range.mp hk), toInt_position w (List.mem_range.mp hl),
    toInt_step] at hplaces
  split at hplaces <;> omega

/-! ### From the indices on -/

/-- The step of a walk that goes anywhere is the sign of the way to its last position. -/
theorem toInt_step_eq_sign (h : w.first ≠ w.last) :
    w.step.toInt = (w.last.toInt - w.first.toInt).sign := by
  have hne : w.first.toInt ≠ w.last.toInt := fun heq => h (Int64.toInt_inj.mp heq)
  rw [toInt_step]
  split
  · rw [Int.sign_eq_one_of_pos (by omega)]
  · rw [Int.sign_eq_neg_one_of_neg (by omega)]

end Walk

namespace Selector

/-- **The walk of a selector is reckoned exactly**, for all indices and all sizes that an array can
have.  The size is not changed by making a word of it, and no index leaves the words of 64 bits when
it is counted from the end.  The step leads from the first position to the last, and no operation on
the way to the positions loses anything.  They are the progression from the first to the last in
steps of one: one more than the ends are apart, which is at most `2 ^ 64`, pairwise different, and
all that is between the ends. -/
theorem walk_exact (s : Selector) {size : Nat} (h : size < 2 ^ 63) :
    let w := s.walk size
    ((Int64.ofNat size).toInt = size ∧
      ∀ index : Int64,
        (index < 0 → (Int64.ofNat size).toBitVec.saddOverflow index.toBitVec = false) ∧
        (resolve index size).toInt =
          if index.toInt < 0 then size + index.toInt else index.toInt) ∧
    (w.first ≠ w.last → w.step.toInt = (w.last.toInt - w.first.toInt).sign) ∧
    w.FitsWords ∧
    w.positions.length = (w.last.toInt - w.first.toInt).natAbs + 1 ∧
    w.positions.length ≤ 2 ^ 64 ∧
    w.positions.map Int64.toInt =
      ((List.range w.positions.length).map fun k : Nat => w.first.toInt + w.step.toInt * k) ∧
    w.positions.Nodup ∧
    w.positions.head? = some w.first ∧
    w.positions.getLast? = some w.last ∧
    ∀ position, position ∈ w.positions ↔
      min w.first.toInt w.last.toInt ≤ position.toInt ∧
        position.toInt ≤ max w.first.toInt w.last.toInt := by
  intro w
  have hwords := w.toInt_ends
  have hlength := w.length_positions
  exact ⟨⟨toInt_ofNat_size h, fun index => ⟨saddOverflow_size h, toInt_resolve index h⟩⟩,
    Walk.toInt_step_eq_sign, w.fitsWords, hlength, by omega, w.map_toInt_positions,
    w.nodup_positions, w.head?_positions, w.getLast?_positions, fun _ => Walk.mem_positions_iff⟩

/-- From the greatest index down to the least, in an array without elements: the longest walk of
all. -/
theorem walk_exact_extremes :
    let w := (range Int64.maxValue Int64.minValue).walk 0
    0 < 2 ^ 63 ∧ w.FitsWords ∧ w.step = -1 ∧ w.positions.length = 2 ^ 64 ∧ w.positions.Nodup ∧
      w.positions.head? = some Int64.maxValue ∧ w.positions.getLast? = some Int64.minValue ∧
      0 ∈ w.positions := by
  intro w
  obtain ⟨-, -, hfits, hlength, -, -, hnodup, hhead, hlast, hmem⟩ :=
    walk_exact (range Int64.maxValue Int64.minValue) (show 0 < 2 ^ 63 by decide)
  exact ⟨by decide, hfits, by decide, hlength.trans (by decide), hnodup, hhead, hlast,
    (hmem 0).mpr (by decide)⟩

end Selector

end DocQuery
