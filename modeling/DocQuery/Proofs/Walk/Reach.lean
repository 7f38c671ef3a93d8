import DocQuery.Proofs.Walk.Words
import DocQuery.Value.Element
import Mathlib.Order.Basic

/-!
# How far a walk stays inside an array

A walk may start outside an array and it may leave it.  `Walk.reach` counts its positions from the
start up to the first that the array does not have, and `Walk.slot` is the index of the element at
each of them.  For all that a walk does to an array these two say everything:

* `Walk.slot?_position`: the positions within reach are elements, and `Walk.slot_lt` and
  `Walk.slot_inj` say that their slots are in bounds and pairwise different.
* `Walk.slot?_position_reach`: where the walk goes on, the position behind them is no element; it is
  the start of the walk (`Walk.position_reach_of_outside`) or it lies next to the array
  (`Walk.toInt_position_reach`).
* `Walk.reach_eq_count_iff`: the walk never leaves just when its two ends are elements.
-/

namespace DocQuery.Walk

/-- The index of the element at the position after `k` steps. -/
def slot (w : Walk) (k : Nat) : Nat :=
  (w.first.toInt + w.step.toInt * k).toNat

/-- The last position, or the end of the array that the walk runs into before it gets there. -/
def lastInside (w : Walk) (size : Nat) : Int :=
  max 0 (min w.last.toInt (size - 1))

/-- How many positions a walk comes to before one that an array of `size` elements lacks. -/
def reach (w : Walk) (size : Nat) : Nat :=
  if 0 ≤ w.first.toInt ∧ w.first.toInt < size then
    (w.lastInside size - w.first.toInt).natAbs + 1
  else 0

variable {w : Walk} {size : Nat}

/-! ### Slots -/

theorem slot_eq (w : Walk) (k : Nat) :
    w.slot k = if w.first.toInt < w.last.toInt then (w.first.toInt + k).toNat
      else (w.first.toInt - k).toNat := by
  unfold slot
  rw [toInt_step]
  split <;> congr 1 <;> omega

theorem slot_zero (w : Walk) : w.slot 0 = w.first.toInt.toNat := by
  rw [slot, Nat.cast_zero, Int.mul_zero, Int.add_zero]

/-- An index is the slot of one of the first steps, or of none of them. -/
theorem slot_cases (w : Walk) (steps i : Nat) :
    (∃ k < steps, w.slot k = i) ∨ ∀ k < steps, w.slot k ≠ i := by
  by_cases h : ∃ k < steps, w.slot k = i
  · exact Or.inl h
  · exact Or.inr fun k hk heq => h ⟨k, hk, heq⟩

theorem reach_of_inside (h : 0 ≤ w.first.toInt ∧ w.first.toInt < size) :
    w.reach size = (w.lastInside size - w.first.toInt).natAbs + 1 :=
  if_pos h

theorem reach_of_outside (h : ¬ (0 ≤ w.first.toInt ∧ w.first.toInt < size)) : w.reach size = 0 :=
  if_neg h

theorem inside_of_lt_reach {k : Nat} (h : k < w.reach size) :
    0 ≤ w.first.toInt ∧ w.first.toInt < size := by
  by_contra hout
  rw [reach_of_outside hout] at h
  omega

theorem reach_le_count (w : Walk) (size : Nat) : w.reach size ≤ w.count.toNat := by
  rw [toNat_count]
  unfold reach lastInside
  split <;> omega

/-- A walk has no more positions within reach than there are elements. -/
theorem reach_le_size (w : Walk) (size : Nat) : w.reach size ≤ size := by
  unfold reach lastInside
  split <;> omega

theorem cast_slot {k : Nat} (h : k < w.reach size) :
    (w.slot k : Int) = w.first.toInt + w.step.toInt * k := by
  have hinside := inside_of_lt_reach h
  rw [reach_of_inside hinside] at h
  unfold lastInside at h
  unfold slot
  rw [toInt_step]
  split <;> omega

theorem slot_lt {k : Nat} (h : k < w.reach size) : w.slot k < size := by
  have hinside := inside_of_lt_reach h
  rw [reach_of_inside hinside] at h
  unfold lastInside at h
  rw [slot_eq]
  split <;> omega

/-- No slot within reach comes twice. -/
theorem slot_inj {k l : Nat} (hk : k < w.reach size) (hl : l < w.reach size)
    (h : w.slot k = w.slot l) : k = l := by
  have hslots : (w.slot k : Int) = w.slot l := by rw [h]
  rw [cast_slot hk, cast_slot hl, toInt_step] at hslots
  split at hslots <;> omega

/-- The steps within reach of a walk that starts in the array are those that come to a position of
the array. -/
theorem lt_reach_iff {k : Nat} (hinside : 0 ≤ w.first.toInt ∧ w.first.toInt < size) :
    k < w.reach size ↔ k < w.count.toNat ∧
      0 ≤ w.first.toInt + w.step.toInt * k ∧ w.first.toInt + w.step.toInt * k < size := by
  rw [reach_of_inside hinside, toNat_count, toInt_step]
  unfold lastInside
  split <;> omega

/-- The slots within reach are the indices between the start and the last position inside. -/
theorem between_of_slot {k : Nat} (h : k < w.reach size) :
    min w.first.toInt (w.lastInside size) ≤ w.slot k ∧
      (w.slot k : Int) ≤ max w.first.toInt (w.lastInside size) := by
  have hinside := inside_of_lt_reach h
  have hslot := cast_slot h
  rw [reach_of_inside hinside] at h
  unfold lastInside at h ⊢
  rw [hslot, toInt_step]
  split <;> omega

/-- An index between the start and the last position inside is come to after as many steps as it is
away from the start. -/
theorem slot_natAbs_sub {i : Nat} (hinside : 0 ≤ w.first.toInt ∧ w.first.toInt < size)
    (hlow : min w.first.toInt (w.lastInside size) ≤ i)
    (hhigh : (i : Int) ≤ max w.first.toInt (w.lastInside size)) :
    (i - w.first.toInt).natAbs < w.reach size ∧ w.slot (i - w.first.toInt).natAbs = i := by
  rw [reach_of_inside hinside, slot_eq]
  unfold lastInside at hlow hhigh ⊢
  split <;> omega

/-! ### Positions -/

/-- The positions within reach are positions of the array, at their slots. -/
theorem slot?_position {k : Nat} (h : k < w.reach size) :
    Value.slot? (w.position k) size = some (w.slot k) := by
  rw [Value.slot?_eq_some_iff]
  refine ⟨?_, slot_lt h⟩
  rw [cast_slot h]
  exact toInt_position w (Nat.lt_of_lt_of_le h (reach_le_count w size))

/-- The first position out of reach is no position of the array. -/
theorem slot?_position_reach (h : w.reach size < w.count.toNat) :
    Value.slot? (w.position (w.reach size)) size = none := by
  rw [Value.slot?_eq_none_iff, toInt_position w h, toInt_step]
  rw [toNat_count] at h
  by_cases hinside : 0 ≤ w.first.toInt ∧ w.first.toInt < size
  · -- the walk goes on, so it ends beyond the end of the array that it has come to
    rw [reach_of_inside hinside] at h ⊢
    unfold lastInside at h ⊢
    split <;> omega
  · -- the walk starts outside, and the position is its first
    rw [reach_of_outside hinside]
    split <;> omega

/-- All positions of a walk are within reach just when its two ends are positions of the array. -/
theorem reach_eq_count_iff :
    w.reach size = w.count.toNat ↔
      (0 ≤ w.first.toInt ∧ w.first.toInt < size) ∧ 0 ≤ w.last.toInt ∧ w.last.toInt < size := by
  rw [toNat_count]
  by_cases hinside : 0 ≤ w.first.toInt ∧ w.first.toInt < size
  · rw [reach_of_inside hinside]
    unfold lastInside
    omega
  · rw [reach_of_outside hinside]
    omega

/-- A walk that starts outside the array goes wrong at its start. -/
theorem position_reach_of_outside (h : ¬ (0 ≤ w.first.toInt ∧ w.first.toInt < size)) :
    w.position (w.reach size) = w.first := by
  rw [reach_of_outside h, position_zero]

/-- A walk that leaves the array goes wrong next to it, on the side of its end. -/
theorem toInt_position_reach (hfirst : 0 ≤ w.first.toInt ∧ w.first.toInt < size)
    (hlast : ¬ (0 ≤ w.last.toInt ∧ w.last.toInt < size)) :
    (w.position (w.reach size)).toInt = if w.last.toInt < 0 then -1 else (size : Int) := by
  have hlt : w.reach size < w.count.toNat :=
    Nat.lt_of_le_of_ne (reach_le_count w size) fun heq => hlast (reach_eq_count_iff.mp heq).2
  rw [toInt_position w hlt, toInt_step, reach_of_inside hfirst]
  unfold lastInside
  split <;> split <;> omega

end DocQuery.Walk
