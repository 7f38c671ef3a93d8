import DocQuery.Proofs.Walk.Fill

/-!
# Filling a walk from the array itself

With the array itself as the source, the `k`-th position of a walk is filled with the element that
is at index `k` by then, which may have been written before.  `Walk.origin` says where this element
came from in the first place: upwards the elements in front of the walk repeat, downwards the first
half of the walk is mirrored.  So the loop that reads what it writes ends like one that only reads
the elements as they were (`Walk.filled_selfCopy`).

Origins are elements (`Walk.origin_lt`), and an origin that is written is written with itself
(`Walk.origin_eq_of_slot_eq_origin`), which is why copying a second time changes nothing
(`Walk.elementOrNull_origin`).
-/

namespace DocQuery.Walk

open Selector (elementOrNull)

/-- The index of the element that filling from the array itself brings to the position after `k`
steps. -/
def origin (w : Walk) (k : Nat) : Nat :=
  if w.first.toInt < w.last.toInt then k % w.first.toInt.toNat
  else min k (w.first.toInt.toNat - k)

/-- Filling from the array itself reads each element in its turn. -/
def selfSource (k : Nat) (current : List Value) : Value :=
  elementOrNull current k

variable {w : Walk} {elements : List Value}

/-! ### Elements and nulls -/

theorem getElem?_eq_some_elementOrNull {i : Nat} (h : i < elements.length) :
    elements[i]? = some (elementOrNull elements i) := by
  unfold elementOrNull
  rw [List.getElem?_eq_getElem h, Option.getD_some]

theorem elementOrNull_of_getElem? {x : Value} {i : Nat} (h : elements[i]? = some x) :
    elementOrNull elements i = x := by
  rw [elementOrNull, h, Option.getD_some]

/-! ### Origins -/

theorem origin_up (h : w.first.toInt < w.last.toInt) (k : Nat) :
    w.origin k = k % w.first.toInt.toNat :=
  if_pos h

theorem origin_down (h : ¬ w.first.toInt < w.last.toInt) (k : Nat) :
    w.origin k = min k (w.first.toInt.toNat - k) :=
  if_neg h

theorem origin_le (w : Walk) (k : Nat) : w.origin k ≤ k := by
  unfold origin
  split
  · exact Nat.mod_le _ _
  · exact Nat.min_le_left _ _

/-- Origins are elements. -/
theorem origin_lt {size k : Nat} (h : k < w.reach size) : w.origin k < size := by
  have hle := origin_le w k
  have hsize := reach_le_size w size
  omega

/-- An element that was written in an earlier step has the origin of that step. -/
theorem origin_slot {size k l : Nat} (hk : k < w.reach size) (hl : l < k) (h : w.slot l = k) :
    w.origin k = w.origin l := by
  have hslot := cast_slot (Nat.lt_trans hl hk)
  have hinside := inside_of_lt_reach hk
  rw [h, toInt_step] at hslot
  split at hslot
  · next hup =>
    -- the element was written as many steps ago as there are elements in front of the walk
    have hk : k = w.first.toInt.toNat + l := by omega
    rw [origin_up hup, origin_up hup, hk, Nat.add_mod_left]
  · next hdown =>
    -- `k` and `l` add up to the start, and the origin is the lesser of the two for both
    rw [origin_down hdown, origin_down hdown]
    omega

/-- An element that was not written in any earlier step is its own origin. -/
theorem origin_eq_self {size k : Nat} (hk : k < w.reach size) (h : ∀ l < k, w.slot l ≠ k) :
    w.origin k = k := by
  have hinside := inside_of_lt_reach hk
  by_cases hdir : w.first.toInt < w.last.toInt
  · rw [origin_up hdir]
    by_cases hlow : k < w.first.toInt.toNat
    · exact Nat.mod_eq_of_lt hlow
    · by_cases hzero : w.first.toInt.toNat = 0
      · rw [hzero, Nat.mod_zero]
      · -- an earlier step would have come to the element
        refine absurd ?_ (h (k - w.first.toInt.toNat) (by omega))
        rw [slot_eq, if_pos hdir]
        omega
  · rw [origin_down hdir]
    by_cases hhalf : k ≤ w.first.toInt.toNat - k
    · exact Nat.min_eq_left hhalf
    · -- past the middle, the step that mirrors this one has come to the element
      have hreach := hk
      rw [reach_of_inside hinside, lastInside] at hreach
      refine absurd ?_ (h (w.first.toInt.toNat - k) (by omega))
      rw [slot_eq, if_neg hdir]
      omega

/-- Where an origin is written, it is written with what has the same origin: with itself. -/
theorem origin_eq_of_slot_eq_origin {size k l : Nat} (hk : k < w.reach size)
    (hl : l < w.reach size) (h : w.slot l = w.origin k) : w.origin l = w.origin k := by
  have hslot := cast_slot hl
  have hinside := inside_of_lt_reach hk
  have hreach := hk
  rw [reach_of_inside hinside, lastInside] at hreach
  rw [h, toInt_step] at hslot
  split at hslot
  · next hup =>
    rw [origin_up hup] at hslot ⊢
    rw [origin_up hup]
    by_cases hzero : w.first.toInt.toNat = 0
    · rw [hzero, Nat.mod_zero] at hslot ⊢
      omega
    · -- no element in front of the walk is written
      have hlt := Nat.mod_lt k (Nat.pos_of_ne_zero hzero)
      omega
  · next hdown =>
    rw [origin_down hdown] at hslot ⊢
    rw [origin_down hdown]
    omega

/-! ### The copy -/

/-- Filling from the array itself gives each position the element of its origin. -/
theorem filled_selfCopy {steps : Nat} (hsteps : steps ≤ w.reach elements.length) :
    w.Filled steps (fun k => elementOrNull elements (w.origin k)) elements
      (w.afterSteps selfSource elements steps) := by
  apply filled_afterSteps _ hsteps
  intro k hk current hfilled
  apply elementOrNull_of_getElem?
  rcases w.slot_cases k k with ⟨l, hl, heq⟩ | hslot
  · -- read after it was written: it holds what the earlier step has brought
    have hwritten := hfilled.written l hl
    rw [heq] at hwritten
    rw [hwritten, origin_slot hk hl heq]
  · -- read before it was written: it is as it was
    rw [hfilled.kept k hslot, origin_eq_self hk hslot]
    exact getElem?_eq_some_elementOrNull (Nat.lt_of_lt_of_le hk (reach_le_size w _))

/-- The copy leaves every origin as it was. -/
theorem elementOrNull_origin {copied : List Value} {k : Nat}
    (h : w.Filled (w.reach elements.length) (fun k => elementOrNull elements (w.origin k)) elements
      copied)
    (hk : k < w.reach elements.length) :
    elementOrNull copied (w.origin k) = elementOrNull elements (w.origin k) := by
  apply elementOrNull_of_getElem?
  rcases w.slot_cases (w.reach elements.length) (w.origin k) with ⟨l, hl, heq⟩ | hslot
  · have hwritten := h.written l hl
    rwa [heq, origin_eq_of_slot_eq_origin hk hl heq] at hwritten
  · rw [h.kept _ hslot]
    exact getElem?_eq_some_elementOrNull (origin_lt hk)

end DocQuery.Walk
