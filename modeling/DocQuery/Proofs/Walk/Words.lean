import Mathlib.Algebra.Ring.Int.Defs
import Mathlib.Algebra.Ring.Nat
import DocQuery.Selector.Walk

/-!
# Walks in integers

Positions are words of 64 bits, and a walk reckons with them in words of 128 bits.  No operation on
the way wraps, as is shown of each one where it is used, so a walk can be reasoned about in integers:

* `Selector.toInt_resolve`: a negative index is counted from the size, any other is itself.
* `Walk.toNat_count`: a walk has one position more than its ends are apart.
* `Walk.toInt_position`: after `k` steps it is `k` times its step away from where it started.

`Walk.fitsWords` gathers what was shown of the operations.
-/

namespace DocQuery

/-! ### Resolved indices -/

theorem toInt_ofNat_size {size : Nat} (h : size < 2 ^ 63) : (Int64.ofNat size).toInt = size :=
  Int64.toInt_ofNat_of_lt h

/-- A negative index and the size of an array have a sum of 64 bits. -/
theorem saddOverflow_size {index : Int64} {size : Nat} (hsize : size < 2 ^ 63)
    (hindex : index < 0) : (Int64.ofNat size).toBitVec.saddOverflow index.toBitVec = false := by
  have hneg := Int64.lt_iff_toInt_lt.mp hindex
  have hlow := index.le_toInt
  rw [Int64.toInt_zero] at hneg
  rw [BitVec.saddOverflow, Int64.toInt_toBitVec, Int64.toInt_toBitVec, toInt_ofNat_size hsize,
    Bool.or_eq_false_iff, decide_eq_false_iff_not, decide_eq_false_iff_not]
  omega

/-- An index resolves to itself, or to itself counted from the size when it is negative. -/
theorem Selector.toInt_resolve (index : Int64) {size : Nat} (h : size < 2 ^ 63) :
    (resolve index size).toInt = if index.toInt < 0 then size + index.toInt else index.toInt := by
  have hneg : index < 0 ↔ index.toInt < 0 := by rw [Int64.lt_iff_toInt_lt, Int64.toInt_zero]
  unfold resolve
  by_cases hindex : index < 0
  · have hfits := Bool.eq_false_iff.mp (saddOverflow_size h hindex)
    rw [if_pos hindex, if_pos (hneg.mp hindex), ← Int64.toInt_toBitVec, Int64.toBitVec_add,
      BitVec.toInt_add_of_not_saddOverflow hfits, Int64.toInt_toBitVec, Int64.toInt_toBitVec,
      toInt_ofNat_size h]
  · rw [if_neg hindex, if_neg (mt hneg.mpr hindex)]

/-- A position resolves to itself. -/
theorem Selector.resolve_of_nonneg {position : Int64} (h : 0 ≤ position.toInt) (size : Nat) :
    resolve position size = position := by
  apply if_neg
  rw [Int64.lt_iff_toInt_lt, Int64.toInt_zero]
  omega

namespace Walk

/-! ### The wide words -/

theorem toInt_widen (position : Int64) : (widen position).toInt = position.toInt :=
  BitVec.toInt_signExtend_of_le (by decide)

theorem toInt_narrow {word : BitVec 128} (hlow : -2 ^ 63 ≤ word.toInt)
    (hhigh : word.toInt < 2 ^ 63) : (narrow word).toInt = word.toInt := by
  -- the low half of a word is the number modulo `2 ^ 64`, by whichever sign it is read
  have hmod : (word.toNat : Int).bmod (2 ^ 64) = word.toInt.bmod (2 ^ 64) := by
    rw [BitVec.toInt_eq_toNat_bmod, Int.bmod_bmod_of_dvd (by decide)]
  unfold narrow
  rw [Int64.toInt_ofBitVec, BitVec.toInt_setWidth, hmod]
  apply Int.bmod_eq_of_le <;> omega

/-- The step is one up or one down, towards the last position. -/
theorem toInt_step (w : Walk) :
    w.step.toInt = if w.first.toInt < w.last.toInt then 1 else -1 := by
  unfold step
  simp only [Int64.lt_iff_toInt_lt]
  split <;> rfl

/-- The ends of a walk are words of 64 bits. -/
theorem toInt_ends (w : Walk) :
    (-2 ^ 63 ≤ w.first.toInt ∧ w.first.toInt < 2 ^ 63) ∧
      -2 ^ 63 ≤ w.last.toInt ∧ w.last.toInt < 2 ^ 63 :=
  ⟨⟨w.first.le_toInt, w.first.toInt_lt⟩, w.last.le_toInt, w.last.toInt_lt⟩

/-- Two words of 64 bits are less than `2 ^ 64` apart. -/
theorem ssubOverflow_ends (w : Walk) : (widen w.last).ssubOverflow (widen w.first) = false := by
  have hwords := w.toInt_ends
  rw [BitVec.ssubOverflow, toInt_widen, toInt_widen, Bool.or_eq_false_iff,
    decide_eq_false_iff_not, decide_eq_false_iff_not]
  omega

theorem toNat_distance (w : Walk) :
    w.distance.toNat = (w.last.toInt - w.first.toInt).natAbs := by
  have hwords := w.toInt_ends
  have hsub : (widen w.last - widen w.first).toInt = w.last.toInt - w.first.toInt := by
    rw [BitVec.toInt_sub_of_not_ssubOverflow (Bool.eq_false_iff.mp w.ssubOverflow_ends),
      toInt_widen, toInt_widen]
  -- the least word is the only one that has no absolute value
  have hmin : widen w.last - widen w.first ≠ BitVec.intMin 128 := by
    intro h
    rw [h, BitVec.toInt_intMin] at hsub
    omega
  have habs := BitVec.toInt_abs_eq_natAbs_of_ne_intMin hmin
  rw [hsub, BitVec.toInt_eq_toNat_cond] at habs
  unfold distance
  split at habs <;> omega

theorem uaddOverflow_distance (w : Walk) : w.distance.uaddOverflow 1 = false := by
  have hwords := w.toInt_ends
  rw [BitVec.uaddOverflow, toNat_distance, show (1 : BitVec 128).toNat = 1 from rfl,
    decide_eq_false_iff_not]
  omega

/-- A walk has one position more than its ends are apart. -/
theorem toNat_count (w : Walk) : w.count.toNat = (w.last.toInt - w.first.toInt).natAbs + 1 := by
  unfold count
  rw [BitVec.toNat_add_of_not_uaddOverflow (Bool.eq_false_iff.mp w.uaddOverflow_distance),
    toNat_distance]
  rfl

theorem between_ends (w : Walk) {k : Nat} (h : k < w.count.toNat) :
    min w.first.toInt w.last.toInt ≤ w.first.toInt + w.step.toInt * k ∧
      w.first.toInt + w.step.toInt * k ≤ max w.first.toInt w.last.toInt := by
  rw [toNat_count] at h
  rw [toInt_step]
  split <;> omega

/-- The number of a step is the same whichever way its word is read. -/
theorem toInt_number {w : Walk} {k : Nat} (h : k < w.count.toNat) :
    (BitVec.ofNat 128 k).toInt = k := by
  have hwords := w.toInt_ends
  rw [toNat_count] at h
  rw [BitVec.toInt_ofNat']
  apply Int.bmod_eq_of_le <;> omega

theorem smulOverflow_step {w : Walk} {k : Nat} (h : k < w.count.toNat) :
    (widen w.step).smulOverflow (BitVec.ofNat 128 k) = false := by
  have hwords := w.toInt_ends
  rw [BitVec.smulOverflow, toInt_widen, toInt_number h, toInt_step, Bool.or_eq_false_iff,
    decide_eq_false_iff_not, decide_eq_false_iff_not]
  rw [toNat_count] at h
  split <;> omega

theorem toInt_step_mul {w : Walk} {k : Nat} (h : k < w.count.toNat) :
    (widen w.step * BitVec.ofNat 128 k).toInt = w.step.toInt * k := by
  rw [BitVec.toInt_mul_of_not_smulOverflow (Bool.eq_false_iff.mp (smulOverflow_step h)),
    toInt_widen, toInt_number h]

theorem saddOverflow_place {w : Walk} {k : Nat} (h : k < w.count.toNat) :
    (widen w.first).saddOverflow (widen w.step * BitVec.ofNat 128 k) = false := by
  have hwords := w.toInt_ends
  have hends := between_ends w h
  rw [BitVec.saddOverflow, toInt_widen, toInt_step_mul h, Bool.or_eq_false_iff,
    decide_eq_false_iff_not, decide_eq_false_iff_not]
  omega

theorem toInt_place (w : Walk) {k : Nat} (h : k < w.count.toNat) :
    (w.place (BitVec.ofNat 128 k)).toInt = w.first.toInt + w.step.toInt * k := by
  unfold place
  rw [BitVec.toInt_add_of_not_saddOverflow (Bool.eq_false_iff.mp (saddOverflow_place h)),
    toInt_widen, toInt_step_mul h]

/-- After `k` steps a walk is `k` times its step away from where it started. -/
theorem toInt_position (w : Walk) {k : Nat} (h : k < w.count.toNat) :
    (w.position k).toInt = w.first.toInt + w.step.toInt * k := by
  have hwords := w.toInt_ends
  have hends := between_ends w h
  have hplace := toInt_place w h
  unfold position
  rw [toInt_narrow, hplace] <;> omega

/-! ### The first position -/

theorem count_pos (w : Walk) : 0 < w.count.toNat := by
  rw [toNat_count]
  exact Nat.succ_pos _

theorem position_zero (w : Walk) : w.position 0 = w.first := by
  rw [← Int64.toInt_inj, toInt_position w w.count_pos, Nat.cast_zero, Int.mul_zero, Int.add_zero]

/-- A walk that ends where it starts has one position. -/
theorem toNat_count_single (position : Int64) : (Walk.mk position position).count.toNat = 1 := by
  rw [toNat_count]
  simp

/-! ### All operations -/

/-- Each number that a walk reckons with is one that its word can hold. -/
structure FitsWords (w : Walk) : Prop where
  /-- The ends are subtracted in signed words. -/
  difference : (widen w.last).ssubOverflow (widen w.first) = false
  distance : w.distance.toNat = (w.last.toInt - w.first.toInt).natAbs
  /-- One is added to the distance in words without a sign. -/
  count : w.distance.uaddOverflow 1 = false
  number : ∀ k < w.count.toNat, (BitVec.ofNat 128 k).toInt = k
  product : ∀ k < w.count.toNat, (widen w.step).smulOverflow (BitVec.ofNat 128 k) = false
  sum : ∀ k < w.count.toNat,
    (widen w.first).saddOverflow (widen w.step * BitVec.ofNat 128 k) = false
  /-- A position is what it was before it was narrowed. -/
  position : ∀ k < w.count.toNat, widen (w.position k) = w.place (BitVec.ofNat 128 k)

/-- **Nothing is lost in the reckoning of a walk.** -/
theorem fitsWords (w : Walk) : w.FitsWords where
  difference := w.ssubOverflow_ends
  distance := w.toNat_distance
  count := w.uaddOverflow_distance
  number _ hk := toInt_number hk
  product _ hk := smulOverflow_step hk
  sum _ hk := saddOverflow_place hk
  position k hk := by
    rw [← BitVec.toInt_inj, toInt_widen, toInt_position w hk, toInt_place w hk]

end Walk

end DocQuery
