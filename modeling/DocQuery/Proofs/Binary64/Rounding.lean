import DocQuery.Binary64.Rounding
import Mathlib.Algebra.Ring.Nat
import Mathlib.Data.Nat.Log

/-!
# Rounding in naturals

A binary64 number is made of its sign and its magnitude, and its word is made of them again
(`Binary64.ofMagnitude_magnitude`).  Rounding a quotient depends on its value alone
(`Binary64.nearest_mul_right`), gives back every finite magnitude from its value
(`Binary64.nearest_units`), and gives finite magnitudes for all integers of 64 bits
(`Binary64.isFinite_ofInt`).
-/

namespace DocQuery.Binary64

theorem binadeSize_eq : binadeSize = 2 ^ 52 :=
  Nat.one_shiftLeft 52

theorem signBit_eq : signBit = 2 ^ 63 :=
  Nat.one_shiftLeft 63

theorem infinity_eq : infinity = 2047 * 2 ^ 52 := by
  rw [infinity, binadeSize_eq]

theorem unitsPerOne_eq : unitsPerOne = 2 ^ 1074 := by
  unfold unitsPerOne
  generalize 1074 = places
  exact Nat.one_shiftLeft places

theorem unitsPerOne_pos : 0 < unitsPerOne := by
  unfold unitsPerOne
  generalize 1074 = places
  rw [Nat.one_shiftLeft]
  exact Nat.two_pow_pos places

/-! ### Words -/

theorem magnitude_ofMagnitude (negative : Bool) {m : Nat} (h : m ≤ infinity) :
    (ofMagnitude negative m).magnitude = m := by
  rw [infinity_eq] at h
  unfold ofMagnitude magnitude
  rw [signBit_eq, UInt64.toNat_ofNat']
  cases negative <;> simp only [Bool.false_eq_true, if_true, if_false] <;> omega

/-- A number is its magnitude with its sign. -/
theorem ofMagnitude_magnitude (x : Binary64) : ofMagnitude x.isNegative x.magnitude = x := by
  have hword := x.bits.toNat_lt
  have hbits : UInt64.ofNat (if x.isNegative then signBit + x.magnitude else x.magnitude) =
      x.bits := by
    apply UInt64.toNat_inj.mp
    rw [UInt64.toNat_ofNat']
    unfold isNegative magnitude
    rw [signBit_eq]
    by_cases hsign : 2 ^ 63 ≤ x.bits.toNat
    · rw [if_pos (decide_eq_true hsign)]
      omega
    · rw [if_neg (by simpa using hsign)]
      omega
  rw [ofMagnitude, hbits]

/-! ### Rounding depends on the value of a quotient -/

theorem roundDiv_mul_right (num den : Nat) {k : Nat} (hk : 0 < k) :
    roundDiv (num * k) (den * k) = roundDiv num den := by
  have hlt : 2 * (num % den * k) < den * k ↔ 2 * (num % den) < den := by
    rw [← Nat.mul_assoc]
    exact Nat.mul_lt_mul_right hk
  have heq : 2 * (num % den * k) = den * k ↔ 2 * (num % den) = den := by
    rw [← Nat.mul_assoc]
    exact Nat.mul_left_inj (Nat.ne_of_gt hk)
  unfold roundDiv
  rw [Nat.mul_div_mul_right num den hk, Nat.mul_mod_mul_right]
  simp only [hlt, heq, beq_iff_eq, Bool.or_eq_true, Bool.and_eq_true, decide_eq_true_eq]

theorem roundDiv_mul_self (quotient : Nat) {den : Nat} (h : 0 < den) :
    roundDiv (quotient * den) den = quotient := by
  unfold roundDiv
  rw [Nat.mul_div_cancel quotient h, Nat.mul_mod_left]
  simp [h]

/-- A quotient and its multiple by a common factor have the same nearest magnitude. -/
theorem nearest_mul_right (num den : Nat) {k : Nat} (hk : 0 < k) :
    nearest (num * k) (den * k) = nearest num den := by
  unfold nearest
  have hscaled : num * k * unitsPerOne = num * unitsPerOne * k := Nat.mul_right_comm _ _ _
  have hshift : ∀ binade, (den * k) <<< binade = den <<< binade * k := fun binade => by
    rw [Nat.shiftLeft_eq, Nat.shiftLeft_eq, Nat.mul_right_comm]
  simp only [hscaled, hshift, Nat.mul_div_mul_right _ _ hk, roundDiv_mul_right _ _ hk]

/-! ### Magnitudes from their values -/

/-- A value has as many binary digits as its binade says, or at most the fifty-three of the least
binades. -/
theorem log2_units (magnitude : Nat) :
    (units magnitude).log2 - 52 = magnitude / binadeSize - 1 := by
  rw [units, binadeSize_eq, Nat.shiftLeft_eq]
  by_cases hleast : magnitude / 2 ^ 52 ≤ 1
  · -- the value is the magnitude itself
    have hbinade : magnitude / 2 ^ 52 - 1 = 0 := by omega
    rw [hbinade]
    by_cases hzero : magnitude = 0
    · subst hzero
      rfl
    · have hlog := (Nat.log2_lt (k := 53) hzero).mpr (by omega)
      simpa using by omega
  · have hpos : 0 < 2 ^ (magnitude / 2 ^ 52 - 1) := Nat.two_pow_pos _
    -- the significand has fifty-three binary digits, and the binade shifts it up
    have hlow : 2 ^ 52 ≤ magnitude - (magnitude / 2 ^ 52 - 1) * 2 ^ 52 := by omega
    have hhigh : magnitude - (magnitude / 2 ^ 52 - 1) * 2 ^ 52 < 2 ^ 53 := by omega
    have hlog : ((magnitude - (magnitude / 2 ^ 52 - 1) * 2 ^ 52) *
        2 ^ (magnitude / 2 ^ 52 - 1)).log2 = 52 + (magnitude / 2 ^ 52 - 1) := by
      rw [Nat.log2_eq_iff (Nat.ne_of_gt (Nat.mul_pos (by omega) hpos))]
      constructor
      · rw [Nat.pow_add]
        exact Nat.mul_le_mul_right _ hlow
      · rw [show 52 + (magnitude / 2 ^ 52 - 1) + 1 = 53 + (magnitude / 2 ^ 52 - 1) by omega,
          Nat.pow_add]
        exact Nat.mul_lt_mul_of_pos_right hhigh hpos
    rw [hlog]
    omega

/-- The magnitude nearest to the value of a finite magnitude is this magnitude. -/
theorem nearest_units {magnitude : Nat} (h : magnitude < infinity) :
    nearest (units magnitude) unitsPerOne = magnitude := by
  have hvalue : units magnitude = (magnitude - (magnitude / binadeSize - 1) * binadeSize) *
      2 ^ (magnitude / binadeSize - 1) := by
    rw [units, Nat.shiftLeft_eq]
  have hround : roundDiv (units magnitude * unitsPerOne)
      (unitsPerOne <<< (magnitude / binadeSize - 1)) =
        magnitude - (magnitude / binadeSize - 1) * binadeSize := by
    rw [Nat.shiftLeft_eq, Nat.mul_comm unitsPerOne, roundDiv_mul_right _ _ unitsPerOne_pos, hvalue,
      roundDiv_mul_self _ (Nat.two_pow_pos _)]
  unfold nearest
  simp only [Nat.mul_div_cancel _ unitsPerOne_pos, log2_units, hround]
  rw [binadeSize_eq]
  omega

/-! ### Integers -/

/-- Rounding to a significand of fifty-three binary digits gives no more than the least number that
has fifty-four. -/
theorem roundDiv_log2_le (num : Nat) : roundDiv num (1 <<< (num.log2 - 52)) ≤ 2 ^ 53 := by
  have hlt : num < 2 ^ (num.log2 + 1) := Nat.lt_log2_self
  have hle : 2 ^ (num.log2 + 1) ≤ 2 ^ 53 * 2 ^ (num.log2 - 52) := by
    rw [← Nat.pow_add]
    exact Nat.pow_le_pow_right (by decide) (by omega)
  have hdiv : num / 2 ^ (num.log2 - 52) < 2 ^ 53 :=
    (Nat.div_lt_iff_lt_mul (Nat.two_pow_pos _)).mpr (Nat.lt_of_lt_of_le hlt hle)
  rw [Nat.one_shiftLeft]
  unfold roundDiv
  dsimp only
  split <;> omega

theorem log2_mul_unitsPerOne_le {n places : Nat} (h : n < 2 ^ places) :
    (n * unitsPerOne).log2 ≤ places + 1074 := by
  unfold unitsPerOne
  generalize 1074 = shift
  rw [Nat.one_shiftLeft]
  by_cases hzero : n * 2 ^ shift = 0
  · rw [hzero, Nat.log2_zero]
    exact Nat.zero_le _
  · apply Nat.le_of_lt
    rw [Nat.log2_lt hzero, Nat.pow_add]
    exact Nat.mul_lt_mul_of_pos_right h (Nat.two_pow_pos shift)

theorem nearest_lt_infinity {n : Nat} (h : n < 2 ^ 64) : nearest n 1 < infinity := by
  have hlog := log2_mul_unitsPerOne_le h
  have hround := roundDiv_log2_le (n * unitsPerOne)
  unfold nearest
  simp only [Nat.div_one]
  rw [infinity_eq, binadeSize_eq]
  omega

/-- Every integer of 64 bits, signed or not, has a finite nearest number. -/
theorem isFinite_ofInt {n : Int} (h : n.natAbs < 2 ^ 64) : (ofInt n).isFinite = true := by
  have hlt := nearest_lt_infinity h
  rw [isFinite, ofInt, ofQuotient, magnitude_ofMagnitude _ (Nat.le_of_lt hlt)]
  exact decide_eq_true hlt

end DocQuery.Binary64
