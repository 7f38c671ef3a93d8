import DocQuery.Binary64.Shortest
import DocQuery.Proofs.Binary64.Rounding
import DocQuery.Proofs.Decimal

/-!
# Rounding decimals

The binary64 number nearest to a decimal depends on the number that the decimal is, not on how a power
of ten is split between coefficient and exponent (`Binary64.ofDecimal_scale`), and on the sign in the
sign bit only (`Binary64.ofMagnitude_toMagnitude`).

For the first, the decimal is written as a quotient by any power of ten that makes the exponent an
exponent of a natural number (`Binary64.ofDecimal_eq`).  Two decimals of the same number are then the
same quotient, if the power is large enough for both.
-/

namespace DocQuery.Binary64

/-! ### Decimals as quotients -/

theorem ofQuotient_mul_right (negative : Bool) (num den : Nat) {k : Nat} (hk : 0 < k) :
    ofQuotient negative (num * k) (den * k) = ofQuotient negative num den := by
  rw [ofQuotient, ofQuotient, nearest_mul_right num den hk]

/-- A decimal within the range of the finite numbers is the quotient of its coefficient, with so many
more zeros, by a power of ten. -/
theorem ofDecimal_eq (negative : Bool) (d : Decimal) {places : Nat} (h : 0 ≤ d.exponent + places) :
    ofDecimal negative d =
      if d.coefficient = 0 ∨ d.leadingExponent + 1 < -330 then ofMagnitude negative 0
      else if 310 < d.leadingExponent + 1 then ofMagnitude negative infinity
      else ofQuotient negative (d.coefficient * 10 ^ (d.exponent + places).toNat) (10 ^ places) := by
  have hsize : (Digits.ofNat d.coefficient).length + d.exponent = d.leadingExponent + 1 := by
    rw [Decimal.leadingExponent]
    omega
  have hquotient : (if d.exponent < 0
      then ofQuotient negative d.coefficient (Nat.pow 10 d.exponent.natAbs)
      else ofQuotient negative (d.coefficient * Nat.pow 10 d.exponent.toNat) 1) =
        ofQuotient negative (d.coefficient * 10 ^ (d.exponent + places).toNat) (10 ^ places) := by
    by_cases hneg : d.exponent < 0
    · -- numerator and denominator have the places in common that the exponent does not use
      have hden : 10 ^ places = 10 ^ d.exponent.natAbs * 10 ^ (d.exponent + places).toNat := by
        rw [← Nat.pow_add]
        congr 1
        omega
      rw [if_pos hneg, hden, ofQuotient_mul_right _ _ _ (Nat.pow_pos (by decide))]
      rfl
    · have hnum : d.coefficient * 10 ^ (d.exponent + places).toNat =
          d.coefficient * 10 ^ d.exponent.toNat * 10 ^ places := by
        rw [Nat.mul_assoc, ← Nat.pow_add]
        congr 2
        omega
      have hcommon := ofQuotient_mul_right negative (d.coefficient * 10 ^ d.exponent.toNat) 1
        (k := 10 ^ places) (Nat.pow_pos (by decide))
      rw [Nat.one_mul] at hcommon
      rw [if_neg hneg, hnum, hcommon]
      rfl
  rw [← hquotient, ofDecimal]
  simp only [hsize, Bool.or_eq_true, decide_eq_true_eq]

/-- Rounding does not depend on how the number is split into coefficient and exponent. -/
theorem ofDecimal_scale (negative : Bool) (d : Decimal) (k : Nat) :
    ofDecimal negative (d.scale k) = ofDecimal negative d := by
  by_cases hzero : d.coefficient = 0
  · have hscaled : (d.scale k).coefficient = 0 := by
      rw [Decimal.scale_coefficient, hzero, Nat.zero_mul]
    simp only [ofDecimal, hzero, hscaled, decide_true, Bool.true_or, if_true]
  · have hcoefficient : (d.scale k).coefficient = 0 ↔ d.coefficient = 0 := by
      rw [Decimal.scale_coefficient, Nat.mul_eq_zero, or_iff_left (by simp)]
    -- enough places for both exponents
    obtain ⟨places, hplaces, hscaled⟩ : ∃ places : Nat, 0 ≤ d.exponent + places ∧
        0 ≤ d.exponent - k + places :=
      ⟨d.exponent.natAbs + k, by omega, by omega⟩
    have hnum : (d.scale k).coefficient * 10 ^ ((d.scale k).exponent + places).toNat =
        d.coefficient * 10 ^ (d.exponent + places).toNat := by
      rw [Decimal.scale_coefficient, Decimal.scale_exponent, Nat.mul_assoc, ← Nat.pow_add]
      congr 2
      omega
    rw [ofDecimal_eq negative d hplaces, ofDecimal_eq negative (d.scale k) hscaled,
      Decimal.leadingExponent_scale hzero, hnum]
    simp only [hcoefficient]

/-! ### Magnitudes -/

theorem nearest_le_infinity (num den : Nat) : nearest num den ≤ infinity :=
  Nat.min_le_left _ _

/-- The magnitude of the nearest number does not depend on the sign. -/
theorem ofMagnitude_toMagnitude (negative : Bool) (d : Decimal) :
    ofMagnitude negative d.toMagnitude = ofDecimal negative d := by
  have hplaces : 0 ≤ d.exponent + d.exponent.natAbs := by omega
  rw [Decimal.toMagnitude, ofDecimal_eq false d hplaces, ofDecimal_eq negative d hplaces]
  split_ifs with hsmall hlarge
  · rw [magnitude_ofMagnitude _ (Nat.zero_le _)]
  · rw [magnitude_ofMagnitude _ (Nat.le_refl _)]
  · rw [ofQuotient, ofQuotient, magnitude_ofMagnitude _ (nearest_le_infinity _ _)]

theorem toMagnitude_eq_zero {d : Decimal} (h : d.coefficient = 0) : d.toMagnitude = 0 := by
  have hzero : ofDecimal false d = ofMagnitude false 0 := by
    simp only [ofDecimal, h, decide_true, Bool.true_or, if_true]
  rw [Decimal.toMagnitude, hzero, magnitude_ofMagnitude _ (Nat.zero_le _)]

end DocQuery.Binary64
