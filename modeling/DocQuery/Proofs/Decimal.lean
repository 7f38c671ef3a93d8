import DocQuery.Decimal
import DocQuery.Proofs.Digits

/-!
# Decimals of the same number

A power of ten may be moved from the exponent of a decimal into its coefficient (`Decimal.scale`);
the number stays the same, and so do its significant digits (`Decimal.digits_scale`).  Every decimal
is what its significant digits and the place of the first of them say, up to such a move
(`Decimal.exists_eq_scale_ofDigits`).
-/

namespace DocQuery.Decimal

attribute [ext] Decimal

/-- The same number with a power of ten moved into the coefficient. -/
def scale (d : Decimal) (k : Nat) : Decimal :=
  ⟨d.coefficient * 10 ^ k, d.exponent - k⟩

@[simp] theorem scale_coefficient (d : Decimal) (k : Nat) :
    (d.scale k).coefficient = d.coefficient * 10 ^ k :=
  rfl

@[simp] theorem scale_exponent (d : Decimal) (k : Nat) : (d.scale k).exponent = d.exponent - k :=
  rfl

/-- The decimal of the given digits, of which the first counts `10 ^ leadingExponent`. -/
def ofDigits (digits : List Char) (leadingExponent : Int) : Decimal :=
  ⟨Digits.value digits, leadingExponent + 1 - digits.length⟩

@[simp] theorem ofDigits_coefficient (digits : List Char) (leadingExponent : Int) :
    (ofDigits digits leadingExponent).coefficient = Digits.value digits :=
  rfl

@[simp] theorem ofDigits_exponent (digits : List Char) (leadingExponent : Int) :
    (ofDigits digits leadingExponent).exponent = leadingExponent + 1 - digits.length :=
  rfl

/-! ### Significant digits -/

theorem exists_digits_eq_cons (d : Decimal) :
    ∃ first rest, Digits.ofNat d.coefficient = first :: rest ∧
      d.digits = first :: Digits.dropFinalZeros rest := by
  obtain ⟨first, rest, hdigits⟩ := List.exists_cons_of_ne_nil (Digits.ofNat_ne_nil d.coefficient)
  exact ⟨first, rest, hdigits, by rw [digits, hdigits]⟩

theorem digits_ne_nil (d : Decimal) : d.digits ≠ [] := by
  obtain ⟨first, rest, -, hdigits⟩ := d.exists_digits_eq_cons
  rw [hdigits]
  exact List.cons_ne_nil _ _

theorem isDigit_of_mem_digits {d : Decimal} {c : Char} (h : c ∈ d.digits) : c.isDigit = true := by
  obtain ⟨first, rest, hcoefficient, hdigits⟩ := d.exists_digits_eq_cons
  apply Digits.isDigit_of_mem_ofNat (n := d.coefficient)
  rw [hdigits] at h
  rw [hcoefficient]
  exact (List.mem_cons.mp h).elim (fun heq => heq ▸ List.mem_cons_self) fun hrest =>
    List.mem_cons_of_mem _ (Digits.mem_of_mem_dropFinalZeros hrest)

theorem head_digits_ne_zero {d : Decimal} (hd : d.coefficient ≠ 0) {c : Char}
    (h : c ∈ d.digits.head?) : c ≠ '0' := by
  obtain ⟨first, rest, hcoefficient, hdigits⟩ := d.exists_digits_eq_cons
  apply Digits.head_ofNat_ne_zero hd
  rw [hdigits] at h
  rwa [hcoefficient]

theorem length_digits_le (d : Decimal) : d.digits.length ≤ (Digits.ofNat d.coefficient).length := by
  obtain ⟨first, rest, hcoefficient, hdigits⟩ := d.exists_digits_eq_cons
  rw [hcoefficient, hdigits, List.length_cons, List.length_cons]
  exact Nat.succ_le_succ (Digits.length_dropFinalZeros_le rest)

/-- The significant digits do not depend on how the number is split. -/
theorem digits_scale (d : Decimal) (k : Nat) : (d.scale k).digits = d.digits := by
  by_cases hzero : d.coefficient = 0
  · simp only [digits, scale, hzero, Nat.zero_mul]
  · obtain ⟨first, rest, hcoefficient, hdigits⟩ := d.exists_digits_eq_cons
    rw [hdigits, digits, scale, Digits.ofNat_mul_pow hzero, hcoefficient, List.cons_append]
    exact congrArg _ (Digits.dropFinalZeros_append_replicate rest k)

@[simp] theorem scale_zero (d : Decimal) : d.scale 0 = d := by
  ext <;> simp

theorem leadingExponent_scale {d : Decimal} (hd : d.coefficient ≠ 0) (k : Nat) :
    (d.scale k).leadingExponent = d.leadingExponent := by
  rw [leadingExponent, leadingExponent, scale_coefficient, scale_exponent, Digits.ofNat_mul_pow hd,
    List.length_append, List.length_replicate]
  omega

/-- A decimal is what its significant digits say. -/
theorem exists_eq_scale_ofDigits (d : Decimal) :
    ∃ k, d = (ofDigits d.digits d.leadingExponent).scale k := by
  obtain ⟨first, rest, hcoefficient, hdigits⟩ := d.exists_digits_eq_cons
  obtain ⟨k, hk⟩ := Digits.exists_eq_dropFinalZeros_append rest
  -- the coefficient has so many zeros behind the significant digits
  have hsplit : Digits.ofNat d.coefficient = d.digits ++ List.replicate k '0' := by
    rw [hcoefficient, hdigits, List.cons_append, ← hk]
  have hvalue : d.coefficient = Digits.value d.digits * 10 ^ k := by
    rw [← Digits.value_append_replicate_zero, ← hsplit, Digits.value_ofNat]
  have hlength : (Digits.ofNat d.coefficient).length = d.digits.length + k := by
    rw [hsplit, List.length_append, List.length_replicate]
  have hexponent : d.exponent = d.leadingExponent + 1 - d.digits.length - k := by
    rw [leadingExponent, hlength]
    omega
  refine ⟨k, ?_⟩
  rw [scale, ofDigits, ← hvalue, ← hexponent]

end DocQuery.Decimal
