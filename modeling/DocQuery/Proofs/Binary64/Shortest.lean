import DocQuery.Proofs.Binary64.Decimal

/-!
# The shortest decimal reads back

`Binary64.shortest` gives a decimal that reads back to the finite magnitude that it was made from
(`Binary64.toMagnitude_shortest`), and no more digits than a reader tells apart
(`Binary64.length_digits_shortest`).

Of a decimal that was found on a grid the reader itself was asked.  The one that stands for the case
that none is found is the exact value, which reads back as it rounds to itself.
-/

namespace DocQuery.Binary64

/-! ### The value of a magnitude -/

theorem units_ne_zero {magnitude : Nat} (h : magnitude ≠ 0) : units magnitude ≠ 0 := by
  rw [units, binadeSize_eq, Nat.shiftLeft_eq]
  exact Nat.ne_of_gt (Nat.mul_pos (by omega) (Nat.two_pow_pos _))

/-- A finite value is a significand of at most fifty-three binary digits, shifted up. -/
theorem exists_units_eq {magnitude : Nat} (h : magnitude < infinity) :
    ∃ significand binade, significand < 2 ^ 53 ∧ binade ≤ 2045 ∧
      units magnitude = significand * 2 ^ binade := by
  rw [infinity_eq] at h
  rw [units, binadeSize_eq, Nat.shiftLeft_eq]
  exact ⟨_, _, by omega, by omega, rfl⟩

/-! ### The exact value -/

theorem nearest_mul_five_pow (n places : Nat) :
    nearest (n * 5 ^ places) (10 ^ places) = nearest n (2 ^ places) := by
  rw [show 10 ^ places = 2 ^ places * 5 ^ places by rw [← Nat.mul_pow]]
  exact nearest_mul_right n (2 ^ places) (Nat.pow_pos (by decide))

theorem exactDecimal_eq (magnitude : Nat) :
    exactDecimal magnitude = ⟨units magnitude * 5 ^ 1074, -1074⟩ := by
  have hpow : ∀ places, Nat.pow 5 places = 5 ^ places := fun _ => rfl
  rw [exactDecimal, hpow 1074]

theorem exactDecimal_coefficient (magnitude : Nat) :
    (exactDecimal magnitude).coefficient = units magnitude * 5 ^ 1074 := by
  rw [exactDecimal_eq]

theorem exactDecimal_exponent (magnitude : Nat) : (exactDecimal magnitude).exponent = -1074 := by
  rw [exactDecimal_eq]

/-- The exact value lies where the reader computes with it. -/
theorem leadingExponent_exactDecimal {magnitude : Nat} (hzero : magnitude ≠ 0)
    (h : magnitude < infinity) :
    -330 ≤ (exactDecimal magnitude).leadingExponent + 1 ∧
      (exactDecimal magnitude).leadingExponent + 1 ≤ 310 := by
  have hlow : ¬ (exactDecimal magnitude).coefficient < 10 ^ 744 := by
    rw [exactDecimal_coefficient, Nat.not_lt]
    calc 10 ^ 744 ≤ 5 ^ 1074 := by decide +kernel
      _ ≤ units magnitude * 5 ^ 1074 :=
        Nat.le_mul_of_pos_left _ (Nat.pos_of_ne_zero (units_ne_zero hzero))
  have hhigh : (exactDecimal magnitude).coefficient < 10 ^ 1383 := by
    obtain ⟨significand, binade, hsignificand, hbinade, hunits⟩ := exists_units_eq h
    have hshift := Nat.pow_le_pow_right (n := 2) (by decide) hbinade
    rw [exactDecimal_coefficient, hunits]
    calc significand * 2 ^ binade * 5 ^ 1074
        ≤ 2 ^ 53 * 2 ^ 2045 * 5 ^ 1074 :=
          Nat.mul_le_mul_right _ (Nat.mul_le_mul (Nat.le_of_lt hsignificand) hshift)
      _ < 10 ^ 1383 := by decide +kernel
  rw [← Digits.length_ofNat_le_iff (by decide)] at hlow hhigh
  rw [Decimal.leadingExponent, exactDecimal_exponent]
  omega

theorem toMagnitude_exactDecimal {magnitude : Nat} (hzero : magnitude ≠ 0)
    (h : magnitude < infinity) : (exactDecimal magnitude).toMagnitude = magnitude := by
  have hrange := leadingExponent_exactDecimal hzero h
  have hpow : ∀ places, 5 ^ places ≠ 0 := fun _ => Nat.ne_of_gt (Nat.pow_pos (by decide))
  have hcoefficient : (exactDecimal magnitude).coefficient ≠ 0 := by
    rw [exactDecimal_coefficient]
    exact Nat.mul_ne_zero (units_ne_zero hzero) (hpow 1074)
  have hexponent : (exactDecimal magnitude).exponent + (1074 : Nat) = 0 := by
    rw [exactDecimal_exponent]
    decide
  have hsmall : ¬ ((exactDecimal magnitude).coefficient = 0 ∨
      (exactDecimal magnitude).leadingExponent + 1 < -330) := by omega
  rw [Decimal.toMagnitude, ofDecimal_eq false _ (Int.le_of_eq hexponent.symm), if_neg hsmall,
    if_neg (by omega), hexponent, Int.toNat_zero, Nat.pow_zero, Nat.mul_one,
    exactDecimal_coefficient, ofQuotient, nearest_mul_five_pow, ← unitsPerOne_eq, nearest_units h,
    magnitude_ofMagnitude _ (Nat.le_of_lt h)]

/-! ### Reading back -/

/-- The shortest decimal of a finite magnitude reads back to this magnitude. -/
theorem toMagnitude_shortest {magnitude : Nat} (h : magnitude < infinity) :
    (shortest magnitude).toMagnitude = magnitude := by
  unfold shortest
  split
  · next hzero => rw [hzero, toMagnitude_eq_zero rfl]
  · next hzero =>
    cases hfound : (List.range' 1 17).findSome? (withDigits? magnitude) with
    | none => exact toMagnitude_exactDecimal hzero h
    | some d =>
      obtain ⟨digits, -, hdigits⟩ := List.exists_of_findSome?_eq_some hfound
      simpa using List.find?_some hdigits

theorem coefficient_shortest_ne_zero {magnitude : Nat} (hzero : magnitude ≠ 0)
    (h : magnitude < infinity) : (shortest magnitude).coefficient ≠ 0 := by
  intro hcoefficient
  have hback := toMagnitude_shortest h
  rw [toMagnitude_eq_zero hcoefficient] at hback
  exact hzero hback.symm

/-! ### How many digits the exact value has -/

/-- A power of two takes a factor of ten from each power of five that it meets.  What is left besides
the tens are fives or twos, but not both. -/
theorem exists_mul_ten_pow_eq (significand binade places : Nat) :
    ∃ n k, significand * 2 ^ binade * 5 ^ places = n * 10 ^ k ∧
      (n ≤ significand * 5 ^ places ∨ n = significand * 2 ^ (binade - places)) := by
  have hten : ∀ k, 10 ^ k = 2 ^ k * 5 ^ k := fun k => by rw [← Nat.mul_pow]
  by_cases hbinade : binade ≤ places
  · refine ⟨significand * 5 ^ (places - binade), binade, ?_, Or.inl ?_⟩
    · have hfive : 5 ^ places = 5 ^ (places - binade) * 5 ^ binade := by
        rw [← Nat.pow_add, Nat.sub_add_cancel hbinade]
      rw [hfive, hten]
      ac_rfl
    · exact Nat.mul_le_mul_left _ (Nat.pow_le_pow_right (by decide) (Nat.sub_le _ _))
  · refine ⟨significand * 2 ^ (binade - places), places, ?_, Or.inr rfl⟩
    have htwo : 2 ^ binade = 2 ^ (binade - places) * 2 ^ places := by
      rw [← Nat.pow_add, Nat.sub_add_cancel (by omega)]
    rw [htwo, hten]
    ac_rfl

theorem length_digits_exactDecimal {magnitude : Nat} (h : magnitude < infinity) :
    (exactDecimal magnitude).digits.length ≤ 768 := by
  obtain ⟨significand, binade, hsignificand, hbinade, hunits⟩ := exists_units_eq h
  obtain ⟨n, k, hn, hbound⟩ := exists_mul_ten_pow_eq significand binade 1074
  have hlt : n < 10 ^ 768 := by
    rcases hbound with hsmall | hlarge
    · calc n ≤ significand * 5 ^ 1074 := hsmall
        _ ≤ 2 ^ 53 * 5 ^ 1074 := Nat.mul_le_mul_right _ (Nat.le_of_lt hsignificand)
        _ < 10 ^ 768 := by decide +kernel
    · have hexcess : binade - 1074 ≤ 971 := by omega
      have hshift := Nat.pow_le_pow_right (n := 2) (by decide) hexcess
      calc n = significand * 2 ^ (binade - 1074) := hlarge
        _ ≤ 2 ^ 53 * 2 ^ 971 := Nat.mul_le_mul (Nat.le_of_lt hsignificand) hshift
        _ < 10 ^ 768 := by decide +kernel
  -- the factors of ten are zeros at the end, which are no significant digits
  have hscale : exactDecimal magnitude = (⟨n, -1074 + k⟩ : Decimal).scale k := by
    rw [Decimal.scale, ← hn, ← hunits, exactDecimal_eq, Int.add_sub_cancel]
  rw [hscale, Decimal.digits_scale]
  exact Nat.le_trans (Decimal.length_digits_le _) ((Digits.length_ofNat_le_iff (by decide)).mpr hlt)

/-! ### How many digits a grid gives -/

/-- What the place of the point says about the value. -/
theorem exists_pointPlace_eq (magnitude : Nat) :
    ∃ size least : Nat, pointPlace magnitude = size - least ∧
      units magnitude * 10 ^ least < 10 ^ size * unitsPerOne := by
  have hpow : ∀ k, Nat.pow 10 k = 10 ^ k := fun _ => rfl
  have hplace : pointPlace magnitude =
      (Digits.ofNat (units magnitude * 10 ^ 324 / unitsPerOne)).length - (324 : Nat) := by
    rw [pointPlace, hpow 324, Nat.cast_ofNat]
  have hlt := Digits.lt_pow_length_ofNat (units magnitude * 10 ^ 324 / unitsPerOne)
  rw [Nat.div_lt_iff_lt_mul unitsPerOne_pos] at hlt
  exact ⟨_, 324, hplace, hlt⟩

/-- On the grid of so many digits the value has no more digits than that. -/
theorem onGrid_lt (magnitude digits : Nat) :
    (onGrid magnitude (pointPlace magnitude - digits)).1 <
      10 ^ digits * (onGrid magnitude (pointPlace magnitude - digits)).2 := by
  obtain ⟨size, least, hplace, hlt⟩ := exists_pointPlace_eq magnitude
  have hten : ∀ k, 0 < 10 ^ k := fun _ => Nat.pow_pos (by decide)
  rw [hplace, onGrid]
  -- either way the bound on the value is multiplied by what the grid leaves of its power of ten
  split
  · have hshift : ((size : Int) - least - digits).natAbs + size = least + digits := by omega
    apply Nat.lt_of_mul_lt_mul_right (a := 10 ^ size)
    calc units magnitude * 10 ^ ((size : Int) - least - digits).natAbs * 10 ^ size
        = units magnitude * 10 ^ least * 10 ^ digits := by
          rw [Nat.mul_assoc, Nat.mul_assoc, ← Nat.pow_add, ← Nat.pow_add, hshift]
      _ < 10 ^ size * unitsPerOne * 10 ^ digits := Nat.mul_lt_mul_of_pos_right hlt (hten digits)
      _ = 10 ^ digits * unitsPerOne * 10 ^ size := by ac_rfl
  · have hshift : size = digits + (((size : Int) - least - digits).toNat + least) := by omega
    apply Nat.lt_of_mul_lt_mul_right (a := 10 ^ least)
    calc units magnitude * 10 ^ least
        < 10 ^ size * unitsPerOne := hlt
      _ = 10 ^ digits * (10 ^ ((size : Int) - least - digits).toNat * 10 ^ least) *
          unitsPerOne := by rw [← Nat.pow_add, ← Nat.pow_add, ← hshift]
      _ = 10 ^ digits * (unitsPerOne * 10 ^ ((size : Int) - least - digits).toNat) *
          10 ^ least := by ac_rfl

theorem coefficient_le_of_mem_neighbours {magnitude : Nat} {exponent : Int} {d : Decimal}
    (h : d ∈ neighbours magnitude exponent) :
    d.coefficient ≤ (onGrid magnitude exponent).1 / (onGrid magnitude exponent).2 + 1 := by
  simp only [neighbours] at h
  split at h
  all_goals
    simp only [List.mem_cons, List.not_mem_nil, or_false] at h
    rcases h with rfl | rfl
    · simp
    · simp

theorem length_digits_withDigits? {magnitude digits : Nat} {d : Decimal}
    (h : withDigits? magnitude digits = some d) : d.digits.length ≤ digits + 1 := by
  have hvalue : (onGrid magnitude (pointPlace magnitude - digits)).1 /
      (onGrid magnitude (pointPlace magnitude - digits)).2 < 10 ^ digits :=
    Nat.div_lt_of_lt_mul (Nat.mul_comm _ _ ▸ onGrid_lt magnitude digits)
  -- the upper neighbour may be the next power of ten
  have hle : d.coefficient ≤ 10 ^ digits :=
    Nat.le_trans (coefficient_le_of_mem_neighbours (List.mem_of_find?_eq_some h)) hvalue
  have hlt : d.coefficient < 10 ^ (digits + 1) :=
    Nat.lt_of_le_of_lt hle (Nat.pow_lt_pow_right (by decide) (Nat.lt_succ_self digits))
  exact Nat.le_trans d.length_digits_le ((Digits.length_ofNat_le_iff (by omega)).mpr hlt)

/-! ### How many digits the shortest decimal has -/

theorem length_digits_shortest {magnitude : Nat} (h : magnitude < infinity) :
    (shortest magnitude).digits.length ≤ 768 := by
  unfold shortest
  split
  · decide
  · cases hfound : (List.range' 1 17).findSome? (withDigits? magnitude) with
    | none => exact length_digits_exactDecimal h
    | some d =>
      obtain ⟨digits, hmem, hdigits⟩ := List.exists_of_findSome?_eq_some hfound
      have hlength := length_digits_withDigits? hdigits
      rw [List.mem_range'_1] at hmem
      exact Nat.le_trans hlength (by omega)

end DocQuery.Binary64
